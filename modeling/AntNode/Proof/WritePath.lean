import AntNode.Lib.Linearise
import AntNode.Proof.PaymentCache
import AntNode.WritePath

/-!
# What a node stores was paid for

Requests interleave at every await, share the payment cache and race for the store. What carries every
interleaving is what a request knows when it pauses: past the checks its chunk has its address and its
size, past the admission the node was among the closest, and past the payment the key of the request
was verified, by its own proof or by that of another request whose verification is cached.
-/

namespace AntNode

variable {H : Type} [Digest H] [CommitmentProtocol H] [QuoteProtocol H] [MerkleProtocol H]
  [ProofCodec H]

namespace PaymentSystem

variable {calls : Nat → PaymentCall H} {s : PaymentSystem H} {capacity : Nat}
  {events : List (PaymentEvent H)}

omit [CommitmentProtocol H] [QuoteProtocol H] [MerkleProtocol H] [ProofCodec H] in
theorem afterMiss_ne_ok (call : PaymentCall H) (status : PaymentStatus) :
    afterMiss call ≠ .done (some (.ok status)) := by
  unfold afterMiss
  intro heq
  split at heq
  · cases heq
  · split at heq <;> cases heq

/-- A payment has been verified for the address of the call, at its own strength or more. -/
def Backed (calls : Nat → PaymentCall H) (capacity : Nat) (events : List (PaymentEvent H))
    (c : Nat) : Prop :=
  ∃ c', (calls c').xorname = (calls c).xorname ∧
    ((calls c).context = .clientPut → (calls c').context = .clientPut) ∧
    Runs.Occurred (step calls) (Verifies calls c') (init capacity) events

theorem Backed.concat {c : Nat} (hbacked : Backed calls capacity events c) (e : PaymentEvent H) :
    Backed calls capacity (events ++ [e]) c := by
  obtain ⟨c', hx, hcontext, hverified⟩ := hbacked
  exact ⟨c', hx, hcontext, hverified.concat e⟩

theorem backed_of_cached (hfrom : From calls capacity events s) {c : Nat}
    (hcached : (checkPaymentRequired s.cache (calls c).xorname (calls c).context).1
      = .cachedAsVerified) : Backed calls capacity events c := by
  cases hcontext : (calls c).context with
  | clientPut =>
      rw [hcontext] at hcached
      obtain ⟨c', hx, hlevel, hverified⟩ := hfrom.entries _ _
        (Lru.peek_eq_some_iff.mp (checkPaymentRequired_clientPut.mp hcached))
      exact ⟨c', hx, fun _ => hlevel rfl, hverified⟩
  | paidListAdmission =>
      rw [hcontext] at hcached
      obtain ⟨level, hpeek⟩ :=
        Option.isSome_iff_exists.mp (checkPaymentRequired_paidList.mp hcached)
      obtain ⟨c', hx, -, hverified⟩ := hfrom.entries _ level (Lru.peek_eq_some_iff.mp hpeek)
      refine ⟨c', hx, fun hput => ?_, hverified⟩
      rw [hcontext] at hput
      cases hput

/-- A call succeeds when it finds its address cached, or has verified the payment itself. -/
theorem ok_of_step {e : PaymentEvent H} {s' : PaymentSystem H} {c : Nat} {status : PaymentStatus}
    (hstep : step calls s e = some s') (hok : s'.phase c = .done (some (.ok status))) :
    s.phase c = .done (some (.ok status)) ∨ s.phase c = .verified ∨
      (checkPaymentRequired s.cache (calls c).xorname (calls c).context).1 = .cachedAsVerified := by
  have hmoved : ∀ c₀ phase, Function.update s.phase c₀ phase c = .done (some (.ok status)) →
      s.phase c = .done (some (.ok status)) ∨ c = c₀ ∧ phase = .done (some (.ok status)) := by
    intro c₀ phase hupdate
    by_cases heq : c = c₀
    · rw [heq, Function.update_self] at hupdate
      exact .inr ⟨heq, hupdate⟩
    · rw [Function.update_of_ne heq] at hupdate
      exact .inl hupdate
  cases e with
  | lookup c₀ =>
      simp only [step] at hstep
      split at hstep
      · obtain rfl := Option.some.inj hstep
        rcases hmoved _ _ hok with hold | ⟨rfl, hphase⟩
        · exact .inl hold
        · split_ifs at hphase with hcached
          · exact .inr (.inr hcached)
          · exact absurd hphase (afterMiss_ne_ok _ _)
      · cases hstep
  | verify c₀ world =>
      simp only [step] at hstep
      split at hstep
      · obtain rfl := Option.some.inj hstep
        rcases hmoved _ _ hok with hold | ⟨-, hphase⟩
        · exact .inl hold
        · split at hphase <;> cases hphase
      · cases hstep
  | insert c₀ =>
      simp only [step] at hstep
      split at hstep
      · rename_i hverified
        obtain rfl := Option.some.inj hstep
        rcases hmoved _ _ hok with hold | ⟨rfl, -⟩
        · exact .inl hold
        · exact .inr (.inl hverified)
      · cases hstep
  | cancel c₀ =>
      have hcancelled : some (s.goto c₀ (.done none)) = some s' →
          s.phase c = .done (some (.ok status)) := by
        intro hgoto
        obtain rfl := Option.some.inj hgoto
        rcases hmoved _ _ hok with hold | ⟨-, hphase⟩
        · exact hold
        · cases hphase
      simp only [step] at hstep
      split at hstep
      · exact .inl (hcancelled hstep)
      · exact .inl (hcancelled hstep)
      · cases hstep
  | check x context =>
      obtain rfl := Option.some.inj hstep
      exact .inl hok
  | evict x =>
      obtain rfl := Option.some.inj hstep
      exact .inl hok

theorem verified_of_done (hrun : Runs.run (step calls) (init capacity) events = some s) {c : Nat}
    {status : PaymentStatus} (hdone : s.phase c = .done (some (.ok status))) :
    Backed calls capacity events c := by
  refine Runs.history_induction (I := fun events s => ∀ c status,
    s.phase c = .done (some (.ok status)) → Backed calls capacity events c)
    (fun c status hdone => by cases hdone) ?_ hrun c status hdone
  intro events mid e s' hmid ih hstep c status hdone
  have hfrom := from_run hmid
  rcases ok_of_step hstep hdone with hold | hverified | hcached
  · exact (ih c status hold).concat e
  · exact ⟨c, rfl, id, (hfrom.verified c hverified).concat e⟩
  · exact (backed_of_cached hfrom hcached).concat e

end PaymentSystem

variable [ProofSerializer H]

namespace WriteNode

/-! ### What a request has behind it -/

/-- The content has its address, and is not too large. -/
def Genuine (ctx : WriteContext H) (key : H) (content : Bytes) : Prop :=
  blake3 content = key ∧ content.length ≤ ctx.maxChunkSize

/-- The routing table has this node close enough to the key of the request. -/
def Admits (ctx : WriteContext H) (routing : Option (RoutingTable H)) : WriteRequest H → Prop
  | .put request => ∀ table ∈ routing,
      ctx.selfId ∈ table.findClosestNodesLocalWithSelf request.address kBucketSize
  | .offer _ offer => ∃ table ∈ routing, ctx.selfId ∈
      table.findClosestNodesLocalWithSelf offer.key ctx.config.paidListCloseGroupSize
  | .notify notify => ∃ table ∈ routing, ctx.selfId ∈
      table.findClosestNodesLocalWithSelf notify.key ctx.config.paidListCloseGroupSize

/-- The payment of the key was verified in the run, by a client put where that is asked. -/
def Paid (requests : Nat → WriteRequest H) (events : List (WriteEvent H)) (key : H)
    (context : VerificationContext) : Prop :=
  ∃ c world proof, (requests c).call.xorname = key ∧
    (context = .clientPut → (requests c).call.context = .clientPut) ∧
    (requests c).call.paymentProof = some proof ∧ .payment (.verify c world) ∈ events ∧
    verifyProof world key proof (requests c).call.context = .ok ()

def Admitted (ctx : WriteContext H) (requests : Nat → WriteRequest H) (events : List (WriteEvent H))
    (id : Nat) : Prop :=
  ∃ routing capacity, .admission id routing capacity ∈ events ∧ Admits ctx routing (requests id)

/-- The request brought the chunk, was admitted and paid for, and its chunk was put. -/
structure WrittenBy (ctx : WriteContext H) (requests : Nat → WriteRequest H)
    (events : List (WriteEvent H)) (id : Nat) (key : H) (content : Bytes) : Prop where
  chunk : (requests id).chunk = some (key, content)
  genuine : Genuine ctx key content
  admitted : Admitted ctx requests events id
  paid : Paid requests events key .clientPut
  put : .store id (.ok ()) ∈ events

/-- The reply says that the chunk is stored. -/
def Stores (reply : WriteReply H) (key : H) : Prop :=
  reply = .put (.success key) ∨ reply = .offer (.accepted key)

/-- The reply of a request whose put failed. -/
def PutFailed (reply : WriteReply H) (e : String) : Prop :=
  reply = .put (.error (.storageFailed ("storage error: " ++ e))) ∨
    ∃ key, reply = .offer (.rejected key ("storage error: " ++ e))

/-- An offer that goes out is that of a PUT this node stored, with the proof the PUT came with. -/
def Forwarded (ctx : WriteContext H) (requests : Nat → WriteRequest H) (events : List (WriteEvent H))
    (key : H) (data proof : Bytes) : Prop :=
  ∃ id request own, requests id = .put request ∧ request.paymentProof = some own ∧
    proof = stripCommitmentSidecars H own ∧ WrittenBy ctx requests events id key data

/-- What a node may be trusted for after a run. -/
structure SoundWrites (ctx : WriteContext H) (requests : Nat → WriteRequest H) (origin : WriteNode H)
    (events : List (WriteEvent H)) (s : WriteNode H) : Prop where
  stored : ∀ key content, s.chunks.lookup key = some content →
    origin.chunks.lookup key = some content ∨ Genuine ctx key content ∧
      (.fetched key content ∈ events ∨ ∃ id, WrittenBy ctx requests events id key content)
  paid : ∀ key ∈ s.paidList, key ∈ origin.paidList ∨ .paidByNetwork key ∈ events ∨
    Paid requests events key .paidListAdmission
  acknowledged : ∀ id reply key, s.phase id = .replied reply → Stores reply key →
    ∃ content, WrittenBy ctx requests events id key content
  offered : ∀ fanOut ∈ s.fanOuts, ∀ peer offer, (peer, offer) ∈ fanOut.offers →
    peer ≠ ctx.selfId ∧ peer ∈ fanOut.possessionPeers ∧
      Forwarded ctx requests events offer.key offer.data offer.proofOfPayment
  unchanged : ∀ id reply, s.phase id = .replied reply → (∀ key, ¬Stores reply key) →
    ∀ before e after mid next, events = before ++ e :: after →
      Runs.run (step ctx requests) origin before = some mid → step ctx requests mid e = some next →
      e.task = some id →
      next.chunks = mid.chunks ∧ next.freshWrites = mid.freshWrites ∧
        (next.paidList = mid.paidList ∨ reply = .notify ∨
          ∃ error, .store id (.error error) ∈ events ∧ PutFailed reply error)

/-! ### What a step does -/

section Steps

variable {ctx : WriteContext H} {requests : Nat → WriteRequest H} {s s' origin : WriteNode H}
  {e : WriteEvent H} {events : List (WriteEvent H)}

def paymentOf : WriteEvent H → Option (PaymentEvent H)
  | .payment e => some e
  | _ => none

/-- The phase a request gets to without a write. -/
inductive Enters (ctx : WriteContext H) (requests : Nat → WriteRequest H) (s : WriteNode H)
    (id : Nat) : WriteEvent H → WritePhase H → Prop where
  | checked {existsFails : Option String} {capacity : Except String Unit}
      (before : s.phase id = .received)
      (genuine : ∀ key content, (requests id).chunk = some (key, content) →
        Genuine ctx key content) :
      Enters ctx requests s id (.check id existsFails capacity) .admitting
  | admitted {routing : Option (RoutingTable H)} {capacity : Except String Unit}
      (before : s.phase id = .admitting) (admits : Admits ctx routing (requests id)) :
      Enters ctx requests s id (.admission id routing capacity) .paying
  | paid {phase : WritePhase H} {status : PaymentStatus} (before : s.phase id = .paying)
      (done : s.payments.phase id = .done (some (.ok status)))
      (next : phase = .storing ∨ phase = .insertingPaid) :
      Enters ctx requests s id (.paid id) phase
  | refused {error : String} {reply : WriteReply H} (before : s.phase id = .storing)
      (failed : PutFailed reply error) :
      Enters ctx requests s id (.store id (.error error)) (.replied reply)
  | ended {e : WriteEvent H} {reply : WriteReply H}
      (before : s.phase id = .received ∨ s.phase id = .admitting ∨ s.phase id = .paying)
      (fails : ∀ key, ¬Stores reply key) : Enters ctx requests s id e (.replied reply)
  | dropped (before : s.phase id = .paying) : Enters ctx requests s id (.paid id) .dropped

/-- Everything a step can do. -/
inductive Transition (ctx : WriteContext H) (requests : Nat → WriteRequest H) (s : WriteNode H) :
    WriteEvent H → WriteNode H → Prop where
  | enters {e : WriteEvent H} {id : Nat} {phase : WritePhase H} {reports : List H}
      (task : e.task = some id) (silent : paymentOf e = none)
      (enters : Enters ctx requests s id e phase) :
      Transition ctx requests s e
        { s with
          phase := Function.update s.phase id phase
          trustReports := reports }
  | pays {e : PaymentEvent H} {payments : PaymentSystem H}
      (active : ∀ id, (WriteEvent.payment e).task = some id → s.phase id = .paying)
      (pays : s.payments.step (fun id => (requests id).call) e = some payments) :
      Transition ctx requests s (.payment e) { s with payments := payments }
  | inserts {id : Nat} {inserted : Bool} {phase : WritePhase H} {paidList : Finset H}
      (before : s.phase id = .insertingPaid)
      (next : phase = .replied .notify ∨ phase = .storing)
      (list : paidList ⊆ insert (requests id).call.xorname s.paidList) :
      Transition ctx requests s (.insertPaid id inserted)
        { s with
          phase := Function.update s.phase id phase
          paidList := paidList }
  | stores {id : Nat} {key : H} {content : Bytes} {reply : WriteReply H}
      {fresh : List (FreshWriteEvent H)} {chunks : FiniteMap H Bytes} (before : s.phase id = .storing)
      (chunk : (requests id).chunk = some (key, content)) (reply_eq : Stores reply key)
      (put : chunks = s.chunks ∨ chunks = s.chunks.insert key content)
      (forwards : ∀ event ∈ fresh, event.key = key ∧ event.data = content ∧ ∃ request own,
        requests id = .put request ∧ request.paymentProof = some own ∧
          event.paymentProof = stripCommitmentSidecars H own) :
      Transition ctx requests s (.store id (.ok ()))
        { s with
          chunks := chunks
          phase := Function.update s.phase id (.replied reply)
          freshWrites := s.freshWrites ++ fresh }
  | replicates {event : FreshWriteEvent H} {rest : List (FreshWriteEvent H)} {inserted : Bool}
      {routing notifyRouting : RoutingTable H} {encodesOffer encodesNotify : Bool}
      {paidList : Finset H}
      (fresh : s.freshWrites = event :: rest) (list : paidList ⊆ insert event.key s.paidList) :
      Transition ctx requests s
        (.replicate inserted routing notifyRouting encodesOffer encodesNotify)
        { s with
          freshWrites := rest
          fanOuts :=
            s.fanOuts ++ [replicateFresh ctx routing notifyRouting event encodesOffer encodesNotify]
          paidList := paidList }
  | fetches {key : H} {data : Bytes} {chunks : FiniteMap H Bytes} (genuine : Genuine ctx key data)
      (put : chunks = s.chunks ∨ chunks = s.chunks.insert key data) :
      Transition ctx requests s (.fetched key data) { s with chunks := chunks }
  | verifies {key : H} :
      Transition ctx requests s (.paidByNetwork key) { s with paidList := insert key s.paidList }
  | deletes {key : H} :
      Transition ctx requests s (.deleteChunk key) { s with chunks := s.chunks.erase key }
  | removes {key : H} :
      Transition ctx requests s (.removePaid key) { s with paidList := s.paidList.erase key }

omit [CommitmentProtocol H] [QuoteProtocol H] [MerkleProtocol H] [ProofCodec H]
  [ProofSerializer H] in
theorem put_chunks (s : WriteNode H) (key : H) (content : Bytes) :
    ∃ chunks, s.put key content = { s with chunks := chunks } ∧
      (chunks = s.chunks ∨ chunks = s.chunks.insert key content) := by
  unfold put
  split_ifs
  · exact ⟨s.chunks, rfl, .inl rfl⟩
  · exact ⟨_, rfl, .inr rfl⟩

omit [CommitmentProtocol H] [QuoteProtocol H] [MerkleProtocol H] [ProofCodec H]
  [ProofSerializer H] in
theorem insertPaid_subset (s : WriteNode H) (key : H) (inserted : Bool) :
    ∃ paidList, s.insertPaid key inserted = { s with paidList := paidList } ∧
      paidList ⊆ insert key s.paidList := by
  unfold insertPaid
  split_ifs
  · exact ⟨_, rfl, subset_rfl⟩
  · exact ⟨s.paidList, rfl, Finset.subset_insert _ _⟩

/-- A request moves on its own. -/
theorem Transition.goto {id : Nat} {phase : WritePhase H} (htask : e.task = some id)
    (hsilent : paymentOf e = none) (henters : Enters ctx requests s id e phase) :
    Transition ctx requests s e (s.goto id phase) :=
  .enters htask hsilent henters

theorem transition_of_check {id : Nat} {existsFails : Option String} {capacity : Except String Unit}
    (hphase : s.phase id = .received) :
    Transition ctx requests s (.check id existsFails capacity)
      (s.check ctx id (requests id) existsFails capacity) := by
  have hended : ∀ {reply : WriteReply H}, (∀ key, ¬Stores reply key) → Enters ctx requests s id
      (.check id existsFails capacity) (.replied reply) := .ended (.inl hphase)
  cases hrequest : requests id with
  | put request =>
      simp only [check, checkPut]
      split
      · exact .goto rfl rfl (hended (by simp [Stores]))
      · rename_i hsize
        split
        · exact .goto rfl rfl (hended (by simp [Stores]))
        · rename_i hhash
          split
          · exact .goto rfl rfl (hended (by simp [Stores]))
          · split
            · exact .goto rfl rfl (hended (by simp [Stores]))
            · split
              · exact .goto rfl rfl (hended (by simp [Stores]))
              · refine .goto rfl rfl (.checked hphase fun key content hchunk => ?_)
                rw [hrequest] at hchunk
                obtain ⟨rfl, rfl⟩ := Prod.mk.inj (Option.some.inj hchunk)
                exact ⟨not_not.mp hhash, Nat.le_of_not_lt hsize⟩
  | offer source offer =>
      simp only [check, checkOffer]
      split_ifs with hproof hsize hhash
      · exact .goto rfl rfl (hended (by simp [Stores]))
      · exact .enters rfl rfl (hended (by simp [Stores]))
      · exact .enters rfl rfl (hended (by simp [Stores]))
      · refine .goto rfl rfl (.checked hphase fun key content hchunk => ?_)
        rw [hrequest] at hchunk
        obtain ⟨rfl, rfl⟩ := Prod.mk.inj (Option.some.inj hchunk)
        exact ⟨not_not.mp hhash, Nat.le_of_not_lt hsize⟩
  | notify notify =>
      simp only [check, checkNotify]
      split_ifs
      · exact .goto rfl rfl (hended (by simp [Stores]))
      · refine .goto rfl rfl (.checked hphase fun key content hchunk => ?_)
        rw [hrequest] at hchunk
        cases hchunk

theorem transition_of_admission {id : Nat} {routing : Option (RoutingTable H)}
    {capacity : Except String Unit} (hphase : s.phase id = .admitting)
    (hadmission : s.admission ctx id (requests id) routing capacity = some s') :
    Transition ctx requests s (.admission id routing capacity) s' := by
  have hended : ∀ {reply : WriteReply H}, (∀ key, ¬Stores reply key) → Enters ctx requests s id
      (.admission id routing capacity) (.replied reply) := .ended (.inr (.inl hphase))
  cases hrequest : requests id with
  | put request =>
      rw [hrequest] at hadmission
      obtain rfl := Option.some.inj hadmission
      simp only [admitPut]
      split_ifs with hresponsible
      · refine .goto rfl rfl (.admitted hphase ?_)
        rw [hrequest]
        intro table hrouting
        rw [Option.mem_def.mp hrouting, Option.all_some] at hresponsible
        exact of_decide_eq_true hresponsible
      · exact .goto rfl rfl (hended (by simp [Stores]))
  | offer source offer =>
      rw [hrequest] at hadmission
      obtain ⟨table, rfl, rfl⟩ := Option.map_eq_some_iff.mp hadmission
      simp only [admitOffer]
      split_ifs with hresponsible
      · cases capacity with
        | error e => exact .goto rfl rfl (hended (by simp [Stores]))
        | ok =>
            refine .goto rfl rfl (.admitted hphase ?_)
            rw [hrequest]
            exact ⟨table, rfl, of_decide_eq_true hresponsible⟩
      · exact .goto rfl rfl (hended (by simp [Stores]))
  | notify notify =>
      rw [hrequest] at hadmission
      obtain ⟨table, rfl, rfl⟩ := Option.map_eq_some_iff.mp hadmission
      simp only [admitNotify]
      split_ifs with hresponsible
      · refine .goto rfl rfl (.admitted hphase ?_)
        rw [hrequest]
        exact ⟨table, rfl, of_decide_eq_true hresponsible⟩
      · exact .goto rfl rfl (hended (by simp [Stores]))

theorem transition_of_afterPayment {id : Nat} {result : Except String PaymentStatus}
    (hphase : s.phase id = .paying) (hdone : s.payments.phase id = .done (some result)) :
    Transition ctx requests s (.paid id) (s.afterPayment id (requests id) result) := by
  have hended : ∀ {reply : WriteReply H}, (∀ key, ¬Stores reply key) → Enters ctx requests s id
      (.paid id) (.replied reply) := .ended (.inr (.inr hphase))
  cases result with
  | error e => cases requests id <;> exact .goto rfl rfl (hended (by simp [Stores]))
  | ok status =>
      cases requests id with
      | put request =>
          simp only [afterPayment]
          split_ifs
          · exact .goto rfl rfl (.paid hphase hdone (.inl rfl))
          · exact .goto rfl rfl (hended (by simp [Stores]))
      | offer source offer =>
          simp only [afterPayment]
          split_ifs
          · exact .goto rfl rfl (.paid hphase hdone (.inr rfl))
          · exact .goto rfl rfl (hended (by simp [Stores]))
      | notify notify =>
          simp only [afterPayment]
          split_ifs
          · exact .goto rfl rfl (.paid hphase hdone (.inr rfl))
          · exact .goto rfl rfl (hended (by simp [Stores]))

omit [QuoteProtocol H] in
theorem mem_freshWrite {request : ChunkPutRequest H} {event : FreshWriteEvent H}
    (hmem : event ∈ freshWrite ctx request) :
    event.key = request.address ∧ event.data = request.content ∧ ∃ own,
      request.paymentProof = some own ∧ event.paymentProof = stripCommitmentSidecars H own := by
  unfold freshWrite at hmem
  split at hmem
  · rename_i proof _ hproof
    obtain rfl := List.mem_singleton.mp hmem
    exact ⟨rfl, rfl, proof, hproof, rfl⟩
  · cases hmem

theorem transition_of_store {id : Nat} {outcome : Except String Unit}
    (hphase : s.phase id = .storing) (hstore : s.store ctx id (requests id) outcome = some s') :
    Transition ctx requests s (.store id outcome) s' := by
  cases hrequest : requests id with
  | put request =>
      rw [hrequest] at hstore
      cases outcome with
      | error e =>
          obtain rfl := Option.some.inj hstore
          exact .goto rfl rfl (.refused hphase (.inl rfl))
      | ok =>
          obtain rfl := Option.some.inj hstore
          obtain ⟨chunks, hput, hchunks⟩ := put_chunks s request.address request.content
          simp only [hput]
          refine .stores hphase (by rw [hrequest]; rfl) (.inl rfl) hchunks fun event hmem => ?_
          obtain ⟨hkey, hdata, own, hown, hstripped⟩ := mem_freshWrite hmem
          exact ⟨hkey, hdata, request, own, hrequest, hown, hstripped⟩
  | offer source offer =>
      rw [hrequest] at hstore
      cases outcome with
      | error e =>
          obtain rfl := Option.some.inj hstore
          exact .goto rfl rfl (.refused hphase (.inr ⟨offer.key, rfl⟩))
      | ok =>
          obtain rfl := Option.some.inj hstore
          obtain ⟨chunks, hput, hchunks⟩ := put_chunks s offer.key offer.data
          rw [hput]
          have hstores : Transition ctx requests s (.store id (.ok ()))
              { s with
                chunks := chunks
                phase := Function.update s.phase id (.replied (.offer (.accepted offer.key)))
                freshWrites := s.freshWrites ++ [] } :=
            .stores hphase (by rw [hrequest]; rfl) (.inr rfl) hchunks (by simp)
          rwa [List.append_nil] at hstores
  | notify notify =>
      rw [hrequest] at hstore
      cases hstore

theorem transition_of_step (hstep : step ctx requests s e = some s') :
    Transition ctx requests s e s' := by
  cases e with
  | check id existsFails capacity =>
      simp only [step, Option.ite_none_right_eq_some, Option.some.injEq] at hstep
      obtain ⟨hphase, rfl⟩ := hstep
      exact transition_of_check hphase
  | admission id routing capacity =>
      simp only [step, Option.ite_none_right_eq_some] at hstep
      exact transition_of_admission hstep.1 hstep.2
  | payment e =>
      simp only [step, Option.ite_none_right_eq_some] at hstep
      obtain ⟨hactive, hnext⟩ := hstep
      obtain ⟨payments, hpays, rfl⟩ := Option.map_eq_some_iff.mp hnext
      refine .pays (fun id htask => ?_) hpays
      rw [htask] at hactive
      simpa using hactive
  | paid id =>
      simp only [step] at hstep
      split_ifs at hstep with hphase
      split at hstep
      · rename_i result hdone
        obtain rfl := Option.some.inj hstep
        exact transition_of_afterPayment hphase hdone
      · obtain rfl := Option.some.inj hstep
        exact .goto rfl rfl (.dropped hphase)
      · cases hstep
  | insertPaid id inserted =>
      simp only [step, Option.ite_none_right_eq_some, Option.some.injEq] at hstep
      obtain ⟨hphase, rfl⟩ := hstep
      obtain ⟨paidList, hinsert, hlist⟩ :=
        insertPaid_subset s (requests id).call.xorname inserted
      rw [hinsert]
      cases requests id with
      | put request => exact .inserts hphase (.inr rfl) hlist
      | offer source offer => exact .inserts hphase (.inr rfl) hlist
      | notify notify => exact .inserts hphase (.inl rfl) hlist
  | store id outcome =>
      simp only [step, Option.ite_none_right_eq_some] at hstep
      exact transition_of_store hstep.1 hstep.2
  | replicate inserted routing notifyRouting encodesOffer encodesNotify =>
      simp only [step] at hstep
      split at hstep
      · cases hstep
      · rename_i event rest hfresh
        obtain rfl := Option.some.inj hstep
        obtain ⟨paidList, hinsert, hlist⟩ := insertPaid_subset
          { s with
            freshWrites := rest
            fanOuts := s.fanOuts ++
              [replicateFresh ctx routing notifyRouting event encodesOffer encodesNotify] }
          event.key inserted
        rw [hinsert]
        exact .replicates hfresh hlist
  | fetched key data =>
      simp only [step, Option.ite_none_right_eq_some, Option.some.injEq] at hstep
      obtain ⟨⟨hsize, hhash⟩, rfl⟩ := hstep
      obtain ⟨chunks, hput, hchunks⟩ := put_chunks s key data
      rw [hput]
      exact .fetches ⟨hhash, hsize⟩ hchunks
  | paidByNetwork key =>
      obtain rfl := Option.some.inj hstep
      exact .verifies
  | deleteChunk key =>
      obtain rfl := Option.some.inj hstep
      exact .deletes
  | removePaid key =>
      obtain rfl := Option.some.inj hstep
      exact .removes

/-! ### What stays true -/

variable {id : Nat} {key : H} {content proof : Bytes} {context : VerificationContext}

omit [ProofSerializer H] in
theorem Paid.concat (hpaid : Paid requests events key context) :
    Paid requests (events ++ [e]) key context := by
  obtain ⟨c, world, proof, hkey, hcontext, hproof, hmem, hok⟩ := hpaid
  exact ⟨c, world, proof, hkey, hcontext, hproof, List.mem_append_left _ hmem, hok⟩

omit [QuoteProtocol H] [MerkleProtocol H] [ProofCodec H] [ProofSerializer H] in
theorem Admitted.concat (hadmitted : Admitted ctx requests events id) :
    Admitted ctx requests (events ++ [e]) id := by
  obtain ⟨routing, capacity, hmem, hadmits⟩ := hadmitted
  exact ⟨routing, capacity, List.mem_append_left _ hmem, hadmits⟩

omit [ProofSerializer H] in
theorem WrittenBy.concat (hwritten : WrittenBy ctx requests events id key content) :
    WrittenBy ctx requests (events ++ [e]) id key content where
  chunk := hwritten.chunk
  genuine := hwritten.genuine
  admitted := hwritten.admitted.concat
  paid := hwritten.paid.concat
  put := List.mem_append_left _ hwritten.put

theorem Forwarded.concat (hforwarded : Forwarded ctx requests events key content proof) :
    Forwarded ctx requests (events ++ [e]) key content proof := by
  obtain ⟨id, request, own, hrequest, hown, hproof, hwritten⟩ := hforwarded
  exact ⟨id, request, own, hrequest, hown, hproof, hwritten.concat⟩

/-- How much a request that has not ended has behind it. -/
def progress : WritePhase H → Nat
  | .received => 0
  | .admitting => 1
  | .paying => 2
  | .insertingPaid | .storing => 3
  | .replied _ | .dropped => 0

/-- What the requests that have not ended know, and what those that stored their chunk have done. -/
structure Known (ctx : WriteContext H) (requests : Nat → WriteRequest H)
    (events : List (WriteEvent H)) (phase : Nat → WritePhase H) : Prop where
  genuine : ∀ id, 1 ≤ progress (phase id) → ∀ key content,
    (requests id).chunk = some (key, content) → Genuine ctx key content
  admitted : ∀ id, 2 ≤ progress (phase id) → Admitted ctx requests events id
  verified : ∀ id, 3 ≤ progress (phase id) →
    Paid requests events (requests id).call.xorname (requests id).call.context
  acknowledged : ∀ id reply key, phase id = .replied reply → Stores reply key →
    ∃ content, WrittenBy ctx requests events id key content

omit [ProofSerializer H] in
theorem Known.concat {phase : Nat → WritePhase H} (hknown : Known ctx requests events phase) :
    Known ctx requests (events ++ [e]) phase where
  genuine := hknown.genuine
  admitted id hid := (hknown.admitted id hid).concat
  verified id hid := (hknown.verified id hid).concat
  acknowledged id reply key hreply hstores := by
    obtain ⟨content, hwritten⟩ := hknown.acknowledged id reply key hreply hstores
    exact ⟨content, hwritten.concat⟩

omit [ProofSerializer H] in
/-- One request moves on. -/
theorem Known.update {phase : Nat → WritePhase H} {next : WritePhase H}
    (hknown : Known ctx requests events phase)
    (hgenuine : 1 ≤ progress next → ∀ key content, (requests id).chunk = some (key, content) →
      Genuine ctx key content)
    (hadmitted : 2 ≤ progress next → Admitted ctx requests events id)
    (hverified : 3 ≤ progress next →
      Paid requests events (requests id).call.xorname (requests id).call.context)
    (hacknowledged : ∀ reply key, next = .replied reply → Stores reply key →
      ∃ content, WrittenBy ctx requests events id key content) :
    Known ctx requests events (Function.update phase id next) := by
  refine ⟨fun other hother => ?_, fun other hother => ?_, fun other hother => ?_,
    fun other reply key hreply => ?_⟩ <;> by_cases heq : other = id
  · subst heq
    rw [Function.update_self] at hother
    exact hgenuine hother
  · rw [Function.update_of_ne heq] at hother
    exact hknown.genuine other hother
  · subst heq
    rw [Function.update_self] at hother
    exact hadmitted hother
  · rw [Function.update_of_ne heq] at hother
    exact hknown.admitted other hother
  · subst heq
    rw [Function.update_self] at hother
    exact hverified hother
  · rw [Function.update_of_ne heq] at hother
    exact hknown.verified other hother
  · subst heq
    rw [Function.update_self] at hreply
    exact hacknowledged reply key hreply
  · rw [Function.update_of_ne heq] at hreply
    exact hknown.acknowledged other reply key hreply

omit [ProofSerializer H] in
/-- A request ends without having stored its chunk. -/
theorem Known.ends {phase : Nat → WritePhase H} {next : WritePhase H}
    (hknown : Known ctx requests events phase) (hprogress : progress next = 0)
    (hnot : ∀ reply key, next = .replied reply → ¬Stores reply key) :
    Known ctx requests events (Function.update phase id next) := by
  refine hknown.update ?_ ?_ ?_ fun reply key hreply hstores => absurd hstores
    (hnot reply key hreply)
  · intro hpast
    omega
  · intro hpast
    omega
  · intro hpast
    omega

/-- Where the data of a node comes from. -/
structure Traced (ctx : WriteContext H) (requests : Nat → WriteRequest H) (origin : WriteNode H)
    (events : List (WriteEvent H)) (s : WriteNode H) : Prop where
  stored : ∀ key content, s.chunks.lookup key = some content →
    origin.chunks.lookup key = some content ∨ Genuine ctx key content ∧
      (.fetched key content ∈ events ∨ ∃ id, WrittenBy ctx requests events id key content)
  paid : ∀ key ∈ s.paidList, key ∈ origin.paidList ∨ .paidByNetwork key ∈ events ∨
    Paid requests events key .paidListAdmission
  fresh : ∀ event ∈ s.freshWrites,
    Forwarded ctx requests events event.key event.data event.paymentProof
  offered : ∀ fanOut ∈ s.fanOuts, ∀ peer offer, (peer, offer) ∈ fanOut.offers →
    peer ≠ ctx.selfId ∧ peer ∈ fanOut.possessionPeers ∧
      Forwarded ctx requests events offer.key offer.data offer.proofOfPayment

/-- What a step adds to the data has to be accounted for. -/
theorem Traced.step (htraced : Traced ctx requests origin events s)
    (hchunks : ∀ key content, s'.chunks.lookup key = some content →
      s.chunks.lookup key = some content ∨ Genuine ctx key content ∧
        (.fetched key content ∈ events ++ [e] ∨
          ∃ id, WrittenBy ctx requests (events ++ [e]) id key content))
    (hlist : ∀ key ∈ s'.paidList, key ∈ s.paidList ∨ .paidByNetwork key ∈ events ++ [e] ∨
      Paid requests (events ++ [e]) key .paidListAdmission)
    (hfresh : ∀ event ∈ s'.freshWrites, event ∈ s.freshWrites ∨
      Forwarded ctx requests (events ++ [e]) event.key event.data event.paymentProof)
    (hoffered : ∀ fanOut ∈ s'.fanOuts, fanOut ∈ s.fanOuts ∨ ∀ peer offer,
      (peer, offer) ∈ fanOut.offers → peer ≠ ctx.selfId ∧ peer ∈ fanOut.possessionPeers ∧
        Forwarded ctx requests (events ++ [e]) offer.key offer.data offer.proofOfPayment) :
    Traced ctx requests origin (events ++ [e]) s' where
  stored key content hlookup := by
    rcases hchunks key content hlookup with hold | hnew
    · rcases htraced.stored key content hold with horigin | ⟨hgenuine, hfetched | ⟨id, hwritten⟩⟩
      · exact .inl horigin
      · exact .inr ⟨hgenuine, .inl (List.mem_append_left _ hfetched)⟩
      · exact .inr ⟨hgenuine, .inr ⟨id, hwritten.concat⟩⟩
    · exact .inr hnew
  paid key hmem := by
    rcases hlist key hmem with hold | hnew
    · rcases htraced.paid key hold with horigin | hnetwork | hpaid
      · exact .inl horigin
      · exact .inr (.inl (List.mem_append_left _ hnetwork))
      · exact .inr (.inr hpaid.concat)
    · exact .inr hnew
  fresh event hmem := by
    rcases hfresh event hmem with hold | hnew
    · exact (htraced.fresh event hold).concat
    · exact hnew
  offered fanOut hmem := by
    rcases hoffered fanOut hmem with hold | hnew
    · intro peer offer hoffer
      obtain ⟨hpeer, hpossession, hforwarded⟩ := htraced.offered fanOut hold peer offer hoffer
      exact ⟨hpeer, hpossession, hforwarded.concat⟩
    · exact hnew

/-- A step that leaves the data alone. -/
theorem Traced.same (htraced : Traced ctx requests origin events s)
    (hchunks : s'.chunks = s.chunks) (hlist : s'.paidList = s.paidList)
    (hfresh : s'.freshWrites = s.freshWrites) (hfanOuts : s'.fanOuts = s.fanOuts) :
    Traced ctx requests origin (events ++ [e]) s' := by
  refine htraced.step ?_ ?_ ?_ ?_
  · rw [hchunks]
    exact fun key content hlookup => .inl hlookup
  · rw [hlist]
    exact fun key hmem => .inl hmem
  · rw [hfresh]
    exact fun event hmem => .inl hmem
  · rw [hfanOuts]
    exact fun fanOut hmem => .inl hmem

/-! ### The payments of a run -/

theorem payments_of_run (hrun : Runs.run (step ctx requests) origin events = some s) :
    Runs.run (PaymentSystem.step fun id => (requests id).call) origin.payments
      (events.filterMap paymentOf) = some s.payments := by
  refine Runs.run_component (fun s e s' hstep => ?_) hrun
  cases transition_of_step hstep with
  | enters _ hsilent _ =>
      rw [hsilent]
      rfl
  | pays _ hpays => exact Runs.run_cons_eq_some.mpr ⟨_, hpays, rfl⟩
  | _ => rfl

omit [ProofSerializer H] in
theorem paid_of_occurred {capacity c : Nat}
    (hverified : Runs.Occurred (PaymentSystem.step fun id => (requests id).call)
      (PaymentSystem.Verifies (fun id => (requests id).call) c) (.init capacity)
      (events.filterMap paymentOf))
    (hcontext : context = .clientPut → (requests c).call.context = .clientPut) :
    Paid requests events (requests c).call.xorname context := by
  obtain ⟨before, e, after, mid, hevents, -, world, proof, rfl, hproof, hok⟩ := hverified
  have hmem : PaymentEvent.verify c world ∈ events.filterMap paymentOf := by
    rw [hevents]
    simp
  obtain ⟨e, hmem, hpayment⟩ := List.mem_filterMap.mp hmem
  have hevent : e = .payment (.verify c world) := by
    cases e with
    | payment e => rw [Option.some.inj hpayment]
    | _ => cases hpayment
  exact ⟨c, world, proof, rfl, hcontext, hproof, hevent ▸ hmem, hok⟩

/-- A payment that came back as verified was verified in the run. -/
theorem paid_of_done {capacity : Nat} {chunks : FiniteMap H Bytes} {paidList : Finset H}
    {status : PaymentStatus}
    (hrun : Runs.run (step ctx requests) (start capacity chunks paidList) events = some s)
    (hdone : s.payments.phase id = .done (some (.ok status))) :
    Paid requests events (requests id).call.xorname (requests id).call.context := by
  obtain ⟨c, hkey, hcontext, hverified⟩ :=
    PaymentSystem.verified_of_done (payments_of_run hrun) hdone
  rw [← hkey]
  exact paid_of_occurred hverified hcontext

/-! ### One step -/

variable {capacity : Nat} {chunks : FiniteMap H Bytes} {paidList : Finset H}

omit [Digest H] [CommitmentProtocol H] [QuoteProtocol H] [MerkleProtocol H] [ProofCodec H]
  [ProofSerializer H] in
theorem xorname_of_chunk {request : WriteRequest H} (hchunk : request.chunk = some (key, content)) :
    request.call.xorname = key ∧ request.call.context = .clientPut := by
  cases request with
  | put request =>
      obtain ⟨rfl, -⟩ := Prod.mk.inj (Option.some.inj hchunk)
      exact ⟨rfl, rfl⟩
  | offer source offer =>
      obtain ⟨rfl, -⟩ := Prod.mk.inj (Option.some.inj hchunk)
      exact ⟨rfl, rfl⟩
  | notify notify => cases hchunk

omit [ProofSerializer H] in
/-- A request that puts its chunk has everything behind it. -/
theorem writtenBy_of_storing (hknown : Known ctx requests events s.phase)
    (hphase : s.phase id = .storing) (hchunk : (requests id).chunk = some (key, content)) :
    WrittenBy ctx requests (events ++ [.store id (.ok ())]) id key content := by
  have hprogress : progress (s.phase id) = 3 := by
    rw [hphase]
    rfl
  obtain ⟨hkey, hcontext⟩ := xorname_of_chunk hchunk
  have hpaid := hknown.verified id (by omega)
  rw [hkey, hcontext] at hpaid
  exact ⟨hchunk, hknown.genuine id (by omega) key content hchunk,
    (hknown.admitted id (by omega)).concat, hpaid.concat, by simp⟩

theorem known_of_enters {phase : WritePhase H}
    (hrun : Runs.run (step ctx requests) (start capacity chunks paidList) events = some s)
    (hknown : Known ctx requests events s.phase) (henters : Enters ctx requests s id e phase) :
    Known ctx requests (events ++ [e]) (Function.update s.phase id phase) := by
  have hpast : ∀ {phase : WritePhase H}, s.phase id = phase → 1 ≤ progress phase →
      ∀ key content, (requests id).chunk = some (key, content) → Genuine ctx key content := by
    intro phase hphase hle
    exact hknown.genuine id (hphase ▸ hle)
  cases henters with
  | checked before genuine =>
      refine hknown.concat.update (fun _ => genuine) (fun h => ?_) (fun h => ?_) (by simp)
      · simp [progress] at h
      · simp [progress] at h
  | @admitted routing capacity before admits =>
      refine hknown.concat.update (fun _ => hpast before (by simp [progress])) (fun _ => ?_)
        (fun h => ?_) (by simp)
      · exact ⟨routing, capacity, by simp, admits⟩
      · simp [progress] at h
  | paid before done next =>
      have hadmitted := hknown.admitted id (by rw [before]; simp [progress])
      have hpaid := paid_of_done hrun done
      refine hknown.concat.update (fun _ => hpast before (by simp [progress]))
        (fun _ => hadmitted.concat) (fun _ => hpaid.concat) ?_
      rcases next with rfl | rfl <;> simp
  | refused before failed =>
      refine hknown.concat.ends rfl ?_
      rintro reply key heq
      obtain rfl := WritePhase.replied.inj heq
      rcases failed with rfl | ⟨key', rfl⟩ <;> simp [Stores]
  | ended before fails =>
      refine hknown.concat.ends rfl ?_
      rintro reply key heq
      obtain rfl := WritePhase.replied.inj heq
      exact fails key
  | dropped before => exact hknown.concat.ends rfl (by simp)

theorem Known.of_transition
    (hrun : Runs.run (step ctx requests) (start capacity chunks paidList) events = some s)
    (hknown : Known ctx requests events s.phase) (htransition : Transition ctx requests s e s') :
    Known ctx requests (events ++ [e]) s'.phase := by
  cases htransition with
  | enters _ _ henters => exact known_of_enters hrun hknown henters
  | @inserts id _ _ _ before next _ =>
      have hprogress : progress (s.phase id) = 3 := by
        rw [before]
        rfl
      rcases next with rfl | rfl
      · refine hknown.concat.ends rfl ?_
        rintro reply key heq
        obtain rfl := WritePhase.replied.inj heq
        simp [Stores]
      · exact hknown.concat.update (fun _ => hknown.genuine id (by omega))
          (fun _ => (hknown.admitted id (by omega)).concat)
          (fun _ => (hknown.verified id (by omega)).concat) (by simp)
  | @stores id key content reply _ _ before chunk reply_eq _ _ =>
      have hwritten := writtenBy_of_storing hknown before chunk
      refine hknown.concat.update ?_ ?_ ?_ ?_
      · simp [progress]
      · simp [progress]
      · simp [progress]
      · rintro reply' key' heq hstores
        obtain rfl := WritePhase.replied.inj heq
        have hkey : key' = key := by
          rcases reply_eq with rfl | rfl <;> simpa [Stores, eq_comm] using hstores
        exact ⟨content, hkey ▸ hwritten⟩
  | _ => exact hknown.concat

omit [CommitmentProtocol H] [QuoteProtocol H] [MerkleProtocol H] [ProofCodec H]
  [ProofSerializer H] in
theorem lookup_of_put {written : FiniteMap H Bytes} {a : H} {c : Bytes}
    (hput : written = s.chunks ∨ written = s.chunks.insert key content)
    (hlookup : written.lookup a = some c) :
    s.chunks.lookup a = some c ∨ a = key ∧ c = content := by
  rcases hput with rfl | rfl
  · exact .inl hlookup
  · rw [FiniteMap.lookup_insert_eq] at hlookup
    split_ifs at hlookup with heq
    · exact .inr ⟨heq, (Option.some.inj hlookup).symm⟩
    · exact .inl hlookup

omit [CommitmentProtocol H] [QuoteProtocol H] [MerkleProtocol H] [ProofCodec H]
  [ProofSerializer H] in
theorem mem_offers {routing notifyRouting : RoutingTable H} {event : FreshWriteEvent H}
    {encodesOffer encodesNotify : Bool} {peer : H} {offer : FreshReplicationOffer H}
    (hoffer : (peer, offer) ∈
      (replicateFresh ctx routing notifyRouting event encodesOffer encodesNotify).offers) :
    peer ≠ ctx.selfId ∧
      peer ∈ (replicateFresh ctx routing notifyRouting event encodesOffer
        encodesNotify).possessionPeers ∧
      offer = ⟨event.key, event.data, event.paymentProof⟩ := by
  cases encodesOffer with
  | false => cases hoffer
  | true =>
      obtain ⟨target, hmem, heq⟩ := List.mem_map.mp hoffer
      obtain ⟨rfl, rfl⟩ := Prod.mk.inj heq
      exact ⟨of_decide_eq_true (List.mem_filter.mp hmem).2, hmem, rfl⟩

theorem Traced.of_transition (hknown : Known ctx requests events s.phase)
    (htraced : Traced ctx requests origin events s)
    (htransition : Transition ctx requests s e s') :
    Traced ctx requests origin (events ++ [e]) s' := by
  have hweaker : ∀ {key : H} {context : VerificationContext} {events : List (WriteEvent H)},
      Paid requests events key context → Paid requests events key .paidListAdmission := by
    rintro key context events ⟨c, world, proof, hkey, -, hrest⟩
    exact ⟨c, world, proof, hkey, fun h => (by cases h), hrest⟩
  cases htransition with
  | enters _ _ _ => exact htraced.same rfl rfl rfl rfl
  | pays _ _ => exact htraced.same rfl rfl rfl rfl
  | @inserts id _ _ _ before _ list =>
      refine htraced.step (fun _ _ h => .inl h) (fun key hmem => ?_) (fun _ h => .inl h)
        (fun _ h => .inl h)
      rcases Finset.mem_insert.mp (list hmem) with rfl | hold
      · have hpaid := hknown.verified id (by rw [before]; simp [progress])
        exact .inr (.inr (hweaker hpaid.concat))
      · exact .inl hold
  | @stores id key content reply fresh _ before chunk _ put forwards =>
      have hwritten := writtenBy_of_storing hknown before chunk
      refine htraced.step (fun a c hlookup => ?_) (fun _ h => .inl h) (fun event hmem => ?_)
        (fun _ h => .inl h)
      · rcases lookup_of_put put hlookup with hold | ⟨rfl, rfl⟩
        · exact .inl hold
        · exact .inr ⟨hwritten.genuine, .inr ⟨id, hwritten⟩⟩
      · rcases List.mem_append.mp hmem with hold | hnew
        · exact .inl hold
        · obtain ⟨hkey, hdata, request, own, hrequest, hown, hproof⟩ := forwards event hnew
          rw [hkey, hdata]
          exact .inr ⟨id, request, own, hrequest, hown, hproof, hwritten⟩
  | @replicates event rest _ routing notifyRouting encodesOffer encodesNotify _ fresh list =>
      have hforwarded := htraced.fresh event (by rw [fresh]; simp)
      refine htraced.step (fun _ _ h => .inl h) (fun key hmem => ?_) (fun other h => .inl ?_)
        (fun fanOut hmem => ?_)
      · rcases Finset.mem_insert.mp (list hmem) with rfl | hold
        · obtain ⟨id, request, own, -, -, -, hwritten⟩ := hforwarded
          exact .inr (.inr (hweaker hwritten.paid.concat))
        · exact .inl hold
      · rw [fresh]
        exact List.mem_cons_of_mem _ h
      · rcases List.mem_append.mp hmem with hold | hnew
        · exact .inl hold
        · obtain rfl := List.mem_singleton.mp hnew
          refine .inr fun peer offer hoffer => ?_
          obtain ⟨hpeer, hpossession, rfl⟩ := mem_offers hoffer
          exact ⟨hpeer, hpossession, hforwarded.concat⟩
  | fetches genuine put =>
      refine htraced.step (fun a c hlookup => ?_) (fun _ h => .inl h) (fun _ h => .inl h)
        (fun _ h => .inl h)
      rcases lookup_of_put put hlookup with hold | ⟨rfl, rfl⟩
      · exact .inl hold
      · exact .inr ⟨genuine, .inl (by simp)⟩
  | verifies =>
      refine htraced.step (fun _ _ h => .inl h) (fun key hmem => ?_) (fun _ h => .inl h)
        (fun _ h => .inl h)
      rcases Finset.mem_insert.mp hmem with rfl | hold
      · exact .inr (.inl (by simp))
      · exact .inl hold
  | @deletes key =>
      refine htraced.step (fun a c hlookup => .inl ?_) (fun _ h => .inl h) (fun _ h => .inl h)
        (fun _ h => .inl h)
      by_cases heq : a = key
      · rw [heq, Finmap.lookup_erase] at hlookup
        cases hlookup
      · rwa [Finmap.lookup_erase_ne heq] at hlookup
  | removes =>
      exact htraced.step (fun _ _ h => .inl h) (fun key hmem => .inl (Finset.mem_of_mem_erase hmem))
        (fun _ h => .inl h) (fun _ h => .inl h)

/-! ### Requests that fail -/

/-- What a request that had its key listed ends with. -/
def EndsListed (events : List (WriteEvent H)) (id : Nat) : WritePhase H → Prop
  | .storing => True
  | .replied reply => reply = .notify ∨ (∃ key, Stores reply key) ∨
      ∃ error, .store id (.error error) ∈ events ∧ PutFailed reply error
  | _ => False

theorem replied_of_transition {reply : WriteReply H} (hreplied : s.phase id = .replied reply)
    (htransition : Transition ctx requests s e s') : s'.phase id = .replied reply := by
  have hkept : ∀ {other : Nat} {phase : WritePhase H}, s.phase other ≠ .replied reply →
      Function.update s.phase other phase id = .replied reply := by
    intro other phase hother
    have hne : id ≠ other := by
      rintro rfl
      exact hother hreplied
    rw [Function.update_of_ne hne, hreplied]
  cases htransition with
  | enters _ _ henters =>
      refine hkept ?_
      cases henters with
      | checked before _ => simp [before]
      | admitted before _ => simp [before]
      | paid before _ _ => simp [before]
      | refused before _ => simp [before]
      | ended before _ => rcases before with h | h | h <;> simp [h]
      | dropped before => simp [before]
  | inserts before _ _ => exact hkept (by simp [before])
  | stores before _ _ _ _ => exact hkept (by simp [before])
  | _ => exact hreplied

theorem endsListed_of_transition (hlisted : EndsListed events id (s.phase id))
    (htransition : Transition ctx requests s e s') :
    EndsListed (events ++ [e]) id (s'.phase id) := by
  have hgrows : ∀ phase, EndsListed events id phase → EndsListed (events ++ [e]) id phase := by
    intro phase hlisted
    cases phase with
    | storing => trivial
    | replied reply =>
        rcases hlisted with hnotify | hstores | ⟨error, hmem, hfailed⟩
        · exact .inl hnotify
        · exact .inr (.inl hstores)
        · exact .inr (.inr ⟨error, List.mem_append_left _ hmem, hfailed⟩)
    | _ => exact hlisted
  have hother : ∀ {other : Nat} {phase : WritePhase H}, other ≠ id →
      EndsListed (events ++ [e]) id (Function.update s.phase other phase id) := by
    intro other phase hne
    rw [Function.update_of_ne hne.symm]
    exact hgrows _ hlisted
  cases htransition with
  | @enters _ other _ _ _ _ henters =>
      by_cases heq : other = id
      · subst heq
        simp only [Function.update_self]
        cases henters with
        | checked before _ => simp [before, EndsListed] at hlisted
        | admitted before _ => simp [before, EndsListed] at hlisted
        | paid before _ _ => simp [before, EndsListed] at hlisted
        | @refused error _ before failed => exact .inr (.inr ⟨error, by simp, failed⟩)
        | ended before _ => rcases before with h | h | h <;> simp [h, EndsListed] at hlisted
        | dropped before => simp [before, EndsListed] at hlisted
      · exact hother heq
  | @inserts other _ _ _ before next _ =>
      by_cases heq : other = id
      · subst heq
        simp [before, EndsListed] at hlisted
      · exact hother heq
  | @stores other key _ _ _ _ _ _ reply_eq _ _ =>
      by_cases heq : other = id
      · subst heq
        simp only [Function.update_self]
        exact .inr (.inl ⟨key, reply_eq⟩)
      · exact hother heq
  | _ => exact hgrows _ hlisted

/-- A step of a request that ends without having stored its chunk leaves the store alone, and the paid
list unless the request was a notify or failed at its put. -/
theorem unchanged_of_step {reply : WriteReply H} {next : WriteNode H} {after : List (WriteEvent H)}
    (hstep : step ctx requests s e = some next)
    (hafter : Runs.run (step ctx requests) next after = some s') (htask : e.task = some id)
    (hreplied : s'.phase id = .replied reply) (hnot : ∀ key, ¬Stores reply key) :
    next.chunks = s.chunks ∧ next.freshWrites = s.freshWrites ∧
      (next.paidList = s.paidList ∨ reply = .notify ∨
        ∃ error, .store id (.error error) ∈ events ++ e :: after ∧ PutFailed reply error) := by
  cases transition_of_step hstep with
  | enters _ _ _ => exact ⟨rfl, rfl, .inl rfl⟩
  | pays _ _ => exact ⟨rfl, rfl, .inl rfl⟩
  | @inserts other inserted phase list before phase_eq _ =>
      obtain rfl : other = id := Option.some.inj htask
      refine ⟨rfl, rfl, .inr ?_⟩
      have hlisted := Runs.history_induction (I := fun later t =>
        EndsListed (events ++ .insertPaid other inserted :: later) other (t.phase other)) ?_
        (fun later mid e t hmid hlisted hstep => by
          have hnext := endsListed_of_transition hlisted (transition_of_step hstep)
          simpa using hnext) hafter
      · rw [hreplied] at hlisted
        rcases hlisted with hnotify | ⟨key, hstores⟩ | hfailed
        · exact .inl hnotify
        · exact absurd hstores (hnot key)
        · exact .inr hfailed
      · simp only [Function.update_self]
        rcases phase_eq with rfl | rfl
        · exact .inl rfl
        · trivial
  | @stores other key content reply' fresh written before chunk reply_eq _ _ =>
      obtain rfl : other = id := Option.some.inj htask
      have hfinal := Runs.stable_of_run (fun t : WriteNode H => t.phase other = .replied reply')
        (fun _ _ _ hreplied hstep => replied_of_transition hreplied (transition_of_step hstep))
        (by simp only [Function.update_self]) hafter
      rw [hreplied] at hfinal
      obtain rfl := WritePhase.replied.inj hfinal
      exact absurd reply_eq (hnot key)
  | _ => cases htask

/-- **What a node stores was paid for.** For every sequence and interleaving of client puts, fresh
offers and paid notifies, with any faults of the store and the paid list, and beside fetches and
deletions: a chunk in the store was there at the start, or has its address and its size and was
fetched or brought by an admitted request after a client put of its key had been verified; every paid
key was verified; a request that reports its chunk as stored had all of this behind it; an offer goes
out only for such a chunk of a PUT, with the PUT's own proof; and a request that ends otherwise wrote
nothing but the paid-list entry of a notify or of an offer whose put failed. -/
theorem soundWrites
    (hrun : Runs.run (step ctx requests) (start capacity chunks paidList) events = some s) :
    SoundWrites ctx requests (start capacity chunks paidList) events s := by
  have hinv : Known ctx requests events s.phase ∧
      Traced ctx requests (start capacity chunks paidList) events s := by
    refine Runs.history_induction (I := fun events s => Known ctx requests events s.phase ∧
      Traced ctx requests (start capacity chunks paidList) events s) ⟨?_, ?_⟩ ?_ hrun
    · exact ⟨fun id h => by simp [start, progress] at h, fun id h => by simp [start, progress] at h,
        fun id h => by simp [start, progress] at h, fun id reply key h => by cases h⟩
    · exact ⟨fun _ _ h => .inl h, fun _ h => .inl h, fun _ h => absurd h List.not_mem_nil,
        fun _ h => absurd h List.not_mem_nil⟩
    · rintro events mid e s' hmid ⟨hknown, htraced⟩ hstep
      exact ⟨hknown.of_transition hmid (transition_of_step hstep),
        htraced.of_transition hknown (transition_of_step hstep)⟩
  obtain ⟨hknown, htraced⟩ := hinv
  refine ⟨htraced.stored, htraced.paid, hknown.acknowledged, htraced.offered, ?_⟩
  rintro id reply hreplied hnot before e after mid next rfl hmid hstep htask
  obtain ⟨mid', hmid', hlater⟩ := Runs.run_append_eq_some.mp hrun
  obtain rfl := Option.some.inj (hmid.symm.trans hmid')
  obtain ⟨next', hnext', hafter⟩ := Runs.run_cons_eq_some.mp hlater
  obtain rfl := Option.some.inj (hstep.symm.trans hnext')
  exact unchanged_of_step hstep hafter htask hreplied hnot

end Steps

/-! ### A PUT and an offer of one chunk -/

/-- The proofs of these runs carry no sidecars, so nothing is written back. -/
instance : ProofSerializer Transcript := ⟨fun _ => none, fun _ => none⟩

def writeContext : WriteContext Transcript := ⟨⟨[9]⟩, ⟨1, 1, 2, 0⟩, 4, true⟩

/-- This node and a neighbour, whatever the key. -/
def pairRouting : RoutingTable Transcript := ⟨fun _ _ => [⟨[7]⟩], fun _ _ => [⟨[7]⟩, ⟨[9]⟩]⟩

/-- A client and the neighbour bring the same chunk. -/
def twoWrites : Nat → WriteRequest Transcript
  | 0 => .put ⟨⟨[1]⟩, [1], some (List.replicate 40 1)⟩
  | _ => .offer ⟨[7]⟩ ⟨⟨[1]⟩, [1], List.replicate 40 1⟩

def paidWorld : PaymentWorld Transcript :=
  ⟨Transcript.closenessVerifier, Transcript.ledgerOf ⟨0, 0, []⟩, 0⟩

/-- Neither payment is cached when the other is looked up, and the offer's put comes second. -/
def racingWrites : List (WriteEvent Transcript) :=
  [.check 0 none (.ok ()), .check 1 none (.ok ()), .admission 1 (some pairRouting) (.ok ()),
    .admission 0 (some pairRouting) (.ok ()), .payment (.lookup 0), .payment (.lookup 1),
    .payment (.verify 1 paidWorld), .payment (.verify 0 paidWorld), .payment (.insert 0), .paid 0,
    .payment (.insert 1), .paid 1, .store 0 (.ok ()), .insertPaid 1 true, .store 1 (.ok ()),
    .replicate true pairRouting pairRouting true true]

theorem soundWrites_racingWrites :
    ∃ s, Runs.run (step writeContext twoWrites) (start 1 ∅ ∅) racingWrites = some s ∧
      s.phase 0 = .replied (.put (.success ⟨[1]⟩)) ∧
      s.phase 1 = .replied (.offer (.accepted ⟨[1]⟩)) ∧
      s.fanOuts.map FanOut.possessionPeers = [[⟨[7]⟩]] ∧
      (∃ id, WrittenBy writeContext twoWrites racingWrites id ⟨[1]⟩ [1]) ∧
      ∃ content, WrittenBy writeContext twoWrites racingWrites 1 ⟨[1]⟩ content := by
  have hrun : (Runs.run (step writeContext twoWrites) (start 1 ∅ ∅) racingWrites).map
      (fun s => (decide (s.phase 0 = .replied (.put (.success ⟨[1]⟩)) ∧
          s.phase 1 = .replied (.offer (.accepted ⟨[1]⟩)) ∧
          s.fanOuts.map FanOut.possessionPeers = [[⟨[7]⟩]]), s.chunks.lookup ⟨[1]⟩)) =
      some (true, some [1]) := by
    decide +kernel
  obtain ⟨s, hrun, hfinal⟩ := Option.map_eq_some_iff.mp hrun
  obtain ⟨hreplies, hlookup⟩ := Prod.mk.inj hfinal
  obtain ⟨hput, hoffer, hpeers⟩ := of_decide_eq_true hreplies
  have hsound := soundWrites hrun
  refine ⟨s, hrun, hput, hoffer, hpeers, ?_,
    hsound.acknowledged 1 _ ⟨[1]⟩ hoffer (.inr rfl)⟩
  rcases hsound.stored ⟨[1]⟩ [1] hlookup with horigin | ⟨-, hfetched | hwritten⟩
  · cases horigin
  · simp [racingWrites] at hfetched
  · exact hwritten

end WriteNode

end AntNode
