import AntNode.Lib.Runs
import AntNode.Proof.MerkleAmount
import AntNode.VerifiedCache

/-!
# What a cached verification rests on

The cache is read before and written after an await, and two admission paths share it. What carries
every interleaving is that an entry at the strength of a client put was written by a call of that
path whose proof verified, and that a write keeps the stronger of the two levels. A call that fails
never gets to its write.
-/

namespace AntNode

namespace PaymentSystem

variable {H : Type} [Digest H] [CommitmentProtocol H] [QuoteProtocol H] [MerkleProtocol H]
  [ProofCodec H]

/-- The call's own proof is verified, in full. -/
def Verifies (calls : Nat → PaymentCall H) (c : Nat) (_ : PaymentSystem H) (e : PaymentEvent H) :
    Prop :=
  ∃ world proof, e = .verify c world ∧ (calls c).paymentProof = some proof ∧
    verifyProof world (calls c).xorname proof (calls c).context = .ok ()

/-- The call whose step the event is. -/
def caller : PaymentEvent H → Option Nat
  | .lookup c | .verify c _ | .insert c | .cancel c => some c
  | .check _ _ | .evict _ => none

def Cached (x : H) (s : PaymentSystem H) : Prop := (s.cache.inner.peek x).isSome = true

def ClientPutCached (x : H) (s : PaymentSystem H) : Prop :=
  (checkPaymentRequired s.cache x .clientPut).1 = .cachedAsVerified

/-- What the lookups of a run may be trusted for. -/
structure SoundCache (calls : Nat → PaymentCall H) (capacity : Nat) (events : List (PaymentEvent H))
    (s : PaymentSystem H) : Prop where
  clientPut : ∀ x, ClientPutCached x s → ∃ c, (calls c).xorname = x ∧
    (calls c).context = .clientPut ∧
    Runs.Occurred (step calls) (Verifies calls c) (init capacity) events
  paidList : ∀ x, (checkPaymentRequired s.cache x .paidListAdmission).1 = .cachedAsVerified →
    ∃ c, (calls c).xorname = x ∧
      Runs.Occurred (step calls) (Verifies calls c) (init capacity) events
  not_downgraded : ∀ x later s', Runs.run (step calls) s later = some s' →
    Runs.Along (step calls) (fun s _ => Cached x s) s later → Cached x s' →
    ClientPutCached x s → ClientPutCached x s'
  unchanged_of_error : ∀ c error, s.phase c = .done (some (.error error)) →
    ∀ before e after mid next, events = before ++ e :: after →
      Runs.run (step calls) (init capacity) before = some mid → step calls mid e = some next →
      caller e = some c →
      ∀ entry, entry ∈ next.cache.inner.entries ↔ entry ∈ mid.cache.inner.entries

/-! ### Lookups and inserts -/

section Lookups

omit [CommitmentProtocol H] [QuoteProtocol H] [MerkleProtocol H] [ProofCodec H]

theorem mem_checkPaymentRequired {cache : VerifiedCache H} {x : H} {context : VerificationContext}
    {entry : H × VerificationLevel} :
    entry ∈ (checkPaymentRequired cache x context).2.inner.entries ↔ entry ∈ cache.inner.entries := by
  cases context <;> exact Lru.mem_get

theorem checkPaymentRequired_clientPut {cache : VerifiedCache H} {x : H} :
    (checkPaymentRequired cache x .clientPut).1 = .cachedAsVerified ↔
      cache.inner.peek x = some .clientPut := by
  have hget : (cache.inner.get x).1 = cache.inner.peek x := Lru.get_fst
  simp only [checkPaymentRequired, VerifiedCache.containsClientPutVerified,
    VerifiedCache.containsVerified, hget]
  cases cache.inner.peek x with
  | none => simp
  | some level => cases level <;> simp [VerificationLevel.satisfies]

theorem checkPaymentRequired_paidList {cache : VerifiedCache H} {x : H} :
    (checkPaymentRequired cache x .paidListAdmission).1 = .cachedAsVerified ↔
      (cache.inner.peek x).isSome = true := by
  have hget : (cache.inner.get x).1 = cache.inner.peek x := Lru.get_fst
  simp only [checkPaymentRequired, VerifiedCache.containsPaidListVerified,
    VerifiedCache.containsVerified, hget]
  cases cache.inner.peek x with
  | none => simp
  | some level => cases level <;> simp [VerificationLevel.satisfies]

/-- The level a context caches at. -/
def levelOf : VerificationContext → VerificationLevel
  | .clientPut => .clientPut
  | .paidListAdmission => .paidList

theorem insertVerified_eq (cache : VerifiedCache H) (call : PaymentCall H) :
    insertVerified cache call = cache.insertWithLevel call.xorname (levelOf call.context) := by
  unfold insertVerified
  cases call.context <;> rfl

/-- An insert writes its level or the stronger one that is there, and may push others out. -/
theorem mem_insertWithLevel {cache : VerifiedCache H} {x : H} {level : VerificationLevel}
    {entry : H × VerificationLevel} (hmem : entry ∈ (cache.insertWithLevel x level).inner.entries) :
    entry ∈ cache.inner.entries ∨ entry = (x, level) := by
  unfold VerifiedCache.insertWithLevel at hmem
  split at hmem
  · rename_i existing hexisting
    rcases Lru.mem_put hmem with rfl | ⟨hold, -⟩
    · split
      · exact .inl (Lru.peek_eq_some_iff.mp hexisting)
      · exact .inr rfl
    · exact .inl hold
  · rcases Lru.mem_put hmem with rfl | ⟨hold, -⟩
    · exact .inr rfl
    · exact .inl hold

theorem clientPut_insertWithLevel {cache : VerifiedCache H} {x : H} (level : VerificationLevel)
    (hcached : cache.inner.peek x = some .clientPut) :
    (cache.insertWithLevel x level).inner.peek x = some .clientPut := by
  unfold VerifiedCache.insertWithLevel
  rw [hcached]
  have hsatisfies : VerificationLevel.clientPut.satisfies level = true := by cases level <;> rfl
  simp only [hsatisfies, if_true]
  exact Lru.peek_put_self

theorem clientPut_of_mem_insertWithLevel {cache : VerifiedCache H} {x y : H}
    {level : VerificationLevel} (hcached : cache.inner.peek x = some .clientPut)
    (hkept : ((cache.insertWithLevel y level).inner.peek x).isSome = true) :
    (cache.insertWithLevel y level).inner.peek x = some .clientPut := by
  by_cases heq : y = x
  · rw [heq]
    exact clientPut_insertWithLevel level hcached
  · obtain ⟨kept, hpeek⟩ := Option.isSome_iff_exists.mp hkept
    rw [hpeek]
    rcases mem_insertWithLevel (Lru.peek_eq_some_iff.mp hpeek) with hold | hnew
    · rw [← hcached, Lru.peek_eq_some_iff.mpr hold]
    · exact absurd (Prod.mk.inj hnew).1.symm heq

end Lookups

/-! ### What a step does -/

section Steps

variable {calls : Nat → PaymentCall H} {s s' : PaymentSystem H} {e : PaymentEvent H}

/-- The phase a call may get to without a write. -/
inductive Reached (calls : Nat → PaymentCall H) (s : PaymentSystem H) (e : PaymentEvent H)
    (c : Nat) : PaymentPhase → Prop where
  | verifying {proof : Bytes} (own : (calls c).paymentProof = some proof) :
      Reached calls s e c (.verifying proof)
  | verified {proof : Bytes} {world : PaymentWorld H} (before : s.phase c = .verifying proof)
      (event : e = .verify c world)
      (ok : verifyProof world (calls c).xorname proof (calls c).context = .ok ()) :
      Reached calls s e c .verified
  | done (result : Option (Except String PaymentStatus)) : Reached calls s e c (.done result)

theorem reached_afterMiss (c : Nat) : Reached calls s e c (afterMiss (calls c)) := by
  unfold afterMiss
  split
  · exact .done _
  · rename_i proof hproof
    split
    · exact .done _
    · exact .verifying hproof

/-- Everything a step can do: move a call without touching what is cached, insert the address of a
verified call, or let entries go. -/
theorem step_cases (hstep : step calls s e = some s') :
    (∃ c phase, caller e = some c ∧ (∀ result, s.phase c ≠ .done result) ∧
      s'.phase = Function.update s.phase c phase ∧ Reached calls s e c phase ∧
      ∀ entry, entry ∈ s'.cache.inner.entries ↔ entry ∈ s.cache.inner.entries) ∨
    (∃ c, e = .insert c ∧ s.phase c = .verified ∧
      s'.phase = Function.update s.phase c (.done (some (.ok .paymentVerified))) ∧
      s'.cache = s.cache.insertWithLevel (calls c).xorname (levelOf (calls c).context)) ∨
    (caller e = none ∧ s'.phase = s.phase ∧
      ∀ entry, entry ∈ s'.cache.inner.entries → entry ∈ s.cache.inner.entries) := by
  cases e with
  | lookup c =>
      simp only [step] at hstep
      split at hstep
      · rename_i hphase
        obtain rfl := Option.some.inj hstep
        refine .inl ⟨c, _, rfl, fun result hdone => ?_, rfl, ?_, fun entry =>
          mem_checkPaymentRequired⟩
        · rw [hphase] at hdone
          cases hdone
        · split
          · exact .done _
          · exact reached_afterMiss c
      · cases hstep
  | verify c world =>
      simp only [step] at hstep
      split at hstep
      · rename_i proof hphase
        obtain rfl := Option.some.inj hstep
        refine .inl ⟨c, _, rfl, fun result hdone => ?_, rfl, ?_, fun entry => Iff.rfl⟩
        · rw [hphase] at hdone
          cases hdone
        · split
          · exact .done _
          · rename_i hok
            exact .verified hphase rfl hok
      · cases hstep
  | insert c =>
      simp only [step] at hstep
      split at hstep
      · rename_i hphase
        obtain rfl := Option.some.inj hstep
        exact .inr (.inl ⟨c, rfl, hphase, rfl, insertVerified_eq _ _⟩)
      · cases hstep
  | cancel c =>
      simp only [step] at hstep
      split at hstep
      · rename_i hphase
        obtain rfl := Option.some.inj hstep
        refine .inl ⟨c, _, rfl, fun result hdone => ?_, rfl, .done none, fun entry => Iff.rfl⟩
        rw [hphase] at hdone
        cases hdone
      · rename_i proof hphase
        obtain rfl := Option.some.inj hstep
        refine .inl ⟨c, _, rfl, fun result hdone => ?_, rfl, .done none, fun entry => Iff.rfl⟩
        rw [hphase] at hdone
        cases hdone
      · cases hstep
  | check x context =>
      obtain rfl := Option.some.inj hstep
      exact .inr (.inr ⟨rfl, rfl, fun entry => mem_checkPaymentRequired.mp⟩)
  | evict x =>
      obtain rfl := Option.some.inj hstep
      exact .inr (.inr ⟨rfl, rfl, fun entry hmem => List.mem_of_mem_filter hmem⟩)

theorem done_of_step {c : Nat} {result : Option (Except String PaymentStatus)}
    (hstep : step calls s e = some s') (hdone : s.phase c = .done result) :
    s'.phase c = .done result := by
  rcases step_cases hstep with ⟨moved, phase, -, hactive, hphase, -⟩ | ⟨moved, -, hverified, hphase,
    -⟩ | ⟨-, hphase, -⟩
  · have hne : c ≠ moved := by
      rintro rfl
      exact hactive result hdone
    rw [hphase, Function.update_of_ne hne, hdone]
  · have hne : c ≠ moved := by
      rintro rfl
      rw [hdone] at hverified
      cases hverified
    rw [hphase, Function.update_of_ne hne, hdone]
  · rw [hphase, hdone]

theorem done_of_run {c : Nat} {result : Option (Except String PaymentStatus)}
    {events : List (PaymentEvent H)} (hrun : Runs.run (step calls) s events = some s')
    (hdone : s.phase c = .done result) : s'.phase c = .done result :=
  Runs.stable_of_run (fun s => s.phase c = .done result)
    (fun _ _ _ hdone hstep => done_of_step hstep hdone) hdone hrun

/-- While an address stays cached, its level does not go down. -/
theorem clientPut_of_step {x : H} (hstep : step calls s e = some s')
    (hcached : s.cache.inner.peek x = some .clientPut) (hkept : Cached x s') :
    s'.cache.inner.peek x = some .clientPut := by
  have hold : (∀ entry, entry ∈ s'.cache.inner.entries → entry ∈ s.cache.inner.entries) →
      s'.cache.inner.peek x = some .clientPut := by
    intro hsubset
    obtain ⟨level, hpeek⟩ := Option.isSome_iff_exists.mp hkept
    have hmem := hsubset _ (Lru.peek_eq_some_iff.mp hpeek)
    rw [hpeek, ← hcached, Lru.peek_eq_some_iff.mpr hmem]
  rcases step_cases hstep with ⟨c, phase, -, -, -, -, hentries⟩ | ⟨c, -, -, -, hcache⟩ |
    ⟨-, -, hentries⟩
  · exact hold fun entry => (hentries entry).mp
  · unfold Cached at hkept
    rw [hcache] at hkept ⊢
    exact clientPut_of_mem_insertWithLevel hcached hkept
  · exact hold hentries

def LevelKept (x : H) (s : PaymentSystem H) : Prop :=
  Cached x s → s.cache.inner.peek x = some .clientPut

/-! ### The history of the entries -/

/-- The state is what the calls made of it. -/
structure From (calls : Nat → PaymentCall H) (capacity : Nat) (events : List (PaymentEvent H))
    (s : PaymentSystem H) : Prop where
  verifying : ∀ c proof, s.phase c = .verifying proof → (calls c).paymentProof = some proof
  verified : ∀ c, s.phase c = .verified →
    Runs.Occurred (step calls) (Verifies calls c) (init capacity) events
  entries : ∀ x level, (x, level) ∈ s.cache.inner.entries → ∃ c, (calls c).xorname = x ∧
    (level = .clientPut → (calls c).context = .clientPut) ∧
    Runs.Occurred (step calls) (Verifies calls c) (init capacity) events

variable {capacity : Nat} {events : List (PaymentEvent H)}

theorem From.step (hfrom : From calls capacity events s)
    (hrun : Runs.run (step calls) (init capacity) events = some s)
    (hstep : step calls s e = some s') : From calls capacity (events ++ [e]) s' := by
  have hentries : (∀ entry, entry ∈ s'.cache.inner.entries → entry ∈ s.cache.inner.entries) →
      ∀ x level, (x, level) ∈ s'.cache.inner.entries → ∃ c, (calls c).xorname = x ∧
        (level = .clientPut → (calls c).context = .clientPut) ∧
        Runs.Occurred (PaymentSystem.step calls) (Verifies calls c) (init capacity)
          (events ++ [e]) := by
    intro hsubset x level hmem
    obtain ⟨c, hx, hcontext, hverified⟩ := hfrom.entries x level (hsubset _ hmem)
    exact ⟨c, hx, hcontext, hverified.concat e⟩
  rcases step_cases hstep with ⟨c, phase, -, -, hphase, hreached, hsame⟩ |
    ⟨c, rfl, hverified, hphase, hcache⟩ | ⟨-, hphase, hsubset⟩
  · have hother : ∀ c', c' ≠ c → s'.phase c' = s.phase c' := fun c' hne => by
      rw [hphase, Function.update_of_ne hne]
    have hself : s'.phase c = phase := by rw [hphase, Function.update_self]
    refine ⟨?_, ?_, hentries fun entry => (hsame entry).mp⟩
    · intro c' proof hverifying
      by_cases heq : c' = c
      · rw [heq, hself] at hverifying
        subst hverifying
        cases hreached with
        | verifying own => exact heq ▸ own
      · exact hfrom.verifying c' proof (hother c' heq ▸ hverifying)
    · intro c' hverified
      by_cases heq : c' = c
      · rw [heq, hself] at hverified
        subst hverified
        cases hreached with
        | verified before event ok =>
            rw [heq]
            exact Runs.occurred_concat_self hrun ⟨_, _, event, hfrom.verifying c _ before, ok⟩
      · exact (hfrom.verified c' (hother c' heq ▸ hverified)).concat e
  · have hother : ∀ c' phase, s'.phase c' = phase → (∀ r, phase ≠ .done r) → s.phase c' = phase := by
      intro c' phase hnext hactive
      rw [hphase] at hnext
      by_cases heq : c' = c
      · rw [heq, Function.update_self] at hnext
        exact absurd hnext.symm (hactive _)
      · rwa [Function.update_of_ne heq] at hnext
    refine ⟨?_, ?_, ?_⟩
    · intro c' proof hverifying
      exact hfrom.verifying c' proof (hother c' _ hverifying fun r => PaymentPhase.noConfusion)
    · intro c' hverified'
      exact (hfrom.verified c' (hother c' _ hverified' fun r => PaymentPhase.noConfusion)).concat _
    · intro x level hmem
      rw [hcache] at hmem
      rcases mem_insertWithLevel hmem with hold | hnew
      · obtain ⟨c', hx, hcontext, hverified'⟩ := hfrom.entries x level hold
        exact ⟨c', hx, hcontext, hverified'.concat _⟩
      · obtain ⟨rfl, rfl⟩ := Prod.mk.inj hnew
        refine ⟨c, rfl, fun hlevel => ?_, (hfrom.verified c hverified).concat _⟩
        cases hcontext : (calls c).context with
        | clientPut => rfl
        | paidListAdmission =>
            rw [hcontext] at hlevel
            cases hlevel
  · refine ⟨?_, ?_, hentries hsubset⟩
    · intro c proof hverifying
      exact hfrom.verifying c proof (hphase ▸ hverifying)
    · intro c hverified
      exact (hfrom.verified c (hphase ▸ hverified)).concat e

theorem from_run (hrun : Runs.run (PaymentSystem.step calls) (init capacity) events = some s) :
    From calls capacity events s := by
  refine Runs.history_induction ?_ (fun events mid e s' hmid hfrom hstep =>
    hfrom.step hmid hstep) hrun
  exact ⟨(fun _ _ hverifying => nomatch hverifying), (fun _ hverified => nomatch hverified),
    (fun _ _ hmem => nomatch hmem)⟩

/-- **The verified-payment cache never over-authorises.** For every sequence and interleaving of
calls and evictions: a cached client put was verified by a client put, a cached admission by some
call, a level does not go down while its address stays cached, and a call that fails leaves the
cached entries as they are. -/
theorem soundCache (hrun : Runs.run (PaymentSystem.step calls) (init capacity) events = some s) :
    SoundCache calls capacity events s := by
  have hfrom := from_run hrun
  refine ⟨?_, ?_, ?_, ?_⟩
  · intro x hcached
    have hmem := Lru.peek_eq_some_iff.mp (checkPaymentRequired_clientPut.mp hcached)
    obtain ⟨c, hx, hcontext, hverified⟩ := hfrom.entries x _ hmem
    exact ⟨c, hx, hcontext rfl, hverified⟩
  · intro x hcached
    obtain ⟨level, hpeek⟩ := Option.isSome_iff_exists.mp (checkPaymentRequired_paidList.mp hcached)
    obtain ⟨c, hx, -, hverified⟩ := hfrom.entries x level (Lru.peek_eq_some_iff.mp hpeek)
    exact ⟨c, hx, hverified⟩
  · intro x later s' hlater halong hkept hcached
    have hlevel : LevelKept x s' := by
      refine Runs.invariant_of_run ?_ (fun _ => checkPaymentRequired_clientPut.mp hcached) halong
        hlater
      intro s e s' hinv hstill hstep hkept
      exact clientPut_of_step hstep (hinv hstill) hkept
    exact checkPaymentRequired_clientPut.mpr (hlevel hkept)
  · rintro c error hfailed before e after mid next rfl hmid hstep hcaller
    rcases step_cases hstep with ⟨moved, phase, -, -, -, -, hsame⟩ | ⟨moved, rfl, -, hphase, -⟩ |
      ⟨hnone, -, -⟩
    · exact hsame
    · obtain rfl : moved = c := Option.some.inj hcaller
      obtain ⟨mid', hmid', hafter⟩ := Runs.run_append_eq_some.mp hrun
      obtain rfl : mid = mid' := Option.some.inj (hmid.symm.trans hmid')
      obtain ⟨next', hnext, hafter⟩ := Runs.run_cons_eq_some.mp hafter
      obtain rfl : next = next' := Option.some.inj (hstep.symm.trans hnext)
      have hdone := done_of_run hafter (by rw [hphase, Function.update_self])
      rw [hfailed] at hdone
      cases hdone
    · rw [hnone] at hcaller
      cases hcaller

end Steps

/-! ### A client put -/

/-- The second byte is the price of the cheaper quote. -/
instance : ProofCodec Transcript where
  detectProofType
    | 1 :: _ => some .singleNode
    | 2 :: _ => some .merkle
    | _ => none
  deserializeSingleNodeProof
    | _ :: price :: _ => .ok ⟨Transcript.bundleWith (Transcript.pinnedQuote [8] price.toNat), []⟩
    | _ => .error "unexpected end of input"

def clientPutCall : PaymentCall Transcript := ⟨⟨[1]⟩, some (List.replicate 40 1), .clientPut⟩

def clientPutEvents : List (PaymentEvent Transcript) :=
  [.lookup 0, .verify 0 ⟨Transcript.closenessVerifier, Transcript.ledgerOf ⟨0, 0, []⟩, 0⟩, .insert 0]

theorem soundCache_clientPut :
    ∃ s, Runs.run (step fun _ => clientPutCall) (init 1) clientPutEvents = some s ∧
      ClientPutCached ⟨[1]⟩ s ∧ ∃ c, Runs.Occurred (step fun _ => clientPutCall)
        (Verifies (fun _ => clientPutCall) c) (init 1) clientPutEvents := by
  have hcached : (Runs.run (step fun _ => clientPutCall) (init 1) clientPutEvents).map
      (fun s => (checkPaymentRequired s.cache ⟨[1]⟩ .clientPut).1) = some .cachedAsVerified := by
    decide +kernel
  obtain ⟨s, hrun, hcached⟩ := Option.map_eq_some_iff.mp hcached
  obtain ⟨c, -, -, hverified⟩ := (soundCache hrun).clientPut ⟨[1]⟩ hcached
  exact ⟨s, hrun, hcached, c, hverified⟩

end PaymentSystem

end AntNode
