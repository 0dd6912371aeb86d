import AntNode.Lib.Runs
import AntNode.Proof.RepairCycle
import AntNode.Transcript

/-!
# What the repair pipeline has authorised

The lists of a cycle stand for what happened in it: a read of the local paid list, an evaluation, the
answer of a target, a check of the store and of the routing table. Over whole runs, whatever enters
the fetch queue has been through these steps in the cycle that put it there, and whatever a fetch
stores has entered the fetch queue and hashes to its key.
-/

namespace AntNode

open Runs

variable {H : Type} [Digest H]

namespace RepairState

/-! ### What a step can do -/

inductive Steps (ctx : RepairContext H) (s : RepairState H) : RepairEvent H → RepairState H → Prop
  | elsewhere (world : RepairWorld H) : Steps ctx s (.elsewhere world) { s with world := world }
  | hint (key : H) (entry : VerificationEntry H) :
      Steps ctx s (.hint key entry) { s with queues := (s.queues.addPendingVerify key entry).2 }
  | beginCycle (hphase : s.cycle.phase = .idle) : Steps ctx s .beginCycle s.beginCycle
  | classify {key : H} {rest : List H} (readFails : Bool)
      (hphase : s.cycle.phase = .classifying (key :: rest)) :
      Steps ctx s (.classify readFails) (s.classify key rest readFails)
  | checkPaidOnly {key : H} {rest : List H} (readFails : Bool)
      (hphase : s.cycle.phase = .checkingPaidOnly (key :: rest)) :
      Steps ctx s (.checkPaidOnly readFails) (s.checkPaidOnly ctx key rest readFails)
  | removePaidOnly (hphase : s.cycle.phase = .removingPaidOnly) :
      Steps ctx s .removePaidOnly s.removePaidOnly
  | probe (outcome : H → PeerOutcome H) (order : List H) (hphase : s.cycle.phase = .probing) :
      Steps ctx s (.probe outcome order) (s.probe ctx outcome order)
  | promoteProbed {key : H} {rest : List H} (readFails : Bool)
      (hphase : s.cycle.phase = .promotingProbed (key :: rest)) :
      Steps ctx s (.promoteProbed readFails) (s.promoteProbed ctx key rest readFails)
  | verify (outcome : H → PeerOutcome H) (order : List H) (hphase : s.cycle.phase = .verifying) :
      Steps ctx s (.verify outcome order) (s.verify ctx outcome order)
  | snapshot (readFails : H → Bool) (hphase : s.cycle.phase = .snapshotting) :
      Steps ctx s (.snapshot readFails) (s.snapshot readFails)
  | evaluate (hphase : s.cycle.phase = .evaluating) : Steps ctx s .evaluate (s.evaluate ctx)
  | insertPaid (accepted : H → Bool) (hphase : s.cycle.phase = .insertingPaid) :
      Steps ctx s (.insertPaid accepted) (s.insertPaid accepted)
  | checkFetch {evaluated : EvaluatedKey H} {rest : List (EvaluatedKey H)} (readFails : Bool)
      (hphase : s.cycle.phase = .checkingFetch (evaluated :: rest)) :
      Steps ctx s (.checkFetch readFails) (s.checkFetch ctx evaluated rest readFails)
  | update {evaluated : EvaluatedKey H} {rest : List (EvaluatedKey H)}
      (hphase : s.cycle.phase = .updating (evaluated :: rest)) :
      Steps ctx s .update (s.update ctx evaluated rest)
  | endLoop {phase : CyclePhase H} (hend : s.endLoop = some phase) :
      Steps ctx s .endLoop { s with cycle.phase := phase }
  | dequeue : Steps ctx s .dequeue s.dequeue
  | execute {key source : H} (reply : FetchReply H) (accepted : Bool)
      (hfetching : (key, source) ∈ s.fetching) :
      Steps ctx s (.execute key source reply accepted)
        { s with
          world := (executeSingleFetch ctx s.world key reply accepted).2
          fetching := s.fetching.erase (key, source)
          fetched := s.fetched ++
            [(key, some (executeSingleFetch ctx s.world key reply accepted).1)] }
  | panic {key source : H} (hfetching : (key, source) ∈ s.fetching) :
      Steps ctx s (.panic key source)
        { s with
          fetching := s.fetching.erase (key, source)
          fetched := s.fetched ++ [(key, none)] }
  | finish {key : H} {result : Option FetchResult} (hfetched : (key, result) ∈ s.fetched) :
      Steps ctx s (.finish key result) (s.finish key result)

theorem steps_of_step {ctx : RepairContext H} {s s' : RepairState H} {e : RepairEvent H}
    (hstep : s.step ctx e = some s') : Steps ctx s e s' := by
  cases e with
  | elsewhere world =>
      cases hstep
      exact .elsewhere world
  | hint key entry =>
      cases hstep
      exact .hint key entry
  | beginCycle =>
      simp only [step] at hstep
      split at hstep
      · rename_i hphase
        cases hstep
        exact .beginCycle hphase
      · cases hstep
  | classify readFails =>
      simp only [step] at hstep
      split at hstep
      · rename_i hphase
        cases hstep
        exact .classify readFails hphase
      · cases hstep
  | checkPaidOnly readFails =>
      simp only [step] at hstep
      split at hstep
      · rename_i hphase
        cases hstep
        exact .checkPaidOnly readFails hphase
      · cases hstep
  | removePaidOnly =>
      simp only [step] at hstep
      split at hstep
      · rename_i hphase
        cases hstep
        exact .removePaidOnly hphase
      · cases hstep
  | probe outcome order =>
      simp only [step] at hstep
      split at hstep
      · rename_i hphase
        split_ifs at hstep
        cases hstep
        exact .probe outcome order hphase
      · cases hstep
  | promoteProbed readFails =>
      simp only [step] at hstep
      split at hstep
      · rename_i hphase
        cases hstep
        exact .promoteProbed readFails hphase
      · cases hstep
  | verify outcome order =>
      simp only [step] at hstep
      split at hstep
      · rename_i hphase
        cases hstep
        exact .verify outcome order hphase
      · cases hstep
  | snapshot readFails =>
      simp only [step] at hstep
      split at hstep
      · rename_i hphase
        cases hstep
        exact .snapshot readFails hphase
      · cases hstep
  | evaluate =>
      simp only [step] at hstep
      split at hstep
      · rename_i hphase
        cases hstep
        exact .evaluate hphase
      · cases hstep
  | insertPaid accepted =>
      simp only [step] at hstep
      split at hstep
      · rename_i hphase
        cases hstep
        exact .insertPaid accepted hphase
      · cases hstep
  | checkFetch readFails =>
      simp only [step] at hstep
      split at hstep
      · rename_i hphase
        cases hstep
        exact .checkFetch readFails hphase
      · cases hstep
  | update =>
      simp only [step] at hstep
      split at hstep
      · rename_i hphase
        cases hstep
        exact .update hphase
      · cases hstep
  | endLoop =>
      obtain ⟨phase, hend, rfl⟩ := Option.map_eq_some_iff.mp hstep
      exact .endLoop hend
  | dequeue =>
      simp only [step] at hstep
      split_ifs at hstep
      cases hstep
      exact .dequeue
  | execute key source reply accepted =>
      simp only [step] at hstep
      split_ifs at hstep with hfetching
      cases hstep
      exact .execute reply accepted hfetching
  | panic key source =>
      simp only [step] at hstep
      split_ifs at hstep with hfetching
      cases hstep
      exact .panic hfetching
  | finish key result =>
      simp only [step] at hstep
      split_ifs at hstep with hfetched
      cases hstep
      exact .finish hfetched

/-! ### What happened in a cycle -/

section Facts

variable (ctx : RepairContext H) (n : Nat) (key peer : H)

/-- The step reads the local paid list, and the key is on it. -/
def LocallyPaidAt (s : RepairState H) (e : RepairEvent H) : Prop :=
  s.cycle.number = n ∧ e = .classify false ∧
    (∃ rest, s.cycle.phase = .classifying (key :: rest)) ∧ key ∈ s.world.paidList

/-- The step evaluates the evidence for the key, and the outcome is that it is verified. -/
def VerifiedAt (s : RepairState H) (e : RepairEvent H) : Prop :=
  s.cycle.number = n ∧ e = .evaluate ∧ s.cycle.phase = .evaluating ∧
    ∃ ev, s.cycle.evidence.lookup key = some ev ∧
      (evaluateKeyEvidenceWithHolderCheck key ev s.cycle.targets ctx.config
        (holderCredit s.cycle.holders s.world.now)).Verified

/-- The targets of the round that the step makes, with what each peer has sent. -/
def RoundAt (targets : VerificationTargets H) (outcome : H → PeerOutcome H) (s : RepairState H)
    (e : RepairEvent H) : Prop :=
  s.cycle.number = n ∧ ∃ order,
    (e = .probe outcome order ∧ s.cycle.phase = .probing ∧
      targets = computePresenceTargets s.cycle.localPaidPresenceProbeKeys s.world.routing ctx.config
        ctx.selfId) ∨
    (e = .verify outcome order ∧ s.cycle.phase = .verifying ∧
      targets = computeVerificationTargets s.cycle.keysNeedingNetwork s.world.routing ctx.config
        ctx.selfId)

/-- The step is a round in which the peer is a target for the key and answers that it holds it. -/
def AnsweredPresentAt (s : RepairState H) (e : RepairEvent H) : Prop :=
  ∃ targets outcome, RoundAt ctx n targets outcome s e ∧ targets.Target key peer ∧
    (outcome peer).Says targets peer key fun result => result.present = true

/-- The step looks the key up in the store and in the routing table. -/
def ChecksAt (readFails : Bool) (s : RepairState H) (e : RepairEvent H) : Prop :=
  s.cycle.number = n ∧
    ((e = .checkPaidOnly readFails ∧ ∃ rest, s.cycle.phase = .checkingPaidOnly (key :: rest)) ∨
      (e = .checkFetch readFails ∧ ∃ evaluated rest,
        s.cycle.phase = .checkingFetch (evaluated :: rest) ∧ evaluated.key = key))

/-- The step finds that this node is in the storage-admission group of the key, and does not find the
key in the store. -/
def MayRepairAt (s : RepairState H) (e : RepairEvent H) : Prop :=
  ∃ readFails, ChecksAt n key readFails s e ∧ (key ∉ s.world.storage ∨ readFails = true) ∧
    ctx.selfId ∈ s.world.routing.findClosestNodesLocalWithSelf key
      (storageAdmissionWidth ctx.config.closeGroupSize)

/-- The step puts the candidate into the fetch queue. -/
def EntersAt (candidate : FetchCandidate H) (s : RepairState H) (e : RepairEvent H) : Prop :=
  candidate ∉ s.queues.fetchQueue ∧
    ∃ s', s.step ctx e = some s' ∧ candidate ∈ s'.queues.fetchQueue

end Facts

section History

variable (ctx : RepairContext H) (s₀ : RepairState H) (events : List (RepairEvent H))

abbrev Happened (P : RepairState H → RepairEvent H → Prop) : Prop :=
  Occurred (step ctx) P s₀ events

/-- What happened in cycle `n`. -/
def known (n : Nat) : Known H where
  paid := fun key => Happened ctx s₀ events (LocallyPaidAt n key)
  verified := fun key => Happened ctx s₀ events (VerifiedAt ctx n key)
  answered := fun key peer => Happened ctx s₀ events (AnsweredPresentAt ctx n key peer)
  mayRepair := fun key => Happened ctx s₀ events (MayRepairAt ctx n key)

/-- Everything the pipeline requires of what it puts into the fetch queue, over the events before
that step. -/
structure Authorised (s : RepairState H) (candidate : FetchCandidate H) : Prop where
  paid : Happened ctx s₀ events (LocallyPaidAt s.cycle.number candidate.key) ∨
    Happened ctx s₀ events (VerifiedAt ctx s.cycle.number candidate.key)
  sources_ne_nil : candidate.sources ≠ []
  answered : ∀ peer ∈ candidate.sources,
    Happened ctx s₀ events (AnsweredPresentAt ctx s.cycle.number candidate.key peer)
  pending : ∃ entry, s.queues.pendingVerify.lookup candidate.key = some entry ∧
    (entry.pipeline = .paidOnly →
      Happened ctx s₀ events (MayRepairAt ctx s.cycle.number candidate.key))

def Entered (key : H) : Prop :=
  ∃ candidate : FetchCandidate H, candidate.key = key ∧
    Happened ctx s₀ events (EntersAt ctx candidate)

structure From (s : RepairState H) : Prop where
  cycle : CycleOk (known ctx s₀ events s.cycle.number) s.queues s.cycle
  queued : ∀ candidate ∈ s.queues.fetchQueue, Entered ctx s₀ events candidate.key
  fetching : ∀ key source, (key, source) ∈ s.fetching → Entered ctx s₀ events key
  fetched : ∀ key result, (key, result) ∈ s.fetched → Entered ctx s₀ events key

end History

/-! ### What a step leaves alone -/

/-- What the steps of a cycle leave alone. -/
structure Frame (s s' : RepairState H) : Prop where
  number : s'.cycle.number = s.cycle.number
  fetching : s'.fetching = s.fetching
  fetched : s'.fetched = s.fetched
  storage : s'.world.storage = s.world.storage

section Frames

variable {s : RepairState H} {ctx : RepairContext H} {key : H} {rest : List H} {readFails : Bool}
  {evaluated : EvaluatedKey H} {others : List (EvaluatedKey H)}

theorem classify_frame : Frame s (s.classify key rest readFails) := by
  unfold classify
  split_ifs
  · simp only
    split <;> exact ⟨rfl, rfl, rfl, rfl⟩
  · exact ⟨rfl, rfl, rfl, rfl⟩

theorem checkPaidOnly_frame : Frame s (s.checkPaidOnly ctx key rest readFails) := by
  unfold checkPaidOnly
  split_ifs <;> exact ⟨rfl, rfl, rfl, rfl⟩

theorem promoteProbed_frame : Frame s (s.promoteProbed ctx key rest readFails) := by
  unfold promoteProbed
  simp only
  split_ifs <;> exact ⟨rfl, rfl, rfl, rfl⟩

theorem checkFetch_frame : Frame s (s.checkFetch ctx evaluated others readFails) := by
  unfold checkFetch
  split_ifs <;> exact ⟨rfl, rfl, rfl, rfl⟩

theorem update_frame : Frame s (s.update ctx evaluated others) := by
  unfold update
  simp only
  split
  · split_ifs <;> exact ⟨rfl, rfl, rfl, rfl⟩
  · exact ⟨rfl, rfl, rfl, rfl⟩

end Frames

/-! ### The fetch worker -/

section Worker

variable {s : RepairState H} {key source : H} {result : Option FetchResult}

theorem dequeue_frame (s : RepairState H) : s.dequeue.cycle = s.cycle ∧
    s.dequeue.queues.pendingVerify = s.queues.pendingVerify ∧ s.dequeue.fetched = s.fetched ∧
    s.dequeue.world = s.world := by
  unfold dequeue
  simp only
  split
  · exact ⟨rfl, rfl, rfl, rfl⟩
  · split <;> exact ⟨rfl, rfl, rfl, rfl⟩

theorem fetching_of_dequeue (hmem : (key, source) ∈ s.dequeue.fetching) :
    (key, source) ∈ s.fetching ∨ ∃ candidate ∈ s.queues.fetchQueue, candidate.key = key := by
  unfold dequeue at hmem
  simp only at hmem
  split at hmem
  · exact .inl hmem
  · rename_i candidate hpopped
    split at hmem
    · exact .inl hmem
    · rcases List.mem_append.mp hmem with hmem | hmem
      · exact .inl hmem
      · refine .inr ⟨candidate, (popNotInFlight_subset _ _ _).1 candidate hpopped, ?_⟩
        exact (congrArg Prod.fst (List.mem_singleton.mp hmem)).symm

theorem finish_frame (s : RepairState H) (key : H) (result : Option FetchResult) :
    (s.finish key result).cycle = s.cycle ∧
    (s.finish key result).queues.pendingVerify = s.queues.pendingVerify ∧
    (s.finish key result).fetched ⊆ s.fetched ∧ (s.finish key result).world = s.world := by
  have hretry : (s.queues.retryFetch key).2.pendingVerify = s.queues.pendingVerify :=
    retryFetch_pendingVerify
  unfold finish
  simp only
  split
  · split <;> exact ⟨rfl, hretry, List.erase_subset, rfl⟩
  · split <;> exact ⟨rfl, hretry, List.erase_subset, rfl⟩
  · exact ⟨rfl, rfl, List.erase_subset, rfl⟩

theorem fetching_of_finish {other : H} (hmem : (other, source) ∈ (s.finish key result).fetching) :
    (other, source) ∈ s.fetching ∨ other = key := by
  have hretried : ∀ next, (other, source) ∈ s.fetching ++ [(key, next)] →
      (other, source) ∈ s.fetching ∨ other = key := by
    intro next hmem
    rcases List.mem_append.mp hmem with hmem | hmem
    · exact .inl hmem
    · exact .inr (congrArg Prod.fst (List.mem_singleton.mp hmem))
  unfold finish at hmem
  simp only at hmem
  split at hmem
  · split at hmem
    · exact hretried _ hmem
    · exact .inl hmem
  · split at hmem
    · exact hretried _ hmem
    · exact .inl hmem
  · exact .inl hmem

end Worker

/-! ### The history of a run -/

section Steps

variable {ctx : RepairContext H} {s₀ s s' : RepairState H} {events : List (RepairEvent H)}
  {e : RepairEvent H}

theorem known_le (n : Nat) (e : RepairEvent H) :
    (known ctx s₀ events n).Le (known ctx s₀ (events ++ [e]) n) :=
  ⟨fun _ h => h.concat e, fun _ h => h.concat e, fun _ _ h => h.concat e, fun _ h => h.concat e⟩

theorem Entered.concat {key : H} (hentered : Entered ctx s₀ events key) (e : RepairEvent H) :
    Entered ctx s₀ (events ++ [e]) key := by
  obtain ⟨candidate, hkey, hhappened⟩ := hentered
  exact ⟨candidate, hkey, hhappened.concat e⟩

/-- What is in the fetch queue after a step was there before, or has just entered it. -/
theorem From.queued_of_step (hfrom : From ctx s₀ events s)
    (hrun : run (step ctx) s₀ events = some s) (hstep : s.step ctx e = some s') :
    ∀ candidate ∈ s'.queues.fetchQueue, Entered ctx s₀ (events ++ [e]) candidate.key := by
  intro candidate hmem
  by_cases hold : candidate ∈ s.queues.fetchQueue
  · exact (hfrom.queued candidate hold).concat e
  · exact ⟨candidate, rfl, occurred_concat_self hrun ⟨hold, s', hstep, hmem⟩⟩

theorem From.cycle_concat (hfrom : From ctx s₀ events s) (e : RepairEvent H) :
    CycleOk (known ctx s₀ (events ++ [e]) s.cycle.number) s.queues s.cycle :=
  hfrom.cycle.mono (known_le _ e) fun _ _ => id

/-- A step of the cycle. -/
theorem From.of_frame (hfrom : From ctx s₀ events s) (hrun : run (step ctx) s₀ events = some s)
    (hstep : s.step ctx e = some s') (hframe : Frame s s')
    (hcycle : CycleOk (known ctx s₀ (events ++ [e]) s.cycle.number) s'.queues s'.cycle) :
    From ctx s₀ (events ++ [e]) s' where
  cycle := by rwa [hframe.number]
  queued := hfrom.queued_of_step hrun hstep
  fetching := fun key source hmem => (hfrom.fetching key source (hframe.fetching ▸ hmem)).concat e
  fetched := fun key result hmem => (hfrom.fetched key result (hframe.fetched ▸ hmem)).concat e

/-- A step that is none of the cycle. -/
theorem From.of_cycle_eq (hfrom : From ctx s₀ events s) (hrun : run (step ctx) s₀ events = some s)
    (hstep : s.step ctx e = some s') (hcycle : s'.cycle = s.cycle)
    (hpending : ∀ key pipeline, PendingIn s.queues key pipeline → PendingIn s'.queues key pipeline)
    (hfetching : ∀ key source, (key, source) ∈ s'.fetching → (key, source) ∈ s.fetching ∨
      (∃ candidate ∈ s.queues.fetchQueue, candidate.key = key) ∨
      ∃ result, (key, result) ∈ s.fetched)
    (hfetched : ∀ key result, (key, result) ∈ s'.fetched → (key, result) ∈ s.fetched ∨
      ∃ source, (key, source) ∈ s.fetching) :
    From ctx s₀ (events ++ [e]) s' where
  cycle := by
    rw [hcycle]
    exact hfrom.cycle.mono (known_le _ e) hpending
  queued := hfrom.queued_of_step hrun hstep
  fetching := by
    intro key source hmem
    rcases hfetching key source hmem with hold | ⟨candidate, hqueued, rfl⟩ | ⟨result, hdone⟩
    · exact (hfrom.fetching key source hold).concat e
    · exact (hfrom.queued candidate hqueued).concat e
    · exact (hfrom.fetched key result hdone).concat e
  fetched := by
    intro key result hmem
    rcases hfetched key result hmem with hold | ⟨source, hfetching⟩
    · exact (hfrom.fetched key result hold).concat e
    · exact (hfrom.fetching key source hfetching).concat e

/-- A fetch ends, with a result or none. -/
theorem From.of_fetched {world : RepairWorld H} {key source : H} {result : Option FetchResult}
    (hfrom : From ctx s₀ events s) (hrun : run (step ctx) s₀ events = some s)
    (hstep : s.step ctx e = some { s with
      world := world
      fetching := s.fetching.erase (key, source)
      fetched := s.fetched ++ [(key, result)] })
    (hfetching : (key, source) ∈ s.fetching) :
    From ctx s₀ (events ++ [e]) { s with
      world := world
      fetching := s.fetching.erase (key, source)
      fetched := s.fetched ++ [(key, result)] } := by
  refine hfrom.of_cycle_eq hrun hstep rfl (fun _ _ => id) ?_ ?_
  · intro other source' hmem
    exact .inl (List.mem_of_mem_erase hmem)
  · intro other result' hmem
    rcases List.mem_append.mp hmem with hold | hnew
    · exact .inl hold
    · cases List.mem_singleton.mp hnew
      exact .inr ⟨source, hfetching⟩

theorem from_start (world : RepairWorld H) : From ctx s₀ [] (start world) where
  cycle := trivial
  queued := by simp [start, ReplicationQueues.new]
  fetching := by simp [start]
  fetched := by simp [start]

theorem From.beginCycle (hfrom : From ctx s₀ events s)
    (hrun : run (step ctx) s₀ events = some s) (hphase : s.cycle.phase = .idle) :
    From ctx s₀ (events ++ [.beginCycle]) s.beginCycle where
  cycle := by
    -- the keys of a map are distinct, and every list of the new cycle but this one is empty
    have hnodup : (s.queues.evictStale pendingVerifyMaxAge s.world.now).pendingVerify.keys.Nodup :=
      AList.keys_nodup _
    refine ⟨?_, ?_, rfl, nofun, nofun⟩
    · simpa [RepairState.beginCycle, VerificationCycle.idle] using hnodup
    · simpa [RepairState.beginCycle, VerificationCycle.idle] using hnodup
  queued := hfrom.queued_of_step hrun (by simp [RepairState.step, hphase])
  fetching := fun key source hmem => (hfrom.fetching key source hmem).concat _
  fetched := fun key result hmem => (hfrom.fetched key result hmem).concat _

theorem paidListContains_eq_true {world : RepairWorld H} {key : H} {readFails : Bool}
    (hcontains : world.paidListContains key readFails = true) :
    readFails = false ∧ key ∈ world.paidList := by
  unfold RepairWorld.paidListContains at hcontains
  split_ifs at hcontains with hfails
  exact ⟨Bool.eq_false_of_not_eq_true hfails, of_decide_eq_true hcontains⟩

theorem storageExists_eq_false {world : RepairWorld H} {key : H} {readFails : Bool}
    (hexists : world.storageExists key readFails = false) :
    key ∉ world.storage ∨ readFails = true := by
  unfold RepairWorld.storageExists at hexists
  split_ifs at hexists with hfails
  · exact .inr hfails
  · exact .inl (of_decide_eq_false hexists)

/-- The evidence of a round stands for answers given in it. -/
theorem evidenceOk_of_round {cycle : VerificationCycle H} {n : Nat} {keys : List H}
    {outcome : H → PeerOutcome H} {order : List H} (hrun : run (step ctx) s₀ events = some s)
    (hevidence : cycle.evidence = runVerificationRound keys cycle.targets outcome order)
    (hround : RoundAt ctx n cycle.targets outcome s e) :
    EvidenceOk (known ctx s₀ (events ++ [e]) n) cycle := by
  intro key ev hev peer hpeer
  rw [hevidence] at hev
  obtain ⟨htarget, hsays⟩ := says_of_presentSources hev hpeer
  exact occurred_concat_self hrun ⟨cycle.targets, outcome, hround, htarget, hsays⟩

theorem mayRepair_of_check {n : Nat} {key : H} {readFails : Bool}
    (hrun : run (step ctx) s₀ events = some s) (hchecks : ChecksAt n key readFails s e)
    (hexists : s.world.storageExists key readFails = false)
    (hresponsible : s.world.isResponsible ctx.selfId key
      (storageAdmissionWidth ctx.config.closeGroupSize) = true) :
    (known ctx s₀ (events ++ [e]) n).mayRepair key :=
  occurred_concat_self hrun
    ⟨readFails, hchecks, storageExists_eq_false hexists, of_decide_eq_true hresponsible⟩

theorem From.step (hrun : run (step ctx) s₀ events = some s) (hfrom : From ctx s₀ events s)
    (hstep : s.step ctx e = some s') : From ctx s₀ (events ++ [e]) s' := by
  have hlater := hfrom.cycle_concat e
  cases steps_of_step hstep with
  | elsewhere world =>
      exact hfrom.of_cycle_eq hrun hstep rfl (fun _ _ => id) (fun _ _ => .inl) fun _ _ => .inl
  | hint key entry =>
      exact hfrom.of_cycle_eq hrun hstep rfl (fun _ _ hin => hin.addPendingVerify entry)
        (fun _ _ => .inl) fun _ _ => .inl
  | beginCycle hphase => exact hfrom.beginCycle hrun hphase
  | @classify key rest readFails hphase =>
      refine hfrom.of_frame hrun hstep classify_frame (cycleOk_classify hlater hphase ?_)
      intro hcontains
      obtain ⟨rfl, hpaid⟩ := paidListContains_eq_true hcontains
      exact occurred_concat_self hrun ⟨rfl, rfl, ⟨rest, hphase⟩, hpaid⟩
  | checkPaidOnly readFails hphase =>
      refine hfrom.of_frame hrun hstep checkPaidOnly_frame (cycleOk_checkPaidOnly hlater hphase ?_)
      exact mayRepair_of_check hrun ⟨rfl, .inl ⟨rfl, _, hphase⟩⟩
  | removePaidOnly hphase =>
      exact hfrom.of_frame hrun hstep ⟨rfl, rfl, rfl, rfl⟩ (cycleOk_removePaidOnly hlater hphase)
  | probe outcome order hphase =>
      refine hfrom.of_frame hrun hstep ⟨rfl, rfl, rfl, rfl⟩ (cycleOk_probe hlater hphase ?_)
      exact evidenceOk_of_round hrun rfl ⟨rfl, order, .inl ⟨rfl, hphase, rfl⟩⟩
  | promoteProbed readFails hphase =>
      exact hfrom.of_frame hrun hstep promoteProbed_frame
        (cycleOk_promoteProbed hlater hphase readFails)
  | verify outcome order hphase =>
      refine hfrom.of_frame hrun hstep ⟨rfl, rfl, rfl, rfl⟩ (cycleOk_verify hlater hphase ?_)
      exact evidenceOk_of_round hrun rfl ⟨rfl, order, .inr ⟨rfl, hphase, rfl⟩⟩
  | snapshot readFails hphase =>
      exact hfrom.of_frame hrun hstep ⟨rfl, rfl, rfl, rfl⟩
        (cycleOk_snapshot hlater hphase readFails)
  | evaluate hphase =>
      refine hfrom.of_frame hrun hstep ⟨rfl, rfl, rfl, rfl⟩ (cycleOk_evaluate hlater hphase ?_)
      intro key ev hev hverified
      exact occurred_concat_self hrun ⟨rfl, rfl, hphase, ev, hev, hverified⟩
  | insertPaid accepted hphase =>
      exact hfrom.of_frame hrun hstep ⟨rfl, rfl, rfl, rfl⟩
        (cycleOk_insertPaid hlater hphase accepted)
  | checkFetch readFails hphase =>
      refine hfrom.of_frame hrun hstep checkFetch_frame (cycleOk_checkFetch hlater hphase ?_)
      exact mayRepair_of_check hrun ⟨rfl, .inr ⟨rfl, _, _, hphase, rfl⟩⟩
  | update hphase => exact hfrom.of_frame hrun hstep update_frame (cycleOk_update hlater hphase)
  | endLoop hend =>
      have hcycle := cycleOk_endLoop hlater hend
      exact hfrom.of_frame hrun hstep ⟨rfl, rfl, rfl, rfl⟩ hcycle
  | dequeue =>
      obtain ⟨hcycle, hpending, hfetched, -⟩ := s.dequeue_frame
      refine hfrom.of_cycle_eq hrun hstep hcycle ?_ ?_ ?_
      · exact fun _ _ hin => by rwa [PendingIn, hpending]
      · intro key source hmem
        rcases fetching_of_dequeue hmem with hold | hqueued
        · exact .inl hold
        · exact .inr (.inl hqueued)
      · exact fun _ _ hmem => .inl (hfetched ▸ hmem)
  | execute reply accepted hfetching => exact hfrom.of_fetched hrun hstep hfetching
  | panic hfetching => exact hfrom.of_fetched hrun hstep hfetching
  | @finish key result hfetched =>
      obtain ⟨hcycle, hpending, hsubset, -⟩ := s.finish_frame key result
      refine hfrom.of_cycle_eq hrun hstep hcycle ?_ ?_ ?_
      · exact fun _ _ hin => by rwa [PendingIn, hpending]
      · intro other source hmem
        rcases fetching_of_finish hmem with hold | rfl
        · exact .inl hold
        · exact .inr (.inr ⟨result, hfetched⟩)
      · exact fun _ _ hmem => .inl (hsubset hmem)

theorem from_of_run {world : RepairWorld H}
    (hrun : run (RepairState.step ctx) (start world) events = some s) :
    From ctx (start world) events s :=
  history_induction (from_start world)
    (fun _ _ _ _ hmid hfrom hstep => From.step hmid hfrom hstep) hrun

end Steps

/-! ### Entering the fetch queue -/

section Entering

variable {ctx : RepairContext H} {s s' : RepairState H} {e : RepairEvent H} {key : H}
  {rest : List H} {readFails : Bool} {candidate : FetchCandidate H}

theorem classify_fetchQueue :
    (s.classify key rest readFails).queues.fetchQueue = s.queues.fetchQueue := by
  have hset : (s.queues.setPendingState key .paidListVerified).2.fetchQueue = s.queues.fetchQueue :=
    setPendingState_fetchQueue _
  unfold classify
  split_ifs
  · simp only
    split <;> exact hset
  · rfl

theorem checkPaidOnly_fetchQueue :
    (s.checkPaidOnly ctx key rest readFails).queues.fetchQueue = s.queues.fetchQueue := by
  unfold checkPaidOnly
  split_ifs <;> rfl

theorem checkFetch_fetchQueue {evaluated : EvaluatedKey H} {rest : List (EvaluatedKey H)} :
    (s.checkFetch ctx evaluated rest readFails).queues.fetchQueue = s.queues.fetchQueue := by
  unfold checkFetch
  split_ifs <;> rfl

theorem dequeue_fetchQueue (s : RepairState H) :
    s.dequeue.queues.fetchQueue ⊆ s.queues.fetchQueue := by
  have hpopped : s.queues.dequeueFetch.2.fetchQueue ⊆ s.queues.fetchQueue :=
    (popNotInFlight_subset _ _ _).2
  unfold dequeue
  simp only
  split
  · exact hpopped
  · split <;> exact hpopped

theorem finish_fetchQueue {result : Option FetchResult} :
    (s.finish key result).queues.fetchQueue = s.queues.fetchQueue := by
  have hretry : (s.queues.retryFetch key).2.fetchQueue = s.queues.fetchQueue :=
    retryFetch_fetchQueue
  unfold finish
  simp only
  split
  · split <;> exact hretry
  · split <;> exact hretry
  · rfl

/-- A probed key is put into the fetch queue with the present sources of its evidence. -/
theorem mem_promoteProbed (hmem : candidate ∈
      (s.promoteProbed ctx key rest readFails).queues.fetchQueue) :
    candidate ∈ s.queues.fetchQueue ∨ candidate.key = key ∧ candidate.sources ≠ [] ∧
      ∃ ev, s.cycle.evidence.lookup key = some ev ∧
        candidate.sources = presentSourcesForKey key ev s.cycle.targets := by
  unfold promoteProbed at hmem
  simp only at hmem
  split_ifs at hmem with hexists hsources
  · exact .inl (by rwa [removePending_fetchQueue] at hmem)
  · exact .inl (by rwa [removePending_fetchQueue] at hmem)
  · rcases mem_promotePendingToFetch hmem with hold | rfl
    · exact .inl hold
    · refine .inr ⟨rfl, hsources, ?_⟩
      cases hev : s.cycle.evidence.lookup key with
      | none => simp [hev] at hsources
      | some ev => exact ⟨ev, rfl, rfl⟩

/-- An evaluated key is put into the fetch queue with the sources of its outcome. -/
theorem mem_update {evaluated : EvaluatedKey H} {rest : List (EvaluatedKey H)}
    (hmem : candidate ∈ (s.update ctx evaluated rest).queues.fetchQueue) :
    candidate ∈ s.queues.fetchQueue ∨ candidate.key = evaluated.key ∧ candidate.sources ≠ [] ∧
      evaluated.outcome.verifiedSources = some candidate.sources ∧
      (evaluated.pipeline = .paidOnly → evaluated.key ∈ s.cycle.paidOnlyFetchKeys) := by
  unfold update at hmem
  simp only at hmem
  split at hmem
  · rename_i source sources hverified
    split_ifs at hmem with heligible
    · rcases mem_promotePendingToFetch hmem with hold | rfl
      · exact .inl hold
      · refine .inr ⟨rfl, List.cons_ne_nil _ _, hverified, fun hpaidOnly => ?_⟩
        rcases of_decide_eq_true heligible with hreplica | hfetch
        · rw [hpaidOnly] at hreplica
          cases hreplica
        · exact hfetch
    · exact .inl (by rwa [removePending_fetchQueue] at hmem)
  · exact .inl (by rwa [removePending_fetchQueue] at hmem)

/-- Only two steps put anything into the fetch queue. -/
theorem enters_cases (hnew : candidate ∉ s.queues.fetchQueue) (hstep : s.step ctx e = some s')
    (hmem : candidate ∈ s'.queues.fetchQueue) :
    (∃ key rest readFails, s.cycle.phase = .promotingProbed (key :: rest) ∧
      s' = s.promoteProbed ctx key rest readFails) ∨
    (∃ evaluated rest, s.cycle.phase = .updating (evaluated :: rest) ∧
      s' = s.update ctx evaluated rest) := by
  cases steps_of_step hstep with
  | @promoteProbed key rest readFails hphase => exact .inl ⟨key, rest, readFails, hphase, rfl⟩
  | @update evaluated rest hphase => exact .inr ⟨evaluated, rest, hphase, rfl⟩
  | elsewhere | beginCycle | probe | verify | snapshot | evaluate | insertPaid | endLoop | execute |
    panic => exact absurd hmem hnew
  | hint key entry =>
      simp only [addPendingVerify_fetchQueue] at hmem
      exact absurd hmem hnew
  | classify =>
      rw [classify_fetchQueue] at hmem
      exact absurd hmem hnew
  | checkPaidOnly =>
      rw [checkPaidOnly_fetchQueue] at hmem
      exact absurd hmem hnew
  | removePaidOnly =>
      simp only [removePaidOnly, removeAll_fetchQueue] at hmem
      exact absurd hmem hnew
  | checkFetch =>
      rw [checkFetch_fetchQueue] at hmem
      exact absurd hmem hnew
  | dequeue => exact absurd (s.dequeue_fetchQueue hmem) hnew
  | finish =>
      rw [finish_fetchQueue] at hmem
      exact absurd hmem hnew

/-- What the lists of the cycle stand for is what entering the fetch queue takes. -/
theorem From.authorised {s₀ : RepairState H} {events : List (RepairEvent H)}
    (hfrom : From ctx s₀ events s) (henters : EntersAt ctx candidate s e) :
    Authorised ctx s₀ events s candidate := by
  obtain ⟨hnew, s', hstep, hmem⟩ := henters
  have hok := hfrom.cycle
  rcases enters_cases hnew hstep hmem with
    ⟨key, rest, readFails, hphase, rfl⟩ | ⟨evaluated, rest, hphase, rfl⟩
  · simp only [CycleOk, hphase] at hok
    obtain ⟨-, -, hprobe, hevidence⟩ := hok
    obtain hold | ⟨rfl, hsources, ev, hev, hpresent⟩ := mem_promoteProbed hmem
    · exact absurd hold hnew
    · obtain ⟨hpaid, pipeline, ⟨entry, hentry, rfl⟩, hrepair⟩ := hprobe _ (List.mem_cons_self ..)
      refine ⟨.inl hpaid, hsources, ?_, entry, hentry, hrepair⟩
      intro peer hpeer
      exact hevidence _ ev hev peer (hpresent ▸ hpeer)
  · simp only [CycleOk, hphase] at hok
    obtain ⟨-, hupdate, hfetch⟩ := hok
    obtain hold | ⟨hkey, hsources, hverified, heligible⟩ := mem_update hmem
    · exact absurd hold hnew
    · obtain ⟨⟨entry, hentry, hpipeline⟩, hevaluated⟩ := hupdate _ (List.mem_cons_self ..)
      obtain ⟨hknown, hanswered⟩ := hevaluated candidate.sources hverified
      rw [← hkey] at hentry hknown hanswered heligible
      refine ⟨.inr hknown, hsources, hanswered, entry, hentry, fun hpaidOnly => ?_⟩
      exact hfetch _ (heligible (hpipeline ▸ hpaidOnly))

end Entering

/-! ### Storing -/

/-- What a fetch does to the store. -/
theorem executeSingleFetch_storage (ctx : RepairContext H) (world : RepairWorld H) (key : H)
    (reply : FetchReply H) (accepted : Bool) :
    (executeSingleFetch ctx world key reply accepted).2.storage = world.storage ∨
      ∃ data : Bytes, data.length ≤ ctx.maxChunkSize ∧ blake3 data = key ∧
        (executeSingleFetch ctx world key reply accepted).2.storage =
          world.storage.insert key data := by
  cases reply with
  | success respKey data =>
      unfold executeSingleFetch RepairWorld.put
      simp only
      split_ifs with hkey hsize hhash hrefused hstored
      · exact .inl rfl
      · exact .inl rfl
      · exact .inl rfl
      · exact .inl rfl
      · exact .inl rfl
      · refine .inr ⟨data, not_lt.mp hsize, (not_not.mp hhash).trans (not_not.mp hkey), ?_⟩
        rw [not_not.mp hkey]
  | noMessage | notFound | error | otherMessage => exact .inl rfl

/-- The step writes the data under the key. -/
def StoresAt (ctx : RepairContext H) (s s' : RepairState H) (e : RepairEvent H) (key : H)
    (data : Bytes) : Prop :=
  (∃ source reply accepted, e = .execute key source reply accepted ∧
    (key, source) ∈ s.fetching) ∧
    data.length ≤ ctx.maxChunkSize ∧ blake3 data = key ∧
    s'.world.storage = s.world.storage.insert key data

theorem storage_of_step {ctx : RepairContext H} {s s' : RepairState H} {e : RepairEvent H}
    (hstep : s.step ctx e = some s') (hnot : ∀ world, e ≠ .elsewhere world) :
    s'.world.storage = s.world.storage ∨ ∃ key data, StoresAt ctx s s' e key data := by
  cases steps_of_step hstep with
  | elsewhere world => exact absurd rfl (hnot world)
  | hint | beginCycle | removePaidOnly | probe | verify | snapshot | evaluate | insertPaid |
    endLoop | panic => exact .inl rfl
  | classify => exact .inl classify_frame.storage
  | checkPaidOnly => exact .inl checkPaidOnly_frame.storage
  | promoteProbed => exact .inl promoteProbed_frame.storage
  | checkFetch => exact .inl checkFetch_frame.storage
  | update => exact .inl update_frame.storage
  | dequeue => exact .inl (by rw [s.dequeue_frame.2.2.2])
  | @execute key source reply accepted hfetching =>
      rcases executeSingleFetch_storage ctx s.world key reply accepted with
        hsame | ⟨data, hsize, hhash, hstored⟩
      · exact .inl hsame
      · exact .inr ⟨key, data, ⟨source, reply, accepted, rfl, hfetching⟩, hsize, hhash, hstored⟩
  | finish => exact .inl (by rw [(s.finish_frame _ _).2.2.2])

/-- The repair path stores authorised data only: what enters the fetch queue is authorised by the
steps of the cycle that puts it there, and what is stored has entered the fetch queue, is no larger
than a chunk and hashes to the key it is stored under. -/
theorem repair_authorised {ctx : RepairContext H} {world : RepairWorld H}
    {events : List (RepairEvent H)} {s s' : RepairState H} {e : RepairEvent H}
    (hrun : run (step ctx) (start world) events = some s) (hstep : s.step ctx e = some s') :
    (∀ candidate, EntersAt ctx candidate s e → Authorised ctx (start world) events s candidate) ∧
      ((∀ world, e ≠ .elsewhere world) → s'.world.storage = s.world.storage ∨
        ∃ key data, StoresAt ctx s s' e key data ∧ Entered ctx (start world) events key) := by
  have hfrom := from_of_run hrun
  refine ⟨fun candidate henters => hfrom.authorised henters, fun hnot => ?_⟩
  rcases storage_of_step hstep hnot with hsame | ⟨key, data, hstores⟩
  · exact .inl hsame
  · obtain ⟨source, -, -, -, hfetching⟩ := hstores.1
    exact .inr ⟨key, data, hstores, hfrom.fetching key source hfetching⟩

/-- Nothing leaves the store but by the rest of the node. -/
theorem mem_storage_of_run {ctx : RepairContext H} {s s' : RepairState H}
    {events : List (RepairEvent H)} {key : H} (hrun : run (step ctx) s events = some s')
    (hnot : ∀ e ∈ events, ∀ world, e ≠ .elsewhere world) (hmem : key ∈ s.world.storage) :
    key ∈ s'.world.storage := by
  have hstep : ∀ s e s', key ∈ s.world.storage → (∀ world, e ≠ .elsewhere world) →
      step ctx s e = some s' → key ∈ s'.world.storage := by
    intro s e s' hmem hnot hstep
    rcases storage_of_step hstep hnot with hsame | ⟨other, data, -, -, -, hstored⟩
    · rwa [hsame]
    · rw [hstored]
      exact Finmap.mem_insert.mpr (.inr hmem)
  have halong : Along (step ctx) (fun _ e => ∀ world, e ≠ .elsewhere world) s events :=
    along_of_forall fun e he _ => hnot e he
  exact @invariant_of_run _ _ _ _ (fun s => key ∈ s.world.storage) _ _ _ hstep hmem halong hrun

end RepairState

namespace Transcript

open RepairState

def repairNode : RepairContext Transcript where
  selfId := ⟨[0]⟩
  config := ⟨1, 1, 1, 0⟩
  maxChunkSize := 4
  maxParallelFetch := 1
  xorDistance := fun key _ => key

/-- The peer 1 and this node are the group of every key. -/
def repairWorld (storage : FiniteMap Transcript Bytes) : RepairWorld Transcript where
  now := 0
  paidList := ∅
  storage := storage
  routing := ⟨fun _ _ => [⟨[1]⟩], fun _ _ => [⟨[0]⟩, ⟨[1]⟩]⟩
  commitmentByPeer := ∅
  everCapablePeers := ∅
  recentProvers := .new

/-- A paid-only hint for the key 2, and the cycle up to its last step; the peer 1 holds the key. -/
def paidOnlyCycle (readFails : Bool) : List (RepairEvent Transcript) :=
  [.hint ⟨[2]⟩ ⟨.pendingVerify, .paidOnly, [], ∅, 0, ⟨[1]⟩⟩, .beginCycle, .classify false, .endLoop,
    .endLoop, .removePaidOnly, .endLoop,
    .verify (fun _ => .response ⟨[⟨⟨[2]⟩, true, some true⟩]⟩) [⟨[1]⟩], .snapshot fun _ => readFails,
    .evaluate, .insertPaid fun _ => true, .checkFetch readFails, .endLoop]

/-- What the last step of the cycle does to the fetch queue, with the pipeline of the key. -/
def lastStep (storage : FiniteMap Transcript Bytes) (readFails : Bool) :
    Option (List (FetchCandidate Transcript) × Option HintPipeline ×
      List (FetchCandidate Transcript)) :=
  (run (step repairNode) (start (repairWorld storage)) (paidOnlyCycle readFails)).bind fun s =>
    (s.step repairNode .update).map fun s' =>
      (s.queues.fetchQueue, (s.queues.pendingVerify.lookup ⟨[2]⟩).map VerificationEntry.pipeline,
        s'.queues.fetchQueue)

theorem exists_of_lastStep {storage : FiniteMap Transcript Bytes} {readFails : Bool}
    {candidate : FetchCandidate Transcript}
    (hlast : lastStep storage readFails = some ([], some .paidOnly, [candidate])) :
    ∃ s s' entry,
      run (step repairNode) (start (repairWorld storage)) (paidOnlyCycle readFails) = some s ∧
      s.step repairNode .update = some s' ∧ EntersAt repairNode candidate s .update ∧
      s.queues.pendingVerify.lookup ⟨[2]⟩ = some entry ∧ entry.pipeline = .paidOnly := by
  obtain ⟨s, hrun, hmap⟩ := Option.bind_eq_some_iff.mp hlast
  obtain ⟨s', hstep, hqueues⟩ := Option.map_eq_some_iff.mp hmap
  obtain ⟨hempty, hqueues⟩ := Prod.mk.inj hqueues
  obtain ⟨hpipeline, hqueued⟩ := Prod.mk.inj hqueues
  obtain ⟨entry, hentry, hpaidOnly⟩ := Option.map_eq_some_iff.mp hpipeline
  have henters : EntersAt repairNode candidate s .update :=
    ⟨by simp [hempty], s', hstep, by simp [hqueued]⟩
  exact ⟨s, s', entry, hrun, hstep, henters, hentry, hpaidOnly⟩

/-- The fetch of the key 2 from the peer 1, which sends the data. -/
def fetchTwo : RepairEvent Transcript := .execute ⟨[2]⟩ ⟨[1]⟩ (.success ⟨[2]⟩ [2]) true

theorem repair_authorised_paidOnly :
    (∃ s s' candidate,
      run (step repairNode) (start (repairWorld ∅)) (paidOnlyCycle false) = some s ∧
      s.step repairNode .update = some s' ∧ EntersAt repairNode candidate s .update ∧
      Authorised repairNode (start (repairWorld ∅)) (paidOnlyCycle false) s candidate) ∧
    ∃ s s' key data,
      run (step repairNode) (start (repairWorld ∅)) (paidOnlyCycle false ++ [.update, .dequeue]) =
        some s ∧
      s.step repairNode fetchTwo = some s' ∧ StoresAt repairNode s s' fetchTwo key data ∧
      Entered repairNode (start (repairWorld ∅)) (paidOnlyCycle false ++ [.update, .dequeue]) key := by
  constructor
  · have hlast : lastStep ∅ false = some ([], some .paidOnly, [⟨⟨[2]⟩, ⟨[2]⟩, [⟨[1]⟩]⟩]) := by
      decide +kernel
    obtain ⟨s, s', -, hrun, hstep, henters, -, -⟩ := exists_of_lastStep hlast
    exact ⟨s, s', _, hrun, hstep, henters, (repair_authorised hrun hstep).1 _ henters⟩
  · have hfetch : ((run (step repairNode) (start (repairWorld ∅))
        (paidOnlyCycle false ++ [.update, .dequeue])).bind fun s =>
        (s.step repairNode fetchTwo).map fun s' =>
          (s.world.storage.lookup ⟨[2]⟩, s'.world.storage.lookup ⟨[2]⟩)) =
        some (none, some [2]) := by
      decide +kernel
    obtain ⟨s, hrun, hmap⟩ := Option.bind_eq_some_iff.mp hfetch
    obtain ⟨s', hstep, hlookup⟩ := Option.map_eq_some_iff.mp hmap
    obtain ⟨hbefore, hafter⟩ := Prod.mk.inj hlookup
    rcases (repair_authorised hrun hstep).2 nofun with hsame | ⟨key, data, hstores, hentered⟩
    · rw [hsame, hbefore] at hafter
      cases hafter
    · exact ⟨s, s', key, data, hrun, hstep, hstores, hentered⟩

/-- The key 2 enters the fetch queue under the paid-only pipeline, and was stored all along: the
store could not be read when it was looked up. -/
theorem stored_enters_after_read_error :
    ∃ s s' candidate entry,
      run (step repairNode) (start (repairWorld (Finmap.singleton ⟨[2]⟩ [2])))
        (paidOnlyCycle true) = some s ∧
      s.step repairNode .update = some s' ∧ EntersAt repairNode candidate s .update ∧
      s.queues.pendingVerify.lookup candidate.key = some entry ∧ entry.pipeline = .paidOnly ∧
      candidate.key ∈ s.world.storage ∧
      ¬ Occurred (step repairNode) (fun s _ => candidate.key ∉ s.world.storage)
        (start (repairWorld (Finmap.singleton ⟨[2]⟩ [2]))) (paidOnlyCycle true) := by
  have hlast : lastStep (Finmap.singleton ⟨[2]⟩ [2]) true =
      some ([], some .paidOnly, [⟨⟨[2]⟩, ⟨[2]⟩, [⟨[1]⟩]⟩]) := by
    decide +kernel
  obtain ⟨s, s', entry, hrun, hstep, henters, hentry, hpaidOnly⟩ := exists_of_lastStep hlast
  have hnot : ∀ e ∈ paidOnlyCycle true, ∀ world, e ≠ .elsewhere world := by
    simp [paidOnlyCycle]
  have hstart : (⟨[2]⟩ : Transcript) ∈
      (start (repairWorld (Finmap.singleton ⟨[2]⟩ [2]))).world.storage :=
    (Finmap.mem_singleton _ _ _).mpr rfl
  refine ⟨s, s', _, entry, hrun, hstep, henters, hentry, hpaidOnly,
    mem_storage_of_run hrun hnot hstart, ?_⟩
  rintro ⟨before, e, after, mid, heq, hmid, hmissing⟩
  refine hmissing (mem_storage_of_run hmid (fun e he => hnot e ?_) hstart)
  rw [heq]
  exact List.mem_append_left _ he

end Transcript

end AntNode
