import AntNode.ByteName
import AntNode.Proof.BootstrapSteps
import AntNode.Proof.QuorumExact
import AntNode.Proof.VerificationRound

/-!
# A source cleared and nobody told

A neighbor hints one key more than a sender may have pending. What fits is asked about in the next
cycle and nobody answers, so all of it leaves the queues; the check after the cycle still finds the
source among those whose hints overflowed. The source's next hints fit, its handler clears it, and
with that the drain condition holds. The task and the workers have run their checks by then.
-/

namespace AntNode

open Runs ReplicationQueues Voting

variable {H : Type} [Digest H] {ctx : RepairContext H} {source key : H} {now : Nat}
  {keys order : List H}

/-! ### One hint too many -/

def replicaEntry (source : H) (now : Nat) : VerificationEntry H :=
  ⟨.pendingVerify, .replica, [], ∅, now, source⟩

theorem queueHint_eq (q : ReplicationQueues H) (outcome : AdmissionOutcome H) :
    queueHint source now .replica (q, outcome) key =
      match q.addPendingVerify key (replicaEntry source now) with
      | (.admitted, q) => (q, { outcome with discovered := insert key outcome.discovered })
      | (.alreadyPresent, q) => (q, outcome)
      | (.capacityRejected, q) =>
          (q, { outcome with capacityRejectedCount := outcome.capacityRejectedCount + 1 }) := rfl

/-- Nothing but the replica hints of one source is queued, the last one first. -/
structure OnlyHinted (source : H) (now : Nat) (keys : List H) (q : ReplicationQueues H) :
    Prop where
  inv : q.Inv
  entries : q.pendingVerify.entries = keys.reverse.map fun key => ⟨key, replicaEntry source now⟩
  fetchQueue : q.fetchQueue = []
  inFlightFetch : q.inFlightFetch = ∅

namespace OnlyHinted

variable {q : ReplicationQueues H}

theorem new : OnlyHinted source now [] (ReplicationQueues.new : ReplicationQueues H) :=
  ⟨inv_new, rfl, rfl, rfl⟩

theorem keys_eq (hq : OnlyHinted source now keys q) : q.pendingVerify.keys = keys.reverse := by
  rw [AList.keys, hq.entries, List.keys, List.map_map]
  exact List.map_id _

theorem not_tracked (hq : OnlyHinted source now keys q) (hnew : key ∉ keys) : ¬q.Tracked key := by
  rintro (hpending | hqueued | hinFlight)
  · rw [AList.mem_keys, hq.keys_eq, List.mem_reverse] at hpending
    exact hnew hpending
  · rw [queuedKeys, hq.fetchQueue] at hqueued
    cases hqueued
  · rw [hq.inFlightFetch] at hinFlight
    exact AList.notMem_empty _ hinFlight

theorem pendingOf_eq (hq : OnlyHinted source now keys q) : q.pendingOf source = keys.length := by
  rw [pendingOf, Tally.count, hq.entries, List.countP_map, ← List.length_reverse]
  exact List.countP_eq_length.mpr fun _ _ => decide_eq_true rfl

theorem length_eq (hq : OnlyHinted source now keys q) :
    q.pendingVerify.entries.length = keys.length := by
  rw [hq.entries, List.length_map, List.length_reverse]

theorem lookup_eq (hq : OnlyHinted source now keys q) (hkey : key ∈ keys) :
    q.pendingVerify.lookup key = some (replicaEntry source now) := by
  apply AList.mem_lookup_iff.mpr
  rw [hq.entries]
  exact List.mem_map_of_mem (List.mem_reverse.mpr hkey)

/-- A key that fits is admitted. -/
theorem queueHint_of_room (hq : OnlyHinted source now keys q) (hnew : key ∉ keys)
    (hroom : keys.length < maxPendingVerifyPerPeer) (outcome : AdmissionOutcome H) :
    ∃ q', queueHint source now .replica (q, outcome) key =
        (q', { outcome with discovered := insert key outcome.discovered }) ∧
      OnlyHinted source now (keys ++ [key]) q' := by
  have hbound : maxPendingVerifyPerPeer < maxPendingVerify := by decide
  have hadd := hq.inv.addPendingVerify_eq (replicaEntry source now) (hq.not_tracked hnew)
  rw [if_pos ⟨by rw [hq.length_eq]; omega, hq.pendingOf_eq.trans_lt hroom⟩] at hadd
  have hinv := hq.inv.addPendingVerify key (replicaEntry source now)
  rw [hadd] at hinv
  refine ⟨_, ?_, hinv, ?_, hq.fetchQueue, hq.inFlightFetch⟩
  · rw [queueHint_eq, hadd]
  · have hnotMem : key ∉ q.pendingVerify := fun hmem => hq.not_tracked hnew (.inl hmem)
    rw [AList.entries_insert_of_notMem hnotMem, hq.entries, List.reverse_concat, List.map_cons]

/-- One that does not is rejected. -/
theorem queueHint_of_full (hq : OnlyHinted source now keys q) (hnew : key ∉ keys)
    (hfull : keys.length = maxPendingVerifyPerPeer) (outcome : AdmissionOutcome H) :
    queueHint source now .replica (q, outcome) key =
      (q, { outcome with capacityRejectedCount := outcome.capacityRejectedCount + 1 }) := by
  have hadd := hq.inv.addPendingVerify_eq (replicaEntry source now) (hq.not_tracked hnew)
  rw [if_neg fun hroom => absurd hroom.2 (by
    rw [show (replicaEntry source now).hintSender = source from rfl, hq.pendingOf_eq, hfull]
    exact lt_irrefl _)] at hadd
  rw [queueHint_eq, hadd]

theorem evictStale (hq : OnlyHinted source now keys q) :
    OnlyHinted source now keys (q.evictStale pendingVerifyMaxAge now) where
  inv := hq.inv.evictStale _ _
  entries := by
    refine (List.filter_eq_self.mpr fun entry hentry => ?_).trans hq.entries
    rw [hq.entries] at hentry
    obtain ⟨key, -, rfl⟩ := List.mem_map.mp hentry
    simp [isFresh, replicaEntry, pendingVerifyMaxAge]
  fetchQueue := hq.fetchQueue
  inFlightFetch := hq.inFlightFetch

end OnlyHinted

theorem queueHints_of_room (source : H) (now : Nat) (hnodup : keys.Nodup)
    (hroom : keys.length ≤ maxPendingVerifyPerPeer) :
    ∃ q, keys.foldl (queueHint source now .replica) (.new, ⟨∅, 0⟩) = (q, ⟨keys.toFinset, 0⟩) ∧
      OnlyHinted source now keys q := by
  induction keys using List.reverseRecOn with
  | nil => exact ⟨_, rfl, OnlyHinted.new⟩
  | append_singleton keys key ih =>
      have hnew : key ∉ keys := by
        rw [List.nodup_append] at hnodup
        exact fun hmem => hnodup.2.2 key hmem key (List.mem_singleton.mpr rfl) rfl
      rw [List.length_append, List.length_singleton] at hroom
      obtain ⟨q, hfold, hq⟩ := ih (hnodup.sublist (List.sublist_append_left _ _)) (by omega)
      obtain ⟨q', hqueue, hq'⟩ := hq.queueHint_of_room hnew (by omega) ⟨keys.toFinset, 0⟩
      refine ⟨q', ?_, hq'⟩
      rw [List.foldl_concat, hfold, hqueue, List.toFinset_append, List.toFinset_cons,
        List.toFinset_nil, insert_empty_eq, Finset.union_comm, ← Finset.insert_eq]

/-- Of one hint more than fits, the last one is rejected. -/
theorem admitAndQueueHints_of_overflow {last : H} (source : H) (now : Nat)
    (hnodup : (keys ++ [last]).Nodup) (hfull : keys.length = maxPendingVerifyPerPeer) :
    ∃ q, admitAndQueueHints .new source now ⟨keys ++ [last], []⟩ (fun _ => false) =
        (q, ⟨keys.toFinset, 1⟩) ∧ OnlyHinted source now keys q := by
  obtain ⟨q, hfold, hq⟩ := queueHints_of_room source now
    (hnodup.sublist (List.sublist_append_left _ _)) hfull.le
  have hnew : last ∉ keys := by
    rw [List.nodup_append] at hnodup
    exact fun hmem => hnodup.2.2 last hmem last (List.mem_singleton.mpr rfl) rfl
  refine ⟨q, ?_, hq⟩
  have hheld : (keys ++ [last]).filter (fun _ => !false) = keys ++ [last] :=
    List.filter_eq_self.mpr fun _ _ => rfl
  rw [admitAndQueueHints, List.foldl_nil, hheld, List.foldl_concat, hfold,
    hq.queueHint_of_full hnew hfull]

/-! ### A round that nobody answers -/

theorem not_verified_of_failed {targets : VerificationTargets H} {ev : KeyVerificationEvidence H}
    {config : ReplicationConfig} {credit : H → H → Bool}
    (hev : (runVerificationRound keys targets (fun _ => .failed) order).lookup key = some ev) :
    ¬(evaluateKeyEvidenceWithHolderCheck key ev targets config credit).Verified := by
  have hpresence : ∀ peers : List H, (tally (presenceVote ev credit key) peers).yes = 0 := by
    intro peers
    rw [tally_yes, List.countP_eq_zero]
    intro peer _ hyes
    have hspeaks := speaksForItself_of_round hev peer
    unfold presenceVote at hyes
    split at hyes
    · rename_i hpresent
      obtain ⟨response, hresponse, -⟩ := hspeaks.present hpresent
      cases hresponse
    all_goals cases hyes
  have hpaid : ∀ peers : List H, (tally (paidVote ev) peers).yes = 0 := by
    intro peers
    rw [tally_yes, List.countP_eq_zero]
    intro peer _ hyes
    have hspeaks := speaksForItself_of_round hev peer
    unfold paidVote at hyes
    split at hyes
    · rename_i hconfirmed
      obtain ⟨response, hresponse, -⟩ := hspeaks.confirmed hconfirmed
      cases hresponse
    all_goals cases hyes
  rw [verified_iff, hpresence, hpaid]
  rintro (⟨hpos, hle⟩ | ⟨hpos, hle⟩)
  · omega
  · exact absurd hle (by simp [ReplicationConfig.confirmNeeded])

/-- A replica key that was not verified. -/
def EvaluatedKey.Unverified (e : EvaluatedKey H) : Prop :=
  e.pipeline = .replica ∧ e.outcome.verifiedSources = none

theorem exists_evaluateKey (ctx : RepairContext H) {s : RepairState H} (hq : OnlyHinted source now keys s.queues)
    (hkey : key ∈ keys) (hneeds : key ∈ s.cycle.keysNeedingNetwork)
    (hevidence : s.cycle.evidence = runVerificationRound s.cycle.keysNeedingNetwork s.cycle.targets
      (fun _ => .failed) order) :
    ∃ e, s.evaluateKey ctx key = some e ∧ e.key = key ∧ e.Unverified := by
  obtain ⟨ev, hev⟩ := exists_evidence s.cycle.targets (fun _ => .failed) order hneeds
  have hlookup : s.cycle.evidence.lookup key = some ev := hevidence ▸ hev
  refine ⟨_, by rw [RepairState.evaluateKey, hlookup, hq.lookup_eq hkey], rfl, rfl, ?_⟩
  rw [Option.eq_none_iff_forall_ne_some]
  intro sources hsources
  exact not_verified_of_failed hev (verified_of_verifiedSources hsources).1

theorem evaluated_of_failed {s : RepairState H} (hq : OnlyHinted source now keys s.queues)
    (hneeds : s.cycle.keysNeedingNetwork ⊆ keys)
    (hevidence : s.cycle.evidence = runVerificationRound s.cycle.keysNeedingNetwork s.cycle.targets
      (fun _ => .failed) order) :
    (s.cycle.keysNeedingNetwork.filterMap (s.evaluateKey ctx)).map EvaluatedKey.key =
        s.cycle.keysNeedingNetwork ∧
      ∀ e ∈ s.cycle.keysNeedingNetwork.filterMap (s.evaluateKey ctx), e.Unverified := by
  have hall : ∀ asked ⊆ s.cycle.keysNeedingNetwork,
      (asked.filterMap (s.evaluateKey ctx)).map EvaluatedKey.key = asked ∧
        ∀ e ∈ asked.filterMap (s.evaluateKey ctx), e.Unverified := by
    intro asked hasked
    induction asked with
    | nil => exact ⟨rfl, fun e he => absurd he List.not_mem_nil⟩
    | cons key rest ih =>
        obtain ⟨hkey, hrest⟩ := List.cons_subset.mp hasked
        obtain ⟨hkeys, hunverified⟩ := ih hrest
        obtain ⟨e, heval, rfl, he⟩ := exists_evaluateKey ctx hq (hneeds hkey) hkey hevidence
        rw [List.filterMap_cons_some heval, List.map_cons, hkeys]
        exact ⟨rfl, List.forall_mem_cons.mpr ⟨he, hunverified⟩⟩
  exact hall _ (List.Subset.refl _)

/-! ### A cycle that fails -/

namespace BootstrapNode

/-- The node with a cycle, queues and terminal keys of its own. -/
def inCycle (s : BootstrapNode H) (cycle : VerificationCycle H) (queues : ReplicationQueues H)
    (terminalKeys : List H) : BootstrapNode H :=
  { s with repair.cycle := cycle, repair.queues := queues, terminalKeys := terminalKeys }

variable {s : BootstrapNode H} {cycle : VerificationCycle H} {queues : ReplicationQueues H}
  {terminalKeys : List H}

theorem run_classify (ctx : RepairContext H) (hpaid : s.repair.world.paidList = ∅)
    (cycle : VerificationCycle H) (queues : ReplicationQueues H) (terminalKeys remaining : List H) :
    run (step ctx) (s.inCycle { cycle with phase := .classifying remaining } queues terminalKeys)
        (List.replicate remaining.length (.repair (.classify false))) =
      some (s.inCycle
        { cycle with
          phase := .classifying []
          keysNeedingNetwork := cycle.keysNeedingNetwork ++ remaining } queues terminalKeys) := by
  induction remaining generalizing cycle with
  | nil => simp [run]
  | cons key rest ih =>
      rw [List.length_cons, List.replicate_succ, run_cons_eq_some]
      refine ⟨s.inCycle
        { cycle with
          phase := .classifying rest
          keysNeedingNetwork := cycle.keysNeedingNetwork ++ [key] } queues terminalKeys, ?_, ?_⟩
      · simp [step, allows, inCycle, RepairState.step, RepairState.classify, repaired,
          RepairWorld.paidListContains, hpaid, RepairState.cycleTerminal, RepairState.fetchTerminal]
      · rw [ih { cycle with keysNeedingNetwork := cycle.keysNeedingNetwork ++ [key] },
          List.append_assoc, List.singleton_append]

theorem run_checkFetch (ctx : RepairContext H) (s : BootstrapNode H) (cycle : VerificationCycle H)
    (queues : ReplicationQueues H) (terminalKeys : List H) (remaining : List (EvaluatedKey H))
    (hunverified : ∀ e ∈ remaining, e.Unverified) :
    run (step ctx) (s.inCycle { cycle with phase := .checkingFetch remaining } queues terminalKeys)
        (List.replicate remaining.length (.repair (.checkFetch false))) =
      some (s.inCycle { cycle with phase := .checkingFetch [] } queues terminalKeys) := by
  induction remaining with
  | nil => rfl
  | cons e rest ih =>
      obtain ⟨he, hrest⟩ := List.forall_mem_cons.mp hunverified
      rw [List.length_cons, List.replicate_succ, run_cons_eq_some]
      refine ⟨s.inCycle { cycle with phase := .checkingFetch rest } queues terminalKeys, ?_, ih hrest⟩
      simp [step, allows, inCycle, RepairState.step, RepairState.checkFetch, repaired, he.1,
        RepairState.cycleTerminal, RepairState.fetchTerminal]

theorem run_update (ctx : RepairContext H) (s : BootstrapNode H) (cycle : VerificationCycle H)
    (remaining : List (EvaluatedKey H)) (queues : ReplicationQueues H) (terminalKeys : List H)
    (hunverified : ∀ e ∈ remaining, e.Unverified) :
    ∃ queues', run (step ctx)
        (s.inCycle { cycle with phase := .updating remaining } queues terminalKeys)
        (List.replicate remaining.length (.repair .update)) =
      some (s.inCycle { cycle with phase := .updating [] } queues'
        (terminalKeys ++ remaining.map EvaluatedKey.key)) := by
  induction remaining generalizing queues terminalKeys with
  | nil => exact ⟨queues, by simp [run]⟩
  | cons e rest ih =>
      obtain ⟨he, hrest⟩ := List.forall_mem_cons.mp hunverified
      obtain ⟨queues', hrun⟩ :=
        ih (queues.removePending e.key).2 (terminalKeys ++ [e.key]) hrest
      refine ⟨queues', ?_⟩
      rw [List.length_cons, List.replicate_succ, run_cons_eq_some]
      refine ⟨s.inCycle { cycle with phase := .updating rest } (queues.removePending e.key).2
        (terminalKeys ++ [e.key]), ?_, ?_⟩
      · simp [step, allows, inCycle, RepairState.step, RepairState.update, repaired, he.2,
          RepairState.cycleTerminal, RepairState.fetchTerminal]
      · rw [hrun, List.map_cons, List.append_assoc, List.singleton_append]

/-- From the end of a cycle's first loop to its first loop over the evaluated keys; every request
fails. -/
def failingRound (order : List H) : List (BootstrapEvent H) :=
  [.repair .endLoop, .repair .endLoop, .repair .removePaidOnly, .repair .endLoop,
    .repair (.verify (fun _ => .failed) order), .repair (.snapshot fun _ => false),
    .repair .evaluate, .repair (.insertPaid fun _ => true)]

/-- A loop of a cycle: so many of its steps, and its end. -/
def loopOf (count : Nat) (event : RepairEvent H) : List (BootstrapEvent H) :=
  List.replicate count (.repair event) ++ [.repair .endLoop]

/-- A verification cycle over so many keys in which every request fails. -/
def failingCycle (count : Nat) (order : List H) : List (BootstrapEvent H) :=
  .repair .beginCycle :: (List.replicate count (.repair (.classify false)) ++
    (failingRound order ++ (loopOf count (.checkFetch false) ++ loopOf count .update)))

theorem insertPaid_of_unverified (repair : RepairState H)
    (hunverified : ∀ e ∈ repair.cycle.evaluated, e.Unverified) (accepted : H → Bool) :
    repair.insertPaid accepted = { repair with
      cycle.phase := .checkingFetch repair.cycle.evaluated
      cycle.paidOnlyFetchKeys := ∅ } := by
  have hnone : (repair.cycle.evaluated.filter fun e =>
      e.outcome.verifiedSources.isSome && accepted e.key) = [] := by
    refine List.filter_eq_nil_iff.mpr fun e he => ?_
    rw [(hunverified e he).2]
    exact Bool.false_ne_true
  simp only [RepairState.insertPaid, hnone, List.map_nil, List.toFinset_nil, Finset.union_empty]

theorem run_failingRound (ctx : RepairContext H) (order : List H) {needs : List H}
    (hne : needs ≠ []) (hneeds : needs ⊆ keys)
    (hq : OnlyHinted source now keys queues) (number : Nat) :
    ∃ cycle : VerificationCycle H, run (step ctx)
        (s.inCycle { VerificationCycle.idle number with
          phase := .classifying []
          keysNeedingNetwork := needs } queues []) (failingRound order) =
      some (s.inCycle { cycle with phase := .checkingFetch cycle.evaluated } queues []) ∧
      cycle.evaluated.map EvaluatedKey.key = needs ∧ ∀ e ∈ cycle.evaluated, e.Unverified := by
  let targets := computeVerificationTargets needs s.repair.world.routing ctx.config ctx.selfId
  let asked : VerificationCycle H :=
    { VerificationCycle.idle number with
      phase := .evaluating
      keysNeedingNetwork := needs
      targets := targets
      evidence := runVerificationRound needs targets (fun _ => .failed) order
      holders := ⟨s.repair.world.commitmentByPeer, s.repair.world.everCapablePeers,
        s.repair.world.recentProvers,
        (needs.filter fun key => s.repair.world.storageExists key false).toFinset⟩ }
  let evaluated := needs.filterMap
    (RepairState.evaluateKey ctx { s.repair with queues := queues, cycle := asked })
  obtain ⟨hkeys, hunverified⟩ : evaluated.map EvaluatedKey.key = needs ∧
      ∀ e ∈ evaluated, e.Unverified :=
    evaluated_of_failed (s := { s.repair with queues := queues, cycle := asked }) hq hneeds rfl
  have hlocal : run (step ctx)
      (s.inCycle { VerificationCycle.idle number with
        phase := .classifying []
        keysNeedingNetwork := needs } queues [])
      [.repair .endLoop, .repair .endLoop, .repair .removePaidOnly, .repair .endLoop] =
      some (s.inCycle { VerificationCycle.idle number with
        phase := .verifying
        keysNeedingNetwork := needs } queues []) := by
    simp [run, step, allows, inCycle, RepairState.step, RepairState.endLoop,
      RepairState.removePaidOnly, VerificationCycle.idle, VerificationCycle.networkPhase, hne,
      repaired, RepairState.cycleTerminal, RepairState.fetchTerminal]
  have hask : run (step ctx)
      (s.inCycle { VerificationCycle.idle number with
        phase := .verifying
        keysNeedingNetwork := needs } queues [])
      [.repair (.verify (fun _ => .failed) order), .repair (.snapshot fun _ => false),
        .repair .evaluate] =
      some (s.inCycle { asked with phase := .insertingPaid, evaluated := evaluated } queues []) :=
    rfl
  have hinsert : (s.inCycle { asked with phase := .insertingPaid, evaluated := evaluated } queues
      []).step ctx (.repair (.insertPaid fun _ => true)) =
      some (s.inCycle { asked with
        phase := .checkingFetch evaluated
        evaluated := evaluated
        paidOnlyFetchKeys := ∅ } queues []) := by
    have hinserted := insertPaid_of_unverified (s.inCycle { asked with
      phase := .insertingPaid, evaluated := evaluated } queues []).repair hunverified fun _ => true
    change some (repaired _ _ (RepairState.insertPaid _ _)) = _
    rw [hinserted]
    rfl
  exact ⟨{ asked with evaluated := evaluated, paidOnlyFetchKeys := ∅ },
    run_append_eq_some.mpr ⟨_, hlocal, run_concat_eq_some.mpr ⟨_, hask, hinsert⟩⟩, hkeys,
    hunverified⟩

theorem run_failingCycle (ctx : RepairContext H) (order : List H)
    (hpaid : s.repair.world.paidList = ∅) (hidle : s.repair.cycle.phase = .idle)
    (hverification : s.verification = .idle) (hterminal : s.terminalKeys = []) (hne : keys ≠ [])
    (hq : OnlyHinted source s.repair.world.now keys s.repair.queues) :
    ∃ cycle queues, cycle.phase = .idle ∧
      run (step ctx) s (failingCycle keys.length order) =
        some { s.inCycle cycle queues [] with verification := .deciding keys.reverse } := by
  have hbegin : step ctx s (.repair .beginCycle) =
      some (s.inCycle { VerificationCycle.idle (s.repair.cycle.number + 1) with
        phase := .classifying keys.reverse }
        (s.repair.queues.evictStale pendingVerifyMaxAge s.repair.world.now) []) := by
    simp [step, allows, hverification, RepairState.step, hidle, RepairState.beginCycle,
      repaired, inCycle, RepairState.cycleTerminal, RepairState.fetchTerminal, hterminal,
      hq.evictStale.keys_eq]
  have hclassify := run_classify ctx hpaid (VerificationCycle.idle (s.repair.cycle.number + 1))
    (s.repair.queues.evictStale pendingVerifyMaxAge s.repair.world.now) [] keys.reverse
  obtain ⟨cycle, hask, hkeys, hunverified⟩ := run_failingRound (s := s) ctx order
    (show keys.reverse ≠ [] by simpa using hne) (fun key => List.mem_reverse.mp) hq.evictStale
    (s.repair.cycle.number + 1)
  obtain ⟨queues, hupdate⟩ := run_update ctx s cycle cycle.evaluated
    (s.repair.queues.evictStale pendingVerifyMaxAge s.repair.world.now) [] hunverified
  have hcount : cycle.evaluated.length = keys.length := by
    rw [← List.length_map (f := EvaluatedKey.key), hkeys, List.length_reverse]
  have hcheck := run_checkFetch ctx s cycle
    (s.repair.queues.evictStale pendingVerifyMaxAge s.repair.world.now) [] cycle.evaluated
    hunverified
  rw [hcount] at hcheck hupdate
  rw [List.length_reverse] at hclassify
  rw [hkeys, List.nil_append] at hupdate
  refine ⟨{ cycle with phase := .idle }, queues, rfl, ?_⟩
  have hchecked : step ctx (s.inCycle { cycle with phase := .checkingFetch [] }
      (s.repair.queues.evictStale pendingVerifyMaxAge s.repair.world.now) [])
      (.repair .endLoop) = some (s.inCycle { cycle with phase := .updating cycle.evaluated }
        (s.repair.queues.evictStale pendingVerifyMaxAge s.repair.world.now) []) := rfl
  have hended : step ctx (s.inCycle { cycle with phase := .updating [] } queues keys.reverse)
      (.repair .endLoop) = some { s.inCycle { cycle with phase := .idle } queues [] with
        verification := .deciding keys.reverse } := by
    simp [step, allows, inCycle, RepairState.step, RepairState.endLoop, repaired,
      RepairState.cycleTerminal, RepairState.fetchTerminal]
  have hloops := run_append_eq_some.mpr ⟨_, run_concat_eq_some.mpr ⟨_, hcheck, hchecked⟩,
    run_concat_eq_some.mpr ⟨_, hupdate, hended⟩⟩
  exact run_cons_eq_some.mpr ⟨_, hbegin, run_append_eq_some.mpr
    ⟨_, hclassify, run_append_eq_some.mpr ⟨_, hask, hloops⟩⟩⟩

/-- The only neighbor hints the keys and the last key, and the task's check finds the source among
those whose hints overflowed. -/
def overflowedHints (source : H) (keys : List H) (last : H) : List (BootstrapEvent H) :=
  [.gateOpens [source], .nextNeighbor, .respond (some ⟨keys ++ [last], []⟩),
    .taskAdmission fun _ => false, .taskAdmission fun _ => false, .taskAdmission fun _ => false,
    .nextNeighbor, .taskCheck]

/-- The last key is stored in the meantime, and the source hints it again. -/
def clearedSource (world : RepairWorld H) (source last : H) (content : Bytes) :
    List (BootstrapEvent H) :=
  [.repair (.elsewhere { world with storage := world.storage.insert last content }),
    .startHandler source ⟨[last], []⟩, .handler 0 fun _ => true, .handler 0 fun _ => true,
    .handler 0 fun _ => true]

def overflowedThenCleared (world : RepairWorld H) (source : H) (keys : List H) (last : H)
    (content : Bytes) (order : List H) : List (BootstrapEvent H) :=
  overflowedHints source keys last ++ failingCycle keys.length order ++
    [.verificationDrain, .verificationDrain, .verificationDrain] ++
    clearedSource world source last content

/-- Whatever the keys, the source and the world: the step that makes the drain condition true is a
handler's, and no check runs after it. -/
theorem drain_missed_of_overflow {world : RepairWorld H} {last : H} {content : Bytes}
    (hpaid : world.paidList = ∅) (hnodup : (keys ++ [last]).Nodup)
    (hfull : keys.length = maxPendingVerifyPerPeer) :
    ∃ s, run (step ctx) (start world)
        (overflowedThenCleared world source keys last content order) = some s ∧
      s.Quiescent ∧ s.DrainCondition ∧ s.state.drained = false ∧ s.isBootstrapping = true := by
  obtain ⟨q, hadmit, hq⟩ := admitAndQueueHints_of_overflow source world.now hnodup hfull
  have hne : keys ≠ [] := by
    rintro rfl
    cases hfull
  let hinted : BootstrapNode H :=
    { start world with
      repair.queues := q
      state := ⟨false, 0, keys.toFinset, {source}⟩
      task := .finished
      history := ⟨some [source], [source], [source], keys.toFinset, keys.toFinset⟩ }
  have hhints : run (step ctx) (start world) (overflowedHints source keys last) = some hinted := by
    simp [overflowedHints, run, step, start, RepairState.start, taskAdmission, admitted, hadmit,
      noted, checkBootstrapDrained, BootstrapState.new, BootstrapState.incrementPendingRequests,
      BootstrapState.decrementPendingRequests, BootstrapState.trackDiscoveredKeys,
      BootstrapState.noteCapacityRejected, hinted]
  obtain ⟨cycle, queues, hidle, hcycle⟩ := run_failingCycle (s := hinted) ctx order hpaid rfl rfl
    rfl hne hq
  let drained : BootstrapNode H :=
    { hinted.inCycle cycle queues [] with state := ⟨false, 0, ∅, {source}⟩ }
  have hdrain : run (step ctx)
      { hinted.inCycle cycle queues [] with verification := .deciding keys.reverse }
      [.verificationDrain, .verificationDrain, .verificationDrain] = some drained := by
    simp [run, step, drain, start, hinted, drained, inCycle, hne, BootstrapState.removeKeys_eq,
      checkBootstrapDrained]
  let cleared : BootstrapNode H :=
    { drained with
      repair.world := { world with storage := world.storage.insert last content }
      state := ⟨false, 0, ∅, ∅⟩ }
  have hclear : run (step ctx) drained (clearedSource world source last content) =
      some cleared := by
    simp [clearedSource, run, step, allows, RepairState.step, repaired, RepairState.cycleTerminal,
      RepairState.fetchTerminal, handler, admitted, admitAndQueueHints, noted, drained, hinted,
      cleared, inCycle, start, BootstrapState.clearCapacityRejected,
      BootstrapState.trackDiscoveredKeys]
  refine ⟨cleared, run_append_eq_some.mpr ⟨_, run_append_eq_some.mpr
    ⟨_, run_append_eq_some.mpr ⟨_, hhints, hcycle⟩, hdrain⟩, hclear⟩, ?_, ?_, rfl, rfl⟩
  · exact ⟨rfl, rfl, hidle, rfl, rfl, rfl, rfl⟩
  · exact ⟨rfl, rfl, fun key hmem => absurd hmem (Finset.notMem_empty key)⟩

end BootstrapNode

/-! ### 8193 names -/

namespace ByteName

open BootstrapNode

def firstNames (n : Nat) : List ByteName := (List.range n).map ofNat

theorem nodup_firstNames {n : Nat} (hn : n ≤ maxCommitmentKeyCount) : (firstNames n).Nodup := by
  refine List.Nodup.map_on (fun i hi j hj heq => ?_) List.nodup_range
  have hlt : ∀ i < n, ∀ j < n, i < j → ofNat i ≠ ofNat j := fun i _ j hj hij =>
    (ofNat_lt_ofNat hij (hj.le.trans hn)).ne
  rcases lt_trichotomy i j with hij | rfl | hij
  · exact absurd heq (hlt i (List.mem_range.mp hi) j (List.mem_range.mp hj) hij)
  · rfl
  · exact absurd heq.symm (hlt j (List.mem_range.mp hj) i (List.mem_range.mp hi) hij)

def joiningNode : RepairContext ByteName where
  selfId := ofNat 20001
  config := ⟨7, 4, 20, 10⟩
  maxChunkSize := 4194304
  maxParallelFetch := 5
  xorDistance := fun key _ => key

/-- An empty node, with one neighbor in the routing table. -/
def joinedWorld : RepairWorld ByteName where
  now := 0
  paidList := ∅
  storage := ∅
  routing := ⟨fun _ _ => [ofNat 20000], fun _ _ => [ofNat 20001, ofNat 20000]⟩
  commitmentByPeer := ∅
  everCapablePeers := ∅
  recentProvers := .new

/-- The neighbor hints the first 8193 names, and the last of them again. -/
def overflowingNeighbor : List (BootstrapEvent ByteName) :=
  overflowedThenCleared joinedWorld (ofNat 20000) (firstNames maxPendingVerifyPerPeer)
    (ofNat maxPendingVerifyPerPeer) (asBytes (ofNat maxPendingVerifyPerPeer)) [ofNat 20000]

/-- The source is cleared, nothing of bootstrap is queued, and the node still counts as
bootstrapping. -/
theorem drain_missed_after_clear :
    ∃ s, run (step joiningNode) (start joinedWorld) overflowingNeighbor = some s ∧ s.Quiescent ∧
      s.DrainCondition ∧ s.state.drained = false ∧ s.isBootstrapping = true := by
  refine drain_missed_of_overflow rfl ?_ ?_
  · have hnodup := nodup_firstNames (n := maxPendingVerifyPerPeer + 1) (by decide)
    rwa [firstNames, List.range_succ, List.map_append] at hnodup
  · rw [firstNames, List.length_map, List.length_range]

end ByteName

end AntNode
