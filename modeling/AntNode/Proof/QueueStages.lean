import AntNode.BootstrapDrain
import AntNode.Proof.QueueInvariant
import AntNode.Proof.RepairSafety

/-!
# How keys come into the stages and leave them

Only a hint brings a key into a queue stage. A key leaves all stages as a terminal key of a cycle or
of a fetch, or by eviction at the beginning of a cycle; every other step moves it from one stage to
the next.
-/

namespace AntNode

variable {H : Type} [Digest H]

namespace ReplicationQueues

variable {q : ReplicationQueues H} {key other : H}

/-! ### One operation -/

theorem tracked_of_setPendingState {state : VerificationState}
    (htracked : (q.setPendingState key state).2.Tracked other) : q.Tracked other := by
  unfold setPendingState at htracked
  split at htracked
  · exact htracked
  · rename_i entry hlookup
    rcases htracked with hpending | hrest
    · rcases (AList.mem_insert _).mp hpending with rfl | hold
      · exact .inl (AList.lookup_isSome.mp (by rw [hlookup]; rfl))
      · exact .inl hold
    · exact .inr hrest

theorem tracked_of_removePending (htracked : (q.removePending key).2.Tracked other) :
    q.Tracked other := by
  unfold removePending at htracked
  split at htracked
  · exact htracked
  · rcases htracked with hpending | hrest
    · exact .inl (AList.mem_erase.mp hpending).2
    · exact .inr hrest

theorem tracked_removePending (htracked : q.Tracked other) (hne : other ≠ key) :
    (q.removePending key).2.Tracked other := by
  unfold removePending
  split
  · exact htracked
  · rcases htracked with hpending | hrest
    · exact .inl (AList.mem_erase.mpr ⟨hne, hpending⟩)
    · exact .inr hrest

theorem tracked_of_removeAll {keys : List H}
    (htracked : (keys.foldl (fun q key => (q.removePending key).2) q).Tracked other) :
    q.Tracked other := by
  induction keys generalizing q with
  | nil => exact htracked
  | cons key rest ih => exact tracked_of_removePending (ih htracked)

theorem inv_removeAll (hinv : q.Inv) (keys : List H) :
    (keys.foldl (fun q key => (q.removePending key).2) q).Inv := by
  induction keys generalizing q with
  | nil => exact hinv
  | cons key rest ih => exact ih (hinv.removePending key)

theorem tracked_removeAll {keys : List H} (htracked : q.Tracked other) (hnot : other ∉ keys) :
    (keys.foldl (fun q key => (q.removePending key).2) q).Tracked other := by
  induction keys generalizing q with
  | nil => exact htracked
  | cons key rest ih =>
      rw [List.mem_cons, not_or] at hnot
      exact ih (tracked_removePending htracked hnot.1) hnot.2

theorem tracked_of_enqueueFetch {distance : H} {sources : List H}
    (htracked : (q.enqueueFetch key distance sources).2.Tracked other) :
    q.Tracked other ∨ other = key := by
  unfold enqueueFetch at htracked
  split_ifs at htracked
  · exact .inl htracked
  · exact .inl htracked
  · have hkeys := (List.perm_orderedInsert FetchCandidate.Before ⟨key, distance, sources⟩
      q.fetchQueue).map FetchCandidate.key
    rcases htracked with hpending | hqueued | hinFlight
    · exact .inl (.inl hpending)
    · rcases List.mem_cons.mp (hkeys.mem_iff.mp hqueued) with heq | hold
      · exact .inr heq
      · exact .inl (.inr (.inl hold))
    · exact .inl (.inr (.inr hinFlight))

/-- What is promoted was pending, so nothing new comes in. -/
theorem tracked_of_promotePendingToFetch {distance : H} {sources : List H}
    (hpending : key ∈ q.pendingVerify)
    (htracked : (q.promotePendingToFetch key distance sources).2.Tracked other) :
    q.Tracked other := by
  unfold promotePendingToFetch at htracked
  split_ifs at htracked
  · exact htracked
  · rcases tracked_of_enqueueFetch htracked with hold | rfl
    · exact tracked_of_removePending hold
    · exact .inl hpending

theorem tracked_of_retryFetch (htracked : (q.retryFetch key).2.Tracked other) :
    q.Tracked other := by
  rcases retryFetch_cases q key with hsame | ⟨entry, hmem, hretried⟩
  · rwa [hsame] at htracked
  · rw [hretried] at htracked
    rcases htracked with hpending | hqueued | hinFlight
    · exact .inl hpending
    · exact .inr (.inl hqueued)
    · rcases (AList.mem_insert _).mp hinFlight with rfl | hold
      · exact .inr (.inr hmem)
      · exact .inr (.inr hold)

theorem tracked_of_completeFetch (htracked : (q.completeFetch key).2.Tracked other) :
    q.Tracked other := by
  rcases htracked with hpending | hqueued | hinFlight
  · exact .inl hpending
  · exact .inr (.inl hqueued)
  · exact .inr (.inr (AList.mem_erase.mp hinFlight).2)

theorem tracked_completeFetch (htracked : q.Tracked other) (hne : other ≠ key) :
    (q.completeFetch key).2.Tracked other := by
  rcases htracked with hpending | hqueued | hinFlight
  · exact .inl hpending
  · exact .inr (.inl hqueued)
  · exact .inr (.inr (AList.mem_erase.mpr ⟨hne, hinFlight⟩))

theorem tracked_of_evictStale {maxAge now : Nat}
    (htracked : (q.evictStale maxAge now).Tracked other) : q.Tracked other := by
  rcases htracked with hpending | hrest
  · have hsublist : (q.evictStale maxAge now).pendingVerify.keys.Sublist q.pendingVerify.keys :=
      List.filter_sublist.map Sigma.fst
    exact .inl (hsublist.subset hpending)
  · exact .inr hrest

theorem tracked_addPendingVerify {entry : VerificationEntry H} (htracked : q.Tracked other) :
    (q.addPendingVerify key entry).2.Tracked other := by
  unfold addPendingVerify
  dsimp only
  split_ifs
  · exact htracked
  · exact htracked
  · exact htracked
  · rcases htracked with hpending | hrest
    · exact .inl ((AList.mem_insert _).mpr (.inr hpending))
    · exact .inr hrest

theorem tracked_of_addPendingVerify {entry : VerificationEntry H}
    (htracked : (q.addPendingVerify key entry).2.Tracked other) :
    q.Tracked other ∨ other = key ∧ (q.addPendingVerify key entry).1 = .admitted := by
  unfold addPendingVerify at htracked ⊢
  dsimp only at htracked ⊢
  split_ifs at htracked ⊢
  · exact .inl htracked
  · exact .inl htracked
  · exact .inl htracked
  · rcases htracked with hpending | hrest
    · rcases (AList.mem_insert _).mp hpending with heq | hold
      · exact .inr ⟨heq, rfl⟩
      · exact .inl (.inl hold)
    · exact .inl (.inr hrest)

end ReplicationQueues

namespace RepairState

open Runs ReplicationQueues

variable {ctx : RepairContext H} {s s' : RepairState H} {e : RepairEvent H} {key : H}

/-! ### One step of the pipeline -/

/-- What a step does to the queues. -/
inductive QueueChange (s : RepairState H) : RepairEvent H → ReplicationQueues H → Prop
  | none {e : RepairEvent H} : QueueChange s e s.queues
  | hint (key : H) (entry : VerificationEntry H) :
      QueueChange s (.hint key entry) (s.queues.addPendingVerify key entry).2
  | evict : QueueChange s .beginCycle (s.queues.evictStale pendingVerifyMaxAge s.world.now)
  | setState {e : RepairEvent H} (key : H) (state : VerificationState) :
      QueueChange s e (s.queues.setPendingState key state).2
  | remove {e : RepairEvent H} (keys : List H) (hterminal : keys ⊆ s.cycleTerminal e) :
      QueueChange s e (keys.foldl (fun q key => (q.removePending key).2) s.queues)
  | promote {e : RepairEvent H} {key : H} (distance : H) (sources : List H)
      (hpending : key ∈ s.queues.pendingVerify) :
      QueueChange s e (s.queues.promotePendingToFetch key distance sources).2
  | dequeue : QueueChange s .dequeue s.dequeue.queues
  | retry {e : RepairEvent H} (key : H) : QueueChange s e (s.queues.retryFetch key).2
  | complete {e : RepairEvent H} {key : H} (hterminal : key ∈ s.fetchTerminal e) :
      QueueChange s e (s.queues.completeFetch key).2
  | abandon {e : RepairEvent H} {key : H} (hterminal : key ∈ s.fetchTerminal e) :
      QueueChange s e ((s.queues.retryFetch key).2.completeFetch key).2

theorem queueChange_classify {key : H} {rest : List H} (readFails : Bool) :
    QueueChange s e (s.classify key rest readFails).queues := by
  unfold classify
  split_ifs
  · have hset : QueueChange s e (s.queues.setPendingState key .paidListVerified).2 := .setState _ _
    dsimp only
    split <;> exact hset
  · exact .none

theorem queueChange_promoteProbed {key : H} {rest : List H} (readFails : Bool)
    (hphase : s.cycle.phase = .promotingProbed (key :: rest))
    (hpending : key ∈ s.queues.pendingVerify) :
    QueueChange s (.promoteProbed readFails) (s.promoteProbed ctx key rest readFails).queues := by
  have hremove : [key] ⊆ s.cycleTerminal (.promoteProbed readFails) →
      QueueChange s (.promoteProbed readFails) (s.queues.removePending key).2 :=
    .remove [key]
  unfold promoteProbed
  dsimp only
  split_ifs with hexists hsources
  · exact hremove (by simp [cycleTerminal, hphase, hexists])
  · refine hremove ?_
    cases hev : s.cycle.evidence.lookup key with
    | none => simp [cycleTerminal, hphase, hexists, hev]
    | some ev =>
        rw [hev] at hsources
        simp [cycleTerminal, hphase, hexists, hev, hsources]
  · exact .promote _ _ hpending

theorem queueChange_update {evaluated : EvaluatedKey H} {rest : List (EvaluatedKey H)}
    (hphase : s.cycle.phase = .updating (evaluated :: rest))
    (hpending : evaluated.key ∈ s.queues.pendingVerify) :
    QueueChange s .update (s.update ctx evaluated rest).queues := by
  have hremove : [evaluated.key] ⊆ s.cycleTerminal .update →
      QueueChange s .update (s.queues.removePending evaluated.key).2 :=
    .remove [evaluated.key]
  unfold update
  dsimp only
  split
  · rename_i source sources hverified
    split_ifs with heligible
    · exact .promote _ _ hpending
    · refine hremove ?_
      have hnot := of_decide_eq_false (Bool.not_eq_true _ ▸ heligible)
      simp [cycleTerminal, hphase, hverified, hnot]
  · rename_i hverified
    refine hremove ?_
    cases hsources : evaluated.outcome.verifiedSources with
    | none => simp [cycleTerminal, hphase, hsources]
    | some sources =>
        cases sources with
        | nil => simp [cycleTerminal, hphase, hsources]
        | cons source sources => exact absurd hsources (hverified source sources)

theorem queueChange_finish (key : H) (result : Option FetchResult) :
    QueueChange s (.finish key result) (s.finish key result).queues := by
  have hretry : ∀ result, result = .integrityFailed ∨ result = .sourceFailed →
      QueueChange s (.finish key (some result)) (s.finish key (some result)).queues := by
    intro result hresult
    unfold finish
    rcases hresult with rfl | rfl <;> dsimp only <;> split
    · exact .retry key
    · rename_i hnone
      exact .abandon (by simp [fetchTerminal, hnone])
    · exact .retry key
    · rename_i hnone
      exact .abandon (by simp [fetchTerminal, hnone])
  cases result with
  | none => exact .complete (by simp [fetchTerminal])
  | some result =>
      cases result with
      | stored => exact .complete (by simp [fetchTerminal])
      | integrityFailed => exact hretry _ (.inl rfl)
      | sourceFailed => exact hretry _ (.inr rfl)

/-- The queues of the pipeline keep their invariant, every candidate has sources, and the state is
one that a run of the pipeline leads to. -/
structure Staged (ctx : RepairContext H) (s : RepairState H) : Prop where
  queues : s.queues.Inv
  sources : ∀ candidate ∈ s.queues.fetchQueue, candidate.sources ≠ []
  reached : ∃ world events, run (step ctx) (start world) events = some s

theorem staged_start (world : RepairWorld H) : Staged ctx (start world) where
  queues := inv_new
  sources candidate hmem := by cases hmem
  reached := ⟨world, [], rfl⟩

theorem mem_of_pendingIn {q : ReplicationQueues H} {pipeline : HintPipeline}
    (hpending : PendingIn q key pipeline) : key ∈ q.pendingVerify := by
  obtain ⟨entry, hentry, -⟩ := hpending
  exact AList.lookup_isSome.mp (by rw [hentry]; rfl)

theorem Staged.queueChange (hstaged : Staged ctx s) (hstep : s.step ctx e = some s') :
    QueueChange s e s'.queues := by
  obtain ⟨world, events, hrun⟩ := hstaged.reached
  have hok := (from_of_run hrun).cycle
  cases steps_of_step hstep with
  | elsewhere | probe | verify | snapshot | evaluate | insertPaid | endLoop | execute | panic =>
      exact .none
  | hint key entry => exact .hint key entry
  | beginCycle => exact .evict
  | classify readFails hphase => exact queueChange_classify readFails
  | checkPaidOnly readFails hphase =>
      unfold checkPaidOnly
      split_ifs <;> exact .none
  | removePaidOnly hphase => exact .remove s.cycle.terminalPaidOnly (List.Subset.refl _)
  | promoteProbed readFails hphase =>
      simp only [CycleOk, hphase] at hok
      obtain ⟨-, -, hprobe, -⟩ := hok
      obtain ⟨-, pipeline, hpending, -⟩ := hprobe _ List.mem_cons_self
      exact queueChange_promoteProbed readFails hphase (mem_of_pendingIn hpending)
  | checkFetch readFails hphase =>
      unfold checkFetch
      split_ifs <;> exact .none
  | update hphase =>
      simp only [CycleOk, hphase] at hok
      exact queueChange_update hphase (mem_of_pendingIn (hok.2.1 _ List.mem_cons_self).1)
  | dequeue => exact .dequeue
  | finish hfetched => exact queueChange_finish _ _

/-- A dequeued key is in flight. -/
theorem Staged.dequeue_queues (hstaged : Staged ctx s) :
    s.dequeue.queues.Inv ∧ ∀ key, s.dequeue.queues.Tracked key ↔ s.queues.Tracked key := by
  have heq := hstaged.queues.dequeueFetch_eq
  cases hqueue : s.queues.fetchQueue with
  | nil =>
      rw [hqueue] at heq
      have hsame : s.dequeue.queues = s.queues.dequeueFetch.2 := by
        unfold dequeue
        rw [heq]
        rfl
      rw [hsame]
      refine ⟨hstaged.queues.dequeueFetch, fun key => ?_⟩
      rw [heq]
      simp [Tracked, queuedKeys, hqueue]
  | cons candidate rest =>
      obtain ⟨source, sources, hsources⟩ := List.exists_cons_of_ne_nil
        (hstaged.sources candidate (by rw [hqueue]; exact List.mem_cons_self))
      have hfirst : s.queues.dequeueFetch.1 = some candidate := by rw [heq, hqueue]; rfl
      have hstarted : s.dequeue.queues =
          s.queues.dequeueFetch.2.startFetch candidate.key source candidate.sources s.world.now := by
        have hpair : s.queues.dequeueFetch = (some candidate, s.queues.dequeueFetch.2) :=
          Prod.ext hfirst rfl
        unfold dequeue
        rw [hpair]
        simp [hsources]
      rw [hstarted]
      refine ⟨hstaged.queues.dequeueFetch.startFetch
        (hstaged.queues.untracked_of_dequeueFetch hfirst) _ _ _, fun key => ?_⟩
      rw [heq]
      simp only [Tracked, queuedKeys, hqueue, startFetch, List.tail_cons, List.map_cons,
        List.mem_cons, AList.mem_insert]
      tauto

theorem QueueChange.inv (hstaged : Staged ctx s) {queues : ReplicationQueues H}
    (hchange : QueueChange s e queues) : queues.Inv := by
  have hinv := hstaged.queues
  cases hchange with
  | none => exact hinv
  | hint key entry => exact hinv.addPendingVerify key entry
  | evict => exact hinv.evictStale _ _
  | setState key state => exact hinv.setPendingState key state
  | remove keys _ => exact inv_removeAll hinv keys
  | promote distance sources _ => exact hinv.promotePendingToFetch _ _ _
  | dequeue => exact hstaged.dequeue_queues.1
  | retry key => exact hinv.retryFetch key
  | complete _ => exact hinv.completeFetch _
  | abandon _ => exact (hinv.retryFetch _).completeFetch _

theorem Staged.step (hstaged : Staged ctx s) (hstep : s.step ctx e = some s') : Staged ctx s' where
  queues := (hstaged.queueChange hstep).inv hstaged
  sources candidate hmem := by
    by_cases hold : candidate ∈ s.queues.fetchQueue
    · exact hstaged.sources candidate hold
    · rcases enters_cases hold hstep hmem with
        ⟨key, rest, readFails, -, rfl⟩ | ⟨evaluated, rest, -, rfl⟩
      · obtain hmem | ⟨-, hsources, -⟩ := mem_promoteProbed hmem
        · exact absurd hmem hold
        · exact hsources
      · obtain hmem | ⟨-, hsources, -⟩ := mem_update hmem
        · exact absurd hmem hold
        · exact hsources
  reached := by
    obtain ⟨world, events, hrun⟩ := hstaged.reached
    exact ⟨world, events ++ [e], run_concat_eq_some.mpr ⟨s, hrun, hstep⟩⟩

/-- Only a hint brings a key into the queues. -/
theorem Staged.tracked_of_step (hstaged : Staged ctx s) (hstep : s.step ctx e = some s')
    (hhint : ∀ key entry, e ≠ .hint key entry) (htracked : s'.queues.Tracked key) :
    s.queues.Tracked key := by
  have hchange := hstaged.queueChange hstep
  generalize s'.queues = queues at hchange htracked
  cases hchange with
  | none => exact htracked
  | hint key entry => exact absurd rfl (hhint key entry)
  | evict => exact tracked_of_evictStale htracked
  | setState key state => exact tracked_of_setPendingState htracked
  | remove keys _ => exact tracked_of_removeAll htracked
  | promote distance sources hpending => exact tracked_of_promotePendingToFetch hpending htracked
  | dequeue => exact (hstaged.dequeue_queues.2 key).mp htracked
  | retry key => exact tracked_of_retryFetch htracked
  | complete _ => exact tracked_of_completeFetch htracked
  | abandon _ => exact tracked_of_retryFetch (tracked_of_completeFetch htracked)

/-- Only terminal keys leave the queues, the eviction at the beginning of a cycle apart. -/
theorem Staged.tracked_step (hstaged : Staged ctx s) (hstep : s.step ctx e = some s')
    (hbegin : e ≠ .beginCycle) (htracked : s.queues.Tracked key) :
    s'.queues.Tracked key ∨ key ∈ s.cycleTerminal e ∨ key ∈ s.fetchTerminal e := by
  have hchange := hstaged.queueChange hstep
  generalize s'.queues = queues at hchange ⊢
  cases hchange with
  | none => exact .inl htracked
  | hint key entry => exact .inl (tracked_addPendingVerify htracked)
  | evict => exact absurd rfl hbegin
  | setState key state => exact .inl (tracked_setPendingState htracked)
  | remove keys hterminal =>
      by_cases hmem : key ∈ keys
      · exact .inr (.inl (hterminal hmem))
      · exact .inl (tracked_removeAll htracked hmem)
  | promote distance sources _ => exact .inl (hstaged.queues.tracked_promotePendingToFetch htracked)
  | dequeue => exact .inl ((hstaged.dequeue_queues.2 key).mpr htracked)
  | retry key => exact .inl (tracked_retryFetch htracked)
  | @complete _ other hterminal =>
      by_cases heq : key = other
      · exact .inr (.inr (heq ▸ hterminal))
      · exact .inl (tracked_completeFetch htracked heq)
  | @abandon _ other hterminal =>
      by_cases heq : key = other
      · exact .inr (.inr (heq ▸ hterminal))
      · exact .inl (tracked_completeFetch (tracked_retryFetch htracked) heq)

/-! ### When a cycle runs -/

/-- A cycle begins and ends by one step each, and only a running cycle has terminal keys. -/
theorem phase_cases (hstep : s.step ctx e = some s') :
    (s'.cycle.phase = s.cycle.phase ∧ s.cycleTerminal e = []) ∨
      (s.cycle.phase ≠ .idle ∧ (s'.cycle.phase ≠ .idle ∨ e = .endLoop)) ∨
      (e = .beginCycle ∧ s.cycle.phase = .idle ∧ s'.cycle.phase ≠ .idle) := by
  cases steps_of_step hstep with
  | elsewhere | hint | execute | panic => exact .inl ⟨rfl, rfl⟩
  | dequeue => exact .inl ⟨by rw [s.dequeue_frame.1], rfl⟩
  | finish => exact .inl ⟨by rw [(s.finish_frame _ _).1], rfl⟩
  | beginCycle hphase => exact .inr (.inr ⟨rfl, hphase, nofun⟩)
  | classify readFails hphase =>
      refine .inr (.inl ⟨by rw [hphase]; exact nofun, .inl ?_⟩)
      unfold classify
      split_ifs
      · dsimp only
        split <;> exact nofun
      · exact nofun
  | checkPaidOnly readFails hphase =>
      refine .inr (.inl ⟨by rw [hphase]; exact nofun, .inl ?_⟩)
      unfold checkPaidOnly
      split_ifs <;> exact nofun
  | promoteProbed readFails hphase =>
      refine .inr (.inl ⟨by rw [hphase]; exact nofun, .inl ?_⟩)
      unfold promoteProbed
      dsimp only
      split_ifs <;> exact nofun
  | checkFetch readFails hphase =>
      refine .inr (.inl ⟨by rw [hphase]; exact nofun, .inl ?_⟩)
      unfold checkFetch
      split_ifs <;> exact nofun
  | update hphase =>
      refine .inr (.inl ⟨by rw [hphase]; exact nofun, .inl ?_⟩)
      unfold update
      dsimp only
      split
      · split_ifs <;> exact nofun
      · exact nofun
  | removePaidOnly hphase | probe _ _ hphase | verify _ _ hphase | snapshot _ hphase
  | evaluate hphase | insertPaid _ hphase =>
      exact .inr (.inl ⟨by rw [hphase]; exact nofun, .inl nofun⟩)
  | endLoop hend =>
      refine .inr (.inl ⟨fun hphase => ?_, .inr rfl⟩)
      simp [endLoop, hphase] at hend

end RepairState

end AntNode
