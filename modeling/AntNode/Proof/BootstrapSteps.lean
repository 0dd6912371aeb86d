import AntNode.Proof.QueueStages

/-!
# The steps of a bootstrapping node

What each task of a bootstrapping node does, one case for each branch of its step function, and what
every step keeps of the repair pipeline.
-/

namespace AntNode

variable {H : Type} [Digest H]

open Runs ReplicationQueues

/-! ### Queueing hints -/

section Admission

variable {ctx : RepairContext H} {source key : H} {now : Nat} {pipeline : HintPipeline}
  {queued : ReplicationQueues H × AdmissionOutcome H} {keys : List H} {hints : AdmittedHints H}
  {held : H → Bool} {q : ReplicationQueues H}

/-- Queueing a hint is adding a pending verification, and admitted keys are reported. -/
theorem queueHint_cases (source : H) (now : Nat) (pipeline : HintPipeline)
    (queued : ReplicationQueues H × AdmissionOutcome H) (hinted : H) :
    ∃ entry, (queueHint source now pipeline queued hinted).1 =
        (queued.1.addPendingVerify hinted entry).2 ∧
      queued.2.discovered ⊆ (queueHint source now pipeline queued hinted).2.discovered ∧
      ((queued.1.addPendingVerify hinted entry).1 = .admitted →
        hinted ∈ (queueHint source now pipeline queued hinted).2.discovered) := by
  obtain ⟨q, outcome⟩ := queued
  refine ⟨⟨.pendingVerify, pipeline, [], ∅, now, source⟩, ?_⟩
  unfold queueHint
  rcases hadd : q.addPendingVerify hinted ⟨.pendingVerify, pipeline, [], ∅, now, source⟩ with
    ⟨result, q'⟩
  cases result with
  | admitted => simp [hadd]
  | alreadyPresent => simp [hadd]
  | capacityRejected => simp [hadd]

theorem tracked_queueHints (htracked : queued.1.Tracked key) :
    (keys.foldl (queueHint source now pipeline) queued).1.Tracked key := by
  induction keys generalizing queued with
  | nil => exact htracked
  | cons hinted rest ih =>
      obtain ⟨entry, hqueues, -, -⟩ := queueHint_cases source now pipeline queued hinted
      apply ih
      rw [hqueues]
      exact tracked_addPendingVerify htracked

theorem discovered_queueHints :
    queued.2.discovered ⊆ (keys.foldl (queueHint source now pipeline) queued).2.discovered := by
  induction keys generalizing queued with
  | nil => exact Finset.Subset.refl _
  | cons hinted rest ih =>
      obtain ⟨entry, -, hdiscovered, -⟩ := queueHint_cases source now pipeline queued hinted
      exact hdiscovered.trans ih

theorem tracked_of_queueHints
    (htracked : (keys.foldl (queueHint source now pipeline) queued).1.Tracked key) :
    queued.1.Tracked key ∨
      key ∈ (keys.foldl (queueHint source now pipeline) queued).2.discovered := by
  induction keys generalizing queued with
  | nil => exact .inl htracked
  | cons hinted rest ih =>
      obtain ⟨entry, hqueues, -, hadmitted⟩ := queueHint_cases source now pipeline queued hinted
      rcases ih htracked with hold | hnew
      · rw [hqueues] at hold
        rcases tracked_of_addPendingVerify hold with hold | ⟨rfl, hresult⟩
        · exact .inl hold
        · refine .inr ?_
          rw [List.foldl_cons]
          exact discovered_queueHints (hadmitted hresult)
      · exact .inr hnew

theorem tracked_admitAndQueueHints (htracked : q.Tracked key) :
    (admitAndQueueHints q source now hints held).1.Tracked key :=
  tracked_queueHints (tracked_queueHints htracked)

theorem tracked_of_admitAndQueueHints
    (htracked : (admitAndQueueHints q source now hints held).1.Tracked key) :
    q.Tracked key ∨ key ∈ (admitAndQueueHints q source now hints held).2.discovered := by
  rcases tracked_of_queueHints htracked with hfirst | hnew
  · rcases tracked_of_queueHints hfirst with hold | hnew
    · exact .inl hold
    · exact .inr (discovered_queueHints hnew)
  · exact .inr hnew

theorem staged_queueHints {repair : RepairState H}
    (hstaged : RepairState.Staged ctx { repair with queues := queued.1 }) :
    RepairState.Staged ctx
      { repair with queues := (keys.foldl (queueHint source now pipeline) queued).1 } := by
  induction keys generalizing queued with
  | nil => exact hstaged
  | cons hinted rest ih =>
      obtain ⟨entry, hqueues, -, -⟩ := queueHint_cases source now pipeline queued hinted
      apply ih
      rw [hqueues]
      exact hstaged.step (e := .hint hinted entry) rfl

theorem staged_admitAndQueueHints {repair : RepairState H} (hstaged : repair.Staged ctx) :
    RepairState.Staged ctx
      { repair with queues := (admitAndQueueHints repair.queues source now hints held).1 } :=
  staged_queueHints (staged_queueHints hstaged)

end Admission

/-! ### The bootstrap state -/

namespace BootstrapState

theorem removeKeys_eq (state : BootstrapState H) (keys : List H) :
    keys.foldl .removeKey state =
      { state with pendingKeys := state.pendingKeys \ keys.toFinset } := by
  induction keys generalizing state with
  | nil => simp
  | cons key rest ih =>
      rw [List.foldl_cons, ih, removeKey, List.toFinset_cons, Finset.sdiff_insert,
        Finset.erase_sdiff_comm]

end BootstrapState

namespace BootstrapNode

variable {ctx : RepairContext H} {s s' : BootstrapNode H}

@[simp] theorem noted_drained (source : H) (outcome : AdmissionOutcome H) :
    (s.noted source outcome).drained = s.state.drained := by
  unfold noted
  split_ifs <;> rfl

@[simp] theorem noted_pendingKeys (source : H) (outcome : AdmissionOutcome H) :
    (s.noted source outcome).pendingKeys = s.state.pendingKeys := by
  unfold noted
  split_ifs <;> rfl

/-! ### The check -/

instance : Decidable s.DrainCondition :=
  decidable_of_iff (s.state.pendingPeerRequests = 0 ∧ s.state.capacityRejectedSources = ∅ ∧
      ∀ key ∈ s.state.pendingKeys, s.repair.queues.containsKey key = false)
    ⟨fun h => ⟨h.1, h.2.1, h.2.2⟩, fun h => ⟨h.requests, h.sources, h.keys⟩⟩

theorem checkBootstrapDrained_cases (s : BootstrapNode H) :
    (s.state.drained = true ∨ s.DrainCondition) ∧
        checkBootstrapDrained s.state s.repair.queues = (true, s.state.markBootstrapDrained) ∨
      (s.state.drained = false ∧ ¬s.DrainCondition) ∧
        checkBootstrapDrained s.state s.repair.queues = (false, s.state) := by
  unfold checkBootstrapDrained
  split_ifs with hdrained hrequests hsources hempty
  · refine .inl ⟨.inl hdrained, ?_⟩
    simp [BootstrapState.markBootstrapDrained, ← hdrained]
  · exact .inr ⟨⟨by simpa using hdrained, fun hcond => by simp [hcond.requests] at hrequests⟩, rfl⟩
  · exact .inr ⟨⟨by simpa using hdrained, fun hcond => hsources hcond.sources⟩, rfl⟩
  · refine .inl ⟨.inr ⟨by omega, not_not.mp hsources, of_decide_eq_true hempty⟩, rfl⟩
  · refine .inr ⟨⟨by simpa using hdrained, fun hcond => hempty ?_⟩, rfl⟩
    exact decide_eq_true hcond.keys

/-- One step of a worker's bookkeeping. -/
inductive Drains (s : BootstrapNode H) :
    DrainStage H → BootstrapState H → Bool → DrainStage H → Prop
  | skip {keys : List H} (hskip : keys = [] ∨ s.state.drained = true) :
      Drains s (.deciding keys) s.state s.isBootstrapping .idle
  | decide {keys : List H} (hkeys : keys ≠ []) (hdrained : s.state.drained = false) :
      Drains s (.deciding keys) s.state s.isBootstrapping (.removing keys)
  | remove (keys : List H) :
      Drains s (.removing keys) { s.state with pendingKeys := s.state.pendingKeys \ keys.toFinset }
        s.isBootstrapping .checking
  | pass (hpass : s.state.drained = true ∨ s.DrainCondition) :
      Drains s .checking s.state.markBootstrapDrained s.isBootstrapping .completing
  | fail (hdrained : s.state.drained = false) (hfail : ¬s.DrainCondition) :
      Drains s .checking s.state s.isBootstrapping .idle
  | complete : Drains s .completing s.state false .idle

theorem drains_of_drain {stage stage' : DrainStage H} {state : BootstrapState H} {flag : Bool}
    (hdrain : s.drain stage = some (state, flag, stage')) : Drains s stage state flag stage' := by
  cases stage with
  | idle => cases hdrain
  | deciding keys =>
      simp only [drain] at hdrain
      cases hdrain
      split_ifs with hskip
      · exact .skip (by simpa using hskip)
      · rw [Bool.or_eq_true, not_or] at hskip
        exact .decide (by simpa using hskip.1) (by simpa using hskip.2)
  | removing keys =>
      simp only [drain, BootstrapState.removeKeys_eq] at hdrain
      cases hdrain
      exact .remove keys
  | checking =>
      unfold drain at hdrain
      rcases checkBootstrapDrained_cases s with ⟨hpass, hcheck⟩ | ⟨⟨hdrained, hfail⟩, hcheck⟩
      · rw [hcheck] at hdrain
        cases hdrain
        exact .pass hpass
      · rw [hcheck] at hdrain
        cases hdrain
        exact .fail hdrained hfail
  | completing =>
      cases hdrain
      exact .complete

/-! ### One step -/

/-- The terminal keys of the cycle and the verification worker's bookkeeping after a step of the
pipeline. -/
inductive HandsOver (s : BootstrapNode H) (event : RepairEvent H) (repair : RepairState H) :
    List H → DrainStage H → Prop
  | goesOn (hgoesOn : ¬(event = .endLoop ∧ repair.cycle.phase = .idle)) :
      HandsOver s event repair (s.terminalKeys ++ s.repair.cycleTerminal event) s.verification
  | ends (hevent : event = .endLoop) (hphase : repair.cycle.phase = .idle) :
      HandsOver s event repair [] (.deciding s.terminalKeys)

inductive Steps (ctx : RepairContext H) (s : BootstrapNode H) :
    BootstrapEvent H → BootstrapNode H → Prop
  | repair {event : RepairEvent H} {repair : RepairState H} {terminalKeys : List H}
      {verification fetch : DrainStage H} (hallows : s.allows event = true)
      (hrepair : s.repair.step ctx event = some repair)
      (hends : HandsOver s event repair terminalKeys verification)
      (hfetch : s.repair.fetchTerminal event = [] ∧ fetch = s.fetch ∨
        s.repair.fetchTerminal event ≠ [] ∧ fetch = .deciding (s.repair.fetchTerminal event)) :
      Steps ctx s (.repair event)
        { s with
          repair := repair
          terminalKeys := terminalKeys
          verification := verification
          fetch := fetch }
  | shutdown : Steps ctx s .shutdown { s with shutdown := true }
  | gateOpens (neighbors : List H) (htask : s.task = .waiting) :
      Steps ctx s (.gateOpens neighbors)
        { s with
          task := if neighbors.isEmpty then .marking else .syncing neighbors
          history.snapshot := some neighbors }
  | gateShutdown (htask : s.task = .waiting) (hshutdown : s.shutdown = true) :
      Steps ctx s .gateShutdown { s with task := .finished }
  | markDrained (htask : s.task = .marking) :
      Steps ctx s .markDrained { s with state := s.state.markBootstrapDrained, task := .completing }
  | endLoop (htask : s.task = .syncing []) : Steps ctx s .nextNeighbor { s with task := .checking }
  | cutLoop {peer : H} {neighbors : List H} (htask : s.task = .syncing (peer :: neighbors))
      (hshutdown : s.shutdown = true) : Steps ctx s .nextNeighbor { s with task := .checking }
  | request {peer : H} {neighbors : List H} (htask : s.task = .syncing (peer :: neighbors)) :
      Steps ctx s .nextNeighbor
        { s with
          state := s.state.incrementPendingRequests 1
          task := .requesting peer neighbors
          history.requested := s.history.requested ++ [peer] }
  | noHints {peer : H} {neighbors : List H} (htask : s.task = .requesting peer neighbors) :
      Steps ctx s (.respond none)
        { s with
          state := s.state.decrementPendingRequests 1
          task := .syncing neighbors
          history.handled := s.history.handled ++ [peer] }
  | hints {peer : H} {neighbors : List H} (hints : AdmittedHints H)
      (htask : s.task = .requesting peer neighbors) :
      Steps ctx s (.respond (some hints))
        { s with
          state := s.state.decrementPendingRequests 1
          task := .admission peer (.admitting hints) neighbors }
  | taskAdmit {peer : H} {hints : AdmittedHints H} {neighbors : List H} (held : H → Bool)
      (htask : s.task = .admission peer (.admitting hints) neighbors) :
      Steps ctx s (.taskAdmission held)
        { s with
          repair.queues := (s.admitted peer hints held).1
          task := .admission peer (.tracking (s.admitted peer hints held).2) neighbors
          history.admitted := s.history.admitted ∪ (s.admitted peer hints held).2.discovered }
  | taskTrack {peer : H} {outcome : AdmissionOutcome H} {neighbors : List H} (held : H → Bool)
      (htask : s.task = .admission peer (.tracking outcome) neighbors) :
      Steps ctx s (.taskAdmission held)
        { s with
          state := s.state.trackDiscoveredKeys outcome.discovered
          task := .admission peer (.noting outcome) neighbors
          history.tracked := s.history.tracked ∪ outcome.discovered }
  | taskNote {peer : H} {outcome : AdmissionOutcome H} {neighbors : List H} (held : H → Bool)
      (htask : s.task = .admission peer (.noting outcome) neighbors) :
      Steps ctx s (.taskAdmission held)
        { s with
          state := s.noted peer outcome
          task := .syncing neighbors
          history.handled := s.history.handled ++ [peer] }
  | taskPass (htask : s.task = .checking) (hpass : s.state.drained = true ∨ s.DrainCondition) :
      Steps ctx s .taskCheck { s with state := s.state.markBootstrapDrained, task := .completing }
  | taskFail (htask : s.task = .checking) (hdrained : s.state.drained = false)
      (hfail : ¬s.DrainCondition) : Steps ctx s .taskCheck { s with task := .finished }
  | taskComplete (htask : s.task = .completing) :
      Steps ctx s .taskComplete { s with isBootstrapping := false, task := .finished }
  | startHandler (source : H) (hints : AdmittedHints H) :
      Steps ctx s (.startHandler source hints)
        { s with handlers := s.handlers ++ [⟨source, s.isBootstrapping, .admitting hints⟩] }
  | handlerAdmit {index : Nat} {source : H} {hints : AdmittedHints H} (held : H → Bool)
      (hget : s.handlers[index]? = some ⟨source, true, .admitting hints⟩) :
      Steps ctx s (.handler index held)
        { s with
          repair.queues := (s.admitted source hints held).1
          handlers :=
            s.handlers.set index ⟨source, true, .tracking (s.admitted source hints held).2⟩ }
  | handlerAdmitOnly {index : Nat} {source : H} {hints : AdmittedHints H} (held : H → Bool)
      (hget : s.handlers[index]? = some ⟨source, false, .admitting hints⟩) :
      Steps ctx s (.handler index held)
        { s with
          repair.queues := (s.admitted source hints held).1
          handlers := s.handlers.eraseIdx index }
  | handlerTrack {index : Nat} {source : H} {flag : Bool} {outcome : AdmissionOutcome H}
      (held : H → Bool) (hget : s.handlers[index]? = some ⟨source, flag, .tracking outcome⟩) :
      Steps ctx s (.handler index held)
        { s with
          state := s.state.trackDiscoveredKeys outcome.discovered
          handlers := s.handlers.set index ⟨source, flag, .noting outcome⟩ }
  | handlerNote {index : Nat} {source : H} {flag : Bool} {outcome : AdmissionOutcome H}
      (held : H → Bool) (hget : s.handlers[index]? = some ⟨source, flag, .noting outcome⟩) :
      Steps ctx s (.handler index held)
        { s with state := s.noted source outcome, handlers := s.handlers.eraseIdx index }
  | verificationDrain {state : BootstrapState H} {flag : Bool} {stage : DrainStage H}
      (hdrains : Drains s s.verification state flag stage) :
      Steps ctx s .verificationDrain
        { s with state := state, isBootstrapping := flag, verification := stage }
  | fetchDrain {state : BootstrapState H} {flag : Bool} {stage : DrainStage H}
      (hdrains : Drains s s.fetch state flag stage) :
      Steps ctx s .fetchDrain { s with state := state, isBootstrapping := flag, fetch := stage }

theorem steps_taskAdmission {held : H → Bool} (hstep : s.taskAdmission held = some s') :
    Steps ctx s (.taskAdmission held) s' := by
  unfold taskAdmission at hstep
  split at hstep
  · rename_i peer hints neighbors htask
    cases hstep
    exact .taskAdmit held htask
  · rename_i peer outcome neighbors htask
    cases hstep
    exact .taskTrack held htask
  · rename_i peer outcome neighbors htask
    cases hstep
    exact .taskNote held htask
  · cases hstep

theorem steps_handler {index : Nat} {held : H → Bool} (hstep : s.handler index held = some s') :
    Steps ctx s (.handler index held) s' := by
  unfold handler at hstep
  split at hstep
  · cases hstep
  · rename_i source flag hints hget
    cases hstep
    cases flag with
    | true => exact .handlerAdmit held hget
    | false => exact .handlerAdmitOnly held hget
  · rename_i source flag outcome hget
    cases hstep
    exact .handlerTrack held hget
  · rename_i source flag outcome hget
    cases hstep
    exact .handlerNote held hget

theorem steps_repaired {event : RepairEvent H} {repair : RepairState H}
    (hallows : s.allows event = true) (hrepair : s.repair.step ctx event = some repair) :
    Steps ctx s (.repair event) (s.repaired event repair) := by
  unfold repaired
  dsimp only
  split
  · rename_i hphase
    refine .repair hallows hrepair ?_ (.inl ⟨rfl, rfl⟩)
    simpa [RepairState.cycleTerminal] using HandsOver.ends rfl hphase
  · rename_i hgoesOn
    refine .repair hallows hrepair (.goesOn fun h => hgoesOn h.1 h.2) ?_
    split
    · exact .inl ⟨‹_›, rfl⟩
    · exact .inr ⟨‹_›, rfl⟩

theorem steps_of_step {e : BootstrapEvent H} (hstep : s.step ctx e = some s') :
    Steps ctx s e s' := by
  cases e with
  | repair event =>
      simp only [step] at hstep
      split_ifs at hstep with hallows
      obtain ⟨repair, hrepair, rfl⟩ := Option.map_eq_some_iff.mp hstep
      exact steps_repaired hallows hrepair
  | shutdown =>
      cases hstep
      exact .shutdown
  | gateOpens neighbors =>
      simp only [step] at hstep
      split at hstep
      · cases hstep
        exact .gateOpens neighbors ‹_›
      · cases hstep
  | gateShutdown =>
      simp only [step] at hstep
      split at hstep
      · split_ifs at hstep with hshutdown
        cases hstep
        exact .gateShutdown ‹_› hshutdown
      · cases hstep
  | markDrained =>
      simp only [step] at hstep
      split at hstep
      · cases hstep
        exact .markDrained ‹_›
      · cases hstep
  | nextNeighbor =>
      simp only [step] at hstep
      split at hstep
      · cases hstep
        exact .endLoop ‹_›
      · split_ifs at hstep with hshutdown
        · cases hstep
          exact .cutLoop ‹_› hshutdown
        · cases hstep
          exact .request ‹_›
      · cases hstep
  | respond hints =>
      simp only [step] at hstep
      split at hstep
      · cases hints with
        | none =>
            cases hstep
            exact .noHints ‹_›
        | some hints =>
            cases hstep
            exact .hints hints ‹_›
      · cases hstep
  | taskAdmission held => exact steps_taskAdmission hstep
  | taskCheck =>
      simp only [step] at hstep
      split at hstep
      · rename_i htask
        rcases checkBootstrapDrained_cases s with ⟨hpass, hcheck⟩ | ⟨⟨hdrained, hfail⟩, hcheck⟩
        · rw [hcheck] at hstep
          cases hstep
          exact .taskPass htask hpass
        · rw [hcheck] at hstep
          cases hstep
          exact .taskFail htask hdrained hfail
      · cases hstep
  | taskComplete =>
      simp only [step] at hstep
      split at hstep
      · cases hstep
        exact .taskComplete ‹_›
      · cases hstep
  | startHandler source hints =>
      cases hstep
      exact .startHandler source hints
  | handler index held => exact steps_handler hstep
  | verificationDrain =>
      obtain ⟨⟨state, flag, stage⟩, hdrain, rfl⟩ := Option.map_eq_some_iff.mp hstep
      exact .verificationDrain (drains_of_drain hdrain)
  | fetchDrain =>
      obtain ⟨⟨state, flag, stage⟩, hdrain, rfl⟩ := Option.map_eq_some_iff.mp hstep
      exact .fetchDrain (drains_of_drain hdrain)

/-- The pipeline stays one that its own steps lead to. -/
theorem staged_step {e : BootstrapEvent H} (hstaged : s.repair.Staged ctx)
    (hstep : s.step ctx e = some s') : s'.repair.Staged ctx := by
  cases steps_of_step hstep with
  | repair hallows hrepair => exact hstaged.step hrepair
  | taskAdmit | handlerAdmit | handlerAdmitOnly => exact staged_admitAndQueueHints hstaged
  | shutdown | gateOpens | gateShutdown | markDrained | endLoop | cutLoop | request | noHints
  | hints | taskTrack | taskNote | taskPass | taskFail | taskComplete | startHandler
  | handlerTrack | handlerNote | verificationDrain | fetchDrain => exact hstaged

theorem drained_step {e : BootstrapEvent H} (hdrained : s.state.drained = true)
    (hstep : s.step ctx e = some s') : s'.state.drained = true := by
  have hworker : ∀ {stage stage' state flag}, Drains s stage state flag stage' →
      state.drained = true := by
    intro stage stage' state flag hdrains
    cases hdrains with
    | pass => rfl
    | skip | decide | remove | fail | complete => exact hdrained
  cases steps_of_step hstep with
  | markDrained | taskPass => rfl
  | taskNote | handlerNote => rw [noted_drained, hdrained]
  | verificationDrain hdrains => exact hworker hdrains
  | fetchDrain hdrains => exact hworker hdrains
  | repair | shutdown | gateOpens | gateShutdown | endLoop | cutLoop | request | noHints | hints
  | taskAdmit | taskTrack | taskFail | taskComplete | startHandler | handlerAdmit
  | handlerAdmitOnly | handlerTrack => exact hdrained

end BootstrapNode

namespace Transcript

/-- The neighbors 1 and 3, and the neighbor 1 hints the key 2. -/
def firstNeighbor : List (BootstrapEvent Transcript) :=
  [.gateOpens [⟨[1]⟩, ⟨[3]⟩], .nextNeighbor, .respond (some ⟨[⟨[2]⟩], []⟩),
    .taskAdmission fun _ => false, .taskAdmission fun _ => false, .taskAdmission fun _ => false]

/-- A verification cycle up to where it asks the network about one key. -/
def cycleBegins : List (BootstrapEvent Transcript) :=
  [.repair .beginCycle, .repair (.classify false), .repair .endLoop, .repair .endLoop,
    .repair .removePaidOnly, .repair .endLoop]

/-- No peer holds the key 2; the worker is left with its check. -/
def cycleFails : List (BootstrapEvent Transcript) :=
  [.repair (.verify (fun _ => .response ⟨[⟨⟨[2]⟩, false, some false⟩]⟩) [⟨[1]⟩]),
    .repair (.snapshot fun _ => false), .repair .evaluate, .repair (.insertPaid fun _ => true),
    .repair (.checkFetch false), .repair .endLoop, .repair .update, .repair .endLoop,
    .verificationDrain, .verificationDrain]

/-- The neighbor 3 hints nothing, and the task's check finds the key 2 queued. -/
def lastNeighbor : List (BootstrapEvent Transcript) :=
  [.nextNeighbor, .respond none, .nextNeighbor, .taskCheck]

/-- The cycle is over after the task has finished, and the worker's check runs. -/
def verifiedAfterNeighbors : List (BootstrapEvent Transcript) :=
  firstNeighbor ++ lastNeighbor ++ cycleBegins ++ cycleFails ++ [.verificationDrain]

end Transcript

end AntNode
