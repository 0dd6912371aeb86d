import AntNode.Proof.BootstrapSteps

/-!
# Bootstrap drained and not noticed

Whether bootstrap is drained is asked by the task after its last neighbor and by the workers when
they are done with a key. What else can make the condition true asks nobody: a handler that clears
the last source whose hints overflowed, the eviction of the last stale key at the beginning of a
cycle, and a shutdown at the gate. Runs in which these happen only while a check is still due, or do
not make the condition true, miss no drain.
-/

namespace AntNode

open Runs ReplicationQueues

variable {H : Type}

/-- A worker has keys to deal with and a check to run after. -/
def DrainStage.due : DrainStage H → Bool
  | .deciding keys => !keys.isEmpty
  | .removing _ | .checking => true
  | .idle | .completing => false

/-- The task has still to run its check. -/
def BootstrapTask.checkAhead : BootstrapTask H → Bool
  | .completing | .finished => false
  | _ => true

/-- The cycle begins, and first drops what is stale. -/
def RepairEvent.evicts : RepairEvent H → Bool
  | .beginCycle => true
  | _ => false

def BootstrapTask.isFinished : BootstrapTask H → Bool
  | .finished => true
  | _ => false

theorem BootstrapTask.eq_finished {task : BootstrapTask H} (hfinished : task.isFinished = true) :
    task = .finished := by
  cases task <;> first | rfl | cases hfinished

def CyclePhase.isIdle : CyclePhase H → Bool
  | .idle => true
  | _ => false

theorem CyclePhase.eq_idle {phase : CyclePhase H} (hidle : phase.isIdle = true) :
    phase = .idle := by
  cases phase <;> first | rfl | cases hidle

def DrainStage.isIdle : DrainStage H → Bool
  | .idle => true
  | _ => false

theorem DrainStage.eq_idle {stage : DrainStage H} (hidle : stage.isIdle = true) :
    stage = .idle := by
  cases stage <;> first | rfl | cases hidle

namespace BootstrapNode

theorem verification_idle_of_allows {s : BootstrapNode H}
    (hallows : s.allows .beginCycle = true) : s.verification = .idle := by
  unfold allows at hallows
  cases hverification : s.verification with
  | idle => rfl
  | deciding | removing | checking | completing =>
      rw [hverification] at hallows
      cases hallows

/-- `Quiescent`, to be evaluated. -/
def isQuiescent (s : BootstrapNode H) : Bool :=
  s.task.isFinished && s.handlers.isEmpty && s.repair.cycle.phase.isIdle &&
    s.verification.isIdle && s.fetch.isIdle && s.repair.fetching.isEmpty &&
    s.repair.fetched.isEmpty

theorem quiescent_of_isQuiescent {s : BootstrapNode H}
    (hquiet : s.isQuiescent = true) : s.Quiescent := by
  simp only [isQuiescent, Bool.and_eq_true, List.isEmpty_iff] at hquiet
  obtain ⟨⟨⟨⟨⟨⟨htask, hhandlers⟩, hcycle⟩, hverification⟩, hfetch⟩, hfetching⟩, hfetched⟩ := hquiet
  exact ⟨BootstrapTask.eq_finished htask, hhandlers, CyclePhase.eq_idle hcycle,
    DrainStage.eq_idle hverification, DrainStage.eq_idle hfetch, hfetching, hfetched⟩

variable [Digest H] {ctx : RepairContext H} {s s' : BootstrapNode H} {e : BootstrapEvent H}

def WorkerDue (s : BootstrapNode H) : Prop :=
  s.terminalKeys ≠ [] ∨ s.verification.due = true ∨ s.fetch.due = true

def CheckDue (s : BootstrapNode H) : Prop := s.task.checkAhead = true ∨ s.WorkerDue

/-- A handler about to clear its source may do so. -/
def MayNote (s : BootstrapNode H) : Option (SyncHandler H) → Prop
  | some ⟨source, _, .noting outcome⟩ =>
      s.state.drained = false → DrainCondition { s with state := s.noted source outcome } →
        s.CheckDue
  | _ => True

/-- A step that may make the drain condition true and runs no check does so only while one is
due. -/
def Watched (s : BootstrapNode H) : BootstrapEvent H → Prop
  | .gateShutdown => s.state.drained = false → s.DrainCondition → s.WorkerDue
  | .repair event =>
      event.evicts = true → s.state.drained = false →
        DrainCondition { s with repair := s.repair.beginCycle } → s.CheckDue
  | .handler index _ => s.MayNote s.handlers[index]?
  | _ => True

instance : Decidable s.WorkerDue :=
  inferInstanceAs (Decidable (s.terminalKeys ≠ [] ∨ s.verification.due = true ∨ s.fetch.due = true))

instance : Decidable s.CheckDue :=
  inferInstanceAs (Decidable (s.task.checkAhead = true ∨ s.WorkerDue))

instance : DecidablePred s.MayNote
  | some ⟨source, _, .noting outcome⟩ =>
      inferInstanceAs (Decidable (s.state.drained = false →
        DrainCondition { s with state := s.noted source outcome } → s.CheckDue))
  | none | some ⟨_, _, .admitting _⟩ | some ⟨_, _, .tracking _⟩ => .isTrue trivial

instance : DecidablePred s.Watched
  | .gateShutdown =>
      inferInstanceAs (Decidable (s.state.drained = false → s.DrainCondition → s.WorkerDue))
  | .repair event =>
      inferInstanceAs (Decidable (event.evicts = true → s.state.drained = false →
        DrainCondition { s with repair := s.repair.beginCycle } → s.CheckDue))
  | .handler index _ => inferInstanceAs (Decidable (s.MayNote s.handlers[index]?))
  | .shutdown | .gateOpens _ | .markDrained | .nextNeighbor | .respond _ | .taskAdmission _
  | .taskCheck | .taskComplete | .startHandler _ _ | .verificationDrain | .fetchDrain =>
      .isTrue trivial

def Completing (s : BootstrapNode H) : Prop :=
  s.task = .completing ∨ s.verification = .completing ∨ s.fetch = .completing

structure DrainInv (ctx : RepairContext H) (s : BootstrapNode H) : Prop where
  staged : s.repair.Staged ctx
  idle : s.repair.cycle.phase = .idle → s.terminalKeys = []
  busy : s.repair.cycle.phase ≠ .idle → s.verification = .idle
  due : s.state.drained = false → s.DrainCondition → s.CheckDue
  completes : s.state.drained = true → s.isBootstrapping = true → s.Completing

theorem drainInv_start (world : RepairWorld H) : DrainInv ctx (start world) where
  staged := RepairState.staged_start world
  idle _ := rfl
  busy hphase := absurd rfl hphase
  due _ _ := .inl rfl
  completes hdrained := by cases hdrained

/-! ### The condition before a step -/

/-- The condition is about the bootstrap state and the queues only. -/
theorem DrainCondition.congr (hcond : s'.DrainCondition) (hstate : s'.state = s.state)
    (hqueues : s'.repair.queues = s.repair.queues) : s.DrainCondition where
  requests := hstate ▸ hcond.requests
  sources := hstate ▸ hcond.sources
  keys := hstate ▸ hqueues ▸ hcond.keys

/-- A step that takes nothing away from what the condition is about does not make it true. -/
theorem DrainCondition.of_grown (hcond : s'.DrainCondition)
    (hrequests : s.state.pendingPeerRequests ≤ s'.state.pendingPeerRequests)
    (hsources : s.state.capacityRejectedSources ⊆ s'.state.capacityRejectedSources)
    (hpending : s.state.pendingKeys ⊆ s'.state.pendingKeys)
    (hqueues : ∀ key, s.repair.queues.containsKey key = true →
      s'.repair.queues.containsKey key = true) : s.DrainCondition where
  requests := Nat.le_zero.mp (hrequests.trans hcond.requests.le)
  sources := Finset.subset_empty.mp (hsources.trans hcond.sources.subset)
  keys key hmem := by
    by_contra hcontains
    have hafter := hqueues key (by simpa using hcontains)
    rw [hcond.keys key (hpending hmem)] at hafter
    cases hafter

theorem containsKey_admitted (hstaged : s.repair.Staged ctx) (source : H) (hints : AdmittedHints H)
    (held : H → Bool) {key : H} (hcontains : s.repair.queues.containsKey key = true) :
    (s.admitted source hints held).1.containsKey key = true := by
  have hadmitted : RepairState.Staged ctx
      { s.repair with queues := (s.admitted source hints held).1 } :=
    staged_admitAndQueueHints hstaged
  rw [hadmitted.queues.containsKey]
  exact tracked_admitAndQueueHints (hstaged.queues.containsKey.mp hcontains)

/-- A step of the pipeline that makes the condition true hands a terminal key to a worker, the
eviction at the beginning of a cycle apart. -/
theorem terminal_of_repair {event : RepairEvent H} {repair : RepairState H}
    (hstaged : s.repair.Staged ctx) (hrepair : s.repair.step ctx event = some repair)
    (hbegin : event ≠ .beginCycle) (hcond : DrainCondition { s with repair := repair }) :
    s.DrainCondition ∨ s.repair.cycleTerminal event ≠ [] ∨ s.repair.fetchTerminal event ≠ [] := by
  by_contra hnot
  obtain ⟨hbefore, hnot⟩ := not_or.mp hnot
  obtain ⟨hcycle, hfetch⟩ := not_or.mp hnot
  refine hbefore (hcond.of_grown le_rfl (Finset.Subset.refl _) (Finset.Subset.refl _) ?_)
  intro key hcontains
  rw [(hstaged.step hrepair).queues.containsKey]
  rcases hstaged.tracked_step hrepair hbegin (hstaged.queues.containsKey.mp hcontains) with
    htracked | hterminal | hterminal
  · exact htracked
  · rw [not_not.mp hcycle] at hterminal
    cases hterminal
  · rw [not_not.mp hfetch] at hterminal
    cases hterminal

/-! ### One step -/

theorem DrainInv.due_drains {stage stage' : DrainStage H} {state : BootstrapState H} {flag : Bool}
    (hinv : DrainInv ctx s) (hdrains : Drains s stage state flag stage')
    (hdrained : state.drained = false) (hcond : DrainCondition { s with state := state }) :
    stage'.due = true ∨ (stage.due = false ∧ s.CheckDue) := by
  cases hdrains with
  | skip hskip =>
      refine .inr ⟨?_, hinv.due hdrained (hcond.congr rfl rfl)⟩
      rw [hskip.resolve_right (by simp [hdrained])]
      rfl
  | decide | remove => exact .inl rfl
  | pass => cases hdrained
  | fail _ hfail => exact (hfail (hcond.congr rfl rfl)).elim
  | complete => exact .inr ⟨rfl, hinv.due hdrained (hcond.congr rfl rfl)⟩

theorem DrainInv.completes_drains {stage stage' : DrainStage H} {state : BootstrapState H}
    {flag : Bool} (hinv : DrainInv ctx s) (hdrains : Drains s stage state flag stage')
    (hdrained : state.drained = true) (hflag : flag = true) :
    stage' = .completing ∨ (stage ≠ .completing ∧ s.Completing) := by
  cases hdrains with
  | skip | decide | remove | fail => exact .inr ⟨nofun, hinv.completes hdrained hflag⟩
  | pass => exact .inl rfl
  | complete => cases hflag

theorem fetch_idle_of_allows {event : RepairEvent H} (hallows : s.allows event = true)
    (hterminal : s.repair.fetchTerminal event ≠ []) : s.fetch = .idle := by
  cases event with
  | finish key result =>
      unfold allows at hallows
      cases hfetch : s.fetch with
      | idle => rfl
      | deciding | removing | checking | completing =>
          rw [hfetch] at hallows
          cases hallows
  | elsewhere | hint | beginCycle | classify | checkPaidOnly | removePaidOnly | probe
  | promoteProbed | verify | snapshot | evaluate | insertPaid | checkFetch | update | endLoop
  | dequeue | execute | panic => exact absurd rfl hterminal

section Pipeline

variable {event : RepairEvent H} {repair : RepairState H} {terminalKeys : List H}
  {verification fetch : DrainStage H}

/-- While a cycle runs, the verification worker has nothing else to do. -/
theorem DrainInv.verification_idle (hinv : DrainInv ctx s) (hallows : s.allows event = true)
    (hrepair : s.repair.step ctx event = some repair)
    (hruns : repair.cycle.phase ≠ .idle ∨ event = .endLoop) : s.verification = .idle := by
  rcases RepairState.phase_cases hrepair with ⟨hphase, -⟩ | ⟨hphase, -⟩ | ⟨rfl, -, -⟩
  · rcases hruns with hruns | rfl
    · exact hinv.busy (hphase ▸ hruns)
    · refine hinv.busy fun hidle => ?_
      simp [RepairState.step, RepairState.endLoop, hidle] at hrepair
  · exact hinv.busy hphase
  · exact verification_idle_of_allows hallows

theorem DrainInv.terminalKeys_of_idle (hinv : DrainInv ctx s)
    (hrepair : s.repair.step ctx event = some repair)
    (hends : HandsOver s event repair terminalKeys verification)
    (hphase : repair.cycle.phase = .idle) : terminalKeys = [] := by
  cases hends with
  | ends => rfl
  | goesOn hgoesOn =>
      rcases RepairState.phase_cases hrepair with ⟨hsame, hterminal⟩ | ⟨-, hruns⟩ | ⟨-, -, hruns⟩
      · rw [hterminal, List.append_nil]
        exact hinv.idle (hsame.symm.trans hphase)
      · rcases hruns with hruns | hevent
        · exact absurd hphase hruns
        · exact absurd ⟨hevent, hphase⟩ hgoesOn
      · exact absurd hphase hruns

/-- A check that is due stays due in a step of the pipeline, and one is due after a key has left. -/
theorem DrainInv.checkDue_repair (hinv : DrainInv ctx s) (hallows : s.allows event = true)
    (hrepair : s.repair.step ctx event = some repair)
    (hends : HandsOver s event repair terminalKeys verification)
    (hfetch : s.repair.fetchTerminal event = [] ∧ fetch = s.fetch ∨
      s.repair.fetchTerminal event ≠ [] ∧ fetch = .deciding (s.repair.fetchTerminal event))
    (hdue : s.CheckDue ∨ s.repair.cycleTerminal event ≠ [] ∨ s.repair.fetchTerminal event ≠ []) :
    CheckDue { s with
      repair := repair
      terminalKeys := terminalKeys
      verification := verification
      fetch := fetch } := by
  rcases hdue with (htask | hterminal | hverification | hfetchDue) | hterminal | hterminal
  · exact .inl htask
  · cases hends with
    | goesOn => exact .inr (.inl (List.append_ne_nil_of_left_ne_nil hterminal _))
    | ends => exact .inr (.inr (.inl (by simpa [DrainStage.due] using hterminal)))
  · cases hends with
    | goesOn => exact .inr (.inr (.inl hverification))
    | ends hevent =>
        rw [hinv.verification_idle hallows hrepair (.inr hevent)] at hverification
        cases hverification
  · rcases hfetch with ⟨-, rfl⟩ | ⟨hterminal, rfl⟩
    · exact .inr (.inr (.inr hfetchDue))
    · exact .inr (.inr (.inr (by simpa [DrainStage.due] using hterminal)))
  · cases hends with
    | goesOn => exact .inr (.inl (List.append_ne_nil_of_right_ne_nil _ hterminal))
    | ends hevent =>
        subst hevent
        exact absurd rfl hterminal
  · rcases hfetch with ⟨hnone, -⟩ | ⟨-, rfl⟩
    · exact absurd hnone hterminal
    · exact .inr (.inr (.inr (by simpa [DrainStage.due] using hterminal)))

theorem DrainInv.completing_repair (hinv : DrainInv ctx s) (hallows : s.allows event = true)
    (hrepair : s.repair.step ctx event = some repair)
    (hends : HandsOver s event repair terminalKeys verification)
    (hfetch : s.repair.fetchTerminal event = [] ∧ fetch = s.fetch ∨
      s.repair.fetchTerminal event ≠ [] ∧ fetch = .deciding (s.repair.fetchTerminal event))
    (hcompleting : s.Completing) :
    Completing { s with
      repair := repair
      terminalKeys := terminalKeys
      verification := verification
      fetch := fetch } := by
  rcases hcompleting with htask | hverification | hcompleting
  · exact .inl htask
  · cases hends with
    | goesOn => exact .inr (.inl hverification)
    | ends hevent =>
        rw [hinv.verification_idle hallows hrepair (.inr hevent)] at hverification
        cases hverification
  · rcases hfetch with ⟨-, rfl⟩ | ⟨hterminal, -⟩
    · exact .inr (.inr hcompleting)
    · rw [fetch_idle_of_allows hallows hterminal] at hcompleting
      cases hcompleting

theorem DrainInv.pipeline (hinv : DrainInv ctx s) (hwatched : s.Watched (.repair event))
    (hallows : s.allows event = true) (hrepair : s.repair.step ctx event = some repair)
    (hends : HandsOver s event repair terminalKeys verification)
    (hfetch : s.repair.fetchTerminal event = [] ∧ fetch = s.fetch ∨
      s.repair.fetchTerminal event ≠ [] ∧ fetch = .deciding (s.repair.fetchTerminal event)) :
    DrainInv ctx { s with
      repair := repair
      terminalKeys := terminalKeys
      verification := verification
      fetch := fetch } where
  staged := hinv.staged.step hrepair
  idle := hinv.terminalKeys_of_idle hrepair hends
  busy hphase := by
    cases hends with
    | goesOn => exact hinv.verification_idle hallows hrepair (.inl hphase)
    | ends _ hidle => exact absurd hidle hphase
  due hdrained hcond := by
    apply hinv.checkDue_repair hallows hrepair hends hfetch
    have hafter : DrainCondition { s with repair := repair } := hcond.congr rfl rfl
    by_cases hbegin : event = .beginCycle
    · subst hbegin
      cases RepairState.steps_of_step hrepair with
      | beginCycle => exact .inl (hwatched rfl hdrained hafter)
    · exact (terminal_of_repair hinv.staged hrepair hbegin hafter).imp_left (hinv.due hdrained)
  completes hdrained hflag :=
    hinv.completing_repair hallows hrepair hends hfetch (hinv.completes hdrained hflag)

end Pipeline

/-- The task goes on and has its check ahead. -/
theorem DrainInv.taskGoesOn {queues : ReplicationQueues H} {state : BootstrapState H}
    {task : BootstrapTask H} {history : BootstrapHistory H} (hinv : DrainInv ctx s)
    (hstaged : RepairState.Staged ctx { s.repair with queues := queues })
    (hdrained : state.drained = s.state.drained) (hbefore : s.task.checkAhead = true)
    (hahead : task.checkAhead = true) :
    DrainInv ctx
      { s with repair.queues := queues, state := state, task := task, history := history } where
  staged := hstaged
  idle := hinv.idle
  busy := hinv.busy
  due _ _ := .inl hahead
  completes hafter hflag := by
    refine .inr ((hinv.completes (hdrained.symm.trans hafter) hflag).resolve_left fun htask => ?_)
    rw [htask] at hbefore
    cases hbefore

/-- A handler goes on. -/
theorem DrainInv.handlerGoesOn {queues : ReplicationQueues H} {state : BootstrapState H}
    {handlers : List (SyncHandler H)} (hinv : DrainInv ctx s)
    (hstaged : RepairState.Staged ctx { s.repair with queues := queues })
    (hdrained : state.drained = s.state.drained)
    (hdue : s.state.drained = false → DrainCondition { s with
      repair.queues := queues, state := state, handlers := handlers } → s.CheckDue) :
    DrainInv ctx { s with repair.queues := queues, state := state, handlers := handlers } where
  staged := hstaged
  idle := hinv.idle
  busy := hinv.busy
  due hafter hcond := hdue (hdrained.symm.trans hafter) hcond
  completes hafter hflag := hinv.completes (hdrained.symm.trans hafter) hflag

theorem DrainInv.step (hinv : DrainInv ctx s) (hwatched : s.Watched e)
    (hstep : s.step ctx e = some s') : DrainInv ctx s' := by
  have hstaged := staged_step hinv.staged hstep
  cases steps_of_step hstep with
  | repair hallows hrepair hends hfetch => exact hinv.pipeline hwatched hallows hrepair hends hfetch
  | shutdown =>
      exact { hinv with due := fun h hcond => hinv.due h (hcond.congr rfl rfl) }
  | gateOpens neighbors htask =>
      refine hinv.taskGoesOn hstaged rfl (by rw [htask]; rfl) ?_
      split_ifs <;> rfl
  | gateShutdown htask =>
      refine { hinv with due := fun h hcond => .inr ?_, completes := fun h hflag => .inr ?_ }
      · exact hwatched h (hcond.congr rfl rfl)
      · exact (hinv.completes h hflag).resolve_left (by rw [htask]; exact nofun)
  | markDrained | taskPass =>
      refine { hinv with due := fun h => ?_, completes := fun _ _ => .inl rfl }
      cases h
  | endLoop htask | cutLoop htask | request htask | noHints htask | hints _ htask
  | taskTrack _ htask | taskAdmit _ htask =>
      exact hinv.taskGoesOn hstaged rfl (by rw [htask]; rfl) rfl
  | taskNote held htask =>
      exact hinv.taskGoesOn hstaged (noted_drained _ _) (by rw [htask]; rfl) rfl
  | taskFail htask hdrained hfail =>
      refine { hinv with due := fun _ hcond => ?_, completes := fun h => ?_ }
      · exact (hfail (hcond.congr rfl rfl)).elim
      · exact absurd (hdrained.symm.trans h) Bool.false_ne_true
  | taskComplete htask =>
      refine { hinv with due := fun h hcond => .inr ?_, completes := fun _ hflag => by cases hflag }
      refine (hinv.due h (hcond.congr rfl rfl)).resolve_left ?_
      rw [htask]
      exact nofun
  | startHandler source hints =>
      refine hinv.handlerGoesOn hstaged rfl fun h hcond => ?_
      exact hinv.due h (hcond.congr rfl rfl)
  | handlerAdmit held hget | handlerAdmitOnly held hget =>
      refine hinv.handlerGoesOn hstaged rfl fun h hcond => hinv.due h ?_
      exact hcond.of_grown le_rfl (Finset.Subset.refl _) (Finset.Subset.refl _) fun key =>
        containsKey_admitted hinv.staged _ _ held
  | handlerTrack held hget =>
      refine hinv.handlerGoesOn hstaged rfl fun h hcond => hinv.due h ?_
      exact hcond.of_grown le_rfl (Finset.Subset.refl _) Finset.subset_union_left fun key => id
  | handlerNote held hget =>
      refine hinv.handlerGoesOn hstaged (noted_drained _ _) fun h hcond => ?_
      rw [Watched, hget] at hwatched
      exact hwatched h (hcond.congr rfl rfl)
  | verificationDrain hdrains =>
      refine { hinv with busy := ?_, due := ?_, completes := ?_ }
      · intro hphase
        rw [hinv.busy hphase] at hdrains
        cases hdrains
      · intro h hcond
        rcases hinv.due_drains hdrains h (hcond.congr rfl rfl) with
          hdue | ⟨hnot, htask | hterminal | hverification | hfetch⟩
        · exact .inr (.inr (.inl hdue))
        · exact .inl htask
        · exact .inr (.inl hterminal)
        · exact absurd (hnot.symm.trans hverification) Bool.false_ne_true
        · exact .inr (.inr (.inr hfetch))
      · intro h hflag
        rcases hinv.completes_drains hdrains h hflag with
          hstage | ⟨hnot, htask | hverification | hfetch⟩
        · exact .inr (.inl hstage)
        · exact .inl htask
        · exact absurd hverification hnot
        · exact .inr (.inr hfetch)
  | fetchDrain hdrains =>
      refine { hinv with due := ?_, completes := ?_ }
      · intro h hcond
        rcases hinv.due_drains hdrains h (hcond.congr rfl rfl) with
          hdue | ⟨hnot, htask | hterminal | hverification | hfetch⟩
        · exact .inr (.inr (.inr hdue))
        · exact .inl htask
        · exact .inr (.inl hterminal)
        · exact .inr (.inr (.inl hverification))
        · exact absurd (hnot.symm.trans hfetch) Bool.false_ne_true
      · intro h hflag
        rcases hinv.completes_drains hdrains h hflag with
          hstage | ⟨hnot, htask | hverification | hfetch⟩
        · exact .inr (.inr hstage)
        · exact .inl htask
        · exact .inr (.inl hverification)
        · exact absurd hfetch hnot

/-- **No drain is missed**, along every run in which the steps that run no check are watched. -/
theorem no_drain_missed {world : RepairWorld H} {events : List (BootstrapEvent H)}
    (hwatched : Along (step ctx) Watched (start world) events)
    (hrun : run (step ctx) (start world) events = some s) (hquiet : s.Quiescent)
    (hcond : s.DrainCondition) : s.state.drained = true ∧ s.isBootstrapping = false := by
  have hinv : DrainInv ctx s := invariant_of_run (fun _ _ _ hinv hok hs => hinv.step hok hs)
    (drainInv_start world) hwatched hrun
  have hdrained : s.state.drained = true := by
    by_contra hnot
    rcases hinv.due (by simpa using hnot) hcond with htask | hterminal | hverification | hfetch
    · rw [hquiet.task] at htask
      cases htask
    · exact hterminal (hinv.idle hquiet.cycle)
    · rw [hquiet.verification] at hverification
      cases hverification
    · rw [hquiet.fetch] at hfetch
      cases hfetch
  refine ⟨hdrained, ?_⟩
  by_contra hflag
  rcases hinv.completes hdrained (by simpa using hflag) with htask | hverification | hfetch
  · rw [hquiet.task] at htask
    cases htask
  · rw [hquiet.verification] at hverification
    cases hverification
  · rw [hquiet.fetch] at hfetch
    cases hfetch

end BootstrapNode

namespace Transcript

open BootstrapNode

/-- Whether the node is at rest, whether the drain condition holds, and the two flags. -/
def restReport (s : BootstrapNode Transcript) : Bool × Bool × Bool × Bool :=
  (s.isQuiescent, decide s.DrainCondition, s.state.drained, s.isBootstrapping)

/-- The neighbor 3 hints the key 4, the task's check finds it queued, and half an hour passes. -/
def secondNeighbor : List (BootstrapEvent Transcript) :=
  [.nextNeighbor, .respond (some ⟨[⟨[4]⟩], []⟩), .taskAdmission fun _ => false,
    .taskAdmission fun _ => false, .taskAdmission fun _ => false, .nextNeighbor, .taskCheck,
    .repair (.elsewhere { repairWorld ∅ with now := pendingVerifyMaxAge + 1 })]

/-- A cycle that finds nothing pending once it has evicted what is stale. -/
def evictingCycle : List (BootstrapEvent Transcript) :=
  [.repair .beginCycle, .repair .endLoop, .repair .endLoop, .repair .removePaidOnly,
    .repair .endLoop, .verificationDrain]

/-- The key 4 comes while a cycle is asking the network about the key 2. The cycle takes long, its
check finds the key 4 queued, and the next cycle evicts that. -/
def evictedLast : List (BootstrapEvent Transcript) :=
  firstNeighbor ++ cycleBegins ++ secondNeighbor ++ cycleFails ++ .verificationDrain ::
    evictingCycle

/-- Nothing is left to do and nothing is queued, and the node still counts as bootstrapping. -/
theorem drain_missed_after_eviction :
    ∃ s, run (step repairNode) (start (repairWorld ∅)) evictedLast = some s ∧ s.Quiescent ∧
      s.DrainCondition ∧ s.state.drained = false ∧ s.isBootstrapping = true := by
  have hreport : (run (step repairNode) (start (repairWorld ∅)) evictedLast).map restReport =
      some (true, true, false, true) := by
    decide +kernel
  obtain ⟨s, hrun, hs⟩ := Option.map_eq_some_iff.mp hreport
  simp only [restReport, Prod.mk.injEq, decide_eq_true_eq] at hs
  obtain ⟨hquiet, hcond, hdrained, hflag⟩ := hs
  exact ⟨s, hrun, quiescent_of_isQuiescent hquiet, hcond, hdrained, hflag⟩

theorem no_drain_missed_verifiedLast :
    ∃ s, run (step repairNode) (start (repairWorld ∅))
        (verifiedAfterNeighbors ++ [.verificationDrain]) = some s ∧ s.Quiescent ∧
      s.DrainCondition ∧ s.state.drained = true ∧ s.isBootstrapping = false := by
  have hreport : (run (step repairNode) (start (repairWorld ∅))
      (verifiedAfterNeighbors ++ [.verificationDrain])).map
      (fun s => (s.isQuiescent, decide s.DrainCondition)) = some (true, true) := by
    decide +kernel
  obtain ⟨s, hrun, hs⟩ := Option.map_eq_some_iff.mp hreport
  simp only [Prod.mk.injEq, decide_eq_true_eq] at hs
  have hquiet := quiescent_of_isQuiescent hs.1
  exact ⟨s, hrun, hquiet, hs.2, no_drain_missed (by decide +kernel) hrun hquiet hs.2⟩

end Transcript

end AntNode
