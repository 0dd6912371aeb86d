import AntNode.Proof.BootstrapSteps

/-!
# Bootstrap drained too early

Bootstrap is to be declared drained once every neighbor of the snapshot has been asked, what it
hinted has been queued and tracked, and nothing of that is queued any more. The check looks at a
count of requests that is zero between two neighbors as well, so a worker that runs it while the
task is at its neighbors declares bootstrap drained too early. A worker that removes a key which has
been queued again, and a handler that has queued a key and not tracked it, have the same effect.
Runs without these steps, and without a shutdown that cuts the task short, do not drain early.
-/

namespace AntNode

open Runs ReplicationQueues

variable {H : Type}

/-- What is queued and not tracked yet. -/
def AdmissionStage.untracked : AdmissionStage H → Finset H
  | .tracking outcome => outcome.discovered
  | _ => ∅

namespace BootstrapTask

def untracked : BootstrapTask H → Finset H
  | .admission _ stage _ => stage.untracked
  | _ => ∅

/-- The task is through with its neighbors. -/
def loopDone : BootstrapTask H → Bool
  | .syncing neighbors => neighbors.isEmpty
  | .checking | .completing | .finished => true
  | _ => false

theorem untracked_of_loopDone {task : BootstrapTask H} (hdone : task.loopDone = true) :
    task.untracked = ∅ := by
  cases task with
  | admission => cases hdone
  | waiting | marking | syncing | requesting | checking | completing | finished => rfl

end BootstrapTask

/-- The neighbors asked and dealt with are those the task is past. -/
def BootstrapHistory.Follows (history : BootstrapHistory H) : BootstrapTask H → Prop
  | .waiting => history.requested = [] ∧ history.handled = []
  | .marking => True
  | .syncing neighbors =>
      history.snapshot = some (history.handled ++ neighbors) ∧ history.requested = history.handled
  | .requesting peer neighbors | .admission peer _ neighbors =>
      history.snapshot = some (history.handled ++ peer :: neighbors) ∧
        history.requested = history.handled ++ [peer]
  | .checking | .completing | .finished =>
      history.snapshot = some history.handled ∧ history.requested = history.handled

section Handlers

variable {α : Type} {l : List α} {a b : α} {index : Nat}

theorem eq_or_mem_eraseIdx (hget : l[index]? = some a) (hmem : b ∈ l) :
    b = a ∨ b ∈ l.eraseIdx index := by
  obtain ⟨other, hother⟩ := List.mem_iff_getElem?.mp hmem
  by_cases heq : other = index
  · rw [heq, hget] at hother
    exact .inl (Option.some.inj hother).symm
  · exact .inr (List.mem_eraseIdx_iff_getElem?.mpr ⟨other, heq, hother⟩)

theorem eq_or_mem_set (hget : l[index]? = some a) (hmem : b ∈ l) (new : α) :
    b = a ∨ b ∈ l.set index new := by
  refine (eq_or_mem_eraseIdx hget hmem).imp_right fun herase => ?_
  obtain ⟨other, hne, hother⟩ := List.mem_eraseIdx_iff_getElem?.mp herase
  exact List.mem_of_getElem? (by rw [List.getElem?_set_ne hne.symm, hother])

theorem mem_set_of_getElem? (hget : l[index]? = some a) (new : α) : new ∈ l.set index new :=
  List.mem_set (List.getElem?_eq_some_iff.mp hget).1 new

end Handlers

namespace BootstrapNode

variable [Digest H] {ctx : RepairContext H} {s s' : BootstrapNode H} {e : BootstrapEvent H}

/-- All neighbors have been asked and dealt with, all keys they had admitted have been tracked, and
none of these is queued. -/
structure Covered (s : BootstrapNode H) : Prop where
  neighbors : ∃ neighbors, s.history.snapshot = some neighbors ∧
    s.history.requested = neighbors ∧ s.history.handled = neighbors
  tracked : s.history.admitted ⊆ s.history.tracked
  left : ∀ key ∈ s.history.admitted, ¬s.repair.queues.Tracked key

/-- The step declares bootstrap drained, other than for want of neighbors, in a state that is not
covered. -/
def DrainsEarly (ctx : RepairContext H) (s : BootstrapNode H) (e : BootstrapEvent H) : Prop :=
  ∃ s', s.step ctx e = some s' ∧ e ≠ .markDrained ∧ s.state.drained = false ∧
    s'.state.drained = true ∧ ¬s.Covered

/-! ### The condition -/

/-- No handler has queued a key of the neighbors' hints again and not tracked it yet. -/
def HandlersTracked (s : BootstrapNode H) : Prop :=
  ∀ handler ∈ s.handlers, ∀ key ∈ handler.stage.untracked, key ∈ s.history.admitted →
    s.repair.queues.containsKey key = false

def WorkerInOrder (s : BootstrapNode H) : DrainStage H → Prop
  | .removing keys =>
      ∀ key ∈ keys, key ∈ s.history.admitted → s.repair.queues.containsKey key = false
  | .checking => s.DrainCondition → s.task.loopDone ∧ s.HandlersTracked
  | _ => True

def InOrder (s : BootstrapNode H) : BootstrapEvent H → Prop
  | .gateShutdown => False
  | .nextNeighbor => s.shutdown = true → s.task.loopDone
  | .taskCheck => s.DrainCondition → s.HandlersTracked
  | .verificationDrain => s.WorkerInOrder s.verification
  | .fetchDrain => s.WorkerInOrder s.fetch
  | _ => True

instance : Decidable s.HandlersTracked :=
  inferInstanceAs (Decidable (∀ handler ∈ s.handlers, ∀ key ∈ handler.stage.untracked,
    key ∈ s.history.admitted → s.repair.queues.containsKey key = false))

instance : DecidablePred s.WorkerInOrder
  | .removing keys =>
      inferInstanceAs (Decidable (∀ key ∈ keys, key ∈ s.history.admitted →
        s.repair.queues.containsKey key = false))
  | .checking =>
      inferInstanceAs (Decidable (s.DrainCondition → s.task.loopDone ∧ s.HandlersTracked))
  | .idle | .deciding _ | .completing => .isTrue trivial

instance : DecidablePred s.InOrder
  | .gateShutdown => .isFalse id
  | .nextNeighbor => inferInstanceAs (Decidable (s.shutdown = true → s.task.loopDone))
  | .taskCheck => inferInstanceAs (Decidable (s.DrainCondition → s.HandlersTracked))
  | .verificationDrain => inferInstanceAs (Decidable (s.WorkerInOrder s.verification))
  | .fetchDrain => inferInstanceAs (Decidable (s.WorkerInOrder s.fetch))
  | .repair _ | .shutdown | .gateOpens _ | .markDrained | .respond _ | .taskAdmission _
  | .taskComplete | .startHandler _ _ | .handler _ _ => .isTrue trivial

/-! ### The invariant -/

/-- A key that the task or a handler has queued and not tracked yet. -/
def Untracked (s : BootstrapNode H) (key : H) : Prop :=
  key ∈ s.task.untracked ∨ ∃ handler ∈ s.handlers, key ∈ handler.stage.untracked

/-- A node that has not drained. -/
structure Open (s : BootstrapNode H) : Prop where
  flag : s.isBootstrapping = true
  handlers : ∀ handler ∈ s.handlers, handler.isBootstrapping = true
  task : s.task ≠ .completing
  verification : s.verification ≠ .completing
  fetch : s.fetch ≠ .completing
  follows : s.history.Follows s.task
  admitted : s.history.admitted ⊆ s.history.tracked ∪ s.task.untracked
  queued : ∀ key ∈ s.history.admitted, s.repair.queues.Tracked key →
    key ∈ s.state.pendingKeys ∨ s.Untracked key

structure OpenInv (ctx : RepairContext H) (s : BootstrapNode H) : Prop where
  staged : s.repair.Staged ctx
  isOpen : s.state.drained = false → s.Open

theorem openInv_start (world : RepairWorld H) : OpenInv ctx (start world) where
  staged := RepairState.staged_start world
  isOpen _ :=
    { flag := rfl
      handlers := by simp [start]
      task := by simp [start]
      verification := by simp [start]
      fetch := by simp [start]
      follows := ⟨rfl, rfl⟩
      admitted := by simp [start]
      queued := by simp [start] }

/-- Where the check passes in order, the state is covered. -/
theorem Open.covered (hstaged : s.repair.Staged ctx) (hopen : s.Open) (hcond : s.DrainCondition)
    (hdone : s.task.loopDone = true) (hhandlers : s.HandlersTracked) : s.Covered where
  neighbors := by
    have hfollows := hopen.follows
    cases htask : s.task with
    | syncing neighbors =>
        rw [htask] at hdone hfollows
        obtain rfl := List.isEmpty_iff.mp hdone
        rw [BootstrapHistory.Follows, List.append_nil] at hfollows
        exact ⟨_, hfollows.1, hfollows.2, rfl⟩
    | checking | completing | finished =>
        rw [htask] at hfollows
        exact ⟨_, hfollows.1, hfollows.2, rfl⟩
    | waiting | marking | requesting | admission =>
        rw [htask] at hdone
        cases hdone
  tracked := by
    simpa [BootstrapTask.untracked_of_loopDone hdone] using hopen.admitted
  left key hadmitted htracked := by
    have hcontains : s.repair.queues.containsKey key = true :=
      hstaged.queues.containsKey.mpr htracked
    have hnot : s.repair.queues.containsKey key ≠ false := by simp [hcontains]
    rcases hopen.queued key hadmitted htracked with hpending | htask | ⟨handler, hmem, hkey⟩
    · exact hnot (hcond.keys key hpending)
    · simp [BootstrapTask.untracked_of_loopDone hdone] at htask
    · exact hnot (hhandlers handler hmem key hkey hadmitted)

/-- What a worker does in order leaves a node that has not drained open. -/
theorem Open.drains {stage stage' : DrainStage H} {state : BootstrapState H} {flag : Bool}
    (hstaged : s.repair.Staged ctx) (hopen : s.Open) (hstage : stage ≠ .completing)
    (horder : s.WorkerInOrder stage) (hdrains : Drains s stage state flag stage')
    (hdrained : state.drained = false) :
    flag = true ∧ stage' ≠ .completing ∧ ∀ key ∈ s.history.admitted,
      s.repair.queues.Tracked key → key ∈ state.pendingKeys ∨ s.Untracked key := by
  cases hdrains with
  | skip | decide | fail => exact ⟨hopen.flag, nofun, hopen.queued⟩
  | remove keys =>
      refine ⟨hopen.flag, nofun, fun key hadmitted htracked => ?_⟩
      have hcontains : s.repair.queues.containsKey key = true :=
        hstaged.queues.containsKey.mpr htracked
      have hnot : key ∉ keys := by
        intro hmem
        rw [horder key hmem hadmitted] at hcontains
        cases hcontains
      exact (hopen.queued key hadmitted htracked).imp_left fun hpending => by simp [hpending, hnot]
  | pass => cases hdrained
  | complete => exact absurd rfl hstage

/-- The task has gone on without queueing or tracking anything. -/
theorem Open.withTask (hopen : s.Open) {state : BootstrapState H} {task : BootstrapTask H}
    {history : BootstrapHistory H} (hpending : state.pendingKeys = s.state.pendingKeys)
    (htask : task ≠ .completing) (huntracked : s.task.untracked = task.untracked)
    (hfollows : history.Follows task) (hadmitted : history.admitted = s.history.admitted)
    (htracked : history.tracked = s.history.tracked) :
    Open { s with state := state, task := task, history := history } where
  flag := hopen.flag
  handlers := hopen.handlers
  task := htask
  verification := hopen.verification
  fetch := hopen.fetch
  follows := hfollows
  admitted := by
    dsimp only
    rw [hadmitted, htracked, ← huntracked]
    exact hopen.admitted
  queued key hkey hqueued := by
    dsimp only [Untracked] at hkey ⊢
    rw [hadmitted] at hkey
    rw [hpending, ← huntracked]
    exact hopen.queued key hkey hqueued

theorem Open.taskAdmit (hopen : s.Open) {peer : H} {hints : AdmittedHints H} {neighbors : List H}
    (held : H → Bool) (htask : s.task = .admission peer (.admitting hints) neighbors) :
    Open { s with
      repair.queues := (s.admitted peer hints held).1
      task := .admission peer (.tracking (s.admitted peer hints held).2) neighbors
      history.admitted := s.history.admitted ∪ (s.admitted peer hints held).2.discovered } where
  flag := hopen.flag
  handlers := hopen.handlers
  task := nofun
  verification := hopen.verification
  fetch := hopen.fetch
  follows := by
    have hfollows := hopen.follows
    rwa [htask] at hfollows
  admitted := by
    have hadmitted := hopen.admitted
    rw [htask] at hadmitted
    exact Finset.union_subset_union_left (by simpa [BootstrapTask.untracked,
      AdmissionStage.untracked] using hadmitted)
  queued key hkey htracked := by
    rcases Finset.mem_union.mp hkey with hold | hnew
    · rcases tracked_of_admitAndQueueHints htracked with htracked | hnew
      · refine (hopen.queued key hold htracked).imp_right fun huntracked => ?_
        rw [Untracked, htask] at huntracked
        exact .inr (huntracked.resolve_left (by simp [BootstrapTask.untracked,
          AdmissionStage.untracked]))
      · exact .inr (.inl hnew)
    · exact .inr (.inl hnew)

theorem Open.taskTrack (hopen : s.Open) {peer : H} {outcome : AdmissionOutcome H}
    {neighbors : List H} (htask : s.task = .admission peer (.tracking outcome) neighbors) :
    Open { s with
      state := s.state.trackDiscoveredKeys outcome.discovered
      task := .admission peer (.noting outcome) neighbors
      history.tracked := s.history.tracked ∪ outcome.discovered } where
  flag := hopen.flag
  handlers := hopen.handlers
  task := nofun
  verification := hopen.verification
  fetch := hopen.fetch
  follows := by
    have hfollows := hopen.follows
    rwa [htask] at hfollows
  admitted := by
    have hadmitted := hopen.admitted
    rw [htask] at hadmitted
    exact hadmitted.trans Finset.subset_union_left
  queued key hkey htracked := by
    have hqueued := hopen.queued key hkey htracked
    rw [Untracked, htask] at hqueued
    rcases hqueued with hpending | hdiscovered | hhandler
    · exact .inl (Finset.mem_union_left _ hpending)
    · exact .inl (Finset.mem_union_right _ hdiscovered)
    · exact .inr (.inr hhandler)

/-- One handler has gone on. -/
theorem Open.withHandlers (hopen : s.Open) {handlers : List (SyncHandler H)}
    {queues : ReplicationQueues H} {state : BootstrapState H}
    (hflags : ∀ handler ∈ handlers, handler.isBootstrapping = true)
    (hpending : s.state.pendingKeys ⊆ state.pendingKeys)
    (huntracked : ∀ handler ∈ s.handlers, ∀ key ∈ handler.stage.untracked,
      key ∈ state.pendingKeys ∨ ∃ handler ∈ handlers, key ∈ handler.stage.untracked)
    (hqueues : ∀ key, queues.Tracked key →
      s.repair.queues.Tracked key ∨ ∃ handler ∈ handlers, key ∈ handler.stage.untracked) :
    Open { s with repair.queues := queues, state := state, handlers := handlers } where
  flag := hopen.flag
  handlers := hflags
  task := hopen.task
  verification := hopen.verification
  fetch := hopen.fetch
  follows := hopen.follows
  admitted := hopen.admitted
  queued key hkey htracked := by
    rcases hqueues key htracked with htracked | hnew
    · rcases hopen.queued key hkey htracked with hold | htask | ⟨handler, hmem, hold⟩
      · exact .inl (hpending hold)
      · exact .inr (.inl htask)
      · exact (huntracked handler hmem key hold).imp_right .inr
    · exact .inr (.inr hnew)

/-- A step of the pipeline brings no key in. -/
theorem Open.pipeline {event : RepairEvent H} {repair : RepairState H} {terminalKeys : List H}
    {verification fetch : DrainStage H} (hopen : s.Open) (hstaged : s.repair.Staged ctx)
    (hallows : s.allows event = true) (hrepair : s.repair.step ctx event = some repair)
    (hends : HandsOver s event repair terminalKeys verification)
    (hfetch : s.repair.fetchTerminal event = [] ∧ fetch = s.fetch ∨
      s.repair.fetchTerminal event ≠ [] ∧ fetch = .deciding (s.repair.fetchTerminal event)) :
    Open { s with
      repair := repair
      terminalKeys := terminalKeys
      verification := verification
      fetch := fetch } := by
  have hhint : ∀ key entry, event ≠ .hint key entry := by
    rintro key entry rfl
    cases hallows
  refine { hopen with verification := ?_, fetch := ?_, queued := ?_ }
  · cases hends with
    | goesOn => exact hopen.verification
    | ends => exact nofun
  · rcases hfetch with ⟨-, rfl⟩ | ⟨-, rfl⟩
    · exact hopen.fetch
    · exact nofun
  · intro key hkey htracked
    exact hopen.queued key hkey (hstaged.tracked_of_step hrepair hhint htracked)

/-- What a handler queues is untracked until its next step. -/
theorem Open.handlerAdmit {index : Nat} {source : H} {hints : AdmittedHints H} (hopen : s.Open)
    (held : H → Bool) (hget : s.handlers[index]? = some ⟨source, true, .admitting hints⟩) :
    Open { s with
      repair.queues := (s.admitted source hints held).1
      handlers :=
        s.handlers.set index ⟨source, true, .tracking (s.admitted source hints held).2⟩ } := by
  refine hopen.withHandlers ?_ (Finset.Subset.refl _) ?_ ?_
  · intro handler hmem
    rcases List.mem_or_eq_of_mem_set hmem with hold | rfl
    · exact hopen.handlers handler hold
    · rfl
  · intro handler hmem key hkey
    rcases eq_or_mem_set hget hmem _ with rfl | hmem
    · simp [AdmissionStage.untracked] at hkey
    · exact .inr ⟨handler, hmem, hkey⟩
  · intro key htracked
    refine (tracked_of_admitAndQueueHints htracked).imp_right fun hnew => ?_
    exact ⟨_, mem_set_of_getElem? hget _, hnew⟩

theorem Open.handlerTrack {index : Nat} {source : H} {flag : Bool} {outcome : AdmissionOutcome H}
    (hopen : s.Open) (hget : s.handlers[index]? = some ⟨source, flag, .tracking outcome⟩) :
    Open { s with
      state := s.state.trackDiscoveredKeys outcome.discovered
      handlers := s.handlers.set index ⟨source, flag, .noting outcome⟩ } := by
  have hflag := hopen.handlers _ (List.mem_of_getElem? hget)
  refine hopen.withHandlers ?_ Finset.subset_union_left ?_ fun key => .inl
  · intro handler hmem
    rcases List.mem_or_eq_of_mem_set hmem with hold | rfl
    · exact hopen.handlers handler hold
    · exact hflag
  · intro handler hmem key hkey
    rcases eq_or_mem_set hget hmem _ with rfl | hmem
    · exact .inl (Finset.mem_union_right _ hkey)
    · exact .inr ⟨handler, hmem, hkey⟩

theorem Open.handlerNote {index : Nat} {source : H} {flag : Bool} {outcome : AdmissionOutcome H}
    (hopen : s.Open) (hget : s.handlers[index]? = some ⟨source, flag, .noting outcome⟩) :
    Open { s with
      state := s.noted source outcome
      handlers := s.handlers.eraseIdx index } := by
  refine hopen.withHandlers (fun handler hmem => ?_) ?_ ?_ fun key => .inl
  · exact hopen.handlers handler (List.mem_of_mem_eraseIdx hmem)
  · rw [noted_pendingKeys]
  · intro handler hmem key hkey
    rcases eq_or_mem_eraseIdx hget hmem with rfl | hmem
    · simp [AdmissionStage.untracked] at hkey
    · exact .inr ⟨handler, hmem, hkey⟩

theorem Open.step (hstaged : s.repair.Staged ctx) (hopen : s.Open) (horder : s.InOrder e)
    (hstep : s.step ctx e = some s') (hdrained : s'.state.drained = false) : s'.Open := by
  have hfollows := hopen.follows
  cases steps_of_step hstep with
  | repair hallows hrepair hends hfetch =>
      exact hopen.pipeline hstaged hallows hrepair hends hfetch
  | shutdown => exact { hopen with }
  | gateOpens neighbors htask =>
      rw [htask] at hfollows
      obtain ⟨hrequested, hhandled⟩ := hfollows
      refine hopen.withTask rfl ?_ ?_ ?_ rfl rfl
      · split_ifs <;> exact nofun
      · rw [htask]
        split_ifs <;> rfl
      · split_ifs
        · trivial
        · simp [BootstrapHistory.Follows, hrequested, hhandled]
  | gateShutdown => exact horder.elim
  | markDrained => cases hdrained
  | endLoop htask =>
      rw [htask, BootstrapHistory.Follows, List.append_nil] at hfollows
      exact hopen.withTask rfl nofun (by rw [htask]; rfl) hfollows rfl rfl
  | cutLoop htask hshutdown =>
      have hdone := horder hshutdown
      rw [htask] at hdone
      cases hdone
  | request htask =>
      rw [htask] at hfollows
      refine hopen.withTask rfl nofun (by rw [htask]; rfl) ?_ rfl rfl
      exact ⟨hfollows.1, congrArg (· ++ [_]) hfollows.2⟩
  | noHints htask =>
      rw [htask] at hfollows
      refine hopen.withTask rfl nofun (by rw [htask]; rfl) ?_ rfl rfl
      exact ⟨by simp [hfollows.1], hfollows.2⟩
  | hints hints htask =>
      rw [htask] at hfollows
      exact hopen.withTask rfl nofun (by rw [htask]; rfl) hfollows rfl rfl
  | taskAdmit held htask => exact hopen.taskAdmit held htask
  | taskTrack held htask => exact hopen.taskTrack htask
  | taskNote held htask =>
      rw [htask] at hfollows
      refine hopen.withTask (noted_pendingKeys _ _) nofun (by rw [htask]; rfl) ?_ rfl rfl
      exact ⟨by simp [hfollows.1], hfollows.2⟩
  | taskPass => cases hdrained
  | taskFail htask =>
      rw [htask] at hfollows
      exact hopen.withTask rfl nofun (by rw [htask]; rfl) hfollows rfl rfl
  | taskComplete htask => exact absurd htask hopen.task
  | startHandler source hints =>
      refine hopen.withHandlers ?_ (Finset.Subset.refl _) ?_ fun key => .inl
      · intro handler hmem
        rcases List.mem_append.mp hmem with hold | hnew
        · exact hopen.handlers handler hold
        · rw [List.mem_singleton.mp hnew]
          exact hopen.flag
      · exact fun handler hmem key hkey => .inr ⟨handler, List.mem_append_left _ hmem, hkey⟩
  | handlerAdmit held hget => exact hopen.handlerAdmit held hget
  | handlerAdmitOnly held hget => cases hopen.handlers _ (List.mem_of_getElem? hget)
  | handlerTrack held hget => exact hopen.handlerTrack hget
  | handlerNote held hget => exact hopen.handlerNote hget
  | verificationDrain hdrains =>
      obtain ⟨hflag, hstage, hqueued⟩ :=
        hopen.drains hstaged hopen.verification horder hdrains hdrained
      exact { hopen with flag := hflag, verification := hstage, queued := hqueued }
  | fetchDrain hdrains =>
      obtain ⟨hflag, hstage, hqueued⟩ := hopen.drains hstaged hopen.fetch horder hdrains hdrained
      exact { hopen with flag := hflag, fetch := hstage, queued := hqueued }

theorem OpenInv.step (hinv : OpenInv ctx s) (horder : s.InOrder e)
    (hstep : s.step ctx e = some s') : OpenInv ctx s' where
  staged := staged_step hinv.staged hstep
  isOpen hdrained := by
    cases hbefore : s.state.drained with
    | false => exact (hinv.isOpen hbefore).step hinv.staged horder hstep hdrained
    | true =>
        rw [drained_step hbefore hstep] at hdrained
        cases hdrained

/-- A step in order that declares bootstrap drained does so in a covered state. -/
theorem OpenInv.covered (hinv : OpenInv ctx s) (horder : s.InOrder e)
    (hstep : s.step ctx e = some s') (hmark : e ≠ .markDrained)
    (hbefore : s.state.drained = false) (hafter : s'.state.drained = true) : s.Covered := by
  have hopen := hinv.isOpen hbefore
  have hworker : ∀ {stage stage' state flag}, Drains s stage state flag stage' →
      s.WorkerInOrder stage → state.drained = true → s.Covered := by
    intro stage stage' state flag hdrains horder hafter
    cases hdrains with
    | skip | decide | remove | fail | complete =>
        rw [hbefore] at hafter
        cases hafter
    | pass hpass =>
        have hcond := hpass.resolve_left (by simp [hbefore])
        obtain ⟨hdone, hhandlers⟩ := horder hcond
        exact hopen.covered hinv.staged hcond hdone hhandlers
  cases steps_of_step hstep with
  | markDrained => exact absurd rfl hmark
  | taskPass htask hpass =>
      have hcond := hpass.resolve_left (by simp [hbefore])
      exact hopen.covered hinv.staged hcond (by rw [htask]; rfl) (horder hcond)
  | verificationDrain hdrains => exact hworker hdrains horder hafter
  | fetchDrain hdrains => exact hworker hdrains horder hafter
  | taskNote | handlerNote =>
      rw [noted_drained, hbefore] at hafter
      cases hafter
  | repair | shutdown | gateOpens | gateShutdown | endLoop | cutLoop | request | noHints | hints
  | taskAdmit | taskTrack | taskFail | taskComplete | startHandler | handlerAdmit
  | handlerAdmitOnly | handlerTrack =>
      exact absurd (hbefore.symm.trans hafter) Bool.false_ne_true

/-- **Bootstrap is never declared drained early**, along every run whose steps are in order. -/
theorem never_drains_early {world : RepairWorld H} {events : List (BootstrapEvent H)}
    (horder : Along (step ctx) InOrder (start world) events) :
    ¬Occurred (step ctx) (DrainsEarly ctx) (start world) events := by
  rintro ⟨before, e, after, s, rfl, hrun, s', hstep, hmark, hbefore, hafter, hnot⟩
  obtain ⟨hearlier, hlast⟩ := horder.split hrun
  have hinv : OpenInv ctx s := invariant_of_run (fun _ _ _ hinv hok hs => hinv.step hok hs)
    (openInv_start world) hearlier hrun
  exact hnot (hinv.covered hlast hstep hmark hbefore hafter)

end BootstrapNode

namespace Transcript

open BootstrapNode

/-- What a step does to the drained flag, and which neighbors have been asked before it. -/
structure DrainReport where
  before : Bool
  after : Bool
  snapshot : Option (List Transcript)
  requested : List Transcript
  deriving DecidableEq

def drainReport (events : List (BootstrapEvent Transcript)) (e : BootstrapEvent Transcript) :
    Option DrainReport :=
  (run (step repairNode) (start (repairWorld ∅)) events).bind fun s =>
    (s.step repairNode e).map fun s' =>
      ⟨s.state.drained, s'.state.drained, s.history.snapshot, s.history.requested⟩

/-- The verification worker is done with the hint of the neighbor 1 before the task asks the
neighbor 3. -/
theorem drained_between_neighbors :
    Occurred (step repairNode) (DrainsEarly repairNode) (start (repairWorld ∅))
      (firstNeighbor ++ cycleBegins ++ cycleFails ++ [.verificationDrain]) := by
  have hreport : drainReport (firstNeighbor ++ cycleBegins ++ cycleFails) .verificationDrain =
      some ⟨false, true, some [⟨[1]⟩, ⟨[3]⟩], [⟨[1]⟩]⟩ := by
    decide +kernel
  obtain ⟨s, hrun, hmap⟩ := Option.bind_eq_some_iff.mp hreport
  obtain ⟨s', hstep, hreport⟩ := Option.map_eq_some_iff.mp hmap
  obtain ⟨hbefore, hafter, hsnapshot, hrequested⟩ := DrainReport.mk.inj hreport
  refine occurred_concat_self hrun ⟨s', hstep, nofun, hbefore, hafter, fun hcovered => ?_⟩
  obtain ⟨neighbors, hneighbors, hall, -⟩ := hcovered.neighbors
  rw [hsnapshot] at hneighbors
  rw [hrequested, ← Option.some.inj hneighbors] at hall
  revert hall
  decide

theorem never_drains_early_afterNeighbors :
    (∃ s, run (step repairNode) (start (repairWorld ∅)) verifiedAfterNeighbors = some s ∧
      s.state.drained = true) ∧
    ¬Occurred (step repairNode) (DrainsEarly repairNode) (start (repairWorld ∅))
      verifiedAfterNeighbors := by
  constructor
  · have hrun : (run (step repairNode) (start (repairWorld ∅)) verifiedAfterNeighbors).map
        (fun s => s.state.drained) = some true := by
      decide +kernel
    exact Option.map_eq_some_iff.mp hrun
  · exact never_drains_early (by decide +kernel)

end Transcript

end AntNode
