import AntNode.LmdbStorage

/-!
# A resize and the transactions that are open

The safety comment on `env.resize` rests on every transaction being under the shared lock. Six of
the operations keep to that, and `Guarded` checks it on a sequence of steps; `all_keys` and
`get_raw` open their transaction without the lock. So no transaction is open during a resize except
one of these two, and whether one is depends on the schedule alone.
-/

namespace AntNode

def LmdbOperation.takesLock : LmdbOperation → Bool
  | allKeys => false
  | getRaw => false
  | _ => true

/-- Transactions are opened under the shared lock and the map is resized under the exclusive one,
and neither outlives the guard. -/
def Guarded : Option LockMode → Option Txn → Bool → List LmdbStep → Bool
  | _, _, _, [] => true
  | holds, txn, resizing, .acquireShared :: rest =>
      holds = none && Guarded (some .shared) txn resizing rest
  | holds, txn, resizing, .acquireExclusive :: rest =>
      holds = none && Guarded (some .exclusive) txn resizing rest
  | _, txn, resizing, .release :: rest =>
      txn = none && !resizing && Guarded none txn resizing rest
  | holds, _, resizing, .openTxn txn :: rest =>
      holds = some .shared && Guarded holds (some txn) resizing rest
  | holds, _, resizing, .closeTxn :: rest => Guarded holds none resizing rest
  | holds, txn, _, .beginResize :: rest => holds = some .exclusive && Guarded holds txn true rest
  | holds, txn, _, .endResize :: rest => Guarded holds txn false rest

/-- A sequence of steps that leaves the lock and the map alone. -/
def Bare (path : List LmdbStep) : Bool :=
  path.all fun
    | .openTxn _ => true
    | .closeTxn => true
    | _ => false

theorem guarded_of_mem_paths {operation : LmdbOperation} (htakes : operation.takesLock = true)
    {path : List LmdbStep} (hpath : path ∈ operation.paths) : Guarded none none false path = true := by
  have hall : ∀ operation : LmdbOperation, operation.takesLock = true →
      operation.paths.all (Guarded none none false) = true := by
    intro operation htakes
    cases operation <;> first | rfl | cases htakes
  exact List.all_eq_true.mp (hall operation htakes) path hpath

theorem bare_of_mem_paths {operation : LmdbOperation} (hbare : operation.takesLock = false)
    {path : List LmdbStep} (hpath : path ∈ operation.paths) : Bare path = true := by
  have hall : ∀ operation : LmdbOperation, operation.takesLock = false →
      operation.paths.all Bare = true := by
    intro operation hbare
    cases operation <;> first | rfl | cases hbare
  exact List.all_eq_true.mp (hall operation hbare) path hpath

/-! ### Each task and its hold on the lock -/

structure TaskOk (holds : Option LockMode) (task : LmdbTask) : Prop where
  txn : task.operation.takesLock = true → task.txn ≠ none → holds = some .shared
  resizing : task.resizing = true → holds = some .exclusive
  guarded : task.operation.takesLock = true →
    Guarded holds task.txn task.resizing task.rest = true
  bare : task.operation.takesLock = false → Bare task.rest = true

section Perform

variable {envLock envLock' : RwLock Nat} {id other : Nat} {task task' : LmdbTask}
  {next : LmdbStep} {rest : List LmdbStep}

theorem perform_holds_of_ne
    (hperform : LmdbState.perform envLock id task next = some (envLock', task'))
    (hne : other ≠ id) : envLock'.holds other = envLock.holds other := by
  cases next with
  | acquireShared =>
      obtain ⟨lock, hread, heq⟩ := Option.map_eq_some_iff.mp hperform
      cases heq
      rw [RwLock.holds_read hread, if_neg hne]
  | acquireExclusive =>
      obtain ⟨lock, hwrite, heq⟩ := Option.map_eq_some_iff.mp hperform
      cases heq
      obtain ⟨hbefore, hafter⟩ := RwLock.holds_write (j := other) hwrite
      rw [hbefore, hafter, if_neg hne]
  | release =>
      cases hperform
      rw [RwLock.holds_unlock, if_neg hne]
  | openTxn | closeTxn | beginResize | endResize => cases hperform; rfl

theorem taskOk_perform (hok : TaskOk (envLock.holds id) task) (hrest : task.rest = next :: rest)
    (hperform : LmdbState.perform envLock id { task with rest := rest } next =
      some (envLock', task')) : TaskOk (envLock'.holds id) task' := by
  obtain ⟨operation, _, txn, resizing⟩ := task
  obtain rfl : _ = next :: rest := hrest
  obtain ⟨htxn, hresizing, hguarded, hbare⟩ := hok
  simp only at htxn hresizing hguarded hbare hperform
  cases next with
  | acquireShared =>
      obtain ⟨lock, hread, heq⟩ := Option.map_eq_some_iff.mp hperform
      cases heq
      cases htakes : operation.takesLock with
      | true =>
          simp [Guarded, htakes] at hguarded
          simp [hguarded.1] at hresizing
          rw [RwLock.holds_read hread, if_pos rfl]
          exact ⟨fun _ _ => rfl, by simp [hresizing], fun _ => hguarded.2, by simp [htakes]⟩
      | false => simp [Bare, htakes] at hbare
  | acquireExclusive =>
      obtain ⟨lock, hwrite, heq⟩ := Option.map_eq_some_iff.mp hperform
      cases heq
      cases htakes : operation.takesLock with
      | true =>
          simp [Guarded, htakes] at hguarded
          simp [hguarded.1, htakes] at htxn
          rw [(RwLock.holds_write hwrite).2, if_pos rfl]
          exact ⟨by simp [htxn], fun _ => rfl, fun _ => hguarded.2, by simp [htakes]⟩
      | false => simp [Bare, htakes] at hbare
  | release =>
      cases hperform
      cases htakes : operation.takesLock with
      | true =>
          simp [Guarded, htakes] at hguarded
          rw [RwLock.holds_unlock, if_pos rfl]
          exact ⟨by simp [hguarded.1.1], by simp [hguarded.1.2], fun _ => hguarded.2,
            by simp [htakes]⟩
      | false => simp [Bare, htakes] at hbare
  | openTxn opened =>
      cases hperform
      refine ⟨fun htakes _ => ?_, hresizing, fun htakes => ?_, fun htakes => ?_⟩
      · simp [Guarded, htakes] at hguarded
        exact hguarded.1
      · simp [Guarded, htakes] at hguarded
        exact hguarded.2
      · simpa [Bare, htakes] using hbare
  | closeTxn =>
      cases hperform
      refine ⟨by simp, hresizing, fun htakes => ?_, fun htakes => ?_⟩
      · simpa [Guarded, htakes] using hguarded
      · simpa [Bare, htakes] using hbare
  | beginResize =>
      cases hperform
      cases htakes : operation.takesLock with
      | true =>
          simp [Guarded, htakes] at hguarded
          exact ⟨htxn, fun _ => hguarded.1, fun _ => hguarded.2, by simp [htakes]⟩
      | false => simp [Bare, htakes] at hbare
  | endResize =>
      cases hperform
      refine ⟨htxn, by simp, fun htakes => ?_, fun htakes => ?_⟩
      · simpa [Guarded, htakes] using hguarded
      · simp [Bare, htakes] at hbare

end Perform

/-! ### The whole store -/

namespace LmdbState

variable {s s' : LmdbState} {e : LmdbEvent}

structure Inv (s : LmdbState) : Prop where
  idle : ∀ id, s.tasks id = none → s.envLock.holds id = none
  tasks : ∀ id task, s.tasks id = some task → TaskOk (s.envLock.holds id) task

/-- `env.resize` is being executed. -/
def Resizing (s : LmdbState) : Prop := ∃ id task, s.tasks id = some task ∧ task.resizing = true

/-- A transaction that was opened without the lock is open. -/
def BareTxn (s : LmdbState) : Prop :=
  ∃ id task, s.tasks id = some task ∧ task.operation.takesLock = false ∧ task.txn ≠ none

/-- No transaction is open while `env.resize` is being executed. -/
def Safe (s : LmdbState) : Prop :=
  s.Resizing → ∀ id task, s.tasks id = some task → task.txn = none

/-- No transaction is opened without the lock during a resize, and no resize is started while such a
transaction is open. -/
def Orderly (s : LmdbState) : LmdbEvent → Prop
  | .call _ _ _ => True
  | .advance id => ∀ task next rest, s.tasks id = some task → task.rest = next :: rest →
      (task.operation.takesLock = false → (∃ txn, next = .openTxn txn) → ¬s.Resizing) ∧
        (next = .beginResize → ¬s.BareTxn)

theorem step_cases (hstep : s.step e = some s') :
    (∃ id operation path, e = .call id operation path ∧ s.tasks id = none ∧
      path ∈ operation.paths ∧
      s' = { s with tasks := Function.update s.tasks id (some ⟨operation, path, none, false⟩) }) ∨
    ∃ id task next rest envLock task', e = .advance id ∧ s.tasks id = some task ∧
      task.rest = next :: rest ∧
      perform s.envLock id { task with rest := rest } next = some (envLock, task') ∧
      s' = ⟨envLock, Function.update s.tasks id (some task')⟩ := by
  cases e with
  | call id operation path =>
      simp only [step] at hstep
      split_ifs at hstep with hcall
      obtain rfl := Option.some.inj hstep
      exact .inl ⟨id, operation, path, rfl, hcall.1, hcall.2, rfl⟩
  | advance id =>
      simp only [step] at hstep
      cases htask : s.tasks id with
      | none => simp [htask] at hstep
      | some task =>
          cases hrest : task.rest with
          | nil => simp [htask, hrest] at hstep
          | cons next rest =>
              simp only [htask, hrest] at hstep
              obtain ⟨⟨envLock, task'⟩, hperform, rfl⟩ := Option.map_eq_some_iff.mp hstep
              exact .inr ⟨id, task, next, rest, envLock, task', rfl, htask, hrest, hperform, rfl⟩

theorem inv_new : new.Inv where
  idle := fun _ _ => RwLock.holds_unlocked
  tasks := fun _ _ htask => nomatch htask

theorem Inv.update {envLock : RwLock Nat} {id : Nat} {task : LmdbTask} (hinv : s.Inv)
    (hothers : ∀ other, other ≠ id → envLock.holds other = s.envLock.holds other)
    (hok : TaskOk (envLock.holds id) task) :
    Inv ⟨envLock, Function.update s.tasks id (some task)⟩ := by
  constructor
  · intro other (hother : Function.update s.tasks id (some task) other = none)
    by_cases heq : other = id
    · rw [heq, Function.update_self] at hother
      cases hother
    · rw [Function.update_of_ne heq] at hother
      exact (hothers other heq).trans (hinv.idle other hother)
  · intro other task' (hother : Function.update s.tasks id (some task) other = some task')
    by_cases heq : other = id
    · rw [heq, Function.update_self] at hother
      obtain rfl := Option.some.inj hother
      rwa [heq]
    · rw [Function.update_of_ne heq] at hother
      rw [hothers other heq]
      exact hinv.tasks other task' hother

theorem inv_step (hinv : s.Inv) (hstep : s.step e = some s') : s'.Inv := by
  rcases step_cases hstep with ⟨id, operation, path, rfl, hfree, hpath, rfl⟩ |
    ⟨id, task, next, rest, envLock, task', rfl, htask, hrest, hperform, rfl⟩
  · apply hinv.update fun _ _ => rfl
    rw [hinv.idle id hfree]
    exact ⟨fun _ hopen => absurd rfl hopen, nofun,
      fun htakes => guarded_of_mem_paths htakes hpath, fun hbare => bare_of_mem_paths hbare hpath⟩
  · apply hinv.update fun other hne => perform_holds_of_ne hperform hne
    exact taskOk_perform (hinv.tasks id task htask) hrest hperform

/-- The lock keeps every other transaction out. -/
theorem safe_iff (hinv : s.Inv) : s.Safe ↔ ¬(s.Resizing ∧ s.BareTxn) := by
  constructor
  · rintro hsafe ⟨hresizing, id, task, htask, -, hopen⟩
    exact hopen (hsafe hresizing id task htask)
  · rintro hdisjoint ⟨resizer, resizeTask, hresizer, hresizing⟩ id task htask
    by_contra hopen
    cases htakes : task.operation.takesLock with
    | false => exact hdisjoint ⟨⟨resizer, resizeTask, hresizer, hresizing⟩,
        id, task, htask, htakes, hopen⟩
    | true =>
        have hshared := (hinv.tasks id task htask).txn htakes hopen
        have hexclusive := (hinv.tasks resizer resizeTask hresizer).resizing hresizing
        by_cases heq : id = resizer
        · rw [heq, hexclusive] at hshared
          cases hshared
        · rw [RwLock.holds_eq_none_of_exclusive hexclusive heq] at hshared
          cases hshared

/-! ### Which steps make a resize and a bare transaction meet -/

theorem perform_effect {envLock envLock' : RwLock Nat} {id : Nat} {task task' : LmdbTask}
    {next : LmdbStep} (hperform : perform envLock id task next = some (envLock', task')) :
    task'.operation = task.operation ∧
      (task'.resizing = true → task.resizing = true ∨ next = .beginResize) ∧
      (task'.txn ≠ none → task.txn ≠ none ∨ ∃ txn, next = .openTxn txn) := by
  cases next with
  | acquireShared | acquireExclusive =>
      obtain ⟨lock, -, heq⟩ := Option.map_eq_some_iff.mp hperform
      cases heq
      exact ⟨rfl, .inl, .inl⟩
  | release => cases hperform; exact ⟨rfl, .inl, .inl⟩
  | openTxn txn => cases hperform; exact ⟨rfl, .inl, fun _ => .inr ⟨txn, rfl⟩⟩
  | closeTxn => cases hperform; exact ⟨rfl, .inl, fun hopen => absurd rfl hopen⟩
  | beginResize => cases hperform; exact ⟨rfl, fun _ => .inr rfl, .inl⟩
  | endResize => cases hperform; exact ⟨rfl, nofun, .inl⟩

section Update

variable {envLock : RwLock Nat} {id : Nat} {task : LmdbTask}

/-- What holds of some task after an update holds of one before it, or of the updated one. -/
theorem exists_task_of_update {P : LmdbTask → Prop}
    (hexists : ∃ other task', Function.update s.tasks id (some task) other = some task' ∧ P task') :
    (∃ other task', s.tasks other = some task' ∧ P task') ∨ P task := by
  obtain ⟨other, task', hother, hP⟩ := hexists
  by_cases heq : other = id
  · rw [heq, Function.update_self] at hother
    obtain rfl := Option.some.inj hother
    exact .inr hP
  · rw [Function.update_of_ne heq] at hother
    exact .inl ⟨other, task', hother, hP⟩

theorem exists_task_update {P : LmdbTask → Prop}
    (hexists : ∃ other task', s.tasks other = some task' ∧ P task')
    (hkeeps : ∀ old, s.tasks id = some old → P old → P task) :
    ∃ other task', Function.update s.tasks id (some task) other = some task' ∧ P task' := by
  obtain ⟨other, task', hother, hP⟩ := hexists
  by_cases heq : other = id
  · exact ⟨id, task, Function.update_self .., hkeeps task' (heq ▸ hother) hP⟩
  · exact ⟨other, task', by rwa [Function.update_of_ne heq], hP⟩

end Update

theorem not_meet_step_iff (hapart : ¬(s.Resizing ∧ s.BareTxn)) (hstep : s.step e = some s') :
    ¬(s'.Resizing ∧ s'.BareTxn) ↔ s.Orderly e := by
  rcases step_cases hstep with ⟨id, operation, path, rfl, hfree, hpath, rfl⟩ |
    ⟨id, task, next, rest, envLock, task', rfl, htask, hrest, hperform, rfl⟩
  · refine iff_of_true ?_ trivial
    rintro ⟨hresizing, hbare⟩
    obtain hresizing | hnew := exists_task_of_update hresizing
    · obtain hbare | hnew := exists_task_of_update hbare
      · exact hapart ⟨hresizing, hbare⟩
      · exact hnew.2 rfl
    · cases hnew
  · obtain ⟨hoperation, hresizes, hopens⟩ := perform_effect hperform
    constructor
    · intro hnot task₀ next₀ rest₀ htask₀ hrest₀
      obtain rfl : task = task₀ := Option.some.inj (htask.symm.trans htask₀)
      obtain ⟨rfl, rfl⟩ := List.cons.inj (hrest.symm.trans hrest₀)
      constructor
      · rintro hskips ⟨txn, rfl⟩ hresizing
        cases hperform
        apply hnot
        constructor
        · apply exists_task_update hresizing
          intro old hold hresizing
          obtain rfl : task = old := Option.some.inj (htask.symm.trans hold)
          exact hresizing
        · exact ⟨id, _, Function.update_self .., hskips, by simp⟩
      · rintro rfl hbare
        cases hperform
        apply hnot
        constructor
        · exact ⟨id, _, Function.update_self .., rfl⟩
        · apply exists_task_update hbare
          intro old hold hbare
          obtain rfl : task = old := Option.some.inj (htask.symm.trans hold)
          exact hbare
    · rintro horderly ⟨hresizing, hbare⟩
      obtain ⟨hopen, hresize⟩ := horderly task next rest htask hrest
      have hresizing' : s.Resizing ∨ next = .beginResize := by
        obtain hresizing | hnew := exists_task_of_update hresizing
        · exact .inl hresizing
        · exact (hresizes hnew).imp_left fun hold => ⟨id, task, htask, hold⟩
      have hbare' : s.BareTxn ∨
          task.operation.takesLock = false ∧ ∃ txn, next = .openTxn txn := by
        obtain hbare | ⟨hskips, hnew⟩ := exists_task_of_update hbare
        · exact .inl hbare
        · rw [hoperation] at hskips
          exact (hopens hnew).imp (fun hold => ⟨id, task, htask, hskips, hold⟩)
            fun hopened => ⟨hskips, hopened⟩
      obtain hresizing | rfl := hresizing'
      · obtain hbare | ⟨hskips, hopened⟩ := hbare'
        · exact hapart ⟨hresizing, hbare⟩
        · exact hopen hskips hopened hresizing
      · obtain hbare | ⟨-, txn, hopened⟩ := hbare'
        · exact hresize rfl hbare
        · cases hopened

/-- In a run of any operations in any interleaving, no transaction is open in any state in which
`env.resize` is being executed, exactly when no `all_keys` or `get_raw` opens its transaction during
a resize and no resize starts while one of them has it open. -/
theorem safe_iff_orderly {events : List LmdbEvent} (hrun : Runs.run step new events = some s) :
    (∀ before mid, before <+: events → Runs.run step new before = some mid → mid.Safe) ↔
      Runs.Along step Orderly new events := by
  apply Runs.forall_prefix_iff_along Inv fun s e s' hinv hstep => inv_step hinv hstep
  · intro s e s' hinv hsafe hstep
    rw [safe_iff (inv_step hinv hstep)]
    exact not_meet_step_iff ((safe_iff hinv).mp hsafe) hstep
  · exact inv_new
  · rintro ⟨id, task, htask, -⟩
    cases htask
  · exact hrun

open LmdbStep in
/-- A `put` that finds the map full, resizes it and writes again. -/
def growingPut : List LmdbStep :=
  [acquireShared, openTxn .read, closeTxn, release, acquireShared, openTxn .write, closeTxn, release,
    acquireExclusive, beginResize, endResize, release, acquireShared, openTxn .write, closeTxn,
    release]

theorem safe_iff_orderly_growingPut :
    ∃ s, Runs.run step new (.call 0 .put growingPut :: List.replicate 16 (.advance 0)) = some s ∧
      ((∀ before mid, before <+: .call 0 .put growingPut :: List.replicate 16 (.advance 0) →
          Runs.run step new before = some mid → mid.Safe) ↔
        Runs.Along step Orderly new
          (.call 0 .put growingPut :: List.replicate 16 (.advance 0))) := by
  obtain ⟨s, hrun⟩ := Option.isSome_iff_exists.mp (by decide :
    (Runs.run step new (.call 0 .put growingPut :: List.replicate 16 (.advance 0))).isSome = true)
  exact ⟨s, hrun, safe_iff_orderly hrun⟩

/-- `all_keys` is scanning when a full map makes a `put` resize it. -/
def scanAndGrow : List LmdbEvent :=
  .call 0 .allKeys [.openTxn .read, .closeTxn] :: .advance 0 ::
    .call 1 .put growingPut :: List.replicate 10 (.advance 1)

theorem resize_during_scan :
    ¬∀ events s, Runs.run step new events = some s → s.Safe := by
  intro hsafe
  obtain ⟨s, hrun⟩ := Option.isSome_iff_exists.mp (by decide :
    (Runs.run step new scanAndGrow).isSome = true)
  have hscan : ((Runs.run step new scanAndGrow).bind fun s => s.tasks 0) =
      some ⟨.allKeys, [.closeTxn], some .read, false⟩ := by decide
  have hgrow : ((Runs.run step new scanAndGrow).bind fun s => s.tasks 1) =
      some ⟨.put, growingPut.drop 10, none, true⟩ := by decide
  rw [hrun] at hscan hgrow
  cases hsafe scanAndGrow s hrun ⟨1, _, hgrow, rfl⟩ 0 _ hscan

/-! ### Runs without the two scans -/

def Locked (s : LmdbState) : Prop :=
  ∀ id task, s.tasks id = some task → task.operation.takesLock = true

def TakesLock (_ : LmdbState) : LmdbEvent → Prop
  | .call _ operation _ => operation.takesLock = true
  | .advance _ => True

theorem locked_step (hlocked : s.Locked) (htakes : s.TakesLock e) (hstep : s.step e = some s') :
    s'.Locked := by
  rcases step_cases hstep with ⟨id, operation, path, rfl, hfree, hpath, rfl⟩ |
    ⟨id, task, next, rest, envLock, task', rfl, htask, hrest, hperform, rfl⟩
  · intro other task hother
    obtain ⟨other, old, hold, heq⟩ | heq :=
      exists_task_of_update (P := (· = task)) ⟨other, task, hother, rfl⟩
    · exact heq ▸ hlocked other old hold
    · exact heq ▸ htakes
  · intro other task₀ hother
    obtain ⟨other, old, hold, heq⟩ | heq :=
      exists_task_of_update (P := (· = task₀)) ⟨other, task₀, hother, rfl⟩
    · exact heq ▸ hlocked other old hold
    · rw [← heq, (perform_effect hperform).1]
      exact hlocked id task htask

theorem locked_new : new.Locked := fun _ _ htask => nomatch htask

/-- The operations that take the lock never have a transaction open during a resize. -/
theorem safe_of_takesLock {events : List LmdbEvent}
    (htakes : ∀ e ∈ events, ∀ s : LmdbState, s.TakesLock e)
    (hrun : Runs.run step new events = some s) : s.Safe := by
  have hinv : s.Inv :=
    Runs.stable_of_run Inv (fun s e s' hinv hstep => inv_step hinv hstep) inv_new hrun
  have hlocked : s.Locked :=
    Runs.invariant_of_run (fun s e s' => locked_step) locked_new (Runs.along_of_forall htakes) hrun
  rw [safe_iff hinv]
  rintro ⟨-, id, task, htask, hskips, -⟩
  rw [hlocked id task htask] at hskips
  cases hskips

end LmdbState

end AntNode
