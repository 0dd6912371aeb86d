import AntNode.Lib.Runs

/-!
# Linearisation points

A concurrent system is compared with a sequential one by naming the steps at which an operation takes
effect. `trace` is what a run does, one operation at its point after the other. Where every step is
either the point of an operation that the sequential system allows, or changes nothing the sequential
system sees, the trace of a run is a run of the sequential system, and it ends in the state that the
run ends in.
-/

namespace Runs

variable {σ ε τ ο : Type*} (step : σ → ε → Option σ) (point : σ → ε → Option ο)

/-- The operations of a run, each at its point. -/
def trace : σ → List ε → List ο
  | _, [] => []
  | s, e :: events =>
      (point s e).toList ++
        match step s e with
        | none => []
        | some s' => trace s' events

variable {step point} {s s' : σ} {events : List ε}

theorem trace_concat {e : ε} (hrun : run step s events = some s') :
    trace step point s (events ++ [e]) = trace step point s events ++ (point s' e).toList := by
  induction events generalizing s with
  | nil =>
      obtain rfl : s = s' := Option.some.inj hrun
      cases hstep : step s e with
      | none => simp [trace, hstep]
      | some next => simp [trace, hstep]
  | cons first events ih =>
      obtain ⟨mid, hmid, hrun⟩ := run_cons_eq_some.mp hrun
      simp only [List.cons_append, trace, hmid, ih hrun, List.append_assoc]

/-- The trace of a run is a run of the sequential system. -/
theorem run_trace {sequential : τ → ο → Option τ} {view : σ → τ} (Inv : List ε → σ → Prop)
    (hinv : ∀ events s', run step s events = some s' → Inv events s')
    (hpoint : ∀ events mid e s', Inv events mid → step mid e = some s' →
      run sequential (view mid) (point mid e).toList = some (view s'))
    (hrun : run step s events = some s') :
    run sequential (view s) (trace step point s events) = some (view s') := by
  refine history_induction (I := fun events s' =>
    run sequential (view s) (trace step point s events) = some (view s')) rfl ?_ hrun
  intro events mid e s' hmid ih hstep
  rw [trace_concat hmid]
  exact run_append_eq_some.mpr ⟨view mid, ih, hpoint events mid e s' (hinv events mid hmid) hstep⟩

theorem trace_eq_filterMap {f : ε → Option ο} (hrun : run step s events = some s') :
    trace step (fun _ e => f e) s events = events.filterMap f := by
  induction events generalizing s with
  | nil => rfl
  | cons e events ih =>
      obtain ⟨mid, hmid, hrun⟩ := run_cons_eq_some.mp hrun
      simp only [trace, hmid, List.filterMap_cons, ih hrun]
      cases f e with
      | none => rfl
      | some op => rfl

/-- A component takes part in some of the events, and the others leave it alone. -/
theorem run_component {component : τ → ο → Option τ} {view : σ → τ} {f : ε → Option ο}
    (hstep : ∀ s e s', step s e = some s' → run component (view s) (f e).toList = some (view s'))
    (hrun : run step s events = some s') :
    run component (view s) (events.filterMap f) = some (view s') := by
  rw [← trace_eq_filterMap hrun]
  exact run_trace (fun _ _ => True) (fun _ _ _ => trivial)
    (fun _ mid e s' _ hmid => hstep mid e s' hmid) hrun

end Runs
