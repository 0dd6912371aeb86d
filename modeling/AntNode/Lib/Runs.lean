import Mathlib.Data.List.Induction
import Mathlib.Data.Option.Basic

/-!
# Runs of a partial step function

A system is a step function that may refuse an event, and a run is a list of events it accepts one
after the other. `Along` says that every step of a run meets a condition on the state it is taken
in, and can be evaluated where the condition can; an invariant that the steps meeting the condition
preserve holds after every such run. `Occurred` says that some step of a run met a condition, and
`Since` that none met another one after it; `history_induction` proves what holds of a state and the
events that led to it.
-/

namespace Runs

variable {σ ε : Type*} (step : σ → ε → Option σ)

def run : σ → List ε → Option σ
  | s, [] => some s
  | s, e :: events => (step s e).bind fun s' => run s' events

/-- Every step of the run meets `ok`. -/
def Along (ok : σ → ε → Prop) : σ → List ε → Prop
  | _, [] => True
  | s, e :: events => ok s e ∧ ∀ s', step s e = some s' → Along ok s' events

/-- Some step of the run meets `P`. -/
def Occurred (P : σ → ε → Prop) (s : σ) (events : List ε) : Prop :=
  ∃ before e after mid, events = before ++ e :: after ∧ run step s before = some mid ∧ P mid e

/-- Some step of the run meets `P`, and none after it meets `Q`. -/
def Since (P Q : σ → ε → Prop) (s : σ) (events : List ε) : Prop :=
  ∃ before e after mid, events = before ++ e :: after ∧ run step s before = some mid ∧ P mid e ∧
    ∀ next, step mid e = some next → Along step (fun s e => ¬Q s e) next after

variable {step} {ok : σ → ε → Prop} {Inv : σ → Prop} {s s' : σ} {events : List ε}

theorem run_cons_eq_some {e : ε} :
    run step s (e :: events) = some s' ↔
      ∃ mid, step s e = some mid ∧ run step mid events = some s' :=
  Option.bind_eq_some_iff

theorem along_of_forall (hok : ∀ e ∈ events, ∀ s, ok s e) : Along step ok s events := by
  induction events generalizing s with
  | nil => trivial
  | cons e events ih =>
      exact ⟨hok e (by simp) s, fun s' _ => ih fun e he => hok e (by simp [he])⟩

instance decidableAlong [∀ s e, Decidable (ok s e)] :
    ∀ s events, Decidable (Along step ok s events)
  | _, [] => .isTrue trivial
  | s, e :: events =>
      match hstep : step s e with
      | none => decidable_of_iff (ok s e)
          ⟨fun hok => ⟨hok, fun s' hs' => by rw [hstep] at hs'; cases hs'⟩, And.left⟩
      | some s' =>
          have := decidableAlong s' events
          decidable_of_iff (ok s e ∧ Along step ok s' events)
            ⟨fun h => ⟨h.1, fun mid hmid => by rw [hstep] at hmid; cases hmid; exact h.2⟩,
              fun h => ⟨h.1, h.2 s' hstep⟩⟩

theorem Along.append {later : List ε} (halong : Along step ok s events)
    (hlater : ∀ s', run step s events = some s' → Along step ok s' later) :
    Along step ok s (events ++ later) := by
  induction events generalizing s with
  | nil => exact hlater s rfl
  | cons first events ih =>
      refine ⟨halong.1, fun mid hmid => ih (halong.2 mid hmid) fun s' hrun => ?_⟩
      exact hlater s' (run_cons_eq_some.mpr ⟨mid, hmid, hrun⟩)

theorem Along.concat {e : ε} (halong : Along step ok s events)
    (hlast : ∀ s', run step s events = some s' → ok s' e) : Along step ok s (events ++ [e]) :=
  halong.append fun s' hrun => ⟨hlast s' hrun, fun _ _ => trivial⟩

theorem Along.left {later : List ε} (halong : Along step ok s (events ++ later)) :
    Along step ok s events := by
  induction events generalizing s with
  | nil => trivial
  | cons e events ih => exact ⟨halong.1, fun s' hs' => ih (halong.2 s' hs')⟩

theorem Along.right {later : List ε} (halong : Along step ok s (events ++ later))
    (hrun : run step s events = some s') : Along step ok s' later := by
  induction events generalizing s with
  | nil =>
      obtain rfl : s = s' := Option.some.inj hrun
      exact halong
  | cons e events ih =>
      obtain ⟨mid, hmid, hrun⟩ := run_cons_eq_some.mp hrun
      exact ih (halong.2 mid hmid) hrun

theorem Along.split {e : ε} {later : List ε} (halong : Along step ok s (events ++ e :: later))
    (hrun : run step s events = some s') : Along step ok s events ∧ ok s' e :=
  ⟨halong.left, (halong.right hrun).1⟩

theorem invariant_of_run
    (hstep : ∀ s e s', Inv s → ok s e → step s e = some s' → Inv s')
    (hinv : Inv s) (hok : Along step ok s events) (hrun : run step s events = some s') :
    Inv s' := by
  induction events generalizing s with
  | nil =>
      obtain rfl : s = s' := Option.some.inj hrun
      exact hinv
  | cons e events ih =>
      obtain ⟨mid, hmid, hrun⟩ := run_cons_eq_some.mp hrun
      exact ih (hstep s e mid hinv hok.1 hmid) (hok.2 mid hmid) hrun

theorem stable_of_run (Inv : σ → Prop) (hstep : ∀ s e s', Inv s → step s e = some s' → Inv s')
    (hinv : Inv s) (hrun : run step s events = some s') : Inv s' :=
  invariant_of_run (fun s e s' hinv _ hs => hstep s e s' hinv hs) hinv
    (along_of_forall fun _ _ _ => trivial) hrun

theorem run_append_eq_some {later : List ε} :
    run step s (events ++ later) = some s' ↔
      ∃ mid, run step s events = some mid ∧ run step mid later = some s' := by
  induction events generalizing s with
  | nil => simp [run]
  | cons e events ih =>
      rw [List.cons_append, run_cons_eq_some]
      simp only [ih, run_cons_eq_some]
      constructor
      · rintro ⟨first, hfirst, mid, hmid, hlater⟩
        exact ⟨mid, ⟨first, hfirst, hmid⟩, hlater⟩
      · rintro ⟨mid, ⟨first, hfirst, hmid⟩, hlater⟩
        exact ⟨first, hfirst, mid, hmid, hlater⟩

theorem run_concat_eq_some {e : ε} :
    run step s (events ++ [e]) = some s' ↔
      ∃ mid, run step s events = some mid ∧ step mid e = some s' := by
  simp [run_append_eq_some, run]

/-- Where a step keeps a safe state safe exactly when it meets the condition, a run passes through
safe states only exactly when all its steps meet it. -/
theorem forall_prefix_iff_along {Safe : σ → Prop} (Inv : σ → Prop)
    (hinv : ∀ s e s', Inv s → step s e = some s' → Inv s')
    (hsafe : ∀ s e s', Inv s → Safe s → step s e = some s' → (Safe s' ↔ ok s e))
    (hinit : Inv s) (hsafeInit : Safe s) (hrun : run step s events = some s') :
    (∀ before mid, before <+: events → run step s before = some mid → Safe mid) ↔
      Along step ok s events := by
  induction events generalizing s with
  | nil =>
      refine iff_of_true (fun before mid hprefix hmid => ?_) trivial
      obtain rfl := List.prefix_nil.mp hprefix
      obtain rfl : s = mid := Option.some.inj hmid
      exact hsafeInit
  | cons e events ih =>
      obtain ⟨next, hnext, hlater⟩ := run_cons_eq_some.mp hrun
      have hrest := ih (hinv s e next hinit hnext)
      have hkeeps := hsafe s e next hinit hsafeInit hnext
      constructor
      · intro hprefix
        have hsafeNext : Safe next :=
          hprefix [e] next (by simp) (run_cons_eq_some.mpr ⟨next, hnext, rfl⟩)
        refine ⟨hkeeps.mp hsafeNext, fun next' hnext' => ?_⟩
        obtain rfl : next = next' := Option.some.inj (hnext.symm.trans hnext')
        apply (hrest hsafeNext hlater).mp
        intro before mid hbefore hmid
        exact hprefix (e :: before) mid (List.cons_prefix_cons.mpr ⟨rfl, hbefore⟩)
          (run_cons_eq_some.mpr ⟨next, hnext, hmid⟩)
      · rintro ⟨hok, halong⟩ before mid hbefore hmid
        cases before with
        | nil =>
            obtain rfl : s = mid := Option.some.inj hmid
            exact hsafeInit
        | cons e' before =>
            obtain ⟨rfl, htail⟩ := List.cons_prefix_cons.mp hbefore
            obtain ⟨next', hnext', hmid⟩ := run_cons_eq_some.mp hmid
            obtain rfl : next = next' := Option.some.inj (hnext.symm.trans hnext')
            exact (hrest (hkeeps.mpr hok) hlater).mpr (halong next hnext) before mid htail hmid

theorem history_induction {I : List ε → σ → Prop} (hnil : I [] s)
    (hstep : ∀ events mid e s', run step s events = some mid → I events mid →
      step mid e = some s' → I (events ++ [e]) s')
    (hrun : run step s events = some s') : I events s' := by
  induction events using List.reverseRecOn generalizing s' with
  | nil =>
      obtain rfl : s = s' := Option.some.inj hrun
      exact hnil
  | append_singleton events e ih =>
      obtain ⟨mid, hmid, hlast⟩ := run_concat_eq_some.mp hrun
      exact hstep events mid e s' hmid (ih hmid) hlast

variable {P Q : σ → ε → Prop}

theorem Occurred.concat (hoccurred : Occurred step P s events) (e : ε) :
    Occurred step P s (events ++ [e]) := by
  obtain ⟨before, first, after, mid, rfl, hmid, hP⟩ := hoccurred
  exact ⟨before, first, after ++ [e], mid, by simp, hmid, hP⟩

theorem occurred_concat_self {e : ε} (hrun : run step s events = some s') (hP : P s' e) :
    Occurred step P s (events ++ [e]) :=
  ⟨events, e, [], s', rfl, hrun, hP⟩

theorem occurred_concat_iff {e : ε} (hrun : run step s events = some s') :
    Occurred step P s (events ++ [e]) ↔ Occurred step P s events ∨ P s' e := by
  constructor
  · rintro ⟨before, first, after, mid, heq, hmid, hP⟩
    rcases List.eq_nil_or_concat after with rfl | ⟨after, last, rfl⟩
    · obtain ⟨rfl, hlast⟩ := List.append_inj' heq rfl
      obtain rfl : e = first := (List.cons.inj hlast).1
      obtain rfl : s' = mid := Option.some.inj (hrun.symm.trans hmid)
      exact .inr hP
    · have heq : events ++ [e] = (before ++ first :: after) ++ [last] := by simpa using heq
      exact .inl ⟨before, first, after, mid, (List.append_inj' heq rfl).1, hmid, hP⟩
  · rintro (hoccurred | hP)
    · exact hoccurred.concat e
    · exact occurred_concat_self hrun hP

theorem Occurred.append (hoccurred : Occurred step P s events) (later : List ε) :
    Occurred step P s (events ++ later) := by
  obtain ⟨before, e, after, mid, rfl, hmid, hP⟩ := hoccurred
  exact ⟨before, e, after ++ later, mid, by simp, hmid, hP⟩

theorem Occurred.split {later : List ε} {mid : σ}
    (hoccurred : Occurred step P s (events ++ later)) (hmid : run step s events = some mid) :
    Occurred step P s events ∨ Occurred step P mid later := by
  induction later using List.reverseRecOn generalizing P with
  | nil => exact .inl (by simpa using hoccurred)
  | append_singleton later e ih =>
      obtain ⟨before, first, after, state, heq, hstate, hP⟩ := hoccurred
      rcases List.eq_nil_or_concat after with rfl | ⟨after, last, rfl⟩
      · have heq : events ++ later ++ [e] = before ++ [first] := by simpa using heq
        obtain ⟨rfl, hlast⟩ := List.append_inj' heq rfl
        obtain rfl : e = first := (List.cons.inj hlast).1
        obtain ⟨mid', hmid', hlater⟩ := run_append_eq_some.mp hstate
        obtain rfl : mid = mid' := Option.some.inj (hmid.symm.trans hmid')
        exact .inr (occurred_concat_self hlater hP)
      · have heq : events ++ later ++ [e] = (before ++ first :: after) ++ [last] := by
          simpa using heq
        have hinit := (List.append_inj' heq rfl).1
        rcases ih ⟨before, first, after, state, hinit, hstate, hP⟩ with hold | hnew
        · exact .inl hold
        · exact .inr (hnew.concat e)

/-- A step of a finished run, with the state it leads to. -/
theorem Occurred.exists_step (hoccurred : Occurred step P s events)
    (hrun : run step s events = some s') :
    ∃ mid e next after, P mid e ∧ step mid e = some next ∧ run step next after = some s' := by
  obtain ⟨before, e, after, mid, rfl, hmid, hP⟩ := hoccurred
  obtain ⟨mid', hmid', hafter⟩ := run_append_eq_some.mp hrun
  obtain rfl : mid = mid' := Option.some.inj (hmid.symm.trans hmid')
  obtain ⟨next, hnext, hafter⟩ := run_cons_eq_some.mp hafter
  exact ⟨mid, e, next, after, hP, hnext, hafter⟩

theorem Occurred.mono (hPQ : ∀ s e, P s e → Q s e) (hoccurred : Occurred step P s events) :
    Occurred step Q s events := by
  obtain ⟨before, e, after, mid, heq, hmid, hP⟩ := hoccurred
  exact ⟨before, e, after, mid, heq, hmid, hPQ mid e hP⟩

theorem Since.mono {P' : σ → ε → Prop} (hPP' : ∀ s e, P s e → P' s e)
    (hsince : Since step P Q s events) : Since step P' Q s events := by
  obtain ⟨before, e, after, mid, heq, hmid, hP, hafter⟩ := hsince
  exact ⟨before, e, after, mid, heq, hmid, hPP' mid e hP, hafter⟩

theorem since_concat_iff {e : ε} (hrun : run step s events = some s') :
    Since step P Q s (events ++ [e]) ↔ P s' e ∨ Since step P Q s events ∧ ¬Q s' e := by
  constructor
  · rintro ⟨before, first, after, mid, heq, hmid, hP, hafter⟩
    rcases List.eq_nil_or_concat after with rfl | ⟨after, last, rfl⟩
    · obtain ⟨rfl, hlast⟩ := List.append_inj' heq rfl
      obtain rfl : e = first := (List.cons.inj hlast).1
      obtain rfl : s' = mid := Option.some.inj (hrun.symm.trans hmid)
      exact .inl hP
    · have heq : events ++ [e] = (before ++ first :: after) ++ [last] := by simpa using heq
      obtain ⟨rfl, hlast⟩ := List.append_inj' heq rfl
      obtain rfl : e = last := (List.cons.inj hlast).1
      obtain ⟨mid', hmid', hrest⟩ := run_append_eq_some.mp hrun
      obtain rfl : mid = mid' := Option.some.inj (hmid.symm.trans hmid')
      obtain ⟨next, hnext, hrest⟩ := run_cons_eq_some.mp hrest
      rw [List.concat_eq_append] at hafter
      refine .inr ⟨⟨before, first, after, mid, rfl, hmid, hP, fun other hother => ?_⟩, ?_⟩
      · exact (hafter other hother).left
      · exact ((hafter next hnext).split hrest).2
  · rintro (hP | ⟨⟨before, first, after, mid, rfl, hmid, hP, hafter⟩, hQ⟩)
    · exact ⟨events, e, [], s', rfl, hrun, hP, fun _ _ => trivial⟩
    · refine ⟨before, first, after ++ [e], mid, by simp, hmid, hP, fun next hnext => ?_⟩
      refine (hafter next hnext).concat fun last hlast => ?_
      have hlast' : run step s (before ++ first :: after) = some last :=
        run_append_eq_some.mpr ⟨mid, hmid, run_cons_eq_some.mpr ⟨next, hnext, hlast⟩⟩
      obtain rfl : s' = last := Option.some.inj (hrun.symm.trans hlast')
      exact hQ

end Runs
