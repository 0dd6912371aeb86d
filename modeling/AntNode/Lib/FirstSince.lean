import AntNode.Lib.Runs

/-!
# The first write since the last reset

A cell that every event either resets, fills if it is empty, or leaves alone holds the value of the
earliest write that no reset has followed.
-/

namespace FirstSince

variable {σ ε α : Type*} (Writes : ε → α → Prop) (Resets : ε → Prop)

/-- The event after `before` writes `a`, and no later one resets the cell. -/
def Surviving (events before : List ε) (a : α) : Prop :=
  ∃ e after, events = before ++ e :: after ∧ Writes e a ∧ ∀ later ∈ after, ¬ Resets later

/-- The write after `before` survives, and none before it does. -/
def Earliest (events before : List ε) (a : α) : Prop :=
  Surviving Writes Resets events before a ∧
    ∀ other b, Surviving Writes Resets events other b → before.length ≤ other.length

/-- What one event does to the cell. -/
inductive CellStep (e : ε) (old new : Option α) : Prop where
  | reset (he : Resets e) (hnew : new = none)
  | write (a : α) (he : ¬ Resets e) (hwrites : Writes e a) (hnew : new = some (old.getD a))
  | keep (he : ¬ Resets e) (hno : ∀ a, ¬ Writes e a) (hnew : new = old)

/-- The cell is empty when no write survives, and else holds the earliest that does. -/
def Holds (events : List ε) : Option α → Prop
  | none => ∀ before a, ¬ Surviving Writes Resets events before a
  | some a => ∃ before, Earliest Writes Resets events before a

variable {Writes Resets} {events before other : List ε} {a b : α} {e : ε}

theorem Surviving.length_lt (hsurviving : Surviving Writes Resets events before a) :
    before.length < events.length := by
  obtain ⟨e, after, rfl, -⟩ := hsurviving
  simp

theorem Surviving.concat (hsurviving : Surviving Writes Resets events before a)
    (he : ¬ Resets e) : Surviving Writes Resets (events ++ [e]) before a := by
  obtain ⟨first, after, rfl, hwrites, hafter⟩ := hsurviving
  refine ⟨first, after ++ [e], by simp, hwrites, fun later hlater => ?_⟩
  rcases List.mem_append.mp hlater with hlater | hlater
  · exact hafter later hlater
  · obtain rfl := List.mem_singleton.mp hlater
    exact he

theorem surviving_concat_self (hwrites : Writes e a) :
    Surviving Writes Resets (events ++ [e]) events a :=
  ⟨e, [], rfl, hwrites, nofun⟩

/-- A write that survives one more event is that event or survived before, and is not reset. -/
theorem Surviving.of_concat (hsurviving : Surviving Writes Resets (events ++ [e]) before a) :
    before = events ∧ Writes e a ∨ Surviving Writes Resets events before a ∧ ¬ Resets e := by
  obtain ⟨first, after, heq, hwrites, hafter⟩ := hsurviving
  rcases List.eq_nil_or_concat after with rfl | ⟨after, last, rfl⟩
  · obtain ⟨rfl, hlast⟩ := List.append_inj' heq rfl
    cases hlast
    exact .inl ⟨rfl, hwrites⟩
  · have heq : events ++ [e] = (before ++ first :: after) ++ [last] := by simpa using heq
    obtain ⟨rfl, hlast⟩ := List.append_inj' heq rfl
    cases hlast
    refine .inr ⟨⟨first, after, rfl, hwrites, fun later hlater => ?_⟩, hafter e (by simp)⟩
    exact hafter later (by simp [hlater])

theorem Earliest.unique (hunique : ∀ e a b, Writes e a → Writes e b → a = b)
    (hfirst : Earliest Writes Resets events before a)
    (hother : Earliest Writes Resets events other b) : a = b := by
  have hlength := Nat.le_antisymm (hfirst.2 other b hother.1) (hother.2 before a hfirst.1)
  obtain ⟨⟨e, after, heq, hwrites, -⟩, -⟩ := hfirst
  obtain ⟨⟨e', after', heq', hwrites', -⟩, -⟩ := hother
  obtain ⟨-, htail⟩ := List.append_inj (heq.symm.trans heq') hlength
  cases htail
  exact hunique e a b hwrites hwrites'

theorem Holds.concat (hdisjoint : ∀ e a, Writes e a → ¬ Resets e) {old new : Option α}
    (hholds : Holds Writes Resets events old)
    (hstep : CellStep Writes Resets e old new) :
    Holds Writes Resets (events ++ [e]) new := by
  cases hstep with
  | reset he hnew =>
      subst hnew
      intro before a hsurviving
      rcases hsurviving.of_concat with ⟨-, hwrites⟩ | ⟨-, hnot⟩
      · exact hdisjoint e a hwrites he
      · exact hnot he
  | keep he hno hnew =>
      subst hnew
      have hback : ∀ before a, Surviving Writes Resets (events ++ [e]) before a →
          Surviving Writes Resets events before a := by
        intro before a hsurviving
        rcases hsurviving.of_concat with ⟨-, hwrites⟩ | ⟨hold, -⟩
        · exact absurd hwrites (hno a)
        · exact hold
      cases new with
      | none => exact fun before a hsurviving => hholds before a (hback before a hsurviving)
      | some a =>
          obtain ⟨before, hsurviving, hfirst⟩ := hholds
          exact ⟨before, hsurviving.concat he, fun other b hother =>
            hfirst other b (hback other b hother)⟩
  | write a he hwrites hnew =>
      subst hnew
      cases old with
      | none =>
          refine ⟨events, surviving_concat_self hwrites, fun other b hother => ?_⟩
          rcases hother.of_concat with ⟨rfl, -⟩ | ⟨hold, -⟩
          · exact Nat.le_refl _
          · exact absurd hold (hholds other b)
      | some b =>
          obtain ⟨before, hsurviving, hfirst⟩ := hholds
          refine ⟨before, hsurviving.concat he, fun other c hother => ?_⟩
          rcases hother.of_concat with ⟨rfl, -⟩ | ⟨hold, -⟩
          · exact Nat.le_of_lt hsurviving.length_lt
          · exact hfirst other c hold

variable {step : σ → ε → Option σ} {s s' : σ}

/-- Along every run of a system whose steps treat the cell so, the cell holds the earliest write that
survives. -/
theorem holds_of_run (Inv : σ → Prop) (cell : σ → Option α)
    (hdisjoint : ∀ e a, Writes e a → ¬ Resets e)
    (hinv : ∀ s e s', Inv s → step s e = some s' → Inv s')
    (hcell : ∀ s e s', Inv s → step s e = some s' →
      CellStep Writes Resets e (cell s) (cell s'))
    (hinit : Inv s) (hempty : cell s = none) (hrun : Runs.run step s events = some s') :
    Holds Writes Resets events (cell s') := by
  refine (Runs.history_induction (I := fun events s' =>
    Inv s' ∧ Holds Writes Resets events (cell s')) ⟨hinit, ?_⟩
    (fun events mid e s' _ ih hnext => ⟨hinv mid e s' ih.1 hnext,
      ih.2.concat hdisjoint (hcell mid e s' ih.1 hnext)⟩) hrun).2
  rw [hempty]
  rintro before a ⟨e, after, heq, -⟩
  simp at heq

theorem Holds.eq_some_iff {value : Option α} (hholds : Holds Writes Resets events value)
    (hunique : ∀ e a b, Writes e a → Writes e b → a = b) :
    value = some a ↔ ∃ before, Earliest Writes Resets events before a := by
  constructor
  · rintro rfl
    exact hholds
  · rintro ⟨before, hearliest⟩
    cases value with
    | none => exact absurd hearliest.1 (hholds before a)
    | some b =>
        obtain ⟨other, hother⟩ := hholds
        rw [hother.unique hunique hearliest]

end FirstSince
