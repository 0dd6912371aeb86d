import Mathlib.Init

/-!
# Computations that may fail

Rules that take a successful `Except` computation apart, and one that runs a list of computations
that are known to succeed.
-/

namespace Fallible

variable {α β ε : Type}

theorem bind_eq_ok_iff {x : Except ε α} {f : α → Except ε β} {y : β} :
    (x >>= f) = .ok y ↔ ∃ a, x = .ok a ∧ f a = .ok y := by
  cases x with
  | error e => simp [bind, Except.bind]
  | ok a => simp [bind, Except.bind]

theorem then_eq_ok_iff {x : Except ε Unit} {f : Unit → Except ε β} {y : β} :
    (x >>= f) = .ok y ↔ x = .ok () ∧ f () = .ok y := by
  rw [bind_eq_ok_iff]
  constructor
  · rintro ⟨⟨⟩, hx, hf⟩
    exact ⟨hx, hf⟩
  · rintro ⟨hx, hf⟩
    exact ⟨(), hx, hf⟩

theorem ite_throw_eq_ok_iff {p : Prop} [Decidable p] {x : Except ε α} {e : ε} {y : α} :
    (if p then x else throw e) = .ok y ↔ p ∧ x = .ok y := by
  by_cases hp : p
  · simp [hp]
  · simp [hp, throw, throwThe, MonadExceptOf.throw]

theorem map_eq_ok_iff {x : Except ε α} {f : α → β} {y : β} :
    x.map f = .ok y ↔ ∃ a, x = .ok a ∧ f a = y := by
  cases x with
  | error e => simp [Except.map]
  | ok a => simp [Except.map]

theorem mapM_eq_ok {f : α → Except ε β} {g : α → β} {xs : List α}
    (hf : ∀ x ∈ xs, f x = .ok (g x)) : xs.mapM f = .ok (xs.map g) := by
  induction xs with
  | nil => rfl
  | cons x xs ih =>
      rw [List.mapM_cons, hf x (by simp), ih fun y hy => hf y (by simp [hy])]
      rfl

end Fallible
