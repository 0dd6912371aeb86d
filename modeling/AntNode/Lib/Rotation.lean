import Mathlib.Tactic

/-!
# Windows that rotate around a ring

Consecutive windows on a ring of `n` places, each starting where the one before it ended. None of
them is empty, so `n` of them go around the ring.
-/

namespace Rotation

variable {n : Nat} {start len : Nat → Nat}

/-- Where the windows would be on an unrolled ring. -/
def position (start len : Nat → Nat) : Nat → Nat
  | 0 => start 0
  | i + 1 => position start len i + len i

theorem position_mod (hnext : ∀ i, start (i + 1) = (start i + len i) % n) (i : Nat) :
    position start len i % n = start i % n := by
  induction i with
  | zero => rfl
  | succ i ih => rw [position, hnext, Nat.mod_mod, Nat.add_mod, ih, ← Nat.add_mod]

theorem le_position (hlen : ∀ i < n, 0 < len i) {i : Nat} (hi : i ≤ n) :
    start 0 + i ≤ position start len i := by
  induction i with
  | zero => exact le_rfl
  | succ i ih =>
      have := ih (by omega)
      have := hlen i hi
      rw [position]
      omega

/-- The window that covers a place of the unrolled ring. -/
theorem exists_le_lt_position {p : Nat} (hstart : start 0 ≤ p) {m : Nat}
    (hp : p < position start len m) :
    ∃ i < m, position start len i ≤ p ∧ p < position start len i + len i := by
  induction m with
  | zero => exact absurd hp (Nat.not_lt.mpr hstart)
  | succ m ih =>
      by_cases hbefore : p < position start len m
      · obtain ⟨i, hi, hcovers⟩ := ih hbefore
        exact ⟨i, by omega, hcovers⟩
      · exact ⟨m, by omega, Nat.not_lt.mp hbefore, hp⟩

theorem exists_window (hnext : ∀ i, start (i + 1) = (start i + len i) % n)
    (hlen : ∀ i < n, 0 < len i) {k : Nat} (hk : k < n) :
    ∃ i < n, ∃ j < len i, (start i + j) % n = k := by
  -- the first place from `start 0` on that falls on `k`
  have hplace : ∃ p, start 0 ≤ p ∧ p < start 0 + n ∧ p % n = k := by
    refine ⟨start 0 + (k + (n - start 0 % n)) % n, by omega, ?_, ?_⟩
    · have := Nat.mod_lt (k + (n - start 0 % n)) (by omega : 0 < n)
      omega
    · have hlt := Nat.mod_lt (start 0) (by omega : 0 < n)
      calc (start 0 + (k + (n - start 0 % n)) % n) % n
          = (start 0 % n + (k + (n - start 0 % n))) % n := by
            rw [Nat.add_mod, Nat.mod_mod, ← Nat.add_mod, Nat.add_mod, ← Nat.mod_mod (start 0) n,
              ← Nat.add_mod, Nat.mod_mod]
        _ = (k + n) % n := by congr 1; omega
        _ = k := by rw [Nat.add_mod_right, Nat.mod_eq_of_lt hk]
  obtain ⟨p, hstart, hp, hmod⟩ := hplace
  obtain ⟨i, hi, hle, hlt⟩ := exists_le_lt_position hstart (hp.trans_le (le_position hlen le_rfl))
  refine ⟨i, hi, p - position start len i, by omega, ?_⟩
  rw [Nat.add_mod, ← position_mod hnext, ← Nat.add_mod, Nat.add_sub_cancel' hle, hmod]

end Rotation
