import Mathlib.Data.Finset.Card
import Mathlib.Data.List.Nodup
import Mathlib.Tactic

/-!
# Bounded move-to-front lists

A list of records, newest first, with one record a key and a cap on its length. Pushing a record
moves its key to the front and may push the last one out. What keeps a record in such a list is how
many other keys were pushed since: a record with fewer than `cap` keys ahead of it is still there.
-/

namespace MoveToFront

variable {α κ : Type*} (key : α → κ)

/-- Put a record in front, replacing the one with its key. -/
def push [DecidableEq κ] (cap : Nat) (x : α) (xs : List α) : List α :=
  (x :: xs.filter fun y => decide (key y ≠ key x)).take cap

/-- The list holds a record of `k` with property `P`, and the keys ahead of it are distinct and
among `seen`. -/
def Within (P : α → Prop) (k : κ) (seen : Finset κ) (xs : List α) : Prop :=
  ∃ front y back, xs = front ++ y :: back ∧ key y = k ∧ P y ∧
    (front.map key).Nodup ∧ ∀ z ∈ front, key z ∈ seen

variable {key} {P : α → Prop} {k : κ} {seen : Finset κ} {xs : List α} {cap : Nat}

theorem length_le_card [DecidableEq κ] {front : List α} (hnodup : (front.map key).Nodup)
    (hseen : ∀ z ∈ front, key z ∈ seen) : front.length ≤ seen.card := by
  rw [← List.length_map (f := key), ← List.toFinset_card_of_nodup hnodup]
  refine Finset.card_le_card fun k hk => ?_
  obtain ⟨z, hz, rfl⟩ := List.mem_map.mp (List.mem_toFinset.mp hk)
  exact hseen z hz

theorem Within.mem (hwithin : Within key P k seen xs) : ∃ y ∈ xs, key y = k ∧ P y := by
  obtain ⟨front, y, back, rfl, hy, hP, -⟩ := hwithin
  exact ⟨y, by simp, hy, hP⟩

theorem notMem_filter_ne [DecidableEq κ] {x : α} :
    key x ∉ (xs.filter fun y => decide (key y ≠ key x)).map key := by
  intro hmem
  obtain ⟨y, hy, heq⟩ := List.mem_map.mp hmem
  have := (List.mem_filter.mp hy).2
  simp [heq] at this

theorem mem_push [DecidableEq κ] {x y : α} (hy : y ∈ push key cap x xs) :
    y = x ∨ y ∈ xs ∧ key y ≠ key x := by
  rcases List.mem_cons.mp (List.mem_of_mem_take hy) with rfl | hy
  · exact .inl rfl
  · obtain ⟨hy, hne⟩ := List.mem_filter.mp hy
    exact .inr ⟨hy, of_decide_eq_true hne⟩

theorem nodup_push [DecidableEq κ] {x : α} (hnodup : (xs.map key).Nodup) :
    ((push key cap x xs).map key).Nodup := by
  refine List.Nodup.sublist ((List.take_sublist _ _).map key) ?_
  rw [List.map_cons, List.nodup_cons]
  exact ⟨notMem_filter_ne, hnodup.sublist (List.filter_sublist.map key)⟩

theorem within_push_self [DecidableEq κ] {x : α} (hcap : 0 < cap) (hx : key x = k) (hP : P x) :
    Within key P k seen (push key cap x xs) := by
  obtain ⟨cap, rfl⟩ := Nat.exists_eq_succ_of_ne_zero hcap.ne'
  exact ⟨[], x, _, List.take_succ_cons, hx, hP, by simp, by simp⟩

theorem Within.push_of_ne [DecidableEq κ] {x : α} (hwithin : Within key P k seen xs)
    (hne : key x ≠ k) (hcap : (insert (key x) seen).card < cap) :
    Within key P k (insert (key x) seen) (push key cap x xs) := by
  obtain ⟨front, y, back, rfl, hy, hP, hnodup, hseen⟩ := hwithin
  set front' := x :: front.filter fun z => decide (key z ≠ key x) with hfront'
  have hkeep : decide (key y ≠ key x) = true := by simpa [hy] using hne.symm
  have hpush : x :: (front ++ y :: back).filter (fun z => decide (key z ≠ key x))
      = front' ++ y :: back.filter fun z => decide (key z ≠ key x) := by
    rw [List.filter_append, List.filter_cons_of_pos (p := fun z => decide (key z ≠ key x)) hkeep,
      hfront', List.cons_append]
  have hnodup' : (front'.map key).Nodup := by
    rw [hfront', List.map_cons, List.nodup_cons]
    exact ⟨notMem_filter_ne, hnodup.sublist (List.filter_sublist.map key)⟩
  have hseen' : ∀ z ∈ front', key z ∈ insert (key x) seen := by
    intro z hz
    rcases List.mem_cons.mp hz with rfl | hz
    · exact Finset.mem_insert_self _ _
    · exact Finset.mem_insert_of_mem (hseen z (List.mem_of_mem_filter hz))
  have hlen := length_le_card hnodup' hseen'
  obtain ⟨room, hroom⟩ : ∃ room, cap - front'.length = room + 1 := by
    refine ⟨cap - front'.length - 1, ?_⟩
    omega
  have htake : push key cap x (front ++ y :: back)
      = front' ++ y :: (back.filter fun z => decide (key z ≠ key x)).take room := by
    rw [push, hpush, List.take_append, List.take_of_length_le (by omega), hroom,
      List.take_succ_cons]
  exact ⟨front', y, _, htake, hy, hP, hnodup', hseen'⟩

theorem Within.filter (hwithin : Within key P k seen xs) {q : α → Bool}
    (hq : ∀ y, key y = k → P y → q y = true) : Within key P k seen (xs.filter q) := by
  obtain ⟨front, y, back, rfl, hy, hP, hnodup, hseen⟩ := hwithin
  refine ⟨front.filter q, y, back.filter q, ?_, hy, hP,
    hnodup.sublist (List.filter_sublist.map key), fun z hz => hseen z (List.mem_of_mem_filter hz)⟩
  rw [List.filter_append, List.filter_cons_of_pos (hq y hy hP)]

end MoveToFront
