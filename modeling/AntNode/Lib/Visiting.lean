import Mathlib.Data.Finset.Dedup
import Mathlib.Data.Finset.Lattice.Lemmas

/-!
# Visiting every item once

A loop that skips what it has seen and marks what it takes goes through the items that were not
seen, each where it first occurs in the list. `visit` is one round of such a loop.
-/

namespace Visiting

variable {α : Type*} [DecidableEq α]

/-- The items that are not seen yet, each where it first occurs. -/
def unvisited (seen : Finset α) : List α → List α
  | [] => []
  | item :: rest =>
      if item ∈ seen then unvisited seen rest else item :: unvisited (insert item seen) rest

theorem mem_unvisited {seen : Finset α} {items : List α} {item : α} :
    item ∈ unvisited seen items ↔ item ∈ items ∧ item ∉ seen := by
  induction items generalizing seen with
  | nil => simp [unvisited]
  | cons head rest ih =>
      rw [unvisited]
      by_cases hseen : head ∈ seen
      · rw [if_pos hseen, ih, List.mem_cons]
        constructor
        · rintro ⟨hitem, hnot⟩
          exact ⟨.inr hitem, hnot⟩
        · rintro ⟨rfl | hitem, hnot⟩
          · exact absurd hseen hnot
          · exact ⟨hitem, hnot⟩
      · rw [if_neg hseen, List.mem_cons, ih, List.mem_cons, Finset.mem_insert]
        by_cases heq : item = head
        · subst heq
          exact iff_of_true (.inl rfl) ⟨.inl rfl, hseen⟩
        · simp only [heq, false_or]

/-- They stand in the order of the list. -/
theorem unvisited_ordered (seen : Finset α) (items : List α) :
    (unvisited seen items).Pairwise fun a b => items.idxOf a < items.idxOf b := by
  induction items generalizing seen with
  | nil => exact List.Pairwise.nil
  | cons head rest ih =>
      have hlater : ∀ set : Finset α, head ∈ set → (unvisited set rest).Pairwise fun a b =>
          (head :: rest).idxOf a < (head :: rest).idxOf b := by
        intro set hset
        refine (ih set).imp_of_mem fun {a b} ha hb hab => ?_
        have hne : ∀ item ∈ unvisited set rest, head ≠ item := by
          rintro item hitem rfl
          exact (mem_unvisited.mp hitem).2 hset
        rw [List.idxOf_cons_ne _ (hne a ha), List.idxOf_cons_ne _ (hne b hb)]
        exact Nat.succ_lt_succ hab
      rw [unvisited]
      by_cases hseen : head ∈ seen
      · rw [if_pos hseen]
        exact hlater seen hseen
      · rw [if_neg hseen]
        refine List.Pairwise.cons (fun item hitem => ?_)
          (hlater _ (Finset.mem_insert_self head seen))
        have hne : head ≠ item := by
          rintro rfl
          exact (mem_unvisited.mp hitem).2 (Finset.mem_insert_self head seen)
        rw [List.idxOf_cons_self, List.idxOf_cons_ne _ hne]
        exact Nat.succ_pos _

theorem nodup_unvisited (seen : Finset α) (items : List α) : (unvisited seen items).Nodup := by
  refine (unvisited_ordered seen items).imp fun {a b} hlt => ?_
  rintro rfl
  exact lt_irrefl _ hlt

theorem find?_unvisited (seen : Finset α) (items : List α) :
    items.find? (fun item => decide (item ∉ seen)) = (unvisited seen items).head? := by
  induction items with
  | nil => rfl
  | cons head rest ih =>
      rw [unvisited]
      by_cases hseen : head ∈ seen
      · rw [List.find?_cons_of_neg (by simpa using hseen), if_pos hseen, ih]
      · rw [List.find?_cons_of_pos (by simpa using hseen), if_neg hseen, List.head?_cons]

theorem unvisited_insert {seen : Finset α} {items : List α} {next : α}
    (hnext : (unvisited seen items).head? = some next) :
    unvisited (insert next seen) items = (unvisited seen items).tail := by
  induction items with
  | nil => cases hnext
  | cons head rest ih =>
      rw [unvisited] at hnext
      by_cases hseen : head ∈ seen
      · rw [if_pos hseen] at hnext
        rw [unvisited, unvisited, if_pos (Finset.mem_insert_of_mem hseen), if_pos hseen, ih hnext]
      · rw [if_neg hseen, List.head?_cons, Option.some.injEq] at hnext
        subst hnext
        rw [unvisited, unvisited, if_pos (Finset.mem_insert_self _ _), if_neg hseen, List.tail_cons]

def visit {β : Type*} (take : β → α → β) (state : Finset α × β) (item : α) : Finset α × β :=
  if item ∈ state.1 then state else (insert item state.1, take state.2 item)

theorem foldl_visit {β : Type*} (take : β → α → β) (seen : Finset α) (acc : β) (items : List α) :
    items.foldl (visit take) (seen, acc) =
      (seen ∪ items.toFinset, (unvisited seen items).foldl take acc) := by
  induction items generalizing seen acc with
  | nil => rw [List.toFinset_nil, Finset.union_empty, List.foldl_nil, unvisited, List.foldl_nil]
  | cons head rest ih =>
      rw [List.foldl_cons, visit, List.toFinset_cons]
      by_cases hseen : head ∈ seen
      · rw [if_pos hseen, ih, unvisited, if_pos hseen, Finset.union_insert,
          Finset.insert_eq_of_mem (Finset.mem_union_left _ hseen)]
      · rw [if_neg hseen, ih, unvisited, if_neg hseen, List.foldl_cons, Finset.union_insert,
          Finset.insert_union]

end Visiting
