import Mathlib.Data.List.AList
import Mathlib.Tactic

/-!
# Tallies

A tally counts the elements of a collection by class and keeps no zeros. It is maintained one
element at a time: `bump` for a class that gains an element, `release` for one that loses one. What
it counts does not depend on the order of the collection.
-/

namespace Tally

variable {α κ : Type} [DecidableEq κ]

def ofCount (n : Nat) : Option Nat := if n = 0 then none else some n

def count (f : α → κ) (l : List α) (k : κ) : Nat := l.countP fun x => decide (f x = k)

/-- The tally holds the number of elements of every class that has any. -/
def Tallies (f : α → κ) (l : List α) (t : AList fun _ : κ => Nat) : Prop :=
  ∀ k, t.lookup k = ofCount (count f l k)

def bump (t : AList fun _ : κ => Nat) (k : κ) : AList fun _ : κ => Nat :=
  t.insert k ((t.lookup k).getD 0 + 1)

def release (t : AList fun _ : κ => Nat) (k : κ) : AList fun _ : κ => Nat :=
  match t.lookup k with
  | none => t
  | some n => if n - 1 = 0 then t.erase k else t.insert k (n - 1)

variable {f : α → κ} {l l' : List α} {t : AList fun _ : κ => Nat} {x : α} {k : κ}

theorem getD_ofCount (n : Nat) : (ofCount n).getD 0 = n := by
  unfold ofCount
  split_ifs with hzero
  · exact hzero.symm
  · rfl

theorem count_cons_self : count f (x :: l) (f x) = count f l (f x) + 1 :=
  List.countP_cons_of_pos (decide_eq_true rfl)

theorem count_cons_of_ne (hne : f x ≠ k) : count f (x :: l) k = count f l k :=
  List.countP_cons_of_neg (by simpa using hne)

theorem count_cons_le {n : Nat} (hle : count f l k ≤ n) (hlt : f x = k → count f l k < n) :
    count f (x :: l) k ≤ n := by
  by_cases heq : f x = k
  · subst heq
    rw [count_cons_self]
    exact hlt rfl
  · rw [count_cons_of_ne heq]
    exact hle

theorem tallies_nil : Tallies f [] ∅ := fun _ => rfl

theorem Tallies.getD (htallies : Tallies f l t) (k : κ) : (t.lookup k).getD 0 = count f l k := by
  rw [htallies k, getD_ofCount]

theorem Tallies.eq_empty (htallies : Tallies f [] t) : t = ∅ := by
  apply AList.ext
  rw [AList.empty_entries, List.eq_nil_iff_forall_not_mem]
  rintro ⟨k, n⟩ hmem
  have hlookup : t.lookup k = some n := AList.mem_lookup_iff.mpr hmem
  rw [htallies k] at hlookup
  cases hlookup

theorem Tallies.perm (htallies : Tallies f l t) (hperm : l.Perm l') : Tallies f l' t := by
  intro k
  rw [htallies k, count, count, hperm.countP_eq]

/-- Another element of the same class in place of the first. -/
theorem Tallies.replace {y : α} (htallies : Tallies f (x :: l) t) (hclass : f y = f x) :
    Tallies f (y :: l) t := by
  intro k
  rw [htallies k, count, count, List.countP_cons, List.countP_cons, hclass]

theorem Tallies.bump (htallies : Tallies f l t) : Tallies f (x :: l) (bump t (f x)) := by
  intro k
  rw [Tally.bump, htallies.getD]
  by_cases heq : k = f x
  · subst heq
    rw [AList.lookup_insert, count_cons_self]
    rfl
  · rw [AList.lookup_insert_ne heq, htallies k, count_cons_of_ne (Ne.symm heq)]

theorem Tallies.release (htallies : Tallies f (x :: l) t) : Tallies f l (release t (f x)) := by
  have hself : t.lookup (f x) = some (count f l (f x) + 1) := by
    rw [htallies, count_cons_self]
    rfl
  intro k
  rw [Tally.release, hself]
  dsimp only
  rw [Nat.add_sub_cancel]
  by_cases heq : k = f x
  · subst heq
    split_ifs with hzero
    · rw [AList.lookup_erase, hzero]
      rfl
    · rw [AList.lookup_insert, ofCount, if_neg hzero]
  · have hother : t.lookup k = ofCount (count f l k) := by
      rw [htallies k, count_cons_of_ne (Ne.symm heq)]
    split_ifs
    · rw [AList.lookup_erase_ne heq, hother]
    · rw [AList.lookup_insert_ne heq, hother]

/-! ### The entries of a map -/

theorem perm_cons_erase {ν : Type} {m : AList fun _ : κ => ν} {v : ν}
    (hlookup : m.lookup k = some v) : m.entries.Perm (⟨k, v⟩ :: (m.erase k).entries) := by
  have hmem : (⟨k, v⟩ : Sigma fun _ : κ => ν) ∈ m.entries := AList.mem_lookup_iff.mp hlookup
  obtain ⟨v', front, back, -, hentries, herase⟩ :=
    List.exists_of_kerase (List.mem_keys_of_mem hmem)
  have hsame : v' = v := by
    have hmem' : (⟨k, v'⟩ : Sigma fun _ : κ => ν) ∈ m.entries := by simp [hentries]
    exact Option.some.inj ((AList.mem_lookup_iff.mpr hmem').symm.trans hlookup)
  have herased : (m.erase k).entries = front ++ back := herase
  rw [herased, hentries, hsame]
  exact List.perm_middle

end Tally
