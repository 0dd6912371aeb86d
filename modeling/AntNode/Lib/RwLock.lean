import Mathlib.Data.Finset.Basic
import Mathlib.Tactic

/-!
# A reader-writer lock

The lock knows who holds it: any number of readers, or one writer. It is a field of the lock that
these exclude each other, so what a holder may conclude about the others is a fact of the type.
-/

inductive LockMode where
  | shared
  | exclusive
  deriving DecidableEq

structure RwLock (ι : Type) where
  readers : Finset ι
  writer : Option ι
  exclusion : writer ≠ none → readers = ∅

namespace RwLock

variable {ι : Type} [DecidableEq ι] {lock lock' : RwLock ι} {i j : ι}

def unlocked : RwLock ι := ⟨∅, none, fun _ => rfl⟩

/-- Take the lock shared, unless there is a writer to wait for. -/
def read (lock : RwLock ι) (i : ι) : Option (RwLock ι) :=
  if lock.writer = none then some ⟨insert i lock.readers, none, fun hnone => absurd rfl hnone⟩
  else none

/-- Take the lock exclusive, unless there is anyone to wait for. -/
def write (lock : RwLock ι) (i : ι) : Option (RwLock ι) :=
  if lock.writer = none ∧ lock.readers = ∅ then some ⟨∅, some i, fun _ => rfl⟩ else none

def unlock (lock : RwLock ι) (i : ι) : RwLock ι where
  readers := lock.readers.erase i
  writer := if lock.writer = some i then none else lock.writer
  exclusion := by
    intro hwriter
    rw [lock.exclusion, Finset.erase_empty]
    intro hnone
    simp [hnone] at hwriter

def holds (lock : RwLock ι) (i : ι) : Option LockMode :=
  if lock.writer = some i then some .exclusive
  else if i ∈ lock.readers then some .shared
  else none

theorem holds_unlocked : (unlocked : RwLock ι).holds i = none := by simp [holds, unlocked]

theorem holds_read (hread : lock.read i = some lock') :
    lock'.holds j = if j = i then some .shared else lock.holds j := by
  unfold read at hread
  split_ifs at hread with hwriter
  obtain rfl := Option.some.inj hread
  by_cases heq : j = i <;> simp [holds, hwriter, heq]

theorem holds_write (hwrite : lock.write i = some lock') :
    lock.holds j = none ∧ lock'.holds j = if j = i then some .exclusive else none := by
  unfold write at hwrite
  split_ifs at hwrite with hfree
  obtain rfl := Option.some.inj hwrite
  by_cases heq : j = i
  · simp [holds, hfree.1, hfree.2, heq]
  · simp [holds, hfree.1, hfree.2, heq, Ne.symm heq]

theorem holds_unlock : (lock.unlock i).holds j = if j = i then none else lock.holds j := by
  unfold unlock holds
  by_cases heq : j = i
  · subst heq
    by_cases hwriter : lock.writer = some j <;> simp [hwriter]
  · by_cases hwriter : lock.writer = some i
    · simp [hwriter, heq, Ne.symm heq]
    · simp [hwriter, heq]

/-- Nobody holds the lock beside its writer. -/
theorem holds_eq_none_of_exclusive (hexclusive : lock.holds i = some .exclusive) (hne : j ≠ i) :
    lock.holds j = none := by
  have hwriter : lock.writer = some i := by
    unfold holds at hexclusive
    split_ifs at hexclusive with hwriter hreader
    · exact hwriter
    · cases hexclusive
  have hempty := lock.exclusion (by simp [hwriter])
  simp [holds, hwriter, hempty, Ne.symm hne]

end RwLock
