import AntNode.Digest
import AntNode.Lib.LeftPacked
import Mathlib.Data.Nat.Log
import Mathlib.Data.List.Sort

/-!
# Storage commitments and the committed Merkle tree

The tree is left-packed: leaves are sorted by key, a level of odd length pairs its last node with
itself, and the levels are kept from the leaves up to the root. `MerkleTree` has private fields in
the source and `build` is its only constructor, so what `build` establishes is part of the type.
-/

namespace AntNode

variable {H : Type} [Digest H]

def maxCommitmentKeyCount : Nat := 1000000

structure StorageCommitment (H : Type) where
  root : H
  keyCount : Nat
  senderPeerId : H
  senderPublicKey : Bytes
  signature : Bytes
  deriving DecidableEq

inductive CommitmentError (H : Type) where
  | emptyKeySet
  | tooManyKeys (count : Nat)
  | duplicateKey (key : H)
  | signatureFailed (detail : String)
  deriving DecidableEq

def buildNextLevel (cur : List H) : List H :=
  LeftPacked.nextLevel nodeHash cur

theorem length_buildNextLevel (cur : List H) :
    (buildNextLevel cur).length = (cur.length + 1) / 2 :=
  LeftPacked.length_nextLevel nodeHash cur

/-- The levels from `level` up to the root: the loop of `MerkleTree::build`. -/
def buildLevels (level : List H) : List (List H) :=
  if 1 < level.length then level :: buildLevels (buildNextLevel level) else [level]
termination_by level.length
decreasing_by
  rw [length_buildNextLevel]
  omega

/-- `entries.sort_by_key(|a| a.0)`, a stable sort. -/
def sortByKey (entries : List (H × H)) : List (H × H) :=
  entries.mergeSort fun a b => decide (a.1 ≤ b.1)

def firstDuplicate : List (H × H) → Option H
  | a :: b :: rest => if a.1 = b.1 then some a.1 else firstDuplicate (b :: rest)
  | _ => none

theorem sortByKey_perm (entries : List (H × H)) : (sortByKey entries).Perm entries :=
  List.mergeSort_perm entries _

theorem sortByKey_pairwise_le (entries : List (H × H)) :
    (sortByKey entries).Pairwise fun a b => a.1 ≤ b.1 := by
  have htrans : ∀ a b c : H × H,
      decide (a.1 ≤ b.1) = true → decide (b.1 ≤ c.1) = true → decide (a.1 ≤ c.1) = true := by
    intro a b c hab hbc
    rw [decide_eq_true_eq] at *
    exact hab.trans hbc
  have htotal : ∀ a b : H × H, (decide (a.1 ≤ b.1) || decide (b.1 ≤ a.1)) = true := by
    intro a b
    simpa using le_total a.1 b.1
  exact (List.pairwise_mergeSort htrans htotal entries).imp fun hle => by simpa using hle

theorem firstDuplicate_eq_none_iff {entries : List (H × H)}
    (hsorted : entries.Pairwise fun a b => a.1 ≤ b.1) :
    firstDuplicate entries = none ↔ entries.Pairwise fun a b => a.1 < b.1 := by
  induction entries using firstDuplicate.induct with
  | case1 a b rest heq =>
      rw [firstDuplicate, if_pos heq]
      constructor
      · intro hnone
        simp at hnone
      · intro hlt
        exact absurd heq ((List.pairwise_cons.mp hlt).1 b (by simp)).ne
  | case2 a b rest hne ih =>
      rw [firstDuplicate, if_neg hne, ih hsorted.of_cons]
      constructor
      · intro htail
        refine List.pairwise_cons.mpr ⟨fun c hc => ?_, htail⟩
        have hab : a.1 < b.1 :=
          lt_of_le_of_ne ((List.pairwise_cons.mp hsorted).1 b (by simp)) hne
        rcases List.mem_cons.mp hc with rfl | hc
        · exact hab
        · exact hab.trans ((List.pairwise_cons.mp htail).1 c hc)
      · exact fun hall => hall.of_cons
  | case3 entries hshort =>
      match entries, hshort with
      | [], _ => simp [firstDuplicate]
      | [a], _ => simp [firstDuplicate]
      | a :: b :: rest, hshort => exact absurd rfl (hshort a b rest)

structure MerkleTree (H : Type) [Digest H] where
  leaves : List (H × H)
  levels : List (List H)
  leaves_ne_nil : leaves ≠ []
  length_le : leaves.length ≤ maxCommitmentKeyCount
  sorted : leaves.Pairwise fun a b => a.1 < b.1
  leaf_bound : ∀ leaf ∈ leaves, ∃ bytesHash, leaf.2 = leafHash leaf.1 bytesHash
  levels_eq : levels = buildLevels (leaves.map Prod.snd)

def leafOf (entry : H × H) : H × H := (entry.1, leafHash entry.1 entry.2)

namespace MerkleTree

def build (entries : List (H × H)) : Except (CommitmentError H) (MerkleTree H) :=
  if hne : entries = [] then .error .emptyKeySet
  else if hmax : entries.length > maxCommitmentKeyCount then .error (.tooManyKeys entries.length)
  else
    match hdup : firstDuplicate (sortByKey entries) with
    | some key => .error (.duplicateKey key)
    | none => .ok
        { leaves := (sortByKey entries).map leafOf
          levels := buildLevels (((sortByKey entries).map leafOf).map Prod.snd)
          leaves_ne_nil := by
            rw [ne_eq, List.map_eq_nil_iff]
            intro hnil
            exact hne (List.Perm.nil_eq (hnil ▸ sortByKey_perm entries)).symm
          length_le := by
            rw [List.length_map, (sortByKey_perm entries).length_eq]
            omega
          sorted := List.pairwise_map.mpr
            ((firstDuplicate_eq_none_iff (sortByKey_pairwise_le entries)).mp hdup)
          leaf_bound := by
            intro leaf hleaf
            obtain ⟨entry, -, rfl⟩ := List.mem_map.mp hleaf
            exact ⟨entry.2, rfl⟩
          levels_eq := rfl }

variable (tree : MerkleTree H)

def root : H :=
  ((tree.levels.getLast?).bind List.head?).getD Digest.zero

def keyCount : Nat := tree.leaves.length

/-- The committed keys in sorted order; `sorted_keys` of the source is the same list. -/
def leafKeys : List H := tree.leaves.map Prod.fst

def keyAt (idx : Nat) : Option H := tree.leaves[idx]?.map Prod.fst

def nodeAt (level index : Nat) : Option H := tree.levels[level]?.bind fun l => l[index]?

def levelsCount : Nat := tree.levels.length

/-- The sorted leaf index of `key`. The leaves are strictly sorted, so the source's binary search
finds the one index that holds it. -/
def keyIndex (key : H) : Option Nat := tree.leaves.findIdx? fun leaf => decide (leaf.1 = key)

def containsKey (key : H) : Bool := (tree.keyIndex key).isSome

/-- The siblings from leaf `i` upwards: the loop of `path_for`. -/
def pathFrom : List (List H) → Nat → Option (List H)
  | [], _ => some []
  | level :: above, i =>
      -- an unpaired last node is its own sibling
      let siblingIdx := if i % 2 = 0 then (if i + 1 < level.length then i + 1 else i) else i - 1
      level[siblingIdx]?.bind fun sib => (pathFrom above (i / 2)).map (sib :: ·)

def pathFor (key : H) : Option (List H) :=
  (tree.keyIndex key).bind fun idx => pathFrom tree.levels.dropLast idx

end MerkleTree

/-- `u32::checked_next_power_of_two`. -/
def checkedNextPowerOfTwo (n : Nat) : Option Nat :=
  if 2 ^ Nat.clog 2 n < 2 ^ 32 then some (2 ^ Nat.clog 2 n) else none

/-- `u32::trailing_zeros`. -/
def trailingZeros (n : Nat) : Nat := (List.range 32).findIdx fun bit => n.testBit bit

def verifyPath (leaf : H) (path : List H) (leafIndex keyCount : Nat) (expectedRoot : H) : Bool :=
  if keyCount = 0 ∨ keyCount > maxCommitmentKeyCount ∨ leafIndex ≥ keyCount then false
  else
    match checkedNextPowerOfTwo keyCount with
    | none => false
    | some rounded =>
        if path.length ≠ trailingZeros rounded then false
        else decide (LeftPacked.climb nodeHash path leafIndex leaf = expectedRoot)

end AntNode
