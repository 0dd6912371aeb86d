import AntNode.Commitment

/-!
# What a built tree holds

The stored levels are the folds of the leaf hashes: level `j` is the leaf level folded up `j` times,
for every `j` up to the depth `ceil(log2 n)`. Everything the responder reads from a tree goes
through this, and so does the root.
-/

namespace AntNode

open LeftPacked

variable {H : Type} [Digest H]

theorem buildNextLevel_iterate (k : Nat) (level : List H) :
    buildNextLevel^[k] level = foldUp nodeHash k level := rfl

theorem buildLevels_eq {level : List H} (hne : level ≠ []) :
    buildLevels level =
      (List.range (Nat.clog 2 level.length + 1)).map fun j => foldUp nodeHash j level := by
  induction level using buildLevels.induct with
  | case1 level hlong ih =>
      have hclog : Nat.clog 2 level.length
          = Nat.clog 2 (buildNextLevel level).length + 1 := by
        rw [Nat.clog_of_two_le (by omega) (by omega), length_buildNextLevel,
          show level.length + 2 - 1 = level.length + 1 by omega]
      have hne' : buildNextLevel level ≠ [] := by
        rwa [ne_eq, buildNextLevel, nextLevel_eq_nil_iff]
      generalize Nat.clog 2 (buildNextLevel level).length = depth at hclog ih
      rw [buildLevels, if_pos hlong, ih hne', hclog]
      conv_rhs => rw [List.range_succ_eq_map, List.map_cons, List.map_map]
      rfl
  | case2 level hshort =>
      have hone : level.length = 1 := by
        have := List.length_pos_of_ne_nil hne
        omega
      rw [buildLevels, if_neg hshort, hone]
      simp

theorem getElem?_buildLevels {level : List H} (hne : level ≠ []) {j : Nat}
    (hj : j ≤ Nat.clog 2 level.length) :
    (buildLevels level)[j]? = some (foldUp nodeHash j level) := by
  rw [buildLevels_eq hne, List.getElem?_map, List.getElem?_range (by omega), Option.map_some]

theorem length_buildLevels {level : List H} (hne : level ≠ []) :
    (buildLevels level).length = Nat.clog 2 level.length + 1 := by
  simp [buildLevels_eq hne]

/-- The root `MerkleTree::build` computes over a list of leaf hashes, whatever the leaves are. -/
def merkleRoot (leafHashes : List H) : H :=
  (((buildLevels leafHashes).getLast?).bind List.head?).getD Digest.zero

theorem foldUp_clog_eq_singleton {level : List H} (hne : level ≠ []) :
    foldUp nodeHash (Nat.clog 2 level.length) level = [merkleRoot level] := by
  have hlast : (buildLevels level).getLast?
      = some (foldUp nodeHash (Nat.clog 2 level.length) level) := by
    rw [List.getLast?_eq_getElem?, length_buildLevels hne, Nat.add_sub_cancel]
    exact getElem?_buildLevels hne le_rfl
  obtain ⟨node, hnode⟩ := List.length_eq_one_iff.mp
    (length_foldUp_eq_one nodeHash hne (Nat.le_pow_clog (by omega) level.length))
  rw [merkleRoot, hlast, Option.bind_some, hnode]
  rfl

theorem merkleRoot_inj (hnode : Function.Injective2 (nodeHash (H := H))) {xs ys : List H}
    (hlen : xs.length = ys.length) (hne : ys ≠ []) (hroot : merkleRoot xs = merkleRoot ys) :
    xs = ys := by
  have hne' : xs ≠ [] := by
    rwa [ne_eq, ← List.length_eq_zero_iff, hlen, List.length_eq_zero_iff]
  refine foldUp_inj nodeHash hnode (Nat.clog 2 ys.length) hlen ?_
  rw [foldUp_clog_eq_singleton hne, ← hroot, ← hlen, foldUp_clog_eq_singleton hne']

namespace MerkleTree

variable (tree : MerkleTree H)

def leafHashes : List H := tree.leaves.map Prod.snd

theorem leafHashes_ne_nil : tree.leafHashes ≠ [] := by
  simpa [leafHashes] using tree.leaves_ne_nil

theorem length_leafHashes : tree.leafHashes.length = tree.keyCount := by
  simp [leafHashes, keyCount]

theorem root_eq : tree.root = merkleRoot tree.leafHashes := by
  rw [root, merkleRoot, tree.levels_eq, leafHashes]

theorem levelsCount_sub_one : tree.levelsCount - 1 = Nat.clog 2 tree.keyCount := by
  rw [levelsCount, tree.levels_eq, ← leafHashes, length_buildLevels tree.leafHashes_ne_nil,
    length_leafHashes, Nat.add_sub_cancel]

theorem nodeAt_eq {level : Nat} (hlevel : level ≤ Nat.clog 2 tree.keyCount) (index : Nat) :
    tree.nodeAt level index = (foldUp nodeHash level tree.leafHashes)[index]? := by
  rw [nodeAt, tree.levels_eq, ← leafHashes,
    getElem?_buildLevels tree.leafHashes_ne_nil (by rwa [length_leafHashes])]
  rfl

theorem keyCount_pos : 0 < tree.keyCount :=
  List.length_pos_of_ne_nil tree.leaves_ne_nil

theorem keyAt_eq_some {idx : Nat} (hidx : idx < tree.keyCount) :
    ∃ leaf, tree.leaves[idx]? = some leaf ∧ tree.keyAt idx = some leaf.1 := by
  have hleaf := List.getElem?_eq_getElem (show idx < tree.leaves.length from hidx)
  exact ⟨_, hleaf, by rw [keyAt, hleaf, Option.map_some]⟩

/-- `build` accepts exactly the non-empty lists under the cap with distinct keys. -/
theorem build_eq_ok_iff {entries : List (H × H)} :
    (∃ tree, build entries = .ok tree) ↔
      entries ≠ [] ∧ entries.length ≤ maxCommitmentKeyCount ∧ (entries.map Prod.fst).Nodup := by
  have hnodup : (entries.map Prod.fst).Nodup ↔ firstDuplicate (sortByKey entries) = none := by
    rw [firstDuplicate_eq_none_iff (sortByKey_pairwise_le entries),
      ← ((sortByKey_perm entries).map Prod.fst).nodup_iff, List.nodup_iff_pairwise_ne,
      List.pairwise_map]
    constructor
    · intro hne
      exact (hne.and (sortByKey_pairwise_le entries)).imp fun hboth =>
        lt_of_le_of_ne hboth.2 hboth.1
    · exact fun hlt => hlt.imp fun hab => hab.ne
  unfold build
  split
  · rename_i hnil
    simp [hnil]
  · split
    · rename_i hmax
      simp only [reduceCtorEq, exists_false, false_iff, not_and]
      intro _ hle
      omega
    · rename_i hne hmax
      rw [hnodup]
      split <;> rename_i hdup <;> simp [hdup, hne, Nat.not_lt.mp hmax]

theorem leaves_of_build {entries : List (H × H)} {tree : MerkleTree H}
    (hbuild : build entries = .ok tree) : tree.leaves = (sortByKey entries).map leafOf := by
  unfold build at hbuild
  split at hbuild
  · cases hbuild
  · split at hbuild
    · cases hbuild
    · split at hbuild
      · cases hbuild
      · cases hbuild
        rfl

theorem build_of_pairwise_lt {entries : List (H × H)} (hne : entries ≠ [])
    (hmax : entries.length ≤ maxCommitmentKeyCount)
    (hsorted : entries.Pairwise fun a b => a.1 < b.1) :
    (entries.map Prod.fst).Nodup ∧
      ∃ tree, build entries = .ok tree ∧ tree.leaves = entries.map leafOf := by
  have hnodup : (entries.map Prod.fst).Nodup := by
    rw [List.nodup_iff_pairwise_ne, List.pairwise_map]
    exact hsorted.imp fun hlt => hlt.ne
  obtain ⟨tree, hbuild⟩ := build_eq_ok_iff.mpr ⟨hne, hmax, hnodup⟩
  have hsort : sortByKey entries = entries :=
    List.mergeSort_of_pairwise (hsorted.imp fun hlt => by simpa using hlt.le)
  exact ⟨hnodup, tree, hbuild, by rw [leaves_of_build hbuild, hsort]⟩

theorem leafHashes_of_build {entries : List (H × H)} {tree : MerkleTree H}
    (hbuild : build entries = .ok tree) :
    tree.leafHashes = (sortByKey entries).map fun entry => leafHash entry.1 entry.2 := by
  rw [leafHashes, leaves_of_build hbuild, List.map_map]
  rfl

theorem keyCount_of_build {entries : List (H × H)} {tree : MerkleTree H}
    (hbuild : build entries = .ok tree) : tree.keyCount = entries.length := by
  rw [keyCount, leaves_of_build hbuild, List.length_map, (sortByKey_perm entries).length_eq]

end MerkleTree

end AntNode
