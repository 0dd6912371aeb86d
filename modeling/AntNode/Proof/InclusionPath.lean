import AntNode.Proof.MerkleTree
import AntNode.Transcript

/-!
# Inclusion paths

`path_for` walks the stored levels, `verify_path` sees a count, an index and a list of hashes. The
path of a leaf is its sibling path in the sense of the levels, and `verify_path` climbs a path of
exactly the tree's depth, so with `node_hash` injective nothing but the leaf's own path is accepted.
-/

namespace AntNode

open LeftPacked

variable {H : Type} [Digest H]

theorem trailingZeros_two_pow {k : Nat} (hk : k < 32) : trailingZeros (2 ^ k) = k := by
  rw [trailingZeros, List.findIdx_eq (by simpa using hk)]
  refine ⟨by simp, fun j hj => ?_⟩
  simp [hj.ne']

theorem clog_lt_of_le_maxCommitmentKeyCount {n : Nat} (hn : n ≤ maxCommitmentKeyCount) :
    Nat.clog 2 n < 32 := by
  have hle : n ≤ 2 ^ 20 := hn.trans (by decide)
  have := Nat.clog_le_of_le_pow hle
  omega

theorem verifyPath_eq_true_iff {leaf : H} {path : List H} {i n : Nat} {root : H}
    (hn : n ≤ maxCommitmentKeyCount) :
    verifyPath leaf path i n root = true ↔
      i < n ∧ path.length = Nat.clog 2 n ∧ climb nodeHash path i leaf = root := by
  have hclog := clog_lt_of_le_maxCommitmentKeyCount hn
  have hrounded : checkedNextPowerOfTwo n = some (2 ^ Nat.clog 2 n) :=
    if_pos (Nat.pow_lt_pow_right (by omega) hclog)
  rw [verifyPath, hrounded]
  simp only [trailingZeros_two_pow hclog]
  by_cases hi : i < n
  · rw [if_neg (by omega)]
    simp [hi]
  · rw [if_pos (by omega)]
    simp [hi]

namespace MerkleTree

omit [Digest H] in
theorem getElem?_siblingIdx {level : List H} {i : Nat} (hi : i < level.length) :
    level[if i % 2 = 0 then (if i + 1 < level.length then i + 1 else i) else i - 1]? =
      sibling level i := by
  rw [sibling, xor_one_eq]
  by_cases heven : i % 2 = 0
  · rw [if_pos heven, if_pos heven]
    by_cases hright : i + 1 < level.length
    · rw [if_pos hright, List.getElem?_eq_getElem hright, Option.some_or]
    · rw [if_neg hright, List.getElem?_eq_none (by omega : level.length ≤ i + 1), Option.none_or]
  · rw [if_neg heven, if_neg heven,
      List.getElem?_eq_getElem (by omega : i - 1 < level.length), Option.some_or]

/-- The loop of `path_for` collects the sibling path up to the root. -/
theorem pathFrom_spec {level : List H} {i : Nat} (hi : i < level.length) :
    ∃ path, pathFrom (buildLevels level).dropLast i = some path ∧
      path.length = Nat.clog 2 level.length ∧ SiblingPath nodeHash level i path := by
  induction level using buildLevels.induct generalizing i with
  | case1 level hlong ih =>
      have hne : buildLevels (buildNextLevel level) ≠ [] := by
        rw [buildLevels]
        split <;> simp
      have hup : i / 2 < (buildNextLevel level).length := by
        rw [length_buildNextLevel]
        omega
      obtain ⟨path, hpath, hlen, hsibs⟩ := ih hup
      obtain ⟨sib, hsib⟩ := sibling_isSome hi
      refine ⟨sib :: path, ?_, ?_, hsib, hsibs⟩
      · rw [buildLevels, if_pos hlong, List.dropLast_cons_of_ne_nil hne, pathFrom, hpath,
          getElem?_siblingIdx hi, hsib]
        rfl
      · rw [List.length_cons, hlen, length_buildNextLevel, Nat.clog_of_two_le (by omega) hlong,
          show level.length + 2 - 1 = level.length + 1 by omega]
  | case2 level hshort =>
      refine ⟨[], ?_, ?_, trivial⟩
      · rw [buildLevels, if_neg hshort]
        rfl
      · rw [show level.length = 1 by omega]
        rfl

variable {tree : MerkleTree H}

theorem keyIndex_of_getElem? {i : Nat} {leaf : H × H} (hleaf : tree.leaves[i]? = some leaf) :
    tree.keyIndex leaf.1 = some i := by
  obtain ⟨hi, hget⟩ := List.getElem?_eq_some_iff.mp hleaf
  rw [keyIndex, List.findIdx?_eq_some_iff_getElem]
  refine ⟨hi, by simp [hget], fun j hj => ?_⟩
  have hlt := List.pairwise_iff_getElem.mp tree.sorted j i (by omega) hi hj
  rw [hget] at hlt
  simp [hlt.ne]

/-- The path of the key at position `i`: the siblings of its leaf, one for each level below the
root. -/
theorem pathFor_keyAt {i : Nat} (hi : i < tree.keyCount) :
    ∃ path, (tree.keyAt i).bind tree.pathFor = some path ∧
      path.length = Nat.clog 2 tree.keyCount ∧ SiblingPath nodeHash tree.leafHashes i path := by
  obtain ⟨leaf, hleaf, hkey⟩ := tree.keyAt_eq_some hi
  have hi' : i < tree.leafHashes.length := by rwa [length_leafHashes]
  obtain ⟨path, hpath, hlen, hsibs⟩ := pathFrom_spec hi'
  rw [length_leafHashes] at hlen
  refine ⟨path, ?_, hlen, hsibs⟩
  rw [hkey, Option.bind_some, pathFor, keyIndex_of_getElem? hleaf, Option.bind_some, tree.levels_eq]
  exact hpath

theorem div_two_pow_clog {i n : Nat} (hi : i < n) : i / 2 ^ Nat.clog 2 n = 0 :=
  Nat.div_eq_of_lt (hi.trans_le (Nat.le_pow_clog (by omega) n))

/-- The node a path of full length climbs to is the root. -/
theorem getElem?_foldUp_root {i : Nat} {path : List H} (hi : i < tree.keyCount)
    (hlen : path.length = Nat.clog 2 tree.keyCount) :
    (foldUp nodeHash path.length tree.leafHashes)[i / 2 ^ path.length]? = some tree.root := by
  have hroot := foldUp_clog_eq_singleton tree.leafHashes_ne_nil
  rw [length_leafHashes, ← root_eq] at hroot
  rw [hlen, hroot, div_two_pow_clog hi]
  rfl

theorem verifyPath_pathFor {leaf : H} {path : List H} {i : Nat} (hi : i < tree.keyCount)
    (hleaf : tree.leafHashes[i]? = some leaf)
    (hpath : (tree.keyAt i).bind tree.pathFor = some path) :
    verifyPath leaf path i tree.keyCount tree.root = true := by
  obtain ⟨own, hown, hlen, hsibs⟩ := pathFor_keyAt hi
  obtain rfl : path = own := Option.some.inj (hpath.symm.trans hown)
  refine (verifyPath_eq_true_iff tree.length_le).mpr ⟨hi, hlen, ?_⟩
  have hclimb := getElem?_foldUp_climb nodeHash hleaf hsibs
  rw [getElem?_foldUp_root hi hlen] at hclimb
  exact (Option.some.inj hclimb).symm

theorem pathFor_of_verifyPath (hnode : Function.Injective2 (nodeHash (H := H))) {leaf : H}
    {path : List H} {i : Nat} (hverify : verifyPath leaf path i tree.keyCount tree.root = true) :
    i < tree.keyCount ∧ tree.leafHashes[i]? = some leaf ∧
      (tree.keyAt i).bind tree.pathFor = some path := by
  obtain ⟨hi, hlen, hclimb⟩ := (verifyPath_eq_true_iff tree.length_le).mp hverify
  have htop := getElem?_foldUp_root hi hlen
  rw [← hclimb] at htop
  obtain ⟨hleaf, hsibs⟩ := climb_sound nodeHash hnode (by rwa [length_leafHashes]) htop
  obtain ⟨own, hown, hownlen, hownsibs⟩ := pathFor_keyAt hi
  have heq : path = own := SiblingPath.unique nodeHash (hlen.trans hownlen.symm) hsibs hownsibs
  exact ⟨hi, hleaf, by rw [hown, heq]⟩

/-- Inclusion paths are exact: the leaf at sorted position `i` passes with its own path, under any
hash, and with an injective node hash nothing else passes. -/
theorem verifyPath_iff_pathFor {entries : List (H × H)} (hbuild : build entries = .ok tree)
    (leaf : H) (path : List H) (i : Nat) :
    (i < entries.length ∧
        (sortByKey entries)[i]?.map (fun entry => leafHash entry.1 entry.2) = some leaf ∧
        (tree.keyAt i).bind tree.pathFor = some path →
      verifyPath leaf path i entries.length tree.root = true) ∧
    (Function.Injective2 (nodeHash (H := H)) →
      (verifyPath leaf path i entries.length tree.root = true ↔
        i < entries.length ∧
          (sortByKey entries)[i]?.map (fun entry => leafHash entry.1 entry.2) = some leaf ∧
          (tree.keyAt i).bind tree.pathFor = some path)) := by
  rw [← keyCount_of_build hbuild, ← List.getElem?_map, ← leafHashes_of_build hbuild]
  have hcomplete : i < tree.keyCount ∧ tree.leafHashes[i]? = some leaf ∧
      (tree.keyAt i).bind tree.pathFor = some path →
      verifyPath leaf path i tree.keyCount tree.root = true :=
    fun ⟨hi, hleaf, hpath⟩ => verifyPath_pathFor hi hleaf hpath
  exact ⟨hcomplete, fun hnode => ⟨pathFor_of_verifyPath hnode, hcomplete⟩⟩

/-- Three leaves, so the last one is its own sibling. -/
theorem verifyPath_iff_pathFor_three :
    ∃ tree : MerkleTree Transcript,
      build [(⟨[0]⟩, ⟨[0]⟩), (⟨[1]⟩, ⟨[1]⟩), (⟨[2]⟩, ⟨[2]⟩)] = .ok tree ∧
      Function.Injective2 (nodeHash (H := Transcript)) ∧
      ∀ leaf path i, verifyPath leaf path i 3 tree.root = true ↔
        i < 3 ∧
          (sortByKey [(⟨[0]⟩, ⟨[0]⟩), (⟨[1]⟩, ⟨[1]⟩), (⟨[2]⟩, ⟨[2]⟩)])[i]?.map
            (fun entry : Transcript × Transcript => leafHash entry.1 entry.2) = some leaf ∧
          (tree.keyAt i).bind tree.pathFor = some path := by
  obtain ⟨tree, hbuild⟩ := (build_eq_ok_iff (H := Transcript)).mpr
    (show [(⟨[0]⟩, ⟨[0]⟩), (⟨[1]⟩, ⟨[1]⟩), (⟨[2]⟩, ⟨[2]⟩)] ≠ [] ∧ _ by decide +kernel)
  exact ⟨tree, hbuild, Transcript.nodeHash_injective, fun leaf path i =>
    (verifyPath_iff_pathFor hbuild leaf path i).2 Transcript.nodeHash_injective⟩

end MerkleTree

end AntNode
