import AntNode.Proof.Selection

/-!
# The structural check on any list of leaves

Both directions are about a list of leaf hashes and the root the level builder gives it; nothing
asks where the list came from. That matters twice: a tree made by `build` is one such list, and a
root made up by a dishonest node is the root of another.
-/

namespace AntNode

open LeftPacked

variable {H : Type} [Digest H]

def SubtreeProof.entries (proof : SubtreeProof H) : List (H × H) :=
  proof.leaves.map fun leaf => (leaf.key, leaf.bytesHash)

def entryHashes (entries : List (H × H)) : List H :=
  entries.map fun entry => leafHash entry.1 entry.2

@[simp]
theorem length_entryHashes (entries : List (H × H)) :
    (entryHashes entries).length = entries.length := by
  simp [entryHashes]

theorem entryHashes_injective (hleaf : Function.Injective2 (leafHash (H := H))) :
    Function.Injective (entryHashes (H := H)) :=
  List.map_injective_iff.mpr fun _ _ heq => Prod.ext (hleaf heq).1 (hleaf heq).2

theorem block_entryHashes (entries : List (H × H)) (k slot : Nat) :
    block (entryHashes entries) k slot = entryHashes (block entries k slot) :=
  block_map _ entries k slot

theorem climbCutHashes_eq (cuts : List H) {levels : Nat} (hlevels : levels ≤ cuts.length)
    (nodeIndex : Nat) (cur : H) :
    climbCutHashes cuts levels nodeIndex cur =
      .ok (climb nodeHash (cuts.take levels).reverse nodeIndex cur) := by
  induction levels generalizing nodeIndex cur with
  | zero => rfl
  | succ levels ih =>
      have hget : cuts[levels]? = some cuts[levels] := List.getElem?_eq_getElem hlevels
      rw [climbCutHashes, hget]
      dsimp only
      rw [ih (by omega), ← List.take_append_getElem hlevels, List.reverse_append]
      rfl

theorem foldLevels_eq {level : List H} (hne : level ≠ []) (levels : Nat) :
    foldLevels level levels = (foldUp nodeHash levels level).head?.getD Digest.zero := by
  rw [foldLevels, if_neg hne, buildNextLevel_iterate]

theorem ascendingByKey_iff {leaves : List (SubtreeLeaf H)} :
    ascendingByKey leaves = true ↔ leaves.Pairwise fun a b => a.key < b.key := by
  have hchain : ascendingByKey leaves = true ↔ leaves.IsChain fun a b => a.key < b.key := by
    induction leaves using ascendingByKey.induct with
    | case1 a b rest ih => simp [ascendingByKey, ih]
    | case2 leaves hshort =>
        match leaves, hshort with
        | [], _ => simp [ascendingByKey]
        | [a], _ => simp [ascendingByKey]
        | a :: b :: rest, hshort => exact absurd rfl (hshort a b rest)
  have htrans : ∀ a b c : SubtreeLeaf H, a.key < b.key → b.key < c.key → a.key < c.key :=
    fun _ _ _ hab hbc => lt_trans hab hbc
  have : Trans (fun a b : SubtreeLeaf H => a.key < b.key)
      (fun a b : SubtreeLeaf H => a.key < b.key) (fun a b : SubtreeLeaf H => a.key < b.key) :=
    ⟨fun hab hbc => htrans _ _ _ hab hbc⟩
  rw [hchain, List.isChain_iff_pairwise]

/-- What acceptance says, with the two loops as a fold and a climb. -/
theorem verifySubtreeProof_eq_valid_iff {proof : SubtreeProof H} {nonce : Nonce}
    {commitment : StorageCommitment H} :
    verifySubtreeProof proof nonce commitment = .valid ↔
      ∃ path, selectSubtreePath nonce commitment.keyCount = some path ∧
        proof.leaves.length = path.realLeafCount ∧
        proof.siblingCutHashes.length = path.depth ∧
        (proof.leaves.Pairwise fun a b => a.key < b.key) ∧
        climb nodeHash proof.siblingCutHashes.reverse path.slot
          (foldLevels (entryHashes proof.entries)
            (Nat.clog 2 commitment.keyCount - path.depth)) = commitment.root := by
  have hhashes : entryHashes proof.entries
      = proof.leaves.map fun leaf => leafHash leaf.key leaf.bytesHash := by
    simp [entryHashes, SubtreeProof.entries]
  unfold verifySubtreeProof
  split
  · rename_i hnone
    simp [hnone]
  · rename_i path hpath
    obtain ⟨hpos, hmax, -⟩ := selectSubtreePath_eq_some hpath
    rw [treeDepth_eq_some hpos hmax, hhashes, ← ascendingByKey_iff]
    simp only [hpath, Option.some.injEq, exists_eq_left']
    split
    · simp_all
    · split
      · simp_all
      · rename_i hleaves hcuts
        rw [not_not] at hleaves hcuts
        split
        · simp_all
        · rw [← hcuts, climbCutHashes_eq _ le_rfl, List.take_length]
          simp_all

/-! ### The selected node -/

namespace Selected

variable {nonce : Nonce} {keyCount : Nat} {path : SubtreePath}

theorem slot_lt_length_foldUp (hsel : Selected nonce keyCount path) {leaves : List H}
    (hlen : leaves.length = keyCount) :
    path.slot < (foldUp nodeHash (Nat.clog 2 keyCount - path.depth) leaves).length := by
  rw [lt_length_foldUp_iff, hlen, ← hsel.leafStart_eq]
  exact hsel.leafStart_lt

/-- Going up from the selected node for its depth ends at the root. -/
theorem getElem?_foldUp_depth (hsel : Selected nonce keyCount path) {leaves : List H}
    (hlen : leaves.length = keyCount) :
    (foldUp nodeHash path.depth
      (foldUp nodeHash (Nat.clog 2 keyCount - path.depth) leaves))[path.slot / 2 ^ path.depth]?
      = some (merkleRoot leaves) := by
  have hne : leaves ≠ [] := by
    apply List.ne_nil_of_length_pos
    have := hsel.leafStart_lt
    omega
  rw [← foldUp_add, Nat.add_sub_cancel' hsel.depth_le, ← hlen, foldUp_clog_eq_singleton hne,
    hsel.slot_eq, Nat.div_eq_of_lt (slotAt_lt nonce path.depth)]
  rfl

theorem length_entryHashes_entries {proof : SubtreeProof H}
    (hlen : proof.leaves.length = path.realLeafCount) :
    (entryHashes proof.entries).length = path.realLeafCount := by
  rw [length_entryHashes, SubtreeProof.entries, List.length_map, hlen]

theorem entryHashes_entries_ne_nil (hsel : Selected nonce keyCount path) {proof : SubtreeProof H}
    (hlen : proof.leaves.length = path.realLeafCount) : entryHashes proof.entries ≠ [] := by
  have hlt := hsel.leafStart_lt_leafEnd
  apply List.ne_nil_of_length_pos
  rw [length_entryHashes_entries hlen, SubtreePath.realLeafCount]
  omega

end Selected

theorem verifySubtreeProof_valid_of_block {entries : List (H × H)} {proof : SubtreeProof H}
    {nonce : Nonce} {path : SubtreePath} {commitment : StorageCommitment H}
    (hpath : selectSubtreePath nonce entries.length = some path)
    (hcount : commitment.keyCount = entries.length)
    (hroot : commitment.root = merkleRoot (entryHashes entries))
    (hblock : proof.entries = block entries (Nat.clog 2 entries.length - path.depth) path.slot)
    (hsorted : (block entries (Nat.clog 2 entries.length - path.depth) path.slot).Pairwise
      fun a b => a.1 < b.1)
    (hcuts : proof.siblingCutHashes.length = path.depth)
    (hsibs : SiblingPath nodeHash
      (foldUp nodeHash (Nat.clog 2 entries.length - path.depth) (entryHashes entries))
      path.slot proof.siblingCutHashes.reverse) :
    verifySubtreeProof proof nonce commitment = .valid := by
  obtain ⟨-, -, hsel⟩ := selectSubtreePath_eq_some hpath
  set k := Nat.clog 2 entries.length - path.depth with hk
  have hlen : proof.leaves.length = path.realLeafCount := by
    have hlenBlock : (block entries k path.slot).length = path.realLeafCount :=
      hsel.length_block rfl
    rw [← hblock, SubtreeProof.entries, List.length_map] at hlenBlock
    exact hlenBlock
  obtain ⟨node, hnode⟩ : ∃ node,
      (foldUp nodeHash k (entryHashes entries))[path.slot]? = some node :=
    ⟨_, List.getElem?_eq_getElem (hsel.slot_lt_length_foldUp (length_entryHashes entries))⟩
  have hfold : foldLevels (entryHashes proof.entries) k = node := by
    rw [foldLevels_eq (hsel.entryHashes_entries_ne_nil hlen), hblock, ← block_entryHashes,
      head?_foldUp_block, hnode, Option.getD_some]
  have hclimb := getElem?_foldUp_climb nodeHash hnode hsibs
  rw [List.length_reverse, hcuts, hsel.getElem?_foldUp_depth (length_entryHashes entries)] at hclimb
  refine verifySubtreeProof_eq_valid_iff.mpr
    ⟨path, by rw [hcount, hpath], hlen, hcuts, ?_, ?_⟩
  · have hpairs := hblock ▸ hsorted
    rw [SubtreeProof.entries, List.pairwise_map] at hpairs
    exact hpairs
  · rw [hcount, ← hk, hfold, hroot]
    exact (Option.some.inj hclimb).symm

/-- With an injective node hash nothing but the list's own block and siblings is accepted. -/
theorem block_of_verifySubtreeProof_valid (hnode : Function.Injective2 (nodeHash (H := H)))
    {leaves : List H} {proof : SubtreeProof H} {nonce : Nonce} {path : SubtreePath}
    {commitment : StorageCommitment H}
    (hpath : selectSubtreePath nonce leaves.length = some path)
    (hcount : commitment.keyCount = leaves.length)
    (hroot : commitment.root = merkleRoot leaves)
    (hvalid : verifySubtreeProof proof nonce commitment = .valid) :
    entryHashes proof.entries = block leaves (Nat.clog 2 leaves.length - path.depth) path.slot ∧
      SiblingPath nodeHash (foldUp nodeHash (Nat.clog 2 leaves.length - path.depth) leaves)
        path.slot proof.siblingCutHashes.reverse := by
  obtain ⟨path', hpath', hlen, hcuts, -, hclimb⟩ := verifySubtreeProof_eq_valid_iff.mp hvalid
  obtain rfl : path = path' := by
    rw [hcount, hpath] at hpath'
    exact Option.some.inj hpath'
  obtain ⟨-, -, hsel⟩ := selectSubtreePath_eq_some hpath
  rw [hcount] at hclimb
  set k := Nat.clog 2 leaves.length - path.depth with hk
  have htop : (foldUp nodeHash proof.siblingCutHashes.reverse.length
      (foldUp nodeHash k leaves))[path.slot / 2 ^ proof.siblingCutHashes.reverse.length]?
      = some (climb nodeHash proof.siblingCutHashes.reverse path.slot
          (foldLevels (entryHashes proof.entries) k)) := by
    rw [hclimb, hroot, List.length_reverse, hcuts]
    exact hsel.getElem?_foldUp_depth rfl
  obtain ⟨hblockRoot, hsibs⟩ :=
    climb_sound nodeHash hnode (hsel.slot_lt_length_foldUp rfl) htop
  refine ⟨?_, hsibs⟩
  have hne := hsel.entryHashes_entries_ne_nil hlen
  obtain ⟨node, hproofRoot⟩ :
      ∃ node, (foldUp nodeHash k (entryHashes proof.entries)).head? = some node :=
    ⟨_, List.head?_eq_some_head (foldUp_ne_nil nodeHash hne k)⟩
  apply eq_of_head?_foldUp nodeHash hnode (k := k)
  · rw [Selected.length_entryHashes_entries hlen, hsel.length_block rfl]
  · rw [Selected.length_entryHashes_entries hlen]
    exact hsel.realLeafCount_le
  · rw [head?_foldUp_block, hblockRoot, foldLevels_eq hne, hproofRoot, Option.getD_some]

end AntNode
