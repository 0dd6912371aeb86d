import AntNode.Lib.Fallible
import AntNode.Proof.SubtreeStructure
import AntNode.Transcript

/-!
# Subtree proofs: honest ones verify, and nothing else does

The responder reads its cut-hashes from the stored levels while it walks down; the auditor folds a
block and climbs by slot parity. `subtreePlan_spec` puts the responder's plan in the auditor's
terms, and the two results are then the two directions of the structural check.
-/

namespace AntNode

open LeftPacked

variable {H : Type} [Digest H]

theorem slotAt_div_two_pow (nonce : Nonce) (depth more : Nat) :
    slotAt nonce (depth + more) / 2 ^ more = slotAt nonce depth := by
  induction more with
  | zero => simp
  | succ more ih =>
      rw [← add_assoc, slotAt, pow_succ', ← Nat.div_div_eq_div_mul, childSlot_div_two, ih]

/-- The cut-hashes a plan reads are the siblings above the selected node, root first. -/
theorem cutHashes_spec (tree : MerkleTree H) (nonce : Nonce) (remaining depth : Nat)
    (hdepth : depth + remaining ≤ Nat.clog 2 tree.keyCount)
    (hstart : slotAt nonce (depth + remaining)
      * 2 ^ (Nat.clog 2 tree.keyCount - (depth + remaining)) < tree.keyCount) :
    ∃ cuts, cutHashes tree nonce (Nat.clog 2 tree.keyCount) remaining depth (slotAt nonce depth)
        = .ok cuts ∧ cuts.length = remaining ∧
      SiblingPath nodeHash
        (foldUp nodeHash (Nat.clog 2 tree.keyCount - (depth + remaining)) tree.leafHashes)
        (slotAt nonce (depth + remaining)) cuts.reverse := by
  induction remaining generalizing depth with
  | zero => exact ⟨[], rfl, rfl, trivial⟩
  | succ remaining ih =>
      set total := Nat.clog 2 tree.keyCount with htotal
      rw [show depth + (remaining + 1) = depth + 1 + remaining by omega] at hdepth hstart ⊢
      obtain ⟨below, hbelow, hlen, hsibs⟩ := ih (depth + 1) hdepth hstart
      have hfold : foldUp nodeHash remaining
          (foldUp nodeHash (total - (depth + 1 + remaining)) tree.leafHashes)
          = foldUp nodeHash (total - (depth + 1)) tree.leafHashes := by
        rw [← foldUp_add]
        congr 1
        omega
      -- the node passed on the way down exists, since the block below it does
      have hexists : slotAt nonce (depth + 1)
          < (foldUp nodeHash (total - (depth + 1)) tree.leafHashes).length := by
        rw [← hfold, lt_length_foldUp_iff, lt_length_foldUp_iff, tree.length_leafHashes]
        calc slotAt nonce (depth + 1) * 2 ^ remaining * 2 ^ (total - (depth + 1 + remaining))
            = slotAt nonce (depth + 1 + remaining) / 2 ^ remaining * 2 ^ remaining
                * 2 ^ (total - (depth + 1 + remaining)) := by rw [slotAt_div_two_pow]
          _ ≤ slotAt nonce (depth + 1 + remaining) * 2 ^ (total - (depth + 1 + remaining)) :=
              Nat.mul_le_mul_right _ (Nat.div_mul_le_self _ _)
          _ < tree.keyCount := hstart
      obtain ⟨sib, hsib⟩ := sibling_isSome hexists
      refine ⟨sib :: below, ?_, by simp [hlen], ?_⟩
      · rw [cutHashes, tree.nodeAt_eq (by omega), tree.nodeAt_eq (by omega)]
        rw [sibling, slotAt] at hsib
        rw [hsib,
          show childSlot nonce depth (slotAt nonce depth) = slotAt nonce (depth + 1) from rfl, hbelow]
        rfl
      · rw [List.reverse_cons, siblingPath_concat, List.length_reverse, hlen, hfold,
          slotAt_div_two_pow]
        exact ⟨hsibs, hsib⟩

/-- What a plan holds: the keys of the selected block and the siblings above it. -/
theorem subtreePlan_spec (tree : MerkleTree H) (nonce : Nonce) :
    ∃ path plan, selectSubtreePath nonce tree.keyCount = some path ∧
      subtreePlan tree nonce = .ok plan ∧
      plan.leafKeys = block tree.leafKeys (Nat.clog 2 tree.keyCount - path.depth) path.slot ∧
      plan.siblingCutHashes.length = path.depth ∧
      SiblingPath nodeHash
        (foldUp nodeHash (Nat.clog 2 tree.keyCount - path.depth) tree.leafHashes)
        path.slot plan.siblingCutHashes.reverse := by
  obtain ⟨path, hpath, hsel⟩ := selectSubtreePath_spec nonce tree.keyCount_pos tree.length_le
  obtain ⟨cuts, hcuts, hlen, hsibs⟩ := cutHashes_spec tree nonce path.depth 0
    (by simpa using hsel.depth_le) (by
      rw [Nat.zero_add, ← hsel.slot_eq, ← hsel.leafStart_eq]
      exact hsel.leafStart_lt)
  rw [Nat.zero_add, ← hsel.slot_eq] at hsibs
  have hend : path.leafEnd ≤ tree.keyCount := hsel.leafEnd_eq ▸ min_le_right _ _
  have hkeys : (List.range' path.leafStart path.realLeafCount).mapM
      (fun idx => okOr (tree.keyAt idx) (BuildProofError.missingKey idx : BuildProofError H))
      = .ok ((List.range' path.leafStart path.realLeafCount).map
          fun idx => (tree.keyAt idx).getD Digest.zero) := by
    apply Fallible.mapM_eq_ok
    intro idx hidx
    rw [List.mem_range'_1, SubtreePath.realLeafCount] at hidx
    have hlt : idx < tree.keyCount := by omega
    obtain ⟨leaf, -, hkey⟩ := tree.keyAt_eq_some hlt
    rw [hkey]
    rfl
  refine ⟨path, ⟨(List.range' path.leafStart path.realLeafCount).map
    fun idx => (tree.keyAt idx).getD Digest.zero, cuts⟩, hpath, ?_, ?_, hlen, hsibs⟩
  · have hwalk : cutHashes tree nonce (tree.levelsCount - 1) path.depth 0 0 = .ok cuts := by
      rw [tree.levelsCount_sub_one]
      exact hcuts
    rw [subtreePlan, hpath]
    exact Fallible.bind_eq_ok_iff.mpr ⟨path, rfl, Fallible.bind_eq_ok_iff.mpr ⟨_, hkeys,
      Fallible.bind_eq_ok_iff.mpr ⟨cuts, hwalk, rfl⟩⟩⟩
  · rw [hsel.block_eq (by rw [MerkleTree.leafKeys, List.length_map, MerkleTree.keyCount])]
    apply List.ext_getElem?
    intro i
    rw [List.getElem?_map, List.getElem?_take]
    by_cases hi : i < path.realLeafCount
    · rw [if_pos hi, List.getElem?_range' hi, Option.map_some, List.getElem?_drop,
        MerkleTree.leafKeys, List.getElem?_map, one_mul]
      rw [SubtreePath.realLeafCount] at hi
      have hlt : path.leafStart + i < tree.keyCount := by omega
      obtain ⟨leaf, hleaf, hkey⟩ := tree.keyAt_eq_some hlt
      rw [hkey, hleaf]
      rfl
    · rw [if_neg hi, List.getElem?_eq_none (by simpa using Nat.le_of_not_lt hi), Option.map_none]

theorem leafKeys_of_build {entries : List (H × H)} {tree : MerkleTree H}
    (hbuild : MerkleTree.build entries = .ok tree) :
    tree.leafKeys = (sortByKey entries).map Prod.fst := by
  rw [MerkleTree.leafKeys, MerkleTree.leaves_of_build hbuild, List.map_map]
  rfl

theorem sortByKey_pairwise_lt {entries : List (H × H)} {tree : MerkleTree H}
    (hbuild : MerkleTree.build entries = .ok tree) :
    (sortByKey entries).Pairwise fun a b => a.1 < b.1 := by
  have hsorted := tree.sorted
  rw [MerkleTree.leaves_of_build hbuild, List.pairwise_map] at hsorted
  exact hsorted

theorem map_subtreeLeaf_entries {entries : List (H × H)} {nonce : Nonce} {peer : H}
    {bytesOf : H → Bytes} (hbytes : ∀ entry ∈ entries, blake3 (bytesOf entry.1) = entry.2) :
    ((entries.map Prod.fst).map fun key => subtreeLeaf nonce peer key (bytesOf key)).map
      (fun leaf => (leaf.key, leaf.bytesHash)) = entries := by
  rw [List.map_map, List.map_map]
  refine (List.map_congr_left fun entry hentry => ?_).trans (List.map_id entries)
  exact Prod.ext rfl (hbytes entry hentry)

/-- A proof assembled from a tree's own plan is accepted, as soon as the leaves carry the committed
entries. -/
theorem verifySubtreeProof_plan {entries : List (H × H)} {tree : MerkleTree H}
    (hbuild : MerkleTree.build entries = .ok tree) {nonce : Nonce} {plan : SubtreePlan H}
    (hplan : subtreePlan tree nonce = .ok plan) {peer : H} {bytesOf : H → Bytes}
    (hbytes : ∀ entry ∈ entries, blake3 (bytesOf entry.1) = entry.2)
    {commitment : StorageCommitment H} (hroot : commitment.root = tree.root)
    (hcount : commitment.keyCount = tree.keyCount) :
    verifySubtreeProof ⟨plan.leafKeys.map fun key => subtreeLeaf nonce peer key (bytesOf key),
      plan.siblingCutHashes⟩ nonce commitment = .valid := by
  obtain ⟨path, plan', hpath, hplan', hkeys, hlen, hsibs⟩ := subtreePlan_spec tree nonce
  obtain rfl : plan = plan' := Except.ok.inj (hplan.symm.trans hplan')
  have hperm := sortByKey_perm entries
  have hkeyCount : tree.keyCount = (sortByKey entries).length := by
    rw [MerkleTree.keyCount_of_build hbuild, hperm.length_eq]
  have hhashes : tree.leafHashes = entryHashes (sortByKey entries) :=
    MerkleTree.leafHashes_of_build hbuild
  rw [leafKeys_of_build hbuild, block_map] at hkeys
  rw [hkeyCount] at hpath hkeys hsibs hcount
  rw [hhashes] at hsibs
  refine verifySubtreeProof_valid_of_block hpath hcount ?_ ?_ ?_ hlen hsibs
  · rw [hroot, tree.root_eq, hhashes]
  · rw [SubtreeProof.entries, hkeys]
    exact map_subtreeLeaf_entries fun entry hentry =>
      hbytes entry (hperm.mem_iff.mp ((block_sublist _ _ _).mem hentry))
  · exact (sortByKey_pairwise_lt hbuild).sublist (block_sublist _ _ _)

/-- **Honest subtree proofs always verify.** For every key set `build` accepts, every nonce and
every byte lookup that returns the committed contents, the responder's proof is built and the
auditor accepts it. -/
theorem buildSubtreeProof_verifies {entries : List (H × H)} (hpos : 1 ≤ entries.length)
    (hmax : entries.length ≤ maxCommitmentKeyCount) (hnodup : (entries.map Prod.fst).Nodup)
    (nonce : Nonce) (peer : H) (bytesFor : H → Option Bytes)
    (hbytes : ∀ entry ∈ entries, ∃ bytes, bytesFor entry.1 = some bytes ∧ blake3 bytes = entry.2) :
    ∃ tree proof, MerkleTree.build entries = .ok tree ∧
      buildSubtreeProof tree nonce peer bytesFor = .ok proof ∧
      ∀ commitment : StorageCommitment H, commitment.root = tree.root →
        commitment.keyCount = tree.keyCount →
        verifySubtreeProof proof nonce commitment = .valid := by
  obtain ⟨tree, hbuild⟩ := MerkleTree.build_eq_ok_iff.mpr
    ⟨List.ne_nil_of_length_pos hpos, hmax, hnodup⟩
  obtain ⟨path, plan, -, hplan, hkeys, -⟩ := subtreePlan_spec tree nonce
  obtain ⟨bytesOf, hbytesOf⟩ : ∃ bytesOf : H → Bytes, ∀ entry ∈ entries,
      bytesFor entry.1 = some (bytesOf entry.1) ∧ blake3 (bytesOf entry.1) = entry.2 := by
    refine ⟨fun key => (bytesFor key).getD [], fun entry hentry => ?_⟩
    obtain ⟨bytes, hget, hhash⟩ := hbytes entry hentry
    simp [hget, hhash]
  have hleaves : (plan.leafKeys.mapM fun key => do
        let bytes ← okOr (bytesFor key) (BuildProofError.missingBytes key)
        return subtreeLeaf nonce peer key bytes)
      = .ok (plan.leafKeys.map fun key => subtreeLeaf nonce peer key (bytesOf key)) := by
    apply Fallible.mapM_eq_ok
    intro key hkey
    rw [hkeys, leafKeys_of_build hbuild] at hkey
    obtain ⟨entry, hentry, rfl⟩ := List.mem_map.mp ((block_sublist _ _ _).mem hkey)
    rw [(hbytesOf entry ((sortByKey_perm entries).mem_iff.mp hentry)).1]
    rfl
  refine ⟨tree, ⟨plan.leafKeys.map fun key => subtreeLeaf nonce peer key (bytesOf key),
    plan.siblingCutHashes⟩, hbuild, ?_, fun commitment hroot hcount =>
    verifySubtreeProof_plan hbuild hplan (fun entry hentry => (hbytesOf entry hentry).2)
      hroot hcount⟩
  rw [buildSubtreeProof]
  exact Fallible.bind_eq_ok_iff.mpr ⟨plan, hplan, Fallible.bind_eq_ok_iff.mpr ⟨_, hleaves, rfl⟩⟩

theorem buildSubtreeProof_verifies_seven :
    let entries : List (Transcript × Transcript) :=
      [⟨[7]⟩, ⟨[2]⟩, ⟨[5]⟩, ⟨[1]⟩, ⟨[6]⟩, ⟨[3]⟩, ⟨[4]⟩].map fun key => (key, key)
    ∃ tree proof, MerkleTree.build entries = .ok tree ∧
      buildSubtreeProof tree (Vector.replicate 32 0) ⟨[9]⟩ (fun key => some key.bytes) = .ok proof ∧
      ∀ commitment : StorageCommitment Transcript, commitment.root = tree.root →
        commitment.keyCount = tree.keyCount →
        verifySubtreeProof proof (Vector.replicate 32 0) commitment = .valid :=
  buildSubtreeProof_verifies (by decide) (by decide) (by decide) _ _ _
    (fun entry hentry => ⟨entry.1.bytes, rfl, by
      obtain ⟨key, -, rfl⟩ := List.mem_map.mp hentry
      rfl⟩)

/-- **Subtree proofs are binding.** With injective leaf and node hashes, a proof accepted against a
built tree carries the tree's entries at the selected leaf positions, in order, and the cut-hashes
the tree's own plan produces. -/
theorem verifySubtreeProof_binding (hleaf : Function.Injective2 (leafHash (H := H)))
    (hnode : Function.Injective2 (nodeHash (H := H))) {entries : List (H × H)}
    {tree : MerkleTree H} (hbuild : MerkleTree.build entries = .ok tree) {nonce : Nonce}
    {proof : SubtreeProof H} {commitment : StorageCommitment H}
    (hroot : commitment.root = tree.root) (hcount : commitment.keyCount = tree.keyCount)
    (hvalid : verifySubtreeProof proof nonce commitment = .valid) :
    ∃ path plan, selectSubtreePath nonce tree.keyCount = some path ∧
      subtreePlan tree nonce = .ok plan ∧
      proof.leaves.map (fun leaf => (leaf.key, leaf.bytesHash)) =
        ((sortByKey entries).drop path.leafStart).take (path.leafEnd - path.leafStart) ∧
      proof.siblingCutHashes = plan.siblingCutHashes := by
  obtain ⟨path, plan, hpath, hplan, -, hlen, hsibs⟩ := subtreePlan_spec tree nonce
  refine ⟨path, plan, hpath, hplan, ?_⟩
  have hkeyCount : tree.keyCount = (sortByKey entries).length := by
    rw [MerkleTree.keyCount_of_build hbuild, (sortByKey_perm entries).length_eq]
  have hhashes : tree.leafHashes = entryHashes (sortByKey entries) :=
    MerkleTree.leafHashes_of_build hbuild
  rw [← tree.length_leafHashes] at hpath hcount hsibs
  obtain ⟨hentries, hsibs'⟩ := block_of_verifySubtreeProof_valid hnode hpath hcount
    (by rw [hroot, tree.root_eq]) hvalid
  obtain ⟨path', hpath', -, hcuts, -⟩ := verifySubtreeProof_eq_valid_iff.mp hvalid
  obtain rfl : path = path' := by
    rw [hcount, hpath] at hpath'
    exact Option.some.inj hpath'
  constructor
  · rw [tree.length_leafHashes, hkeyCount] at hpath
    rw [tree.length_leafHashes, hkeyCount, hhashes, block_entryHashes] at hentries
    have hentries := entryHashes_injective hleaf hentries
    rw [(selectSubtreePath_eq_some hpath).2.2.block_eq rfl] at hentries
    exact hentries
  · have hreverse := hsibs'.unique nodeHash (by simp [hcuts, hlen]) hsibs
    exact List.reverse_injective hreverse

/-- The same seven keys: the proof made from the tree's plan is accepted, and it carries the tree's
entries. -/
theorem verifySubtreeProof_binding_seven :
    let entries : List (Transcript × Transcript) :=
      [⟨[7]⟩, ⟨[2]⟩, ⟨[5]⟩, ⟨[1]⟩, ⟨[6]⟩, ⟨[3]⟩, ⟨[4]⟩].map fun key => (key, key)
    let nonce : Nonce := Vector.replicate 32 0
    ∃ tree proof, MerkleTree.build entries = .ok tree ∧
      verifySubtreeProof proof nonce ⟨tree.root, tree.keyCount, ⟨[9]⟩, [], []⟩ = .valid ∧
      ∃ path plan, selectSubtreePath nonce tree.keyCount = some path ∧
        subtreePlan tree nonce = .ok plan ∧
        proof.leaves.map (fun leaf => (leaf.key, leaf.bytesHash)) =
          ((sortByKey entries).drop path.leafStart).take (path.leafEnd - path.leafStart) ∧
        proof.siblingCutHashes = plan.siblingCutHashes := by
  intro entries nonce
  obtain ⟨tree, hbuild⟩ : ∃ tree, MerkleTree.build entries = .ok tree :=
    MerkleTree.build_eq_ok_iff.mpr ⟨by decide, by decide, by decide⟩
  obtain ⟨path, plan, -, hplan, -⟩ := subtreePlan_spec tree nonce
  have hvalid : verifySubtreeProof
      ⟨plan.leafKeys.map fun key => subtreeLeaf nonce ⟨[9]⟩ key key.bytes, plan.siblingCutHashes⟩
      nonce ⟨tree.root, tree.keyCount, ⟨[9]⟩, [], []⟩ = .valid := by
    refine verifySubtreeProof_plan hbuild hplan (fun entry hentry => ?_) rfl rfl
    obtain ⟨key, -, rfl⟩ := List.mem_map.mp hentry
    rfl
  exact ⟨tree, _, hbuild, hvalid, verifySubtreeProof_binding Transcript.leafHash_injective
    Transcript.nodeHash_injective hbuild rfl rfl hvalid⟩

end AntNode
