import AntNode.Proof.SubtreeProof

/-!
# What a root that survives every challenge commits to

A challenge opens one block, so the checks are local. Put together over all nonces they still pin
the root down: two nonces that agree on their first bits climb through the same node, so the opened
blocks fit into one list of leaves. The induction goes from the bottom of the tree to the root. At a
node some nonce stops at, that nonce's leaves are the block. At any other node every nonce goes on,
both children are opened, and the left one is full because the right one holds a leaf.

What does not follow is that the keys are distinct: order is checked inside a block only.
-/

namespace AntNode

open LeftPacked

variable {H : Type} [Digest H]

/-! ### Nonces -/

theorem byteBit_eq (b : BitVec 8) (k : Fin 8) :
    ((UInt8.ofBitVec b >>> UInt8.ofNat (7 - k)) &&& 1 == 1) = b.getLsbD (7 - k) := by
  revert b k
  decide +kernel

def byteOfBits (bits : Nat → Bool) : UInt8 :=
  UInt8.ofBitVec (BitVec.ofBoolListLE
    [bits 7, bits 6, bits 5, bits 4, bits 3, bits 2, bits 1, bits 0])

theorem byteOfBits_bit (bits : Nat → Bool) {k : Nat} (hk : k < 8) :
    ((byteOfBits bits >>> UInt8.ofNat (7 - k)) &&& 1 == 1) = bits k := by
  rw [byteOfBits, byteBit_eq _ ⟨k, hk⟩, BitVec.getLsbD_ofBoolListLE]
  interval_cases k <;> rfl

/-- Every sequence of bits is the beginning of a nonce. -/
theorem exists_nonceBit_eq (bits : Nat → Bool) :
    ∃ nonce : Nonce, ∀ i < 256, nonceBit nonce i = bits i := by
  refine ⟨Vector.ofFn fun j : Fin 32 => byteOfBits fun k => bits (8 * j + k), fun i hi => ?_⟩
  rw [nonceBit, Vector.getElem?_ofFn, dif_pos (by omega), Option.any_some,
    byteOfBits_bit _ (Nat.mod_lt i (by omega)), Nat.div_add_mod]

def AgreeBelow (depth : Nat) (nonce nonce' : Nonce) : Prop :=
  ∀ i < depth, nonceBit nonce i = nonceBit nonce' i

theorem AgreeBelow.of_succ {depth : Nat} {nonce nonce' nonce'' : Nonce}
    (hagree : AgreeBelow (depth + 1) nonce'' nonce') (hbelow : AgreeBelow depth nonce' nonce) :
    AgreeBelow depth nonce'' nonce := by
  intro i hi
  rw [hagree i (by omega), hbelow i hi]

theorem exists_agreeBelow (nonce : Nonce) {depth : Nat} (hdepth : depth < 256) (bit : Bool) :
    ∃ nonce', AgreeBelow depth nonce' nonce ∧ nonceBit nonce' depth = bit := by
  obtain ⟨nonce', hbits⟩ := exists_nonceBit_eq fun i =>
    if i < depth then nonceBit nonce i else bit
  refine ⟨nonce', fun i hi => ?_, ?_⟩
  · rw [hbits i (by omega), if_pos hi]
  · rw [hbits depth hdepth, if_neg (lt_irrefl depth)]

theorem clog_lt_256 {keyCount : Nat} (hmax : keyCount ≤ maxCommitmentKeyCount) :
    Nat.clog 2 keyCount < 256 := by
  have hpow : keyCount ≤ 2 ^ 20 := hmax.trans (by decide)
  have := Nat.clog_le_of_le_pow hpow
  omega

theorem le_depth_of_agreeBelow {nonce nonce' : Nonce} {keyCount d : Nat} {path path' : SubtreePath}
    (hpath : selectSubtreePath nonce keyCount = some path)
    (hpath' : selectSubtreePath nonce' keyCount = some path')
    (hbits : AgreeBelow d nonce' nonce) (hd : d ≤ path.depth) : d ≤ path'.depth := by
  obtain ⟨hpos, hmax, -⟩ := selectSubtreePath_eq_some hpath
  rw [selectSubtreePath, treeDepth_eq_some hpos hmax, Option.map_some, Option.some.injEq]
    at hpath hpath'
  subst hpath hpath'
  by_cases hsmall : keyCount ≤ smallTreeFullAuditFloor
  · simpa only [if_pos hsmall] using hd
  · simp only [if_neg hsmall] at hd ⊢
    have hwide := (le_descend_iff nonce keyCount (Nat.clog 2 keyCount) (sqrtFloor keyCount)
      (Nat.zero_le d)).mp hd
    refine (le_descend_iff nonce' keyCount (Nat.clog 2 keyCount) (sqrtFloor keyCount)
      (Nat.zero_le d)).mpr ⟨hwide.1, fun i hpos hi => ?_⟩
    rw [slotAt_congr fun j hj => hbits j (by omega)]
    exact hwide.2 i hpos hi

theorem Selected.slotAt_mul_lt {nonce : Nonce} {keyCount d : Nat} {path : SubtreePath}
    (hsel : Selected nonce keyCount path) (hd : d ≤ path.depth) :
    slotAt nonce d * 2 ^ (Nat.clog 2 keyCount - d) < keyCount := by
  refine lt_of_le_of_lt ?_ hsel.leafStart_lt
  obtain ⟨more, hmore⟩ := Nat.exists_eq_add_of_le hd
  have hsplit : Nat.clog 2 keyCount - d = more + (Nat.clog 2 keyCount - path.depth) := by
    have := hsel.depth_le
    omega
  rw [hsel.leafStart_eq, hsel.slot_eq, hmore, ← slotAt_div_two_pow nonce d more, hsplit, pow_add,
    ← mul_assoc, ← hmore]
  exact Nat.mul_le_mul_right _ (Nat.div_mul_le_self _ _)

theorem realLeavesUnder_split {d totalDepth : Nat} (hd : d < totalDepth) (slot keyCount : Nat) :
    realLeavesUnder d slot keyCount totalDepth =
      realLeavesUnder (d + 1) (slot * 2) keyCount totalDepth +
        realLeavesUnder (d + 1) (slot * 2 + 1) keyCount totalDepth := by
  obtain ⟨k, rfl⟩ := Nat.exists_eq_add_of_le (Nat.succ_le_of_lt hd)
  simp only [realLeavesUnder, show d.succ + k - d = k + 1 by omega,
    show d.succ + k - (d + 1) = k by omega]
  rw [pow_succ, show slot * (2 ^ k * 2) = slot * 2 * 2 ^ k by ring,
    show (slot + 1) * (2 ^ k * 2) = slot * 2 * 2 ^ k + 2 ^ k + 2 ^ k by ring,
    show (slot * 2 + 1) * 2 ^ k = slot * 2 * 2 ^ k + 2 ^ k by ring,
    show (slot * 2 + 1 + 1) * 2 ^ k = slot * 2 * 2 ^ k + 2 ^ k + 2 ^ k by ring]
  omega

theorem realLeavesUnder_of_full {d slot keyCount totalDepth : Nat}
    (hfull : (slot + 1) * 2 ^ (totalDepth - d) < keyCount) :
    realLeavesUnder d slot keyCount totalDepth = 2 ^ (totalDepth - d) := by
  unfold realLeavesUnder
  generalize 2 ^ (totalDepth - d) = span at hfull ⊢
  dsimp only
  rw [add_mul, one_mul] at hfull ⊢
  rw [min_eq_left hfull.le, min_eq_left (by omega), Nat.add_sub_cancel_left]

/-! ### Fitting the opened blocks together -/

/-- The node at depth `d` that a proof's climb goes through. -/
def climbedNode (keyCount : Nat) (proof : SubtreeProof H) (path : SubtreePath) (d : Nat) : H :=
  climb nodeHash (proof.siblingCutHashes.drop d).reverse path.slot
    (foldLevels (entryHashes proof.entries) (Nat.clog 2 keyCount - path.depth))

/-- A proof is accepted for every nonce. -/
structure Survives (root : H) (keyCount : Nat) (proofs : Nonce → SubtreeProof H)
    (paths : Nonce → SubtreePath) : Prop where
  path_eq : ∀ nonce, selectSubtreePath nonce keyCount = some (paths nonce)
  length_leaves : ∀ nonce, (proofs nonce).leaves.length = (paths nonce).realLeafCount
  length_cuts : ∀ nonce, (proofs nonce).siblingCutHashes.length = (paths nonce).depth
  climbedNode_zero : ∀ nonce, climbedNode keyCount (proofs nonce) (paths nonce) 0 = root

namespace Survives

variable {root : H} {keyCount : Nat} {proofs : Nonce → SubtreeProof H}
  {paths : Nonce → SubtreePath}

theorem selected (hsurv : Survives root keyCount proofs paths) (nonce : Nonce) :
    Selected nonce keyCount (paths nonce) :=
  (selectSubtreePath_eq_some (hsurv.path_eq nonce)).2.2

theorem foldUp_entries (hsurv : Survives root keyCount proofs paths) (nonce : Nonce) :
    foldUp nodeHash (Nat.clog 2 keyCount - (paths nonce).depth)
        (entryHashes (proofs nonce).entries)
      = [climbedNode keyCount (proofs nonce) (paths nonce) (paths nonce).depth] := by
  have hsel := hsurv.selected nonce
  have hlen := Selected.length_entryHashes_entries (hsurv.length_leaves nonce)
  have hne := hsel.entryHashes_entries_ne_nil (hsurv.length_leaves nonce)
  obtain ⟨node, hfold⟩ := List.length_eq_one_iff.mp
    (length_foldUp_eq_one nodeHash hne (hlen ▸ hsel.realLeafCount_le))
  rw [climbedNode, List.drop_of_length_le (hsurv.length_cuts nonce).le, foldLevels_eq hne, hfold]
  rfl

/-- One step of the climb: the node above combines the node below with some cut-hash, on the side
the nonce bit says. -/
theorem climbedNode_step (hsurv : Survives root keyCount proofs paths) {nonce : Nonce} {d : Nat}
    (hd : d < (paths nonce).depth) :
    ∃ cut, climbedNode keyCount (proofs nonce) (paths nonce) d =
      if nonceBit nonce d then
        nodeHash (climbedNode keyCount (proofs nonce) (paths nonce) (d + 1)) cut
      else nodeHash cut (climbedNode keyCount (proofs nonce) (paths nonce) (d + 1)) := by
  have hlen := hsurv.length_cuts nonce
  have hcut : d < (proofs nonce).siblingCutHashes.length := by omega
  obtain ⟨more, hmore⟩ := Nat.exists_eq_add_of_le (show d + 1 ≤ (paths nonce).depth from hd)
  have hslot : (paths nonce).slot / 2 ^ ((proofs nonce).siblingCutHashes.drop (d + 1)).length
      = slotAt nonce (d + 1) := by
    rw [List.length_drop, hlen, (hsurv.selected nonce).slot_eq, hmore, Nat.add_sub_cancel_left,
      slotAt_div_two_pow]
  refine ⟨(proofs nonce).siblingCutHashes[d], ?_⟩
  rw [climbedNode, List.drop_eq_getElem_cons hcut, List.reverse_cons, climb_concat,
    List.length_reverse, hslot, ← climbedNode, combine, slotAt, childSlot]
  cases nonceBit nonce d <;> simp

theorem realLeafCount_eq (hsurv : Survives root keyCount proofs paths) (nonce : Nonce) :
    (paths nonce).realLeafCount =
      realLeavesUnder (paths nonce).depth (slotAt nonce (paths nonce).depth) keyCount
        (Nat.clog 2 keyCount) := by
  have hsel := hsurv.selected nonce
  have hlt := hsel.leafStart_lt
  rw [SubtreePath.realLeafCount, realLeavesUnder, hsel.leafEnd_eq]
  rw [hsel.leafStart_eq] at hlt ⊢
  rw [← hsel.slot_eq, min_eq_left hlt.le]

theorem exists_block_of_stop (hsurv : Survives root keyCount proofs paths) {k d : Nat}
    (hk : d + k = Nat.clog 2 keyCount) {nonce : Nonce} (hstop : (paths nonce).depth = d) :
    ∃ entries : List (H × H),
      entries.length = realLeavesUnder d (slotAt nonce d) keyCount (Nat.clog 2 keyCount) ∧
      foldUp nodeHash k (entryHashes entries) =
        [climbedNode keyCount (proofs nonce) (paths nonce) d] := by
  refine ⟨(proofs nonce).entries, ?_, ?_⟩
  · rw [SubtreeProof.entries, List.length_map, hsurv.length_leaves, hsurv.realLeafCount_eq, hstop]
  · have hfold := hsurv.foldUp_entries nonce
    rwa [hstop, ← hk, Nat.add_sub_cancel_left] at hfold

/-- A node that every nonce through it passes has two children, and the next bit of a nonce says
which of them it climbs over. -/
theorem exists_children (hsurv : Survives root keyCount proofs paths)
    (hnode : Function.Injective2 (nodeHash (H := H))) {d : Nat} (hd : d < 256) {nonce : Nonce}
    {node : H}
    (hgoes : ∀ nonce', AgreeBelow d nonce' nonce → d < (paths nonce').depth)
    (hclimb : ∀ nonce', AgreeBelow d nonce' nonce →
      climbedNode keyCount (proofs nonce') (paths nonce') d = node) :
    ∃ left right, node = nodeHash left right ∧ ∀ nonce', AgreeBelow d nonce' nonce →
      climbedNode keyCount (proofs nonce') (paths nonce') (d + 1)
        = if nonceBit nonce' d then left else right := by
  obtain ⟨toLeft, hleft, hleftBit⟩ := exists_agreeBelow nonce hd true
  obtain ⟨right, hsplit⟩ := hsurv.climbedNode_step (hgoes toLeft hleft)
  rw [hclimb toLeft hleft, if_pos hleftBit] at hsplit
  refine ⟨_, right, hsplit, ?_⟩
  intro nonce' hagree
  obtain ⟨cut, hstep⟩ := hsurv.climbedNode_step (hgoes nonce' hagree)
  rw [hclimb nonce' hagree, hsplit] at hstep
  split at hstep
  · rename_i hbit
    rw [if_pos hbit]
    exact (hnode hstep).1.symm
  · rename_i hbit
    rw [if_neg hbit]
    exact (hnode hstep).2.symm

/-- The block below a node that every nonce through it climbs over. -/
theorem exists_block (hsurv : Survives root keyCount proofs paths)
    (hnode : Function.Injective2 (nodeHash (H := H))) {k d : Nat}
    (hk : d + k = Nat.clog 2 keyCount) {nonce : Nonce} (hd : d ≤ (paths nonce).depth) {node : H}
    (hclimb : ∀ nonce', AgreeBelow d nonce' nonce →
      climbedNode keyCount (proofs nonce') (paths nonce') d = node) :
    ∃ entries : List (H × H),
      entries.length = realLeavesUnder d (slotAt nonce d) keyCount (Nat.clog 2 keyCount) ∧
      foldUp nodeHash k (entryHashes entries) = [node] := by
  induction k generalizing d nonce node with
  | zero =>
      have hstop : (paths nonce).depth = d :=
        le_antisymm ((hsurv.selected nonce).depth_le.trans hk.ge) hd
      rw [← hclimb nonce fun _ _ => rfl]
      exact hsurv.exists_block_of_stop hk hstop
  | succ k ih =>
      by_cases hstop : ∃ nonce', AgreeBelow d nonce' nonce ∧ (paths nonce').depth = d
      · obtain ⟨nonce', hagree, hstop⟩ := hstop
        rw [← hclimb nonce' hagree, ← slotAt_congr hagree]
        exact hsurv.exists_block_of_stop hk hstop
      · -- every nonce through this node goes on, to whichever side its next bit says
        have hgoes : ∀ nonce', AgreeBelow d nonce' nonce → d < (paths nonce').depth := by
          intro nonce' hagree
          apply lt_of_le_of_ne
            (le_depth_of_agreeBelow (hsurv.path_eq nonce) (hsurv.path_eq nonce') hagree hd)
          intro heq
          exact hstop ⟨nonce', hagree, heq.symm⟩
        have hd256 : d < 256 := by
          have := clog_lt_256 (selectSubtreePath_eq_some (hsurv.path_eq nonce)).2.1
          omega
        obtain ⟨left, right, hsplit, hchild⟩ := hsurv.exists_children hnode hd256 hgoes hclimb
        -- the induction hypothesis, below the child on the side of a bit
        have hbelow : ∀ nonce', AgreeBelow d nonce' nonce → ∃ entries : List (H × H),
            entries.length = realLeavesUnder (d + 1) (slotAt nonce' (d + 1)) keyCount
              (Nat.clog 2 keyCount) ∧
            foldUp nodeHash k (entryHashes entries)
              = [if nonceBit nonce' d then left else right] := by
          intro nonce' hagree
          apply ih (by omega) (hgoes nonce' hagree)
          intro nonce'' hagree'
          rw [hchild nonce'' (hagree'.of_succ hagree), hagree' d (by omega)]
        obtain ⟨toLeft, hleft, hleftBit⟩ := exists_agreeBelow nonce hd256 true
        obtain ⟨toRight, hright, hrightBit⟩ := exists_agreeBelow nonce hd256 false
        obtain ⟨lefts, hleftLen, hleftFold⟩ := hbelow toLeft hleft
        obtain ⟨rights, hrightLen, hrightFold⟩ := hbelow toRight hright
        have hleftSlot : slotAt toLeft (d + 1) = slotAt nonce d * 2 := by
          rw [slotAt, childSlot, hleftBit, slotAt_congr hleft, if_pos rfl, Nat.add_zero]
        have hrightSlot : slotAt toRight (d + 1) = slotAt nonce d * 2 + 1 := by
          rw [slotAt, childSlot, hrightBit, slotAt_congr hright, if_neg (by decide)]
        have hrightPos := (hsurv.selected toRight).slotAt_mul_lt (hgoes toRight hright)
        rw [hrightSlot] at hrightPos hrightLen
        rw [hleftSlot] at hleftLen
        rw [hleftBit, if_pos rfl] at hleftFold
        rw [hrightBit, if_neg (by decide)] at hrightFold
        have hfull : lefts.length = 2 ^ k := by
          rw [hleftLen, realLeavesUnder_of_full hrightPos, ← hk]
          congr 1
          omega
        refine ⟨lefts ++ rights, ?_, ?_⟩
        · rw [List.length_append, hleftLen, hrightLen,
            realLeavesUnder_split (d := d) (show d < Nat.clog 2 keyCount by omega)]
        · rw [entryHashes, List.map_append, foldUp_succ]
          rw [foldUp_append nodeHash (by rw [List.length_map, hfull]), ← entryHashes, ← entryHashes,
            hleftFold, hrightFold, hsplit]
          rfl

theorem exists_entries (hsurv : Survives root keyCount proofs paths)
    (hnode : Function.Injective2 (nodeHash (H := H))) :
    ∃ entries : List (H × H), entries.length = keyCount ∧
      merkleRoot (entryHashes entries) = root := by
  obtain ⟨hpos, -, -⟩ := selectSubtreePath_eq_some (hsurv.path_eq (Vector.replicate 32 0))
  have htop : 0 ≤ (paths (Vector.replicate 32 0)).depth := Nat.zero_le _
  obtain ⟨entries, hlen, hfold⟩ := hsurv.exists_block hnode (Nat.zero_add _) htop fun nonce _ =>
    hsurv.climbedNode_zero nonce
  have hlen : entries.length = keyCount := by
    simpa [realLeavesUnder, slotAt, Nat.le_pow_clog] using hlen
  have hne : entryHashes entries ≠ [] := by
    rw [ne_eq, ← List.length_eq_zero_iff, length_entryHashes]
    omega
  have hroot := foldUp_clog_eq_singleton hne
  rw [length_entryHashes, hlen, hfold, List.singleton_inj] at hroot
  exact ⟨entries, hlen, hroot.symm⟩

end Survives

/-- The blocks a nonce can select are each strictly ascending by key. -/
def BlocksAscending (entries : List (H × H)) : Prop :=
  ∀ nonce path, selectSubtreePath nonce entries.length = some path →
    ((entries.drop path.leafStart).take path.realLeafCount).Pairwise fun a b => a.1 < b.1

theorem exists_verifySubtreeProof_valid {entries : List (H × H)}
    (hasc : BlocksAscending entries) (hpos : 0 < entries.length)
    (hmax : entries.length ≤ maxCommitmentKeyCount) {commitment : StorageCommitment H}
    (hcount : commitment.keyCount = entries.length)
    (hroot : commitment.root = merkleRoot (entryHashes entries)) (nonce : Nonce) :
    ∃ proof, verifySubtreeProof proof nonce commitment = .valid := by
  obtain ⟨path, hpath, hsel⟩ := selectSubtreePath_spec nonce hpos hmax
  set k := Nat.clog 2 entries.length - path.depth with hk
  have hbelow : path.slot < (foldUp nodeHash k (entryHashes entries)).length :=
    hsel.slot_lt_length_foldUp (length_entryHashes entries)
  obtain ⟨sibs, hlen, hsibs⟩ := exists_siblingPath nodeHash hbelow path.depth
  let proof : SubtreeProof H :=
    ⟨(block entries k path.slot).map fun entry => ⟨entry.1, entry.2, Digest.zero⟩, sibs.reverse⟩
  have hentries : proof.entries = block entries k path.slot := by
    rw [SubtreeProof.entries, List.map_map]
    exact List.map_id _
  refine ⟨proof, verifySubtreeProof_valid_of_block hpath hcount hroot hentries ?_
    (by simpa [proof] using hlen) (by simpa [proof] using hsibs)⟩
  rw [hsel.block_eq rfl]
  exact hasc nonce path hpath

/-- **What the committed key count is bound to.** If some proof is accepted for every nonce, the
root is the one the level builder computes over a list of exactly `key_count` entries, and the keys
are strictly ascending within every block a nonce can open. Where one nonce opens the whole tree,
the entries are a key set `MerkleTree::build` accepts, and the root is that tree's. -/
theorem keyCount_of_survives (hleaf : Function.Injective2 (leafHash (H := H)))
    (hnode : Function.Injective2 (nodeHash (H := H))) {commitment : StorageCommitment H}
    (hpos : 1 ≤ commitment.keyCount) (hmax : commitment.keyCount ≤ maxCommitmentKeyCount)
    (haccepted : ∀ nonce, ∃ proof, verifySubtreeProof proof nonce commitment = .valid) :
    ∃ entries : List (H × H), entries.length = commitment.keyCount ∧
      merkleRoot (entryHashes entries) = commitment.root ∧
      BlocksAscending entries ∧
      ((∃ nonce, selectSubtreePath nonce commitment.keyCount
          = some ⟨0, 0, 0, commitment.keyCount⟩) →
        (entries.map Prod.fst).Nodup ∧
          ∃ tree, MerkleTree.build entries = .ok tree ∧ tree.root = commitment.root) := by
  choose proofs hvalid using haccepted
  choose paths hpath hlen hcuts hsorted hclimb using fun nonce =>
    verifySubtreeProof_eq_valid_iff.mp (hvalid nonce)
  have hsurv : Survives commitment.root commitment.keyCount proofs paths :=
    ⟨hpath, hlen, hcuts, hclimb⟩
  obtain ⟨entries, hcount, hroot⟩ := hsurv.exists_entries hnode
  have hasc : BlocksAscending entries := by
    intro nonce path hpath'
    have hcount' : commitment.keyCount = (entryHashes entries).length := by
      rw [length_entryHashes, hcount]
    obtain ⟨hblock, -⟩ := block_of_verifySubtreeProof_valid hnode
      (by rwa [length_entryHashes]) hcount' hroot.symm (hvalid nonce)
    rw [block_entryHashes, length_entryHashes] at hblock
    rw [← (selectSubtreePath_eq_some hpath').2.2.block_eq rfl, ← entryHashes_injective hleaf hblock,
      SubtreeProof.entries, List.pairwise_map]
    exact hsorted nonce
  refine ⟨entries, hcount, hroot, hasc, ?_⟩
  rintro ⟨nonce, hwhole⟩
  rw [← hcount] at hwhole
  have hall := hasc nonce _ hwhole
  rw [SubtreePath.realLeafCount, List.drop_zero, Nat.sub_zero, List.take_length] at hall
  obtain ⟨hnodup, tree, hbuild, hleaves⟩ := MerkleTree.build_of_pairwise_lt
    (List.ne_nil_of_length_pos (by omega)) (by omega) hall
  refine ⟨hnodup, tree, hbuild, ?_⟩
  rw [tree.root_eq, MerkleTree.leafHashes, hleaves, List.map_map, ← hroot]
  rfl

theorem keyCount_of_survives_five :
    ∃ commitment : StorageCommitment Transcript, commitment.keyCount = 5 ∧
      (∃ nonce, selectSubtreePath nonce 5 = some ⟨0, 0, 0, 5⟩) ∧
      ∃ entries : List (Transcript × Transcript), entries.length = commitment.keyCount ∧
        merkleRoot (entryHashes entries) = commitment.root ∧
        BlocksAscending entries ∧
        ((∃ nonce, selectSubtreePath nonce commitment.keyCount
            = some ⟨0, 0, 0, commitment.keyCount⟩) →
          (entries.map Prod.fst).Nodup ∧
            ∃ tree, MerkleTree.build entries = .ok tree ∧ tree.root = commitment.root) := by
  let entries : List (Transcript × Transcript) :=
    [⟨[1]⟩, ⟨[2]⟩, ⟨[3]⟩, ⟨[4]⟩, ⟨[5]⟩].map fun key => (key, key)
  have hasc : BlocksAscending entries := fun nonce path _ =>
    (show entries.Pairwise fun a b => a.1 < b.1 by decide).sublist
      ((List.take_sublist _ _).trans (List.drop_sublist _ _))
  refine ⟨⟨merkleRoot (entryHashes entries), 5, ⟨[9]⟩, [], []⟩, rfl,
    ⟨Vector.replicate 32 0, ?_⟩,
    keyCount_of_survives Transcript.leafHash_injective Transcript.nodeHash_injective (by decide)
      (by decide) fun nonce => exists_verifySubtreeProof_valid hasc (by decide) (by decide) rfl rfl
        nonce⟩
  rw [selectSubtreePath, treeDepth_eq_some (by decide) (by decide), show Nat.clog 2 5 = 3 by decide,
    show sqrtFloor 5 = 3 by simp [sqrtFloor, sqrtLoop]]
  decide

theorem selectSubtreePath_seven {nonce : Nonce} {path : SubtreePath}
    (hpath : selectSubtreePath nonce 7 = some path) :
    path = ⟨1, 0, 0, 4⟩ ∨ path = ⟨1, 1, 4, 7⟩ := by
  rw [selectSubtreePath, treeDepth_eq_some (by decide) (by decide), show Nat.clog 2 7 = 3 by decide,
    show sqrtFloor 7 = 3 by simp [sqrtFloor, sqrtLoop], Option.map_some, Option.some.injEq] at hpath
  subst hpath
  cases hzero : nonceBit nonce 0 <;> cases hone : nonceBit nonce 1 <;>
    simp [descend, childSlot, realLeavesUnder, smallTreeFullAuditFloor, hzero, hone]

/-- **The key count can be inflated.** Seven entries over four keys: each half is ascending, so a
proof is accepted for every nonce, and no seven distinct keys have this root. -/
theorem keyCount_inflated_seven :
    let entries : List (Transcript × Transcript) :=
      [⟨[1]⟩, ⟨[2]⟩, ⟨[3]⟩, ⟨[4]⟩, ⟨[1]⟩, ⟨[2]⟩, ⟨[3]⟩].map fun key => (key, key)
    let commitment : StorageCommitment Transcript :=
      ⟨merkleRoot (entryHashes entries), 7, ⟨[9]⟩, [], []⟩
    Function.Injective2 (leafHash (H := Transcript)) ∧
      Function.Injective2 (nodeHash (H := Transcript)) ∧
      (∀ key bytesHash left right : Transcript, leafHash key bytesHash ≠ nodeHash left right) ∧
      (∀ nonce, ∃ proof, verifySubtreeProof proof nonce commitment = .valid) ∧
      ¬∃ committed tree, committed.length = 7 ∧ (committed.map Prod.fst).Nodup ∧
        MerkleTree.build committed = .ok tree ∧ tree.root = commitment.root := by
  intro entries commitment
  have hasc : BlocksAscending entries := by
    intro nonce path hpath
    rcases selectSubtreePath_seven hpath with rfl | rfl <;> decide
  refine ⟨Transcript.leafHash_injective, Transcript.nodeHash_injective,
    Transcript.leafHash_ne_nodeHash,
    exists_verifySubtreeProof_valid hasc (by decide) (by decide) rfl rfl, ?_⟩
  rintro ⟨committed, tree, hlen, -, hbuild, hroot⟩
  have hhashes := MerkleTree.leafHashes_of_build hbuild
  rw [tree.root_eq, hhashes] at hroot
  have hsame : entryHashes (sortByKey committed) = entryHashes entries :=
    merkleRoot_inj Transcript.nodeHash_injective
      (by rw [length_entryHashes, (sortByKey_perm committed).length_eq, hlen]; rfl)
      (by simp [entries, entryHashes]) hroot
  -- the tree's leaves would be the seven entries, and those are not sorted
  have hsorted := sortByKey_pairwise_lt hbuild
  rw [entryHashes_injective Transcript.leafHash_injective hsame] at hsorted
  exact absurd hsorted (by decide)

end AntNode
