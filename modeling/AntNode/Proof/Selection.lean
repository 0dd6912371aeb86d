import AntNode.Subtree
import AntNode.Proof.MerkleTree

/-!
# The selected branch

The walk stops at a depth, and the slot it stops at is fixed by the nonce bits above that depth.
`Selected` is what both sides use of it: the block is aligned, starts before the last leaf and is
cut at the key count. How deep the walk goes is one equivalence, `le_descend_iff`: it reaches depth
`j` exactly when every branch it passes on the way holds `floor` real leaves.
-/

namespace AntNode

open LeftPacked

variable {H : Type} [Digest H]

def slotAt (nonce : Nonce) : Nat → Nat
  | 0 => 0
  | depth + 1 => childSlot nonce depth (slotAt nonce depth)

theorem childSlot_div_two (nonce : Nonce) (depth slot : Nat) :
    childSlot nonce depth slot / 2 = slot := by
  unfold childSlot
  split <;> omega

theorem slotAt_lt (nonce : Nonce) (depth : Nat) : slotAt nonce depth < 2 ^ depth := by
  induction depth with
  | zero => simp [slotAt]
  | succ depth ih =>
      have hhalf := childSlot_div_two nonce depth (slotAt nonce depth)
      rw [slotAt, pow_succ]
      omega

theorem slotAt_congr {nonce nonce' : Nonce} {depth : Nat}
    (hbits : ∀ i < depth, nonceBit nonce i = nonceBit nonce' i) :
    slotAt nonce depth = slotAt nonce' depth := by
  induction depth with
  | zero => rfl
  | succ depth ih =>
      rw [slotAt, slotAt, ih fun i hi => hbits i (by omega), childSlot, childSlot,
        hbits depth (by omega)]

section Descend

variable (nonce : Nonce) (keyCount totalDepth floor : Nat)

theorem descend_snd (remaining depth : Nat) :
    (descend nonce keyCount totalDepth floor remaining depth (slotAt nonce depth)).2 =
      slotAt nonce
        (descend nonce keyCount totalDepth floor remaining depth (slotAt nonce depth)).1 := by
  induction remaining generalizing depth with
  | zero => rfl
  | succ remaining ih =>
      rw [descend]
      split
      · rfl
      · exact ih (depth + 1)

theorem le_descend_iff {remaining depth j : Nat} (hj : depth ≤ j) :
    j ≤ (descend nonce keyCount totalDepth floor remaining depth (slotAt nonce depth)).1 ↔
      j ≤ depth + remaining ∧ ∀ i, depth < i → i ≤ j →
        floor ≤ realLeavesUnder i (slotAt nonce i) keyCount totalDepth := by
  induction remaining generalizing depth j with
  | zero =>
      constructor
      · intro hle
        exact ⟨hle, fun i hlt hi => absurd (hi.trans hle) (by simpa [descend] using hlt)⟩
      · exact fun hall => hall.1
  | succ remaining ih =>
      rw [descend]
      rcases Nat.eq_or_lt_of_le hj with rfl | hlt
      · -- the walk never goes back up
        refine ⟨fun _ => ⟨by omega, fun i h1 h2 => by omega⟩, fun _ => ?_⟩
        split
        · exact le_rfl
        · exact (Nat.le_succ depth).trans ((ih le_rfl).mpr ⟨by omega, fun i h1 h2 => by omega⟩)
      · have hstep : slotAt nonce (depth + 1) = childSlot nonce depth (slotAt nonce depth) := rfl
        split
        · rename_i hnarrow
          refine ⟨fun hle => absurd hle (by omega), fun hall => ?_⟩
          have hwide := hall.2 (depth + 1) (by omega) hlt
          rw [hstep] at hwide
          omega
        · rename_i hwide
          rw [← hstep, ih hlt]
          refine and_congr (by omega) ⟨fun hall i h1 h2 => ?_, fun hall i h1 h2 => ?_⟩
          · rcases Nat.eq_or_lt_of_le (Nat.succ_le_of_lt h1) with rfl | h1
            · rw [← hstep] at hwide
              exact Nat.le_of_not_lt hwide
            · exact hall i h1 h2
          · exact hall i (by omega) h2

end Descend

/-- What is true of every selected branch. -/
structure Selected (nonce : Nonce) (keyCount : Nat) (path : SubtreePath) : Prop where
  depth_le : path.depth ≤ Nat.clog 2 keyCount
  slot_eq : path.slot = slotAt nonce path.depth
  leafStart_eq : path.leafStart = path.slot * 2 ^ (Nat.clog 2 keyCount - path.depth)
  leafStart_lt : path.leafStart < keyCount
  leafEnd_eq : path.leafEnd = min ((path.slot + 1) * 2 ^ (Nat.clog 2 keyCount - path.depth)) keyCount

theorem treeDepth_eq_some {keyCount : Nat} (hpos : 0 < keyCount)
    (hmax : keyCount ≤ maxCommitmentKeyCount) :
    treeDepth keyCount = some (Nat.clog 2 keyCount) := by
  rw [treeDepth, if_neg (by omega)]

theorem treeDepth_eq_some_iff {keyCount totalDepth : Nat} :
    treeDepth keyCount = some totalDepth ↔
      0 < keyCount ∧ keyCount ≤ maxCommitmentKeyCount ∧ totalDepth = Nat.clog 2 keyCount := by
  unfold treeDepth
  split
  · simp only [reduceCtorEq, false_iff]
    omega
  · simp only [Option.some.injEq]
    omega

theorem one_le_sqrtFloor (keyCount : Nat) : 1 ≤ sqrtFloor keyCount := by
  unfold sqrtFloor
  split
  · exact le_rfl
  · exact le_max_right _ _

theorem lt_of_realLeavesUnder_pos {depth slot keyCount totalDepth : Nat}
    (hpos : 1 ≤ realLeavesUnder depth slot keyCount totalDepth) :
    slot * 2 ^ (totalDepth - depth) < keyCount := by
  unfold realLeavesUnder at hpos
  dsimp only at hpos
  omega

/-- Selection succeeds on every key count of the protocol. -/
theorem selectSubtreePath_spec (nonce : Nonce) {keyCount : Nat} (hpos : 0 < keyCount)
    (hmax : keyCount ≤ maxCommitmentKeyCount) :
    ∃ path, selectSubtreePath nonce keyCount = some path ∧ Selected nonce keyCount path := by
  have hfull : keyCount ≤ 2 ^ Nat.clog 2 keyCount := Nat.le_pow_clog (by omega) keyCount
  unfold selectSubtreePath
  rw [treeDepth_eq_some hpos hmax, Option.map_some]
  refine ⟨_, rfl, ?_⟩
  split
  · exact ⟨Nat.zero_le _, rfl, by simp, hpos, by simp [hfull]⟩
  · set walk := descend nonce keyCount (Nat.clog 2 keyCount) (sqrtFloor keyCount)
      (Nat.clog 2 keyCount) 0 0 with hwalk
    have hslot : walk.2 = slotAt nonce walk.1 := descend_snd nonce keyCount _ _ _ 0
    have hreach : walk.1 ≤ (descend nonce keyCount (Nat.clog 2 keyCount) (sqrtFloor keyCount)
      (Nat.clog 2 keyCount) 0 (slotAt nonce 0)).1 := le_rfl
    have hwide := (le_descend_iff nonce keyCount (Nat.clog 2 keyCount) (sqrtFloor keyCount)
      (Nat.zero_le walk.1)).mp hreach
    have hstart : walk.2 * 2 ^ (Nat.clog 2 keyCount - walk.1) < keyCount := by
      rw [hslot]
      rcases Nat.eq_zero_or_pos walk.1 with hzero | hdeep
      · simpa [hzero, slotAt] using hpos
      · exact lt_of_realLeavesUnder_pos
          ((one_le_sqrtFloor keyCount).trans (hwide.2 walk.1 hdeep le_rfl))
    exact ⟨by simpa using hwide.1, hslot, min_eq_left hstart.le,
      by simpa [min_eq_left hstart.le] using hstart, rfl⟩

theorem selectSubtreePath_eq_some {nonce : Nonce} {keyCount : Nat} {path : SubtreePath}
    (hpath : selectSubtreePath nonce keyCount = some path) :
    0 < keyCount ∧ keyCount ≤ maxCommitmentKeyCount ∧ Selected nonce keyCount path := by
  have hdepth : treeDepth keyCount = some (Nat.clog 2 keyCount) := by
    unfold selectSubtreePath at hpath
    obtain ⟨totalDepth, hdepth, -⟩ := Option.map_eq_some_iff.mp hpath
    rw [hdepth, (treeDepth_eq_some_iff.mp hdepth).2.2]
  obtain ⟨hpos, hmax, -⟩ := treeDepth_eq_some_iff.mp hdepth
  obtain ⟨path', hpath', hselected⟩ := selectSubtreePath_spec nonce hpos hmax
  obtain rfl : path = path' := Option.some.inj (hpath.symm.trans hpath')
  exact ⟨hpos, hmax, hselected⟩

namespace Selected

variable {nonce : Nonce} {keyCount : Nat} {path : SubtreePath}

theorem leafStart_lt_leafEnd (hsel : Selected nonce keyCount path) :
    path.leafStart < path.leafEnd := by
  have hspan : 0 < 2 ^ (Nat.clog 2 keyCount - path.depth) := by positivity
  rw [hsel.leafEnd_eq, lt_min_iff]
  refine ⟨?_, hsel.leafStart_lt⟩
  rw [hsel.leafStart_eq, add_mul]
  omega

theorem realLeafCount_le (hsel : Selected nonce keyCount path) :
    path.realLeafCount ≤ 2 ^ (Nat.clog 2 keyCount - path.depth) := by
  unfold SubtreePath.realLeafCount
  rw [hsel.leafEnd_eq, hsel.leafStart_eq, add_mul]
  omega

theorem block_eq {α : Type*} (hsel : Selected nonce keyCount path) {leaves : List α}
    (hlen : leaves.length = keyCount) :
    block leaves (Nat.clog 2 keyCount - path.depth) path.slot =
      (leaves.drop path.leafStart).take path.realLeafCount := by
  have hlt := hsel.leafStart_lt
  unfold block SubtreePath.realLeafCount
  rw [hsel.leafEnd_eq, ← hsel.leafStart_eq, List.take_eq_take_iff, List.length_drop, hlen, add_mul,
    ← hsel.leafStart_eq]
  omega

theorem length_block {α : Type*} (hsel : Selected nonce keyCount path) {leaves : List α}
    (hlen : leaves.length = keyCount) :
    (block leaves (Nat.clog 2 keyCount - path.depth) path.slot).length = path.realLeafCount := by
  rw [hsel.block_eq hlen, List.length_take, List.length_drop, hlen, SubtreePath.realLeafCount,
    hsel.leafEnd_eq]
  omega

end Selected

end AntNode
