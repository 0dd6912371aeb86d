import Mathlib.Analysis.Real.Sqrt
import AntNode.Proof.Selection

/-!
# The size of the selected branch

The floor that the walk keeps above is the rounded-up square root of the key count: the Newton loop
goes down to the integer root and stops there. So a branch has at least that many real leaves, and
the child that the next nonce bit picks has fewer. Nothing bounds a branch from above by its floor:
at the right edge a bit may point to a child with almost no real leaves, and the walk then stops at
a branch of any size.
-/

namespace AntNode

/-! ### The Newton loop -/

/-- One iteration of the loop on its variables `(x, y)`. -/
def newtonRound (n : Nat) : Nat × Nat → Nat × Nat
  | (_, y) => (y, (y + n / y) / 2)

/-- An iterate lies above the root. -/
theorem sqrt_le_average {n x : Nat} (hx : 0 < x) : Nat.sqrt n ≤ (x + n / x) / 2 := by
  have hroot : Nat.sqrt n * Nat.sqrt n ≤ n := Nat.sqrt_le n
  have hdiv : 2 * Nat.sqrt n - x ≤ n / x := by
    rw [Nat.le_div_iff_mul_le hx]
    rcases Nat.le_total (2 * Nat.sqrt n) x with hle | hle
    · simp [Nat.sub_eq_zero_of_le hle]
    · obtain ⟨d, hd⟩ := Nat.exists_eq_add_of_le hle
      have hsquare : d * x ≤ Nat.sqrt n * Nat.sqrt n := by nlinarith [sq_nonneg ((d : ℤ) - x)]
      rw [hd, Nat.add_sub_cancel_left]
      exact hsquare.trans hroot
  omega

/-- Where the average no longer falls, the root is reached. -/
theorem le_sqrt_of_le_average {n x : Nat} (hx : 0 < x) (hstop : x ≤ (x + n / x) / 2) :
    x ≤ Nat.sqrt n := by
  have hdiv : x ≤ n / x := by omega
  rw [Nat.le_sqrt]
  exact (Nat.le_div_iff_mul_le hx).mp hdiv

theorem sqrtLoop_eq {n x y : Nat} (hn : 0 < n) (hx : Nat.sqrt n ≤ x) (hy : y = (x + n / x) / 2) :
    sqrtLoop n x y = Nat.sqrt n := by
  have hroot : 0 < Nat.sqrt n := Nat.sqrt_pos.mpr hn
  induction x, y using sqrtLoop.induct (n := n) with
  | case1 x y hlt ih =>
      rw [sqrtLoop, if_pos hlt]
      exact ih (hy ▸ sqrt_le_average (by omega)) rfl
  | case2 x y hstop =>
      rw [sqrtLoop, if_neg hstop]
      exact le_antisymm (le_sqrt_of_le_average (by omega) (by omega)) hx

/-- The loop comes to an end, divides by zero nowhere on its way, and leaves the integer root. -/
theorem newtonRound_terminates {n x y : Nat} (hn : 0 < n) (hx : Nat.sqrt n ≤ x)
    (hy : y = (x + n / x) / 2) :
    ∃ rounds, (∀ i < rounds, 0 < ((newtonRound n)^[i] (x, y)).2 ∧
        ((newtonRound n)^[i] (x, y)).2 < ((newtonRound n)^[i] (x, y)).1) ∧
      ((newtonRound n)^[rounds] (x, y)).1 ≤ ((newtonRound n)^[rounds] (x, y)).2 ∧
      ((newtonRound n)^[rounds] (x, y)).1 = Nat.sqrt n := by
  have hroot : 0 < Nat.sqrt n := Nat.sqrt_pos.mpr hn
  induction x using Nat.strong_induction_on generalizing y with
  | _ x ih =>
      have hle : Nat.sqrt n ≤ y := hy ▸ sqrt_le_average (by omega)
      by_cases hlt : y < x
      · obtain ⟨rounds, hrounds, hstop, hlast⟩ := ih y hlt hle rfl
        refine ⟨rounds + 1, fun i hi => ?_, hstop, hlast⟩
        cases i with
        | zero => exact ⟨hroot.trans_le hle, hlt⟩
        | succ i => exact hrounds i (by omega)
      · have hreached : x ≤ Nat.sqrt n := le_sqrt_of_le_average (by omega) (by omega)
        exact ⟨0, fun i hi => absurd hi (by omega), Nat.le_of_not_lt hlt, le_antisymm hreached hx⟩

theorem ceil_sqrt_le_iff {n m : Nat} : ⌈Real.sqrt n⌉₊ ≤ m ↔ n ≤ m * m := by
  rw [Nat.ceil_le, Real.sqrt_le_left (Nat.cast_nonneg m), sq]
  exact_mod_cast Iff.rfl

/-- The rounded-up square root, and one for the empty tree. -/
theorem sqrtFloor_eq (n : Nat) : sqrtFloor n = max ⌈Real.sqrt n⌉₊ 1 := by
  by_cases hn : n ≤ 1
  · have hceil : ⌈Real.sqrt n⌉₊ ≤ 1 := ceil_sqrt_le_iff.mpr (by omega)
    rw [sqrtFloor, if_pos hn, max_eq_right hceil]
  · have hloop : sqrtLoop n n ((n + 1) / 2) = Nat.sqrt n :=
      sqrtLoop_eq (by omega) (Nat.sqrt_le_self n) (by rw [Nat.div_self (by omega)])
    rw [sqrtFloor, if_neg hn, hloop]
    dsimp only
    congr 1
    apply eq_of_forall_ge_iff
    intro m
    rw [ceil_sqrt_le_iff]
    split
    · rename_i hsquare
      rw [← Nat.mul_self_le_mul_self_iff, hsquare]
    · rename_i hsquare
      rw [Nat.succ_le_iff, Nat.sqrt_lt]
      refine ⟨le_of_lt, fun hle => lt_of_le_of_ne hle ?_⟩
      rintro rfl
      exact hsquare (by rw [Nat.sqrt_eq])

theorem sqrtFloor_eq_ceil {n : Nat} (hpos : 0 < n) : sqrtFloor n = ⌈Real.sqrt n⌉₊ := by
  rw [sqrtFloor_eq, max_eq_left]
  exact Nat.ceil_pos.mpr (Real.sqrt_pos.mpr (by exact_mod_cast hpos))

theorem sqrtFloor_le_self {n : Nat} (hpos : 0 < n) : sqrtFloor n ≤ n := by
  rw [sqrtFloor_eq_ceil hpos, ceil_sqrt_le_iff]
  exact Nat.le_mul_of_pos_right n hpos

theorem three_le_sqrtFloor {n : Nat} (hlarge : smallTreeFullAuditFloor < n) : 3 ≤ sqrtFloor n := by
  have hfive : 5 ≤ n := hlarge
  rw [sqrtFloor_eq_ceil (by omega)]
  by_contra hfew
  have hsmall : n ≤ 2 * 2 := ceil_sqrt_le_iff.mp (by omega)
  omega

/-! ### The branch -/

/-- A slot spells out the nonce, a set bit as zero. -/
theorem testBit_slotAt (nonce : Nonce) {depth i : Nat} (hi : i < depth) :
    (slotAt nonce depth).testBit (depth - 1 - i) = !nonceBit nonce i := by
  induction depth with
  | zero => omega
  | succ depth ih =>
      rw [slotAt, Nat.add_sub_cancel]
      rcases Nat.eq_or_lt_of_le (Nat.le_of_lt_succ hi) with rfl | hlt
      · rw [Nat.sub_self, Nat.testBit_zero, childSlot]
        cases nonceBit nonce i <;> simp
      · have hbelow : depth - i = (depth - 1 - i) + 1 := by omega
        rw [hbelow, Nat.testBit_add_one, childSlot_div_two]
        exact ih hlt

theorem Selected.realLeafCount_eq {nonce : Nonce} {keyCount : Nat} {path : SubtreePath}
    (hsel : Selected nonce keyCount path) :
    path.realLeafCount =
      realLeavesUnder path.depth path.slot keyCount (Nat.clog 2 keyCount) := by
  have hstart : path.slot * 2 ^ (Nat.clog 2 keyCount - path.depth) ≤ keyCount := by
    rw [← hsel.leafStart_eq]
    exact hsel.leafStart_lt.le
  rw [SubtreePath.realLeafCount, realLeavesUnder, hsel.leafEnd_eq, hsel.leafStart_eq,
    min_eq_left hstart]

theorem realLeavesUnder_root (keyCount : Nat) :
    realLeavesUnder 0 0 keyCount (Nat.clog 2 keyCount) = keyCount := by
  have hfull : keyCount ≤ 2 ^ Nat.clog 2 keyCount := Nat.le_pow_clog (by omega) keyCount
  simp [realLeavesUnder, hfull]

/-- In a tree above the floor of full audits the walk reaches every depth down to which the branches
it goes through keep the floor. -/
theorem le_depth_iff {nonce : Nonce} {keyCount : Nat} {path : SubtreePath}
    (hpath : selectSubtreePath nonce keyCount = some path)
    (hlarge : smallTreeFullAuditFloor < keyCount) (j : Nat) :
    j ≤ path.depth ↔ j ≤ Nat.clog 2 keyCount ∧ ∀ i, 0 < i → i ≤ j →
      sqrtFloor keyCount ≤ realLeavesUnder i (slotAt nonce i) keyCount (Nat.clog 2 keyCount) := by
  obtain ⟨hpos, hmax, -⟩ := selectSubtreePath_eq_some hpath
  have hdepth : path.depth = (descend nonce keyCount (Nat.clog 2 keyCount) (sqrtFloor keyCount)
      (Nat.clog 2 keyCount) 0 (slotAt nonce 0)).1 := by
    rw [selectSubtreePath, treeDepth_eq_some hpos hmax, Option.map_some,
      if_neg (Nat.not_le.mpr hlarge)] at hpath
    rw [← Option.some.inj hpath]
    rfl
  rw [hdepth, le_descend_iff nonce keyCount _ _ (Nat.zero_le j), Nat.zero_add]

/-- In a tree above the floor of full audits the walk stops above the leaves, where a branch has
the floor and the child that the nonce picks has not. -/
theorem selectSubtreePath_stops {nonce : Nonce} {keyCount : Nat} {path : SubtreePath}
    (hpath : selectSubtreePath nonce keyCount = some path)
    (hlarge : smallTreeFullAuditFloor < keyCount) :
    path.depth < Nat.clog 2 keyCount ∧ sqrtFloor keyCount ≤ path.realLeafCount ∧
      realLeavesUnder (path.depth + 1) (childSlot nonce path.depth path.slot) keyCount
        (Nat.clog 2 keyCount) < sqrtFloor keyCount := by
  obtain ⟨hpos, hmax, hsel⟩ := selectSubtreePath_eq_some hpath
  have hreach := le_depth_iff hpath hlarge
  have hfloor : sqrtFloor keyCount ≤ path.realLeafCount := by
    rw [hsel.realLeafCount_eq, hsel.slot_eq]
    rcases Nat.eq_zero_or_pos path.depth with hzero | hdeep
    · rw [hzero, slotAt, realLeavesUnder_root]
      exact sqrtFloor_le_self hpos
    · exact ((hreach path.depth).mp le_rfl).2 path.depth hdeep le_rfl
  have habove : path.depth < Nat.clog 2 keyCount := by
    refine lt_of_le_of_ne hsel.depth_le fun hleaf => ?_
    have hone := hsel.realLeafCount_le
    rw [hleaf, Nat.sub_self, pow_zero] at hone
    have hthree := three_le_sqrtFloor hlarge
    omega
  refine ⟨habove, hfloor, Nat.lt_of_not_le fun hwide => ?_⟩
  rw [hsel.slot_eq] at hwide
  have hdeeper : path.depth + 1 ≤ path.depth := by
    rw [hreach]
    refine ⟨habove, fun i hi hle => ?_⟩
    rcases Nat.eq_or_lt_of_le hle with rfl | hlt
    · exact hwide
    · exact ((hreach path.depth).mp le_rfl).2 i hi (by omega)
  omega

/-- What holds of a selected branch. -/
structure WellFormed (nonce : Nonce) (keyCount : Nat) (path : SubtreePath) : Prop where
  leafStart : path.leafStart = path.slot * 2 ^ (Nat.clog 2 keyCount - path.depth)
  leafEnd : path.leafEnd = min ((path.slot + 1) * 2 ^ (Nat.clog 2 keyCount - path.depth)) keyCount
  nonempty : path.leafStart < path.leafEnd
  slot_lt : path.slot < 2 ^ path.depth
  slot_bits : ∀ i < path.depth, path.slot.testBit (path.depth - 1 - i) = !nonceBit nonce i
  whole : keyCount ≤ 4 → path = ⟨0, 0, 0, keyCount⟩
  wide : 4 < keyCount → ⌈Real.sqrt keyCount⌉₊ ≤ path.realLeafCount
  narrow : 4 < keyCount → path.depth < Nat.clog 2 keyCount ∧
    realLeavesUnder (path.depth + 1) (childSlot nonce path.depth path.slot) keyCount
      (Nat.clog 2 keyCount) < ⌈Real.sqrt keyCount⌉₊

/-- **Subtree selection is well-formed** for every nonce and every key count of the protocol. The
floor it keeps above is the rounded-up square root, one at least, for every number, and the Newton
loop that computes it comes to an end. -/
theorem selectSubtreePath_wellFormed :
    (∀ (nonce : Nonce) (keyCount : Nat), 0 < keyCount → keyCount ≤ maxCommitmentKeyCount →
      ∃ path, selectSubtreePath nonce keyCount = some path ∧ WellFormed nonce keyCount path) ∧
    ∀ n : Nat, sqrtFloor n = max ⌈Real.sqrt n⌉₊ 1 ∧
      (1 < n → ∃ rounds, (∀ i < rounds, 0 < ((newtonRound n)^[i] (n, (n + 1) / 2)).2 ∧
          ((newtonRound n)^[i] (n, (n + 1) / 2)).2 < ((newtonRound n)^[i] (n, (n + 1) / 2)).1) ∧
        ((newtonRound n)^[rounds] (n, (n + 1) / 2)).1 ≤
          ((newtonRound n)^[rounds] (n, (n + 1) / 2)).2) := by
  constructor
  · intro nonce keyCount hpos hmax
    obtain ⟨path, hpath, hsel⟩ := selectSubtreePath_spec nonce hpos hmax
    refine ⟨path, hpath, hsel.leafStart_eq, hsel.leafEnd_eq, hsel.leafStart_lt_leafEnd, ?_, ?_, ?_,
      ?_, ?_⟩
    · rw [hsel.slot_eq]
      exact slotAt_lt nonce path.depth
    · intro i hi
      rw [hsel.slot_eq]
      exact testBit_slotAt nonce hi
    · intro hfour
      have hsmall : keyCount ≤ smallTreeFullAuditFloor := hfour
      rw [selectSubtreePath, treeDepth_eq_some hpos hmax, Option.map_some, if_pos hsmall] at hpath
      exact (Option.some.inj hpath).symm
    · intro hlarge
      rw [← sqrtFloor_eq_ceil hpos]
      exact (selectSubtreePath_stops hpath hlarge).2.1
    · intro hlarge
      rw [← sqrtFloor_eq_ceil hpos]
      exact ⟨(selectSubtreePath_stops hpath hlarge).1, (selectSubtreePath_stops hpath hlarge).2.2⟩
  · intro n
    refine ⟨sqrtFloor_eq n, fun hn => ?_⟩
    have hfirst : (n + 1) / 2 = (n + n / n) / 2 := by rw [Nat.div_self (by omega)]
    obtain ⟨rounds, hrounds, hstop, -⟩ :=
      newtonRound_terminates (by omega) (Nat.sqrt_le_self n) hfirst
    exact ⟨rounds, hrounds, hstop⟩

theorem selectSubtreePath_wellFormed_five :
    ∃ path, selectSubtreePath (Vector.replicate 32 0) 5 = some path ∧
      WellFormed (Vector.replicate 32 0) 5 path :=
  selectSubtreePath_wellFormed.1 _ 5 (by decide) (by decide)

/-- The floor of the empty tree is one, which is not its square root. -/
theorem sqrtFloor_zero_ne_ceil : sqrtFloor 0 = 1 ∧ sqrtFloor 0 ≠ ⌈Real.sqrt (0 : Nat)⌉₊ := by
  have hone : sqrtFloor 0 = 1 := by rw [sqrtFloor, if_pos (by omega)]
  rw [hone]
  exact ⟨rfl, by simp⟩

end AntNode
