import AntNode.Proof.Selection
import AntNode.StorageCommitmentAudit
import AntNode.Transcript

/-!
# The spot-check samples

The indices picked so far are always distinct and in range, whatever the generator or the hash
returns. The draws may collide until the guard runs out, and the top-up then fills the sample, so it
is never short. The counter of the reproducible sample is a `u32` that wraps, but a selected branch
has at most `10 ^ 6` leaves, so the limit on the counter is far below its range.
-/

namespace AntNode

variable {H : Type}

theorem mem_btreeInsert {x y : Nat} {set : List Nat} :
    y ∈ btreeInsert x set ↔ y = x ∨ y ∈ set := by
  unfold btreeInsert
  by_cases hmem : x ∈ set
  · rw [if_pos hmem]
    constructor
    · exact .inr
    · rintro (rfl | hy)
      · exact hmem
      · exact hy
  · rw [if_neg hmem, List.mem_orderedInsert]

structure Picked (n want : Nat) (picked : List Nat) : Prop where
  ascending : picked.Pairwise (· < ·)
  lt : ∀ idx ∈ picked, idx < n
  length_le : picked.length ≤ want

namespace Picked

variable {n want : Nat} {picked : List Nat}

theorem nil : Picked n want [] :=
  ⟨List.Pairwise.nil, fun _ hidx => absurd hidx List.not_mem_nil, Nat.zero_le _⟩

theorem insert (hpicked : Picked n want picked) (hroom : picked.length < want) {x : Nat}
    (hx : x < n) : Picked n want (btreeInsert x picked) := by
  refine ⟨?_, ?_, ?_⟩
  · unfold btreeInsert
    by_cases hmem : x ∈ picked
    · rw [if_pos hmem]
      exact hpicked.ascending
    · rw [if_neg hmem]
      have hsorted : (picked.orderedInsert (· ≤ ·) x).Pairwise (· ≤ ·) :=
        (hpicked.ascending.imp le_of_lt).orderedInsert x picked
      have hnodup : (picked.orderedInsert (· ≤ ·) x).Nodup := by
        rw [(List.perm_orderedInsert _ x picked).nodup_iff, List.nodup_cons]
        exact ⟨hmem, hpicked.ascending.imp ne_of_lt⟩
      exact (hsorted.and hnodup).imp fun h => lt_of_le_of_ne h.1 h.2
  · intro idx hidx
    rcases mem_btreeInsert.mp hidx with rfl | hidx
    · exact hx
    · exact hpicked.lt idx hidx
  · unfold btreeInsert
    by_cases hmem : x ∈ picked
    · rw [if_pos hmem]
      exact hpicked.length_le
    · rw [if_neg hmem, List.orderedInsert_length]
      exact hroom

theorem pickLoop (hn : 0 < n) (rng : Nat → Nat) (left guard : Nat)
    (hpicked : Picked n want picked) :
    Picked n want (pickLoop rng n want left guard picked) := by
  induction left generalizing guard picked with
  | zero => exact hpicked
  | succ left ih =>
      rw [AntNode.pickLoop]
      by_cases hroom : picked.length < want
      · rw [if_pos hroom]
        exact ih _ (hpicked.insert hroom (Nat.mod_lt _ hn))
      · rw [if_neg hroom]
        exact hpicked

theorem topUp (hpicked : Picked n want picked) {idxs : List Nat} (hidxs : ∀ idx ∈ idxs, idx < n) :
    Picked n want (topUp want idxs picked) := by
  induction idxs generalizing picked with
  | nil => exact hpicked
  | cons idx rest ih =>
      rw [AntNode.topUp]
      by_cases hfull : want ≤ picked.length
      · rw [if_pos hfull]
        exact hpicked
      · rw [if_neg hfull]
        exact ih (hpicked.insert (Nat.lt_of_not_le hfull) (hidxs idx (by simp)))
          fun later hlater => hidxs later (by simp [hlater])

end Picked

theorem subset_topUp (want : Nat) (idxs picked : List Nat) : picked ⊆ topUp want idxs picked := by
  induction idxs generalizing picked with
  | nil => exact List.Subset.refl picked
  | cons idx rest ih =>
      rw [topUp]
      by_cases hfull : want ≤ picked.length
      · rw [if_pos hfull]
        exact List.Subset.refl picked
      · rw [if_neg hfull]
        intro y hy
        exact ih _ (mem_btreeInsert.mpr (.inr hy))

theorem full_or_subset_topUp (want : Nat) (idxs picked : List Nat) :
    want ≤ (topUp want idxs picked).length ∨ idxs ⊆ topUp want idxs picked := by
  induction idxs generalizing picked with
  | nil => exact .inr (List.nil_subset _)
  | cons idx rest ih =>
      rw [topUp]
      by_cases hfull : want ≤ picked.length
      · rw [if_pos hfull]
        exact .inl hfull
      · rw [if_neg hfull]
        rcases ih (btreeInsert idx picked) with hdone | hrest
        · exact .inl hdone
        · exact .inr (List.cons_subset.mpr
            ⟨subset_topUp want rest _ (mem_btreeInsert.mpr (.inl rfl)), hrest⟩)

/-- The sampled indices are distinct, ascending, in range, and as many as asked for. -/
theorem spotcheckIndices_spec {n : Nat} (hn : 0 < n) (count : Nat) (rng : Nat → Nat) :
    Picked n (min count n) (spotcheckIndices n count rng) ∧
      (spotcheckIndices n count rng).length = min count n := by
  have hpicked : Picked n (min count n) (spotcheckIndices n count rng) :=
    (Picked.nil.pickLoop hn rng _ 0).topUp fun idx hidx => List.mem_range.mp hidx
  refine ⟨hpicked, le_antisymm hpicked.length_le ?_⟩
  rcases full_or_subset_topUp (min count n) (List.range n) _ with hfull | hall
  · exact hfull
  · calc min count n ≤ n := min_le_right count n
      _ = (List.range n).length := List.length_range.symm
      _ ≤ (spotcheckIndices n count rng).length := (List.nodup_range.subperm hall).length_le

theorem mem_of_mem_randomSpotcheckLeaves {proof : SubtreeProof H} {count : Nat}
    {rng : Nat → Nat} {leaf : SubtreeLeaf H}
    (hleaf : leaf ∈ randomSpotcheckLeaves proof count rng) : leaf ∈ proof.leaves := by
  unfold randomSpotcheckLeaves at hleaf
  split at hleaf
  · exact absurd hleaf List.not_mem_nil
  · obtain ⟨idx, -, hget⟩ := List.mem_filterMap.mp hleaf
    exact List.mem_of_getElem? hget

theorem filterMap_getElem? {α : Type*} {l : List α} {idxs : List Nat}
    (hidxs : ∀ idx ∈ idxs, idx < l.length) :
    (idxs.filterMap fun idx => l[idx]?).map some = idxs.map fun idx => l[idx]? := by
  induction idxs with
  | nil => rfl
  | cons idx rest ih =>
      have hlt : idx < l.length := hidxs idx (by simp)
      have hget : l[idx]? = some l[idx] := List.getElem?_eq_getElem hlt
      rw [List.filterMap_cons_some hget, List.map_cons, List.map_cons, hget,
        ih fun later hlater => hidxs later (by simp [hlater])]

/-- The sample is the leaves at the picked indices, one for each. -/
theorem randomSpotcheckLeaves_spec {proof : SubtreeProof H} (hn : 0 < proof.leaves.length)
    (count : Nat) (rng : Nat → Nat) :
    (randomSpotcheckLeaves proof count rng).map some =
        (spotcheckIndices proof.leaves.length count rng).map (fun idx => proof.leaves[idx]?) ∧
      (randomSpotcheckLeaves proof count rng).length = min count proof.leaves.length := by
  obtain ⟨hpicked, hlen⟩ := spotcheckIndices_spec hn count rng
  have hleaves := filterMap_getElem? hpicked.lt
  have hsample : randomSpotcheckLeaves proof count rng =
      (spotcheckIndices proof.leaves.length count rng).filterMap
        fun idx => proof.leaves[idx]? := if_neg hn.ne'
  rw [← hsample] at hleaves
  refine ⟨hleaves, ?_⟩
  have hcount := congrArg List.length hleaves
  rwa [List.length_map, List.length_map, hlen] at hcount

theorem randomSpotcheckLeaves_ne_nil {proof : SubtreeProof H} (hne : proof.leaves ≠ [])
    {count : Nat} (hcount : 0 < count) (rng : Nat → Nat) :
    randomSpotcheckLeaves proof count rng ≠ [] := by
  have hn : 0 < proof.leaves.length := List.length_pos_iff.mpr hne
  apply List.ne_nil_of_length_pos
  rw [(randomSpotcheckLeaves_spec hn count rng).2]
  exact lt_min hcount hn

/-! ### The reproducible sample -/

/-- The indices selected so far. -/
structure Drawn (n k : Nat) (out : List Nat) : Prop where
  nodup : out.Nodup
  lt : ∀ idx ∈ out, idx < n
  length_le : out.length ≤ k

theorem mem_pushIndex {x y : Nat} {out : List Nat} : y ∈ pushIndex x out ↔ y = x ∨ y ∈ out := by
  unfold pushIndex
  by_cases hmem : x ∈ out
  · rw [if_pos hmem]
    constructor
    · exact .inr
    · rintro (rfl | hy)
      · exact hmem
      · exact hy
  · rw [if_neg hmem, List.mem_append, List.mem_singleton, or_comm]

namespace Drawn

variable {n k : Nat} {out : List Nat}

theorem nil : Drawn n k [] :=
  ⟨List.nodup_nil, fun _ hidx => absurd hidx List.not_mem_nil, Nat.zero_le _⟩

theorem push (hdrawn : Drawn n k out) (hroom : out.length < k) {x : Nat} (hx : x < n) :
    Drawn n k (pushIndex x out) := by
  refine ⟨?_, ?_, ?_⟩
  · unfold pushIndex
    by_cases hmem : x ∈ out
    · rw [if_pos hmem]
      exact hdrawn.nodup
    · rw [if_neg hmem]
      rw [← List.concat_eq_append]
      exact hdrawn.nodup.concat hmem
  · intro idx hidx
    rcases mem_pushIndex.mp hidx with rfl | hidx
    · exact hx
    · exact hdrawn.lt idx hidx
  · unfold pushIndex
    by_cases hmem : x ∈ out
    · rw [if_pos hmem]
      exact hdrawn.length_le
    · rw [if_neg hmem, List.length_append]
      exact hroom

/-- The loop is left after at most `left + 1` draws: the wrapping counter stays in its range. -/
theorem drawIndices (hdrawn : Drawn n k out) (hn : 0 < n) (hk : k * 64 + 1 < 2 ^ 32)
    (word : Nat → Nat) {left counter : Nat} (hleft : counter + left = k * 64) :
    ∃ out', Drawn n k out' ∧
      ∀ fuel, left < fuel → drawIndices word n k fuel counter out = some out' := by
  induction left generalizing counter out with
  | zero =>
      by_cases hroom : min out.length (2 ^ 32 - 1) < k
      · refine ⟨pushIndex (word counter % n) out,
          hdrawn.push (by omega) (Nat.mod_lt _ hn), fun fuel hfuel => ?_⟩
        obtain ⟨fuel, rfl⟩ := Nat.exists_eq_add_of_lt hfuel
        have hlimit : min (k * 64) (2 ^ 32 - 1) < (counter + 1) % 2 ^ 32 := by
          rw [Nat.mod_eq_of_lt (by omega)]
          omega
        rw [AntNode.drawIndices, if_pos hroom]
        exact if_pos hlimit
      · refine ⟨out, hdrawn, fun fuel hfuel => ?_⟩
        obtain ⟨fuel, rfl⟩ := Nat.exists_eq_add_of_lt hfuel
        rw [AntNode.drawIndices, if_neg hroom]
  | succ left ih =>
      by_cases hroom : min out.length (2 ^ 32 - 1) < k
      · have hpushed : Drawn n k (pushIndex (word counter % n) out) :=
          hdrawn.push (by omega) (Nat.mod_lt _ hn)
        obtain ⟨out', hout', hrest⟩ :=
          ih hpushed (show counter + 1 + left = k * 64 by omega)
        refine ⟨out', hout', fun fuel hfuel => ?_⟩
        obtain ⟨fuel, rfl⟩ := Nat.exists_eq_add_of_lt hfuel
        have hcounter : (counter + 1) % 2 ^ 32 = counter + 1 := Nat.mod_eq_of_lt (by omega)
        have hlimit : ¬min (k * 64) (2 ^ 32 - 1) < counter + 1 := by omega
        rw [AntNode.drawIndices, if_pos hroom, hcounter]
        refine (if_neg hlimit).trans (hrest _ (by omega))
      · refine ⟨out, hdrawn, fun fuel hfuel => ?_⟩
        obtain ⟨fuel, rfl⟩ := Nat.exists_eq_add_of_lt hfuel
        rw [AntNode.drawIndices, if_neg hroom]

theorem fillIndices (hdrawn : Drawn n k out) {candidates : List Nat}
    (hcandidates : ∀ idx ∈ candidates, idx < n) (hk : k < 2 ^ 32 - 1) :
    Drawn n k (fillIndices k candidates out) := by
  induction candidates generalizing out with
  | nil => exact hdrawn
  | cons candidate rest ih =>
      rw [AntNode.fillIndices]
      by_cases hroom : min out.length (2 ^ 32 - 1) < k
      · rw [if_pos hroom]
        exact ih (hdrawn.push (by omega) (hcandidates candidate (by simp)))
          fun later hlater => hcandidates later (by simp [hlater])
      · rw [if_neg hroom]
        exact hdrawn

end Drawn

theorem subset_fillIndices (k : Nat) (candidates out : List Nat) :
    out ⊆ fillIndices k candidates out := by
  induction candidates generalizing out with
  | nil => exact List.Subset.refl out
  | cons candidate rest ih =>
      rw [fillIndices]
      by_cases hroom : min out.length (2 ^ 32 - 1) < k
      · rw [if_pos hroom]
        intro y hy
        exact ih _ (mem_pushIndex.mpr (.inr hy))
      · rw [if_neg hroom]
        exact List.Subset.refl out

theorem full_or_subset_fillIndices (k : Nat) (candidates out : List Nat) :
    k ≤ (fillIndices k candidates out).length ∨ candidates ⊆ fillIndices k candidates out := by
  induction candidates generalizing out with
  | nil => exact .inr (List.nil_subset _)
  | cons candidate rest ih =>
      rw [fillIndices]
      by_cases hroom : min out.length (2 ^ 32 - 1) < k
      · rw [if_pos hroom]
        rcases ih (pushIndex candidate out) with hdone | hrest
        · exact .inl hdone
        · exact .inr (List.cons_subset.mpr
            ⟨subset_fillIndices k rest _ (mem_pushIndex.mpr (.inl rfl)), hrest⟩)
      · rw [if_neg hroom]
        exact .inl (by omega)

/-- The bounded draws and the top-up together give `k` distinct indices. -/
theorem drawIndices_fillIndices {n k : Nat} (hkn : k < n) (hn : n ≤ maxCommitmentKeyCount)
    (word : Nat → Nat) : ∃ drawn, (∀ fuel > k * 64, drawIndices word n k fuel 0 [] = some drawn) ∧
      Drawn n k (fillIndices k (List.range n) drawn) ∧
      (fillIndices k (List.range n) drawn).length = k := by
  have hmax : maxCommitmentKeyCount = 1000000 := rfl
  obtain ⟨drawn, hdrawn, hloop⟩ :=
    (Drawn.nil (n := n) (k := k)).drawIndices (by omega) (by omega) word (Nat.zero_add (k * 64))
  have hfilled : Drawn n k (fillIndices k (List.range n) drawn) :=
    hdrawn.fillIndices (fun idx hidx => List.mem_range.mp hidx) (by omega)
  refine ⟨drawn, hloop, hfilled, le_antisymm hfilled.length_le ?_⟩
  rcases full_or_subset_fillIndices k (List.range n) drawn with hfull | hall
  · exact hfull
  · have hlen := (List.nodup_range.subperm hall).length_le
    rw [List.length_range] at hlen
    omega

/-- Neither sample is ever short, whatever the hash or the generator returns. -/
theorem spotcheck_samples_full [Digest H] :
    (∀ (nonce pathNonce : Nonce) (keyCount k : Nat) (path : SubtreePath),
      selectSubtreePath pathNonce keyCount = some path →
        (k < path.realLeafCount → ∀ word : Nat → Nat, ∃ drawn, ∀ fuel > k * 64,
          drawIndices word path.realLeafCount k fuel 0 [] = some drawn) ∧
        ∃ indices, (∀ fuel > k * 64, selectSpotcheckIndices H fuel nonce path k = some indices) ∧
          indices.length = min k path.realLeafCount ∧ indices.Nodup ∧
          ∀ idx ∈ indices, idx < path.realLeafCount) ∧
    ∀ (proof : SubtreeProof H) (count : Nat) (rng : Nat → Nat), ∃ idxs : List Nat,
      (randomSpotcheckLeaves proof count rng).map some = idxs.map (fun idx => proof.leaves[idx]?) ∧
        idxs.Pairwise (· < ·) ∧ (∀ idx ∈ idxs, idx < proof.leaves.length) ∧
        (randomSpotcheckLeaves proof count rng).length = min count proof.leaves.length := by
  constructor
  · intro nonce pathNonce keyCount k path hpath
    obtain ⟨-, hmax, hsel⟩ := selectSubtreePath_eq_some hpath
    have hstart : path.leafStart < path.leafEnd := hsel.leafStart_lt_leafEnd
    have hend : path.leafEnd ≤ keyCount := hsel.leafEnd_eq ▸ min_le_right _ _
    have hn : path.realLeafCount ≤ maxCommitmentKeyCount := by
      unfold SubtreePath.realLeafCount
      omega
    have hpos : path.realLeafCount ≠ 0 := by
      unfold SubtreePath.realLeafCount
      omega
    refine ⟨fun hkn word => ?_, ?_⟩
    · obtain ⟨drawn, hloop, -⟩ := drawIndices_fillIndices hkn hn word
      exact ⟨drawn, hloop⟩
    · by_cases hkn : path.realLeafCount ≤ k
      · refine ⟨List.range path.realLeafCount, fun fuel _ => ?_, ?_, List.nodup_range,
          fun idx hidx => List.mem_range.mp hidx⟩
        · exact (if_neg hpos).trans (if_pos hkn)
        · rw [List.length_range, min_eq_right hkn]
      · obtain ⟨drawn, hloop, hfilled, hlen⟩ :=
          drawIndices_fillIndices (Nat.lt_of_not_le hkn) hn (spotcheckWord H nonce)
        refine ⟨_, fun fuel hfuel => ?_, ?_, hfilled.nodup, hfilled.lt⟩
        · refine (if_neg hpos).trans ((if_neg hkn).trans ?_)
          rw [hloop fuel hfuel, Option.map_some]
        · rw [hlen, min_eq_left (Nat.lt_of_not_le hkn).le]
  · intro proof count rng
    rcases Nat.eq_zero_or_pos proof.leaves.length with hnone | hn
    · have hempty : randomSpotcheckLeaves proof count rng = [] := if_pos hnone
      refine ⟨[], ?_, List.Pairwise.nil, fun _ hidx => absurd hidx List.not_mem_nil, ?_⟩
      · rw [hempty, List.map_nil, List.map_nil]
      · rw [hempty, hnone, Nat.min_zero, List.length_nil]
    · obtain ⟨hpicked, -⟩ := spotcheckIndices_spec hn count rng
      obtain ⟨hleaves, hlen⟩ := randomSpotcheckLeaves_spec hn count rng
      exact ⟨_, hleaves, hpicked.ascending, hpicked.lt, hlen⟩

theorem spotcheck_samples_full_two_of_four :
    selectSubtreePath (Vector.replicate 32 0) 4 = some ⟨0, 0, 0, 4⟩ ∧
    (∀ word : Nat → Nat, ∃ drawn, ∀ fuel > 2 * 64,
      drawIndices word 4 2 fuel 0 [] = some drawn) ∧
    ∃ indices, (∀ fuel > 2 * 64, selectSpotcheckIndices Transcript fuel (Vector.replicate 32 7)
        ⟨0, 0, 0, 4⟩ 2 = some indices) ∧
      indices.length = 2 ∧ indices.Nodup ∧ ∀ idx ∈ indices, idx < 4 := by
  have hpath : selectSubtreePath (Vector.replicate 32 0) 4 = some ⟨0, 0, 0, 4⟩ := rfl
  obtain ⟨hloops, hindices⟩ :=
    (spotcheck_samples_full (H := Transcript)).1 (Vector.replicate 32 7) _ 4 2 _ hpath
  exact ⟨hpath, hloops (by decide), hindices⟩

end AntNode
