import AntNode.HintAdmission
import AntNode.Transcript

/-!
# Every hinted key is sorted once

The two loops append filtered lists of first occurrences: of the replica hints, and of the paid
hints that are not replica hints. The classification of a key is read off these lists.
-/

namespace AntNode.Admission

open Visiting

variable {H : Type} [Digest H] (ctx : AdmissionContext H)

/-- Stored, pending, or close enough to store. -/
def StorageAdmissible (key : H) : Prop :=
  unwrapOrFalse (ctx.storageExists key) = true ∨ key ∈ ctx.pendingKeys ∨
    isResponsible ctx.selfId key ctx.routing
      (storageAdmissionWidth ctx.config.closeGroupSize) = true

/-- On the paid list, or close enough to track. -/
def PaidAdmissible (key : H) : Prop :=
  unwrapOrFalse (ctx.paidListContains key) = true ∨
    isInPaidCloseGroup ctx.selfId key ctx.routing ctx.config.paidListCloseGroupSize = true

instance : DecidablePred (StorageAdmissible ctx) := fun _ => inferInstanceAs (Decidable (_ ∨ _))

instance : DecidablePred (PaidAdmissible ctx) := fun _ => inferInstanceAs (Decidable (_ ∨ _))

theorem admitReplicaHint_eq (result : AdmissionResult H) (key : H) :
    admitReplicaHint ctx result key =
      if StorageAdmissible ctx key then { result with replicaKeys := result.replicaKeys ++ [key] }
      else { result with rejectedKeys := result.rejectedKeys ++ [key] } := by
  unfold admitReplicaHint StorageAdmissible
  by_cases hlocal : unwrapOrFalse (ctx.storageExists key) = true
  · simp [hlocal]
  · by_cases hpending : key ∈ ctx.pendingKeys
    · simp [hpending]
    · simp [hlocal, hpending]

theorem admitPaidHint_eq (result : AdmissionResult H) (key : H) :
    admitPaidHint ctx result key =
      if PaidAdmissible ctx key then { result with paidOnlyKeys := result.paidOnlyKeys ++ [key] }
      else { result with rejectedKeys := result.rejectedKeys ++ [key] } := by
  unfold admitPaidHint PaidAdmissible
  by_cases hpaid : unwrapOrFalse (ctx.paidListContains key) = true
  · simp [hpaid]
  · simp [hpaid]

theorem foldl_admitReplicaHint (keys : List H) (result : AdmissionResult H) :
    keys.foldl (admitReplicaHint ctx) result =
      { result with
        replicaKeys := result.replicaKeys ++ keys.filter fun key => StorageAdmissible ctx key
        rejectedKeys := result.rejectedKeys ++
          keys.filter fun key => ¬StorageAdmissible ctx key } := by
  induction keys generalizing result with
  | nil => simp
  | cons key keys ih =>
      rw [List.foldl_cons, ih, admitReplicaHint_eq]
      by_cases hadmissible : StorageAdmissible ctx key
      · simp [hadmissible]
      · simp [hadmissible]

theorem foldl_admitPaidHint (keys : List H) (result : AdmissionResult H) :
    keys.foldl (admitPaidHint ctx) result =
      { result with
        paidOnlyKeys := result.paidOnlyKeys ++ keys.filter fun key => PaidAdmissible ctx key
        rejectedKeys := result.rejectedKeys ++
          keys.filter fun key => ¬PaidAdmissible ctx key } := by
  induction keys generalizing result with
  | nil => simp
  | cons key keys ih =>
      rw [List.foldl_cons, ih, admitPaidHint_eq]
      by_cases hadmissible : PaidAdmissible ctx key
      · simp [hadmissible]
      · simp [hadmissible]

theorem admitHints_eq (replicaHints paidHints : List H) :
    admitHints ctx replicaHints paidHints =
      { replicaKeys := (unvisited ∅ replicaHints).filter fun key => StorageAdmissible ctx key
        paidOnlyKeys :=
          (unvisited replicaHints.toFinset paidHints).filter fun key => PaidAdmissible ctx key
        rejectedKeys :=
          ((unvisited ∅ replicaHints).filter fun key => ¬StorageAdmissible ctx key) ++
            (unvisited replicaHints.toFinset paidHints).filter fun key =>
              ¬PaidAdmissible ctx key } := by
  unfold admitHints
  dsimp only
  rw [foldl_visit, foldl_visit, Finset.empty_union, foldl_admitReplicaHint, foldl_admitPaidHint]
  rfl

/-- The three lists together are the hinted keys, each where it first occurs. -/
theorem admitHints_perm (replicaHints paidHints : List H) :
    ((admitHints ctx replicaHints paidHints).replicaKeys ++
      (admitHints ctx replicaHints paidHints).paidOnlyKeys ++
      (admitHints ctx replicaHints paidHints).rejectedKeys).Perm
      (unvisited ∅ replicaHints ++ unvisited replicaHints.toFinset paidHints) := by
  rw [admitHints_eq]
  dsimp only
  simp only [decide_not]
  rw [List.append_assoc]
  refine ((List.perm_append_comm_assoc _ _ _).append_left _).trans ?_
  rw [← List.append_assoc]
  exact (List.filter_append_perm _ _).append (List.filter_append_perm _ _)

theorem nodup_hints (replicaHints paidHints : List H) :
    (unvisited ∅ replicaHints ++ unvisited replicaHints.toFinset paidHints).Nodup := by
  refine List.nodup_append.mpr ⟨nodup_unvisited _ _, nodup_unvisited _ _, ?_⟩
  rintro key hreplica other hpaid rfl
  exact (mem_unvisited.mp hpaid).2 (List.mem_toFinset.mpr (mem_unvisited.mp hreplica).1)

/-- **Every hinted key is sorted once**, into the list its hints entitle it to. A key of the replica
hints is a replica key or rejected; only the other paid hints can be paid-only keys. -/
theorem admitHints_classifies (replicaHints paidHints : List H) :
    ((admitHints ctx replicaHints paidHints).replicaKeys ++
      (admitHints ctx replicaHints paidHints).paidOnlyKeys ++
      (admitHints ctx replicaHints paidHints).rejectedKeys).Nodup ∧
    ∀ key,
      (key ∈ (admitHints ctx replicaHints paidHints).replicaKeys ++
          (admitHints ctx replicaHints paidHints).paidOnlyKeys ++
          (admitHints ctx replicaHints paidHints).rejectedKeys ↔
        key ∈ replicaHints ∨ key ∈ paidHints) ∧
      (key ∈ (admitHints ctx replicaHints paidHints).replicaKeys ↔
        key ∈ replicaHints ∧ StorageAdmissible ctx key) ∧
      (key ∈ (admitHints ctx replicaHints paidHints).paidOnlyKeys ↔
        key ∈ paidHints ∧ PaidAdmissible ctx key ∧ key ∉ replicaHints) := by
  have hperm := admitHints_perm ctx replicaHints paidHints
  refine ⟨hperm.nodup_iff.mpr (nodup_hints replicaHints paidHints), fun key => ⟨?_, ?_, ?_⟩⟩
  · rw [hperm.mem_iff, List.mem_append, mem_unvisited, mem_unvisited, List.mem_toFinset]
    by_cases hreplica : key ∈ replicaHints
    · simp [hreplica]
    · simp [hreplica]
  · rw [admitHints_eq, List.mem_filter, mem_unvisited, decide_eq_true_eq]
    simp
  · rw [admitHints_eq, List.mem_filter, mem_unvisited, decide_eq_true_eq, List.mem_toFinset]
    constructor
    · rintro ⟨⟨hpaid, hnot⟩, hadmissible⟩
      exact ⟨hpaid, hadmissible, hnot⟩
    · rintro ⟨hpaid, hadmissible, hnot⟩
      exact ⟨⟨hpaid, hnot⟩, hadmissible⟩

/-- A node that ten peers are closer to every key than: too far to store, near enough to track. -/
def outerContext : AdmissionContext Transcript where
  selfId := ⟨[11]⟩
  routing :=
    { findClosestNodesLocal := fun _ n =>
        ([1, 2, 3, 4, 5, 6, 7, 8, 9, 10].map fun byte => ⟨[byte]⟩).take n
      findClosestNodesLocalWithSelf := fun _ n =>
        ([1, 2, 3, 4, 5, 6, 7, 8, 9, 10, 11].map fun byte => ⟨[byte]⟩).take n }
  config := ⟨7, 4, 20, 0⟩
  storageExists := fun _ => .ok false
  paidListContains := fun _ => .ok false
  pendingKeys := ∅

/-- A key hinted both ways whose replica hint is rejected is lost to the paid list. -/
theorem admitHints_drops_paid_hint :
    (admitHints outerContext [⟨[42]⟩] [⟨[42]⟩]).rejectedKeys = [⟨[42]⟩] ∧
      ¬((⟨[42]⟩ : Transcript) ∈ (admitHints outerContext [⟨[42]⟩] [⟨[42]⟩]).paidOnlyKeys ↔
        (⟨[42]⟩ : Transcript) ∈ [(⟨[42]⟩ : Transcript)] ∧ PaidAdmissible outerContext ⟨[42]⟩ ∧
          (⟨[42]⟩ : Transcript) ∉
            (admitHints outerContext [⟨[42]⟩] [⟨[42]⟩]).replicaKeys) := by
  decide +kernel

end AntNode.Admission
