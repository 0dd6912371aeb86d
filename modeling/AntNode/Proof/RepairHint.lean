import AntNode.RepairProofs

/-!
# Mature repair hints

Reconciling the table with the current close group only forgets hints, so a hint that a query finds
mature was in the table before it.
-/

namespace AntNode

variable {H : Type} [Digest H]

namespace RepairProofs

/-- The node has hinted the peer for the key long enough ago to audit it. -/
def MatureHint (proofs : RepairProofs H) (peer key : H) (currentEpoch now : Nat) : Prop :=
  ∃ proof, proofs.hintFor peer key = some proof ∧ proof.hintedAtEpoch < currentEpoch ∧
    repairHintMinAge ≤ now - proof.hintedAt

variable {proofs : RepairProofs H} {peer key : H} {closePeers : Finset H} {epoch now : Nat}

theorem hintFor_of_reconcile {k : H} {proof : RepairProof}
    (hhint : (proofs.reconcileKeyCloseGroup key closePeers).hintFor peer k = some proof) :
    proofs.hintFor peer k = some proof := by
  unfold reconcileKeyCloseGroup at hhint
  cases hentry : proofs.proofsByKey.lookup key with
  | none => rwa [hentry] at hhint
  | some entry =>
      simp only [hentry] at hhint
      split_ifs at hhint with hsame hempty
      · exact hhint
      · unfold hintFor at hhint ⊢
        by_cases heq : k = key
        · subst heq
          simp at hhint
        · rwa [Finmap.lookup_erase_ne heq] at hhint
      · unfold hintFor at hhint ⊢
        by_cases heq : k = key
        · subst heq
          rw [Finmap.lookup_insert] at hhint
          rw [hentry]
          exact (FiniteMap.lookup_retain_eq_some.mp hhint).1
        · rwa [Finmap.lookup_insert_of_ne _ heq] at hhint

theorem matureHint_of_hasMatureReplicaHint
    (hmature : (proofs.hasMatureReplicaHint peer key closePeers epoch now).1 = true) :
    proofs.MatureHint peer key epoch now := by
  unfold hasMatureReplicaHint at hmature
  cases hhint : (proofs.reconcileKeyCloseGroup key closePeers).hintFor peer key with
  | none => simp [hhint] at hmature
  | some proof =>
      simp only [hhint, decide_eq_true_eq] at hmature
      exact ⟨proof, hintFor_of_reconcile hhint, hmature⟩

theorem MatureHint.of_hasMatureReplicaHint {other : H}
    (hmature : (proofs.hasMatureReplicaHint other key closePeers epoch now).2.MatureHint
      peer key epoch now) : proofs.MatureHint peer key epoch now := by
  obtain ⟨proof, hhint, hage⟩ := hmature
  exact ⟨proof, hintFor_of_reconcile hhint, hage⟩

end RepairProofs

end AntNode
