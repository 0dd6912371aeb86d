import AntNode.Lib.FirstSince
import AntNode.RepairProofs
import AntNode.Transcript

/-!
# What a repair proof stands for

For one peer and one key the table is a cell: a hint fills it if it is empty, and it is emptied when
the key or the peer is removed, or when a close group without the peer is presented for the key by a
hint to, or a query about, any peer. So a mature hint is the earliest one that has survived.
-/

namespace AntNode

variable {H : Type}

/-- Hints are kept for members of the recorded close group, and for at least one. -/
structure RepairProofEntry.Sound (entry : RepairProofEntry H) : Prop where
  nonempty : entry.peerProofs.keys ≠ ∅
  subset : entry.peerProofs.keys ⊆ entry.closePeers

namespace RepairProofs

/-- A hint for the key is sent to the peer as a member of the close group. -/
def Hints (peer key : H) (op : Op H) (proof : RepairProof) : Prop :=
  ∃ closePeers, op = .recordHint peer key closePeers proof.hintedAtEpoch proof.hintedAt ∧
    peer ∈ closePeers

/-- The operation presents a close group without the peer, or removes the peer or the key. -/
def Drops (peer key : H) : Op H → Prop
  | .recordHint _ other closePeers _ _ => other = key ∧ peer ∉ closePeers
  | .query _ other closePeers _ _ => other = key ∧ peer ∉ closePeers
  | .removeKey other => other = key
  | .removePeer other => other = peer

theorem not_drops_of_hints {peer key : H} {op : Op H} {proof : RepairProof}
    (hhints : Hints peer key op proof) : ¬ Drops peer key op := by
  obtain ⟨closePeers, rfl, hmem⟩ := hhints
  exact fun hdrops => hdrops.2 hmem

theorem hints_unique {peer key : H} {op : Op H} {proof proof' : RepairProof}
    (hhints : Hints peer key op proof) (hhints' : Hints peer key op proof') : proof = proof' := by
  obtain ⟨closePeers, rfl, -⟩ := hhints
  obtain ⟨closePeers', heq, -⟩ := hhints'
  cases proof
  cases proof'
  cases heq
  rfl

/-- An operation that sends no hint and empties the cell exactly when it drops the peer. -/
theorem cellStep_of_ite {peer key : H} {op : Op H} {old new : Option RepairProof} {P : Prop}
    [Decidable P] (hop : ∀ proof, ¬ Hints peer key op proof)
    (hnew : new = if P then none else old) (hdrops : Drops peer key op ↔ P) :
    FirstSince.CellStep (Hints peer key) (Drops peer key) op old new := by
  split_ifs at hnew with hP
  · exact .reset (hdrops.mpr hP) hnew
  · exact .keep (fun hd => hP (hdrops.mp hd)) hop hnew

variable [Digest H]

def Sound (proofs : RepairProofs H) : Prop :=
  ∀ key entry, proofs.proofsByKey.lookup key = some entry → entry.Sound

variable {proofs next : RepairProofs H} {peer key other : H} {closePeers : Finset H}

theorem sound_insert {entry : RepairProofEntry H} (hproofs : proofs.Sound) (hentry : entry.Sound) :
    Sound ⟨proofs.proofsByKey.insert key entry⟩ := by
  intro k e hlookup
  rw [FiniteMap.lookup_insert_eq] at hlookup
  split_ifs at hlookup
  · cases hlookup
    exact hentry
  · exact hproofs k e hlookup

theorem sound_erase (hproofs : proofs.Sound) (key : H) : (proofs.removeKey key).Sound := by
  intro k e hlookup
  by_cases heq : k = key
  · subst heq
    simp [removeKey] at hlookup
  · rw [removeKey, Finmap.lookup_erase_ne heq] at hlookup
    exact hproofs k e hlookup

theorem hintFor_insert {entry : RepairProofEntry H} :
    (hintFor ⟨proofs.proofsByKey.insert key entry⟩ peer other) =
      if other = key then entry.peerProofs.lookup peer else proofs.hintFor peer other := by
  unfold hintFor
  rw [FiniteMap.lookup_insert_eq]
  split_ifs <;> rfl

theorem hintFor_removeKey :
    (proofs.removeKey key).hintFor peer other =
      if other = key then none else proofs.hintFor peer other := by
  unfold hintFor removeKey
  split_ifs with heq
  · subst heq
    simp
  · rw [Finmap.lookup_erase_ne heq]

theorem lookup_retain_mem (m : FiniteMap H RepairProof) :
    (FiniteMap.retain (fun peer _ => decide (peer ∈ closePeers)) m).lookup peer =
      if peer ∈ closePeers then m.lookup peer else none := by
  ext proof
  rw [FiniteMap.lookup_retain_eq_some]
  split_ifs with hmem <;> simp [hmem]

theorem mem_closePeers_of_hintFor {entry : RepairProofEntry H} {proof : RepairProof}
    (hentry : entry.Sound) (hproof : entry.peerProofs.lookup peer = some proof) :
    peer ∈ entry.closePeers := by
  apply hentry.subset
  rw [Finmap.mem_keys, Finmap.mem_iff]
  exact ⟨proof, hproof⟩

theorem hintFor_eq_of_lookup {entry : RepairProofEntry H}
    (hentry : proofs.proofsByKey.lookup key = some entry) :
    proofs.hintFor peer key = entry.peerProofs.lookup peer := by
  rw [hintFor, hentry, Option.bind_some]

theorem sound_reconcile (hproofs : proofs.Sound) (key : H) (closePeers : Finset H) :
    (proofs.reconcileKeyCloseGroup key closePeers).Sound := by
  unfold reconcileKeyCloseGroup
  cases hentry : proofs.proofsByKey.lookup key with
  | none => exact hproofs
  | some entry =>
      dsimp only
      split_ifs with hsame hempty
      · exact hproofs
      · exact sound_erase hproofs key
      · refine sound_insert hproofs ⟨hempty, fun peer hpeer => ?_⟩
        obtain ⟨proof, hproof⟩ := Finmap.mem_iff.mp (Finmap.mem_keys.mp hpeer)
        rw [lookup_retain_mem] at hproof
        by_contra hnot
        rw [if_neg hnot] at hproof
        cases hproof

theorem closePeers_reconcile {entry : RepairProofEntry H}
    (hentry : (proofs.reconcileKeyCloseGroup key closePeers).proofsByKey.lookup key = some entry) :
    entry.closePeers = closePeers := by
  unfold reconcileKeyCloseGroup at hentry
  cases hold : proofs.proofsByKey.lookup key with
  | none => simp [hold] at hentry
  | some old =>
      simp only [hold] at hentry
      split_ifs at hentry with hsame hempty
      · rw [hold] at hentry
        cases hentry
        exact hsame
      · simp at hentry
      · rw [Finmap.lookup_insert] at hentry
        cases hentry
        rfl

theorem hintFor_reconcile_of_ne (hne : other ≠ key) :
    (proofs.reconcileKeyCloseGroup key closePeers).hintFor peer other =
      proofs.hintFor peer other := by
  unfold reconcileKeyCloseGroup
  cases proofs.proofsByKey.lookup key with
  | none => rfl
  | some entry =>
      dsimp only
      split_ifs with hsame hempty
      · rfl
      · exact hintFor_removeKey.trans (if_neg hne)
      · exact hintFor_insert.trans (if_neg hne)

/-- Presenting a close group drops the hints of the peers outside it. -/
theorem hintFor_reconcile_self (hproofs : proofs.Sound) (peer key : H) (closePeers : Finset H) :
    (proofs.reconcileKeyCloseGroup key closePeers).hintFor peer key =
      if peer ∈ closePeers then proofs.hintFor peer key else none := by
  unfold reconcileKeyCloseGroup
  cases hentry : proofs.proofsByKey.lookup key with
  | none => simp [hintFor, hentry]
  | some entry =>
      rw [hintFor_eq_of_lookup hentry, ← lookup_retain_mem]
      dsimp only
      split_ifs with hsame hempty
      · rw [hintFor_eq_of_lookup hentry, lookup_retain_mem]
        split_ifs with hmem
        · rfl
        · by_contra hsome
          obtain ⟨proof, hproof⟩ := Option.ne_none_iff_exists'.mp hsome
          exact hmem (hsame ▸ mem_closePeers_of_hintFor (hproofs key entry hentry) hproof)
      · symm
        refine Eq.trans ?_ (hintFor_removeKey.trans (if_pos rfl)).symm
        rw [Finmap.lookup_eq_none, ← Finmap.mem_keys, hempty]
        exact Finset.notMem_empty peer
      · exact hintFor_insert.trans (if_pos rfl)

theorem hintFor_reconcile (hproofs : proofs.Sound) :
    (proofs.reconcileKeyCloseGroup key closePeers).hintFor peer other =
      if key = other ∧ peer ∉ closePeers then none else proofs.hintFor peer other := by
  by_cases hkey : key = other
  · subst hkey
    rw [hintFor_reconcile_self hproofs]
    by_cases hmem : peer ∈ closePeers <;> simp [hmem]
  · rw [if_neg fun h => hkey h.1]
    exact hintFor_reconcile_of_ne (Ne.symm hkey)

/-- The entry that a hint for the key is written into. -/
theorem getD_lookup_spec (proofs : RepairProofs H) (key : H) (closePeers : Finset H) :
    ((proofs.reconcileKeyCloseGroup key closePeers).proofsByKey.lookup key |>.getD
        ⟨closePeers, ∅⟩).closePeers = closePeers ∧
      ∀ peer, ((proofs.reconcileKeyCloseGroup key closePeers).proofsByKey.lookup key |>.getD
        ⟨closePeers, ∅⟩).peerProofs.lookup peer =
          (proofs.reconcileKeyCloseGroup key closePeers).hintFor peer key := by
  unfold hintFor
  cases hentry : (proofs.reconcileKeyCloseGroup key closePeers).proofsByKey.lookup key with
  | none => exact ⟨rfl, fun peer => Finmap.lookup_empty peer⟩
  | some entry => exact ⟨closePeers_reconcile hentry, fun peer => rfl⟩

theorem sound_insertHint {entry : RepairProofEntry H} {sent : H} (proof : RepairProof)
    (hclose : entry.closePeers = closePeers) (hsent : sent ∈ closePeers)
    (hsubset : ∀ peer proof, entry.peerProofs.lookup peer = some proof → peer ∈ closePeers) :
    RepairProofEntry.Sound { entry with peerProofs := entry.peerProofs.insert sent proof } := by
  constructor
  · apply Finset.ne_empty_of_mem
    exact Finmap.mem_keys.mpr (Finmap.mem_insert.mpr (.inl rfl))
  · intro peer hpeer
    show peer ∈ entry.closePeers
    rw [hclose]
    rcases Finmap.mem_insert.mp (Finmap.mem_keys.mp hpeer) with rfl | hmem
    · exact hsent
    · obtain ⟨old, hold⟩ := Finmap.mem_iff.mp hmem
      exact hsubset peer old hold

/-- A hint sent to a peer reconciles the key and then fills the cell of the peer if it is empty. -/
theorem insertReplicaHintSent_spec (hproofs : proofs.Sound) (sent key : H) (closePeers : Finset H)
    (hintedAtEpoch hintedAt : Nat) :
    (proofs.insertReplicaHintSent sent key closePeers hintedAtEpoch hintedAt).2.Sound ∧
      ∀ peer other,
        (proofs.insertReplicaHintSent sent key closePeers hintedAtEpoch hintedAt).2.hintFor
          peer other =
          if other = key ∧ peer = sent ∧ sent ∈ closePeers then
            some ((proofs.hintFor sent key).getD ⟨hintedAtEpoch, hintedAt⟩)
          else (proofs.reconcileKeyCloseGroup key closePeers).hintFor peer other := by
  have hreconciled := sound_reconcile hproofs key closePeers
  have hself := fun peer => hintFor_reconcile_self hproofs peer key closePeers
  obtain ⟨hclose, hat⟩ := getD_lookup_spec proofs key closePeers
  unfold insertReplicaHintSent
  by_cases hsent : sent ∈ closePeers
  · have hcell : (proofs.reconcileKeyCloseGroup key closePeers).hintFor sent key =
        proofs.hintFor sent key := (hself sent).trans (if_pos hsent)
    simp only [hsent, not_true_eq_false, if_false, and_true]
    split_ifs with hhas
    · refine ⟨hreconciled, fun peer other => ?_⟩
      obtain ⟨proof, hproof⟩ := Finmap.mem_iff.mp hhas
      rw [hat, hcell] at hproof
      split_ifs with heq
      · obtain ⟨rfl, rfl⟩ := heq
        rw [hcell, hproof, Option.getD_some]
      · rfl
    · have hnone : proofs.hintFor sent key = none := by
        rw [← hcell, ← hat]
        exact Finmap.lookup_eq_none.mpr hhas
      refine ⟨sound_insert hreconciled (sound_insertHint _ hclose hsent fun peer proof hproof => ?_),
        fun peer other => ?_⟩
      · rw [hat, hself] at hproof
        by_contra hnot
        rw [if_neg hnot] at hproof
        cases hproof
      · rw [hintFor_insert, FiniteMap.lookup_insert_eq, hat, hnone, Option.getD_none]
        by_cases hother : other = key
        · subst hother
          by_cases hpeer : peer = sent <;> simp [hpeer]
        · simp [hother]
  · simp only [hsent, not_false_eq_true, if_true, and_false, if_false]
    exact ⟨hreconciled, fun _ _ => trivial⟩

theorem cellStep_recordHint (hproofs : proofs.Sound) (sent : H) (hintedAtEpoch hintedAt : Nat) :
    FirstSince.CellStep (Hints peer key) (Drops peer key)
      (.recordHint sent other closePeers hintedAtEpoch hintedAt) (proofs.hintFor peer key)
      ((proofs.insertReplicaHintSent sent other closePeers hintedAtEpoch hintedAt).2.hintFor
        peer key) := by
  have hcell :=
    (insertReplicaHintSent_spec hproofs sent other closePeers hintedAtEpoch hintedAt).2 peer key
  by_cases hwrites : key = other ∧ peer = sent ∧ sent ∈ closePeers
  · rw [if_pos hwrites] at hcell
    obtain ⟨rfl, rfl, hmem⟩ := hwrites
    exact .write ⟨hintedAtEpoch, hintedAt⟩ (fun hd => hd.2 hmem) ⟨closePeers, rfl, hmem⟩ hcell
  · rw [if_neg hwrites] at hcell
    rw [hcell]
    refine cellStep_of_ite (fun proof hhints => hwrites ?_) (hintFor_reconcile hproofs) Iff.rfl
    obtain ⟨closePeers', heq, hmem⟩ := hhints
    cases heq
    exact ⟨rfl, rfl, hmem⟩

theorem lookup_removePeer_eq_some {removed : H} {entry : RepairProofEntry H} :
    (proofs.removePeer removed).proofsByKey.lookup key = some entry ↔
      (∃ old, proofs.proofsByKey.lookup key = some old ∧
        { old with peerProofs := old.peerProofs.erase removed } = entry) ∧
        entry.peerProofs.keys ≠ ∅ := by
  rw [removePeer, FiniteMap.lookup_retain_eq_some, FiniteMap.lookup_mapValues,
    Option.map_eq_some_iff, decide_eq_true_eq]

theorem sound_removePeer (hproofs : proofs.Sound) (removed : H) :
    (proofs.removePeer removed).Sound := by
  intro key entry hentry
  obtain ⟨⟨old, hold, rfl⟩, hnonempty⟩ := lookup_removePeer_eq_some.mp hentry
  refine ⟨hnonempty, fun peer hpeer => (hproofs key old hold).subset ?_⟩
  rw [Finmap.mem_keys] at hpeer ⊢
  exact (Finmap.mem_erase.mp hpeer).2

theorem hintFor_removePeer (removed : H) :
    (proofs.removePeer removed).hintFor peer key =
      if peer = removed then none else proofs.hintFor peer key := by
  have hiff : ∀ proof, (proofs.removePeer removed).hintFor peer key = some proof ↔
      peer ≠ removed ∧ proofs.hintFor peer key = some proof := by
    intro proof
    simp only [hintFor, Option.bind_eq_some_iff, lookup_removePeer_eq_some]
    constructor
    · rintro ⟨entry, ⟨⟨old, hold, rfl⟩, -⟩, hproof⟩
      by_cases heq : peer = removed
      · subst heq
        simp at hproof
      · rw [Finmap.lookup_erase_ne heq] at hproof
        exact ⟨heq, old, hold, hproof⟩
    · rintro ⟨hne, old, hold, hproof⟩
      have hkept : (old.peerProofs.erase removed).lookup peer = some proof := by
        rw [Finmap.lookup_erase_ne hne, hproof]
      refine ⟨_, ⟨⟨old, hold, rfl⟩, ?_⟩, hkept⟩
      exact Finset.ne_empty_of_mem (Finmap.mem_keys.mpr (Finmap.mem_iff.mpr ⟨proof, hkept⟩))
  ext proof
  rw [hiff]
  split_ifs with heq <;> simp [heq]

theorem sound_step (hproofs : proofs.Sound) {op : Op H} (hstep : proofs.step op = some next) :
    next.Sound := by
  cases op with
  | recordHint sent key closePeers epoch now =>
      cases hstep
      exact (insertReplicaHintSent_spec hproofs sent key closePeers epoch now).1
  | query asked key closePeers epoch now =>
      cases hstep
      exact sound_reconcile hproofs key closePeers
  | removeKey key =>
      cases hstep
      exact sound_erase hproofs key
  | removePeer removed =>
      cases hstep
      exact sound_removePeer hproofs removed

theorem cellStep_step (hproofs : proofs.Sound) {op : Op H} (hstep : proofs.step op = some next) :
    FirstSince.CellStep (Hints peer key) (Drops peer key) op (proofs.hintFor peer key)
      (next.hintFor peer key) := by
  cases op with
  | recordHint sent other closePeers epoch now =>
      cases hstep
      exact cellStep_recordHint hproofs sent epoch now
  | query asked other closePeers epoch now =>
      cases hstep
      exact cellStep_of_ite (fun _ => nofun) (hintFor_reconcile hproofs) Iff.rfl
  | removeKey other =>
      cases hstep
      exact cellStep_of_ite (fun _ => nofun) hintFor_removeKey eq_comm
  | removePeer removed =>
      cases hstep
      exact cellStep_of_ite (fun _ => nofun) (hintFor_removePeer removed) eq_comm

theorem sound_new : (new : RepairProofs H).Sound := by
  intro key entry hentry
  simp [new] at hentry

theorem hintFor_new : (new : RepairProofs H).hintFor peer key = none := by
  simp [hintFor, new]

/-- After every sequence of operations a peer has a mature hint for a key exactly when it is in the
presented close group and the earliest hint to it that nothing has dropped since is mature; and every
entry keeps hints of members of its close group only, and at least one. -/
theorem hasMatureReplicaHint_iff_earliest {ops : List (Op H)}
    (hrun : Runs.run step new ops = some proofs) :
    (∀ peer key closePeers currentEpoch now,
      (proofs.hasMatureReplicaHint peer key closePeers currentEpoch now).1 = true ↔
        peer ∈ closePeers ∧ ∃ before proof,
          FirstSince.Earliest (Hints peer key) (Drops peer key) ops before proof ∧
          proof.hintedAtEpoch < currentEpoch ∧ repairHintMinAge ≤ now - proof.hintedAt) ∧
      ∀ key entry, proofs.proofsByKey.lookup key = some entry →
        entry.peerProofs.keys ≠ ∅ ∧ entry.peerProofs.keys ⊆ entry.closePeers := by
  have hsound : proofs.Sound :=
    Runs.stable_of_run Sound (fun _ _ _ hproofs hstep => sound_step hproofs hstep) sound_new hrun
  refine ⟨fun peer key closePeers currentEpoch now => ?_, fun key entry hentry =>
    ⟨(hsound key entry hentry).nonempty, (hsound key entry hentry).subset⟩⟩
  have hcell : FirstSince.Holds (Hints peer key) (Drops peer key) ops (proofs.hintFor peer key) :=
    FirstSince.holds_of_run Sound (·.hintFor peer key) (fun _ _ => not_drops_of_hints)
      (fun _ _ _ hproofs hstep => sound_step hproofs hstep)
      (fun _ _ _ hproofs hstep => cellStep_step hproofs hstep) sound_new hintFor_new hrun
  have hearliest : ∀ proof, proofs.hintFor peer key = some proof ↔
      ∃ before, FirstSince.Earliest (Hints peer key) (Drops peer key) ops before proof :=
    fun proof => hcell.eq_some_iff fun _ _ _ hhints hhints' => hints_unique hhints hhints'
  unfold hasMatureReplicaHint
  dsimp only
  rw [hintFor_reconcile_self hsound]
  split_ifs with hmem
  · cases hhint : proofs.hintFor peer key with
    | none =>
        refine iff_of_false nofun ?_
        rintro ⟨-, before, proof, hfirst, -⟩
        have hsome := (hearliest proof).mpr ⟨before, hfirst⟩
        rw [hhint] at hsome
        cases hsome
    | some proof =>
        simp only [decide_eq_true_eq]
        constructor
        · intro hmature
          obtain ⟨before, hfirst⟩ := (hearliest proof).mp hhint
          exact ⟨hmem, before, proof, hfirst, hmature⟩
        · rintro ⟨-, before, proof', hfirst, hmature⟩
          have hsome := (hearliest proof').mpr ⟨before, hfirst⟩
          rw [hhint] at hsome
          cases hsome
          exact hmature
  · exact iff_of_false nofun fun h => hmem h.1

end RepairProofs

namespace Transcript

open RepairProofs

/-- A second hint, as a member of a changed group, does not renew the first. -/
def hintedTwice : List (Op Transcript) :=
  [.recordHint ⟨[1]⟩ ⟨[9]⟩ {⟨[1]⟩, ⟨[2]⟩} 3 0,
    .recordHint ⟨[1]⟩ ⟨[9]⟩ {⟨[1]⟩, ⟨[3]⟩} 8 repairHintMinAge, .removePeer ⟨[2]⟩]

theorem hasMatureReplicaHint_iff_earliest_hintedTwice :
    ∃ proofs, Runs.run step new hintedTwice = some proofs ∧
      (proofs.hasMatureReplicaHint ⟨[1]⟩ ⟨[9]⟩ {⟨[1]⟩} 4 repairHintMinAge).1 = true := by
  obtain ⟨proofs, hrun⟩ : ∃ proofs, Runs.run step new hintedTwice = some proofs := ⟨_, rfl⟩
  refine ⟨proofs, hrun, ((hasMatureReplicaHint_iff_earliest hrun).1 _ _ _ _ _).mpr ?_⟩
  refine ⟨by simp, [], ⟨3, 0⟩, ⟨⟨_, _, rfl, ⟨_, rfl, by simp⟩, ?_⟩, fun _ _ _ => Nat.zero_le _⟩,
    by decide, by decide⟩
  simp [Drops]

end Transcript

end AntNode
