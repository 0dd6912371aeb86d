import AntNode.Proof.SpotCheck
import AntNode.Transcript

/-!
# What the auditor's verdict rests on

Round two is a loop over batches that stops at the first one that does not pass. It passes only if
every batch was served and every sampled leaf is proven by the content served for it; a leaf that is
refuted decides the audit, whatever the batches after it would have answered; and the holder cache
is credited at the end of a passing audit and nowhere else.
-/

namespace AntNode

variable {H : Type} [Digest H]

/-! ### Batches -/

theorem flatten_chunksFuel {α : Type} {size : Nat} (hsize : 0 < size) {fuel : Nat} {xs : List α}
    (hfuel : xs.length ≤ fuel) : (chunksFuel size fuel xs).flatten = xs := by
  induction fuel generalizing xs with
  | zero =>
      obtain rfl : xs = [] := List.eq_nil_of_length_eq_zero (Nat.le_zero.mp hfuel)
      rfl
  | succ fuel ih =>
      cases xs with
      | nil => rfl
      | cons x xs =>
          rw [chunksFuel, List.flatten_cons, ih, List.take_append_drop]
          rw [List.length_drop]
          omega

theorem flatten_chunks {α : Type} {size : Nat} (hsize : 0 < size) (xs : List α) :
    (chunks size xs).flatten = xs :=
  flatten_chunksFuel hsize le_rfl

theorem length_le_of_mem_chunks {α : Type} {size : Nat} {xs batch : List α}
    (hbatch : batch ∈ chunks size xs) : batch.length ≤ size := by
  have hfuel : ∀ fuel, ∀ xs : List α, batch ∈ chunksFuel size fuel xs → batch.length ≤ size := by
    intro fuel
    induction fuel with
    | zero =>
        intro xs hmem
        exact absurd hmem List.not_mem_nil
    | succ fuel ih =>
        intro xs hmem
        cases xs with
        | nil => exact absurd hmem List.not_mem_nil
        | cons x xs =>
            rw [chunksFuel] at hmem
            rcases List.mem_cons.mp hmem with rfl | hmem
            · exact List.length_take_le _ _
            · exact ih _ hmem
  exact hfuel _ _ hbatch

theorem exists_batch_of_mem {α : Type} {size : Nat} (hsize : 0 < size) {xs : List α} {x : α}
    (hx : x ∈ xs) : ∃ i : Nat, ∃ batch : List α, (chunks size xs)[i]? = some batch ∧ x ∈ batch := by
  rw [← flatten_chunks hsize xs] at hx
  obtain ⟨batch, hbatch, hx⟩ := List.mem_flatten.mp hx
  obtain ⟨i, hi⟩ := List.getElem?_of_mem hbatch
  exact ⟨i, batch, hi, hx⟩

/-! ### One leaf -/

/-- The content served for a leaf has the hash and the freshness hash the leaf carries. -/
def Proven (ctx : AuditCtx H) (items : List (SubtreeByteItem H)) (leaf : SubtreeLeaf H) : Prop :=
  ∃ content, servedIn items leaf.key = some (some content) ∧ leaf.bytesHash = blake3 content ∧
    leaf.noncedHash = noncedLeafHash ctx.nonce ctx.challengedPeer leaf.key content

/-- The leaf was omitted, answered absent, or answered with content that fails a hash. -/
def Refuted (ctx : AuditCtx H) (items : List (SubtreeByteItem H)) (leaf : SubtreeLeaf H) : Prop :=
  servedIn items leaf.key = none ∨ servedIn items leaf.key = some none ∨
    ∃ content, servedIn items leaf.key = some (some content) ∧
      (leaf.bytesHash ≠ blake3 content ∨
        leaf.noncedHash ≠ noncedLeafHash ctx.nonce ctx.challengedPeer leaf.key content)

theorem Refuted.not_proven {ctx : AuditCtx H} {items : List (SubtreeByteItem H)}
    {leaf : SubtreeLeaf H} (hrefuted : Refuted ctx items leaf) : ¬Proven ctx items leaf := by
  rintro ⟨content, hserved, hbytes, hnonced⟩
  rcases hrefuted with hnone | hnone | ⟨content', hserved', hne⟩
  · rw [hnone] at hserved
    cases hserved
  · rw [hnone] at hserved
    cases hserved
  · rw [hserved] at hserved'
    obtain rfl : content = content' := by simpa using hserved'
    rcases hne with hne | hne
    · exact hne hbytes
    · exact hne hnonced

theorem verifyByteLoop_of_proven {ctx : AuditCtx H} {items : List (SubtreeByteItem H)}
    {leaves : List (SubtreeLeaf H)} (hproven : ∀ leaf ∈ leaves, Proven ctx items leaf)
    (checked : Nat) :
    verifyByteLoop ctx.nonce ctx.challengedPeer (servedIn items) leaves checked
      = .pass (checked + leaves.length) := by
  induction leaves generalizing checked with
  | nil => rfl
  | cons leaf leaves ih =>
      obtain ⟨content, hserved, hbytes, hnonced⟩ := hproven leaf (by simp)
      rw [verifyByteLoop, hserved]
      dsimp only
      rw [if_neg (by simp [hbytes, hnonced]),
        ih fun later hlater => hproven later (by simp [hlater]), List.length_cons]
      congr 1
      omega

theorem verifyByteLoop_of_not_proven {ctx : AuditCtx H} {items : List (SubtreeByteItem H)}
    {leaves : List (SubtreeLeaf H)} {leaf : SubtreeLeaf H} (hleaf : leaf ∈ leaves)
    (hnot : ¬Proven ctx items leaf) (checked : Nat) :
    verifyByteLoop ctx.nonce ctx.challengedPeer (servedIn items) leaves checked
      = .fail .digestMismatch := by
  induction leaves generalizing checked with
  | nil => exact absurd hleaf List.not_mem_nil
  | cons first leaves ih =>
      rw [verifyByteLoop]
      split
      · rename_i content hserved
        split
        · rfl
        · rename_i hhashes
          push Not at hhashes
          rcases List.mem_cons.mp hleaf with rfl | hleaf
          · exact absurd ⟨content, hserved, hhashes.1, hhashes.2⟩ hnot
          · exact ih hleaf _
      · rfl

theorem verifyByteResponse_cases (ctx : AuditCtx H) (items : List (SubtreeByteItem H))
    (leaves : List (SubtreeLeaf H)) :
    ((∀ leaf ∈ leaves, Proven ctx items leaf) ∧
      verifyByteResponse leaves ctx.nonce ctx.challengedPeer (servedIn items)
        = .pass leaves.length) ∨
    ((∃ leaf ∈ leaves, ¬Proven ctx items leaf) ∧
      verifyByteResponse leaves ctx.nonce ctx.challengedPeer (servedIn items)
        = .fail .digestMismatch) := by
  by_cases hproven : ∀ leaf ∈ leaves, Proven ctx items leaf
  · refine .inl ⟨hproven, ?_⟩
    rw [verifyByteResponse, verifyByteLoop_of_proven hproven, Nat.zero_add]
  · push Not at hproven
    obtain ⟨leaf, hleaf, hnot⟩ := hproven
    exact .inr ⟨⟨leaf, hleaf, hnot⟩, verifyByteLoop_of_not_proven hleaf hnot 0⟩

/-! ### The loop over batches -/

def ServedAs (ctx : AuditCtx H) (batches : List (List (SubtreeLeaf H))) (i : Nat)
    (batch : List (SubtreeLeaf H)) (items : List (SubtreeByteItem H)) : Prop :=
  batches[i]? = some batch ∧ requestByteProof ctx i (batch.map SubtreeLeaf.key) = .served items

/-- Asked for from request `round` on, every batch is served and proven. -/
def ProvenFrom (ctx : AuditCtx H) (round : Nat) (batches : List (List (SubtreeLeaf H))) : Prop :=
  ∀ i batch, batches[i]? = some batch →
    ∃ items, requestByteProof ctx (round + i) (batch.map SubtreeLeaf.key) = .served items ∧
      ∀ leaf ∈ batch, Proven ctx items leaf

theorem provenFrom_cons {ctx : AuditCtx H} {round : Nat} {first : List (SubtreeLeaf H)}
    {rest : List (List (SubtreeLeaf H))} :
    ProvenFrom ctx round (first :: rest) ↔
      (∃ items, requestByteProof ctx round (first.map SubtreeLeaf.key) = .served items ∧
        ∀ leaf ∈ first, Proven ctx items leaf) ∧ ProvenFrom ctx (round + 1) rest := by
  constructor
  · intro hproven
    refine ⟨hproven 0 first rfl, ?_⟩
    intro i batch hget
    rw [Nat.add_assoc, Nat.add_comm 1 i]
    exact hproven (i + 1) batch hget
  · rintro ⟨hfirst, hrest⟩ i batch hget
    cases i with
    | zero =>
        obtain rfl : first = batch := by simpa using hget
        exact hfirst
    | succ i =>
        rw [← Nat.add_assoc, Nat.add_right_comm]
        exact hrest i batch (by simpa using hget)

theorem byteRounds_of_proven {ctx : AuditCtx H} {batches : List (List (SubtreeLeaf H))}
    {round : Nat} (hproven : ProvenFrom ctx round batches) (checked : Nat) :
    byteRounds ctx checked batches round = (.pass checked, []) := by
  induction batches generalizing round with
  | nil => rfl
  | cons batch rest ih =>
      obtain ⟨⟨items, hserved, hbatch⟩, hrest⟩ := provenFrom_cons.mp hproven
      rw [byteRounds, hserved]
      dsimp only
      rcases verifyByteResponse_cases ctx items batch with ⟨-, hpass⟩ | ⟨⟨leaf, hleaf, hnot⟩, -⟩
      · rw [hpass]
        exact ih hrest
      · exact absurd (hbatch leaf hleaf) hnot

theorem proven_of_byteRounds {ctx : AuditCtx H} {batches : List (List (SubtreeLeaf H))}
    {round checked k : Nat} (hpass : (byteRounds ctx checked batches round).1 = .pass k) :
    k = checked ∧ (byteRounds ctx checked batches round).2 = [] ∧
      ProvenFrom ctx round batches := by
  induction batches generalizing round with
  | nil =>
      obtain rfl : checked = k := by simpa [byteRounds] using hpass
      exact ⟨rfl, rfl, fun i batch hget => by simp at hget⟩
  | cons first rest ih =>
      rw [byteRounds] at hpass ⊢
      cases hrequest : requestByteProof ctx round (first.map SubtreeLeaf.key) with
      | served items =>
          rw [hrequest] at hpass
          dsimp only at hpass ⊢
          rcases verifyByteResponse_cases ctx items first with ⟨hfirst, hv⟩ | ⟨-, hv⟩
          · rw [hv] at hpass ⊢
            obtain ⟨hk, hupdates, hrest⟩ := ih hpass
            exact ⟨hk, hupdates, provenFrom_cons.mpr ⟨⟨items, hrequest, hfirst⟩, hrest⟩⟩
          · rw [hv] at hpass
            cases hpass
      | rejected => rw [hrequest] at hpass; cases hpass
      | transientReject => rw [hrequest] at hpass; cases hpass
      | timeout => rw [hrequest] at hpass; cases hpass
      | malformed => rw [hrequest] at hpass; cases hpass

/-- A batch that was reached and served, and holds a leaf that is not proven, decides the loop. The
batches before it only have to have been served. -/
theorem byteRounds_of_not_proven {ctx : AuditCtx H} {batches : List (List (SubtreeLeaf H))}
    {round i : Nat} {batch : List (SubtreeLeaf H)} {items : List (SubtreeByteItem H)}
    {leaf : SubtreeLeaf H}
    (hearlier : ∀ j < i, ∀ earlier, batches[j]? = some earlier →
      ∃ served, requestByteProof ctx (round + j) (earlier.map SubtreeLeaf.key) = .served served)
    (hget : batches[i]? = some batch)
    (hserved : requestByteProof ctx (round + i) (batch.map SubtreeLeaf.key) = .served items)
    (hleaf : leaf ∈ batch) (hnot : ¬Proven ctx items leaf) (checked : Nat) :
    byteRounds ctx checked batches round = (.fail .digestMismatch, []) := by
  induction batches generalizing round i with
  | nil => simp at hget
  | cons first rest ih =>
      rw [byteRounds]
      cases i with
      | zero =>
          obtain rfl : first = batch := by simpa using hget
          rw [show requestByteProof ctx round _ = _ from hserved]
          dsimp only
          rw [verifyByteResponse, verifyByteLoop_of_not_proven hleaf hnot]
      | succ i =>
          obtain ⟨served, hfirst⟩ := hearlier 0 (Nat.succ_pos i) first rfl
          rw [show requestByteProof ctx round _ = _ from hfirst]
          dsimp only
          rcases verifyByteResponse_cases ctx served first with ⟨-, hv⟩ | ⟨-, hv⟩
          · rw [hv]
            refine @ih (round + 1) i ?_ (by simpa using hget) ?_
            · intro j hj earlier hjget
              rw [Nat.add_assoc, Nat.add_comm 1 j]
              exact hearlier (j + 1) (Nat.succ_lt_succ hj) earlier (by simpa using hjget)
            · rw [Nat.add_assoc, Nat.add_comm 1 i]
              exact hserved
          · rw [hv]

theorem byteRounds_updates {ctx : AuditCtx H} {batches : List (List (SubtreeLeaf H))}
    {round checked : Nat} {update : CreditUpdate H}
    (hupdate : update ∈ (byteRounds ctx checked batches round).2) :
    update ∈ forgetPinned ctx := by
  induction batches generalizing round with
  | nil => exact absurd hupdate List.not_mem_nil
  | cons first rest ih =>
      rw [byteRounds] at hupdate
      split at hupdate
      · split at hupdate
        · exact absurd hupdate List.not_mem_nil
        · exact ih hupdate
      · exact absurd hupdate List.not_mem_nil
      · exact hupdate
      · exact absurd hupdate List.not_mem_nil
      · exact absurd hupdate List.not_mem_nil

omit [Digest H] in
theorem not_recordProof_mem_forgetPinned {ctx : AuditCtx H} {key peer hash : H} {provedAt : Nat} :
    CreditUpdate.recordProof key peer hash provedAt ∉ forgetPinned ctx := by
  unfold forgetPinned
  split <;> simp

/-! ### The audit -/

variable [CommitmentProtocol H]

theorem evaluateSubtreeStructure_eq_ok_iff {commitment : StorageCommitment H}
    {proof : SubtreeProof H} {nonce : Nonce} {pin peer : H} :
    evaluateSubtreeStructure commitment proof nonce pin peer = .ok () ↔
      commitment.senderPeerId = peer ∧ blake3 commitment.senderPublicKey = commitment.senderPeerId ∧
        commitmentHash commitment = some pin ∧ verifyCommitmentSignature commitment = true ∧
        verifySubtreeProof proof nonce commitment = .valid := by
  unfold evaluateSubtreeStructure
  constructor
  · intro hok
    split_ifs at hok with hpeer hkey hpin hsigned
    push Not at hpeer hkey hpin
    refine ⟨hpeer, hkey, hpin, by simpa using hsigned, ?_⟩
    cases hvalid : verifySubtreeProof proof nonce commitment with
    | valid => rfl
    | invalid reason =>
        rw [hvalid] at hok
        cases hok
  · rintro ⟨hpeer, hkey, hpin, hsigned, hvalid⟩
    rw [if_neg (not_not.mpr hpeer), if_neg (not_not.mpr hkey), if_neg (not_not.mpr hpin),
      if_neg (not_not.mpr hsigned), hvalid]

/-- What one audit of a proof can end in: a failure that credits nobody, or a pass over batches that
were all served and proven. -/
theorem verifySubtreeResponse_cases (ctx : AuditCtx H) (commitment : StorageCommitment H)
    (proof : SubtreeProof H) (rng : Nat → Nat) (now : Nat) :
    (∃ reason updates, (∀ update ∈ updates, update ∈ forgetPinned ctx) ∧
      verifySubtreeResponse ctx commitment proof rng now
        = (failed ctx.challengedPeer ctx.challengeId reason, updates)) ∨
    (commitmentHash commitment = some ctx.expectedCommitmentHash ∧
      ProvenFrom ctx 0 (chunks maxByteChallengeKeys (sampledLeaves proof rng)) ∧
      verifySubtreeResponse ctx commitment proof rng now
        = (.passed ctx.challengedPeer (sampledLeaves proof rng).length,
            creditLeaves ctx commitment proof now)) := by
  unfold verifySubtreeResponse
  cases hstructure : evaluateSubtreeStructure commitment proof ctx.nonce ctx.expectedCommitmentHash
      ctx.challengedPeer with
  | error reason => exact .inl ⟨reason, [], fun _ hmem => absurd hmem List.not_mem_nil, rfl⟩
  | ok =>
      dsimp only
      by_cases hempty : (sampledLeaves proof rng).isEmpty = true
      · rw [if_pos hempty]
        exact .inl ⟨_, [], fun _ hmem => absurd hmem List.not_mem_nil, rfl⟩
      · rw [if_neg hempty]
        rcases hrounds : byteRounds ctx (sampledLeaves proof rng).length
          (chunks maxByteChallengeKeys (sampledLeaves proof rng)) 0 with ⟨verdict, updates⟩
        cases verdict with
        | fail reason =>
            refine .inl ⟨reason, updates, fun update hmem => ?_, rfl⟩
            exact byteRounds_updates (by rw [hrounds]; exact hmem)
        | pass checked =>
            obtain ⟨hchecked, hupdates, hproven⟩ := proven_of_byteRounds (congrArg Prod.fst hrounds)
            rw [hrounds] at hupdates
            refine .inr ⟨(evaluateSubtreeStructure_eq_ok_iff.mp hstructure).2.2.1, hproven, ?_⟩
            simp only at hupdates
            rw [hchecked, hupdates]
            rfl

theorem proven_of_passed {ctx : AuditCtx H} {commitment : StorageCommitment H}
    {proof : SubtreeProof H} {rng : Nat → Nat} {now checked : Nat} {peer : H}
    (hpassed : (verifySubtreeResponse ctx commitment proof rng now).1 = .passed peer checked) :
    ∀ i batch, (chunks maxByteChallengeKeys (sampledLeaves proof rng))[i]? = some batch →
      ∃ items, requestByteProof ctx i (batch.map SubtreeLeaf.key) = .served items ∧
        ∀ leaf ∈ batch, Proven ctx items leaf := by
  rcases verifySubtreeResponse_cases ctx commitment proof rng now with
    ⟨reason, updates, -, heq⟩ | ⟨-, hproven, -⟩
  · rw [heq] at hpassed
    cases hpassed
  · intro i batch hget
    rw [← Nat.zero_add i]
    exact hproven i batch hget

theorem verifySubtreeResponse_of_refuted {ctx : AuditCtx H} {commitment : StorageCommitment H}
    {proof : SubtreeProof H} {rng : Nat → Nat} {i : Nat}
    {batch : List (SubtreeLeaf H)} {items : List (SubtreeByteItem H)} {leaf : SubtreeLeaf H}
    (hstructure : evaluateSubtreeStructure commitment proof ctx.nonce ctx.expectedCommitmentHash
      ctx.challengedPeer = .ok ())
    (hearlier : ∀ j < i, ∃ earlier served,
      ServedAs ctx (chunks maxByteChallengeKeys (sampledLeaves proof rng)) j earlier served)
    (hserved : ServedAs ctx (chunks maxByteChallengeKeys (sampledLeaves proof rng)) i batch items)
    (hleaf : leaf ∈ batch) (hrefuted : Refuted ctx items leaf) (now : Nat) :
    verifySubtreeResponse ctx commitment proof rng now
      = (failed ctx.challengedPeer ctx.challengeId .digestMismatch, []) := by
  have hearlier : ∀ j < i, ∀ earlier,
      (chunks maxByteChallengeKeys (sampledLeaves proof rng))[j]? = some earlier →
      ∃ served, requestByteProof ctx (0 + j) (earlier.map SubtreeLeaf.key) = .served served := by
    intro j hj earlier hget
    obtain ⟨earlier', served, hget', hrequest⟩ := hearlier j hj
    obtain rfl : earlier = earlier' := Option.some.inj (hget.symm.trans hget')
    exact ⟨served, by rw [Nat.zero_add, hrequest]⟩
  have hrounds := byteRounds_of_not_proven hearlier hserved.1
    (by rw [Nat.zero_add, hserved.2]) hleaf hrefuted.not_proven (sampledLeaves proof rng).length
  have hne : ¬(sampledLeaves proof rng).isEmpty = true := by
    intro hempty
    have hget := hserved.1
    rw [List.isEmpty_iff.mp hempty] at hget
    simp [chunks, chunksFuel] at hget
  rw [verifySubtreeResponse, hstructure]
  dsimp only
  rw [if_neg hne, hrounds]

theorem creditUpdates_of_passed {ctx : AuditCtx H} {commitment : StorageCommitment H}
    {proof : SubtreeProof H} {rng : Nat → Nat} {now checked : Nat} {peer : H}
    (hpassed : (verifySubtreeResponse ctx commitment proof rng now).1 = .passed peer checked) :
    (verifySubtreeResponse ctx commitment proof rng now).2 =
      if ctx.credit then
        proof.leaves.map fun leaf =>
          .recordProof leaf.key ctx.challengedPeer ctx.expectedCommitmentHash now
      else [] := by
  rcases verifySubtreeResponse_cases ctx commitment proof rng now with
    ⟨reason, updates, -, heq⟩ | ⟨hpin, -, heq⟩
  · rw [heq] at hpassed
    cases hpassed
  · rw [heq]
    simp only [creditLeaves, hpin]
    cases ctx.credit <;> rfl

theorem passed_of_recordProof {ctx : AuditCtx H} {commitment : StorageCommitment H}
    {proof : SubtreeProof H} {rng : Nat → Nat} {now provedAt : Nat} {key peer hash : H}
    (hrecord : .recordProof key peer hash provedAt ∈
      (verifySubtreeResponse ctx commitment proof rng now).2) :
    ∃ checked, (verifySubtreeResponse ctx commitment proof rng now).1
      = .passed ctx.challengedPeer checked := by
  rcases verifySubtreeResponse_cases ctx commitment proof rng now with
    ⟨reason, updates, hforget, heq⟩ | ⟨-, -, heq⟩
  · rw [heq] at hrecord
    exact absurd (hforget _ hrecord) not_recordProof_mem_forgetPinned
  · exact ⟨_, by rw [heq]⟩

theorem passed_of_recordProof_run {ctx : AuditCtx H} {rng : Nat → Nat} {now provedAt : Nat}
    {key peer hash : H}
    (hrecord : .recordProof key peer hash provedAt ∈ (runSubtreeAudit ctx rng now).2) :
    ∃ checked, (runSubtreeAudit ctx rng now).1 = .passed ctx.challengedPeer checked := by
  unfold runSubtreeAudit at hrecord ⊢
  split at hrecord
  · exact absurd hrecord List.not_mem_nil
  · exact absurd hrecord List.not_mem_nil
  · exact absurd hrecord List.not_mem_nil
  · unfold dispatchSubtreeResponse at hrecord ⊢
    dsimp only at hrecord ⊢
    split at hrecord
    · split_ifs at hrecord <;> exact absurd hrecord List.not_mem_nil
    · split_ifs at hrecord
      · exact absurd hrecord List.not_mem_nil
      · split at hrecord
        · exact absurd hrecord List.not_mem_nil
        · exact absurd hrecord not_recordProof_mem_forgetPinned
    · split_ifs at hrecord ⊢ with hid
      · exact absurd hrecord List.not_mem_nil
      · exact passed_of_recordProof hrecord
    · exact absurd hrecord List.not_mem_nil

end AntNode
