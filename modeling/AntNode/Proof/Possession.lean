import AntNode.Proof.AuditVerdict

/-!
# What a passed audit proves about a key

A leaf commits to a key and to a content hash, and the prover picks both. Every check of the two
rounds is about the content hash: the root covers it, the served content has to have it. Nothing
ties it to the key, which is what the holder cache credits. A pass therefore proves possession of
the chunk a key names exactly when the sampled leaves commit each key as its own content hash, as an
honest rebuild does.
-/

namespace AntNode

variable {H : Type} [Digest H] [CommitmentProtocol H]

/-- Every sampled leaf was answered with the chunk its key names, and no key is credited on the
strength of other content. -/
structure ProvesPossession (ctx : AuditCtx H) (commitment : StorageCommitment H)
    (proof : SubtreeProof H) (rng : Nat → Nat) (now : Nat) : Prop where
  answered : ∀ i batch items leaf content,
    ServedAs ctx (chunks maxByteChallengeKeys (sampledLeaves proof rng)) i batch items →
      leaf ∈ batch → servedIn items leaf.key = some (some content) → blake3 content = leaf.key
  credited : ∀ key peer hash provedAt,
    .recordProof key peer hash provedAt ∈ (verifySubtreeResponse ctx commitment proof rng now).2 →
      ∀ i batch items leaf content,
        ServedAs ctx (chunks maxByteChallengeKeys (sampledLeaves proof rng)) i batch items →
          leaf ∈ batch → leaf.key = key → servedIn items key = some (some content) →
            blake3 content = key

theorem blake3_served_of_passed {ctx : AuditCtx H} {commitment : StorageCommitment H}
    {proof : SubtreeProof H} {rng : Nat → Nat} {now checked : Nat} {peer : H}
    (hpassed : (verifySubtreeResponse ctx commitment proof rng now).1 = .passed peer checked)
    {i : Nat} {batch : List (SubtreeLeaf H)} {items : List (SubtreeByteItem H)}
    {leaf : SubtreeLeaf H} {content : Bytes}
    (hserved : ServedAs ctx (chunks maxByteChallengeKeys (sampledLeaves proof rng)) i batch items)
    (hleaf : leaf ∈ batch) (hcontent : servedIn items leaf.key = some (some content)) :
    blake3 content = leaf.bytesHash := by
  obtain ⟨items', hrequest, hproven⟩ := proven_of_passed hpassed i batch hserved.1
  obtain rfl : items = items' := by
    have heq := hserved.2.symm.trans hrequest
    exact ByteRound.served.inj heq
  obtain ⟨content', hcontent', hbytes, -⟩ := hproven leaf hleaf
  obtain rfl : content = content' := by
    rw [hcontent] at hcontent'
    simpa using hcontent'
  exact hbytes.symm

/-- **A pass proves possession exactly for content-addressed leaves.** Whoever answers, a passing
audit's sampled leaves were all answered with the chunks their keys name if and only if each of them
commits its key as its content hash. -/
theorem provesPossession_iff {ctx : AuditCtx H} {commitment : StorageCommitment H}
    {proof : SubtreeProof H} {rng : Nat → Nat} {now checked : Nat} {peer : H}
    (hpassed : (verifySubtreeResponse ctx commitment proof rng now).1 = .passed peer checked) :
    ProvesPossession ctx commitment proof rng now ↔
      ∀ leaf ∈ sampledLeaves proof rng, leaf.bytesHash = leaf.key := by
  constructor
  · intro hproves leaf hleaf
    obtain ⟨i, batch, hget, hmem⟩ := exists_batch_of_mem (by decide : 0 < maxByteChallengeKeys) hleaf
    obtain ⟨items, hrequest, hproven⟩ := proven_of_passed hpassed i batch hget
    obtain ⟨content, hcontent, hbytes, -⟩ := hproven leaf hmem
    rw [hbytes]
    exact hproves.answered i batch items leaf content ⟨hget, hrequest⟩ hmem hcontent
  · intro haddressed
    have hanswered : ∀ i batch items leaf content,
        ServedAs ctx (chunks maxByteChallengeKeys (sampledLeaves proof rng)) i batch items →
          leaf ∈ batch → servedIn items leaf.key = some (some content) →
            blake3 content = leaf.key := by
      intro i batch items leaf content hserved hmem hcontent
      have hsampled : leaf ∈ sampledLeaves proof rng := by
        rw [← flatten_chunks (by decide : 0 < maxByteChallengeKeys) (sampledLeaves proof rng)]
        exact List.mem_flatten.mpr ⟨batch, List.mem_of_getElem? hserved.1, hmem⟩
      rw [blake3_served_of_passed hpassed hserved hmem hcontent]
      exact haddressed leaf hsampled
    refine ⟨hanswered, ?_⟩
    rintro key - - - - i batch items leaf content hserved hmem rfl hcontent
    exact hanswered i batch items leaf content hserved hmem hcontent

/-! ### A peer that commits another chunk's hash under a key -/

namespace Transcript

def signed (c : StorageCommitment Transcript) : StorageCommitment Transcript :=
  { c with signature := signedPayload c }

def servesAlways (bytes : Bytes) : ReplicationMessageBody Transcript → Delivery Transcript
  | .subtreeByteChallenge challenge =>
      .received (.subtreeByteResponse (.items challenge.challengeId
        (challenge.keys.map fun key => .present key bytes)))
  | _ => .received .other

def oneLeaf (key bytesHash : Transcript) : StorageCommitment Transcript :=
  signed ⟨leafHash key bytesHash, 1, ⟨[7]⟩, [7], []⟩

def oneLeafCtx (key : Transcript) (bytes : Bytes) : AuditCtx Transcript where
  challengedPeer := ⟨[7]⟩
  challengeId := 1
  nonce := Vector.replicate 32 0
  expectedCommitmentHash := ⟨commitmentBytes (oneLeaf key (blake3 bytes))⟩
  credit := true
  send := fun _ => servesAlways bytes

def oneLeafProof (key : Transcript) (bytes : Bytes) : SubtreeProof Transcript :=
  ⟨[subtreeLeaf (Vector.replicate 32 0) ⟨[7]⟩ key bytes], []⟩

end Transcript

open Transcript

theorem provesPossession_iff_addressed :
    (verifySubtreeResponse (oneLeafCtx ⟨[1]⟩ [1]) (oneLeaf ⟨[1]⟩ ⟨[1]⟩) (oneLeafProof ⟨[1]⟩ [1])
        (fun _ => 0) 0).1 = .passed ⟨[7]⟩ 1 ∧
      ProvesPossession (oneLeafCtx ⟨[1]⟩ [1]) (oneLeaf ⟨[1]⟩ ⟨[1]⟩) (oneLeafProof ⟨[1]⟩ [1])
        (fun _ => 0) 0 := by
  have hpassed : (verifySubtreeResponse (oneLeafCtx ⟨[1]⟩ [1]) (oneLeaf ⟨[1]⟩ ⟨[1]⟩)
      (oneLeafProof ⟨[1]⟩ [1]) (fun _ => 0) 0).1 = .passed ⟨[7]⟩ 1 := by decide +kernel
  exact ⟨hpassed, (provesPossession_iff hpassed).mpr (by decide +kernel)⟩

/-- The key `[1]` committed with the hash of the chunk `[2]`, and `[2]` served for it: the audit
passes and the peer is credited as a holder of `[1]`. -/
theorem passed_with_another_chunk :
    let ctx := oneLeafCtx ⟨[1]⟩ [2]
    let commitment := oneLeaf ⟨[1]⟩ ⟨[2]⟩
    let proof := oneLeafProof ⟨[1]⟩ [2]
    let audit := verifySubtreeResponse ctx commitment proof (fun _ => 0) 0
    audit.1 = .passed ⟨[7]⟩ 1 ∧
      (audit.2.foldl RecentProvers.apply .new).isCreditedHolder ⟨[1]⟩ ⟨[7]⟩
        ctx.expectedCommitmentHash 0 = true ∧
      ¬ProvesPossession ctx commitment proof (fun _ => 0) 0 := by
  refine ⟨by decide +kernel, by decide +kernel, fun hproves => ?_⟩
  have hkey : (blake3 [2] : Transcript) = ⟨[1]⟩ := by
    refine hproves.answered 0 (oneLeafProof ⟨[1]⟩ [2]).leaves [.present ⟨[1]⟩ [2]]
      (subtreeLeaf (Vector.replicate 32 0) ⟨[7]⟩ ⟨[1]⟩ [2]) [2] ⟨?_, ?_⟩ ?_ ?_
    · decide +kernel
    · decide +kernel
    · exact List.mem_singleton.mpr rfl
    · decide +kernel
  exact absurd hkey (by decide)

end AntNode
