import AntNode.ByteName
import AntNode.Proof.AuditCompleteness
import AntNode.Proof.BranchSize
import AntNode.Proof.KeyCount
import AntNode.ReplicationWire

/-!
# Round-one proofs on the wire

A proof costs 96 bytes a leaf, and a branch may have any number of leaves: at the right edge of the
tree the nonce can turn into a child with almost no real leaves, and the walk stops above it. Every
other branch has at most twice the floor. So the proofs that the wire refuses are those of the last
branches of a level, at nonces that turn right there into fewer leaves than the floor.
-/

namespace AntNode

open Leb128

variable {H : Type} [Digest H] [CommitmentProtocol H]

/-! ### The last branch of a level -/

def lastSlot (keyCount depth : Nat) : Nat := (keyCount - 1) / 2 ^ (Nat.clog 2 keyCount - depth)

/-- The real leaves of the last branch at `depth`. -/
def edgeLeaves (keyCount depth : Nat) : Nat :=
  keyCount - lastSlot keyCount depth * 2 ^ (Nat.clog 2 keyCount - depth)

/-- The nonce leads to the last branch at `depth` and turns right there, and the right child has
fewer real leaves than the floor. -/
def TurnsOffEdge (nonce : Nonce) (keyCount depth : Nat) : Prop :=
  depth < Nat.clog 2 keyCount ∧ slotAt nonce depth = lastSlot keyCount depth ∧
    nonceBit nonce depth = false ∧
    edgeLeaves keyCount depth < 2 ^ (Nat.clog 2 keyCount - depth - 1) + sqrtFloor keyCount

section Edge

variable {keyCount : Nat} (hpos : 0 < keyCount) (depth : Nat)

include hpos

theorem lastSlot_mul_lt :
    lastSlot keyCount depth * 2 ^ (Nat.clog 2 keyCount - depth) < keyCount := by
  have hle : lastSlot keyCount depth * 2 ^ (Nat.clog 2 keyCount - depth) ≤ keyCount - 1 :=
    Nat.div_mul_le_self _ _
  omega

theorem le_lastSlot_succ_mul :
    keyCount ≤ (lastSlot keyCount depth + 1) * 2 ^ (Nat.clog 2 keyCount - depth) := by
  have hspan : 0 < 2 ^ (Nat.clog 2 keyCount - depth) := by positivity
  have hlt : keyCount - 1 < (lastSlot keyCount depth + 1) * 2 ^ (Nat.clog 2 keyCount - depth) :=
    (Nat.div_lt_iff_lt_mul hspan).mp (Nat.lt_succ_self _)
  omega

theorem realLeavesUnder_lastSlot :
    realLeavesUnder depth (lastSlot keyCount depth) keyCount (Nat.clog 2 keyCount) =
      edgeLeaves keyCount depth := by
  unfold realLeavesUnder edgeLeaves
  dsimp only
  rw [min_eq_right (le_lastSlot_succ_mul hpos depth), min_eq_left (lastSlot_mul_lt hpos depth).le]

/-- The right child of the last branch has what its left child does not take. -/
theorem realLeavesUnder_right_lastSlot (hdepth : depth < Nat.clog 2 keyCount) :
    realLeavesUnder (depth + 1) (lastSlot keyCount depth * 2 + 1) keyCount (Nat.clog 2 keyCount) =
      edgeLeaves keyCount depth - 2 ^ (Nat.clog 2 keyCount - depth - 1) := by
  have hend := le_lastSlot_succ_mul hpos depth
  unfold realLeavesUnder edgeLeaves
  obtain ⟨k, hk⟩ : ∃ k, Nat.clog 2 keyCount - depth = k + 1 := ⟨_, (Nat.succ_pred (by omega)).symm⟩
  rw [hk, pow_succ] at hend ⊢
  rw [show Nat.clog 2 keyCount - (depth + 1) = k by omega, Nat.add_sub_cancel]
  generalize lastSlot keyCount depth = slot at hend ⊢
  generalize 2 ^ k = half at hend ⊢
  dsimp only
  rw [show (slot * 2 + 1 + 1) * half = (slot + 1) * (half * 2) by ring, min_eq_right hend,
    show (slot * 2 + 1) * half = slot * (half * 2) + half by ring]
  omega

end Edge

/-- A branch that is left for a child below the floor, and not at the edge, has at most twice the
floor: the left child of a branch takes its leaves first, and a branch before the last is full. -/
theorem span_lt_of_not_turnsOffEdge {nonce : Nonce} {keyCount depth : Nat}
    (hdepth : depth < Nat.clog 2 keyCount)
    (hwide : sqrtFloor keyCount ≤
      realLeavesUnder depth (slotAt nonce depth) keyCount (Nat.clog 2 keyCount))
    (hnarrow : realLeavesUnder (depth + 1) (slotAt nonce (depth + 1)) keyCount
      (Nat.clog 2 keyCount) < sqrtFloor keyCount)
    (hedge : ¬TurnsOffEdge nonce keyCount depth) :
    2 ^ (Nat.clog 2 keyCount - depth) < 2 * sqrtFloor keyCount := by
  have hstart := lt_of_realLeavesUnder_pos ((one_le_sqrtFloor keyCount).trans hwide)
  have hpos : 0 < keyCount := by omega
  rw [realLeavesUnder_split hdepth] at hwide
  have hspan : 2 ^ (Nat.clog 2 keyCount - depth) = 2 ^ (Nat.clog 2 keyCount - (depth + 1)) * 2 := by
    rw [← pow_succ]
    congr 1
    omega
  rw [hspan]
  rw [slotAt, childSlot] at hnarrow
  cases hbit : nonceBit nonce depth with
  | true =>
      -- the right child is not empty, so the left one is full
      rw [hbit, if_pos rfl, Nat.add_zero (slotAt nonce depth * 2)] at hnarrow
      have hright : (slotAt nonce depth * 2 + 1) * 2 ^ (Nat.clog 2 keyCount - (depth + 1))
          < keyCount := lt_of_realLeavesUnder_pos (by omega)
      rw [realLeavesUnder_of_full hright] at hnarrow
      omega
  | false =>
      rw [hbit, if_neg (by simp)] at hnarrow
      have hbefore : slotAt nonce depth < lastSlot keyCount depth := by
        have hle : slotAt nonce depth ≤ lastSlot keyCount depth := by
          rw [lastSlot, Nat.le_div_iff_mul_le (by positivity)]
          omega
        refine lt_of_le_of_ne hle fun hlast => hedge ⟨hdepth, hlast, hbit, ?_⟩
        rw [hlast, realLeavesUnder_right_lastSlot hpos depth hdepth] at hnarrow
        omega
      have hfull : (slotAt nonce depth * 2 + 1 + 1) * 2 ^ (Nat.clog 2 keyCount - (depth + 1))
          < keyCount := by
        calc (slotAt nonce depth * 2 + 1 + 1) * 2 ^ (Nat.clog 2 keyCount - (depth + 1))
            = (slotAt nonce depth + 1) * 2 ^ (Nat.clog 2 keyCount - depth) := by rw [hspan]; ring
          _ ≤ lastSlot keyCount depth * 2 ^ (Nat.clog 2 keyCount - depth) :=
              Nat.mul_le_mul_right _ hbefore
          _ < keyCount := lastSlot_mul_lt hpos depth
      rw [realLeavesUnder_of_full hfull] at hnarrow
      omega

/-- Branches get no larger on the way down. -/
theorem realLeavesUnder_slotAt_le {nonce : Nonce} {keyCount i depth : Nat} (hle : i ≤ depth)
    (hdepth : depth ≤ Nat.clog 2 keyCount) :
    realLeavesUnder depth (slotAt nonce depth) keyCount (Nat.clog 2 keyCount) ≤
      realLeavesUnder i (slotAt nonce i) keyCount (Nat.clog 2 keyCount) := by
  induction depth, hle using Nat.le_induction with
  | base => exact le_rfl
  | succ depth hle ih =>
      refine le_trans ?_ (ih (by omega))
      rw [realLeavesUnder_split (by omega) (slotAt nonce depth), slotAt, childSlot]
      cases nonceBit nonce depth with
      | true => exact Nat.le_add_right _ _
      | false => exact Nat.le_add_left _ _

/-- Where the nonce turns off an edge with enough leaves, the walk stops. -/
theorem depth_eq_of_turnsOffEdge {nonce : Nonce} {keyCount depth : Nat} {path : SubtreePath}
    (hpath : selectSubtreePath nonce keyCount = some path)
    (hlarge : smallTreeFullAuditFloor < keyCount) (hturn : TurnsOffEdge nonce keyCount depth)
    (hwide : sqrtFloor keyCount ≤ edgeLeaves keyCount depth) : path.depth = depth := by
  obtain ⟨hdepth, hslot, hbit, hnarrow⟩ := hturn
  have hpos : 0 < keyCount := by omega
  apply le_antisymm
  · by_contra hbelow
    have hchild := ((le_depth_iff hpath hlarge (depth + 1)).mp (by omega)).2 (depth + 1)
      (Nat.succ_pos depth) le_rfl
    rw [slotAt, childSlot, hbit, if_neg (by simp), hslot,
      realLeavesUnder_right_lastSlot hpos depth hdepth] at hchild
    have hfloor := one_le_sqrtFloor keyCount
    omega
  · refine (le_depth_iff hpath hlarge depth).mpr ⟨hdepth.le, fun i _ hi => ?_⟩
    rw [← realLeavesUnder_lastSlot hpos, ← hslot] at hwide
    exact hwide.trans (realLeavesUnder_slotAt_le hi hdepth.le)

theorem sqrtFloor_le_thousand {keyCount : Nat} (hpos : 0 < keyCount)
    (hmax : keyCount ≤ maxCommitmentKeyCount) : sqrtFloor keyCount ≤ 1000 := by
  rw [sqrtFloor_eq_ceil hpos, ceil_sqrt_le_iff]
  exact hmax

/-- A branch that the walk does not reach by turning off an edge has few leaves. -/
theorem realLeafCount_le_of_not_turnsOffEdge {nonce : Nonce} {keyCount : Nat} {path : SubtreePath}
    (hpath : selectSubtreePath nonce keyCount = some path)
    (hedge : ¬TurnsOffEdge nonce keyCount path.depth) : path.realLeafCount ≤ 2000 := by
  obtain ⟨hpos, hmax, hsel⟩ := selectSubtreePath_eq_some hpath
  rcases Nat.lt_or_ge smallTreeFullAuditFloor keyCount with hlarge | hsmall
  · obtain ⟨hdepth, hwide, hnarrow⟩ := selectSubtreePath_stops hpath hlarge
    rw [hsel.realLeafCount_eq, hsel.slot_eq] at hwide
    rw [hsel.slot_eq] at hnarrow
    have hspan := span_lt_of_not_turnsOffEdge hdepth hwide hnarrow hedge
    have hfloor := sqrtFloor_le_thousand hpos hmax
    have hle := hsel.realLeafCount_le
    omega
  · have hend : path.leafEnd ≤ keyCount := hsel.leafEnd_eq ▸ min_le_right _ _
    rw [smallTreeFullAuditFloor] at hsmall
    rw [SubtreePath.realLeafCount]
    omega

/-! ### The size of a message -/

/-- The bytes of a proof of `leaves` leaves and `depth` cut-hashes. -/
def proofSize (requestId challengeId : Nat) (commitment : StorageCommitment H)
    (leaves depth : Nat) : Nat :=
  (Leb128.encode requestId).length + 2 + (Leb128.encode challengeId).length +
    (64 + (Leb128.encode commitment.keyCount).length +
      ((Leb128.encode commitment.senderPublicKey.length).length +
        commitment.senderPublicKey.length) +
      ((Leb128.encode commitment.signature.length).length + commitment.signature.length)) +
    ((Leb128.encode leaves).length + 96 * leaves) + ((Leb128.encode depth).length + 32 * depth)

/-- Names are 32 bytes long. -/
def FixedWidth (H : Type) [Digest H] : Prop := ∀ name : H, (asBytes name).length = 32

omit [CommitmentProtocol H] in
theorem length_writeProof (hwidth : FixedWidth H) (requestId challengeId : Nat)
    (commitment : StorageCommitment H) (proof : SubtreeProof H) :
    (writeProof requestId challengeId commitment proof).length =
      proofSize requestId challengeId commitment proof.leaves.length
        proof.siblingCutHashes.length := by
  have hname : ∀ name : H, (asBytes name).length = 32 := hwidth
  have hbyte : ∀ bytes : Bytes, (seq (fun byte => [byte]) bytes).length =
      (Leb128.encode bytes.length).length + bytes.length := by
    intro bytes
    have hone : ∀ byte ∈ bytes, [byte].length = 1 := fun _ _ => rfl
    rw [length_seq hone, one_mul]
  have hleaf : ∀ leaf : SubtreeLeaf H, (writeLeaf leaf).length = 96 := by
    intro leaf
    simp only [writeLeaf, List.length_append, hname]
  have hindex : (Leb128.encode 12).length = 1 ∧ (Leb128.encode 0).length = 1 := by
    constructor <;> simp [Leb128.encode]
  have hcommitment : (writeCommitment commitment).length =
      64 + (Leb128.encode commitment.keyCount).length +
        ((Leb128.encode commitment.senderPublicKey.length).length +
          commitment.senderPublicKey.length) +
        ((Leb128.encode commitment.signature.length).length + commitment.signature.length) := by
    simp only [writeCommitment, List.length_append, hbyte, hname]
    omega
  rw [proofSize, ← hcommitment]
  simp only [writeProof, List.length_append, hindex]
  rw [length_seq fun leaf _ => hleaf leaf, length_seq fun name _ => hname name]

omit [Digest H] [CommitmentProtocol H] in
/-- A branch of a hundred and nine thousand leaves fits beside the largest key and signature. -/
theorem proofSize_le_of_few {requestId challengeId : Nat} {commitment : StorageCommitment H}
    {leaves depth : Nat} (hrequest : requestId < 2 ^ 64) (hchallenge : challengeId < 2 ^ 64)
    (hcount : commitment.keyCount ≤ maxCommitmentKeyCount)
    (hkey : commitment.senderPublicKey.length ≤ 1952) (hsig : commitment.signature.length ≤ 3309)
    (hleaves : leaves ≤ 109000) (hdepth : depth ≤ 20) :
    proofSize requestId challengeId commitment leaves depth ≤ maxReplicationMessageSize := by
  have hshort : ∀ {n : Nat}, n < 2 ^ 64 → (Leb128.encode n).length ≤ 10 := by
    intro n hn
    have hbits : n < 128 ^ 10 := hn.trans (by norm_num)
    exact length_encode_le (by norm_num) hbits
  rw [maxCommitmentKeyCount] at hcount
  have h1 := hshort hrequest
  have h2 := hshort hchallenge
  have h3 := hshort (n := commitment.keyCount) (by omega)
  have h4 := hshort (n := commitment.senderPublicKey.length) (by omega)
  have h5 := hshort (n := commitment.signature.length) (by omega)
  have h6 := hshort (n := leaves) (by omega)
  have h7 := hshort (n := depth) (by omega)
  unfold proofSize maxReplicationMessageSize replicationMessageSizeMib
  omega

/-! ### The answer of an honest responder -/

/-- The serialiser lays a proof out as its format says. -/
def WritesProofs (toStdvec : ReplicationMessage H → Except String Bytes) : Prop :=
  ∀ requestId challengeId commitment proof,
    toStdvec ⟨requestId, .subtreeAuditResponse (.proof challengeId commitment proof)⟩ =
      .ok (writeProof requestId challengeId commitment proof)

omit [CommitmentProtocol H] in
theorem encode_proof {toStdvec : ReplicationMessage H → Except String Bytes}
    (hwrites : WritesProofs toStdvec) (hwidth : FixedWidth H) (requestId challengeId : Nat)
    (commitment : StorageCommitment H) (proof : SubtreeProof H) :
    ReplicationMessage.encode toStdvec
        ⟨requestId, .subtreeAuditResponse (.proof challengeId commitment proof)⟩ =
      if proofSize requestId challengeId commitment proof.leaves.length
          proof.siblingCutHashes.length > maxReplicationMessageSize then
        .error (.messageTooLarge (proofSize requestId challengeId commitment proof.leaves.length
          proof.siblingCutHashes.length) maxReplicationMessageSize)
      else .ok (writeProof requestId challengeId commitment proof) := by
  rw [ReplicationMessage.encode, hwrites]
  dsimp only
  rw [length_writeProof hwidth]

/-- The answer fits the wire. -/
def Fits (toStdvec : ReplicationMessage H → Except String Bytes) (requestId : Nat)
    (response : SubtreeAuditResponse H) : Prop :=
  ∃ bytes, ReplicationMessage.encode toStdvec ⟨requestId, .subtreeAuditResponse response⟩ =
    .ok bytes ∧ bytes.length ≤ maxReplicationMessageSize

omit [CommitmentProtocol H] in
theorem fits_proof_iff {toStdvec : ReplicationMessage H → Except String Bytes}
    (hwrites : WritesProofs toStdvec) (hwidth : FixedWidth H) {requestId challengeId : Nat}
    {commitment : StorageCommitment H} {proof : SubtreeProof H} :
    Fits toStdvec requestId (.proof challengeId commitment proof) ↔
      proofSize requestId challengeId commitment proof.leaves.length
        proof.siblingCutHashes.length ≤ maxReplicationMessageSize := by
  rw [Fits, encode_proof hwrites hwidth]
  split
  · rename_i hlarge
    simp [Nat.not_le.mpr hlarge]
  · rename_i hsmall
    refine ⟨fun _ => Nat.le_of_not_lt hsmall, fun hle => ⟨_, rfl, ?_⟩⟩
    rw [length_writeProof hwidth]
    exact hle

/-- An honest responder answers with the leaves of the selected branch and a cut-hash a level. -/
theorem AnswersFor.exists_proof {node : Nat → Responder H} {peer pin : H}
    {built : BuiltCommitment H} {content : H → Bytes}
    (hnode : AnswersFor node peer pin built content) (i : Nat)
    {challenge : SubtreeAuditChallenge H} (hpeer : challenge.challengedPeerId = peer)
    (hpin : challenge.expectedCommitmentHash = pin) :
    ∃ path proof, selectSubtreePath challenge.nonce built.commitment.keyCount = some path ∧
      AntNode.handleSubtreeChallenge challenge (node i) =
        .proof challenge.challengeId built.commitment proof ∧
      proof.leaves.length = path.realLeafCount ∧
      proof.siblingCutHashes.length = path.depth := by
  obtain ⟨path, plan, hpath, hplan, hkeys, hcuts, -⟩ :=
    subtreePlan_spec built.tree challenge.nonce
  obtain ⟨-, -, hsel⟩ := selectSubtreePath_eq_some hpath
  have hleaves : plan.leafKeys.length = path.realLeafCount := by
    rw [hkeys]
    exact hsel.length_block (by rw [MerkleTree.leafKeys, List.length_map, MerkleTree.keyCount])
  refine ⟨path, honestProof plan challenge.nonce peer content, ?_,
    hnode.handleSubtreeChallenge i hpeer hpin hplan, ?_, hcuts⟩
  · rw [← built.keyCount_eq]
    exact hpath
  · rw [honestProof, List.length_map]
    exact hleaves

/-- **When a round-one answer fits the wire.** An honest responder answers every challenge for its
pin with a proof, and the proof encodes unless the nonce turns right off the last branch of a level,
into fewer leaves than the floor, and that branch is too large for the wire. -/
theorem honest_proof_fits_iff {toStdvec : ReplicationMessage H → Except String Bytes}
    (hwrites : WritesProofs toStdvec) (hwidth : FixedWidth H) {node : Nat → Responder H}
    {peer pin : H} {built : BuiltCommitment H} {content : H → Bytes}
    (hnode : AnswersFor node peer pin built content) (i : Nat)
    (challenge : SubtreeAuditChallenge H) (hpeer : challenge.challengedPeerId = peer)
    (hpin : challenge.expectedCommitmentHash = pin) (requestId : Nat)
    (hrequest : requestId < 2 ^ 64) (hchallenge : challenge.challengeId < 2 ^ 64)
    (hkey : built.commitment.senderPublicKey.length ≤ 1952)
    (hsig : built.commitment.signature.length ≤ 3309) :
    ∃ proof, handleSubtreeChallenge challenge (node i) =
        .proof challenge.challengeId built.commitment proof ∧
      (Fits toStdvec requestId (handleSubtreeChallenge challenge (node i)) ↔
        ∀ depth, TurnsOffEdge challenge.nonce built.commitment.keyCount depth →
          proofSize requestId challenge.challengeId built.commitment
            (edgeLeaves built.commitment.keyCount depth) depth ≤ maxReplicationMessageSize) := by
  obtain ⟨path, proof, hpath, hproof, hleaves, hcuts⟩ := hnode.exists_proof i hpeer hpin
  obtain ⟨hpos, hmax, hsel⟩ := selectSubtreePath_eq_some hpath
  have hclog : Nat.clog 2 built.commitment.keyCount ≤ 20 :=
    Nat.clog_le_of_le_pow (hmax.trans (by norm_num [maxCommitmentKeyCount]))
  have hfew : ∀ {leaves depth : Nat}, leaves ≤ 109000 → depth ≤ 20 →
      proofSize requestId challenge.challengeId built.commitment leaves depth ≤
        maxReplicationMessageSize :=
    fun hleaves hdepth =>
      proofSize_le_of_few hrequest hchallenge hmax hkey hsig hleaves hdepth
  have hedge : TurnsOffEdge challenge.nonce built.commitment.keyCount path.depth →
      path.realLeafCount = edgeLeaves built.commitment.keyCount path.depth := by
    intro hturn
    rw [hsel.realLeafCount_eq, hsel.slot_eq, hturn.2.1, realLeavesUnder_lastSlot hpos]
  refine ⟨proof, hproof, ?_⟩
  rw [hproof, fits_proof_iff hwrites hwidth, hleaves, hcuts]
  constructor
  · intro hfits depth hturn
    rcases Nat.lt_or_ge 109000 (edgeLeaves built.commitment.keyCount depth) with hmany | hfewLeaves
    · have hfloor := sqrtFloor_le_thousand hpos hmax
      have hcount : edgeLeaves built.commitment.keyCount depth ≤ built.commitment.keyCount :=
        Nat.sub_le _ _
      have hlarge : smallTreeFullAuditFloor < built.commitment.keyCount := by
        rw [smallTreeFullAuditFloor]
        omega
      obtain rfl := depth_eq_of_turnsOffEdge hpath hlarge hturn (by omega)
      rw [← hedge hturn]
      exact hfits
    · exact hfew hfewLeaves (hturn.1.le.trans hclog)
  · intro hturns
    by_cases hturn : TurnsOffEdge challenge.nonce built.commitment.keyCount path.depth
    · rw [hedge hturn]
      exact hturns path.depth hturn
    · have hsmall := realLeafCount_le_of_not_turnsOffEdge hpath hturn
      exact hfew (by omega) (hsel.depth_le.trans hclog)

/-! ### A store of 131073 chunks -/

namespace ByteName

variable (n : Nat) (hpos : 0 < n) (hmax : n ≤ maxCommitmentKeyCount)

def firstChallenge (nonce : Nonce) : SubtreeAuditChallenge ByteName :=
  ⟨1, nonce, blake3 publicKey, (firstTree n hpos hmax).root⟩

def serializeProof (message : ReplicationMessage ByteName) : Except String Bytes :=
  match message.body with
  | .subtreeAuditResponse (.proof challengeId commitment proof) =>
      .ok (writeProof message.requestId challengeId commitment proof)
  | _ => .error "not a proof"

theorem serializeProof_writesProofs : WritesProofs serializeProof :=
  fun _ _ _ _ => rfl

end ByteName

open ByteName

theorem clog_eq_eighteen : Nat.clog 2 131073 = 18 := by
  norm_num

/-- The store answers within the wire where the nonce keeps to the left. -/
theorem honest_proof_fits_left :
    Fits serializeProof 0 (handleSubtreeChallenge
      (firstChallenge 131073 (by decide) (by decide) (Vector.replicate 32 255))
      (firstHolder 131073 (by decide) (by decide))) := by
  have hset : ∀ depth < 18, nonceBit (Vector.replicate 32 255) depth = true := by decide
  obtain ⟨proof, -, hfits⟩ := honest_proof_fits_iff serializeProof_writesProofs length_asBytes
    (firstHolder_answersFor 131073 (by decide) (by decide)) 0
    (firstChallenge 131073 (by decide) (by decide) (Vector.replicate 32 255)) rfl rfl 0 (by decide)
    (by decide) length_publicKey.le length_signature.le
  refine hfits.mpr fun depth hturn => ?_
  obtain ⟨hdepth, -, hunset, -⟩ := hturn
  rw [keyCount_firstCommitment, clog_eq_eighteen] at hdepth
  exact absurd ((hset depth hdepth).symm.trans hunset) (by decide)

/-- The right half of the tree has one leaf, below the floor: a nonce that starts with an unset bit
selects the whole tree, and the proof does not encode. -/
theorem large_proof_exceeds_wire :
    AnswersFor (fun _ => firstHolder 131073 (by decide) (by decide)) (blake3 publicKey)
      (firstTree 131073 (by decide) (by decide)).root
      (firstCommitment 131073 (by decide) (by decide)) asBytes ∧
    ReplicationMessage.encode serializeProof ⟨0, .subtreeAuditResponse (handleSubtreeChallenge
      (firstChallenge 131073 (by decide) (by decide) (Vector.replicate 32 0))
      (firstHolder 131073 (by decide) (by decide)))⟩ =
        .error (.messageTooLarge 12588348 maxReplicationMessageSize) := by
  have hnode := firstHolder_answersFor 131073 (by decide) (by decide)
  refine ⟨hnode, ?_⟩
  obtain ⟨path, proof, hpath, hproof, hleaves, hcuts⟩ := hnode.exists_proof 0
    (show (firstChallenge 131073 (by decide) (by decide) (Vector.replicate 32 0)).challengedPeerId =
      blake3 publicKey from rfl) rfl
  rw [keyCount_firstCommitment] at hpath
  obtain ⟨hpos, hmax, hsel⟩ := selectSubtreePath_eq_some hpath
  have hedge : edgeLeaves 131073 0 = 131073 := by
    simp [edgeLeaves, lastSlot, clog_eq_eighteen]
  have hturn : TurnsOffEdge (Vector.replicate 32 0) 131073 0 := by
    refine ⟨by simp [clog_eq_eighteen], by simp [slotAt, lastSlot, clog_eq_eighteen], by decide, ?_⟩
    have hfloor := three_le_sqrtFloor (n := 131073) (by decide)
    rw [hedge, clog_eq_eighteen]
    omega
  have hroot : path.depth = 0 := by
    refine depth_eq_of_turnsOffEdge hpath (by decide) hturn ?_
    have hfloor := sqrtFloor_le_thousand hpos hmax
    omega
  have hwhole : path.realLeafCount = 131073 := by
    rw [hsel.realLeafCount_eq, hsel.slot_eq, hroot, slotAt, realLeavesUnder_root]
  have hsize : proofSize 0 1 (firstCommitment 131073 (by decide) (by decide)).commitment 131073 0 =
      12588348 := by
    have hkey : (firstCommitment 131073 (by decide) (by decide)).commitment.senderPublicKey.length =
      1952 := length_publicKey
    have hsig : (firstCommitment 131073 (by decide) (by decide)).commitment.signature.length =
      3309 := length_signature
    rw [proofSize, keyCount_firstCommitment, hkey, hsig]
    simp [Leb128.encode]
  have hid : (firstChallenge 131073 (by decide) (by decide) (Vector.replicate 32 0)).challengeId =
    1 := rfl
  rw [hproof, encode_proof serializeProof_writesProofs length_asBytes, hleaves, hcuts, hwhole,
    hroot, hid, hsize, if_pos (by decide)]

end AntNode
