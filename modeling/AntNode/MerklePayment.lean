import AntNode.PaymentVerifier

/-!
# Merkle batch payment verification

A batch of chunks is paid through one pool of sixteen candidate nodes, of which the contract pays as
many as the tree is deep. The verifier checks the signatures and the closeness of the candidates,
takes the payment info from its pool cache or from the chain, and compares every paid amount with
the contract's formula, `median16(prices) * 2 ^ depth / depth`.

Amounts are 256-bit and their product wraps. The chain, the merkle proofs of `evmlib` and the
codecs are oracles, and so is the verdict on the closeness of the candidates, whose inner check
stands here and whose single flight is a system of its own.
-/

namespace AntNode

def candidatesPerPool : Nat := 16

structure MerklePaymentCandidateNode (H : Type) where
  pubKey : Bytes
  price : Nat
  rewardAddress : Bytes
  merklePaymentTimestamp : Nat
  committedKeyCount : Nat
  commitmentPin : Option H
  signature : Bytes
  deriving DecidableEq

structure MerklePaymentCandidatePool (H : Type) where
  midpointProof : Bytes
  candidateNodes : Vector (MerklePaymentCandidateNode H) candidatesPerPool
  deriving DecidableEq

structure MerklePaymentProof (H : Type) where
  address : H
  dataProof : Bytes
  winnerPool : MerklePaymentCandidatePool H
  commitmentSidecars : List Bytes
  deriving DecidableEq

/-- The reward address, the pool index and the amount of every paid node. -/
structure OnChainPaymentInfo where
  depth : UInt8
  merklePaymentTimestamp : Nat
  paidNodeAddresses : List (Bytes × Nat × Nat)
  deriving DecidableEq

/-- What the verifier takes from `evmlib`, `ant_protocol` and the codecs. -/
class MerkleProtocol (H : Type) where
  deserializeMerkleProof : Bytes → Except String (MerklePaymentProof H)
  poolHash : MerklePaymentCandidatePool H → H
  verifyMerkleCandidateSignature : MerklePaymentCandidateNode H → Bool
  midpointAddress : Bytes → H
  midpointRoot : Bytes → H
  verifyMerkleProof : H → Bytes → Bytes → UInt8 → H → Nat → Except String Unit
  candidateToVec : MerklePaymentCandidateNode H → Option Bytes
  displayAddress : Bytes → String

export MerkleProtocol (poolHash)

variable {H : Type} [Digest H] [CommitmentProtocol H] [QuoteProtocol H] [MerkleProtocol H]

structure MerkleVerifier (H : Type) [Digest H] [CommitmentProtocol H] extends
    PaymentVerifier H where
  verifyMerkleCandidateCloseness : MerklePaymentCandidatePool H → H → Except String Unit

/-- The pool cache in front of the payment vault. -/
structure MerkleLedger (H : Type) where
  poolCache : H → Option OnChainPaymentInfo
  completedMerklePayment : H → Except String OnChainPaymentInfo

/-! ### Closeness of the candidates -/

def candidateClosenessRequired : Nat := 9

def closenessLookupWidth : Nat := 2 * candidatesPerPool

def closenessLookupCount (poolLen : Nat) : Nat :=
  if closenessLookupWidth > poolLen then closenessLookupWidth else poolLen

inductive NetworkLookup (H : Type) where
  | found (peers : List H)
  | failed
  | timedOut
  deriving DecidableEq

def deriveDistinctPeerIds :
    List (MerklePaymentCandidateNode H) → List H → Except String (List H)
  | [], seen => .ok seen
  | candidate :: rest, seen =>
      match peerIdFromPublicKeyBytes candidate.pubKey with
      | .error e => .error ("Invalid ML-DSA public key in merkle candidate: " ++ e)
      | .ok peer =>
          if peer ∈ seen then
            .error ("Merkle candidate pool rejected: duplicate candidate PeerId. An " ++
              "honest pool has 16 distinct candidate pub_keys; duplicates would " ++
              "let a single real peer satisfy the closeness threshold by being " ++
              "counted multiple times.")
          else deriveDistinctPeerIds rest (seen ++ [peer])

def deriveDistinctCandidatePeerIds (pool : MerklePaymentCandidatePool H) :
    Except String (List H) :=
  deriveDistinctPeerIds pool.candidateNodes.toList []

def checkClosenessMatch (candidatePeerIds networkPeerIds : List H) : Except String Unit :=
  if networkPeerIds.length < candidateClosenessRequired then
    .error ("Merkle candidate pool rejected: authoritative DHT lookup returned only " ++
      toString networkPeerIds.length ++ " peers, less than the " ++
      toString candidateClosenessRequired ++ " required to verify candidate " ++
      "closeness. Retry once the routing table populates further.")
  else if (candidatePeerIds.filter fun peer => decide (peer ∈ networkPeerIds)).length
      < candidateClosenessRequired then
    .error ("Merkle candidate pool rejected: candidate pub_keys do not match the " ++
      "network's closest peers to the pool midpoint address. Pools must be " ++
      "collected from the pool-address close group, not fabricated off-network.")
  else .ok ()

/-- The check a leader runs. `lookup` is the network lookup of an attached node. -/
def verifyMerkleCandidateClosenessInner (lookup : Option (H → Nat → NetworkLookup H))
    (pool : MerklePaymentCandidatePool H) : Except String Unit :=
  match deriveDistinctCandidatePeerIds pool with
  | .error e => .error e
  | .ok candidatePeerIds =>
      match lookup with
      | none =>
          .error ("Merkle candidate pool rejected: verifier is not wired to " ++
            "the P2P layer; cannot verify candidate closeness.")
      | some findClosestNodesNetwork =>
          match findClosestNodesNetwork (MerkleProtocol.midpointAddress pool.midpointProof)
            (closenessLookupCount pool.candidateNodes.size) with
          | .failed =>
              .error ("Merkle candidate pool rejected: could not verify candidate " ++
                "closeness against the authoritative network view.")
          | .timedOut =>
              .error ("Merkle candidate pool rejected: authoritative network lookup " ++
                "timed out. Retry once the network lookup completes.")
          | .found networkPeerIds => checkClosenessMatch candidatePeerIds networkPeerIds

/-! ### The payment -/

def checkCandidateSignatures : List (MerklePaymentCandidateNode H) → Except String Unit
  | [] => .ok ()
  | candidate :: rest =>
      if MerkleProtocol.verifyMerkleCandidateSignature candidate then checkCandidateSignatures rest
      else
        .error ("Invalid ML-DSA-65 signature on merkle candidate node (reward: " ++
          MerkleProtocol.displayAddress H candidate.rewardAddress ++ ")")

/-- The candidate-wide price check, behind its rollout gate. -/
def validateMerkleCandidateArithmetic (pool : MerklePaymentCandidatePool H) :
    Except String Unit :=
  if quoteArithmeticRecheckEnabled then
    match pool.candidateNodes.toList.findSome? fun candidate =>
      (bindingViolation candidate.committedKeyCount candidate.commitmentPin candidate.price).map
        fun detail => (candidate.rewardAddress, detail) with
    | some (reward, detail) =>
        .error ("ADR-0004 merkle candidate rejected (reward " ++
          MerkleProtocol.displayAddress H reward ++ "): " ++ detail)
    | none => .ok ()
  else .ok ()

/-- What is checked before the chain is asked. -/
def checkMerkleProof (verifier : MerkleVerifier H) (xorname : H) (proofBytes : Bytes) :
    Except String (MerklePaymentProof H) :=
  match MerkleProtocol.deserializeMerkleProof proofBytes with
  | .error e => .error ("Failed to deserialize merkle proof: " ++ e)
  | .ok proof => do
      if proof.address ≠ xorname then
        throw ("Merkle proof address mismatch: proof is for " ++
          hexEncode (asBytes proof.address) ++ ", but storing " ++ hexEncode (asBytes xorname))
      checkCandidateSignatures proof.winnerPool.candidateNodes.toList
      validateMerkleCandidateArithmetic proof.winnerPool
      verifier.verifyMerkleCandidateCloseness proof.winnerPool (poolHash proof.winnerPool)
      return proof

/-- The cached payment info, or the chain's, which is cached then. -/
def merklePaymentInfo (ledger : MerkleLedger H) (poolHash : H) :
    Except String OnChainPaymentInfo × MerkleLedger H :=
  match ledger.poolCache poolHash with
  | some info => (.ok info, ledger)
  | none =>
      match ledger.completedMerklePayment poolHash with
      | .error e =>
          (.error ("Failed to query merkle payment info for pool " ++ hexEncode (asBytes poolHash) ++
            ": " ++ e), ledger)
      | .ok info =>
          (.ok info, { ledger with poolCache := Function.update ledger.poolCache poolHash info })

def checkCandidateTimestamps (expected : Nat) :
    List (MerklePaymentCandidateNode H) → Except String Unit
  | [] => .ok ()
  | candidate :: rest =>
      if candidate.merklePaymentTimestamp ≠ expected then
        .error ("Candidate timestamp mismatch: expected " ++ toString expected ++ ", got " ++
          toString candidate.merklePaymentTimestamp ++ " (reward: " ++
          MerkleProtocol.displayAddress H candidate.rewardAddress ++ ")")
      else checkCandidateTimestamps expected rest

/-- `1u64.checked_shl(shift)`. -/
def checkedShlOne (shift : Nat) : Option Nat := if shift < 64 then some (2 ^ shift) else none

/-- The contract's amount for one paid node; the product is the wrapping one of `Amount`. -/
def expectedPerNode (depth : UInt8) (prices : List Nat) : Except String Nat :=
  if depth > 0 then
    let candidatePrices := prices.insertionSort (· ≤ ·)
    match candidatePrices[candidatePrices.length / 2]? with
    | none => .error "empty candidate pool in merkle proof"
    | some medianPrice =>
        match checkedShlOne depth.toNat with
        | none => .error "merkle proof depth too large"
        | some multiplier => .ok (medianPrice * multiplier % 2 ^ 256 / depth.toNat)
  else .ok 0

def checkPaidNodes (pool : MerklePaymentCandidatePool H) (depth : UInt8) (expectedPerNode : Nat) :
    List (Bytes × Nat × Nat) → Except String Unit
  | [] => .ok ()
  | (addr, idx, paidAmount) :: rest =>
      match pool.candidateNodes[idx]? with
      | none =>
          .error ("Paid node index " ++ toString idx ++ " out of bounds for pool size " ++
            toString pool.candidateNodes.size)
      | some node =>
          if node.rewardAddress ≠ addr then
            .error ("Paid node address mismatch at index " ++ toString idx ++ ": expected " ++
              MerkleProtocol.displayAddress H addr ++ ", got " ++
              MerkleProtocol.displayAddress H node.rewardAddress)
          else if paidAmount < expectedPerNode then
            .error ("Underpayment for node at index " ++ toString idx ++ ": paid " ++
              toString paidAmount ++ ", expected at least " ++ toString expectedPerNode ++
              " (median16 formula, depth=" ++ toString depth.toNat ++ ")")
          else checkPaidNodes pool depth expectedPerNode rest

/-- What is checked against the payment info. -/
def checkMerklePaymentInfo (xorname : H) (proof : MerklePaymentProof H)
    (info : OnChainPaymentInfo) : Except String Unit := do
  let pool := proof.winnerPool
  checkCandidateTimestamps info.merklePaymentTimestamp pool.candidateNodes.toList
  match MerkleProtocol.verifyMerkleProof proof.address proof.dataProof pool.midpointProof info.depth
    (MerkleProtocol.midpointRoot pool.midpointProof) info.merklePaymentTimestamp with
  | .error e =>
      throw ("Merkle proof verification failed for " ++ hexEncode (asBytes xorname) ++ ": " ++ e)
  | .ok () =>
      if info.paidNodeAddresses.length ≠ info.depth.toNat then
        throw ("Wrong number of paid nodes: expected " ++ toString info.depth.toNat ++ ", got " ++
          toString info.paidNodeAddresses.length)
      let expected ← expectedPerNode info.depth (pool.candidateNodes.toList.map fun c => c.price)
      checkPaidNodes pool info.depth expected info.paidNodeAddresses

/-! ### The cross-check of a paid pool -/

/-- Seconds since the epoch as a `SystemTime`, the epoch itself where it does not fit. -/
def systemTimeOfSecs (secs : Nat) : Nat := if secs < 2 ^ 63 then secs * nanosPerSec else 0

def candidateArtifact (candidate : MerklePaymentCandidateNode H) : Bytes :=
  (MerkleProtocol.candidateToVec candidate).getD []

def inlineMerklePass (verifier : PaymentVerifier H)
    (sidecarMap : List ((H × H) × StorageCommitment H)) (now : Nat) :
    List (MerklePaymentCandidateNode H) → CrossCheckPass H
  | [] => ⟨[], [], []⟩
  | candidate :: rest =>
      let later := inlineMerklePass verifier sidecarMap now rest
      match candidate.commitmentPin with
      | none => later
      | some pin =>
          let peerId : H := blake3 candidate.pubKey
          let events :=
            if verifier.monetizedPinTx then
              ⟨peerId, pin, candidate.committedKeyCount,
                systemTimeOfSecs candidate.merklePaymentTimestamp⟩ :: later.events
            else later.events
          match (sidecarFor sidecarMap peerId pin).or
            (cacheResolve verifier.commitmentCache peerId pin now gossipAnswerabilityTtl) with
          | some commitment =>
              { events := events
                evidence := (handleCrossCheck peerId pin candidate.committedKeyCount
                  (candidateArtifact candidate) commitment).toList ++ later.evidence
                unresolved := later.unresolved }
          | none =>
              { events := events
                evidence := later.evidence
                unresolved :=
                  ⟨peerId, pin, candidate.committedKeyCount, candidateArtifact candidate⟩ ::
                    later.unresolved }

def crossCheckMerkleCandidates (verifier : PaymentVerifier H)
    (pool : MerklePaymentCandidatePool H) (commitmentSidecars : List Bytes) (now : Nat) :
    CrossChecked H :=
  let pass := inlineMerklePass verifier (indexValidSidecars commitmentSidecars) now
    pool.candidateNodes.toList
  match verifier.p2pNode with
  | none => ⟨pass.events, pass.evidence, verifier.pinFetchNegativeCache⟩
  | some p2p =>
      let fetched := drainUnresolvedPinFetches p2p 0 verifier.pinFetchNegativeCache pass.unresolved
      ⟨pass.events, pass.evidence ++ fetched.1, fetched.2⟩

/-- Verify a merkle batch payment, and cross-check the pool of a client put. The pool cache is
filled as soon as the chain answered, whatever the checks after it say. -/
def verifyMerklePayment (verifier : MerkleVerifier H) (ledger : MerkleLedger H) (xorname : H)
    (proofBytes : Bytes) (context : VerificationContext) (now : Nat) :
    Except String (CrossChecked H) × MerkleLedger H :=
  match checkMerkleProof verifier xorname proofBytes with
  | .error e => (.error e, ledger)
  | .ok proof =>
      match merklePaymentInfo ledger (poolHash proof.winnerPool) with
      | (.error e, ledger) => (.error e, ledger)
      | (.ok info, ledger) =>
          match checkMerklePaymentInfo xorname proof info with
          | .error e => (.error e, ledger)
          | .ok () =>
              match context with
              | .clientPut =>
                  (.ok (crossCheckMerkleCandidates verifier.toPaymentVerifier proof.winnerPool
                    proof.commitmentSidecars now), ledger)
              | .paidListAdmission => (.ok ⟨[], [], verifier.pinFetchNegativeCache⟩, ledger)

end AntNode
