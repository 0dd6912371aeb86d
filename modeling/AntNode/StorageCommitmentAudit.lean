import AntNode.AuditProtocol
import AntNode.CommitmentState
import AntNode.RecentProvers

/-!
# The two-round storage audit

In round one the auditor pins a commitment and gets the nonce-selected subtree of hashes; in round
two it demands the chunks of a few freshly drawn leaves, two at a time, and hashes what it is
served. Both sides are here. The network is a parameter: `send i` is what becomes of the `i`-th
request of an audit, so the peer at the other end, and every loss and timeout, is arbitrary.
-/

namespace AntNode

variable {H : Type} [Digest H] [CommitmentProtocol H]

/-! ### Reading chunks -/

/-- A store as the responder reads it: the outcome of its `n`-th read, for the key it asks for. -/
abbrev StoreReads (H : Type) := Nat → H → Except String (Option Bytes)

def auditReadRetryAttempts : Nat := 3

/-- The retry loop. An absent chunk is an answer and is not retried. `retries` are the attempts left
after this one and `reads` counts the reads so far. -/
def getRawLoop (storage : StoreReads H) (key : H) :
    Nat → Nat → Except String (Option Bytes) × Nat
  | 0, reads => (storage reads key, reads + 1)
  | retries + 1, reads =>
      match storage reads key with
      | .ok value => (.ok value, reads + 1)
      | .error _ => getRawLoop storage key retries (reads + 1)

def getRawRetrying (storage : StoreReads H) (key : H) (reads : Nat) :
    Except String (Option Bytes) × Nat :=
  getRawLoop storage key (auditReadRetryAttempts - 1) reads

/-! ### Auditor side -/

inductive RejectGrade where
  | confirmed
  | timeoutLane
  deriving DecidableEq

def gradeReject : RejectKind → RejectGrade
  | .unknownCommitment | .protocol => .confirmed
  | .transient => .timeoutLane

def byteSpotcheckMin : Nat := 3

def byteSpotcheckMax : Nat := 5

def auditSpotcheckCount : Nat := 5

def maxByteChallengeKeys : Nat := 2

inductive CreditUpdate (H : Type) where
  | recordProof (key peerId commitmentHash : H) (provedAt : Nat)
  | forgetCommitment (staleHash : H)
  deriving DecidableEq

def RecentProvers.apply (provers : RecentProvers H) : CreditUpdate H → RecentProvers H
  | .recordProof key peerId commitmentHash provedAt =>
      provers.recordProof key peerId commitmentHash provedAt
  | .forgetCommitment staleHash => provers.forgetCommitment staleHash

/-- `send i` is the fate of the `i`-th request: request 0 is round one, request `i + 1` the `i`-th
batch. `credit` says whether the caller passed a holder cache. -/
structure AuditCtx (H : Type) where
  challengedPeer : H
  challengeId : Nat
  nonce : Nonce
  expectedCommitmentHash : H
  credit : Bool
  send : Nat → ReplicationMessageBody H → Delivery H

def subtreeFailureSummary : AuditFailureReason → AuditFailureSummary
  | .timeout => ⟨1, 0, 0, 0⟩
  | .digestMismatch => ⟨1, 1, 0, 1⟩
  | .keyAbsent => ⟨1, 1, 1, 0⟩
  | .malformedResponse | .rejected => ⟨1, 1, 0, 0⟩

def failed (challengedPeer : H) (challengeId : Nat) (reason : AuditFailureReason) :
    AuditTickResult H :=
  .failed (.auditFailure challengeId challengedPeer [] (subtreeFailureSummary reason) reason)

inductive ByteRound (H : Type) where
  | served (items : List (SubtreeByteItem H))
  | rejected
  | transientReject
  | timeout
  | malformed
  deriving DecidableEq

def byteChallenge (ctx : AuditCtx H) (keys : List H) : SubtreeByteChallenge H :=
  { challengeId := ctx.challengeId
    nonce := ctx.nonce
    challengedPeerId := ctx.challengedPeer
    expectedCommitmentHash := ctx.expectedCommitmentHash
    keys := keys }

def requestByteProof (ctx : AuditCtx H) (round : Nat) (keys : List H) : ByteRound H :=
  match ctx.send (round + 1) (.subtreeByteChallenge (byteChallenge ctx keys)) with
  | .unencodable => .malformed
  | .sendFailed _ => .timeout
  | .undecodable _ => .malformed
  | .received (.subtreeByteResponse (.items challengeId items)) =>
      if challengeId = ctx.challengeId then .served items else .malformed
  | .received (.subtreeByteResponse (.rejected challengeId kind _)) =>
      if challengeId = ctx.challengeId then
        match gradeReject kind with
        | .confirmed => .rejected
        | .timeoutLane => .transientReject
      else .malformed
  | .received (.subtreeByteResponse (.bootstrapping challengeId)) =>
      if challengeId = ctx.challengeId then .timeout else .malformed
  | .received _ => .malformed

/-- The gates of round one, in order: identity, pin, signature, structure. -/
def evaluateSubtreeStructure (commitment : StorageCommitment H) (proof : SubtreeProof H)
    (nonce : Nonce) (expectedCommitmentHash challengedPeer : H) : Except AuditFailureReason Unit :=
  if commitment.senderPeerId ≠ challengedPeer then .error .rejected
  else if blake3 commitment.senderPublicKey ≠ commitment.senderPeerId then .error .rejected
  else if commitmentHash commitment ≠ some expectedCommitmentHash then .error .rejected
  else if ¬verifyCommitmentSignature commitment then .error .rejected
  else
    match verifySubtreeProof proof nonce commitment with
    | .invalid _ => .error .digestMismatch
    | .valid => .ok ()

/-- `BTreeSet::insert`, the set being its elements in ascending order. -/
def btreeInsert (x : Nat) (set : List Nat) : List Nat :=
  if x ∈ set then set else set.orderedInsert (· ≤ ·) x

/-- The draws: until `want` indices are picked or the guard runs out. `rng guard` is the `guard`-th
output of the generator, which `gen_range(0..n)` brings below `n`. -/
def pickLoop (rng : Nat → Nat) (n want : Nat) : Nat → Nat → List Nat → List Nat
  | 0, _, picked => picked
  | left + 1, guard, picked =>
      if picked.length < want then
        pickLoop rng n want left (guard + 1) (btreeInsert (rng guard % n) picked)
      else picked

def topUp (want : Nat) : List Nat → List Nat → List Nat
  | [], picked => picked
  | idx :: rest, picked =>
      if want ≤ picked.length then picked else topUp want rest (btreeInsert idx picked)

def spotcheckIndices (n count : Nat) (rng : Nat → Nat) : List Nat :=
  let want := min count n
  topUp want (List.range n)
    (pickLoop rng n want (max (min (count * 64) (2 ^ 32 - 1)) 64) 0 [])

def randomSpotcheckLeaves (proof : SubtreeProof H) (count : Nat) (rng : Nat → Nat) :
    List (SubtreeLeaf H) :=
  if proof.leaves.length = 0 then []
  else (spotcheckIndices proof.leaves.length count rng).filterMap fun idx => proof.leaves[idx]?

inductive AuditVerdict where
  | pass (checked : Nat)
  | fail (reason : AuditFailureReason)
  deriving DecidableEq

/-- Check every sampled leaf against the served content; `checked` leaves have passed so far. -/
def verifyByteLoop (nonce : Nonce) (challengedPeer : H) (served : H → Option (Option Bytes)) :
    List (SubtreeLeaf H) → Nat → AuditVerdict
  | [], checked => .pass checked
  | leaf :: leaves, checked =>
      match served leaf.key with
      | some (some content) =>
          if leaf.bytesHash ≠ blake3 content ∨
              leaf.noncedHash ≠ noncedLeafHash nonce challengedPeer leaf.key content then
            .fail .digestMismatch
          else verifyByteLoop nonce challengedPeer served leaves (checked + 1)
      | _ => .fail .digestMismatch

def verifyByteResponse (leaves : List (SubtreeLeaf H)) (nonce : Nonce) (challengedPeer : H)
    (served : H → Option (Option Bytes)) : AuditVerdict :=
  verifyByteLoop nonce challengedPeer served leaves 0

def SubtreeByteItem.about (key : H) : SubtreeByteItem H → Option (Option Bytes)
  | .present k bytes => if k = key then some (some bytes) else none
  | .absent k => if k = key then some none else none

/-- The answer for `key`: the first item about it counts. -/
def servedIn (items : List (SubtreeByteItem H)) (key : H) : Option (Option Bytes) :=
  items.findSome? (SubtreeByteItem.about key)

/-- `slice::chunks`, for a positive size. -/
def chunksFuel {α : Type} (size : Nat) : Nat → List α → List (List α)
  | 0, _ => []
  | _ + 1, [] => []
  | fuel + 1, x :: xs => (x :: xs).take size :: chunksFuel size fuel ((x :: xs).drop size)

def chunks {α : Type} (size : Nat) (xs : List α) : List (List α) := chunksFuel size xs.length xs

def forgetPinned (ctx : AuditCtx H) : List (CreditUpdate H) :=
  if ctx.credit then [.forgetCommitment ctx.expectedCommitmentHash] else []

/-- The batches in turn. Each is verified as it arrives, and the first one that does not pass
decides. -/
def byteRounds (ctx : AuditCtx H) (checked : Nat) :
    List (List (SubtreeLeaf H)) → Nat → AuditVerdict × List (CreditUpdate H)
  | [], _ => (.pass checked, [])
  | batch :: rest, round =>
      match requestByteProof ctx round (batch.map SubtreeLeaf.key) with
      | .served items =>
          match verifyByteResponse batch ctx.nonce ctx.challengedPeer (servedIn items) with
          | .fail reason => (.fail reason, [])
          | .pass _ => byteRounds ctx checked rest (round + 1)
      | .rejected => (.fail .rejected, [])
      | .transientReject => (.fail .timeout, forgetPinned ctx)
      | .timeout => (.fail .timeout, [])
      | .malformed => (.fail .malformedResponse, [])

/-- The sample of an audit: `audit_spotcheck_count` clamped to the band. -/
def sampledLeaves (proof : SubtreeProof H) (rng : Nat → Nat) : List (SubtreeLeaf H) :=
  randomSpotcheckLeaves proof (max byteSpotcheckMin (min auditSpotcheckCount byteSpotcheckMax)) rng

def creditLeaves (ctx : AuditCtx H) (commitment : StorageCommitment H) (proof : SubtreeProof H)
    (now : Nat) : List (CreditUpdate H) :=
  match ctx.credit, commitmentHash commitment with
  | true, some pin => proof.leaves.map fun leaf => .recordProof leaf.key ctx.challengedPeer pin now
  | _, _ => []

/-- Verify a proof: round one, then round two over the sample, then credit. The closeness
observation only logs and is left out. -/
def verifySubtreeResponse (ctx : AuditCtx H) (commitment : StorageCommitment H)
    (proof : SubtreeProof H) (rng : Nat → Nat) (now : Nat) :
    AuditTickResult H × List (CreditUpdate H) :=
  match evaluateSubtreeStructure commitment proof ctx.nonce ctx.expectedCommitmentHash
    ctx.challengedPeer with
  | .error reason => (failed ctx.challengedPeer ctx.challengeId reason, [])
  | .ok () =>
      let sampled := sampledLeaves proof rng
      if sampled.isEmpty then (failed ctx.challengedPeer ctx.challengeId .digestMismatch, [])
      else
        match byteRounds ctx sampled.length (chunks maxByteChallengeKeys sampled) 0 with
        | (.fail reason, updates) => (failed ctx.challengedPeer ctx.challengeId reason, updates)
        | (.pass checked, updates) =>
            (.passed ctx.challengedPeer checked, updates ++ creditLeaves ctx commitment proof now)

def dispatchSubtreeResponse (ctx : AuditCtx H) (body : ReplicationMessageBody H)
    (rng : Nat → Nat) (now : Nat) : AuditTickResult H × List (CreditUpdate H) :=
  let malformed := (failed ctx.challengedPeer ctx.challengeId .malformedResponse, [])
  match body with
  | .subtreeAuditResponse (.bootstrapping respId) =>
      if respId ≠ ctx.challengeId then malformed else (.bootstrapClaim ctx.challengedPeer, [])
  | .subtreeAuditResponse (.rejected respId kind _) =>
      if respId ≠ ctx.challengeId then malformed
      else
        match gradeReject kind with
        | .confirmed => (failed ctx.challengedPeer ctx.challengeId .rejected, [])
        | .timeoutLane => (failed ctx.challengedPeer ctx.challengeId .timeout, forgetPinned ctx)
  | .subtreeAuditResponse (.proof respId commitment proof) =>
      if respId ≠ ctx.challengeId then malformed
      else verifySubtreeResponse ctx commitment proof rng now
  | _ => malformed

/-- One audit. The deadline, sized from the selected subtree, is part of what `send` decides. -/
def runSubtreeAudit (ctx : AuditCtx H) (rng : Nat → Nat) (now : Nat) :
    AuditTickResult H × List (CreditUpdate H) :=
  match ctx.send 0 (.subtreeAuditChallenge
    ⟨ctx.challengeId, ctx.nonce, ctx.challengedPeer, ctx.expectedCommitmentHash⟩) with
  | .unencodable => (.idle, [])
  | .sendFailed _ => (failed ctx.challengedPeer ctx.challengeId .timeout, [])
  | .undecodable _ => (failed ctx.challengedPeer ctx.challengeId .malformedResponse, [])
  | .received body => dispatchSubtreeResponse ctx body rng now

/-! ### Responder side -/

structure Responder (H : Type) [Digest H] [CommitmentProtocol H] where
  storage : StoreReads H
  selfPeerId : H
  isBootstrapping : Bool
  commitmentState : Option (ResponderCommitmentState H)

def readLeaves (storage : StoreReads H) (challenge : SubtreeAuditChallenge H) :
    List H → Nat → Except (RejectKind × String) (List (SubtreeLeaf H))
  | [], _ => .ok []
  | key :: keys, reads =>
      match getRawRetrying storage key reads with
      | (.ok (some bytes), reads) =>
          (readLeaves storage challenge keys reads).map
            (subtreeLeaf challenge.nonce challenge.challengedPeerId key bytes :: ·)
      | (.ok none, _) =>
          .error (.protocol, "missing bytes for committed key: " ++ hexEncode (asBytes key))
      | (.error e, _) => .error (.transient, "transient storage read error: " ++ e)

def handleSubtreeChallenge (challenge : SubtreeAuditChallenge H) (node : Responder H) :
    SubtreeAuditResponse H :=
  if node.isBootstrapping then .bootstrapping challenge.challengeId
  else if challenge.challengedPeerId ≠ node.selfPeerId then
    .rejected challenge.challengeId .protocol "challenged_peer_id does not match this node"
  else
    match node.commitmentState with
    | none => .rejected challenge.challengeId .protocol "no commitment state"
    | some state =>
        match state.lookupByHash challenge.expectedCommitmentHash with
        | none => .rejected challenge.challengeId .unknownCommitment "unknown commitment hash"
        | some built =>
            match subtreePlan built.tree challenge.nonce with
            | .error _ =>
                .rejected challenge.challengeId .protocol "could not build subtree proof"
            | .ok plan =>
                match readLeaves node.storage challenge plan.leafKeys 0 with
                | .error (kind, reason) => .rejected challenge.challengeId kind reason
                | .ok leaves =>
                    .proof challenge.challengeId built.commitment ⟨leaves, plan.siblingCutHashes⟩

/-- The item loop: only keys committed under the pin are served. -/
def readItems (storage : StoreReads H) (built : BuiltCommitment H) :
    List H → Nat → Except (RejectKind × String) (List (SubtreeByteItem H))
  | [], _ => .ok []
  | key :: keys, reads =>
      if (built.proofFor key).isNone then (readItems storage built keys reads).map (.absent key :: ·)
      else
        match getRawRetrying storage key reads with
        | (.ok (some bytes), reads) =>
            (readItems storage built keys reads).map (.present key bytes :: ·)
        | (.ok none, reads) => (readItems storage built keys reads).map (.absent key :: ·)
        | (.error e, _) => .error (.transient, "transient storage read error: " ++ e)

def handleSubtreeByteChallenge (challenge : SubtreeByteChallenge H) (node : Responder H) :
    SubtreeByteResponse H :=
  if node.isBootstrapping then .bootstrapping challenge.challengeId
  else if challenge.challengedPeerId ≠ node.selfPeerId then
    .rejected challenge.challengeId .protocol "challenged_peer_id does not match this node"
  else if challenge.keys.length > maxByteChallengeKeys then
    .rejected challenge.challengeId .protocol
      ("byte challenge requests " ++ toString challenge.keys.length ++ " keys; max " ++
        toString maxByteChallengeKeys ++ " per challenge")
  else
    match node.commitmentState with
    | none => .rejected challenge.challengeId .protocol "no commitment state"
    | some state =>
        match state.lookupByHash challenge.expectedCommitmentHash with
        | none => .rejected challenge.challengeId .unknownCommitment "unknown commitment hash"
        | some built =>
            match readItems node.storage built challenge.keys 0 with
            | .error (kind, reason) => .rejected challenge.challengeId kind reason
            | .ok items => .items challenge.challengeId items

def Responder.reply (node : Responder H) : ReplicationMessageBody H → Delivery H
  | .subtreeAuditChallenge challenge =>
      .received (.subtreeAuditResponse (handleSubtreeChallenge challenge node))
  | .subtreeByteChallenge challenge =>
      .received (.subtreeByteResponse (handleSubtreeByteChallenge challenge node))
  | _ => .received .other

end AntNode
