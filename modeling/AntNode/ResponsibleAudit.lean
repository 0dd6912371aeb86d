import AntNode.AuditProtocol
import AntNode.Pruning
import Mathlib.Data.Nat.Sqrt

/-!
# The responsible-chunk audit

An auditor samples keys of its own store, asks a peer that is responsible for them for one digest a
key and compares with its own copies. Failures are confirmed against the routing table before they
become evidence. A store is what reading a key returns; the keys of a challenge are distinct, so
each of them is read once.
-/

namespace AntNode

variable {H : Type} [Digest H]

abbrev GetRaw (H : Type) := H → Except String (Option Bytes)

def auditSampleCount (totalKeys : Nat) : Nat := min (max (Nat.sqrt totalKeys) 1) totalKeys

def maxIncomingAuditKeys (storedChunks : Nat) : Nat := max (2 * auditSampleCount storedChunks) 1

structure AuditChallenge (H : Type) where
  challengeId : UInt64
  nonce : Nonce
  challengedPeerId : H
  keys : List H
  deriving DecidableEq

/-! ### The responder -/

def auditDigestFor (challenge : AuditChallenge H) (storage : GetRaw H) (key : H) : H :=
  match storage key with
  | .ok (some data) => computeAuditDigest challenge.nonce challenge.challengedPeerId key data
  | .ok none => absentKeyDigest
  | .error _ => absentKeyDigest

def handleAuditChallenge (challenge : AuditChallenge H) (storage : GetRaw H) (selfPeerId : H)
    (isBootstrapping : Bool) (storedChunks : Nat) : AuditResponse H :=
  if isBootstrapping then .bootstrapping challenge.challengeId
  else if challenge.challengedPeerId ≠ selfPeerId then
    .rejected challenge.challengeId "challenged_peer_id does not match this node"
  else
    let maxKeys := maxIncomingAuditKeys storedChunks
    if challenge.keys.length > maxKeys then
      .rejected challenge.challengeId
        ("challenge contains " ++ toString challenge.keys.length ++ " keys, limit is " ++
          toString maxKeys)
    else .digests challenge.challengeId (challenge.keys.map (auditDigestFor challenge storage))

/-! ### The auditor -/

inductive AuditKeyFailureKind where
  | absent
  | digestMismatch
  | unclassified
  deriving DecidableEq

structure AuditKeyFailure (H : Type) where
  key : H
  kind : AuditKeyFailureKind
  deriving DecidableEq

def buildAuditFailureSummary (challengedKeyCount : Nat)
    (confirmedFailures : List (AuditKeyFailure H)) : AuditFailureSummary where
  challengedKeys := challengedKeyCount
  failedKeys := confirmedFailures.length
  absentKeys := confirmedFailures.countP fun failure => decide (failure.kind = .absent)
  digestMismatchKeys :=
    confirmedFailures.countP fun failure => decide (failure.kind = .digestMismatch)

def auditDigestFailureReason (confirmedFailures : List (AuditKeyFailure H)) : AuditFailureReason :=
  if ∀ failure ∈ confirmedFailures, failure.kind = .absent then .keyAbsent else .digestMismatch

def handleClassifiedAuditFailure (challengedPeer : H) (challengeId : UInt64)
    (failedKeys : List (AuditKeyFailure H)) (reason : AuditFailureReason)
    (challengedKeyCount : Nat) (routing : RoutingTable H) (config : ReplicationConfig) :
    AuditTickResult H :=
  let confirmedFailures := failedKeys.filter fun failure =>
    challengedPeer ∈ routing.findClosestNodesLocalWithSelf failure.key config.closeGroupSize
  if confirmedFailures = [] then .idle
  else
    let summary := buildAuditFailureSummary challengedKeyCount confirmedFailures
    let reason :=
      if reason = .digestMismatch then auditDigestFailureReason confirmedFailures else reason
    .failed (.auditFailure challengeId.toNat challengedPeer
      (confirmedFailures.map AuditKeyFailure.key) summary reason)

def handleAuditFailure (challengedPeer : H) (challengeId : UInt64) (failedKeys : List H)
    (reason : AuditFailureReason) (routing : RoutingTable H) (config : ReplicationConfig) :
    AuditTickResult H :=
  handleClassifiedAuditFailure challengedPeer challengeId
    (failedKeys.map fun key => ⟨key, .unclassified⟩) reason failedKeys.length routing config

/-- The failure of one key, if its digest shows one. A key that is gone or cannot be read here is
skipped. -/
def digestFailure (challengedPeer : H) (nonce : Nonce) (storage : GetRaw H)
    (key receivedDigest : H) : Option (AuditKeyFailure H) :=
  if receivedDigest = absentKeyDigest then some ⟨key, .absent⟩
  else
    match storage key with
    | .ok (some localBytes) =>
        if receivedDigest ≠ computeAuditDigest nonce challengedPeer key localBytes then
          some ⟨key, .digestMismatch⟩
        else none
    | .ok none => none
    | .error _ => none

def verifyDigests (challengedPeer : H) (challengeId : UInt64) (nonce : Nonce) (keys digests : List H)
    (storage : GetRaw H) (routing : RoutingTable H) (config : ReplicationConfig) :
    AuditTickResult H :=
  if digests.length ≠ keys.length then
    handleAuditFailure challengedPeer challengeId keys .malformedResponse routing config
  else
    let failedKeys := (keys.zip digests).filterMap fun (key, receivedDigest) =>
      digestFailure challengedPeer nonce storage key receivedDigest
    if failedKeys = [] then .passed challengedPeer keys.length
    else
      handleClassifiedAuditFailure challengedPeer challengeId failedKeys .digestMismatch keys.length
        routing config

/-- The auditor's verdict on the reply of the peer it challenged. -/
def judgeAuditResponse (challengedPeer : H) (challengeId : UInt64) (nonce : Nonce) (keys : List H)
    (response : AuditResponse H) (storage : GetRaw H) (routing : RoutingTable H)
    (config : ReplicationConfig) : AuditTickResult H :=
  match response with
  | .bootstrapping respId =>
      if respId ≠ challengeId then
        handleAuditFailure challengedPeer challengeId keys .malformedResponse routing config
      else .bootstrapClaim challengedPeer
  | .digests respId digests =>
      if respId ≠ challengeId then
        handleAuditFailure challengedPeer challengeId keys .malformedResponse routing config
      else verifyDigests challengedPeer challengeId nonce keys digests storage routing config
  | .rejected respId _ =>
      if respId ≠ challengeId then
        handleAuditFailure challengedPeer challengeId keys .malformedResponse routing config
      else handleAuditFailure challengedPeer challengeId keys .rejected routing config

end AntNode
