import AntNode.Subtree

/-!
# Audit messages, verdicts and evidence

The wire types of the two-round storage audit and the results it reports. Message bodies of other
subsystems are `other`: the audit treats them all as an unexpected reply.
-/

namespace AntNode

inductive RejectKind where
  | unknownCommitment
  | transient
  | protocol
  deriving DecidableEq

structure SubtreeAuditChallenge (H : Type) where
  challengeId : Nat
  nonce : Nonce
  challengedPeerId : H
  expectedCommitmentHash : H
  deriving DecidableEq

inductive SubtreeAuditResponse (H : Type) where
  | proof (challengeId : Nat) (commitment : StorageCommitment H) (proof : SubtreeProof H)
  | bootstrapping (challengeId : Nat)
  | rejected (challengeId : Nat) (kind : RejectKind) (reason : String)
  deriving DecidableEq

structure SubtreeByteChallenge (H : Type) where
  challengeId : Nat
  nonce : Nonce
  challengedPeerId : H
  expectedCommitmentHash : H
  keys : List H
  deriving DecidableEq

inductive SubtreeByteItem (H : Type) where
  | present (key : H) (bytes : Bytes)
  | absent (key : H)
  deriving DecidableEq

inductive SubtreeByteResponse (H : Type) where
  | items (challengeId : Nat) (items : List (SubtreeByteItem H))
  | bootstrapping (challengeId : Nat)
  | rejected (challengeId : Nat) (kind : RejectKind) (reason : String)
  deriving DecidableEq

inductive ReplicationMessageBody (H : Type) where
  | subtreeAuditChallenge (challenge : SubtreeAuditChallenge H)
  | subtreeAuditResponse (response : SubtreeAuditResponse H)
  | subtreeByteChallenge (challenge : SubtreeByteChallenge H)
  | subtreeByteResponse (response : SubtreeByteResponse H)
  | other
  deriving DecidableEq

/-- What becomes of a request: it does not encode, `send_request` fails or times out, the reply does
not decode, or the reply arrives. -/
inductive Delivery (H : Type) where
  | unencodable
  | sendFailed (error : String)
  | undecodable (error : String)
  | received (body : ReplicationMessageBody H)
  deriving DecidableEq

inductive AuditFailureReason where
  | timeout
  | malformedResponse
  | digestMismatch
  | keyAbsent
  | rejected
  deriving DecidableEq

structure AuditFailureSummary where
  challengedKeys : Nat
  failedKeys : Nat
  absentKeys : Nat
  digestMismatchKeys : Nat
  deriving DecidableEq

inductive FailureEvidence (H : Type) where
  | replicationFailure (peer key : H)
  | auditFailure (challengeId : Nat) (challengedPeer : H) (confirmedFailedKeys : List H)
      (summary : AuditFailureSummary) (reason : AuditFailureReason)
  | bootstrapClaimAbuse (peer : H) (firstSeen : Nat)
  | quoteCommitmentMismatch (peer pinnedCommitment : H) (quotedKeyCount committedKeyCount : Nat)
      (quoteArtifact : Bytes) (commitment : StorageCommitment H)
  deriving DecidableEq

inductive AuditTickResult (H : Type) where
  | passed (challengedPeer : H) (keysChecked : Nat)
  | failed (evidence : FailureEvidence H)
  | bootstrapClaim (peer : H)
  | idle
  | insufficientKeys
  deriving DecidableEq

end AntNode
