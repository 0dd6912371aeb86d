import AntNode.AuditWindow

/-!
# Gossiped commitments, and gossip without one

A responder gossips its commitment with every neighbor sync, and gossips none once it has retired
it. An auditor keeps the last commitment of a peer with the instant it received it; gossip without
one, from a peer that had one, makes it audit the commitment it kept, as long as it received it less
than one answerability window ago.

The system is one responder, one auditor and the gossip on its way between them, which may take any
time and arrive in any order. An `Instant` is only ever compared with one of the same machine, so
one clock serves both. The cap on the auditor's records and the removal of a peer are the event
`forget`; taking a commitment in returns an audit target as well, which is always fresh.
-/

namespace AntNode

variable {H : Type} [Digest H] [CommitmentProtocol H]

structure AuditTarget (H : Type) where
  pinHash : H
  keyCount : Nat
  deriving DecidableEq

/-- A record with the sticky bit of a peer that has gossiped a commitment. -/
structure CapablePeerRecord (H : Type) [Digest H] [CommitmentProtocol H] extends
    PeerCommitmentRecord H where
  commitmentCapable : Bool

namespace CapablePeerRecord

def fromVerified (commitment : StorageCommitment H) (now : Nat) : CapablePeerRecord H where
  lastCommitment := some commitment
  cachedHash := commitmentHash commitment
  receivedAt := now
  cachedHash_eq := rfl
  commitmentCapable := true

def setCommitment (rec : CapablePeerRecord H) (commitment : StorageCommitment H) (now : Nat) :
    CapablePeerRecord H :=
  { rec with
    lastCommitment := some commitment
    cachedHash := commitmentHash commitment
    receivedAt := now
    cachedHash_eq := rfl }

def clearCommitment (rec : CapablePeerRecord H) : CapablePeerRecord H :=
  { rec with
    lastCommitment := none
    cachedHash := none
    cachedHash_eq := rfl }

end CapablePeerRecord

/-- The pin and the key count of what the peer gossiped last, and whether it is fresh. -/
def cachedForDowngrade (rec : CapablePeerRecord H) (now : Nat) : Option (AuditTarget H × Bool) :=
  if rec.commitmentCapable then do
    let last ← rec.lastCommitment
    let pin ← rec.cachedHash
    return (⟨pin, last.keyCount⟩, decide (now - rec.receivedAt < gossipAnswerabilityTtl))
  else none

def handleCommitmentDowngrade (record : Option (CapablePeerRecord H)) (now : Nat) :
    Option (AuditTarget H) × Option (CapablePeerRecord H) :=
  match record.bind fun rec => cachedForDowngrade rec now with
  | some (target, true) => (some target, record)
  | some (_, false) => (none, record.map CapablePeerRecord.clearCommitment)
  | none => (none, record)

/-- `inRoutingTable` and `sigVerifyRateLimitOk` are the answers of the two gates that look
elsewhere. -/
def ingestPeerCommitment (source : H) (commitment : Option (StorageCommitment H))
    (inRoutingTable sigVerifyRateLimitOk : Bool) (record : Option (CapablePeerRecord H))
    (now : Nat) : Option (AuditTarget H) × Option (CapablePeerRecord H) :=
  match commitment with
  | none => handleCommitmentDowngrade record now
  | some c =>
      if !inRoutingTable then (none, record)
      else if c.senderPeerId ≠ source then (none, record)
      else if blake3 c.senderPublicKey ≠ c.senderPeerId then (none, record)
      else if !sigVerifyRateLimitOk then (none, record)
      else if !verifyCommitmentSignature c then (none, record)
      else
        let record := record.elim (CapablePeerRecord.fromVerified c now) fun rec =>
          { rec.setCommitment c now with commitmentCapable := true }
        ((commitmentHash c).map (⟨·, c.keyCount⟩), some record)

/-! ### The system -/

structure Gossip (H : Type) where
  commitment : Option (StorageCommitment H)
  sentAt : Nat

structure DowngradeAudit (H : Type) [Digest H] [CommitmentProtocol H] where
  responder : HonestResponder H
  flight : List (Gossip H)
  record : Option (CapablePeerRecord H)

/-- A `respond (.emit reading)` is a quote, or gossip to someone else. -/
inductive DowngradeEvent (H : Type) [Digest H] [CommitmentProtocol H] where
  | respond (event : ResponderEvent H)
  | gossip (reading : Nat)
  | receive (index reading : Nat) (inRoutingTable sigVerifyRateLimitOk : Bool)
  | forget

namespace DowngradeAudit

def start : DowngradeAudit H := ⟨.start, [], none⟩

def step (peerId : H) (s : DowngradeAudit H) : DowngradeEvent H → Option (DowngradeAudit H)
  | .respond event => (s.responder.step event).map fun responder => { s with responder := responder }
  | .gossip reading =>
      if reading ≤ s.responder.now then
        let built := (s.responder.commitments.currentForGossip reading).2
        some { s with
          responder := s.responder.emit reading
          flight := s.flight ++ [⟨built.map BuiltCommitment.commitment, s.responder.now⟩] }
      else none
  | .receive index reading inRoutingTable sigVerifyRateLimitOk =>
      match s.flight[index]? with
      | none => none
      | some gossip =>
          if gossip.sentAt ≤ reading ∧ reading ≤ s.responder.now then
            some { s with
              flight := s.flight.eraseIdx index
              record := (ingestPeerCommitment peerId gossip.commitment inRoutingTable
                sigVerifyRateLimitOk s.record reading).2 }
          else none
  | .forget => some { s with record := none }

/-- The responder no longer advertises the commitment. -/
def Retired (s : DowngradeAudit H) (pin : H) : Prop :=
  ∀ built ∈ s.responder.commitments.current, built.cachedHash ≠ pin

end DowngradeAudit

end AntNode
