import AntNode.RepairProofs
import AntNode.ResponsibleAudit

/-!
# Sync sessions and the audits they entitle to

A node tells its neighbors which of its records they should hold: in the requests of its own sync
rounds and of the bootstrap sync, and in the responses to theirs. Once the hints of a session have
reached a peer that is not bootstrapping, each of them is recorded as a repair proof, and after a
sync cycle and an hour the peer may be audited for the key.

Any number of sessions go on at a time, with the end of a cycle, the removal of peers and keys, the
queries of the pruner and the audit loop between any two of their steps. What the store, the paid list
and the routing table answer is a parameter of the step that reads them, key by key; a session's step
is one region between two awaits, or one turn of the loop that records its hints. The admission of
the hints that come back, the commitments that travel along, the bootstrap claims and the trust
reports are left out.
-/

namespace AntNode

variable {H : Type} [Digest H]

/-! ### The hints for a peer -/

structure SentReplicaHint (H : Type) where
  key : H
  closePeers : Finset H
  deriving DecidableEq

structure PeerSyncHints (H : Type) where
  sentReplicaHints : List (SentReplicaHint H)
  paidHints : List H
  deriving DecidableEq

/-- The keys that could be read. -/
def readKeys (keys : Except String (List H)) : List H := keys.toOption.getD []

def buildReplicaHintsForPeerWithCloseGroups (peer : H) (allKeys : Except String (List H))
    (closest : H → List H) : List (SentReplicaHint H) :=
  (readKeys allKeys).filterMap fun key =>
    let closePeers := (closest key).toFinset
    if peer ∈ closePeers then some ⟨key, closePeers⟩ else none

def buildReplicaHintsForPeer (peer : H) (allKeys : Except String (List H))
    (closest : H → List H) : List H :=
  (buildReplicaHintsForPeerWithCloseGroups peer allKeys closest).map SentReplicaHint.key

def buildPaidHintsForPeer (peer : H) (allPaidKeys : Except String (List H))
    (closest : H → List H) : List H :=
  (readKeys allPaidKeys).filter fun key => decide (peer ∈ closest key)

/-- `get_mut`, and a change to what is there. -/
def updateHints (change : PeerSyncHints H → PeerSyncHints H)
    (hintsByPeer : FiniteMap H (PeerSyncHints H)) (peer : H) : FiniteMap H (PeerSyncHints H) :=
  match hintsByPeer.lookup peer with
  | none => hintsByPeer
  | some peerHints => hintsByPeer.insert peer (change peerHints)

def pushReplicaHint (hint : SentReplicaHint H) (peerHints : PeerSyncHints H) : PeerSyncHints H :=
  { peerHints with sentReplicaHints := peerHints.sentReplicaHints ++ [hint] }

def pushPaidHint (key : H) (peerHints : PeerSyncHints H) : PeerSyncHints H :=
  { peerHints with paidHints := peerHints.paidHints ++ [key] }

/-- One scan of the store and one of the paid list, for all peers of a batch. -/
def buildSyncHintsForPeers (peers : List H) (allKeys allPaidKeys : Except String (List H))
    (closest paidClosest : H → List H) : FiniteMap H (PeerSyncHints H) :=
  let targetPeers := peers.toFinset
  let hintsByPeer : FiniteMap H (PeerSyncHints H) :=
    peers.foldl (fun hints peer => hints.insert peer ⟨[], []⟩) ∅
  if peers = [] then hintsByPeer
  else
    let withReplicaHints := (readKeys allKeys).foldl
      (fun hints key =>
        let closePeers := (closest key).toFinset
        ((closest key).dedup.filter fun peer => decide (peer ∈ targetPeers)).foldl
          (updateHints (pushReplicaHint ⟨key, closePeers⟩)) hints)
      hintsByPeer
    (readKeys allPaidKeys).foldl
      (fun hints key =>
        (paidClosest key).foldl
          (fun hints node =>
            if node ∈ targetPeers then updateHints (pushPaidHint key) hints node else hints)
          hints)
      withReplicaHints

/-- `hints_by_peer.remove(peer).unwrap_or_default()`, for one peer of the batch after the other. -/
def takeHints (hintsByPeer : FiniteMap H (PeerSyncHints H)) : List H → List (H × PeerSyncHints H)
  | [] => []
  | peer :: peers =>
      (peer, (hintsByPeer.lookup peer).getD ⟨[], []⟩) :: takeHints (hintsByPeer.erase peer) peers

/-! ### The keys to audit -/

/-- `saturating_add(1)` on an unsigned integer of `width` bits. -/
def saturatingSucc (width n : Nat) : Nat := if n < 2 ^ width - 1 then n + 1 else n

structure PeerSyncRecord where
  lastSync : Option Nat
  cyclesSinceSync : Nat
  deriving DecidableEq

def PeerSyncRecord.hasRepairOpportunity (record : PeerSyncRecord) : Bool :=
  record.lastSync.isSome && decide (1 ≤ record.cyclesSinceSync)

def eligibleAuditPeer (syncHistory : FiniteMap H PeerSyncRecord) (peer : H) : Bool :=
  match syncHistory.lookup peer with
  | none => false
  | some record => record.hasRepairOpportunity

/-- The sampled keys for which the peer is in the close group, with the groups. -/
def sampledKeyGroups (challengedPeer : H) (sampledKeys : List H) (closest : H → List H) :
    List (H × Finset H) :=
  sampledKeys.filterMap fun key =>
    let closePeers := (closest key).toFinset
    if challengedPeer ∈ closePeers then some (key, closePeers) else none

def matureAuditKeysForPeer (challengedPeer : H) (currentSyncEpoch now : Nat) :
    List (H × Finset H) → RepairProofs H → List H × RepairProofs H
  | [], proofs => ([], proofs)
  | (key, closePeers) :: groups, proofs =>
      let (mature, proofs) :=
        proofs.hasMatureReplicaHint challengedPeer key closePeers currentSyncEpoch now
      let (keys, proofs) :=
        matureAuditKeysForPeer challengedPeer currentSyncEpoch now groups proofs
      (if mature then key :: keys else keys, proofs)

/-! ### The node -/

/-- Where a session is. A request and a response carry the hints; what remains is done after they
have gone out. -/
inductive SessionPhase (H : Type) where
  | request (bootstrapSync : Bool)
  | response (requesterBootstrapping requesterInRoutingTable : Bool)
  | updatingHistory (records : Bool)
  | readingEpoch
  | recording (hintedAtEpoch : Nat) (remaining : List (SentReplicaHint H))
  deriving DecidableEq

structure SyncSession (H : Type) where
  peer : H
  hints : List (SentReplicaHint H)
  phase : SessionPhase H
  deriving DecidableEq

/-- An audit tick that has sampled its keys. -/
structure SelectedAudit (H : Type) where
  challengedPeer : H
  currentSyncEpoch : Nat
  sampledKeys : List H
  deriving DecidableEq

structure SyncNode (H : Type) where
  now : Nat
  syncCycleEpoch : Nat
  syncHistory : FiniteMap H PeerSyncRecord
  repairProofs : RepairProofs H
  sessions : FiniteMap Nat (SyncSession H)
  nextSession : Nat
  audit : Option (SelectedAudit H)

inductive SyncEvent (H : Type) where
  | clock (now : Nat)
  | openBatch (bootstrapSync : Bool) (peers : List H) (allKeys allPaidKeys : Except String (List H))
      (closest paidClosest : H → List H)
  | answer (id : Nat) (reply : Option Bool)
  | receive (source : H) (bootstrapping inRoutingTable : Bool) (allKeys : Except String (List H))
      (closest : H → List H)
  | respond (id : Nat) (sent : Bool)
  | updateHistory (id : Nat)
  | readEpoch (id : Nat)
  | record (id : Nat)
  | ageHistory
  | advanceEpoch
  | removePeer (peer : H)
  | removeKey (key : H)
  | queryHint (peer key : H) (closePeers : Finset H) (currentEpoch : Nat)
  | selectAudit (peer : H) (allKeys sampledKeys : List H)
  | challenge (closest : H → List H)

namespace SyncNode

def start (now : Nat) : SyncNode H := ⟨now, 0, ∅, .new, ∅, 0, none⟩

def openSession (s : SyncNode H) (session : SyncSession H) : SyncNode H :=
  { s with
    sessions := s.sessions.insert s.nextSession session
    nextSession := s.nextSession + 1 }

def setPhase (s : SyncNode H) (id : Nat) (session : SyncSession H) (phase : SessionPhase H) :
    SyncNode H :=
  { s with sessions := s.sessions.insert id { session with phase := phase } }

def endSession (s : SyncNode H) (id : Nat) : SyncNode H :=
  { s with sessions := s.sessions.erase id }

/-- What comes of a request: no response that decodes, or one with the peer's own bootstrap flag. -/
def answer (s : SyncNode H) (id : Nat) (session : SyncSession H) (bootstrapSync : Bool) :
    Option Bool → SyncNode H
  | none => s.endSession id
  | some bootstrapping =>
      if !bootstrapSync then s.setPhase id session (.updatingHistory (!bootstrapping))
      else if bootstrapping then s.endSession id
      else s.setPhase id session .readingEpoch

/-- `record_sent_replica_hints` for one hint. -/
def record (s : SyncNode H) (peer : H) (hint : SentReplicaHint H) (hintedAtEpoch : Nat) :
    SyncNode H :=
  { s with
    repairProofs := (s.repairProofs.insertReplicaHintSent peer hint.key hint.closePeers
      hintedAtEpoch s.now).2 }

/-- The keys of the challenge that a selected audit sends, and the proofs after it. -/
def auditKeys (s : SyncNode H) (audit : SelectedAudit H) (closest : H → List H) :
    List H × RepairProofs H :=
  matureAuditKeysForPeer audit.challengedPeer audit.currentSyncEpoch s.now
    (sampledKeyGroups audit.challengedPeer audit.sampledKeys closest) s.repairProofs

def stepSession (s : SyncNode H) (id : Nat) (session : SyncSession H) :
    SyncEvent H → Option (SyncNode H)
  | .answer _ reply =>
      match session.phase with
      | .request bootstrapSync => some (s.answer id session bootstrapSync reply)
      | _ => none
  | .respond _ sent =>
      match session.phase with
      | .response requesterBootstrapping requesterInRoutingTable =>
          if !requesterInRoutingTable then some (s.endSession id)
          else some (s.setPhase id session (.updatingHistory (sent && !requesterBootstrapping)))
      | _ => none
  | .updateHistory _ =>
      match session.phase with
      | .updatingHistory records =>
          let s := { s with syncHistory := s.syncHistory.insert session.peer ⟨some s.now, 0⟩ }
          if records then some (s.setPhase id session .readingEpoch) else some (s.endSession id)
      | _ => none
  | .readEpoch _ =>
      match session.phase with
      | .readingEpoch =>
          if session.hints = [] then some (s.endSession id)
          else some (s.setPhase id session (.recording s.syncCycleEpoch session.hints))
      | _ => none
  | .record _ =>
      match session.phase with
      | .recording hintedAtEpoch (hint :: remaining) =>
          some ((s.record session.peer hint hintedAtEpoch).setPhase id session
            (.recording hintedAtEpoch remaining))
      | .recording _ [] => some (s.endSession id)
      | _ => none
  | _ => none

def step (s : SyncNode H) (e : SyncEvent H) : Option (SyncNode H) :=
  match e with
  | .clock now => if s.now ≤ now then some { s with now := now } else none
  | .openBatch bootstrapSync peers allKeys allPaidKeys closest paidClosest =>
      let hintsByPeer := buildSyncHintsForPeers peers allKeys allPaidKeys closest paidClosest
      some ((takeHints hintsByPeer peers).foldl
        (fun s entry => s.openSession ⟨entry.1, entry.2.sentReplicaHints, .request bootstrapSync⟩) s)
  | .receive source bootstrapping inRoutingTable allKeys closest =>
      let sentReplicaHints := buildReplicaHintsForPeerWithCloseGroups source allKeys closest
      some (s.openSession ⟨source, sentReplicaHints, .response bootstrapping inRoutingTable⟩)
  | .answer id _ | .respond id _ | .updateHistory id | .readEpoch id | .record id =>
      (s.sessions.lookup id).bind fun session => s.stepSession id session e
  | .ageHistory =>
      some { s with
        syncHistory := FiniteMap.mapValues
          (fun record => { record with
            cyclesSinceSync := saturatingSucc 32 record.cyclesSinceSync }) s.syncHistory }
  | .advanceEpoch => some { s with syncCycleEpoch := saturatingSucc 64 s.syncCycleEpoch }
  | .removePeer peer => some { s with repairProofs := s.repairProofs.removePeer peer }
  | .removeKey key => some { s with repairProofs := s.repairProofs.removeKey key }
  | .queryHint peer key closePeers currentEpoch =>
      some { s with
        repairProofs :=
          (s.repairProofs.hasMatureReplicaHint peer key closePeers currentEpoch s.now).2 }
  | .selectAudit peer allKeys sampledKeys =>
      if s.audit = none ∧ eligibleAuditPeer s.syncHistory peer = true ∧ allKeys ≠ [] ∧
          sampledKeys ⊆ allKeys ∧ sampledKeys.length = auditSampleCount allKeys.length then
        some { s with audit := some ⟨peer, s.syncCycleEpoch, sampledKeys⟩ }
      else none
  | .challenge closest =>
      match s.audit with
      | none => none
      | some audit =>
          some { s with repairProofs := (s.auditKeys audit closest).2, audit := none }

end SyncNode

end AntNode
