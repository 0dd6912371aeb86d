import AntNode.AuditCooldown
import AntNode.Downgrade
import AntNode.PossessionCheck
import AntNode.RepairPipeline
import AntNode.StorageCommitmentAudit

/-!
# The auditing half of a node

A peer gossips a commitment, the node verifies and keeps it and now and then audits the peer for it.
A peer that passes is a proven holder of the leaves it showed, and its word counts when the node
polls its neighbours about a key it holds itself. A peer that fails loses what it has earned.

Gossip is taken in by several tasks at once and every audit is a task of its own; the maps they share
are under locks of their own. An event is what a task does under one lock, or between two. The
verification worker copies the maps one after the other, and so does the removal of a peer empty
them. The clock may go on between reading it and taking the next lock.

What a peer answers in an audit is `send`, as in the audit itself. Which pins the first audits are
for, and what the responsible-chunk audits find, is the work of other tasks and part of the event.
Logging and the deadlines are left out, and so is the time of the last signature check that a record
keeps, which nothing reads.
-/

namespace AntNode

def commitmentSigVerifyMinInterval : Nat := 60 * nanosPerSec

def maxEverCapablePeers : Nat := 4 * maxLastCommitmentByPeer

inductive TrustEvent where
  | applicationSuccess (weight : TrustWeight)
  | applicationFailure (weight : TrustWeight)
  deriving DecidableEq

/-- Where the taking in of one gossip message is. -/
inductive IngestPhase (H : Type) where
  | idle
  | clearing (source : H) (instant : Nat)
  | rateLimiting (source : H) (c : StorageCommitment H) (instant : Nat)
  | storing (source : H) (c : StorageCommitment H) (instant : Nat)
  | markingCapable (source : H) (c : StorageCommitment H)
  | triggering (source : H) (target : AuditTarget H)

/-- Where an audit is: `concluded` is one of a commitment, `ticked` one of responsible chunks. -/
inductive AuditPhase (H : Type) where
  | idle
  | running (challengedPeer : H) (target : AuditTarget H)
  | concluded (result : AuditTickResult H)
  | ticked (result : AuditTickResult H)
  | revoking (challengedPeer : H) (reason : AuditFailureReason)
  | reporting (peer : H) (event : TrustEvent)

/-- The fate of the requests of an audit, and what it draws and reads. -/
structure AuditRun (H : Type) where
  challengeId : Nat
  nonce : Nonce
  send : Nat → ReplicationMessageBody H → Delivery H
  rng : Nat → Nat
  instant : Nat

structure AuditingNode (H : Type) [Digest H] [CommitmentProtocol H] where
  now : Nat
  lastCommitmentByPeer : FiniteMap H (CapablePeerRecord H)
  everCapablePeers : Finset H
  sigVerifyAttempts : CooldownMap H
  cooldown : CooldownMap H
  recentProvers : RecentProvers H
  syncState : NeighborSyncState H
  ingests : Nat → IngestPhase H
  audits : Nat → AuditPhase H
  trustEvents : List (H × TrustEvent)
  holders : HolderSnapshot H

inductive AuditingEvent (H : Type) where
  | clock (now : Nat)
  | ingest (id : Nat) (source : H) (commitment : Option (StorageCommitment H))
      (inRoutingTable : Bool)
  | clear (id : Nat)
  | rateLimit (id : Nat) (iteration : Iteration H)
  | store (id : Nat) (victim : H)
  | markCapable (id : Nat)
  | trigger (id auditId : Nat) (lotteryWins : Bool) (iteration : Iteration H)
  | firstAudit (auditId : Nat) (peer : H) (target : AuditTarget H) (iteration : Iteration H)
  | conclude (auditId : Nat) (audit : AuditRun H)
  | tick (auditId : Nat) (result : AuditTickResult H)
  | handleResult (auditId : Nat)
  | revoke (auditId : Nat)
  | report (auditId : Nat)
  | sweep
  | removeCommitment (peer : H)
  | forgetProver (peer : H)
  | removeAttempt (peer : H)
  | removeCooldown (peer : H)
  | syncElsewhere (op : NeighborSyncState.Op H)
  | snapshotCommitments
  | snapshotCapable
  | snapshotProvers
  | snapshotHeld (locallyHeld : Finset H)

variable {H : Type} [Digest H]

/-! ### Rate limit and verdicts -/

def sigVerifyRateLimitOk (attempts : CooldownMap H) (source : H) (now : Nat) :
    Bool × CooldownMap H :=
  match attempts.lookup source with
  | some last =>
      if now - last < commitmentSigVerifyMinInterval then (false, attempts)
      else (true, attempts.insert source now)
  | none =>
      let attempts :=
        if maxLastCommitmentByPeer ≤ attempts.entries.length then
          (oldestStamp attempts.entries).elim attempts fun victim => attempts.erase victim.1
        else attempts
      (true, attempts.insert source now)

def auditFailureClearsBootstrapClaim (reason : AuditFailureReason) : Bool :=
  decide (reason ≠ .timeout)

def auditFailureRevokesHolderCredit (reason : AuditFailureReason) : Bool :=
  decide (reason ≠ .timeout)

def applyAuditFailureCreditRevocation (provers : RecentProvers H) (challengedPeer : H)
    (reason : AuditFailureReason) : RecentProvers H :=
  if auditFailureRevokesHolderCredit reason then provers.forgetPeer challengedPeer else provers

def BootstrapClaimObservation.shouldReport : BootstrapClaimObservation → Bool
  | .withinGrace _ => false
  | .pastGrace _ => true
  | .repeated _ => true

variable [CommitmentProtocol H]

namespace AuditingNode

def start (neighbors : List H) : AuditingNode H where
  now := 0
  lastCommitmentByPeer := ∅
  everCapablePeers := ∅
  sigVerifyAttempts := ∅
  cooldown := ∅
  recentProvers := .new
  syncState := .newCycle neighbors
  ingests := fun _ => .idle
  audits := fun _ => .idle
  trustEvents := []
  holders := ⟨∅, ∅, .new, ∅⟩

def setIngest (s : AuditingNode H) (id : Nat) (phase : IngestPhase H) : AuditingNode H :=
  { s with ingests := Function.update s.ingests id phase }

def setAudit (s : AuditingNode H) (id : Nat) (phase : AuditPhase H) : AuditingNode H :=
  { s with audits := Function.update s.audits id phase }

/-! ### Taking a commitment in -/

/-- `ingest_peer_commitment` up to its first lock: the gates that need none, or the first look of
`handle_commitment_downgrade`. -/
def beginIngest (s : AuditingNode H) (source : H) (commitment : Option (StorageCommitment H))
    (inRoutingTable : Bool) : IngestPhase H :=
  match commitment with
  | none =>
      match (s.lastCommitmentByPeer.lookup source).bind fun rec => cachedForDowngrade rec s.now with
      | some (target, true) => .triggering source target
      | some (_, false) => .clearing source s.now
      | none => .idle
  | some c =>
      if !inRoutingTable then .idle
      else if c.senderPeerId ≠ source then .idle
      else if blake3 c.senderPublicKey ≠ c.senderPeerId then .idle
      else .rateLimiting source c s.now

/-- The second look of `handle_commitment_downgrade`: gossip may have come in since the first. -/
def clearIfStale (s : AuditingNode H) (source : H) (instant : Nat) : AuditingNode H :=
  match s.lastCommitmentByPeer.lookup source with
  | none => s
  | some rec =>
      if gossipAnswerabilityTtl ≤ instant - rec.receivedAt then
        { s with
          lastCommitmentByPeer := s.lastCommitmentByPeer.insert source rec.clearCommitment }
      else s

/-- A full map makes room by dropping some other peer's record. -/
def makeRoom (records : FiniteMap H (CapablePeerRecord H)) (source victim : H) :
    FiniteMap H (CapablePeerRecord H) :=
  if maxLastCommitmentByPeer ≤ records.keys.card ∧ source ∉ records then records.erase victim
  else records

def storeCommitment (s : AuditingNode H) (source : H) (c : StorageCommitment H) (instant : Nat)
    (victim : H) : AuditingNode H :=
  let records := makeRoom s.lastCommitmentByPeer source victim
  let record := (records.lookup source).elim (CapablePeerRecord.fromVerified c instant) fun rec =>
    { rec.setCommitment c instant with commitmentCapable := true }
  { s with lastCommitmentByPeer := records.insert source record }

def recordCapable (s : AuditingNode H) (source : H) : AuditingNode H :=
  if source ∈ s.everCapablePeers ∨ s.everCapablePeers.card < maxEverCapablePeers then
    { s with everCapablePeers := insert source s.everCapablePeers }
  else s

def afterIngest (source : H) (c : StorageCommitment H) : IngestPhase H :=
  match commitmentHash c with
  | some pinHash => .triggering source ⟨pinHash, c.keyCount⟩
  | none => .idle

def stepIngest (s : AuditingNode H) (id : Nat) : AuditingEvent H → Option (AuditingNode H)
  | .ingest _ source commitment inRoutingTable =>
      match s.ingests id with
      | .idle => some (s.setIngest id (s.beginIngest source commitment inRoutingTable))
      | _ => none
  | .clear _ =>
      match s.ingests id with
      | .clearing source instant => some ((s.clearIfStale source instant).setIngest id .idle)
      | _ => none
  | .rateLimit _ iteration =>
      match s.ingests id with
      | .rateLimiting source c instant =>
          let (ok, attempts) := sigVerifyRateLimitOk (iteration.reorder s.sigVerifyAttempts) source
            instant
          let phase : IngestPhase H :=
            if ok && verifyCommitmentSignature c then .storing source c instant else .idle
          let s := { s with sigVerifyAttempts := attempts }
          some (s.setIngest id phase)
      | _ => none
  | .store _ victim =>
      match s.ingests id with
      | .storing source c instant =>
          some ((s.storeCommitment source c instant victim).setIngest id (.markingCapable source c))
      | _ => none
  | .markCapable _ =>
      match s.ingests id with
      | .markingCapable source c =>
          some ((s.recordCapable source).setIngest id (afterIngest source c))
      | _ => none
  | _ => none

/-! ### Audits -/

/-- An audit is spawned when the cooldown, and the lottery of gossip, allow it. -/
def launch (s : AuditingNode H) (auditId : Nat) (peer : H) (target : AuditTarget H)
    (decision : Bool × CooldownMap H) : Option (AuditingNode H) :=
  match s.audits auditId with
  | .idle =>
      let s := { s with cooldown := decision.2 }
      some (if decision.1 then s.setAudit auditId (.running peer target) else s)
  | _ => none

def verdict (peer : H) (target : AuditTarget H) (audit : AuditRun H) :
    AuditTickResult H × List (CreditUpdate H) :=
  runSubtreeAudit
    ⟨peer, audit.challengeId, audit.nonce, target.pinHash, true, audit.send⟩ audit.rng audit.instant

def clearClaim (s : AuditingNode H) (peer : H) : AuditingNode H :=
  { s with syncState := (s.syncState.clearActiveBootstrapClaim peer).2 }

/-- A bootstrap claim is observed, and reported once it has no grace. -/
def observeClaim (gracePeriod : Nat) (s : AuditingNode H) (peer : H) :
    AuditingNode H × AuditPhase H :=
  let (observation, syncState) := s.syncState.observeBootstrapClaim peer s.now gracePeriod
  ({ s with syncState := syncState },
    if observation.shouldReport then .reporting peer (.applicationFailure .replication) else .idle)

/-- What a result does to the claims, and what is left to do then. -/
def handleSubtreeAuditResult (gracePeriod : Nat) (s : AuditingNode H) :
    AuditTickResult H → AuditingNode H × AuditPhase H
  | .passed challengedPeer _ =>
      (s.clearClaim challengedPeer, .reporting challengedPeer (.applicationSuccess .replication))
  | .failed (.auditFailure _ challengedPeer _ _ reason) =>
      if reason = .timeout then (s, .idle)
      else (s.clearClaim challengedPeer, .revoking challengedPeer reason)
  | .failed _ => (s, .idle)
  | .bootstrapClaim peer => s.observeClaim gracePeriod peer
  | .idle | .insufficientKeys => (s, .idle)

/-- A timeout of this audit is reported like any other failure. -/
def handleAuditResult (gracePeriod : Nat) (s : AuditingNode H) :
    AuditTickResult H → AuditingNode H × AuditPhase H
  | .passed challengedPeer _ =>
      (s.clearClaim challengedPeer, .reporting challengedPeer (.applicationSuccess .replication))
  | .failed (.auditFailure _ challengedPeer _ _ reason) =>
      (if auditFailureClearsBootstrapClaim reason then s.clearClaim challengedPeer else s,
        .reporting challengedPeer (.applicationFailure .auditFailure))
  | .failed _ => (s, .idle)
  | .bootstrapClaim peer => s.observeClaim gracePeriod peer
  | .idle | .insufficientKeys => (s, .idle)

def stepAudit (gracePeriod : Nat) (s : AuditingNode H) (id : Nat) :
    AuditingEvent H → Option (AuditingNode H)
  | .conclude _ audit =>
      match s.audits id with
      | .running peer target =>
          if audit.instant ≤ s.now then
            let (result, updates) := verdict peer target audit
            let s := { s with recentProvers := updates.foldl RecentProvers.apply s.recentProvers }
            some (s.setAudit id (.concluded result))
          else none
      | _ => none
  | .tick _ result =>
      match s.audits id with
      | .idle => some (s.setAudit id (.ticked result))
      | _ => none
  | .handleResult _ =>
      match s.audits id with
      | .concluded result =>
          let (s, phase) := s.handleSubtreeAuditResult gracePeriod result
          some (s.setAudit id phase)
      | .ticked result =>
          let (s, phase) := s.handleAuditResult gracePeriod result
          some (s.setAudit id phase)
      | _ => none
  | .revoke _ =>
      match s.audits id with
      | .revoking peer reason =>
          let provers := applyAuditFailureCreditRevocation s.recentProvers peer reason
          let s := { s with recentProvers := provers }
          some (s.setAudit id (.reporting peer (.applicationFailure .auditFailure)))
      | _ => none
  | .report _ =>
      match s.audits id with
      | .reporting peer event =>
          let s := { s with trustEvents := s.trustEvents ++ [(peer, event)] }
          some (s.setAudit id .idle)
      | _ => none
  | _ => none

/-! ### The node -/

/-- The hashes of the commitments on file. -/
def commitmentByPeer (s : AuditingNode H) : FiniteMap H H :=
  FiniteMap.filterMapValues (fun rec => rec.cachedHash) s.lastCommitmentByPeer

def step (gracePeriod : Nat) (s : AuditingNode H) (e : AuditingEvent H) :
    Option (AuditingNode H) :=
  match e with
  | .clock now => if s.now ≤ now then some { s with now := now } else none
  | .ingest id _ _ _ | .clear id | .rateLimit id _ | .store id _ | .markCapable id =>
      s.stepIngest id e
  | .trigger id auditId lotteryWins iteration =>
      match s.ingests id with
      | .triggering source target =>
          (s.setIngest id .idle).launch auditId source target
            (auditLaunchDecision (iteration.reorder s.cooldown) source s.now lotteryWins)
      | _ => none
  | .firstAudit auditId peer target iteration =>
      s.launch auditId peer target (cooldownAllowsAudit (iteration.reorder s.cooldown) peer s.now)
  | .conclude id _ | .tick id _ | .handleResult id | .revoke id | .report id =>
      s.stepAudit gracePeriod id e
  | .sweep => some { s with recentProvers := s.recentProvers.sweepExpired s.now }
  | .removeCommitment peer =>
      some { s with lastCommitmentByPeer := s.lastCommitmentByPeer.erase peer }
  | .forgetProver peer => some { s with recentProvers := s.recentProvers.forgetPeer peer }
  | .removeAttempt peer => some { s with sigVerifyAttempts := s.sigVerifyAttempts.erase peer }
  | .removeCooldown peer => some { s with cooldown := s.cooldown.erase peer }
  | .syncElsewhere op => some { s with syncState := s.syncState.apply op }
  | .snapshotCommitments =>
      some { s with holders := { s.holders with commitmentByPeer := s.commitmentByPeer } }
  | .snapshotCapable =>
      some { s with holders := { s.holders with capablePeers := s.everCapablePeers } }
  | .snapshotProvers =>
      some { s with holders := { s.holders with provers := s.recentProvers } }
  | .snapshotHeld locallyHeld =>
      some { s with holders := { s.holders with locallyHeld := locallyHeld } }

end AuditingNode

end AntNode
