import AntNode.Lib.Runs
import AntNode.Quorum
import AntNode.RepairProofs

/-!
# Pruning

A prune pass deletes the records, and then the paid-list entries, that this node has long been out
of range for. It scans the keys and selects candidates, asks the peers of their close groups, looks
at every candidate again and only then deletes. Each of these takes time in which the rest of the
node goes on: between any two steps of a pass the world may become any other.

The pass is the sequence of the steps of its loops, one loop iteration each; a challenge is two of
them, the read of the local record and the exchange with the peer. What a peer answers and whether
the read fails are part of the step. The counters for the log and the reporting of peers are left
out, and so is the cursor that rotates the scans, which `PaidPruneScan` has for the paid list.
-/

namespace AntNode

def maxPruneAuditChallengesPerPass : Nat := 64

def maxPaidPruneVerificationsPerPass : Nat := 32

def maxPaidPruneVerificationPeersPerPass : Nat := 32

structure PaidList (H : Type) where
  keys : Finset H
  recordOutOfRange : FiniteMap H Nat
  paidOutOfRange : FiniteMap H Nat

/-- What a prune pass shares with the rest of the node. Without a commitment state `isHeld` is
constantly false. -/
structure PruneWorld (H : Type) where
  now : Nat
  storage : FiniteMap H Bytes
  paidList : PaidList H
  repairProofs : RepairProofs H
  routing : RoutingTable H
  isHeld : H → Bool

structure PrunePassContext (H : Type) where
  selfId : H
  config : ReplicationConfig
  currentSyncEpoch : Nat
  allowRemotePruneAudits : Bool

variable {H : Type} [Digest H]

namespace PruneWorld

def setRecordOutOfRange (world : PruneWorld H) (key : H) : PruneWorld H :=
  { world with
    paidList.recordOutOfRange := FiniteMap.orInsert world.paidList.recordOutOfRange key world.now }

def clearRecordOutOfRange (world : PruneWorld H) (key : H) : PruneWorld H :=
  { world with paidList.recordOutOfRange := world.paidList.recordOutOfRange.erase key }

def setPaidOutOfRange (world : PruneWorld H) (key : H) : PruneWorld H :=
  { world with
    paidList.paidOutOfRange := FiniteMap.orInsert world.paidList.paidOutOfRange key world.now }

def clearPaidOutOfRange (world : PruneWorld H) (key : H) : PruneWorld H :=
  { world with paidList.paidOutOfRange := world.paidList.paidOutOfRange.erase key }

end PruneWorld

def remoteCloseGroupPeers (closeGroup : List H) (selfId : H) : List H :=
  closeGroup.filter fun peer => decide (peer ≠ selfId)

def pruneProofsNeeded (groupSize : Nat) : Nat :=
  if groupSize ≤ 2 then groupSize else groupSize - 1

/-- Three quarters, rounded up. -/
def paidPruneConfirmationsNeeded (groupSize : Nat) : Nat := (3 * groupSize + 3) / 4

def targetPeersReportedPresent (key : H) (targetPeers : List H)
    (presentByKey : FiniteMap H (Finset H)) (proofsNeeded : Nat) : Bool :=
  if proofsNeeded = 0 then false
  else
    match presentByKey.lookup key with
    | none => false
    | some presentPeers =>
        let proven := (presentPeers.filter fun peer => peer ∈ targetPeers).card
        decide (proofsNeeded ≤ proven)

/-! ### Selecting records -/

structure RecordPruneCandidate (H : Type) where
  key : H
  targetPeers : List H
  deriving DecidableEq

inductive RecordPruneKeyState (H : Type) where
  | none
  | cleared
  | bootstrapDeferred
  | budgetDeferred
  | heldByCommitment
  | candidate (candidate : RecordPruneCandidate H)
  deriving DecidableEq

structure RecordPruneKeyOutcome (H : Type) where
  marked : Bool
  state : RecordPruneKeyState H
  deriving DecidableEq

def recordPruneLookupGroups (key : H) (routing : RoutingTable H) (config : ReplicationConfig) :
    List H × List H :=
  (routing.findClosestNodesLocalWithSelf key (storageAdmissionWidth config.closeGroupSize),
    routing.findClosestNodesLocalWithSelf key config.closeGroupSize)

def peersWithMatureRepairProofs (key : H) (targetPeers : List H) (currentClosePeers : Finset H)
    (currentSyncEpoch now : Nat) (proofs : RepairProofs H) : List H × RepairProofs H :=
  match targetPeers with
  | [] => ([], proofs)
  | peer :: rest =>
      let (mature, proofs) :=
        proofs.hasMatureReplicaHint peer key currentClosePeers currentSyncEpoch now
      let (peers, proofs) :=
        peersWithMatureRepairProofs key rest currentClosePeers currentSyncEpoch now proofs
      (if mature then peer :: peers else peers, proofs)

def evaluateRecordPruneKey (ctx : PrunePassContext H) (key : H)
    (storageAdmissionGroup strictCloseGroup : List H) (now auditChallengeBudget : Nat)
    (world : PruneWorld H) : RecordPruneKeyOutcome H × Nat × PruneWorld H :=
  if ctx.selfId ∈ storageAdmissionGroup then
    match world.paidList.recordOutOfRange.lookup key with
    | some _ => (⟨false, .cleared⟩, auditChallengeBudget, world.clearRecordOutOfRange key)
    | none => (⟨false, .none⟩, auditChallengeBudget, world)
  else if world.isHeld key then (⟨false, .heldByCommitment⟩, auditChallengeBudget, world)
  else
    let marked := (world.paidList.recordOutOfRange.lookup key).isNone
    let world := world.setRecordOutOfRange key
    match world.paidList.recordOutOfRange.lookup key with
    | none => (⟨marked, .none⟩, auditChallengeBudget, world)
    | some firstSeen =>
        let elapsed := now - firstSeen
        if elapsed < ctx.config.pruneHysteresisDuration then
          (⟨marked, .none⟩, auditChallengeBudget, world)
        else if !ctx.allowRemotePruneAudits then
          (⟨marked, .bootstrapDeferred⟩, auditChallengeBudget, world)
        else
          let targetPeers := remoteCloseGroupPeers strictCloseGroup ctx.selfId
          if targetPeers = [] then (⟨marked, .none⟩, auditChallengeBudget, world)
          else
            let (auditTargets, repairProofs) :=
              peersWithMatureRepairProofs key targetPeers strictCloseGroup.toFinset
                ctx.currentSyncEpoch now world.repairProofs
            let world := { world with repairProofs := repairProofs }
            let proofsNeeded := pruneProofsNeeded targetPeers.length
            if proofsNeeded = 0 ∨ auditTargets.length < proofsNeeded then
              (⟨marked, .none⟩, auditChallengeBudget, world)
            else if auditTargets.length > auditChallengeBudget then
              (⟨marked, .budgetDeferred⟩, auditChallengeBudget, world)
            else
              (⟨marked, .candidate ⟨key, auditTargets⟩⟩,
                auditChallengeBudget - auditTargets.length, world)

/-! ### Challenging the holders of a record -/

inductive AuditResponse (H : Type) where
  | digests (challengeId : UInt64) (digests : List H)
  | bootstrapping (challengeId : UInt64)
  | rejected (challengeId : UInt64) (reason : String)
  deriving DecidableEq

/-- What comes of a challenge: no message that decodes, an audit response, or another message. -/
inductive PruneAuditReply (H : Type) where
  | noMessage
  | auditResponse (response : AuditResponse H)
  | otherMessage
  deriving DecidableEq

inductive PruneAuditStatus where
  | proven
  | failed
  | bootstrapping
  deriving DecidableEq

/-- What the challenger put into the challenge, and what came of it. -/
structure PruneChallenge (H : Type) where
  challengeId : UInt64
  nonce : Nonce
  reply : PruneAuditReply H

def absentKeyDigest : H := Digest.zero

def auditDigestProvesKey (peer key : H) (nonce : Nonce) (localBytes : Bytes) (digest : H) : Bool :=
  if digest = absentKeyDigest then false
  else decide (digest = computeAuditDigest nonce peer key localBytes)

def pruneAuditResponseStatus (reply : PruneAuditReply H) (challengeId : UInt64) (peer key : H)
    (nonce : Nonce) (localBytes : Bytes) : PruneAuditStatus :=
  match reply with
  | .auditResponse (.digests respId digests) =>
      if respId ≠ challengeId then .failed
      else
        match digests with
        | [digest] =>
            if digest = absentKeyDigest then .failed
            else if auditDigestProvesKey peer key nonce localBytes digest then .proven
            else .failed
        | _ => .failed
  | .auditResponse (.bootstrapping respId) =>
      if respId = challengeId then .bootstrapping else .failed
  | .auditResponse (.rejected _ _) => .failed
  | .noMessage => .failed
  | .otherMessage => .failed

def localRecordBytes (world : PruneWorld H) (key : H) (readFails : Bool) : Option Bytes :=
  if readFails then none else world.storage.lookup key

/-- The rest of `peer_proves_record`, once the local record was read. -/
def peerProvesRecord (peer key : H) (localBytes : Bytes) (challenge : PruneChallenge H) : Bool :=
  decide (pruneAuditResponseStatus challenge.reply challenge.challengeId peer key challenge.nonce
    localBytes = .proven)

def buildPeerAuditChallenges (candidates : List (RecordPruneCandidate H)) : List (H × H) :=
  candidates.flatMap fun candidate => candidate.targetPeers.map fun peer => (peer, candidate.key)

def addPresent (presentByKey : FiniteMap H (Finset H)) (peer key : H) : FiniteMap H (Finset H) :=
  presentByKey.insert key (insert peer ((presentByKey.lookup key).getD ∅))

/-! ### Looking at a record again -/

/-- The body of the loop of `revalidated_record_prune_keys`: whether the key is to be deleted. -/
def revalidatedRecordPruneKey (ctx : PrunePassContext H) (key : H)
    (presentByKey : FiniteMap H (Finset H)) (now : Nat) (world : PruneWorld H) :
    Bool × PruneWorld H :=
  if world.isHeld key then (false, world)
  else
    let (storageAdmissionGroup, strictCloseGroup) :=
      recordPruneLookupGroups key world.routing ctx.config
    if ctx.selfId ∈ storageAdmissionGroup then (false, world.clearRecordOutOfRange key)
    else
      match world.paidList.recordOutOfRange.lookup key with
      | none => (false, world)
      | some firstSeen =>
          let elapsed := now - firstSeen
          if elapsed < ctx.config.pruneHysteresisDuration then (false, world)
          else
            let currentTargetPeers := remoteCloseGroupPeers strictCloseGroup ctx.selfId
            if currentTargetPeers = [] then (false, world)
            else
              let proofsNeeded := pruneProofsNeeded currentTargetPeers.length
              (targetPeersReportedPresent key currentTargetPeers presentByKey proofsNeeded, world)

/-- One deletion of `delete_stored_records` that storage accepted. -/
def deleteStoredRecord (world : PruneWorld H) (key : H) : PruneWorld H :=
  let world := { world with storage := world.storage.erase key }
  let world := world.clearRecordOutOfRange key
  let world := { world with repairProofs := world.repairProofs.removeKey key }
  world.setPaidOutOfRange key

/-! ### A pass over the records -/

/-- `asked` are the challenges under way, each with the record it was read for. -/
inductive RecordPrunePhase (H : Type) where
  | selecting (remaining : List H)
  | challenging (remaining : List (H × H)) (asked : List (H × H × Bytes))
  | revalidating (remaining : List (RecordPruneCandidate H))
  | deleting (remaining : List H)

structure RecordPrunePass (H : Type) where
  world : PruneWorld H
  phase : RecordPrunePhase H
  startedAt : Nat
  auditChallengeBudget : Nat
  candidates : List (RecordPruneCandidate H)
  presentByKey : FiniteMap H (Finset H)
  revalidatedAt : Nat
  keysToDelete : List H

/-- A step of the pass, or of the rest of the node. Challenges end in any order. -/
inductive RecordPruneEvent (H : Type) where
  | elsewhere (world : PruneWorld H)
  | evaluate
  | endSelection
  | readLocal (peer key : H) (readFails : Bool)
  | challenge (peer key : H) (localBytes : Bytes) (challenge : PruneChallenge H)
  | endChallenges
  | revalidate
  | endRevalidation
  | delete (accepted : Bool)

namespace RecordPrunePass

def start (storedKeys : List H) (scanStart : Nat) (world : PruneWorld H) : RecordPrunePass H where
  world := world
  phase := .selecting (storedKeys.rotate scanStart)
  startedAt := world.now
  auditChallengeBudget := maxPruneAuditChallengesPerPass
  candidates := []
  presentByKey := ∅
  revalidatedAt := world.now
  keysToDelete := []

def evaluate (ctx : PrunePassContext H) (pass : RecordPrunePass H) (key : H) (rest : List H) :
    RecordPrunePass H :=
  let (storageAdmissionGroup, strictCloseGroup) :=
    recordPruneLookupGroups key pass.world.routing ctx.config
  let (outcome, auditChallengeBudget, world) :=
    evaluateRecordPruneKey ctx key storageAdmissionGroup strictCloseGroup pass.startedAt
      pass.auditChallengeBudget pass.world
  { pass with
    world := world
    phase := .selecting rest
    auditChallengeBudget := auditChallengeBudget
    candidates :=
      match outcome.state with
      | .candidate candidate => pass.candidates ++ [candidate]
      | _ => pass.candidates }

def revalidate (ctx : PrunePassContext H) (pass : RecordPrunePass H)
    (candidate : RecordPruneCandidate H) (rest : List (RecordPruneCandidate H)) :
    RecordPrunePass H :=
  let (confirmed, world) :=
    revalidatedRecordPruneKey ctx candidate.key pass.presentByKey pass.revalidatedAt pass.world
  { pass with
    world := world
    phase := .revalidating rest
    keysToDelete := if confirmed then pass.keysToDelete ++ [candidate.key] else pass.keysToDelete }

def step (ctx : PrunePassContext H) (pass : RecordPrunePass H) :
    RecordPruneEvent H → Option (RecordPrunePass H)
  | .elsewhere world => some { pass with world := world }
  | .evaluate =>
      match pass.phase with
      | .selecting (key :: rest) => some (pass.evaluate ctx key rest)
      | _ => none
  | .endSelection =>
      match pass.phase with
      | .selecting [] =>
          some { pass with phase := .challenging (buildPeerAuditChallenges pass.candidates) [] }
      | _ => none
  | .readLocal peer key readFails =>
      match pass.phase with
      | .challenging remaining asked =>
          if (peer, key) ∈ remaining then
            let remaining := remaining.erase (peer, key)
            match localRecordBytes pass.world key readFails with
            | none => some { pass with phase := .challenging remaining asked }
            | some localBytes =>
                some { pass with
                  phase := .challenging remaining ((peer, key, localBytes) :: asked) }
          else none
      | _ => none
  | .challenge peer key localBytes challenge =>
      match pass.phase with
      | .challenging remaining asked =>
          if (peer, key, localBytes) ∈ asked then
            some { pass with
              phase := .challenging remaining (asked.erase (peer, key, localBytes))
              presentByKey :=
                if peerProvesRecord peer key localBytes challenge then
                  addPresent pass.presentByKey peer key
                else pass.presentByKey }
          else none
      | _ => none
  | .endChallenges =>
      match pass.phase with
      | .challenging [] [] =>
          some { pass with
            phase := .revalidating pass.candidates
            revalidatedAt := pass.world.now }
      | _ => none
  | .revalidate =>
      match pass.phase with
      | .revalidating (candidate :: rest) => some (pass.revalidate ctx candidate rest)
      | _ => none
  | .endRevalidation =>
      match pass.phase with
      | .revalidating [] => some { pass with phase := .deleting pass.keysToDelete }
      | _ => none
  | .delete accepted =>
      match pass.phase with
      | .deleting (key :: rest) =>
          some { pass with
            phase := .deleting rest
            world := if accepted then deleteStoredRecord pass.world key else pass.world }
      | _ => none

end RecordPrunePass

/-! ### Selecting and confirming paid-list entries -/

inductive PaidPruneKeyState (H : Type) where
  | none
  | remoteDeferred
  | entryBudgetDeferred
  | peerBudgetDeferred
  | candidate (targetPeers : List H)
  deriving DecidableEq

def reservePaidPrunePeerBudget (targetPeers : List H) (selectedVerificationPeers : Finset H) :
    Bool × Finset H :=
  let newPeerCount := (targetPeers.filter fun peer => peer ∉ selectedVerificationPeers).length
  if selectedVerificationPeers.card + newPeerCount > maxPaidPruneVerificationPeersPerPass then
    (false, selectedVerificationPeers)
  else (true, selectedVerificationPeers ∪ targetPeers.toFinset)

def selectPaidPruneCandidate (closest : List H) (selfId : H) (allowRemotePruneAudits : Bool)
    (selectedCandidateCount : Nat) (selectedVerificationPeers : Finset H) :
    PaidPruneKeyState H × Finset H :=
  if !allowRemotePruneAudits then (.remoteDeferred, selectedVerificationPeers)
  else
    let targetPeers := remoteCloseGroupPeers closest selfId
    if targetPeers = [] then (.none, selectedVerificationPeers)
    else if selectedCandidateCount ≥ maxPaidPruneVerificationsPerPass then
      (.entryBudgetDeferred, selectedVerificationPeers)
    else
      let (reserved, selectedVerificationPeers) :=
        reservePaidPrunePeerBudget targetPeers selectedVerificationPeers
      if !reserved then (.peerBudgetDeferred, selectedVerificationPeers)
      else (.candidate targetPeers, selectedVerificationPeers)

/-- The body of the loop of `prune_paid_entries`. -/
def evaluatePaidPruneKey (ctx : PrunePassContext H) (key : H) (now selectedCandidateCount : Nat)
    (selectedVerificationPeers : Finset H) (world : PruneWorld H) :
    PaidPruneKeyState H × Finset H × PruneWorld H :=
  let closest :=
    world.routing.findClosestNodesLocalWithSelf key ctx.config.paidListCloseGroupSize
  if ctx.selfId ∈ closest then (.none, selectedVerificationPeers, world.clearPaidOutOfRange key)
  else
    let world := world.setPaidOutOfRange key
    match world.paidList.paidOutOfRange.lookup key with
    | none => (.none, selectedVerificationPeers, world)
    | some firstSeen =>
        let elapsed := now - firstSeen
        if elapsed < ctx.config.pruneHysteresisDuration then
          (.none, selectedVerificationPeers, world)
        else
          let (state, selectedVerificationPeers) :=
            selectPaidPruneCandidate closest ctx.selfId ctx.allowRemotePruneAudits
              selectedCandidateCount selectedVerificationPeers
          (state, selectedVerificationPeers, world)

def addPaidPruneTargets (targets : VerificationTargets H) (candidate : H × List H) :
    VerificationTargets H :=
  let (key, targetPeers) := candidate
  if targetPeers = [] then targets
  else
    let targets := targetPeers.foldl
      (fun targets peer => (targets.askKey key peer).askPaidKey key peer) targets
    { targets with
      paidTargets := targets.paidTargets.insert key targetPeers
      paidGroupSizes := targets.paidGroupSizes.insert key targetPeers.length }

def paidPruneTargets (expiredCandidates : List (H × List H)) : VerificationTargets H :=
  (expiredCandidates.foldl addPaidPruneTargets .empty).dedupKeys

def paidConfirmationsByKey (expiredCandidates : List (H × List H)) (evidence : EvidenceMap H) :
    FiniteMap H (Finset H) :=
  expiredCandidates.foldl
    (fun confirmedByKey (key, targetPeers) =>
      match evidence.lookup key with
      | none => confirmedByKey
      | some keyEvidence =>
          let confirmed := keyEvidence.paidList.keys.filter fun peer =>
            keyEvidence.paidList.lookup peer = some .confirmed ∧ peer ∈ targetPeers
          if confirmed = ∅ then confirmedByKey else confirmedByKey.insert key confirmed)
    ∅

def collectPaidPruneConfirmations (expiredCandidates : List (H × List H))
    (outcome : H → PeerOutcome H) (order : List H) : FiniteMap H (Finset H) :=
  if expiredCandidates = [] then ∅
  else
    let keys := (expiredCandidates.filter fun candidate => candidate.2 ≠ []).map Prod.fst
    let evidence :=
      runVerificationRound keys (paidPruneTargets expiredCandidates) outcome order
    paidConfirmationsByKey expiredCandidates evidence

/-- The body of the loop of `revalidated_paid_prune_keys`. -/
def revalidatedPaidPruneKey (ctx : PrunePassContext H) (key : H)
    (confirmedByKey : FiniteMap H (Finset H)) (now : Nat) (world : PruneWorld H) :
    Bool × PruneWorld H :=
  let closest :=
    world.routing.findClosestNodesLocalWithSelf key ctx.config.paidListCloseGroupSize
  if ctx.selfId ∈ closest then (false, world.clearPaidOutOfRange key)
  else
    match world.paidList.paidOutOfRange.lookup key with
    | none => (false, world)
    | some firstSeen =>
        let elapsed := now - firstSeen
        if elapsed < ctx.config.pruneHysteresisDuration then (false, world)
        else
          let currentTargetPeers := remoteCloseGroupPeers closest ctx.selfId
          if currentTargetPeers = [] then (false, world)
          else
            let confirmationsNeeded := paidPruneConfirmationsNeeded currentTargetPeers.length
            (targetPeersReportedPresent key currentTargetPeers confirmedByKey confirmationsNeeded,
              world)

def removeBatch (world : PruneWorld H) (keys : List H) : PruneWorld H :=
  let removed := keys.filter fun key => key ∈ world.paidList.keys
  { world with
    paidList :=
      { keys := world.paidList.keys \ removed.toFinset
        recordOutOfRange :=
          removed.foldl (fun m key => m.erase key) world.paidList.recordOutOfRange
        paidOutOfRange := removed.foldl (fun m key => m.erase key) world.paidList.paidOutOfRange } }

/-! ### A pass over the paid list -/

inductive PaidPrunePhase (H : Type) where
  | selecting (remaining : List H)
  | revalidating (remaining : List (H × List H))
  | removed

structure PaidPrunePass (H : Type) where
  world : PruneWorld H
  phase : PaidPrunePhase H
  startedAt : Nat
  expiredCandidates : List (H × List H)
  selectedVerificationPeers : Finset H
  confirmedByKey : FiniteMap H (Finset H)
  revalidatedAt : Nat
  keysToDelete : List H

inductive PaidPruneEvent (H : Type) where
  | elsewhere (world : PruneWorld H)
  | evaluate
  | verify (outcome : H → PeerOutcome H) (order : List H)
  | revalidate
  | remove (accepted : Bool)

namespace PaidPrunePass

def start (paidKeys : List H) (scanStart : Nat) (world : PruneWorld H) : PaidPrunePass H where
  world := world
  phase := .selecting (paidKeys.rotate scanStart)
  startedAt := world.now
  expiredCandidates := []
  selectedVerificationPeers := ∅
  confirmedByKey := ∅
  revalidatedAt := world.now
  keysToDelete := []

def evaluate (ctx : PrunePassContext H) (pass : PaidPrunePass H) (key : H) (rest : List H) :
    PaidPrunePass H :=
  let (state, selectedVerificationPeers, world) :=
    evaluatePaidPruneKey ctx key pass.startedAt pass.expiredCandidates.length
      pass.selectedVerificationPeers pass.world
  { pass with
    world := world
    phase := .selecting rest
    selectedVerificationPeers := selectedVerificationPeers
    expiredCandidates :=
      match state with
      | .candidate targetPeers => pass.expiredCandidates ++ [(key, targetPeers)]
      | _ => pass.expiredCandidates }

def revalidate (ctx : PrunePassContext H) (pass : PaidPrunePass H) (key : H)
    (rest : List (H × List H)) : PaidPrunePass H :=
  let (confirmed, world) :=
    revalidatedPaidPruneKey ctx key pass.confirmedByKey pass.revalidatedAt pass.world
  { pass with
    world := world
    phase := .revalidating rest
    keysToDelete := if confirmed then pass.keysToDelete ++ [key] else pass.keysToDelete }

def step (ctx : PrunePassContext H) (pass : PaidPrunePass H) :
    PaidPruneEvent H → Option (PaidPrunePass H)
  | .elsewhere world => some { pass with world := world }
  | .evaluate =>
      match pass.phase with
      | .selecting (key :: rest) => some (pass.evaluate ctx key rest)
      | _ => none
  | .verify outcome order =>
      match pass.phase with
      | .selecting [] =>
          some { pass with
            phase := .revalidating pass.expiredCandidates
            confirmedByKey := collectPaidPruneConfirmations pass.expiredCandidates outcome order
            revalidatedAt := pass.world.now }
      | _ => none
  | .revalidate =>
      match pass.phase with
      | .revalidating ((key, _) :: rest) => some (pass.revalidate ctx key rest)
      | _ => none
  | .remove accepted =>
      match pass.phase with
      | .revalidating [] =>
          some { pass with
            phase := .removed
            world := if accepted then removeBatch pass.world pass.keysToDelete else pass.world }
      | _ => none

end PaidPrunePass

end AntNode
