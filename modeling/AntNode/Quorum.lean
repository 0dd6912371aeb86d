import AntNode.Digest
import AntNode.Lib.FiniteMap
import AntNode.Lib.Vote

/-!
# Quorum verification

One round of requests asks the peers around a batch of keys whether they hold each key and whether
they have it on their paid list, and collects the answers by key and peer. The evidence for a key
then decides its outcome: enough credited holders, enough paid-list confirmations, neither
reachable any more, or still open.

The routing table is a parameter, and so is what each peer answers. `all_peers`, which nothing
reads, and the logging are left out.
-/

namespace AntNode

open Voting

structure ReplicationConfig where
  closeGroupSize : Nat
  quorumThreshold : Nat
  paidListCloseGroupSize : Nat
  pruneHysteresisDuration : Nat
  deriving DecidableEq

namespace ReplicationConfig

def quorumNeeded (config : ReplicationConfig) (quorumTargetsCount : Nat) : Nat :=
  if quorumTargetsCount = 0 then 0
  else
    let majority := quorumTargetsCount / 2 + 1
    min config.quorumThreshold majority

def confirmNeeded (paidGroupSize : Nat) : Nat := paidGroupSize / 2 + 1

end ReplicationConfig

def storageAdmissionMargin : Nat := 2

def storageAdmissionWidth (closeGroupSize : Nat) : Nat := closeGroupSize + storageAdmissionMargin

inductive PresenceEvidence where
  | present
  | absent
  | unresolved
  deriving DecidableEq

inductive PaidListEvidence where
  | confirmed
  | notFound
  | unresolved
  deriving DecidableEq

structure KeyVerificationEvidence (H : Type) where
  presence : FiniteMap H PresenceEvidence
  paidList : FiniteMap H PaidListEvidence

variable {H : Type} [Digest H]

/-! ### Targets -/

structure VerificationTargets (H : Type) where
  quorumTargets : FiniteMap H (List H)
  paidTargets : FiniteMap H (List H)
  paidGroupSizes : FiniteMap H Nat
  peerToKeys : FiniteMap H (List H)
  peerToPaidKeys : FiniteMap H (Finset H)

/-- The queries of the local routing table: the closest peers to a key, without and with this
node. -/
structure RoutingTable (H : Type) where
  findClosestNodesLocal : H → Nat → List H
  findClosestNodesLocalWithSelf : H → Nat → List H

namespace VerificationTargets

def empty : VerificationTargets H := ⟨∅, ∅, ∅, ∅, ∅⟩

def quorumPeers (targets : VerificationTargets H) (key : H) : List H :=
  (targets.quorumTargets.lookup key).getD []

def paidPeers (targets : VerificationTargets H) (key : H) : List H :=
  (targets.paidTargets.lookup key).getD []

def paidGroupSize (targets : VerificationTargets H) (key : H) : Nat :=
  (targets.paidGroupSizes.lookup key).getD (targets.paidPeers key).length

def asksPaid (targets : VerificationTargets H) (peer key : H) : Bool :=
  match targets.peerToPaidKeys.lookup peer with
  | none => false
  | some paidKeys => decide (key ∈ paidKeys)

def askKey (targets : VerificationTargets H) (key peer : H) : VerificationTargets H :=
  { targets with
    peerToKeys :=
      targets.peerToKeys.insert peer ((targets.peerToKeys.lookup peer).getD [] ++ [key]) }

def askPaidKey (targets : VerificationTargets H) (key peer : H) : VerificationTargets H :=
  { targets with
    peerToPaidKeys :=
      targets.peerToPaidKeys.insert peer
        (insert key ((targets.peerToPaidKeys.lookup peer).getD ∅)) }

/-- `sort_unstable` and `dedup` on the keys of every peer. -/
def dedupKeys (targets : VerificationTargets H) : VerificationTargets H :=
  { targets with
    peerToKeys :=
      FiniteMap.mapValues (fun keys => (keys.insertionSort (· ≤ ·)).dedup) targets.peerToKeys }

end VerificationTargets

def addQuorumTargets (table : RoutingTable H) (config : ReplicationConfig) (selfId : H)
    (targets : VerificationTargets H) (key : H) : VerificationTargets H :=
  let closest := table.findClosestNodesLocal key config.closeGroupSize
  let quorumPeers := closest.filter fun peer => decide (peer ≠ selfId)
  let targets := quorumPeers.foldl (fun targets peer => targets.askKey key peer) targets
  { targets with quorumTargets := targets.quorumTargets.insert key quorumPeers }

def addPaidTargets (table : RoutingTable H) (config : ReplicationConfig) (selfId : H)
    (targets : VerificationTargets H) (key : H) : VerificationTargets H :=
  let paidClosest := table.findClosestNodesLocalWithSelf key config.paidListCloseGroupSize
  let paidPeers := paidClosest.filter fun peer => decide (peer ≠ selfId)
  let targets := paidPeers.foldl
    (fun targets peer => (targets.askKey key peer).askPaidKey key peer) targets
  { targets with
    paidTargets := targets.paidTargets.insert key paidPeers
    paidGroupSizes := targets.paidGroupSizes.insert key paidClosest.length }

def computeVerificationTargets (keys : List H) (table : RoutingTable H)
    (config : ReplicationConfig) (selfId : H) : VerificationTargets H :=
  (keys.foldl
    (fun targets key =>
      addPaidTargets table config selfId (addQuorumTargets table config selfId targets key) key)
    .empty).dedupKeys

def computePresenceTargets (keys : List H) (table : RoutingTable H) (config : ReplicationConfig)
    (selfId : H) : VerificationTargets H :=
  (keys.foldl (addQuorumTargets table config selfId) .empty).dedupKeys

/-! ### The outcome for a key -/

inductive KeyVerificationOutcome (H : Type) where
  | quorumVerified (sources : List H)
  | paidListVerified (sources : List H)
  | quorumFailed
  | quorumInconclusive
  deriving DecidableEq

/-- How a quorum target counts: a claim of a peer that is not credited with the key is still open.
-/
def presenceVote (evidence : KeyVerificationEvidence H) (holderCredit : H → H → Bool)
    (key peer : H) : Vote :=
  match evidence.presence.lookup peer with
  | some .present => if holderCredit peer key then .yes else .undecided
  | some .absent => .no
  | some .unresolved => .undecided
  | none => .undecided

def paidVote (evidence : KeyVerificationEvidence H) (peer : H) : Vote :=
  match evidence.paidList.lookup peer with
  | some .confirmed => .yes
  | some .notFound => .no
  | some .unresolved => .undecided
  | none => .undecided

def addPresentSource (evidence : KeyVerificationEvidence H) (presentPeers : List H) (peer : H) :
    List H :=
  if evidence.presence.lookup peer = some .present ∧ peer ∉ presentPeers then presentPeers ++ [peer]
  else presentPeers

/-- The set of the peers already seen is the list of those collected so far. -/
def collectPresentSources (evidence : KeyVerificationEvidence H) (quorumPeers paidPeers : List H) :
    List H :=
  (quorumPeers ++ paidPeers).foldl (addPresentSource evidence) []

def presentSourcesForKey (key : H) (evidence : KeyVerificationEvidence H)
    (targets : VerificationTargets H) : List H :=
  collectPresentSources evidence (targets.quorumPeers key) (targets.paidPeers key)

def evaluateKeyEvidenceWithHolderCheck (key : H) (evidence : KeyVerificationEvidence H)
    (targets : VerificationTargets H) (config : ReplicationConfig) (holderCredit : H → H → Bool) :
    KeyVerificationOutcome H :=
  let quorumPeers := targets.quorumPeers key
  let presence := tally (presenceVote evidence holderCredit key) quorumPeers
  let paidPeers := targets.paidPeers key
  let presentPeers := collectPresentSources evidence quorumPeers paidPeers
  let paid := tally (paidVote evidence) paidPeers
  let quorumNeeded := config.quorumNeeded quorumPeers.length
  let paidGroupSize := targets.paidGroupSize key
  let confirmNeeded := ReplicationConfig.confirmNeeded paidGroupSize
  if quorumNeeded > 0 ∧ presence.yes ≥ quorumNeeded then .quorumVerified presentPeers
  else if paidGroupSize > 0 ∧ paid.yes ≥ confirmNeeded then .paidListVerified presentPeers
  else
    let paidPossible := paidGroupSize > 0 ∧ paid.yes + paid.undecided ≥ confirmNeeded
    let quorumPossible := quorumNeeded > 0 ∧ presence.yes + presence.undecided ≥ quorumNeeded
    if ¬paidPossible ∧ ¬quorumPossible then .quorumFailed else .quorumInconclusive

def evaluateKeyEvidence (key : H) (evidence : KeyVerificationEvidence H)
    (targets : VerificationTargets H) (config : ReplicationConfig) : KeyVerificationOutcome H :=
  evaluateKeyEvidenceWithHolderCheck key evidence targets config fun _ _ => true

/-! ### One round of requests -/

structure KeyVerificationResult (H : Type) where
  key : H
  present : Bool
  paid : Option Bool
  deriving DecidableEq

structure VerificationResponse (H : Type) where
  results : List (KeyVerificationResult H)
  deriving DecidableEq

/-- How a request to a peer ends. A request that could not be encoded or sent, that timed out or
whose answer did not decode has `failed`; `otherMessage` is an answer of another kind, `panicked`
a task that gave none. -/
inductive PeerOutcome (H : Type) where
  | response (response : VerificationResponse H)
  | failed
  | otherMessage
  | panicked
  deriving DecidableEq

abbrev EvidenceMap (H : Type) := FiniteMap H (KeyVerificationEvidence H)

def KeyVerificationEvidence.empty : KeyVerificationEvidence H := ⟨∅, ∅⟩

def markKeyUnresolved (targets : VerificationTargets H) (peer : H) (evidence : EvidenceMap H)
    (key : H) : EvidenceMap H :=
  FiniteMap.modify evidence key fun ev =>
    { presence := ev.presence.insert peer .unresolved
      paidList :=
        if targets.asksPaid peer key then ev.paidList.insert peer .unresolved else ev.paidList }

def markPeerUnresolved (peer : H) (targets : VerificationTargets H) (evidence : EvidenceMap H) :
    EvidenceMap H :=
  match targets.peerToKeys.lookup peer with
  | none => evidence
  | some peerKeys => peerKeys.foldl (markKeyUnresolved targets peer) evidence

def recordResult (peer : H) (peerKeys : List H) (evidence : EvidenceMap H)
    (result : KeyVerificationResult H) : EvidenceMap H :=
  if result.key ∉ peerKeys then evidence
  else
    FiniteMap.modify evidence result.key fun ev =>
      { presence := ev.presence.insert peer (if result.present then .present else .absent)
        paidList :=
          match result.paid with
          | none => ev.paidList
          | some isPaid => ev.paidList.insert peer (if isPaid then .confirmed else .notFound) }

def recordOmitted (targets : VerificationTargets H) (peer : H) (evidence : EvidenceMap H)
    (key : H) : EvidenceMap H :=
  FiniteMap.modify evidence key fun ev =>
    { presence := FiniteMap.orInsert ev.presence peer .unresolved
      paidList :=
        if targets.asksPaid peer key then FiniteMap.orInsert ev.paidList peer .unresolved
        else ev.paidList }

def processVerificationResponse (peer : H) (response : VerificationResponse H)
    (targets : VerificationTargets H) (evidence : EvidenceMap H) : EvidenceMap H :=
  match targets.peerToKeys.lookup peer with
  | none => evidence
  | some peerKeys =>
      let maxResults := peerKeys.length * 2
      let results := response.results.take maxResults
      let evidence := results.foldl (recordResult peer peerKeys) evidence
      peerKeys.foldl (recordOmitted targets peer) evidence

def collectOutcome (targets : VerificationTargets H) (outcome : H → PeerOutcome H)
    (evidence : EvidenceMap H) (peer : H) : EvidenceMap H :=
  match outcome peer with
  | .panicked => evidence
  | .failed => markPeerUnresolved peer targets evidence
  | .response response => processVerificationResponse peer response targets evidence
  | .otherMessage => evidence

def initialEvidence (keys : List H) : EvidenceMap H :=
  keys.foldl (fun evidence key => evidence.insert key .empty) ∅

/-- A round in which the peers of `order` were asked and their tasks awaited in that order. -/
def runVerificationRound (keys : List H) (targets : VerificationTargets H)
    (outcome : H → PeerOutcome H) (order : List H) : EvidenceMap H :=
  order.foldl (collectOutcome targets outcome) (initialEvidence keys)

end AntNode
