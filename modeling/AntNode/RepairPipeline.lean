import AntNode.Quorum
import AntNode.RecentProvers
import AntNode.ReplicationQueues

/-!
# The repair pipeline

Hints put keys into the queue of pending verifications. A verification cycle takes them up: what is
on the local paid list needs only a holder to fetch from, the rest has to be verified by the
network, and a key of the paid-only pipeline is fetched only where this node is to store it and does
not. What a cycle authorises it puts into the fetch queue; the fetch worker takes it from there,
asks a source for the bytes and stores them.

The queue lock, the paid list and the store are taken and given back many times in a cycle. Here a
cycle is its sequence of steps, one iteration of each loop that reads the paid list, the store or
the routing table, and between any two steps hints arrive, fetches go on and the rest of the node
changes anything but the queues. Reads of the paid list and of the store may fail, and count as
"not there" then. Trust reports, logging and the bootstrap bookkeeping after a cycle are left out.
-/

namespace AntNode

def pendingVerifyMaxAge : Nat := 30 * 60 * 1000000000

structure RepairContext (H : Type) where
  selfId : H
  config : ReplicationConfig
  maxChunkSize : Nat
  maxParallelFetch : Nat
  xorDistance : H → H → H

/-- What the pipeline shares with the rest of the node. -/
structure RepairWorld (H : Type) where
  now : Nat
  paidList : Finset H
  storage : FiniteMap H Bytes
  routing : RoutingTable H
  commitmentByPeer : FiniteMap H H
  everCapablePeers : Finset H
  recentProvers : RecentProvers H

variable {H : Type} [Digest H]

namespace RepairWorld

/-- `paid_list.contains(key).unwrap_or(false)` -/
def paidListContains (world : RepairWorld H) (key : H) (fails : Bool) : Bool :=
  if fails then false else decide (key ∈ world.paidList)

/-- `storage.exists(key).unwrap_or(false)` -/
def storageExists (world : RepairWorld H) (key : H) (fails : Bool) : Bool :=
  if fails then false else decide (key ∈ world.storage)

def isResponsible (world : RepairWorld H) (selfId key : H) (responsibilityWidth : Nat) : Bool :=
  decide (selfId ∈ world.routing.findClosestNodesLocalWithSelf key responsibilityWidth)

/-- A put that the store accepts; an address that does not match the content is an error. -/
def put (world : RepairWorld H) (address : H) (content : Bytes) (accepted : Bool) :
    Option (RepairWorld H) :=
  if blake3 content ≠ address then none
  else if !accepted then none
  else if address ∈ world.storage then some world
  else some { world with storage := world.storage.insert address content }

end RepairWorld

/-! ### Holder credit -/

structure HolderSnapshot (H : Type) where
  commitmentByPeer : FiniteMap H H
  capablePeers : Finset H
  provers : RecentProvers H
  locallyHeld : Finset H

def holderCredit (snapshot : HolderSnapshot H) (now : Nat) (peer key : H) : Bool :=
  if key ∉ snapshot.locallyHeld then true
  else if peer ∉ snapshot.capablePeers then true
  else
    match snapshot.commitmentByPeer.lookup peer with
    | none => false
    | some hash => snapshot.provers.isCreditedHolder key peer hash now

/-! ### A verification cycle -/

structure EvaluatedKey (H : Type) where
  key : H
  outcome : KeyVerificationOutcome H
  pipeline : HintPipeline

def KeyVerificationOutcome.verifiedSources : KeyVerificationOutcome H → Option (List H)
  | .quorumVerified sources => some sources
  | .paidListVerified sources => some sources
  | .quorumFailed => none
  | .quorumInconclusive => none

/-- Where a cycle is. The lists are the iterations its current loop has still to make. -/
inductive CyclePhase (H : Type) where
  | idle
  | classifying (remaining : List H)
  | checkingPaidOnly (remaining : List H)
  | removingPaidOnly
  | probing
  | promotingProbed (remaining : List H)
  | verifying
  | snapshotting
  | evaluating
  | insertingPaid
  | checkingFetch (remaining : List (EvaluatedKey H))
  | updating (remaining : List (EvaluatedKey H))

/-- The variables of a cycle. -/
structure VerificationCycle (H : Type) where
  number : Nat
  phase : CyclePhase H
  localPaidPresenceProbeKeys : List H
  localPaidPaidOnlyKeys : List H
  terminalPaidOnly : List H
  keysNeedingNetwork : List H
  targets : VerificationTargets H
  evidence : EvidenceMap H
  holders : HolderSnapshot H
  evaluated : List (EvaluatedKey H)
  paidOnlyFetchKeys : Finset H

namespace VerificationCycle

def idle (number : Nat) : VerificationCycle H where
  number := number
  phase := .idle
  localPaidPresenceProbeKeys := []
  localPaidPaidOnlyKeys := []
  terminalPaidOnly := []
  keysNeedingNetwork := []
  targets := .empty
  evidence := ∅
  holders := ⟨∅, ∅, .new, ∅⟩
  evaluated := []
  paidOnlyFetchKeys := ∅

/-- The phase after the local part of a cycle. -/
def networkPhase (cycle : VerificationCycle H) : CyclePhase H :=
  if cycle.keysNeedingNetwork = [] then .idle else .verifying

end VerificationCycle

/-! ### A fetch -/

inductive FetchReply (H : Type) where
  | noMessage
  | success (key : H) (data : Bytes)
  | notFound
  | error
  | otherMessage
  deriving DecidableEq

inductive FetchResult where
  | stored
  | integrityFailed
  | sourceFailed
  deriving DecidableEq

def executeSingleFetch (ctx : RepairContext H) (world : RepairWorld H) (key : H)
    (reply : FetchReply H) (accepted : Bool) : FetchResult × RepairWorld H :=
  match reply with
  | .success respKey data =>
      if respKey ≠ key then (.integrityFailed, world)
      else if data.length > ctx.maxChunkSize then (.integrityFailed, world)
      else if blake3 data ≠ respKey then (.integrityFailed, world)
      else
        match world.put respKey data accepted with
        | none => (.sourceFailed, world)
        | some world => (.stored, world)
  | .notFound => (.sourceFailed, world)
  | .error => (.sourceFailed, world)
  | .otherMessage => (.sourceFailed, world)
  | .noMessage => (.sourceFailed, world)

/-! ### The pipeline -/

/-- `fetching` are the fetches under way, with their sources; `fetched` those whose result the worker
has not taken yet, a result missing where the task panicked. -/
structure RepairState (H : Type) where
  world : RepairWorld H
  queues : ReplicationQueues H
  cycle : VerificationCycle H
  fetching : List (H × H)
  fetched : List (H × Option FetchResult)

inductive RepairEvent (H : Type) where
  | elsewhere (world : RepairWorld H)
  | hint (key : H) (entry : VerificationEntry H)
  | beginCycle
  | classify (readFails : Bool)
  | checkPaidOnly (readFails : Bool)
  | removePaidOnly
  | probe (outcome : H → PeerOutcome H) (order : List H)
  | promoteProbed (readFails : Bool)
  | verify (outcome : H → PeerOutcome H) (order : List H)
  | snapshot (readFails : H → Bool)
  | evaluate
  | insertPaid (accepted : H → Bool)
  | checkFetch (readFails : Bool)
  | update
  | endLoop
  | dequeue
  | execute (key source : H) (reply : FetchReply H) (accepted : Bool)
  | panic (key source : H)
  | finish (key : H) (result : Option FetchResult)

namespace RepairState

variable (ctx : RepairContext H) (s : RepairState H)

def start (world : RepairWorld H) : RepairState H := ⟨world, .new, .idle 0, [], []⟩

/-- Evict what is stale, and take up everything that is pending then. -/
def beginCycle : RepairState H :=
  let queues := s.queues.evictStale pendingVerifyMaxAge s.world.now
  let pendingKeys := queues.pendingVerify.keys
  { s with
    queues := queues
    cycle := { VerificationCycle.idle (s.cycle.number + 1) with phase := .classifying pendingKeys } }

def classify (key : H) (rest : List H) (readFails : Bool) : RepairState H :=
  if s.world.paidListContains key readFails then
    let (pipeline, queues) := s.queues.setPendingState key .paidListVerified
    match pipeline with
    | some .paidOnly =>
        { s with
          queues := queues
          cycle.phase := .classifying rest
          cycle.localPaidPaidOnlyKeys := s.cycle.localPaidPaidOnlyKeys ++ [key] }
    | some .replica =>
        { s with
          queues := queues
          cycle.phase := .classifying rest
          cycle.localPaidPresenceProbeKeys := s.cycle.localPaidPresenceProbeKeys ++ [key] }
    | none =>
        { s with
          queues := queues
          cycle.phase := .classifying rest }
  else
    { s with
      cycle.phase := .classifying rest
      cycle.keysNeedingNetwork := s.cycle.keysNeedingNetwork ++ [key] }

def checkPaidOnly (key : H) (rest : List H) (readFails : Bool) : RepairState H :=
  if s.world.storageExists key readFails then
    { s with
      cycle.phase := .checkingPaidOnly rest
      cycle.terminalPaidOnly := s.cycle.terminalPaidOnly ++ [key] }
  else if s.world.isResponsible ctx.selfId key (storageAdmissionWidth ctx.config.closeGroupSize) then
    { s with
      cycle.phase := .checkingPaidOnly rest
      cycle.localPaidPresenceProbeKeys := s.cycle.localPaidPresenceProbeKeys ++ [key] }
  else
    { s with
      cycle.phase := .checkingPaidOnly rest
      cycle.terminalPaidOnly := s.cycle.terminalPaidOnly ++ [key] }

def removePaidOnly : RepairState H :=
  { s with
    queues := s.cycle.terminalPaidOnly.foldl (fun q key => (q.removePending key).2) s.queues
    cycle.phase := .probing }

def probe (outcome : H → PeerOutcome H) (order : List H) : RepairState H :=
  let keys := s.cycle.localPaidPresenceProbeKeys
  let targets := computePresenceTargets keys s.world.routing ctx.config ctx.selfId
  { s with
    cycle.phase := .promotingProbed keys
    cycle.targets := targets
    cycle.evidence := runVerificationRound keys targets outcome order }

def promoteProbed (key : H) (rest : List H) (readFails : Bool) : RepairState H :=
  if s.world.storageExists key readFails then
    { s with
      queues := (s.queues.removePending key).2
      cycle.phase := .promotingProbed rest }
  else
    let sources :=
      match s.cycle.evidence.lookup key with
      | none => []
      | some ev => presentSourcesForKey key ev s.cycle.targets
    if sources = [] then
      { s with
        queues := (s.queues.removePending key).2
        cycle.phase := .promotingProbed rest }
    else
      let distance := ctx.xorDistance key ctx.selfId
      { s with
        queues := (s.queues.promotePendingToFetch key distance sources).2
        cycle.phase := .promotingProbed rest }

def verify (outcome : H → PeerOutcome H) (order : List H) : RepairState H :=
  let keys := s.cycle.keysNeedingNetwork
  let targets := computeVerificationTargets keys s.world.routing ctx.config ctx.selfId
  { s with
    cycle.phase := .snapshotting
    cycle.targets := targets
    cycle.evidence := runVerificationRound keys targets outcome order }

def snapshot (readFails : H → Bool) : RepairState H :=
  let locallyHeld :=
    (s.cycle.keysNeedingNetwork.filter fun key => s.world.storageExists key (readFails key)).toFinset
  { s with
    cycle.phase := .evaluating
    cycle.holders :=
      ⟨s.world.commitmentByPeer, s.world.everCapablePeers, s.world.recentProvers, locallyHeld⟩ }

def evaluateKey (key : H) : Option (EvaluatedKey H) :=
  match s.cycle.evidence.lookup key with
  | none => none
  | some ev =>
      match s.queues.pendingVerify.lookup key with
      | none => none
      | some entry =>
          let outcome := evaluateKeyEvidenceWithHolderCheck key ev s.cycle.targets ctx.config
            (holderCredit s.cycle.holders s.world.now)
          some ⟨key, outcome, entry.pipeline⟩

def evaluate : RepairState H :=
  { s with
    cycle.phase := .insertingPaid
    cycle.evaluated := s.cycle.keysNeedingNetwork.filterMap (s.evaluateKey ctx) }

def insertPaid (accepted : H → Bool) : RepairState H :=
  let verified := s.cycle.evaluated.filter fun evaluated =>
    evaluated.outcome.verifiedSources.isSome && accepted evaluated.key
  { s with
    world.paidList := s.world.paidList ∪ (verified.map EvaluatedKey.key).toFinset
    cycle.phase := .checkingFetch s.cycle.evaluated
    cycle.paidOnlyFetchKeys := ∅ }

def checkFetch (evaluated : EvaluatedKey H) (rest : List (EvaluatedKey H)) (readFails : Bool) :
    RepairState H :=
  if evaluated.pipeline = .paidOnly ∧ evaluated.outcome.verifiedSources.isSome ∧
      s.world.storageExists evaluated.key readFails = false ∧
      s.world.isResponsible ctx.selfId evaluated.key
        (storageAdmissionWidth ctx.config.closeGroupSize) then
    { s with
      cycle.phase := .checkingFetch rest
      cycle.paidOnlyFetchKeys := insert evaluated.key s.cycle.paidOnlyFetchKeys }
  else { s with cycle.phase := .checkingFetch rest }

def update (evaluated : EvaluatedKey H) (rest : List (EvaluatedKey H)) : RepairState H :=
  let fetchEligible :=
    decide (evaluated.pipeline = .replica ∨ evaluated.key ∈ s.cycle.paidOnlyFetchKeys)
  match evaluated.outcome.verifiedSources with
  | some (source :: sources) =>
      if fetchEligible then
        let distance := ctx.xorDistance evaluated.key ctx.selfId
        { s with
          queues :=
            (s.queues.promotePendingToFetch evaluated.key distance (source :: sources)).2
          cycle.phase := .updating rest }
      else
        { s with
          queues := (s.queues.removePending evaluated.key).2
          cycle.phase := .updating rest }
  | _ =>
      { s with
        queues := (s.queues.removePending evaluated.key).2
        cycle.phase := .updating rest }

/-- Go on from a loop that has made all its iterations, or that has none to make. -/
def endLoop : Option (CyclePhase H) :=
  match s.cycle.phase with
  | .classifying [] => some (.checkingPaidOnly s.cycle.localPaidPaidOnlyKeys)
  | .checkingPaidOnly [] => some .removingPaidOnly
  | .probing => if s.cycle.localPaidPresenceProbeKeys = [] then some s.cycle.networkPhase else none
  | .promotingProbed [] => some s.cycle.networkPhase
  | .checkingFetch [] => some (.updating s.cycle.evaluated)
  | .updating [] => some .idle
  | _ => none

/-- One turn of the worker's loop that fills its slots. -/
def dequeue : RepairState H :=
  let (candidate, queues) := s.queues.dequeueFetch
  match candidate with
  | none => { s with queues := queues }
  | some candidate =>
      match candidate.sources with
      | [] => { s with queues := queues }
      | source :: _ =>
          { s with
            queues := queues.startFetch candidate.key source candidate.sources s.world.now
            fetching := s.fetching ++ [(candidate.key, source)] }

def finish (key : H) (result : Option FetchResult) : RepairState H :=
  let fetched := s.fetched.erase (key, result)
  match result with
  | some .integrityFailed | some .sourceFailed =>
      let (next, queues) := s.queues.retryFetch key
      match next with
      | some nextPeer =>
          { s with
            queues := queues
            fetched := fetched
            fetching := s.fetching ++ [(key, nextPeer)] }
      | none => { s with queues := (queues.completeFetch key).2, fetched := fetched }
  | _ => { s with queues := (s.queues.completeFetch key).2, fetched := fetched }

def step (s : RepairState H) : RepairEvent H → Option (RepairState H)
  | .elsewhere world => some { s with world := world }
  | .hint key entry => some { s with queues := (s.queues.addPendingVerify key entry).2 }
  | .beginCycle =>
      match s.cycle.phase with
      | .idle => some s.beginCycle
      | _ => none
  | .classify readFails =>
      match s.cycle.phase with
      | .classifying (key :: rest) => some (s.classify key rest readFails)
      | _ => none
  | .checkPaidOnly readFails =>
      match s.cycle.phase with
      | .checkingPaidOnly (key :: rest) => some (s.checkPaidOnly ctx key rest readFails)
      | _ => none
  | .removePaidOnly =>
      match s.cycle.phase with
      | .removingPaidOnly => some s.removePaidOnly
      | _ => none
  | .probe outcome order =>
      match s.cycle.phase with
      | .probing =>
          if s.cycle.localPaidPresenceProbeKeys = [] then none else some (s.probe ctx outcome order)
      | _ => none
  | .promoteProbed readFails =>
      match s.cycle.phase with
      | .promotingProbed (key :: rest) => some (s.promoteProbed ctx key rest readFails)
      | _ => none
  | .verify outcome order =>
      match s.cycle.phase with
      | .verifying => some (s.verify ctx outcome order)
      | _ => none
  | .snapshot readFails =>
      match s.cycle.phase with
      | .snapshotting => some (s.snapshot readFails)
      | _ => none
  | .evaluate =>
      match s.cycle.phase with
      | .evaluating => some (s.evaluate ctx)
      | _ => none
  | .insertPaid accepted =>
      match s.cycle.phase with
      | .insertingPaid => some (s.insertPaid accepted)
      | _ => none
  | .checkFetch readFails =>
      match s.cycle.phase with
      | .checkingFetch (evaluated :: rest) => some (s.checkFetch ctx evaluated rest readFails)
      | _ => none
  | .update =>
      match s.cycle.phase with
      | .updating (evaluated :: rest) => some (s.update ctx evaluated rest)
      | _ => none
  | .endLoop => s.endLoop.map fun phase => { s with cycle.phase := phase }
  | .dequeue =>
      if s.fetching.length + s.fetched.length < ctx.maxParallelFetch then some s.dequeue else none
  | .execute key source reply accepted =>
      if (key, source) ∈ s.fetching then
        let (result, world) := executeSingleFetch ctx s.world key reply accepted
        some { s with
          world := world
          fetching := s.fetching.erase (key, source)
          fetched := s.fetched ++ [(key, some result)] }
      else none
  | .panic key source =>
      if (key, source) ∈ s.fetching then
        some { s with
          fetching := s.fetching.erase (key, source)
          fetched := s.fetched ++ [(key, none)] }
      else none
  | .finish key result =>
      if (key, result) ∈ s.fetched then some (s.finish key result) else none

end RepairState

end AntNode
