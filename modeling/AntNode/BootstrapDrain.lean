import AntNode.RepairPipeline

/-!
# When bootstrap is drained

A joining node asks each neighbor of a snapshot for hints, queues what it is to have of them and
counts as bootstrapping until all of that has left the queues. Whether it has is asked in three
places: by the bootstrap task once it is through with its neighbors, by the verification worker
after a cycle and by the fetch worker after a fetch. Meanwhile the neighbor-sync handlers queue hints
of their own and have them tracked as well.

The queues and the bootstrap state have a lock each. A step of `BootstrapNode` is what one task does
under one of them, or one step of the repair pipeline; a check holds both locks. The hints are those
that `admit_hints` let through, and `held` is what the store said of each when it was queued. What a
shutdown does to anything but the bootstrap task is left out: the others take no further step.
-/

namespace AntNode

variable {H : Type} [Digest H]

/-! ### The bootstrap state -/

structure BootstrapState (H : Type) where
  drained : Bool
  pendingPeerRequests : Nat
  pendingKeys : Finset H
  capacityRejectedSources : Finset H

namespace BootstrapState

def new : BootstrapState H := ⟨false, 0, ∅, ∅⟩

variable (state : BootstrapState H)

def removeKey (key : H) : BootstrapState H :=
  { state with pendingKeys := state.pendingKeys.erase key }

def markBootstrapDrained : BootstrapState H := { state with drained := true }

def incrementPendingRequests (count : Nat) : BootstrapState H :=
  { state with pendingPeerRequests := state.pendingPeerRequests + count }

def decrementPendingRequests (count : Nat) : BootstrapState H :=
  { state with pendingPeerRequests := state.pendingPeerRequests - count }

def trackDiscoveredKeys (keys : Finset H) : BootstrapState H :=
  { state with pendingKeys := state.pendingKeys ∪ keys }

def noteCapacityRejected (source : H) : BootstrapState H :=
  { state with capacityRejectedSources := insert source state.capacityRejectedSources }

def clearCapacityRejected (source : H) : BootstrapState H :=
  { state with capacityRejectedSources := state.capacityRejectedSources.erase source }

end BootstrapState

def ReplicationQueues.isBootstrapWorkEmpty (q : ReplicationQueues H) (bootstrapKeys : Finset H) :
    Bool :=
  decide (∀ key ∈ bootstrapKeys, q.containsKey key = false)

def checkBootstrapDrained (state : BootstrapState H) (queues : ReplicationQueues H) :
    Bool × BootstrapState H :=
  if state.drained then (true, state)
  else if state.pendingPeerRequests > 0 then (false, state)
  else if state.capacityRejectedSources ≠ ∅ then (false, state)
  else if queues.isBootstrapWorkEmpty state.pendingKeys then (true, { state with drained := true })
  else (false, state)

/-! ### Admission -/

structure AdmittedHints (H : Type) where
  replicaKeys : List H
  paidOnlyKeys : List H

structure AdmissionOutcome (H : Type) where
  discovered : Finset H
  capacityRejectedCount : Nat

def queueHint (source : H) (now : Nat) (pipeline : HintPipeline)
    (queued : ReplicationQueues H × AdmissionOutcome H) (key : H) :
    ReplicationQueues H × AdmissionOutcome H :=
  let (q, outcome) := queued
  match q.addPendingVerify key ⟨.pendingVerify, pipeline, [], ∅, now, source⟩ with
  | (.admitted, q) => (q, { outcome with discovered := insert key outcome.discovered })
  | (.alreadyPresent, q) => (q, outcome)
  | (.capacityRejected, q) =>
      (q, { outcome with capacityRejectedCount := outcome.capacityRejectedCount + 1 })

def admitAndQueueHints (q : ReplicationQueues H) (source : H) (now : Nat) (hints : AdmittedHints H)
    (held : H → Bool) : ReplicationQueues H × AdmissionOutcome H :=
  hints.paidOnlyKeys.foldl (queueHint source now .paidOnly)
    ((hints.replicaKeys.filter fun key => !held key).foldl (queueHint source now .replica)
      (q, ⟨∅, 0⟩))

/-! ### What leaves the pipeline -/

/-- The keys a step of a cycle adds to its `terminal_keys`. -/
def RepairState.cycleTerminal (s : RepairState H) : RepairEvent H → List H
  | .removePaidOnly => s.cycle.terminalPaidOnly
  | .promoteProbed readFails =>
      match s.cycle.phase with
      | .promotingProbed (key :: _) =>
          if s.world.storageExists key readFails then [key]
          else
            match s.cycle.evidence.lookup key with
            | none => [key]
            | some ev => if presentSourcesForKey key ev s.cycle.targets = [] then [key] else []
      | _ => []
  | .update =>
      match s.cycle.phase with
      | .updating (evaluated :: _) =>
          match evaluated.outcome.verifiedSources with
          | some (_ :: _) =>
              if evaluated.pipeline = .replica ∨ evaluated.key ∈ s.cycle.paidOnlyFetchKeys then []
              else [evaluated.key]
          | _ => [evaluated.key]
      | _ => []
  | _ => []

/-- The key the fetch worker is done with, if it is. -/
def RepairState.fetchTerminal (s : RepairState H) : RepairEvent H → List H
  | .finish key (some .stored) => [key]
  | .finish key none => [key]
  | .finish key _ => if (s.queues.retryFetch key).1.isSome then [] else [key]
  | _ => []

/-! ### The tasks -/

/-- What is left to do with the hints of one source. -/
inductive AdmissionStage (H : Type) where
  | admitting (hints : AdmittedHints H)
  | tracking (outcome : AdmissionOutcome H)
  | noting (outcome : AdmissionOutcome H)

inductive BootstrapTask (H : Type) where
  | waiting
  | marking
  | syncing (neighbors : List H)
  | requesting (peer : H) (neighbors : List H)
  | admission (peer : H) (stage : AdmissionStage H) (neighbors : List H)
  | checking
  | completing
  | finished

/-- A handler of an inbound sync request or of a sync response, with the flag it started with. -/
structure SyncHandler (H : Type) where
  source : H
  isBootstrapping : Bool
  stage : AdmissionStage H

/-- What a worker is doing about keys that have left the pipeline. -/
inductive DrainStage (H : Type) where
  | idle
  | deciding (keys : List H)
  | removing (keys : List H)
  | checking
  | completing

/-- The neighbors that were asked and those whose answer is dealt with, in order, and the keys that
their answers had admitted and tracked. -/
structure BootstrapHistory (H : Type) where
  snapshot : Option (List H)
  requested : List H
  handled : List H
  admitted : Finset H
  tracked : Finset H

/-- No task reads `history`. -/
structure BootstrapNode (H : Type) where
  repair : RepairState H
  state : BootstrapState H
  isBootstrapping : Bool
  shutdown : Bool
  task : BootstrapTask H
  handlers : List (SyncHandler H)
  terminalKeys : List H
  verification : DrainStage H
  fetch : DrainStage H
  history : BootstrapHistory H

inductive BootstrapEvent (H : Type) where
  | repair (event : RepairEvent H)
  | shutdown
  | gateOpens (neighbors : List H)
  | gateShutdown
  | markDrained
  | nextNeighbor
  | respond (hints : Option (AdmittedHints H))
  | taskAdmission (held : H → Bool)
  | taskCheck
  | taskComplete
  | startHandler (source : H) (hints : AdmittedHints H)
  | handler (index : Nat) (held : H → Bool)
  | verificationDrain
  | fetchDrain

namespace BootstrapNode

variable (ctx : RepairContext H) (s : BootstrapNode H)

def start (world : RepairWorld H) : BootstrapNode H :=
  ⟨.start world, .new, true, false, .waiting, [], [], .idle, .idle, ⟨none, [], [], ∅, ∅⟩⟩

/-- A worker takes up nothing new while it is dealing with keys that have left the pipeline; hints
are queued by admissions only. -/
def allows : RepairEvent H → Bool
  | .hint _ _ => false
  | .beginCycle =>
      match s.verification with
      | .idle => true
      | _ => false
  | .dequeue | .finish _ _ =>
      match s.fetch with
      | .idle => true
      | _ => false
  | _ => true

/-- The node after a step of the pipeline. A cycle that ends hands over its terminal keys. -/
def repaired (event : RepairEvent H) (repair : RepairState H) : BootstrapNode H :=
  let terminalKeys := s.terminalKeys ++ s.repair.cycleTerminal event
  let fetch :=
    match s.repair.fetchTerminal event with
    | [] => s.fetch
    | keys => .deciding keys
  match event, repair.cycle.phase with
  | .endLoop, .idle =>
      { s with
        repair := repair
        terminalKeys := []
        verification := .deciding terminalKeys
        fetch := fetch }
  | _, _ => { s with repair := repair, terminalKeys := terminalKeys, fetch := fetch }

/-- The outcome of queueing the hints of a source. -/
def admitted (source : H) (hints : AdmittedHints H) (held : H → Bool) :
    ReplicationQueues H × AdmissionOutcome H :=
  admitAndQueueHints s.repair.queues source s.repair.world.now hints held

/-- The bootstrap state after a source's rejections are noted or cleared. -/
def noted (source : H) (outcome : AdmissionOutcome H) : BootstrapState H :=
  if outcome.capacityRejectedCount > 0 then s.state.noteCapacityRejected source
  else s.state.clearCapacityRejected source

def taskAdmission (held : H → Bool) : Option (BootstrapNode H) :=
  match s.task with
  | .admission peer (.admitting hints) neighbors =>
      let (queues, outcome) := s.admitted peer hints held
      some { s with
        repair.queues := queues
        task := .admission peer (.tracking outcome) neighbors
        history.admitted := s.history.admitted ∪ outcome.discovered }
  | .admission peer (.tracking outcome) neighbors =>
      some { s with
        state := s.state.trackDiscoveredKeys outcome.discovered
        task := .admission peer (.noting outcome) neighbors
        history.tracked := s.history.tracked ∪ outcome.discovered }
  | .admission peer (.noting outcome) neighbors =>
      some { s with
        state := s.noted peer outcome
        task := .syncing neighbors
        history.handled := s.history.handled ++ [peer] }
  | _ => none

def handler (index : Nat) (held : H → Bool) : Option (BootstrapNode H) :=
  match s.handlers[index]? with
  | none => none
  | some ⟨source, isBootstrapping, .admitting hints⟩ =>
      let (queues, outcome) := s.admitted source hints held
      some { s with
        repair.queues := queues
        handlers :=
          if isBootstrapping then
            s.handlers.set index ⟨source, isBootstrapping, .tracking outcome⟩
          else s.handlers.eraseIdx index }
  | some ⟨source, isBootstrapping, .tracking outcome⟩ =>
      some { s with
        state := s.state.trackDiscoveredKeys outcome.discovered
        handlers := s.handlers.set index ⟨source, isBootstrapping, .noting outcome⟩ }
  | some ⟨source, _, .noting outcome⟩ =>
      some { s with
        state := s.noted source outcome
        handlers := s.handlers.eraseIdx index }

/-- One step of the bookkeeping after keys have left the pipeline: the state, whether the node is
still bootstrapping, and what is left to do. -/
def drain : DrainStage H → Option (BootstrapState H × Bool × DrainStage H)
  | .idle => none
  | .deciding keys =>
      some (s.state, s.isBootstrapping,
        if keys.isEmpty || s.state.drained then .idle else .removing keys)
  | .removing keys => some (keys.foldl .removeKey s.state, s.isBootstrapping, .checking)
  | .checking =>
      let (drained, state) := checkBootstrapDrained s.state s.repair.queues
      some (state, s.isBootstrapping, if drained then .completing else .idle)
  | .completing => some (s.state, false, .idle)

def step : BootstrapEvent H → Option (BootstrapNode H)
  | .repair event =>
      if s.allows event then (s.repair.step ctx event).map (s.repaired event) else none
  | .shutdown => some { s with shutdown := true }
  | .gateOpens neighbors =>
      match s.task with
      | .waiting =>
          some { s with
            task := if neighbors.isEmpty then .marking else .syncing neighbors
            history.snapshot := some neighbors }
      | _ => none
  | .gateShutdown =>
      match s.task with
      | .waiting => if s.shutdown then some { s with task := .finished } else none
      | _ => none
  | .markDrained =>
      match s.task with
      | .marking => some { s with state := s.state.markBootstrapDrained, task := .completing }
      | _ => none
  | .nextNeighbor =>
      match s.task with
      | .syncing [] => some { s with task := .checking }
      | .syncing (peer :: neighbors) =>
          if s.shutdown then some { s with task := .checking }
          else
            some { s with
              state := s.state.incrementPendingRequests 1
              task := .requesting peer neighbors
              history.requested := s.history.requested ++ [peer] }
      | _ => none
  | .respond hints =>
      match s.task with
      | .requesting peer neighbors =>
          let state := s.state.decrementPendingRequests 1
          match hints with
          | none =>
              some { s with
                state := state
                task := .syncing neighbors
                history.handled := s.history.handled ++ [peer] }
          | some hints =>
              some { s with state := state, task := .admission peer (.admitting hints) neighbors }
      | _ => none
  | .taskAdmission held => s.taskAdmission held
  | .taskCheck =>
      match s.task with
      | .checking =>
          let (drained, state) := checkBootstrapDrained s.state s.repair.queues
          some { s with state := state, task := if drained then .completing else .finished }
      | _ => none
  | .taskComplete =>
      match s.task with
      | .completing => some { s with isBootstrapping := false, task := .finished }
      | _ => none
  | .startHandler source hints =>
      some { s with handlers := s.handlers ++ [⟨source, s.isBootstrapping, .admitting hints⟩] }
  | .handler index held => s.handler index held
  | .verificationDrain =>
      (s.drain s.verification).map fun (state, isBootstrapping, verification) =>
        { s with
          state := state
          isBootstrapping := isBootstrapping
          verification := verification }
  | .fetchDrain =>
      (s.drain s.fetch).map fun (state, isBootstrapping, fetch) =>
        { s with state := state, isBootstrapping := isBootstrapping, fetch := fetch }

/-- No handler, worker step or request is in progress, and the bootstrap task has finished. -/
structure Quiescent : Prop where
  task : s.task = .finished
  handlers : s.handlers = []
  cycle : s.repair.cycle.phase = .idle
  verification : s.verification = .idle
  fetch : s.fetch = .idle
  fetching : s.repair.fetching = []
  fetched : s.repair.fetched = []

/-- What `check_bootstrap_drained` asks for. -/
structure DrainCondition : Prop where
  requests : s.state.pendingPeerRequests = 0
  sources : s.state.capacityRejectedSources = ∅
  keys : ∀ key ∈ s.state.pendingKeys, s.repair.queues.containsKey key = false

end BootstrapNode

end AntNode
