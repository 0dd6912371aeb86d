import AntNode.Digest
import AntNode.Lib.Runs
import Mathlib.Data.List.AList
import Mathlib.Data.List.Sort

/-!
# The replication queues

A hinted key waits for verification, then for a fetch slot, and is then fetched; it is to be in one
of these stages at a time. Beside the three collections stand a set of the keys in the fetch queue
and a counter of the pending entries of each hint sender, which every operation has to keep in step.

Hash maps are association lists with distinct keys, and the heap is the list of its candidates,
the next one first. Logging is left out.
-/

namespace AntNode

def maxPendingVerify : Nat := 131072

def maxPendingVerifyPerPeer : Nat := 8192

def maxFetchQueue : Nat := 131072

inductive VerificationState where
  | offerReceived
  | pendingVerify
  | quorumVerified
  | paidListVerified
  | queuedForFetch
  | fetching
  | stored
  | fetchRetryable
  | fetchAbandoned
  | quorumFailed
  | quorumInconclusive
  | quorumAbandoned
  | idle
  deriving DecidableEq

inductive HintPipeline where
  | replica
  | paidOnly
  deriving DecidableEq

structure VerificationEntry (H : Type) where
  state : VerificationState
  pipeline : HintPipeline
  verifiedSources : List H
  triedSources : Finset H
  createdAt : Nat
  hintSender : H

structure FetchCandidate (H : Type) where
  key : H
  distance : H
  sources : List H
  deriving DecidableEq

structure InFlightEntry (H : Type) where
  key : H
  source : H
  startedAt : Nat
  allSources : List H
  tried : Finset H

inductive AdmissionResult where
  | admitted
  | alreadyPresent
  | capacityRejected
  deriving DecidableEq

structure ReplicationQueues (H : Type) where
  pendingVerify : AList fun _ : H => VerificationEntry H
  fetchQueue : List (FetchCandidate H)
  fetchQueueKeys : Finset H
  inFlightFetch : AList fun _ : H => InFlightEntry H
  pendingPerSender : AList fun _ : H => Nat

variable {H : Type} [Digest H]

/-- The order of the heap: the nearest first, and the larger key among the equally near. -/
def FetchCandidate.Before (a b : FetchCandidate H) : Prop :=
  a.distance < b.distance ∨ a.distance = b.distance ∧ b.key ≤ a.key

instance : DecidableRel (FetchCandidate.Before (H := H)) :=
  fun _ _ => inferInstanceAs (Decidable (_ ∨ _))

namespace ReplicationQueues

def new : ReplicationQueues H := ⟨∅, [], ∅, ∅, ∅⟩

def containsKey (q : ReplicationQueues H) (key : H) : Bool :=
  decide (key ∈ q.pendingVerify) || decide (key ∈ q.fetchQueueKeys) ||
    decide (key ∈ q.inFlightFetch)

/-! ### Pending verification -/

def addPendingVerify (q : ReplicationQueues H) (key : H) (entry : VerificationEntry H) :
    AdmissionResult × ReplicationQueues H :=
  if q.containsKey key then (.alreadyPresent, q)
  else if q.pendingVerify.entries.length ≥ maxPendingVerify then (.capacityRejected, q)
  else
    let sender := entry.hintSender
    let senderCount := (q.pendingPerSender.lookup sender).getD 0
    if senderCount ≥ maxPendingVerifyPerPeer then (.capacityRejected, q)
    else
      (.admitted,
        { q with
          pendingVerify := q.pendingVerify.insert key entry
          pendingPerSender := q.pendingPerSender.insert sender (senderCount + 1) })

/-- Decrement the counter of a sender, and drop it at zero. -/
def releaseSenderSlot (pendingPerSender : AList fun _ : H => Nat) (sender : H) :
    AList fun _ : H => Nat :=
  match pendingPerSender.lookup sender with
  | none => pendingPerSender
  | some count =>
      if count - 1 = 0 then pendingPerSender.erase sender
      else pendingPerSender.insert sender (count - 1)

def setPendingState (q : ReplicationQueues H) (key : H) (state : VerificationState) :
    Option HintPipeline × ReplicationQueues H :=
  match q.pendingVerify.lookup key with
  | none => (none, q)
  | some entry =>
      (some entry.pipeline,
        { q with pendingVerify := q.pendingVerify.insert key { entry with state := state } })

def removePending (q : ReplicationQueues H) (key : H) :
    Option (VerificationEntry H) × ReplicationQueues H :=
  match q.pendingVerify.lookup key with
  | none => (none, q)
  | some entry =>
      (some entry,
        { q with
          pendingVerify := q.pendingVerify.erase key
          pendingPerSender := releaseSenderSlot q.pendingPerSender entry.hintSender })

/-! ### The fetch queue -/

def enqueueFetch (q : ReplicationQueues H) (key distance : H) (sources : List H) :
    Bool × ReplicationQueues H :=
  if q.containsKey key then (false, q)
  else if q.fetchQueue.length ≥ maxFetchQueue then (false, q)
  else
    (true,
      { q with
        fetchQueueKeys := insert key q.fetchQueueKeys
        fetchQueue := q.fetchQueue.orderedInsert FetchCandidate.Before ⟨key, distance, sources⟩ })

def promotePendingToFetch (q : ReplicationQueues H) (key distance : H) (sources : List H) :
    Bool × ReplicationQueues H :=
  if q.fetchQueue.length ≥ maxFetchQueue then (false, q)
  else (q.removePending key).2.enqueueFetch key distance sources

/-- Pop until a candidate is not in flight. -/
def popNotInFlight (inFlight : AList fun _ : H => InFlightEntry H) :
    List (FetchCandidate H) → Finset H →
      Option (FetchCandidate H) × List (FetchCandidate H) × Finset H
  | [], keys => (none, [], keys)
  | candidate :: rest, keys =>
      if candidate.key ∈ inFlight then popNotInFlight inFlight rest (keys.erase candidate.key)
      else (some candidate, rest, keys.erase candidate.key)

def dequeueFetch (q : ReplicationQueues H) : Option (FetchCandidate H) × ReplicationQueues H :=
  let popped := popNotInFlight q.inFlightFetch q.fetchQueue q.fetchQueueKeys
  (popped.1, { q with fetchQueue := popped.2.1, fetchQueueKeys := popped.2.2 })

/-! ### Fetches in flight -/

def startFetch (q : ReplicationQueues H) (key source : H) (allSources : List H) (now : Nat) :
    ReplicationQueues H :=
  { q with
    inFlightFetch := q.inFlightFetch.insert key ⟨key, source, now, allSources, {source}⟩ }

def completeFetch (q : ReplicationQueues H) (key : H) :
    Option (InFlightEntry H) × ReplicationQueues H :=
  (q.inFlightFetch.lookup key, { q with inFlightFetch := q.inFlightFetch.erase key })

/-- Mark the current source as tried and go on to the first one that is not. -/
def retryFetch (q : ReplicationQueues H) (key : H) : Option H × ReplicationQueues H :=
  match q.inFlightFetch.lookup key with
  | none => (none, q)
  | some entry =>
      let tried := insert entry.source entry.tried
      match entry.allSources.find? fun peer => decide (peer ∉ tried) with
      | some nextPeer =>
          (some nextPeer,
            { q with
              inFlightFetch := q.inFlightFetch.insert key
                { entry with source := nextPeer, tried := insert nextPeer tried } })
      | none =>
          (none,
            { q with inFlightFetch := q.inFlightFetch.insert key { entry with tried := tried } })

/-! ### Eviction -/

def isFresh (now maxAge : Nat) (entry : VerificationEntry H) : Bool :=
  decide (now - entry.createdAt < maxAge)

/-- The counters after the stale entries of the list are released. -/
def releaseStale (now maxAge : Nat) :
    List (Sigma fun _ : H => VerificationEntry H) → (AList fun _ : H => Nat) →
      AList fun _ : H => Nat
  | [], counts => counts
  | entry :: rest, counts =>
      releaseStale now maxAge rest
        (if isFresh now maxAge entry.2 then counts
        else releaseSenderSlot counts entry.2.hintSender)

def evictStale (q : ReplicationQueues H) (maxAge now : Nat) : ReplicationQueues H :=
  { q with
    pendingVerify :=
      ⟨q.pendingVerify.entries.filter fun entry => isFresh now maxAge entry.2,
        q.pendingVerify.nodupKeys.sublist List.filter_sublist⟩
    pendingPerSender := releaseStale now maxAge q.pendingVerify.entries q.pendingPerSender }

end ReplicationQueues

/-! ### Sequences of operations -/

inductive QueueOp (H : Type) where
  | addPendingVerify (key : H) (entry : VerificationEntry H)
  | setPendingState (key : H) (state : VerificationState)
  | removePending (key : H)
  | enqueueFetch (key distance : H) (sources : List H)
  | promotePendingToFetch (key distance : H) (sources : List H)
  | dequeueFetch
  | startFetch (key source : H) (allSources : List H) (now : Nat)
  | retryFetch (key : H)
  | completeFetch (key : H)
  | evictStale (maxAge now : Nat)

/-- The queues, and the candidate the last operation dequeued. -/
structure QueueState (H : Type) where
  queues : ReplicationQueues H
  dequeued : Option (FetchCandidate H)

namespace QueueState

def init : QueueState H := ⟨.new, none⟩

/-- One operation. A fetch is started only right after its candidate was dequeued. -/
def step (s : QueueState H) : QueueOp H → Option (QueueState H)
  | .addPendingVerify key entry => some ⟨(s.queues.addPendingVerify key entry).2, none⟩
  | .setPendingState key state => some ⟨(s.queues.setPendingState key state).2, none⟩
  | .removePending key => some ⟨(s.queues.removePending key).2, none⟩
  | .enqueueFetch key distance sources => some ⟨(s.queues.enqueueFetch key distance sources).2, none⟩
  | .promotePendingToFetch key distance sources =>
      some ⟨(s.queues.promotePendingToFetch key distance sources).2, none⟩
  | .dequeueFetch => some ⟨s.queues.dequeueFetch.2, s.queues.dequeueFetch.1⟩
  | .startFetch key source allSources now =>
      match s.dequeued with
      | some candidate =>
          if candidate.key = key then some ⟨s.queues.startFetch key source allSources now, none⟩
          else none
      | none => none
  | .retryFetch key => some ⟨(s.queues.retryFetch key).2, none⟩
  | .completeFetch key => some ⟨(s.queues.completeFetch key).2, none⟩
  | .evictStale maxAge now => some ⟨s.queues.evictStale maxAge now, none⟩

end QueueState

end AntNode
