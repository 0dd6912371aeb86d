import AntNode.Digest
import AntNode.Lib.FiniteMap

/-!
# Neighbor sync

A node syncs with its close neighbors in cycles. A cycle goes once through a snapshot of them with a
cursor, after the peers that routing-table churn has queued, and leaves out those synced a short time
ago; when both lists are exhausted the next round starts a cycle from a fresh snapshot. The same
state remembers since when each peer claims to be bootstrapping.

Times and durations are in nanoseconds of the monotonic clock, on which `duration_since` is zero when
the reading is the older one. The routing-table query behind a snapshot and the sync sessions
themselves are left out.
-/

namespace AntNode

inductive BootstrapClaimObservation where
  | withinGrace (firstSeen : Nat)
  | pastGrace (firstSeen : Nat)
  | repeated (firstSeen : Nat)
  deriving DecidableEq

structure NeighborSyncState (H : Type) where
  priorityOrder : List H
  order : List H
  cursor : Nat
  lastSyncTimes : FiniteMap H Nat
  bootstrapClaims : FiniteMap H Nat
  bootstrapClaimHistory : FiniteMap H Nat
  pruneCursor : Nat

/-- What one turn of a selection loop does with the peer it reaches. -/
inductive SelectionTurn (H : Type) where
  | onCooldown (peer : H) (next : NeighborSyncState H)
  | selected (peer : H) (next : NeighborSyncState H)

variable {H : Type} [Digest H]

namespace NeighborSyncState

def newCycle (closeNeighbors : List H) : NeighborSyncState H := ⟨[], closeNeighbors, 0, ∅, ∅, ∅, 0⟩

/-! ### Bootstrap claims -/

def observeBootstrapClaim (state : NeighborSyncState H) (peer : H) (now gracePeriod : Nat) :
    BootstrapClaimObservation × NeighborSyncState H :=
  match state.bootstrapClaims.lookup peer with
  | some firstSeen =>
      if now - firstSeen > gracePeriod then (.pastGrace firstSeen, state)
      else (.withinGrace firstSeen, state)
  | none =>
      match state.bootstrapClaimHistory.lookup peer with
      | some firstSeen => (.repeated firstSeen, state)
      | none =>
          (.withinGrace now,
            { state with
              bootstrapClaims := state.bootstrapClaims.insert peer now
              bootstrapClaimHistory := state.bootstrapClaimHistory.insert peer now })

def clearActiveBootstrapClaim (state : NeighborSyncState H) (peer : H) :
    Bool × NeighborSyncState H :=
  ((state.bootstrapClaims.lookup peer).isSome,
    { state with bootstrapClaims := state.bootstrapClaims.erase peer })

/-! ### Editing the pending peers -/

def queuePriorityPeers (state : NeighborSyncState H) : List H → Nat × NeighborSyncState H
  | [] => (0, state)
  | peer :: peers =>
      if peer ∈ state.priorityOrder then state.queuePriorityPeers peers
      else
        let (queued, next) :=
          { state with priorityOrder := state.priorityOrder ++ [peer] }.queuePriorityPeers peers
        (queued + 1, next)

def retainSyncPeers (state : NeighborSyncState H) (closePeers : Finset H) :
    Nat × NeighborSyncState H :=
  let priorityOrder := state.priorityOrder.filter (· ∈ closePeers)
  let order := state.order.filter (· ∈ closePeers)
  let retainedBeforeCursor := ((state.order.take state.cursor).filter (· ∈ closePeers)).length
  ((state.priorityOrder.length - priorityOrder.length) + (state.order.length - order.length),
    { state with priorityOrder, order, cursor := retainedBeforeCursor })

def removePeer (state : NeighborSyncState H) (peer : H) : Bool × NeighborSyncState H :=
  let priorityOrder := state.priorityOrder.filter (· ≠ peer)
  let next :=
    match state.order.idxOf? peer with
    | none => { state with priorityOrder }
    | some pos =>
        { state with
          priorityOrder
          order := state.order.eraseIdx pos
          cursor := if pos < state.cursor then state.cursor - 1 else state.cursor }
  (decide (state.priorityOrder.length ≠ next.priorityOrder.length ∨
    state.order.length ≠ next.order.length), next)

def isCycleComplete (state : NeighborSyncState H) : Bool :=
  state.priorityOrder.isEmpty && decide (state.order.length ≤ state.cursor)

/-! ### Selecting the next peers -/

def peerOnCooldown (state : NeighborSyncState H) (peer : H) (now cooldown : Nat) : Bool :=
  match state.lastSyncTimes.lookup peer with
  | none => false
  | some lastSync => decide (now - lastSync < cooldown)

/-- One turn of the loop over the queued peers, with the popped peer taken out of both lists. -/
def priorityTurn (state : NeighborSyncState H) (now cooldown : Nat) : Option (SelectionTurn H) :=
  match state.priorityOrder with
  | [] => none
  | peer :: queued =>
      let popped := { state with priorityOrder := queued }
      if popped.peerOnCooldown peer now cooldown then
        some (.onCooldown peer (popped.removePeer peer).2)
      else some (.selected peer (popped.removePeer peer).2)

/-- One turn of the loop over the snapshot: a peer on cooldown is dropped and the next one slides
under the cursor. -/
def orderTurn (state : NeighborSyncState H) (now cooldown : Nat) : Option (SelectionTurn H) :=
  match state.order[state.cursor]? with
  | none => none
  | some peer =>
      if state.peerOnCooldown peer now cooldown then
        some (.onCooldown peer { state with order := state.order.eraseIdx state.cursor })
      else some (.selected peer { state with cursor := state.cursor + 1 })

/-- The peers that the selection loops have still to reach. -/
def remaining (state : NeighborSyncState H) : Nat :=
  state.priorityOrder.length + (state.order.length - state.cursor)

end NeighborSyncState

def SelectionTurn.peer : SelectionTurn H → H
  | .onCooldown peer _ => peer
  | .selected peer _ => peer

def SelectionTurn.next : SelectionTurn H → NeighborSyncState H
  | .onCooldown _ next => next
  | .selected _ next => next

namespace NeighborSyncState

variable {state : NeighborSyncState H} {now cooldown : Nat} {turn : SelectionTurn H}

theorem remaining_removePeer_le (state : NeighborSyncState H) (peer : H) :
    (state.removePeer peer).2.remaining ≤ state.remaining := by
  have hpriority := List.length_filter_le (fun queued => decide (queued ≠ peer)) state.priorityOrder
  unfold removePeer remaining
  cases hpos : state.order.idxOf? peer with
  | none => simpa using hpriority
  | some pos =>
      have hlt : pos < state.order.length := by
        obtain ⟨hlt, -⟩ := List.findIdx?_eq_some_iff_getElem.mp hpos
        exact hlt
      simp only [List.length_eraseIdx_of_lt hlt]
      split_ifs <;> omega

theorem remaining_priorityTurn (hturn : state.priorityTurn now cooldown = some turn) :
    turn.next.remaining < state.remaining := by
  unfold priorityTurn at hturn
  cases hqueued : state.priorityOrder with
  | nil => simp [hqueued] at hturn
  | cons peer queued =>
      have hle := remaining_removePeer_le { state with priorityOrder := queued } peer
      have hlt : ({ state with priorityOrder := queued } : NeighborSyncState H).remaining <
          state.remaining := by
        simp only [remaining, hqueued, List.length_cons]
        omega
      simp only [hqueued] at hturn
      split_ifs at hturn <;> cases hturn <;> exact hle.trans_lt hlt

theorem remaining_orderTurn (hturn : state.orderTurn now cooldown = some turn) :
    turn.next.remaining < state.remaining := by
  unfold orderTurn at hturn
  cases hpeer : state.order[state.cursor]? with
  | none => simp [hpeer] at hturn
  | some peer =>
      obtain ⟨hlt, -⟩ := List.getElem?_eq_some_iff.mp hpeer
      simp only [hpeer] at hturn
      split_ifs at hturn <;> cases hturn <;>
        simp only [SelectionTurn.next, remaining, List.length_eraseIdx_of_lt hlt] <;> omega

def drainPriority (state : NeighborSyncState H) (now cooldown : Nat) :
    Option H × NeighborSyncState H :=
  match _hturn : state.priorityTurn now cooldown with
  | none => (none, state)
  | some (.onCooldown _ next) => next.drainPriority now cooldown
  | some (.selected peer next) => (some peer, next)
  termination_by state.remaining
  decreasing_by exact remaining_priorityTurn _hturn

def scanOrder (state : NeighborSyncState H) (now cooldown : Nat) :
    Option H × NeighborSyncState H :=
  match _hturn : state.orderTurn now cooldown with
  | none => (none, state)
  | some (.onCooldown _ next) => next.scanOrder now cooldown
  | some (.selected peer next) => (some peer, next)
  termination_by state.remaining
  decreasing_by exact remaining_orderTurn _hturn

def selectNextSyncPeer (state : NeighborSyncState H) (now cooldown : Nat) :
    Option H × NeighborSyncState H :=
  match state.drainPriority now cooldown with
  | (some peer, state) => (some peer, state)
  | (none, state) => state.scanOrder now cooldown

/-- The batch loop, with the number of slots still to fill. -/
def fillBatch (state : NeighborSyncState H) (now cooldown : Nat) :
    Nat → List H × NeighborSyncState H
  | 0 => ([], state)
  | slots + 1 =>
      match state.selectNextSyncPeer now cooldown with
      | (none, state) => ([], state)
      | (some peer, state) =>
          let (batch, state) := state.fillBatch now cooldown slots
          (peer :: batch, state)

def selectSyncBatch (state : NeighborSyncState H) (peerCount cooldown now : Nat) :
    List H × NeighborSyncState H :=
  state.fillBatch now cooldown peerCount

def handleSyncFailure (state : NeighborSyncState H) (failedPeer : H) (cooldown now : Nat) :
    Option H × NeighborSyncState H :=
  (state.removePeer failedPeer).2.selectNextSyncPeer now cooldown

def recordSuccessfulSync (state : NeighborSyncState H) (peer : H) (now : Nat) :
    NeighborSyncState H :=
  { state with lastSyncTimes := state.lastSyncTimes.insert peer now }

/-! ### The round driver -/

/-- The end of a cycle, rechecked under the lock once the new snapshot has been taken. -/
def swapCycle (state : NeighborSyncState H) (neighbors : List H) : NeighborSyncState H :=
  if state.isCycleComplete then
    { newCycle neighbors with
      lastSyncTimes := state.lastSyncTimes
      bootstrapClaims := state.bootstrapClaims
      bootstrapClaimHistory := state.bootstrapClaimHistory
      pruneCursor := state.pruneCursor }
  else state

def advancePruneCursor (state : NeighborSyncState H) (storedKeyCount scanStart : Nat)
    (lastSelectedOffset : Option Nat) : NeighborSyncState H :=
  if storedKeyCount = 0 then { state with pruneCursor := 0 }
  else
    let advanceBy := lastSelectedOffset.elim 1 (· + 1)
    { state with pruneCursor := (scanStart + advanceBy) % storedKeyCount }

/-- Everything the node does to the state, each under its write lock. -/
inductive Op (H : Type) where
  | selectBatch (peerCount cooldown now : Nat)
  | syncFailure (failedPeer : H) (cooldown now : Nat)
  | syncSuccess (peer : H) (now : Nat)
  | queuePriority (peers : List H)
  | retain (closePeers : Finset H)
  | remove (peer : H)
  | swap (neighbors : List H)
  | observeClaim (peer : H) (now gracePeriod : Nat)
  | clearClaim (peer : H)
  | pruned (storedKeyCount scanStart : Nat) (lastSelectedOffset : Option Nat)

def apply (state : NeighborSyncState H) : Op H → NeighborSyncState H
  | .selectBatch peerCount cooldown now => (state.selectSyncBatch peerCount cooldown now).2
  | .syncFailure failedPeer cooldown now => (state.handleSyncFailure failedPeer cooldown now).2
  | .syncSuccess peer now => state.recordSuccessfulSync peer now
  | .queuePriority peers => (state.queuePriorityPeers peers).2
  | .retain closePeers => (state.retainSyncPeers closePeers).2
  | .remove peer => (state.removePeer peer).2
  | .swap neighbors => state.swapCycle neighbors
  | .observeClaim peer now gracePeriod => (state.observeBootstrapClaim peer now gracePeriod).2
  | .clearClaim peer => (state.clearActiveBootstrapClaim peer).2
  | .pruned storedKeyCount scanStart lastSelectedOffset =>
      state.advancePruneCursor storedKeyCount scanStart lastSelectedOffset

def step (state : NeighborSyncState H) (op : Op H) : Option (NeighborSyncState H) :=
  some (state.apply op)

/-- The peers an operation hands out to be synced with. -/
def handedOut (state : NeighborSyncState H) : Op H → List H
  | .selectBatch peerCount cooldown now => (state.selectSyncBatch peerCount cooldown now).1
  | .syncFailure failedPeer cooldown now =>
      (state.handleSyncFailure failedPeer cooldown now).1.toList
  | _ => []

end NeighborSyncState

end AntNode
