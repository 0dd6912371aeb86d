import AntNode.Lib.Runs
import AntNode.NeighborSync
import AntNode.Transcript

/-!
# What a neighbor-sync cycle covers

The peers a cycle has still to reach are the queued ones and the snapshot from the cursor on. Every
edit of the two lists is a filter of these pending peers, so a peer stops being pending only by being
handed out, by being reached on cooldown or by being removed, and starts to be pending again only by
being queued or by a new cycle.
-/

namespace AntNode

variable {H : Type}

namespace NeighborSyncState

structure Consistent (state : NeighborSyncState H) : Prop where
  cursor_le : state.cursor ≤ state.order.length
  order_nodup : state.order.Nodup
  priority_nodup : state.priorityOrder.Nodup

def Pending (state : NeighborSyncState H) (peer : H) : Prop :=
  peer ∈ state.priorityOrder ∨ peer ∈ state.order.drop state.cursor

/-- Keep some of the peers of both lists, and the cursor before the same peer. -/
def keep (state : NeighborSyncState H) (p : H → Bool) : NeighborSyncState H :=
  { state with
    priorityOrder := state.priorityOrder.filter p
    order := state.order.filter p
    cursor := ((state.order.take state.cursor).filter p).length }

/-- The snapshots that the round driver swaps in have no peer twice. -/
def DistinctSnapshots (ops : List (Op H)) : Prop :=
  ∀ neighbors, .swap neighbors ∈ ops → neighbors.Nodup

variable {state next : NeighborSyncState H} {peer : H} {now cooldown : Nat}

theorem DistinctSnapshots.of_subset {ops part : List (Op H)} (hdistinct : DistinctSnapshots ops)
    (hpart : part ⊆ ops) : DistinctSnapshots part :=
  fun neighbors hmem => hdistinct neighbors (hpart hmem)

theorem consistent_newCycle {snapshot : List H} (hnodup : snapshot.Nodup) :
    (newCycle snapshot).Consistent :=
  ⟨Nat.zero_le _, hnodup, List.nodup_nil⟩

theorem not_pending_of_isCycleComplete (hcomplete : state.isCycleComplete = true) :
    ¬ state.Pending peer := by
  simp only [isCycleComplete, Bool.and_eq_true, List.isEmpty_iff, decide_eq_true_eq] at hcomplete
  simp [Pending, hcomplete.1, List.drop_eq_nil_of_le hcomplete.2]

theorem priorityOrder_swapCycle (hqueued : peer ∈ state.priorityOrder) (neighbors : List H) :
    peer ∈ (state.swapCycle neighbors).priorityOrder := by
  have hincomplete : ¬ state.isCycleComplete = true :=
    fun hcomplete => not_pending_of_isCycleComplete hcomplete (.inl hqueued)
  simpa [swapCycle, hincomplete] using hqueued

/-! ### Filtering the pending peers -/

theorem drop_keep (state : NeighborSyncState H) (p : H → Bool) :
    (state.keep p).order.drop (state.keep p).cursor =
      (state.order.drop state.cursor).filter p := by
  have hsplit : state.order.filter p =
      (state.order.take state.cursor).filter p ++ (state.order.drop state.cursor).filter p := by
    rw [← List.filter_append, List.take_append_drop]
  simp only [keep]
  rw [hsplit, List.drop_left]

theorem pending_keep {p : H → Bool} :
    (state.keep p).Pending peer ↔ state.Pending peer ∧ p peer = true := by
  unfold Pending
  rw [drop_keep]
  simp only [keep, List.mem_filter]
  tauto

theorem Consistent.keep (hstate : state.Consistent) (p : H → Bool) :
    (state.keep p).Consistent where
  cursor_le := ((List.take_sublist _ _).filter p).length_le
  order_nodup := hstate.order_nodup.filter p
  priority_nodup := hstate.priority_nodup.filter p

variable [Digest H]

theorem retainSyncPeers_eq_keep (state : NeighborSyncState H) (closePeers : Finset H) :
    (state.retainSyncPeers closePeers).2 = state.keep (· ∈ closePeers) :=
  rfl

theorem filter_ne_eq_self {l : List H} (hnot : peer ∉ l) : l.filter (· ≠ peer) = l := by
  rw [List.filter_eq_self]
  intro a ha
  simpa using fun heq : a = peer => hnot (heq ▸ ha)

theorem eraseIdx_eq_filter {order : List H} {pos : Nat} (hnodup : order.Nodup)
    (hpos : order[pos]? = some peer) : order.eraseIdx pos = order.filter (· ≠ peer) := by
  obtain ⟨hlt, hget⟩ := List.getElem?_eq_some_iff.mp hpos
  have hsplit : order = order.take pos ++ peer :: order.drop (pos + 1) := by
    rw [← hget, List.cons_getElem_drop_succ, List.take_append_drop]
  obtain ⟨hbefore, hafter⟩ : peer ∉ order.take pos ∧ peer ∉ order.drop (pos + 1) := by
    rw [hsplit] at hnodup
    simpa using (List.nodup_cons.mp (List.nodup_middle.mp hnodup)).1
  calc
    order.eraseIdx pos = order.take pos ++ order.drop (pos + 1) :=
      List.eraseIdx_eq_take_drop_succ ..
    _ = order.filter (· ≠ peer) := by
      conv_rhs => rw [hsplit]
      rw [List.filter_append, List.filter_cons_of_neg (by simp), filter_ne_eq_self hbefore,
        filter_ne_eq_self hafter]

/-- The peers before the cursor are one fewer exactly when the removed one stood before it. -/
theorem length_filter_take {order : List H} {pos cursor : Nat} (hnodup : order.Nodup)
    (hpos : order[pos]? = some peer) (hcursor : cursor ≤ order.length) :
    ((order.take cursor).filter (· ≠ peer)).length =
      if pos < cursor then cursor - 1 else cursor := by
  obtain ⟨hlt, hget⟩ := List.getElem?_eq_some_iff.mp hpos
  have hlen : (order.take cursor).length = cursor := List.length_take_of_le hcursor
  have htake : (order.take cursor).Nodup := hnodup.sublist (List.take_sublist _ _)
  split_ifs with hcase
  · have hpos' : (order.take cursor)[pos]? = some peer := by
      rw [List.getElem?_take_of_lt hcase, hpos]
    rw [← eraseIdx_eq_filter htake hpos', List.length_eraseIdx_of_lt (by omega), hlen]
  · have hnot : peer ∉ order.take cursor := by
      intro hmem
      obtain ⟨i, hi, hat⟩ := List.mem_take_iff_getElem.mp hmem
      have heq : i = pos := (hnodup.getElem_inj_iff).mp (hat.trans hget.symm)
      omega
    rw [filter_ne_eq_self hnot, hlen]

theorem removePeer_eq_keep (hstate : state.Consistent) (peer : H) :
    (state.removePeer peer).2 = state.keep (· ≠ peer) := by
  unfold removePeer NeighborSyncState.keep
  cases hidx : state.order.idxOf? peer with
  | none =>
      have hnot : peer ∉ state.order := List.idxOf?_eq_none_iff.mp hidx
      have hnotTake : peer ∉ state.order.take state.cursor :=
        fun hmem => hnot (List.mem_of_mem_take hmem)
      simp only [filter_ne_eq_self hnot, filter_ne_eq_self hnotTake,
        List.length_take_of_le hstate.cursor_le]
  | some pos =>
      have hpos : state.order[pos]? = some peer := by
        obtain ⟨hlt, hbeq, -⟩ := List.findIdx?_eq_some_iff_getElem.mp hidx
        rw [List.getElem?_eq_getElem hlt, Option.some_inj]
        simpa using hbeq
      simp only [eraseIdx_eq_filter hstate.order_nodup hpos,
        length_filter_take hstate.order_nodup hpos hstate.cursor_le]

/-! ### The turns of the selection loops -/

end NeighborSyncState

def SelectionTurn.selected? : SelectionTurn H → Option H
  | .onCooldown _ _ => none
  | .selected peer _ => some peer

theorem SelectionTurn.selected_sublist (turns : List (SelectionTurn H)) :
    (turns.filterMap SelectionTurn.selected?).Sublist (turns.map SelectionTurn.peer) := by
  induction turns with
  | nil => exact .slnil
  | cons turn turns ih =>
      cases turn with
      | onCooldown peer next => exact ih.cons peer
      | selected peer next => exact ih.cons_cons peer

namespace NeighborSyncState

variable [Digest H] {state next : NeighborSyncState H} {peer : H} {now cooldown : Nat}

/-- One turn of the selection: the loop over the snapshot starts when no queued peer is left. -/
def turn (state : NeighborSyncState H) (now cooldown : Nat) : Option (SelectionTurn H) :=
  match state.priorityTurn now cooldown with
  | some turn => some turn
  | none => state.orderTurn now cooldown

/-- Consecutive turns of the selection. -/
inductive Turns (now cooldown : Nat) :
    NeighborSyncState H → List (SelectionTurn H) → NeighborSyncState H → Prop where
  | nil (state : NeighborSyncState H) : Turns now cooldown state [] state
  | cons {state last : NeighborSyncState H} {turn : SelectionTurn H}
      {turns : List (SelectionTurn H)} (hturn : state.turn now cooldown = some turn)
      (hturns : Turns now cooldown turn.next turns last) :
      Turns now cooldown state (turn :: turns) last

theorem Turns.append {last : NeighborSyncState H} {turns later : List (SelectionTurn H)}
    (hturns : Turns now cooldown state turns next) (hlater : Turns now cooldown next later last) :
    Turns now cooldown state (turns ++ later) last := by
  induction hturns with
  | nil state => exact hlater
  | cons hturn hturns ih => exact .cons hturn (ih hlater)

theorem drainPriority_eq (state : NeighborSyncState H) (now cooldown : Nat) :
    state.drainPriority now cooldown =
      match state.priorityTurn now cooldown with
      | none => (none, state)
      | some (.onCooldown _ next) => next.drainPriority now cooldown
      | some (.selected peer next) => (some peer, next) := by
  rw [drainPriority]
  split <;> rename_i hturn <;> rw [hturn]

theorem scanOrder_eq (state : NeighborSyncState H) (now cooldown : Nat) :
    state.scanOrder now cooldown =
      match state.orderTurn now cooldown with
      | none => (none, state)
      | some (.onCooldown _ next) => next.scanOrder now cooldown
      | some (.selected peer next) => (some peer, next) := by
  rw [scanOrder]
  split <;> rename_i hturn <;> rw [hturn]

theorem priorityTurn_eq_none_iff :
    state.priorityTurn now cooldown = none ↔ state.priorityOrder = [] := by
  unfold priorityTurn
  cases state.priorityOrder with
  | nil => simp
  | cons peer queued =>
      simp only [reduceCtorEq, iff_false]
      split_ifs <;> simp

theorem priorityOrder_orderTurn {turn : SelectionTurn H}
    (hturn : state.orderTurn now cooldown = some turn) :
    turn.next.priorityOrder = state.priorityOrder := by
  unfold orderTurn at hturn
  cases hpeer : state.order[state.cursor]? with
  | none => simp [hpeer] at hturn
  | some peer =>
      simp only [hpeer] at hturn
      split_ifs at hturn <;> cases hturn <;> rfl

theorem selectNextSyncPeer_eq (state : NeighborSyncState H) (now cooldown : Nat) :
    state.selectNextSyncPeer now cooldown =
      match state.turn now cooldown with
      | none => (none, state)
      | some (.onCooldown _ next) => next.selectNextSyncPeer now cooldown
      | some (.selected peer next) => (some peer, next) := by
  unfold selectNextSyncPeer turn
  rw [drainPriority_eq]
  cases hpriority : state.priorityTurn now cooldown with
  | some found => cases found <;> rfl
  | none =>
      simp only
      rw [scanOrder_eq]
      cases horder : state.orderTurn now cooldown with
      | none => rfl
      | some found =>
          cases found with
          | selected peer next => rfl
          | onCooldown peer next =>
              -- the snapshot loop leaves the empty queue as it is
              have hempty : next.priorityOrder = [] :=
                (priorityOrder_orderTurn horder).trans (priorityTurn_eq_none_iff.mp hpriority)
              simp only
              rw [drainPriority_eq next, priorityTurn_eq_none_iff.mpr hempty]

/-! ### What a turn does to the pending peers -/

/-- What a turn says about the peer it reaches and the state it leaves. -/
structure Reaches (state : NeighborSyncState H) (now cooldown : Nat) (turn : SelectionTurn H) :
    Prop where
  consistent : turn.next.Consistent
  pending : state.Pending turn.peer
  pending_next : ∀ peer, turn.next.Pending peer ↔ state.Pending peer ∧ peer ≠ turn.peer
  lastSyncTimes : turn.next.lastSyncTimes = state.lastSyncTimes
  onCooldown : turn.selected? = none ↔ state.peerOnCooldown turn.peer now cooldown = true

theorem priorityTurn_reaches {turn : SelectionTurn H} (hstate : state.Consistent)
    (hturn : state.priorityTurn now cooldown = some turn) : state.Reaches now cooldown turn := by
  cases hqueued : state.priorityOrder with
  | nil => simp [priorityTurn, hqueued] at hturn
  | cons peer queued =>
      obtain ⟨-, hnodup⟩ := List.nodup_cons.mp (hqueued ▸ hstate.priority_nodup)
      have hpopped : ({ state with priorityOrder := queued } : NeighborSyncState H).Consistent :=
        ⟨hstate.cursor_le, hstate.order_nodup, hnodup⟩
      have hpending : ∀ q, (({ state with priorityOrder := queued } : NeighborSyncState H).keep
          (· ≠ peer)).Pending q ↔ state.Pending q ∧ q ≠ peer := by
        intro q
        rw [pending_keep]
        simp only [Pending, hqueued, List.mem_cons, decide_eq_true_eq]
        tauto
      have hreached : state.Pending peer := .inl (by simp [hqueued])
      simp only [priorityTurn, hqueued, removePeer_eq_keep hpopped] at hturn
      split_ifs at hturn with hcooldown
      · cases hturn
        exact ⟨hpopped.keep _, hreached, hpending, rfl, iff_of_true rfl hcooldown⟩
      · cases hturn
        exact ⟨hpopped.keep _, hreached, hpending, rfl, iff_of_false nofun hcooldown⟩

theorem orderTurn_reaches {turn : SelectionTurn H} (hstate : state.Consistent)
    (hempty : state.priorityOrder = []) (hturn : state.orderTurn now cooldown = some turn) :
    state.Reaches now cooldown turn := by
  cases hpeer : state.order[state.cursor]? with
  | none => simp [orderTurn, hpeer] at hturn
  | some peer =>
      obtain ⟨hlt, hget⟩ := List.getElem?_eq_some_iff.mp hpeer
      have hdrop : state.order.drop state.cursor = peer :: state.order.drop (state.cursor + 1) := by
        rw [← hget, List.cons_getElem_drop_succ]
      have hreached : state.Pending peer := .inr (by simp [hdrop])
      simp only [orderTurn, hpeer] at hturn
      split_ifs at hturn with hcooldown
      · cases hturn
        have hkeep : { state with order := state.order.eraseIdx state.cursor } =
            state.keep (· ≠ peer) := by
          simp only [NeighborSyncState.keep, hempty, List.filter_nil,
            eraseIdx_eq_filter hstate.order_nodup hpeer,
            length_filter_take hstate.order_nodup hpeer hstate.cursor_le, lt_irrefl, if_false]
        rw [hkeep]
        refine ⟨hstate.keep _, hreached, fun q => ?_, rfl, iff_of_true rfl hcooldown⟩
        exact pending_keep.trans (by simp [SelectionTurn.peer])
      · cases hturn
        have hnot : peer ∉ state.order.drop (state.cursor + 1) := by
          have hnodup := hstate.order_nodup.sublist (List.drop_sublist state.cursor _)
          rw [hdrop] at hnodup
          exact (List.nodup_cons.mp hnodup).1
        refine ⟨⟨hlt, hstate.order_nodup, hstate.priority_nodup⟩, hreached, fun q => ?_, rfl,
          iff_of_false nofun hcooldown⟩
        simp only [Pending, hempty, hdrop, SelectionTurn.next, SelectionTurn.peer, List.not_mem_nil,
          false_or, List.mem_cons]
        constructor
        · intro hmem
          exact ⟨.inr hmem, fun heq => hnot (heq ▸ hmem)⟩
        · rintro ⟨heq | hmem, hne⟩
          · exact absurd heq hne
          · exact hmem

theorem turn_reaches {turn : SelectionTurn H} (hstate : state.Consistent)
    (hturn : state.turn now cooldown = some turn) : state.Reaches now cooldown turn := by
  unfold NeighborSyncState.turn at hturn
  cases hpriority : state.priorityTurn now cooldown with
  | some found =>
      rw [hpriority] at hturn
      cases hturn
      exact priorityTurn_reaches hstate hpriority
  | none =>
      rw [hpriority] at hturn
      exact orderTurn_reaches hstate (priorityTurn_eq_none_iff.mp hpriority) hturn

theorem remaining_turn {turn : SelectionTurn H} (hturn : state.turn now cooldown = some turn) :
    turn.next.remaining < state.remaining := by
  unfold NeighborSyncState.turn at hturn
  cases hpriority : state.priorityTurn now cooldown with
  | some found =>
      rw [hpriority] at hturn
      cases hturn
      exact remaining_priorityTurn hpriority
  | none =>
      rw [hpriority] at hturn
      exact remaining_orderTurn hturn

/-! ### Whole selections -/

/-- A selection takes turns until one hands out a peer or none is left. -/
theorem selectNextSyncPeer_turns (state : NeighborSyncState H) (now cooldown : Nat) :
    ∃ turns, Turns now cooldown state turns (state.selectNextSyncPeer now cooldown).2 ∧
      (state.selectNextSyncPeer now cooldown).1.toList =
        turns.filterMap SelectionTurn.selected? := by
  induction hremaining : state.remaining using Nat.strong_induction_on generalizing state with
  | h n ih =>
      rw [selectNextSyncPeer_eq]
      cases hturn : state.turn now cooldown with
      | none => exact ⟨[], .nil state, rfl⟩
      | some turn =>
          cases turn with
          | selected peer next => exact ⟨[.selected peer next], .cons hturn (.nil next), rfl⟩
          | onCooldown peer next =>
              have hlt : next.remaining < n := hremaining ▸ remaining_turn hturn
              obtain ⟨turns, hturns, hselected⟩ := ih next.remaining hlt next rfl
              exact ⟨.onCooldown peer next :: turns, .cons hturn hturns, hselected⟩

theorem fillBatch_turns (state : NeighborSyncState H) (now cooldown slots : Nat) :
    (∃ turns, Turns now cooldown state turns (state.fillBatch now cooldown slots).2 ∧
      (state.fillBatch now cooldown slots).1 = turns.filterMap SelectionTurn.selected?) ∧
      (state.fillBatch now cooldown slots).1.length ≤ slots := by
  induction slots generalizing state with
  | zero => exact ⟨⟨[], .nil state, rfl⟩, le_rfl⟩
  | succ slots ih =>
      obtain ⟨turns, hturns, hselected⟩ := selectNextSyncPeer_turns state now cooldown
      unfold fillBatch
      rcases hselect : state.selectNextSyncPeer now cooldown with ⟨_ | peer, next⟩
      · rw [hselect] at hturns hselected
        exact ⟨⟨turns, hturns, hselected⟩, Nat.zero_le _⟩
      · rw [hselect] at hturns hselected
        obtain ⟨⟨later, hlater, hbatch⟩, hlen⟩ := ih next
        refine ⟨⟨turns ++ later, hturns.append hlater, ?_⟩, Nat.succ_le_succ hlen⟩
        rw [List.filterMap_append, ← hselected, ← hbatch]
        rfl

/-- The turns reach pending peers, each once, and leave the others pending. -/
theorem Turns.spec {turns : List (SelectionTurn H)} (hturns : Turns now cooldown state turns next)
    (hstate : state.Consistent) :
    next.Consistent ∧ (turns.map SelectionTurn.peer).Nodup ∧
      (∀ peer ∈ turns.map SelectionTurn.peer, state.Pending peer) ∧
      ∀ peer, next.Pending peer ↔ state.Pending peer ∧ peer ∉ turns.map SelectionTurn.peer := by
  induction hturns with
  | nil state => simpa using hstate
  | @cons state last turn turns hturn hturns ih =>
      have hreaches := turn_reaches hstate hturn
      obtain ⟨hlast, hnodup, hpending, hafter⟩ := ih hreaches.consistent
      have hfresh : turn.peer ∉ turns.map SelectionTurn.peer := by
        intro hmem
        exact ((hreaches.pending_next _).mp (hpending _ hmem)).2 rfl
      refine ⟨hlast, List.nodup_cons.mpr ⟨hfresh, hnodup⟩, ?_, fun peer => ?_⟩
      · intro peer hmem
        rcases List.mem_cons.mp hmem with rfl | hmem
        · exact hreaches.pending
        · exact ((hreaches.pending_next _).mp (hpending _ hmem)).1
      · rw [hafter, hreaches.pending_next, List.map_cons, List.mem_cons, not_or, and_assoc]

theorem Turns.split {turn : SelectionTurn H} {turns : List (SelectionTurn H)}
    (hturns : Turns now cooldown state turns next) (hmem : turn ∈ turns) :
    ∃ before reached after, Turns now cooldown state before reached ∧
      reached.turn now cooldown = some turn ∧ Turns now cooldown turn.next after next := by
  induction hturns with
  | nil state => cases hmem
  | @cons state last first turns hturn hturns ih =>
      rcases List.mem_cons.mp hmem with rfl | hmem
      · exact ⟨[], state, turns, .nil state, hturn, hturns⟩
      · obtain ⟨before, reached, after, hbefore, hreached, hafter⟩ := ih hmem
        exact ⟨first :: before, reached, after, .cons hturn hbefore, hreached, hafter⟩

/-! ### What an operation does to the pending peers -/

/-- Where the selection loops of an operation start, with its clock reading and cooldown. -/
def selection (state : NeighborSyncState H) : Op H → Option (NeighborSyncState H × Nat × Nat)
  | .selectBatch _ cooldown now => some (state, now, cooldown)
  | .syncFailure failedPeer cooldown now => some ((state.removePeer failedPeer).2, now, cooldown)
  | _ => none

def HandsOut (peer : H) (state : NeighborSyncState H) (op : Op H) : Prop :=
  peer ∈ state.handedOut op

/-- A loop of the operation reaches the peer and finds it on cooldown. -/
def FindsOnCooldown (peer : H) (state : NeighborSyncState H) (op : Op H) : Prop :=
  ∃ start now cooldown, state.selection op = some (start, now, cooldown) ∧
    ∃ before reached next after, Turns now cooldown start before reached ∧
      reached.peerOnCooldown peer now cooldown = true ∧
      reached.turn now cooldown = some (.onCooldown peer next) ∧
      Turns now cooldown next after (state.apply op)

/-- The operation removes the peer by a failed sync, by a retain or by name. -/
def Removes (peer : H) (_ : NeighborSyncState H) : Op H → Prop
  | .syncFailure failedPeer _ _ => failedPeer = peer
  | .retain closePeers => peer ∉ closePeers
  | .remove removed => removed = peer
  | _ => False

def Enqueues (peer : H) (state : NeighborSyncState H) (op : Op H) : Prop :=
  ∃ peers, op = .queuePriority peers ∧ peer ∈ peers ∧ peer ∉ state.priorityOrder

/-- The operation ends the cycle. -/
def Swaps (state : NeighborSyncState H) (op : Op H) : Prop :=
  ∃ neighbors, op = .swap neighbors ∧ state.isCycleComplete = true

/-- What an operation that does not end the cycle does to the pending peers. -/
structure Advances (state : NeighborSyncState H) (op : Op H) : Prop where
  consistent : (state.apply op).Consistent
  handedOut_nodup : (state.handedOut op).Nodup
  handedOut_pending : ∀ peer ∈ state.handedOut op,
    state.Pending peer ∧ ¬ (state.apply op).Pending peer
  pending_apply : ∀ peer, (state.apply op).Pending peer → state.Pending peer ∨ Enqueues peer state op
  pending : ∀ peer, state.Pending peer → (state.apply op).Pending peer ∨
    HandsOut peer state op ∨ FindsOnCooldown peer state op ∨ Removes peer state op

/-- An operation that runs the selection loops from some of the pending peers. -/
theorem Advances.of_turns {op : Op H} {start : NeighborSyncState H} {turns : List (SelectionTurn H)}
    (hselection : state.selection op = some (start, now, cooldown)) (hstart : start.Consistent)
    (hturns : Turns now cooldown start turns (state.apply op))
    (hselected : state.handedOut op = turns.filterMap SelectionTurn.selected?)
    (hpending : ∀ peer, start.Pending peer → state.Pending peer)
    (hremoved : ∀ peer, state.Pending peer → start.Pending peer ∨ Removes peer state op) :
    state.Advances op := by
  obtain ⟨hnext, hnodup, hreached, hafter⟩ := hturns.spec hstart
  have hsub := SelectionTurn.selected_sublist turns
  refine ⟨hnext, ?_, fun peer hmem => ?_, fun peer hpeer => ?_, fun peer hpeer => ?_⟩
  · rw [hselected]
    exact hnodup.sublist hsub
  · rw [hselected] at hmem
    have hmem := hsub.subset hmem
    exact ⟨hpending peer (hreached peer hmem), fun hstill => ((hafter peer).mp hstill).2 hmem⟩
  · exact .inl (hpending peer ((hafter peer).mp hpeer).1)
  · rcases hremoved peer hpeer with hpeer | hremoved
    · by_cases hmem : peer ∈ turns.map SelectionTurn.peer
      · obtain ⟨turn, hturn, rfl⟩ := List.mem_map.mp hmem
        cases turn with
        | selected peer next =>
            have hhanded : peer ∈ state.handedOut op := by
              rw [hselected]
              exact List.mem_filterMap.mpr ⟨_, hturn, rfl⟩
            exact .inr (.inl hhanded)
        | onCooldown peer next =>
            obtain ⟨before, reached, after, hbefore, hat, hrest⟩ := hturns.split hturn
            have hreaches := turn_reaches (hbefore.spec hstart).1 hat
            exact .inr (.inr (.inl ⟨start, now, cooldown, hselection, before, reached, next, after,
              hbefore, hreaches.onCooldown.mp rfl, hat, hrest⟩))
      · exact .inl ((hafter peer).mpr ⟨hpeer, hmem⟩)
    · exact .inr (.inr (.inr hremoved))

theorem Advances.of_keep {op : Op H} {p : H → Bool} (hstate : state.Consistent)
    (happly : state.apply op = state.keep p) (hnone : state.handedOut op = [])
    (hremoved : ∀ peer, p peer = false → Removes peer state op) : state.Advances op := by
  refine ⟨happly ▸ hstate.keep p, hnone ▸ List.nodup_nil, ?_, fun peer hpeer => ?_,
    fun peer hpeer => ?_⟩
  · rw [hnone]
    nofun
  · rw [happly, pending_keep] at hpeer
    exact .inl hpeer.1
  · cases hkept : p peer with
    | true =>
        left
        rw [happly, pending_keep]
        exact ⟨hpeer, hkept⟩
    | false => exact .inr (.inr (.inr (hremoved peer hkept)))

/-- An operation that leaves both lists and the cursor alone. -/
theorem Advances.of_same {op : Op H} (hstate : state.Consistent)
    (hpriority : (state.apply op).priorityOrder = state.priorityOrder)
    (horder : (state.apply op).order = state.order)
    (hcursor : (state.apply op).cursor = state.cursor) (hnone : state.handedOut op = []) :
    state.Advances op := by
  have hpending : ∀ peer, (state.apply op).Pending peer ↔ state.Pending peer := by
    intro peer
    rw [Pending, hpriority, horder, hcursor, Pending]
  refine ⟨⟨?_, ?_, ?_⟩, hnone ▸ List.nodup_nil, ?_, fun peer hpeer => ?_, fun peer hpeer => ?_⟩
  · rw [hcursor, horder]
    exact hstate.cursor_le
  · rw [horder]
    exact hstate.order_nodup
  · rw [hpriority]
    exact hstate.priority_nodup
  · rw [hnone]
    nofun
  · exact .inl ((hpending peer).mp hpeer)
  · exact .inl ((hpending peer).mpr hpeer)

theorem queuePriorityPeers_spec (hstate : state.Consistent) (peers : List H) :
    (state.queuePriorityPeers peers).2.Consistent ∧
      (∀ peer, peer ∈ (state.queuePriorityPeers peers).2.priorityOrder ↔
        peer ∈ state.priorityOrder ∨ peer ∈ peers) ∧
      (state.queuePriorityPeers peers).2.order = state.order ∧
      (state.queuePriorityPeers peers).2.cursor = state.cursor := by
  induction peers generalizing state with
  | nil => exact ⟨hstate, by simp [queuePriorityPeers], rfl, rfl⟩
  | cons first peers ih =>
      unfold queuePriorityPeers
      split_ifs with hqueued
      · obtain ⟨hnext, hmem, horder, hcursor⟩ := ih hstate
        refine ⟨hnext, fun peer => ?_, horder, hcursor⟩
        rw [hmem, List.mem_cons]
        constructor
        · rintro (hold | hnew)
          · exact .inl hold
          · exact .inr (.inr hnew)
        · rintro (hold | rfl | hnew)
          · exact .inl hold
          · exact .inl hqueued
          · exact .inr hnew
      · have hpushed : ({ state with priorityOrder := state.priorityOrder ++ [first] } :
            NeighborSyncState H).Consistent := by
          refine ⟨hstate.cursor_le, hstate.order_nodup, ?_⟩
          rw [← List.concat_eq_append]
          exact hstate.priority_nodup.concat hqueued
        obtain ⟨hnext, hmem, horder, hcursor⟩ := ih hpushed
        refine ⟨hnext, fun peer => ?_, horder, hcursor⟩
        rw [hmem, List.mem_append, List.mem_singleton, List.mem_cons, or_assoc]

theorem advances_queuePriority (hstate : state.Consistent) (peers : List H) :
    state.Advances (.queuePriority peers) := by
  obtain ⟨hnext, hmem, horder, hcursor⟩ := queuePriorityPeers_spec hstate peers
  refine ⟨hnext, List.nodup_nil, nofun, fun peer hpeer => ?_, fun peer hpeer => ?_⟩
  · rcases hpeer with hpriority | hdrop
    · rcases (hmem peer).mp hpriority with hold | hnew
      · exact .inl (.inl hold)
      · by_cases hold : peer ∈ state.priorityOrder
        · exact .inl (.inl hold)
        · exact .inr ⟨peers, rfl, hnew, hold⟩
    · refine .inl (.inr ?_)
      simpa only [apply, horder, hcursor] using hdrop
  · left
    rcases hpeer with hpriority | hdrop
    · exact .inl ((hmem peer).mpr (.inl hpriority))
    · refine .inr ?_
      simpa only [apply, horder, hcursor] using hdrop

theorem advances (hstate : state.Consistent) {op : Op H} (hswap : ¬ Swaps state op) :
    state.Advances op := by
  cases op with
  | selectBatch peerCount cooldown now =>
      obtain ⟨⟨turns, hturns, hbatch⟩, -⟩ := fillBatch_turns state now cooldown peerCount
      exact .of_turns rfl hstate hturns hbatch (fun _ hpeer => hpeer) fun _ hpeer => .inl hpeer
  | syncFailure failedPeer cooldown now =>
      have hkeep := removePeer_eq_keep hstate failedPeer
      obtain ⟨turns, hturns, hselected⟩ :=
        selectNextSyncPeer_turns (state.removePeer failedPeer).2 now cooldown
      refine .of_turns rfl (hkeep ▸ hstate.keep _) hturns hselected (fun peer hpeer => ?_)
        fun peer hpeer => ?_
      · rw [hkeep, pending_keep] at hpeer
        exact hpeer.1
      · by_cases heq : failedPeer = peer
        · exact .inr heq
        · left
          rw [hkeep, pending_keep]
          exact ⟨hpeer, by simpa using fun h => heq h.symm⟩
  | syncSuccess peer now => exact .of_same hstate rfl rfl rfl rfl
  | queuePriority peers => exact advances_queuePriority hstate peers
  | retain closePeers =>
      exact .of_keep hstate (retainSyncPeers_eq_keep state closePeers) rfl (by simp [Removes])
  | remove peer =>
      refine .of_keep hstate (removePeer_eq_keep hstate peer) rfl fun other hother => ?_
      have heq : other = peer := by simpa using hother
      exact heq.symm
  | swap neighbors =>
      have hincomplete : ¬ state.isCycleComplete = true := fun hc => hswap ⟨neighbors, rfl, hc⟩
      have happly : state.apply (.swap neighbors) = state := by
        simp [apply, swapCycle, hincomplete]
      exact .of_same hstate (by rw [happly]) (by rw [happly]) (by rw [happly]) rfl
  | observeClaim peer now gracePeriod =>
      have hsame : ∃ bootstrapClaims bootstrapClaimHistory,
          state.apply (.observeClaim peer now gracePeriod) =
            { state with bootstrapClaims, bootstrapClaimHistory } := by
        unfold apply observeBootstrapClaim
        dsimp only
        repeat' split
        all_goals exact ⟨_, _, rfl⟩
      obtain ⟨claims, history, happly⟩ := hsame
      exact .of_same hstate (by rw [happly]) (by rw [happly]) (by rw [happly]) rfl
  | clearClaim peer => exact .of_same hstate rfl rfl rfl rfl
  | pruned storedKeyCount scanStart lastSelectedOffset =>
      have hsame : ∃ pruneCursor, state.apply (.pruned storedKeyCount scanStart lastSelectedOffset) =
          { state with pruneCursor } := by
        unfold apply advancePruneCursor
        dsimp only
        split_ifs <;> exact ⟨_, rfl⟩
      obtain ⟨pruneCursor, happly⟩ := hsame
      exact .of_same hstate (by rw [happly]) (by rw [happly]) (by rw [happly]) rfl

/-! ### Cycles -/

theorem apply_swap_of_isCycleComplete (hcomplete : state.isCycleComplete = true)
    (neighbors : List H) :
    (state.apply (.swap neighbors)).priorityOrder = [] ∧
      (state.apply (.swap neighbors)).order = neighbors ∧
      (state.apply (.swap neighbors)).cursor = 0 := by
  simp [apply, swapCycle, hcomplete, newCycle]

theorem Consistent.apply (hstate : state.Consistent) {op : Op H}
    (hdistinct : DistinctSnapshots [op]) :
    (state.apply op).Consistent := by
  by_cases hswap : Swaps state op
  · obtain ⟨neighbors, rfl, hcomplete⟩ := hswap
    obtain ⟨hpriority, horder, hcursor⟩ := apply_swap_of_isCycleComplete hcomplete neighbors
    refine ⟨?_, ?_, ?_⟩
    · rw [hcursor]
      exact Nat.zero_le _
    · rw [horder]
      exact hdistinct neighbors (by simp)
    · rw [hpriority]
      exact List.nodup_nil
  · exact (advances hstate hswap).consistent

variable {ops : List (Op H)}

theorem Consistent.run (hstate : state.Consistent) (hdistinct : DistinctSnapshots ops)
    (hrun : Runs.run step state ops = some next) : next.Consistent := by
  have hsteps : Runs.Along step (fun _ op => DistinctSnapshots [op]) state ops := by
    apply Runs.along_of_forall
    intro op hop _
    exact hdistinct.of_subset (by simpa using hop)
  refine Runs.invariant_of_run (fun s op s' hs hok hs' => ?_) hstate hsteps hrun
  obtain rfl : s.apply op = s' := Option.some.inj hs'
  exact hs.apply hok

/-- A peer becomes pending only when it is queued or a cycle starts. -/
theorem occurred_of_pending (hstate : state.Consistent) (hdistinct : DistinctSnapshots ops)
    (hrun : Runs.run step state ops = some next) (hnot : ¬ state.Pending peer)
    (hpending : next.Pending peer) :
    Runs.Occurred step (fun s op => Enqueues peer s op ∨ Swaps s op) state ops := by
  refine Runs.history_induction (I := fun ops next => DistinctSnapshots ops → next.Pending peer →
    Runs.Occurred step (fun s op => Enqueues peer s op ∨ Swaps s op) state ops)
    (fun _ hpending => absurd hpending hnot) ?_ hrun hdistinct hpending
  intro ops mid op next hmid ih hnext hdistinct hpending
  obtain rfl : mid.apply op = next := Option.some.inj hnext
  have hbefore : DistinctSnapshots ops := hdistinct.of_subset (List.subset_append_left ops [op])
  by_cases hswap : Swaps mid op
  · exact Runs.occurred_concat_self hmid (.inr hswap)
  · have hadvances := advances (hstate.run hbefore hmid) hswap
    rcases hadvances.pending_apply peer hpending with hold | henqueues
    · exact (ih hbefore hold).concat op
    · exact Runs.occurred_concat_self hmid (.inl henqueues)

/-- The peer is handed out, found on cooldown or removed. -/
def Settles (peer : H) (state : NeighborSyncState H) (op : Op H) : Prop :=
  HandsOut peer state op ∨ FindsOnCooldown peer state op ∨ Removes peer state op

/-- Within a cycle a pending peer stays pending until it is settled. -/
theorem pending_or_settled (hstate : state.Consistent) (hdistinct : DistinctSnapshots ops)
    (hrun : Runs.run step state ops = some next) (hpending : state.Pending peer)
    (hcycle : ¬ Runs.Occurred step Swaps state ops) :
    next.Pending peer ∨ Runs.Occurred step (Settles peer) state ops := by
  refine Runs.history_induction (I := fun ops next => DistinctSnapshots ops →
    ¬ Runs.Occurred step Swaps state ops →
    next.Pending peer ∨ Runs.Occurred step (Settles peer) state ops)
    (fun _ _ => .inl hpending) ?_ hrun hdistinct hcycle
  intro ops mid op next hmid ih hnext hdistinct hcycle
  obtain rfl : mid.apply op = next := Option.some.inj hnext
  have hbefore : DistinctSnapshots ops := hdistinct.of_subset (List.subset_append_left ops [op])
  have hcycleBefore : ¬ Runs.Occurred step Swaps state ops :=
    fun hoccurred => hcycle (hoccurred.concat op)
  have hswap : ¬ Swaps mid op := fun hswap => hcycle (Runs.occurred_concat_self hmid hswap)
  rcases ih hbefore hcycleBefore with hpending | hsettled
  · rcases (advances (hstate.run hbefore hmid) hswap).pending peer hpending with hstill | hsettles
    · exact .inl hstill
    · exact .inr (Runs.occurred_concat_self hmid hsettles)
  · exact .inr (hsettled.concat op)

/-- A cycle starts with the given snapshot after the given operations. -/
def StartsCycle (initial : List H) (before : List (Op H)) (snapshot : List H)
    (start : NeighborSyncState H) : Prop :=
  Runs.run step (newCycle initial) before = some start ∧
    (before = [] ∧ snapshot = initial ∨
      ∃ earlier ended, before = earlier ++ [.swap snapshot] ∧
        Runs.run step (newCycle initial) earlier = some ended ∧ ended.isCycleComplete = true)

theorem StartsCycle.pending {initial snapshot : List H} {before : List (Op H)}
    {start : NeighborSyncState H} (hstart : StartsCycle initial before snapshot start)
    (hpeer : peer ∈ snapshot) : start.Pending peer := by
  obtain ⟨hrun, ⟨rfl, rfl⟩ | ⟨earlier, ended, rfl, hended, hcomplete⟩⟩ := hstart
  · obtain rfl : newCycle snapshot = start := Option.some.inj hrun
    exact .inr hpeer
  · obtain ⟨mid, hmid, hlast⟩ := Runs.run_concat_eq_some.mp hrun
    obtain rfl : ended = mid := Option.some.inj (hended.symm.trans hmid)
    obtain rfl : ended.apply (.swap snapshot) = start := Option.some.inj hlast
    obtain ⟨-, horder, hcursor⟩ := apply_swap_of_isCycleComplete hcomplete snapshot
    refine .inr ?_
    rw [horder, hcursor]
    exact hpeer

theorem Consistent.handedOut_nodup (hstate : state.Consistent) (op : Op H) :
    (state.handedOut op).Nodup := by
  by_cases hswap : Swaps state op
  · obtain ⟨neighbors, rfl, -⟩ := hswap
    exact List.nodup_nil
  · exact (advances hstate hswap).handedOut_nodup

theorem Consistent.pending_of_handsOut (hstate : state.Consistent) {op : Op H}
    (hhands : HandsOut peer state op) :
    state.Pending peer ∧ ¬ (state.apply op).Pending peer := by
  have hswap : ¬ Swaps state op := by
    rintro ⟨neighbors, rfl, -⟩
    cases hhands
  exact (advances hstate hswap).handedOut_pending peer hhands

theorem Consistent.selection (hstate : state.Consistent) {op : Op H} {start : NeighborSyncState H}
    (hselection : state.selection op = some (start, now, cooldown)) : start.Consistent := by
  cases op with
  | selectBatch peerCount cooldown now =>
      cases hselection
      exact hstate
  | syncFailure failedPeer cooldown now =>
      cases hselection
      rw [removePeer_eq_keep hstate]
      exact hstate.keep _
  | _ => cases hselection

theorem enqueued_between {op earlier : Op H} (hstate : state.Consistent)
    (hdistinct : DistinctSnapshots (earlier :: ops)) (hhands : HandsOut peer state earlier)
    (hrun : Runs.run step (state.apply earlier) ops = some next)
    (hagain : HandsOut peer next op)
    (hcycle : ¬ Runs.Occurred step Swaps (state.apply earlier) ops) :
    Runs.Occurred step (Enqueues peer) (state.apply earlier) ops := by
  have hops : DistinctSnapshots ops := hdistinct.of_subset (List.subset_cons_self earlier ops)
  have hafter : (state.apply earlier).Consistent :=
    hstate.apply (hdistinct.of_subset (by simp))
  have hpending := (hafter.run hops hrun).pending_of_handsOut hagain
  have hgone := hstate.pending_of_handsOut hhands
  obtain ⟨before, op', after, s, hsplit, hs, henqueues | hswaps⟩ :=
    occurred_of_pending hafter hops hrun hgone.2 hpending.1
  · exact ⟨before, op', after, s, hsplit, hs, henqueues⟩
  · exact absurd ⟨before, op', after, s, hsplit, hs, hswaps⟩ hcycle

/-- In every run from a snapshot without duplicates the cursor and the two lists stay well formed, a
peer is handed out a second time in a cycle only if it was queued in between, a complete cycle has
settled every peer of its snapshot, and no turn of the selection loops is for nothing. -/
theorem cycle_covers_snapshot {initial : List H} (hinitial : initial.Nodup)
    (hdistinct : DistinctSnapshots ops)
    (hrun : Runs.run step (newCycle initial) ops = some state) :
    state.cursor ≤ state.order.length ∧ state.order.Nodup ∧ state.priorityOrder.Nodup ∧
      (∀ op, (state.handedOut op).Nodup) ∧
      (∀ peer op before earlier between first, ops = before ++ earlier :: between →
        Runs.run step (newCycle initial) before = some first → HandsOut peer first earlier →
        HandsOut peer state op → ¬ Runs.Occurred step Swaps (first.apply earlier) between →
        Runs.Occurred step (Enqueues peer) (first.apply earlier) between) ∧
      (∀ peerCount cooldown now, (state.selectSyncBatch peerCount cooldown now).1.Nodup ∧
        (state.selectSyncBatch peerCount cooldown now).1.length ≤ peerCount) ∧
      (state.isCycleComplete = true → ∀ before cycle snapshot start, ops = before ++ cycle →
        StartsCycle initial before snapshot start → ¬ Runs.Occurred step Swaps start cycle →
        ∀ peer ∈ snapshot, Runs.Occurred step (Settles peer) start cycle) ∧
      (∀ neighbors, ∀ peer ∈ state.priorityOrder,
        peer ∈ (state.swapCycle neighbors).priorityOrder) ∧
      ∀ op start now cooldown turns reached turn,
        state.selection op = some (start, now, cooldown) →
        Turns now cooldown start turns reached → reached.turn now cooldown = some turn →
        turn.next.priorityOrder.length + turn.next.order.length - turn.next.cursor <
          reached.priorityOrder.length + reached.order.length - reached.cursor := by
  have hconsistent := consistent_newCycle hinitial
  have hstate := hconsistent.run hdistinct hrun
  refine ⟨hstate.cursor_le, hstate.order_nodup, hstate.priority_nodup, hstate.handedOut_nodup,
    ?_, ?_, ?_, fun neighbors peer hqueued => priorityOrder_swapCycle hqueued neighbors, ?_⟩
  · intro peer op before earlier between first hops hfirst hhands hagain hcycle
    subst hops
    obtain ⟨mid, hmid, hrest⟩ := Runs.run_append_eq_some.mp hrun
    obtain rfl : first = mid := Option.some.inj (hfirst.symm.trans hmid)
    obtain ⟨next, hnext, hrest⟩ := Runs.run_cons_eq_some.mp hrest
    obtain rfl : first.apply earlier = next := Option.some.inj hnext
    have hatFirst : first.Consistent :=
      hconsistent.run (hdistinct.of_subset (List.subset_append_left before _)) hfirst
    exact enqueued_between hatFirst (hdistinct.of_subset (List.subset_append_right before _)) hhands
      hrest hagain hcycle
  · intro peerCount cooldown now
    exact ⟨hstate.handedOut_nodup (.selectBatch peerCount cooldown now),
      (fillBatch_turns state now cooldown peerCount).2⟩
  · intro hcomplete before cycle snapshot start hops hstart hcycle peer hpeer
    subst hops
    obtain ⟨mid, hmid, hrest⟩ := Runs.run_append_eq_some.mp hrun
    obtain rfl : start = mid := Option.some.inj (hstart.1.symm.trans hmid)
    have hatStart : start.Consistent :=
      hconsistent.run (hdistinct.of_subset (List.subset_append_left before cycle)) hmid
    have hcycleDistinct : DistinctSnapshots cycle :=
      hdistinct.of_subset (List.subset_append_right before cycle)
    rcases pending_or_settled hatStart hcycleDistinct hrest (hstart.pending hpeer) hcycle with
      hpending | hsettled
    · exact absurd hpending (not_pending_of_isCycleComplete hcomplete)
    · exact hsettled
  · intro op start now cooldown turns reached turn hselection hturns hturn
    have hreached := (hturns.spec (hstate.selection hselection)).1
    have hle := (turn_reaches hreached hturn).consistent.cursor_le
    have hlt := remaining_turn hturn
    have hcursor := hreached.cursor_le
    unfold remaining at hlt
    omega

end NeighborSyncState

namespace Transcript

open NeighborSyncState

/-- One neighbor was synced a moment ago, and another is queued again after its sync. -/
def churnedCycle : List (Op Transcript) :=
  [.syncSuccess ⟨[2]⟩ 5, .selectBatch 2 100 10, .queuePriority [⟨[1]⟩], .selectBatch 2 100 20]

theorem cycle_covers_snapshot_churned :
    ∃ state, Runs.run step (newCycle [⟨[1]⟩, ⟨[2]⟩, ⟨[3]⟩]) churnedCycle = some state ∧
      state.isCycleComplete = true ∧
      Runs.Occurred step (Settles ⟨[2]⟩) (newCycle [⟨[1]⟩, ⟨[2]⟩, ⟨[3]⟩]) churnedCycle := by
  have hrun : (Runs.run step (newCycle [⟨[1]⟩, ⟨[2]⟩, ⟨[3]⟩]) churnedCycle).map isCycleComplete =
      some true := by
    decide +kernel
  obtain ⟨state, hrun, hcomplete⟩ := Option.map_eq_some_iff.mp hrun
  have hnoSwap : ¬ Runs.Occurred step Swaps (newCycle [⟨[1]⟩, ⟨[2]⟩, ⟨[3]⟩]) churnedCycle := by
    rintro ⟨before, op, after, mid, hsplit, -, neighbors, rfl, -⟩
    have hmem : .swap neighbors ∈ churnedCycle := hsplit ▸ by simp
    simp [churnedCycle] at hmem
  have hcovers := cycle_covers_snapshot (by decide) (by simp [DistinctSnapshots, churnedCycle]) hrun
  obtain ⟨-, -, -, -, -, -, hsettled, -⟩ := hcovers
  exact ⟨state, hrun, hcomplete, hsettled hcomplete [] churnedCycle _ _ rfl ⟨rfl, .inl ⟨rfl, rfl⟩⟩
    hnoSwap ⟨[2]⟩ (by simp)⟩

end Transcript

end AntNode
