import AntNode.Proof.SyncCoverage

/-!
# One grace window for each peer

The first claim of a peer is written into both claim maps. A clear takes it out of the active one
only, and neither the end of a cycle nor any other operation touches the entries of the peer, so what
a later claim of it is answered with depends on the first claim and on whether there was a clear.
-/

namespace AntNode

variable {H : Type} [Digest H]

def BootstrapClaimObservation.firstSeen : BootstrapClaimObservation → Nat
  | .withinGrace firstSeen => firstSeen
  | .pastGrace firstSeen => firstSeen
  | .repeated firstSeen => firstSeen

namespace NeighborSyncState

/-- The active claim of a peer and its first claim ever. -/
def claimsOf (state : NeighborSyncState H) (peer : H) : Option Nat × Option Nat :=
  (state.bootstrapClaims.lookup peer, state.bootstrapClaimHistory.lookup peer)

variable {state next : NeighborSyncState H} {ops : List (Op H)} {peer : H} {first : Nat}

theorem claimsOf_removePeer (state : NeighborSyncState H) (removed : H) :
    (state.removePeer removed).2.claimsOf peer = state.claimsOf peer := by
  unfold removePeer
  cases state.order.idxOf? removed <;> rfl

theorem claimsOf_turn {turn : SelectionTurn H} {now cooldown : Nat}
    (hturn : state.turn now cooldown = some turn) :
    turn.next.claimsOf peer = state.claimsOf peer := by
  unfold NeighborSyncState.turn priorityTurn orderTurn at hturn
  cases hqueued : state.priorityOrder with
  | cons popped queued =>
      simp only [hqueued] at hturn
      split_ifs at hturn <;> cases hturn <;> exact claimsOf_removePeer ..
  | nil =>
      cases hpeer : state.order[state.cursor]? with
      | none => simp [hqueued, hpeer] at hturn
      | some reached =>
          simp only [hqueued, hpeer] at hturn
          split_ifs at hturn <;> cases hturn <;> rfl

theorem Turns.claimsOf {turns : List (SelectionTurn H)} {now cooldown : Nat}
    (hturns : Turns now cooldown state turns next) : next.claimsOf peer = state.claimsOf peer := by
  induction hturns with
  | nil state => rfl
  | cons hturn hturns ih => rw [ih, claimsOf_turn hturn]

theorem claimsOf_queuePriorityPeers (state : NeighborSyncState H) (peers : List H) :
    (state.queuePriorityPeers peers).2.claimsOf peer = state.claimsOf peer := by
  induction peers generalizing state with
  | nil => rfl
  | cons queued peers ih =>
      unfold queuePriorityPeers
      split_ifs
      · exact ih state
      · exact ih _

theorem claimsOf_observeClaim_of_ne (state : NeighborSyncState H) {other : H} (hne : peer ≠ other)
    (now gracePeriod : Nat) :
    (state.observeBootstrapClaim other now gracePeriod).2.claimsOf peer = state.claimsOf peer := by
  unfold observeBootstrapClaim
  repeat' split
  all_goals simp [claimsOf, Finmap.lookup_insert_of_ne _ hne]

/-- Only a claim of the peer or a clear of it writes its entries. -/
theorem claimsOf_apply (state : NeighborSyncState H) {op : Op H}
    (hobserve : ∀ now gracePeriod, op ≠ .observeClaim peer now gracePeriod)
    (hclear : op ≠ .clearClaim peer) : (state.apply op).claimsOf peer = state.claimsOf peer := by
  cases op with
  | selectBatch peerCount cooldown now =>
      obtain ⟨⟨turns, hturns, -⟩, -⟩ := fillBatch_turns state now cooldown peerCount
      exact hturns.claimsOf
  | syncFailure failedPeer cooldown now =>
      obtain ⟨turns, hturns, -⟩ :=
        selectNextSyncPeer_turns (state.removePeer failedPeer).2 now cooldown
      exact hturns.claimsOf.trans (claimsOf_removePeer state failedPeer)
  | syncSuccess synced now => rfl
  | queuePriority peers => exact claimsOf_queuePriorityPeers state peers
  | retain closePeers => rfl
  | remove removed => exact claimsOf_removePeer state removed
  | swap neighbors =>
      unfold apply swapCycle
      dsimp only
      split_ifs <;> rfl
  | observeClaim other now gracePeriod =>
      apply claimsOf_observeClaim_of_ne
      rintro rfl
      exact hobserve now gracePeriod rfl
  | clearClaim other =>
      have hne : peer ≠ other := by
        rintro rfl
        exact hclear rfl
      simp [apply, clearActiveBootstrapClaim, claimsOf, Finmap.lookup_erase_ne hne]
  | pruned storedKeyCount scanStart lastSelectedOffset =>
      unfold apply advancePruneCursor
      dsimp only
      split_ifs <;> rfl

/-- A claim of a peer that has claimed before changes nothing. -/
theorem observeBootstrapClaim_of_known (state : NeighborSyncState H)
    (hhistory : state.bootstrapClaimHistory.lookup peer = some first) (now gracePeriod : Nat) :
    (state.observeBootstrapClaim peer now gracePeriod).2 = state := by
  unfold observeBootstrapClaim
  cases hactive : state.bootstrapClaims.lookup peer with
  | some active =>
      dsimp only
      split_ifs <;> rfl
  | none => rw [hhistory]

def Unclaimed (peer : H) (state : NeighborSyncState H) : Prop :=
  state.claimsOf peer = (none, none)

/-- A peer that has never claimed to be bootstrapping has no entry. -/
theorem unclaimed_of_run {initial : List H}
    (hrun : Runs.run step (newCycle initial) ops = some state)
    (hunclaimed : ∀ now gracePeriod, .observeClaim peer now gracePeriod ∉ ops) :
    Unclaimed peer state := by
  have hinitial : Unclaimed peer (newCycle initial) := rfl
  have hsteps : Runs.Along step (fun _ op => ∀ now gracePeriod,
      op ≠ .observeClaim peer now gracePeriod) (newCycle initial) ops := by
    apply Runs.along_of_forall
    rintro op hop _ now gracePeriod rfl
    exact hunclaimed now gracePeriod hop
  refine Runs.invariant_of_run (fun s op s' hs hok hs' => ?_) hinitial hsteps hrun
  obtain rfl : s.apply op = s' := Option.some.inj hs'
  by_cases hclear : op = .clearClaim peer
  · subst hclear
    have hnone : s.bootstrapClaimHistory.lookup peer = none := congrArg Prod.snd hs
    simp [Unclaimed, apply, clearActiveBootstrapClaim, claimsOf, hnone, Finmap.lookup_erase]
  · exact (claimsOf_apply s hok hclear).trans hs

theorem claimsOf_first (hunclaimed : Unclaimed peer state) (now gracePeriod : Nat) :
    (state.apply (.observeClaim peer now gracePeriod)).claimsOf peer = (some now, some now) := by
  obtain ⟨hactive, hhistory⟩ := Prod.mk.inj hunclaimed
  simp [apply, observeBootstrapClaim, claimsOf, hactive, hhistory, Finmap.lookup_insert]

/-- From its first claim on a peer keeps that time, and its active entry until a clear. -/
theorem claimsOf_since_first (hrun : Runs.run step state ops = some next)
    (hfirst : state.claimsOf peer = (some first, some first)) :
    next.claimsOf peer = (some first, some first) ∧ .clearClaim peer ∉ ops ∨
      next.claimsOf peer = (none, some first) ∧ .clearClaim peer ∈ ops := by
  refine Runs.history_induction (I := fun ops next =>
    next.claimsOf peer = (some first, some first) ∧ .clearClaim peer ∉ ops ∨
      next.claimsOf peer = (none, some first) ∧ .clearClaim peer ∈ ops)
    (.inl ⟨hfirst, List.not_mem_nil⟩) (fun ops mid op next hmid ih hnext => ?_) hrun
  obtain rfl : mid.apply op = next := Option.some.inj hnext
  have hhistory : mid.bootstrapClaimHistory.lookup peer = some first := by
    rcases ih with ⟨hclaims, -⟩ | ⟨hclaims, -⟩ <;> exact congrArg Prod.snd hclaims
  by_cases hclear : op = .clearClaim peer
  · subst hclear
    refine .inr ⟨?_, by simp⟩
    simp [apply, clearActiveBootstrapClaim, claimsOf, hhistory, Finmap.lookup_erase]
  · have hsame : (mid.apply op).claimsOf peer = mid.claimsOf peer := by
      by_cases hobserve : ∃ now gracePeriod, op = .observeClaim peer now gracePeriod
      · obtain ⟨now, gracePeriod, rfl⟩ := hobserve
        exact congrArg (·.claimsOf peer)
          (observeBootstrapClaim_of_known mid hhistory now gracePeriod)
      · exact claimsOf_apply mid (fun now gracePeriod heq => hobserve ⟨now, gracePeriod, heq⟩) hclear
    rw [hsame]
    simpa [Ne.symm hclear] using ih

/-- The answer to a claim at a time, given the first claim and whether it has been cleared. -/
structure OneGrace (observation : BootstrapClaimObservation) (first now gracePeriod : Nat)
    (Cleared : Prop) : Prop where
  firstSeen : observation.firstSeen = first
  withinGrace : observation = .withinGrace first ↔ now ≤ first + gracePeriod ∧ ¬ Cleared
  pastGrace : observation = .pastGrace first ↔ first + gracePeriod < now ∧ ¬ Cleared
  repeated : observation = .repeated first ↔ Cleared

theorem oneGrace_active (hactive : state.bootstrapClaims.lookup peer = some first)
    (now gracePeriod : Nat) {Cleared : Prop} (hcleared : ¬ Cleared) :
    OneGrace (state.observeBootstrapClaim peer now gracePeriod).1 first now gracePeriod Cleared := by
  unfold observeBootstrapClaim
  rw [hactive]
  dsimp only
  split_ifs with hpast
  · have hlt : first + gracePeriod < now := by omega
    exact ⟨rfl, iff_of_false nofun fun h => by omega, iff_of_true rfl ⟨hlt, hcleared⟩,
      iff_of_false nofun hcleared⟩
  · have hle : now ≤ first + gracePeriod := by omega
    exact ⟨rfl, iff_of_true rfl ⟨hle, hcleared⟩, iff_of_false nofun fun h => by omega,
      iff_of_false nofun hcleared⟩

theorem oneGrace_cleared (hactive : state.bootstrapClaims.lookup peer = none)
    (hhistory : state.bootstrapClaimHistory.lookup peer = some first)
    (now gracePeriod : Nat) {Cleared : Prop} (hcleared : Cleared) :
    OneGrace (state.observeBootstrapClaim peer now gracePeriod).1 first now gracePeriod Cleared := by
  unfold observeBootstrapClaim
  rw [hactive, hhistory]
  exact ⟨rfl, iff_of_false nofun fun h => h.2 hcleared, iff_of_false nofun fun h => h.2 hcleared,
    iff_of_true rfl hcleared⟩

/-- The first claim of a peer opens its only grace window: every claim of it is answered with the
time of the first, and with a new window never. -/
theorem observeBootstrapClaim_oneGrace {initial : List H} {before after : List (Op H)}
    {now gracePeriod firstGrace : Nat}
    (hrun : Runs.run step (newCycle initial) ops = some state)
    (hfirst : ops ++ [.observeClaim peer now gracePeriod] =
      before ++ .observeClaim peer first firstGrace :: after)
    (hunclaimed : ∀ now gracePeriod, .observeClaim peer now gracePeriod ∉ before) :
    OneGrace (state.observeBootstrapClaim peer now gracePeriod).1 first now gracePeriod
      (.clearClaim peer ∈ after) := by
  rcases List.eq_nil_or_concat after with rfl | ⟨after, last, rfl⟩
  · -- the claim is the first of the peer
    obtain ⟨rfl, hlast⟩ := List.append_inj' hfirst rfl
    cases hlast
    obtain ⟨hactive, hhistory⟩ := Prod.mk.inj (unclaimed_of_run hrun hunclaimed)
    unfold observeBootstrapClaim
    rw [hactive, hhistory]
    exact ⟨rfl, by simp, by simp, by simp⟩
  · have hsplit : ops ++ [.observeClaim peer now gracePeriod] =
        (before ++ .observeClaim peer first firstGrace :: after) ++ [last] := by simpa using hfirst
    obtain ⟨rfl, hlast⟩ := List.append_inj' hsplit rfl
    cases hlast
    obtain ⟨mid, hmid, hrest⟩ := Runs.run_append_eq_some.mp hrun
    obtain ⟨next, hnext, hrest⟩ := Runs.run_cons_eq_some.mp hrest
    obtain rfl : mid.apply (.observeClaim peer first firstGrace) = next := Option.some.inj hnext
    have hclaimed := claimsOf_first (unclaimed_of_run hmid hunclaimed) first firstGrace
    rcases claimsOf_since_first hrest hclaimed with ⟨hclaims, hclear⟩ | ⟨hclaims, hclear⟩
    · obtain ⟨hactive, -⟩ := Prod.mk.inj hclaims
      exact oneGrace_active hactive now gracePeriod (by simpa using hclear)
    · obtain ⟨hactive, hhistory⟩ := Prod.mk.inj hclaims
      exact oneGrace_cleared hactive hhistory now gracePeriod (by simp [hclear])

end NeighborSyncState

namespace Transcript

open NeighborSyncState

/-- A peer claims, stops claiming, the cycle ends, and it claims again within the window. -/
theorem observeBootstrapClaim_oneGrace_repeated :
    ∃ state, Runs.run step (newCycle [])
        [.observeClaim ⟨[1]⟩ 10 100, .clearClaim ⟨[1]⟩, .swap [⟨[1]⟩]] = some state ∧
      (state.observeBootstrapClaim (⟨[1]⟩ : Transcript) 20 100).1 = .repeated 10 := by
  have hfirst : ([.observeClaim ⟨[1]⟩ 10 100, .clearClaim ⟨[1]⟩, .swap [⟨[1]⟩]] :
      List (Op Transcript)) ++ [.observeClaim ⟨[1]⟩ 20 100] = [] ++ .observeClaim ⟨[1]⟩ 10 100 ::
        [.clearClaim ⟨[1]⟩, .swap [⟨[1]⟩], .observeClaim ⟨[1]⟩ 20 100] := rfl
  exact ⟨_, rfl, (observeBootstrapClaim_oneGrace rfl hfirst (by simp)).repeated.mpr (by simp)⟩

end Transcript

end AntNode
