import AntNode.Proof.FetchAttempts
import AntNode.Proof.VerificationRound

/-!
# No key is lost without a cause

A key that a hint has brought in goes through the pending verifications, the fetch queue and the
fetches in flight. It leaves them for a cause only: it has been pending for too long, this node has it
or is not to store it, none of its peers that answer holds it, too few of them vouch for it, or it
has been fetched, or every source has failed. What the peers have is said by the peers themselves,
which keep to the protocol here; whether they answer is left open.
-/

namespace AntNode

open Runs

variable {H : Type} [Digest H]

/-! ### The targets of a probe -/

section Targets

variable {table : RoutingTable H} {config : ReplicationConfig} {selfId key : H} {keys : List H}

theorem foldl_addQuorumTargets_spec (targets : VerificationTargets H) :
    (keys.foldl (addQuorumTargets table config selfId) targets).paidTargets =
        targets.paidTargets ∧
      ∀ key peer, key ∈ (keys.foldl (addQuorumTargets table config selfId) targets).peerKeys peer ↔
        key ∈ targets.peerKeys peer ∨ key ∈ keys ∧ peer ∈ quorumGroup table config selfId key := by
  induction keys generalizing targets with
  | nil => simp
  | cons first keys ih =>
      obtain ⟨hpaid, hkeys⟩ := ih (addQuorumTargets table config selfId targets first)
      refine ⟨hpaid.trans addQuorumTargets_frame.2.1, fun key peer => ?_⟩
      rw [List.foldl_cons, hkeys, mem_peerKeys_addQuorumTargets, List.mem_cons, or_assoc,
        or_and_right]
      refine or_congr_right (or_congr_left (and_congr_right ?_))
      rintro rfl
      rfl

theorem computePresenceTargets_spec (hkey : key ∈ keys) :
    (computePresenceTargets keys table config selfId).quorumPeers key =
        quorumGroup table config selfId key ∧
      (computePresenceTargets keys table config selfId).paidPeers key = [] := by
  have hfold := List.view_foldl (addQuorumTargets table config selfId)
    (fun targets => targets.quorumTargets.lookup key)
    (fun _ => some (quorumGroup table config selfId key)) (· = key) ?step (fun _ => rfl) keys .empty
  case step =>
    intro targets other
    rw [addQuorumTargets_frame.2.2.2, FiniteMap.lookup_insert_eq]
    by_cases heq : other = key
    · subst heq
      simp
    · simp [heq, Ne.symm heq]
  constructor
  · simp only [hkey, exists_eq_right, if_true] at hfold
    exact congrArg (·.getD []) hfold
  · unfold VerificationTargets.paidPeers
    have hpaid : (computePresenceTargets keys table config selfId).paidTargets = ∅ :=
      (foldl_addQuorumTargets_spec .empty).1
    rw [hpaid]
    rfl

theorem asksTargets_computePresenceTargets (hkey : key ∈ keys) :
    (computePresenceTargets keys table config selfId).AsksTargets key where
  asked := by
    intro peer htarget
    rw [VerificationTargets.Target, (computePresenceTargets_spec hkey).1,
      (computePresenceTargets_spec hkey).2] at htarget
    rcases htarget with hquorum | hpaid
    · exact mem_peerKeys_dedupKeys.mpr
        (((foldl_addQuorumTargets_spec .empty).2 key peer).mpr (.inr ⟨hkey, hquorum⟩))
    · cases hpaid
  paid := by
    intro peer hpeer
    rw [(computePresenceTargets_spec hkey).2] at hpeer
    cases hpeer
  nodup := fun _ => nodup_peerKeys_dedupKeys

end Targets

/-! ### A poll of the peers around a key -/

/-- Whom a round asks about a key, and what they have. -/
structure Ballot (H : Type) where
  quorumPeers : List H
  paidPeers : List H
  paidGroupSize : Nat
  answers : H → Bool
  holds : H → Bool
  hasPaid : H → Bool

/-- No peer that answers holds the key, or it has neither the votes of the holders nor those of the
paid lists. -/
def Ballot.Lost (ballot : Ballot H) (config : ReplicationConfig) (credited : H → Bool) : Prop :=
  (∀ peer, peer ∈ ballot.quorumPeers ∨ peer ∈ ballot.paidPeers → ballot.answers peer = true →
      ballot.holds peer = false) ∨
    (config.quorumNeeded ballot.quorumPeers.length = 0 ∨
      (ballot.quorumPeers.countP fun peer =>
        ballot.answers peer && ballot.holds peer && credited peer) <
          config.quorumNeeded ballot.quorumPeers.length) ∧
    (ballot.paidGroupSize = 0 ∨
      (ballot.paidPeers.countP fun peer => ballot.answers peer && ballot.hasPaid peer) <
        ReplicationConfig.confirmNeeded ballot.paidGroupSize)

def PeerNetwork.ballot (net : PeerNetwork H) (table : RoutingTable H) (config : ReplicationConfig)
    (selfId : H) (targets : VerificationTargets H) (key : H) : Ballot H where
  quorumPeers := quorumGroup table config selfId key
  paidPeers := paidGroup table config selfId key
  paidGroupSize := (table.findClosestNodesLocalWithSelf key config.paidListCloseGroupSize).length
  answers := fun peer => net.answers peer (targets.request peer)
  holds := fun peer => (net.store peer).holds key
  hasPaid := fun peer => (net.store peer).hasPaid key

section Poll

variable {net : PeerNetwork H} {keys : List H} {table : RoutingTable H} {config : ReplicationConfig}
  {selfId key : H} {order : List H} {targets : VerificationTargets H}
  {ev : KeyVerificationEvidence H}

omit [Digest H] in
theorem lost_of_peersVerdict (ballot : Ballot H) {credited : H → Bool} {sources : List H}
    (hsources : ∀ peer, peer ∈ sources ↔ (peer ∈ ballot.quorumPeers ∨ peer ∈ ballot.paidPeers) ∧
      ballot.answers peer = true ∧ ballot.holds peer = true)
    (hverdict : (peersVerdict config ballot.quorumPeers ballot.paidPeers ballot.paidGroupSize
      ballot.answers ballot.holds ballot.hasPaid credited sources).verifiedSources.getD [] = []) :
    ballot.Lost config credited := by
  have hempty : sources = [] → ballot.Lost config credited := by
    rintro rfl
    refine .inl fun peer hpeer hanswers => ?_
    by_contra hholds
    have hmem := (hsources peer).mpr ⟨hpeer, hanswers, Bool.eq_true_of_not_eq_false hholds⟩
    cases hmem
  unfold peersVerdict at hverdict
  simp only at hverdict
  split_ifs at hverdict with hquorum hpaid hfailed
  · exact hempty hverdict
  · exact hempty hverdict
  · refine .inr ⟨?_, ?_⟩
    · rwa [not_and_or, not_lt, Nat.le_zero, not_le] at hquorum
    · rwa [not_and_or, not_lt, Nat.le_zero, not_le] at hpaid
  · refine .inr ⟨?_, ?_⟩
    · rwa [not_and_or, not_lt, Nat.le_zero, not_le] at hquorum
    · rwa [not_and_or, not_lt, Nat.le_zero, not_le] at hpaid

/-- A key that a round does not verify, or for which it finds no source, has lost its poll. -/
theorem lost_of_round (htargets : targets = computeVerificationTargets keys table config selfId)
    (horder : ∀ peer, peer ∈ order ↔ peer ∈ targets.peerToKeys) (hkey : key ∈ keys)
    (hev : (runVerificationRound keys targets (net.outcome targets) order).lookup key = some ev)
    (credit : H → H → Bool)
    (hverdict : (evaluateKeyEvidenceWithHolderCheck key ev targets config
      credit).verifiedSources.getD [] = []) :
    (net.ballot table config selfId targets key).Lost config fun peer => credit peer key := by
  obtain ⟨hquorum, hpaid, hsize⟩ : targets.quorumPeers key = quorumGroup table config selfId key ∧
      targets.paidPeers key = paidGroup table config selfId key ∧ targets.paidGroupSize key =
        (table.findClosestNodesLocalWithSelf key config.paidListCloseGroupSize).length := by
    rw [htargets]
    exact computeVerificationTargets_spec hkey
  have hasks : targets.AsksTargets key := by
    rw [htargets]
    exact asksTargets_computeVerificationTargets hkey
  rw [outcome_of_answers hasks horder hev, hquorum, hpaid, hsize] at hverdict
  refine lost_of_peersVerdict (net.ballot table config selfId targets key) ?_ hverdict
  intro peer
  rw [mem_sources_of_answers hasks horder hev, VerificationTargets.Target, hquorum, hpaid]
  rfl

end Poll

namespace RepairState

/-! ### What a cycle decides -/

section Facts

variable (ctx : RepairContext H) (n : Nat) (key : H)

/-- The targets of a probing round. -/
def probeTargets (s : RepairState H) : VerificationTargets H :=
  computePresenceTargets s.cycle.localPaidPresenceProbeKeys s.world.routing ctx.config ctx.selfId

/-- The targets of a verification round. -/
def verifyTargets (s : RepairState H) : VerificationTargets H :=
  computeVerificationTargets s.cycle.keysNeedingNetwork s.world.routing ctx.config ctx.selfId

/-- A round asks every target, and each one that answers says what it has. -/
def KeepsProtocol (s : RepairState H) : RepairEvent H → Prop
  | .probe outcome order =>
      (∃ net : PeerNetwork H, outcome = net.outcome (s.probeTargets ctx)) ∧
        ∀ peer, peer ∈ order ↔ peer ∈ (s.probeTargets ctx).peerToKeys
  | .verify outcome order =>
      (∃ net : PeerNetwork H, outcome = net.outcome (s.verifyTargets ctx)) ∧
        ∀ peer, peer ∈ order ↔ peer ∈ (s.verifyTargets ctx).peerToKeys
  | _ => True

/-- The step looks the key up, and finds it stored or outside what this node is to store. -/
def DismissedAt (s : RepairState H) (e : RepairEvent H) : Prop :=
  ∃ readFails, ChecksAt n key readFails s e ∧ (key ∈ s.world.storage ∨
    ctx.selfId ∉ s.world.routing.findClosestNodesLocalWithSelf key
      (storageAdmissionWidth ctx.config.closeGroupSize))

/-- The step probes the peers closest to the key, and none that answers holds it. -/
def UnheldAt (s : RepairState H) (e : RepairEvent H) : Prop :=
  s.cycle.number = n ∧ key ∈ s.cycle.localPaidPresenceProbeKeys ∧
    ∃ (net : PeerNetwork H) (order : List H), e = .probe (net.outcome (s.probeTargets ctx)) order ∧
      ∀ peer ∈ quorumGroup s.world.routing ctx.config ctx.selfId key,
        net.answers peer ((s.probeTargets ctx).request peer) = true →
          (net.store peer).holds key = false

/-- The step asks the peers around the key. -/
def PollsAt (ballot : Ballot H) (s : RepairState H) (e : RepairEvent H) : Prop :=
  s.cycle.number = n ∧ key ∈ s.cycle.keysNeedingNetwork ∧
    ∃ (net : PeerNetwork H) (order : List H),
      e = .verify (net.outcome (s.verifyTargets ctx)) order ∧
      ballot = net.ballot s.world.routing ctx.config ctx.selfId (s.verifyTargets ctx) key

/-- The step counts the votes, with the credit its holders have then. -/
def CountsAt (credit : H → H → Bool) (s : RepairState H) (e : RepairEvent H) : Prop :=
  s.cycle.number = n ∧ e = .evaluate ∧ credit = holderCredit s.cycle.holders s.world.now

end Facts

section History

variable (ctx : RepairContext H) (s₀ : RepairState H) (events : List (RepairEvent H)) (n : Nat)

/-- The key has been polled in the cycle, and has lost. -/
def Outvoted (key : H) : Prop :=
  ∃ ballot credit, Happened ctx s₀ events (PollsAt ctx n key ballot) ∧
    Happened ctx s₀ events (CountsAt n credit) ∧
    ballot.Lost ctx.config fun peer => credit peer key

def DismissedOk (keys : List H) : Prop :=
  ∀ key ∈ keys, Happened ctx s₀ events (DismissedAt ctx n key)

def UnheldOk (cycle : VerificationCycle H) (keys : List H) : Prop :=
  ∀ key ∈ keys, (∀ ev, cycle.evidence.lookup key = some ev →
    presentSourcesForKey key ev cycle.targets = []) → Happened ctx s₀ events (UnheldAt ctx n key)

def PolledOk (cycle : VerificationCycle H) : Prop :=
  ∀ key ∈ cycle.keysNeedingNetwork, ∃ ballot,
    Happened ctx s₀ events (PollsAt ctx n key ballot) ∧
    ∀ ev, cycle.evidence.lookup key = some ev → ∀ credit,
      (evaluateKeyEvidenceWithHolderCheck key ev cycle.targets ctx.config
        credit).verifiedSources.getD [] = [] →
      ballot.Lost ctx.config fun peer => credit peer key

def OutvotedOk (evaluated : List (EvaluatedKey H)) : Prop :=
  ∀ e ∈ evaluated, e.outcome.verifiedSources.getD [] = [] → Outvoted ctx s₀ events n e.key

/-- What is verified for the paid-only pipeline is still to be checked, is to be fetched, or has been
dismissed. -/
def SkippedOk (fetchKeys : Finset H) (remaining evaluated : List (EvaluatedKey H)) : Prop :=
  ∀ e ∈ evaluated, e.pipeline = .paidOnly → e.outcome.verifiedSources.isSome = true →
    e ∈ remaining ∨ e.key ∈ fetchKeys ∨ Happened ctx s₀ events (DismissedAt ctx n e.key)

/-- Why the keys that the cycle is about to drop are dropped. -/
def Explained (cycle : VerificationCycle H) : Prop :=
  match cycle.phase with
  | .idle | .classifying _ | .probing | .verifying => True
  | .checkingPaidOnly _ | .removingPaidOnly => DismissedOk ctx s₀ events n cycle.terminalPaidOnly
  | .promotingProbed remaining => UnheldOk ctx s₀ events n cycle remaining
  | .snapshotting | .evaluating => PolledOk ctx s₀ events n cycle
  | .insertingPaid => OutvotedOk ctx s₀ events n cycle.evaluated
  | .checkingFetch remaining =>
      OutvotedOk ctx s₀ events n cycle.evaluated ∧
        SkippedOk ctx s₀ events n cycle.paidOnlyFetchKeys remaining cycle.evaluated
  | .updating remaining =>
      OutvotedOk ctx s₀ events n remaining ∧
        SkippedOk ctx s₀ events n cycle.paidOnlyFetchKeys [] remaining

/-- Why a step takes a key out of the pipeline. -/
inductive Cause (s : RepairState H) : RepairEvent H → H → Prop
  | stale {key : H} {entry : VerificationEntry H}
      (hlookup : s.queues.pendingVerify.lookup key = some entry)
      (hage : pendingVerifyMaxAge ≤ s.world.now - entry.createdAt) : Cause s .beginCycle key
  | stored {key : H} (hstored : key ∈ s.world.storage) : Cause s (.promoteProbed false) key
  | dismissed {e : RepairEvent H} {key : H}
      (hdismissed : Happened ctx s₀ events (DismissedAt ctx s.cycle.number key)) : Cause s e key
  | unheld {readFails : Bool} {key : H}
      (hunheld : Happened ctx s₀ events (UnheldAt ctx s.cycle.number key)) :
      Cause s (.promoteProbed readFails) key
  | outvoted {key : H} (houtvoted : Outvoted ctx s₀ events s.cycle.number key) :
      Cause s .update key
  | fetched {key : H} (hfetched : Happened ctx s₀ events (FetchedAt ctx key)) :
      Cause s (.finish key (some .stored)) key
  | panicked {key : H} (hpanicked : Happened ctx s₀ events (PanicsAt key)) :
      Cause s (.finish key none) key
  | exhausted {key : H} {r : FetchResult} {candidate : FetchCandidate H} {mid : RepairState H}
      {later : List (RepairEvent H)} (henters : EntersThen ctx s₀ events candidate mid later)
      (hkey : candidate.key = key)
      (hfailed : ∀ source ∈ candidate.sources,
        Occurred (step ctx) (FailsAt ctx key source) mid later) :
      Cause s (.finish key (some r)) key

end History

/-! ### The steps of a cycle -/

section Steps

variable {ctx : RepairContext H} {s₀ s s' : RepairState H} {events : List (RepairEvent H)} {n : Nat}
  {e : RepairEvent H} {cycle : VerificationCycle H} {key : H}

theorem Outvoted.concat (houtvoted : Outvoted ctx s₀ events n key) (e : RepairEvent H) :
    Outvoted ctx s₀ (events ++ [e]) n key := by
  obtain ⟨ballot, credit, hpolls, hcounts, hlost⟩ := houtvoted
  exact ⟨ballot, credit, hpolls.concat e, hcounts.concat e, hlost⟩

theorem DismissedOk.concat {keys : List H} (hok : DismissedOk ctx s₀ events n keys)
    (e : RepairEvent H) : DismissedOk ctx s₀ (events ++ [e]) n keys :=
  fun key hkey => (hok key hkey).concat e

theorem UnheldOk.concat {keys : List H} (hok : UnheldOk ctx s₀ events n cycle keys)
    (e : RepairEvent H) : UnheldOk ctx s₀ (events ++ [e]) n cycle keys :=
  fun key hkey hsources => (hok key hkey hsources).concat e

theorem PolledOk.concat (hok : PolledOk ctx s₀ events n cycle) (e : RepairEvent H) :
    PolledOk ctx s₀ (events ++ [e]) n cycle := by
  intro key hkey
  obtain ⟨ballot, hpolls, hlost⟩ := hok key hkey
  exact ⟨ballot, hpolls.concat e, hlost⟩

theorem OutvotedOk.concat {evaluated : List (EvaluatedKey H)}
    (hok : OutvotedOk ctx s₀ events n evaluated) (e : RepairEvent H) :
    OutvotedOk ctx s₀ (events ++ [e]) n evaluated :=
  fun one hmem hsources => (hok one hmem hsources).concat e

theorem SkippedOk.concat {fetchKeys : Finset H} {remaining evaluated : List (EvaluatedKey H)}
    (hok : SkippedOk ctx s₀ events n fetchKeys remaining evaluated) (e : RepairEvent H) :
    SkippedOk ctx s₀ (events ++ [e]) n fetchKeys remaining evaluated := by
  intro one hmem hpaidOnly hverified
  rcases hok one hmem hpaidOnly hverified with hremaining | hfetch | hdismissed
  · exact .inl hremaining
  · exact .inr (.inl hfetch)
  · exact .inr (.inr (hdismissed.concat e))

theorem Explained.concat (hok : Explained ctx s₀ events n cycle) (e : RepairEvent H) :
    Explained ctx s₀ (events ++ [e]) n cycle := by
  unfold Explained at hok ⊢
  cases hphase : cycle.phase with
  | idle | classifying | probing | verifying => trivial
  | checkingPaidOnly | removingPaidOnly =>
      simp only [hphase] at hok ⊢
      exact hok.concat e
  | promotingProbed remaining =>
      simp only [hphase] at hok ⊢
      exact hok.concat e
  | snapshotting | evaluating =>
      simp only [hphase] at hok ⊢
      exact hok.concat e
  | insertingPaid =>
      simp only [hphase] at hok ⊢
      exact hok.concat e
  | checkingFetch | updating =>
      simp only [hphase] at hok ⊢
      exact ⟨hok.1.concat e, hok.2.concat e⟩

theorem storageExists_eq_true {world : RepairWorld H} {readFails : Bool}
    (hexists : world.storageExists key readFails = true) :
    readFails = false ∧ key ∈ world.storage := by
  unfold RepairWorld.storageExists at hexists
  split_ifs at hexists with hfails
  exact ⟨Bool.eq_false_of_not_eq_true hfails, of_decide_eq_true hexists⟩

theorem dismissed_of_check {readFails : Bool} (hrun : run (step ctx) s₀ events = some s)
    (hchecks : ChecksAt n key readFails s e)
    (hfound : s.world.storageExists key readFails = true ∨ s.world.isResponsible ctx.selfId key
      (storageAdmissionWidth ctx.config.closeGroupSize) = false) :
    Happened ctx s₀ (events ++ [e]) (DismissedAt ctx n key) := by
  refine occurred_concat_self hrun ⟨readFails, hchecks, ?_⟩
  rcases hfound with hexists | hresponsible
  · exact .inl (storageExists_eq_true hexists).2
  · exact .inr (of_decide_eq_false hresponsible)

theorem explained_checkPaidOnly {rest : List H} {readFails : Bool}
    (hrun : run (step ctx) s₀ events = some s)
    (hphase : s.cycle.phase = .checkingPaidOnly (key :: rest))
    (hok : DismissedOk ctx s₀ events s.cycle.number s.cycle.terminalPaidOnly) :
    Explained ctx s₀ (events ++ [.checkPaidOnly readFails]) s.cycle.number
      (s.checkPaidOnly ctx key rest readFails).cycle := by
  have hold := hok.concat (.checkPaidOnly readFails)
  have hchecks : ChecksAt s.cycle.number key readFails s (.checkPaidOnly readFails) :=
    ⟨rfl, .inl ⟨rfl, rest, hphase⟩⟩
  have hnew : ∀ hfound : s.world.storageExists key readFails = true ∨
      s.world.isResponsible ctx.selfId key (storageAdmissionWidth ctx.config.closeGroupSize) = false,
      DismissedOk ctx s₀ (events ++ [.checkPaidOnly readFails]) s.cycle.number
        (s.cycle.terminalPaidOnly ++ [key]) := by
    intro hfound other hother
    rcases List.mem_append.mp hother with hother | hother
    · exact hold other hother
    · obtain rfl := List.mem_singleton.mp hother
      exact dismissed_of_check hrun hchecks hfound
  unfold checkPaidOnly
  split_ifs with hexists hresponsible
  · exact hnew (.inl hexists)
  · exact hold
  · exact hnew (.inr (Bool.eq_false_of_not_eq_true hresponsible))

/-- Where a probe finds no source, no peer that answers holds the key. -/
theorem explained_probe {outcome : H → PeerOutcome H} {order : List H}
    (hrun : run (step ctx) s₀ events = some s)
    (hprotocol : KeepsProtocol ctx s (.probe outcome order)) :
    Explained ctx s₀ (events ++ [.probe outcome order]) s.cycle.number
      (s.probe ctx outcome order).cycle := by
  obtain ⟨⟨net, rfl⟩, horder⟩ := hprotocol
  intro key hkey hnone
  refine occurred_concat_self hrun ⟨rfl, hkey, net, order, rfl, ?_⟩
  intro peer hpeer hanswers
  by_contra hholds
  have hasks : (s.probeTargets ctx).AsksTargets key := asksTargets_computePresenceTargets hkey
  obtain ⟨ev, hev⟩ := exists_evidence (s.probeTargets ctx) (net.outcome (s.probeTargets ctx)) order
    hkey
  have hsource : peer ∈ presentSourcesForKey key ev (s.probeTargets ctx) := by
    refine (mem_sources_of_answers hasks horder hev).mpr
      ⟨.inl ?_, hanswers, Bool.eq_true_of_not_eq_false hholds⟩
    rw [probeTargets, (computePresenceTargets_spec hkey).1]
    exact hpeer
  have hempty : presentSourcesForKey key ev (s.probeTargets ctx) = [] := hnone ev hev
  rw [hempty] at hsource
  cases hsource

theorem explained_verify {outcome : H → PeerOutcome H} {order : List H}
    (hrun : run (step ctx) s₀ events = some s)
    (hprotocol : KeepsProtocol ctx s (.verify outcome order)) :
    Explained ctx s₀ (events ++ [.verify outcome order]) s.cycle.number
      (s.verify ctx outcome order).cycle := by
  obtain ⟨⟨net, rfl⟩, horder⟩ := hprotocol
  intro key hkey
  refine ⟨net.ballot s.world.routing ctx.config ctx.selfId (s.verifyTargets ctx) key,
    occurred_concat_self hrun ⟨rfl, hkey, net, order, rfl, rfl⟩, ?_⟩
  intro ev hev credit hverdict
  exact lost_of_round rfl horder hkey hev credit hverdict

theorem explained_evaluate (hrun : run (step ctx) s₀ events = some s)
    (hok : PolledOk ctx s₀ events s.cycle.number s.cycle) :
    Explained ctx s₀ (events ++ [.evaluate]) s.cycle.number (s.evaluate ctx).cycle := by
  intro evaluated hmem hsources
  obtain ⟨key, hkey, heval⟩ := List.mem_filterMap.mp hmem
  unfold evaluateKey at heval
  cases hev : s.cycle.evidence.lookup key with
  | none => simp [hev] at heval
  | some ev =>
      cases hentry : s.queues.pendingVerify.lookup key with
      | none => simp [hev, hentry] at heval
      | some entry =>
          simp only [hev, hentry, Option.some.injEq] at heval
          subst heval
          obtain ⟨ballot, hpolls, hlost⟩ := hok key hkey
          exact ⟨ballot, holderCredit s.cycle.holders s.world.now, hpolls.concat _,
            occurred_concat_self hrun ⟨rfl, rfl, rfl⟩, hlost ev hev _ hsources⟩

theorem explained_checkFetch {evaluated : EvaluatedKey H} {rest : List (EvaluatedKey H)}
    {readFails : Bool} (hrun : run (step ctx) s₀ events = some s)
    (hphase : s.cycle.phase = .checkingFetch (evaluated :: rest))
    (houtvoted : OutvotedOk ctx s₀ events s.cycle.number s.cycle.evaluated)
    (hskipped : SkippedOk ctx s₀ events s.cycle.number s.cycle.paidOnlyFetchKeys
      (evaluated :: rest) s.cycle.evaluated) :
    Explained ctx s₀ (events ++ [.checkFetch readFails]) s.cycle.number
      (s.checkFetch ctx evaluated rest readFails).cycle := by
  have houtvoted' := houtvoted.concat (.checkFetch readFails)
  have hskipped' := hskipped.concat (.checkFetch readFails)
  have hchecks : ChecksAt s.cycle.number evaluated.key readFails s (.checkFetch readFails) :=
    ⟨rfl, .inr ⟨rfl, evaluated, rest, hphase, rfl⟩⟩
  unfold checkFetch
  split_ifs with hfetch
  · refine ⟨houtvoted', fun one hmem hpaidOnly hverified => ?_⟩
    rcases hskipped' one hmem hpaidOnly hverified with hremaining | hkeys | hdismissed
    · rcases List.mem_cons.mp hremaining with rfl | hrest
      · exact .inr (.inl (Finset.mem_insert_self _ _))
      · exact .inl hrest
    · exact .inr (.inl (Finset.mem_insert_of_mem hkeys))
    · exact .inr (.inr hdismissed)
  · refine ⟨houtvoted', fun one hmem hpaidOnly hverified => ?_⟩
    rcases hskipped' one hmem hpaidOnly hverified with hremaining | hkeys | hdismissed
    · rcases List.mem_cons.mp hremaining with rfl | hrest
      · refine .inr (.inr (dismissed_of_check hrun hchecks ?_))
        by_contra hneither
        rw [not_or] at hneither
        exact hfetch ⟨hpaidOnly, hverified, Bool.eq_false_of_not_eq_true hneither.1,
          Bool.eq_true_of_not_eq_false hneither.2⟩
      · exact .inl hrest
    · exact .inr (.inl hkeys)
    · exact .inr (.inr hdismissed)

theorem explained_endLoop {known : Known H} {q : ReplicationQueues H} {phase : CyclePhase H}
    (hcycle : CycleOk known q s.cycle) (hok : Explained ctx s₀ events n s.cycle)
    (hend : s.endLoop = some phase) : Explained ctx s₀ events n { s.cycle with phase := phase } := by
  unfold endLoop at hend
  split at hend
  · rename_i hphase
    cases hend
    simp only [CycleOk, hphase] at hcycle
    intro key hkey
    rw [hcycle.2.2.1] at hkey
    cases hkey
  · rename_i hphase
    cases hend
    simpa only [Explained, hphase] using hok
  · split_ifs at hend
    cases hend
    unfold VerificationCycle.networkPhase
    split_ifs <;> trivial
  · cases hend
    unfold VerificationCycle.networkPhase
    split_ifs <;> trivial
  · rename_i hphase
    cases hend
    simpa only [Explained, hphase] using hok
  · cases hend
    trivial
  · cases hend

theorem Explained.step (hrun : run (step ctx) s₀ events = some s) (hfrom : From ctx s₀ events s)
    (hok : Explained ctx s₀ events s.cycle.number s.cycle) (hprotocol : KeepsProtocol ctx s e)
    (hstep : s.step ctx e = some s') :
    Explained ctx s₀ (events ++ [e]) s'.cycle.number s'.cycle := by
  have hlater := hok.concat e
  cases steps_of_step hstep with
  | elsewhere | hint | execute | panic => exact hlater
  | beginCycle | removePaidOnly => trivial
  | classify =>
      unfold classify
      split_ifs
      · simp only
        split <;> trivial
      · trivial
  | checkPaidOnly readFails hphase =>
      rw [checkPaidOnly_frame.number]
      simp only [Explained, hphase] at hok
      exact explained_checkPaidOnly hrun hphase hok
  | probe =>
      have hprobe := explained_probe hrun hprotocol
      exact hprobe
  | @promoteProbed key rest readFails hphase =>
      simp only [Explained, hphase] at hlater
      have hrest : UnheldOk ctx s₀ (events ++ [.promoteProbed readFails]) s.cycle.number s.cycle
          rest :=
        fun other hother => hlater other (List.mem_cons_of_mem _ hother)
      unfold promoteProbed
      simp only
      split_ifs <;> exact hrest
  | verify =>
      have hverify := explained_verify hrun hprotocol
      exact hverify
  | snapshot readFails hphase =>
      simp only [Explained, hphase] at hlater
      exact hlater
  | evaluate hphase =>
      simp only [Explained, hphase] at hok
      have hevaluate := explained_evaluate hrun hok
      exact hevaluate
  | insertPaid accepted hphase =>
      simp only [Explained, hphase] at hlater
      exact ⟨hlater, fun one hmem _ _ => .inl hmem⟩
  | checkFetch readFails hphase =>
      rw [checkFetch_frame.number]
      simp only [Explained, hphase] at hok
      exact explained_checkFetch hrun hphase hok.1 hok.2
  | @update evaluated rest hphase =>
      simp only [Explained, hphase] at hlater
      obtain ⟨houtvoted, hskipped⟩ := hlater
      have hrest : OutvotedOk ctx s₀ (events ++ [.update]) s.cycle.number rest ∧
          SkippedOk ctx s₀ (events ++ [.update]) s.cycle.number s.cycle.paidOnlyFetchKeys [] rest :=
        ⟨fun one hmem => houtvoted one (List.mem_cons_of_mem _ hmem),
          fun one hmem => hskipped one (List.mem_cons_of_mem _ hmem)⟩
      unfold update
      simp only
      split
      · split_ifs <;> exact hrest
      · exact hrest
  | endLoop hend => exact explained_endLoop hfrom.cycle hlater hend
  | dequeue =>
      rw [s.dequeue_frame.1]
      exact hlater
  | finish =>
      rw [(s.finish_frame _ _).1]
      exact hlater

theorem explained_of_run {world : RepairWorld H}
    (hrun : run (RepairState.step ctx) (start world) events = some s)
    (hprotocol : Along (RepairState.step ctx) (KeepsProtocol ctx) (start world) events) :
    Explained ctx (start world) events s.cycle.number s.cycle := by
  have hall := @history_induction _ _ (RepairState.step ctx) (start world) s events
    (fun events s => Along (RepairState.step ctx) (KeepsProtocol ctx) (start world) events →
      Explained ctx (start world) events s.cycle.number s.cycle) (fun _ => trivial) ?_ hrun
  · exact hall hprotocol
  · intro events mid e s' hmid hok hstep halong
    obtain ⟨hbefore, hlast⟩ := halong.split hmid
    exact Explained.step hmid (from_of_run hmid) (hok hbefore) hlast hstep

/-! ### Leaving the pipeline -/

theorem stale_of_evictStale {q : ReplicationQueues H} {maxAge now : Nat} (htracked : q.Tracked key)
    (hdropped : ¬ (q.evictStale maxAge now).Tracked key) :
    ∃ entry, q.pendingVerify.lookup key = some entry ∧ maxAge ≤ now - entry.createdAt := by
  rcases htracked with hpending | hrest
  · obtain ⟨entry, hlookup⟩ := Option.isSome_iff_exists.mp (AList.lookup_isSome.mpr hpending)
    refine ⟨entry, hlookup, ?_⟩
    by_contra hfresh
    have hmem : (⟨key, entry⟩ : Sigma fun _ : H => VerificationEntry H) ∈
        (q.evictStale maxAge now).pendingVerify.entries := by
      refine List.mem_filter.mpr ⟨AList.mem_lookup_iff.mp hlookup, ?_⟩
      exact decide_eq_true (not_le.mp hfresh)
    exact hdropped (.inl (List.mem_keys_of_mem hmem))
  · exact absurd (.inr hrest) hdropped

theorem cause_of_cycleTerminal (hok : Explained ctx s₀ events s.cycle.number s.cycle)
    (hstep : s.step ctx e = some s') (hmem : key ∈ s.cycleTerminal e) :
    Cause ctx s₀ events s e key := by
  cases steps_of_step hstep with
  | elsewhere | hint | beginCycle | classify | checkPaidOnly | probe | verify | snapshot | evaluate |
    insertPaid | checkFetch | endLoop | dequeue | execute | panic | finish => cases hmem
  | removePaidOnly hphase =>
      simp only [Explained, hphase] at hok
      exact .dismissed (hok key hmem)
  | @promoteProbed other rest readFails hphase =>
      simp only [Explained, hphase] at hok
      simp only [cycleTerminal, hphase] at hmem
      split_ifs at hmem with hexists
      · obtain rfl := List.mem_singleton.mp hmem
        obtain ⟨rfl, hstored⟩ := storageExists_eq_true hexists
        exact .stored hstored
      · cases hev : s.cycle.evidence.lookup other with
        | none =>
            rw [hev] at hmem
            obtain rfl := List.mem_singleton.mp hmem
            refine .unheld (hok key List.mem_cons_self fun ev hev' => ?_)
            rw [hev] at hev'
            cases hev'
        | some ev =>
            simp only [hev] at hmem
            split_ifs at hmem with hsources
            · obtain rfl := List.mem_singleton.mp hmem
              refine .unheld (hok key List.mem_cons_self fun ev' hev' => ?_)
              obtain rfl := Option.some.inj (hev.symm.trans hev')
              exact hsources
            · cases hmem
  | @update evaluated rest hphase =>
      simp only [Explained, hphase] at hok
      obtain ⟨houtvoted, hskipped⟩ := hok
      have hlost : evaluated.outcome.verifiedSources.getD [] = [] →
          Cause ctx s₀ events s .update evaluated.key :=
        fun hsources => .outvoted (houtvoted evaluated List.mem_cons_self hsources)
      simp only [cycleTerminal, hphase] at hmem
      cases hverified : evaluated.outcome.verifiedSources with
      | none =>
          rw [hverified] at hmem hlost
          obtain rfl := List.mem_singleton.mp hmem
          exact hlost rfl
      | some sources =>
          rw [hverified] at hmem hlost
          cases sources with
          | nil =>
              obtain rfl := List.mem_singleton.mp hmem
              exact hlost rfl
          | cons source sources =>
              simp only at hmem
              split_ifs at hmem with heligible
              · cases hmem
              · obtain rfl := List.mem_singleton.mp hmem
                rw [not_or] at heligible
                have hpaidOnly : evaluated.pipeline = .paidOnly := by
                  cases hpipeline : evaluated.pipeline with
                  | paidOnly => rfl
                  | replica => exact absurd hpipeline heligible.1
                rcases hskipped evaluated List.mem_cons_self hpaidOnly (by simp [hverified]) with
                  hremaining | hfetch | hdismissed
                · cases hremaining
                · exact absurd hfetch heligible.2
                · exact .dismissed hdismissed

theorem cause_of_fetchTerminal (hattempts : Attempts ctx s₀ events s)
    (hstep : s.step ctx e = some s') (hmem : key ∈ s.fetchTerminal e) :
    Cause ctx s₀ events s e key := by
  cases steps_of_step hstep with
  | elsewhere | hint | beginCycle | classify | checkPaidOnly | probe | verify | snapshot | evaluate |
    insertPaid | checkFetch | endLoop | dequeue | execute | panic | removePaidOnly | promoteProbed |
    update => cases hmem
  | @finish other result hfetched =>
      have hfailed : ∀ r, result = some r → r ≠ .stored → other = key →
          (s.queues.retryFetch other).1.isSome = false →
          Cause ctx s₀ events s (.finish other result) key := by
        rintro r rfl hne rfl hnone
        rw [Option.isSome_eq_false_iff, Option.isNone_iff_eq_none] at hnone
        obtain ⟨candidate, mid, later, henters, hkey, hsources⟩ :=
          hattempts.exhausted hfetched hne hnone
        exact .exhausted henters hkey hsources
      cases result with
      | none =>
          obtain rfl := List.mem_singleton.mp hmem
          exact .panicked (hattempts.panicked key hfetched)
      | some r =>
          cases r with
          | stored =>
              obtain rfl := List.mem_singleton.mp hmem
              exact .fetched (hattempts.stored key hfetched)
          | integrityFailed | sourceFailed =>
              simp only [fetchTerminal] at hmem
              split_ifs at hmem with hnext
              · cases hmem
              · exact hfailed _ rfl (fun h => by cases h) (List.mem_singleton.mp hmem).symm
                  (Bool.eq_false_of_not_eq_true hnext)

/-- In every run in which the peers keep to the protocol, a key that leaves the pipeline leaves it
for a cause. -/
theorem dropped_for_cause {world : RepairWorld H}
    (hrun : run (RepairState.step ctx) (start world) events = some s)
    (hprotocol : Along (RepairState.step ctx) (KeepsProtocol ctx) (start world) events)
    (hstep : s.step ctx e = some s') (hin : s.queues.containsKey key = true)
    (hout : s'.queues.containsKey key = false) : Cause ctx (start world) events s e key := by
  have hstaged : Staged ctx s :=
    stable_of_run (Staged ctx) (fun _ _ _ hstaged hs => hstaged.step hs) (staged_start world) hrun
  have htracked := hstaged.queues.containsKey.mp hin
  have hdropped : ¬ s'.queues.Tracked key := by
    rw [← (hstaged.step hstep).queues.containsKey, hout]
    exact Bool.false_ne_true
  by_cases hbegin : e = .beginCycle
  · subst hbegin
    cases steps_of_step hstep with
    | beginCycle =>
        obtain ⟨entry, hlookup, hage⟩ := stale_of_evictStale htracked hdropped
        exact .stale hlookup hage
  · rcases hstaged.tracked_step hstep hbegin htracked with hkept | hcycle | hfetch
    · exact absurd hkept hdropped
    · exact cause_of_cycleTerminal (explained_of_run hrun hprotocol) hstep hcycle
    · exact cause_of_fetchTerminal (attempts_of_run hrun) hstep hfetch

end Steps

end RepairState

namespace Transcript

open RepairState

/-- Every peer answers, and none has anything. -/
def emptyPeers : PeerNetwork Transcript where
  store := fun _ => ⟨fun _ => .ok false, fun _ => .ok false⟩
  answers := fun _ request => (32 * request.keys.length).ble maxReplicationMessageSize
  fits := fun _ _ hanswers => Nat.le_of_ble_eq_true hanswers

def hintedKey : List (RepairEvent Transcript) :=
  [.hint ⟨[2]⟩ ⟨.pendingVerify, .replica, [], ∅, 0, ⟨[1]⟩⟩, .beginCycle, .classify false, .endLoop,
    .endLoop, .removePaidOnly, .endLoop]

/-- The targets of the key 2. -/
def hintedTargets : VerificationTargets Transcript :=
  computeVerificationTargets [⟨[2]⟩] (repairWorld ∅).routing repairNode.config repairNode.selfId

/-- The round about the key 2, and the cycle up to its last step. -/
def lostPoll : List (RepairEvent Transcript) :=
  hintedKey ++ [.verify (emptyPeers.outcome hintedTargets) [⟨[1]⟩], .snapshot fun _ => false,
    .evaluate, .insertPaid fun _ => true, .checkFetch false, .endLoop]

theorem verifyTargets_hintedKey {s : RepairState Transcript}
    (hrun : run (step repairNode) (start (repairWorld ∅)) hintedKey = some s) :
    s.verifyTargets repairNode = hintedTargets := by
  have hmap : (run (step repairNode) (start (repairWorld ∅)) hintedKey).map
      (fun s => s.verifyTargets repairNode) = some hintedTargets := rfl
  rw [hrun] at hmap
  exact Option.some.inj hmap

theorem keepsProtocol_lostPoll :
    Along (step repairNode) (KeepsProtocol repairNode) (start (repairWorld ∅)) lostPoll := by
  refine Along.append (along_of_forall fun e he s => ?_) fun s hrun => ?_
  · simp only [hintedKey, List.mem_cons, List.not_mem_nil, or_false] at he
    rcases he with rfl | rfl | rfl | rfl | rfl | rfl | rfl <;> trivial
  · have htargets := verifyTargets_hintedKey hrun
    have hkeys : hintedTargets.peerToKeys.keys = {⟨[1]⟩} := by decide +kernel
    refine ⟨⟨⟨emptyPeers, by rw [htargets]⟩, fun peer => ?_⟩, fun s' _ => ?_⟩
    · rw [htargets, ← Finmap.mem_keys, hkeys]
      simp
    · refine along_of_forall fun e he s => ?_
      simp only [List.mem_cons, List.not_mem_nil, or_false] at he
      rcases he with rfl | rfl | rfl | rfl | rfl <;> trivial

theorem dropped_for_cause_lostPoll :
    ∃ s s',
      run (step repairNode) (start (repairWorld ∅)) lostPoll = some s ∧
      s.step repairNode .update = some s' ∧
      s.queues.containsKey ⟨[2]⟩ = true ∧ s'.queues.containsKey ⟨[2]⟩ = false ∧
      Cause repairNode (start (repairWorld ∅)) lostPoll s .update ⟨[2]⟩ := by
  have hlast : ((run (step repairNode) (start (repairWorld ∅)) lostPoll).bind fun s =>
      (s.step repairNode .update).map fun s' =>
        (s.queues.containsKey ⟨[2]⟩, s'.queues.containsKey ⟨[2]⟩)) = some (true, false) := by
    decide +kernel
  obtain ⟨s, hrun, hmap⟩ := Option.bind_eq_some_iff.mp hlast
  obtain ⟨s', hstep, hkeys⟩ := Option.map_eq_some_iff.mp hmap
  obtain ⟨hin, hout⟩ := Prod.mk.inj hkeys
  exact ⟨s, s', hrun, hstep, hin, hout,
    dropped_for_cause hrun keepsProtocol_lostPoll hstep hin hout⟩

end Transcript

end AntNode
