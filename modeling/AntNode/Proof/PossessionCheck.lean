import AntNode.Lib.Linearise
import AntNode.PossessionCheck
import AntNode.Proof.ClaimGrace

/-!
# Who is penalised for a missing chunk

The verdict on a peer depends on its answer alone, and a peer can answer for a chunk it does not hold in
one way that is not penalised: by claiming to be bootstrapping. That claim goes through the record of
claims that every check and every audit shares, so it works only in the one grace window the peer ever
gets.
-/

namespace AntNode

variable {H : Type} [Digest H]

namespace PossessionNode

/-- What a probe does to the record of bootstrap claims. -/
def claimOp (gracePeriod now : Nat) (peer : H) : ProbeOutcome → Option (NeighborSyncState.Op H)
  | .present | .failed => some (.clearClaim peer)
  | .bootstrapClaim => some (.observeClaim peer now gracePeriod)
  | .timeout | .inconclusive => none

/-- The operation on the record of claims that an event makes. -/
def syncOp (gracePeriod : Nat) (s : PossessionNode H) :
    PossessionEvent H → Option (NeighborSyncState.Op H)
  | .probe id now probe =>
      match s.checks id with
      | some ⟨key, localBytes, peer :: _⟩ =>
          claimOp gracePeriod now peer (probeOnce key localBytes peer probe)
      | _ => none
  | .elsewhere op => some op
  | _ => none

/-- The grace window of a peer is open: it has not claimed before, or its first claim is recent and it
has not answered otherwise since. -/
def GraceOpen (ops : List (NeighborSyncState.Op H)) (peer : H) (now gracePeriod : Nat) : Prop :=
  (∀ at' grace, .observeClaim peer at' grace ∉ ops) ∨
    ∃ before first grace after, ops = before ++ .observeClaim peer first grace :: after ∧
      (∀ at' grace, .observeClaim peer at' grace ∉ before) ∧ now ≤ first + gracePeriod ∧
      .clearClaim peer ∉ after

/-- The peer answers the probe with the digest of the local bytes under its nonce, which is not the one
that stands for an absent chunk. -/
def ProvesChunk (key peer : H) (localBytes : Bytes) (probe : Probe H) : Prop :=
  probe.reply = .auditResponse (.digests probe.challengeId
    [computeAuditDigest probe.nonce peer key localBytes]) ∧
  computeAuditDigest probe.nonce peer key localBytes ≠ absentKeyDigest

/-- What one probe of a peer leads to. -/
structure ProbeVerdict (gracePeriod : Nat) (ops : List (NeighborSyncState.Op H))
    (s next : PossessionNode H) (key peer : H) (localBytes : Bytes) (now : Nat) (probe : Probe H) :
    Prop where
  /-- At most one report, against the peer that was probed. -/
  reports : ∃ penalty : List TrustWeight, penalty.length ≤ 1 ∧
    next.reports = s.reports ++ penalty.map fun weight => (peer, weight)
  /-- Without a penalty go a proof, a probe that was not sent, and a claim in the grace window. -/
  unpenalised : next.reports = s.reports ↔
    ProvesChunk key peer localBytes probe ∨ probe.reply = .unencodable ∨
      probe.reply = .auditResponse (.bootstrapping probe.challengeId) ∧
        GraceOpen ops peer now gracePeriod
  /-- A holder that is not bootstrapping proves its chunk, however much it stores. -/
  holder : ∀ (storage : GetRaw H) (storedChunks : Nat), storage key = .ok (some localBytes) →
    computeAuditDigest probe.nonce peer key localBytes ≠ absentKeyDigest →
    probe.reply = .auditResponse (handleAuditChallenge ⟨probe.challengeId, probe.nonce, peer, [key]⟩
      storage peer false storedChunks) →
    next.reports = s.reports
  /-- A digest of anything else, a replayed one included, is a failed audit. -/
  replayed : ∀ (nonce' : Nonce) (peer' key' : H) (bytes' : Bytes) (respId : UInt64),
    Function.Injective (blake3 : Bytes → H) →
    nonce'.toList ++ asBytes peer' ++ asBytes key' ++ bytes' ≠
      probe.nonce.toList ++ asBytes peer ++ asBytes key ++ localBytes →
    probe.reply = .auditResponse (.digests respId [computeAuditDigest nonce' peer' key' bytes']) →
    next.reports = s.reports ++ [(peer, .auditFailure)]

variable {gracePeriod now : Nat} {s s' : PossessionNode H} {key peer : H} {localBytes : Bytes}
  {probe : Probe H} {e : PossessionEvent H}

/-! ### The record of claims -/

theorem syncState_checkPeer (s : PossessionNode H) (gracePeriod now : Nat) (peer : H)
    (outcome : ProbeOutcome) :
    (s.checkPeer gracePeriod now peer outcome).syncState =
      ((claimOp gracePeriod now peer outcome).elim s.syncState s.syncState.apply) := by
  cases outcome with
  | present => rfl
  | failed => rfl
  | timeout => rfl
  | inconclusive => rfl
  | bootstrapClaim =>
      simp only [checkPeer, handlePossessionBootstrapClaim]
      split <;> rfl

theorem run_syncOp (hstep : step gracePeriod s e = some s') :
    Runs.run NeighborSyncState.step s.syncState (syncOp gracePeriod s e).toList =
      some s'.syncState := by
  cases e with
  | start id event read =>
      simp only [step, Option.ite_none_right_eq_some, Option.some.injEq] at hstep
      obtain ⟨-, rfl⟩ := hstep
      rfl
  | probe id now probe =>
      simp only [step] at hstep
      split at hstep
      · rename_i key localBytes peer rest hcheck
        obtain rfl := Option.some.inj hstep
        have hsync := syncState_checkPeer s gracePeriod now peer
          (probeOnce key localBytes peer probe)
        simp only [syncOp, hcheck, setCheck, hsync]
        cases claimOp gracePeriod now peer (probeOnce key localBytes peer probe) <;> rfl
      · cases hstep
  | shutdown id =>
      obtain rfl := Option.some.inj hstep
      rfl
  | elsewhere op =>
      obtain rfl := Option.some.inj hstep
      rfl

/-- What the record holds of a peer since its first claim. -/
theorem claimsOf_since_claim {neighbors : List H} {before after : List (NeighborSyncState.Op H)}
    {first grace : Nat} {state : NeighborSyncState H}
    (hrun : Runs.run NeighborSyncState.step (.newCycle neighbors)
      (before ++ .observeClaim peer first grace :: after) = some state)
    (hfirst : ∀ earlier grace, .observeClaim peer earlier grace ∉ before) :
    state.claimsOf peer = (some first, some first) ∧ .clearClaim peer ∉ after ∨
      state.claimsOf peer = (none, some first) ∧ .clearClaim peer ∈ after := by
  obtain ⟨mid, hmid, hrest⟩ := Runs.run_append_eq_some.mp hrun
  obtain ⟨next, hnext, hafter⟩ := Runs.run_cons_eq_some.mp hrest
  obtain rfl : mid.apply (.observeClaim peer first grace) = next := Option.some.inj hnext
  exact NeighborSyncState.claimsOf_since_first hafter (NeighborSyncState.claimsOf_first
    (NeighborSyncState.unclaimed_of_run hmid hfirst) first grace)

omit [Digest H] in
/-- The first claim of a peer that has claimed. -/
theorem exists_first_claim {ops : List (NeighborSyncState.Op H)}
    (hclaimed : ¬∀ earlier grace, .observeClaim peer earlier grace ∉ ops) :
    ∃ before first grace after, ops = before ++ .observeClaim peer first grace :: after ∧
      ∀ earlier grace, .observeClaim peer earlier grace ∉ before := by
  classical
  push Not at hclaimed
  obtain ⟨earlier, grace, hmem⟩ := hclaimed
  let claims : NeighborSyncState.Op H → Bool := fun op =>
    decide (∃ earlier grace, op = .observeClaim peer earlier grace)
  have hsome : (ops.find? claims).isSome := by
    rw [List.find?_isSome]
    exact ⟨_, hmem, decide_eq_true ⟨earlier, grace, rfl⟩⟩
  obtain ⟨op, hfind⟩ := Option.isSome_iff_exists.mp hsome
  obtain ⟨hop, before, after, rfl, hbefore⟩ := List.find?_eq_some_iff_append.mp hfind
  obtain ⟨first, grace, rfl⟩ := of_decide_eq_true hop
  refine ⟨before, first, grace, after, rfl, fun earlier grace hearlier => ?_⟩
  have hnot := hbefore _ hearlier
  simp [claims] at hnot

/-- A claim is answered without abuse exactly in the grace window of its peer. -/
theorem withinGrace_iff {neighbors : List H} {ops : List (NeighborSyncState.Op H)}
    {state : NeighborSyncState H}
    (hrun : Runs.run NeighborSyncState.step (.newCycle neighbors) ops = some state) :
    (∃ first, (state.observeBootstrapClaim peer now gracePeriod).1 = .withinGrace first) ↔
      GraceOpen ops peer now gracePeriod := by
  have hactive : ∀ {first : Nat}, state.claimsOf peer = (some first, some first) →
      ((∃ first, (state.observeBootstrapClaim peer now gracePeriod).1 = .withinGrace first) ↔
        now ≤ first + gracePeriod) := by
    intro first hclaims
    obtain ⟨hclaim, -⟩ := Prod.mk.inj hclaims
    simp only [NeighborSyncState.observeBootstrapClaim, hclaim]
    split_ifs with hpast
    · exact iff_of_false (by simp) (by omega)
    · exact iff_of_true ⟨first, rfl⟩ (by omega)
  have hcleared : ∀ {first : Nat}, state.claimsOf peer = (none, some first) →
      ¬∃ first, (state.observeBootstrapClaim peer now gracePeriod).1 = .withinGrace first := by
    intro first hclaims
    obtain ⟨hclaim, hhistory⟩ := Prod.mk.inj hclaims
    simp [NeighborSyncState.observeBootstrapClaim, hclaim, hhistory]
  constructor
  · intro hwithin
    by_cases hunclaimed : ∀ earlier grace, .observeClaim peer earlier grace ∉ ops
    · exact .inl hunclaimed
    · obtain ⟨before, first, grace, after, rfl, hfirst⟩ := exists_first_claim hunclaimed
      rcases claimsOf_since_claim hrun hfirst with ⟨hclaims, hclear⟩ | ⟨hclaims, -⟩
      · exact .inr ⟨before, first, grace, after, rfl, hfirst, (hactive hclaims).mp hwithin, hclear⟩
      · exact absurd hwithin (hcleared hclaims)
  · rintro (hunclaimed | ⟨before, first, grace, after, rfl, hfirst, hrecent, hclear⟩)
    · obtain ⟨hclaim, hhistory⟩ :=
        Prod.mk.inj (NeighborSyncState.unclaimed_of_run hrun hunclaimed)
      simp [NeighborSyncState.observeBootstrapClaim, hclaim, hhistory]
    · rcases claimsOf_since_claim hrun hfirst with ⟨hclaims, -⟩ | ⟨-, hcleared⟩
      · exact (hactive hclaims).mpr hrecent
      · exact absurd hcleared hclear

/-! ### The verdict on an answer -/

theorem probeOnce_bootstrapClaim_iff :
    probeOnce key localBytes peer probe = .bootstrapClaim ↔
      probe.reply = .auditResponse (.bootstrapping probe.challengeId) := by
  unfold probeOnce
  cases probe.reply with
  | auditResponse response =>
      cases response with
      | digests respId digests =>
          simp only [interpretAuditResponse]
          split_ifs
          · simp
          · split
            · split_ifs <;> simp
            · simp
      | bootstrapping respId =>
          simp only [interpretAuditResponse]
          split_ifs with heq
          · simp [heq]
          · simp [heq]
      | rejected respId reason => simp [interpretAuditResponse]
  | _ => simp

theorem probeOnce_inconclusive_iff :
    probeOnce key localBytes peer probe = .inconclusive ↔ probe.reply = .unencodable := by
  unfold probeOnce
  cases probe.reply with
  | auditResponse response =>
      cases response with
      | digests respId digests =>
          simp only [interpretAuditResponse]
          split_ifs
          · simp
          · split
            · split_ifs <;> simp
            · simp
      | bootstrapping respId =>
          simp only [interpretAuditResponse]
          split_ifs <;> simp
      | rejected respId reason => simp [interpretAuditResponse]
  | _ => simp

theorem probeOnce_present_iff :
    probeOnce key localBytes peer probe = .present ↔ ProvesChunk key peer localBytes probe := by
  constructor
  · intro hpresent
    unfold probeOnce at hpresent
    cases hreply : probe.reply with
    | auditResponse response =>
        rw [hreply] at hpresent
        cases response with
        | digests respId digests =>
            simp only [interpretAuditResponse] at hpresent
            split_ifs at hpresent with hid
            split at hpresent
            · rename_i received
              split_ifs at hpresent with habsent hdigest
              refine ⟨hreply.trans ?_, hdigest ▸ habsent⟩
              rw [not_not.mp hid, hdigest]
            · cases hpresent
        | bootstrapping respId =>
            simp only [interpretAuditResponse] at hpresent
            split_ifs at hpresent
        | rejected respId reason => cases hpresent
    | unencodable | noResponse | undecodable | otherMessage =>
        rw [hreply] at hpresent
        cases hpresent
  · rintro ⟨hreply, hdigest⟩
    rw [probeOnce, hreply]
    simp [interpretAuditResponse, hdigest]

theorem probeOnce_holder {storage : GetRaw H} {storedChunks : Nat}
    (hstored : storage key = .ok (some localBytes))
    (hdigest : computeAuditDigest probe.nonce peer key localBytes ≠ absentKeyDigest)
    (hreply : probe.reply = .auditResponse (handleAuditChallenge
      ⟨probe.challengeId, probe.nonce, peer, [key]⟩ storage peer false storedChunks)) :
    probeOnce key localBytes peer probe = .present := by
  refine probeOnce_present_iff.mpr ⟨?_, hdigest⟩
  have hfits : ¬[key].length > maxIncomingAuditKeys storedChunks := by
    have hone : 1 ≤ maxIncomingAuditKeys storedChunks := Nat.le_max_right _ _
    exact Nat.not_lt.mpr hone
  have hresponse : handleAuditChallenge ⟨probe.challengeId, probe.nonce, peer, [key]⟩ storage peer
      false storedChunks = .digests probe.challengeId
        [computeAuditDigest probe.nonce peer key localBytes] := by
    simp only [handleAuditChallenge, if_neg hfits]
    simp [auditDigestFor, hstored]
  rw [hreply, hresponse]

theorem probeOnce_replayed {nonce' : Nonce} {peer' key' : H} {bytes' : Bytes} {respId : UInt64}
    (hinjective : Function.Injective (blake3 : Bytes → H))
    (hother : nonce'.toList ++ asBytes peer' ++ asBytes key' ++ bytes' ≠
      probe.nonce.toList ++ asBytes peer ++ asBytes key ++ localBytes)
    (hreply : probe.reply =
      .auditResponse (.digests respId [computeAuditDigest nonce' peer' key' bytes'])) :
    probeOnce key localBytes peer probe = .failed := by
  have hne : computeAuditDigest nonce' peer' key' bytes' ≠
      computeAuditDigest probe.nonce peer key localBytes := fun heq => hother (hinjective heq)
  rw [probeOnce, hreply]
  simp only [interpretAuditResponse, if_neg hne, ite_self]

/-! ### The penalty -/

theorem reports_checkPeer (s : PossessionNode H) (gracePeriod now : Nat) (peer : H)
    (outcome : ProbeOutcome) :
    ∃ penalty : List TrustWeight, penalty.length ≤ 1 ∧
      (s.checkPeer gracePeriod now peer outcome).reports =
        s.reports ++ penalty.map (fun weight => (peer, weight)) ∧
      (penalty = [] ↔ outcome = .present ∨ outcome = .inconclusive ∨ outcome = .bootstrapClaim ∧
        ∃ first, (s.syncState.observeBootstrapClaim peer now gracePeriod).1 =
          .withinGrace first) := by
  cases outcome with
  | present => exact ⟨[], by simp, by simp [checkPeer, clearPossessionBootstrapClaim], by simp⟩
  | failed => exact ⟨[.auditFailure], by simp, rfl, by simp⟩
  | timeout => exact ⟨[.auditFailure], by simp, rfl, by simp⟩
  | inconclusive => exact ⟨[], by simp, by simp [checkPeer], by simp⟩
  | bootstrapClaim =>
      simp only [checkPeer, handlePossessionBootstrapClaim]
      cases (s.syncState.observeBootstrapClaim peer now gracePeriod).1 with
      | withinGrace first => exact ⟨[], by simp, by simp, by simp⟩
      | pastGrace first => exact ⟨[.replication], by simp, rfl, by simp⟩
      | repeated first => exact ⟨[.replication], by simp, rfl, by simp⟩

/-- **A peer without the chunk is penalised, and a holder is not.** In every interleaving of checks with
each other and with the rest of the node, each probe reports its own peer at most once, and not at all
exactly where the peer proved the chunk, the probe could not be sent, or the peer claimed to be
bootstrapping within the one grace window it gets. A peer that stores the chunk proves it whatever the
nonce, and a digest of anything else never does. -/
theorem probe_verdict (now : Nat) (probe : Probe H) {neighbors : List H}
    {events : List (PossessionEvent H)} {id : Nat} {rest : List H}
    (hrun : Runs.run (step gracePeriod) (new neighbors) events = some s)
    (hcheck : s.checks id = some ⟨key, localBytes, peer :: rest⟩) :
    ∃ next, step gracePeriod s (.probe id now probe) = some next ∧
      ProbeVerdict gracePeriod
        (Runs.trace (step gracePeriod) (syncOp gracePeriod) (new neighbors) events) s next key peer
        localBytes now probe := by
  have hsync : Runs.run NeighborSyncState.step (.newCycle neighbors)
      (Runs.trace (step gracePeriod) (syncOp gracePeriod) (new neighbors) events) =
        some s.syncState :=
    Runs.run_trace (fun _ _ => True) (fun _ _ _ => trivial)
      (fun _ mid e s' _ hstep => run_syncOp hstep) hrun
  obtain ⟨penalty, hlength, hreports, hpenalty⟩ := reports_checkPeer s gracePeriod now peer
    (probeOnce key localBytes peer probe)
  have hkept : (s.checkPeer gracePeriod now peer (probeOnce key localBytes peer probe)).reports =
      s.reports ↔ penalty = [] := by
    rw [hreports]
    simp
  have hstep : step gracePeriod s (.probe id now probe) =
      some ((s.checkPeer gracePeriod now peer (probeOnce key localBytes peer probe)).setCheck id
        (some ⟨key, localBytes, rest⟩)) := by
    simp only [step, hcheck]
  refine ⟨_, hstep, ⟨penalty, hlength, hreports⟩, ?_, ?_, ?_⟩
  · change (s.checkPeer gracePeriod now peer _).reports = s.reports ↔ _
    rw [hkept, hpenalty, probeOnce_present_iff, probeOnce_inconclusive_iff,
      probeOnce_bootstrapClaim_iff, withinGrace_iff hsync]
  · intro storage storedChunks hstored hdigest hreply
    exact hkept.mpr (hpenalty.mpr (.inl (probeOnce_holder hstored hdigest hreply)))
  · intro nonce' peer' key' bytes' respId hinjective hother hreply
    change (s.checkPeer gracePeriod now peer _).reports = _
    rw [probeOnce_replayed hinjective hother hreply]
    rfl

/-! ### A holder -/

def holderProbe : Probe Transcript where
  challengeId := 3
  nonce := Vector.replicate 32 0
  reply := .auditResponse (.digests 3
    [computeAuditDigest (Vector.replicate 32 0) ⟨[7]⟩ ⟨[1]⟩ [1]])

def startedCheck : List (PossessionEvent Transcript) :=
  [.elsewhere (.observeClaim ⟨[7]⟩ 0 100), .start 0 ⟨⟨[1]⟩, [⟨[7]⟩, ⟨[8]⟩]⟩ (.ok (some [1]))]

theorem probe_verdict_holder :
    ∃ s next, Runs.run (step 100) (new []) startedCheck = some s ∧
      s.checks 0 = some ⟨⟨[1]⟩, [1], [⟨[7]⟩, ⟨[8]⟩]⟩ ∧
      step 100 s (.probe 0 10 holderProbe) = some next ∧ next.reports = s.reports := by
  obtain ⟨s, hrun, hcheck⟩ : ∃ s, Runs.run (step 100) (new []) startedCheck = some s ∧
      s.checks 0 = some ⟨⟨[1]⟩, [1], [⟨[7]⟩, ⟨[8]⟩]⟩ := ⟨_, rfl, rfl⟩
  obtain ⟨next, hstep, hverdict⟩ := probe_verdict 10 holderProbe hrun hcheck
  exact ⟨s, next, hrun, hcheck, hstep, hverdict.unpenalised.mpr (.inl ⟨rfl, by decide +kernel⟩)⟩

end PossessionNode

end AntNode
