import AntNode.AuditingNode
import AntNode.Lib.Runs
import AntNode.Proof.AuditCompleteness

/-!
# Who counts as a holder

A vote for a key this node holds counts if the voter has proven that it holds the key too, under the
commitment it gossiped last. The tasks that take gossip in, audit, punish and forget run in any order,
so what the vote rests on is a matter of the whole run: which step put an entry into the cache or a
commitment on file, and that no step has taken it back since.
-/

namespace AntNode

open Runs

variable {H : Type} [Digest H]

/-! ### One bucket -/

namespace RecentProvers

variable {key peerId commitmentHash : H} {provedAt : Nat} {bucket : List (ProverEntry H)}
  {entry : ProverEntry H}

theorem mem_of_mem_refresh {refreshed : List (ProverEntry H)}
    (hrefresh : refresh peerId commitmentHash provedAt bucket = some refreshed)
    (hmem : entry ∈ refreshed) :
    entry = ⟨peerId, provedAt, commitmentHash⟩ ∨ entry ∈ bucket := by
  induction bucket generalizing refreshed with
  | nil => cases hrefresh
  | cons first rest ih =>
      rw [refresh] at hrefresh
      split_ifs at hrefresh with hfirst
      · cases hrefresh
        obtain ⟨rfl, rfl⟩ := hfirst
        rcases List.mem_cons.mp hmem with rfl | hrest
        · exact .inl rfl
        · exact .inr (List.mem_cons_of_mem _ hrest)
      · obtain ⟨tail, htail, rfl⟩ := Option.map_eq_some_iff.mp hrefresh
        rcases List.mem_cons.mp hmem with rfl | hrest
        · exact .inr List.mem_cons_self
        · exact (ih htail hrest).imp_right (List.mem_cons_of_mem _)

omit [Digest H] in
theorem mem_sortByProvedAt : entry ∈ sortByProvedAt bucket ↔ entry ∈ bucket :=
  List.mem_insertionSort _

theorem mem_of_mem_recordInBucket
    (hmem : entry ∈ recordInBucket peerId commitmentHash provedAt bucket) :
    entry = ⟨peerId, provedAt, commitmentHash⟩ ∨ entry ∈ bucket := by
  rw [recordInBucket] at hmem
  split at hmem
  · rename_i refreshed hrefresh
    exact mem_of_mem_refresh hrefresh (mem_sortByProvedAt.mp hmem)
  · rw [mem_sortByProvedAt, List.mem_append, List.mem_singleton] at hmem
    rcases hmem with hold | hnew
    · split_ifs at hold
      · exact .inr (List.mem_of_mem_drop hold)
      · exact .inr hold
    · exact .inl hnew

theorem mem_entries_apply {provers : RecentProvers H} {update : CreditUpdate H}
    (hmem : entry ∈ (provers.apply update).entries key) :
    update = .recordProof key entry.peerId entry.commitmentHash entry.provedAt ∨
      entry ∈ provers.entries key ∧ update ≠ .forgetCommitment entry.commitmentHash := by
  cases update with
  | recordProof key' peerId commitmentHash provedAt =>
      change entry ∈ Function.update provers.entries key' _ key at hmem
      by_cases hkey : key = key'
      · subst hkey
        rw [Function.update_self] at hmem
        rcases mem_of_mem_recordInBucket hmem with rfl | hold
        · exact .inl rfl
        · exact .inr ⟨hold, by simp⟩
      · rw [Function.update_of_ne hkey] at hmem
        exact .inr ⟨hmem, by simp⟩
  | forgetCommitment staleHash =>
      obtain ⟨hold, hkeep⟩ := List.mem_filter.mp hmem
      refine .inr ⟨hold, ?_⟩
      rintro ⟨⟩
      simp at hkeep

/-- What an audit leaves in the cache is what it recorded, or was there and has not been revoked. -/
theorem mem_entries_foldl_apply {updates : List (CreditUpdate H)} {provers : RecentProvers H}
    (hmem : entry ∈ (updates.foldl RecentProvers.apply provers).entries key) :
    .recordProof key entry.peerId entry.commitmentHash entry.provedAt ∈ updates ∨
      entry ∈ provers.entries key ∧ .forgetCommitment entry.commitmentHash ∉ updates := by
  induction updates generalizing provers with
  | nil => exact .inr ⟨hmem, List.not_mem_nil⟩
  | cons update updates ih =>
      rcases ih hmem with hlater | ⟨hfirst, hnot⟩
      · exact .inl (List.mem_cons_of_mem _ hlater)
      · rcases mem_entries_apply hfirst with rfl | ⟨hold, hne⟩
        · exact .inl List.mem_cons_self
        · exact .inr ⟨hold, fun hforget => (List.mem_cons.mp hforget).elim
            (fun heq => hne heq.symm) hnot⟩

end RecentProvers

variable [CommitmentProtocol H]

/-! ### One audit -/

section Audit

variable {ctx : AuditCtx H} {rng : Nat → Nat} {now : Nat}

/-- The audit has passed: the peer proved a subtree of the commitment under the pin, and served every
leaf that was drawn from it. -/
structure Passes (ctx : AuditCtx H) (rng : Nat → Nat) (commitment : StorageCommitment H)
    (proof : SubtreeProof H) : Prop where
  answered : ctx.send 0 (.subtreeAuditChallenge
      ⟨ctx.challengeId, ctx.nonce, ctx.challengedPeer, ctx.expectedCommitmentHash⟩)
    = .received (.subtreeAuditResponse (.proof ctx.challengeId commitment proof))
  genuine : commitment.senderPeerId = ctx.challengedPeer ∧
    blake3 commitment.senderPublicKey = commitment.senderPeerId ∧
    commitmentHash commitment = some ctx.expectedCommitmentHash ∧
    verifyCommitmentSignature commitment = true
  structured : verifySubtreeProof proof ctx.nonce commitment = .valid
  served : ProvenFrom ctx 0 (chunks maxByteChallengeKeys (sampledLeaves proof rng))

/-- Whatever an audit answers, its updates are those of a pass, or revoke the credit under its pin. -/
theorem runSubtreeAudit_updates (ctx : AuditCtx H) (rng : Nat → Nat) (now : Nat) :
    (∀ update ∈ (runSubtreeAudit ctx rng now).2, update ∈ forgetPinned ctx) ∨
      ∃ commitment proof, Passes ctx rng commitment proof ∧
        (runSubtreeAudit ctx rng now).2 = creditLeaves ctx commitment proof now := by
  have hnone : ∀ update ∈ ([] : List (CreditUpdate H)), update ∈ forgetPinned ctx :=
    fun _ hmem => absurd hmem List.not_mem_nil
  unfold runSubtreeAudit
  split
  · exact .inl hnone
  · exact .inl hnone
  · exact .inl hnone
  · rename_i body hbody
    unfold dispatchSubtreeResponse
    dsimp only
    split
    · split_ifs <;> exact .inl hnone
    · split_ifs
      · exact .inl hnone
      · split
        · exact .inl hnone
        · exact .inl fun _ hmem => hmem
    · split_ifs with hid
      · exact .inl hnone
      · rename_i respId commitment proof
        obtain rfl : respId = ctx.challengeId := not_not.mp hid
        cases hstructure : evaluateSubtreeStructure commitment proof ctx.nonce
            ctx.expectedCommitmentHash ctx.challengedPeer with
        | error reason =>
            rw [verifySubtreeResponse, hstructure]
            exact .inl hnone
        | ok =>
            obtain ⟨hsender, hkey, hpin, hsigned, hvalid⟩ :=
              evaluateSubtreeStructure_eq_ok_iff.mp hstructure
            rcases verifySubtreeResponse_cases ctx commitment proof rng now with
              ⟨reason, updates, hupdates, heq⟩ | ⟨-, hserved, heq⟩
            · rw [heq]
              exact .inl hupdates
            · rw [heq]
              exact .inr ⟨commitment, proof,
                ⟨hbody, ⟨hsender, hkey, hpin, hsigned⟩, hvalid, hserved⟩, rfl⟩
    · exact .inl hnone

theorem recordProof_mem_runSubtreeAudit {key peer hash : H} {provedAt : Nat}
    (hmem : .recordProof key peer hash provedAt ∈ (runSubtreeAudit ctx rng now).2) :
    peer = ctx.challengedPeer ∧ hash = ctx.expectedCommitmentHash ∧ provedAt = now ∧
      ∃ commitment proof, Passes ctx rng commitment proof ∧
        key ∈ proof.leaves.map SubtreeLeaf.key := by
  rcases runSubtreeAudit_updates ctx rng now with hforget | ⟨commitment, proof, hpasses, hupdates⟩
  · exact absurd (hforget _ hmem) not_recordProof_mem_forgetPinned
  · rw [hupdates, creditLeaves, hpasses.genuine.2.2.1] at hmem
    split at hmem
    · rename_i pin hcredit hpin
      obtain ⟨leaf, hleaf, heq⟩ := List.mem_map.mp hmem
      cases heq
      cases hpin
      exact ⟨rfl, rfl, rfl, commitment, proof, hpasses, List.mem_map_of_mem hleaf⟩
    · exact absurd hmem List.not_mem_nil

end Audit

/-! ### One step -/

namespace AuditingNode

/-- What a step may do: the parts of the node that the proofs are about. What happens to the sync
state, the two stamp maps and the clock of an ingest is left open. -/
inductive Steps (gracePeriod : Nat) (s : AuditingNode H) : AuditingEvent H → AuditingNode H → Prop
  | clock {now : Nat} (hle : s.now ≤ now) : Steps gracePeriod s (.clock now) { s with now := now }
  | beginIngest {id : Nat} (source : H) (commitment : Option (StorageCommitment H))
      (inRoutingTable : Bool) :
      Steps gracePeriod s (.ingest id source commitment inRoutingTable)
        (s.setIngest id (s.beginIngest source commitment inRoutingTable))
  | clear {id instant : Nat} {source : H} (hphase : s.ingests id = .clearing source instant) :
      Steps gracePeriod s (.clear id) ((s.clearIfStale source instant).setIngest id .idle)
  | rateLimit {id instant : Nat} {source : H} {c : StorageCommitment H} {phase : IngestPhase H}
      (attempts : CooldownMap H) (iteration : Iteration H)
      (hphase : s.ingests id = .rateLimiting source c instant)
      (hnext : phase = .idle ∨
        phase = .storing source c instant ∧ verifyCommitmentSignature c = true) :
      Steps gracePeriod s (.rateLimit id iteration)
        ({ s with sigVerifyAttempts := attempts }.setIngest id phase)
  | store {id instant : Nat} {source : H} {c : StorageCommitment H} (victim : H)
      (hphase : s.ingests id = .storing source c instant) :
      Steps gracePeriod s (.store id victim)
        ((s.storeCommitment source c instant victim).setIngest id (.markingCapable source c))
  | markCapable {id : Nat} {source : H} {c : StorageCommitment H}
      (hphase : s.ingests id = .markingCapable source c) :
      Steps gracePeriod s (.markCapable id)
        ((s.recordCapable source).setIngest id (afterIngest source c))
  | triggered {id auditId : Nat} {source : H} {target : AuditTarget H} {lotteryWins : Bool}
      {iteration : Iteration H} {s' : AuditingNode H} (decision : Bool × CooldownMap H)
      (hlaunch : (s.setIngest id .idle).launch auditId source target decision = some s') :
      Steps gracePeriod s (.trigger id auditId lotteryWins iteration) s'
  | firstAudit {auditId : Nat} {peer : H} {target : AuditTarget H} {iteration : Iteration H}
      {s' : AuditingNode H} (decision : Bool × CooldownMap H)
      (hlaunch : s.launch auditId peer target decision = some s') :
      Steps gracePeriod s (.firstAudit auditId peer target iteration) s'
  | conclude {id : Nat} {peer : H} {target : AuditTarget H} {audit : AuditRun H}
      (hphase : s.audits id = .running peer target) (hinstant : audit.instant ≤ s.now) :
      Steps gracePeriod s (.conclude id audit)
        ({ s with
            recentProvers := (verdict peer target audit).2.foldl RecentProvers.apply
              s.recentProvers }.setAudit id (.concluded (verdict peer target audit).1))
  | tick {id : Nat} (result : AuditTickResult H) (hphase : s.audits id = .idle) :
      Steps gracePeriod s (.tick id result) (s.setAudit id (.ticked result))
  | handleConcluded {id : Nat} {result : AuditTickResult H}
      (hphase : s.audits id = .concluded result) :
      Steps gracePeriod s (.handleResult id)
        ((s.handleSubtreeAuditResult gracePeriod result).1.setAudit id
          (s.handleSubtreeAuditResult gracePeriod result).2)
  | handleTicked {id : Nat} {result : AuditTickResult H} (hphase : s.audits id = .ticked result) :
      Steps gracePeriod s (.handleResult id)
        ((s.handleAuditResult gracePeriod result).1.setAudit id
          (s.handleAuditResult gracePeriod result).2)
  | revoke {id : Nat} {peer : H} {reason : AuditFailureReason}
      (hphase : s.audits id = .revoking peer reason) :
      Steps gracePeriod s (.revoke id)
        ({ s with
            recentProvers := applyAuditFailureCreditRevocation s.recentProvers peer reason }.setAudit
          id (.reporting peer (.applicationFailure .auditFailure)))
  | report {id : Nat} {peer : H} {event : TrustEvent}
      (hphase : s.audits id = .reporting peer event) :
      Steps gracePeriod s (.report id)
        ({ s with trustEvents := s.trustEvents ++ [(peer, event)] }.setAudit id .idle)
  | sweep : Steps gracePeriod s .sweep
      { s with recentProvers := s.recentProvers.sweepExpired s.now }
  | removeCommitment (peer : H) : Steps gracePeriod s (.removeCommitment peer)
      { s with lastCommitmentByPeer := s.lastCommitmentByPeer.erase peer }
  | forgetProver (peer : H) : Steps gracePeriod s (.forgetProver peer)
      { s with recentProvers := s.recentProvers.forgetPeer peer }
  | removeAttempt (peer : H) : Steps gracePeriod s (.removeAttempt peer)
      { s with sigVerifyAttempts := s.sigVerifyAttempts.erase peer }
  | removeCooldown (peer : H) : Steps gracePeriod s (.removeCooldown peer)
      { s with cooldown := s.cooldown.erase peer }
  | syncElsewhere (op : NeighborSyncState.Op H) : Steps gracePeriod s (.syncElsewhere op)
      { s with syncState := s.syncState.apply op }
  | snapshotCommitments : Steps gracePeriod s .snapshotCommitments
      { s with holders := { s.holders with commitmentByPeer := s.commitmentByPeer } }
  | snapshotCapable : Steps gracePeriod s .snapshotCapable
      { s with holders := { s.holders with capablePeers := s.everCapablePeers } }
  | snapshotProvers : Steps gracePeriod s .snapshotProvers
      { s with holders := { s.holders with provers := s.recentProvers } }
  | snapshotHeld (locallyHeld : Finset H) : Steps gracePeriod s (.snapshotHeld locallyHeld)
      { s with holders := { s.holders with locallyHeld := locallyHeld } }

section Steps

variable {gracePeriod : Nat} {s s' : AuditingNode H} {e : AuditingEvent H}

theorem steps_of_step (hstep : s.step gracePeriod e = some s') : Steps gracePeriod s e s' := by
  cases e with
  | clock now =>
      simp only [step] at hstep
      split_ifs at hstep with hle
      cases hstep
      exact .clock hle
  | ingest id source commitment inRoutingTable =>
      simp only [step, stepIngest] at hstep
      split at hstep
      · cases hstep
        exact .beginIngest ..
      · cases hstep
  | clear id =>
      simp only [step, stepIngest] at hstep
      split at hstep
      · rename_i hphase
        cases hstep
        exact .clear hphase
      · cases hstep
  | rateLimit id iteration =>
      simp only [step, stepIngest] at hstep
      split at hstep
      · rename_i source c instant hphase
        cases hstep
        refine .rateLimit _ iteration hphase ?_
        split_ifs with hok
        · exact .inr ⟨rfl, ((Bool.and_eq_true _ _).mp hok).2⟩
        · exact .inl rfl
      · cases hstep
  | store id victim =>
      simp only [step, stepIngest] at hstep
      split at hstep
      · rename_i hphase
        cases hstep
        exact .store victim hphase
      · cases hstep
  | markCapable id =>
      simp only [step, stepIngest] at hstep
      split at hstep
      · rename_i hphase
        cases hstep
        exact .markCapable hphase
      · cases hstep
  | trigger id auditId lotteryWins iteration =>
      simp only [step] at hstep
      split at hstep
      · exact .triggered _ hstep
      · cases hstep
  | firstAudit auditId peer target iteration => exact .firstAudit _ hstep
  | conclude id audit =>
      simp only [step, stepAudit] at hstep
      split at hstep
      · rename_i hphase
        split_ifs at hstep with hinstant
        cases hstep
        exact .conclude hphase hinstant
      · cases hstep
  | tick id result =>
      simp only [step, stepAudit] at hstep
      split at hstep
      · rename_i hphase
        cases hstep
        exact .tick result hphase
      · cases hstep
  | handleResult id =>
      simp only [step, stepAudit] at hstep
      split at hstep
      · rename_i hphase
        cases hstep
        exact .handleConcluded hphase
      · rename_i hphase
        cases hstep
        exact .handleTicked hphase
      · cases hstep
  | revoke id =>
      simp only [step, stepAudit] at hstep
      split at hstep
      · rename_i hphase
        cases hstep
        exact .revoke hphase
      · cases hstep
  | report id =>
      simp only [step, stepAudit] at hstep
      split at hstep
      · rename_i hphase
        cases hstep
        exact .report hphase
      · cases hstep
  | sweep => cases hstep; exact .sweep
  | removeCommitment peer => cases hstep; exact .removeCommitment peer
  | forgetProver peer => cases hstep; exact .forgetProver peer
  | removeAttempt peer => cases hstep; exact .removeAttempt peer
  | removeCooldown peer => cases hstep; exact .removeCooldown peer
  | syncElsewhere op => cases hstep; exact .syncElsewhere op
  | snapshotCommitments => cases hstep; exact .snapshotCommitments
  | snapshotCapable => cases hstep; exact .snapshotCapable
  | snapshotProvers => cases hstep; exact .snapshotProvers
  | snapshotHeld locallyHeld => cases hstep; exact .snapshotHeld locallyHeld

theorem launch_eq_some {auditId : Nat} {peer : H} {target : AuditTarget H}
    {decision : Bool × CooldownMap H}
    (hlaunch : s.launch auditId peer target decision = some s') :
    s.audits auditId = .idle ∧ ∃ cooldown, s' = { s with cooldown := cooldown } ∨
      s' = { s with cooldown := cooldown }.setAudit auditId (.running peer target) := by
  unfold launch at hlaunch
  split at hlaunch
  · rename_i hidle
    cases hlaunch
    refine ⟨hidle, decision.2, ?_⟩
    split_ifs
    · exact .inr rfl
    · exact .inl rfl
  · cases hlaunch

theorem clearIfStale_eq (s : AuditingNode H) (source : H) (instant : Nat) :
    ∃ records, s.clearIfStale source instant = { s with lastCommitmentByPeer := records } := by
  unfold clearIfStale
  split
  · exact ⟨s.lastCommitmentByPeer, rfl⟩
  · split_ifs
    · exact ⟨_, rfl⟩
    · exact ⟨s.lastCommitmentByPeer, rfl⟩

theorem recordCapable_eq (s : AuditingNode H) (source : H) :
    ∃ capable, s.recordCapable source = { s with everCapablePeers := capable } := by
  unfold recordCapable
  split_ifs
  · exact ⟨_, rfl⟩
  · exact ⟨s.everCapablePeers, rfl⟩

theorem handleSubtreeAuditResult_fst (gracePeriod : Nat) (s : AuditingNode H)
    (result : AuditTickResult H) :
    ∃ syncState, (s.handleSubtreeAuditResult gracePeriod result).1
      = { s with syncState := syncState } := by
  unfold handleSubtreeAuditResult
  split
  · exact ⟨_, rfl⟩
  · split_ifs
    · exact ⟨s.syncState, rfl⟩
    · exact ⟨_, rfl⟩
  · exact ⟨s.syncState, rfl⟩
  · exact ⟨_, rfl⟩
  · exact ⟨s.syncState, rfl⟩
  · exact ⟨s.syncState, rfl⟩

theorem handleAuditResult_fst (gracePeriod : Nat) (s : AuditingNode H)
    (result : AuditTickResult H) :
    ∃ syncState, (s.handleAuditResult gracePeriod result).1 = { s with syncState := syncState } := by
  unfold handleAuditResult
  split
  · exact ⟨_, rfl⟩
  · split_ifs
    · exact ⟨_, rfl⟩
    · exact ⟨s.syncState, rfl⟩
  · exact ⟨s.syncState, rfl⟩
  · exact ⟨_, rfl⟩
  · exact ⟨s.syncState, rfl⟩
  · exact ⟨s.syncState, rfl⟩

/-! ### Steps that hand on -/

/-- The events between taking a commitment in, auditing for it and acting on the result. -/
def HandsOn : AuditingEvent H → Prop
  | .markCapable _ | .trigger .. | .firstAudit .. | .handleResult _ => True
  | _ => False

/-- Nothing that a vote rests on has changed. -/
structure SameCredit (s s' : AuditingNode H) : Prop where
  provers : s'.recentProvers = s.recentProvers
  records : s'.lastCommitmentByPeer = s.lastCommitmentByPeer
  holders : s'.holders = s.holders

theorem sameCredit_of_launch {auditId : Nat} {peer : H} {target : AuditTarget H}
    {decision : Bool × CooldownMap H}
    (hlaunch : s.launch auditId peer target decision = some s') : SameCredit s s' := by
  obtain ⟨-, cooldown, rfl | rfl⟩ := launch_eq_some hlaunch
  · exact ⟨rfl, rfl, rfl⟩
  · exact ⟨rfl, rfl, rfl⟩

theorem sameCredit_of_step (hstep : Steps gracePeriod s e s') (hhands : HandsOn e) :
    SameCredit s s' := by
  cases hstep with
  | @markCapable id source c hphase =>
      obtain ⟨capable, heq⟩ := s.recordCapable_eq source
      rw [heq]
      exact ⟨rfl, rfl, rfl⟩
  | triggered decision hlaunch =>
      obtain ⟨hprovers, hrecords, hholders⟩ := sameCredit_of_launch hlaunch
      exact ⟨hprovers, hrecords, hholders⟩
  | firstAudit decision hlaunch => exact sameCredit_of_launch hlaunch
  | @handleConcluded id result hphase =>
      obtain ⟨syncState, heq⟩ := handleSubtreeAuditResult_fst gracePeriod s result
      rw [heq]
      exact ⟨rfl, rfl, rfl⟩
  | @handleTicked id result hphase =>
      obtain ⟨syncState, heq⟩ := handleAuditResult_fst gracePeriod s result
      rw [heq]
      exact ⟨rfl, rfl, rfl⟩
  | _ => exact hhands.elim

/-! ### Credit given and taken back -/

/-- The audit of the peer is passed, with the key among the leaves it showed. -/
def CreditsAt (key peer hash : H) (provedAt : Nat) (s : AuditingNode H) : AuditingEvent H → Prop
  | .conclude id audit => ∃ target, s.audits id = .running peer target ∧
      .recordProof key peer hash provedAt ∈ (verdict peer target audit).2
  | _ => False

/-- The peer is forgotten, a failure of it is punished, or an audit under the commitment is turned
down for a read error. -/
def RevokesAt (peer hash : H) (s : AuditingNode H) : AuditingEvent H → Prop
  | .forgetProver other => other = peer
  | .revoke id => ∃ reason, s.audits id = .revoking peer reason ∧
      auditFailureRevokesHolderCredit reason = true
  | .conclude id audit => ∃ other target, s.audits id = .running other target ∧
      .forgetCommitment hash ∈ (verdict other target audit).2
  | _ => False

theorem mem_provers_of_step (hstep : Steps gracePeriod s e s') {key : H} {entry : ProverEntry H}
    (hmem : entry ∈ s'.recentProvers.entries key) :
    CreditsAt key entry.peerId entry.commitmentHash entry.provedAt s e ∨
      entry ∈ s.recentProvers.entries key ∧ ¬RevokesAt entry.peerId entry.commitmentHash s e := by
  have hsame := sameCredit_of_step hstep
  cases hstep with
  | conclude hphase hinstant =>
      rename_i id peer target audit
      rcases RecentProvers.mem_entries_foldl_apply hmem with hnew | ⟨hold, hnot⟩
      · obtain ⟨hpeer, -⟩ := recordProof_mem_runSubtreeAudit hnew
        refine .inl ⟨target, ?_, ?_⟩
        · rw [hpeer]
          exact hphase
        · rw [hpeer] at hnew ⊢
          exact hnew
      · refine .inr ⟨hold, ?_⟩
        rintro ⟨other, target', hphase', hforget⟩
        obtain ⟨rfl, rfl⟩ := AuditPhase.running.inj (hphase.symm.trans hphase')
        exact hnot hforget
  | revoke hphase =>
      rename_i id peer reason
      change entry ∈ (applyAuditFailureCreditRevocation s.recentProvers peer reason).entries key
        at hmem
      unfold applyAuditFailureCreditRevocation at hmem
      split_ifs at hmem with hrevokes
      · obtain ⟨hold, hkeep⟩ := List.mem_filter.mp hmem
        refine .inr ⟨hold, ?_⟩
        rintro ⟨reason', hphase', -⟩
        obtain ⟨rfl, -⟩ := AuditPhase.revoking.inj (hphase.symm.trans hphase')
        simp at hkeep
      · refine .inr ⟨hmem, ?_⟩
        rintro ⟨reason', hphase', hrevokes'⟩
        obtain ⟨-, rfl⟩ := AuditPhase.revoking.inj (hphase.symm.trans hphase')
        exact hrevokes hrevokes'
  | sweep => exact .inr ⟨(List.mem_filter.mp hmem).1, not_false⟩
  | forgetProver peer =>
      obtain ⟨hold, hkeep⟩ := List.mem_filter.mp hmem
      refine .inr ⟨hold, ?_⟩
      rintro rfl
      simp at hkeep
  | @clear id instant source hphase =>
      obtain ⟨records, heq⟩ := s.clearIfStale_eq source instant
      rw [heq] at hmem
      exact .inr ⟨hmem, not_false⟩
  | markCapable | triggered | firstAudit | handleConcluded | handleTicked =>
      rw [(hsame trivial).provers] at hmem
      exact .inr ⟨hmem, not_false⟩
  | _ => exact .inr ⟨hmem, not_false⟩

/-! ### Commitments on file -/

/-- The commitment comes from the peer: it names it, under a key that is the peer's, and the signature
under that key verifies. -/
structure VerifiedFrom (peer : H) (c : StorageCommitment H) : Prop where
  sender : c.senderPeerId = peer
  publicKey : blake3 c.senderPublicKey = peer
  signed : verifyCommitmentSignature c = true

/-- A commitment of the peer is put on file. -/
def StoresAt (peer : H) (c : StorageCommitment H) (s : AuditingNode H) : AuditingEvent H → Prop
  | .store id _ => ∃ instant, s.ingests id = .storing peer c instant
  | _ => False

/-- What has been checked of the commitment that is being taken in. -/
def Checked : IngestPhase H → Prop
  | .rateLimiting source c _ => c.senderPeerId = source ∧ blake3 c.senderPublicKey = source
  | .storing source c _ => VerifiedFrom source c
  | _ => True

theorem checked_beginIngest (s : AuditingNode H) (source : H)
    (commitment : Option (StorageCommitment H)) (inRoutingTable : Bool) :
    Checked (s.beginIngest source commitment inRoutingTable) := by
  unfold beginIngest
  split
  · split <;> trivial
  · split_ifs with hrouting hsender hkey
    · trivial
    · trivial
    · trivial
    · push Not at hsender hkey
      exact ⟨hsender, hkey.trans hsender⟩

theorem checked_setIngest {id : Nat} {phase : IngestPhase H}
    (hchecked : ∀ other, Checked (s.ingests other)) (hphase : Checked phase) (other : Nat) :
    Checked ((s.setIngest id phase).ingests other) := by
  change Checked (Function.update s.ingests id phase other)
  by_cases hid : other = id
  · rw [hid, Function.update_self]
    exact hphase
  · rw [Function.update_of_ne hid]
    exact hchecked other

theorem checked_of_step (hstep : Steps gracePeriod s e s') (hchecked : ∀ id, Checked (s.ingests id)) :
    ∀ id, Checked (s'.ingests id) := by
  cases hstep with
  | beginIngest source commitment inRoutingTable =>
      exact checked_setIngest hchecked (s.checked_beginIngest source commitment inRoutingTable)
  | @clear id instant source hphase =>
      obtain ⟨records, heq⟩ := s.clearIfStale_eq source instant
      rw [heq]
      exact checked_setIngest hchecked trivial
  | @rateLimit id instant source c phase attempts iteration hphase hnext =>
      have hsource := hchecked id
      rw [hphase] at hsource
      rcases hnext with rfl | ⟨rfl, hsigned⟩
      · exact checked_setIngest hchecked trivial
      · exact checked_setIngest hchecked ⟨hsource.1, hsource.2, hsigned⟩
  | store victim hphase => exact checked_setIngest hchecked trivial
  | @markCapable id source c hphase =>
      obtain ⟨capable, heq⟩ := s.recordCapable_eq source
      have hafter : Checked (afterIngest source c) := by
        unfold afterIngest
        split <;> trivial
      rw [heq]
      exact checked_setIngest hchecked hafter
  | triggered decision hlaunch =>
      obtain ⟨-, cooldown, rfl | rfl⟩ := launch_eq_some hlaunch <;>
        exact checked_setIngest hchecked trivial
  | firstAudit decision hlaunch =>
      obtain ⟨-, cooldown, rfl | rfl⟩ := launch_eq_some hlaunch <;> exact hchecked
  | @handleConcluded id result hphase =>
      obtain ⟨syncState, heq⟩ := handleSubtreeAuditResult_fst gracePeriod s result
      rw [heq]
      exact hchecked
  | @handleTicked id result hphase =>
      obtain ⟨syncState, heq⟩ := handleAuditResult_fst gracePeriod s result
      rw [heq]
      exact hchecked
  | _ => exact hchecked

theorem lookup_of_makeRoom {records : FiniteMap H (CapablePeerRecord H)} {source victim peer : H}
    {rec : CapablePeerRecord H} (hlookup : (makeRoom records source victim).lookup peer = some rec) :
    records.lookup peer = some rec := by
  unfold makeRoom at hlookup
  split_ifs at hlookup
  · by_cases hvictim : peer = victim
    · rw [hvictim, Finmap.lookup_erase] at hlookup
      cases hlookup
    · rwa [Finmap.lookup_erase_ne hvictim] at hlookup
  · exact hlookup

/-- The commitment on file is the one that the step stores, or it was on file and the step stores no
other. -/
theorem record_of_step (hstep : Steps gracePeriod s e s') {peer : H} {rec : CapablePeerRecord H}
    {c : StorageCommitment H} (hlookup : s'.lastCommitmentByPeer.lookup peer = some rec)
    (hlast : rec.lastCommitment = some c) :
    StoresAt peer c s e ∨
      (∃ old, s.lastCommitmentByPeer.lookup peer = some old ∧ old.lastCommitment = some c) ∧
        ¬∃ other, StoresAt peer other s e := by
  have hkept : s.lastCommitmentByPeer.lookup peer = some rec → (¬∃ other, StoresAt peer other s e) →
      (∃ old, s.lastCommitmentByPeer.lookup peer = some old ∧ old.lastCommitment = some c) ∧
        ¬∃ other, StoresAt peer other s e :=
    fun hold hnot => ⟨⟨rec, hold, hlast⟩, hnot⟩
  have hsame := sameCredit_of_step hstep
  cases hstep with
  | @store id instant source c' victim hphase =>
      simp only [setIngest, storeCommitment, FiniteMap.lookup_insert_eq] at hlookup
      split_ifs at hlookup with heq
      · subst heq
        cases hlookup
        refine .inl ⟨instant, ?_⟩
        have hcommitment : c' = c := by
          cases hroom : (makeRoom s.lastCommitmentByPeer peer victim).lookup peer with
          | none =>
              rw [hroom] at hlast
              exact Option.some.inj hlast
          | some old =>
              rw [hroom] at hlast
              exact Option.some.inj hlast
        rw [← hcommitment]
        exact hphase
      · refine .inr (hkept (lookup_of_makeRoom hlookup) ?_)
        rintro ⟨other, instant', hphase'⟩
        exact heq (IngestPhase.storing.inj (hphase.symm.trans hphase')).1.symm
  | @clear id instant source hphase =>
      change (s.clearIfStale source instant).lastCommitmentByPeer.lookup peer = some rec at hlookup
      refine .inr (hkept ?_ (by rintro ⟨other, ⟨⟩⟩))
      unfold clearIfStale at hlookup
      split at hlookup
      · exact hlookup
      · split_ifs at hlookup
        · simp only [FiniteMap.lookup_insert_eq] at hlookup
          split_ifs at hlookup with heq
          · cases hlookup
            cases hlast
          · exact hlookup
        · exact hlookup
  | removeCommitment removed =>
      change (s.lastCommitmentByPeer.erase removed).lookup peer = some rec at hlookup
      refine .inr (hkept ?_ (by rintro ⟨other, ⟨⟩⟩))
      by_cases heq : peer = removed
      · rw [heq, Finmap.lookup_erase] at hlookup
        cases hlookup
      · rwa [Finmap.lookup_erase_ne heq] at hlookup
  | markCapable | triggered | firstAudit | handleConcluded | handleTicked =>
      rw [(hsame trivial).records] at hlookup
      exact .inr (hkept hlookup (by rintro ⟨other, ⟨⟩⟩))
  | _ => exact .inr (hkept hlookup (by rintro ⟨other, ⟨⟩⟩))

/-! ### Whole runs -/

/-- What the two copies a verification cycle takes are copies of. -/
theorem holders_of_step (hstep : Steps gracePeriod s e s') :
    (e = .snapshotProvers ∧ s'.holders.provers = s.recentProvers ∨
      e ≠ .snapshotProvers ∧ s'.holders.provers = s.holders.provers) ∧
    (e = .snapshotCommitments ∧ s'.holders.commitmentByPeer = s.commitmentByPeer ∨
      e ≠ .snapshotCommitments ∧ s'.holders.commitmentByPeer = s.holders.commitmentByPeer) := by
  have hsame := sameCredit_of_step hstep
  cases hstep with
  | snapshotProvers => exact ⟨.inl ⟨rfl, rfl⟩, .inr ⟨by simp, rfl⟩⟩
  | snapshotCommitments => exact ⟨.inr ⟨by simp, rfl⟩, .inl ⟨rfl, rfl⟩⟩
  | @clear id instant source hphase =>
      obtain ⟨records, heq⟩ := s.clearIfStale_eq source instant
      rw [heq]
      exact ⟨.inr ⟨by simp, rfl⟩, .inr ⟨by simp, rfl⟩⟩
  | markCapable | triggered | firstAudit | handleConcluded | handleTicked =>
      rw [(hsame trivial).holders]
      exact ⟨.inr ⟨by simp, rfl⟩, .inr ⟨by simp, rfl⟩⟩
  | _ => exact ⟨.inr ⟨by simp, rfl⟩, .inr ⟨by simp, rfl⟩⟩

variable (gracePeriod) (s₀ : AuditingNode H) (events : List (AuditingEvent H))

/-- Some audit recorded the proof, and nothing has revoked it since. -/
def Earned (key peer hash : H) (provedAt : Nat) : Prop :=
  Since (step gracePeriod) (CreditsAt key peer hash provedAt) (RevokesAt peer hash) s₀ events

/-- The commitment comes from the peer, and it is the last one of it that was put on file. -/
def OnFile (peer : H) (c : StorageCommitment H) : Prop :=
  VerifiedFrom peer c ∧ Since (step gracePeriod) (StoresAt peer c)
    (fun s e => ∃ other, StoresAt peer other s e) s₀ events

variable {events}

/-- `P` holds of the events before the last copy. -/
def Copied (copy : AuditingEvent H) (events : List (AuditingEvent H))
    (P : List (AuditingEvent H) → Prop) : Prop :=
  ∃ earlier later, events = earlier ++ copy :: later ∧ copy ∉ later ∧ P earlier

omit [Digest H] [CommitmentProtocol H] in
theorem Copied.concat {copy e : AuditingEvent H} {events : List (AuditingEvent H)}
    {P : List (AuditingEvent H) → Prop} (hcopied : Copied copy events P) (hne : e ≠ copy) :
    Copied copy (events ++ [e]) P := by
  obtain ⟨earlier, later, rfl, hnot, hP⟩ := hcopied
  exact ⟨earlier, later ++ [e], by simp, by simp [hnot, hne.symm], hP⟩

omit [Digest H] [CommitmentProtocol H] in
theorem copied_concat_self {copy : AuditingEvent H} {events : List (AuditingEvent H)}
    {P : List (AuditingEvent H) → Prop} (hP : P events) : Copied copy (events ++ [copy]) P :=
  ⟨events, [], rfl, List.not_mem_nil, hP⟩

structure Accounted (events : List (AuditingEvent H)) (s : AuditingNode H) : Prop where
  checked : ∀ id, Checked (s.ingests id)
  earned : ∀ key, ∀ entry ∈ s.recentProvers.entries key,
    Earned gracePeriod s₀ events key entry.peerId entry.commitmentHash entry.provedAt
  onFile : ∀ peer rec c, s.lastCommitmentByPeer.lookup peer = some rec →
    rec.lastCommitment = some c → OnFile gracePeriod s₀ events peer c
  provers : ∀ key, ∀ entry ∈ s.holders.provers.entries key,
    Copied .snapshotProvers events fun earlier =>
      Earned gracePeriod s₀ earlier key entry.peerId entry.commitmentHash entry.provedAt
  commitments : ∀ peer hash, s.holders.commitmentByPeer.lookup peer = some hash →
    ∃ c, commitmentHash c = some hash ∧
      Copied .snapshotCommitments events fun earlier => OnFile gracePeriod s₀ earlier peer c

variable {gracePeriod s₀}

theorem Accounted.step {mid : AuditingNode H} (hrun : run (step gracePeriod) s₀ events = some mid)
    (hacc : Accounted gracePeriod s₀ events mid) (hstep : mid.step gracePeriod e = some s') :
    Accounted gracePeriod s₀ (events ++ [e]) s' := by
  have hsteps := steps_of_step hstep
  obtain ⟨hprovers, hcommitments⟩ := holders_of_step hsteps
  refine ⟨checked_of_step hsteps hacc.checked, ?_, ?_, ?_, ?_⟩
  · intro key entry hmem
    refine (since_concat_iff hrun).mpr ((mem_provers_of_step hsteps hmem).imp_right ?_)
    exact fun hold => ⟨hacc.earned key entry hold.1, hold.2⟩
  · intro peer rec c hlookup hlast
    rcases record_of_step hsteps hlookup hlast with hstores | ⟨⟨old, hold, holdLast⟩, hnot⟩
    · cases e with
      | store id victim =>
          obtain ⟨instant, hphase⟩ := hstores
          have hverified := hacc.checked id
          rw [hphase] at hverified
          exact ⟨hverified, (since_concat_iff hrun).mpr (.inl ⟨instant, hphase⟩)⟩
      | _ => exact hstores.elim
    · obtain ⟨hverified, hsince⟩ := hacc.onFile peer old c hold holdLast
      exact ⟨hverified, (since_concat_iff hrun).mpr (.inr ⟨hsince, hnot⟩)⟩
  · intro key entry hmem
    rcases hprovers with ⟨rfl, heq⟩ | ⟨hne, heq⟩
    · rw [heq] at hmem
      exact copied_concat_self (hacc.earned key entry hmem)
    · rw [heq] at hmem
      exact (hacc.provers key entry hmem).concat hne
  · intro peer hash hlookup
    rcases hcommitments with ⟨rfl, heq⟩ | ⟨hne, heq⟩
    · rw [heq, commitmentByPeer, FiniteMap.lookup_filterMapValues] at hlookup
      obtain ⟨rec, hrec, hhash⟩ := Option.bind_eq_some_iff.mp hlookup
      rw [rec.cachedHash_eq] at hhash
      obtain ⟨c, hlast, hc⟩ := Option.bind_eq_some_iff.mp hhash
      exact ⟨c, hc, copied_concat_self (hacc.onFile peer rec c hrec hlast)⟩
    · rw [heq] at hlookup
      obtain ⟨c, hc, hcopied⟩ := hacc.commitments peer hash hlookup
      exact ⟨c, hc, hcopied.concat hne⟩

theorem accounted_start (neighbors : List H) : Accounted gracePeriod s₀ [] (start neighbors) where
  checked := fun _ => trivial
  earned := fun _ _ hmem => absurd hmem List.not_mem_nil
  onFile := by
    intro peer rec c hlookup
    simp [start] at hlookup
  provers := fun _ _ hmem => absurd hmem List.not_mem_nil
  commitments := by
    intro peer hash hlookup
    simp [start] at hlookup

theorem accounted_of_run {neighbors : List H}
    (hrun : run (step gracePeriod) (start neighbors) events = some s) :
    Accounted gracePeriod (start neighbors) events s :=
  history_induction (accounted_start neighbors)
    (fun _ _ _ _ hmid hacc hstep => Accounted.step hmid hacc hstep) hrun

/-- An audit of the peer, pinned to `pin`, passes at `provedAt`, and the key is one of the leaves it
proved. -/
def ProvesAt (key peer pin : H) (provedAt : Nat) (s : AuditingNode H) : AuditingEvent H → Prop
  | .conclude id audit => ∃ target commitment proof, s.audits id = .running peer target ∧
      target.pinHash = pin ∧ audit.instant = provedAt ∧
      Passes ⟨peer, audit.challengeId, audit.nonce, pin, true, audit.send⟩ audit.rng commitment
        proof ∧
      key ∈ proof.leaves.map SubtreeLeaf.key
  | _ => False

theorem provesAt_of_creditsAt {key peer pin : H} {provedAt : Nat}
    (hcredits : CreditsAt key peer pin provedAt s e) : ProvesAt key peer pin provedAt s e := by
  cases e with
  | conclude id audit =>
      obtain ⟨target, hphase, hmem⟩ := hcredits
      obtain ⟨-, hpin, hinstant, commitment, proof, hpasses, hkey⟩ :=
        recordProof_mem_runSubtreeAudit hmem
      subst hpin
      exact ⟨target, commitment, proof, hphase, rfl, hinstant.symm, hpasses, hkey⟩
  | _ => exact hcredits.elim

/-- A vote counts only if it has been earned: when a verification cycle takes the word of a peer for a
key this node holds, and the peer is one that commits, then the commitment last put on file for the
peer was its own, and since the peer passed an audit pinned to it with the key among the leaves, less
than the lifetime of a proof ago, no failure of the peer has been punished, it has not left the
routing table, and no audit under that pin was turned down for a read error. -/
theorem credit_earned {neighbors : List H} {key peer : H}
    (hrun : run (step gracePeriod) (start neighbors) events = some s)
    (hheld : key ∈ s.holders.locallyHeld) (hcapable : peer ∈ s.holders.capablePeers)
    (hcredit : holderCredit s.holders s.now peer key = true) :
    ∃ c pin provedAt, commitmentHash c = some pin ∧ s.now - provedAt < proverEntryTtl ∧
      (Copied .snapshotCommitments events fun earlier =>
        OnFile gracePeriod (start neighbors) earlier peer c) ∧
      (Copied .snapshotProvers events fun earlier =>
        Since (step gracePeriod) (ProvesAt key peer pin provedAt) (RevokesAt peer pin)
          (start neighbors) earlier) := by
  have hacc := accounted_of_run hrun
  rw [holderCredit, if_neg (not_not.mpr hheld), if_neg (not_not.mpr hcapable)] at hcredit
  split at hcredit
  · cases hcredit
  · rename_i pin hpin
    obtain ⟨entry, hmem, hmatch⟩ := List.any_eq_true.mp hcredit
    obtain ⟨rfl, rfl, hfresh⟩ := of_decide_eq_true hmatch
    obtain ⟨c, hhash, honFile⟩ := hacc.commitments _ _ hpin
    obtain ⟨earlier, later, heq, hlast, hearned⟩ := hacc.provers key entry hmem
    refine ⟨c, entry.commitmentHash, entry.provedAt, hhash, hfresh, honFile, ?_⟩
    exact ⟨earlier, later, heq, hlast, hearned.mono fun _ _ => provesAt_of_creditsAt⟩

end Steps

end AuditingNode

namespace Transcript

open AuditingNode

/-- The peer 7 gossips its commitment to the chunk 1 and is audited for it at once. -/
def gossipAndPass : List (AuditingEvent Transcript) :=
  [.ingest 0 ⟨[7]⟩ (some (solo ⟨[1]⟩).commitment) true, .rateLimit 0 .asStored, .store 0 ⟨[]⟩,
    .markCapable 0, .trigger 0 0 true .asStored,
    .conclude 0 ⟨1, Vector.replicate 32 0, fun _ => holder.reply, fun _ => 0, 0⟩,
    .snapshotCommitments, .snapshotCapable, .snapshotProvers, .snapshotHeld {⟨[1]⟩}]

theorem credit_earned_gossipAndPass :
    ∃ s, run (step 0) (start []) gossipAndPass = some s ∧
      holderCredit s.holders s.now ⟨[7]⟩ ⟨[1]⟩ = true ∧
      ∃ c pin provedAt, commitmentHash c = some pin ∧ s.now - provedAt < proverEntryTtl ∧
        (Copied .snapshotCommitments gossipAndPass fun earlier =>
          OnFile 0 (start []) earlier ⟨[7]⟩ c) ∧
        (Copied .snapshotProvers gossipAndPass fun earlier =>
          Since (step 0) (ProvesAt ⟨[1]⟩ ⟨[7]⟩ pin provedAt) (RevokesAt ⟨[7]⟩ pin) (start [])
            earlier) := by
  have hlast : ((run (step 0) (start []) gossipAndPass).map fun s =>
      (decide (⟨[1]⟩ ∈ s.holders.locallyHeld), decide (⟨[7]⟩ ∈ s.holders.capablePeers),
        holderCredit s.holders s.now ⟨[7]⟩ ⟨[1]⟩)) = some (true, true, true) := by
    decide +kernel
  obtain ⟨s, hrun, heq⟩ := Option.map_eq_some_iff.mp hlast
  obtain ⟨hheld, heq⟩ := Prod.mk.inj heq
  obtain ⟨hcapable, hcredit⟩ := Prod.mk.inj heq
  exact ⟨s, hrun, hcredit,
    credit_earned hrun (of_decide_eq_true hheld) (of_decide_eq_true hcapable) hcredit⟩

end Transcript

end AntNode
