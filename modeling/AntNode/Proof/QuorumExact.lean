import AntNode.Quorum

/-!
# The quorum outcome against everything that may still happen

An entry that is unresolved or missing may become any answer, and a present claim may become
credited; nothing else of the evidence changes. The outcome of a key is compared with the outcomes
of all these completions of its evidence. Presence and paid-list entries change independently of one
another, so one completion, in which every open target says present, credited, and confirmed,
reaches both bounds at once.
-/

namespace AntNode

open Voting

variable {H : Type} [Digest H]

namespace KeyVerificationOutcome

def Verified : KeyVerificationOutcome H → Prop
  | quorumVerified _ => True
  | paidListVerified _ => True
  | quorumFailed => False
  | quorumInconclusive => False

def sources : KeyVerificationOutcome H → List H
  | quorumVerified sources => sources
  | paidListVerified sources => sources
  | quorumFailed => []
  | quorumInconclusive => []

end KeyVerificationOutcome

def VerificationTargets.Target (targets : VerificationTargets H) (key peer : H) : Prop :=
  peer ∈ targets.quorumPeers key ∨ peer ∈ targets.paidPeers key

/-- Evidence and credit that agree with the given ones, except that an entry of a target that is
unresolved or missing may have become any answer and an uncredited present claim credited. -/
structure Completion (targets : VerificationTargets H) (key : H)
    (evidence evidence' : KeyVerificationEvidence H) (credit credit' : H → H → Bool) : Prop where
  presence : ∀ peer, evidence'.presence.lookup peer = evidence.presence.lookup peer ∨
    targets.Target key peer ∧ (evidence.presence.lookup peer).getD .unresolved = .unresolved ∧
      (evidence'.presence.lookup peer).isSome
  paidList : ∀ peer, evidence'.paidList.lookup peer = evidence.paidList.lookup peer ∨
    targets.Target key peer ∧ (evidence.paidList.lookup peer).getD .unresolved = .unresolved ∧
      (evidence'.paidList.lookup peer).isSome
  credit : ∀ peer k, credit' peer k = credit peer k ∨
    k = key ∧ evidence'.presence.lookup peer = some .present ∧ credit peer k = false

/-! ### What the votes may become -/

section Completion

variable {targets : VerificationTargets H} {key : H} {evidence evidence' : KeyVerificationEvidence H}
  {credit credit' : H → H → Bool}

theorem Completion.refl : Completion targets key evidence evidence credit credit where
  presence := fun _ => .inl rfl
  paidList := fun _ => .inl rfl
  credit := fun _ _ => .inl rfl

theorem presenceVote_eq_undecided (peer : H)
    (hopen : (evidence.presence.lookup peer).getD .unresolved = .unresolved) :
    presenceVote evidence credit key peer = .undecided := by
  unfold presenceVote
  cases hlookup : evidence.presence.lookup peer with
  | none => rfl
  | some answer => cases answer <;> simp_all

theorem paidVote_eq_undecided (peer : H)
    (hopen : (evidence.paidList.lookup peer).getD .unresolved = .unresolved) :
    paidVote evidence peer = .undecided := by
  unfold paidVote
  cases hlookup : evidence.paidList.lookup peer with
  | none => rfl
  | some answer => cases answer <;> simp_all

theorem Completion.presenceVote_becomes
    (hcompletion : Completion targets key evidence evidence' credit credit') (peer : H) :
    Becomes (presenceVote evidence credit key peer) (presenceVote evidence' credit' key peer) := by
  cases hcompletion.presence peer with
  | inr hopen => exact .inl (presenceVote_eq_undecided peer hopen.2.1)
  | inl hsame =>
      cases hcompletion.credit peer key with
      | inl hcredit =>
          apply Or.inr
          unfold presenceVote
          rw [hsame, hcredit]
      | inr hcredited =>
          -- the one vote a gain of credit changes was open before
          apply Or.inl
          unfold presenceVote
          rw [← hsame, hcredited.2.1]
          simp [hcredited.2.2]

theorem Completion.paidVote_becomes
    (hcompletion : Completion targets key evidence evidence' credit credit') (peer : H) :
    Becomes (paidVote evidence peer) (paidVote evidence' peer) := by
  cases hcompletion.paidList peer with
  | inr hopen => exact .inl (paidVote_eq_undecided peer hopen.2.1)
  | inl hsame =>
      apply Or.inr
      unfold paidVote
      rw [hsame]

end Completion

/-! ### The completion in which every open target speaks in favour -/

section Fill

variable {α : Type} [DecidableEq α] {m : FiniteMap H α} {peers : List H} {peer : H} (d v : α)

/-- Every entry of the given peers that is missing or has the value `d` settled to `v`. -/
def fill (m : FiniteMap H α) (peers : List H) : FiniteMap H α :=
  peers.foldl (fun m peer => if (m.lookup peer).getD d = d then m.insert peer v else m) m

theorem lookup_fill :
    (fill d v m peers).lookup peer =
      if peer ∈ peers ∧ (m.lookup peer).getD d = d then some v else m.lookup peer := by
  let write (c : Option α) : Option α := if c.getD d = d then some v else c
  have hview := List.view_foldl
    (fun m peer => if (m.lookup peer).getD d = d then m.insert peer v else m)
    (Finmap.lookup peer) write (· = peer) ?step ?idem peers m
  case step =>
    intro m other
    by_cases heq : other = peer
    · subst heq
      simp only [write, if_true]
      split_ifs
      · exact Finmap.lookup_insert m
      · rfl
    · rw [if_neg heq]
      split_ifs
      · exact Finmap.lookup_insert_of_ne m (Ne.symm heq)
      · rfl
  case idem =>
    intro c
    by_cases hopen : c.getD d = d <;> simp [write, hopen]
  rw [fill, hview]
  simp only [write, exists_eq_right, ← ite_and]

end Fill

def KeyVerificationEvidence.inFavour (evidence : KeyVerificationEvidence H)
    (targets : VerificationTargets H) (key : H) : KeyVerificationEvidence H where
  presence := fill .unresolved .present evidence.presence
    (targets.quorumPeers key ++ targets.paidPeers key)
  paidList := fill .unresolved .confirmed evidence.paidList
    (targets.quorumPeers key ++ targets.paidPeers key)

def creditPresent (evidence : KeyVerificationEvidence H) (key : H) (credit : H → H → Bool) :
    H → H → Bool :=
  fun peer k => credit peer k || decide (k = key ∧ evidence.presence.lookup peer = some .present)

section InFavour

variable {targets : VerificationTargets H} {key peer : H} {evidence : KeyVerificationEvidence H}
  {credit : H → H → Bool}

theorem completion_inFavour :
    Completion targets key evidence (evidence.inFavour targets key) credit
      (creditPresent (evidence.inFavour targets key) key credit) where
  presence := by
    intro peer
    unfold KeyVerificationEvidence.inFavour
    rw [lookup_fill]
    split_ifs with hopen
    · exact .inr ⟨List.mem_append.mp hopen.1, hopen.2, rfl⟩
    · exact .inl rfl
  paidList := by
    intro peer
    unfold KeyVerificationEvidence.inFavour
    rw [lookup_fill]
    split_ifs with hopen
    · exact .inr ⟨List.mem_append.mp hopen.1, hopen.2, rfl⟩
    · exact .inl rfl
  credit := by
    intro peer k
    cases hcredit : credit peer k with
    | true => simp [creditPresent, hcredit]
    | false =>
        by_cases hpresent : k = key ∧
            (evidence.inFavour targets key).presence.lookup peer = some .present
        · exact .inr ⟨hpresent.1, hpresent.2, rfl⟩
        · simp [creditPresent, hcredit, hpresent]

theorem presenceVote_inFavour (hmem : peer ∈ targets.quorumPeers key) :
    presenceVote (evidence.inFavour targets key)
        (creditPresent (evidence.inFavour targets key) key credit) key peer = .yes ↔
      presenceVote evidence credit key peer ≠ .no := by
  have hlookup : (evidence.inFavour targets key).presence.lookup peer =
      if (evidence.presence.lookup peer).getD .unresolved = .unresolved then some .present
      else evidence.presence.lookup peer := by
    unfold KeyVerificationEvidence.inFavour
    rw [lookup_fill]
    simp [hmem]
  unfold presenceVote creditPresent
  rw [hlookup]
  cases evidence.presence.lookup peer with
  | none => simp
  | some answer => cases answer <;> cases credit peer key <;> simp

theorem paidVote_inFavour (hmem : peer ∈ targets.paidPeers key) :
    paidVote (evidence.inFavour targets key) peer = .yes ↔ paidVote evidence peer ≠ .no := by
  have hlookup : (evidence.inFavour targets key).paidList.lookup peer =
      if (evidence.paidList.lookup peer).getD .unresolved = .unresolved then some .confirmed
      else evidence.paidList.lookup peer := by
    unfold KeyVerificationEvidence.inFavour
    rw [lookup_fill]
    simp [hmem]
  unfold paidVote
  rw [hlookup]
  cases evidence.paidList.lookup peer with
  | none => simp
  | some answer => cases answer <;> simp

end InFavour

/-! ### The outcome by its two counts -/

def QuorumReached (targets : VerificationTargets H) (config : ReplicationConfig) (key : H)
    (count : Nat) : Prop :=
  0 < config.quorumNeeded (targets.quorumPeers key).length ∧
    config.quorumNeeded (targets.quorumPeers key).length ≤ count

def PaidReached (targets : VerificationTargets H) (key : H) (count : Nat) : Prop :=
  0 < targets.paidGroupSize key ∧
    ReplicationConfig.confirmNeeded (targets.paidGroupSize key) ≤ count

section Outcome

variable {targets : VerificationTargets H} {config : ReplicationConfig} {key : H}
  {evidence : KeyVerificationEvidence H} {credit : H → H → Bool} {m n : Nat}

theorem QuorumReached.mono (hreached : QuorumReached targets config key m) (hle : m ≤ n) :
    QuorumReached targets config key n :=
  ⟨hreached.1, hreached.2.trans hle⟩

theorem PaidReached.mono (hreached : PaidReached targets key m) (hle : m ≤ n) :
    PaidReached targets key n :=
  ⟨hreached.1, hreached.2.trans hle⟩

theorem verified_iff :
    (evaluateKeyEvidenceWithHolderCheck key evidence targets config credit).Verified ↔
      QuorumReached targets config key
          (tally (presenceVote evidence credit key) (targets.quorumPeers key)).yes ∨
        PaidReached targets key (tally (paidVote evidence) (targets.paidPeers key)).yes := by
  unfold evaluateKeyEvidenceWithHolderCheck QuorumReached PaidReached
  simp only
  split_ifs with hquorum hpaid hfailed
  · exact iff_of_true trivial (.inl hquorum)
  · exact iff_of_true trivial (.inr hpaid)
  · exact iff_of_false id (not_or.mpr ⟨hquorum, hpaid⟩)
  · exact iff_of_false id (not_or.mpr ⟨hquorum, hpaid⟩)

theorem quorumFailed_iff :
    evaluateKeyEvidenceWithHolderCheck key evidence targets config credit = .quorumFailed ↔
      ¬QuorumReached targets config key
          ((tally (presenceVote evidence credit key) (targets.quorumPeers key)).yes +
            (tally (presenceVote evidence credit key) (targets.quorumPeers key)).undecided) ∧
        ¬PaidReached targets key
          ((tally (paidVote evidence) (targets.paidPeers key)).yes +
            (tally (paidVote evidence) (targets.paidPeers key)).undecided) := by
  unfold evaluateKeyEvidenceWithHolderCheck
  simp only
  split_ifs with hquorum hpaid hfailed
  · simp only [false_iff, not_and]
    intro hnot
    exact absurd (QuorumReached.mono hquorum (Nat.le_add_right _ _)) hnot
  · simp only [false_iff, not_and, not_not]
    intro _
    exact PaidReached.mono hpaid (Nat.le_add_right _ _)
  · exact iff_of_true rfl hfailed.symm
  · exact iff_of_false id fun hnot => hfailed hnot.symm

theorem quorumInconclusive_iff :
    evaluateKeyEvidenceWithHolderCheck key evidence targets config credit = .quorumInconclusive ↔
      evaluateKeyEvidenceWithHolderCheck key evidence targets config credit ≠ .quorumFailed ∧
        ¬(evaluateKeyEvidenceWithHolderCheck key evidence targets config credit).Verified := by
  cases evaluateKeyEvidenceWithHolderCheck key evidence targets config credit <;>
    simp [KeyVerificationOutcome.Verified]

end Outcome

/-! ### Sources -/

section Sources

variable {evidence : KeyVerificationEvidence H}

theorem foldl_addPresentSource_spec (peers presentPeers : List H) (hnodup : presentPeers.Nodup) :
    (peers.foldl (addPresentSource evidence) presentPeers).Nodup ∧
      ∀ peer, peer ∈ peers.foldl (addPresentSource evidence) presentPeers ↔
        peer ∈ presentPeers ∨ peer ∈ peers ∧ evidence.presence.lookup peer = some .present := by
  induction peers generalizing presentPeers with
  | nil => simp [hnodup]
  | cons head peers ih =>
      rw [List.foldl_cons]
      by_cases hnew : evidence.presence.lookup head = some .present ∧ head ∉ presentPeers
      · have hstep : addPresentSource evidence presentPeers head = presentPeers ++ [head] :=
          if_pos hnew
        have hnodup' : (presentPeers ++ [head]).Nodup := by
          rw [List.nodup_append_comm]
          exact List.nodup_cons.mpr ⟨hnew.2, hnodup⟩
        obtain ⟨hcollected, hmem⟩ := ih _ hnodup'
        rw [hstep]
        refine ⟨hcollected, fun peer => ?_⟩
        rw [hmem]
        by_cases heq : peer = head
        · subst heq
          simp [hnew.1]
        · simp [heq]
      · have hstep : addPresentSource evidence presentPeers head = presentPeers := if_neg hnew
        obtain ⟨hcollected, hmem⟩ := ih _ hnodup
        rw [hstep]
        refine ⟨hcollected, fun peer => ?_⟩
        rw [hmem]
        by_cases heq : peer = head
        · subst heq
          tauto
        · simp [heq]

theorem presentSourcesForKey_nodup {targets : VerificationTargets H} {key : H} :
    (presentSourcesForKey key evidence targets).Nodup :=
  (foldl_addPresentSource_spec _ [] List.nodup_nil).1

theorem mem_presentSourcesForKey {targets : VerificationTargets H} {key peer : H} :
    peer ∈ presentSourcesForKey key evidence targets ↔
      targets.Target key peer ∧ evidence.presence.lookup peer = some .present := by
  unfold presentSourcesForKey collectPresentSources VerificationTargets.Target
  rw [(foldl_addPresentSource_spec _ [] List.nodup_nil).2, List.mem_append]
  simp

theorem sources_of_verified {targets : VerificationTargets H} {config : ReplicationConfig} {key : H}
    {credit : H → H → Bool}
    (hverified : (evaluateKeyEvidenceWithHolderCheck key evidence targets config credit).Verified) :
    (evaluateKeyEvidenceWithHolderCheck key evidence targets config credit).sources =
      presentSourcesForKey key evidence targets := by
  unfold evaluateKeyEvidenceWithHolderCheck at hverified ⊢
  simp only at hverified ⊢
  split_ifs at hverified ⊢ with hquorum hpaid hfailed
  · rfl
  · rfl
  · cases hverified
  · cases hverified

end Sources

/-! ### Exactness -/

section Exact

variable {targets : VerificationTargets H} {config : ReplicationConfig} {key : H}
  {evidence evidence' : KeyVerificationEvidence H} {credit credit' : H → H → Bool}

theorem Verified.of_completion
    (hverified : (evaluateKeyEvidenceWithHolderCheck key evidence targets config credit).Verified)
    (hcompletion : Completion targets key evidence evidence' credit credit') :
    (evaluateKeyEvidenceWithHolderCheck key evidence' targets config credit').Verified := by
  rw [verified_iff] at hverified ⊢
  apply hverified.imp
  · intro hquorum
    apply hquorum.mono
    exact tally_yes_le_of_becomes fun peer _ => hcompletion.presenceVote_becomes peer
  · intro hpaid
    apply hpaid.mono
    exact tally_yes_le_of_becomes fun peer _ => hcompletion.paidVote_becomes peer

theorem not_verified_of_quorumFailed
    (hfailed : evaluateKeyEvidenceWithHolderCheck key evidence targets config credit =
      .quorumFailed)
    (hcompletion : Completion targets key evidence evidence' credit credit') :
    ¬(evaluateKeyEvidenceWithHolderCheck key evidence' targets config credit').Verified := by
  rw [quorumFailed_iff] at hfailed
  rw [verified_iff, not_or]
  constructor
  · intro hquorum
    apply hfailed.1
    apply hquorum.mono
    exact tally_yes_le_possible_of_becomes fun peer _ => hcompletion.presenceVote_becomes peer
  · intro hpaid
    apply hfailed.2
    apply hpaid.mono
    exact tally_yes_le_possible_of_becomes fun peer _ => hcompletion.paidVote_becomes peer

theorem verified_inFavour
    (hopen : evaluateKeyEvidenceWithHolderCheck key evidence targets config credit ≠
      .quorumFailed) :
    (evaluateKeyEvidenceWithHolderCheck key (evidence.inFavour targets key) targets config
      (creditPresent (evidence.inFavour targets key) key credit)).Verified := by
  rw [ne_eq, quorumFailed_iff, ← not_or, not_not] at hopen
  rw [verified_iff]
  apply hopen.imp
  · intro hquorum
    rwa [tally_yes_eq_possible fun peer hmem => presenceVote_inFavour hmem]
  · intro hpaid
    rwa [tally_yes_eq_possible fun peer hmem => paidVote_inFavour hmem]

/-- A key fails when nothing that may still happen could verify it, is verified when nothing could
undo that, and is inconclusive when both are still possible. The sources of a verified key are the
targets that said present. -/
theorem evaluateKeyEvidenceWithHolderCheck_exact (key : H) (evidence : KeyVerificationEvidence H)
    (targets : VerificationTargets H) (config : ReplicationConfig) (credit : H → H → Bool) :
    (evaluateKeyEvidenceWithHolderCheck key evidence targets config credit = .quorumFailed ↔
      ∀ evidence' credit', Completion targets key evidence evidence' credit credit' →
        ¬(evaluateKeyEvidenceWithHolderCheck key evidence' targets config credit').Verified) ∧
    ((evaluateKeyEvidenceWithHolderCheck key evidence targets config credit).Verified ↔
      ∀ evidence' credit', Completion targets key evidence evidence' credit credit' →
        (evaluateKeyEvidenceWithHolderCheck key evidence' targets config credit').Verified) ∧
    (evaluateKeyEvidenceWithHolderCheck key evidence targets config credit = .quorumInconclusive ↔
      (∃ evidence' credit', Completion targets key evidence evidence' credit credit' ∧
        (evaluateKeyEvidenceWithHolderCheck key evidence' targets config credit').Verified) ∧
      ∃ evidence' credit', Completion targets key evidence evidence' credit credit' ∧
        ¬(evaluateKeyEvidenceWithHolderCheck key evidence' targets config credit').Verified) ∧
    ((evaluateKeyEvidenceWithHolderCheck key evidence targets config credit).Verified →
      let sources := (evaluateKeyEvidenceWithHolderCheck key evidence targets config credit).sources
      sources.Nodup ∧ ∀ peer, peer ∈ sources ↔
        (peer ∈ targets.quorumPeers key ∨ peer ∈ targets.paidPeers key) ∧
          evidence.presence.lookup peer = some .present) := by
  have hfailed : evaluateKeyEvidenceWithHolderCheck key evidence targets config credit =
      .quorumFailed ↔
      ∀ evidence' credit', Completion targets key evidence evidence' credit credit' →
        ¬(evaluateKeyEvidenceWithHolderCheck key evidence' targets config credit').Verified := by
    constructor
    · intro hfailed evidence' credit' hcompletion
      exact not_verified_of_quorumFailed hfailed hcompletion
    · intro hnone
      by_contra hopen
      exact hnone _ _ completion_inFavour (verified_inFavour hopen)
  have hverified : (evaluateKeyEvidenceWithHolderCheck key evidence targets config credit).Verified ↔
      ∀ evidence' credit', Completion targets key evidence evidence' credit credit' →
        (evaluateKeyEvidenceWithHolderCheck key evidence' targets config credit').Verified :=
    ⟨fun hverified _ _ hcompletion => Verified.of_completion hverified hcompletion,
      fun hall => hall _ _ Completion.refl⟩
  refine ⟨hfailed, hverified, ?_, ?_⟩
  · rw [quorumInconclusive_iff, ne_eq, hfailed, hverified]
    push Not
    rfl
  · intro hverified
    rw [sources_of_verified hverified]
    exact ⟨presentSourcesForKey_nodup, fun _ => mem_presentSourcesForKey⟩

end Exact

end AntNode
