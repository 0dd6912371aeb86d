import AntNode.Proof.AuditCompleteness
import AntNode.Proof.MedianPayment

/-!
# Whose pins a payment sends to audit

Acceptance looks at median-priced quotes until one of them verifies. The cross-check then walks the
whole bundle, and nothing between the two loops checks the signatures of the other quotes. So what
it sends and builds stems from signed quotes exactly when the client put no unsigned pin into the
bundle.
-/

namespace AntNode

variable {H : Type} [Digest H] [CommitmentProtocol H] [QuoteProtocol H]

/-- The quote's signature verifies under a public key that hashes to the peer. -/
def SignedBy (peer : H) (quote : PaymentQuote H) : Prop :=
  verifyQuoteSignature quote = true ∧ peerIdFromPublicKeyBytes quote.pubKey = .ok peer

structure MonetizedPinEvent.StemsFrom (event : MonetizedPinEvent H) (entry : H × PaymentQuote H) :
    Prop where
  peer_eq : event.peer = entry.1
  pin_eq : entry.2.commitmentPin = some event.pin
  keyCount_eq : event.keyCount = entry.2.committedKeyCount
  quoteTs_eq : event.quoteTs = entry.2.timestamp

def FailureEvidence.StemsFrom (evidence : FailureEvidence H) (entry : H × PaymentQuote H) : Prop :=
  ∃ pin committedKeyCount commitment, entry.2.commitmentPin = some pin ∧
    evidence = .quoteCommitmentMismatch entry.1 pin entry.2.committedKeyCount committedKeyCount
      (quoteArtifact entry.2) commitment

/-- Everything a cross-check sends or builds stems from a quote its peer signed. -/
structure OnlySignedPins (payment : ProofOfPayment H) (checked : CrossChecked H) : Prop where
  events : ∀ event ∈ checked.events, ∃ entry ∈ payment.peerQuotes,
    event.StemsFrom entry ∧ SignedBy entry.1 entry.2
  evidence : ∀ evidence ∈ checked.evidence, ∃ entry ∈ payment.peerQuotes,
    evidence.StemsFrom entry ∧ SignedBy entry.1 entry.2

def PinnedQuotesSigned (payment : ProofOfPayment H) : Prop :=
  ∀ entry ∈ payment.peerQuotes, entry.2.commitmentPin.isSome = true → SignedBy entry.1 entry.2

/-! ### Acceptance -/

theorem verifyEvmPayment_clientPut {verifier : PaymentVerifier H} {xorname : H}
    {payment : ProofOfPayment H} {sidecars : List Bytes} {now : Nat} {checked : CrossChecked H}
    (hok : verifyEvmPayment verifier xorname payment sidecars .clientPut now = .ok checked) :
    (payment.peerQuotes.map Prod.fst).Nodup ∧
      checked = crossCheckQuotes verifier payment sidecars now := by
  unfold verifyEvmPayment at hok
  obtain ⟨⟨⟩, hstructure, hok⟩ := Fallible.bind_eq_ok_iff.mp hok
  obtain ⟨-, -, hok⟩ := Fallible.bind_eq_ok_iff.mp hok
  obtain ⟨candidates, -, hok⟩ := Fallible.bind_eq_ok_iff.mp hok
  refine ⟨(validateQuoteStructure_eq_ok_iff.mp hstructure).2.2, ?_⟩
  split at hok
  · cases hok
  · exact (Except.ok.inj hok).symm

/-! ### The walk over the bundle -/

omit [QuoteProtocol H] in
theorem handleCrossCheck_eq_some {peer pin : H} {quotedKeyCount : Nat}
    {artifact : Bytes} {commitment : StorageCommitment H} {evidence : FailureEvidence H}
    (hsome : handleCrossCheck peer pin quotedKeyCount artifact commitment = some evidence) :
    evidence = .quoteCommitmentMismatch peer pin quotedKeyCount commitment.keyCount artifact
      commitment := by
  unfold handleCrossCheck crossCheckBinding at hsome
  split_ifs at hsome
  simp_all

theorem mem_inlinePass_events {verifier : PaymentVerifier H}
    {sidecarMap : List ((H × H) × StorageCommitment H)} {now : Nat}
    {quotes : List (H × PaymentQuote H)} {event : MonetizedPinEvent H} :
    event ∈ (inlinePass verifier sidecarMap now quotes).events ↔
      verifier.monetizedPinTx = true ∧ ∃ entry ∈ quotes, event.StemsFrom entry := by
  induction quotes with
  | nil => simp [inlinePass]
  | cons entry rest ih =>
      obtain ⟨peer, quote⟩ := entry
      have hevents : (inlinePass verifier sidecarMap now ((peer, quote) :: rest)).events =
          (if verifier.monetizedPinTx then
            (quote.commitmentPin.map fun pin =>
              ⟨peer, pin, quote.committedKeyCount, quote.timestamp⟩).toList
          else []) ++ (inlinePass verifier sidecarMap now rest).events := by
        rw [inlinePass]
        cases quote.commitmentPin with
        | none => cases verifier.monetizedPinTx <;> rfl
        | some pin =>
            dsimp only
            split <;> cases verifier.monetizedPinTx <;> rfl
      rw [hevents, List.mem_append, ih, List.exists_mem_cons_iff]
      constructor
      · rintro (hfirst | ⟨htx, hlater⟩)
        · by_cases htx : verifier.monetizedPinTx = true
          · rw [if_pos htx] at hfirst
            obtain ⟨pin, hpin, rfl⟩ : ∃ pin, quote.commitmentPin = some pin ∧
                ⟨peer, pin, quote.committedKeyCount, quote.timestamp⟩ = event := by
              simpa using hfirst
            exact ⟨htx, .inl ⟨rfl, hpin, rfl, rfl⟩⟩
          · rw [if_neg htx] at hfirst
            exact absurd hfirst List.not_mem_nil
        · exact ⟨htx, .inr hlater⟩
      · rintro ⟨htx, hfirst | hlater⟩
        · left
          rw [if_pos htx, show quote.commitmentPin = some event.pin from hfirst.pin_eq]
          apply List.mem_singleton.mpr
          obtain ⟨eventPeer, pin, keyCount, quoteTs⟩ := event
          obtain ⟨hpeer, -, hcount, hts⟩ := hfirst
          simp only [MonetizedPinEvent.mk.injEq, true_and]
          exact ⟨hpeer, hcount, hts⟩
        · exact .inr ⟨htx, hlater⟩

theorem inlinePass_stems {verifier : PaymentVerifier H}
    {sidecarMap : List ((H × H) × StorageCommitment H)} {now : Nat}
    {quotes : List (H × PaymentQuote H)} :
    (∀ evidence ∈ (inlinePass verifier sidecarMap now quotes).evidence,
      ∃ entry ∈ quotes, evidence.StemsFrom entry) ∧
    ∀ item ∈ (inlinePass verifier sidecarMap now quotes).unresolved,
      ∃ entry ∈ quotes, ∃ pin, entry.2.commitmentPin = some pin ∧
        item = ⟨entry.1, pin, entry.2.committedKeyCount, quoteArtifact entry.2⟩ := by
  induction quotes with
  | nil => simp [inlinePass]
  | cons entry rest ih =>
      obtain ⟨peer, quote⟩ := entry
      obtain ⟨hevidence, hunresolved⟩ := ih
      simp only [List.exists_mem_cons_iff]
      rw [inlinePass]
      rcases hpin : quote.commitmentPin with _ | pin
      · exact ⟨fun evidence hmem => .inr (hevidence evidence hmem),
          fun item hmem => .inr (hunresolved item hmem)⟩
      · dsimp only
        split
        · rename_i commitment hresolved
          refine ⟨fun evidence hmem => ?_, fun item hmem => .inr (hunresolved item hmem)⟩
          rcases List.mem_append.mp hmem with hfirst | hlater
          · have hsome := Option.mem_toList.mp hfirst
            exact .inl ⟨pin, commitment.keyCount, commitment, hpin, handleCrossCheck_eq_some hsome⟩
          · exact .inr (hevidence evidence hlater)
        · refine ⟨fun evidence hmem => .inr (hevidence evidence hmem), fun item hmem => ?_⟩
          rcases List.mem_cons.mp hmem with rfl | hlater
          · exact .inl ⟨pin, rfl, rfl⟩
          · exact .inr (hunresolved item hlater)

omit [QuoteProtocol H] in
theorem mem_drainUnresolvedPinFetches {p2p : P2PNode H} {fetched : Nat} {negCache : List (H × H)}
    {unresolved : List (UnresolvedPin H)} {evidence : FailureEvidence H}
    (hmem : evidence ∈ (drainUnresolvedPinFetches p2p fetched negCache unresolved).1) :
    ∃ item ∈ unresolved, ∃ commitment : StorageCommitment H,
      evidence = .quoteCommitmentMismatch item.peerId item.pin item.quotedKeyCount
        commitment.keyCount item.artifact commitment := by
  induction unresolved generalizing fetched negCache with
  | nil => exact absurd hmem List.not_mem_nil
  | cons item rest ih =>
      rw [List.exists_mem_cons_iff]
      rw [drainUnresolvedPinFetches] at hmem
      split_ifs at hmem
      · exact absurd hmem List.not_mem_nil
      · exact .inr (ih hmem)
      · split at hmem
        · rename_i commitment hfetched
          rcases List.mem_append.mp hmem with hfirst | hlater
          · exact .inl ⟨commitment, handleCrossCheck_eq_some (Option.mem_toList.mp hfirst)⟩
          · exact .inr (ih hlater)
        · exact .inr (ih hmem)

theorem mem_crossCheckQuotes_events {verifier : PaymentVerifier H} {payment : ProofOfPayment H}
    {sidecars : List Bytes} {now : Nat} {event : MonetizedPinEvent H} :
    event ∈ (crossCheckQuotes verifier payment sidecars now).events ↔
      verifier.monetizedPinTx = true ∧ ∃ entry ∈ payment.peerQuotes, event.StemsFrom entry := by
  rw [crossCheckQuotes]
  cases verifier.p2pNode <;> exact mem_inlinePass_events

theorem crossCheckQuotes_evidence {verifier : PaymentVerifier H} {payment : ProofOfPayment H}
    {sidecars : List Bytes} {now : Nat} {evidence : FailureEvidence H}
    (hmem : evidence ∈ (crossCheckQuotes verifier payment sidecars now).evidence) :
    ∃ entry ∈ payment.peerQuotes, evidence.StemsFrom entry := by
  rw [crossCheckQuotes] at hmem
  cases hp2p : verifier.p2pNode with
  | none =>
      rw [hp2p] at hmem
      exact inlinePass_stems.1 evidence hmem
  | some p2p =>
      rw [hp2p] at hmem
      rcases List.mem_append.mp hmem with hinline | hfetched
      · exact inlinePass_stems.1 evidence hinline
      · obtain ⟨item, hitem, commitment, rfl⟩ := mem_drainUnresolvedPinFetches hfetched
        obtain ⟨entry, hentry, pin, hpin, rfl⟩ := inlinePass_stems.2 item hitem
        exact ⟨entry, hentry, pin, commitment.keyCount, commitment, hpin, rfl⟩

/-! ### Signed pins -/

theorem onlySignedPins_of_pinnedQuotesSigned {verifier : PaymentVerifier H}
    {payment : ProofOfPayment H} (hsigned : PinnedQuotesSigned payment) (sidecars : List Bytes)
    (now : Nat) : OnlySignedPins payment (crossCheckQuotes verifier payment sidecars now) := by
  constructor
  · intro event hevent
    obtain ⟨-, entry, hentry, hstems⟩ := mem_crossCheckQuotes_events.mp hevent
    exact ⟨entry, hentry, hstems, hsigned entry hentry (by rw [hstems.pin_eq]; rfl)⟩
  · intro evidence hevidence
    obtain ⟨entry, hentry, hstems⟩ := crossCheckQuotes_evidence hevidence
    have hpinned : entry.2.commitmentPin.isSome = true := by
      obtain ⟨pin, -, -, hpin, -⟩ := hstems
      rw [hpin]
      rfl
    exact ⟨entry, hentry, hstems, hsigned entry hentry hpinned⟩

/-- **Audits and accusations stem from signed quotes exactly when every pinned quote is signed.**
For every bundle accepted for a client put: if each pinned quote verifies under a key of its peer,
then so does every quote an event or an evidence stems from; and once the first-audit channel is
attached this is the only way. -/
theorem onlySignedPins_iff {verifier : PaymentVerifier H} {xorname : H}
    {payment : ProofOfPayment H} {sidecars : List Bytes} {now : Nat} {checked : CrossChecked H}
    (haccepted : verifyEvmPayment verifier xorname payment sidecars .clientPut now = .ok checked) :
    (PinnedQuotesSigned payment → OnlySignedPins payment checked) ∧
      (verifier.monetizedPinTx = true →
        (OnlySignedPins payment checked ↔ PinnedQuotesSigned payment)) := by
  obtain ⟨hnodup, rfl⟩ := verifyEvmPayment_clientPut haccepted
  refine ⟨fun hsigned => onlySignedPins_of_pinnedQuotesSigned hsigned sidecars now,
    fun htx => ⟨fun honly entry hentry hpinned => ?_,
      fun hsigned => onlySignedPins_of_pinnedQuotesSigned hsigned sidecars now⟩⟩
  obtain ⟨pin, hpin⟩ := Option.isSome_iff_exists.mp hpinned
  -- the event of this quote is sent, and the quote it stems from can only be this one
  have hevent : ⟨entry.1, pin, entry.2.committedKeyCount, entry.2.timestamp⟩ ∈
      (crossCheckQuotes verifier payment sidecars now).events :=
    mem_crossCheckQuotes_events.mpr ⟨htx, entry, hentry, rfl, hpin, rfl, rfl⟩
  obtain ⟨signer, hsigner, hstems, hsigned⟩ := honly.events _ hevent
  have heq : signer = entry := List.inj_on_of_nodup_map hnodup hsigner hentry hstems.peer_eq.symm
  exact heq ▸ hsigned

omit [QuoteProtocol H] in
theorem runSubtreeAudit_of_not_retained {node : Nat → Responder H} {peer pin : H}
    {state : ResponderCommitmentState H} (hself : (node 0).selfPeerId = peer)
    (hup : (node 0).isBootstrapping = false) (hstate : (node 0).commitmentState = some state)
    (hnone : state.lookupByHash pin = none) (challengeId : Nat) (nonce : Nonce) (credit : Bool)
    (rng : Nat → Nat) (now : Nat) :
    runSubtreeAudit (auditOf node challengeId nonce peer pin credit) rng now
      = (failed peer challengeId .rejected, []) := by
  set ctx := auditOf node challengeId nonce peer pin credit
  have hreply : handleSubtreeChallenge ⟨challengeId, nonce, peer, pin⟩ (node 0)
      = .rejected challengeId .unknownCommitment "unknown commitment hash" := by
    unfold handleSubtreeChallenge
    rw [if_neg (by simp [hup]), if_neg (by simp [hself]), hstate]
    dsimp only
    rw [hnone]
  have hsend : ctx.send 0 (.subtreeAuditChallenge
      ⟨ctx.challengeId, ctx.nonce, ctx.challengedPeer, ctx.expectedCommitmentHash⟩)
      = .received (.subtreeAuditResponse
          (.rejected challengeId .unknownCommitment "unknown commitment hash")) := by
    apply congrArg fun response => Delivery.received (.subtreeAuditResponse response)
    exact hreply
  unfold runSubtreeAudit
  rw [hsend]
  exact if_neg (not_not.mpr rfl)

/-! ### A bundle with a forged quote -/

namespace Transcript

def eventOfEight : MonetizedPinEvent Transcript := ⟨⟨[8]⟩, ⟨[3]⟩, 1, 0⟩

theorem verifyEvmPayment_bundleWith_unsigned :
    verifyEvmPayment payingVerifier ⟨[1]⟩ (bundleWith (pinnedQuote [8] 1)) [] .clientPut 0
      = .ok ⟨[⟨⟨[7]⟩, ⟨[3]⟩, 1, 0⟩, eventOfEight], [], [(⟨[8]⟩, ⟨[3]⟩), (⟨[7]⟩, ⟨[3]⟩)]⟩ := by
  decide +kernel

end Transcript

open Transcript

theorem onlySignedPins_iff_signed :
    ∃ checked, verifyEvmPayment payingVerifier ⟨[1]⟩ (bundleWith (signQuote (pinnedQuote [8] 1)))
        [] .clientPut 0 = .ok checked ∧
      OnlySignedPins (bundleWith (signQuote (pinnedQuote [8] 1))) checked := by
  have haccepted : verifyEvmPayment payingVerifier ⟨[1]⟩
      (bundleWith (signQuote (pinnedQuote [8] 1))) [] .clientPut 0
      = .ok ⟨[⟨⟨[7]⟩, ⟨[3]⟩, 1, 0⟩, eventOfEight], [],
          [(⟨[8]⟩, ⟨[3]⟩), (⟨[7]⟩, ⟨[3]⟩)]⟩ := by decide +kernel
  refine ⟨_, haccepted, ((onlySignedPins_iff haccepted).2 rfl).mpr ?_⟩
  intro entry hentry hpinned
  have hcases : entry = (⟨[7]⟩, signQuote (pinnedQuote [7] 5)) ∨
      entry = (⟨[8]⟩, signQuote (pinnedQuote [8] 1)) := by simpa [bundleWith] using hentry
  rcases hcases with rfl | rfl
  · exact ⟨by decide +kernel, rfl⟩
  · exact ⟨by decide +kernel, rfl⟩

/-- A quote nobody signed, in the name of peer `[8]`: the bundle is accepted on the other quote, the
pin is sent to a first audit, and peer `[8]`, which never heard of it, fails that audit. -/
theorem unsigned_pin_audited :
    ∃ checked, verifyEvmPayment payingVerifier ⟨[1]⟩ (bundleWith (pinnedQuote [8] 1)) []
        .clientPut 0 = .ok checked ∧
      ¬OnlySignedPins (bundleWith (pinnedQuote [8] 1)) checked ∧
      eventOfEight ∈ checked.events ∧
      ∀ rng now, runSubtreeAudit (auditOf (fun _ => { holder with selfPeerId := ⟨[8]⟩ }) 1
        (Vector.replicate 32 0) eventOfEight.peer eventOfEight.pin true) rng now
          = (failed ⟨[8]⟩ 1 .rejected, []) := by
  refine ⟨_, verifyEvmPayment_bundleWith_unsigned, ?_, by simp, fun rng now => ?_⟩
  · intro honly
    obtain ⟨entry, hentry, hstems, hsigned⟩ := honly.events eventOfEight (by simp)
    have hcases : entry = (⟨[7]⟩, signQuote (pinnedQuote [7] 5)) ∨
        entry = (⟨[8]⟩, pinnedQuote [8] 1) := by simpa [bundleWith] using hentry
    rcases hcases with rfl | rfl
    · exact absurd hstems.peer_eq (by decide)
    · exact absurd hsigned.1 (by decide +kernel)
  · exact runSubtreeAudit_of_not_retained rfl rfl rfl (by decide +kernel) 1 _ true rng now

end AntNode
