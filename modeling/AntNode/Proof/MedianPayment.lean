import AntNode.Lib.Fallible
import AntNode.PaymentVerifier
import AntNode.Transcript

/-!
# Which single-node payments are accepted

The loop over the median-priced candidates stops at the first one that verifies, and what it stops
at depends on the order of the bundle. Whether it stops does not: a sort by price sees the multiset
of prices only, and a candidate is a quote of the bundle with the median price.
-/

namespace AntNode

variable {H : Type} [Digest H] [CommitmentProtocol H] [QuoteProtocol H]

/-- The price at index `n / 2` of the `n` prices in ascending order. -/
def medianPrice? (payment : ProofOfPayment H) : Option Nat :=
  ((payment.peerQuotes.map fun entry => entry.2.price).insertionSort (· ≤ ·))[
    payment.peerQuotes.length / 2]?

/-- The quote is for the chunk, belongs to its peer, was issued by one of the local closest peers,
is signed and was paid the amount. -/
structure PaidQuote (verifier : PaymentVerifier H) (xorname : H) (amount : Nat)
    (entry : H × PaymentQuote H) : Prop where
  content_eq : entry.2.content = xorname
  peer_eq : peerIdFromPublicKeyBytes entry.2.pubKey = .ok entry.1
  closest : ∃ p2p, verifier.p2pNode = some p2p ∧
    entry.1 ∈ p2p.findClosest xorname paidQuoteIssuerClosenessWidth
  signed : verifyQuoteSignature entry.2 = true
  settled : ∃ paid, verifier.completedPayments (QuoteProtocol.quoteHash entry.2) = .ok paid ∧
    amount ≤ paid

/-- A bundle of distinct peers with a nonzero median price `p`, of which a quote priced `p` was paid
`3 * p`. -/
structure PaidAtMedian (verifier : PaymentVerifier H) (xorname : H) (payment : ProofOfPayment H)
    (p : Nat) : Prop where
  length_pos : 1 ≤ payment.peerQuotes.length
  length_le : payment.peerQuotes.length ≤ closeGroupSize
  distinct : (payment.peerQuotes.map Prod.fst).Nodup
  median : medianPrice? payment = some p
  price_pos : 0 < p
  amount_lt : 3 * p < 2 ^ 256
  paid : ∃ entry ∈ payment.peerQuotes, entry.2.price = p ∧
    PaidQuote verifier xorname (3 * p) entry

/-! ### The structure of the bundle -/

omit [CommitmentProtocol H] [QuoteProtocol H] in
theorem firstRepeatedPeer_eq_none_iff {quotes : List (H × PaymentQuote H)} {seen : List H}
    (hseen : seen.Nodup) :
    firstRepeatedPeer quotes seen = none ↔ (seen ++ quotes.map Prod.fst).Nodup := by
  induction quotes generalizing seen with
  | nil => simpa [firstRepeatedPeer] using hseen
  | cons entry rest ih =>
      have hcons : seen ++ (entry :: rest).map Prod.fst
          = (seen ++ [entry.1]) ++ rest.map Prod.fst := List.append_cons _ _ _
      rw [firstRepeatedPeer, hcons]
      by_cases hmem : entry.1 ∈ seen
      · rw [if_pos hmem]
        refine iff_of_false (Option.some_ne_none _) fun hnodup => ?_
        have hdisjoint := List.disjoint_of_nodup_append hnodup.of_append_left
        exact hdisjoint hmem (List.mem_singleton.mpr rfl)
      · rw [if_neg hmem]
        apply ih
        rw [List.nodup_append]
        refine ⟨hseen, List.nodup_singleton _, ?_⟩
        intro peer hpeer other hother heq
        rw [List.mem_singleton.mp hother] at heq
        exact hmem (heq ▸ hpeer)

omit [CommitmentProtocol H] in
theorem validateQuoteStructure_eq_ok_iff {payment : ProofOfPayment H} :
    validateQuoteStructure payment = .ok () ↔
      1 ≤ payment.peerQuotes.length ∧ payment.peerQuotes.length ≤ closeGroupSize ∧
        (payment.peerQuotes.map Prod.fst).Nodup := by
  have hdistinct : firstRepeatedPeer payment.peerQuotes [] = none ↔
      (payment.peerQuotes.map Prod.fst).Nodup := by
    exact firstRepeatedPeer_eq_none_iff List.nodup_nil
  rw [validateQuoteStructure, ← hdistinct, Nat.one_le_iff_ne_zero, Ne, List.length_eq_zero_iff,
    ← List.isEmpty_iff]
  split_ifs with hempty hlong
  · simp [hempty]
  · simp [hlong]
  · cases firstRepeatedPeer payment.peerQuotes [] with
    | none => simpa [hempty] using hlong
    | some peer => simp

/-! ### The median -/

omit [Digest H] [CommitmentProtocol H] [QuoteProtocol H] in
theorem sortByPrice_prices (quotes : List (H × PaymentQuote H)) :
    (sortByPrice quotes).map (fun entry => entry.2.price) =
      (quotes.map fun entry => entry.2.price).insertionSort (· ≤ ·) :=
  List.map_insertionSort _ _ _ _ fun _ _ _ _ => Iff.rfl

omit [Digest H] [CommitmentProtocol H] [QuoteProtocol H] in
theorem medianPrice?_eq (payment : ProofOfPayment H) :
    medianPrice? payment =
      (sortByPrice payment.peerQuotes)[medianQuoteIndex
        (sortByPrice payment.peerQuotes).length]?.map fun entry => entry.2.price := by
  have hlength : (sortByPrice payment.peerQuotes).length = payment.peerQuotes.length :=
    List.length_insertionSort _ _
  rw [medianPrice?, ← sortByPrice_prices, List.getElem?_map, hlength, medianQuoteIndex]

omit [Digest H] [CommitmentProtocol H] [QuoteProtocol H] in
theorem legacyMedianCandidates_eq_ok_iff {payment : ProofOfPayment H}
    {candidates : List (LegacyMedianCandidate H)} :
    legacyMedianCandidates payment = .ok candidates ↔
      ∃ p, medianPrice? payment = some p ∧ 0 < p ∧ 3 * p < 2 ^ 256 ∧
        candidates = ((sortByPrice payment.peerQuotes).filter
          fun entry => decide (entry.2.price = p)).map fun entry => ⟨entry.1, entry.2, 3 * p⟩ := by
  rw [legacyMedianCandidates, medianPrice?_eq]
  dsimp only
  cases (sortByPrice payment.peerQuotes)[medianQuoteIndex
      (sortByPrice payment.peerQuotes).length]? with
  | none => simp
  | some median =>
      have hmul : median.2.price * paidQuotePaymentMultiplier = 3 * median.2.price :=
        Nat.mul_comm _ _
      simp only [hmul, Option.map_some, Option.some.injEq]
      split_ifs with hoverflow hzero
      · refine iff_of_false (by simp) ?_
        rintro ⟨p, rfl, -, hfits, -⟩
        exact absurd hfits (by omega)
      · refine iff_of_false (by simp) ?_
        rintro ⟨p, rfl, hpos, -⟩
        omega
      · constructor
        · intro hok
          exact ⟨_, rfl, by omega, by omega, (Except.ok.inj hok).symm⟩
        · rintro ⟨p, rfl, -, -, rfl⟩
          rfl

/-! ### The paid candidate -/

omit [CommitmentProtocol H] in
theorem validatePaidQuoteContent_eq_ok_iff {xorname : H} {candidate : LegacyMedianCandidate H} :
    validatePaidQuoteContent xorname candidate = .ok () ↔
      verifyQuoteContent candidate.quote xorname = true := by
  rw [validatePaidQuoteContent]
  split_ifs with hverify <;> simp [hverify]

omit [CommitmentProtocol H] in
theorem validatePaidQuotePeerBinding_eq_ok_iff {peer issuer : H} {quote : PaymentQuote H} :
    validatePaidQuotePeerBinding peer quote = .ok issuer ↔
      peerIdFromPublicKeyBytes quote.pubKey = .ok peer ∧ issuer = peer := by
  rw [validatePaidQuotePeerBinding]
  cases (peerIdFromPublicKeyBytes quote.pubKey : Except String H) with
  | error e => simp
  | ok expected =>
      dsimp only
      split_ifs with hne
      · simp [hne]
      · rw [not_not] at hne
        subst hne
        simp [eq_comm]

omit [QuoteProtocol H] in
theorem validatePaidQuoteIssuerKClosest_eq_ok_iff {verifier : PaymentVerifier H}
    {xorname issuer : H} :
    validatePaidQuoteIssuerKClosest verifier xorname issuer = .ok () ↔
      ∃ p2p, verifier.p2pNode = some p2p ∧
        issuer ∈ p2p.findClosest xorname paidQuoteIssuerClosenessWidth := by
  rw [validatePaidQuoteIssuerKClosest]
  cases verifier.p2pNode with
  | none => simp
  | some p2p =>
      dsimp only
      split_ifs with hmem <;> simp [hmem]

omit [Digest H] [CommitmentProtocol H] in
theorem validatePaidQuoteSignature_eq_ok_iff {candidate : LegacyMedianCandidate H} :
    validatePaidQuoteSignature candidate = .ok () ↔
      verifyQuoteSignature candidate.quote = true := by
  rw [validatePaidQuoteSignature]
  split_ifs with hverify <;> simp [hverify]

theorem completedPaymentAmount_eq_ok_iff {verifier : PaymentVerifier H} {quote : PaymentQuote H}
    {amount : Nat} :
    completedPaymentAmount verifier quote = .ok amount ↔
      verifier.completedPayments (QuoteProtocol.quoteHash quote) = .ok amount := by
  rw [completedPaymentAmount]
  cases verifier.completedPayments (QuoteProtocol.quoteHash quote) <;> simp

theorem verifyLegacyMedianCandidate_eq_ok_iff
    (hcontent : ∀ (quote : PaymentQuote H) (xorname : H),
      verifyQuoteContent quote xorname = true ↔ quote.content = xorname)
    {verifier : PaymentVerifier H} {xorname : H} {candidate : LegacyMedianCandidate H} :
    verifyLegacyMedianCandidate verifier xorname candidate = .ok () ↔
      PaidQuote verifier xorname candidate.expectedAmount
        (candidate.encodedPeerId, candidate.quote) := by
  have hamount : ∀ (paid : Nat) (e : String),
      (if candidate.expectedAmount ≤ paid then pure () else throw e : Except String Unit) = .ok () ↔
        candidate.expectedAmount ≤ paid := by
    intro paid e
    exact Fallible.ite_throw_eq_ok_iff.trans (and_iff_left rfl)
  simp only [verifyLegacyMedianCandidate, Fallible.bind_eq_ok_iff, hamount, Unique.exists_iff,
    PUnit.default_eq_unit,
    validatePaidQuoteContent_eq_ok_iff, validatePaidQuotePeerBinding_eq_ok_iff,
    validatePaidQuoteIssuerKClosest_eq_ok_iff, validatePaidQuoteSignature_eq_ok_iff,
    completedPaymentAmount_eq_ok_iff, hcontent]
  constructor
  · rintro ⟨hquote, issuer, ⟨hpeer, rfl⟩, hclosest, hsigned, hsettled⟩
    exact ⟨hquote, hpeer, hclosest, hsigned, hsettled⟩
  · intro hpaid
    exact ⟨hpaid.content_eq, _, ⟨hpaid.peer_eq, rfl⟩, hpaid.closest, hpaid.signed, hpaid.settled⟩

theorem firstPaidCandidate_eq_ok_iff {verifier : PaymentVerifier H} {xorname : H}
    {candidates : List (LegacyMedianCandidate H)} {failures : List String} :
    firstPaidCandidate verifier xorname candidates failures = .ok () ↔
      ∃ candidate ∈ candidates, verifyLegacyMedianCandidate verifier xorname candidate = .ok () := by
  induction candidates generalizing failures with
  | nil => simp [firstPaidCandidate]
  | cons candidate rest ih =>
      rw [firstPaidCandidate, List.exists_mem_cons_iff]
      cases verifyLegacyMedianCandidate verifier xorname candidate with
      | ok => simp
      | error e => simpa using ih

/-! ### Acceptance -/

theorem verifyEvmPayment_isOk_iff_accepted {verifier : PaymentVerifier H} {xorname : H}
    {payment : ProofOfPayment H} {sidecars : List Bytes} {context : VerificationContext}
    {now : Nat} :
    (verifyEvmPayment verifier xorname payment sidecars context now).isOk = true ↔
      validateQuoteStructure payment = .ok () ∧
        ∃ candidates, legacyMedianCandidates payment = .ok candidates ∧
          firstPaidCandidate verifier xorname candidates [] = .ok () := by
  have harithmetic : validateQuoteArithmetic payment = .ok () := rfl
  unfold verifyEvmPayment
  rw [harithmetic]
  cases validateQuoteStructure payment with
  | error e => simp [bind, Except.bind, Except.isOk, Except.toBool]
  | ok =>
      cases legacyMedianCandidates payment with
      | error e => simp [bind, Except.bind, Except.isOk, Except.toBool]
      | ok candidates =>
          simp only [bind, Except.bind, true_and, Except.ok.injEq, exists_eq_left']
          cases firstPaidCandidate verifier xorname candidates [] with
          | error failures => simp [Except.isOk, Except.toBool, throw, throwThe, MonadExceptOf.throw]
          | ok => cases context <;> simp [Except.isOk, Except.toBool, pure, Except.pure]

theorem verifyEvmPayment_isOk_iff_paidAtMedian
    (hcontent : ∀ (quote : PaymentQuote H) (xorname : H),
      verifyQuoteContent quote xorname = true ↔ quote.content = xorname)
    {verifier : PaymentVerifier H} {xorname : H} {payment : ProofOfPayment H}
    {sidecars : List Bytes} {context : VerificationContext} {now : Nat} :
    (verifyEvmPayment verifier xorname payment sidecars context now).isOk = true ↔
      ∃ p, PaidAtMedian verifier xorname payment p := by
  rw [verifyEvmPayment_isOk_iff_accepted, validateQuoteStructure_eq_ok_iff]
  constructor
  · rintro ⟨⟨hpos, hle, hdistinct⟩, candidates, hcandidates, hfirst⟩
    obtain ⟨p, hmedian, hprice, hfits, rfl⟩ := legacyMedianCandidates_eq_ok_iff.mp hcandidates
    obtain ⟨candidate, hmem, hverified⟩ := firstPaidCandidate_eq_ok_iff.mp hfirst
    obtain ⟨entry, hentry, rfl⟩ := List.mem_map.mp hmem
    obtain ⟨hsorted, hpriced⟩ := List.mem_filter.mp hentry
    refine ⟨p, hpos, hle, hdistinct, hmedian, hprice, hfits, entry, ?_, by simpa using hpriced,
      (verifyLegacyMedianCandidate_eq_ok_iff hcontent).mp hverified⟩
    exact (List.mem_insertionSort _).mp hsorted
  · rintro ⟨p, hpaid⟩
    obtain ⟨entry, hentry, hpriced, hquote⟩ := hpaid.paid
    refine ⟨⟨hpaid.length_pos, hpaid.length_le, hpaid.distinct⟩, _,
      legacyMedianCandidates_eq_ok_iff.mpr ⟨p, hpaid.median, hpaid.price_pos, hpaid.amount_lt,
        rfl⟩, firstPaidCandidate_eq_ok_iff.mpr ⟨⟨entry.1, entry.2, 3 * p⟩, ?_,
          (verifyLegacyMedianCandidate_eq_ok_iff hcontent).mpr hquote⟩⟩
    apply List.mem_map.mpr
    refine ⟨entry, List.mem_filter.mpr ⟨(List.mem_insertionSort _).mpr hentry, ?_⟩, rfl⟩
    exact decide_eq_true hpriced

omit [Digest H] [CommitmentProtocol H] [QuoteProtocol H] in
theorem medianPrice?_perm {payment payment' : ProofOfPayment H}
    (hperm : payment'.peerQuotes.Perm payment.peerQuotes) :
    medianPrice? payment' = medianPrice? payment := by
  have hprices := hperm.map fun entry => entry.2.price
  have hsorted : (payment'.peerQuotes.map fun entry => entry.2.price).insertionSort (· ≤ ·)
      = (payment.peerQuotes.map fun entry => entry.2.price).insertionSort (· ≤ ·) := by
    refine List.Perm.eq_of_pairwise ?_ (List.pairwise_insertionSort (· ≤ ·) _)
      (List.pairwise_insertionSort (· ≤ ·) _) ?_
    · intro a b _ _ hab hba
      exact le_antisymm hab hba
    · exact (List.perm_insertionSort _ _).trans (hprices.trans (List.perm_insertionSort _ _).symm)
  rw [medianPrice?, medianPrice?, hsorted, hperm.length_eq]

theorem PaidAtMedian.perm {verifier : PaymentVerifier H} {xorname : H}
    {payment payment' : ProofOfPayment H} {p : Nat}
    (hpaid : PaidAtMedian verifier xorname payment p)
    (hperm : payment'.peerQuotes.Perm payment.peerQuotes) :
    PaidAtMedian verifier xorname payment' p := by
  obtain ⟨entry, hentry, hquote⟩ := hpaid.paid
  exact
    { length_pos := hperm.length_eq ▸ hpaid.length_pos
      length_le := hperm.length_eq ▸ hpaid.length_le
      distinct := (hperm.map Prod.fst).nodup_iff.mpr hpaid.distinct
      median := (medianPrice?_perm hperm).trans hpaid.median
      price_pos := hpaid.price_pos
      amount_lt := hpaid.amount_lt
      paid := ⟨entry, hperm.mem_iff.mpr hentry, hquote⟩ }

/-- **Acceptance is exact and does not depend on the order of the quotes.** A bundle is accepted if
and only if it was paid at its median, and so is every bundle with the same quotes. -/
theorem verifyEvmPayment_exact
    (hcontent : ∀ (quote : PaymentQuote H) (xorname : H),
      verifyQuoteContent quote xorname = true ↔ quote.content = xorname)
    (verifier : PaymentVerifier H) (xorname : H) (payment : ProofOfPayment H)
    (sidecars : List Bytes) (context : VerificationContext) (now : Nat) :
    ((verifyEvmPayment verifier xorname payment sidecars context now).isOk = true ↔
      ∃ p, PaidAtMedian verifier xorname payment p) ∧
    ∀ payment' : ProofOfPayment H, payment'.peerQuotes.Perm payment.peerQuotes →
      (verifyEvmPayment verifier xorname payment' sidecars context now).isOk =
        (verifyEvmPayment verifier xorname payment sidecars context now).isOk := by
  refine ⟨verifyEvmPayment_isOk_iff_paidAtMedian hcontent, ?_⟩
  intro payment' hperm
  rw [Bool.eq_iff_iff, verifyEvmPayment_isOk_iff_paidAtMedian hcontent,
    verifyEvmPayment_isOk_iff_paidAtMedian hcontent]
  constructor
  · rintro ⟨p, hpaid⟩
    exact ⟨p, hpaid.perm hperm.symm⟩
  · rintro ⟨p, hpaid⟩
    exact ⟨p, hpaid.perm hperm⟩

/-! ### Quotes under the collision-free hash -/

namespace Transcript

def quotePayload (quote : PaymentQuote Transcript) : Bytes :=
  fields [quote.content.bytes, List.replicate quote.timestamp 0, List.replicate quote.price 0,
    quote.rewardsAddress, quote.pubKey, List.replicate quote.committedKeyCount 0,
    (quote.commitmentPin.map Transcript.bytes).getD []]

instance : QuoteProtocol Transcript where
  verifyQuoteContent quote xorname := decide (quote.content = xorname)
  verifyQuoteSignature quote := decide (quote.signature = quotePayload quote)
  peerIdFromPublicKeyBytes pubKey := .ok (blake3 pubKey)
  quoteHash := quotePayload
  calculatePrice := fun n => n
  quoteToVec quote := some (quotePayload quote ++ quote.signature)
  commitmentFromSlice := fun _ => none
  maxCommitmentSidecarBytes := 0
  debugPeer := fun _ => ""

def pinnedQuote (pubKey : Bytes) (price : Nat) : PaymentQuote Transcript where
  content := ⟨[1]⟩
  timestamp := 0
  price := price
  rewardsAddress := []
  pubKey := pubKey
  signature := []
  committedKeyCount := 1
  commitmentPin := some ⟨[3]⟩

def signQuote (quote : PaymentQuote Transcript) : PaymentQuote Transcript :=
  { quote with signature := quotePayload quote }

def payingVerifier : PaymentVerifier Transcript where
  p2pNode := some ⟨fun _ _ => [⟨[7]⟩], fun _ _ => none⟩
  completedPayments := fun _ => .ok 15
  commitmentCache := none
  pinFetchNegativeCache := []
  monetizedPinTx := true

def bundleWith (cheaper : PaymentQuote Transcript) : ProofOfPayment Transcript :=
  ⟨[(⟨[7]⟩, signQuote (pinnedQuote [7] 5)), (⟨[8]⟩, cheaper)]⟩

end Transcript

open Transcript

theorem verifyEvmPayment_exact_swapped :
    (∃ p, PaidAtMedian payingVerifier ⟨[1]⟩ (bundleWith (pinnedQuote [8] 1)) p) ∧
      (verifyEvmPayment payingVerifier ⟨[1]⟩ ⟨(bundleWith (pinnedQuote [8] 1)).peerQuotes.reverse⟩
        [] .paidListAdmission 0).isOk = true := by
  have hexact := verifyEvmPayment_exact (H := Transcript) (fun _ _ => decide_eq_true_iff)
    payingVerifier ⟨[1]⟩ (bundleWith (pinnedQuote [8] 1)) [] .paidListAdmission 0
  have haccepted : (verifyEvmPayment payingVerifier ⟨[1]⟩ (bundleWith (pinnedQuote [8] 1)) []
      .paidListAdmission 0).isOk = true := by decide +kernel
  exact ⟨hexact.1.mp haccepted, (hexact.2 _ (List.reverse_perm _)).trans haccepted⟩

end AntNode
