import AntNode.AuditProtocol
import AntNode.CommitmentState

/-!
# Single-node payment verification and the quote cross-check

A client pays one quote of a bundle, the median-priced one, and sends the whole bundle along. The
verifier looks for a median-priced quote that is properly signed and was paid; then, for a client
put, it walks every quote of the bundle, routes each pinned commitment for a first audit and
compares the quoted key count with the commitment the pin resolves to.

The chain, the routing table and the fetch of a commitment are oracles of the verifier. Amounts are
256-bit, prices are compared as numbers, and logging is left out.
-/

namespace AntNode

structure PaymentQuote (H : Type) where
  content : H
  timestamp : Nat
  price : Nat
  rewardsAddress : Bytes
  pubKey : Bytes
  signature : Bytes
  committedKeyCount : Nat
  commitmentPin : Option H
  deriving DecidableEq

/-- What the verifier takes from `ant_protocol`, `evmlib` and the codecs. -/
class QuoteProtocol (H : Type) where
  verifyQuoteContent : PaymentQuote H → H → Bool
  verifyQuoteSignature : PaymentQuote H → Bool
  peerIdFromPublicKeyBytes : Bytes → Except String H
  quoteHash : PaymentQuote H → Bytes
  calculatePrice : Nat → Nat
  quoteToVec : PaymentQuote H → Option Bytes
  commitmentFromSlice : Bytes → Option (StorageCommitment H)
  maxCommitmentSidecarBytes : Nat
  debugPeer : H → String

export QuoteProtocol (verifyQuoteContent verifyQuoteSignature peerIdFromPublicKeyBytes)

variable {H : Type} [Digest H] [CommitmentProtocol H] [QuoteProtocol H]

structure ProofOfPayment (H : Type) where
  peerQuotes : List (H × PaymentQuote H)
  deriving DecidableEq

inductive VerificationContext where
  | clientPut
  | paidListAdmission
  deriving DecidableEq

def closeGroupSize : Nat := 7

def kBucketSize : Nat := 20

def paidQuoteIssuerClosenessWidth : Nat := kBucketSize

def paidQuotePaymentMultiplier : Nat := 3

/-- `CANDIDATES_PER_POOL`. -/
def maxSidecarsPerBundle : Nat := 16

def maxPinFetchesPerBundle : Nat := 3

def pinFetchNegativeCacheCapacity : Nat := 4096

def quoteArithmeticRecheckEnabled : Bool := false

/-- What the verifier asks the network. `pinReply` is the commitment of a `Found` answer to
`GetCommitmentByPin`, and nothing when the request or the answer fails in any way. -/
structure P2PNode (H : Type) where
  findClosest : H → Nat → List H
  pinReply : H → H → Option (StorageCommitment H)

/-- `completedPayments` is the payment vault's, the negative cache is most recently used first, and
`monetizedPinTx` says whether the first-audit channel is attached. -/
structure PaymentVerifier (H : Type) [Digest H] [CommitmentProtocol H] where
  p2pNode : Option (P2PNode H)
  completedPayments : Bytes → Except String Nat
  commitmentCache : Option (H → Option (PeerCommitmentRecord H))
  pinFetchNegativeCache : List (H × H)
  monetizedPinTx : Bool

/-! ### The paid quote -/

def firstRepeatedPeer : List (H × PaymentQuote H) → List H → Option H
  | [], _ => none
  | (peer, _) :: rest, seen =>
      if peer ∈ seen then some peer else firstRepeatedPeer rest (seen ++ [peer])

def validateQuoteStructure (payment : ProofOfPayment H) : Except String Unit :=
  if payment.peerQuotes.isEmpty then .error "Payment has no quotes"
  else if payment.peerQuotes.length > closeGroupSize then
    .error ("Payment must have at most " ++ toString closeGroupSize ++ " quotes, got " ++
      toString payment.peerQuotes.length)
  else
    match firstRepeatedPeer payment.peerQuotes [] with
    | some peer =>
        .error ("Duplicate peer ID in payment quotes: " ++ QuoteProtocol.debugPeer peer)
    | none => .ok ()

/-- The forced-price rule on a `(committed_key_count, commitment_pin, price)` triple: shape, cap,
price. -/
def bindingViolation (committedKeyCount : Nat) (commitmentPin : Option H) (price : Nat) :
    Option String :=
  if 0 < committedKeyCount ∧ commitmentPin.isNone then
    some ("binding shape invalid: committed_key_count=" ++ toString committedKeyCount ++
      " > 0 but commitment_pin is None (unauditable count)")
  else if committedKeyCount = 0 ∧ commitmentPin.isSome then
    some ("binding shape invalid: committed_key_count=0 with a commitment_pin " ++
      "(incoherent baseline)")
  else if committedKeyCount > maxCommitmentKeyCount then
    some ("committed_key_count=" ++ toString committedKeyCount ++
      " exceeds MAX_COMMITMENT_KEY_COUNT=" ++ toString maxCommitmentKeyCount)
  else
    let expected := QuoteProtocol.calculatePrice H committedKeyCount
    if expected = price then none
    else
      some ("price " ++ toString price ++ " does not equal calculate_price(committed_key_count=" ++
        toString committedKeyCount ++ ") = " ++ toString expected)

def quoteArithmeticViolation (quote : PaymentQuote H) : Option String :=
  bindingViolation quote.committedKeyCount quote.commitmentPin quote.price

/-- The bundle-wide price check, behind its rollout gate. -/
def validateQuoteArithmetic (payment : ProofOfPayment H) : Except String Unit :=
  if quoteArithmeticRecheckEnabled then
    match payment.peerQuotes.findSome? fun entry =>
      (quoteArithmeticViolation entry.2).map fun detail => (entry.1, detail) with
    | some (peer, detail) =>
        .error ("ADR-0004 off-curve quote rejected for peer " ++ QuoteProtocol.debugPeer peer ++
          ": " ++ detail)
    | none => .ok ()
  else .ok ()

structure LegacyMedianCandidate (H : Type) where
  encodedPeerId : H
  quote : PaymentQuote H
  expectedAmount : Nat
  deriving DecidableEq

def medianQuoteIndex (quoteCount : Nat) : Nat := quoteCount / 2

/-- `sort_by_key` on the price, a stable sort. -/
def sortByPrice (quotes : List (H × PaymentQuote H)) : List (H × PaymentQuote H) :=
  quotes.insertionSort fun a b => a.2.price ≤ b.2.price

/-- The quotes priced at the median, with the amount the paid one has to have been paid. -/
def legacyMedianCandidates (payment : ProofOfPayment H) :
    Except String (List (LegacyMedianCandidate H)) :=
  let sortedQuotes := sortByPrice payment.peerQuotes
  let medianIndex := medianQuoteIndex sortedQuotes.length
  match sortedQuotes[medianIndex]? with
  | none => .error ("Missing paid quote at median index " ++ toString medianIndex)
  | some (_, median) =>
      let expectedAmount := median.price * paidQuotePaymentMultiplier
      if expectedAmount ≥ 2 ^ 256 then
        .error ("Median quote payment amount overflow for price " ++ toString median.price)
      else if expectedAmount = 0 ∨ median.price = 0 then
        .error ("Median quote has zero price/amount (price=" ++ toString median.price ++
          ", amount=" ++ toString expectedAmount ++ "); refusing to verify as paid")
      else
        .ok ((sortedQuotes.filter fun entry => decide (entry.2.price = median.price)).map
          fun entry => ⟨entry.1, entry.2, expectedAmount⟩)

def validatePaidQuoteContent (xorname : H) (candidate : LegacyMedianCandidate H) :
    Except String Unit :=
  if verifyQuoteContent candidate.quote xorname then .ok ()
  else
    .error ("Paid quote content address mismatch for peer " ++
      QuoteProtocol.debugPeer candidate.encodedPeerId ++ ": expected " ++
      hexEncode (asBytes xorname) ++ ", got " ++ hexEncode (asBytes candidate.quote.content))

def validatePaidQuotePeerBinding (encodedPeerId : H) (quote : PaymentQuote H) : Except String H :=
  match peerIdFromPublicKeyBytes quote.pubKey with
  | .error e => .error ("Invalid ML-DSA public key in quote: " ++ e)
  | .ok expectedPeerId =>
      if expectedPeerId ≠ encodedPeerId then
        .error ("Paid quote pub_key does not belong to claimed peer " ++
          QuoteProtocol.debugPeer encodedPeerId ++ ": BLAKE3(pub_key) = " ++
          hexEncode (asBytes expectedPeerId) ++ ", peer_id = " ++ hexEncode (asBytes encodedPeerId))
      else .ok expectedPeerId

def validatePaidQuoteIssuerKClosest (verifier : PaymentVerifier H) (xorname issuerPeerId : H) :
    Except String Unit :=
  match verifier.p2pNode with
  | none =>
      .error ("Paid quote rejected: verifier is not wired to the P2P layer; " ++
        "cannot verify issuer closeness.")
  | some p2p =>
      if issuerPeerId ∈ p2p.findClosest xorname paidQuoteIssuerClosenessWidth then .ok ()
      else
        .error ("Paid quote issuer " ++ hexEncode (asBytes issuerPeerId) ++
          " is not among this node's local K=" ++ toString paidQuoteIssuerClosenessWidth ++
          " closest peers for " ++ hexEncode (asBytes xorname))

def validatePaidQuoteSignature (candidate : LegacyMedianCandidate H) : Except String Unit :=
  if verifyQuoteSignature candidate.quote then .ok ()
  else
    .error ("Paid quote ML-DSA-65 signature verification failed for peer " ++
      QuoteProtocol.debugPeer candidate.encodedPeerId)

def completedPaymentAmount (verifier : PaymentVerifier H) (quote : PaymentQuote H) :
    Except String Nat :=
  match verifier.completedPayments (QuoteProtocol.quoteHash quote) with
  | .error e => .error ("completedPayments lookup failed: " ++ e)
  | .ok amount => .ok amount

def verifyLegacyMedianCandidate (verifier : PaymentVerifier H) (xorname : H)
    (candidate : LegacyMedianCandidate H) : Except String Unit := do
  validatePaidQuoteContent xorname candidate
  let issuerPeerId ← validatePaidQuotePeerBinding candidate.encodedPeerId candidate.quote
  validatePaidQuoteIssuerKClosest verifier xorname issuerPeerId
  validatePaidQuoteSignature candidate
  let onChainAmount ← completedPaymentAmount verifier candidate.quote
  if candidate.expectedAmount ≤ onChainAmount then return ()
  throw ("Median-priced quote for peer " ++ QuoteProtocol.debugPeer candidate.encodedPeerId ++
    " was not paid enough: expected at least " ++ toString candidate.expectedAmount ++ ", got " ++
    toString onChainAmount)

/-- The candidates in turn, up to the first that verifies; otherwise why each of them failed. -/
def firstPaidCandidate (verifier : PaymentVerifier H) (xorname : H) :
    List (LegacyMedianCandidate H) → List String → Except (List String) Unit
  | [], failures => .error failures
  | candidate :: rest, failures =>
      match verifyLegacyMedianCandidate verifier xorname candidate with
      | .ok () => .ok ()
      | .error e => firstPaidCandidate verifier xorname rest (failures ++ ["payment error: " ++ e])

/-! ### The cross-check -/

structure MonetizedPinEvent (H : Type) where
  peer : H
  pin : H
  keyCount : Nat
  quoteTs : Nat
  deriving DecidableEq

inductive CrossCheck where
  | matched
  | mismatch (quotedKeyCount committedKeyCount : Nat)
  | pinDoesNotResolve
  deriving DecidableEq

def crossCheckBinding (quotedKeyCount : Nat) (quotedPin : H) (commitment : StorageCommitment H) :
    CrossCheck :=
  if commitmentHash commitment = some quotedPin then
    if commitment.keyCount = quotedKeyCount then .matched
    else .mismatch quotedKeyCount commitment.keyCount
  else .pinDoesNotResolve

/-- The evidence of a mismatch. Without the quote artifact there is none. -/
def handleCrossCheck (peerId pin : H) (quotedKeyCount : Nat) (quoteArtifact : Bytes)
    (commitment : StorageCommitment H) : Option (FailureEvidence H) :=
  match crossCheckBinding quotedKeyCount pin commitment with
  | .mismatch quotedKeyCount committedKeyCount =>
      if quoteArtifact.isEmpty then none
      else
        some (.quoteCommitmentMismatch peerId pin quotedKeyCount committedKeyCount quoteArtifact
          commitment)
  | _ => none

def fetchedCommitmentIsValid (commitment : StorageCommitment H) (peerId pin : H) : Bool :=
  decide (commitment.senderPeerId = peerId) &&
    decide (blake3 commitment.senderPublicKey = commitment.senderPeerId) &&
    verifyCommitmentSignature commitment && decide (commitmentHash commitment = some pin)

def validSidecar (blob : Bytes) : Option ((H × H) × StorageCommitment H) :=
  if blob.length > QuoteProtocol.maxCommitmentSidecarBytes H then none
  else
    (QuoteProtocol.commitmentFromSlice blob).bind fun commitment =>
      (commitmentHash commitment).bind fun pin =>
        if fetchedCommitmentIsValid commitment commitment.senderPeerId pin then
          some ((commitment.senderPeerId, pin), commitment)
        else none

def indexValidSidecars (sidecars : List Bytes) : List ((H × H) × StorageCommitment H) :=
  (sidecars.take maxSidecarsPerBundle).filterMap validSidecar

/-- A later sidecar replaces an earlier one with its key. -/
def sidecarFor (sidecarMap : List ((H × H) × StorageCommitment H)) (peerId pin : H) :
    Option (StorageCommitment H) :=
  (sidecarMap.reverse.find? fun entry => decide (entry.1 = (peerId, pin))).map Prod.snd

def freshCachedCommitment (rec : PeerCommitmentRecord H) (pin : H) (now ttl : Nat) :
    Option (StorageCommitment H) :=
  if now - rec.receivedAt ≥ ttl then none
  else if rec.cachedHash ≠ some pin then none
  else rec.lastCommitment

def cacheResolve (cache : Option (H → Option (PeerCommitmentRecord H))) (peerId pin : H)
    (now ttl : Nat) : Option (StorageCommitment H) :=
  cache.bind fun cache => (cache peerId).bind fun rec => freshCachedCommitment rec pin now ttl

structure UnresolvedPin (H : Type) where
  peerId : H
  pin : H
  quotedKeyCount : Nat
  artifact : Bytes
  deriving DecidableEq

structure CrossCheckPass (H : Type) where
  events : List (MonetizedPinEvent H)
  evidence : List (FailureEvidence H)
  unresolved : List (UnresolvedPin H)

def quoteArtifact (quote : PaymentQuote H) : Bytes := (QuoteProtocol.quoteToVec quote).getD []

/-- The inline pass: the first-audit event of every pinned quote, then its resolution from the
sidecars and the gossip cache. -/
def inlinePass (verifier : PaymentVerifier H) (sidecarMap : List ((H × H) × StorageCommitment H))
    (now : Nat) : List (H × PaymentQuote H) → CrossCheckPass H
  | [] => ⟨[], [], []⟩
  | (peerId, quote) :: rest =>
      let later := inlinePass verifier sidecarMap now rest
      match quote.commitmentPin with
      | none => later
      | some pin =>
          let events :=
            if verifier.monetizedPinTx then
              ⟨peerId, pin, quote.committedKeyCount, quote.timestamp⟩ :: later.events
            else later.events
          match (sidecarFor sidecarMap peerId pin).or
            (cacheResolve verifier.commitmentCache peerId pin now gossipAnswerabilityTtl) with
          | some commitment =>
              { events := events
                evidence := (handleCrossCheck peerId pin quote.committedKeyCount
                  (quoteArtifact quote) commitment).toList ++ later.evidence
                unresolved := later.unresolved }
          | none =>
              { events := events
                evidence := later.evidence
                unresolved :=
                  ⟨peerId, pin, quote.committedKeyCount, quoteArtifact quote⟩ :: later.unresolved }

def fetchCommitmentByPin (p2p : P2PNode H) (peerId pin : H) : Option (StorageCommitment H) :=
  (p2p.pinReply peerId pin).filter fun commitment => fetchedCommitmentIsValid commitment peerId pin

/-- The background fetch: at most `maxPinFetchesPerBundle` requests, none for a pin known not to
resolve. It returns the evidence and the negative cache it leaves, a bounded most-recently-used
list. -/
def drainUnresolvedPinFetches (p2p : P2PNode H) :
    Nat → List (H × H) → List (UnresolvedPin H) → List (FailureEvidence H) × List (H × H)
  | _, negCache, [] => ([], negCache)
  | fetched, negCache, item :: rest =>
      if fetched ≥ maxPinFetchesPerBundle then ([], negCache)
      else if (item.peerId, item.pin) ∈ negCache then
        let touched := (item.peerId, item.pin) :: negCache.erase (item.peerId, item.pin)
        drainUnresolvedPinFetches p2p fetched touched rest
      else
        match fetchCommitmentByPin p2p item.peerId item.pin with
        | some commitment =>
            let later := drainUnresolvedPinFetches p2p (fetched + 1) negCache rest
            ((handleCrossCheck item.peerId item.pin item.quotedKeyCount item.artifact
              commitment).toList ++ later.1, later.2)
        | none =>
            let put := ((item.peerId, item.pin) :: negCache).take pinFetchNegativeCacheCapacity
            drainUnresolvedPinFetches p2p (fetched + 1) put rest

structure CrossChecked (H : Type) where
  events : List (MonetizedPinEvent H)
  evidence : List (FailureEvidence H)
  pinFetchNegativeCache : List (H × H)
  deriving DecidableEq

def crossCheckQuotes (verifier : PaymentVerifier H) (payment : ProofOfPayment H)
    (commitmentSidecars : List Bytes) (now : Nat) : CrossChecked H :=
  let pass := inlinePass verifier (indexValidSidecars commitmentSidecars) now payment.peerQuotes
  match verifier.p2pNode with
  | none => ⟨pass.events, pass.evidence, verifier.pinFetchNegativeCache⟩
  | some p2p =>
      let fetched := drainUnresolvedPinFetches p2p 0 verifier.pinFetchNegativeCache pass.unresolved
      ⟨pass.events, pass.evidence ++ fetched.1, fetched.2⟩

/-- Verify a single-node payment, and cross-check the bundle of a client put. -/
def verifyEvmPayment (verifier : PaymentVerifier H) (xorname : H) (payment : ProofOfPayment H)
    (commitmentSidecars : List Bytes) (context : VerificationContext) (now : Nat) :
    Except String (CrossChecked H) := do
  validateQuoteStructure payment
  validateQuoteArithmetic payment
  let candidates ← legacyMedianCandidates payment
  match firstPaidCandidate verifier xorname candidates [] with
  | .error failures =>
      let details :=
        if failures.isEmpty then "no median-priced candidates were available"
        else "; ".intercalate failures
      throw ("Median quote payment verification failed for " ++ hexEncode (asBytes xorname) ++
        ": " ++ details)
  | .ok () =>
      match context with
      | .clientPut => return crossCheckQuotes verifier payment commitmentSidecars now
      | .paidListAdmission => return ⟨[], [], verifier.pinFetchNegativeCache⟩

end AntNode
