import AntNode.MerklePayment

/-!
# Quotes, merkle candidates and the window of their first audit

A responder puts its commitment on the wire in gossip, in quotes and in merkle candidates, and each
of them stamps the commitment for one answerability window. A paid quote is audited once more by
whoever saw the payment, and the auditor decides by the signed date and its own wall clock whether
the responder still owes an answer.

`current_for_gossip` and `current_for_quote` read the clock and then wait for the lock, so the
reading an emission stamps with may be older than stamps made before it; `rotate`, `retire_current`
and `age_out` read it under the lock. The wall clock of a responder is its monotonic one shifted by
`epoch`. An honest responder has data to answer for, so `clear_all` is none of its steps. What the
codecs do to a response is left out, and so are the size and the type of the data, which are logged.
-/

namespace AntNode

def monetizedAuditSkewMargin : Nat := 30 * 60 * nanosPerSec

/-- `SystemTime::duration_since`. -/
def durationSince (time earlier : Nat) : Option Nat :=
  if earlier ≤ time then some (time - earlier) else none

def quoteWithinAuditWindow (quoteTs now : Nat) : Bool :=
  let tooFuture := (durationSince quoteTs now).any fun ahead =>
    decide (ahead > monetizedAuditSkewMargin)
  let auditCutoff := gossipAnswerabilityTtl - monetizedAuditSkewMargin
  let tooOld := (durationSince now quoteTs).any fun age => decide (age ≥ auditCutoff)
  !(tooFuture || tooOld)

variable {H : Type} [Digest H] [CommitmentProtocol H]

/-! ### The responder -/

/-- The last stamp of a hash: the clock reading it was made with, and the other hashes stamped
since. -/
structure LastStamp (H : Type) where
  readAt : Nat
  since : Finset H

/-- `now` is the monotonic clock. `lastStamp` is history that no method reads. -/
structure HonestResponder (H : Type) [Digest H] [CommitmentProtocol H] where
  now : Nat
  commitments : ResponderCommitmentState H
  lastStamp : H → Option (LastStamp H)

inductive ResponderEvent (H : Type) [Digest H] [CommitmentProtocol H] where
  | tick (elapsed : Nat)
  | rotate (newCurrent : BuiltCommitment H)
  | retireCurrent
  | ageOut
  | emit (reading : Nat)

namespace HonestResponder

def start : HonestResponder H := ⟨0, .new, fun _ => none⟩

def noteStamp (lastStamp : H → Option (LastStamp H)) (hash : H) (reading : Nat) (other : H) :
    Option (LastStamp H) :=
  if other = hash then some ⟨reading, ∅⟩
  else (lastStamp other).map fun last => { last with since := insert hash last.since }

/-- The body of `current_for_gossip` and `current_for_quote`, once the lock is there. -/
def emit (r : HonestResponder H) (reading : Nat) : HonestResponder H :=
  { r with
    commitments := (r.commitments.snapshotAndStamp reading).1
    lastStamp :=
      match r.commitments.current with
      | none => r.lastStamp
      | some built => noteStamp r.lastStamp built.cachedHash reading }

def step (r : HonestResponder H) : ResponderEvent H → Option (HonestResponder H)
  | .tick elapsed => some { r with now := r.now + elapsed }
  | .rotate newCurrent => some { r with commitments := r.commitments.rotate newCurrent r.now }
  | .retireCurrent => some { r with commitments := r.commitments.retireCurrent r.now }
  | .ageOut => some { r with commitments := r.commitments.ageOut r.now }
  | .emit reading => if reading ≤ r.now then some (r.emit reading) else none

/-- The other hashes stamped since `hash` last was. -/
def stampedSince (r : HonestResponder H) (hash : H) : Finset H :=
  (r.lastStamp hash).elim ∅ LastStamp.since

end HonestResponder

/-! ### Quotes and merkle candidates -/

/-- The messages `evmlib` has a node sign, and the chunk size of `ant_protocol`. -/
class QuoteSigning (H : Type) where
  bytesForSigning : H → Nat → Nat → Bytes → Nat → Option H → Bytes
  bytesToSign : Nat → Bytes → Nat → Nat → Option H → Bytes
  maxChunkSize : Nat

/-- `commitmentSource` says whether the commitments are attached. Signing is randomised, so it takes
its randomness as an argument. -/
structure QuoteGenerator where
  rewardsAddress : Bytes
  commitmentSource : Bool
  signFn : Option (Nat → Bytes → Bytes)
  pubKey : Bytes

structure QuoteBinding (H : Type) where
  keyCount : Nat
  pin : H

inductive ProtocolError where
  | quoteFailed (message : String)
  | chunkTooLarge (size maxSize : Nat)
  deriving DecidableEq

structure MerkleCandidateQuoteRequest where
  dataSize : Nat
  merklePaymentTimestamp : Nat
  deriving DecidableEq

inductive MerkleCandidateQuoteResponse (H : Type) where
  | success (candidateNode : MerklePaymentCandidateNode H)
      (commitment : Option (StorageCommitment H))
  | error (e : ProtocolError)

def ResponderCommitmentState.currentBindingForQuote (state : ResponderCommitmentState H)
    (now : Nat) : ResponderCommitmentState H × Option (QuoteBinding H) :=
  let (state, built) := state.currentForQuote now
  (state, built.map fun built => ⟨built.commitment.keyCount, built.cachedHash⟩)

def ResponderCommitmentState.commitmentBlobForPin (state : ResponderCommitmentState H) (pin : H) :
    Option (StorageCommitment H) :=
  (state.lookupByHash pin).map BuiltCommitment.commitment

namespace QuoteGenerator

variable (generator : QuoteGenerator)

/-- The committed key count, the pin and the count to price by. Without a commitment all three are
the baseline's. -/
def resolveQuotePricing (commitments : ResponderCommitmentState H) (reading : Nat) :
    ResponderCommitmentState H × Nat × Option H × Nat :=
  if generator.commitmentSource then
    match commitments.currentBindingForQuote reading with
    | (commitments, none) => (commitments, 0, none, 0)
    | (commitments, some binding) =>
        (commitments, binding.keyCount, some binding.pin, binding.keyCount)
  else (commitments, 0, none, 0)

/-- Whether a quote gets as far as asking for the commitment. -/
def binds : Bool := generator.signFn.isSome && generator.commitmentSource

variable [QuoteProtocol H] [QuoteSigning H]

/-- `timestamp` is the wall clock, read before the commitment is asked for. -/
def createQuote (commitments : ResponderCommitmentState H) (content : H)
    (timestamp reading randomness : Nat) :
    ResponderCommitmentState H × Except String (PaymentQuote H) :=
  match generator.signFn with
  | none => (commitments, .error "Quote signing not configured")
  | some signFn =>
      let (commitments, committedKeyCount, commitmentPin, priceCount) :=
        generator.resolveQuotePricing commitments reading
      let price := QuoteProtocol.calculatePrice H priceCount
      let signature := signFn randomness (QuoteSigning.bytesForSigning content timestamp price
        generator.rewardsAddress committedKeyCount commitmentPin)
      if signature.isEmpty then (commitments, .error "Signing produced empty signature")
      else
        (commitments, .ok
          { content := content
            timestamp := timestamp
            price := price
            rewardsAddress := generator.rewardsAddress
            pubKey := generator.pubKey
            signature := signature
            committedKeyCount := committedKeyCount
            commitmentPin := commitmentPin })

/-- The timestamp is the client's, and signed as it comes. -/
def createMerkleCandidateQuote (commitments : ResponderCommitmentState H)
    (merklePaymentTimestamp reading randomness : Nat) :
    ResponderCommitmentState H × Except String (MerklePaymentCandidateNode H) :=
  match generator.signFn with
  | none => (commitments, .error "Quote signing not configured")
  | some signFn =>
      let (commitments, committedKeyCount, commitmentPin, priceCount) :=
        generator.resolveQuotePricing commitments reading
      let price := QuoteProtocol.calculatePrice H priceCount
      let signature := signFn randomness (QuoteSigning.bytesToSign price generator.rewardsAddress
        merklePaymentTimestamp committedKeyCount commitmentPin)
      if signature.isEmpty then
        (commitments, .error "ML-DSA-65 signing produced empty signature for merkle candidate")
      else
        (commitments, .ok
          { pubKey := generator.pubKey
            price := price
            rewardAddress := generator.rewardsAddress
            merklePaymentTimestamp := merklePaymentTimestamp
            committedKeyCount := committedKeyCount
            commitmentPin := commitmentPin
            signature := signature })

def handleMerkleCandidateQuote (commitments : ResponderCommitmentState H)
    (request : MerkleCandidateQuoteRequest) (reading randomness : Nat) :
    ResponderCommitmentState H × MerkleCandidateQuoteResponse H :=
  if request.dataSize > QuoteSigning.maxChunkSize H then
    (commitments, .error (.chunkTooLarge request.dataSize (QuoteSigning.maxChunkSize H)))
  else
    match generator.createMerkleCandidateQuote commitments request.merklePaymentTimestamp reading
      randomness with
    | (commitments, .error e) => (commitments, .error (.quoteFailed ("payment error: " ++ e)))
    | (commitments, .ok candidateNode) =>
        (commitments, .success candidateNode
          (candidateNode.commitmentPin.bind commitments.commitmentBlobForPin))

end QuoteGenerator

/-! ### A responder that quotes -/

structure QuotingContext where
  generator : QuoteGenerator
  epoch : Nat

/-- The responder and every quote and candidate it has handed out. -/
structure QuotingNode (H : Type) [Digest H] [CommitmentProtocol H] where
  responder : HonestResponder H
  quotes : List (PaymentQuote H)
  candidates : List (MerklePaymentCandidateNode H)

/-- A `respond (.emit reading)` is gossip. -/
inductive QuotingEvent (H : Type) [Digest H] [CommitmentProtocol H] where
  | respond (event : ResponderEvent H)
  | createQuote (content : H) (takenAt reading randomness : Nat)
  | merkleCandidateQuote (request : MerkleCandidateQuoteRequest) (reading randomness : Nat)

namespace QuotingNode

variable [QuoteProtocol H] [QuoteSigning H]

def start : QuotingNode H := ⟨.start, [], []⟩

/-- The responder after a request that left it with `commitments`. -/
def quoted (ctx : QuotingContext) (r : HonestResponder H) (asked : Bool) (reading : Nat)
    (commitments : ResponderCommitmentState H) : HonestResponder H :=
  { r with
    commitments := commitments
    lastStamp := if asked && ctx.generator.binds then (r.emit reading).lastStamp else r.lastStamp }

def step (ctx : QuotingContext) (s : QuotingNode H) : QuotingEvent H → Option (QuotingNode H)
  | .respond event => (s.responder.step event).map fun responder => { s with responder := responder }
  | .createQuote content takenAt reading randomness =>
      if takenAt ≤ reading ∧ reading ≤ s.responder.now then
        let (commitments, result) := ctx.generator.createQuote s.responder.commitments content
          (ctx.epoch + takenAt) reading randomness
        some { s with
          responder := quoted ctx s.responder true reading commitments
          quotes :=
            match result with
            | .ok quote => quote :: s.quotes
            | .error _ => s.quotes }
      else none
  | .merkleCandidateQuote request reading randomness =>
      if reading ≤ s.responder.now then
        let (commitments, response) := ctx.generator.handleMerkleCandidateQuote
          s.responder.commitments request reading randomness
        some { s with
          responder := quoted ctx s.responder
            (decide (request.dataSize ≤ QuoteSigning.maxChunkSize H)) reading commitments
          candidates :=
            match response with
            | .success candidateNode _ => candidateNode :: s.candidates
            | .error _ => s.candidates }
      else none

end QuotingNode

end AntNode
