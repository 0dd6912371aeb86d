import AntNode.AuditWindow
import AntNode.Lib.Runs
import AntNode.Proof.MerkleAmount
import AntNode.Proof.Retention

/-!
# The first audit of a quote finds its commitment

The auditor's window closes one skew margin before the answerability window that is counted from the
date of the quote. So an audit inside it is answered as long as the last stamp of the pin was read
no earlier than that date, which every run keeps in which no emission stamps with a reading older
than the date of a quote it has handed out. A quote is dated by the responder just before it stamps;
a merkle candidate is dated by the client, with any date.
-/

namespace AntNode

open Runs ResponderCommitmentState

theorem lt_of_quoteWithinAuditWindow {quoteTs auditorNow wall : Nat}
    (hwindow : quoteWithinAuditWindow quoteTs auditorNow = true)
    (hskew : wall ≤ auditorNow + monetizedAuditSkewMargin) :
    wall < quoteTs + gossipAnswerabilityTtl := by
  have hmargin : 2 * monetizedAuditSkewMargin ≤ gossipAnswerabilityTtl := by decide
  have hpos : 0 < monetizedAuditSkewMargin := by decide
  simp only [quoteWithinAuditWindow, durationSince, Bool.not_eq_true',
    Bool.or_eq_false_iff] at hwindow
  obtain ⟨-, hold⟩ := hwindow
  by_cases hle : quoteTs ≤ auditorNow
  · simp only [hle, if_true, Option.any_some, decide_eq_false_iff_not, not_le] at hold
    omega
  · omega

variable {H : Type} [Digest H] [CommitmentProtocol H]

/-! ### What the last stamp of a hash buys -/

namespace HonestResponder

variable {r r' : HonestResponder H}

/-- A stamped hash is answerable until its last stamp lapses, unless too many others were stamped
since. -/
def Kept (r : HonestResponder H) : Prop :=
  ∀ hash last, r.lastStamp hash = some last → last.since.card < maxRetainedGossipedSlots →
    r.now < last.readAt + gossipAnswerabilityTtl →
    ∃ built, built.cachedHash = hash ∧
      Answerable r.commitments built (last.readAt + gossipAnswerabilityTtl) last.since

theorem kept_start : Kept (start : HonestResponder H) := by
  intro hash last hlast
  cases hlast

theorem Kept.of_commitments (hkept : Kept r) {commitments : ResponderCommitmentState H}
    (hcommitments : ∀ built deadline seen, r.now < deadline →
      Answerable r.commitments built deadline seen → Answerable commitments built deadline seen) :
    Kept { r with commitments := commitments } := by
  intro hash last hlast hfew hnow
  obtain ⟨built, hhash, hans⟩ := hkept hash last hlast hfew hnow
  exact ⟨built, hhash, hcommitments built _ _ hnow hans⟩

theorem Kept.tick (hkept : Kept r) (elapsed : Nat) : Kept { r with now := r.now + elapsed } := by
  intro hash last hlast hfew hnow
  exact hkept hash last hlast hfew (lt_of_le_of_lt (Nat.le_add_right _ _) hnow)

theorem Kept.emit (hkept : Kept r) {reading : Nat} (hreading : reading ≤ r.now) :
    Kept (r.emit reading) := by
  cases hcurrent : r.commitments.current with
  | none =>
      have hsame : r.emit reading = r := by
        simp [HonestResponder.emit, snapshotAndStamp, hcurrent]
      rwa [hsame]
  | some current =>
      intro hash last hlast hfew hnow
      have hstate : (r.emit reading).commitments
          = r.commitments.markGossipedLocked current.cachedHash reading := by
        simp [HonestResponder.emit, snapshotAndStamp, hcurrent]
      rw [hstate]
      simp only [HonestResponder.emit, hcurrent, noteStamp] at hlast
      by_cases hself : hash = current.cachedHash
      · rw [if_pos hself, Option.some.injEq] at hlast
        subst hlast
        refine ⟨current, hself.symm, Answerable.markGossiped_self (mem_slots_of_current hcurrent)
          le_rfl ?_⟩
        exact Nat.lt_add_of_pos_right (by decide)
      · rw [if_neg hself] at hlast
        obtain ⟨old, hold, rfl⟩ := Option.map_eq_some_iff.mp hlast
        have hfewOld : old.since.card < maxRetainedGossipedSlots :=
          lt_of_le_of_lt (Finset.card_le_card (Finset.subset_insert _ _)) hfew
        obtain ⟨built, hhash, hans⟩ := hkept hash old hold hfewOld hnow
        refine ⟨built, hhash, hans.markGossiped_of_ne (lt_of_le_of_lt hreading hnow) ?_ hfew⟩
        exact fun heq => hself (hhash ▸ heq.symm)

theorem Kept.step (hkept : Kept r) {event : ResponderEvent H} (hstep : r.step event = some r') :
    Kept r' := by
  cases event with
  | tick elapsed =>
      cases hstep
      exact hkept.tick elapsed
  | rotate newCurrent =>
      cases hstep
      exact hkept.of_commitments fun _ _ _ hnow hans => hans.rotate hnow newCurrent
  | retireCurrent =>
      cases hstep
      exact hkept.of_commitments fun _ _ _ hnow hans => hans.retireCurrent hnow
  | ageOut =>
      cases hstep
      exact hkept.of_commitments fun _ _ _ hnow hans => hans.pruneSlots hnow
  | emit reading =>
      rw [HonestResponder.step] at hstep
      split_ifs at hstep with hreading
      cases hstep
      exact hkept.emit hreading

theorem Kept.isSome_lookupByHash (hkept : Kept r) {hash : H} {last : LastStamp H}
    (hlast : r.lastStamp hash = some last) (hfew : last.since.card < maxRetainedGossipedSlots)
    (hnow : r.now < last.readAt + gossipAnswerabilityTtl) :
    (r.commitments.lookupByHash hash).isSome = true := by
  obtain ⟨built, rfl, hans⟩ := hkept hash last hlast hfew hnow
  obtain ⟨found, hfound, -⟩ := Answerable.isSome_lookupByHash hans.mem_slots
  rw [hfound]
  rfl

/-! ### Dates -/

/-- The last stamp of `pin` was read no earlier than `date`. -/
def Covers (r : HonestResponder H) (epoch : Nat) (pin : H) (date : Nat) : Prop :=
  ∃ last, r.lastStamp pin = some last ∧ date ≤ epoch + last.readAt

variable {epoch reading date : Nat} {pin : H}

theorem covers_emit {built : BuiltCommitment H} (hcurrent : r.commitments.current = some built)
    (hdate : date ≤ epoch + reading) : (r.emit reading).Covers epoch built.cachedHash date := by
  refine ⟨⟨reading, ∅⟩, ?_, hdate⟩
  simp [emit, hcurrent, noteStamp]

theorem Covers.emit (hcovers : r.Covers epoch pin date)
    (horder : ∀ built, r.commitments.current = some built → built.cachedHash = pin →
      date ≤ epoch + reading) : (r.emit reading).Covers epoch pin date := by
  obtain ⟨last, hlast, hdate⟩ := hcovers
  cases hcurrent : r.commitments.current with
  | none => exact ⟨last, by simpa [HonestResponder.emit, hcurrent] using hlast, hdate⟩
  | some built =>
      by_cases hself : built.cachedHash = pin
      · subst hself
        exact covers_emit hcurrent (horder built hcurrent rfl)
      · refine ⟨{ last with since := insert built.cachedHash last.since }, ?_, hdate⟩
        simp [HonestResponder.emit, hcurrent, noteStamp, Ne.symm hself, hlast]

theorem Covers.step {event : ResponderEvent H} (hcovers : r.Covers epoch pin date)
    (hstep : r.step event = some r')
    (horder : ∀ reading built, event = .emit reading → r.commitments.current = some built →
      built.cachedHash = pin → date ≤ epoch + reading) : r'.Covers epoch pin date := by
  cases event with
  | emit reading =>
      rw [HonestResponder.step] at hstep
      split_ifs at hstep
      cases hstep
      exact hcovers.emit fun built hcurrent hhash => horder reading built rfl hcurrent hhash
  | tick elapsed =>
      cases hstep
      exact hcovers
  | rotate newCurrent =>
      cases hstep
      exact hcovers
  | retireCurrent =>
      cases hstep
      exact hcovers
  | ageOut =>
      cases hstep
      exact hcovers

/-- An audit in the window of a covered date is answered. -/
theorem Kept.isSome_lookupByHash_of_window (hkept : Kept r) (hcovers : r.Covers epoch pin date)
    (hfew : (r.stampedSince pin).card < maxRetainedGossipedSlots) {auditorNow : Nat}
    (hskew : epoch + r.now ≤ auditorNow + monetizedAuditSkewMargin)
    (hwindow : quoteWithinAuditWindow date auditorNow = true) :
    (r.commitments.lookupByHash pin).isSome = true := by
  obtain ⟨last, hlast, hdate⟩ := hcovers
  have hfew : last.since.card < maxRetainedGossipedSlots := by
    simpa [stampedSince, hlast] using hfew
  have hwall := lt_of_quoteWithinAuditWindow hwindow hskew
  exact hkept.isSome_lookupByHash hlast hfew (by omega)

end HonestResponder

/-! ### What a request does to the responder -/

namespace QuoteGenerator

variable {generator : QuoteGenerator} {commitments commitments' : ResponderCommitmentState H}
  {reading randomness : Nat}

theorem resolveQuotePricing_fst :
    (generator.resolveQuotePricing commitments reading).1 =
      if generator.commitmentSource then (commitments.snapshotAndStamp reading).1
      else commitments := by
  unfold resolveQuotePricing currentBindingForQuote currentForQuote
  split_ifs
  · split
    · rename_i hbinding
      exact (congrArg Prod.fst hbinding).symm
    · rename_i hbinding
      exact (congrArg Prod.fst hbinding).symm
  · rfl

theorem resolveQuotePricing_pin :
    (generator.resolveQuotePricing commitments reading).2.2.1 =
      if generator.commitmentSource then commitments.current.map BuiltCommitment.cachedHash
      else none := by
  unfold resolveQuotePricing currentBindingForQuote currentForQuote snapshotAndStamp
  split_ifs
  · cases commitments.current <;> rfl
  · rfl

/-- The generator binds its quotes, and the pin is that of the advertised commitment. -/
def PinsCurrent (generator : QuoteGenerator) (commitments : ResponderCommitmentState H) (pin : H) :
    Prop :=
  generator.binds = true ∧ ∃ built, commitments.current = some built ∧ built.cachedHash = pin

/-- The pin is the hash of the commitment that was stamped. -/
theorem pinsCurrent (hsign : generator.signFn.isSome) {pin : H}
    (hpin : (generator.resolveQuotePricing commitments reading).2.2.1 = some pin) :
    generator.PinsCurrent commitments pin := by
  rw [resolveQuotePricing_pin] at hpin
  split_ifs at hpin with hsource
  exact ⟨by simp [binds, hsign, hsource], Option.map_eq_some_iff.mp hpin⟩

theorem fst_of_binds (hsign : generator.signFn.isSome) :
    (generator.resolveQuotePricing commitments reading).1 =
      if generator.binds then (commitments.snapshotAndStamp reading).1 else commitments := by
  rw [resolveQuotePricing_fst]
  simp [binds, hsign]

variable [QuoteProtocol H] [QuoteSigning H]

theorem createQuote_fst {content : H} {timestamp : Nat} :
    (generator.createQuote commitments content timestamp reading randomness).1 =
      if generator.binds then (commitments.snapshotAndStamp reading).1 else commitments := by
  unfold createQuote
  split
  · rename_i hsign
    simp [binds, hsign]
  · rename_i signFn hsign
    rw [← fst_of_binds (by simp [hsign])]
    dsimp only
    split_ifs <;> rfl

theorem createQuote_ok {content : H} {timestamp : Nat} {quote : PaymentQuote H}
    (hquote :
      (generator.createQuote commitments content timestamp reading randomness).2 = .ok quote) :
    quote.timestamp = timestamp ∧ ∀ pin, quote.commitmentPin = some pin →
      generator.PinsCurrent commitments pin := by
  unfold createQuote at hquote
  split at hquote
  · cases hquote
  · rename_i signFn hsign
    dsimp only at hquote
    split_ifs at hquote
    cases hquote
    exact ⟨rfl, fun pin hpin => pinsCurrent (by simp [hsign]) hpin⟩

theorem createMerkleCandidateQuote_fst {timestamp : Nat} :
    (generator.createMerkleCandidateQuote commitments timestamp reading randomness).1 =
      if generator.binds then (commitments.snapshotAndStamp reading).1 else commitments := by
  unfold createMerkleCandidateQuote
  split
  · rename_i hsign
    simp [binds, hsign]
  · rename_i signFn hsign
    rw [← fst_of_binds (by simp [hsign])]
    dsimp only
    split_ifs <;> rfl

theorem createMerkleCandidateQuote_ok {timestamp : Nat} {candidate : MerklePaymentCandidateNode H}
    (hcandidate : (generator.createMerkleCandidateQuote commitments timestamp reading
      randomness).2 = .ok candidate) :
    candidate.merklePaymentTimestamp = timestamp ∧ ∀ pin, candidate.commitmentPin = some pin →
      generator.PinsCurrent commitments pin := by
  unfold createMerkleCandidateQuote at hcandidate
  split at hcandidate
  · cases hcandidate
  · rename_i signFn hsign
    dsimp only at hcandidate
    split_ifs at hcandidate
    cases hcandidate
    exact ⟨rfl, fun pin hpin => pinsCurrent (by simp [hsign]) hpin⟩

theorem handleMerkleCandidateQuote_fst {request : MerkleCandidateQuoteRequest} :
    (generator.handleMerkleCandidateQuote commitments request reading randomness).1 =
      if decide (request.dataSize ≤ QuoteSigning.maxChunkSize H) && generator.binds then
        (commitments.snapshotAndStamp reading).1
      else commitments := by
  unfold handleMerkleCandidateQuote
  by_cases hsize : request.dataSize ≤ QuoteSigning.maxChunkSize H
  · rw [if_neg (not_lt.mpr hsize), decide_eq_true hsize, Bool.true_and,
      ← createMerkleCandidateQuote_fst]
    split
    · rename_i hcreate
      exact (congrArg Prod.fst hcreate).symm
    · rename_i hcreate
      exact (congrArg Prod.fst hcreate).symm
  · rw [if_pos (not_le.mp hsize)]
    simp [hsize]

theorem handleMerkleCandidateQuote_success {request : MerkleCandidateQuoteRequest}
    {candidate : MerklePaymentCandidateNode H} {commitment : Option (StorageCommitment H)}
    (hresponse : (generator.handleMerkleCandidateQuote commitments request reading randomness).2
      = .success candidate commitment) :
    request.dataSize ≤ QuoteSigning.maxChunkSize H ∧
      candidate.merklePaymentTimestamp = request.merklePaymentTimestamp ∧
      ∀ pin, candidate.commitmentPin = some pin → generator.PinsCurrent commitments pin := by
  unfold handleMerkleCandidateQuote at hresponse
  split_ifs at hresponse with hsize
  split at hresponse
  · cases hresponse
  · rename_i hcreate
    cases hresponse
    exact ⟨not_lt.mp hsize, createMerkleCandidateQuote_ok (congrArg Prod.snd hcreate)⟩

end QuoteGenerator

/-- The date a client asks for. -/
def QuotingEvent.clientTimestamp : QuotingEvent H → Option Nat
  | .merkleCandidateQuote request _ _ => some request.merklePaymentTimestamp
  | _ => none

namespace QuotingNode

theorem quoted_eq {ctx : QuotingContext} {r : HonestResponder H} {asked : Bool} {reading : Nat}
    {commitments : ResponderCommitmentState H}
    (hcommitments : commitments = if asked && ctx.generator.binds then
      (r.commitments.snapshotAndStamp reading).1 else r.commitments) :
    quoted ctx r asked reading commitments =
      if asked && ctx.generator.binds then r.emit reading else r := by
  subst hcommitments
  unfold quoted
  split_ifs <;> rfl

/-- What a step stamps, if anything, and the clock reading it stamps it with. -/
structure Stamping (H : Type) where
  pin : H
  reading : Nat

def stamping [QuoteSigning H] (ctx : QuotingContext) (s : QuotingNode H) :
    QuotingEvent H → Option (Stamping H)
  | .respond (.emit reading) => s.responder.commitments.current.map (⟨·.cachedHash, reading⟩)
  | .respond _ => none
  | .createQuote _ _ reading _ =>
      if ctx.generator.binds then s.responder.commitments.current.map (⟨·.cachedHash, reading⟩)
      else none
  | .merkleCandidateQuote request reading _ =>
      if decide (request.dataSize ≤ QuoteSigning.maxChunkSize H) && ctx.generator.binds then
        s.responder.commitments.current.map (⟨·.cachedHash, reading⟩)
      else none

variable [QuoteProtocol H] [QuoteSigning H] {ctx : QuotingContext} {s s' : QuotingNode H}
  {e : QuotingEvent H}

theorem step_createQuote {content : H} {takenAt reading randomness : Nat}
    (hstep : s.step ctx (.createQuote content takenAt reading randomness) = some s') :
    takenAt ≤ reading ∧ reading ≤ s.responder.now ∧
      s'.responder = (if ctx.generator.binds then s.responder.emit reading else s.responder) ∧
      s'.candidates = s.candidates ∧
      ∀ quote ∈ s'.quotes, quote ∈ s.quotes ∨
        (ctx.generator.createQuote s.responder.commitments content (ctx.epoch + takenAt) reading
          randomness).2 = .ok quote := by
  rw [QuotingNode.step] at hstep
  split_ifs at hstep with hclock
  cases hstep
  refine ⟨hclock.1, hclock.2, quoted_eq QuoteGenerator.createQuote_fst, rfl, ?_⟩
  intro quote hquote
  dsimp only at hquote
  split at hquote
  · rename_i issued hresult
    rcases List.mem_cons.mp hquote with rfl | hold
    · exact .inr hresult
    · exact .inl hold
  · exact .inl hquote

theorem step_merkleCandidateQuote {request : MerkleCandidateQuoteRequest}
    {reading randomness : Nat}
    (hstep : s.step ctx (.merkleCandidateQuote request reading randomness) = some s') :
    reading ≤ s.responder.now ∧
      s'.responder = (if decide (request.dataSize ≤ QuoteSigning.maxChunkSize H) &&
        ctx.generator.binds then s.responder.emit reading else s.responder) ∧
      s'.quotes = s.quotes ∧
      ∀ candidate ∈ s'.candidates, candidate ∈ s.candidates ∨
        ∃ commitment, (ctx.generator.handleMerkleCandidateQuote s.responder.commitments request
          reading randomness).2 = .success candidate commitment := by
  rw [QuotingNode.step] at hstep
  split_ifs at hstep with hclock
  cases hstep
  refine ⟨hclock, quoted_eq QuoteGenerator.handleMerkleCandidateQuote_fst, rfl, ?_⟩
  intro candidate hcandidate
  dsimp only at hcandidate
  split at hcandidate
  · rename_i issued commitment hresponse
    rcases List.mem_cons.mp hcandidate with rfl | hold
    · exact .inr ⟨commitment, hresponse⟩
    · exact .inl hold
  · exact .inl hcandidate

/-- What a step does to the responder. -/
theorem responder_cases (hstep : s.step ctx e = some s') :
    (∃ event, e = .respond event ∧ s.responder.step event = some s'.responder) ∨
      (∃ reading, reading ≤ s.responder.now ∧ s'.responder = s.responder.emit reading ∧
        ∀ built, s.responder.commitments.current = some built →
          s.stamping ctx e = some ⟨built.cachedHash, reading⟩) ∨
      s'.responder = s.responder := by
  cases e with
  | respond event =>
      obtain ⟨responder, hresponder, rfl⟩ := Option.map_eq_some_iff.mp hstep
      exact .inl ⟨event, rfl, hresponder⟩
  | createQuote content takenAt reading randomness =>
      obtain ⟨-, hclock, hresponder, -, -⟩ := step_createQuote hstep
      split_ifs at hresponder with hbinds
      · refine .inr (.inl ⟨reading, hclock, hresponder, fun built hcurrent => ?_⟩)
        rw [stamping, if_pos hbinds, hcurrent]
        rfl
      · exact .inr (.inr hresponder)
  | merkleCandidateQuote request reading randomness =>
      obtain ⟨hclock, hresponder, -, -⟩ := step_merkleCandidateQuote hstep
      split_ifs at hresponder with hbinds
      · refine .inr (.inl ⟨reading, hclock, hresponder, fun built hcurrent => ?_⟩)
        rw [stamping, if_pos hbinds, hcurrent]
        rfl
      · exact .inr (.inr hresponder)

theorem kept_step (hkept : s.responder.Kept) (hstep : s.step ctx e = some s') :
    s'.responder.Kept := by
  rcases responder_cases hstep with
    ⟨event, -, hresponder⟩ | ⟨reading, hclock, hresponder, -⟩ | hresponder
  · exact hkept.step hresponder
  · rw [hresponder]
    exact hkept.emit hclock
  · rwa [hresponder]

theorem covers_step {pin : H} {date : Nat}
    (hcovers : s.responder.Covers ctx.epoch pin date) (hstep : s.step ctx e = some s')
    (horder : ∀ reading, s.stamping ctx e = some ⟨pin, reading⟩ → date ≤ ctx.epoch + reading) :
    s'.responder.Covers ctx.epoch pin date := by
  rcases responder_cases hstep with
    ⟨event, rfl, hresponder⟩ | ⟨reading, -, hresponder, hstamping⟩ | hresponder
  · refine hcovers.step hresponder ?_
    rintro reading built rfl hcurrent rfl
    exact horder reading (by rw [stamping, hcurrent]; rfl)
  · rw [hresponder]
    refine hcovers.emit ?_
    rintro built hcurrent rfl
    exact horder reading (hstamping built hcurrent)
  · rwa [hresponder]

/-! ### Quotes -/

/-- No step stamps the commitment of a quote with a clock reading older than the quote. -/
def QuotesInOrder (ctx : QuotingContext) (s : QuotingNode H) (e : QuotingEvent H) : Prop :=
  ∀ stamp ∈ s.stamping ctx e, ∀ quote ∈ s.quotes, quote.commitmentPin = some stamp.pin →
    quote.timestamp ≤ ctx.epoch + stamp.reading

instance (s : QuotingNode H) (e : QuotingEvent H) : Decidable (QuotesInOrder ctx s e) :=
  inferInstanceAs (Decidable (∀ stamp ∈ s.stamping ctx e, ∀ quote ∈ s.quotes,
    quote.commitmentPin = some stamp.pin → quote.timestamp ≤ ctx.epoch + stamp.reading))

/-- Every quote was stamped for no earlier than it was dated. -/
structure QuoteInv (ctx : QuotingContext) (s : QuotingNode H) : Prop where
  kept : s.responder.Kept
  covered : ∀ quote ∈ s.quotes, ∀ pin, quote.commitmentPin = some pin →
    s.responder.Covers ctx.epoch pin quote.timestamp

theorem quotes_cases (hstep : s.step ctx e = some s') {quote : PaymentQuote H}
    (hquote : quote ∈ s'.quotes) :
    quote ∈ s.quotes ∨ ∃ reading, quote.timestamp ≤ ctx.epoch + reading ∧
      ∀ pin, quote.commitmentPin = some pin →
        s'.responder = s.responder.emit reading ∧
          ∃ built, s.responder.commitments.current = some built ∧ built.cachedHash = pin := by
  cases e with
  | respond event =>
      obtain ⟨responder, -, rfl⟩ := Option.map_eq_some_iff.mp hstep
      exact .inl hquote
  | createQuote content takenAt reading randomness =>
      obtain ⟨htaken, -, hresponder, -, hquotes⟩ := step_createQuote hstep
      rcases hquotes quote hquote with hold | hnew
      · exact .inl hold
      · obtain ⟨htimestamp, hpin⟩ := QuoteGenerator.createQuote_ok hnew
        refine .inr ⟨reading, by omega, fun pin hquoted => ?_⟩
        obtain ⟨hbinds, hbuilt⟩ := hpin pin hquoted
        rw [if_pos hbinds] at hresponder
        exact ⟨hresponder, hbuilt⟩
  | merkleCandidateQuote request reading randomness =>
      obtain ⟨-, -, hquotes, -⟩ := step_merkleCandidateQuote hstep
      exact .inl (hquotes ▸ hquote)

theorem QuoteInv.step (hinv : QuoteInv ctx s) (horder : QuotesInOrder ctx s e)
    (hstep : s.step ctx e = some s') : QuoteInv ctx s' := by
  refine ⟨kept_step hinv.kept hstep, fun quote hquote pin hpin => ?_⟩
  rcases quotes_cases hstep hquote with hold | ⟨reading, hdate, hnew⟩
  · exact covers_step (hinv.covered quote hold pin hpin) hstep fun reading hstamping =>
      horder ⟨pin, reading⟩ hstamping quote hold hpin
  · obtain ⟨hresponder, built, hcurrent, rfl⟩ := hnew pin hpin
    rw [hresponder]
    exact HonestResponder.covers_emit hcurrent hdate

/-- **The first audit of a quote is answered**, by every auditor whose clock is at most one skew
margin behind, along every run in which no emission stamps the commitment of an earlier quote with a
clock reading older than the quote. -/
theorem quote_first_audit_answered {events : List (QuotingEvent H)}
    (horder : Along (QuotingNode.step ctx) (QuotesInOrder ctx) start events)
    (hrun : run (QuotingNode.step ctx) start events = some s) :
    ∀ quote ∈ s.quotes, ∀ pin, quote.commitmentPin = some pin →
      (s.responder.stampedSince pin).card < maxRetainedGossipedSlots →
      ∀ auditorNow, ctx.epoch + s.responder.now ≤ auditorNow + monetizedAuditSkewMargin →
        quoteWithinAuditWindow quote.timestamp auditorNow = true →
        (s.responder.commitments.lookupByHash pin).isSome = true := by
  have hstart : QuoteInv ctx (start : QuotingNode H) :=
    ⟨HonestResponder.kept_start, fun quote hquote => by cases hquote⟩
  have hinv : QuoteInv ctx s :=
    invariant_of_run (fun _ _ _ hinv hok hstep => hinv.step hok hstep) hstart horder hrun
  intro quote hquote pin hpin hfew auditorNow hskew hwindow
  exact hinv.kept.isSome_lookupByHash_of_window (hinv.covered quote hquote pin hpin) hfew hskew
    hwindow

/-! ### Merkle candidates -/

/-- No step stamps the commitment of a candidate with a clock reading older than the date the client
gave the candidate, be it an earlier candidate or the one the step hands out. -/
def CandidatesInOrder (ctx : QuotingContext) (s : QuotingNode H) (e : QuotingEvent H) : Prop :=
  ∀ stamp ∈ s.stamping ctx e,
    (∀ candidate ∈ s.candidates, candidate.commitmentPin = some stamp.pin →
      systemTimeOfSecs candidate.merklePaymentTimestamp ≤ ctx.epoch + stamp.reading) ∧
    ∀ secs ∈ e.clientTimestamp, systemTimeOfSecs secs ≤ ctx.epoch + stamp.reading

instance (s : QuotingNode H) (e : QuotingEvent H) : Decidable (CandidatesInOrder ctx s e) :=
  inferInstanceAs (Decidable (∀ stamp ∈ s.stamping ctx e,
    (∀ candidate ∈ s.candidates, candidate.commitmentPin = some stamp.pin →
      systemTimeOfSecs candidate.merklePaymentTimestamp ≤ ctx.epoch + stamp.reading) ∧
    ∀ secs ∈ e.clientTimestamp, systemTimeOfSecs secs ≤ ctx.epoch + stamp.reading))

structure CandidateInv (ctx : QuotingContext) (s : QuotingNode H) : Prop where
  kept : s.responder.Kept
  covered : ∀ candidate ∈ s.candidates, ∀ pin, candidate.commitmentPin = some pin →
    s.responder.Covers ctx.epoch pin (systemTimeOfSecs candidate.merklePaymentTimestamp)

theorem candidates_cases (hstep : s.step ctx e = some s') {candidate : MerklePaymentCandidateNode H}
    (hcandidate : candidate ∈ s'.candidates) :
    candidate ∈ s.candidates ∨ ∃ reading,
      e.clientTimestamp = some candidate.merklePaymentTimestamp ∧
      ∀ pin, candidate.commitmentPin = some pin →
        s.stamping ctx e = some ⟨pin, reading⟩ ∧ s'.responder = s.responder.emit reading ∧
          ∃ built, s.responder.commitments.current = some built ∧ built.cachedHash = pin := by
  cases e with
  | respond event =>
      obtain ⟨responder, -, rfl⟩ := Option.map_eq_some_iff.mp hstep
      exact .inl hcandidate
  | createQuote content takenAt reading randomness =>
      obtain ⟨-, -, -, hcandidates, -⟩ := step_createQuote hstep
      exact .inl (hcandidates ▸ hcandidate)
  | merkleCandidateQuote request reading randomness =>
      obtain ⟨-, hresponder, -, hcandidates⟩ := step_merkleCandidateQuote hstep
      rcases hcandidates candidate hcandidate with hold | ⟨commitment, hnew⟩
      · exact .inl hold
      · obtain ⟨hsize, htimestamp, hpin⟩ := QuoteGenerator.handleMerkleCandidateQuote_success hnew
        refine .inr ⟨reading, congrArg some htimestamp.symm, fun pin hquoted => ?_⟩
        obtain ⟨hbinds, built, hcurrent, rfl⟩ := hpin pin hquoted
        have hasked : (decide (request.dataSize ≤ QuoteSigning.maxChunkSize H) &&
            ctx.generator.binds) = true := by simp [hsize, hbinds]
        rw [if_pos hasked] at hresponder
        refine ⟨?_, hresponder, built, hcurrent, rfl⟩
        rw [stamping, if_pos hasked, hcurrent]
        rfl

theorem CandidateInv.step (hinv : CandidateInv ctx s) (horder : CandidatesInOrder ctx s e)
    (hstep : s.step ctx e = some s') : CandidateInv ctx s' := by
  refine ⟨kept_step hinv.kept hstep, fun candidate hcandidate pin hpin => ?_⟩
  rcases candidates_cases hstep hcandidate with
    hold | ⟨reading, hdate, hnew⟩
  · exact covers_step (hinv.covered candidate hold pin hpin) hstep fun reading hstamping =>
      (horder ⟨pin, reading⟩ hstamping).1 candidate hold hpin
  · obtain ⟨hstamping, hresponder, built, hcurrent, rfl⟩ := hnew pin hpin
    rw [hresponder]
    exact HonestResponder.covers_emit hcurrent ((horder _ hstamping).2 _ hdate)

end QuotingNode

/-- An event of the cross-check is about the pin and the date of a candidate of the pool. -/
theorem exists_of_mem_inlineMerklePass [QuoteProtocol H] [MerkleProtocol H]
    {verifier : PaymentVerifier H} {sidecarMap : List ((H × H) × StorageCommitment H)} {now : Nat}
    {candidates : List (MerklePaymentCandidateNode H)} {event : MonetizedPinEvent H}
    (hevent : event ∈ (inlineMerklePass verifier sidecarMap now candidates).events) :
    ∃ candidate ∈ candidates, blake3 candidate.pubKey = event.peer ∧
      candidate.commitmentPin = some event.pin ∧
      systemTimeOfSecs candidate.merklePaymentTimestamp = event.quoteTs := by
  induction candidates with
  | nil => cases hevent
  | cons candidate rest ih =>
      have hlater : event ∈ (inlineMerklePass verifier sidecarMap now rest).events →
          ∃ other ∈ candidate :: rest, blake3 other.pubKey = event.peer ∧
            other.commitmentPin = some event.pin ∧
            systemTimeOfSecs other.merklePaymentTimestamp = event.quoteTs := by
        intro hevent
        obtain ⟨other, hother, hfields⟩ := ih hevent
        exact ⟨other, List.mem_cons_of_mem _ hother, hfields⟩
      rw [inlineMerklePass] at hevent
      split at hevent
      · exact hlater hevent
      · rename_i pin hpin
        have hevents : event ∈ if verifier.monetizedPinTx then
            (⟨blake3 candidate.pubKey, pin, candidate.committedKeyCount,
              systemTimeOfSecs candidate.merklePaymentTimestamp⟩ : MonetizedPinEvent H) ::
              (inlineMerklePass verifier sidecarMap now rest).events
            else (inlineMerklePass verifier sidecarMap now rest).events := by
          dsimp only at hevent
          split at hevent <;> exact hevent
        split_ifs at hevents
        · rcases List.mem_cons.mp hevents with rfl | hold
          · exact ⟨candidate, List.mem_cons_self, rfl, hpin, rfl⟩
          · exact hlater hold
        · exact hlater hevents

theorem crossCheckMerkleCandidates_events [QuoteProtocol H] [MerkleProtocol H]
    {verifier : PaymentVerifier H} {pool : MerklePaymentCandidatePool H}
    {commitmentSidecars : List Bytes} {now : Nat} :
    (crossCheckMerkleCandidates verifier pool commitmentSidecars now).events =
      (inlineMerklePass verifier (indexValidSidecars commitmentSidecars) now
        pool.candidateNodes.toList).events := by
  unfold crossCheckMerkleCandidates
  split <;> rfl

/-- **The first audit of a merkle candidate is answered**, by every auditor whose clock is at most
one skew margin behind, along every run in which no emission stamps the commitment of a candidate
with a clock reading older than the date that the client gave it. The pool holds nothing in the
name of the node that the node did not hand out. -/
theorem QuotingNode.candidate_first_audit_answered [QuoteProtocol H] [QuoteSigning H]
    [MerkleProtocol H] {ctx : QuotingContext} {s : QuotingNode H} {events : List (QuotingEvent H)}
    (horder : Along (QuotingNode.step ctx) (CandidatesInOrder ctx) start events)
    (hrun : run (QuotingNode.step ctx) start events = some s)
    {verifier : PaymentVerifier H} {pool : MerklePaymentCandidatePool H}
    {commitmentSidecars : List Bytes} {checkedAt auditorNow : Nat} {event : MonetizedPinEvent H}
    (hevent : event ∈
      (crossCheckMerkleCandidates verifier pool commitmentSidecars checkedAt).events)
    (hissued : ∀ candidate ∈ pool.candidateNodes.toList, blake3 candidate.pubKey = event.peer →
      candidate ∈ s.candidates)
    (hfew : (s.responder.stampedSince event.pin).card < maxRetainedGossipedSlots)
    (hskew : ctx.epoch + s.responder.now ≤ auditorNow + monetizedAuditSkewMargin)
    (hwindow : quoteWithinAuditWindow event.quoteTs auditorNow = true) :
    (s.responder.commitments.lookupByHash event.pin).isSome = true := by
  have hstart : CandidateInv ctx (start : QuotingNode H) :=
    ⟨HonestResponder.kept_start, fun candidate hcandidate => by cases hcandidate⟩
  have hinv : CandidateInv ctx s :=
    invariant_of_run (fun _ _ _ hinv hok hstep => hinv.step hok hstep) hstart horder hrun
  rw [crossCheckMerkleCandidates_events] at hevent
  obtain ⟨candidate, hcandidate, hpeer, hpin, hdate⟩ := exists_of_mem_inlineMerklePass hevent
  rw [← hdate] at hwindow
  exact hinv.kept.isSome_lookupByHash_of_window
    (hinv.covered candidate (hissued candidate hcandidate hpeer) event.pin hpin) hfew hskew hwindow

namespace Transcript

open QuotingNode

instance : QuoteSigning Transcript where
  bytesForSigning content timestamp price rewardsAddress keyCount pin :=
    content.bytes ++ [UInt8.ofNat timestamp, UInt8.ofNat price] ++ rewardsAddress ++
      [UInt8.ofNat keyCount] ++ pin.elim [] Transcript.bytes
  bytesToSign price rewardsAddress timestamp keyCount pin :=
    [UInt8.ofNat price] ++ rewardsAddress ++ [UInt8.ofNat timestamp, UInt8.ofNat keyCount] ++
      pin.elim [] Transcript.bytes
  maxChunkSize := 4194304

def quotingNode : QuotingContext where
  generator := ⟨[9], true, some fun _ message => 7 :: message, [7]⟩
  epoch := 1700000000 * nanosPerSec

/-- The dates a pin was quoted with, and what the responder knows of it. -/
def pinReport (pin : Transcript) (s : QuotingNode Transcript) : List Nat × Nat × Nat × Bool :=
  ((s.quotes.filter fun quote => decide (quote.commitmentPin = some pin)).map
      PaymentQuote.timestamp,
    s.responder.now, (s.responder.stampedSince pin).card,
    (s.responder.commitments.lookupByHash pin).isSome)

theorem exists_of_pinReport {s : QuotingNode Transcript} {pin : Transcript} {date now card : Nat}
    {found : Bool} (hreport : pinReport pin s = ([date], now, card, found)) :
    (∃ quote ∈ s.quotes, quote.commitmentPin = some pin ∧ quote.timestamp = date) ∧
      s.responder.now = now ∧ (s.responder.stampedSince pin).card = card ∧
      (s.responder.commitments.lookupByHash pin).isSome = found := by
  simp only [pinReport, Prod.mk.injEq] at hreport
  obtain ⟨hquotes, hnow, hcard, hfound⟩ := hreport
  refine ⟨?_, hnow, hcard, hfound⟩
  obtain ⟨quote, hquote, hdate⟩ := List.mem_map.mp (hquotes ▸ List.mem_singleton_self date)
  obtain ⟨hquote, hpin⟩ := List.mem_filter.mp hquote
  exact ⟨quote, hquote, of_decide_eq_true hpin, hdate⟩

/-- Gossip reads the clock, waits a millisecond for the lock while a quote is handed out, and stamps
the quoted commitment with what it read. -/
def overtakenQuote : List (QuotingEvent Transcript) :=
  [.respond (.rotate (solo ⟨[1]⟩)), .respond (.tick 1000000), .createQuote ⟨[5]⟩ 1000000 1000000 0,
    .respond (.emit 0), .respond .retireCurrent, .respond (.tick (gossipAnswerabilityTtl - 1000000)),
    .respond .ageOut]

/-- The responder has dropped the commitment, and an auditor thirty minutes behind still finds the
quote in its window. -/
theorem overtaken_quote_unanswered :
    ∃ s, run (QuotingNode.step quotingNode) start overtakenQuote = some s ∧
      ∃ quote ∈ s.quotes, ∃ pin, quote.commitmentPin = some pin ∧
        (s.responder.stampedSince pin).card < maxRetainedGossipedSlots ∧
        ∃ auditorNow, quotingNode.epoch + s.responder.now ≤ auditorNow + monetizedAuditSkewMargin ∧
          auditorNow ≤ quotingNode.epoch + s.responder.now + monetizedAuditSkewMargin ∧
          quoteWithinAuditWindow quote.timestamp auditorNow = true ∧
          (s.responder.commitments.lookupByHash pin).isSome = false := by
  have hreport : (run (QuotingNode.step quotingNode) start overtakenQuote).map
      (pinReport (solo ⟨[1]⟩).cachedHash) =
        some ([quotingNode.epoch + 1000000], gossipAnswerabilityTtl, 0, false) := by
    decide +kernel
  obtain ⟨s, hrun, hreport⟩ := Option.map_eq_some_iff.mp hreport
  obtain ⟨⟨quote, hquote, hpin, hdate⟩, hnow, hcard, hlookup⟩ := exists_of_pinReport hreport
  refine ⟨s, hrun, quote, hquote, _, hpin, by rw [hcard]; decide,
    quotingNode.epoch + gossipAnswerabilityTtl - monetizedAuditSkewMargin, ?_, ?_, ?_, hlookup⟩
  · rw [hnow]
    decide
  · rw [hnow]
    decide
  · rw [hdate]
    decide

/-- The quoted commitment is gossiped once more, rotated past and retired. -/
def quotedThenRetired : List (QuotingEvent Transcript) :=
  [.respond (.rotate (solo ⟨[1]⟩)), .respond (.tick nanosPerSec),
    .createQuote ⟨[5]⟩ nanosPerSec nanosPerSec 0, .respond (.emit nanosPerSec),
    .respond (.rotate (solo ⟨[2]⟩)), .respond (.emit nanosPerSec), .respond .retireCurrent,
    .respond (.tick (gossipAnswerabilityTtl - nanosPerSec)), .respond .ageOut]

theorem quote_first_audit_answered_retired :
    ∃ s, run (QuotingNode.step quotingNode) start quotedThenRetired = some s ∧
      ∃ quote ∈ s.quotes, quote.commitmentPin = some (solo ⟨[1]⟩).cachedHash ∧
        quoteWithinAuditWindow quote.timestamp
          (quotingNode.epoch + gossipAnswerabilityTtl - monetizedAuditSkewMargin) = true ∧
        (s.responder.commitments.lookupByHash (solo ⟨[1]⟩).cachedHash).isSome = true := by
  have hreport : (run (QuotingNode.step quotingNode) start quotedThenRetired).map
      (pinReport (solo ⟨[1]⟩).cachedHash) =
        some ([quotingNode.epoch + nanosPerSec], gossipAnswerabilityTtl, 1, true) := by
    decide +kernel
  have horder : Along (QuotingNode.step quotingNode) (QuotesInOrder quotingNode) start
      quotedThenRetired := by
    decide +kernel
  obtain ⟨s, hrun, hreport⟩ := Option.map_eq_some_iff.mp hreport
  obtain ⟨⟨quote, hquote, hpin, hdate⟩, hnow, hcard, -⟩ := exists_of_pinReport hreport
  have hwindow : quoteWithinAuditWindow quote.timestamp
      (quotingNode.epoch + gossipAnswerabilityTtl - monetizedAuditSkewMargin) = true := by
    rw [hdate]
    decide
  refine ⟨s, hrun, quote, hquote, hpin, hwindow, ?_⟩
  exact quote_first_audit_answered horder hrun quote hquote _ hpin (by rw [hcard]; decide) _
    (by rw [hnow]; decide) hwindow

/-- The candidate `quotingNode` hands out for a date while it advertises the key 1. -/
def candidateDated (secs : Nat) : MerklePaymentCandidateNode Transcript where
  pubKey := [7]
  price := 1
  rewardAddress := [9]
  merklePaymentTimestamp := secs
  committedKeyCount := 1
  commitmentPin := some (solo ⟨[1]⟩).cachedHash
  signature := 7 :: QuoteSigning.bytesToSign 1 [9] secs 1 (some (solo ⟨[1]⟩).cachedHash)

def poolDated (secs : Nat) : MerklePaymentCandidatePool Transcript :=
  ⟨[], Vector.replicate candidatesPerPool (candidateDated secs)⟩

/-- The candidate is handed out at once, the commitment is retired, and `elapsed` goes by. -/
def candidateThenRetired (secs elapsed : Nat) : List (QuotingEvent Transcript) :=
  [.respond (.rotate (solo ⟨[1]⟩)), .merkleCandidateQuote ⟨1, secs⟩ 0 0, .respond .retireCurrent,
    .respond (.tick elapsed), .respond .ageOut]

def candidateEvent (secs : Nat) : MonetizedPinEvent Transcript :=
  ⟨blake3 [7], (solo ⟨[1]⟩).cachedHash, 1, systemTimeOfSecs secs⟩

/-- A client has a candidate dated two hours ahead and pays when it is three hours old. The responder
has dropped the commitment, and the auditor, whose clock is the responder's, takes the candidate for
one hour old. -/
theorem future_candidate_unanswered :
    ∃ s, run (QuotingNode.step quotingNode) start
        (candidateThenRetired 1700007200 gossipAnswerabilityTtl) = some s ∧
      (∀ candidate ∈ (poolDated 1700007200).candidateNodes.toList, candidate ∈ s.candidates) ∧
      ∃ event ∈ (crossCheckMerkleCandidates payingVerifier (poolDated 1700007200) [] 0).events,
        (s.responder.stampedSince event.pin).card < maxRetainedGossipedSlots ∧
        quoteWithinAuditWindow event.quoteTs (quotingNode.epoch + s.responder.now) = true ∧
        (s.responder.commitments.lookupByHash event.pin).isSome = false := by
  have hreport : (run (QuotingNode.step quotingNode) start
      (candidateThenRetired 1700007200 gossipAnswerabilityTtl)).map
      (fun s => (s.candidates, pinReport (solo ⟨[1]⟩).cachedHash s)) =
        some ([candidateDated 1700007200], [], gossipAnswerabilityTtl, 0, false) := by
    decide +kernel
  have hevent : candidateEvent 1700007200 ∈
      (crossCheckMerkleCandidates payingVerifier (poolDated 1700007200) [] 0).events := by
    decide +kernel
  obtain ⟨s, hrun, hreport⟩ := Option.map_eq_some_iff.mp hreport
  simp only [pinReport, Prod.mk.injEq] at hreport
  obtain ⟨hcandidates, -, hnow, hcard, hlookup⟩ := hreport
  refine ⟨s, hrun, fun candidate hcandidate => ?_, _, hevent, ?_, ?_, hlookup⟩
  · rw [hcandidates]
    simpa [poolDated, candidatesPerPool] using hcandidate
  · rw [candidateEvent, hcard]
    decide
  · rw [candidateEvent, hnow]
    decide

theorem candidate_first_audit_answered_retired :
    ∃ s, run (QuotingNode.step quotingNode) start
        (candidateThenRetired 1700000000 (7200 * nanosPerSec)) = some s ∧
      quoteWithinAuditWindow (candidateEvent 1700000000).quoteTs
        (quotingNode.epoch + s.responder.now) = true ∧
      (s.responder.commitments.lookupByHash (candidateEvent 1700000000).pin).isSome = true := by
  have hreport : (run (QuotingNode.step quotingNode) start
      (candidateThenRetired 1700000000 (7200 * nanosPerSec))).map
      (fun s => (s.candidates, pinReport (solo ⟨[1]⟩).cachedHash s)) =
        some ([candidateDated 1700000000], [], 7200 * nanosPerSec, 0, true) := by
    decide +kernel
  have horder : Along (QuotingNode.step quotingNode) (CandidatesInOrder quotingNode) start
      (candidateThenRetired 1700000000 (7200 * nanosPerSec)) := by
    decide +kernel
  have hevent : candidateEvent 1700000000 ∈
      (crossCheckMerkleCandidates payingVerifier (poolDated 1700000000) [] 0).events := by
    decide +kernel
  obtain ⟨s, hrun, hreport⟩ := Option.map_eq_some_iff.mp hreport
  simp only [pinReport, Prod.mk.injEq] at hreport
  obtain ⟨hcandidates, -, hnow, hcard, -⟩ := hreport
  have hwindow : quoteWithinAuditWindow (candidateEvent 1700000000).quoteTs
      (quotingNode.epoch + s.responder.now) = true := by
    rw [hnow]
    decide
  have hissued : ∀ candidate ∈ (poolDated 1700000000).candidateNodes.toList,
      blake3 candidate.pubKey = (candidateEvent 1700000000).peer → candidate ∈ s.candidates := by
    intro candidate hcandidate _
    rw [hcandidates]
    simpa [poolDated, candidatesPerPool] using hcandidate
  refine ⟨s, hrun, hwindow, candidate_first_audit_answered horder hrun hevent hissued ?_
    (Nat.le_add_right _ _) hwindow⟩
  rw [candidateEvent, hcard]
  decide

end Transcript

end AntNode
