import AntNode.Downgrade
import AntNode.Proof.AuditWindow

/-!
# What a downgrade makes the auditor audit

The auditor counts the answerability window from when it received the commitment and the responder
from when it last stamped it. So a downgrade is audited for as long as the commitment was on its way
after the responder has stopped answering, and never after that exactly when the commitment reached
the auditor no later than its last stamp.
-/

namespace AntNode

open Runs ResponderCommitmentState

variable {H : Type} [Digest H] [CommitmentProtocol H]

/-! ### Stamps and their slots -/

/-- Every stamp is the last one of its hash, and its slot is there. -/
def StampsHeld (lastStamp : H → Option (LastStamp H)) (inner : ResponderCommitmentState H) : Prop :=
  ∀ g ∈ inner.recentlyGossiped,
    (∃ last, lastStamp g.hash = some last ∧
      g.expiresAt = last.readAt + gossipAnswerabilityTtl) ∧
    ∃ built ∈ inner.slots, built.cachedHash = g.hash

theorem StampsHeld.pruneSlots {lastStamp : H → Option (LastStamp H)}
    {inner : ResponderCommitmentState H} (hheld : StampsHeld lastStamp inner) (now : Nat) :
    StampsHeld lastStamp (inner.pruneSlots now) := by
  intro g hg
  obtain ⟨hg, hlive⟩ := List.mem_filter.mp hg
  obtain ⟨hlast, built, hbuilt, hhash⟩ := hheld g hg
  exact ⟨hlast, built, mem_pruneSlots hbuilt hg hhash.symm (of_decide_eq_true hlive), hhash⟩

theorem StampsHeld.rotate {lastStamp : H → Option (LastStamp H)}
    {inner : ResponderCommitmentState H} (hheld : StampsHeld lastStamp inner)
    (newCurrent : BuiltCommitment H) (now : Nat) :
    StampsHeld lastStamp (inner.rotate newCurrent now) := by
  refine StampsHeld.pruneSlots (fun g hg => ?_) now
  obtain ⟨hlast, built, hbuilt, hhash⟩ := hheld g hg
  exact ⟨hlast, built, List.mem_cons_of_mem _ hbuilt, hhash⟩

theorem StampsHeld.markGossipedLocked {lastStamp : H → Option (LastStamp H)}
    {inner : ResponderCommitmentState H} (hheld : StampsHeld lastStamp inner)
    {current : BuiltCommitment H} (hcurrent : current ∈ inner.slots) (reading : Nat) :
    StampsHeld (HonestResponder.noteStamp lastStamp current.cachedHash reading)
      (inner.markGossipedLocked current.cachedHash reading) := by
  refine StampsHeld.pruneSlots (fun g hg => ?_) reading
  rcases List.mem_cons.mp (List.mem_of_mem_take hg) with rfl | hold
  · exact ⟨⟨⟨reading, ∅⟩, by simp [HonestResponder.noteStamp], rfl⟩, current, hcurrent, rfl⟩
  · obtain ⟨hold, hne⟩ := List.mem_filter.mp hold
    have hne : g.hash ≠ current.cachedHash := of_decide_eq_true hne
    obtain ⟨⟨last, hlast, hexpires⟩, hslot⟩ := hheld g hold
    refine ⟨⟨{ last with since := insert current.cachedHash last.since }, ?_, hexpires⟩, hslot⟩
    simp [HonestResponder.noteStamp, hne, hlast]

namespace HonestResponder

variable {r r' : HonestResponder H} {hash : H}

theorem stampsHeld_emit (hheld : StampsHeld r.lastStamp r.commitments) (reading : Nat) :
    StampsHeld (r.emit reading).lastStamp (r.emit reading).commitments := by
  cases hcurrent : r.commitments.current with
  | none => simpa [emit, snapshotAndStamp, hcurrent] using hheld
  | some built =>
      simpa [emit, snapshotAndStamp, hcurrent] using
        hheld.markGossipedLocked (mem_slots_of_current hcurrent) reading

theorem stampsHeld_step (hheld : StampsHeld r.lastStamp r.commitments)
    {event : ResponderEvent H} (hstep : r.step event = some r') :
    StampsHeld r'.lastStamp r'.commitments := by
  cases event with
  | tick elapsed =>
      cases hstep
      exact hheld
  | rotate newCurrent =>
      cases hstep
      exact hheld.rotate newCurrent r.now
  | retireCurrent =>
      cases hstep
      have hretired : StampsHeld r.lastStamp { r.commitments with hasCurrent := false } :=
        fun g hg => hheld g hg
      exact hretired.pruneSlots r.now
  | ageOut =>
      cases hstep
      exact hheld.pruneSlots r.now
  | emit reading =>
      rw [step] at hstep
      split_ifs at hstep
      cases hstep
      exact stampsHeld_emit hheld reading

theorem isSome_lastStamp_emit (hstamped : (r.lastStamp hash).isSome = true) (reading : Nat) :
    ((r.emit reading).lastStamp hash).isSome = true := by
  cases hcurrent : r.commitments.current with
  | none => simpa [emit, hcurrent] using hstamped
  | some built =>
      simp only [emit, hcurrent, noteStamp]
      split_ifs
      · rfl
      · rwa [Option.isSome_map]

theorem isSome_lastStamp_step (hstamped : (r.lastStamp hash).isSome = true)
    {event : ResponderEvent H} (hstep : r.step event = some r') :
    (r'.lastStamp hash).isSome = true := by
  cases event with
  | emit reading =>
      rw [step] at hstep
      split_ifs at hstep
      cases hstep
      exact isSome_lastStamp_emit hstamped reading
  | tick elapsed =>
      cases hstep
      exact hstamped
  | rotate newCurrent =>
      cases hstep
      exact hstamped
  | retireCurrent =>
      cases hstep
      exact hstamped
  | ageOut =>
      cases hstep
      exact hstamped

theorem isSome_lastStamp_current {built : BuiltCommitment H}
    (hcurrent : r.commitments.current = some built) (reading : Nat) :
    ((r.emit reading).lastStamp built.cachedHash).isSome = true := by
  simp [emit, hcurrent, noteStamp]

end HonestResponder

/-! ### The auditor's record -/

theorem cachedForDowngrade_eq_some {rec : CapablePeerRecord H} {now : Nat} {target : AuditTarget H}
    {fresh : Bool} (hcached : cachedForDowngrade rec now = some (target, fresh)) :
    rec.commitmentCapable = true ∧ rec.cachedHash = some target.pinHash ∧
      fresh = decide (now - rec.receivedAt < gossipAnswerabilityTtl) := by
  unfold cachedForDowngrade at hcached
  split_ifs at hcached with hcapable
  obtain ⟨last, -, hcached⟩ := Option.bind_eq_some_iff.mp hcached
  obtain ⟨pin, hpin, hcached⟩ := Option.bind_eq_some_iff.mp hcached
  obtain ⟨rfl, rfl⟩ := Prod.mk.inj (Option.some.inj hcached)
  exact ⟨hcapable, hpin, rfl⟩

theorem exists_cachedForDowngrade {rec : CapablePeerRecord H} {pin : H} (now : Nat)
    (hcapable : rec.commitmentCapable = true) (hpin : rec.cachedHash = some pin) :
    ∃ keyCount, cachedForDowngrade rec now =
      some (⟨pin, keyCount⟩, decide (now - rec.receivedAt < gossipAnswerabilityTtl)) := by
  obtain ⟨last, hlast, -⟩ := Option.bind_eq_some_iff.mp (rec.cachedHash_eq.symm.trans hpin)
  exact ⟨last.keyCount, by simp [cachedForDowngrade, hcapable, hlast, hpin]⟩

/-- What a downgrade returns is the pin of a record that counts as fresh. -/
theorem exists_of_handleCommitmentDowngrade {record record' : Option (CapablePeerRecord H)}
    {now : Nat} {target : AuditTarget H}
    (hdowngrade : handleCommitmentDowngrade record now = (some target, record')) :
    ∃ rec, record = some rec ∧ rec.commitmentCapable = true ∧
      rec.cachedHash = some target.pinHash ∧ now - rec.receivedAt < gossipAnswerabilityTtl := by
  unfold handleCommitmentDowngrade at hdowngrade
  split at hdowngrade
  · rename_i cached hcached
    cases hdowngrade
    obtain ⟨rec, hrec, hcached⟩ := Option.bind_eq_some_iff.mp hcached
    obtain ⟨hcapable, hpin, hfresh⟩ := cachedForDowngrade_eq_some hcached
    exact ⟨rec, hrec, hcapable, hpin, of_decide_eq_true hfresh.symm⟩
  · cases hdowngrade
  · cases hdowngrade

theorem exists_target_of_fresh {rec : CapablePeerRecord H} {pin : H} {now : Nat}
    (hcapable : rec.commitmentCapable = true) (hpin : rec.cachedHash = some pin)
    (hfresh : now - rec.receivedAt < gossipAnswerabilityTtl) :
    ∃ keyCount, handleCommitmentDowngrade (some rec) now = (some ⟨pin, keyCount⟩, some rec) := by
  obtain ⟨keyCount, hcached⟩ := exists_cachedForDowngrade now hcapable hpin
  exact ⟨keyCount, by simp [handleCommitmentDowngrade, hcached, hfresh]⟩

/-- A record's pin is the one it had or that of the commitment just taken in. -/
theorem cachedHash_of_ingest {source : H} {commitment : Option (StorageCommitment H)}
    {inRoutingTable rateOk : Bool} {record : Option (CapablePeerRecord H)} {now : Nat}
    {rec : CapablePeerRecord H} {pin : H}
    (hrec : (ingestPeerCommitment source commitment inRoutingTable rateOk record now).2 = some rec)
    (hpin : rec.cachedHash = some pin) :
    (∃ old, record = some old ∧ old.cachedHash = some pin) ∨
      ∃ c, commitment = some c ∧ commitmentHash c = some pin := by
  cases commitment with
  | none =>
      left
      rw [ingestPeerCommitment, handleCommitmentDowngrade] at hrec
      split at hrec
      · exact ⟨rec, hrec, hpin⟩
      · obtain ⟨old, -, rfl⟩ := Option.map_eq_some_iff.mp hrec
        cases hpin
      · exact ⟨rec, hrec, hpin⟩
  | some c =>
      rw [ingestPeerCommitment] at hrec
      split_ifs at hrec
      iterate 5 exact .inl ⟨rec, hrec, hpin⟩
      right
      cases record with
      | none =>
          cases hrec
          exact ⟨c, rfl, hpin⟩
      | some old =>
          cases hrec
          exact ⟨c, rfl, hpin⟩

namespace DowngradeAudit

variable {peerId : H} {s s' : DowngradeAudit H} {e : DowngradeEvent H}

/-- Stamps have their slots, and every commitment on its way or on record has been stamped. -/
structure Inv (s : DowngradeAudit H) : Prop where
  held : StampsHeld s.responder.lastStamp s.responder.commitments
  flight : ∀ gossip ∈ s.flight, ∀ c pin, gossip.commitment = some c → commitmentHash c = some pin →
    (s.responder.lastStamp pin).isSome = true
  record : ∀ rec pin, s.record = some rec → rec.cachedHash = some pin →
    (s.responder.lastStamp pin).isSome = true

theorem inv_start : Inv (start : DowngradeAudit H) where
  held g hg := by cases hg
  flight gossip hgossip := by cases hgossip
  record rec pin hrec := by cases hrec

theorem Inv.respond (hinv : Inv s) {responder : HonestResponder H}
    (hheld : StampsHeld responder.lastStamp responder.commitments)
    (hstamped : ∀ pin, (s.responder.lastStamp pin).isSome = true →
      (responder.lastStamp pin).isSome = true) : Inv { s with responder := responder } where
  held := hheld
  flight gossip hgossip c pin hc hpin := hstamped pin (hinv.flight gossip hgossip c pin hc hpin)
  record rec pin hrec hpin := hstamped pin (hinv.record rec pin hrec hpin)

theorem Inv.gossip (hinv : Inv s) (reading sentAt : Nat) :
    Inv { s with
      responder := s.responder.emit reading
      flight := s.flight ++ [⟨(s.responder.commitments.currentForGossip reading).2.map
        BuiltCommitment.commitment, sentAt⟩] } := by
  have hresponder := hinv.respond (HonestResponder.stampsHeld_emit hinv.held reading)
    fun pin hstamped => HonestResponder.isSome_lastStamp_emit hstamped reading
  refine ⟨hresponder.held, fun gossip hgossip c pin hc hpin => ?_, hresponder.record⟩
  rcases List.mem_append.mp hgossip with hold | hnew
  · exact hresponder.flight gossip hold c pin hc hpin
  · rw [List.mem_singleton] at hnew
    subst hnew
    obtain ⟨built, hbuilt, rfl⟩ := Option.map_eq_some_iff.mp hc
    have hcurrent : s.responder.commitments.current = some built := by
      unfold currentForGossip snapshotAndStamp at hbuilt
      split at hbuilt
      · cases hbuilt
      · rename_i current hcurrent
        cases hbuilt
        exact hcurrent
    obtain rfl : built.cachedHash = pin := Option.some.inj (built.hash_eq.symm.trans hpin)
    exact HonestResponder.isSome_lastStamp_current hcurrent reading

theorem Inv.step (hinv : Inv s) (hstep : s.step peerId e = some s') : Inv s' := by
  cases e with
  | respond event =>
      obtain ⟨responder, hresponder, rfl⟩ := Option.map_eq_some_iff.mp hstep
      exact hinv.respond (HonestResponder.stampsHeld_step hinv.held hresponder) fun pin hstamped =>
        HonestResponder.isSome_lastStamp_step hstamped hresponder
  | gossip reading =>
      rw [DowngradeAudit.step] at hstep
      split_ifs at hstep
      cases hstep
      exact hinv.gossip reading s.responder.now
  | receive index reading inRoutingTable rateOk =>
      rw [DowngradeAudit.step] at hstep
      split at hstep
      · cases hstep
      · rename_i gossip hgossip
        split_ifs at hstep
        cases hstep
        refine ⟨hinv.held, fun other hother => hinv.flight other (List.mem_of_mem_eraseIdx hother),
          fun rec pin hrec hpin => ?_⟩
        rcases cachedHash_of_ingest hrec hpin with ⟨old, hold, hpin⟩ | ⟨c, hc, hpin⟩
        · exact hinv.record old pin hold hpin
        · exact hinv.flight gossip (List.mem_of_getElem? hgossip) c pin hc hpin
  | forget =>
      cases hstep
      exact ⟨hinv.held, hinv.flight, fun rec pin hrec => by cases hrec⟩

/-! ### Downgrades -/

/-- Whenever gossip without a commitment comes next, the responder still owes an answer for what the
auditor then audits: its last stamp has not lapsed, and it is found even if `age_out` just ran. -/
def DowngradesOwed (s : DowngradeAudit H) : Prop :=
  ∀ elapsed target record,
    handleCommitmentDowngrade s.record (s.responder.now + elapsed) = (some target, record) →
    s.Retired target.pinHash →
    ∃ last, s.responder.lastStamp target.pinHash = some last ∧
      s.responder.now + elapsed < last.readAt + gossipAnswerabilityTtl ∧
      ((s.responder.commitments.ageOut (s.responder.now + elapsed)).lookupByHash
        target.pinHash).isSome = true

/-- The commitment the auditor keeps is stale, or it was received no later than the responder last
stamped it and its stamp has not been pushed out by others. -/
def ReceivedByLastStamp (s : DowngradeAudit H) : Prop :=
  ∀ rec pin last, s.record = some rec → rec.commitmentCapable = true →
    rec.cachedHash = some pin → s.Retired pin → s.responder.lastStamp pin = some last →
    rec.receivedAt + gossipAnswerabilityTtl ≤ s.responder.now ∨
      rec.receivedAt ≤ last.readAt ∧
        ∃ g ∈ s.responder.commitments.recentlyGossiped, g.hash = pin

/-- A retired commitment that outlives `age_out` does so for its stamp. -/
theorem exists_stamp_of_retired {pin : H} {now : Nat} (hretired : s.Retired pin)
    (hfound : ((s.responder.commitments.ageOut now).lookupByHash pin).isSome = true) :
    ∃ g ∈ s.responder.commitments.recentlyGossiped, g.hash = pin := by
  obtain ⟨built, hbuilt⟩ := Option.isSome_iff_exists.mp hfound
  unfold lookupByHash at hbuilt
  have hhash : built.cachedHash = pin := by simpa using List.find?_some hbuilt
  rcases mem_live_or_head?_of_mem_retainSlots (List.mem_of_find?_eq_some hbuilt) with
    hlive | ⟨hcurrent, hhead⟩
  · obtain ⟨g, hg, hstamp⟩ := List.mem_map.mp hlive
    exact ⟨g, List.mem_of_mem_filter hg, hstamp.trans hhash⟩
  · have hadvertised : s.responder.commitments.current = some built := by
      rw [current, if_pos hcurrent, hhead]
    exact absurd hhash (hretired built hadvertised)

theorem Inv.isSome_lookupByHash_ageOut (hinv : Inv s) {g : GossipedAt H}
    (hg : g ∈ s.responder.commitments.recentlyGossiped) {now : Nat} (hlive : now < g.expiresAt) :
    ((s.responder.commitments.ageOut now).lookupByHash g.hash).isSome = true := by
  obtain ⟨-, built, hbuilt, hhash⟩ := hinv.held g hg
  obtain ⟨found, hfound, -⟩ :=
    Answerable.isSome_lookupByHash (mem_pruneSlots hbuilt hg hhash.symm hlive)
  rw [← hhash, ageOut, hfound]
  rfl

/-- **A downgrade is audited only while the commitment is owed** exactly where the commitment took no
time from its last stamp to the auditor and the stamp was not pushed out, in every state of every
run. -/
theorem downgradesOwed_iff {events : List (DowngradeEvent H)}
    (hrun : run (DowngradeAudit.step peerId) start events = some s) :
    s.DowngradesOwed ↔ s.ReceivedByLastStamp := by
  have hinv : Inv s := stable_of_run Inv (fun _ _ _ hinv hstep => hinv.step hstep) inv_start hrun
  constructor
  · intro howed rec pin last hrec hcapable hpin hretired hlast
    rw [or_iff_not_imp_left, not_le]
    intro hfresh
    have hpos : 0 < gossipAnswerabilityTtl := by decide
    have howed : ∀ elapsed,
        s.responder.now + elapsed - rec.receivedAt < gossipAnswerabilityTtl →
        s.responder.now + elapsed < last.readAt + gossipAnswerabilityTtl ∧
          ((s.responder.commitments.ageOut (s.responder.now + elapsed)).lookupByHash
            pin).isSome = true := by
      intro elapsed hfresh
      obtain ⟨keyCount, htarget⟩ := exists_target_of_fresh hcapable hpin hfresh
      rw [← hrec] at htarget
      obtain ⟨last', hlast', howed⟩ := howed _ _ _ htarget hretired
      obtain rfl : last = last' := Option.some.inj (hlast.symm.trans hlast')
      exact howed
    constructor
    · -- Otherwise the auditor's window outlasts the responder's, and a downgrade that comes as soon
      -- as the latter ends is audited.
      by_contra hlate
      have hlive := (howed (last.readAt + gossipAnswerabilityTtl - s.responder.now) (by omega)).1
      omega
    · exact exists_stamp_of_retired hretired (howed 0 (by omega)).2
  · intro hreceived elapsed target record htarget hretired
    obtain ⟨rec, hrec, hcapable, hpin, hfresh⟩ := exists_of_handleCommitmentDowngrade htarget
    obtain ⟨last, hlast⟩ := Option.isSome_iff_exists.mp (hinv.record rec _ hrec hpin)
    rcases hreceived rec _ last hrec hcapable hpin hretired hlast with
      hstale | ⟨hprompt, g, hg, hhash⟩
    · omega
    · obtain ⟨⟨last', hlast', hexpires⟩, -⟩ := hinv.held g hg
      obtain rfl : last = last' := Option.some.inj (hlast.symm.trans (hhash ▸ hlast'))
      have hlive : s.responder.now + elapsed < last.readAt + gossipAnswerabilityTtl := by omega
      refine ⟨last, hlast, hlive, ?_⟩
      rw [← hhash]
      exact hinv.isSome_lookupByHash_ageOut hg (hexpires ▸ hlive)

end DowngradeAudit

namespace Transcript

open DowngradeAudit

/-- A commitment that took `transit` to the auditor is retired, and gossip without one follows. -/
def gossipedThenRetired (transit elapsed : Nat) : List (DowngradeEvent Transcript) :=
  [.respond (.rotate (solo ⟨[1]⟩)), .gossip 0, .respond (.tick transit),
    .receive 0 transit true true, .respond .retireCurrent, .gossip transit,
    .respond (.tick elapsed), .respond .ageOut]

/-- What the two sides know of the commitment to the key 1. -/
structure DowngradeReport where
  now : Nat
  received : Option (Nat × Option Transcript)
  target : Option (AuditTarget Transcript)
  lastReadAt : Option Nat
  since : Nat
  retired : Bool
  found : Bool
  stamps : List Transcript
  flight : List (Bool × Nat)
  deriving DecidableEq

def downgradeReport (s : DowngradeAudit Transcript) : DowngradeReport where
  now := s.responder.now
  received := s.record.map fun rec => (rec.receivedAt, rec.cachedHash)
  target := (handleCommitmentDowngrade s.record s.responder.now).1
  lastReadAt := (s.responder.lastStamp (solo ⟨[1]⟩).cachedHash).map LastStamp.readAt
  since := (s.responder.stampedSince (solo ⟨[1]⟩).cachedHash).card
  retired := s.responder.commitments.current.isNone
  found := (s.responder.commitments.lookupByHash (solo ⟨[1]⟩).cachedHash).isSome
  stamps := s.responder.commitments.recentlyGossiped.map GossipedAt.hash
  flight := s.flight.map fun gossip => (gossip.commitment.isNone, gossip.sentAt)

/-- One second on its way, and gossip without a commitment that arrives three hours after the last
stamp has the auditor audit a commitment the responder has dropped. -/
theorem lapsed_root_audited :
    ∃ s, run (DowngradeAudit.step ⟨[7]⟩) start
        (gossipedThenRetired nanosPerSec (gossipAnswerabilityTtl - nanosPerSec)) = some s ∧
      (∃ gossip ∈ s.flight, gossip.commitment = none ∧ gossip.sentAt ≤ s.responder.now) ∧
      ∃ target, (handleCommitmentDowngrade s.record s.responder.now).1 = some target ∧
        s.Retired target.pinHash ∧
        (s.responder.stampedSince target.pinHash).card < maxRetainedGossipedSlots ∧
        (∀ last, s.responder.lastStamp target.pinHash = some last →
          last.readAt + gossipAnswerabilityTtl ≤ s.responder.now) ∧
        (s.responder.commitments.lookupByHash target.pinHash).isSome = false := by
  have hreport : (run (DowngradeAudit.step ⟨[7]⟩) start
      (gossipedThenRetired nanosPerSec (gossipAnswerabilityTtl - nanosPerSec))).map
      downgradeReport = some
        { now := gossipAnswerabilityTtl
          received := some (nanosPerSec, some (solo ⟨[1]⟩).cachedHash)
          target := some ⟨(solo ⟨[1]⟩).cachedHash, 1⟩
          lastReadAt := some 0
          since := 0
          retired := true
          found := false
          stamps := []
          flight := [(true, nanosPerSec)] } := by
    decide +kernel
  obtain ⟨s, hrun, hreport⟩ := Option.map_eq_some_iff.mp hreport
  simp only [downgradeReport, DowngradeReport.mk.injEq] at hreport
  obtain ⟨hnow, -, htarget, hlast, hcard, hcurrent, hlookup, -, hflight⟩ := hreport
  refine ⟨s, hrun, ?_, _, htarget, ?_, by rw [hcard]; decide, ?_, hlookup⟩
  · obtain ⟨gossip, hgossip, hfields⟩ :=
      List.mem_map.mp (hflight ▸ List.mem_singleton_self (true, nanosPerSec))
    obtain ⟨hnone, hsent⟩ := Prod.mk.inj hfields
    refine ⟨gossip, hgossip, Option.isNone_iff_eq_none.mp hnone, ?_⟩
    rw [hsent, hnow]
    decide
  · intro built hbuilt
    rw [Option.isNone_iff_eq_none.mp hcurrent] at hbuilt
    cases hbuilt
  · intro last hstamp
    rw [hstamp] at hlast
    obtain hread : last.readAt = 0 := Option.some.inj hlast
    rw [hread, hnow, Nat.zero_add]

theorem downgradesOwed_iff_prompt :
    ∃ s, run (DowngradeAudit.step ⟨[7]⟩) start
        (gossipedThenRetired 0 (3600 * nanosPerSec)) = some s ∧
      (handleCommitmentDowngrade s.record s.responder.now).1 =
        some ⟨(solo ⟨[1]⟩).cachedHash, 1⟩ ∧ s.DowngradesOwed := by
  have hreport : (run (DowngradeAudit.step ⟨[7]⟩) start
      (gossipedThenRetired 0 (3600 * nanosPerSec))).map downgradeReport = some
        { now := 3600 * nanosPerSec
          received := some (0, some (solo ⟨[1]⟩).cachedHash)
          target := some ⟨(solo ⟨[1]⟩).cachedHash, 1⟩
          lastReadAt := some 0
          since := 0
          retired := true
          found := true
          stamps := [(solo ⟨[1]⟩).cachedHash]
          flight := [(true, 0)] } := by
    decide +kernel
  obtain ⟨s, hrun, hreport⟩ := Option.map_eq_some_iff.mp hreport
  simp only [downgradeReport, DowngradeReport.mk.injEq] at hreport
  obtain ⟨-, hrecord, htarget, -, -, -, -, hstamps, -⟩ := hreport
  refine ⟨s, hrun, htarget, (downgradesOwed_iff hrun).mpr ?_⟩
  intro rec pin last hrec _ hpin _ _
  rw [hrec] at hrecord
  obtain ⟨hreceived, hhash⟩ := Prod.mk.inj (Option.some.inj hrecord)
  obtain rfl : pin = _ := Option.some.inj (hpin.symm.trans hhash)
  refine .inr ⟨?_, List.mem_map.mp (hstamps ▸ List.mem_singleton_self _)⟩
  rw [hreceived]
  exact Nat.zero_le _

end Transcript

end AntNode
