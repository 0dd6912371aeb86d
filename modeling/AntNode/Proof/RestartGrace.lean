import AntNode.Proof.RetentionLife

/-!
# How long restarts keep a stamp alive

A restart reloads every deadline with the grace added, and what the next snapshot persists is that
deadline. Only a restart that meets a deadline no earlier restart has moved keeps it within one
window and one grace of the stamp; two of them, far enough apart, do not.
-/

namespace AntNode

open Runs ResponderCommitmentState

variable {H : Type} [Digest H] [CommitmentProtocol H]

namespace LifeEvent

/-- The hash the event stamps. -/
def stamped? (p : RetentionProcess H) : LifeEvent H → Option H
  | .call op => p.state.stampedBy ⟨p.clock.mono, op⟩
  | _ => none

/-- No restart meets a deadline of `hash` that was moved before: what the snapshot persists is at
most one window after the stamp at `stampedAt`. A deadline that lapsed more than the grace ago is
not reloaded, and before any time has passed the clamp leaves it where it is. -/
def Unextended (stampedAt : Nat) (hash : H) (p : RetentionProcess H) : LifeEvent H → Prop
  | .restart downtime _ => ∀ g ∈ p.state.recentlyGossiped, g.hash = hash →
      ∀ expiresUnix, expiryToUnix g.expiresAt p.clock = some expiresUnix →
        expiresUnix * nanosPerSec ≤ stampedAt + gossipAnswerabilityTtl ∨
        expiresUnix * nanosPerSec + restartStampGrace ≤ p.clock.wall + downtime ∨
        p.clock.wall + downtime ≤ stampedAt
  | _ => True

end LifeEvent

namespace ResponderCommitmentState

/-- A call leaves the stamps it finds, or fewer, besides the one it makes. -/
theorem mem_stamps_call {state : ResponderCommitmentState H} {c : Call H} {g : GossipedAt H}
    (hg : g ∈ (state.call c).1.recentlyGossiped) :
    state.stampedBy c = some g.hash ∧ g.expiresAt = c.now + gossipAnswerabilityTtl ∨
      state.stampedBy c ≠ some g.hash ∧ g ∈ state.recentlyGossiped := by
  have hmark : ∀ hash, g ∈ (state.markGossipedLocked hash c.now).recentlyGossiped →
      some hash = some g.hash ∧ g.expiresAt = c.now + gossipAnswerabilityTtl ∨
        some hash ≠ some g.hash ∧ g ∈ state.recentlyGossiped := by
    intro hash hg
    rcases MoveToFront.mem_push (List.mem_of_mem_filter hg) with rfl | ⟨hold, hne⟩
    · exact .inl ⟨rfl, rfl⟩
    · exact .inr ⟨fun hsame => hne (Option.some.inj hsame).symm, hold⟩
  have hemit : g ∈ (state.snapshotAndStamp c.now).1.recentlyGossiped →
      state.current.map BuiltCommitment.cachedHash = some g.hash ∧
          g.expiresAt = c.now + gossipAnswerabilityTtl ∨
        state.current.map BuiltCommitment.cachedHash ≠ some g.hash ∧
          g ∈ state.recentlyGossiped := by
    intro hg
    unfold snapshotAndStamp at hg
    cases hcurrent : state.current with
    | none =>
        rw [hcurrent] at hg
        exact .inr ⟨(Option.some_ne_none _).symm, hg⟩
    | some first =>
        rw [hcurrent] at hg
        exact hmark first.cachedHash hg
  obtain ⟨now, op⟩ := c
  cases op with
  | rotate newCurrent => exact .inr ⟨(Option.some_ne_none _).symm, List.mem_of_mem_filter hg⟩
  | retireCurrent => exact .inr ⟨(Option.some_ne_none _).symm, List.mem_of_mem_filter hg⟩
  | markGossiped hash => exact hmark hash hg
  | currentForGossip => exact hemit hg
  | currentForQuote => exact hemit hg
  | ageOut => exact .inr ⟨(Option.some_ne_none _).symm, List.mem_of_mem_filter hg⟩

end ResponderCommitmentState

/-- Where a restart leaves a persisted deadline, on the wall clock. -/
theorem toWall_wallExpiryToInstant {expiresUnix restored : Nat} {now : Clock}
    (hrestored : wallExpiryToInstant expiresUnix now = some restored) :
    now.wall < expiresUnix * nanosPerSec + restartStampGrace ∧
      now.toWall restored ≤ expiresUnix * nanosPerSec + restartStampGrace ∧
      now.toWall restored ≤ now.wall + gossipAnswerabilityTtl + restartStampGrace := by
  unfold wallExpiryToInstant at hrestored
  dsimp only at hrestored
  split at hrestored
  · cases hrestored
  · obtain rfl := Option.some.inj hrestored
    unfold Clock.toWall
    omega

namespace RetentionProcess

variable {mid p p' : RetentionProcess H} {hash : H} {stampedAt : Nat}

/-- Every stamp of `hash` lapses within one window and one grace of `stampedAt`. -/
def LapsesFrom (stampedAt : Nat) (hash : H) (p : RetentionProcess H) : Prop :=
  ∀ g ∈ p.state.recentlyGossiped, g.hash = hash →
    p.clock.toWall g.expiresAt ≤ stampedAt + gossipAnswerabilityTtl + restartStampGrace

theorem lapsesFrom_stamped {e : LifeEvent H} (hstamped : e.stamped? mid = some hash) :
    LapsesFrom mid.clock.wall hash (mid.next e) := by
  cases e with
  | tick elapsed => cases hstamped
  | clearAll => cases hstamped
  | restart downtime mono => cases hstamped
  | call op =>
      intro g hg hhash
      rcases mem_stamps_call hg with ⟨-, hexpires⟩ | ⟨hother, -⟩
      · rw [hexpires]
        change (mid.clock.wall : Int) + ↑(mid.clock.mono + gossipAnswerabilityTtl) - mid.clock.mono
          ≤ _
        omega
      · exact absurd (hhash ▸ hstamped) hother

theorem lapsesFrom_next {e : LifeEvent H} (hlapses : LapsesFrom stampedAt hash p)
    (hquiet : e.stamped? p ≠ some hash) (hunextended : e.Unextended stampedAt hash p) :
    LapsesFrom stampedAt hash (p.next e) := by
  cases e with
  | tick elapsed =>
      intro g hg hhash
      have hadvances : p.clock.Advances (p.next (.tick elapsed)).clock := ⟨elapsed, rfl, rfl⟩
      rw [hadvances.toWall_eq]
      exact hlapses g hg hhash
  | clearAll =>
      intro g hg
      cases hg
  | call op =>
      intro g hg hhash
      rcases mem_stamps_call hg with ⟨hstamped, -⟩ | ⟨-, hold⟩
      · exact absurd (hhash ▸ hstamped) hquiet
      · exact hlapses g hold hhash
  | restart downtime mono =>
      intro g hg hhash
      obtain ⟨built, -, hbuilt, hexpires⟩ := exists_of_mem_restored hg
      obtain ⟨stamp, hstamp, hrestored⟩ := Option.bind_eq_some_iff.mp hexpires
      obtain ⟨expiresUnix, hunix, hinstant⟩ := Option.bind_eq_some_iff.mp hrestored
      obtain ⟨hmem, hsame⟩ := mem_of_stampOf hstamp
      obtain ⟨hahead, hpersisted, hclamped⟩ := toWall_wallExpiryToInstant hinstant
      rcases hunextended stamp hmem (hsame.trans (hbuilt.symm.trans hhash)) expiresUnix hunix with
        hfirst | hlapsed | hnow
      · refine hpersisted.trans ?_
        omega
      · exact absurd hahead (Nat.not_lt.mpr hlapsed)
      · refine hclamped.trans ?_
        change ((p.clock.wall + downtime : Nat) : Int) + _ + _ ≤ _
        omega

/-- The run's stamps of `hash`, as long as no step stamps it again. -/
theorem lapsesFrom_of_run {later : List (LifeEvent H)} (hlapses : LapsesFrom stampedAt hash mid)
    (hquiet : Along step (fun q e => e.stamped? q ≠ some hash) mid later)
    (hunextended : Along step (fun q e => e.Unextended stampedAt hash q) mid later)
    (hrun : run step mid later = some p) : LapsesFrom stampedAt hash p := by
  induction later generalizing mid with
  | nil =>
      obtain rfl := Option.some.inj hrun
      exact hlapses
  | cons e later ih =>
      obtain ⟨q, hq, hrun⟩ := run_cons_eq_some.mp hrun
      obtain rfl := Option.some.inj hq
      exact ih (lapsesFrom_next hlapses hquiet.1 hunextended.1) (hquiet.2 _ rfl)
        (hunextended.2 _ rfl) hrun

/-- Once nothing advertises the hash, a stamp of it that no restart moved twice keeps it no longer
than one window and one grace. -/
theorem lookupByHash_ageOut_of_unextended {e : LifeEvent H} {later : List (LifeEvent H)}
    (hstamped : e.stamped? mid = some hash)
    (hquiet : Along step (fun q e' => e'.stamped? q ≠ some hash) (mid.next e) later)
    (hunextended : Along step (fun q e' => e'.Unextended mid.clock.wall hash q) (mid.next e) later)
    (hrun : run step mid (e :: later) = some p)
    (hcurrent : ∀ built, p.state.current = some built → built.cachedHash ≠ hash)
    (hlate : mid.clock.wall + gossipAnswerabilityTtl + restartStampGrace < p.clock.wall) :
    (p.state.ageOut p.clock.mono).lookupByHash hash = none := by
  obtain ⟨q, hq, hrun⟩ := run_cons_eq_some.mp hrun
  obtain rfl := Option.some.inj hq
  have hlapses := lapsesFrom_of_run (lapsesFrom_stamped hstamped) hquiet hunextended hrun
  refine List.find?_eq_none.mpr fun built hbuilt hfound => ?_
  have hhash : built.cachedHash = hash := of_decide_eq_true hfound
  have hdropped : built ∉ (p.next (.call .ageOut)).state.slots := by
    refine notMem_slots_ageOut (fun hlive => hcurrent built hlive hhash) fun g hg hsame => ?_
    have hdeadline := hlapses g hg (hsame.trans hhash)
    unfold Clock.toWall at hdeadline
    omega
  exact hdropped hbuilt

/-! ### Two restarts -/

/-- A node that advertises one commitment, not gossiped yet. -/
def soloAdvertised (clock : Clock) : RetentionProcess Transcript :=
  ⟨clock, new.rotate (Transcript.solo ⟨[1]⟩) clock.mono⟩

/-- The commitment retired, with a stamp that lapses at `expiresAt`. -/
def soloRetired (clock : Clock) (expiresAt : Nat) : RetentionProcess Transcript :=
  ⟨clock, ⟨[Transcript.solo ⟨[1]⟩], false, [⟨(Transcript.solo ⟨[1]⟩).cachedHash, expiresAt⟩]⟩⟩

theorem run_cons_next (p : RetentionProcess H) (e : LifeEvent H) (events : List (LifeEvent H)) :
    run step p (e :: events) = run step (p.next e) events := rfl

theorem along_cons_next {ok : RetentionProcess H → LifeEvent H → Prop} {e : LifeEvent H}
    {events : List (LifeEvent H)} :
    Along step ok p (e :: events) ↔ ok p e ∧ Along step ok (p.next e) events := by
  refine and_congr_right fun _ => ⟨fun halong => halong _ rfl, fun halong q hq => ?_⟩
  obtain rfl := Option.some.inj hq
  exact halong

theorem next_tick_soloRetired (clock : Clock) (expiresAt elapsed : Nat) :
    (soloRetired clock expiresAt).next (.tick elapsed)
      = soloRetired ⟨clock.mono + elapsed, clock.wall + elapsed⟩ expiresAt := rfl

theorem next_retireCurrent_soloAdvertised (clock : Clock) :
    ((soloAdvertised clock).next (.call .currentForGossip)).next (.call .retireCurrent)
      = soloRetired clock (clock.mono + gossipAnswerabilityTtl) := by
  have hpos : 0 < gossipAnswerabilityTtl := by decide
  simp [soloAdvertised, soloRetired, next, ResponderCommitmentState.call, currentForGossip,
    snapshotAndStamp, current, rotate, retireCurrent, new, pruneSlots, markGossipedLocked,
    retainSlots, maxRetainedGossipedSlots, hpos]

theorem next_restart_soloRetired {clock : Clock} {expiresAt downtime mono restored : Nat}
    (hrestored : restoredExpiry expiresAt clock ⟨mono, clock.wall + downtime⟩ = some restored) :
    (soloRetired clock expiresAt).next (.restart downtime mono)
      = soloRetired ⟨mono, clock.wall + downtime⟩ restored := by
  have hrestorable : Restorable (soloRetired clock expiresAt).state :=
    List.forall_mem_cons.mpr ⟨restorable_solo ⟨[1]⟩, List.forall_mem_nil _⟩
  have hahead : mono < restored := (lt_of_restoredExpiry hrestored).1
  have hstamp : (soloRetired clock expiresAt).state.restoredStamp clock
      ⟨mono, clock.wall + downtime⟩ (Transcript.solo ⟨[1]⟩)
      = some ⟨(Transcript.solo ⟨[1]⟩).cachedHash, restored⟩ := by
    simp [restoredStamp, stampOf, soloRetired, hrestored]
  have hstamps : (soloRetired clock expiresAt).state.slots.filterMap
      ((soloRetired clock expiresAt).state.restoredStamp clock ⟨mono, clock.wall + downtime⟩)
      = [⟨(Transcript.solo ⟨[1]⟩).cachedHash, restored⟩] :=
    List.filterMap_cons_some hstamp
  change RetentionProcess.mk _ (restore ((soloRetired clock expiresAt).state.snapshot clock)
    ⟨mono, clock.wall + downtime⟩) = _
  rw [restore_snapshot_eq hrestorable, hstamps]
  simp [soloRetired, pruneSlots, retainSlots, hahead]

theorem lookupByHash_soloRetired {clock : Clock} {expiresAt : Nat}
    (hahead : clock.mono < expiresAt) :
    ((soloRetired clock expiresAt).state.ageOut clock.mono).lookupByHash
      (Transcript.solo ⟨[1]⟩).cachedHash = some (Transcript.solo ⟨[1]⟩) := by
  simp [soloRetired, ageOut, pruneSlots, retainSlots, lookupByHash, hahead]

/-- One restart meets the deadline as it was stamped. -/
theorem lookupByHash_ageOut_of_unextended_soloAdvertised :
    let clock : Clock := ⟨100, 1000 * nanosPerSec⟩
    let hash := (Transcript.solo ⟨[1]⟩).cachedHash
    let later : List (LifeEvent Transcript) := [.call .retireCurrent, .tick (400 * nanosPerSec),
      .restart 0 7, .tick (10800 * nanosPerSec)]
    ∃ p, run step (soloAdvertised clock) (.call .currentForGossip :: later) = some p ∧
      p.clock.wall = 12200 * nanosPerSec ∧
      (p.state.ageOut p.clock.mono).lookupByHash hash = none := by
  intro clock hash later
  have hrestart := next_restart_soloRetired
    (show restoredExpiry (clock.mono + gossipAnswerabilityTtl)
      ⟨clock.mono + 400 * nanosPerSec, clock.wall + 400 * nanosPerSec⟩
      ⟨7, clock.wall + 400 * nanosPerSec + 0⟩ = some (7 + 10700 * nanosPerSec) by decide +kernel)
  have hrun : run step (soloAdvertised clock) (.call .currentForGossip :: later)
      = some (soloRetired ⟨7 + 10800 * nanosPerSec,
        clock.wall + 400 * nanosPerSec + 0 + 10800 * nanosPerSec⟩ (7 + 10700 * nanosPerSec)) := by
    rw [run_cons_next, run_cons_next, next_retireCurrent_soloAdvertised, run_cons_next,
      next_tick_soloRetired, run_cons_next, hrestart, run_cons_next, next_tick_soloRetired]
    rfl
  have hquiet : ∀ e ∈ later, ∀ q : RetentionProcess Transcript, e.stamped? q ≠ some hash := by
    simp [later, LifeEvent.stamped?, stampedBy]
  have hstamped : (LifeEvent.call .currentForGossip).stamped? (soloAdvertised clock) = some hash :=
    rfl
  refine ⟨_, hrun, by decide +kernel, lookupByHash_ageOut_of_unextended hstamped
    (along_of_forall hquiet) ?_ hrun ?_ (by decide +kernel)⟩
  · rw [along_cons_next, next_retireCurrent_soloAdvertised, along_cons_next,
      next_tick_soloRetired, along_cons_next]
    refine ⟨trivial, trivial, ?_, along_cons_next.mpr ⟨trivial, trivial⟩⟩
    intro g hg hhash expiresUnix hunix
    obtain rfl := List.mem_singleton.mp hg
    obtain rfl : 11800 = expiresUnix := Option.some.inj ((by decide +kernel :
      some 11800 = expiryToUnix _ _).trans hunix)
    exact .inl (by decide +kernel)
  · rintro built ⟨⟩

/-- Two restarts 400 s after the stamp each add the grace: 12200 s on the wall clock is past
1000 s + 10800 s + 300 s, and the commitment is still found. -/
theorem lookupByHash_ageOut_restartedTwice :
    let clock : Clock := ⟨100, 1000 * nanosPerSec⟩
    let hash := (Transcript.solo ⟨[1]⟩).cachedHash
    let later : List (LifeEvent Transcript) := [.call .retireCurrent, .tick (400 * nanosPerSec),
      .restart 0 7, .restart 0 9, .tick (10800 * nanosPerSec)]
    run step (start clock) [.call (.rotate (Transcript.solo ⟨[1]⟩))]
        = some (soloAdvertised clock) ∧
      (LifeEvent.call .currentForGossip).stamped? (soloAdvertised clock) = some hash ∧
      Along step (fun q e => e.stamped? q ≠ some hash)
        ((soloAdvertised clock).next (.call .currentForGossip)) later ∧
      ∃ p, run step (soloAdvertised clock) (.call .currentForGossip :: later) = some p ∧
        p.state.current = none ∧
        clock.wall + gossipAnswerabilityTtl + restartStampGrace < p.clock.wall ∧
        (p.state.ageOut p.clock.mono).lookupByHash hash = some (Transcript.solo ⟨[1]⟩) := by
  intro clock hash later
  have hfirst := next_restart_soloRetired
    (show restoredExpiry (clock.mono + gossipAnswerabilityTtl)
      ⟨clock.mono + 400 * nanosPerSec, clock.wall + 400 * nanosPerSec⟩
      ⟨7, clock.wall + 400 * nanosPerSec + 0⟩ = some (7 + 10700 * nanosPerSec) by decide +kernel)
  have hsecond := next_restart_soloRetired
    (show restoredExpiry (7 + 10700 * nanosPerSec)
      ⟨7, clock.wall + 400 * nanosPerSec + 0⟩ ⟨9, clock.wall + 400 * nanosPerSec + 0 + 0⟩
      = some (9 + 11000 * nanosPerSec) by decide +kernel)
  have hquiet : ∀ e ∈ later, ∀ q : RetentionProcess Transcript, e.stamped? q ≠ some hash := by
    simp [later, LifeEvent.stamped?, stampedBy]
  refine ⟨rfl, rfl, along_of_forall hquiet, ?_⟩
  rw [run_cons_next, run_cons_next, next_retireCurrent_soloAdvertised, run_cons_next,
    next_tick_soloRetired, run_cons_next, hfirst, run_cons_next, hsecond, run_cons_next,
    next_tick_soloRetired]
  refine ⟨_, rfl, rfl, by decide +kernel, lookupByHash_soloRetired (by decide +kernel)⟩

end RetentionProcess

end AntNode
