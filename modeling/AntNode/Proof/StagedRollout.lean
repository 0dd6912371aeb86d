import AntNode.UpgradeLoop
import AntNode.Lib.FirstSince

/-!
# A version is held back once

The loop sleeps until the delay of a pending version has run out, so the first poll that finds a
version is the only one that can hold it back: every later poll that still finds it, with nothing but
failed polls in between, comes after the delay and answers with it. A poll that finds no release, or
another one, starts the wait anew.
-/

namespace AntNode.Monitor

variable {V : Type} [DecidableEq V]

/-- The poll finds version `v`, and would note it at `t`. -/
def Finds (v : V) (poll : Poll V) (t : Nat) : Prop :=
  ∃ info, poll.found = .ok (some info) ∧ info.version = v ∧ poll.notedAt = t

/-- The poll finds something else, or nothing. -/
def Loses (v : V) (poll : Poll V) : Prop :=
  poll.found = .ok none ∨ ∃ info, poll.found = .ok (some info) ∧ info.version ≠ v

omit [DecidableEq V] in
theorem not_loses_of_finds {v : V} {poll : Poll V} {t : Nat} (hfinds : Finds v poll t) :
    ¬ Loses v poll := by
  obtain ⟨info, hfound, hversion, -⟩ := hfinds
  rintro (hnone | ⟨other, hother, hne⟩)
  · rw [hfound] at hnone
    cases hnone
  · rw [hfound] at hother
    cases hother
    exact hne hversion

namespace RolloutState

/-- Since when `v` is pending. -/
def pendingSince (s : RolloutState V) (v : V) : Option Nat :=
  if s.pendingUpgradeVersion = some v then s.pendingUpgradeDetected else none

/-- A version and a time, or neither. -/
def Complete (s : RolloutState V) : Prop :=
  s.pendingUpgradeDetected.isSome = s.pendingUpgradeVersion.isSome

end RolloutState

variable {s : RolloutState V} {poll : Poll V} {delay : V → Nat} {info : UpgradeInfo V}

theorem checkForReadyUpgrade_of_error {e : UpgradeError} (hfound : poll.found = .error e)
    (rollout : Option (V → Nat)) : checkForReadyUpgrade rollout s poll = (.error e, s) := by
  simp only [checkForReadyUpgrade, hfound]

theorem checkForReadyUpgrade_of_none (hfound : poll.found = .ok none)
    (rollout : Option (V → Nat)) :
    checkForReadyUpgrade rollout s poll = (.ok none, ⟨none, none⟩) := by
  simp only [checkForReadyUpgrade, hfound]

/-- The version found is pending since it was first noted. -/
theorem checkForReadyUpgrade_of_some (hcomplete : s.Complete)
    (hfound : poll.found = .ok (some info)) :
    checkForReadyUpgrade (some delay) s poll =
      (.ok (if delay info.version ≤
          poll.elapsedAt - (s.pendingSince info.version).getD poll.notedAt then some info else none),
        ⟨some ((s.pendingSince info.version).getD poll.notedAt), some info.version⟩) := by
  obtain ⟨detected, version⟩ := s
  have hcases : version = some info.version ∨ version ≠ some info.version := eq_or_ne _ _
  simp only [checkForReadyUpgrade, hfound, RolloutState.pendingSince]
  rcases hcases with rfl | hne
  · obtain ⟨t, rfl⟩ := Option.isSome_iff_exists.mp hcomplete
    simp only [Option.all_some, ne_eq, not_true_eq_false, decide_false, Bool.false_eq_true, if_false,
      if_true, Option.getD_some, ge_iff_le]
    split_ifs <;> rfl
  · have hnew : version.all (fun v => decide (v ≠ info.version)) = true := by
      cases version with
      | none => rfl
      | some v =>
          simp only [Option.all_some, decide_eq_true_eq]
          exact fun heq => hne (congrArg some heq)
    simp only [hnew, if_true, if_neg hne, Option.getD_none, ge_iff_le]
    split_ifs <;> rfl

theorem complete_checkForReadyUpgrade (hcomplete : s.Complete) :
    (checkForReadyUpgrade (some delay) s poll).2.Complete := by
  cases hfound : poll.found with
  | error e => rwa [checkForReadyUpgrade_of_error hfound]
  | ok found =>
      cases found with
      | none => rw [checkForReadyUpgrade_of_none hfound]; rfl
      | some info => rw [checkForReadyUpgrade_of_some hcomplete hfound]; rfl

/-- What a poll does to the time since which a version is pending. -/
theorem cellStep_checkForReadyUpgrade (hcomplete : s.Complete) (v : V) :
    FirstSince.CellStep (Finds v) (Loses v) poll (s.pendingSince v)
      ((checkForReadyUpgrade (some delay) s poll).2.pendingSince v) := by
  cases hfound : poll.found with
  | error e =>
      rw [checkForReadyUpgrade_of_error hfound]
      refine .keep ?_ ?_ rfl
      · rintro (hnone | ⟨info, hsome, -⟩)
        · rw [hfound] at hnone
          cases hnone
        · rw [hfound] at hsome
          cases hsome
      · rintro t ⟨info, hsome, -⟩
        rw [hfound] at hsome
        cases hsome
  | ok found =>
      cases found with
      | none =>
          rw [checkForReadyUpgrade_of_none hfound]
          exact .reset (.inl hfound) rfl
      | some info =>
          rw [checkForReadyUpgrade_of_some hcomplete hfound]
          by_cases heq : info.version = v
          · have hfinds : Finds v poll poll.notedAt := ⟨info, hfound, heq, rfl⟩
            refine .write poll.notedAt (not_loses_of_finds hfinds) hfinds ?_
            simp [RolloutState.pendingSince, heq]
          · refine .reset (.inr ⟨info, hfound, heq⟩) ?_
            simp [RolloutState.pendingSince, heq]

namespace UpgradeLoop

/-- The loop sleeps until the delay of the pending version has run out. -/
structure Rested (delay : V → Nat) (s : UpgradeLoop V) : Prop where
  complete : s.monitor.Complete
  wake : ∀ v t, s.monitor.pendingSince v = some t → t + delay v ≤ s.wakeAt

variable {config : LoopConfig V} {s s' : UpgradeLoop V} {polls : List (Poll V)}

omit [DecidableEq V] in
theorem possible_iff : possible config s poll = true ↔
    s.upgraded = none ∧ s.wakeAt ≤ poll.notedAt ∧ poll.notedAt ≤ poll.elapsedAt ∧
      poll.elapsedAt ≤ poll.remainingAt ∧ poll.jitter ≤ config.checkIntervalSecs / 20 * 2 := by
  simp [possible, and_assoc]

theorem step_spec (hstep : step config s poll = some s') :
    possible config s poll = true ∧
      s'.monitor = (checkForReadyUpgrade config.stagedRollout s.monitor poll).2 ∧
      s'.wakeAt = poll.remainingAt + sleepDuration config s'.monitor poll := by
  unfold step at hstep
  split_ifs at hstep with hpossible
  refine ⟨by simpa using hpossible, ?_⟩
  dsimp only at hstep
  split at hstep
  · split at hstep
    · obtain rfl := Option.some.inj hstep
      exact ⟨rfl, rfl⟩
    · obtain rfl := Option.some.inj hstep
      exact ⟨rfl, rfl⟩
  · obtain rfl := Option.some.inj hstep
    exact ⟨rfl, rfl⟩

theorem le_wakeAt {monitor : RolloutState V} {v : V} {t : Nat}
    (hrollout : config.stagedRollout = some delay) (hpending : monitor.pendingSince v = some t)
    (hpast : t ≤ poll.remainingAt) :
    t + delay v ≤ poll.remainingAt + sleepDuration config monitor poll := by
  unfold RolloutState.pendingSince at hpending
  split_ifs at hpending with hversion
  unfold sleepDuration timeUntilUpgrade
  simp only [hrollout, hversion, hpending]
  by_cases helapsed : poll.remainingAt - t ≥ delay v
  · simp only [if_pos helapsed]
    omega
  · have hremaining : delay v - (poll.remainingAt - t) ≠ 0 := by omega
    simp only [if_neg helapsed, if_neg hremaining]
    omega

theorem Rested.step (hrollout : config.stagedRollout = some delay) (hrested : Rested delay s)
    (hstep : step config s poll = some s') : Rested delay s' := by
  obtain ⟨hpossible, hmonitor, hwake⟩ := step_spec hstep
  obtain ⟨-, hasleep, hnoted, helapsed, -⟩ := possible_iff.mp hpossible
  rw [hrollout] at hmonitor
  refine ⟨hmonitor ▸ complete_checkForReadyUpgrade hrested.complete, fun v t hpending => ?_⟩
  rw [hwake]
  apply le_wakeAt hrollout hpending
  -- the time is noted in this poll, or its delay has already run out
  have hold : ∀ u, s.monitor.pendingSince v = some u → u ≤ poll.remainingAt := by
    intro u hu
    have := hrested.wake v u hu
    omega
  have hcell : FirstSince.CellStep (Finds v) (Loses v) poll (s.monitor.pendingSince v)
      (s'.monitor.pendingSince v) := hmonitor ▸ cellStep_checkForReadyUpgrade hrested.complete v
  rw [hpending] at hcell
  cases hcell with
  | reset _ hnew => cases hnew
  | write u _ hfinds hnew =>
      obtain ⟨-, -, -, rfl⟩ := hfinds
      obtain rfl := Option.some.inj hnew
      cases hsince : s.monitor.pendingSince v with
      | none => exact hnoted.trans helapsed
      | some u => exact hold u hsince
  | keep _ _ hnew => exact hold t hnew.symm

theorem rested_start (firstPollAt : Nat) : Rested delay (start firstPollAt : UpgradeLoop V) where
  complete := rfl
  wake := by
    intro v t hpending
    simp [start, RolloutState.pendingSince] at hpending

theorem holds_pendingSince {firstPollAt : Nat} (hrollout : config.stagedRollout = some delay)
    (hrun : Runs.run (UpgradeLoop.step config) (start firstPollAt) polls = some s) (v : V) :
    FirstSince.Holds (Finds v) (Loses v) polls (s.monitor.pendingSince v) := by
  refine FirstSince.holds_of_run (Rested delay) (fun s : UpgradeLoop V => s.monitor.pendingSince v)
    (fun _ _ => not_loses_of_finds) (fun _ _ _ hrested hstep => hrested.step hrollout hstep) ?_
    (rested_start firstPollAt) (by simp [start, RolloutState.pendingSince]) hrun
  intro mid poll next hrested hstep
  rw [(step_spec hstep).2.1, hrollout]
  exact cellStep_checkForReadyUpgrade hrested.complete v

/-- Every poll that finds a version is the first to find it, or the first since it was lost, and then
holds it back for the rest of its delay; or it comes after the whole delay, and answers with it. -/
theorem held_back_once {firstPollAt : Nat} (hrollout : config.stagedRollout = some delay)
    (hrun : Runs.run (UpgradeLoop.step config) (start firstPollAt) polls = some s)
    (hpossible : possible config s poll = true) (hfound : poll.found = .ok (some info)) :
    ((∀ before t, ¬ FirstSince.Surviving (Finds info.version) (Loses info.version) polls before t) ∧
      (checkForReadyUpgrade config.stagedRollout s.monitor poll).1 =
        .ok (if delay info.version ≤ poll.elapsedAt - poll.notedAt then some info else none)) ∨
    (∃ before t, FirstSince.Earliest (Finds info.version) (Loses info.version) polls before t ∧
      t + delay info.version ≤ poll.notedAt ∧
      (checkForReadyUpgrade config.stagedRollout s.monitor poll).1 = .ok (some info)) := by
  have hrested : Rested delay s := Runs.stable_of_run (Rested delay)
    (fun _ _ _ hrested hstep => hrested.step hrollout hstep) (rested_start firstPollAt) hrun
  obtain ⟨-, hasleep, hnoted, -⟩ := possible_iff.mp hpossible
  have hholds := holds_pendingSince hrollout hrun info.version
  rw [hrollout, checkForReadyUpgrade_of_some hrested.complete hfound]
  cases hsince : s.monitor.pendingSince info.version with
  | none =>
      rw [hsince] at hholds
      exact .inl ⟨hholds, rfl⟩
  | some t =>
      rw [hsince] at hholds
      obtain ⟨before, hearliest⟩ := hholds
      have hwake := hrested.wake info.version t hsince
      have hready : delay info.version ≤ poll.elapsedAt - t := by omega
      refine .inr ⟨before, t, hearliest, hwake.trans hasleep, ?_⟩
      simp only [Option.getD_some, if_pos hready]

/-- A version that takes five seconds, found at `t`. -/
def foundAt (t : Nat) : Poll Nat :=
  ⟨.ok (some ⟨2, "archive", "signature", ""⟩), t, t, .noUpgrade, t, 0⟩

def fiveSeconds : LoopConfig Nat := ⟨some fun _ => 5 * nanosPerSec, 3600⟩

theorem held_back_once_second :
    ∃ s, Runs.run (UpgradeLoop.step fiveSeconds) (start 0) [foundAt 1] = some s ∧
      ∃ before t, FirstSince.Earliest (Finds 2) (Loses 2) [foundAt 1] before t ∧
        t + 5 * nanosPerSec ≤ 5 * nanosPerSec + 1 ∧
        (checkForReadyUpgrade fiveSeconds.stagedRollout s.monitor
          (foundAt (5 * nanosPerSec + 1))).1 = .ok (some ⟨2, "archive", "signature", ""⟩) := by
  have hrollout : fiveSeconds.stagedRollout = some fun _ => 5 * nanosPerSec := rfl
  have hrun : Runs.run (UpgradeLoop.step fiveSeconds) (start 0) [foundAt 1] =
      some ⟨⟨some 1, some 2⟩, 5 * nanosPerSec + 1, none⟩ := rfl
  have hfound : (foundAt (5 * nanosPerSec + 1)).found =
      .ok (some ⟨2, "archive", "signature", ""⟩) := rfl
  refine ⟨_, hrun, ?_⟩
  rcases held_back_once hrollout hrun (by decide) hfound with ⟨-, hanswer⟩ | hready
  · cases hanswer
  · exact hready

end UpgradeLoop

end AntNode.Monitor
