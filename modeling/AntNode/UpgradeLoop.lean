import AntNode.ApplyUpgrade
import AntNode.ReleaseMonitor

/-!
# The upgrade loop

A node polls for releases, holds a new version back for a delay of its own and then applies it. While
a version is held back the loop sleeps until the delay has run out; else it sleeps for the check
interval, give or take a twentieth.

Times are instants of the monotonic clock in nanoseconds, and each poll brings its own: when a new
version is noted, when the time since then is taken, and when the sleep is computed. A sleep may take
longer than asked. The delay of a version, which the source computes from a hash in floating point, is
a parameter, and so are what a poll finds and what comes of applying it. Sent events, the logging and
the wait before the first poll are left out.
-/

namespace AntNode.Monitor

def nanosPerSec : Nat := 1000000000

/-- A poll of the loop, with the time it takes each step at. -/
structure Poll (V : Type) where
  found : Except UpgradeError (Option (UpgradeInfo V))
  notedAt : Nat
  elapsedAt : Nat
  applied : UpgradeResult V
  remainingAt : Nat
  jitter : Nat

structure RolloutState (V : Type) where
  pendingUpgradeDetected : Option Nat
  pendingUpgradeVersion : Option V
  deriving DecidableEq

/-- `stagedRollout` is the delay of each version, where a rollout is configured. -/
structure LoopConfig (V : Type) where
  stagedRollout : Option (V → Nat)
  checkIntervalSecs : Nat

/-- `wakeAt` is where the sleep ends. -/
structure UpgradeLoop (V : Type) where
  monitor : RolloutState V
  wakeAt : Nat
  upgraded : Option V
  deriving DecidableEq

variable {V : Type} [DecidableEq V]

def checkForReadyUpgrade (stagedRollout : Option (V → Nat)) (s : RolloutState V) (poll : Poll V) :
    Except UpgradeError (Option (UpgradeInfo V)) × RolloutState V :=
  match poll.found with
  | .error e => (.error e, s)
  | .ok none => (.ok none, ⟨none, none⟩)
  | .ok (some info) =>
      match stagedRollout with
      | none => (.ok (some info), s)
      | some delay =>
          let isNewVersion := s.pendingUpgradeVersion.all fun v => decide (v ≠ info.version)
          let s := if isNewVersion then ⟨some poll.notedAt, some info.version⟩ else s
          match s.pendingUpgradeDetected with
          | none => (.ok (some info), s)
          | some detectedAt =>
              let elapsed := poll.elapsedAt - detectedAt
              if elapsed ≥ delay info.version then (.ok (some info), s) else (.ok none, s)

def timeUntilUpgrade (stagedRollout : Option (V → Nat)) (s : RolloutState V) (now : Nat) :
    Option Nat :=
  match stagedRollout, s.pendingUpgradeVersion, s.pendingUpgradeDetected with
  | some delay, some version, some detectedAt =>
      let elapsed := now - detectedAt
      if elapsed ≥ delay version then some 0 else some (delay version - elapsed)
  | _, _, _ => none

/-- `jitter` is the number drawn from `0..=variance * 2`. -/
def jitteredInterval (secs jitter : Nat) : Nat :=
  let variance := secs / 20
  if variance = 0 then secs * nanosPerSec else (secs - variance + jitter) * nanosPerSec

namespace UpgradeLoop

def start (firstPollAt : Nat) : UpgradeLoop V := ⟨⟨none, none⟩, firstPollAt, none⟩

def sleepDuration (config : LoopConfig V) (s : RolloutState V) (poll : Poll V) : Nat :=
  match timeUntilUpgrade config.stagedRollout s poll.remainingAt with
  | none => jitteredInterval config.checkIntervalSecs poll.jitter
  | some remaining =>
      if remaining = 0 then jitteredInterval config.checkIntervalSecs poll.jitter else remaining

/-- What can happen: the clock goes forward, and a poll waits for the sleep to end. -/
def possible (config : LoopConfig V) (s : UpgradeLoop V) (poll : Poll V) : Bool :=
  s.upgraded.isNone && decide (s.wakeAt ≤ poll.notedAt) && decide (poll.notedAt ≤ poll.elapsedAt) &&
    decide (poll.elapsedAt ≤ poll.remainingAt) &&
    decide (poll.jitter ≤ config.checkIntervalSecs / 20 * 2)

/-- One turn of the loop. -/
def step (config : LoopConfig V) (s : UpgradeLoop V) (poll : Poll V) : Option (UpgradeLoop V) :=
  if !possible config s poll then none
  else
    let (answer, monitor) := checkForReadyUpgrade config.stagedRollout s.monitor poll
    let asleep : UpgradeLoop V :=
      ⟨monitor, poll.remainingAt + sleepDuration config monitor poll, none⟩
    match answer with
    | .ok (some _) =>
        match poll.applied with
        | .success version => some { asleep with upgraded := some version }
        | _ => some asleep
    | _ => some asleep

end UpgradeLoop

end AntNode.Monitor
