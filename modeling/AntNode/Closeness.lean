import AntNode.Digest
import AntNode.Lib.Runs
import Mathlib.Logic.Function.Basic
import Mathlib.Tactic

/-!
# The single-flight closeness check

Concurrent callers of `verify_merkle_candidate_closeness` with the same pool hash share one lookup.
The first one puts a slot into the inflight cache and leads; the others find the slot, build a
notification future and wait. The leader's guard, dropped on every way out, pops the slot and then
wakes the waiters.

Each lock region is one step, and so are the construction of the future, the publication, the two
halves of the guard's drop, a cancellation at an `await` and an eviction from either cache; steps of
any number of callers interleave freely. A `Notify` is its count of `notify_waiters` calls: a future
remembers the count at its construction and completes once the count is larger.
-/

namespace AntNode

/-- An error is the message of an `Error::Payment`. -/
abbrev ClosenessResult := Except String Unit

def maxLeaderRetries : Nat := 1

/-- `notified` counts the `notify_waiters` calls. -/
structure ClosenessSlot where
  notified : Nat
  result : Option ClosenessResult

def ClosenessSlot.new : ClosenessSlot := ⟨0, none⟩

/-- Where a caller is; slots are named by the order of their creation. A caller that `found` a slot
has released the lock and not built its future yet, a `parked` one built it when the count was
`snapshot`. A guard drops in two halves: `dropping` until the slot is popped, `popped` until the
waiters are woken. The outcome is missing where the caller was cancelled. -/
inductive ClosenessPhase where
  | start
  | attempt (attempt : Nat)
  | found (attempt slot : Nat)
  | parked (attempt slot snapshot : Nat)
  | woken (attempt slot : Nat)
  | leading (slot : Nat)
  | computed (slot : Nat) (result : ClosenessResult)
  | published (slot : Nat) (result : ClosenessResult)
  | dropping (slot : Nat) (outcome : Option ClosenessResult)
  | popped (slot : Nat) (outcome : Option ClosenessResult)
  | done (outcome : Option ClosenessResult)

structure ClosenessState (P : Type) where
  closenessPassCache : List P
  inflightCloseness : P → Option Nat
  slots : Nat → ClosenessSlot
  nextSlot : Nat
  phase : Nat → ClosenessPhase

inductive ClosenessEvent (P : Type) where
  | checkPassCache (caller : Nat)
  | lockInflight (caller : Nat)
  | buildNotified (caller : Nat)
  | wake (caller : Nat)
  | readResult (caller : Nat)
  | innerReturns (caller : Nat) (result : ClosenessResult)
  | publish (caller : Nat)
  | cachePass (caller : Nat)
  | popSlot (caller : Nat)
  | notifyWaiters (caller : Nat)
  | cancel (caller : Nat)
  | evictInflight (poolHash : P)
  | evictPass (poolHash : P)

namespace ClosenessState

variable {P : Type}

def init : ClosenessState P where
  closenessPassCache := []
  inflightCloseness := fun _ => none
  slots := fun _ => .new
  nextSlot := 0
  phase := fun _ => .start

def goto (s : ClosenessState P) (caller : Nat) (phase : ClosenessPhase) : ClosenessState P :=
  { s with phase := Function.update s.phase caller phase }

/-- A waiter returns what the leader published, which is the text of the leader's error. -/
def afterWake (attempt : Nat) (result : Option ClosenessResult) : ClosenessPhase :=
  match result with
  | some (.ok ()) => .done (some (.ok ()))
  | some (.error e) => .done (some (.error ("payment error: " ++ e)))
  | none =>
      -- the leader disappeared without publishing
      if attempt = maxLeaderRetries then
        .done (some (.error ("Merkle candidate pool rejected: closeness leader " ++
          "repeatedly failed to publish a result (likely repeated cancellation or panic).")))
      else .attempt (attempt + 1)

variable [DecidableEq P]

/-- One step of the system, `none` where it is not enabled. `poolHash` is the hash each caller was
called with. -/
def step (poolHash : Nat → P) (s : ClosenessState P) : ClosenessEvent P → Option (ClosenessState P)
  | .checkPassCache c =>
      match s.phase c with
      | .start =>
          some (s.goto c
            (if poolHash c ∈ s.closenessPassCache then .done (some (.ok ())) else .attempt 0))
      | _ => none
  | .lockInflight c =>
      match s.phase c with
      | .attempt n =>
          match s.inflightCloseness (poolHash c) with
          | some slot => some (s.goto c (.found n slot))
          | none =>
              some
                { s with
                  inflightCloseness :=
                    Function.update s.inflightCloseness (poolHash c) (some s.nextSlot)
                  slots := Function.update s.slots s.nextSlot .new
                  nextSlot := s.nextSlot + 1
                  phase := Function.update s.phase c (.leading s.nextSlot) }
      | _ => none
  | .buildNotified c =>
      match s.phase c with
      | .found n slot => some (s.goto c (.parked n slot (s.slots slot).notified))
      | _ => none
  | .wake c =>
      match s.phase c with
      | .parked n slot snapshot =>
          if snapshot < (s.slots slot).notified then some (s.goto c (.woken n slot)) else none
      | _ => none
  | .readResult c =>
      match s.phase c with
      | .woken n slot => some (s.goto c (afterWake n (s.slots slot).result))
      | _ => none
  | .innerReturns c result =>
      match s.phase c with
      | .leading slot => some (s.goto c (.computed slot result))
      | _ => none
  | .publish c =>
      match s.phase c with
      | .computed slot result =>
          -- `OnceLock::set` keeps the first value
          let old := s.slots slot
          some
            { s with
              slots := Function.update s.slots slot
                { old with result := old.result.or (some result) }
              phase := Function.update s.phase c (.published slot result) }
      | _ => none
  | .cachePass c =>
      match s.phase c with
      | .published slot (.ok ()) =>
          some
            { s with
              closenessPassCache := poolHash c :: s.closenessPassCache
              phase := Function.update s.phase c (.dropping slot (some (.ok ()))) }
      | .published slot (.error e) => some (s.goto c (.dropping slot (some (.error e))))
      | _ => none
  | .popSlot c =>
      match s.phase c with
      | .dropping slot outcome =>
          some
            { s with
              inflightCloseness :=
                if s.inflightCloseness (poolHash c) = some slot then
                  Function.update s.inflightCloseness (poolHash c) none
                else s.inflightCloseness
              phase := Function.update s.phase c (.popped slot outcome) }
      | _ => none
  | .notifyWaiters c =>
      match s.phase c with
      | .popped slot outcome =>
          let old := s.slots slot
          some
            { s with
              slots := Function.update s.slots slot { old with notified := old.notified + 1 }
              phase := Function.update s.phase c (.done outcome) }
      | _ => none
  | .cancel c =>
      match s.phase c with
      | .start => some (s.goto c (.done none))
      | .parked _ _ _ => some (s.goto c (.done none))
      -- a leader's guard is dropped with it
      | .leading slot => some (s.goto c (.dropping slot none))
      | _ => none
  | .evictInflight h =>
      some { s with inflightCloseness := Function.update s.inflightCloseness h none }
  | .evictPass h =>
      some { s with closenessPassCache := s.closenessPassCache.filter fun h' => decide (h' ≠ h) }

end ClosenessState

end AntNode
