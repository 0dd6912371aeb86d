import AntNode.Digest
import AntNode.Lib.Runs
import AntNode.Lib.Tally

/-!
# Admission of audit responders

An admission claims a slot of its peer under the write lock of the count map, then tries for a
permit of the global semaphore, and takes the lock a second time to give the slot back if there is
none. A guard that is dropped decrements inline where `try_write` gets the lock and otherwise spawns
a task that waits for it; its permit is a field and goes back after the body of `drop`. Every
`write().await` is followed by a section without another await, so a step takes the lock or runs the
section of its holder, and any schedule of the tasks is a run.
-/

namespace AntNode

variable {H : Type} [DecidableEq H]

def maxConcurrentAuditResponses : Nat := 16

def maxAuditResponsesPerPeer : Nat := 2

/-- What the holder of the write lock is about to do. -/
inductive InflightSection (H : Type) where
  | claim (source : H)
  | giveBack (source : H)
  | decrement (peer : H)
  deriving DecidableEq

structure AuditResponders (H : Type) [DecidableEq H] where
  inflight : AList fun _ : H => Nat
  /-- The free permits of the semaphore. -/
  available : Nat
  lock : Option (InflightSection H)
  /-- Admissions that have claimed a slot and not yet tried for a permit. -/
  claimed : List H
  /-- Admissions that got no permit and have not yet given their slot back. -/
  givingBack : List H
  /-- The guards that are not dropped. -/
  guards : List H
  /-- Spawned decrements that have not run. -/
  deferred : List H
  /-- Guards past the body of `drop` that still hold their permit. -/
  releasing : Nat

inductive AdmissionEvent (H : Type) where
  | lockClaim (source : H)
  | lockGiveBack (source : H)
  | lockDecrement (peer : H)
  | runSection
  | tryAcquire (source : H)
  | dropGuard (peer : H) (tryWrite : Bool)
  | dropPermit
  deriving DecidableEq

namespace AuditResponders

def new : AuditResponders H where
  inflight := ∅
  available := maxConcurrentAuditResponses
  lock := none
  claimed := []
  givingBack := []
  guards := []
  deferred := []
  releasing := 0

/-- The first section of `admit_audit_responder`. -/
def claimSlot (s : AuditResponders H) (source : H) : AuditResponders H :=
  let entry := (s.inflight.lookup source).getD 0
  if maxAuditResponsesPerPeer ≤ entry then
    { s with inflight := s.inflight.insert source entry, lock := none }
  else
    { s with
      inflight := s.inflight.insert source (entry + 1)
      lock := none
      claimed := source :: s.claimed }

def tryAcquireOwned (s : AuditResponders H) (source : H) : AuditResponders H :=
  if 0 < s.available then
    { s with
      available := s.available - 1
      claimed := s.claimed.erase source
      guards := source :: s.guards }
  else
    { s with
      claimed := s.claimed.erase source
      givingBack := source :: s.givingBack }

/-- `AuditResponderGuard::drop`, up to the drop of its fields. -/
def dropBody (s : AuditResponders H) (peer : H) (tryWrite : Bool) : AuditResponders H :=
  if tryWrite then
    { s with
      inflight := Tally.release s.inflight peer
      guards := s.guards.erase peer
      releasing := s.releasing + 1 }
  else
    { s with
      guards := s.guards.erase peer
      deferred := peer :: s.deferred
      releasing := s.releasing + 1 }

def runSection (s : AuditResponders H) : InflightSection H → AuditResponders H
  | .claim source => s.claimSlot source
  | .giveBack source =>
      { s with
        inflight := Tally.release s.inflight source
        lock := none
        givingBack := s.givingBack.erase source }
  | .decrement peer =>
      { s with
        inflight := Tally.release s.inflight peer
        lock := none
        deferred := s.deferred.erase peer }

def step (s : AuditResponders H) : AdmissionEvent H → Option (AuditResponders H)
  | .lockClaim source =>
      if s.lock = none then some { s with lock := some (.claim source) } else none
  | .lockGiveBack source =>
      if s.lock = none ∧ source ∈ s.givingBack then
        some { s with lock := some (.giveBack source) }
      else none
  | .lockDecrement peer =>
      if s.lock = none ∧ peer ∈ s.deferred then some { s with lock := some (.decrement peer) }
      else none
  | .runSection => s.lock.map s.runSection
  | .tryAcquire source => if source ∈ s.claimed then some (s.tryAcquireOwned source) else none
  | .dropGuard peer tryWrite =>
      -- `try_write` may fail on a free lock with waiters, never succeed on a held one
      if peer ∈ s.guards ∧ (tryWrite → s.lock = none) then some (s.dropBody peer tryWrite) else none
  | .dropPermit =>
      if 0 < s.releasing then
        some { s with available := s.available + 1, releasing := s.releasing - 1 }
      else none

/-- The peer whose count an event decrements. -/
def decremented (s : AuditResponders H) : AdmissionEvent H → Option H
  | .runSection =>
      match s.lock with
      | some (.giveBack source) => some source
      | some (.decrement peer) => some peer
      | _ => none
  | .dropGuard peer true => some peer
  | _ => none

/-- The claimed slots: admissions between their two steps, guards and deferred decrements. -/
def slots (s : AuditResponders H) : List H := s.claimed ++ s.givingBack ++ s.guards ++ s.deferred

end AuditResponders

end AntNode
