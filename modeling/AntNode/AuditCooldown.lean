import AntNode.FirstAuditDrainer
import AntNode.Lib.Runs

/-!
# The shared audit cooldown

The gossip trigger and the first-audit drainer stamp one map under its lock. A call reads the map
through an iteration of the hash map, whose order is unspecified, so each call comes with an order
of its own; it decides which of several equally old stamps is dropped.
-/

namespace AntNode

variable {H : Type}

/-- An order in which the entries of a map may be iterated. -/
structure Iteration (H : Type) where
  reorder : CooldownMap H → CooldownMap H
  perm : ∀ map, (reorder map).entries.Perm map.entries

def Iteration.asStored : Iteration H := ⟨id, fun _ => .refl _⟩

/-- A call at `now`: of the cooldown check alone, or of the launch decision with the outcome of its
lottery. -/
structure AuditCall (H : Type) where
  peer : H
  now : Nat
  lottery : Option Bool
  iteration : Iteration H

/-- The map, the time of the last call, and the calls that passed the cooldown, the last one
first. -/
structure CooldownState (H : Type) where
  map : CooldownMap H
  clock : Nat
  passed : List (H × Nat)

namespace CooldownState

variable [DecidableEq H]

def start : CooldownState H := ⟨∅, 0, []⟩

def step (s : CooldownState H) (call : AuditCall H) : Option (CooldownState H) :=
  if call.now < s.clock then none
  else
    let map := call.iteration.reorder s.map
    let (allowed, stamped) := cooldownAllowsAudit map call.peer call.now
    some
      { map := call.lottery.elim stamped fun wins =>
          (auditLaunchDecision map call.peer call.now wins).2
        clock := call.now
        passed := if allowed then (call.peer, call.now) :: s.passed else s.passed }

end CooldownState

end AntNode
