import Mathlib.Data.List.AList
import AntNode.AuditWindow
import AntNode.Lib.Lru
import AntNode.Lib.Runs

/-!
# The first-audit drainer

The cross-check surfaces every pin that backed a payment, and one task gives each its first audit.
A wake takes in a batch of events or a retry tick, then goes once over the pins that wait, the least
recently monetized first. The cooldown map is shared with the audits that gossip triggers, so other
tasks write it between any two steps. `launched` is what the task has spawned `run_subtree_audit`
for; the audits themselves and their verdicts are not part of the task.
-/

namespace AntNode

variable {H : Type} [DecidableEq H]

def maxLastCommitmentByPeer : Nat := 4096

def firstAuditDrainBatch : Nat := 64

def auditOnGossipCooldown : Nat := 30 * 60 * nanosPerSec

abbrev CooldownMap (H : Type) := AList fun _ : H => Nat

/-- The entry with the earliest stamp, the first of them where several are. -/
def oldestStamp : List (Sigma fun _ : H => Nat) → Option (Sigma fun _ : H => Nat)
  | [] => none
  | entry :: rest =>
      match oldestStamp rest with
      | none => some entry
      | some victim => if victim.2 < entry.2 then some victim else some entry

def cooldownAllowsAudit (map : CooldownMap H) (peer : H) (now : Nat) : Bool × CooldownMap H :=
  match map.lookup peer with
  | some last =>
      if now - last < auditOnGossipCooldown then (false, map) else (true, map.insert peer now)
  | none =>
      let map :=
        if maxLastCommitmentByPeer ≤ map.entries.length then
          (oldestStamp map.entries).elim map fun victim => map.erase victim.1
        else map
      (true, map.insert peer now)

/-- The launch decision of a gossiped commitment: the cooldown first, then the lottery. -/
def auditLaunchDecision (map : CooldownMap H) (peer : H) (now : Nat) (lotteryWins : Bool) :
    Bool × CooldownMap H :=
  let (allowed, map) := cooldownAllowsAudit map peer now
  (if allowed = false then false else lotteryWins, map)

inductive DrainerPhase (H : Type) where
  | waiting
  | draining (drained : Nat)
  | auditing (snapshot : List (H × MonetizedPinEvent H))

/-- The loop over the snapshot ends with its last pin. -/
def DrainerPhase.resume : List (H × MonetizedPinEvent H) → DrainerPhase H
  | [] => .waiting
  | snapshot => .auditing snapshot

structure FirstAuditDrainer (H : Type) [DecidableEq H] where
  firstAudited : Lru H Unit
  pending : Lru H (MonetizedPinEvent H)
  phase : DrainerPhase H
  cooldown : CooldownMap H
  launched : List (MonetizedPinEvent H)

inductive DrainerEvent (H : Type) [DecidableEq H] where
  | receive (e : MonetizedPinEvent H)
  | tick
  /-- The channel is empty, or the batch is full. -/
  | drained
  /-- The loop body for one pin, with what the two clocks read. -/
  | turn (now instant : Nat)
  /-- Another task writes the shared map. -/
  | writeCooldown (map : CooldownMap H)

namespace FirstAuditDrainer

def start (cooldown : CooldownMap H) : FirstAuditDrainer H where
  firstAudited := .empty maxLastCommitmentByPeer (by decide)
  pending := .empty maxLastCommitmentByPeer (by decide)
  phase := .waiting
  cooldown := cooldown
  launched := []

def takeIn (d : FirstAuditDrainer H) (e : MonetizedPinEvent H) : FirstAuditDrainer H :=
  if d.firstAudited.contains e.pin then d else { d with pending := d.pending.put e.peer e }

def beginAudits (d : FirstAuditDrainer H) : FirstAuditDrainer H :=
  if d.pending.entries.isEmpty then { d with phase := .waiting }
  else { d with pending := d.pending.clear, phase := .auditing d.pending.entries.reverse }

def auditTurn (d : FirstAuditDrainer H) (peer : H) (event : MonetizedPinEvent H)
    (now instant : Nat) : FirstAuditDrainer H :=
  if d.firstAudited.contains event.pin then d
  else if quoteWithinAuditWindow event.quoteTs now = false then d
  else
    let (allowed, cooldown) := cooldownAllowsAudit d.cooldown peer instant
    if allowed then
      { d with
        firstAudited := d.firstAudited.put event.pin ()
        cooldown := cooldown
        launched := event :: d.launched }
    else { d with pending := d.pending.put peer event, cooldown := cooldown }

def step (d : FirstAuditDrainer H) : DrainerEvent H → Option (FirstAuditDrainer H)
  | .receive e =>
      match d.phase with
      | .waiting => some { d.takeIn e with phase := .draining 1 }
      | .draining drained =>
          if drained < firstAuditDrainBatch then
            some { d.takeIn e with phase := .draining (drained + 1) }
          else none
      | .auditing _ => none
  | .tick =>
      match d.phase with
      | .waiting => some d.beginAudits
      | _ => none
  | .drained =>
      match d.phase with
      | .draining _ => some d.beginAudits
      | _ => none
  | .turn now instant =>
      match d.phase with
      | .auditing ((peer, event) :: rest) =>
          some { d.auditTurn peer event now instant with phase := .resume rest }
      | _ => none
  | .writeCooldown map => some { d with cooldown := map }

/-- The pins the current wake has not come to. -/
def snapshot (d : FirstAuditDrainer H) : List (H × MonetizedPinEvent H) :=
  match d.phase with
  | .auditing snapshot => snapshot
  | _ => []

/-- The pins that still wait for their first audit. -/
def queue (d : FirstAuditDrainer H) : List (H × MonetizedPinEvent H) :=
  d.pending.entries ++ d.snapshot

end FirstAuditDrainer

def receivedIn (events : List (DrainerEvent H)) : List (MonetizedPinEvent H) :=
  events.filterMap fun event =>
    match event with
    | .receive e => some e
    | _ => none

end AntNode
