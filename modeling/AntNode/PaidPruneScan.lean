import AntNode.Pruning

/-!
# The selection loop of a paid-list prune pass

A pass scans all paid keys from a cursor on, selects candidates as long as the entry and peer
budgets allow and moves the cursor past the last selected one. The loop is the one of
`prune_paid_entries`, here with its cursor and the offset it advances by.
-/

namespace AntNode

variable {H : Type} [Digest H]

def paidPruneScanStart (paidPruneCursor paidKeyCount : Nat) : Nat :=
  if paidKeyCount = 0 then 0 else paidPruneCursor % paidKeyCount

def advancePaidPruneCursor (paidKeyCount scanStart : Nat) (lastSelectedOffset : Option Nat) : Nat :=
  if paidKeyCount = 0 then 0
  else
    let advanceBy := lastSelectedOffset.elim 1 fun offset => offset + 1
    (scanStart + advanceBy) % paidKeyCount

structure PaidPruneScan (H : Type) where
  world : PruneWorld H
  expiredCandidates : List (H × List H)
  selectedVerificationPeers : Finset H
  lastSelectedOffset : Option Nat

namespace PaidPruneScan

def start (world : PruneWorld H) : PaidPruneScan H where
  world := world
  expiredCandidates := []
  selectedVerificationPeers := ∅
  lastSelectedOffset := none

def visit (ctx : PrunePassContext H) (now offset : Nat) (key : H) (scan : PaidPruneScan H) :
    PaidPruneScan H :=
  let (state, selectedVerificationPeers, world) :=
    evaluatePaidPruneKey ctx key now scan.expiredCandidates.length scan.selectedVerificationPeers
      scan.world
  let scan :=
    { scan with world := world, selectedVerificationPeers := selectedVerificationPeers }
  match state with
  | .candidate targetPeers =>
      { scan with
        expiredCandidates := scan.expiredCandidates ++ [(key, targetPeers)]
        lastSelectedOffset := some offset }
  | _ => scan

/-- The keys from `offset` on, in the order of the scan. -/
def visitAll (ctx : PrunePassContext H) (now : Nat) :
    Nat → List H → PaidPruneScan H → PaidPruneScan H
  | _, [], scan => scan
  | offset, key :: rest, scan =>
      visitAll ctx now (offset + 1) rest (scan.visit ctx now offset key)

def selectedKeys (scan : PaidPruneScan H) : List H := scan.expiredCandidates.map Prod.fst

end PaidPruneScan

def scanPaidKeys (ctx : PrunePassContext H) (paidKeys : List H) (paidPruneCursor : Nat)
    (world : PruneWorld H) : PaidPruneScan H :=
  -- offset `i` of the scan is the key at `(scan_start + i) % len`
  let scanStart := paidPruneScanStart paidPruneCursor paidKeys.length
  PaidPruneScan.visitAll ctx world.now 0 (paidKeys.rotate scanStart) (.start world)

/-- The cursor before the `i`-th of a sequence of passes, which find the node in these worlds. -/
def paidPruneCursorBefore (ctx : PrunePassContext H) (paidKeys : List H)
    (worlds : Nat → PruneWorld H) (paidPruneCursor : Nat) : Nat → Nat
  | 0 => paidPruneCursor
  | i + 1 =>
      let cursor := paidPruneCursorBefore ctx paidKeys worlds paidPruneCursor i
      advancePaidPruneCursor paidKeys.length (paidPruneScanStart cursor paidKeys.length)
        (scanPaidKeys ctx paidKeys cursor (worlds i)).lastSelectedOffset

/-- The keys the `i`-th pass selects. -/
def paidPruneSelection (ctx : PrunePassContext H) (paidKeys : List H)
    (worlds : Nat → PruneWorld H) (paidPruneCursor i : Nat) : List H :=
  (scanPaidKeys ctx paidKeys (paidPruneCursorBefore ctx paidKeys worlds paidPruneCursor i)
    (worlds i)).selectedKeys

end AntNode
