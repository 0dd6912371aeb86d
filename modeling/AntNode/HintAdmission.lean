import AntNode.Lib.Visiting
import AntNode.Quorum

/-!
# Hint admission

A neighbour's sync message hints at keys it thinks this node should hold or track as paid. Each
hinted key is sorted into one of three lists before anything is verified: the replica pipeline, the
paid-only pipeline, or the rejected keys. One set of seen keys serves both loops, so a key of the
replica hints is never looked at again as a paid hint.

The store and the paid list may fail to answer, which counts as a no.
-/

namespace AntNode.Admission

variable {H : Type} [Digest H]

structure AdmissionResult (H : Type) where
  replicaKeys : List H
  paidOnlyKeys : List H
  rejectedKeys : List H
  deriving DecidableEq

/-- What the admission reads: `exists` of the store and `contains` of the paid list with their
errors. -/
structure AdmissionContext (H : Type) where
  selfId : H
  routing : RoutingTable H
  config : ReplicationConfig
  storageExists : H → Except String Bool
  paidListContains : H → Except String Bool
  pendingKeys : Finset H

def isResponsible (selfId key : H) (routing : RoutingTable H) (responsibilityWidth : Nat) : Bool :=
  decide (selfId ∈ routing.findClosestNodesLocalWithSelf key responsibilityWidth)

def isInPaidCloseGroup (selfId key : H) (routing : RoutingTable H)
    (paidListCloseGroupSize : Nat) : Bool :=
  decide (selfId ∈ routing.findClosestNodesLocalWithSelf key paidListCloseGroupSize)

def unwrapOrFalse (answer : Except String Bool) : Bool := answer.toOption.getD false

def admitReplicaHint (ctx : AdmissionContext H) (result : AdmissionResult H) (key : H) :
    AdmissionResult H :=
  let alreadyLocal := unwrapOrFalse (ctx.storageExists key)
  let alreadyPending := decide (key ∈ ctx.pendingKeys)
  if alreadyLocal || alreadyPending then
    { result with replicaKeys := result.replicaKeys ++ [key] }
  else if isResponsible ctx.selfId key ctx.routing
      (storageAdmissionWidth ctx.config.closeGroupSize) then
    { result with replicaKeys := result.replicaKeys ++ [key] }
  else { result with rejectedKeys := result.rejectedKeys ++ [key] }

def admitPaidHint (ctx : AdmissionContext H) (result : AdmissionResult H) (key : H) :
    AdmissionResult H :=
  let alreadyPaid := unwrapOrFalse (ctx.paidListContains key)
  if alreadyPaid then { result with paidOnlyKeys := result.paidOnlyKeys ++ [key] }
  else if isInPaidCloseGroup ctx.selfId key ctx.routing ctx.config.paidListCloseGroupSize then
    { result with paidOnlyKeys := result.paidOnlyKeys ++ [key] }
  else { result with rejectedKeys := result.rejectedKeys ++ [key] }

def admitHints (ctx : AdmissionContext H) (replicaHints paidHints : List H) : AdmissionResult H :=
  let afterReplica := replicaHints.foldl (Visiting.visit (admitReplicaHint ctx)) (∅, ⟨[], [], []⟩)
  (paidHints.foldl (Visiting.visit (admitPaidHint ctx)) afterReplica).2

end AntNode.Admission
