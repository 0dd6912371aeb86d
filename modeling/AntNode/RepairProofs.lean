import AntNode.Digest
import AntNode.Lib.FiniteMap

/-!
# Repair proofs

For each key the node remembers which peers it has hinted to repair it, against the close group it
saw then. A peer may be audited for the key once its hint is mature: from an earlier sync cycle, and
old enough. Times are in nanoseconds of the monotonic clock.
-/

namespace AntNode

def repairHintMinAge : Nat := 60 * 60 * 1000000000

structure RepairProof where
  hintedAtEpoch : Nat
  hintedAt : Nat
  deriving DecidableEq

structure RepairProofEntry (H : Type) where
  closePeers : Finset H
  peerProofs : FiniteMap H RepairProof

structure RepairProofs (H : Type) where
  proofsByKey : FiniteMap H (RepairProofEntry H)

variable {H : Type} [Digest H]

namespace RepairProofs

def new : RepairProofs H := ⟨∅⟩

def reconcileKeyCloseGroup (proofs : RepairProofs H) (key : H) (currentClosePeers : Finset H) :
    RepairProofs H :=
  match proofs.proofsByKey.lookup key with
  | none => proofs
  | some entry =>
      if entry.closePeers = currentClosePeers then proofs
      else
        let peerProofs :=
          FiniteMap.retain (fun peer _ => decide (peer ∈ currentClosePeers)) entry.peerProofs
        if peerProofs.keys = ∅ then ⟨proofs.proofsByKey.erase key⟩
        else ⟨proofs.proofsByKey.insert key ⟨currentClosePeers, peerProofs⟩⟩

/-- The hint sent to a peer for a key, if it has one that the table still keeps. -/
def hintFor (proofs : RepairProofs H) (peer key : H) : Option RepairProof :=
  (proofs.proofsByKey.lookup key).bind fun entry => entry.peerProofs.lookup peer

def hasMatureReplicaHint (proofs : RepairProofs H) (peer key : H) (currentClosePeers : Finset H)
    (currentEpoch now : Nat) : Bool × RepairProofs H :=
  let proofs := proofs.reconcileKeyCloseGroup key currentClosePeers
  (match proofs.hintFor peer key with
    | none => false
    | some proof =>
        decide (proof.hintedAtEpoch < currentEpoch ∧ repairHintMinAge ≤ now - proof.hintedAt),
    proofs)

/-- Keep a hint just sent, unless the peer is not in the group or has an older one. -/
def insertReplicaHintSent (proofs : RepairProofs H) (peer key : H) (currentClosePeers : Finset H)
    (hintedAtEpoch hintedAt : Nat) : Bool × RepairProofs H :=
  let proofs := proofs.reconcileKeyCloseGroup key currentClosePeers
  if peer ∉ currentClosePeers then (false, proofs)
  else
    let entry := (proofs.proofsByKey.lookup key).getD ⟨currentClosePeers, ∅⟩
    if peer ∈ entry.peerProofs then (false, proofs)
    else
      let peerProofs := entry.peerProofs.insert peer ⟨hintedAtEpoch, hintedAt⟩
      (true, ⟨proofs.proofsByKey.insert key { entry with peerProofs }⟩)

def removeKey (proofs : RepairProofs H) (key : H) : RepairProofs H :=
  ⟨proofs.proofsByKey.erase key⟩

def removePeer (proofs : RepairProofs H) (peer : H) : RepairProofs H :=
  let withoutPeer := FiniteMap.mapValues
    (fun entry : RepairProofEntry H => { entry with peerProofs := entry.peerProofs.erase peer })
    proofs.proofsByKey
  ⟨FiniteMap.retain (fun _ entry => decide (entry.peerProofs.keys ≠ ∅)) withoutPeer⟩

/-- The operations on the table, each under its lock. -/
inductive Op (H : Type) where
  | recordHint (peer key : H) (closePeers : Finset H) (hintedAtEpoch hintedAt : Nat)
  | query (peer key : H) (closePeers : Finset H) (currentEpoch now : Nat)
  | removeKey (key : H)
  | removePeer (peer : H)

def step (proofs : RepairProofs H) : Op H → Option (RepairProofs H)
  | .recordHint peer key closePeers hintedAtEpoch hintedAt =>
      some (proofs.insertReplicaHintSent peer key closePeers hintedAtEpoch hintedAt).2
  | .query peer key closePeers currentEpoch now =>
      some (proofs.hasMatureReplicaHint peer key closePeers currentEpoch now).2
  | .removeKey key => some (proofs.removeKey key)
  | .removePeer peer => some (proofs.removePeer peer)

end RepairProofs

end AntNode
