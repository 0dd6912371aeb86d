import AntNode.Pruning
import AntNode.RetentionNode

/-!
# Pruning beside the commitment rotation

The prune pass and the rotation of the storage commitment are two tasks of one node. The pass asks
the retained commitments about a key when it selects it, and once more when it looks at it again;
then it looks up the close groups of the key, goes on to the other candidates, and deletes when it is
through with all of them. The rotation reads the stored keys, asks the routing table about each of
them and installs a commitment over those in range. A step of `CommittedPruning` is what one of the
two does without waiting, an emission of the commitment, or a change of anything else.
-/

namespace AntNode

variable {H : Type} [Digest H]

/-- What `revalidated_record_prune_keys` does with a candidate once no commitment was found to hold
it. -/
def confirmRecordPruneKey (ctx : PrunePassContext H) (key : H)
    (presentByKey : FiniteMap H (Finset H)) (now : Nat) (world : PruneWorld H) :
    Bool × PruneWorld H :=
  revalidatedRecordPruneKey ctx key presentByKey now { world with isHeld := fun _ => false }

/-- A rotation in progress: the keys it read from the store, those it has still to ask the routing
table about, and those it found in range. -/
structure CommitmentRebuild (H : Type) where
  storedKeys : List H
  unchecked : List H
  keys : List H

variable [CommitmentProtocol H]

/-- `checked` is the candidate whose close groups are being looked up. -/
structure CommittedPruning (H : Type) [Digest H] [CommitmentProtocol H] where
  pass : RecordPrunePass H
  checked : Option (RecordPruneCandidate H)
  commitments : ResponderCommitmentState H
  rebuild : Option (CommitmentRebuild H)

inductive CommittedPruneEvent (H : Type) where
  | elsewhere (world : PruneWorld H)
  | pass (event : RecordPruneEvent H)
  | checkHeld
  | lookUpGroups
  | readStoredKeys
  | checkResponsible
  | install (randomness : Nat)
  | emitGossip
  | emitQuote

namespace CommittedPruning

def start (storedKeys : List H) (scanStart : Nat) (world : PruneWorld H)
    (commitments : ResponderCommitmentState H) (rebuild : Option (CommitmentRebuild H)) :
    CommittedPruning H :=
  ⟨.start storedKeys scanStart world, none, commitments, rebuild⟩

/-- The pass as it sees the retained commitments. -/
def view (s : CommittedPruning H) : RecordPrunePass H :=
  { s.pass with world.isHeld := s.commitments.isHeld }

def step (ctx : PrunePassContext H) (identity : NodeIdentity H) (s : CommittedPruning H) :
    CommittedPruneEvent H → Option (CommittedPruning H)
  | .elsewhere world => some { s with pass.world := world }
  | .pass event =>
      match s.checked, event with
      | none, .elsewhere _ => none
      | none, .revalidate => none
      | none, event => (s.view.step ctx event).map fun pass => { s with pass := pass }
      | some _, _ => none
  | .checkHeld =>
      match s.checked, s.pass.phase with
      | none, .revalidating (candidate :: rest) =>
          if s.commitments.isHeld candidate.key then
            some { s with pass.phase := .revalidating rest }
          else some { s with pass.phase := .revalidating rest, checked := some candidate }
      | _, _ => none
  | .lookUpGroups =>
      match s.checked with
      | none => none
      | some candidate =>
          let (confirmed, world) := confirmRecordPruneKey ctx candidate.key s.pass.presentByKey
            s.pass.revalidatedAt s.pass.world
          some { s with
            checked := none
            pass.world := world
            pass.keysToDelete :=
              if confirmed then s.pass.keysToDelete ++ [candidate.key] else s.pass.keysToDelete }
  | .readStoredKeys =>
      match s.rebuild with
      | some _ => none
      | none =>
          let storedKeys := s.pass.world.storage.keys.sort (· ≤ ·)
          some { s with rebuild := some ⟨storedKeys, storedKeys, []⟩ }
  | .checkResponsible =>
      match s.rebuild with
      | some ⟨storedKeys, key :: unchecked, keys⟩ =>
          let closest := s.pass.world.routing.findClosestNodesLocalWithSelf key
            ctx.config.closeGroupSize
          let keys := if ctx.selfId ∈ closest then keys ++ [key] else keys
          some { s with rebuild := some ⟨storedKeys, unchecked, keys⟩ }
      | _ => none
  | .install randomness =>
      match s.rebuild with
      | some ⟨storedKeys, [], keys⟩ =>
          match rebuildAndRotateCommitment identity s.commitments s.pass.world.now storedKeys
            (· ∈ keys) randomness with
          | .error _ => some { s with rebuild := none }
          | .ok commitments => some { s with commitments := commitments, rebuild := none }
      | _ => none
  | .emitGossip =>
      some { s with commitments := (s.commitments.currentForGossip s.pass.world.now).1 }
  | .emitQuote =>
      some { s with commitments := (s.commitments.currentForQuote s.pass.world.now).1 }

/-- The key whose record the pass deletes in its next step. -/
def nextDeletion (s : CommittedPruning H) : Option H :=
  match s.checked, s.pass.phase with
  | none, .deleting (key :: _) => some key
  | _, _ => none

/-- The key was found in no commitment when the pass looked at it again, and it has not been dealt
with since. -/
def AwaitsDeletion (s : CommittedPruning H) (key : H) : Prop :=
  (∃ candidate, s.checked = some candidate ∧ candidate.key = key) ∨
    match s.pass.phase with
    | .revalidating _ => key ∈ s.pass.keysToDelete
    | .deleting remaining => key ∈ remaining
    | _ => False

end CommittedPruning

end AntNode
