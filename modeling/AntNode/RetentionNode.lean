import AntNode.CommitmentState

/-!
# A node that rotates, emits, persists and crashes

Three tasks share the retention state: the rotation loop rebuilds the commitment from the store, the
emission sites hand out the advertised one, and the persist loop writes a snapshot to disk when it
changed. They interleave freely, and the process may stop at any point; what it starts again with is
the file, if it can read it. `RetentionNode` is that system, one event a step.

The rotation reads the advertised commitment and installs the new one in two critical sections. No
other task changes which commitment is advertised, so taking the two as one step loses nothing.
-/

namespace AntNode

variable {H : Type} [Digest H] [CommitmentProtocol H]

/-- Who the node signs as. Signing is randomised, so it takes its randomness as an argument. -/
structure NodeIdentity (H : Type) where
  peerId : H
  publicKey : Bytes
  sign : Nat → H → Nat → H → Bytes → Except (CommitmentError H) Bytes

/-- Rebuild the commitment from the stored keys and rotate to it. Only keys the node is responsible
for are committed, each with its own key as the content hash. An unchanged root is not signed
again. -/
def rebuildAndRotateCommitment (identity : NodeIdentity H) (state : ResponderCommitmentState H)
    (now : Nat) (storedKeys : List H) (isResponsible : H → Bool) (randomness : Nat) :
    Except (CommitmentError H) (ResponderCommitmentState H) := do
  let keys := storedKeys.filter isResponsible
  if keys.isEmpty then
    if storedKeys.isEmpty then
      return if state.retainedSlotCount > 0 then state.clearAll else state
    return state.retireCurrent now
  let candidateTree ← MerkleTree.build ((keys.take maxCommitmentKeyCount).map fun key => (key, key))
  if state.current.any fun current => decide (current.commitment.root = candidateTree.root) then
    return state.ageOut now
  let built ← BuiltCommitment.buildFromTree candidateTree identity.peerId identity.publicKey
    (identity.sign randomness)
  return state.rotate built now

variable [Postcard H]

/-- What a starting node reloads: nothing from a missing, unreadable or corrupt file. -/
def loadCommitmentRetention (disk : Option Bytes) (now : Clock) : ResponderCommitmentState H :=
  match disk.bind PersistedRetention.fromBytes with
  | none => ResponderCommitmentState.new
  | some persisted => ResponderCommitmentState.restore persisted now

structure HandedOut (H : Type) where
  hash : H
  handedAt : Nat
  deriving DecidableEq

/-- The node, its retention file, the bytes its persist loop wrote last and those of a write in
progress, and the pins it handed out: all of them, those since the snapshot on disk was taken, and
those since the snapshot being written was taken. -/
structure RetentionNode (H : Type) [Digest H] [CommitmentProtocol H] where
  state : ResponderCommitmentState H
  clock : Clock
  disk : Option Bytes
  last : Option Bytes
  writing : Option Bytes
  handedOut : List (HandedOut H)
  unflushed : List (HandedOut H)
  sinceSnapshot : List (HandedOut H)

/-- How a write ends. The rename is visible before the directory is synced, and a failed sync is
reported as a failed write. -/
inductive WriteOutcome where
  | written
  | renamedUnsynced
  | failed
  deriving DecidableEq

inductive RetentionEvent (H : Type) where
  | tick (elapsed : Nat)
  | rotate (storedKeys : List H) (isResponsible : H → Bool) (randomness : Nat)
  | emitGossip
  | emitQuote
  | persistBegin
  | persistEnd (outcome : WriteOutcome)
  | crash (downtime mono : Nat) (readable : Bool)

namespace RetentionNode

def fresh (clock : Clock) : RetentionNode H where
  state := .new
  clock := clock
  disk := none
  last := none
  writing := none
  handedOut := []
  unflushed := []
  sinceSnapshot := []

def handOut (node : RetentionNode H)
    (result : ResponderCommitmentState H × Option (BuiltCommitment H)) : RetentionNode H :=
  match result.2 with
  | none => { node with state := result.1 }
  | some built =>
      let pin := ⟨built.cachedHash, node.clock.wall⟩
      { node with
        state := result.1
        handedOut := pin :: node.handedOut
        unflushed := pin :: node.unflushed
        sinceSnapshot := pin :: node.sinceSnapshot }

/-- `persist_retention_if_changed` up to the write. Unchanged bytes are not written again. -/
def persistBegin (node : RetentionNode H) : RetentionNode H :=
  match node.writing, (node.state.snapshot node.clock).toBytes with
  | none, some bytes =>
      if node.last = some bytes then
        { node with unflushed := if node.disk = some bytes then [] else node.unflushed }
      else { node with writing := some bytes, sinceSnapshot := [] }
  | _, _ => node

def persistEnd (node : RetentionNode H) (outcome : WriteOutcome) : RetentionNode H :=
  match node.writing with
  | none => node
  | some bytes =>
      match outcome with
      | .written =>
          { node with
            disk := some bytes
            last := some bytes
            writing := none
            unflushed := node.sinceSnapshot }
      | .renamedUnsynced =>
          { node with disk := some bytes, writing := none, unflushed := node.sinceSnapshot }
      | .failed => { node with writing := none }

def crash (node : RetentionNode H) (now : Clock) (readable : Bool) : RetentionNode H where
  state := loadCommitmentRetention (if readable then node.disk else none) now
  clock := now
  disk := node.disk
  last := none
  writing := none
  handedOut := node.handedOut
  unflushed := node.unflushed
  sinceSnapshot := []

def step (identity : NodeIdentity H) (node : RetentionNode H) :
    RetentionEvent H → RetentionNode H
  | .tick elapsed =>
      { node with clock := ⟨node.clock.mono + elapsed, node.clock.wall + elapsed⟩ }
  | .rotate storedKeys isResponsible randomness =>
      match rebuildAndRotateCommitment identity node.state node.clock.mono storedKeys isResponsible
        randomness with
      | .error _ => node
      | .ok state => { node with state := state }
  | .emitGossip => node.handOut (node.state.currentForGossip node.clock.mono)
  | .emitQuote => node.handOut (node.state.currentForQuote node.clock.mono)
  | .persistBegin => node.persistBegin
  | .persistEnd outcome => node.persistEnd outcome
  | .crash downtime mono readable => node.crash ⟨mono, node.clock.wall + downtime⟩ readable

def InWindow (node : RetentionNode H) (pin : HandedOut H) : Prop :=
  node.clock.wall < pin.handedAt + gossipAnswerabilityTtl

end RetentionNode

end AntNode
