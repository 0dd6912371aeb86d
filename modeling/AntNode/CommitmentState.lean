import AntNode.Commitment

/-!
# The responder's retention of its commitments

A node signs a commitment, puts it on the wire, rotates to the next one, and has to keep answering
for the old one until its answerability window ends. Three pieces of state decide that: the slots,
whether the first slot is the advertised one, and the stamps, each with the instant at which it
expires. Every method takes the write lock once, so each is one function on the state.

An `Instant` and a `SystemTime` are nanosecond counts; a `SystemTime` counts from the Unix epoch.
The `checked_add`s of the source only fail centuries past anything either type can hold.
-/

namespace AntNode

/-- The commitment functions the node takes from `ant_protocol`. -/
class CommitmentProtocol (H : Type) [Digest H] where
  commitmentHash : StorageCommitment H → Option H
  verifyCommitmentSignature : StorageCommitment H → Bool

export CommitmentProtocol (commitmentHash verifyCommitmentSignature)

variable {H : Type} [Digest H] [CommitmentProtocol H]

structure BuiltCommitment (H : Type) [Digest H] [CommitmentProtocol H] where
  commitment : StorageCommitment H
  cachedHash : H
  tree : MerkleTree H
  root_eq : tree.root = commitment.root
  keyCount_eq : tree.keyCount = commitment.keyCount
  hash_eq : commitmentHash commitment = some cachedHash

namespace BuiltCommitment

/-- Sign and wrap a tree. `sign` is the ML-DSA call under the node's secret key; it is randomised,
so it is an argument of every call. -/
def buildFromTree (tree : MerkleTree H) (senderPeerId : H) (senderPublicKey : Bytes)
    (sign : H → Nat → H → Bytes → Except (CommitmentError H) Bytes) :
    Except (CommitmentError H) (BuiltCommitment H) :=
  match sign tree.root tree.keyCount senderPeerId senderPublicKey with
  | .error e => .error e
  | .ok signature =>
      let commitment := ⟨tree.root, tree.keyCount, senderPeerId, senderPublicKey, signature⟩
      match hhash : commitmentHash commitment with
      | none => .error (.signatureFailed "commitment serialization failed")
      | some cachedHash => .ok ⟨commitment, cachedHash, tree, rfl, rfl, hhash⟩

def build (entries : List (H × H)) (senderPeerId : H) (senderPublicKey : Bytes)
    (sign : H → Nat → H → Bytes → Except (CommitmentError H) Bytes) :
    Except (CommitmentError H) (BuiltCommitment H) := do
  let tree ← MerkleTree.build entries
  buildFromTree tree senderPeerId senderPublicKey sign

/-- Reattach a persisted commitment to a rebuilt tree, without signing again. -/
def fromPersisted (commitment : StorageCommitment H) (tree : MerkleTree H) :
    Option (BuiltCommitment H) :=
  if htree : tree.root = commitment.root ∧ tree.keyCount = commitment.keyCount then
    if verifyCommitmentSignature commitment then
      match hhash : commitmentHash commitment with
      | none => none
      | some cachedHash => some ⟨commitment, cachedHash, tree, htree.1, htree.2, hhash⟩
    else none
  else none

variable (built : BuiltCommitment H)

def proofFor (key : H) : Option (List H × Nat) :=
  (built.tree.keyIndex key).bind fun idx => (built.tree.pathFor key).map fun path => (path, idx)

def containsKey (key : H) : Bool := built.tree.containsKey key

def leafKeys : List H := built.tree.leafKeys

end BuiltCommitment

def nanosPerSec : Nat := 1000000000

def maxRetainedGossipedSlots : Nat := 16

def gossipAnswerabilityTtl : Nat := 3 * 3600 * nanosPerSec

def restartStampGrace : Nat := 5 * 60 * nanosPerSec

structure GossipedAt (H : Type) where
  hash : H
  expiresAt : Nat
  deriving DecidableEq

/-- Slots and stamps are newest first; `hasCurrent` says whether the first slot is advertised. -/
structure ResponderCommitmentState (H : Type) [Digest H] [CommitmentProtocol H] where
  slots : List (BuiltCommitment H)
  hasCurrent : Bool
  recentlyGossiped : List (GossipedAt H)

namespace ResponderCommitmentState

def new : ResponderCommitmentState H := ⟨[], false, []⟩

/-- The slots to keep: the first one while it is advertised, and those with a live stamp. -/
def retainSlots (hasCurrent : Bool) (live : List H) (slots : List (BuiltCommitment H)) :
    List (BuiltCommitment H) :=
  (slots.zipIdx.filter fun slot =>
    (hasCurrent && slot.2 == 0) || live.contains slot.1.cachedHash).map Prod.fst

/-- Enforce retention as of `now`: drop the expired stamps, then every slot that is neither the
advertised one nor stamped. -/
def pruneSlots (inner : ResponderCommitmentState H) (now : Nat) : ResponderCommitmentState H :=
  let recentlyGossiped := inner.recentlyGossiped.filter fun g => decide (now < g.expiresAt)
  let live := recentlyGossiped.map GossipedAt.hash
  let slots := retainSlots inner.hasCurrent live inner.slots
  { slots := slots
    hasCurrent := inner.hasCurrent && !slots.isEmpty
    recentlyGossiped := recentlyGossiped }

def markGossipedLocked (inner : ResponderCommitmentState H) (hash : H) (now : Nat) :
    ResponderCommitmentState H :=
  let others := inner.recentlyGossiped.filter fun g => decide (g.hash ≠ hash)
  let recentlyGossiped := (⟨hash, now + gossipAnswerabilityTtl⟩ :: others).take
    maxRetainedGossipedSlots
  pruneSlots { inner with recentlyGossiped := recentlyGossiped } now

variable (state : ResponderCommitmentState H)

def rotate (newCurrent : BuiltCommitment H) (now : Nat) : ResponderCommitmentState H :=
  pruneSlots { state with slots := newCurrent :: state.slots, hasCurrent := true } now

def retireCurrent (now : Nat) : ResponderCommitmentState H :=
  pruneSlots { state with hasCurrent := false } now

def markGossiped (hash : H) (now : Nat) : ResponderCommitmentState H :=
  markGossipedLocked state hash now

def current : Option (BuiltCommitment H) :=
  if state.hasCurrent then state.slots.head? else none

/-- Take the advertised commitment and stamp it, in one critical section: the common body of
`current_for_gossip` and `current_for_quote`. -/
def snapshotAndStamp (now : Nat) : ResponderCommitmentState H × Option (BuiltCommitment H) :=
  match state.current with
  | none => (state, none)
  | some built => (markGossipedLocked state built.cachedHash now, some built)

def currentForGossip (now : Nat) : ResponderCommitmentState H × Option (BuiltCommitment H) :=
  snapshotAndStamp state now

def currentForQuote (now : Nat) : ResponderCommitmentState H × Option (BuiltCommitment H) :=
  snapshotAndStamp state now

def ageOut (now : Nat) : ResponderCommitmentState H := pruneSlots state now

def lookupByHash (hash : H) : Option (BuiltCommitment H) :=
  state.slots.find? fun built => decide (built.cachedHash = hash)

def isHeld (key : H) : Bool := state.slots.any fun built => built.containsKey key

def retainedSlotCount : Nat := state.slots.length

/-- Drop every slot. The store became empty, so there is nothing left to answer for. -/
def clearAll (_state : ResponderCommitmentState H) : ResponderCommitmentState H := ⟨[], false, []⟩

end ResponderCommitmentState

/-! ### Persistence -/

structure Clock where
  mono : Nat
  wall : Nat
  deriving DecidableEq

structure PersistedSlot (H : Type) where
  commitment : StorageCommitment H
  leafKeys : List H
  expiresAtUnix : Option Nat
  deriving DecidableEq

def retentionFormatVersion : Nat := 1

structure PersistedRetention (H : Type) where
  version : Nat
  slots : List (PersistedSlot H)
  hasCurrent : Bool
  deriving DecidableEq

/-- The `postcard` codec of a persisted snapshot. -/
class Postcard (H : Type) where
  toAllocvec : PersistedRetention H → Option Bytes
  fromPostcard : Bytes → Option (PersistedRetention H)

namespace PersistedRetention

variable [Postcard H]

def toBytes (persisted : PersistedRetention H) : Option Bytes := Postcard.toAllocvec persisted

/-- Decode a snapshot. Another format version is rejected like a corrupt blob. -/
def fromBytes (bytes : Bytes) : Option (PersistedRetention H) :=
  (Postcard.fromPostcard bytes).filter fun this => this.version == retentionFormatVersion

end PersistedRetention

/-- The persisted deadline of a stamp: now plus what remains, cut to whole seconds. -/
def expiryToUnix (expiresAt : Nat) (now : Clock) : Option Nat :=
  let remaining := expiresAt - now.mono
  if remaining = 0 then none else some ((now.wall + remaining) / nanosPerSec)

/-- Back to the monotonic clock. The grace is added before the deadline is tested, and what remains
is clamped to one window plus the grace. The additions of the source are checked and give up where
they leave the range of the clocks, which no deadline that a snapshot writes comes near. -/
def wallExpiryToInstant (expiresUnix : Nat) (now : Clock) : Option Nat :=
  let remaining := expiresUnix * nanosPerSec + restartStampGrace - now.wall
  if remaining = 0 then none
  else some (now.mono + min remaining (gossipAnswerabilityTtl + restartStampGrace))

namespace ResponderCommitmentState

def stampOf (state : ResponderCommitmentState H) (hash : H) : Option (GossipedAt H) :=
  state.recentlyGossiped.find? fun g => decide (g.hash = hash)

def persistSlot (state : ResponderCommitmentState H) (now : Clock) (built : BuiltCommitment H) :
    PersistedSlot H :=
  { commitment := built.commitment
    leafKeys := built.leafKeys
    expiresAtUnix := (state.stampOf built.cachedHash).bind fun g => expiryToUnix g.expiresAt now }

def snapshot (state : ResponderCommitmentState H) (now : Clock) : PersistedRetention H :=
  { version := retentionFormatVersion
    slots := state.slots.map (state.persistSlot now)
    hasCurrent := state.hasCurrent }

/-- Rebuild one slot. The leaves are content-addressed, so the keys alone give the tree, and it
counts only if it has the signed root. -/
def restoreSlot (slot : PersistedSlot H) : Option (BuiltCommitment H) :=
  match MerkleTree.build (slot.leafKeys.map fun key => (key, key)) with
  | .error _ => none
  | .ok tree => BuiltCommitment.fromPersisted slot.commitment tree

def restoreEntry (now : Clock) (slot : PersistedSlot H) :
    Option (BuiltCommitment H × Option (GossipedAt H)) :=
  (restoreSlot slot).map fun built =>
    (built, (slot.expiresAtUnix.bind fun expiresUnix => wallExpiryToInstant expiresUnix now).map
      fun expiresAt => ⟨built.cachedHash, expiresAt⟩)

/-- Reload a persisted snapshot. A slot that cannot be rebuilt is skipped, and the first one only
stays advertised if it was not. -/
def restore (persisted : PersistedRetention H) (now : Clock) : ResponderCommitmentState H :=
  let restored := persisted.slots.filterMap (restoreEntry now)
  let firstSlotRestored := (persisted.slots.head?.bind restoreSlot).isSome
  pruneSlots
    { slots := restored.map Prod.fst
      hasCurrent := persisted.hasCurrent && firstSlotRestored
      recentlyGossiped := restored.filterMap Prod.snd } now.mono

end ResponderCommitmentState

/-! ### What an auditor keeps of its peers -/

/-- The last commitment a peer gossiped. Only `from_verified`, `set_commitment` and
`clear_commitment` write it, and they keep the cached hash in step. -/
structure PeerCommitmentRecord (H : Type) [Digest H] [CommitmentProtocol H] where
  lastCommitment : Option (StorageCommitment H)
  cachedHash : Option H
  receivedAt : Nat
  cachedHash_eq : cachedHash = lastCommitment.bind commitmentHash

end AntNode
