import AntNode.Commitment

/-!
# The contiguous-subtree storage proof

Both sides derive one branch of the committed tree from `(nonce, key_count)`. The responder expands
it to its leaves and the sibling cut-hashes above it; the auditor folds the leaves back up and
climbs to the root. Depth is counted from the root, and the node `(depth, slot)` covers the leaves
`[slot * span, (slot + 1) * span)` with `span = 2 ^ (D - depth)`, cut at the key count.

Key counts are at most `10 ^ 6`, so slots and spans stay below `2 ^ 21` and the source's saturating
`u64` arithmetic never saturates; it is written as plain arithmetic.
-/

namespace AntNode

variable {H : Type} [Digest H]

def smallTreeFullAuditFloor : Nat := 4

structure SubtreeLeaf (H : Type) where
  key : H
  bytesHash : H
  noncedHash : H
  deriving DecidableEq

/-- Every leaf of the selected subtree, ascending, and one sibling hash per level above its root,
root first. -/
structure SubtreeProof (H : Type) where
  leaves : List (SubtreeLeaf H)
  siblingCutHashes : List H
  deriving DecidableEq

structure SubtreePath where
  depth : Nat
  slot : Nat
  leafStart : Nat
  leafEnd : Nat
  deriving DecidableEq

def SubtreePath.realLeafCount (path : SubtreePath) : Nat := path.leafEnd - path.leafStart

/-- `D = ceil(log2(key_count))`: the exponent of the next power of two. -/
def treeDepth (keyCount : Nat) : Option Nat :=
  if keyCount = 0 ∨ keyCount > maxCommitmentKeyCount then none else some (Nat.clog 2 keyCount)

def realLeavesUnder (depth slot keyCount totalDepth : Nat) : Nat :=
  let span := 2 ^ (totalDepth - depth)
  min ((slot + 1) * span) keyCount - min (slot * span) keyCount

/-- The Newton loop of `sqrt_floor`. -/
def sqrtLoop (n x y : Nat) : Nat :=
  if y < x then sqrtLoop n y ((y + n / y) / 2) else x
termination_by x

/-- `ceil(sqrt(key_count))`, the real-leaf floor of a selected subtree. -/
def sqrtFloor (keyCount : Nat) : Nat :=
  if keyCount ≤ 1 then 1
  else
    let x := sqrtLoop keyCount keyCount ((keyCount + 1) / 2)
    max (if x * x = keyCount then x else x + 1) 1

/-- Bit `index` of the nonce, bit 0 being the top bit of byte 0. -/
def nonceBit (nonce : Nonce) (index : Nat) : Bool :=
  nonce[index / 8]?.any fun byte => (byte >>> UInt8.ofNat (7 - index % 8)) &&& 1 == 1

/-- The child the nonce picks below `(depth, slot)`: a set bit goes left. -/
def childSlot (nonce : Nonce) (depth slot : Nat) : Nat :=
  slot * 2 + (if nonceBit nonce depth then 0 else 1)

/-- The descent of `select_subtree_path`: follow the nonce while the picked child still has `floor`
real leaves. `remaining` is `total_depth - depth`. -/
def descend (nonce : Nonce) (keyCount totalDepth floor : Nat) : Nat → Nat → Nat → Nat × Nat
  | 0, depth, slot => (depth, slot)
  | remaining + 1, depth, slot =>
      let child := childSlot nonce depth slot
      if realLeavesUnder (depth + 1) child keyCount totalDepth < floor then (depth, slot)
      else descend nonce keyCount totalDepth floor remaining (depth + 1) child

def selectSubtreePath (nonce : Nonce) (keyCount : Nat) : Option SubtreePath :=
  (treeDepth keyCount).map fun totalDepth =>
    if keyCount ≤ smallTreeFullAuditFloor then ⟨0, 0, 0, keyCount⟩
    else
      let (depth, slot) := descend nonce keyCount totalDepth (sqrtFloor keyCount) totalDepth 0 0
      let span := 2 ^ (totalDepth - depth)
      ⟨depth, slot, min (slot * span) keyCount, min ((slot + 1) * span) keyCount⟩

/-! ### The reproducible sample -/

def u32ToLeBytes (n : Nat) : Bytes := (List.range 4).map fun i => UInt8.ofNat (n / 256 ^ i)

def u32FromLeBytes (bytes : Bytes) : Nat :=
  bytes.foldr (fun byte higher => byte.toNat + 256 * higher) 0

def domainSpotcheck : Bytes := tagBytes "autonomi.ant.replication.audit_spotcheck.v1"

/-- The `counter`-th word of the hash stream. -/
def spotcheckWord (H : Type) [Digest H] (nonce : Nonce) (counter : Nat) : Nat :=
  let digest : H := blake3 (domainSpotcheck ++ nonce.toList ++ u32ToLeBytes counter)
  u32FromLeBytes ((asBytes digest).take 4)

def pushIndex (idx : Nat) (out : List Nat) : List Nat := if idx ∈ out then out else out ++ [idx]

/-- The draws of `select_spotcheck_indices`, with `u32` arithmetic. Nothing is returned where `fuel`
does not last until the loop is left. -/
def drawIndices (word : Nat → Nat) (n k : Nat) : Nat → Nat → List Nat → Option (List Nat)
  | 0, _, _ => none
  | fuel + 1, counter, out =>
      if min out.length (2 ^ 32 - 1) < k then
        let out := pushIndex (word counter % n) out
        let counter := (counter + 1) % 2 ^ 32
        if min (k * 64) (2 ^ 32 - 1) < counter then some out
        else drawIndices word n k fuel counter out
      else some out

/-- The top-up with the lowest indices that are not yet selected. -/
def fillIndices (k : Nat) : List Nat → List Nat → List Nat
  | [], out => out
  | candidate :: rest, out =>
      if min out.length (2 ^ 32 - 1) < k then fillIndices k rest (pushIndex candidate out) else out

def selectSpotcheckIndices (H : Type) [Digest H] (fuel : Nat) (nonce : Nonce) (path : SubtreePath)
    (k : Nat) : Option (List Nat) :=
  let n := path.realLeafCount
  if n = 0 then some []
  else if n ≤ k then some (List.range n)
  else (drawIndices (spotcheckWord H nonce) n k fuel 0 []).map (fillIndices k (List.range n))

inductive StructureVerdict where
  | valid
  | invalid (reason : String)
  deriving DecidableEq

/-- The `windows(2)` check: neighbours are strictly ascending by key. -/
def ascendingByKey : List (SubtreeLeaf H) → Bool
  | a :: b :: rest => decide (a.key < b.key) && ascendingByKey (b :: rest)
  | _ => true

def foldLevels (level : List H) (levels : Nat) : H :=
  if level = [] then Digest.zero
  else ((buildNextLevel)^[levels] level).head?.getD Digest.zero

/-- Phase B of the verifier: climb `levels` cut-hashes, the lowest being the last one. -/
def climbCutHashes (cutHashes : List H) : Nat → Nat → H → Except String H
  | 0, _, cur => .ok cur
  | levelAbove + 1, nodeIndex, cur =>
      match cutHashes[levelAbove]? with
      | none => .error "missing cut-hash"
      | some sibling =>
          climbCutHashes cutHashes levelAbove (nodeIndex / 2)
            (if nodeIndex % 2 = 0 then nodeHash cur sibling else nodeHash sibling cur)

def verifySubtreeProof (proof : SubtreeProof H) (nonce : Nonce) (commitment : StorageCommitment H) :
    StructureVerdict :=
  match selectSubtreePath nonce commitment.keyCount with
  | none => .invalid "out-of-protocol key_count"
  | some path =>
      if proof.leaves.length ≠ path.realLeafCount then .invalid "wrong leaf count"
      else if proof.siblingCutHashes.length ≠ path.depth then .invalid "wrong cut-hash count"
      else if ¬ascendingByKey proof.leaves then .invalid "leaves not strictly ascending"
      else
        match treeDepth commitment.keyCount with
        | none => .invalid "out-of-protocol key_count"
        | some totalDepth =>
            let leafHashes := proof.leaves.map fun leaf => leafHash leaf.key leaf.bytesHash
            let subtreeRoot := foldLevels leafHashes (totalDepth - path.depth)
            match climbCutHashes proof.siblingCutHashes path.depth path.slot subtreeRoot with
            | .error reason => .invalid reason
            | .ok cur => if cur = commitment.root then .valid else .invalid "root mismatch"

def noncedLeafHash (nonce : Nonce) (challengedPeerId key : H) (recordBytes : Bytes) : H :=
  computeAuditDigest nonce challengedPeerId key recordBytes

inductive BuildProofError (H : Type) where
  | badKeyCount
  | missingKey (leafIndex : Nat)
  | missingBytes (key : H)
  deriving DecidableEq

structure SubtreePlan (H : Type) where
  leafKeys : List H
  siblingCutHashes : List H
  deriving DecidableEq

def okOr {α ε : Type} (value : Option α) (error : ε) : Except ε α :=
  value.elim (.error error) .ok

/-- The cut-hash loop of `subtree_plan`, root first. A sibling past the right edge is the chosen
node itself. `remaining` counts the descent steps left, `d` the steps taken. -/
def cutHashes (tree : MerkleTree H) (nonce : Nonce) (totalDepth : Nat) :
    Nat → Nat → Nat → Except (BuildProofError H) (List H)
  | 0, _, _ => .ok []
  | remaining + 1, d, slot => do
      let child := childSlot nonce d slot
      let level := totalDepth - (d + 1)
      let sib ← okOr ((tree.nodeAt level (child ^^^ 1)).or (tree.nodeAt level child)) .badKeyCount
      let below ← cutHashes tree nonce totalDepth remaining (d + 1) child
      return sib :: below

def subtreePlan (tree : MerkleTree H) (nonce : Nonce) :
    Except (BuildProofError H) (SubtreePlan H) := do
  let path ← okOr (selectSubtreePath nonce tree.keyCount) .badKeyCount
  let leafKeys ← (List.range' path.leafStart path.realLeafCount).mapM fun idx =>
    okOr (tree.keyAt idx) (.missingKey idx)
  let siblings ← cutHashes tree nonce (tree.levelsCount - 1) path.depth 0 0
  return ⟨leafKeys, siblings⟩

def subtreeLeaf (nonce : Nonce) (challengedPeerId key : H) (bytes : Bytes) : SubtreeLeaf H :=
  { key := key
    bytesHash := blake3 bytes
    noncedHash := noncedLeafHash nonce challengedPeerId key bytes }

def buildSubtreeProof (tree : MerkleTree H) (nonce : Nonce) (challengedPeerId : H)
    (bytesFor : H → Option Bytes) : Except (BuildProofError H) (SubtreeProof H) := do
  let plan ← subtreePlan tree nonce
  let leaves ← plan.leafKeys.mapM fun key => do
    let bytes ← okOr (bytesFor key) (.missingBytes key)
    return subtreeLeaf nonce challengedPeerId key bytes
  return ⟨leaves, plan.siblingCutHashes⟩

end AntNode
