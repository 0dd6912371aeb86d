import Mathlib.Order.Basic
import Mathlib.Tactic

/-!
# Digests, names and domain tags

Every 32-byte name of the node (chunk addresses, peer ids, Merkle nodes, pins) is a BLAKE3 digest
or is compared with one, so they share one type `H` here. It is a parameter: the results that treat
the hash as collision-free need a type on which an injective pairing exists, and `[u8; 32]` is not
one. What the code does with such a value is order it, write its bytes into a hasher and compare it
with another; that is all the class asks for.
-/

namespace AntNode

abbrev Bytes := List UInt8

/-- The names of the node, with the hash that produces them. `zero` is `[0u8; 32]`, which the code
falls back to on branches it documents as unreachable; `asBytes` is what `update` feeds to a hasher.
-/
class Digest (H : Type) extends LinearOrder H where
  zero : H
  asBytes : H → Bytes
  blake3 : Bytes → H

export Digest (asBytes blake3)

/-- Membership in a list of names, or of anything else with decidable equality. -/
instance (priority := high) decidableMemList {α : Type*} [DecidableEq α] (a : α) (l : List α) :
    Decidable (a ∈ l) :=
  List.instDecidableMemOfLawfulBEq a l

abbrev Nonce := Vector UInt8 32

def hexDigit (n : Nat) : Char := "0123456789abcdef".toList[n]?.getD '0'

def hexEncode (bytes : Bytes) : String :=
  String.ofList (bytes.flatMap fun byte => [hexDigit (byte.toNat / 16), hexDigit (byte.toNat % 16)])

def tagBytes (tag : String) : Bytes := tag.toUTF8.data.toList

def domainLeaf : Bytes := tagBytes "autonomi.ant.replication.storage_leaf.v1"

def domainNode : Bytes := tagBytes "autonomi.ant.replication.storage_node.v1"

variable {H : Type} [Digest H]

def leafHash (key bytesHash : H) : H :=
  blake3 (domainLeaf ++ asBytes key ++ asBytes bytesHash)

def nodeHash (left right : H) : H :=
  blake3 (domainNode ++ asBytes left ++ asBytes right)

def computeAuditDigest (nonce : Nonce) (challengedPeerId key : H) (recordBytes : Bytes) : H :=
  blake3 (nonce.toList ++ asBytes challengedPeerId ++ asBytes key ++ recordBytes)

end AntNode
