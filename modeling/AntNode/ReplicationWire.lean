import AntNode.AuditProtocol
import AntNode.Lib.Leb128

/-!
# Replication messages on the wire

A message is serialised with `postcard` and refused above a fixed size. The serialiser is a
parameter; `writeProof` is the layout its format gives a round-one proof: integers and variant
indices as variable-length integers, a 32-byte array as its bytes, a vector as its length and items.
-/

namespace AntNode

open Leb128

variable {H : Type} [Digest H]

def replicationMessageSizeMib : Nat := 10

def maxReplicationMessageSize : Nat := replicationMessageSizeMib * 1024 * 1024

structure ReplicationMessage (H : Type) where
  requestId : Nat
  body : ReplicationMessageBody H
  deriving DecidableEq

inductive ReplicationProtocolError where
  | serializationFailed (message : String)
  | deserializationFailed (message : String)
  | messageTooLarge (size maxSize : Nat)
  deriving DecidableEq

def ReplicationMessage.encode (toStdvec : ReplicationMessage H → Except String Bytes)
    (message : ReplicationMessage H) : Except ReplicationProtocolError Bytes :=
  match toStdvec message with
  | .error e => .error (.serializationFailed e)
  | .ok bytes =>
      if bytes.length > maxReplicationMessageSize then
        .error (.messageTooLarge bytes.length maxReplicationMessageSize)
      else .ok bytes

/-! ### The layout of a proof -/

def writeCommitment (commitment : StorageCommitment H) : Bytes :=
  asBytes commitment.root ++ Leb128.encode commitment.keyCount ++ asBytes commitment.senderPeerId ++
    seq (fun byte => [byte]) commitment.senderPublicKey ++
    seq (fun byte => [byte]) commitment.signature

def writeLeaf (leaf : SubtreeLeaf H) : Bytes :=
  asBytes leaf.key ++ asBytes leaf.bytesHash ++ asBytes leaf.noncedHash

/-- `SubtreeAuditResponse` is variant 12 of the message bodies and `Proof` variant 0 of the
responses. -/
def writeProof (requestId challengeId : Nat) (commitment : StorageCommitment H)
    (proof : SubtreeProof H) : Bytes :=
  Leb128.encode requestId ++ Leb128.encode 12 ++ Leb128.encode 0 ++ Leb128.encode challengeId ++
    writeCommitment commitment ++ seq writeLeaf proof.leaves ++ seq asBytes proof.siblingCutHashes

end AntNode
