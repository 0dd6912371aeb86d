import AntNode.HintAdmission
import AntNode.ReplicationWire

/-!
# Both ends of a verification round

One request to each peer carries all the keys it is asked about, and the places of those whose
paid-list status is asked as well. The peer looks every key up and answers in the same order. An index
is a `u32`, and so is the number of keys it is compared with.

What becomes of a request on its way is a parameter; a request that is answered has been encoded, and
with it every key it carries. The logging is left out.
-/

namespace AntNode

variable {H : Type} [Digest H]

structure VerificationRequest (H : Type) where
  keys : List H
  paidListCheckIndices : List Nat
  deriving DecidableEq

/-- The request of a round to one of its peers. -/
def VerificationTargets.request (targets : VerificationTargets H) (peer : H) :
    VerificationRequest H :=
  let peerKeys := (targets.peerToKeys.lookup peer).getD []
  let paidIndices := peerKeys.zipIdx.filterMap fun (key, i) =>
    if targets.asksPaid peer key && decide (i < 2 ^ 32) then some i else none
  ⟨peerKeys, paidIndices⟩

/-- What a peer reads when it is asked. -/
structure PeerStore (H : Type) where
  storageExists : H → Except String Bool
  paidListContains : H → Except String Bool

namespace PeerStore

/-- `storage.exists(key).unwrap_or(false)` -/
def holds (store : PeerStore H) (key : H) : Bool :=
  Admission.unwrapOrFalse (store.storageExists key)

/-- `paid_list.contains(key).unwrap_or(false)` -/
def hasPaid (store : PeerStore H) (key : H) : Bool :=
  Admission.unwrapOrFalse (store.paidListContains key)

end PeerStore

def handleVerificationRequest (store : PeerStore H) (request : VerificationRequest H) :
    VerificationResponse H :=
  let keysLen := request.keys.length % 2 ^ 32
  let paidCheckSet :=
    (request.paidListCheckIndices.filter fun idx => decide (idx < keysLen)).toFinset
  ⟨request.keys.zipIdx.map fun (key, i) =>
    { key := key
      present := store.holds key
      paid :=
        if (if i < 2 ^ 32 then i else 2 ^ 32 - 1) ∈ paidCheckSet then some (store.hasPaid key)
        else none }⟩

/-- The peers of a round. `answers` says whether a request is encoded, sent and answered in time, by
a message that decodes. -/
structure PeerNetwork (H : Type) where
  store : H → PeerStore H
  answers : H → VerificationRequest H → Bool
  fits : ∀ peer request, answers peer request = true →
    32 * request.keys.length ≤ maxReplicationMessageSize

/-- What comes of the request to a peer that keeps to the protocol. -/
def PeerNetwork.outcome (net : PeerNetwork H) (targets : VerificationTargets H) (peer : H) :
    PeerOutcome H :=
  if net.answers peer (targets.request peer) then
    .response (handleVerificationRequest (net.store peer) (targets.request peer))
  else .failed

end AntNode
