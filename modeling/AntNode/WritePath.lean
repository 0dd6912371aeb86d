import AntNode.HintAdmission
import AntNode.VerifiedCache

/-!
# The write path

A chunk reaches the store of a node through a client's PUT or through the fresh offer of a node that
accepted one; a paid notify adds its key to the paid list alone. Each request is checked, admitted
against the routing table, paid for, and only then written. Requests run beside each other and pause
at every await: before the routing table answers, inside `verify_payment`, before the paid list and
before the store. What the store, the paid list and the routing table answer is part of each event.

A PUT that was stored with a proof is handed to the drainer, which adds the key to the paid list and
offers the chunk to the close group and the proof to the paid close group. The rest of the node
fetches chunks, verifies paid keys, and deletes both.

`verify_payment` fails with payment errors only. Logging, the quoting metric and the permits of the
senders are left out.
-/

namespace AntNode

/-- The cases of `ProtocolError` that a PUT answers with. -/
inductive ChunkPutError (H : Type) where
  | chunkTooLarge (size maxSize : Nat)
  | addressMismatch (expected actual : H)
  | storageFailed (message : String)
  | paymentFailed (message : String)
  | internal (message : String)
  deriving DecidableEq

inductive ChunkPutResponse (H : Type) where
  | success (address : H)
  | alreadyExists (address : H)
  | paymentRequired (message : String)
  | error (e : ChunkPutError H)
  deriving DecidableEq

inductive FreshReplicationResponse (H : Type) where
  | accepted (key : H)
  | rejected (key : H) (reason : String)
  deriving DecidableEq

structure ChunkPutRequest (H : Type) where
  address : H
  content : Bytes
  paymentProof : Option Bytes

structure FreshReplicationOffer (H : Type) where
  key : H
  data : Bytes
  proofOfPayment : Bytes
  deriving DecidableEq

structure PaidNotify (H : Type) where
  key : H
  proofOfPayment : Bytes
  deriving DecidableEq

structure FreshWriteEvent (H : Type) where
  key : H
  data : Bytes
  paymentProof : Bytes
  deriving DecidableEq

inductive WriteRequest (H : Type) where
  | put (request : ChunkPutRequest H)
  | offer (source : H) (offer : FreshReplicationOffer H)
  | notify (notify : PaidNotify H)

/-- What a request ends with. A paid notify has no response. -/
inductive WriteReply (H : Type) where
  | put (response : ChunkPutResponse H)
  | offer (response : FreshReplicationResponse H)
  | notify
  deriving DecidableEq

/-- The serializers of `ant_protocol`. -/
class ProofSerializer (H : Type) where
  serializeSingleNodeProof : SingleNodeProof H → Option Bytes
  serializeMerkleProof : MerklePaymentProof H → Option Bytes

structure WriteContext (H : Type) where
  selfId : H
  config : ReplicationConfig
  maxChunkSize : Nat
  /-- Whether the replication engine takes fresh writes. -/
  freshWriteTx : Bool

/-- Where a request pauses. -/
inductive WritePhase (H : Type) where
  | received
  | admitting
  | paying
  | insertingPaid
  | storing
  | replied (reply : WriteReply H)
  | dropped
  deriving DecidableEq

/-- What a fresh write sends, to whom, and the peers whose possession of the key is checked later. -/
structure FanOut (H : Type) where
  key : H
  offers : List (H × FreshReplicationOffer H)
  notifies : List (H × PaidNotify H)
  possessionPeers : List H
  deriving DecidableEq

structure WriteNode (H : Type) where
  payments : PaymentSystem H
  chunks : FiniteMap H Bytes
  paidList : Finset H
  phase : Nat → WritePhase H
  freshWrites : List (FreshWriteEvent H)
  fanOuts : List (FanOut H)
  trustReports : List H

inductive WriteEvent (H : Type) [Digest H] [CommitmentProtocol H] where
  | check (id : Nat) (existsFails : Option String) (capacity : Except String Unit)
  | admission (id : Nat) (routing : Option (RoutingTable H)) (capacity : Except String Unit)
  | payment (e : PaymentEvent H)
  | paid (id : Nat)
  | insertPaid (id : Nat) (inserted : Bool)
  | store (id : Nat) (outcome : Except String Unit)
  | replicate (inserted : Bool) (routing notifyRouting : RoutingTable H)
      (encodesOffer encodesNotify : Bool)
  | fetched (key : H) (data : Bytes)
  | paidByNetwork (key : H)
  | deleteChunk (key : H)
  | removePaid (key : H)

variable {H : Type} [Digest H] [CommitmentProtocol H] [QuoteProtocol H] [MerkleProtocol H]
  [ProofCodec H] [ProofSerializer H]

def PaymentStatus.canStore : PaymentStatus → Bool
  | .cachedAsVerified | .paymentVerified => true
  | .paymentRequired => false

def selfClosenessGateWidth : Nat := kBucketSize

def freshOfferPaymentContext : VerificationContext := .clientPut

def paidNotifyPaymentContext : VerificationContext := .paidListAdmission

def stripCommitmentSidecars (H : Type) [Digest H] [CommitmentProtocol H] [MerkleProtocol H]
    [ProofCodec H] [ProofSerializer H] (proof : Bytes) : Bytes :=
  match ProofCodec.detectProofType H proof with
  | some .singleNode =>
      match ProofCodec.deserializeSingleNodeProof (H := H) proof with
      | .ok parsed =>
          if parsed.commitmentSidecars = [] then proof
          else
            (ProofSerializer.serializeSingleNodeProof
              { parsed with commitmentSidecars := [] }).getD proof
      | .error _ => proof
  | some .merkle =>
      match MerkleProtocol.deserializeMerkleProof (H := H) proof with
      | .ok parsed =>
          if parsed.commitmentSidecars = [] then proof
          else
            (ProofSerializer.serializeMerkleProof
              { parsed with commitmentSidecars := [] }).getD proof
      | .error _ => proof
  | _ => proof

namespace WriteRequest

/-- The call of `verify_payment` that a request makes. -/
def call : WriteRequest H → PaymentCall H
  | .put request => ⟨request.address, request.paymentProof, .clientPut⟩
  | .offer _ fresh => ⟨fresh.key, some fresh.proofOfPayment, freshOfferPaymentContext⟩
  | .notify paid => ⟨paid.key, some paid.proofOfPayment, paidNotifyPaymentContext⟩

/-- The chunk a request brings. -/
def chunk : WriteRequest H → Option (H × Bytes)
  | .put request => some (request.address, request.content)
  | .offer _ fresh => some (fresh.key, fresh.data)
  | .notify _ => none

end WriteRequest

/-- The task whose step the event is. -/
def WriteEvent.task : WriteEvent H → Option Nat
  | .check id _ _ | .admission id _ _ | .paid id | .insertPaid id _ | .store id _ => some id
  | .payment (.lookup id) | .payment (.verify id _) => some id
  | .payment (.insert id) | .payment (.cancel id) => some id
  | _ => none

namespace WriteNode

def start (capacity : Nat) (chunks : FiniteMap H Bytes) (paidList : Finset H) : WriteNode H :=
  ⟨.init capacity, chunks, paidList, fun _ => .received, [], [], []⟩

def goto (s : WriteNode H) (id : Nat) (phase : WritePhase H) : WriteNode H :=
  { s with phase := Function.update s.phase id phase }

def reply (s : WriteNode H) (id : Nat) (reply : WriteReply H) : WriteNode H :=
  s.goto id (.replied reply)

def reject (s : WriteNode H) (id : Nat) (key : H) (reason : String) : WriteNode H :=
  s.reply id (.offer (.rejected key reason))

def report (s : WriteNode H) (peer : H) : WriteNode H :=
  { s with trustReports := s.trustReports ++ [peer] }

/-! ### The checks before the routing table is asked -/

def checkPut (ctx : WriteContext H) (s : WriteNode H) (id : Nat) (request : ChunkPutRequest H)
    (existsFails : Option String) (capacity : Except String Unit) : WriteNode H :=
  let fail := fun e => s.reply id (.put (.error e))
  if request.content.length > ctx.maxChunkSize then
    fail (.chunkTooLarge request.content.length ctx.maxChunkSize)
  else
    let computed := blake3 request.content
    if computed ≠ request.address then fail (.addressMismatch request.address computed)
    else
      match existsFails with
      | some e => fail (.internal ("Storage read failed: storage error: " ++ e))
      | none =>
          if request.address ∈ s.chunks then
            s.reply id (.put (.alreadyExists request.address))
          else
            match capacity with
            | .error e => fail (.storageFailed ("storage error: " ++ e))
            | .ok () => s.goto id .admitting

def checkOffer (ctx : WriteContext H) (s : WriteNode H) (id : Nat) (source : H)
    (offer : FreshReplicationOffer H) : WriteNode H :=
  if offer.proofOfPayment = [] then s.reject id offer.key "Missing proof of payment"
  else if offer.data.length > ctx.maxChunkSize then
    (s.report source).reject id offer.key
      ("Data size " ++ toString offer.data.length ++ " exceeds maximum chunk size " ++
        toString ctx.maxChunkSize)
  else
    let computedKey := blake3 offer.data
    if computedKey ≠ offer.key then
      (s.report source).reject id offer.key
        ("Content address mismatch: expected " ++ hexEncode (asBytes offer.key) ++ ", computed " ++
          hexEncode (asBytes computedKey))
    else s.goto id .admitting

def checkNotify (s : WriteNode H) (id : Nat) (notify : PaidNotify H) : WriteNode H :=
  if notify.proofOfPayment = [] then s.reply id .notify else s.goto id .admitting

def check (ctx : WriteContext H) (s : WriteNode H) (id : Nat) (request : WriteRequest H)
    (existsFails : Option String) (capacity : Except String Unit) : WriteNode H :=
  match request with
  | .put request => s.checkPut ctx id request existsFails capacity
  | .offer source offer => s.checkOffer ctx id source offer
  | .notify notify => s.checkNotify id notify

/-! ### Admission -/

/-- Without a P2P handle a PUT is not gated. -/
def admitPut (ctx : WriteContext H) (s : WriteNode H) (id : Nat) (request : ChunkPutRequest H)
    (routing : Option (RoutingTable H)) : WriteNode H :=
  if routing.all fun table =>
      Admission.isResponsible ctx.selfId request.address table selfClosenessGateWidth then
    s.goto id .paying
  else
    s.reply id (.put (.error (.storageFailed
      "node is not within its local closest peers for this address")))

def admitOffer (ctx : WriteContext H) (s : WriteNode H) (id : Nat)
    (offer : FreshReplicationOffer H) (table : RoutingTable H) (capacity : Except String Unit) :
    WriteNode H :=
  if Admission.isResponsible ctx.selfId offer.key table ctx.config.paidListCloseGroupSize then
    match capacity with
    | .error e => s.reject id offer.key ("storage error: " ++ e)
    | .ok () => s.goto id .paying
  else s.reject id offer.key "Not in storage-admission range for this key"

def admitNotify (ctx : WriteContext H) (s : WriteNode H) (id : Nat) (notify : PaidNotify H)
    (table : RoutingTable H) : WriteNode H :=
  if Admission.isInPaidCloseGroup ctx.selfId notify.key table ctx.config.paidListCloseGroupSize then
    s.goto id .paying
  else s.reply id .notify

/-- The handlers of the replication engine always have a routing table. -/
def admission (ctx : WriteContext H) (s : WriteNode H) (id : Nat) (request : WriteRequest H)
    (routing : Option (RoutingTable H)) (capacity : Except String Unit) : Option (WriteNode H) :=
  match request with
  | .put request => some (s.admitPut ctx id request routing)
  | .offer _ offer => routing.map fun table => s.admitOffer ctx id offer table capacity
  | .notify notify => routing.map fun table => s.admitNotify ctx id notify table

/-! ### After the payment -/

def afterPayment (s : WriteNode H) (id : Nat) (request : WriteRequest H)
    (result : Except String PaymentStatus) : WriteNode H :=
  match request, result with
  | .put _, .ok status =>
      if status.canStore then s.goto id .storing
      else s.reply id (.put (.paymentRequired "Payment required for new chunk"))
  | .put _, .error e => s.reply id (.put (.error (.paymentFailed ("payment error: " ++ e))))
  | .offer _ offer, .ok status =>
      if status.canStore then s.goto id .insertingPaid
      else s.reject id offer.key "Payment verification failed: payment required"
  | .offer _ offer, .error e =>
      s.reject id offer.key ("Payment verification error: payment error: " ++ e)
  | .notify _, .ok status =>
      if status.canStore then s.goto id .insertingPaid else s.reply id .notify
  | .notify _, .error _ => s.reply id .notify

def insertPaid (s : WriteNode H) (key : H) (inserted : Bool) : WriteNode H :=
  if inserted then { s with paidList := insert key s.paidList } else s

def afterInsert (s : WriteNode H) (id : Nat) : WriteRequest H → WriteNode H
  | .notify _ => s.reply id .notify
  | _ => s.goto id .storing

/-- `storage.put` is one step of a content-addressed map. -/
def put (s : WriteNode H) (address : H) (content : Bytes) : WriteNode H :=
  if address ∈ s.chunks then s else { s with chunks := s.chunks.insert address content }

/-- The event that fans a stored PUT out, where it carries a proof. -/
def freshWrite (ctx : WriteContext H) (request : ChunkPutRequest H) : List (FreshWriteEvent H) :=
  match ctx.freshWriteTx, request.paymentProof with
  | true, some proof => [⟨request.address, request.content, stripCommitmentSidecars H proof⟩]
  | _, _ => []

def store (ctx : WriteContext H) (s : WriteNode H) (id : Nat) (request : WriteRequest H)
    (outcome : Except String Unit) : Option (WriteNode H) :=
  match request, outcome with
  | .put request, .ok () =>
      let s := s.put request.address request.content
      some ({ s with freshWrites := s.freshWrites ++ freshWrite ctx request }.reply id
        (.put (.success request.address)))
  | .put _, .error e =>
      some (s.reply id (.put (.error (.storageFailed ("storage error: " ++ e)))))
  | .offer _ offer, .ok () =>
      some ((s.put offer.key offer.data).reply id (.offer (.accepted offer.key)))
  | .offer _ offer, .error e => some (s.reject id offer.key ("storage error: " ++ e))
  | .notify _, _ => none

/-- The routing table is asked for the offers and asked again for the notifies. `encodesOffer` and
`encodesNotify` say whether the messages fit the wire. -/
def replicateFresh (ctx : WriteContext H) (routing notifyRouting : RoutingTable H)
    (event : FreshWriteEvent H) (encodesOffer encodesNotify : Bool) : FanOut H :=
  let closest := routing.findClosestNodesLocalWithSelf event.key ctx.config.closeGroupSize
  let targetPeers := closest.filter fun peer => decide (peer ≠ ctx.selfId)
  if encodesOffer then
    let offer : FreshReplicationOffer H := ⟨event.key, event.data, event.paymentProof⟩
    let paidGroup :=
      notifyRouting.findClosestNodesLocalWithSelf event.key ctx.config.paidListCloseGroupSize
    let notified := paidGroup.filter fun peer => decide (peer ≠ ctx.selfId)
    { key := event.key
      offers := targetPeers.map fun peer => (peer, offer)
      notifies :=
        if encodesNotify then notified.map fun peer => (peer, ⟨event.key, event.paymentProof⟩)
        else []
      possessionPeers := targetPeers }
  else ⟨event.key, [], [], []⟩

/-! ### Steps -/

/-- One step, `none` where it is not enabled. `requests` are the requests of the run. -/
def step (ctx : WriteContext H) (requests : Nat → WriteRequest H) (s : WriteNode H) :
    WriteEvent H → Option (WriteNode H)
  | .check id existsFails capacity =>
      if s.phase id = .received then some (s.check ctx id (requests id) existsFails capacity)
      else none
  | .admission id routing capacity =>
      if s.phase id = .admitting then s.admission ctx id (requests id) routing capacity else none
  | .payment e =>
      if (WriteEvent.payment e).task.all fun id => s.phase id = .paying then
        (s.payments.step (fun id => (requests id).call) e).map fun payments =>
          { s with payments := payments }
      else none
  | .paid id =>
      if s.phase id = .paying then
        match s.payments.phase id with
        | .done (some result) => some (s.afterPayment id (requests id) result)
        | .done none => some (s.goto id .dropped)
        | _ => none
      else none
  | .insertPaid id inserted =>
      if s.phase id = .insertingPaid then
        some ((s.insertPaid (requests id).call.xorname inserted).afterInsert id (requests id))
      else none
  | .store id outcome =>
      if s.phase id = .storing then s.store ctx id (requests id) outcome else none
  | .replicate inserted routing notifyRouting encodesOffer encodesNotify =>
      match s.freshWrites with
      | [] => none
      | event :: rest =>
          let fanOut :=
            replicateFresh ctx routing notifyRouting event encodesOffer encodesNotify
          some ({ s with freshWrites := rest, fanOuts := s.fanOuts ++ [fanOut] }.insertPaid
            event.key inserted)
  -- the fetch worker checks what it got before it puts it
  | .fetched key data =>
      if data.length ≤ ctx.maxChunkSize ∧ blake3 data = key then some (s.put key data) else none
  | .paidByNetwork key => some { s with paidList := insert key s.paidList }
  | .deleteChunk key => some { s with chunks := s.chunks.erase key }
  | .removePaid key => some { s with paidList := s.paidList.erase key }

end WriteNode

end AntNode
