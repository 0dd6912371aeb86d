import AntNode.Lib.Lru
import AntNode.MerklePayment

/-!
# The verified-payment cache

A verified chunk address is cached at the strength of the admission path that verified it. The cache
is read before the proof is verified and written after it, and in between the caller awaits the
chain and the network, so calls interleave at these two points. The proof itself is verified by one
step, against the chain, the ledger and the routing table of that moment.

The hit counters and the logging are left out.
-/

namespace AntNode

inductive VerificationLevel where
  | paidList
  | clientPut
  deriving DecidableEq

def VerificationLevel.satisfies : VerificationLevel → VerificationLevel → Bool
  | .paidList, .paidList => true
  | .clientPut, .paidList => true
  | .clientPut, .clientPut => true
  | _, _ => false

structure VerifiedCache (H : Type) where
  inner : Lru H VerificationLevel

namespace VerifiedCache

variable {H : Type} [DecidableEq H]

def withCapacity (capacity : Nat) : VerifiedCache H :=
  ⟨.empty (max capacity 1) (by omega)⟩

def containsVerified (cache : VerifiedCache H) (xorname : H) (required : VerificationLevel) :
    Bool × VerifiedCache H :=
  let found := cache.inner.get xorname
  (found.1.any fun level => level.satisfies required, ⟨found.2⟩)

def containsPaidListVerified (cache : VerifiedCache H) (xorname : H) : Bool × VerifiedCache H :=
  cache.containsVerified xorname .paidList

def containsClientPutVerified (cache : VerifiedCache H) (xorname : H) : Bool × VerifiedCache H :=
  cache.containsVerified xorname .clientPut

def insertWithLevel (cache : VerifiedCache H) (xorname : H) (level : VerificationLevel) :
    VerifiedCache H :=
  match cache.inner.peek xorname with
  | some existing =>
      ⟨cache.inner.put xorname (if existing.satisfies level then existing else level)⟩
  | none => ⟨cache.inner.put xorname level⟩

def insert (cache : VerifiedCache H) (xorname : H) : VerifiedCache H :=
  cache.insertWithLevel xorname .clientPut

def insertPaidListVerified (cache : VerifiedCache H) (xorname : H) : VerifiedCache H :=
  cache.insertWithLevel xorname .paidList

end VerifiedCache

inductive PaymentStatus where
  | cachedAsVerified
  | paymentRequired
  | paymentVerified
  deriving DecidableEq

def minPaymentProofSizeBytes : Nat := 32

def maxPaymentProofSizeBytes : Nat := 524288

/-- `other` stands for the variants a later protocol may add. -/
inductive ProofType where
  | merkle
  | singleNode
  | other
  deriving DecidableEq

structure SingleNodeProof (H : Type) where
  proofOfPayment : ProofOfPayment H
  commitmentSidecars : List Bytes

/-- The proof codec of `ant_protocol`. -/
class ProofCodec (H : Type) where
  detectProofType : Bytes → Option ProofType
  deserializeSingleNodeProof : Bytes → Except String (SingleNodeProof H)

/-- Everything a verification asks: the chain, the routing table and the clock at its time. -/
structure PaymentWorld (H : Type) [Digest H] [CommitmentProtocol H] where
  verifier : MerkleVerifier H
  ledger : MerkleLedger H
  now : Nat

variable {H : Type} [Digest H] [CommitmentProtocol H] [QuoteProtocol H] [MerkleProtocol H]
  [ProofCodec H]

def checkPaymentRequired (cache : VerifiedCache H) (xorname : H) (context : VerificationContext) :
    PaymentStatus × VerifiedCache H :=
  let cached :=
    match context with
    | .clientPut => cache.containsClientPutVerified xorname
    | .paidListAdmission => cache.containsPaidListVerified xorname
  (if cached.1 then .cachedAsVerified else .paymentRequired, cached.2)

def proofTag (proof : Bytes) : String := "0x" ++ hexEncode [proof.head?.getD 0]

/-- The size of a proof, which is checked before anything is awaited. -/
def checkProofSize (proof : Bytes) : Except String Unit :=
  if proof.length < minPaymentProofSizeBytes then
    .error ("Payment proof too small: " ++ toString proof.length ++ " bytes (min " ++
      toString minPaymentProofSizeBytes ++ ")")
  else if proof.length > maxPaymentProofSizeBytes then
    .error ("Payment proof too large: " ++ toString proof.length ++ " bytes (max " ++
      toString maxPaymentProofSizeBytes ++ " bytes)")
  else .ok ()

/-- Verify a proof of either kind. -/
def verifyProof (world : PaymentWorld H) (xorname : H) (proof : Bytes)
    (context : VerificationContext) : Except String Unit :=
  match ProofCodec.detectProofType H proof with
  | some .merkle =>
      (verifyMerklePayment world.verifier world.ledger xorname proof context world.now).1.map
        fun _ => ()
  | some .singleNode =>
      match ProofCodec.deserializeSingleNodeProof proof with
      | .error e => .error ("Failed to deserialize payment proof: " ++ e)
      | .ok parsed =>
          (verifyEvmPayment world.verifier.toPaymentVerifier xorname parsed.proofOfPayment
            parsed.commitmentSidecars context world.now).map fun _ => ()
  | none => .error ("Unknown payment proof type tag: " ++ proofTag proof)
  | some .other =>
      .error ("Unsupported payment proof type tag: " ++ proofTag proof ++
        " (this node's protocol version does not handle it — upgrade ant-node)")

/-- The arguments of a call of `verify_payment`. -/
structure PaymentCall (H : Type) where
  xorname : H
  paymentProof : Option Bytes
  context : VerificationContext

/-- Where a call is: before the lookup, awaiting the verification of its proof, before the insert,
or returned. The result is missing where the call was cancelled at the await. -/
inductive PaymentPhase where
  | start
  | verifying (proof : Bytes)
  | verified
  | done (result : Option (Except String PaymentStatus))
  deriving DecidableEq

structure PaymentSystem (H : Type) where
  cache : VerifiedCache H
  phase : Nat → PaymentPhase

/-- `check` is a lookup from elsewhere, and `evict` drops an entry. -/
inductive PaymentEvent (H : Type) [Digest H] [CommitmentProtocol H] where
  | lookup (call : Nat)
  | verify (call : Nat) (world : PaymentWorld H)
  | insert (call : Nat)
  | cancel (call : Nat)
  | check (xorname : H) (context : VerificationContext)
  | evict (xorname : H)

namespace PaymentSystem

def init (capacity : Nat) : PaymentSystem H := ⟨.withCapacity capacity, fun _ => .start⟩

def goto (s : PaymentSystem H) (call : Nat) (phase : PaymentPhase) : PaymentSystem H :=
  { s with phase := Function.update s.phase call phase }

/-- What a call that found no cached verification does with its proof. -/
def afterMiss (call : PaymentCall H) : PaymentPhase :=
  match call.paymentProof with
  | none =>
      .done (some (.error ("Payment required for new data " ++ hexEncode (asBytes call.xorname))))
  | some proof =>
      match checkProofSize proof with
      | .error e => .done (some (.error e))
      | .ok () => .verifying proof

def insertVerified (cache : VerifiedCache H) (call : PaymentCall H) : VerifiedCache H :=
  match call.context with
  | .clientPut => cache.insert call.xorname
  | .paidListAdmission => cache.insertPaidListVerified call.xorname

/-- One step, `none` where it is not enabled. `calls` are the calls of the run. -/
def step (calls : Nat → PaymentCall H) (s : PaymentSystem H) :
    PaymentEvent H → Option (PaymentSystem H)
  | .lookup c =>
      match s.phase c with
      | .start =>
          let checked := checkPaymentRequired s.cache (calls c).xorname (calls c).context
          some
            { cache := checked.2
              phase := Function.update s.phase c
                (if checked.1 = .cachedAsVerified then .done (some (.ok .cachedAsVerified))
                else afterMiss (calls c)) }
      | _ => none
  | .verify c world =>
      match s.phase c with
      | .verifying proof =>
          some (s.goto c
            (match verifyProof world (calls c).xorname proof (calls c).context with
            | .error e => .done (some (.error e))
            | .ok () => .verified))
      | _ => none
  | .insert c =>
      match s.phase c with
      | .verified =>
          some
            { cache := insertVerified s.cache (calls c)
              phase := Function.update s.phase c (.done (some (.ok .paymentVerified))) }
      | _ => none
  | .cancel c =>
      match s.phase c with
      | .start => some (s.goto c (.done none))
      | .verifying _ => some (s.goto c (.done none))
      | _ => none
  | .check xorname context => some { s with cache := (checkPaymentRequired s.cache xorname context).2 }
  | .evict xorname => some { s with cache := ⟨s.cache.inner.pop xorname⟩ }

end PaymentSystem

end AntNode
