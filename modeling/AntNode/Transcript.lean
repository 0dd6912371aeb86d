import AntNode.CommitmentState
import Mathlib.Data.List.Lex
import Mathlib.Logic.Function.Basic

/-!
# A collision-free hash

The digest of a byte string is the string itself, and a digest is written into a hasher with a
marker before every byte and a stop mark at the end, so that no encoding is the beginning of
another. Every injectivity assumption made about the hash elsewhere holds here, so none of them is
empty; concrete instances of the results are evaluated at this type.
-/

namespace AntNode

structure Transcript where
  bytes : Bytes

namespace Transcript

theorem map_toNat_injective :
    Function.Injective fun t : Transcript => t.bytes.map UInt8.toNat := by
  rintro ⟨xs⟩ ⟨ys⟩ heq
  exact congrArg Transcript.mk (List.map_injective_iff.mpr (fun _ _ => UInt8.toNat.inj) heq)

instance : LinearOrder Transcript :=
  LinearOrder.lift' (fun t : Transcript => t.bytes.map UInt8.toNat) map_toNat_injective

/-- A marker before every byte, a stop mark at the end. -/
def encode : Bytes → Bytes
  | [] => [0]
  | b :: rest => 1 :: b :: encode rest

instance : Digest Transcript where
  zero := ⟨[]⟩
  asBytes t := encode t.bytes
  blake3 := Transcript.mk

theorem encode_append_inj {xs ys rest rest' : Bytes}
    (heq : encode xs ++ rest = encode ys ++ rest') : xs = ys ∧ rest = rest' := by
  induction xs generalizing ys with
  | nil =>
      cases ys with
      | nil => exact ⟨rfl, List.cons.inj heq |>.2⟩
      | cons y ys =>
          have hmark : (0 : UInt8) = 1 := (List.cons.inj heq).1
          exact absurd hmark (by decide)
  | cons x xs ih =>
      cases ys with
      | nil =>
          have hmark : (1 : UInt8) = 0 := (List.cons.inj heq).1
          exact absurd hmark (by decide)
      | cons y ys =>
          obtain ⟨-, htail⟩ := List.cons.inj heq
          obtain ⟨hbyte, htail⟩ := List.cons.inj htail
          obtain ⟨hxs, hrest⟩ := ih htail
          exact ⟨by rw [hbyte, hxs], hrest⟩

theorem asBytes_append_inj {s t : Transcript} {rest rest' : Bytes}
    (heq : asBytes s ++ rest = asBytes t ++ rest') : s = t ∧ rest = rest' := by
  have hencoded : encode s.bytes ++ rest = encode t.bytes ++ rest' := heq
  obtain ⟨hbytes, hrest⟩ := encode_append_inj hencoded
  exact ⟨congrArg Transcript.mk hbytes, hrest⟩

theorem blake3_injective : Function.Injective (blake3 : Bytes → Transcript) :=
  fun _ _ heq => congrArg Transcript.bytes heq

theorem blake3_pair_injective (tag : Bytes) : Function.Injective2 fun s t : Transcript =>
    (blake3 (tag ++ asBytes s ++ asBytes t) : Transcript) := by
  intro s s' t t' heq
  have hbytes := blake3_injective heq
  rw [List.append_assoc, List.append_assoc, List.append_cancel_left_eq] at hbytes
  obtain ⟨hs, ht⟩ := asBytes_append_inj hbytes
  have ht : asBytes t ++ [] = asBytes t' ++ [] := by simpa using ht
  exact ⟨hs, (asBytes_append_inj ht).1⟩

theorem leafHash_injective : Function.Injective2 (leafHash (H := Transcript)) :=
  blake3_pair_injective domainLeaf

theorem nodeHash_injective : Function.Injective2 (nodeHash (H := Transcript)) :=
  blake3_pair_injective domainNode

theorem leafHash_ne_nodeHash (key bytesHash left right : Transcript) :
    leafHash key bytesHash ≠ nodeHash left right := by
  intro heq
  have hbytes := blake3_injective heq
  rw [List.append_assoc, List.append_assoc] at hbytes
  have htags := (List.append_inj hbytes (by decide)).1
  exact absurd htags (by decide)

/-! ### Commitments -/

def signedPayload (c : StorageCommitment Transcript) : Bytes :=
  encode c.root.bytes ++ (encode (List.replicate c.keyCount 0) ++
    (encode c.senderPeerId.bytes ++ encode c.senderPublicKey))

def commitmentBytes (c : StorageCommitment Transcript) : Bytes :=
  signedPayload c ++ encode c.signature

/-- A pin is the commitment itself, and a signature is the payload it covers. -/
instance : CommitmentProtocol Transcript where
  commitmentHash c := some ⟨commitmentBytes c⟩
  verifyCommitmentSignature c := decide (c.signature = signedPayload c)

theorem commitmentBytes_injective : Function.Injective commitmentBytes := by
  rintro ⟨root, keyCount, sender, publicKey, signature⟩
    ⟨root', keyCount', sender', publicKey', signature'⟩ hbytes
  simp only [commitmentBytes, signedPayload, List.append_assoc] at hbytes
  obtain ⟨hroot, hbytes⟩ := encode_append_inj hbytes
  obtain ⟨hcount, hbytes⟩ := encode_append_inj hbytes
  obtain ⟨hsender, hbytes⟩ := encode_append_inj hbytes
  obtain ⟨hpublicKey, hbytes⟩ := encode_append_inj hbytes
  have hbytes : encode signature ++ [] = encode signature' ++ [] := by simpa using hbytes
  obtain ⟨hsignature, -⟩ := encode_append_inj hbytes
  have hcount : keyCount = keyCount' := by simpa using congrArg List.length hcount
  have hroot : root = root' := congrArg Transcript.mk hroot
  have hsender : sender = sender' := congrArg Transcript.mk hsender
  subst hroot hcount hsender hpublicKey hsignature
  rfl

theorem commitmentHash_injective {c c' : StorageCommitment Transcript} {pin : Transcript}
    (hpin : commitmentHash c = some pin) (hpin' : commitmentHash c' = some pin) : c = c' :=
  commitmentBytes_injective
    (congrArg Transcript.bytes (Option.some.inj (hpin.trans hpin'.symm)))

/-! ### Snapshots -/

def fields (parts : List Bytes) : Bytes := (parts.map encode).flatten

theorem encode_ne_nil (xs : Bytes) : encode xs ≠ [] := by
  cases xs <;> simp [encode]

theorem fields_injective : Function.Injective fields := by
  intro xs
  induction xs with
  | nil =>
      intro ys heq
      cases ys with
      | nil => rfl
      | cons y ys => simp [fields, encode_ne_nil] at heq
  | cons x xs ih =>
      intro ys heq
      cases ys with
      | nil => simp [fields, encode_ne_nil] at heq
      | cons y ys =>
          obtain ⟨hhead, htail⟩ := encode_append_inj (by simpa [fields] using heq)
          rw [hhead, ih (by simpa [fields] using htail)]

def slotBytes (slot : PersistedSlot Transcript) : Bytes :=
  fields [commitmentBytes slot.commitment, fields (slot.leafKeys.map Transcript.bytes),
    List.replicate (slot.expiresAtUnix.elim 0 Nat.succ) 0]

theorem slotBytes_injective : Function.Injective slotBytes := by
  rintro ⟨commitment, leafKeys, expires⟩ ⟨commitment', leafKeys', expires'⟩ heq
  have hparts := fields_injective heq
  simp only [List.cons.injEq, and_true] at hparts
  obtain ⟨hcommitment, hkeys, hexpires⟩ := hparts
  have hkeys : leafKeys = leafKeys' :=
    List.map_injective_iff.mpr (fun _ _ => congrArg Transcript.mk) (fields_injective hkeys)
  have hexpires : expires = expires' := by
    have hlen := congrArg List.length hexpires
    cases expires <;> cases expires' <;> simp_all
  rw [commitmentBytes_injective hcommitment, hkeys, hexpires]

def retentionBytes (persisted : PersistedRetention Transcript) : Bytes :=
  fields [List.replicate persisted.version 0, fields (persisted.slots.map slotBytes),
    List.replicate persisted.hasCurrent.toNat 0]

theorem retentionBytes_injective : Function.Injective retentionBytes := by
  rintro ⟨version, slots, hasCurrent⟩ ⟨version', slots', hasCurrent'⟩ heq
  have hparts := fields_injective heq
  simp only [List.cons.injEq, and_true] at hparts
  obtain ⟨hversion, hslots, hcurrent⟩ := hparts
  have hversion : version = version' := by simpa using congrArg List.length hversion
  have hslots : slots = slots' :=
    List.map_injective_iff.mpr slotBytes_injective (fields_injective hslots)
  have hcurrent : hasCurrent = hasCurrent' := by
    have hlen := congrArg List.length hcurrent
    cases hasCurrent <;> cases hasCurrent' <;> simp_all
  rw [hversion, hslots, hcurrent]

noncomputable instance : Postcard Transcript where
  toAllocvec persisted := some (retentionBytes persisted)
  fromPostcard := Function.partialInv retentionBytes

theorem fromPostcard_retentionBytes (persisted : PersistedRetention Transcript) :
    Postcard.fromPostcard (retentionBytes persisted) = some persisted :=
  Function.partialInv_left retentionBytes_injective persisted

/-! ### One-key commitments -/

def soloTree (key : Transcript) : MerkleTree Transcript where
  leaves := [leafOf (key, key)]
  levels := [[leafHash key key]]
  leaves_ne_nil := by simp
  length_le := by simp [maxCommitmentKeyCount]
  sorted := by simp
  leaf_bound := by simp [leafOf]
  levels_eq := by simp [buildLevels, leafOf]

def unsigned (tree : MerkleTree Transcript) : StorageCommitment Transcript :=
  ⟨tree.root, tree.keyCount, ⟨[7]⟩, [7], []⟩

def solo (key : Transcript) : BuiltCommitment Transcript where
  commitment := { unsigned (soloTree key) with signature := signedPayload (unsigned (soloTree key)) }
  cachedHash := ⟨commitmentBytes
    { unsigned (soloTree key) with signature := signedPayload (unsigned (soloTree key)) }⟩
  tree := soloTree key
  root_eq := rfl
  keyCount_eq := rfl
  hash_eq := rfl

end Transcript

end AntNode
