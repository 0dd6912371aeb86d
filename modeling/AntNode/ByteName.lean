import AntNode.StorageCommitmentAudit

/-!
# Names of 32 bytes

A name is a number below `256 ^ 32`, written with its highest byte first, so that the order of the
names is the order of their bytes. The digest of a byte string is the name that its first 32 bytes
spell: a chunk that holds its own name is content-addressed. Sizes are evaluated at this type.
-/

namespace AntNode

structure ByteName where
  value : Nat
  value_lt : value < 256 ^ 32

namespace ByteName

theorem value_injective : Function.Injective ByteName.value := by
  rintro ⟨m, hm⟩ ⟨n, hn⟩ heq
  obtain rfl : m = n := heq
  rfl

instance : LinearOrder ByteName := LinearOrder.lift' ByteName.value value_injective

/-- The low `width` bytes of a number, highest first. -/
def toBeBytes : Nat → Nat → Bytes
  | 0, _ => []
  | width + 1, n => toBeBytes width (n / 256) ++ [UInt8.ofNat n]

def ofBeBytes (bytes : Bytes) : Nat := bytes.foldl (fun high byte => 256 * high + byte.toNat) 0

theorem length_toBeBytes (width n : Nat) : (toBeBytes width n).length = width := by
  induction width generalizing n with
  | zero => rfl
  | succ width ih => rw [toBeBytes, List.length_append, ih, List.length_singleton]

theorem ofBeBytes_toBeBytes (width n : Nat) : ofBeBytes (toBeBytes width n) = n % 256 ^ width := by
  induction width generalizing n with
  | zero => simp [toBeBytes, ofBeBytes, Nat.mod_one]
  | succ width ih =>
      have hhigh := ih (n / 256)
      rw [ofBeBytes] at hhigh
      rw [toBeBytes, ofBeBytes, List.foldl_append, hhigh, List.foldl_cons, List.foldl_nil,
        UInt8.toNat_ofNat', pow_succ' 256 width, Nat.mod_mul]
      omega

/-- The name of a number, its excess dropped. -/
def ofNat (n : Nat) : ByteName := ⟨n % 256 ^ 32, Nat.mod_lt _ (by norm_num)⟩

instance : Digest ByteName where
  zero := ofNat 0
  asBytes name := toBeBytes 32 name.value
  blake3 bytes := ofNat (ofBeBytes (bytes.take 32))

theorem length_asBytes (name : ByteName) : (asBytes name).length = 32 :=
  length_toBeBytes 32 name.value

theorem blake3_asBytes (name : ByteName) : blake3 (asBytes name) = name := by
  apply value_injective
  have htake : (asBytes name).take 32 = asBytes name :=
    List.take_of_length_le (length_asBytes name).le
  have hvalue : ofBeBytes (asBytes name) = name.value % 256 ^ 32 :=
    ofBeBytes_toBeBytes 32 name.value
  change ofBeBytes ((asBytes name).take 32) % 256 ^ 32 = name.value
  rw [htake, hvalue, Nat.mod_mod, Nat.mod_eq_of_lt name.value_lt]

/-! ### A store of `n` chunks -/

theorem ofNat_lt_ofNat {m n : Nat} (hlt : m < n) (hn : n ≤ maxCommitmentKeyCount) :
    ofNat m < ofNat n := by
  have hbound : n < 256 ^ 32 := hn.trans_lt (by norm_num [maxCommitmentKeyCount])
  change m % 256 ^ 32 < n % 256 ^ 32
  rw [Nat.mod_eq_of_lt (hlt.trans hbound), Nat.mod_eq_of_lt hbound]
  exact hlt

/-- The leaves of the first `n` names, each the address of the chunk that holds it. -/
def firstLeaves (n : Nat) : List (ByteName × ByteName) :=
  (List.range n).map fun i => leafOf (ofNat i, ofNat i)

def firstTree (n : Nat) (hpos : 0 < n) (hmax : n ≤ maxCommitmentKeyCount) :
    MerkleTree ByteName where
  leaves := firstLeaves n
  levels := buildLevels ((firstLeaves n).map Prod.snd)
  leaves_ne_nil := by
    rw [firstLeaves, ne_eq, List.map_eq_nil_iff, List.range_eq_nil]
    omega
  length_le := by
    rw [firstLeaves, List.length_map, List.length_range]
    exact hmax
  sorted := by
    rw [firstLeaves, List.pairwise_map]
    refine List.pairwise_lt_range.imp_of_mem fun {i j} _ hj hlt => ?_
    exact ofNat_lt_ofNat hlt ((List.mem_range.mp hj).le.trans hmax)
  leaf_bound := by
    intro leaf hleaf
    obtain ⟨i, -, rfl⟩ := List.mem_map.mp hleaf
    exact ⟨ofNat i, rfl⟩
  levels_eq := rfl

/-- A pin is the root, and a key signs with `3309` bytes. -/
instance : CommitmentProtocol ByteName where
  commitmentHash c := some c.root
  verifyCommitmentSignature c :=
    decide (c.senderPublicKey.length = 1952 ∧ c.signature.length = 3309)

def publicKey : Bytes := List.replicate 1952 7

def signature : Bytes := List.replicate 3309 0

theorem length_publicKey : publicKey.length = 1952 := List.length_replicate

theorem length_signature : signature.length = 3309 := List.length_replicate

def firstCommitment (n : Nat) (hpos : 0 < n) (hmax : n ≤ maxCommitmentKeyCount) :
    BuiltCommitment ByteName where
  commitment := ⟨(firstTree n hpos hmax).root, (firstTree n hpos hmax).keyCount,
    blake3 publicKey, publicKey, signature⟩
  cachedHash := (firstTree n hpos hmax).root
  tree := firstTree n hpos hmax
  root_eq := rfl
  keyCount_eq := rfl
  hash_eq := rfl

def firstHolder (n : Nat) (hpos : 0 < n) (hmax : n ≤ maxCommitmentKeyCount) :
    Responder ByteName where
  storage := fun _ key => .ok (some (asBytes key))
  selfPeerId := blake3 publicKey
  isBootstrapping := false
  commitmentState := some ⟨[firstCommitment n hpos hmax], true, []⟩

end ByteName

end AntNode
