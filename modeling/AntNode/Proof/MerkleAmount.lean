import AntNode.Lib.Fallible
import AntNode.MerklePayment
import AntNode.Proof.MedianPayment

/-!
# When a merkle payment is paid in full

The verifier computes the amount of a paid node with the wrapping product, and at depth zero with no
amount at all. So what an accepted payment paid is the contract's amount exactly when the tree has a
level, the median candidate asks for something, and the product of the two stays below `2 ^ 256`.
-/

namespace AntNode

variable {H : Type} [Digest H] [CommitmentProtocol H] [QuoteProtocol H] [MerkleProtocol H]

def MerklePaymentCandidatePool.prices (pool : MerklePaymentCandidatePool H) : List Nat :=
  pool.candidateNodes.toList.map fun candidate => candidate.price

omit [Digest H] [CommitmentProtocol H] [QuoteProtocol H] [MerkleProtocol H] in
theorem MerklePaymentCandidatePool.length_sorted (pool : MerklePaymentCandidatePool H) :
    (pool.prices.insertionSort (· ≤ ·)).length = candidatesPerPool := by
  rw [List.length_insertionSort, prices, List.length_map, Vector.length_toList]

/-- The ninth of the sixteen prices in ascending order. -/
def MerklePaymentCandidatePool.upperMedian (pool : MerklePaymentCandidatePool H) : Nat :=
  (pool.prices.insertionSort (· ≤ ·)).get ⟨8, by rw [pool.length_sorted]; decide⟩

/-- One node of the pool was paid at every level, each of them something and at least its share of
the exact total. -/
structure WellPaid (pool : MerklePaymentCandidatePool H) (info : OnChainPaymentInfo) : Prop where
  depth_pos : 1 ≤ info.depth.toNat
  count_eq : info.paidNodeAddresses.length = info.depth.toNat
  paid : ∀ node ∈ info.paidNodeAddresses,
    (∃ candidate, pool.candidateNodes[node.2.1]? = some candidate ∧
      candidate.rewardAddress = node.1) ∧
    0 < node.2.2 ∧ pool.upperMedian * 2 ^ info.depth.toNat / info.depth.toNat ≤ node.2.2

/-- The checks before the amounts pass, the shift among them. -/
structure ReachesAmounts (verifier : MerkleVerifier H) (xorname : H) (proofBytes : Bytes)
    (depth : UInt8) (timestamp : Nat) (proof : MerklePaymentProof H) : Prop where
  proof_eq : checkMerkleProof verifier xorname proofBytes = .ok proof
  timestamp_eq : ∀ candidate ∈ proof.winnerPool.candidateNodes.toList,
    candidate.merklePaymentTimestamp = timestamp
  merkle_eq : MerkleProtocol.verifyMerkleProof proof.address proof.dataProof
    proof.winnerPool.midpointProof depth
    (MerkleProtocol.midpointRoot proof.winnerPool.midpointProof) timestamp = .ok ()
  depth_lt : depth.toNat < 64

/-! ### The amount of a paid node -/

theorem wrapped_share_lt {total depth : Nat} (hpos : 0 < depth) (hdepth : depth ≤ 2 ^ 256)
    (htotal : 2 ^ 256 ≤ total) : total % 2 ^ 256 / depth < total / depth := by
  have hle : total % 2 ^ 256 + depth ≤ total := by
    have hmod := Nat.mod_lt total (show 0 < 2 ^ 256 by positivity)
    have hdiv := Nat.div_add_mod total (2 ^ 256)
    have hquotient : 1 ≤ total / 2 ^ 256 := (Nat.one_le_div_iff (by positivity)).mpr htotal
    have := Nat.mul_le_mul_left (2 ^ 256) hquotient
    omega
  calc total % 2 ^ 256 / depth < total % 2 ^ 256 / depth + 1 := Nat.lt_succ_self _
    _ = (total % 2 ^ 256 + depth) / depth := (Nat.add_div_right _ hpos).symm
    _ ≤ total / depth := Nat.div_le_div_right hle

theorem share_pos {price depth : Nat} (hprice : 0 < price) (hdepth : 0 < depth) :
    0 < price * 2 ^ depth / depth := by
  apply Nat.div_pos _ hdepth
  calc depth ≤ 2 ^ depth := Nat.lt_two_pow_self.le
    _ ≤ price * 2 ^ depth := Nat.le_mul_of_pos_left _ hprice

omit [Digest H] [CommitmentProtocol H] [QuoteProtocol H] [MerkleProtocol H] in
theorem expectedPerNode_eq_ok_iff {pool : MerklePaymentCandidatePool H} {depth : UInt8}
    {expected : Nat} :
    expectedPerNode depth pool.prices = .ok expected ↔
      depth.toNat < 64 ∧
        expected = pool.upperMedian * 2 ^ depth.toNat % 2 ^ 256 / depth.toNat := by
  have hmedian : (pool.prices.insertionSort (· ≤ ·))[
      (pool.prices.insertionSort (· ≤ ·)).length / 2]? = some pool.upperMedian := by
    rw [pool.length_sorted]
    exact List.getElem?_eq_getElem _
  by_cases hdepth : depth > 0
  · rw [expectedPerNode, if_pos hdepth]
    dsimp only
    rw [hmedian]
    dsimp only [checkedShlOne]
    split_ifs with hshift
    · simp [hshift, eq_comm]
    · simp [hshift]
  · have hzero : depth.toNat = 0 := by
      have hnat := hdepth
      rw [gt_iff_lt, UInt8.lt_iff_toNat_lt] at hnat
      simpa using hnat
    rw [expectedPerNode, if_neg hdepth, hzero]
    simp [eq_comm]

/-! ### What is accepted -/

omit [Digest H] [CommitmentProtocol H] [QuoteProtocol H] in
theorem checkCandidateTimestamps_eq_ok_iff {expected : Nat}
    {candidates : List (MerklePaymentCandidateNode H)} :
    checkCandidateTimestamps expected candidates = .ok () ↔
      ∀ candidate ∈ candidates, candidate.merklePaymentTimestamp = expected := by
  induction candidates with
  | nil => simp [checkCandidateTimestamps]
  | cons candidate rest ih =>
      rw [checkCandidateTimestamps, List.forall_mem_cons]
      split_ifs with hne
      · simp [hne]
      · simpa [not_not.mp hne] using ih

omit [Digest H] [CommitmentProtocol H] [QuoteProtocol H] in
theorem checkPaidNodes_eq_ok_iff {pool : MerklePaymentCandidatePool H} {depth : UInt8}
    {expected : Nat} {paid : List (Bytes × Nat × Nat)} :
    checkPaidNodes pool depth expected paid = .ok () ↔
      ∀ node ∈ paid, (∃ candidate, pool.candidateNodes[node.2.1]? = some candidate ∧
        candidate.rewardAddress = node.1) ∧ expected ≤ node.2.2 := by
  induction paid with
  | nil => simp [checkPaidNodes]
  | cons node rest ih =>
      obtain ⟨addr, idx, amount⟩ := node
      rw [checkPaidNodes, List.forall_mem_cons]
      cases pool.candidateNodes[idx]? with
      | none =>
          refine iff_of_false (fun herror => by cases herror) ?_
          rintro ⟨⟨⟨candidate, hget, -⟩, -⟩, -⟩
          cases hget
      | some candidate =>
          dsimp only
          split_ifs with hne hlt
          · refine iff_of_false (fun herror => by cases herror) ?_
            rintro ⟨⟨⟨other, hget, haddr⟩, -⟩, -⟩
            cases hget
            exact hne haddr
          · refine iff_of_false (fun herror => by cases herror) ?_
            rintro ⟨⟨-, hamount⟩, -⟩
            exact absurd hlt (Nat.not_lt.mpr hamount)
          · rw [ih]
            constructor
            · intro hrest
              exact ⟨⟨⟨candidate, rfl, not_not.mp hne⟩, Nat.not_lt.mp hlt⟩, hrest⟩
            · exact And.right

omit [CommitmentProtocol H] [QuoteProtocol H] in
theorem checkMerklePaymentInfo_eq_ok_iff {xorname : H} {proof : MerklePaymentProof H}
    {info : OnChainPaymentInfo} :
    checkMerklePaymentInfo xorname proof info = .ok () ↔
      (∀ candidate ∈ proof.winnerPool.candidateNodes.toList,
        candidate.merklePaymentTimestamp = info.merklePaymentTimestamp) ∧
      MerkleProtocol.verifyMerkleProof proof.address proof.dataProof
        proof.winnerPool.midpointProof info.depth
        (MerkleProtocol.midpointRoot proof.winnerPool.midpointProof)
        info.merklePaymentTimestamp = .ok () ∧
      info.paidNodeAddresses.length = info.depth.toNat ∧ info.depth.toNat < 64 ∧
      ∀ node ∈ info.paidNodeAddresses,
        (∃ candidate, proof.winnerPool.candidateNodes[node.2.1]? = some candidate ∧
          candidate.rewardAddress = node.1) ∧
        proof.winnerPool.upperMedian * 2 ^ info.depth.toNat % 2 ^ 256 / info.depth.toNat
          ≤ node.2.2 := by
  unfold checkMerklePaymentInfo
  rw [Fallible.then_eq_ok_iff, checkCandidateTimestamps_eq_ok_iff]
  apply and_congr_right
  intro _
  cases MerkleProtocol.verifyMerkleProof proof.address proof.dataProof
      proof.winnerPool.midpointProof info.depth
      (MerkleProtocol.midpointRoot proof.winnerPool.midpointProof)
      info.merklePaymentTimestamp with
  | error e => simp [throw, throwThe, MonadExceptOf.throw]
  | ok =>
      dsimp only
      split_ifs with hcount
      · simp [hcount, bind, Except.bind, throw, throwThe, MonadExceptOf.throw]
      · rw [Fallible.bind_eq_ok_iff]
        have hexpected := @expectedPerNode_eq_ok_iff H proof.winnerPool info.depth
        rw [MerklePaymentCandidatePool.prices] at hexpected
        simp only [hexpected, checkPaidNodes_eq_ok_iff, not_not.mp hcount]
        constructor
        · rintro ⟨expected, ⟨hdepth, rfl⟩, hpaid⟩
          exact ⟨trivial, trivial, hdepth, hpaid⟩
        · rintro ⟨-, -, hdepth, hpaid⟩
          exact ⟨_, ⟨hdepth, rfl⟩, hpaid⟩

theorem deserialize_of_checkMerkleProof {verifier : MerkleVerifier H} {xorname : H}
    {proofBytes : Bytes} {proof : MerklePaymentProof H}
    (hproof : checkMerkleProof verifier xorname proofBytes = .ok proof) :
    MerkleProtocol.deserializeMerkleProof proofBytes = .ok proof := by
  unfold checkMerkleProof at hproof
  split at hproof
  · cases hproof
  · rename_i decoded hdecoded
    rw [hdecoded]
    dsimp only at hproof
    split_ifs at hproof
    · cases hproof
    · obtain ⟨-, hproof⟩ := Fallible.then_eq_ok_iff.mp hproof
      obtain ⟨-, hproof⟩ := Fallible.then_eq_ok_iff.mp hproof
      obtain ⟨-, hproof⟩ := Fallible.then_eq_ok_iff.mp hproof
      exact hproof

theorem verifyMerklePayment_isOk_iff {verifier : MerkleVerifier H} {ledger : MerkleLedger H}
    {xorname : H} {proofBytes : Bytes} {context : VerificationContext} {now : Nat} :
    (verifyMerklePayment verifier ledger xorname proofBytes context now).1.isOk = true ↔
      ∃ proof info, checkMerkleProof verifier xorname proofBytes = .ok proof ∧
        (merklePaymentInfo ledger (poolHash proof.winnerPool)).1 = .ok info ∧
        checkMerklePaymentInfo xorname proof info = .ok () := by
  unfold verifyMerklePayment
  cases checkMerkleProof verifier xorname proofBytes with
  | error e => simp [Except.isOk, Except.toBool]
  | ok proof =>
      simp only [Except.ok.injEq, exists_and_left, exists_eq_left']
      rcases merklePaymentInfo ledger (poolHash proof.winnerPool) with ⟨answer, ledger'⟩
      cases answer with
      | error e => simp [Except.isOk, Except.toBool]
      | ok info =>
          simp only [Except.ok.injEq, exists_eq_left']
          cases checkMerklePaymentInfo xorname proof info with
          | error e => simp [Except.isOk, Except.toBool]
          | ok => cases context <;> simp [Except.isOk, Except.toBool]

/-! ### Full payment -/

/-- The same share for every level, paid to the first candidate. -/
def payFirstCandidate (pool : MerklePaymentCandidatePool H) (depth : UInt8) (amount : Nat) :
    List (Bytes × Nat × Nat) :=
  List.replicate depth.toNat ((pool.candidateNodes.get ⟨0, by decide⟩).rewardAddress, 0, amount)

theorem ReachesAmounts.accepts_payFirstCandidate {verifier : MerkleVerifier H} {xorname : H}
    {proofBytes : Bytes} {depth : UInt8} {timestamp : Nat} {proof : MerklePaymentProof H}
    (hreaches : ReachesAmounts verifier xorname proofBytes depth timestamp proof) {amount : Nat}
    (hamount : proof.winnerPool.upperMedian * 2 ^ depth.toNat % 2 ^ 256 / depth.toNat ≤ amount) :
    checkMerklePaymentInfo xorname proof
      ⟨depth, timestamp, payFirstCandidate proof.winnerPool depth amount⟩ = .ok () := by
  refine checkMerklePaymentInfo_eq_ok_iff.mpr ⟨hreaches.timestamp_eq, hreaches.merkle_eq,
    List.length_replicate, hreaches.depth_lt, ?_⟩
  intro node hnode
  obtain rfl := List.eq_of_mem_replicate hnode
  exact ⟨⟨_, Vector.getElem?_eq_getElem _, rfl⟩, hamount⟩

theorem wellPaid_of_accepted {verifier : MerkleVerifier H} {xorname : H} {proofBytes : Bytes}
    {proof : MerklePaymentProof H} {info : OnChainPaymentInfo}
    (hproof : checkMerkleProof verifier xorname proofBytes = .ok proof)
    (haccepted : checkMerklePaymentInfo xorname proof info = .ok ())
    (hcovered : ReachesAmounts verifier xorname proofBytes info.depth info.merklePaymentTimestamp
      proof → 1 ≤ info.depth.toNat ∧ 0 < proof.winnerPool.upperMedian ∧
        proof.winnerPool.upperMedian * 2 ^ info.depth.toNat < 2 ^ 256) :
    WellPaid proof.winnerPool info := by
  obtain ⟨htimestamp, hmerkle, hcount, hdepth, hpaid⟩ :=
    checkMerklePaymentInfo_eq_ok_iff.mp haccepted
  obtain ⟨hpos, hprice, hfits⟩ := hcovered ⟨hproof, htimestamp, hmerkle, hdepth⟩
  refine ⟨hpos, hcount, fun node hnode => ?_⟩
  obtain ⟨hcandidate, hamount⟩ := hpaid node hnode
  rw [Nat.mod_eq_of_lt hfits] at hamount
  exact ⟨hcandidate, (share_pos hprice hpos).trans_le hamount, hamount⟩

/-- **Every accepted payment is paid in full exactly when the formula does not degenerate.** For
every proof, depth and timestamp: all payment infos with them that are accepted are paid in full if
and only if some check before the amounts fails, or the depth and the median price are positive and
their product `median * 2 ^ depth` fits 256 bits. -/
theorem verifyMerklePayment_wellPaid_iff (verifier : MerkleVerifier H) (xorname : H)
    (proofBytes : Bytes) (context : VerificationContext) (now : Nat) (depth : UInt8)
    (timestamp : Nat) :
    (∀ (ledger : MerkleLedger H) (proof : MerklePaymentProof H) (paid : List (Bytes × Nat × Nat)),
      MerkleProtocol.deserializeMerkleProof proofBytes = .ok proof →
      (merklePaymentInfo ledger (poolHash proof.winnerPool)).1 = .ok ⟨depth, timestamp, paid⟩ →
      (verifyMerklePayment verifier ledger xorname proofBytes context now).1.isOk = true →
      WellPaid proof.winnerPool ⟨depth, timestamp, paid⟩) ↔
    ∀ proof : MerklePaymentProof H,
      ReachesAmounts verifier xorname proofBytes depth timestamp proof →
      1 ≤ depth.toNat ∧ 0 < proof.winnerPool.upperMedian ∧
        proof.winnerPool.upperMedian * 2 ^ depth.toNat < 2 ^ 256 := by
  constructor
  · intro hpaid proof hreaches
    set pool := proof.winnerPool
    set amount := pool.upperMedian * 2 ^ depth.toNat % 2 ^ 256 / depth.toNat with hamount
    set ledger : MerkleLedger H :=
      ⟨fun _ => some ⟨depth, timestamp, payFirstCandidate pool depth amount⟩, fun _ => .error ""⟩
    have haccepted : (verifyMerklePayment verifier ledger xorname proofBytes context now).1.isOk
        = true :=
      verifyMerklePayment_isOk_iff.mpr
        ⟨proof, _, hreaches.proof_eq, rfl, hreaches.accepts_payFirstCandidate le_rfl⟩
    have hwell := hpaid ledger proof _ (deserialize_of_checkMerkleProof hreaches.proof_eq) rfl
      haccepted
    have hfirst : ((pool.candidateNodes.get ⟨0, by decide⟩).rewardAddress, 0, amount) ∈
        payFirstCandidate pool depth amount :=
      List.mem_replicate.mpr ⟨Nat.one_le_iff_ne_zero.mp hwell.depth_pos, rfl⟩
    obtain ⟨-, hpos, hshare⟩ := hwell.paid _ hfirst
    refine ⟨hwell.depth_pos, ?_, ?_⟩
    · apply Nat.pos_of_ne_zero
      intro hzero
      rw [hamount, hzero] at hpos
      simp at hpos
    · by_contra hwraps
      have hlt := wrapped_share_lt hwell.depth_pos
        (depth.toNat_lt.le.trans (by norm_num)) (Nat.not_lt.mp hwraps)
      exact absurd hshare (Nat.not_le.mpr hlt)
  · intro hcovered ledger proof paid hdecoded hinfo haccepted
    obtain ⟨proof', info, hproof, hinfo', hcheck⟩ := verifyMerklePayment_isOk_iff.mp haccepted
    obtain rfl : proof = proof' :=
      Except.ok.inj (hdecoded.symm.trans (deserialize_of_checkMerkleProof hproof))
    obtain rfl := Except.ok.inj (hinfo.symm.trans hinfo')
    exact wellPaid_of_accepted hproof hcheck (hcovered proof)

/-! ### Payments of nothing -/

namespace Transcript

def merkleCandidate (price : Nat) (i : Fin candidatesPerPool) :
    MerklePaymentCandidateNode Transcript where
  pubKey := [UInt8.ofNat i]
  price := price
  rewardAddress := [9]
  merklePaymentTimestamp := 100
  committedKeyCount := 0
  commitmentPin := none
  signature := [UInt8.ofNat i, 9]

def merkleProofPriced (price : Nat) : MerklePaymentProof Transcript where
  address := ⟨[1]⟩
  dataProof := [1]
  winnerPool := ⟨[2], Vector.ofFn (merkleCandidate price)⟩
  commitmentSidecars := []

def candidateBytes (candidate : MerklePaymentCandidateNode Transcript) : Bytes :=
  fields [candidate.pubKey, List.replicate candidate.price 0, candidate.rewardAddress,
    List.replicate candidate.merklePaymentTimestamp 0,
    List.replicate candidate.committedKeyCount 0,
    fields (candidate.commitmentPin.toList.map Transcript.bytes), candidate.signature]

theorem candidateBytes_injective : Function.Injective candidateBytes := by
  rintro ⟨pubKey, price, reward, timestamp, count, pin, signature⟩
    ⟨pubKey', price', reward', timestamp', count', pin', signature'⟩ heq
  have hparts := fields_injective heq
  simp only [List.cons.injEq, and_true] at hparts
  obtain ⟨hpubKey, hprice, hreward, htimestamp, hcount, hpin, hsignature⟩ := hparts
  have hprice : price = price' := by simpa using congrArg List.length hprice
  have htimestamp : timestamp = timestamp' := by simpa using congrArg List.length htimestamp
  have hcount : count = count' := by simpa using congrArg List.length hcount
  have hpin : pin = pin' := by
    have hlist := List.map_injective_iff.mpr (fun _ _ => congrArg Transcript.mk)
      (fields_injective hpin)
    cases pin <;> cases pin' <;> simp_all
  rw [hpubKey, hprice, hreward, htimestamp, hcount, hpin, hsignature]

def poolBytes (pool : MerklePaymentCandidatePool Transcript) : Bytes :=
  fields (pool.midpointProof :: pool.candidateNodes.toList.map candidateBytes)

theorem poolBytes_injective : Function.Injective poolBytes := by
  rintro ⟨midpointProof, candidates⟩ ⟨midpointProof', candidates'⟩ heq
  obtain ⟨hmidpoint, hcandidates⟩ := List.cons.inj (fields_injective heq)
  have hlist := List.map_injective_iff.mpr candidateBytes_injective hcandidates
  obtain rfl : midpointProof = midpointProof' := hmidpoint
  obtain rfl : candidates = candidates' := Vector.toList_inj.mp hlist
  rfl

/-- A proof is sent as its price, a byte to shift and by how much. -/
instance : MerkleProtocol Transcript where
  deserializeMerkleProof
    | [byte, shift] => .ok (merkleProofPriced (byte.toNat * 2 ^ shift.toNat))
    | _ => .error "unexpected end of input"
  poolHash pool := ⟨poolBytes pool⟩
  verifyMerkleCandidateSignature candidate :=
    decide (candidate.signature = candidate.pubKey ++ candidate.rewardAddress)
  midpointAddress := Transcript.mk
  midpointRoot := Transcript.mk
  verifyMerkleProof address dataProof _ _ _ _ :=
    if dataProof = address.bytes then .ok () else .error "the leaf is not in the tree"
  candidateToVec candidate := some candidate.signature
  displayAddress := fun _ => ""

theorem poolHash_injective :
    Function.Injective (poolHash : MerklePaymentCandidatePool Transcript → Transcript) :=
  fun _ _ heq => poolBytes_injective (congrArg Transcript.bytes heq)

/-- A network of the sixteen candidates. -/
def sixteenPeers : Option (Transcript → Nat → NetworkLookup Transcript) :=
  some fun _ _ => .found (List.ofFn fun i : Fin candidatesPerPool => ⟨[UInt8.ofNat i]⟩)

def closenessVerifier : MerkleVerifier Transcript where
  toPaymentVerifier := payingVerifier
  verifyMerkleCandidateCloseness pool _ := verifyMerkleCandidateClosenessInner sixteenPeers pool

def ledgerOf (info : OnChainPaymentInfo) : MerkleLedger Transcript where
  poolCache := fun _ => none
  completedMerklePayment := fun _ => .ok info

def paidNothing (depth : UInt8) : OnChainPaymentInfo :=
  ⟨depth, 100, List.replicate depth.toNat ([9], 0, 0)⟩

def AcceptedUnderpaid (proofBytes : Bytes) (info : OnChainPaymentInfo) : Prop :=
  ∃ proof : MerklePaymentProof Transcript,
    MerkleProtocol.deserializeMerkleProof proofBytes = .ok proof ∧
    (merklePaymentInfo (ledgerOf info) (poolHash proof.winnerPool)).1 = .ok info ∧
    (verifyMerklePayment closenessVerifier (ledgerOf info) ⟨[1]⟩ proofBytes .clientPut 0).1.isOk
      = true ∧
    ¬WellPaid proof.winnerPool info

theorem not_wellPaid_paidNothing (pool : MerklePaymentCandidatePool Transcript) :
    ¬WellPaid pool (paidNothing 1) := by
  intro hwell
  have hpos := (hwell.paid ([9], 0, 0) (by decide)).2.1
  exact absurd hpos (lt_irrefl 0)

end Transcript

open Transcript

/-- Accepted without a single paid node at depth zero, with nothing paid at price zero, and with
nothing paid where the doubled median, `2 ^ 256`, wraps to zero. -/
theorem merkle_payment_of_nothing_accepted :
    AcceptedUnderpaid [5, 0] (paidNothing 0) ∧ AcceptedUnderpaid [0, 0] (paidNothing 1) ∧
      AcceptedUnderpaid [1, 255] (paidNothing 1) := by
  refine ⟨⟨_, rfl, rfl, by decide +kernel, ?_⟩, ⟨_, rfl, rfl, by decide +kernel, ?_⟩,
    ⟨_, rfl, rfl, by decide +kernel, ?_⟩⟩
  · intro hwell
    exact absurd hwell.depth_pos (by decide)
  · exact not_wellPaid_paidNothing _
  · exact not_wellPaid_paidNothing _

end AntNode
