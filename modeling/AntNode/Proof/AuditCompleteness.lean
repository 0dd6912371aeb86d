import AntNode.ByteName
import AntNode.Proof.InclusionPath
import AntNode.Proof.Possession
import AntNode.Proof.Restore
import AntNode.Proof.SubtreeProof

/-!
# Honest responders pass

Round one reads the planned leaves of the pinned tree, round two the sampled ones of them. A node
that keeps the commitment and reads its chunks back serves both from the same bytes, so the hashes
it sent are the hashes the auditor recomputes. The node may change between the messages, its
retention and its other chunks included, as long as the pinned commitment stays.
-/

namespace AntNode

open LeftPacked

variable {H : Type} [Digest H] [CommitmentProtocol H]

/-! ### The inclusion path of a committed key -/

theorem BuiltCommitment.proofFor_isSome_iff {built : BuiltCommitment H} {key : H} :
    (built.proofFor key).isSome = true ↔ key ∈ built.leafKeys := by
  rw [leafKeys, ← MerkleTree.containsKey_iff, MerkleTree.containsKey]
  constructor
  · intro hproof
    cases hidx : built.tree.keyIndex key with
    | none =>
        rw [proofFor, hidx] at hproof
        exact hproof
    | some idx => rfl
  · intro hcontains
    obtain ⟨idx, hidx⟩ := Option.isSome_iff_exists.mp hcontains
    have hlt : idx < (built.tree.leaves.map Prod.snd).length := by
      rw [List.length_map]
      exact (List.findIdx?_eq_some_iff_findIdx_eq.mp hidx).1
    obtain ⟨path, hpath, -, -⟩ := MerkleTree.pathFrom_spec hlt
    rw [← built.tree.levels_eq] at hpath
    rw [proofFor, hidx, MerkleTree.pathFor, hidx]
    simp [hpath]

theorem BuiltCommitment.not_isNone_proofFor_iff {built : BuiltCommitment H} {key : H} :
    ¬(built.proofFor key).isNone = true ↔ key ∈ built.leafKeys := by
  rw [← proofFor_isSome_iff]
  cases built.proofFor key <;> simp

/-! ### Reading the chunks back -/

omit [Digest H] [CommitmentProtocol H] in
theorem getRawRetrying_eq_ok {storage : StoreReads H} {key : H} {reads : Nat}
    {value : Option Bytes} (hread : storage reads key = .ok value) :
    getRawRetrying storage key reads = (.ok value, reads + 1) := by
  rw [getRawRetrying, show auditReadRetryAttempts - 1 = 1 + 1 from rfl, getRawLoop, hread]

/-- Every read of these keys returns their content. -/
def ReadsBack (storage : StoreReads H) (keys : List H) (content : H → Bytes) : Prop :=
  ∀ reads, ∀ key ∈ keys, storage reads key = .ok (some (content key))

omit [CommitmentProtocol H] in
theorem readLeaves_eq_ok {storage : StoreReads H} {challenge : SubtreeAuditChallenge H}
    {keys : List H} {content : H → Bytes} (hreads : ReadsBack storage keys content) (reads : Nat) :
    readLeaves storage challenge keys reads = .ok (keys.map fun key =>
      subtreeLeaf challenge.nonce challenge.challengedPeerId key (content key)) := by
  induction keys generalizing reads with
  | nil => rfl
  | cons key keys ih =>
      rw [readLeaves, getRawRetrying_eq_ok (hreads reads key (by simp))]
      dsimp only
      rw [ih fun later other hother => hreads later other (by simp [hother])]
      rfl

theorem readItems_eq_ok {storage : StoreReads H} {built : BuiltCommitment H}
    {keys : List H} {content : H → Bytes} (hkeys : keys ⊆ built.leafKeys)
    (hreads : ReadsBack storage keys content) (reads : Nat) :
    readItems storage built keys reads
      = .ok (keys.map fun key => .present key (content key)) := by
  induction keys generalizing reads with
  | nil => rfl
  | cons key keys ih =>
      obtain ⟨hkey, hkeys⟩ := List.cons_subset.mp hkeys
      have hcommitted : ¬(built.proofFor key).isNone = true :=
        BuiltCommitment.not_isNone_proofFor_iff.mpr hkey
      rw [readItems, if_neg hcommitted, getRawRetrying_eq_ok (hreads reads key (by simp))]
      dsimp only
      rw [ih hkeys fun later other hother => hreads later other (by simp [hother])]
      rfl

omit [CommitmentProtocol H] in
theorem servedIn_map_present {keys : List H} (content : H → Bytes) {key : H} (hkey : key ∈ keys) :
    servedIn (keys.map fun k => .present k (content k)) key = some (some (content key)) := by
  induction keys with
  | nil => exact absurd hkey List.not_mem_nil
  | cons first keys ih =>
      rw [servedIn, List.map_cons, List.findSome?_cons, SubtreeByteItem.about]
      by_cases heq : first = key
      · rw [if_pos heq, heq]
      · rw [if_neg heq]
        exact ih ((List.mem_cons.mp hkey).resolve_left fun h => heq h.symm)

theorem mem_leafKeys_of_present {storage : StoreReads H} {built : BuiltCommitment H}
    {keys : List H} {reads : Nat} {items : List (SubtreeByteItem H)}
    (hitems : readItems storage built keys reads = .ok items) {key : H} {bytes : Bytes}
    (hpresent : .present key bytes ∈ items) : key ∈ built.leafKeys := by
  induction keys generalizing reads items with
  | nil =>
      obtain rfl := Except.ok.inj hitems
      exact absurd hpresent List.not_mem_nil
  | cons first keys ih =>
      -- whatever is put in front of the later items, a `Present` for another key is one of them
      have hlater : ∀ (front : SubtreeByteItem H) (reads : Nat),
          (readItems storage built keys reads).map (front :: ·) = .ok items →
            front = .present key bytes ∨ key ∈ built.leafKeys := by
        intro front reads heq
        obtain ⟨rest, hrest, rfl⟩ := Fallible.map_eq_ok_iff.mp heq
        rcases List.mem_cons.mp hpresent with hfront | hmem
        · exact .inl hfront.symm
        · exact .inr (ih hrest hmem)
      rw [readItems] at hitems
      by_cases hnone : (built.proofFor first).isNone = true
      · rw [if_pos hnone] at hitems
        exact (hlater _ _ hitems).resolve_left (by simp)
      · rw [if_neg hnone] at hitems
        split at hitems
        · rcases hlater _ _ hitems with hfront | hmem
          · obtain ⟨rfl, -⟩ := SubtreeByteItem.present.inj hfront
            exact BuiltCommitment.not_isNone_proofFor_iff.mp hnone
          · exact hmem
        · exact (hlater _ _ hitems).resolve_left (by simp)
        · cases hitems

theorem handleSubtreeByteChallenge_present {challenge : SubtreeByteChallenge H}
    {node : Responder H} {id : Nat} {items : List (SubtreeByteItem H)}
    (hitems : handleSubtreeByteChallenge challenge node = .items id items) {key : H}
    {bytes : Bytes} (hpresent : .present key bytes ∈ items) :
    ∃ state built, node.commitmentState = some state ∧
      state.lookupByHash challenge.expectedCommitmentHash = some built ∧ key ∈ built.leafKeys := by
  unfold handleSubtreeByteChallenge at hitems
  split_ifs at hitems
  split at hitems
  · cases hitems
  · rename_i state hstate
    split at hitems
    · cases hitems
    · rename_i built hbuilt
      split at hitems
      · cases hitems
      · rename_i items' hread
        obtain ⟨-, rfl⟩ := SubtreeByteResponse.items.inj hitems
        exact ⟨state, built, hstate, hbuilt, mem_leafKeys_of_present hread hpresent⟩

/-! ### An honest responder -/

/-- A node that can answer for `pin` at every message of an audit: it is up, it retains the
commitment it signed under that pin, the leaves are content-addressed, and the chunks are there. -/
structure AnswersFor (node : Nat → Responder H) (peer pin : H) (built : BuiltCommitment H)
    (content : H → Bytes) : Prop where
  selfPeerId : ∀ i, (node i).selfPeerId = peer
  isBootstrapping : ∀ i, (node i).isBootstrapping = false
  retains : ∀ i, ∃ state, (node i).commitmentState = some state ∧
    state.lookupByHash pin = some built
  sender : built.commitment.senderPeerId = peer
  publicKey : blake3 built.commitment.senderPublicKey = peer
  signed : verifyCommitmentSignature built.commitment = true
  contentAddressed : built.ContentAddressed
  readsBack : ∀ i, ReadsBack (node i).storage built.leafKeys content
  content_eq : ∀ key ∈ built.leafKeys, blake3 (content key) = key

/-- The part of it that says what is served, whatever the bytes are. -/
structure Serves (node : Responder H) (peer pin : H) (built : BuiltCommitment H)
    (content : H → Bytes) : Prop where
  selfPeerId : node.selfPeerId = peer
  isBootstrapping : node.isBootstrapping = false
  retains : ∃ state, node.commitmentState = some state ∧ state.lookupByHash pin = some built
  readsBack : ReadsBack node.storage built.leafKeys content

def auditOf (node : Nat → Responder H) (challengeId : Nat) (nonce : Nonce) (peer pin : H)
    (credit : Bool) : AuditCtx H :=
  ⟨peer, challengeId, nonce, pin, credit, fun i => (node i).reply⟩

def honestProof (plan : SubtreePlan H) (nonce : Nonce) (peer : H) (content : H → Bytes) :
    SubtreeProof H :=
  ⟨plan.leafKeys.map fun key => subtreeLeaf nonce peer key (content key), plan.siblingCutHashes⟩

namespace Serves

variable {peer pin : H} {built : BuiltCommitment H} {content : H → Bytes}

theorem handleSubtreeByteChallenge {node : Responder H}
    (hserves : Serves node peer pin built content) {challenge : SubtreeByteChallenge H}
    (hpeer : challenge.challengedPeerId = peer) (hpin : challenge.expectedCommitmentHash = pin)
    (hkeys : challenge.keys ⊆ built.leafKeys) (hlen : challenge.keys.length ≤ maxByteChallengeKeys) :
    handleSubtreeByteChallenge challenge node = .items challenge.challengeId
      (challenge.keys.map fun key => .present key (content key)) := by
  obtain ⟨state, hstate, hlookup⟩ := hserves.retains
  have hself : ¬challenge.challengedPeerId ≠ node.selfPeerId := by
    rw [hserves.selfPeerId, hpeer, not_not]
  unfold AntNode.handleSubtreeByteChallenge
  rw [if_neg (by simp [hserves.isBootstrapping]), if_neg hself, if_neg (Nat.not_lt.mpr hlen),
    hstate]
  dsimp only
  rw [hpin, hlookup]
  dsimp only
  rw [readItems_eq_ok hkeys fun reads key hkey => hserves.readsBack reads key (hkeys hkey)]

theorem requestByteProof {node : Nat → Responder H} {round : Nat}
    (hserves : Serves (node (round + 1)) peer pin built content) (challengeId : Nat)
    (nonce : Nonce) (credit : Bool) {keys : List H} (hkeys : keys ⊆ built.leafKeys)
    (hlen : keys.length ≤ maxByteChallengeKeys) :
    requestByteProof (auditOf node challengeId nonce peer pin credit) round keys
      = .served (keys.map fun key => .present key (content key)) := by
  have hsend : (auditOf node challengeId nonce peer pin credit).send (round + 1)
      (.subtreeByteChallenge (byteChallenge (auditOf node challengeId nonce peer pin credit) keys))
      = .received (.subtreeByteResponse (.items challengeId
          (keys.map fun key => .present key (content key)))) := by
    apply congrArg fun response => Delivery.received (.subtreeByteResponse response)
    exact hserves.handleSubtreeByteChallenge rfl rfl hkeys hlen
  unfold AntNode.requestByteProof
  rw [hsend]
  exact if_pos rfl

end Serves

namespace AnswersFor

variable {node : Nat → Responder H} {peer pin : H} {built : BuiltCommitment H}
  {content : H → Bytes}

theorem serves (hnode : AnswersFor node peer pin built content) (i : Nat) :
    Serves (node i) peer pin built content :=
  ⟨hnode.selfPeerId i, hnode.isBootstrapping i, hnode.retains i, hnode.readsBack i⟩

theorem cachedHash_eq (hnode : AnswersFor node peer pin built content) :
    built.cachedHash = pin := by
  obtain ⟨state, -, hlookup⟩ := hnode.retains 0
  simpa using List.find?_some hlookup

theorem subset_leafKeys {nonce : Nonce} {plan : SubtreePlan H}
    (hplan : subtreePlan built.tree nonce = .ok plan) : plan.leafKeys ⊆ built.leafKeys := by
  obtain ⟨path, plan', -, hplan', hkeys, -⟩ := subtreePlan_spec built.tree nonce
  obtain rfl : plan = plan' := Except.ok.inj (hplan.symm.trans hplan')
  rw [hkeys]
  exact (block_sublist _ _ _).subset

theorem leaf_of_honestProof {nonce : Nonce} {plan : SubtreePlan H}
    (hplan : subtreePlan built.tree nonce = .ok plan) {leaf : SubtreeLeaf H}
    (hleaf : leaf ∈ (honestProof plan nonce peer content).leaves) :
    leaf.key ∈ built.leafKeys ∧ leaf = subtreeLeaf nonce peer leaf.key (content leaf.key) := by
  obtain ⟨key, hkey, rfl⟩ := List.mem_map.mp hleaf
  exact ⟨subset_leafKeys hplan hkey, rfl⟩

theorem handleSubtreeChallenge (hnode : AnswersFor node peer pin built content) (i : Nat)
    {challenge : SubtreeAuditChallenge H} (hpeer : challenge.challengedPeerId = peer)
    (hpin : challenge.expectedCommitmentHash = pin) {plan : SubtreePlan H}
    (hplan : subtreePlan built.tree challenge.nonce = .ok plan) :
    handleSubtreeChallenge challenge (node i) = .proof challenge.challengeId built.commitment
      (honestProof plan challenge.nonce peer content) := by
  obtain ⟨state, hstate, hlookup⟩ := hnode.retains i
  have hreads : ReadsBack (node i).storage plan.leafKeys content :=
    fun reads key hkey => hnode.readsBack i reads key (subset_leafKeys hplan hkey)
  have hself : ¬challenge.challengedPeerId ≠ (node i).selfPeerId := by
    rw [hnode.selfPeerId i, hpeer, not_not]
  unfold AntNode.handleSubtreeChallenge
  rw [if_neg (by simp [hnode.isBootstrapping i]), if_neg hself, hstate]
  dsimp only
  rw [hpin, hlookup]
  dsimp only
  rw [hplan]
  dsimp only
  rw [readLeaves_eq_ok hreads, hpeer]
  rfl

/-- Its proof passes round one. -/
theorem evaluateSubtreeStructure (hnode : AnswersFor node peer pin built content) {nonce : Nonce}
    {plan : SubtreePlan H} (hplan : subtreePlan built.tree nonce = .ok plan) :
    evaluateSubtreeStructure built.commitment (honestProof plan nonce peer content) nonce pin peer
      = .ok () := by
  rw [evaluateSubtreeStructure_eq_ok_iff]
  refine ⟨hnode.sender, hnode.publicKey.trans hnode.sender.symm,
    hnode.cachedHash_eq ▸ built.hash_eq, hnode.signed, ?_⟩
  refine verifySubtreeProof_plan (MerkleTree.build_leafKeys hnode.contentAddressed) hplan ?_
    built.root_eq.symm built.keyCount_eq.symm
  intro entry hentry
  obtain ⟨key, hkey, rfl⟩ := List.mem_map.mp hentry
  exact hnode.content_eq key hkey

theorem byteRounds (hnode : AnswersFor node peer pin built content) (challengeId : Nat)
    {nonce : Nonce} (credit : Bool) {plan : SubtreePlan H}
    (hplan : subtreePlan built.tree nonce = .ok plan) {batches : List (List (SubtreeLeaf H))}
    (hbatches : ∀ batch ∈ batches, batch.length ≤ maxByteChallengeKeys ∧
      batch ⊆ (honestProof plan nonce peer content).leaves) (checked round : Nat) :
    byteRounds (auditOf node challengeId nonce peer pin credit) checked batches round
      = (.pass checked, []) := by
  apply byteRounds_of_proven
  intro i batch hget
  obtain ⟨hlen, hleaves⟩ := hbatches batch (List.mem_of_getElem? hget)
  have hform := fun leaf hleaf => leaf_of_honestProof hplan (hleaves (a := leaf) hleaf)
  refine ⟨_, (hnode.serves (round + i + 1)).requestByteProof challengeId nonce credit ?_
    (by simpa using hlen), fun leaf hleaf => ?_⟩
  · intro key hkey
    obtain ⟨leaf, hleaf, rfl⟩ := List.mem_map.mp hkey
    exact (hform leaf hleaf).1
  · refine ⟨content leaf.key, servedIn_map_present content (List.mem_map_of_mem hleaf), ?_, ?_⟩
    · exact congrArg SubtreeLeaf.bytesHash (hform leaf hleaf).2
    · exact congrArg SubtreeLeaf.noncedHash (hform leaf hleaf).2

/-- Its proof has the leaves of the selected branch, one of them at least. -/
theorem length_leaves (hnode : AnswersFor node peer pin built content) {nonce : Nonce}
    {plan : SubtreePlan H} (hplan : subtreePlan built.tree nonce = .ok plan) :
    ∃ path, selectSubtreePath nonce built.commitment.keyCount = some path ∧
      (honestProof plan nonce peer content).leaves.length = path.realLeafCount ∧
      0 < path.realLeafCount := by
  have hvalid := (evaluateSubtreeStructure_eq_ok_iff.mp
    (hnode.evaluateSubtreeStructure hplan)).2.2.2.2
  obtain ⟨path, hpath, hlen, -⟩ := verifySubtreeProof_eq_valid_iff.mp hvalid
  have hlt := (selectSubtreePath_eq_some hpath).2.2.leafStart_lt_leafEnd
  refine ⟨path, hpath, hlen, ?_⟩
  rw [SubtreePath.realLeafCount]
  omega

theorem sampledLeaves_ne_nil (hnode : AnswersFor node peer pin built content) {nonce : Nonce}
    {plan : SubtreePlan H} (hplan : subtreePlan built.tree nonce = .ok plan) (rng : Nat → Nat) :
    sampledLeaves (honestProof plan nonce peer content) rng ≠ [] := by
  obtain ⟨path, -, hlen, hpos⟩ := hnode.length_leaves hplan
  refine randomSpotcheckLeaves_ne_nil ?_ (by decide) rng
  apply List.ne_nil_of_length_pos
  rwa [hlen]

theorem verifySubtreeResponse (hnode : AnswersFor node peer pin built content) (challengeId : Nat)
    {nonce : Nonce} (credit : Bool) {plan : SubtreePlan H}
    (hplan : subtreePlan built.tree nonce = .ok plan) (rng : Nat → Nat) (now : Nat) :
    (verifySubtreeResponse (auditOf node challengeId nonce peer pin credit) built.commitment
        (honestProof plan nonce peer content) rng now).1
      = .passed peer (sampledLeaves (honestProof plan nonce peer content) rng).length := by
  have hbatches : ∀ batch ∈ chunks maxByteChallengeKeys
      (sampledLeaves (honestProof plan nonce peer content) rng),
      batch.length ≤ maxByteChallengeKeys ∧
        batch ⊆ (honestProof plan nonce peer content).leaves := by
    intro batch hbatch
    refine ⟨length_le_of_mem_chunks hbatch, fun leaf hleaf => ?_⟩
    apply mem_of_mem_randomSpotcheckLeaves
    rw [← sampledLeaves, ← flatten_chunks (by decide : 0 < maxByteChallengeKeys)
      (sampledLeaves (honestProof plan nonce peer content) rng)]
    exact List.mem_flatten.mpr ⟨batch, hbatch, hleaf⟩
  have hrounds := hnode.byteRounds challengeId credit hplan hbatches
    (sampledLeaves (honestProof plan nonce peer content) rng).length 0
  have hne : ¬(sampledLeaves (honestProof plan nonce peer content) rng).isEmpty = true := by
    rw [List.isEmpty_iff]
    exact hnode.sampledLeaves_ne_nil hplan rng
  have hstructure : AntNode.evaluateSubtreeStructure built.commitment
      (honestProof plan nonce peer content) (auditOf node challengeId nonce peer pin credit).nonce
      (auditOf node challengeId nonce peer pin credit).expectedCommitmentHash
      (auditOf node challengeId nonce peer pin credit).challengedPeer = .ok () :=
    hnode.evaluateSubtreeStructure hplan
  unfold AntNode.verifySubtreeResponse
  rw [hstructure]
  dsimp only
  rw [if_neg hne, hrounds]
  rfl

theorem runSubtreeAudit (hnode : AnswersFor node peer pin built content) (challengeId : Nat)
    {nonce : Nonce} (credit : Bool) {plan : SubtreePlan H}
    (hplan : subtreePlan built.tree nonce = .ok plan) (rng : Nat → Nat) (now : Nat) :
    (runSubtreeAudit (auditOf node challengeId nonce peer pin credit) rng now).1
      = .passed peer (sampledLeaves (honestProof plan nonce peer content) rng).length := by
  rw [← hnode.verifySubtreeResponse challengeId credit hplan rng now]
  set ctx := auditOf node challengeId nonce peer pin credit
  have hsend : ctx.send 0 (.subtreeAuditChallenge
      ⟨ctx.challengeId, ctx.nonce, ctx.challengedPeer, ctx.expectedCommitmentHash⟩)
      = .received (.subtreeAuditResponse
          (.proof challengeId built.commitment (honestProof plan nonce peer content))) := by
    apply congrArg fun response => Delivery.received (.subtreeAuditResponse response)
    exact hnode.handleSubtreeChallenge 0 rfl rfl hplan
  unfold AntNode.runSubtreeAudit
  rw [hsend]
  exact congrArg Prod.fst (if_neg (not_not.mpr rfl))

end AnswersFor

/-- **The two-round audit is complete, and its verdicts are ordered.** An honest responder passes
for every nonce, sample and batching. A refuted leaf in a served batch is a digest mismatch,
whatever the later batches answer. Credit is recorded by a passing audit alone, for exactly the
leaves of the proof under the pin. And a responder hands out no chunk it did not commit to under the
pin. -/
theorem subtreeAudit_complete_and_ordered :
    (∀ (node : Nat → Responder H) (peer pin : H) (built : BuiltCommitment H) (content : H → Bytes),
      AnswersFor node peer pin built content → ∀ (challengeId : Nat) (nonce : Nonce) (credit : Bool),
        ∃ proof, handleSubtreeChallenge ⟨challengeId, nonce, peer, pin⟩ (node 0)
            = .proof challengeId built.commitment proof ∧
          (∀ batches : List (List (SubtreeLeaf H)),
            (∀ batch ∈ batches, batch.length ≤ maxByteChallengeKeys ∧ batch ⊆ proof.leaves) →
              ∀ checked round, byteRounds (auditOf node challengeId nonce peer pin credit) checked
                batches round = (.pass checked, [])) ∧
          ∀ rng now,
            (verifySubtreeResponse (auditOf node challengeId nonce peer pin credit)
              built.commitment proof rng now).1 = .passed peer (sampledLeaves proof rng).length ∧
            (runSubtreeAudit (auditOf node challengeId nonce peer pin credit) rng now).1
              = .passed peer (sampledLeaves proof rng).length) ∧
    (∀ (ctx : AuditCtx H) (commitment : StorageCommitment H) (proof : SubtreeProof H)
        (rng : Nat → Nat) (now i : Nat) (batch : List (SubtreeLeaf H))
        (items : List (SubtreeByteItem H)) (leaf : SubtreeLeaf H),
      evaluateSubtreeStructure commitment proof ctx.nonce ctx.expectedCommitmentHash
          ctx.challengedPeer = .ok () →
        (∀ j < i, ∃ earlier served,
          ServedAs ctx (chunks maxByteChallengeKeys (sampledLeaves proof rng)) j earlier served) →
        ServedAs ctx (chunks maxByteChallengeKeys (sampledLeaves proof rng)) i batch items →
        leaf ∈ batch → Refuted ctx items leaf →
          verifySubtreeResponse ctx commitment proof rng now
            = (failed ctx.challengedPeer ctx.challengeId .digestMismatch, [])) ∧
    (∀ (ctx : AuditCtx H) (rng : Nat → Nat) (now : Nat),
      (∀ key peer hash provedAt,
        .recordProof key peer hash provedAt ∈ (runSubtreeAudit ctx rng now).2 →
          ∃ checked, (runSubtreeAudit ctx rng now).1 = .passed ctx.challengedPeer checked) ∧
      ∀ (commitment : StorageCommitment H) (proof : SubtreeProof H),
        (∀ key peer hash provedAt,
          .recordProof key peer hash provedAt ∈
            (verifySubtreeResponse ctx commitment proof rng now).2 →
              ∃ checked, (verifySubtreeResponse ctx commitment proof rng now).1
                = .passed ctx.challengedPeer checked) ∧
        ∀ peer checked,
          (verifySubtreeResponse ctx commitment proof rng now).1 = .passed peer checked →
            (verifySubtreeResponse ctx commitment proof rng now).2 =
              if ctx.credit then
                proof.leaves.map fun leaf =>
                  .recordProof leaf.key ctx.challengedPeer ctx.expectedCommitmentHash now
              else []) ∧
    (∀ (challenge : SubtreeByteChallenge H) (node : Responder H) (id : Nat)
        (items : List (SubtreeByteItem H)) (key : H) (bytes : Bytes),
      handleSubtreeByteChallenge challenge node = .items id items → .present key bytes ∈ items →
        ∃ state built, node.commitmentState = some state ∧
          state.lookupByHash challenge.expectedCommitmentHash = some built ∧
          key ∈ built.leafKeys) := by
  refine ⟨?_, ?_, ?_, ?_⟩
  · intro node peer pin built content hnode challengeId nonce credit
    obtain ⟨path, plan, -, hplan, -⟩ := subtreePlan_spec built.tree nonce
    refine ⟨honestProof plan nonce peer content, hnode.handleSubtreeChallenge 0 rfl rfl hplan,
      ?_, ?_⟩
    · intro batches hbatches checked round
      exact hnode.byteRounds challengeId credit hplan hbatches checked round
    · intro rng now
      exact ⟨hnode.verifySubtreeResponse challengeId credit hplan rng now,
        hnode.runSubtreeAudit challengeId credit hplan rng now⟩
  · intro ctx commitment proof rng now i batch items leaf hstructure hearlier hserved hleaf hrefuted
    exact verifySubtreeResponse_of_refuted hstructure hearlier hserved hleaf hrefuted now
  · intro ctx rng now
    refine ⟨fun key peer hash provedAt hrecord => passed_of_recordProof_run hrecord, ?_⟩
    intro commitment proof
    refine ⟨fun key peer hash provedAt hrecord => passed_of_recordProof hrecord, ?_⟩
    intro peer checked hpassed
    exact creditUpdates_of_passed hpassed
  · intro challenge node id items key bytes hitems hpresent
    exact handleSubtreeByteChallenge_present hitems hpresent

namespace Transcript

def holder : Responder Transcript where
  storage := fun _ key => .ok (some key.bytes)
  selfPeerId := ⟨[7]⟩
  isBootstrapping := false
  commitmentState := some ⟨[solo ⟨[1]⟩], true, []⟩

end Transcript

namespace ByteName

section

variable (n : Nat) (hpos : 0 < n) (hmax : n ≤ maxCommitmentKeyCount)

theorem firstHolder_answersFor :
    AnswersFor (fun _ => firstHolder n hpos hmax) (blake3 publicKey) (firstTree n hpos hmax).root
      (firstCommitment n hpos hmax) asBytes where
  selfPeerId := fun _ => rfl
  isBootstrapping := fun _ => rfl
  retains := fun _ => ⟨⟨[firstCommitment n hpos hmax], true, []⟩, rfl,
    List.find?_cons_of_pos (decide_eq_true rfl)⟩
  sender := rfl
  publicKey := rfl
  signed := decide_eq_true ⟨length_publicKey, length_signature⟩
  contentAddressed := by
    intro leaf hleaf
    obtain ⟨i, -, rfl⟩ := List.mem_map.mp hleaf
    rfl
  readsBack := fun _ _ _ _ => rfl
  content_eq := fun key _ => blake3_asBytes key

theorem keyCount_firstCommitment : (firstCommitment n hpos hmax).commitment.keyCount = n := by
  change (firstLeaves n).length = n
  rw [firstLeaves, List.length_map, List.length_range]

/-- The address in place of every chunk. -/
def swappedHolder (address : ByteName) : Responder ByteName :=
  { firstHolder n hpos hmax with storage := fun _ _ => .ok (some (asBytes address)) }

theorem swappedHolder_serves (address : ByteName) :
    Serves (swappedHolder n hpos hmax address) (blake3 publicKey) (firstTree n hpos hmax).root
      (firstCommitment n hpos hmax) fun _ => asBytes address where
  selfPeerId := rfl
  isBootstrapping := rfl
  retains := (firstHolder_answersFor n hpos hmax).retains 0
  readsBack := fun _ _ _ => rfl

theorem exists_of_mem_leafKeys {key : ByteName}
    (hkey : key ∈ (firstCommitment n hpos hmax).leafKeys) : ∃ i < n, key = ofNat i := by
  obtain ⟨leaf, hleaf, rfl⟩ := List.mem_map.mp hkey
  obtain ⟨i, hi, rfl⟩ := List.mem_map.mp hleaf
  exact ⟨i, List.mem_range.mp hi, rfl⟩

/-- It answers the proof and the first batch from its own chunks, every later batch from another. -/
def swapsLater (address : ByteName) (i : Nat) : Responder ByteName :=
  if i ≤ 1 then firstHolder n hpos hmax else swappedHolder n hpos hmax address

theorem swapsLater_serves (address : ByteName) (round : Nat) :
    Serves (swapsLater n hpos hmax address (round + 1)) (blake3 publicKey)
      (firstTree n hpos hmax).root (firstCommitment n hpos hmax)
      fun key => if round = 0 then asBytes key else asBytes address := by
  rw [swapsLater]
  cases round with
  | zero => exact (firstHolder_answersFor n hpos hmax).serves 0
  | succ round =>
      rw [if_neg (by omega)]
      exact swappedHolder_serves n hpos hmax address

end

theorem realLeafCount_of_sixteen {path : SubtreePath}
    (hpath : selectSubtreePath (Vector.replicate 32 0) 16 = some path) :
    path.realLeafCount = 4 := by
  have hcount : (selectSubtreePath (Vector.replicate 32 0) 16).map SubtreePath.realLeafCount =
    some 4 := by decide +kernel
  rw [hpath] at hcount
  exact Option.some.inj hcount

theorem batches_of_four {H : Type} {proof : SubtreeProof H} (hleaves : proof.leaves.length = 4)
    (rng : Nat → Nat) :
    ∃ a b c d, sampledLeaves proof rng = [a, b, c, d] ∧
      chunks maxByteChallengeKeys (sampledLeaves proof rng) = [[a, b], [c, d]] := by
  have hlen : (sampledLeaves proof rng).length = 4 := by
    rw [sampledLeaves, (randomSpotcheckLeaves_spec (hleaves ▸ Nat.succ_pos 3) _ rng).2, hleaves]
    rfl
  match hsampled : sampledLeaves proof rng, hlen with
  | [a, b, c, d], _ => exact ⟨a, b, c, d, rfl, rfl⟩

end ByteName

open ByteName

/-- Sixteen chunks: the proof shows four of them, the sample is asked for in two batches, and the
holder passes whatever is drawn. A node that answers the second batch with a chunk it did not commit
to does not. -/
theorem subtreeAudit_of_holder :
    ∃ proof, handleSubtreeChallenge ⟨1, Vector.replicate 32 0, blake3 publicKey,
          (firstTree 16 (by decide) (by decide)).root⟩ (firstHolder 16 (by decide) (by decide))
        = .proof 1 (firstCommitment 16 (by decide) (by decide)).commitment proof ∧
      proof.leaves.length = 4 ∧
      ∀ rng now,
        (chunks maxByteChallengeKeys (sampledLeaves proof rng)).length = 2 ∧
        (runSubtreeAudit (auditOf (fun _ => firstHolder 16 (by decide) (by decide)) 1
          (Vector.replicate 32 0) (blake3 publicKey) (firstTree 16 (by decide) (by decide)).root
          true) rng now).1 = .passed (blake3 publicKey) 4 ∧
        verifySubtreeResponse (auditOf (swapsLater 16 (by decide) (by decide) (ofNat 16)) 1
          (Vector.replicate 32 0) (blake3 publicKey) (firstTree 16 (by decide) (by decide)).root
          true) (firstCommitment 16 (by decide) (by decide)).commitment proof rng now
            = (failed (blake3 publicKey) 1 .digestMismatch, []) := by
  have hnode := firstHolder_answersFor 16 (by decide) (by decide)
  obtain ⟨path, plan, -, hplan, -⟩ :=
    subtreePlan_spec (firstTree 16 (by decide) (by decide)) (Vector.replicate 32 0)
  obtain ⟨proof, hproof, -, hpassed⟩ := subtreeAudit_complete_and_ordered.1 _ _ _ _ _ hnode
    1 (Vector.replicate 32 0) true
  have hshown : handleSubtreeChallenge ⟨1, Vector.replicate 32 0, blake3 publicKey,
      (firstTree 16 (by decide) (by decide)).root⟩ (firstHolder 16 (by decide) (by decide)) =
        .proof 1 (firstCommitment 16 (by decide) (by decide)).commitment
          (honestProof plan (Vector.replicate 32 0) (blake3 publicKey) asBytes) :=
    hnode.handleSubtreeChallenge 0 rfl rfl hplan
  obtain rfl := (SubtreeAuditResponse.proof.inj (hshown.symm.trans hproof)).2.2
  have hleaves : (honestProof plan (Vector.replicate 32 0) (blake3 publicKey) asBytes).leaves.length
      = 4 := by
    obtain ⟨path, hpath, hlen, -⟩ := hnode.length_leaves hplan
    rw [keyCount_firstCommitment] at hpath
    rw [hlen, realLeafCount_of_sixteen hpath]
  refine ⟨_, hproof, hleaves, fun rng now => ?_⟩
  obtain ⟨a, b, c, d, hsampled, hbatches⟩ := batches_of_four hleaves rng
  refine ⟨congrArg List.length hbatches, ?_, ?_⟩
  · rw [(hpassed rng now).2, hsampled]
    rfl
  have hform : ∀ leaf ∈ [a, b, c, d],
      leaf.key ∈ (firstCommitment 16 (by decide) (by decide)).leafKeys ∧
        leaf = subtreeLeaf (Vector.replicate 32 0) (blake3 publicKey) leaf.key (asBytes leaf.key) :=
    fun leaf hleaf => AnswersFor.leaf_of_honestProof hplan
      (mem_of_mem_randomSpotcheckLeaves (hsampled ▸ hleaf))
  have hserves := swapsLater_serves 16 (by decide) (by decide) (ofNat 16)
  have hfirst := (hserves 0).requestByteProof 1 (Vector.replicate 32 0) true
    (show [a.key, b.key] ⊆ _ by simp [(hform a (by simp)).1, (hform b (by simp)).1]) le_rfl
  have hsecond := (hserves 1).requestByteProof 1 (Vector.replicate 32 0) true
    (show [c.key, d.key] ⊆ _ by simp [(hform c (by simp)).1, (hform d (by simp)).1]) le_rfl
  refine subtreeAudit_complete_and_ordered.2.1 _ _ _ _ _ 1 [c, d] _ c
    (hnode.evaluateSubtreeStructure hplan) ?_ ⟨?_, hsecond⟩ ?_ ?_
  · intro j hj
    obtain rfl : j = 0 := Nat.lt_one_iff.mp hj
    exact ⟨[a, b], _, by rw [hbatches]; rfl, hfirst⟩
  · rw [hbatches]
    rfl
  · exact List.mem_cons_self
  · refine .inr (.inr ⟨_, servedIn_map_present _ List.mem_cons_self, .inl ?_⟩)
    obtain ⟨i, hi, hkey⟩ := exists_of_mem_leafKeys 16 (by decide) (by decide) (hform c (by simp)).1
    rw [(hform c (by simp)).2, if_neg Nat.one_ne_zero]
    change blake3 (asBytes c.key) ≠ blake3 (asBytes (ofNat 16))
    rw [blake3_asBytes, blake3_asBytes, hkey]
    exact (ofNat_lt_ofNat hi (by decide)).ne

end AntNode
