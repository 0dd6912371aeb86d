import AntNode.Proof.EvidenceOrder
import AntNode.Proof.QuorumExact
import AntNode.Transcript
import AntNode.VerificationProtocol

/-!
# What a round finds out

A round among peers that keep to the protocol finds out what they hold: the evidence of a key is what
its target peers have in their stores and on their paid lists, as far as they answer, and the outcome
is the count of that. Between the two lie the batches, the indices and the order of the answers, and
none of it shows.
-/

namespace AntNode

open Voting

variable {H : Type} [Digest H]

/-! ### Who is asked about what -/

/-- The peers whose presence counts for a key. -/
def quorumGroup (table : RoutingTable H) (config : ReplicationConfig) (selfId key : H) : List H :=
  (table.findClosestNodesLocal key config.closeGroupSize).filter fun peer => decide (peer ≠ selfId)

/-- The peers whose paid list counts for a key. -/
def paidGroup (table : RoutingTable H) (config : ReplicationConfig) (selfId key : H) : List H :=
  (table.findClosestNodesLocalWithSelf key config.paidListCloseGroupSize).filter
    fun peer => decide (peer ≠ selfId)

section Targets

variable {targets : VerificationTargets H} {key k peer p : H}

theorem mem_peerKeys_askKey :
    k ∈ (targets.askKey key peer).peerKeys p ↔ k ∈ targets.peerKeys p ∨ k = key ∧ p = peer := by
  unfold VerificationTargets.askKey VerificationTargets.peerKeys
  rw [FiniteMap.lookup_insert_eq]
  by_cases heq : p = peer
  · subst heq
    simp [or_comm]
  · simp [heq]

theorem mem_peerKeys_foldl_askKey (peers : List H) :
    k ∈ (peers.foldl (fun targets peer => targets.askKey key peer) targets).peerKeys p ↔
      k ∈ targets.peerKeys p ∨ k = key ∧ p ∈ peers := by
  induction peers generalizing targets with
  | nil => simp
  | cons peer peers ih =>
      rw [List.foldl_cons, ih, mem_peerKeys_askKey, List.mem_cons, or_assoc, ← and_or_left]

theorem asksPaid_askPaidKey :
    (targets.askPaidKey key peer).asksPaid p k = true ↔
      targets.asksPaid p k = true ∨ k = key ∧ p = peer := by
  unfold VerificationTargets.askPaidKey VerificationTargets.asksPaid
  rw [FiniteMap.lookup_insert_eq]
  by_cases heq : p = peer
  · subst heq
    cases targets.peerToPaidKeys.lookup p with
    | none => simp
    | some keys => simp [or_comm]
  · simp [heq]

theorem foldl_askPaid (peers : List H) :
    (k ∈ (peers.foldl (fun targets peer => (targets.askKey key peer).askPaidKey key peer)
        targets).peerKeys p ↔ k ∈ targets.peerKeys p ∨ k = key ∧ p ∈ peers) ∧
    ((peers.foldl (fun targets peer => (targets.askKey key peer).askPaidKey key peer)
        targets).asksPaid p k = true ↔ targets.asksPaid p k = true ∨ k = key ∧ p ∈ peers) := by
  induction peers generalizing targets with
  | nil => simp
  | cons peer peers ih =>
      have hkey : k ∈ ((targets.askKey key peer).askPaidKey key peer).peerKeys p ↔
          k ∈ targets.peerKeys p ∨ k = key ∧ p = peer := mem_peerKeys_askKey
      have hasked : ((targets.askKey key peer).askPaidKey key peer).asksPaid p k = true ↔
          targets.asksPaid p k = true ∨ k = key ∧ p = peer := asksPaid_askPaidKey
      rw [List.foldl_cons, List.mem_cons]
      constructor
      · rw [ih.1, hkey, or_assoc, ← and_or_left]
      · rw [ih.2, hasked, or_assoc, ← and_or_left]

variable {table : RoutingTable H} {config : ReplicationConfig} {selfId : H} {keys : List H}

theorem mem_peerKeys_addQuorumTargets :
    k ∈ (addQuorumTargets table config selfId targets key).peerKeys p ↔
      k ∈ targets.peerKeys p ∨ k = key ∧ p ∈ quorumGroup table config selfId key :=
  mem_peerKeys_foldl_askKey _

theorem addQuorumTargets_frame :
    (addQuorumTargets table config selfId targets key).peerToPaidKeys = targets.peerToPaidKeys ∧
    (addQuorumTargets table config selfId targets key).paidTargets = targets.paidTargets ∧
    (addQuorumTargets table config selfId targets key).paidGroupSizes = targets.paidGroupSizes ∧
    (addQuorumTargets table config selfId targets key).quorumTargets =
      targets.quorumTargets.insert key (quorumGroup table config selfId key) := by
  have hfold : ∀ (peers : List H) (targets : VerificationTargets H),
      (peers.foldl (fun targets peer => targets.askKey key peer) targets).peerToPaidKeys =
          targets.peerToPaidKeys ∧
        (peers.foldl (fun targets peer => targets.askKey key peer) targets).paidTargets =
          targets.paidTargets ∧
        (peers.foldl (fun targets peer => targets.askKey key peer) targets).paidGroupSizes =
          targets.paidGroupSizes ∧
        (peers.foldl (fun targets peer => targets.askKey key peer) targets).quorumTargets =
          targets.quorumTargets := by
    intro peers
    induction peers with
    | nil => exact fun _ => ⟨rfl, rfl, rfl, rfl⟩
    | cons peer peers ih => exact fun targets => ih (targets.askKey key peer)
  obtain ⟨hpaidKeys, hpaid, hsizes, hquorum⟩ := hfold (quorumGroup table config selfId key) targets
  exact ⟨hpaidKeys, hpaid, hsizes, congrArg (Finmap.insert key _) hquorum⟩

theorem addPaidTargets_frame :
    (addPaidTargets table config selfId targets key).quorumTargets = targets.quorumTargets ∧
    (addPaidTargets table config selfId targets key).paidTargets =
      targets.paidTargets.insert key (paidGroup table config selfId key) ∧
    (addPaidTargets table config selfId targets key).paidGroupSizes =
      targets.paidGroupSizes.insert key
        (table.findClosestNodesLocalWithSelf key config.paidListCloseGroupSize).length := by
  have hfold : ∀ (peers : List H) (targets : VerificationTargets H),
      (peers.foldl (fun targets peer => (targets.askKey key peer).askPaidKey key peer)
          targets).quorumTargets = targets.quorumTargets ∧
        (peers.foldl (fun targets peer => (targets.askKey key peer).askPaidKey key peer)
          targets).paidTargets = targets.paidTargets ∧
        (peers.foldl (fun targets peer => (targets.askKey key peer).askPaidKey key peer)
          targets).paidGroupSizes = targets.paidGroupSizes := by
    intro peers
    induction peers with
    | nil => exact fun _ => ⟨rfl, rfl, rfl⟩
    | cons peer peers ih => exact fun targets => ih ((targets.askKey key peer).askPaidKey key peer)
  obtain ⟨hquorum, hpaid, hsizes⟩ := hfold (paidGroup table config selfId key) targets
  exact ⟨hquorum, congrArg (Finmap.insert key _) hpaid, congrArg (Finmap.insert key _) hsizes⟩

/-- The targets of a key, added in one turn of the loop. -/
def addTargets (table : RoutingTable H) (config : ReplicationConfig) (selfId : H)
    (targets : VerificationTargets H) (key : H) : VerificationTargets H :=
  addPaidTargets table config selfId (addQuorumTargets table config selfId targets key) key

theorem mem_peerKeys_addTargets :
    k ∈ (addTargets table config selfId targets key).peerKeys p ↔
      k ∈ targets.peerKeys p ∨ k = key ∧ (p ∈ quorumGroup table config selfId key ∨
        p ∈ paidGroup table config selfId key) := by
  have hpaid : k ∈ (addTargets table config selfId targets key).peerKeys p ↔
      k ∈ (addQuorumTargets table config selfId targets key).peerKeys p ∨
        k = key ∧ p ∈ paidGroup table config selfId key := (foldl_askPaid _).1
  rw [hpaid, mem_peerKeys_addQuorumTargets, or_assoc, ← and_or_left]

theorem asksPaid_addTargets :
    (addTargets table config selfId targets key).asksPaid p k = true ↔
      targets.asksPaid p k = true ∨ k = key ∧ p ∈ paidGroup table config selfId key := by
  have hpaid : (addTargets table config selfId targets key).asksPaid p k = true ↔
      (addQuorumTargets table config selfId targets key).asksPaid p k = true ∨
        k = key ∧ p ∈ paidGroup table config selfId key := (foldl_askPaid _).2
  rw [hpaid, VerificationTargets.asksPaid, addQuorumTargets_frame.1]
  rfl

theorem mem_peerKeys_foldl_addTargets :
    k ∈ (keys.foldl (addTargets table config selfId) targets).peerKeys p ↔
      k ∈ targets.peerKeys p ∨ k ∈ keys ∧ (p ∈ quorumGroup table config selfId k ∨
        p ∈ paidGroup table config selfId k) := by
  induction keys generalizing targets with
  | nil => simp
  | cons key keys ih =>
      rw [List.foldl_cons, ih, mem_peerKeys_addTargets, List.mem_cons, or_assoc, or_and_right]
      refine or_congr_right (or_congr_left (and_congr_right ?_))
      rintro rfl
      rfl

theorem asksPaid_foldl_addTargets :
    (keys.foldl (addTargets table config selfId) targets).asksPaid p k = true ↔
      targets.asksPaid p k = true ∨ k ∈ keys ∧ p ∈ paidGroup table config selfId k := by
  induction keys generalizing targets with
  | nil => simp
  | cons key keys ih =>
      rw [List.foldl_cons, ih, asksPaid_addTargets, List.mem_cons, or_assoc, or_and_right]
      refine or_congr_right (or_congr_left (and_congr_right ?_))
      rintro rfl
      rfl

theorem mem_peerKeys_dedupKeys : k ∈ targets.dedupKeys.peerKeys p ↔ k ∈ targets.peerKeys p := by
  unfold VerificationTargets.dedupKeys VerificationTargets.peerKeys
  rw [FiniteMap.lookup_mapValues]
  cases targets.peerToKeys.lookup p with
  | none => simp
  | some keys => simp [List.mem_insertionSort]

theorem nodup_peerKeys_dedupKeys : (targets.dedupKeys.peerKeys p).Nodup := by
  unfold VerificationTargets.dedupKeys VerificationTargets.peerKeys
  rw [FiniteMap.lookup_mapValues]
  cases targets.peerToKeys.lookup p with
  | none => simp
  | some keys => exact List.nodup_dedup _

/-- What the targets of a round are, key by key. -/
theorem computeVerificationTargets_spec (hkey : key ∈ keys) :
    (computeVerificationTargets keys table config selfId).quorumPeers key =
        quorumGroup table config selfId key ∧
      (computeVerificationTargets keys table config selfId).paidPeers key =
        paidGroup table config selfId key ∧
      (computeVerificationTargets keys table config selfId).paidGroupSize key =
        (table.findClosestNodesLocalWithSelf key config.paidListCloseGroupSize).length := by
  have hview : ∀ {α : Type} (view : VerificationTargets H → FiniteMap H α) (group : H → α),
      (∀ targets k, view (addTargets table config selfId targets k) =
        (view targets).insert k (group k)) →
      ∀ targets, (view (keys.foldl (addTargets table config selfId) targets)).lookup key =
        some (group key) := by
    intro α view group hadd targets
    have hfold := List.view_foldl (addTargets table config selfId)
      (fun targets => (view targets).lookup key) (fun _ => some (group key)) (· = key) ?step
      (fun _ => rfl) keys targets
    case step =>
      intro targets other
      rw [hadd, FiniteMap.lookup_insert_eq]
      by_cases heq : other = key
      · subst heq
        simp
      · simp [heq, Ne.symm heq]
    rw [hfold]
    simp [hkey]
  have hquorum := hview (·.quorumTargets) (quorumGroup table config selfId)
    (fun targets k => addPaidTargets_frame.1.trans addQuorumTargets_frame.2.2.2) .empty
  have hpaid := hview (·.paidTargets) (paidGroup table config selfId)
    (fun targets k => addPaidTargets_frame.2.1.trans
      (congrArg (Finmap.insert k _) addQuorumTargets_frame.2.1)) .empty
  have hsize := hview (·.paidGroupSizes)
    (fun k => (table.findClosestNodesLocalWithSelf k config.paidListCloseGroupSize).length)
    (fun targets k => addPaidTargets_frame.2.2.trans
      (congrArg (Finmap.insert k _) addQuorumTargets_frame.2.2.1)) .empty
  refine ⟨?_, ?_, ?_⟩
  · exact congrArg (·.getD []) hquorum
  · exact congrArg (·.getD []) hpaid
  · have hlookup : (computeVerificationTargets keys table config selfId).paidGroupSizes.lookup key =
        some (table.findClosestNodesLocalWithSelf key config.paidListCloseGroupSize).length := hsize
    rw [VerificationTargets.paidGroupSize, hlookup, Option.getD_some]

/-- Every target of a key is asked about it, once, and every paid target about its paid list. -/
structure VerificationTargets.AsksTargets (targets : VerificationTargets H) (key : H) : Prop where
  asked : ∀ peer, targets.Target key peer → key ∈ targets.peerKeys peer
  paid : ∀ peer ∈ targets.paidPeers key, targets.asksPaid peer key = true
  nodup : ∀ peer, (targets.peerKeys peer).Nodup

theorem asksTargets_computeVerificationTargets (hkey : key ∈ keys) :
    (computeVerificationTargets keys table config selfId).AsksTargets key where
  asked := by
    intro peer htarget
    rw [VerificationTargets.Target, (computeVerificationTargets_spec hkey).1,
      (computeVerificationTargets_spec hkey).2.1] at htarget
    exact mem_peerKeys_dedupKeys.mpr (mem_peerKeys_foldl_addTargets.mpr (.inr ⟨hkey, htarget⟩))
  paid := by
    intro peer hpeer
    rw [(computeVerificationTargets_spec hkey).2.1] at hpeer
    exact asksPaid_foldl_addTargets.mpr (.inr ⟨hkey, hpeer⟩)
  nodup := fun _ => nodup_peerKeys_dedupKeys

end Targets

/-! ### The answer to a request -/

section Answer

variable {targets : VerificationTargets H} {net : PeerNetwork H} {key peer : H}

theorem mem_paidListCheckIndices {i : Nat} :
    i ∈ (targets.request peer).paidListCheckIndices ↔
      i < 2 ^ 32 ∧ ∃ key, (targets.peerKeys peer)[i]? = some key ∧
        targets.asksPaid peer key = true := by
  simp only [VerificationTargets.request, List.mem_filterMap]
  constructor
  · rintro ⟨⟨key, j⟩, hmem, hindex⟩
    have hget := List.mem_zipIdx_iff_getElem?.mp hmem
    simp only [Option.ite_none_right_eq_some, Bool.and_eq_true, decide_eq_true_eq,
      Option.some_inj] at hindex
    obtain ⟨⟨hpaid, hlt⟩, rfl⟩ := hindex
    exact ⟨hlt, key, hget, hpaid⟩
  · rintro ⟨hlt, key, hget, hpaid⟩
    refine ⟨(key, i), List.mem_zipIdx_iff_getElem?.mpr hget, ?_⟩
    simp only [hpaid, decide_eq_true hlt, Bool.and_self, if_true]

/-- A peer answers every key it is asked about, in order, and its paid list where it is asked. -/
theorem results_of_request (store : PeerStore H)
    (hlength : (targets.peerKeys peer).length < 2 ^ 32) :
    (handleVerificationRequest store (targets.request peer)).results =
      (targets.peerKeys peer).map fun key =>
        ⟨key, store.holds key,
          if targets.asksPaid peer key then some (store.hasPaid key) else none⟩ := by
  have hkeys : (targets.request peer).keys = targets.peerKeys peer := rfl
  have hentry : ∀ entry ∈ (targets.peerKeys peer).zipIdx,
      ((if entry.2 < 2 ^ 32 then entry.2 else 2 ^ 32 - 1) ∈
        ((targets.request peer).paidListCheckIndices.filter fun idx =>
          decide (idx < (targets.request peer).keys.length % 2 ^ 32)).toFinset ↔
        targets.asksPaid peer entry.1 = true) := by
    rintro ⟨key, i⟩ hmem
    have hget : (targets.peerKeys peer)[i]? = some key := List.mem_zipIdx_iff_getElem?.mp hmem
    have hlt : i < (targets.peerKeys peer).length := (List.getElem?_eq_some_iff.mp hget).1
    have hindex : i < 2 ^ 32 := hlt.trans hlength
    rw [if_pos hindex]
    simp only [List.mem_toFinset, List.mem_filter, decide_eq_true_eq, hkeys,
      Nat.mod_eq_of_lt hlength, hlt, and_true, mem_paidListCheckIndices, hindex, true_and, hget,
      Option.some_inj, exists_eq_left']
  calc
    (handleVerificationRequest store (targets.request peer)).results =
        (targets.peerKeys peer).zipIdx.map (fun entry =>
          (⟨entry.1, store.holds entry.1,
            if targets.asksPaid peer entry.1 then some (store.hasPaid entry.1) else none⟩ :
            KeyVerificationResult H)) := by
      apply List.map_congr_left
      intro entry hmem
      simp only [hentry entry hmem]
    _ = ((targets.peerKeys peer).zipIdx.map Prod.fst).map fun key =>
        ⟨key, store.holds key,
          if targets.asksPaid peer key then some (store.hasPaid key) else none⟩ := by
      rw [List.map_map]
      rfl
    _ = _ := by rw [List.zipIdx_map_fst]

theorem filterMap_key_of_nodup {β : Type} {keys : List H} (hnodup : keys.Nodup) (hkey : key ∈ keys)
    (answer : H → KeyVerificationResult H) (hanswer : ∀ k, (answer k).key = k)
    (f : KeyVerificationResult H → Option β) :
    ((keys.map answer).filterMap fun result => if result.key = key then f result else none) =
      (f (answer key)).toList := by
  induction keys with
  | nil => cases hkey
  | cons first keys ih =>
      obtain ⟨hfirst, hnodup⟩ := List.nodup_cons.mp hnodup
      rw [List.map_cons, List.filterMap_cons]
      by_cases heq : first = key
      · subst heq
        have hnone : ((keys.map answer).filterMap fun result =>
            if result.key = first then f result else none) = [] := by
          rw [List.filterMap_eq_nil_iff]
          intro result hresult
          obtain ⟨k, hk, rfl⟩ := List.mem_map.mp hresult
          rw [hanswer, if_neg]
          rintro rfl
          exact hfirst hk
        rw [hanswer, if_pos rfl, hnone]
        cases f (answer first) with
        | none => rfl
        | some b => rfl
      · have hmem : key ∈ keys := (List.mem_cons.mp hkey).resolve_left fun h => heq h.symm
        rw [hanswer, if_neg heq]
        exact ih hnodup hmem

/-- What the evidence says of a peer that is asked about a key. -/
theorem settle_outcome (hnodup : (targets.peerKeys peer).Nodup)
    (hkey : key ∈ targets.peerKeys peer) :
    settle targets (net.outcome targets peer) peer key (none, none) =
      if net.answers peer (targets.request peer) then
        (some (if (net.store peer).holds key then .present else .absent),
          if targets.asksPaid peer key then
            some (if (net.store peer).hasPaid key then .confirmed else .notFound)
          else none)
      else
        (some .unresolved, if targets.asksPaid peer key then some .unresolved else none) := by
  unfold settle PeerNetwork.outcome
  rw [if_pos hkey]
  by_cases hanswers : net.answers peer (targets.request peer) = true
  · have hlength : (targets.peerKeys peer).length < 2 ^ 32 := by
      have hfits : 32 * (targets.peerKeys peer).length ≤ maxReplicationMessageSize :=
        net.fits peer _ hanswers
      unfold maxReplicationMessageSize replicationMessageSizeMib at hfits
      omega
    have hheard : targets.heard peer
        (handleVerificationRequest (net.store peer) (targets.request peer)) =
          (targets.peerKeys peer).map fun key => ⟨key, (net.store peer).holds key,
            if targets.asksPaid peer key then some ((net.store peer).hasPaid key) else none⟩ := by
      unfold VerificationTargets.heard
      rw [results_of_request (net.store peer) hlength, List.take_of_length_le]
      rw [List.length_map]
      omega
    simp only [hanswers, if_true, hheard, spokenPresence, spokenPaid]
    rw [filterMap_key_of_nodup hnodup hkey _ (fun _ => rfl) fun result =>
        some (if result.present then PresenceEvidence.present else .absent),
      filterMap_key_of_nodup hnodup hkey _ (fun _ => rfl) fun result =>
        result.paid.map fun isPaid => if isPaid then PaidListEvidence.confirmed else .notFound]
    cases targets.asksPaid peer key with
    | true => simp [orUnresolved]
    | false => simp [orUnresolved]
  · simp only [hanswers, if_false, Bool.false_eq_true]
    rfl

end Answer

/-! ### The outcome -/

/-- What peers that answer with what they have make of a key. -/
def peersVerdict (config : ReplicationConfig) (quorumPeers paidPeers : List H) (paidGroupSize : Nat)
    (answers holds hasPaid credited : H → Bool) (sources : List H) : KeyVerificationOutcome H :=
  let quorumNeeded := config.quorumNeeded quorumPeers.length
  let confirmNeeded := ReplicationConfig.confirmNeeded paidGroupSize
  if 0 < quorumNeeded ∧
      quorumNeeded ≤ quorumPeers.countP fun peer => answers peer && holds peer && credited peer then
    .quorumVerified sources
  else if 0 < paidGroupSize ∧
      confirmNeeded ≤ paidPeers.countP fun peer => answers peer && hasPaid peer then
    .paidListVerified sources
  else if (quorumNeeded = 0 ∨
        (quorumPeers.countP fun peer => !answers peer || holds peer) < quorumNeeded) ∧
      (paidGroupSize = 0 ∨
        (paidPeers.countP fun peer => !answers peer || hasPaid peer) < confirmNeeded) then
    .quorumFailed
  else .quorumInconclusive

section Verdict

variable {net : PeerNetwork H} {keys : List H} {table : RoutingTable H} {config : ReplicationConfig}
  {selfId key peer : H} {order : List H} {targets : VerificationTargets H}
  {ev : KeyVerificationEvidence H} {credit : H → H → Bool}

/-- The evidence of a round about one of the targets of a key. -/
theorem cell_of_answers (hasks : targets.AsksTargets key)
    (horder : ∀ peer, peer ∈ order ↔ peer ∈ targets.peerToKeys)
    (hev : (runVerificationRound keys targets (net.outcome targets) order).lookup key = some ev)
    (hpeer : targets.Target key peer) :
    ev.cell peer =
      if net.answers peer (targets.request peer) then
        (some (if (net.store peer).holds key then .present else .absent),
          if targets.asksPaid peer key then
            some (if (net.store peer).hasPaid key then .confirmed else .notFound)
          else none)
      else
        (some .unresolved, if targets.asksPaid peer key then some .unresolved else none) := by
  have hasked := hasks.asked peer hpeer
  have hmem : peer ∈ order := by
    rw [horder, ← Finmap.lookup_isSome]
    unfold VerificationTargets.peerKeys at hasked
    cases hlookup : targets.peerToKeys.lookup peer with
    | none =>
        rw [hlookup] at hasked
        cases hasked
    | some peerKeys => rfl
  rw [cell_of_round hev, if_pos hmem, settle_outcome (hasks.nodup peer) hasked]

theorem presence_of_answers (hasks : targets.AsksTargets key)
    (horder : ∀ peer, peer ∈ order ↔ peer ∈ targets.peerToKeys)
    (hev : (runVerificationRound keys targets (net.outcome targets) order).lookup key = some ev)
    (hpeer : targets.Target key peer) :
    ev.presence.lookup peer = some (if net.answers peer (targets.request peer) then
      if (net.store peer).holds key then .present else .absent else .unresolved) := by
  have hcell := congrArg Prod.fst (cell_of_answers hasks horder hev hpeer)
  cases hanswers : net.answers peer (targets.request peer) with
  | true => simpa only [KeyVerificationEvidence.cell, hanswers, if_true] using hcell
  | false =>
      simpa only [KeyVerificationEvidence.cell, hanswers, Bool.false_eq_true, if_false] using hcell

theorem paid_of_answers (hasks : targets.AsksTargets key)
    (horder : ∀ peer, peer ∈ order ↔ peer ∈ targets.peerToKeys)
    (hev : (runVerificationRound keys targets (net.outcome targets) order).lookup key = some ev)
    (hpeer : peer ∈ targets.paidPeers key) :
    ev.paidList.lookup peer = some (if net.answers peer (targets.request peer) then
      if (net.store peer).hasPaid key then .confirmed else .notFound else .unresolved) := by
  have hcell := congrArg Prod.snd (cell_of_answers hasks horder hev (.inr hpeer))
  rw [hasks.paid peer hpeer] at hcell
  cases hanswers : net.answers peer (targets.request peer) with
  | true => simpa only [KeyVerificationEvidence.cell, hanswers, if_true] using hcell
  | false =>
      simpa only [KeyVerificationEvidence.cell, hanswers, Bool.false_eq_true, if_false, if_true]
        using hcell

theorem presenceVote_of_lookup (credit : H → H → Bool) {answers holds : Bool}
    (hlookup : ev.presence.lookup peer =
      some (if answers then if holds then .present else .absent else .unresolved)) :
    presenceVote ev credit key peer =
      if answers then if holds then if credit peer key then .yes else .undecided else .no
      else .undecided := by
  unfold presenceVote
  rw [hlookup]
  cases answers with
  | false => rfl
  | true =>
      cases holds with
      | false => rfl
      | true => rfl

theorem paidVote_of_lookup {answers hasPaid : Bool}
    (hlookup : ev.paidList.lookup peer =
      some (if answers then if hasPaid then .confirmed else .notFound else .unresolved)) :
    paidVote ev peer = if answers then if hasPaid then .yes else .no else .undecided := by
  unfold paidVote
  rw [hlookup]
  cases answers with
  | false => rfl
  | true =>
      cases hasPaid with
      | false => rfl
      | true => rfl

theorem exists_evidence (targets : VerificationTargets H) (outcome : H → PeerOutcome H)
    (order : List H) (hkey : key ∈ keys) :
    ∃ ev, (runVerificationRound keys targets outcome order).lookup key = some ev := by
  have hcell := cell_foldl_collectOutcome targets outcome (initialEvidence keys) order key key
  rw [cell_initialEvidence, if_pos hkey] at hcell
  cases hlookup : (runVerificationRound keys targets outcome order).lookup key with
  | some ev => exact ⟨ev, rfl⟩
  | none =>
      unfold runVerificationRound at hlookup
      rw [EvidenceMap.cell, hlookup] at hcell
      split_ifs at hcell <;> cases hcell

/-- The counts of the votes are counts of what the peers have. -/
theorem counts_of_answers (credit : H → H → Bool) {quorumPeers paidPeers : List H}
    (hpresence : ∀ peer ∈ quorumPeers, presenceVote ev credit key peer =
      if net.answers peer (targets.request peer) then
        if (net.store peer).holds key then if credit peer key then .yes else .undecided else .no
      else .undecided)
    (hpaid : ∀ peer ∈ paidPeers, paidVote ev peer =
      if net.answers peer (targets.request peer) then
        if (net.store peer).hasPaid key then .yes else .no
      else .undecided) :
    (tally (presenceVote ev credit key) quorumPeers).yes =
        quorumPeers.countP (fun peer => net.answers peer (targets.request peer) &&
          (net.store peer).holds key && credit peer key) ∧
      (tally (presenceVote ev credit key) quorumPeers).yes +
          (tally (presenceVote ev credit key) quorumPeers).undecided =
        quorumPeers.countP (fun peer => !net.answers peer (targets.request peer) ||
          (net.store peer).holds key) ∧
      (tally (paidVote ev) paidPeers).yes =
        paidPeers.countP (fun peer => net.answers peer (targets.request peer) &&
          (net.store peer).hasPaid key) ∧
      (tally (paidVote ev) paidPeers).yes + (tally (paidVote ev) paidPeers).undecided =
        paidPeers.countP (fun peer => !net.answers peer (targets.request peer) ||
          (net.store peer).hasPaid key) := by
  rw [tally_yes_add_undecided, tally_yes_add_undecided, tally_yes, tally_yes]
  refine ⟨List.countP_congr fun peer hpeer => ?_, List.countP_congr fun peer hpeer => ?_,
    List.countP_congr fun peer hpeer => ?_, List.countP_congr fun peer hpeer => ?_⟩
  · rw [hpresence peer hpeer]
    cases net.answers peer (targets.request peer) <;> cases (net.store peer).holds key <;>
      cases credit peer key <;> simp
  · rw [hpresence peer hpeer]
    cases net.answers peer (targets.request peer) <;> cases (net.store peer).holds key <;>
      cases credit peer key <;> simp
  · rw [hpaid peer hpeer]
    cases net.answers peer (targets.request peer) <;> cases (net.store peer).hasPaid key <;> simp
  · rw [hpaid peer hpeer]
    cases net.answers peer (targets.request peer) <;> cases (net.store peer).hasPaid key <;> simp

/-- The sources of a key are the holders that answer. -/
theorem mem_sources_of_answers (hasks : targets.AsksTargets key)
    (horder : ∀ peer, peer ∈ order ↔ peer ∈ targets.peerToKeys)
    (hev : (runVerificationRound keys targets (net.outcome targets) order).lookup key = some ev) :
    peer ∈ presentSourcesForKey key ev targets ↔ targets.Target key peer ∧
      net.answers peer (targets.request peer) = true ∧ (net.store peer).holds key = true := by
  rw [mem_presentSourcesForKey]
  refine and_congr_right fun hpeer => ?_
  rw [presence_of_answers hasks horder hev hpeer]
  cases net.answers peer (targets.request peer) <;> cases (net.store peer).holds key <;> simp

/-- The outcome is the count of what the targets have. -/
theorem outcome_of_answers (hasks : targets.AsksTargets key)
    (horder : ∀ peer, peer ∈ order ↔ peer ∈ targets.peerToKeys)
    (hev : (runVerificationRound keys targets (net.outcome targets) order).lookup key = some ev)
    (credit : H → H → Bool) :
    evaluateKeyEvidenceWithHolderCheck key ev targets config credit =
      peersVerdict config (targets.quorumPeers key) (targets.paidPeers key)
        (targets.paidGroupSize key) (fun peer => net.answers peer (targets.request peer))
        (fun peer => (net.store peer).holds key) (fun peer => (net.store peer).hasPaid key)
        (fun peer => credit peer key) (presentSourcesForKey key ev targets) := by
  obtain ⟨hyes, hopen, hpaidYes, hpaidOpen⟩ := counts_of_answers credit
    (fun peer hpeer => presenceVote_of_lookup credit
      (presence_of_answers hasks horder hev (.inl hpeer)))
    (fun peer hpeer => paidVote_of_lookup (paid_of_answers hasks horder hev hpeer))
  unfold evaluateKeyEvidenceWithHolderCheck peersVerdict presentSourcesForKey
  simp only [hopen, hpaidOpen, ge_iff_le, gt_iff_lt, not_and_or, not_lt, not_le, Nat.le_zero]
  rw [hyes, hpaidYes]
  refine if_congr Iff.rfl rfl (if_congr Iff.rfl rfl (if_congr ?_ rfl rfl))
  exact and_comm

/-- A round among peers that keep to the protocol decides every key of the batch by what its targets
have, as far as they answer, and names exactly the holders among them as sources. -/
theorem round_verdict (htargets : targets = computeVerificationTargets keys table config selfId)
    (horder : ∀ peer, peer ∈ order ↔ peer ∈ targets.peerToKeys) (hkey : key ∈ keys) :
    ∃ ev sources,
      (runVerificationRound keys targets (net.outcome targets) order).lookup key = some ev ∧
      sources.Nodup ∧
      (∀ peer, peer ∈ sources ↔
        (peer ∈ quorumGroup table config selfId key ∨ peer ∈ paidGroup table config selfId key) ∧
          net.answers peer (targets.request peer) = true ∧ (net.store peer).holds key = true) ∧
      ∀ credit, evaluateKeyEvidenceWithHolderCheck key ev targets config credit =
        peersVerdict config (quorumGroup table config selfId key)
          (paidGroup table config selfId key)
          (table.findClosestNodesLocalWithSelf key config.paidListCloseGroupSize).length
          (fun peer => net.answers peer (targets.request peer))
          (fun peer => (net.store peer).holds key) (fun peer => (net.store peer).hasPaid key)
          (fun peer => credit peer key) sources := by
  obtain ⟨ev, hev⟩ := exists_evidence targets (net.outcome targets) order hkey
  obtain ⟨hquorum, hpaid, hsize⟩ : targets.quorumPeers key = quorumGroup table config selfId key ∧
      targets.paidPeers key = paidGroup table config selfId key ∧ targets.paidGroupSize key =
        (table.findClosestNodesLocalWithSelf key config.paidListCloseGroupSize).length := by
    rw [htargets]
    exact computeVerificationTargets_spec hkey
  have hasks : targets.AsksTargets key := by
    rw [htargets]
    exact asksTargets_computeVerificationTargets hkey
  refine ⟨ev, presentSourcesForKey key ev targets, hev, presentSourcesForKey_nodup, fun peer => ?_,
    fun credit => ?_⟩
  · rw [mem_sources_of_answers hasks horder hev, VerificationTargets.Target, hquorum, hpaid]
  · rw [outcome_of_answers hasks horder hev, hquorum, hpaid, hsize]

end Verdict

namespace Transcript

/-- The three peers around every key. The first two hold what they are asked about. -/
def threeAround : RoutingTable Transcript where
  findClosestNodesLocal := fun _ _ => [⟨[1]⟩, ⟨[2]⟩, ⟨[3]⟩]
  findClosestNodesLocalWithSelf := fun _ _ => [⟨[0]⟩, ⟨[1]⟩, ⟨[2]⟩, ⟨[3]⟩]

def twoHolders : PeerNetwork Transcript where
  store := fun peer => ⟨fun _ => .ok (decide (peer ≠ ⟨[3]⟩)), fun _ => .error "unreadable"⟩
  answers := fun _ request => decide (32 * request.keys.length ≤ maxReplicationMessageSize)
  fits := fun _ _ hanswers => of_decide_eq_true hanswers

def smallGroups : ReplicationConfig := ⟨3, 2, 4, 0⟩

theorem round_verdict_twoHolders :
    ∃ order ev sources,
      (runVerificationRound [⟨[9]⟩]
        (computeVerificationTargets [⟨[9]⟩] threeAround smallGroups ⟨[0]⟩)
        (twoHolders.outcome (computeVerificationTargets [⟨[9]⟩] threeAround smallGroups ⟨[0]⟩))
        order).lookup ⟨[9]⟩ = some ev ∧
      (⟨[1]⟩ : Transcript) ∈ sources ∧ (⟨[3]⟩ : Transcript) ∉ sources ∧
      evaluateKeyEvidence ⟨[9]⟩ ev
        (computeVerificationTargets [⟨[9]⟩] threeAround smallGroups ⟨[0]⟩) smallGroups =
          .quorumVerified sources := by
  let targets := computeVerificationTargets [⟨[9]⟩] threeAround smallGroups (⟨[0]⟩ : Transcript)
  obtain ⟨ev, sources, hev, -, hsources, hverdict⟩ := @round_verdict Transcript _ twoHolders
    [⟨[9]⟩] threeAround smallGroups ⟨[0]⟩ ⟨[9]⟩ targets.peerToKeys.keys.toList targets rfl
    (fun peer => by rw [Finset.mem_toList, Finmap.mem_keys]) (by simp)
  refine ⟨_, ev, sources, hev, ?_, ?_, ?_⟩
  · rw [hsources]
    decide
  · rw [hsources]
    decide
  · rw [evaluateKeyEvidence, hverdict, peersVerdict]
    exact if_pos (by decide)

end Transcript

end AntNode
