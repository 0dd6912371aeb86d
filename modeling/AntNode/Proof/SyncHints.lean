import AntNode.SyncExchange
import AntNode.Transcript

/-!
# One scan for a batch of peers

A sync round builds the hints for all its peers in one scan of the store and one of the paid list; a
handler that answers a request builds them for one peer. Each peer of a batch gets the same hints
either way. For one peer the map of hints is a cell that only its own turns change.
-/

namespace AntNode

variable {H : Type} [Digest H]

section Cell

variable {hintsByPeer : FiniteMap H (PeerSyncHints H)} {peer : H}

theorem lookup_updateHints (change : PeerSyncHints H → PeerSyncHints H) (other : H) :
    (updateHints change hintsByPeer other).lookup peer =
      if other = peer then (hintsByPeer.lookup peer).map change else hintsByPeer.lookup peer := by
  unfold updateHints
  by_cases heq : other = peer
  · subst heq
    cases hlookup : hintsByPeer.lookup other with
    | none => simp [hlookup]
    | some peerHints => simp
  · cases hintsByPeer.lookup other with
    | none => simp [heq]
    | some peerHints => simp [heq, Ne.symm heq]

/-- The turns of a loop over distinct peers change each cell once. -/
theorem lookup_foldl_updateHints (change : PeerSyncHints H → PeerSyncHints H) {peers : List H}
    (hnodup : peers.Nodup) :
    (peers.foldl (updateHints change) hintsByPeer).lookup peer =
      if peer ∈ peers then (hintsByPeer.lookup peer).map change else hintsByPeer.lookup peer := by
  induction peers generalizing hintsByPeer with
  | nil => simp
  | cons other peers ih =>
      rw [List.nodup_cons] at hnodup
      rw [List.foldl_cons, ih hnodup.2, lookup_updateHints]
      by_cases heq : other = peer
      · subst heq
        simp [hnodup.1]
      · simp [heq, Ne.symm heq]

/-- The turns of a loop over keys, as one cell sees them. -/
theorem lookup_foldl_keys {turn : FiniteMap H (PeerSyncHints H) → H → FiniteMap H (PeerSyncHints H)}
    {change : H → PeerSyncHints H → PeerSyncHints H} {concerns : H → Bool}
    (hturn : ∀ hints key, (turn hints key).lookup peer =
      if concerns key then (hints.lookup peer).map (change key) else hints.lookup peer)
    (keys : List H) :
    (keys.foldl turn hintsByPeer).lookup peer = (hintsByPeer.lookup peer).map fun peerHints =>
      (keys.filter concerns).foldl (fun peerHints key => change key peerHints) peerHints := by
  induction keys generalizing hintsByPeer with
  | nil => simp
  | cons key keys ih =>
      rw [List.foldl_cons, ih, hturn]
      by_cases hconcerns : concerns key = true
      · rw [if_pos hconcerns, List.filter_cons_of_pos hconcerns, Option.map_map]
        rfl
      · rw [if_neg hconcerns, List.filter_cons_of_neg hconcerns]

end Cell

omit [Digest H] in
theorem foldl_pushReplicaHint (keys : List H) (group : H → Finset H) (peerHints : PeerSyncHints H) :
    keys.foldl (fun peerHints key => pushReplicaHint ⟨key, group key⟩ peerHints) peerHints =
      { peerHints with
        sentReplicaHints := peerHints.sentReplicaHints ++ keys.map fun key => ⟨key, group key⟩ } := by
  induction keys generalizing peerHints with
  | nil => simp
  | cons key keys ih =>
      rw [List.foldl_cons, ih]
      simp [pushReplicaHint]

omit [Digest H] in
theorem foldl_pushPaidHint (keys : List H) (peerHints : PeerSyncHints H) :
    keys.foldl (fun peerHints key => pushPaidHint key peerHints) peerHints =
      { peerHints with paidHints := peerHints.paidHints ++ keys } := by
  induction keys generalizing peerHints with
  | nil => simp
  | cons key keys ih =>
      rw [List.foldl_cons, ih]
      simp [pushPaidHint]

theorem buildReplicaHints_eq_map (peer : H) (allKeys : Except String (List H))
    (closest : H → List H) :
    buildReplicaHintsForPeerWithCloseGroups peer allKeys closest =
      ((readKeys allKeys).filter fun key => decide (peer ∈ closest key)).map
        fun key => ⟨key, (closest key).toFinset⟩ := by
  unfold buildReplicaHintsForPeerWithCloseGroups
  rw [← List.filterMap_eq_map, List.filterMap_filter]
  congr 1
  funext key
  by_cases hmem : peer ∈ closest key
  · simp [hmem]
  · simp [hmem]

/-- The keys of the replica hints are chosen as those of the paid hints are. -/
theorem buildReplicaHintsForPeer_eq (peer : H) (allKeys : Except String (List H))
    (closest : H → List H) :
    buildReplicaHintsForPeer peer allKeys closest = buildPaidHintsForPeer peer allKeys closest := by
  rw [buildReplicaHintsForPeer, buildReplicaHints_eq_map, List.map_map]
  exact List.map_id _

section Batch

variable {peers : List H} {allKeys allPaidKeys : Except String (List H)}
  {closest paidClosest : H → List H} {peer : H}

theorem lookup_emptyHints :
    (peers.foldl (fun hints peer => hints.insert peer ⟨[], []⟩)
      (∅ : FiniteMap H (PeerSyncHints H))).lookup peer =
        if peer ∈ peers then some ⟨[], []⟩ else none := by
  have hfold := List.view_foldl
    (fun (hints : FiniteMap H (PeerSyncHints H)) peer => hints.insert peer ⟨[], []⟩)
    (fun hints => hints.lookup peer) (fun _ => some ⟨[], []⟩) (· = peer) ?step (fun _ => rfl) peers ∅
  case step =>
    intro hints other
    rw [FiniteMap.lookup_insert_eq]
    exact if_congr eq_comm rfl rfl
  simpa using hfold

theorem lookup_replicaScan (targets : Finset H) (hints : FiniteMap H (PeerSyncHints H))
    (keys : List H) (hpeer : peer ∈ targets) :
    (keys.foldl
      (fun hints key =>
        let closePeers := (closest key).toFinset
        ((closest key).dedup.filter fun peer => decide (peer ∈ targets)).foldl
          (updateHints (pushReplicaHint ⟨key, closePeers⟩)) hints)
      hints).lookup peer = (hints.lookup peer).map fun peerHints =>
        { peerHints with
          sentReplicaHints := peerHints.sentReplicaHints ++
            (keys.filter fun key => decide (peer ∈ closest key)).map
              fun key => ⟨key, (closest key).toFinset⟩ } := by
  have hturn : ∀ (hints : FiniteMap H (PeerSyncHints H)) key,
      ((((closest key).dedup.filter fun peer => decide (peer ∈ targets)).foldl
        (updateHints (pushReplicaHint ⟨key, (closest key).toFinset⟩)) hints).lookup peer =
      if decide (peer ∈ closest key) then
        (hints.lookup peer).map (pushReplicaHint ⟨key, (closest key).toFinset⟩)
      else hints.lookup peer) := by
    intro hints key
    rw [lookup_foldl_updateHints _ ((List.nodup_dedup _).filter _)]
    refine if_congr ?_ rfl rfl
    simp [hpeer]
  refine (lookup_foldl_keys hturn keys).trans ?_
  congr 1
  funext peerHints
  exact foldl_pushReplicaHint _ (fun key => (closest key).toFinset) peerHints

theorem lookup_paidScan (targets : Finset H) (hints : FiniteMap H (PeerSyncHints H))
    (keys : List H) (hpeer : peer ∈ targets) (hclosest : ∀ key, (paidClosest key).Nodup) :
    (keys.foldl
      (fun hints key =>
        (paidClosest key).foldl
          (fun hints node =>
            if node ∈ targets then updateHints (pushPaidHint key) hints node else hints)
          hints)
      hints).lookup peer = (hints.lookup peer).map fun peerHints =>
        { peerHints with
          paidHints := peerHints.paidHints ++
            keys.filter fun key => decide (peer ∈ paidClosest key) } := by
  have hturn : ∀ (hints : FiniteMap H (PeerSyncHints H)) key,
      ((paidClosest key).foldl
        (fun hints node =>
          if node ∈ targets then updateHints (pushPaidHint key) hints node else hints)
        hints).lookup peer =
      if decide (peer ∈ paidClosest key) then (hints.lookup peer).map (pushPaidHint key)
      else hints.lookup peer := by
    intro hints key
    have hfilter := @List.foldl_filter _ _ (fun node => decide (node ∈ targets))
      (updateHints (pushPaidHint key)) (paidClosest key) hints
    simp only [decide_eq_true_eq] at hfilter
    rw [← hfilter, lookup_foldl_updateHints _ ((hclosest key).filter _)]
    refine if_congr ?_ rfl rfl
    simp [hpeer]
  refine (lookup_foldl_keys hturn keys).trans ?_
  congr 1
  funext peerHints
  exact foldl_pushPaidHint _ peerHints

/-- The scan for a batch gives each of its peers the hints that a scan for that peer gives. -/
theorem lookup_buildSyncHintsForPeers (hclosest : ∀ key, (paidClosest key).Nodup)
    (hpeer : peer ∈ peers) :
    (buildSyncHintsForPeers peers allKeys allPaidKeys closest paidClosest).lookup peer =
      some ⟨buildReplicaHintsForPeerWithCloseGroups peer allKeys closest,
        buildPaidHintsForPeer peer allPaidKeys paidClosest⟩ := by
  have htarget : peer ∈ peers.toFinset := List.mem_toFinset.mpr hpeer
  unfold buildSyncHintsForPeers
  simp only [List.ne_nil_of_mem hpeer, if_false]
  rw [lookup_paidScan _ _ _ htarget hclosest, lookup_replicaScan _ _ _ htarget, lookup_emptyHints,
    if_pos hpeer, buildReplicaHints_eq_map]
  rfl

/-- What goes out to the peers of a batch is what each of them would be sent alone. -/
theorem takeHints_eq_map (hpeers : peers.Nodup) (hclosest : ∀ key, (paidClosest key).Nodup) :
    takeHints (buildSyncHintsForPeers peers allKeys allPaidKeys closest paidClosest) peers =
      peers.map fun peer => (peer,
        ⟨buildReplicaHintsForPeerWithCloseGroups peer allKeys closest,
          buildPaidHintsForPeer peer allPaidKeys paidClosest⟩) := by
  have htake : ∀ (rest : List H) (hints : FiniteMap H (PeerSyncHints H)), rest.Nodup →
      (∀ peer ∈ rest, hints.lookup peer =
        some ⟨buildReplicaHintsForPeerWithCloseGroups peer allKeys closest,
          buildPaidHintsForPeer peer allPaidKeys paidClosest⟩) →
      takeHints hints rest = rest.map fun peer => (peer,
        ⟨buildReplicaHintsForPeerWithCloseGroups peer allKeys closest,
          buildPaidHintsForPeer peer allPaidKeys paidClosest⟩) := by
    intro rest
    induction rest with
    | nil => exact fun _ _ _ => rfl
    | cons first rest ih =>
        intro hints hnodup hlookup
        rw [List.nodup_cons] at hnodup
        unfold takeHints
        rw [hlookup first List.mem_cons_self, ih _ hnodup.2]
        · rfl
        · intro peer hmem
          have hne : peer ≠ first := by
            rintro rfl
            exact hnodup.1 hmem
          rw [Finmap.lookup_erase_ne hne]
          exact hlookup peer (List.mem_cons_of_mem _ hmem)
  exact htake peers _ hpeers fun peer hpeer => lookup_buildSyncHintsForPeers hclosest hpeer

end Batch

namespace Transcript

/-- The peer 1 is close to the key 8, and the peer 2 to every other. -/
def nearby (key : Transcript) : List Transcript :=
  if key = ⟨[8]⟩ then [⟨[0]⟩, ⟨[1]⟩] else [⟨[0]⟩, ⟨[2]⟩]

theorem takeHints_eq_map_twoPeers :
    takeHints (buildSyncHintsForPeers [⟨[1]⟩, ⟨[2]⟩] (.ok [⟨[8]⟩, ⟨[9]⟩]) (.ok [⟨[8]⟩]) nearby nearby)
      [⟨[1]⟩, ⟨[2]⟩] =
        [(⟨[1]⟩, ⟨[⟨⟨[8]⟩, {⟨[0]⟩, ⟨[1]⟩}⟩], [⟨[8]⟩]⟩),
          (⟨[2]⟩, ⟨[⟨⟨[9]⟩, {⟨[0]⟩, ⟨[2]⟩}⟩], []⟩)] := by
  have hclosest : ∀ key, (nearby key).Nodup := by
    intro key
    unfold nearby
    split_ifs <;> decide
  rw [takeHints_eq_map (by decide) hclosest]
  decide

end Transcript

end AntNode
