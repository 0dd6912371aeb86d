import AntNode.Quorum

/-!
# A peer speaks for itself, in any order

The evidence map is followed one cell at a time, the cell of a key and a peer: the presence and the
paid-list entry of that peer for that key. Only the outcome of the peer itself writes into the cell,
and what it writes there it would write again. So a round is a function of the set of the peers
asked and of the outcome of each.
-/

namespace AntNode

variable {H : Type} [Digest H]

abbrev EvidenceCell := Option PresenceEvidence × Option PaidListEvidence

def KeyVerificationEvidence.cell (ev : KeyVerificationEvidence H) (peer : H) : EvidenceCell :=
  (ev.presence.lookup peer, ev.paidList.lookup peer)

def EvidenceMap.cell (evidence : EvidenceMap H) (key peer : H) : Option EvidenceCell :=
  (evidence.lookup key).map fun ev => ev.cell peer

theorem KeyVerificationEvidence.ext_cell {ev ev' : KeyVerificationEvidence H}
    (hcell : ∀ peer, ev.cell peer = ev'.cell peer) : ev = ev' := by
  obtain ⟨presence, paidList⟩ := ev
  obtain ⟨presence', paidList'⟩ := ev'
  have hpresence : presence = presence' :=
    Finmap.ext_lookup fun peer => congrArg Prod.fst (hcell peer)
  have hpaidList : paidList = paidList' :=
    Finmap.ext_lookup fun peer => congrArg Prod.snd (hcell peer)
  rw [hpresence, hpaidList]

theorem EvidenceMap.ext_cell {evidence evidence' : EvidenceMap H}
    (hcell : ∀ key peer, EvidenceMap.cell evidence key peer = EvidenceMap.cell evidence' key peer) :
    evidence = evidence' := by
  apply Finmap.ext_lookup
  intro key
  unfold EvidenceMap.cell at hcell
  cases hlookup : evidence.lookup key with
  | none =>
      have hnone := hcell key key
      rw [hlookup] at hnone
      exact (Option.map_eq_none_iff.mp hnone.symm).symm
  | some ev =>
      cases hlookup' : evidence'.lookup key with
      | none =>
          have hnone := hcell key key
          rw [hlookup, hlookup'] at hnone
          cases hnone
      | some ev' =>
          congr 1
          apply KeyVerificationEvidence.ext_cell
          intro peer
          have hsome := hcell key peer
          rw [hlookup, hlookup'] at hsome
          exact Option.some.inj hsome

theorem EvidenceMap.cell_modify {evidence : EvidenceMap H} {key : H}
    {f : KeyVerificationEvidence H → KeyVerificationEvidence H} (write : EvidenceCell → EvidenceCell)
    {peer : H} (hwrite : ∀ ev, (f ev).cell peer = write (ev.cell peer)) (k : H) :
    EvidenceMap.cell (FiniteMap.modify evidence key f) k peer =
      if k = key then (EvidenceMap.cell evidence k peer).map write
      else EvidenceMap.cell evidence k peer := by
  unfold EvidenceMap.cell
  rw [FiniteMap.lookup_modify]
  split_ifs with heq
  · cases evidence.lookup k with
    | none => rfl
    | some ev => simp [hwrite]
  · rfl

/-! ### What one outcome writes into a cell -/

def VerificationTargets.peerKeys (targets : VerificationTargets H) (peer : H) : List H :=
  (targets.peerToKeys.lookup peer).getD []

/-- The results of a response that are read. -/
def VerificationTargets.heard (targets : VerificationTargets H) (peer : H)
    (response : VerificationResponse H) : List (KeyVerificationResult H) :=
  response.results.take ((targets.peerKeys peer).length * 2)

/-- The last answer about a key. -/
def spokenPresence (results : List (KeyVerificationResult H)) (key : H) :
    Option PresenceEvidence :=
  (results.filterMap fun result =>
    if result.key = key then some (if result.present then .present else .absent) else none).getLast?

def spokenPaid (results : List (KeyVerificationResult H)) (key : H) : Option PaidListEvidence :=
  (results.filterMap fun result =>
    if result.key = key then
      result.paid.map fun isPaid => if isPaid then .confirmed else .notFound
    else none).getLast?

def orUnresolved (asksPaid : Bool) (cell : EvidenceCell) : EvidenceCell :=
  (some (cell.1.getD .unresolved), if asksPaid then some (cell.2.getD .unresolved) else cell.2)

def markUnresolved (asksPaid : Bool) (cell : EvidenceCell) : EvidenceCell :=
  (some .unresolved, if asksPaid then some .unresolved else cell.2)

/-- What the outcome of a peer makes of its cell for a key. -/
def settle (targets : VerificationTargets H) (outcome : PeerOutcome H) (peer key : H)
    (cell : EvidenceCell) : EvidenceCell :=
  if key ∈ targets.peerKeys peer then
    match outcome with
    | .response response =>
        orUnresolved (targets.asksPaid peer key)
          ((spokenPresence (targets.heard peer response) key).or cell.1,
            (spokenPaid (targets.heard peer response) key).or cell.2)
    | .failed => markUnresolved (targets.asksPaid peer key) cell
    | .otherMessage => cell
    | .panicked => cell
  else cell

theorem settle_settle (targets : VerificationTargets H) (outcome : PeerOutcome H) (peer key : H)
    (cell : EvidenceCell) :
    settle targets outcome peer key (settle targets outcome peer key cell) =
      settle targets outcome peer key cell := by
  unfold settle
  split_ifs with hasked
  · cases outcome with
    | response response =>
        simp only [orUnresolved]
        cases spokenPresence (targets.heard peer response) key <;>
          cases spokenPaid (targets.heard peer response) key <;>
          cases targets.asksPaid peer key <;> simp
    | failed =>
        simp only [markUnresolved]
        cases targets.asksPaid peer key <;> rfl
    | otherMessage => rfl
    | panicked => rfl
  · rfl

theorem settle_of_silent (targets : VerificationTargets H) (peer key : H) :
    settle targets .otherMessage peer key = id ∧ settle targets .panicked peer key = id := by
  constructor <;> funext cell <;> exact ite_self cell

section Cells

variable {targets : VerificationTargets H} {evidence : EvidenceMap H} {peer other : H}
  {peerKeys : List H}

theorem cell_markKeyUnresolved (key k : H) :
    EvidenceMap.cell (markKeyUnresolved targets peer evidence key) k peer =
      if k = key then
        (EvidenceMap.cell evidence k peer).map (markUnresolved (targets.asksPaid peer key))
      else EvidenceMap.cell evidence k peer := by
  apply EvidenceMap.cell_modify
  intro ev
  unfold KeyVerificationEvidence.cell markUnresolved
  cases targets.asksPaid peer key <;> simp [Finmap.lookup_insert]

theorem cell_recordOmitted (key k : H) :
    EvidenceMap.cell (recordOmitted targets peer evidence key) k peer =
      if k = key then
        (EvidenceMap.cell evidence k peer).map (orUnresolved (targets.asksPaid peer key))
      else EvidenceMap.cell evidence k peer := by
  apply EvidenceMap.cell_modify
  intro ev
  unfold KeyVerificationEvidence.cell orUnresolved
  cases targets.asksPaid peer key <;> simp [FiniteMap.lookup_orInsert]

/-- What one result makes of the cell of its key. -/
def say (result : KeyVerificationResult H) (cell : EvidenceCell) : EvidenceCell :=
  (some (if result.present then .present else .absent),
    (result.paid.map fun isPaid => if isPaid then .confirmed else .notFound).or cell.2)

theorem cell_recordResult (result : KeyVerificationResult H) (k : H) :
    EvidenceMap.cell (recordResult peer peerKeys evidence result) k peer =
      if k ∈ peerKeys ∧ result.key = k then (EvidenceMap.cell evidence k peer).map (say result)
      else EvidenceMap.cell evidence k peer := by
  unfold recordResult
  by_cases hasked : result.key ∈ peerKeys
  · rw [if_neg (not_not.mpr hasked), EvidenceMap.cell_modify (say result)]
    · by_cases heq : k = result.key
      · subst heq
        simp [hasked]
      · simp [heq, Ne.symm heq]
    · intro ev
      unfold KeyVerificationEvidence.cell say
      cases result.paid <;> simp [Finmap.lookup_insert]
  · rw [if_pos hasked, if_neg]
    rintro ⟨hmem, rfl⟩
    exact hasked hmem

theorem foldl_say (results : List (KeyVerificationResult H)) (key : H) (cell : EvidenceCell) :
    results.foldl (fun cell result => if result.key = key then say result cell else cell) cell =
      ((spokenPresence results key).or cell.1, (spokenPaid results key).or cell.2) := by
  induction results using List.reverseRecOn with
  | nil => rfl
  | append_singleton results result ih =>
      rw [List.foldl_concat, ih]
      unfold spokenPresence spokenPaid
      by_cases heq : result.key = key
      · cases hpaid : result.paid <;> simp [say, heq, hpaid]
      · simp [heq]

theorem cell_foldl_recordResult (results : List (KeyVerificationResult H)) (k : H) :
    EvidenceMap.cell (results.foldl (recordResult peer peerKeys) evidence) k peer =
      if k ∈ peerKeys then
        (EvidenceMap.cell evidence k peer).map fun cell =>
          ((spokenPresence results k).or cell.1, (spokenPaid results k).or cell.2)
      else EvidenceMap.cell evidence k peer := by
  have hfold : EvidenceMap.cell (results.foldl (recordResult peer peerKeys) evidence) k peer =
      if k ∈ peerKeys then
        (EvidenceMap.cell evidence k peer).map fun cell =>
          results.foldl (fun cell result => if result.key = k then say result cell else cell) cell
      else EvidenceMap.cell evidence k peer := by
    induction results generalizing evidence with
    | nil => simp
    | cons result results ih =>
        rw [List.foldl_cons, ih, cell_recordResult]
        by_cases hasked : k ∈ peerKeys <;> by_cases heq : result.key = k <;>
          simp [hasked, heq, Function.comp_def]
  simp only [hfold, foldl_say]

theorem cell_modify_of_unchanged {key : H}
    {f : KeyVerificationEvidence H → KeyVerificationEvidence H}
    (hsame : ∀ ev, (f ev).cell other = ev.cell other) (k : H) :
    EvidenceMap.cell (FiniteMap.modify evidence key f) k other =
      EvidenceMap.cell evidence k other := by
  rw [EvidenceMap.cell_modify id hsame]
  simp

/-- The three writes of a peer leave the cells of every other peer as they are. -/
theorem cell_write_of_ne (targets : VerificationTargets H) (hne : other ≠ peer) (k : H) :
    (∀ (evidence : EvidenceMap H) key,
      EvidenceMap.cell (markKeyUnresolved targets peer evidence key) k other =
        EvidenceMap.cell evidence k other) ∧
    (∀ (evidence : EvidenceMap H) key,
      EvidenceMap.cell (recordOmitted targets peer evidence key) k other =
        EvidenceMap.cell evidence k other) ∧
    ∀ peerKeys (evidence : EvidenceMap H) result,
      EvidenceMap.cell (recordResult peer peerKeys evidence result) k other =
        EvidenceMap.cell evidence k other := by
  refine ⟨?_, ?_, ?_⟩
  · intro evidence key
    apply cell_modify_of_unchanged
    intro ev
    unfold KeyVerificationEvidence.cell
    cases targets.asksPaid peer key <;> simp [Finmap.lookup_insert_of_ne _ hne]
  · intro evidence key
    apply cell_modify_of_unchanged
    intro ev
    unfold KeyVerificationEvidence.cell
    cases targets.asksPaid peer key <;> simp [FiniteMap.lookup_orInsert, hne]
  · intro peerKeys evidence result
    unfold recordResult
    by_cases hasked : result.key ∈ peerKeys
    · rw [if_neg (not_not.mpr hasked)]
      apply cell_modify_of_unchanged
      intro ev
      unfold KeyVerificationEvidence.cell
      cases result.paid <;> simp [Finmap.lookup_insert_of_ne _ hne]
    · rw [if_pos hasked]

theorem cell_foldl_of_unchanged {ι : Type} {step : EvidenceMap H → ι → EvidenceMap H} {k : H}
    (hstep : ∀ evidence i,
      EvidenceMap.cell (step evidence i) k other = EvidenceMap.cell evidence k other)
    (l : List ι) (evidence : EvidenceMap H) :
    EvidenceMap.cell (l.foldl step evidence) k other = EvidenceMap.cell evidence k other := by
  have hview := List.view_foldl step (fun evidence => EvidenceMap.cell evidence k other) id
    (fun _ => False) (by simpa using hstep) (fun _ => rfl) l evidence
  simpa using hview

theorem cell_foldl_keys {step : EvidenceMap H → H → EvidenceMap H}
    {write : H → EvidenceCell → EvidenceCell} (k : H)
    (hstep : ∀ evidence key, EvidenceMap.cell (step evidence key) k peer =
      if k = key then (EvidenceMap.cell evidence k peer).map (write key)
      else EvidenceMap.cell evidence k peer)
    (hidem : ∀ cell, write k (write k cell) = write k cell) :
    EvidenceMap.cell (peerKeys.foldl step evidence) k peer =
      if k ∈ peerKeys then (EvidenceMap.cell evidence k peer).map (write k)
      else EvidenceMap.cell evidence k peer := by
  have hview := List.view_foldl step (fun evidence => EvidenceMap.cell evidence k peer)
    (Option.map (write k)) (k = ·) ?step ?idem peerKeys evidence
  case step =>
    intro evidence key
    rw [hstep]
    split_ifs with heq
    · rw [heq]
    · rfl
  case idem =>
    intro cell
    cases cell with
    | none => rfl
    | some cell => simp [hidem]
  simpa using hview

end Cells

/-! ### What one peer, and a round, writes -/

section Round

variable (targets : VerificationTargets H) (outcome : H → PeerOutcome H) (evidence : EvidenceMap H)

theorem cell_markPeerUnresolved (peer k : H) :
    EvidenceMap.cell (markPeerUnresolved peer targets evidence) k peer =
      (EvidenceMap.cell evidence k peer).map (settle targets .failed peer k) := by
  unfold markPeerUnresolved settle VerificationTargets.peerKeys
  cases targets.peerToKeys.lookup peer with
  | none => simp
  | some peerKeys =>
      simp only [Option.getD_some]
      rw [cell_foldl_keys k fun _ _ => cell_markKeyUnresolved _ _]
      · split_ifs <;> simp
      · intro cell
        unfold markUnresolved
        cases targets.asksPaid peer k <;> rfl

theorem cell_processVerificationResponse (response : VerificationResponse H) (peer k : H) :
    EvidenceMap.cell (processVerificationResponse peer response targets evidence) k peer =
      (EvidenceMap.cell evidence k peer).map (settle targets (.response response) peer k) := by
  unfold processVerificationResponse settle VerificationTargets.heard VerificationTargets.peerKeys
  cases targets.peerToKeys.lookup peer with
  | none => simp
  | some peerKeys =>
      simp only [Option.getD_some]
      rw [cell_foldl_keys k fun _ _ => cell_recordOmitted _ _, cell_foldl_recordResult]
      · split_ifs <;> simp [Function.comp_def]
      · intro cell
        unfold orUnresolved
        cases targets.asksPaid peer k <;> simp

theorem cell_collectOutcome (peer k other : H) :
    EvidenceMap.cell (collectOutcome targets outcome evidence peer) k other =
      if peer = other then
        (EvidenceMap.cell evidence k other).map (settle targets (outcome other) other k)
      else EvidenceMap.cell evidence k other := by
  unfold collectOutcome
  split_ifs with heq
  · subst heq
    cases outcome peer with
    | response response => exact cell_processVerificationResponse targets evidence response peer k
    | failed => exact cell_markPeerUnresolved targets evidence peer k
    | otherMessage => rw [(settle_of_silent targets peer k).1, Option.map_id_apply]
    | panicked => rw [(settle_of_silent targets peer k).2, Option.map_id_apply]
  · have hwrite := cell_write_of_ne targets (Ne.symm heq) k
    cases outcome peer with
    | response response =>
        simp only [processVerificationResponse]
        cases targets.peerToKeys.lookup peer with
        | none => rfl
        | some peerKeys =>
            simp only
            rw [cell_foldl_of_unchanged hwrite.2.1, cell_foldl_of_unchanged (hwrite.2.2 peerKeys)]
    | failed =>
        simp only [markPeerUnresolved]
        cases targets.peerToKeys.lookup peer with
        | none => rfl
        | some peerKeys => exact cell_foldl_of_unchanged hwrite.1 _ _
    | otherMessage => rfl
    | panicked => rfl

theorem cell_foldl_collectOutcome (order : List H) (k peer : H) :
    EvidenceMap.cell (order.foldl (collectOutcome targets outcome) evidence) k peer =
      if peer ∈ order then
        (EvidenceMap.cell evidence k peer).map (settle targets (outcome peer) peer k)
      else EvidenceMap.cell evidence k peer := by
  have hview := List.view_foldl (collectOutcome targets outcome)
    (fun evidence => EvidenceMap.cell evidence k peer)
    (Option.map (settle targets (outcome peer) peer k)) (· = peer)
    (fun evidence other => cell_collectOutcome targets outcome evidence other k peer) ?idem
    order evidence
  case idem =>
    intro cell
    cases cell with
    | none => rfl
    | some cell => simp [settle_settle]
  simpa using hview

theorem foldl_collectOutcome_congr {order order' : List H}
    (hsame : ∀ peer, peer ∈ order ↔ peer ∈ order') :
    order.foldl (collectOutcome targets outcome) evidence =
      order'.foldl (collectOutcome targets outcome) evidence := by
  apply EvidenceMap.ext_cell
  intro key peer
  rw [cell_foldl_collectOutcome, cell_foldl_collectOutcome]
  simp only [hsame]

end Round

/-! ### The evidence of a round -/

theorem cell_initialEvidence (keys : List H) (key peer : H) :
    EvidenceMap.cell (initialEvidence keys) key peer =
      if key ∈ keys then some (none, none) else none := by
  have hview := List.view_foldl
    (fun (evidence : EvidenceMap H) key => evidence.insert key .empty)
    (fun evidence => EvidenceMap.cell evidence key peer) (fun _ => some (none, none)) (· = key)
    ?step (fun _ => rfl) keys ∅
  case step =>
    intro evidence other
    unfold EvidenceMap.cell
    rw [FiniteMap.lookup_insert_eq]
    by_cases heq : other = key
    · subst heq
      simp [KeyVerificationEvidence.cell, KeyVerificationEvidence.empty]
    · simp [heq, Ne.symm heq]
  simpa [initialEvidence, EvidenceMap.cell] using hview

/-- A peer said something about a key, in a result of its response that is read. -/
def PeerOutcome.Says (targets : VerificationTargets H) (peer key : H) (outcome : PeerOutcome H)
    (Holds : KeyVerificationResult H → Prop) : Prop :=
  ∃ response, outcome = .response response ∧
    ∃ result ∈ response.results.take ((targets.peerKeys peer).length * 2),
      result.key = key ∧ Holds result

/-- The peer gave no answer, or none about the key in the results that are read. -/
def PeerOutcome.Omits (targets : VerificationTargets H) (peer key : H) (outcome : PeerOutcome H) :
    Prop :=
  outcome = .failed ∨ ∃ response, outcome = .response response ∧
    ∀ result ∈ response.results.take ((targets.peerKeys peer).length * 2), result.key ≠ key

/-- The evidence under a peer for a key stands for what that peer itself said about it. -/
structure SpeaksForItself (targets : VerificationTargets H) (order : List H) (key peer : H)
    (outcome : PeerOutcome H) (presence : Option PresenceEvidence)
    (paid : Option PaidListEvidence) : Prop where
  asked : presence ≠ none ∨ paid ≠ none → key ∈ targets.peerKeys peer
  present : presence = some .present → outcome.Says targets peer key fun r => r.present = true
  absent : presence = some .absent → outcome.Says targets peer key fun r => r.present = false
  confirmed : paid = some .confirmed → outcome.Says targets peer key fun r => r.paid = some true
  notFound : paid = some .notFound → outcome.Says targets peer key fun r => r.paid = some false
  unresolved : peer ∈ order → key ∈ targets.peerKeys peer → outcome.Omits targets peer key →
    presence = some .unresolved ∧
      paid = if targets.asksPaid peer key then some .unresolved else none

section Spoken

variable {results : List (KeyVerificationResult H)} {key : H}

theorem spokenPresence_eq_some {v : PresenceEvidence} (hspoken : spokenPresence results key = some v) :
    ∃ result ∈ results, result.key = key ∧ v = if result.present then .present else .absent := by
  have hmem := List.mem_of_getLast? hspoken
  rw [List.mem_filterMap] at hmem
  obtain ⟨result, hresult, hvalue⟩ := hmem
  split_ifs at hvalue with hkey hpresent
  · exact ⟨result, hresult, hkey, by simp_all⟩
  · exact ⟨result, hresult, hkey, by simp_all⟩

theorem spokenPaid_eq_some {v : PaidListEvidence} (hspoken : spokenPaid results key = some v) :
    ∃ result ∈ results, result.key = key ∧
      ∃ isPaid, result.paid = some isPaid ∧ v = if isPaid then .confirmed else .notFound := by
  have hmem := List.mem_of_getLast? hspoken
  rw [List.mem_filterMap] at hmem
  obtain ⟨result, hresult, hvalue⟩ := hmem
  split_ifs at hvalue with hkey
  obtain ⟨isPaid, hpaid, rfl⟩ := Option.map_eq_some_iff.mp hvalue
  exact ⟨result, hresult, hkey, isPaid, hpaid, rfl⟩

theorem spoken_of_omitted (homitted : ∀ result ∈ results, result.key ≠ key) :
    spokenPresence results key = none ∧ spokenPaid results key = none := by
  unfold spokenPresence spokenPaid
  constructor <;>
  · rw [List.getLast?_eq_none_iff, List.filterMap_eq_nil_iff]
    intro result hresult
    exact if_neg (homitted result hresult)

end Spoken

section Evidence

variable {keys : List H} {targets : VerificationTargets H} {outcome : H → PeerOutcome H}
  {order : List H} {key : H} {ev : KeyVerificationEvidence H}

theorem cell_of_round
    (hev : (runVerificationRound keys targets outcome order).lookup key = some ev) (peer : H) :
    ev.cell peer =
      if peer ∈ order then settle targets (outcome peer) peer key (none, none) else (none, none) := by
  have hcell : EvidenceMap.cell (runVerificationRound keys targets outcome order) key peer =
      some (ev.cell peer) := by
    unfold EvidenceMap.cell
    rw [hev]
    rfl
  unfold runVerificationRound at hcell
  rw [cell_foldl_collectOutcome, cell_initialEvidence] at hcell
  by_cases hkey : key ∈ keys
  · rw [if_pos hkey] at hcell
    split_ifs at hcell ⊢
    · exact (Option.some.inj hcell).symm
    · exact (Option.some.inj hcell).symm
  · rw [if_neg hkey] at hcell
    simp at hcell

theorem speaksForItself_nothing {peer : H} {outcome : PeerOutcome H}
    (hpeer : peer ∉ order ∨ key ∉ targets.peerKeys peer ∨ ¬outcome.Omits targets peer key) :
    SpeaksForItself targets order key peer outcome none none where
  asked := by simp
  present := by simp
  absent := by simp
  confirmed := by simp
  notFound := by simp
  unresolved := by tauto

theorem speaksForItself_settle {peer : H} (hasked : key ∈ targets.peerKeys peer) :
    SpeaksForItself targets order key peer (outcome peer)
      (settle targets (outcome peer) peer key (none, none)).1
      (settle targets (outcome peer) peer key (none, none)).2 := by
  unfold settle
  rw [if_pos hasked]
  cases houtcome : outcome peer with
  | response response =>
      simp only [orUnresolved, Option.or_none]
      constructor
      case asked => exact fun _ => hasked
      case unresolved =>
        intro _ _ homits
        obtain hfailed | ⟨response', hresponse, homitted⟩ := homits
        · cases hfailed
        · cases hresponse
          obtain ⟨hpresence, hpaid⟩ := spoken_of_omitted homitted
          simp [VerificationTargets.heard, hpresence, hpaid]
      case present | absent =>
        intro hvalue
        cases hspoken : spokenPresence (targets.heard peer response) key with
        | none => simp [hspoken] at hvalue
        | some v =>
            obtain ⟨result, hresult, hkey, rfl⟩ := spokenPresence_eq_some hspoken
            refine ⟨response, rfl, result, hresult, hkey, ?_⟩
            cases hpresent : result.present <;> simp [hspoken, hpresent] at hvalue ⊢
      case confirmed | notFound =>
        intro hvalue
        cases hspoken : spokenPaid (targets.heard peer response) key with
        | none => cases hasks : targets.asksPaid peer key <;> simp [hspoken, hasks] at hvalue
        | some v =>
            obtain ⟨result, hresult, hkey, isPaid, hpaid, rfl⟩ := spokenPaid_eq_some hspoken
            refine ⟨response, rfl, result, hresult, hkey, ?_⟩
            cases isPaid <;> simp [hspoken, hpaid] at hvalue ⊢
  | failed =>
      simp only [markUnresolved]
      constructor
      case asked => exact fun _ => hasked
      case unresolved => exact fun _ _ _ => ⟨rfl, rfl⟩
      case present | absent => simp
      case confirmed | notFound => cases targets.asksPaid peer key <;> simp
  | otherMessage => exact speaksForItself_nothing (.inr (.inr (by simp [PeerOutcome.Omits])))
  | panicked => exact speaksForItself_nothing (.inr (.inr (by simp [PeerOutcome.Omits])))

theorem speaksForItself_of_round
    (hev : (runVerificationRound keys targets outcome order).lookup key = some ev) (peer : H) :
    SpeaksForItself targets order key peer (outcome peer) (ev.presence.lookup peer)
      (ev.paidList.lookup peer) := by
  have hpresence : ev.presence.lookup peer = (ev.cell peer).1 := rfl
  have hpaidList : ev.paidList.lookup peer = (ev.cell peer).2 := rfl
  rw [hpresence, hpaidList, cell_of_round hev peer]
  by_cases horder : peer ∈ order
  · rw [if_pos horder]
    by_cases hasked : key ∈ targets.peerKeys peer
    · exact speaksForItself_settle hasked
    · unfold settle
      rw [if_neg hasked]
      exact speaksForItself_nothing (.inr (.inl hasked))
  · rw [if_neg horder]
    exact speaksForItself_nothing (.inl horder)

/-- The evidence of a round depends neither on the order in which the answers are read nor, under
one peer, on what the others answered; and it says of each peer only what that peer said. -/
theorem runVerificationRound_speaksForItself (keys : List H) (targets : VerificationTargets H)
    (outcome : H → PeerOutcome H) (order : List H) :
    (∀ (evidence : EvidenceMap H) (order' : List H), order'.Perm order →
      order'.foldl (collectOutcome targets outcome) evidence =
        order.foldl (collectOutcome targets outcome) evidence) ∧
    ∀ key ev, (runVerificationRound keys targets outcome order).lookup key = some ev → ∀ peer,
      SpeaksForItself targets order key peer (outcome peer) (ev.presence.lookup peer)
        (ev.paidList.lookup peer) ∧
      ∀ outcome' ev', outcome' peer = outcome peer →
        (runVerificationRound keys targets outcome' order).lookup key = some ev' →
        ev'.presence.lookup peer = ev.presence.lookup peer ∧
          ev'.paidList.lookup peer = ev.paidList.lookup peer := by
  constructor
  · intro evidence order' hperm
    exact foldl_collectOutcome_congr targets outcome evidence fun peer => hperm.mem_iff
  · intro key ev hev peer
    refine ⟨speaksForItself_of_round hev peer, fun outcome' ev' hsame hev' => ?_⟩
    have hcell := cell_of_round hev' peer
    rw [hsame, ← cell_of_round hev peer] at hcell
    exact ⟨congrArg Prod.fst hcell, congrArg Prod.snd hcell⟩

end Evidence

end AntNode
