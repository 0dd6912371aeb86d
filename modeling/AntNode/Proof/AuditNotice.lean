import AntNode.Lib.Runs
import AntNode.Proof.RepairHistory
import AntNode.Proof.RepairHint
import AntNode.SyncExchange
import AntNode.Transcript

/-!
# Who may be audited for what

An audit holds a peer responsible for keys it may never have been told of. That it has been is an
invariant of the sync sessions: a repair proof was recorded by a session whose hints reached the
peer, and a session's hints were read off the store. Between any two of these steps the clock and the
epoch may only go on, so what makes a proof mature has passed since the hints went out.
-/

namespace AntNode

open Runs

variable {H : Type} [Digest H]

theorem le_saturatingSucc (width n : Nat) : n ≤ saturatingSucc width n := by
  unfold saturatingSucc
  split_ifs
  · exact Nat.le_succ n
  · exact le_refl n

/-! ### The hints of a session -/

section Hints

variable {peer : H} {keys : List H} {closest : H → List H} {hint : SentReplicaHint H}

/-- The hint is one for the peer, of a key that was read, with the group the routing table gave. -/
structure SentReplicaHint.For (hint : SentReplicaHint H) (peer : H) (keys : List H)
    (closest : H → List H) : Prop where
  key_mem : hint.key ∈ keys
  closePeers_eq : hint.closePeers = (closest hint.key).toFinset
  peer_mem : peer ∈ hint.closePeers

theorem for_of_mem_buildReplicaHints {allKeys : Except String (List H)}
    (hmem : hint ∈ buildReplicaHintsForPeerWithCloseGroups peer allKeys closest) :
    hint.For peer (readKeys allKeys) closest := by
  obtain ⟨key, hkey, hhint⟩ := List.mem_filterMap.mp hmem
  simp only [Option.ite_none_right_eq_some, Option.some.injEq] at hhint
  obtain ⟨hpeer, rfl⟩ := hhint
  exact ⟨hkey, rfl, hpeer⟩

/-- Every hint in the map is one for the peer it is under. -/
def HintsFor (hintsByPeer : FiniteMap H (PeerSyncHints H)) (keys : List H)
    (closest : H → List H) : Prop :=
  ∀ peer peerHints, hintsByPeer.lookup peer = some peerHints →
    ∀ hint ∈ peerHints.sentReplicaHints, hint.For peer keys closest

theorem HintsFor.updateHints {hintsByPeer : FiniteMap H (PeerSyncHints H)} {other : H}
    {change : PeerSyncHints H → PeerSyncHints H} (hfor : HintsFor hintsByPeer keys closest)
    (hchange : ∀ peerHints, ∀ hint ∈ (change peerHints).sentReplicaHints,
      hint ∈ peerHints.sentReplicaHints ∨ hint.For other keys closest) :
    HintsFor (updateHints change hintsByPeer other) keys closest := by
  intro peer peerHints hlookup hint hmem
  unfold AntNode.updateHints at hlookup
  cases hother : hintsByPeer.lookup other with
  | none =>
      rw [hother] at hlookup
      exact hfor peer peerHints hlookup hint hmem
  | some otherHints =>
      simp only [hother] at hlookup
      rw [FiniteMap.lookup_insert_eq] at hlookup
      split_ifs at hlookup with heq
      · subst heq
        cases hlookup
        rcases hchange otherHints hint hmem with hold | hnew
        · exact hfor peer otherHints hother hint hold
        · exact hnew
      · exact hfor peer peerHints hlookup hint hmem

theorem hintsFor_foldl {ι : Type} {turn : FiniteMap H (PeerSyncHints H) → ι →
      FiniteMap H (PeerSyncHints H)} (items : List ι) {hintsByPeer : FiniteMap H (PeerSyncHints H)}
    (hturn : ∀ hints, ∀ item ∈ items, HintsFor hints keys closest →
      HintsFor (turn hints item) keys closest)
    (hfor : HintsFor hintsByPeer keys closest) :
    HintsFor (items.foldl turn hintsByPeer) keys closest := by
  induction items generalizing hintsByPeer with
  | nil => exact hfor
  | cons item items ih =>
      refine ih (fun hints other hother => hturn hints other (List.mem_cons_of_mem _ hother)) ?_
      exact hturn hintsByPeer item List.mem_cons_self hfor

theorem hintsFor_buildSyncHintsForPeers {peers : List H}
    {allKeys allPaidKeys : Except String (List H)} {paidClosest : H → List H} :
    HintsFor (buildSyncHintsForPeers peers allKeys allPaidKeys closest paidClosest)
      (readKeys allKeys) closest := by
  have hempty : HintsFor (peers.foldl (fun hints peer => hints.insert peer ⟨[], []⟩) ∅)
      (readKeys allKeys) closest := by
    refine hintsFor_foldl peers (fun hints other _ hfor => ?_) ?_
    · intro peer peerHints hlookup hint hmem
      rw [FiniteMap.lookup_insert_eq] at hlookup
      split_ifs at hlookup
      · cases hlookup
        cases hmem
      · exact hfor peer peerHints hlookup hint hmem
    · intro peer peerHints hlookup
      simp at hlookup
  unfold buildSyncHintsForPeers
  simp only
  split_ifs
  · exact hempty
  · refine hintsFor_foldl _ (fun hints key hkey hfor => ?_)
      (hintsFor_foldl _ (fun hints key hkey hfor => ?_) hempty)
    · refine hintsFor_foldl _ (fun hints node _ hfor => ?_) hfor
      split_ifs
      · exact hfor.updateHints fun peerHints hint hmem => .inl hmem
      · exact hfor
    · refine hintsFor_foldl _ (fun hints other hother hfor => ?_) hfor
      refine hfor.updateHints fun peerHints hint hmem => ?_
      rcases List.mem_append.mp hmem with hold | hnew
      · exact .inl hold
      · obtain rfl := List.mem_singleton.mp hnew
        have hclose : other ∈ closest key :=
          List.mem_dedup.mp (List.mem_of_mem_filter hother)
        exact .inr ⟨hkey, rfl, List.mem_toFinset.mpr hclose⟩

theorem hintsFor_takeHints {hintsByPeer : FiniteMap H (PeerSyncHints H)} {peers : List H}
    (hfor : HintsFor hintsByPeer keys closest) :
    ∀ entry ∈ takeHints hintsByPeer peers, entry.1 ∈ peers ∧
      ∀ hint ∈ entry.2.sentReplicaHints, hint.For entry.1 keys closest := by
  induction peers generalizing hintsByPeer with
  | nil => exact fun entry hmem => absurd hmem (List.not_mem_nil)
  | cons peer peers ih =>
      intro entry hmem
      rcases List.mem_cons.mp hmem with rfl | hrest
      · refine ⟨List.mem_cons_self, fun hint hhint => ?_⟩
        cases hlookup : hintsByPeer.lookup peer with
        | none =>
            rw [hlookup] at hhint
            cases hhint
        | some peerHints =>
            rw [hlookup] at hhint
            exact hfor peer peerHints hlookup hint hhint
      · have herased : HintsFor (hintsByPeer.erase peer) keys closest := by
          intro other peerHints hlookup
          by_cases heq : other = peer
          · subst heq
            simp at hlookup
          · rw [Finmap.lookup_erase_ne heq] at hlookup
            exact hfor other peerHints hlookup
        obtain ⟨hpeer, hhints⟩ := ih herased entry hrest
        exact ⟨List.mem_cons_of_mem _ hpeer, hhints⟩

end Hints

namespace SyncNode

/-! ### What a step can do -/

inductive Steps (s : SyncNode H) : SyncEvent H → SyncNode H → Prop
  | clock {now : Nat} (hle : s.now ≤ now) : Steps s (.clock now) { s with now := now }
  | openBatch (bootstrapSync : Bool) (peers : List H) (allKeys allPaidKeys : Except String (List H))
      (closest paidClosest : H → List H) :
      Steps s (.openBatch bootstrapSync peers allKeys allPaidKeys closest paidClosest)
        ((takeHints (buildSyncHintsForPeers peers allKeys allPaidKeys closest paidClosest)
          peers).foldl (fun s entry =>
            s.openSession ⟨entry.1, entry.2.sentReplicaHints, .request bootstrapSync⟩) s)
  | receive (source : H) (bootstrapping inRoutingTable : Bool) (allKeys : Except String (List H))
      (closest : H → List H) :
      Steps s (.receive source bootstrapping inRoutingTable allKeys closest)
        (s.openSession ⟨source, buildReplicaHintsForPeerWithCloseGroups source allKeys closest,
          .response bootstrapping inRoutingTable⟩)
  | answer {id : Nat} {session : SyncSession H} {bootstrapSync : Bool} (reply : Option Bool)
      (hlookup : s.sessions.lookup id = some session)
      (hphase : session.phase = .request bootstrapSync) :
      Steps s (.answer id reply) (s.answer id session bootstrapSync reply)
  | ignore {id : Nat} {session : SyncSession H} {requesterBootstrapping : Bool} (sent : Bool)
      (hlookup : s.sessions.lookup id = some session)
      (hphase : session.phase = .response requesterBootstrapping false) :
      Steps s (.respond id sent) (s.endSession id)
  | respond {id : Nat} {session : SyncSession H} {requesterBootstrapping : Bool} (sent : Bool)
      (hlookup : s.sessions.lookup id = some session)
      (hphase : session.phase = .response requesterBootstrapping true) :
      Steps s (.respond id sent)
        (s.setPhase id session (.updatingHistory (sent && !requesterBootstrapping)))
  | updateHistory {id : Nat} {session : SyncSession H} (syncHistory : FiniteMap H PeerSyncRecord)
      (hlookup : s.sessions.lookup id = some session)
      (hphase : session.phase = .updatingHistory true) :
      Steps s (.updateHistory id)
        ({ s with syncHistory := syncHistory }.setPhase id session .readingEpoch)
  | noRecord {id : Nat} {session : SyncSession H} (syncHistory : FiniteMap H PeerSyncRecord)
      (hlookup : s.sessions.lookup id = some session)
      (hphase : session.phase = .updatingHistory false) :
      Steps s (.updateHistory id) ({ s with syncHistory := syncHistory }.endSession id)
  | noHints {id : Nat} {session : SyncSession H} (hlookup : s.sessions.lookup id = some session) :
      Steps s (.readEpoch id) (s.endSession id)
  | readEpoch {id : Nat} {session : SyncSession H} (hlookup : s.sessions.lookup id = some session)
      (hphase : session.phase = .readingEpoch) :
      Steps s (.readEpoch id)
        (s.setPhase id session (.recording s.syncCycleEpoch session.hints))
  | record {id : Nat} {session : SyncSession H} {hintedAtEpoch : Nat} {hint : SentReplicaHint H}
      {remaining : List (SentReplicaHint H)} (hlookup : s.sessions.lookup id = some session)
      (hphase : session.phase = .recording hintedAtEpoch (hint :: remaining)) :
      Steps s (.record id) ((s.record session.peer hint hintedAtEpoch).setPhase id session
        (.recording hintedAtEpoch remaining))
  | recorded {id : Nat} {session : SyncSession H} (hlookup : s.sessions.lookup id = some session) :
      Steps s (.record id) (s.endSession id)
  | ageHistory (syncHistory : FiniteMap H PeerSyncRecord) :
      Steps s .ageHistory { s with syncHistory := syncHistory }
  | advanceEpoch :
      Steps s .advanceEpoch { s with syncCycleEpoch := saturatingSucc 64 s.syncCycleEpoch }
  | removePeer (peer : H) :
      Steps s (.removePeer peer) { s with repairProofs := s.repairProofs.removePeer peer }
  | removeKey (key : H) :
      Steps s (.removeKey key) { s with repairProofs := s.repairProofs.removeKey key }
  | queryHint (peer key : H) (closePeers : Finset H) (currentEpoch : Nat) :
      Steps s (.queryHint peer key closePeers currentEpoch)
        { s with repairProofs := s.repairProofs.reconcileKeyCloseGroup key closePeers }
  | selectAudit {peer : H} {allKeys sampledKeys : List H}
      (heligible : eligibleAuditPeer s.syncHistory peer = true) (hsubset : sampledKeys ⊆ allKeys) :
      Steps s (.selectAudit peer allKeys sampledKeys)
        { s with audit := some ⟨peer, s.syncCycleEpoch, sampledKeys⟩ }
  | challenge {audit : SelectedAudit H} (closest : H → List H) (haudit : s.audit = some audit) :
      Steps s (.challenge closest)
        { s with repairProofs := (s.auditKeys audit closest).2, audit := none }

theorem steps_of_step {s s' : SyncNode H} {e : SyncEvent H} (hstep : s.step e = some s') :
    Steps s e s' := by
  cases e with
  | clock now =>
      simp only [step] at hstep
      split_ifs at hstep with hle
      cases hstep
      exact .clock hle
  | openBatch bootstrapSync peers allKeys allPaidKeys closest paidClosest =>
      cases hstep
      exact .openBatch ..
  | receive source bootstrapping inRoutingTable allKeys closest =>
      cases hstep
      exact .receive ..
  | answer id reply =>
      obtain ⟨session, hlookup, hsession⟩ := Option.bind_eq_some_iff.mp hstep
      simp only [stepSession] at hsession
      split at hsession
      · rename_i hphase
        cases hsession
        exact .answer reply hlookup hphase
      · cases hsession
  | respond id sent =>
      obtain ⟨session, hlookup, hsession⟩ := Option.bind_eq_some_iff.mp hstep
      simp only [stepSession] at hsession
      split at hsession
      · rename_i requesterBootstrapping inRoutingTable hphase
        cases inRoutingTable with
        | false =>
            cases hsession
            exact .ignore sent hlookup hphase
        | true =>
            cases hsession
            exact .respond sent hlookup hphase
      · cases hsession
  | updateHistory id =>
      obtain ⟨session, hlookup, hsession⟩ := Option.bind_eq_some_iff.mp hstep
      simp only [stepSession] at hsession
      split at hsession
      · rename_i records hphase
        cases records with
        | false =>
            cases hsession
            exact .noRecord _ hlookup hphase
        | true =>
            cases hsession
            exact .updateHistory _ hlookup hphase
      · cases hsession
  | readEpoch id =>
      obtain ⟨session, hlookup, hsession⟩ := Option.bind_eq_some_iff.mp hstep
      simp only [stepSession] at hsession
      split at hsession
      · rename_i hphase
        split_ifs at hsession
        · cases hsession
          exact .noHints hlookup
        · cases hsession
          exact .readEpoch hlookup hphase
      · cases hsession
  | record id =>
      obtain ⟨session, hlookup, hsession⟩ := Option.bind_eq_some_iff.mp hstep
      simp only [stepSession] at hsession
      split at hsession
      · rename_i hphase
        cases hsession
        exact .record hlookup hphase
      · cases hsession
        exact .recorded hlookup
      · cases hsession
  | ageHistory =>
      cases hstep
      exact .ageHistory _
  | advanceEpoch =>
      cases hstep
      exact .advanceEpoch
  | removePeer peer =>
      cases hstep
      exact .removePeer peer
  | removeKey key =>
      cases hstep
      exact .removeKey key
  | queryHint peer key closePeers currentEpoch =>
      cases hstep
      exact .queryHint ..
  | selectAudit peer allKeys sampledKeys =>
      simp only [step] at hstep
      split_ifs at hstep with hselect
      cases hstep
      exact .selectAudit hselect.2.1 hselect.2.2.2.1
  | challenge closest =>
      simp only [step] at hstep
      split at hstep
      · cases hstep
      · rename_i audit haudit
        cases hstep
        exact .challenge closest haudit

/-! ### What happened in a run -/

section Facts

variable (peer : H) (hint : SentReplicaHint H)

/-- The step reads the hint off the store and the routing table, for a session with the peer. -/
def BuildsAt (_ : SyncNode H) (e : SyncEvent H) : Prop :=
  ∃ allKeys closest, hint.For peer (readKeys allKeys) closest ∧
    ((∃ bootstrapSync peers allPaidKeys paidClosest, peer ∈ peers ∧
      e = .openBatch bootstrapSync peers allKeys allPaidKeys closest paidClosest) ∨
    ∃ bootstrapping inRoutingTable, e = .receive peer bootstrapping inRoutingTable allKeys closest)

/-- The hint has reached the peer, which does not claim to be bootstrapping: the peer has answered
the request that carried it, or the response with it has been sent to the peer, which is in the
routing table. -/
def DeliversAt (s : SyncNode H) (e : SyncEvent H) : Prop :=
  ∃ id session, s.sessions.lookup id = some session ∧ session.peer = peer ∧
    hint ∈ session.hints ∧
    ((∃ bootstrapSync, session.phase = .request bootstrapSync ∧ e = .answer id (some false)) ∨
      session.phase = .response false true ∧ e = .respond id true)

/-- The step selects the peer, which has had the time to repair, and samples keys of the store. -/
def SelectsAt (audit : SelectedAudit H) (s : SyncNode H) (e : SyncEvent H) : Prop :=
  eligibleAuditPeer s.syncHistory audit.challengedPeer = true ∧
    ∃ allKeys, e = .selectAudit audit.challengedPeer allKeys audit.sampledKeys ∧
      audit.sampledKeys ⊆ allKeys

end Facts

section History

variable (s₀ : SyncNode H) (events : List (SyncEvent H))

/-- The hint was built and then delivered, not after the epoch and the time. -/
def Told (peer : H) (hint : SentReplicaHint H) (epoch time : Nat) : Prop :=
  ∃ before e after mid, events = before ++ e :: after ∧ run step s₀ before = some mid ∧
    Occurred step (BuildsAt peer hint) s₀ before ∧ DeliversAt peer hint mid e ∧
    mid.syncCycleEpoch ≤ epoch ∧ mid.now ≤ time

/-- The hints of a session were built for its peer, and those it has still to record have been
delivered. -/
def SessionTruth (s : SyncNode H) (session : SyncSession H) : Prop :=
  (∀ hint ∈ session.hints, Occurred step (BuildsAt session.peer hint) s₀ events) ∧
    match session.phase with
    | .request _ | .response _ _ | .updatingHistory false => True
    | .updatingHistory true | .readingEpoch =>
        ∀ hint ∈ session.hints, Told s₀ events session.peer hint s.syncCycleEpoch s.now
    | .recording hintedAtEpoch remaining =>
        ∀ hint ∈ remaining, Told s₀ events session.peer hint hintedAtEpoch s.now

structure Truthful (s : SyncNode H) : Prop where
  sessions : ∀ id session, s.sessions.lookup id = some session → SessionTruth s₀ events s session
  recorded : ∀ peer key proof, s.repairProofs.hintFor peer key = some proof →
    ∃ hint, hint.key = key ∧ Told s₀ events peer hint proof.hintedAtEpoch proof.hintedAt
  sound : s.repairProofs.Sound
  audit : ∀ audit, s.audit = some audit → audit.currentSyncEpoch ≤ s.syncCycleEpoch ∧
    Occurred step (SelectsAt audit) s₀ events

end History

section Steps

variable {s₀ s s' : SyncNode H} {events : List (SyncEvent H)} {e : SyncEvent H} {peer : H}
  {hint : SentReplicaHint H} {session : SyncSession H} {id epoch epoch' time time' : Nat}

theorem Told.mono (htold : Told s₀ events peer hint epoch time) (e : SyncEvent H)
    (hepoch : epoch ≤ epoch') (htime : time ≤ time') :
    Told s₀ (events ++ [e]) peer hint epoch' time' := by
  obtain ⟨before, first, after, mid, rfl, hmid, hbuilt, hdelivers, hepoch₀, htime₀⟩ := htold
  exact ⟨before, first, after ++ [e], mid, by simp, hmid, hbuilt, hdelivers, hepoch₀.trans hepoch,
    htime₀.trans htime⟩

theorem told_self (hrun : run step s₀ events = some s)
    (hbuilt : Occurred step (BuildsAt peer hint) s₀ events) (hdelivers : DeliversAt peer hint s e) :
    Told s₀ (events ++ [e]) peer hint s.syncCycleEpoch s.now :=
  ⟨events, e, [], s, rfl, hrun, hbuilt, hdelivers, le_refl _, le_refl _⟩

theorem SessionTruth.mono (htruth : SessionTruth s₀ events s session) (e : SyncEvent H)
    (hepoch : s.syncCycleEpoch ≤ s'.syncCycleEpoch) (hnow : s.now ≤ s'.now) :
    SessionTruth s₀ (events ++ [e]) s' session := by
  obtain ⟨hbuilt, hphase⟩ := htruth
  refine ⟨fun hint hmem => (hbuilt hint hmem).concat e, ?_⟩
  cases session with
  | mk peer hints phase =>
      cases phase with
      | request | response => trivial
      | updatingHistory records =>
          cases records with
          | false => trivial
          | true => exact fun hint hmem => (hphase hint hmem).mono e hepoch hnow
      | readingEpoch => exact fun hint hmem => (hphase hint hmem).mono e hepoch hnow
      | recording => exact fun hint hmem => (hphase hint hmem).mono e (le_refl _) hnow

/-- What a step has to show for what it changes. -/
theorem Truthful.of_changes (htruth : Truthful s₀ events s)
    (hepoch : s.syncCycleEpoch ≤ s'.syncCycleEpoch) (hnow : s.now ≤ s'.now)
    (hsessions : ∀ id session, s'.sessions.lookup id = some session →
      s.sessions.lookup id = some session ∨ SessionTruth s₀ (events ++ [e]) s' session)
    (hrecorded : ∀ peer key proof, s'.repairProofs.hintFor peer key = some proof →
      s.repairProofs.hintFor peer key = some proof ∨
        ∃ hint, hint.key = key ∧
          Told s₀ (events ++ [e]) peer hint proof.hintedAtEpoch proof.hintedAt)
    (hsound : s'.repairProofs.Sound)
    (haudit : ∀ audit, s'.audit = some audit → s.audit = some audit ∨
      audit.currentSyncEpoch ≤ s'.syncCycleEpoch ∧
        Occurred step (SelectsAt audit) s₀ (events ++ [e])) :
    Truthful s₀ (events ++ [e]) s' where
  sessions := by
    intro id session hlookup
    rcases hsessions id session hlookup with hold | hnew
    · exact (htruth.sessions id session hold).mono e hepoch hnow
    · exact hnew
  recorded := by
    intro peer key proof hhint
    rcases hrecorded peer key proof hhint with hold | hnew
    · obtain ⟨hint, hkey, htold⟩ := htruth.recorded peer key proof hold
      exact ⟨hint, hkey, htold.mono e (le_refl _) (le_refl _)⟩
    · exact hnew
  sound := hsound
  audit := by
    intro audit hsome
    rcases haudit audit hsome with hold | hnew
    · obtain ⟨hle, hselected⟩ := htruth.audit audit hold
      exact ⟨hle.trans hepoch, hselected.concat e⟩
    · exact hnew

/-- A step that changes the proofs only forgets some. -/
theorem Truthful.of_proofs (htruth : Truthful s₀ events s) {proofs : RepairProofs H}
    (hhints : ∀ peer key proof, proofs.hintFor peer key = some proof →
      s.repairProofs.hintFor peer key = some proof)
    (hsound : proofs.Sound) :
    Truthful s₀ (events ++ [e]) { s with repairProofs := proofs } :=
  htruth.of_changes (le_refl _) (le_refl _) (fun _ _ => .inl)
    (fun peer key proof hhint => .inl (hhints peer key proof hhint)) hsound fun _ => .inl

/-- A session goes on to another phase. -/
theorem Truthful.setPhase (htruth : Truthful s₀ events s) {phase : SessionPhase H}
    (hphase : SessionTruth s₀ (events ++ [e]) s { session with phase := phase }) :
    Truthful s₀ (events ++ [e]) (s.setPhase id session phase) := by
  refine htruth.of_changes (le_refl _) (le_refl _) ?_ (fun _ _ _ => .inl) htruth.sound fun _ => .inl
  intro other changed hchanged
  unfold SyncNode.setPhase at hchanged
  simp only at hchanged
  rw [FiniteMap.lookup_insert_eq] at hchanged
  split_ifs at hchanged with heq
  · cases hchanged
    exact .inr hphase
  · exact .inl hchanged

theorem Truthful.endSession (htruth : Truthful s₀ events s) (id : Nat) :
    Truthful s₀ (events ++ [e]) (s.endSession id) := by
  refine htruth.of_changes (le_refl _) (le_refl _) ?_ (fun _ _ _ => .inl) htruth.sound fun _ => .inl
  intro other session hlookup
  unfold SyncNode.endSession at hlookup
  simp only at hlookup
  by_cases heq : other = id
  · subst heq
    simp at hlookup
  · rw [Finmap.lookup_erase_ne heq] at hlookup
    exact .inl hlookup

omit [Digest H] in
/-- Opening sessions leaves the rest of the node alone. -/
theorem openAll_spec (bootstrapSync : Bool) (entries : List (H × PeerSyncHints H))
    (s : SyncNode H) :
    let opened := entries.foldl (fun s entry =>
      s.openSession ⟨entry.1, entry.2.sentReplicaHints, .request bootstrapSync⟩) s
    (opened.syncCycleEpoch = s.syncCycleEpoch ∧ opened.now = s.now ∧
      opened.repairProofs = s.repairProofs ∧ opened.audit = s.audit) ∧
    ∀ id session, opened.sessions.lookup id = some session →
      s.sessions.lookup id = some session ∨ ∃ entry ∈ entries,
        session = ⟨entry.1, entry.2.sentReplicaHints, .request bootstrapSync⟩ := by
  induction entries generalizing s with
  | nil => exact ⟨⟨rfl, rfl, rfl, rfl⟩, fun _ _ => .inl⟩
  | cons entry entries ih =>
      obtain ⟨hframe, hsessions⟩ :=
        ih (s.openSession ⟨entry.1, entry.2.sentReplicaHints, .request bootstrapSync⟩)
      refine ⟨hframe, fun id session hlookup => ?_⟩
      rcases hsessions id session hlookup with hold | ⟨other, hmem, heq⟩
      · unfold openSession at hold
        simp only at hold
        rw [FiniteMap.lookup_insert_eq] at hold
        split_ifs at hold
        · cases hold
          exact .inr ⟨entry, List.mem_cons_self, rfl⟩
        · exact .inl hold
      · exact .inr ⟨other, List.mem_cons_of_mem _ hmem, heq⟩

theorem Truthful.answer {reply : Option Bool} {bootstrapSync : Bool}
    (htruth : Truthful s₀ events s) (hrun : run step s₀ events = some s)
    (hlookup : s.sessions.lookup id = some session)
    (hphase : session.phase = .request bootstrapSync) :
    Truthful s₀ (events ++ [.answer id reply]) (s.answer id session bootstrapSync reply) := by
  obtain ⟨hbuilt, -⟩ := htruth.sessions id session hlookup
  have hbuilt' : ∀ hint ∈ session.hints,
      Occurred step (BuildsAt session.peer hint) s₀ (events ++ [.answer id reply]) :=
    fun hint hmem => (hbuilt hint hmem).concat _
  have htold : reply = some false → ∀ hint ∈ session.hints,
      Told s₀ (events ++ [.answer id reply]) session.peer hint s.syncCycleEpoch s.now := by
    rintro rfl hint hmem
    exact told_self hrun (hbuilt hint hmem)
      ⟨id, session, hlookup, rfl, hmem, .inl ⟨bootstrapSync, hphase, rfl⟩⟩
  cases reply with
  | none => exact htruth.endSession id
  | some bootstrapping =>
      unfold SyncNode.answer
      simp only
      cases bootstrapSync with
      | false =>
          refine htruth.setPhase ⟨hbuilt', ?_⟩
          cases bootstrapping with
          | true => trivial
          | false => exact htold rfl
      | true =>
          cases bootstrapping with
          | true => exact htruth.endSession id
          | false => exact htruth.setPhase ⟨hbuilt', htold rfl⟩

theorem Truthful.respond {sent requesterBootstrapping : Bool} (htruth : Truthful s₀ events s)
    (hrun : run step s₀ events = some s) (hlookup : s.sessions.lookup id = some session)
    (hphase : session.phase = .response requesterBootstrapping true) :
    Truthful s₀ (events ++ [.respond id sent])
      (s.setPhase id session (.updatingHistory (sent && !requesterBootstrapping))) := by
  obtain ⟨hbuilt, -⟩ := htruth.sessions id session hlookup
  refine htruth.setPhase ⟨fun hint hmem => (hbuilt hint hmem).concat _, ?_⟩
  cases hrecords : (sent && !requesterBootstrapping) with
  | false => trivial
  | true =>
      rw [Bool.and_eq_true, Bool.not_eq_true'] at hrecords
      obtain ⟨rfl, rfl⟩ := hrecords
      intro hint hmem
      exact told_self hrun (hbuilt hint hmem)
        ⟨id, session, hlookup, rfl, hmem, .inr ⟨hphase, rfl⟩⟩

theorem Truthful.record {hintedAtEpoch : Nat} {remaining : List (SentReplicaHint H)}
    (htruth : Truthful s₀ events s) (hlookup : s.sessions.lookup id = some session)
    (hphase : session.phase = .recording hintedAtEpoch (hint :: remaining)) :
    Truthful s₀ (events ++ [e]) ((s.record session.peer hint hintedAtEpoch).setPhase id session
      (.recording hintedAtEpoch remaining)) := by
  obtain ⟨hbuilt, htold⟩ := htruth.sessions id session hlookup
  rw [hphase] at htold
  have htold' : ∀ other ∈ hint :: remaining,
      Told s₀ (events ++ [e]) session.peer other hintedAtEpoch s.now :=
    fun other hmem => (htold other hmem).mono e (le_refl _) (le_refl _)
  obtain ⟨hsound, hhints⟩ := RepairProofs.insertReplicaHintSent_spec htruth.sound session.peer
    hint.key hint.closePeers hintedAtEpoch s.now
  refine htruth.of_changes (le_refl _) (le_refl _) ?_ ?_ hsound fun _ => .inl
  · intro other changed hchanged
    unfold SyncNode.setPhase SyncNode.record at hchanged
    simp only at hchanged
    rw [FiniteMap.lookup_insert_eq] at hchanged
    split_ifs at hchanged
    · cases hchanged
      exact .inr ⟨fun other hmem => (hbuilt other hmem).concat e,
        fun other hmem => htold' other (List.mem_cons_of_mem _ hmem)⟩
    · exact .inl hchanged
  · intro peer key proof hhint
    have hcell := hhints peer key
    have hproof : (s.repairProofs.insertReplicaHintSent session.peer hint.key hint.closePeers
        hintedAtEpoch s.now).2.hintFor peer key = some proof := hhint
    rw [hproof] at hcell
    split_ifs at hcell with hwritten
    · obtain ⟨rfl, rfl, -⟩ := hwritten
      cases hold : s.repairProofs.hintFor session.peer hint.key with
      | none =>
          rw [hold, Option.getD_none] at hcell
          cases hcell
          exact .inr ⟨hint, rfl, htold' hint List.mem_cons_self⟩
      | some old =>
          rw [hold, Option.getD_some] at hcell
          exact .inl hcell.symm
    · exact .inl (RepairProofs.hintFor_of_reconcile hcell.symm)

/-! ### The keys of a challenge -/

theorem matureAuditKeysForPeer_spec {now : Nat} (groups : List (H × Finset H))
    {proofs : RepairProofs H} (hsound : proofs.Sound) :
    (matureAuditKeysForPeer peer epoch now groups proofs).2.Sound ∧
      (∀ other key proof,
        (matureAuditKeysForPeer peer epoch now groups proofs).2.hintFor other key = some proof →
          proofs.hintFor other key = some proof) ∧
      ∀ key ∈ (matureAuditKeysForPeer peer epoch now groups proofs).1,
        key ∈ groups.map Prod.fst ∧ proofs.MatureHint peer key epoch now := by
  induction groups generalizing proofs with
  | nil => exact ⟨hsound, fun _ _ _ => id, fun key hmem => absurd hmem List.not_mem_nil⟩
  | cons group groups ih =>
      obtain ⟨key, closePeers⟩ := group
      have hreconciled : (proofs.hasMatureReplicaHint peer key closePeers epoch now).2.Sound :=
        RepairProofs.sound_reconcile hsound key closePeers
      obtain ⟨hrest, hhints, hkeys⟩ := ih hreconciled
      refine ⟨hrest, fun other k proof hhint => ?_, fun k hmem => ?_⟩
      · exact RepairProofs.hintFor_of_reconcile (hhints other k proof hhint)
      · have hlater : k ∈ (matureAuditKeysForPeer peer epoch now groups
            (proofs.hasMatureReplicaHint peer key closePeers epoch now).2).1 →
            k ∈ ((key, closePeers) :: groups).map Prod.fst ∧
              proofs.MatureHint peer k epoch now := by
          intro hmem
          obtain ⟨hgroup, proof, hhint, hmature⟩ := hkeys k hmem
          exact ⟨List.mem_cons_of_mem _ hgroup, proof, RepairProofs.hintFor_of_reconcile hhint,
            hmature⟩
        unfold matureAuditKeysForPeer at hmem
        simp only at hmem
        split_ifs at hmem with hmature
        · rcases List.mem_cons.mp hmem with rfl | hmem
          · exact ⟨List.mem_cons_self, RepairProofs.matureHint_of_hasMatureReplicaHint hmature⟩
          · exact hlater hmem
        · exact hlater hmem

theorem mem_of_mem_sampledKeyGroups {key : H} {sampledKeys : List H} {closest : H → List H}
    (hmem : key ∈ (sampledKeyGroups peer sampledKeys closest).map Prod.fst) :
    key ∈ sampledKeys ∧ peer ∈ closest key := by
  obtain ⟨group, hgroup, rfl⟩ := List.mem_map.mp hmem
  obtain ⟨key, hkey, hsome⟩ := List.mem_filterMap.mp hgroup
  simp only [Option.ite_none_right_eq_some, Option.some.injEq] at hsome
  obtain ⟨hpeer, rfl⟩ := hsome
  exact ⟨hkey, List.mem_toFinset.mp hpeer⟩

/-! ### Runs -/

theorem Truthful.step (hrun : run step s₀ events = some s) (htruth : Truthful s₀ events s)
    (hstep : s.step e = some s') : Truthful s₀ (events ++ [e]) s' := by
  have hhistory : ∀ syncHistory : FiniteMap H PeerSyncRecord,
      Truthful s₀ events { s with syncHistory := syncHistory } :=
    fun _ => ⟨htruth.sessions, htruth.recorded, htruth.sound, htruth.audit⟩
  cases steps_of_step hstep with
  | clock hle =>
      exact htruth.of_changes (le_refl _) hle (fun _ _ => .inl) (fun _ _ _ => .inl) htruth.sound
        fun _ => .inl
  | openBatch bootstrapSync peers allKeys allPaidKeys closest paidClosest =>
      obtain ⟨⟨hepoch, hnow, hproofs, haudit⟩, hsessions⟩ := openAll_spec bootstrapSync
        (takeHints (buildSyncHintsForPeers peers allKeys allPaidKeys closest paidClosest) peers) s
      refine htruth.of_changes hepoch.ge hnow.ge ?_ ?_ ?_ ?_
      · intro id session hlookup
        rcases hsessions id session hlookup with hold | ⟨entry, hentry, rfl⟩
        · exact .inl hold
        · obtain ⟨hpeer, hhints⟩ := hintsFor_takeHints hintsFor_buildSyncHintsForPeers entry hentry
          refine .inr ⟨fun hint hmem => occurred_concat_self hrun ?_, trivial⟩
          exact ⟨allKeys, closest, hhints hint hmem,
            .inl ⟨bootstrapSync, peers, allPaidKeys, paidClosest, hpeer, rfl⟩⟩
      · rw [hproofs]
        exact fun _ _ _ => .inl
      · rw [hproofs]
        exact htruth.sound
      · rw [haudit]
        exact fun _ => .inl
  | receive source bootstrapping inRoutingTable allKeys closest =>
      refine htruth.of_changes (le_refl _) (le_refl _) ?_ (fun _ _ _ => .inl) htruth.sound
        fun _ => .inl
      intro id session hlookup
      unfold openSession at hlookup
      simp only at hlookup
      rw [FiniteMap.lookup_insert_eq] at hlookup
      split_ifs at hlookup
      · cases hlookup
        refine .inr ⟨fun hint hmem => occurred_concat_self hrun ?_, trivial⟩
        exact ⟨allKeys, closest, for_of_mem_buildReplicaHints hmem,
          .inr ⟨bootstrapping, inRoutingTable, rfl⟩⟩
      · exact .inl hlookup
  | answer reply hlookup hphase => exact htruth.answer hrun hlookup hphase
  | ignore | noHints | recorded => exact htruth.endSession _
  | respond sent hlookup hphase => exact htruth.respond hrun hlookup hphase
  | @updateHistory id session syncHistory hlookup hphase =>
      obtain ⟨hbuilt, htold⟩ := htruth.sessions id session hlookup
      rw [hphase] at htold
      refine (hhistory syncHistory).setPhase ⟨fun hint hmem => (hbuilt hint hmem).concat _, ?_⟩
      exact fun hint hmem => (htold hint hmem).mono _ (le_refl _) (le_refl _)
  | noRecord syncHistory => exact (hhistory syncHistory).endSession _
  | @readEpoch id session hlookup hphase =>
      obtain ⟨hbuilt, htold⟩ := htruth.sessions id session hlookup
      rw [hphase] at htold
      refine htruth.setPhase ⟨fun hint hmem => (hbuilt hint hmem).concat _, ?_⟩
      exact fun hint hmem => (htold hint hmem).mono _ (le_refl _) (le_refl _)
  | record hlookup hphase => exact htruth.record hlookup hphase
  | ageHistory syncHistory =>
      exact (hhistory syncHistory).of_changes (le_refl _) (le_refl _) (fun _ _ => .inl)
        (fun _ _ _ => .inl) htruth.sound fun _ => .inl
  | advanceEpoch =>
      exact htruth.of_changes (le_saturatingSucc 64 _) (le_refl _) (fun _ _ => .inl)
        (fun _ _ _ => .inl) htruth.sound fun _ => .inl
  | removePeer peer =>
      refine htruth.of_proofs (fun other key proof hhint => ?_)
        (RepairProofs.sound_removePeer htruth.sound peer)
      rw [RepairProofs.hintFor_removePeer] at hhint
      split_ifs at hhint
      exact hhint
  | removeKey key =>
      refine htruth.of_proofs (fun other k proof hhint => ?_)
        (RepairProofs.sound_erase htruth.sound key)
      rw [RepairProofs.hintFor_removeKey] at hhint
      split_ifs at hhint
      exact hhint
  | queryHint peer key closePeers currentEpoch =>
      exact htruth.of_proofs (fun _ _ _ => RepairProofs.hintFor_of_reconcile)
        (RepairProofs.sound_reconcile htruth.sound key closePeers)
  | selectAudit heligible hsubset =>
      refine htruth.of_changes (le_refl _) (le_refl _) (fun _ _ => .inl) (fun _ _ _ => .inl)
        htruth.sound fun audit haudit => ?_
      cases haudit
      exact .inr ⟨le_refl _, occurred_concat_self hrun ⟨heligible, _, rfl, hsubset⟩⟩
  | challenge closest haudit =>
      obtain ⟨hsound, hhints, -⟩ := matureAuditKeysForPeer_spec _ htruth.sound
      exact htruth.of_changes (le_refl _) (le_refl _) (fun _ _ => .inl)
        (fun other key proof hhint => .inl (hhints other key proof hhint)) hsound
        fun audit hsome => by cases hsome

theorem truthful_start (now : Nat) : Truthful s₀ [] (start now) where
  sessions := by
    intro id session hlookup
    simp [start] at hlookup
  recorded := by
    intro peer key proof hhint
    rw [start, RepairProofs.hintFor_new] at hhint
    cases hhint
  sound := RepairProofs.sound_new
  audit := by
    intro audit haudit
    cases haudit

theorem truthful_of_run {now : Nat} (hrun : run SyncNode.step (start now) events = some s) :
    Truthful (start now) events s :=
  history_induction (truthful_start now)
    (fun _ _ _ _ hmid htruth hstep => Truthful.step hmid htruth hstep) hrun

/-- The peer was told of the key, as one of its close group, before the last sync cycle ended and
before the hint was old enough. -/
def Notice (s₀ : SyncNode H) (events : List (SyncEvent H)) (s : SyncNode H) (peer key : H) : Prop :=
  ∃ before e after mid hint, events = before ++ e :: after ∧ run SyncNode.step s₀ before = some mid ∧
    Occurred SyncNode.step (BuildsAt peer hint) s₀ before ∧ DeliversAt peer hint mid e ∧
    hint.key = key ∧ mid.syncCycleEpoch < s.syncCycleEpoch ∧ mid.now + repairHintMinAge ≤ s.now

/-- A peer is challenged only for keys it has been told of: in every run, whatever a selected audit
then asks for was sampled from the store, is close to the peer, and was hinted to the peer in a
session that reached it, a sync cycle and an hour ago at least. -/
theorem challenged_after_notice {now : Nat} {audit : SelectedAudit H} {key : H}
    {closest : H → List H} (hrun : run SyncNode.step (start now) events = some s)
    (haudit : s.audit = some audit) (hkey : key ∈ (s.auditKeys audit closest).1) :
    Occurred SyncNode.step (SelectsAt audit) (start now) events ∧ key ∈ audit.sampledKeys ∧
      audit.challengedPeer ∈ closest key ∧
      Notice (start now) events s audit.challengedPeer key := by
  have htruth := truthful_of_run hrun
  obtain ⟨hepoch, hselected⟩ := htruth.audit audit haudit
  obtain ⟨hgroup, proof, hhint, hlater, hage⟩ :=
    (matureAuditKeysForPeer_spec _ htruth.sound).2.2 key hkey
  obtain ⟨hsampled, hclose⟩ := mem_of_mem_sampledKeyGroups hgroup
  refine ⟨hselected, hsampled, hclose, ?_⟩
  obtain ⟨hint, hhintKey, before, e, after, mid, heq, hmid, hbuilt, hdelivers, hmidEpoch, hmidTime⟩ :=
    htruth.recorded audit.challengedPeer key proof hhint
  have hpos : 0 < repairHintMinAge := by
    unfold repairHintMinAge
    omega
  exact ⟨before, e, after, mid, hint, heq, hmid, hbuilt, hdelivers, hhintKey, by omega, by omega⟩

end Steps

end SyncNode

namespace Transcript

open SyncNode

/-- The peer 1 is close to every key. -/
def closeToAll (_ : Transcript) : List Transcript := [⟨[0]⟩, ⟨[1]⟩]

/-- A sync with the peer 1 about the key 8, the end of a cycle, an hour, and an audit. -/
def syncedAnHourAgo : List (SyncEvent Transcript) :=
  [.openBatch false [⟨[1]⟩] (.ok [⟨[8]⟩]) (.error "unreadable") closeToAll closeToAll,
    .answer 0 (some false), .updateHistory 0, .readEpoch 0, .record 0, .record 0, .ageHistory,
    .advanceEpoch, .clock repairHintMinAge, .selectAudit ⟨[1]⟩ [⟨[8]⟩] [⟨[8]⟩]]

theorem challenged_after_notice_synced :
    ∃ s audit, run step (start 0) syncedAnHourAgo = some s ∧ s.audit = some audit ∧
      audit.challengedPeer = ⟨[1]⟩ ∧ (s.auditKeys audit closeToAll).1 = [⟨[8]⟩] ∧
      Notice (start 0) syncedAnHourAgo s audit.challengedPeer ⟨[8]⟩ := by
  have hlast : ((run step (start 0) syncedAnHourAgo).bind fun s => s.audit.map fun audit =>
      (audit.challengedPeer, (s.auditKeys audit closeToAll).1)) = some (⟨[1]⟩, [⟨[8]⟩]) := by
    decide +kernel
  obtain ⟨s, hrun, hmap⟩ := Option.bind_eq_some_iff.mp hlast
  obtain ⟨audit, haudit, heq⟩ := Option.map_eq_some_iff.mp hmap
  obtain ⟨hpeer, hkeys⟩ := Prod.mk.inj heq
  have hkey : ⟨[8]⟩ ∈ (s.auditKeys audit closeToAll).1 := by
    rw [hkeys]
    exact List.mem_singleton_self _
  exact ⟨s, audit, hrun, haudit, hpeer, hkeys,
    (challenged_after_notice hrun haudit hkey).2.2.2⟩

end Transcript

end AntNode
