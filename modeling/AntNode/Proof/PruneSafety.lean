import AntNode.Proof.EvidenceOrder
import AntNode.Proof.RepairHint
import AntNode.Pruning
import AntNode.Transcript

/-!
# What a prune pass knows when it deletes

Whatever the peers answer and whatever happens elsewhere between the steps of a pass, each key it
deletes has been looked at again, was out of range then, and was proven by enough peers of the close
group of that moment. What a state holds is explained by the steps that led to it: a candidate's
targets by its selection, a proof by a challenge and its answer, a key to delete by its
revalidation.
-/

namespace AntNode

open Runs

variable {H : Type} [Digest H]

/-! ### Counting proofs -/

theorem exists_provers {key : H} {targetPeers : List H} {presentByKey : FiniteMap H (Finset H)}
    {needed : Nat}
    (hpresent : targetPeersReportedPresent key targetPeers presentByKey needed = true) :
    ∃ present, presentByKey.lookup key = some present ∧
      ∃ provers ⊆ present, (∀ peer ∈ provers, peer ∈ targetPeers) ∧ needed ≤ provers.card := by
  unfold targetPeersReportedPresent at hpresent
  split_ifs at hpresent with hzero
  cases hlookup : presentByKey.lookup key with
  | none => simp [hlookup] at hpresent
  | some present =>
      simp only [hlookup, decide_eq_true_eq] at hpresent
      refine ⟨present, rfl, present.filter (· ∈ targetPeers), Finset.filter_subset _ _, ?_, hpresent⟩
      intro peer hpeer
      exact (Finset.mem_filter.mp hpeer).2

theorem mem_addPresent {presentByKey : FiniteMap H (Finset H)} {peer key k : H} {present : Finset H}
    (hlookup : (addPresent presentByKey peer key).lookup k = some present) {p : H}
    (hp : p ∈ present) :
    (p = peer ∧ k = key) ∨ ∃ old, presentByKey.lookup k = some old ∧ p ∈ old := by
  unfold addPresent at hlookup
  rw [FiniteMap.lookup_insert_eq] at hlookup
  split_ifs at hlookup with heq
  · obtain rfl := Option.some.inj hlookup
    subst heq
    cases hold : presentByKey.lookup k with
    | none =>
        rw [hold] at hp
        exact .inl ⟨by simpa using hp, rfl⟩
    | some old =>
        rw [hold, Option.getD_some, Finset.mem_insert] at hp
        exact hp.imp (fun heq => ⟨heq, rfl⟩) fun hmem => ⟨old, rfl, hmem⟩
  · exact .inr ⟨present, hlookup, hp⟩

/-! ### What each function of the record pass has checked -/

theorem mem_peersWithMatureRepairProofs {key peer : H} {targetPeers : List H}
    {closePeers : Finset H} {epoch now : Nat} {proofs : RepairProofs H}
    (hmem : peer ∈ (peersWithMatureRepairProofs key targetPeers closePeers epoch now proofs).1) :
    peer ∈ targetPeers ∧ proofs.MatureHint peer key epoch now := by
  induction targetPeers generalizing proofs with
  | nil => simp [peersWithMatureRepairProofs] at hmem
  | cons head rest ih =>
      have hrest : peer ∈ (peersWithMatureRepairProofs key rest closePeers epoch now
          (proofs.hasMatureReplicaHint head key closePeers epoch now).2).1 →
          peer ∈ head :: rest ∧ proofs.MatureHint peer key epoch now := by
        intro hlater
        obtain ⟨hpeer, hmature⟩ := ih hlater
        exact ⟨List.mem_cons_of_mem _ hpeer, hmature.of_hasMatureReplicaHint⟩
      simp only [peersWithMatureRepairProofs] at hmem
      split_ifs at hmem with hmature
      · rcases List.mem_cons.mp hmem with rfl | hlater
        · exact ⟨List.mem_cons_self .., RepairProofs.matureHint_of_hasMatureReplicaHint hmature⟩
        · exact hrest hlater
      · exact hrest hmem

theorem evaluateRecordPruneKey_candidate {ctx : PrunePassContext H} {key : H}
    {storageAdmissionGroup strictCloseGroup : List H} {now budget : Nat} {world : PruneWorld H}
    {candidate : RecordPruneCandidate H}
    (hcandidate : (evaluateRecordPruneKey ctx key storageAdmissionGroup strictCloseGroup now budget
      world).1.state = .candidate candidate) :
    candidate.key = key ∧ ∀ peer ∈ candidate.targetPeers,
      peer ∈ remoteCloseGroupPeers strictCloseGroup ctx.selfId ∧
        world.repairProofs.MatureHint peer key ctx.currentSyncEpoch now := by
  unfold evaluateRecordPruneKey at hcandidate
  by_cases hadmitted : ctx.selfId ∈ storageAdmissionGroup
  · rw [if_pos hadmitted] at hcandidate
    split at hcandidate <;> cases hcandidate
  rw [if_neg hadmitted] at hcandidate
  by_cases hheld : world.isHeld key = true
  · rw [if_pos hheld] at hcandidate
    cases hcandidate
  rw [if_neg hheld] at hcandidate
  dsimp only at hcandidate
  split at hcandidate
  · cases hcandidate
  · split_ifs at hcandidate
    cases hcandidate
    exact ⟨rfl, fun peer hpeer => mem_peersWithMatureRepairProofs hpeer⟩

theorem auditResponse_of_peerProvesRecord {peer key : H} {localBytes : Bytes}
    {challenge : PruneChallenge H} (hproves : peerProvesRecord peer key localBytes challenge = true) :
    challenge.reply = .auditResponse (.digests challenge.challengeId
      [computeAuditDigest challenge.nonce peer key localBytes]) := by
  unfold peerProvesRecord at hproves
  rw [decide_eq_true_eq] at hproves
  unfold pruneAuditResponseStatus at hproves
  split at hproves
  · rename_i respId digests hreply
    split at hproves
    · cases hproves
    · rename_i hid
      split at hproves
      · rename_i digest
        split_ifs at hproves with habsent hdigest
        unfold auditDigestProvesKey at hdigest
        rw [if_neg habsent, decide_eq_true_eq] at hdigest
        rw [hreply, not_not.mp hid, hdigest]
      · cases hproves
  · split_ifs at hproves
  all_goals cases hproves

theorem revalidatedRecordPruneKey_spec {ctx : PrunePassContext H} {key : H}
    {presentByKey : FiniteMap H (Finset H)} {now : Nat} {world : PruneWorld H}
    (hconfirmed : (revalidatedRecordPruneKey ctx key presentByKey now world).1 = true) :
    let groups := recordPruneLookupGroups key world.routing ctx.config
    let current := remoteCloseGroupPeers groups.2 ctx.selfId
    ctx.selfId ∉ groups.1 ∧
      (∃ firstSeen, world.paidList.recordOutOfRange.lookup key = some firstSeen ∧
        ctx.config.pruneHysteresisDuration ≤ now - firstSeen) ∧
      current ≠ [] ∧
      targetPeersReportedPresent key current presentByKey (pruneProofsNeeded current.length) =
        true := by
  unfold revalidatedRecordPruneKey at hconfirmed
  simp only at hconfirmed
  split at hconfirmed
  · cases hconfirmed
  · split at hconfirmed
    · cases hconfirmed
    · rename_i hself
      split at hconfirmed
      · cases hconfirmed
      · rename_i firstSeen hseen
        split_ifs at hconfirmed with hfresh hempty
        exact ⟨hself, ⟨firstSeen, hseen, not_lt.mp hfresh⟩, hempty, hconfirmed⟩

/-! ### The history of a record pass -/

namespace RecordPrunePass

section Facts

variable (ctx : PrunePassContext H) (peer key : H)

/-- The step selects the key, and the peer has a mature hint for it and is in its close group. -/
def HintedAt (pass : RecordPrunePass H) (e : RecordPruneEvent H) : Prop :=
  e = .evaluate ∧ (∃ rest, pass.phase = .selecting (key :: rest)) ∧
    peer ∈ remoteCloseGroupPeers
      (recordPruneLookupGroups key pass.world.routing ctx.config).2 ctx.selfId ∧
    pass.world.repairProofs.MatureHint peer key ctx.currentSyncEpoch pass.startedAt

/-- The step reads the record of the key from the store for a challenge of the peer. -/
def ReadsAt (localBytes : Bytes) (pass : RecordPrunePass H) (e : RecordPruneEvent H) : Prop :=
  e = .readLocal peer key false ∧ pass.world.storage.lookup key = some localBytes

/-- The step is the challenge of the peer for the key, answered with the digest of the local bytes
under the nonce of the challenge. -/
def ProvesAt (localBytes : Bytes) (_ : RecordPrunePass H) (e : RecordPruneEvent H) : Prop :=
  ∃ challenge, e = .challenge peer key localBytes challenge ∧
    challenge.reply = .auditResponse (.digests challenge.challengeId
      [computeAuditDigest challenge.nonce peer key localBytes])

/-- The step revalidates the key: this node is outside its storage-admission group, its timestamp is
old enough, and the provers are enough peers of its current remote close group. -/
def PrunableAt (provers : Finset H) (pass : RecordPrunePass H) (e : RecordPruneEvent H) : Prop :=
  let groups := recordPruneLookupGroups key pass.world.routing ctx.config
  let current := remoteCloseGroupPeers groups.2 ctx.selfId
  e = .revalidate ∧
    (∃ candidate rest, pass.phase = .revalidating (candidate :: rest) ∧ candidate.key = key) ∧
    ctx.selfId ∉ groups.1 ∧
    (∃ firstSeen, pass.world.paidList.recordOutOfRange.lookup key = some firstSeen ∧
      ctx.config.pruneHysteresisDuration ≤ pass.revalidatedAt - firstSeen) ∧
    current ≠ [] ∧ (∀ p ∈ provers, p ∈ current) ∧
    pruneProofsNeeded current.length ≤ provers.card

end Facts

section History

variable (ctx : PrunePassContext H) (s₀ : RecordPrunePass H) (events : List (RecordPruneEvent H))

abbrev Happened (P : RecordPrunePass H → RecordPruneEvent H → Prop) : Prop :=
  Occurred (step ctx) P s₀ events

/-- The peer had a mature hint when the key was selected, and was asked for the bytes that the store
then had of it. -/
def Asked (peer key : H) (localBytes : Bytes) : Prop :=
  Happened ctx s₀ events (HintedAt ctx peer key) ∧
    Happened ctx s₀ events (ReadsAt peer key localBytes)

/-- The peer was asked, and proved to hold the same bytes. -/
def Proved (peer key : H) : Prop :=
  Happened ctx s₀ events (HintedAt ctx peer key) ∧
    ∃ localBytes, Happened ctx s₀ events (ReadsAt peer key localBytes) ∧
      Happened ctx s₀ events (ProvesAt peer key localBytes)

structure From (s : RecordPrunePass H) : Prop where
  candidates : ∀ candidate ∈ s.candidates, ∀ peer ∈ candidate.targetPeers,
    Happened ctx s₀ events (HintedAt ctx peer candidate.key)
  challenging : ∀ remaining asked, s.phase = .challenging remaining asked →
    (∀ peer key, (peer, key) ∈ remaining → Happened ctx s₀ events (HintedAt ctx peer key)) ∧
    ∀ peer key localBytes, (peer, key, localBytes) ∈ asked →
      Asked ctx s₀ events peer key localBytes
  present : ∀ key present, s.presentByKey.lookup key = some present → ∀ peer ∈ present,
    Proved ctx s₀ events peer key
  deletes : ∀ key ∈ s.keysToDelete, ∃ provers : Finset H,
    Happened ctx s₀ events (PrunableAt ctx key provers) ∧
      ∀ peer ∈ provers, Proved ctx s₀ events peer key
  deleting : ∀ remaining, s.phase = .deleting remaining → remaining ⊆ s.keysToDelete

end History

section Steps

variable {ctx : PrunePassContext H} {s₀ s s' : RecordPrunePass H}
  {events : List (RecordPruneEvent H)} {e : RecordPruneEvent H}

theorem Proved.concat {peer key : H} (hproved : Proved ctx s₀ events peer key)
    (e : RecordPruneEvent H) : Proved ctx s₀ (events ++ [e]) peer key := by
  obtain ⟨hhinted, localBytes, hread, hproves⟩ := hproved
  exact ⟨hhinted.concat e, localBytes, hread.concat e, hproves.concat e⟩

/-- Everything the state already had is explained by the longer history. -/
theorem From.concat (hfrom : From ctx s₀ events s) (e : RecordPruneEvent H) :
    From ctx s₀ (events ++ [e]) s where
  candidates := fun candidate hmem peer hpeer => (hfrom.candidates candidate hmem peer hpeer).concat e
  challenging := by
    intro remaining asked hphase
    obtain ⟨hhinted, hasked⟩ := hfrom.challenging remaining asked hphase
    refine ⟨fun peer key hmem => (hhinted peer key hmem).concat e, ?_⟩
    intro peer key localBytes hmem
    obtain ⟨hhint, hread⟩ := hasked peer key localBytes hmem
    exact ⟨hhint.concat e, hread.concat e⟩
  present := fun key present hlookup peer hpeer => (hfrom.present key present hlookup peer hpeer).concat e
  deletes := by
    intro key hkey
    obtain ⟨provers, hprunable, hproved⟩ := hfrom.deletes key hkey
    exact ⟨provers, hprunable.concat e, fun peer hpeer => (hproved peer hpeer).concat e⟩
  deleting := hfrom.deleting

theorem from_start (storedKeys : List H) (scanStart : Nat) (world : PruneWorld H) :
    From ctx s₀ [] (start storedKeys scanStart world) where
  candidates := by simp [start]
  challenging := by simp [start]
  present := by simp [start]
  deletes := by simp [start]
  deleting := by simp [start]

theorem From.evaluate {key : H} {rest : List H} (hrun : run (step ctx) s₀ events = some s)
    (hfrom : From ctx s₀ events s) (hphase : s.phase = .selecting (key :: rest)) :
    From ctx s₀ (events ++ [.evaluate]) (s.evaluate ctx key rest) where
  candidates := by
    intro candidate hmem peer hpeer
    have hold := (hfrom.concat .evaluate).candidates
    simp only [RecordPrunePass.evaluate] at hmem
    split at hmem
    · rename_i selected hselected
      rcases List.mem_append.mp hmem with hmem | hmem
      · exact hold candidate hmem peer hpeer
      · obtain rfl : candidate = selected := List.mem_singleton.mp hmem
        obtain ⟨rfl, htargets⟩ := evaluateRecordPruneKey_candidate hselected
        obtain ⟨hclose, hmature⟩ := htargets peer hpeer
        exact occurred_concat_self hrun ⟨rfl, ⟨rest, hphase⟩, hclose, hmature⟩
    · exact hold candidate hmem peer hpeer
  challenging := by simp [RecordPrunePass.evaluate]
  present := (hfrom.concat .evaluate).present
  deletes := (hfrom.concat .evaluate).deletes
  deleting := by simp [RecordPrunePass.evaluate]

theorem From.endSelection (hfrom : From ctx s₀ events s) :
    From ctx s₀ (events ++ [.endSelection])
      { s with phase := .challenging (buildPeerAuditChallenges s.candidates) [] } where
  candidates := (hfrom.concat .endSelection).candidates
  challenging := by
    intro remaining asked hphase
    cases hphase
    refine ⟨fun peer key hmem => ?_, fun peer key localBytes hmem => absurd hmem List.not_mem_nil⟩
    obtain ⟨candidate, hcandidate, hmem⟩ := List.mem_flatMap.mp hmem
    obtain ⟨target, htarget, heq⟩ := List.mem_map.mp hmem
    cases heq
    exact (hfrom.concat .endSelection).candidates candidate hcandidate peer htarget
  present := (hfrom.concat .endSelection).present
  deletes := (hfrom.concat .endSelection).deletes
  deleting := by simp

theorem From.readLocal {peer key : H} {readFails : Bool} {remaining : List (H × H)}
    {asked : List (H × H × Bytes)} {localBytes : Bytes} (hrun : run (step ctx) s₀ events = some s)
    (hfrom : From ctx s₀ events s) (hphase : s.phase = .challenging remaining asked)
    (hremaining : (peer, key) ∈ remaining)
    (hread : localRecordBytes s.world key readFails = some localBytes) :
    From ctx s₀ (events ++ [.readLocal peer key readFails])
      { s with
        phase := .challenging (remaining.erase (peer, key)) ((peer, key, localBytes) :: asked) } where
  candidates := (hfrom.concat _).candidates
  challenging := by
    intro remaining' asked' hphase'
    cases hphase'
    obtain ⟨hhinted, hasked⟩ := (hfrom.concat _).challenging remaining asked hphase
    refine ⟨fun p k hmem => hhinted p k (List.mem_of_mem_erase hmem), fun p k bytes hmem => ?_⟩
    rcases List.mem_cons.mp hmem with heq | hmem
    · cases heq
      unfold localRecordBytes at hread
      split_ifs at hread with hfails
      obtain rfl : readFails = false := by simpa using hfails
      exact ⟨hhinted peer key hremaining, occurred_concat_self hrun ⟨rfl, hread⟩⟩
    · exact hasked p k bytes hmem
  present := (hfrom.concat _).present
  deletes := (hfrom.concat _).deletes
  deleting := by simp

/-- A challenge that is given up, because the local record was not read. -/
theorem From.unread {peer key : H} {readFails : Bool} {remaining : List (H × H)}
    {asked : List (H × H × Bytes)} (hfrom : From ctx s₀ events s)
    (hphase : s.phase = .challenging remaining asked) :
    From ctx s₀ (events ++ [.readLocal peer key readFails])
      { s with phase := .challenging (remaining.erase (peer, key)) asked } where
  candidates := (hfrom.concat _).candidates
  challenging := by
    intro remaining' asked' hphase'
    cases hphase'
    obtain ⟨hhinted, hasked⟩ := (hfrom.concat _).challenging remaining asked hphase
    exact ⟨fun p k hmem => hhinted p k (List.mem_of_mem_erase hmem), hasked⟩
  present := (hfrom.concat _).present
  deletes := (hfrom.concat _).deletes
  deleting := by simp

theorem From.challenge {peer key : H} {localBytes : Bytes} {challenge : PruneChallenge H}
    {remaining : List (H × H)} {asked : List (H × H × Bytes)}
    (hrun : run (step ctx) s₀ events = some s) (hfrom : From ctx s₀ events s)
    (hphase : s.phase = .challenging remaining asked) (hmem : (peer, key, localBytes) ∈ asked) :
    From ctx s₀ (events ++ [.challenge peer key localBytes challenge])
      { s with
        phase := .challenging remaining (asked.erase (peer, key, localBytes))
        presentByKey :=
          if peerProvesRecord peer key localBytes challenge then addPresent s.presentByKey peer key
          else s.presentByKey } where
  candidates := (hfrom.concat _).candidates
  challenging := by
    intro remaining' asked' hphase'
    cases hphase'
    obtain ⟨hhinted, hasked⟩ := (hfrom.concat _).challenging remaining asked hphase
    exact ⟨hhinted, fun p k bytes hmem => hasked p k bytes (List.mem_of_mem_erase hmem)⟩
  present := by
    intro k present hlookup p hp
    simp only at hlookup
    split_ifs at hlookup with hproves
    · rcases mem_addPresent hlookup hp with ⟨rfl, rfl⟩ | ⟨old, hold, hpeer⟩
      · obtain ⟨hhint, hread⟩ :=
          ((hfrom.concat _).challenging remaining asked hphase).2 p k localBytes hmem
        exact ⟨hhint, localBytes, hread,
          occurred_concat_self hrun ⟨challenge, rfl, auditResponse_of_peerProvesRecord hproves⟩⟩
      · exact (hfrom.concat _).present k old hold p hpeer
    · exact (hfrom.concat _).present k present hlookup p hp
  deletes := (hfrom.concat _).deletes
  deleting := by simp

theorem From.revalidate {candidate : RecordPruneCandidate H}
    {rest : List (RecordPruneCandidate H)} (hrun : run (step ctx) s₀ events = some s)
    (hfrom : From ctx s₀ events s) (hphase : s.phase = .revalidating (candidate :: rest)) :
    From ctx s₀ (events ++ [.revalidate]) (s.revalidate ctx candidate rest) where
  candidates := (hfrom.concat .revalidate).candidates
  challenging := by simp [RecordPrunePass.revalidate]
  present := (hfrom.concat .revalidate).present
  deletes := by
    intro key hkey
    have hold := (hfrom.concat .revalidate).deletes
    simp only [RecordPrunePass.revalidate] at hkey
    split_ifs at hkey with hconfirmed
    · rcases List.mem_append.mp hkey with hkey | hkey
      · exact hold key hkey
      · obtain rfl : key = candidate.key := List.mem_singleton.mp hkey
        obtain ⟨hself, hseen, hremote, hreported⟩ := revalidatedRecordPruneKey_spec hconfirmed
        obtain ⟨present, hlookup, provers, hsubset, htargets, hneeded⟩ := exists_provers hreported
        refine ⟨provers, occurred_concat_self hrun ⟨rfl, ⟨candidate, rest, hphase, rfl⟩, hself,
          hseen, hremote, htargets, hneeded⟩, fun peer hpeer => ?_⟩
        exact (hfrom.concat .revalidate).present candidate.key present hlookup peer (hsubset hpeer)
    · exact hold key hkey
  deleting := by simp [RecordPrunePass.revalidate]

theorem From.step (hrun : run (step ctx) s₀ events = some s) (hfrom : From ctx s₀ events s)
    (hstep : s.step ctx e = some s') : From ctx s₀ (events ++ [e]) s' := by
  have hlater := hfrom.concat e
  cases e with
  | elsewhere world =>
      cases hstep
      exact ⟨hlater.candidates, hlater.challenging, hlater.present, hlater.deletes, hlater.deleting⟩
  | evaluate =>
      simp only [RecordPrunePass.step] at hstep
      split at hstep
      · rename_i key rest hphase
        cases hstep
        exact hfrom.evaluate hrun hphase
      · cases hstep
  | endSelection =>
      simp only [RecordPrunePass.step] at hstep
      split at hstep
      · cases hstep
        exact hfrom.endSelection
      · cases hstep
  | readLocal peer key readFails =>
      simp only [RecordPrunePass.step] at hstep
      split at hstep
      · rename_i remaining asked hphase
        split at hstep
        · rename_i hremaining
          split at hstep
          · cases hstep
            exact hfrom.unread hphase
          · rename_i localBytes hread
            cases hstep
            exact hfrom.readLocal hrun hphase hremaining hread
        · cases hstep
      · cases hstep
  | challenge peer key localBytes challenge =>
      simp only [RecordPrunePass.step] at hstep
      split at hstep
      · rename_i remaining asked hphase
        split at hstep
        · rename_i hasked
          cases hstep
          exact hfrom.challenge hrun hphase hasked
        · cases hstep
      · cases hstep
  | endChallenges =>
      simp only [RecordPrunePass.step] at hstep
      split at hstep
      · cases hstep
        exact ⟨hlater.candidates, by simp, hlater.present, hlater.deletes, by simp⟩
      · cases hstep
  | revalidate =>
      simp only [RecordPrunePass.step] at hstep
      split at hstep
      · rename_i candidate rest hphase
        cases hstep
        exact hfrom.revalidate hrun hphase
      · cases hstep
  | endRevalidation =>
      simp only [RecordPrunePass.step] at hstep
      split at hstep
      · cases hstep
        refine ⟨hlater.candidates, by simp, hlater.present, hlater.deletes, ?_⟩
        intro remaining hphase
        cases hphase
        exact List.Subset.refl _
      · cases hstep
  | delete accepted =>
      simp only [RecordPrunePass.step] at hstep
      split at hstep
      · rename_i key rest hphase
        cases hstep
        refine ⟨hlater.candidates, by simp, hlater.present, hlater.deletes, ?_⟩
        intro remaining hphase'
        cases hphase'
        exact List.Subset.trans (List.subset_cons_self key rest) (hlater.deleting _ hphase)
      · cases hstep

theorem from_of_run {storedKeys : List H} {scanStart : Nat} {world : PruneWorld H}
    (hrun : run (step ctx) (start storedKeys scanStart world) events = some s) :
    From ctx (start storedKeys scanStart world) events s :=
  history_induction (from_start storedKeys scanStart world)
    (fun _ _ _ _ hmid hfrom hstep => From.step hmid hfrom hstep) hrun

end Steps

end RecordPrunePass

/-! ### What each function of the paid-list pass has checked -/

theorem paidPruneConfirmationsNeeded_le_iff {groupSize count : Nat} :
    paidPruneConfirmationsNeeded groupSize ≤ count ↔ 3 * groupSize ≤ 4 * count := by
  unfold paidPruneConfirmationsNeeded
  omega

theorem confirmed_of_paidConfirmationsByKey {expiredCandidates : List (H × List H)}
    {evidence : EvidenceMap H} {key peer : H} {confirmed : Finset H}
    (hlookup : (paidConfirmationsByKey expiredCandidates evidence).lookup key = some confirmed)
    (hpeer : peer ∈ confirmed) :
    ∃ ev, evidence.lookup key = some ev ∧ ev.paidList.lookup peer = some .confirmed := by
  unfold paidConfirmationsByKey at hlookup
  induction expiredCandidates using List.reverseRecOn generalizing confirmed with
  | nil => simp at hlookup
  | append_singleton candidates candidate ih =>
      rw [List.foldl_concat] at hlookup
      simp only at hlookup
      split at hlookup
      · exact ih hlookup hpeer
      · rename_i ev hev
        split_ifs at hlookup with hempty
        · exact ih hlookup hpeer
        · rw [FiniteMap.lookup_insert_eq] at hlookup
          split_ifs at hlookup with heq
          · obtain rfl := Option.some.inj hlookup
            rw [heq]
            exact ⟨ev, hev, (Finset.mem_filter.mp hpeer).2.1⟩
          · exact ih hlookup hpeer

theorem says_of_collectPaidPruneConfirmations {expiredCandidates : List (H × List H)}
    {outcome : H → PeerOutcome H} {order : List H} {key peer : H} {confirmed : Finset H}
    (hlookup : (collectPaidPruneConfirmations expiredCandidates outcome order).lookup key =
      some confirmed) (hpeer : peer ∈ confirmed) :
    (outcome peer).Says (paidPruneTargets expiredCandidates) peer key
      fun result => result.paid = some true := by
  unfold collectPaidPruneConfirmations at hlookup
  split_ifs at hlookup with hempty
  · simp at hlookup
  · obtain ⟨ev, hev, hconfirmed⟩ := confirmed_of_paidConfirmationsByKey hlookup hpeer
    exact (speaksForItself_of_round hev peer).confirmed hconfirmed

theorem revalidatedPaidPruneKey_spec {ctx : PrunePassContext H} {key : H}
    {confirmedByKey : FiniteMap H (Finset H)} {now : Nat} {world : PruneWorld H}
    (hconfirmed : (revalidatedPaidPruneKey ctx key confirmedByKey now world).1 = true) :
    let closest := world.routing.findClosestNodesLocalWithSelf key ctx.config.paidListCloseGroupSize
    let current := remoteCloseGroupPeers closest ctx.selfId
    ctx.selfId ∉ closest ∧
      (∃ firstSeen, world.paidList.paidOutOfRange.lookup key = some firstSeen ∧
        ctx.config.pruneHysteresisDuration ≤ now - firstSeen) ∧
      current ≠ [] ∧
      targetPeersReportedPresent key current confirmedByKey
        (paidPruneConfirmationsNeeded current.length) = true := by
  unfold revalidatedPaidPruneKey at hconfirmed
  simp only at hconfirmed
  split at hconfirmed
  · cases hconfirmed
  · rename_i hself
    split at hconfirmed
    · cases hconfirmed
    · rename_i firstSeen hseen
      split_ifs at hconfirmed with hfresh hempty
      exact ⟨hself, ⟨firstSeen, hseen, not_lt.mp hfresh⟩, hempty, hconfirmed⟩

/-! ### The history of a paid-list pass -/

namespace PaidPrunePass

/-- The step is the round of requests, and the peer answers that it has the key on its paid list. -/
def ConfirmsAt (peer key : H) (pass : PaidPrunePass H) (e : PaidPruneEvent H) : Prop :=
  ∃ outcome order, e = .verify outcome order ∧
    (outcome peer).Says (paidPruneTargets pass.expiredCandidates) peer key
      fun result => result.paid = some true

/-- The step revalidates the key: this node is outside its paid close group, its paid timestamp is
old enough, and the confirmers are three quarters of its current remote paid group. -/
def PrunableAt (ctx : PrunePassContext H) (key : H) (confirmers : Finset H)
    (pass : PaidPrunePass H) (e : PaidPruneEvent H) : Prop :=
  let closest :=
    pass.world.routing.findClosestNodesLocalWithSelf key ctx.config.paidListCloseGroupSize
  let current := remoteCloseGroupPeers closest ctx.selfId
  e = .revalidate ∧
    (∃ targetPeers rest, pass.phase = .revalidating ((key, targetPeers) :: rest)) ∧
    ctx.selfId ∉ closest ∧
    (∃ firstSeen, pass.world.paidList.paidOutOfRange.lookup key = some firstSeen ∧
      ctx.config.pruneHysteresisDuration ≤ pass.revalidatedAt - firstSeen) ∧
    0 < current.length ∧ (∀ p ∈ confirmers, p ∈ current) ∧
    3 * current.length ≤ 4 * confirmers.card

section History

variable (ctx : PrunePassContext H) (s₀ : PaidPrunePass H) (events : List (PaidPruneEvent H))

structure From (s : PaidPrunePass H) : Prop where
  confirmed : ∀ key confirmed, s.confirmedByKey.lookup key = some confirmed → ∀ peer ∈ confirmed,
    Occurred (step ctx) (ConfirmsAt peer key) s₀ events
  deletes : ∀ key ∈ s.keysToDelete, ∃ confirmers : Finset H,
    Occurred (step ctx) (PrunableAt ctx key confirmers) s₀ events ∧
      ∀ peer ∈ confirmers, Occurred (step ctx) (ConfirmsAt peer key) s₀ events

end History

section Steps

variable {ctx : PrunePassContext H} {s₀ s s' : PaidPrunePass H} {events : List (PaidPruneEvent H)}
  {e : PaidPruneEvent H}

theorem From.concat (hfrom : From ctx s₀ events s) (e : PaidPruneEvent H) :
    From ctx s₀ (events ++ [e]) s where
  confirmed := fun key confirmed hlookup peer hpeer =>
    (hfrom.confirmed key confirmed hlookup peer hpeer).concat e
  deletes := by
    intro key hkey
    obtain ⟨confirmers, hprunable, hconfirmed⟩ := hfrom.deletes key hkey
    exact ⟨confirmers, hprunable.concat e, fun peer hpeer => (hconfirmed peer hpeer).concat e⟩

theorem From.verify {outcome : H → PeerOutcome H} {order : List H}
    (hrun : run (step ctx) s₀ events = some s) (hfrom : From ctx s₀ events s) :
    From ctx s₀ (events ++ [.verify outcome order])
      { s with
        phase := .revalidating s.expiredCandidates
        confirmedByKey := collectPaidPruneConfirmations s.expiredCandidates outcome order
        revalidatedAt := s.world.now } where
  confirmed := by
    intro key confirmed hlookup peer hpeer
    exact occurred_concat_self hrun
      ⟨outcome, order, rfl, says_of_collectPaidPruneConfirmations hlookup hpeer⟩
  deletes := (hfrom.concat _).deletes

theorem From.revalidate {key : H} {targetPeers : List H} {rest : List (H × List H)}
    (hrun : run (step ctx) s₀ events = some s) (hfrom : From ctx s₀ events s)
    (hphase : s.phase = .revalidating ((key, targetPeers) :: rest)) :
    From ctx s₀ (events ++ [.revalidate]) (s.revalidate ctx key rest) where
  confirmed := (hfrom.concat .revalidate).confirmed
  deletes := by
    intro k hk
    have hold := (hfrom.concat .revalidate).deletes
    simp only [PaidPrunePass.revalidate] at hk
    split_ifs at hk with hconfirmed
    · rcases List.mem_append.mp hk with hk | hk
      · exact hold k hk
      · obtain rfl : k = key := List.mem_singleton.mp hk
        obtain ⟨hself, hseen, hremote, hreported⟩ := revalidatedPaidPruneKey_spec hconfirmed
        obtain ⟨confirmed, hlookup, confirmers, hsubset, htargets, hneeded⟩ :=
          exists_provers hreported
        refine ⟨confirmers, occurred_concat_self hrun ⟨rfl, ⟨targetPeers, rest, hphase⟩, hself,
          hseen, List.length_pos_iff.mpr hremote, htargets,
          paidPruneConfirmationsNeeded_le_iff.mp hneeded⟩, fun peer hpeer => ?_⟩
        exact (hfrom.concat .revalidate).confirmed k confirmed hlookup peer (hsubset hpeer)
    · exact hold k hk

theorem From.step (hrun : run (step ctx) s₀ events = some s) (hfrom : From ctx s₀ events s)
    (hstep : s.step ctx e = some s') : From ctx s₀ (events ++ [e]) s' := by
  have hlater := hfrom.concat e
  cases e with
  | elsewhere world =>
      cases hstep
      exact ⟨hlater.confirmed, hlater.deletes⟩
  | evaluate =>
      simp only [PaidPrunePass.step] at hstep
      split at hstep
      · cases hstep
        exact ⟨hlater.confirmed, hlater.deletes⟩
      · cases hstep
  | verify outcome order =>
      simp only [PaidPrunePass.step] at hstep
      split at hstep
      · cases hstep
        exact hfrom.verify hrun
      · cases hstep
  | revalidate =>
      simp only [PaidPrunePass.step] at hstep
      split at hstep
      · rename_i key targetPeers rest hphase
        cases hstep
        exact hfrom.revalidate hrun hphase
      · cases hstep
  | remove accepted =>
      simp only [PaidPrunePass.step] at hstep
      split at hstep
      · cases hstep
        exact ⟨hlater.confirmed, hlater.deletes⟩
      · cases hstep

theorem from_of_run {paidKeys : List H} {scanStart : Nat} {world : PruneWorld H}
    (hrun : run (step ctx) (start paidKeys scanStart world) events = some s) :
    From ctx (start paidKeys scanStart world) events s := by
  have hstart : From ctx (start paidKeys scanStart world) [] (start paidKeys scanStart world) :=
    ⟨by simp [start], by simp [start]⟩
  exact history_induction hstart (fun _ _ _ _ hmid hfrom hstep => From.step hmid hfrom hstep) hrun

end Steps

end PaidPrunePass

/-- Whatever the peers answer and whatever happens elsewhere, a prune pass deletes a record, or a
paid-list entry, only after enough peers of its current close group have proven to hold the bytes
that were read from the store for them, or confirmed the key, in this pass. -/
theorem prunePass_deletes_with_proof (ctx : PrunePassContext H) :
    (∀ storedKeys scanStart world events s,
      run (RecordPrunePass.step ctx) (.start storedKeys scanStart world) events = some s →
      (∀ remaining, s.phase = .deleting remaining → remaining ⊆ s.keysToDelete) ∧
      ∀ key ∈ s.keysToDelete, ∃ provers : Finset H,
        Occurred (RecordPrunePass.step ctx) (RecordPrunePass.PrunableAt ctx key provers)
          (.start storedKeys scanStart world) events ∧
        ∀ peer ∈ provers,
          Occurred (RecordPrunePass.step ctx) (RecordPrunePass.HintedAt ctx peer key)
            (.start storedKeys scanStart world) events ∧
          ∃ localBytes,
            Occurred (RecordPrunePass.step ctx) (RecordPrunePass.ReadsAt peer key localBytes)
              (.start storedKeys scanStart world) events ∧
            Occurred (RecordPrunePass.step ctx) (RecordPrunePass.ProvesAt peer key localBytes)
              (.start storedKeys scanStart world) events) ∧
    ∀ paidKeys scanStart world events s,
      run (PaidPrunePass.step ctx) (.start paidKeys scanStart world) events = some s →
      ∀ key ∈ s.keysToDelete, ∃ confirmers : Finset H,
        Occurred (PaidPrunePass.step ctx) (PaidPrunePass.PrunableAt ctx key confirmers)
          (.start paidKeys scanStart world) events ∧
        ∀ peer ∈ confirmers,
          Occurred (PaidPrunePass.step ctx) (PaidPrunePass.ConfirmsAt peer key)
            (.start paidKeys scanStart world) events := by
  constructor
  · intro storedKeys scanStart world events s hrun
    have hfrom := RecordPrunePass.from_of_run hrun
    exact ⟨hfrom.deleting, hfrom.deletes⟩
  · intro paidKeys scanStart world events s hrun
    exact (PaidPrunePass.from_of_run hrun).deletes

namespace Transcript

def farNode : PrunePassContext Transcript where
  selfId := ⟨[0]⟩
  config := ⟨1, 1, 1, 0⟩
  currentSyncEpoch := 1
  allowRemotePruneAudits := true

/-- The peer 1 is the close group of every key, and was hinted for the key 2. -/
def hintedWorld : PruneWorld Transcript where
  now := repairHintMinAge
  storage := Finmap.singleton ⟨[2]⟩ [7]
  paidList := ⟨{⟨[2]⟩}, ∅, ∅⟩
  repairProofs := ⟨Finmap.singleton ⟨[2]⟩ ⟨{⟨[1]⟩}, Finmap.singleton ⟨[1]⟩ ⟨0, 0⟩⟩⟩
  routing := ⟨fun _ _ => [⟨[1]⟩], fun _ _ => [⟨[1]⟩]⟩
  isHeld := fun _ => false

def oneProof : List (RecordPruneEvent Transcript) :=
  [.evaluate, .endSelection, .readLocal ⟨[1]⟩ ⟨[2]⟩ false,
    .challenge ⟨[1]⟩ ⟨[2]⟩ [7] ⟨0, Vector.replicate 32 0, .auditResponse (.digests 0
      [computeAuditDigest (Vector.replicate 32 0) ⟨[1]⟩ ⟨[2]⟩ [7]])⟩,
    .endChallenges, .revalidate]

theorem prunePass_deletes_with_proof_oneProof :
    ∃ s, run (RecordPrunePass.step farNode) (.start [⟨[2]⟩] 0 hintedWorld) oneProof = some s ∧
      s.keysToDelete = [⟨[2]⟩] ∧ ∃ provers : Finset Transcript,
        Occurred (RecordPrunePass.step farNode)
          (RecordPrunePass.PrunableAt farNode ⟨[2]⟩ provers) (.start [⟨[2]⟩] 0 hintedWorld)
          oneProof := by
  have hdeletes : (run (RecordPrunePass.step farNode) (.start [⟨[2]⟩] 0 hintedWorld) oneProof).map
      (fun s => s.keysToDelete) = some [⟨[2]⟩] := by decide +kernel
  obtain ⟨s, hrun, hkeys⟩ := Option.map_eq_some_iff.mp hdeletes
  obtain ⟨provers, hprunable, -⟩ :=
    ((prunePass_deletes_with_proof farNode).1 _ _ _ _ s hrun).2 ⟨[2]⟩ (by simp [hkeys])
  exact ⟨s, hrun, hkeys, provers, hprunable⟩

end Transcript

end AntNode
