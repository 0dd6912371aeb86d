import AntNode.Proof.EvidenceOrder
import AntNode.Proof.QuorumExact
import AntNode.RepairPipeline

/-!
# What the lists of a verification cycle stand for

A key enters the fetch queue at the end of a cycle in which many steps, with the locks given back
between them, decided about it. What each list of the cycle stands for is an invariant: why its keys
are in it, and that the entry of a key that is still to be handled stays pending under the pipeline
the cycle read. The last holds because only the cycle itself takes entries out of the queue of
pending verifications, and it handles each key once.
-/

namespace AntNode

variable {H : Type} [Digest H]

/-! ### Pending entries under the operations of the queues -/

def PendingIn (q : ReplicationQueues H) (key : H) (pipeline : HintPipeline) : Prop :=
  ∃ entry, q.pendingVerify.lookup key = some entry ∧ entry.pipeline = pipeline

section Pending

variable {q : ReplicationQueues H} {key other : H} {pipeline : HintPipeline}

theorem PendingIn.addPendingVerify (hpending : PendingIn q key pipeline)
    (entry : VerificationEntry H) : PendingIn (q.addPendingVerify other entry).2 key pipeline := by
  unfold ReplicationQueues.addPendingVerify
  simp only
  split_ifs with hcontains hfull hshare
  · exact hpending
  · exact hpending
  · exact hpending
  · obtain ⟨old, hlookup, hpipeline⟩ := hpending
    have hne : key ≠ other := by
      rintro rfl
      have hmem : key ∈ q.pendingVerify := AList.lookup_isSome.mp (by simp [hlookup])
      exact hcontains (by simp [ReplicationQueues.containsKey, hmem])
    exact ⟨old, by rw [AList.lookup_insert_ne hne, hlookup], hpipeline⟩

theorem PendingIn.setPendingState (hpending : PendingIn q key pipeline)
    (state : VerificationState) : PendingIn (q.setPendingState other state).2 key pipeline := by
  unfold ReplicationQueues.setPendingState
  cases hother : q.pendingVerify.lookup other with
  | none => exact hpending
  | some entry =>
      obtain ⟨old, hlookup, hpipeline⟩ := hpending
      by_cases heq : key = other
      · subst heq
        obtain rfl := Option.some.inj (hlookup.symm.trans hother)
        exact ⟨_, AList.lookup_insert _, hpipeline⟩
      · exact ⟨old, by simpa [AList.lookup_insert_ne heq] using hlookup, hpipeline⟩

theorem PendingIn.removePending (hpending : PendingIn q key pipeline) (hne : key ≠ other) :
    PendingIn (q.removePending other).2 key pipeline := by
  unfold ReplicationQueues.removePending
  cases q.pendingVerify.lookup other with
  | none => exact hpending
  | some entry =>
      obtain ⟨old, hlookup, hpipeline⟩ := hpending
      exact ⟨old, by simpa [AList.lookup_erase_ne hne] using hlookup, hpipeline⟩

theorem PendingIn.removeAll {keys : List H} (hpending : PendingIn q key pipeline)
    (hnot : key ∉ keys) :
    PendingIn (keys.foldl (fun q key => (q.removePending key).2) q) key pipeline := by
  induction keys generalizing q with
  | nil => exact hpending
  | cons other keys ih =>
      rw [List.mem_cons, not_or] at hnot
      exact ih (hpending.removePending hnot.1) hnot.2

theorem enqueueFetch_pendingVerify (distance : H) (sources : List H) :
    (q.enqueueFetch key distance sources).2.pendingVerify = q.pendingVerify := by
  unfold ReplicationQueues.enqueueFetch
  split_ifs <;> rfl

theorem PendingIn.promotePendingToFetch (hpending : PendingIn q key pipeline) (hne : key ≠ other)
    (distance : H) (sources : List H) :
    PendingIn (q.promotePendingToFetch other distance sources).2 key pipeline := by
  unfold ReplicationQueues.promotePendingToFetch
  split_ifs
  · exact hpending
  · unfold PendingIn
    rw [enqueueFetch_pendingVerify]
    exact hpending.removePending hne

theorem retryFetch_pendingVerify : (q.retryFetch key).2.pendingVerify = q.pendingVerify := by
  unfold ReplicationQueues.retryFetch
  split
  · rfl
  · simp only
    split <;> rfl

end Pending

/-! ### The fetch queue under the operations of the queues -/

section FetchQueue

variable {q : ReplicationQueues H} {key distance : H} {sources : List H}
  {candidate : FetchCandidate H}

theorem addPendingVerify_fetchQueue (entry : VerificationEntry H) :
    (q.addPendingVerify key entry).2.fetchQueue = q.fetchQueue := by
  unfold ReplicationQueues.addPendingVerify
  simp only
  split_ifs <;> rfl

theorem setPendingState_fetchQueue (state : VerificationState) :
    (q.setPendingState key state).2.fetchQueue = q.fetchQueue := by
  unfold ReplicationQueues.setPendingState
  split <;> rfl

theorem removePending_fetchQueue : (q.removePending key).2.fetchQueue = q.fetchQueue := by
  unfold ReplicationQueues.removePending
  split <;> rfl

theorem removeAll_fetchQueue (keys : List H) :
    (keys.foldl (fun q key => (q.removePending key).2) q).fetchQueue = q.fetchQueue := by
  induction keys generalizing q with
  | nil => rfl
  | cons key keys ih => rw [List.foldl_cons, ih, removePending_fetchQueue]

theorem mem_promotePendingToFetch
    (hmem : candidate ∈ (q.promotePendingToFetch key distance sources).2.fetchQueue) :
    candidate ∈ q.fetchQueue ∨ candidate = ⟨key, distance, sources⟩ := by
  unfold ReplicationQueues.promotePendingToFetch at hmem
  split_ifs at hmem with hfull
  · exact .inl hmem
  · unfold ReplicationQueues.enqueueFetch at hmem
    split_ifs at hmem with hcontains hfull
    · exact .inl (by rwa [removePending_fetchQueue] at hmem)
    · exact .inl (by rwa [removePending_fetchQueue] at hmem)
    · rw [List.mem_orderedInsert, removePending_fetchQueue] at hmem
      exact hmem.symm

theorem retryFetch_fetchQueue : (q.retryFetch key).2.fetchQueue = q.fetchQueue := by
  unfold ReplicationQueues.retryFetch
  split
  · rfl
  · simp only
    split <;> rfl

theorem popNotInFlight_subset (inFlight : AList fun _ : H => InFlightEntry H)
    (queue : List (FetchCandidate H)) (keys : Finset H) :
    (∀ candidate, (ReplicationQueues.popNotInFlight inFlight queue keys).1 = some candidate →
      candidate ∈ queue) ∧
    (ReplicationQueues.popNotInFlight inFlight queue keys).2.1 ⊆ queue := by
  induction queue generalizing keys with
  | nil => simp [ReplicationQueues.popNotInFlight]
  | cons head rest ih =>
      unfold ReplicationQueues.popNotInFlight
      split_ifs with hflight
      · obtain ⟨hpopped, hrest⟩ := ih (keys.erase head.key)
        exact ⟨fun candidate heq => List.mem_cons_of_mem _ (hpopped candidate heq),
          List.subset_cons_of_subset _ hrest⟩
      · constructor
        · intro candidate heq
          obtain rfl : head = candidate := Option.some.inj heq
          exact List.mem_cons_self ..
        · exact List.subset_cons_self ..

end FetchQueue

/-! ### What is known of the keys of a cycle -/

/-- Why a cycle may go on with a key: it is on the local paid list, the network has verified it, a
target has answered that it holds it, and this node is to store it and does not. -/
structure Known (H : Type) where
  paid : H → Prop
  verified : H → Prop
  answered : H → H → Prop
  mayRepair : H → Prop

structure Known.Le (known later : Known H) : Prop where
  paid : ∀ key, known.paid key → later.paid key
  verified : ∀ key, known.verified key → later.verified key
  answered : ∀ key peer, known.answered key peer → later.answered key peer
  mayRepair : ∀ key, known.mayRepair key → later.mayRepair key

omit [Digest H] in
theorem Known.Le.refl (known : Known H) : known.Le known :=
  ⟨fun _ => id, fun _ => id, fun _ _ => id, fun _ => id⟩

section Lists

variable (known : Known H) (q : ReplicationQueues H)

def CheckOk (keys : List H) : Prop :=
  ∀ key ∈ keys, known.paid key ∧ ∃ pipeline, PendingIn q key pipeline

def ProbeOk (keys : List H) : Prop :=
  ∀ key ∈ keys, known.paid key ∧
    ∃ pipeline, PendingIn q key pipeline ∧ (pipeline = .paidOnly → known.mayRepair key)

def EvidenceOk (cycle : VerificationCycle H) : Prop :=
  ∀ key ev, cycle.evidence.lookup key = some ev →
    ∀ peer ∈ presentSourcesForKey key ev cycle.targets, known.answered key peer

def UpdateOk (evaluated : List (EvaluatedKey H)) : Prop :=
  ∀ e ∈ evaluated, PendingIn q e.key e.pipeline ∧
    ∀ sources, e.outcome.verifiedSources = some sources →
      known.verified e.key ∧ ∀ peer ∈ sources, known.answered e.key peer

def FetchKeysOk (cycle : VerificationCycle H) : Prop :=
  ∀ key ∈ cycle.paidOnlyFetchKeys, known.mayRepair key

/-- What the lists of a cycle stand for, phase by phase. Each key is in one list only. -/
def CycleOk (cycle : VerificationCycle H) : Prop :=
  match cycle.phase with
  | .idle => True
  | .classifying remaining =>
      (remaining ++ cycle.localPaidPaidOnlyKeys ++ cycle.localPaidPresenceProbeKeys).Nodup ∧
        (remaining ++ cycle.keysNeedingNetwork).Nodup ∧ cycle.terminalPaidOnly = [] ∧
        CheckOk known q cycle.localPaidPaidOnlyKeys ∧
        ProbeOk known q cycle.localPaidPresenceProbeKeys
  | .checkingPaidOnly remaining =>
      (remaining ++ cycle.terminalPaidOnly ++ cycle.localPaidPresenceProbeKeys).Nodup ∧
        cycle.keysNeedingNetwork.Nodup ∧ CheckOk known q remaining ∧
        ProbeOk known q cycle.localPaidPresenceProbeKeys
  | .removingPaidOnly =>
      (cycle.terminalPaidOnly ++ cycle.localPaidPresenceProbeKeys).Nodup ∧
        cycle.keysNeedingNetwork.Nodup ∧ ProbeOk known q cycle.localPaidPresenceProbeKeys
  | .probing =>
      cycle.localPaidPresenceProbeKeys.Nodup ∧ cycle.keysNeedingNetwork.Nodup ∧
        ProbeOk known q cycle.localPaidPresenceProbeKeys
  | .promotingProbed remaining =>
      remaining.Nodup ∧ cycle.keysNeedingNetwork.Nodup ∧ ProbeOk known q remaining ∧
        EvidenceOk known cycle
  | .verifying => cycle.keysNeedingNetwork.Nodup
  | .snapshotting | .evaluating => cycle.keysNeedingNetwork.Nodup ∧ EvidenceOk known cycle
  | .insertingPaid =>
      (cycle.evaluated.map EvaluatedKey.key).Nodup ∧ UpdateOk known q cycle.evaluated
  | .checkingFetch _ =>
      (cycle.evaluated.map EvaluatedKey.key).Nodup ∧ UpdateOk known q cycle.evaluated ∧
        FetchKeysOk known cycle
  | .updating remaining =>
      (remaining.map EvaluatedKey.key).Nodup ∧ UpdateOk known q remaining ∧
        FetchKeysOk known cycle

end Lists

section Mono

variable {known later : Known H} {q q' : ReplicationQueues H} {cycle : VerificationCycle H}

theorem CheckOk.mono {keys : List H} (hok : CheckOk known q keys) (hle : known.Le later)
    (hpending : ∀ key ∈ keys, ∀ pipeline, PendingIn q key pipeline → PendingIn q' key pipeline) :
    CheckOk later q' keys := by
  intro key hkey
  obtain ⟨hpaid, pipeline, hin⟩ := hok key hkey
  exact ⟨hle.paid key hpaid, pipeline, hpending key hkey pipeline hin⟩

theorem ProbeOk.mono {keys : List H} (hok : ProbeOk known q keys) (hle : known.Le later)
    (hpending : ∀ key ∈ keys, ∀ pipeline, PendingIn q key pipeline → PendingIn q' key pipeline) :
    ProbeOk later q' keys := by
  intro key hkey
  obtain ⟨hpaid, pipeline, hin, hrepair⟩ := hok key hkey
  exact ⟨hle.paid key hpaid, pipeline, hpending key hkey pipeline hin,
    fun heq => hle.mayRepair key (hrepair heq)⟩

theorem EvidenceOk.mono (hok : EvidenceOk known cycle) (hle : known.Le later) :
    EvidenceOk later cycle :=
  fun key ev hev peer hpeer => hle.answered key peer (hok key ev hev peer hpeer)

theorem UpdateOk.mono {evaluated : List (EvaluatedKey H)} (hok : UpdateOk known q evaluated)
    (hle : known.Le later)
    (hpending : ∀ e ∈ evaluated, PendingIn q e.key e.pipeline → PendingIn q' e.key e.pipeline) :
    UpdateOk later q' evaluated := by
  intro e he
  obtain ⟨hin, hverified⟩ := hok e he
  refine ⟨hpending e he hin, fun sources hsources => ?_⟩
  obtain ⟨hknown, hanswered⟩ := hverified sources hsources
  exact ⟨hle.verified _ hknown, fun peer hpeer => hle.answered _ _ (hanswered peer hpeer)⟩

omit [Digest H] in
theorem FetchKeysOk.mono (hok : FetchKeysOk known cycle) (hle : known.Le later) :
    FetchKeysOk later cycle :=
  fun key hkey => hle.mayRepair key (hok key hkey)

/-- A cycle that makes no step keeps what it knows, whatever else happens to the queues, as long as
no entry is taken out of the pending ones. -/
theorem CycleOk.mono (hok : CycleOk known q cycle) (hle : known.Le later)
    (hpending : ∀ key pipeline, PendingIn q key pipeline → PendingIn q' key pipeline) :
    CycleOk later q' cycle := by
  unfold CycleOk at hok ⊢
  have hkeeps : ∀ keys : List H, ∀ key ∈ keys, ∀ pipeline, PendingIn q key pipeline →
      PendingIn q' key pipeline := fun _ key _ => hpending key
  cases hphase : cycle.phase with
  | idle => trivial
  | classifying remaining =>
      simp only [hphase] at hok ⊢
      obtain ⟨hlocal, hnetwork, hterminal, hcheck, hprobe⟩ := hok
      exact ⟨hlocal, hnetwork, hterminal, hcheck.mono hle (hkeeps _), hprobe.mono hle (hkeeps _)⟩
  | checkingPaidOnly remaining =>
      simp only [hphase] at hok ⊢
      obtain ⟨hlocal, hnetwork, hcheck, hprobe⟩ := hok
      exact ⟨hlocal, hnetwork, hcheck.mono hle (hkeeps _), hprobe.mono hle (hkeeps _)⟩
  | removingPaidOnly =>
      simp only [hphase] at hok ⊢
      exact ⟨hok.1, hok.2.1, hok.2.2.mono hle (hkeeps _)⟩
  | probing =>
      simp only [hphase] at hok ⊢
      exact ⟨hok.1, hok.2.1, hok.2.2.mono hle (hkeeps _)⟩
  | promotingProbed remaining =>
      simp only [hphase] at hok ⊢
      obtain ⟨hlocal, hnetwork, hprobe, hevidence⟩ := hok
      exact ⟨hlocal, hnetwork, hprobe.mono hle (hkeeps _), hevidence.mono hle⟩
  | verifying => simpa only [hphase] using hok
  | snapshotting =>
      simp only [hphase] at hok ⊢
      exact ⟨hok.1, hok.2.mono hle⟩
  | evaluating =>
      simp only [hphase] at hok ⊢
      exact ⟨hok.1, hok.2.mono hle⟩
  | insertingPaid =>
      simp only [hphase] at hok ⊢
      exact ⟨hok.1, hok.2.mono hle fun e _ => hpending _ _⟩
  | checkingFetch remaining =>
      simp only [hphase] at hok ⊢
      exact ⟨hok.1, hok.2.1.mono hle fun e _ => hpending _ _, hok.2.2.mono hle⟩
  | updating remaining =>
      simp only [hphase] at hok ⊢
      exact ⟨hok.1, hok.2.1.mono hle fun e _ => hpending _ _, hok.2.2.mono hle⟩

end Mono

/-! ### The steps of a cycle -/

section Steps

variable {known : Known H} {s : RepairState H} {ctx : RepairContext H} {key : H} {rest : List H}

theorem nodup_of_count_le {l l' : List H} (hnodup : l.Nodup)
    (hle : ∀ key, l'.count key ≤ l.count key) : l'.Nodup := by
  rw [List.nodup_iff_count_le_one] at hnodup ⊢
  intro key
  exact (hle key).trans (hnodup key)

theorem setPendingState_fst {q : ReplicationQueues H} {state : VerificationState}
    {pipeline : HintPipeline} (hset : (q.setPendingState key state).1 = some pipeline) :
    PendingIn (q.setPendingState key state).2 key pipeline := by
  unfold ReplicationQueues.setPendingState at hset ⊢
  cases hlookup : q.pendingVerify.lookup key with
  | none => simp [hlookup] at hset
  | some entry =>
      simp only [hlookup, Option.some.injEq] at hset
      exact ⟨_, AList.lookup_insert _, hset⟩

theorem cycleOk_classify (hok : CycleOk known s.queues s.cycle)
    (hphase : s.cycle.phase = .classifying (key :: rest)) {readFails : Bool}
    (hpaid : s.world.paidListContains key readFails = true → known.paid key) :
    CycleOk known (s.classify key rest readFails).queues
      (s.classify key rest readFails).cycle := by
  simp only [CycleOk, hphase] at hok
  obtain ⟨hlocal, hnetwork, hterminal, hcheck, hprobe⟩ := hok
  have hset : ∀ other pipeline, PendingIn s.queues other pipeline →
      PendingIn (s.queues.setPendingState key .paidListVerified).2 other pipeline :=
    fun _ _ hin => hin.setPendingState _
  have hcheck' := hcheck.mono (.refl known) fun other _ => hset other
  have hprobe' := hprobe.mono (.refl known) fun other _ => hset other
  have hnetwork' : (rest ++ s.cycle.keysNeedingNetwork).Nodup :=
    nodup_of_count_le hnetwork fun a => by simp [List.count_cons]
  unfold RepairState.classify
  split_ifs with hcontains
  · cases hpipeline : (s.queues.setPendingState key .paidListVerified).1 with
    | none =>
        simp only [hpipeline]
        refine ⟨?_, hnetwork', hterminal, hcheck', hprobe'⟩
        exact nodup_of_count_le hlocal fun a => by simp [List.count_cons]
    | some pipeline =>
        have hin := setPendingState_fst hpipeline
        cases pipeline with
        | paidOnly =>
            simp only [hpipeline]
            refine ⟨?_, hnetwork', hterminal, ?_, hprobe'⟩
            · exact nodup_of_count_le hlocal fun a => by simp [List.count_cons]; omega
            · intro other hother
              rcases List.mem_append.mp hother with hother | hother
              · exact hcheck' other hother
              · obtain rfl := List.mem_singleton.mp hother
                exact ⟨hpaid hcontains, .paidOnly, hin⟩
        | replica =>
            simp only [hpipeline]
            refine ⟨?_, hnetwork', hterminal, hcheck', ?_⟩
            · exact nodup_of_count_le hlocal fun a => by simp [List.count_cons]; omega
            · intro other hother
              rcases List.mem_append.mp hother with hother | hother
              · exact hprobe' other hother
              · obtain rfl := List.mem_singleton.mp hother
                exact ⟨hpaid hcontains, .replica, hin, nofun⟩
  · refine ⟨?_, ?_, hterminal, hcheck, hprobe⟩
    · exact nodup_of_count_le hlocal fun a => by simp [List.count_cons]
    · exact nodup_of_count_le hnetwork fun a => by simp [List.count_cons]; omega

theorem cycleOk_checkPaidOnly (hok : CycleOk known s.queues s.cycle)
    (hphase : s.cycle.phase = .checkingPaidOnly (key :: rest)) {readFails : Bool}
    (hrepair : s.world.storageExists key readFails = false →
      s.world.isResponsible ctx.selfId key (storageAdmissionWidth ctx.config.closeGroupSize) =
        true → known.mayRepair key) :
    CycleOk known (s.checkPaidOnly ctx key rest readFails).queues
      (s.checkPaidOnly ctx key rest readFails).cycle := by
  simp only [CycleOk, hphase] at hok
  obtain ⟨hlocal, hnetwork, hcheck, hprobe⟩ := hok
  have hrest : CheckOk known s.queues rest := fun other hother =>
    hcheck other (List.mem_cons_of_mem _ hother)
  unfold RepairState.checkPaidOnly
  split_ifs with hexists hresponsible
  · refine ⟨?_, hnetwork, hrest, hprobe⟩
    exact nodup_of_count_le hlocal fun a => by simp [List.count_cons]; omega
  · refine ⟨?_, hnetwork, hrest, ?_⟩
    · exact nodup_of_count_le hlocal fun a => by simp [List.count_cons]; omega
    · intro other hother
      rcases List.mem_append.mp hother with hother | hother
      · exact hprobe other hother
      · obtain rfl := List.mem_singleton.mp hother
        obtain ⟨hpaid, pipeline, hin⟩ := hcheck other (List.mem_cons_self ..)
        exact ⟨hpaid, pipeline, hin,
          fun _ => hrepair (Bool.eq_false_of_not_eq_true hexists) hresponsible⟩
  · refine ⟨?_, hnetwork, hrest, hprobe⟩
    exact nodup_of_count_le hlocal fun a => by simp [List.count_cons]; omega

theorem cycleOk_removePaidOnly (hok : CycleOk known s.queues s.cycle)
    (hphase : s.cycle.phase = .removingPaidOnly) :
    CycleOk known s.removePaidOnly.queues s.removePaidOnly.cycle := by
  simp only [CycleOk, hphase] at hok
  obtain ⟨hlocal, hnetwork, hprobe⟩ := hok
  obtain ⟨-, hnodup, hdisjoint⟩ := List.nodup_append.mp hlocal
  refine ⟨hnodup, hnetwork, hprobe.mono (.refl known) fun other hother pipeline hin => ?_⟩
  apply hin.removeAll
  intro hterminal
  exact hdisjoint other hterminal other hother rfl

/-- The present sources of a key after a round are targets that said so in it. -/
theorem says_of_presentSources {keys : List H} {targets : VerificationTargets H}
    {outcome : H → PeerOutcome H} {order : List H} {ev : KeyVerificationEvidence H}
    (hev : (runVerificationRound keys targets outcome order).lookup key = some ev) {peer : H}
    (hpeer : peer ∈ presentSourcesForKey key ev targets) :
    targets.Target key peer ∧
      (outcome peer).Says targets peer key fun result => result.present = true := by
  obtain ⟨htarget, hpresent⟩ := mem_presentSourcesForKey.mp hpeer
  exact ⟨htarget, (speaksForItself_of_round hev peer).present hpresent⟩

theorem cycleOk_probe (hok : CycleOk known s.queues s.cycle) (hphase : s.cycle.phase = .probing)
    {outcome : H → PeerOutcome H} {order : List H}
    (hanswered : EvidenceOk known (s.probe ctx outcome order).cycle) :
    CycleOk known (s.probe ctx outcome order).queues (s.probe ctx outcome order).cycle := by
  simp only [CycleOk, hphase] at hok
  exact ⟨hok.1, hok.2.1, hok.2.2, hanswered⟩

theorem ProbeOk.tail {q : ReplicationQueues H} (hok : ProbeOk known s.queues (key :: rest))
    (hnodup : (key :: rest).Nodup)
    (hpending : ∀ other pipeline, other ≠ key → PendingIn s.queues other pipeline →
      PendingIn q other pipeline) : ProbeOk known q rest := by
  have hrest : ProbeOk known s.queues rest := fun other hother =>
    hok other (List.mem_cons_of_mem _ hother)
  apply hrest.mono (.refl known)
  intro other hother pipeline hin
  apply hpending other pipeline _ hin
  rintro rfl
  exact (List.nodup_cons.mp hnodup).1 hother

theorem cycleOk_promoteProbed (hok : CycleOk known s.queues s.cycle)
    (hphase : s.cycle.phase = .promotingProbed (key :: rest)) (readFails : Bool) :
    CycleOk known (s.promoteProbed ctx key rest readFails).queues
      (s.promoteProbed ctx key rest readFails).cycle := by
  simp only [CycleOk, hphase] at hok
  obtain ⟨hnodup, hnetwork, hprobe, hevidence⟩ := hok
  have hrest := (List.nodup_cons.mp hnodup).2
  unfold RepairState.promoteProbed
  simp only
  split_ifs
  · exact ⟨hrest, hnetwork, hprobe.tail hnodup fun _ _ hne hin => hin.removePending hne, hevidence⟩
  · exact ⟨hrest, hnetwork, hprobe.tail hnodup fun _ _ hne hin => hin.removePending hne, hevidence⟩
  · exact ⟨hrest, hnetwork,
      hprobe.tail hnodup fun _ _ hne hin => hin.promotePendingToFetch hne _ _, hevidence⟩

theorem cycleOk_verify (hok : CycleOk known s.queues s.cycle)
    (hphase : s.cycle.phase = .verifying) {outcome : H → PeerOutcome H} {order : List H}
    (hanswered : EvidenceOk known (s.verify ctx outcome order).cycle) :
    CycleOk known (s.verify ctx outcome order).queues (s.verify ctx outcome order).cycle := by
  simp only [CycleOk, hphase] at hok
  exact ⟨hok, hanswered⟩

theorem cycleOk_snapshot (hok : CycleOk known s.queues s.cycle)
    (hphase : s.cycle.phase = .snapshotting) (readFails : H → Bool) :
    CycleOk known (s.snapshot readFails).queues (s.snapshot readFails).cycle := by
  simp only [CycleOk, hphase] at hok
  exact hok

omit [Digest H] in
theorem verified_of_verifiedSources {outcome : KeyVerificationOutcome H} {sources : List H}
    (hsources : outcome.verifiedSources = some sources) :
    outcome.Verified ∧ outcome.sources = sources := by
  cases outcome with
  | quorumVerified | paidListVerified => exact ⟨trivial, Option.some.inj hsources⟩
  | quorumFailed | quorumInconclusive => cases hsources

theorem evaluateKey_eq_some {e : EvaluatedKey H} (heval : s.evaluateKey ctx key = some e) :
    e.key = key ∧ PendingIn s.queues key e.pipeline ∧
      ∃ ev, s.cycle.evidence.lookup key = some ev ∧
        e.outcome = evaluateKeyEvidenceWithHolderCheck key ev s.cycle.targets ctx.config
          (holderCredit s.cycle.holders s.world.now) := by
  unfold RepairState.evaluateKey at heval
  cases hev : s.cycle.evidence.lookup key with
  | none => simp [hev] at heval
  | some ev =>
      cases hentry : s.queues.pendingVerify.lookup key with
      | none => simp [hev, hentry] at heval
      | some entry =>
          simp only [hev, hentry, Option.some.injEq] at heval
          subst heval
          exact ⟨rfl, ⟨entry, hentry, rfl⟩, ev, rfl, rfl⟩

theorem cycleOk_evaluate (hok : CycleOk known s.queues s.cycle)
    (hphase : s.cycle.phase = .evaluating)
    (hverified : ∀ key ev, s.cycle.evidence.lookup key = some ev →
      (evaluateKeyEvidenceWithHolderCheck key ev s.cycle.targets ctx.config
        (holderCredit s.cycle.holders s.world.now)).Verified → known.verified key) :
    CycleOk known (s.evaluate ctx).queues (s.evaluate ctx).cycle := by
  simp only [CycleOk, hphase] at hok
  obtain ⟨hnetwork, hevidence⟩ := hok
  refine ⟨?_, ?_⟩
  · simp only [RepairState.evaluate, List.map_filterMap]
    apply hnetwork.filterMap
    intro key key' evaluated hkey hkey'
    obtain ⟨e, heval, rfl⟩ := Option.map_eq_some_iff.mp hkey
    obtain ⟨e', heval', heq⟩ := Option.map_eq_some_iff.mp hkey'
    rw [← (evaluateKey_eq_some heval).1, ← (evaluateKey_eq_some heval').1, heq]
  · intro e he
    obtain ⟨key, -, heval⟩ := List.mem_filterMap.mp he
    obtain ⟨rfl, hin, ev, hev, houtcome⟩ := evaluateKey_eq_some heval
    refine ⟨hin, fun sources hsources => ?_⟩
    obtain ⟨hver, rfl⟩ := verified_of_verifiedSources hsources
    rw [houtcome] at hver
    refine ⟨hverified e.key ev hev hver, fun peer hpeer => ?_⟩
    rw [houtcome, sources_of_verified hver] at hpeer
    exact hevidence e.key ev hev peer hpeer

theorem cycleOk_insertPaid (hok : CycleOk known s.queues s.cycle)
    (hphase : s.cycle.phase = .insertingPaid) (accepted : H → Bool) :
    CycleOk known (s.insertPaid accepted).queues (s.insertPaid accepted).cycle := by
  simp only [CycleOk, hphase] at hok
  refine ⟨hok.1, hok.2, fun key hkey => ?_⟩
  simp [RepairState.insertPaid] at hkey

theorem cycleOk_checkFetch {e : EvaluatedKey H} {rest : List (EvaluatedKey H)}
    (hok : CycleOk known s.queues s.cycle) (hphase : s.cycle.phase = .checkingFetch (e :: rest))
    {readFails : Bool}
    (hrepair : s.world.storageExists e.key readFails = false →
      s.world.isResponsible ctx.selfId e.key (storageAdmissionWidth ctx.config.closeGroupSize) =
        true → known.mayRepair e.key) :
    CycleOk known (s.checkFetch ctx e rest readFails).queues
      (s.checkFetch ctx e rest readFails).cycle := by
  simp only [CycleOk, hphase] at hok
  obtain ⟨hnodup, hupdate, hfetch⟩ := hok
  unfold RepairState.checkFetch
  split_ifs with heligible
  · refine ⟨hnodup, hupdate, fun key hkey => ?_⟩
    rcases Finset.mem_insert.mp hkey with rfl | hkey
    · exact hrepair heligible.2.2.1 heligible.2.2.2
    · exact hfetch key hkey
  · exact ⟨hnodup, hupdate, hfetch⟩

theorem UpdateOk.tail {q : ReplicationQueues H} {e : EvaluatedKey H} {rest : List (EvaluatedKey H)}
    (hok : UpdateOk known s.queues (e :: rest)) (hnodup : ((e :: rest).map EvaluatedKey.key).Nodup)
    (hpending : ∀ other pipeline, other ≠ e.key → PendingIn s.queues other pipeline →
      PendingIn q other pipeline) : UpdateOk known q rest := by
  have hrest : UpdateOk known s.queues rest := fun other hother =>
    hok other (List.mem_cons_of_mem _ hother)
  apply hrest.mono (.refl known)
  intro other hother hin
  apply hpending other.key other.pipeline _ hin
  intro heq
  have hnot := (List.nodup_cons.mp hnodup).1
  exact hnot (heq ▸ List.mem_map_of_mem hother)

theorem cycleOk_update {e : EvaluatedKey H} {rest : List (EvaluatedKey H)}
    (hok : CycleOk known s.queues s.cycle) (hphase : s.cycle.phase = .updating (e :: rest)) :
    CycleOk known (s.update ctx e rest).queues (s.update ctx e rest).cycle := by
  simp only [CycleOk, hphase] at hok
  obtain ⟨hnodup, hupdate, hfetch⟩ := hok
  have hrest := (List.nodup_cons.mp hnodup).2
  unfold RepairState.update
  simp only
  split
  · split_ifs
    · exact ⟨hrest, hupdate.tail hnodup fun _ _ hne hin => hin.promotePendingToFetch hne _ _, hfetch⟩
    · exact ⟨hrest, hupdate.tail hnodup fun _ _ hne hin => hin.removePending hne, hfetch⟩
  · exact ⟨hrest, hupdate.tail hnodup fun _ _ hne hin => hin.removePending hne, hfetch⟩

theorem cycleOk_networkPhase (hnetwork : s.cycle.keysNeedingNetwork.Nodup) :
    CycleOk known s.queues { s.cycle with phase := s.cycle.networkPhase } := by
  unfold VerificationCycle.networkPhase
  split_ifs
  · trivial
  · exact hnetwork

theorem cycleOk_endLoop {phase : CyclePhase H} (hok : CycleOk known s.queues s.cycle)
    (hend : s.endLoop = some phase) :
    CycleOk known s.queues { s.cycle with phase := phase } := by
  unfold RepairState.endLoop at hend
  split at hend
  · rename_i hphase
    cases hend
    simp only [CycleOk, hphase] at hok
    obtain ⟨hlocal, hnetwork, hterminal, hcheck, hprobe⟩ := hok
    refine ⟨?_, hnetwork, hcheck, hprobe⟩
    rw [hterminal]
    simpa using hlocal
  · rename_i hphase
    cases hend
    simp only [CycleOk, hphase] at hok
    exact ⟨hok.1, hok.2.1, hok.2.2.2⟩
  · rename_i hphase
    split_ifs at hend
    cases hend
    simp only [CycleOk, hphase] at hok
    exact cycleOk_networkPhase hok.2.1
  · rename_i hphase
    cases hend
    simp only [CycleOk, hphase] at hok
    exact cycleOk_networkPhase hok.2.1
  · rename_i hphase
    cases hend
    simp only [CycleOk, hphase] at hok
    exact hok
  · cases hend
    trivial
  · cases hend

end Steps

end AntNode
