import AntNode.AuditResponder

/-!
# Admission keeps its books

The count of a peer is a tally of the slots its tasks have claimed: admissions between their two
steps, live guards and deferred decrements. Every step either moves a slot from one of these to
another, or claims or frees one together with its count.
-/

namespace AntNode.AuditResponders

variable {H : Type} [DecidableEq H] {s s' : AuditResponders H}

/-- The lock holder is one of the tasks that are waiting for it. -/
structure HolderWaits (s : AuditResponders H) : Prop where
  givesBack : ∀ source, s.lock = some (.giveBack source) → source ∈ s.givingBack
  decrements : ∀ peer, s.lock = some (.decrement peer) → peer ∈ s.deferred

theorem HolderWaits.of_unlocked (hlock : s.lock = none) : s.HolderWaits where
  givesBack source hheld := by
    rw [hlock] at hheld
    cases hheld
  decrements peer hheld := by
    rw [hlock] at hheld
    cases hheld

theorem HolderWaits.mono (hholder : s.HolderWaits) (hlock : s'.lock = s.lock)
    (hgivingBack : s.givingBack ⊆ s'.givingBack) (hdeferred : s.deferred ⊆ s'.deferred) :
    s'.HolderWaits where
  givesBack source hheld := hgivingBack (hholder.givesBack source (hlock ▸ hheld))
  decrements peer hheld := hdeferred (hholder.decrements peer (hlock ▸ hheld))

structure Balanced (s : AuditResponders H) : Prop where
  tally : Tally.Tallies id s.slots s.inflight
  cap : ∀ peer, Tally.count id s.slots peer ≤ maxAuditResponsesPerPeer
  permits : s.available + s.guards.length + s.releasing = maxConcurrentAuditResponses
  holder : s.HolderWaits

theorem balanced_new : Balanced (new : AuditResponders H) where
  tally := Tally.tallies_nil
  cap _ := Nat.zero_le _
  permits := rfl
  holder := .of_unlocked rfl

/-- A step that only moves slots. -/
theorem Balanced.move (hbalanced : Balanced s) (hslots : s.slots.Perm s'.slots)
    (hinflight : s'.inflight = s.inflight)
    (hpermits : s'.available + s'.guards.length + s'.releasing = maxConcurrentAuditResponses)
    (hholder : s'.HolderWaits) : Balanced s' where
  tally := by
    rw [hinflight]
    exact hbalanced.tally.perm hslots
  cap peer := by
    rw [Tally.count, ← hslots.countP_eq]
    exact hbalanced.cap peer
  permits := hpermits
  holder := hholder

/-- A step that frees a slot and decrements its count. -/
theorem Balanced.free (hbalanced : Balanced s) (peer : H) (hslots : s.slots.Perm (peer :: s'.slots))
    (hinflight : s'.inflight = Tally.release s.inflight peer)
    (hpermits : s'.available + s'.guards.length + s'.releasing = maxConcurrentAuditResponses)
    (hholder : s'.HolderWaits) : Balanced s' where
  tally := by
    rw [hinflight]
    exact (hbalanced.tally.perm hslots).release
  cap other := by
    have := hbalanced.cap other
    rw [Tally.count, hslots.countP_eq, List.countP_cons] at this
    exact le_trans (Nat.le_add_right _ _) this
  permits := hpermits
  holder := hholder

theorem Balanced.claimSlot {source : H} (hbalanced : Balanced s) :
    Balanced (s.claimSlot source) := by
  have hentry : (s.inflight.lookup source).getD 0 = Tally.count id s.slots source :=
    hbalanced.tally.getD source
  unfold AuditResponders.claimSlot
  simp only [hentry]
  split_ifs with hfull
  · refine ⟨fun peer => ?_, hbalanced.cap, hbalanced.permits, .of_unlocked rfl⟩
    have hsome : Tally.count id s.slots source ≠ 0 := (lt_of_lt_of_le (by decide) hfull).ne'
    by_cases hpeer : peer = source
    · subst hpeer
      calc (s.inflight.insert peer (Tally.count id s.slots peer)).lookup peer
          = some (Tally.count id s.slots peer) := AList.lookup_insert _
        _ = Tally.ofCount (Tally.count id s.slots peer) := (if_neg hsome).symm
    · rw [AList.lookup_insert_ne hpeer]
      exact hbalanced.tally peer
  · have htally := hbalanced.tally.bump (x := source)
    rw [Tally.bump] at htally
    refine ⟨?_, fun peer => ?_, hbalanced.permits, .of_unlocked rfl⟩
    · rw [← hentry]
      exact htally
    · exact Tally.count_cons_le (hbalanced.cap peer) fun heq => by
        obtain rfl : source = peer := heq
        exact Nat.lt_of_not_le hfull

theorem count_erase_add {l : List H} {peer : H} (hmem : peer ∈ l) (other : H) :
    (l.erase peer).count other + (if peer = other then 1 else 0) = l.count other := by
  rw [(List.perm_cons_erase hmem).count_eq, List.count_cons]
  simp

theorem Balanced.runSection {held : InflightSection H} (hbalanced : Balanced s)
    (hlock : s.lock = some held) : Balanced (s.runSection held) := by
  cases held with
  | claim source => exact hbalanced.claimSlot
  | giveBack source =>
      refine hbalanced.free source (List.perm_iff_count.mpr fun other => ?_) rfl
        hbalanced.permits (.of_unlocked rfl)
      have := count_erase_add (hbalanced.holder.givesBack source hlock) other
      simp only [AuditResponders.runSection, slots, List.count_append, List.count_cons, beq_iff_eq]
      omega
  | decrement peer =>
      refine hbalanced.free peer (List.perm_iff_count.mpr fun other => ?_) rfl
        hbalanced.permits (.of_unlocked rfl)
      have := count_erase_add (hbalanced.holder.decrements peer hlock) other
      simp only [AuditResponders.runSection, slots, List.count_append, List.count_cons, beq_iff_eq]
      omega

theorem Balanced.tryAcquireOwned {source : H} (hbalanced : Balanced s)
    (hclaimed : source ∈ s.claimed) : Balanced (s.tryAcquireOwned source) := by
  have hpermits := hbalanced.permits
  unfold AuditResponders.tryAcquireOwned
  split_ifs with havailable
  · refine hbalanced.move (List.perm_iff_count.mpr fun other => ?_) rfl ?_
      (hbalanced.holder.mono rfl (List.Subset.refl _) (List.Subset.refl _))
    · have := count_erase_add hclaimed other
      simp only [slots, List.count_append, List.count_cons, beq_iff_eq]
      omega
    · simp only [List.length_cons]
      omega
  · refine hbalanced.move (List.perm_iff_count.mpr fun other => ?_) rfl hpermits
      (hbalanced.holder.mono rfl (List.subset_cons_self _ _) (List.Subset.refl _))
    have := count_erase_add hclaimed other
    simp only [slots, List.count_append, List.count_cons, beq_iff_eq]
    omega

theorem Balanced.dropBody {peer : H} {tryWrite : Bool} (hbalanced : Balanced s)
    (hguard : peer ∈ s.guards) : Balanced (s.dropBody peer tryWrite) := by
  have hpermits := hbalanced.permits
  have hlength := List.length_erase_add_one hguard
  unfold AuditResponders.dropBody
  split_ifs
  · refine hbalanced.free peer (List.perm_iff_count.mpr fun other => ?_) rfl ?_
      (hbalanced.holder.mono rfl (List.Subset.refl _) (List.Subset.refl _))
    · have := count_erase_add hguard other
      simp only [slots, List.count_append, List.count_cons, beq_iff_eq]
      omega
    · dsimp only
      omega
  · refine hbalanced.move (List.perm_iff_count.mpr fun other => ?_) rfl ?_
      (hbalanced.holder.mono rfl (List.Subset.refl _) (List.subset_cons_self _ _))
    · have := count_erase_add hguard other
      simp only [slots, List.count_append, List.count_cons, beq_iff_eq]
      omega
    · dsimp only
      omega

theorem Balanced.step {e : AdmissionEvent H} (hbalanced : Balanced s) (hstep : s.step e = some s') :
    Balanced s' := by
  cases e with
  | lockClaim source =>
      obtain ⟨-, ⟨⟩⟩ := Option.ite_none_right_eq_some.mp hstep
      exact ⟨hbalanced.tally, hbalanced.cap, hbalanced.permits, ⟨by simp, by simp⟩⟩
  | lockGiveBack source =>
      obtain ⟨⟨-, hmem⟩, ⟨⟩⟩ := Option.ite_none_right_eq_some.mp hstep
      exact ⟨hbalanced.tally, hbalanced.cap, hbalanced.permits, ⟨by simpa using hmem, by simp⟩⟩
  | lockDecrement peer =>
      obtain ⟨⟨-, hmem⟩, ⟨⟩⟩ := Option.ite_none_right_eq_some.mp hstep
      exact ⟨hbalanced.tally, hbalanced.cap, hbalanced.permits, ⟨by simp, by simpa using hmem⟩⟩
  | runSection =>
      obtain ⟨held, hlock, rfl⟩ := Option.map_eq_some_iff.mp hstep
      exact hbalanced.runSection hlock
  | tryAcquire source =>
      obtain ⟨hclaimed, ⟨⟩⟩ := Option.ite_none_right_eq_some.mp hstep
      exact hbalanced.tryAcquireOwned hclaimed
  | dropGuard peer tryWrite =>
      obtain ⟨⟨hguard, -⟩, ⟨⟩⟩ := Option.ite_none_right_eq_some.mp hstep
      exact hbalanced.dropBody hguard
  | dropPermit =>
      obtain ⟨hreleasing, ⟨⟩⟩ := Option.ite_none_right_eq_some.mp hstep
      have hpermits := hbalanced.permits
      refine ⟨hbalanced.tally, hbalanced.cap, ?_, hbalanced.holder.mono rfl (List.Subset.refl _)
        (List.Subset.refl _)⟩
      dsimp only
      omega

theorem Balanced.mem_slots_of_decremented {e : AdmissionEvent H} {peer : H}
    (hbalanced : Balanced s) (hstep : s.step e = some s') (hdec : s.decremented e = some peer) :
    peer ∈ s.slots := by
  cases e with
  | runSection =>
      obtain ⟨held, hlock, -⟩ := Option.map_eq_some_iff.mp hstep
      rw [decremented, hlock] at hdec
      cases held with
      | claim source => cases hdec
      | giveBack source =>
          cases hdec
          simp [slots, hbalanced.holder.givesBack peer hlock]
      | decrement peer' =>
          cases hdec
          simp [slots, hbalanced.holder.decrements peer hlock]
  | dropGuard peer' tryWrite =>
      obtain ⟨⟨hguard, -⟩, -⟩ := Option.ite_none_right_eq_some.mp hstep
      cases tryWrite with
      | false => cases hdec
      | true =>
          cases hdec
          simp [slots, hguard]
  | lockClaim source => cases hdec
  | lockGiveBack source => cases hdec
  | lockDecrement peer => cases hdec
  | tryAcquire source => cases hdec
  | dropPermit => cases hdec

theorem count_slots (s : AuditResponders H) (peer : H) :
    Tally.count id s.slots peer = s.guards.count peer + (s.claimed.count peer +
      s.givingBack.count peer) + s.deferred.count peer := by
  have hcount : Tally.count id s.slots peer = s.slots.count peer := by
    rw [Tally.count, List.count]
    congr 1
  rw [hcount, slots, List.count_append, List.count_append, List.count_append]
  omega

/-- Admission neither leaks nor overruns slots, whatever the schedule: the count of a peer is its
guards, its admissions between their two steps and its deferred decrements. -/
theorem admission_balanced {events : List (AdmissionEvent H)}
    (hrun : Runs.run step new events = some s) :
    (∀ peer, (s.inflight.lookup peer).getD 0 = s.guards.count peer +
        (s.claimed.count peer + s.givingBack.count peer) + s.deferred.count peer) ∧
    (∀ peer, (s.inflight.lookup peer).getD 0 ≤ maxAuditResponsesPerPeer) ∧
    s.guards.length ≤ maxConcurrentAuditResponses ∧
    (∀ e s' peer, s.step e = some s' → s.decremented e = some peer →
      ∃ n, s.inflight.lookup peer = some (n + 1)) ∧
    (s.guards = [] → s.claimed = [] → s.givingBack = [] → s.deferred = [] → s.inflight = ∅) := by
  have hbalanced : Balanced s := Runs.stable_of_run Balanced
    (fun _ _ _ hinv hstep => hinv.step hstep) balanced_new hrun
  refine ⟨fun peer => ?_, fun peer => ?_, ?_, fun e s' peer hstep hdec => ?_, ?_⟩
  · rw [hbalanced.tally.getD, count_slots]
  · rw [hbalanced.tally.getD]
    exact hbalanced.cap peer
  · have := hbalanced.permits
    omega
  · have hmem := hbalanced.mem_slots_of_decremented hstep hdec
    have hcount : Tally.count id s.slots peer ≠ 0 := by
      rw [Tally.count, ne_eq, List.countP_eq_zero]
      push Not
      exact ⟨peer, hmem, by simp⟩
    obtain ⟨n, hn⟩ := Nat.exists_eq_succ_of_ne_zero hcount
    exact ⟨n, by rw [hbalanced.tally peer, Tally.ofCount, if_neg hcount, hn]⟩
  · intro hguards hclaimed hgivingBack hdeferred
    have hslots : s.slots = [] := by simp [slots, hguards, hclaimed, hgivingBack, hdeferred]
    have htally := hbalanced.tally
    rw [hslots] at htally
    exact htally.eq_empty

/-- Two guards of one peer, a third challenge refused, one drop under a held lock and one inline. -/
def floodedSchedule : List (AdmissionEvent Nat) :=
  [.lockClaim 7, .runSection, .tryAcquire 7, .lockClaim 7, .runSection, .tryAcquire 7,
    .lockClaim 7, .dropGuard 7 false, .runSection, .lockDecrement 7, .runSection, .dropPermit,
    .dropGuard 7 true, .dropPermit]

theorem admission_balanced_floodedSchedule :
    ∃ s : AuditResponders Nat, Runs.run step new floodedSchedule = some s ∧ s.inflight = ∅ := by
  have hquiet : (Runs.run step new floodedSchedule).map
      (fun s => (s.guards, s.claimed, s.givingBack, s.deferred)) = some ([], [], [], []) := by
    decide +kernel
  obtain ⟨s, hrun, hlists⟩ := Option.map_eq_some_iff.mp hquiet
  simp only [Prod.mk.injEq] at hlists
  obtain ⟨hguards, hclaimed, hgivingBack, hdeferred⟩ := hlists
  exact ⟨s, hrun,
    (admission_balanced hrun).2.2.2.2 hguards hclaimed hgivingBack hdeferred⟩

end AntNode.AuditResponders
