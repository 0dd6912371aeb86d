import AntNode.Lib.Tally
import AntNode.ReplicationQueues
import AntNode.Transcript

/-!
# The replication queues stay in step

One invariant ties the five collections together: a key is in one stage, the key set is that of the
heap, the counters tally the pending entries by sender, and every collection is within its bound.
Each operation keeps it, and so does every sequence of them in which a fetch is started only right
after its candidate was dequeued. What an operation may then do to a key follows from it.
-/

namespace AntNode

namespace ReplicationQueues

variable {H : Type} [Digest H]

def queuedKeys (q : ReplicationQueues H) : List H := q.fetchQueue.map FetchCandidate.key

/-- The key is in one of the three stages. -/
def Tracked (q : ReplicationQueues H) (key : H) : Prop :=
  key ∈ q.pendingVerify ∨ key ∈ q.queuedKeys ∨ key ∈ q.inFlightFetch

/-- The number of pending entries with the sender. -/
def pendingOf (q : ReplicationQueues H) (sender : H) : Nat :=
  Tally.count (fun entry => entry.2.hintSender) q.pendingVerify.entries sender

structure Inv (q : ReplicationQueues H) : Prop where
  pending_not_queued : ∀ key ∈ q.pendingVerify, key ∉ q.queuedKeys
  pending_not_inFlight : ∀ key ∈ q.pendingVerify, key ∉ q.inFlightFetch
  queued_not_inFlight : ∀ key ∈ q.queuedKeys, key ∉ q.inFlightFetch
  queueKeys : q.fetchQueueKeys = q.queuedKeys.toFinset
  queued_nodup : q.queuedKeys.Nodup
  senders : Tally.Tallies (fun entry => entry.2.hintSender) q.pendingVerify.entries
    q.pendingPerSender
  pending_le : q.pendingVerify.entries.length ≤ maxPendingVerify
  sender_le : ∀ sender, q.pendingOf sender ≤ maxPendingVerifyPerPeer
  queue_le : q.fetchQueue.length ≤ maxFetchQueue

variable {q : ReplicationQueues H} {key : H}

theorem inv_new : Inv (new : ReplicationQueues H) where
  pending_not_queued := fun _ hmem => absurd hmem (AList.notMem_empty _)
  pending_not_inFlight := fun _ hmem => absurd hmem (AList.notMem_empty _)
  queued_not_inFlight := fun _ hmem => absurd hmem List.not_mem_nil
  queueKeys := rfl
  queued_nodup := List.nodup_nil
  senders := Tally.tallies_nil
  pending_le := Nat.zero_le _
  sender_le := fun _ => Nat.zero_le _
  queue_le := Nat.zero_le _

theorem Inv.containsKey (hinv : Inv q) : q.containsKey key = true ↔ q.Tracked key := by
  simp only [ReplicationQueues.containsKey, Tracked, Bool.or_eq_true, decide_eq_true_eq,
    hinv.queueKeys, List.mem_toFinset, or_assoc]

theorem Inv.not_containsKey (hinv : Inv q) : ¬q.containsKey key = true ↔ key ∉ q.pendingVerify ∧
    key ∉ q.queuedKeys ∧ key ∉ q.inFlightFetch := by
  rw [hinv.containsKey, Tracked, not_or, not_or]

/-! ### Pending verification -/

/-- The counter the admission reads is the number of the sender's pending entries. -/
theorem Inv.senderCount (hinv : Inv q) (sender : H) :
    (q.pendingPerSender.lookup sender).getD 0 = q.pendingOf sender :=
  hinv.senders.getD sender

theorem Inv.addPendingVerify_eq (hinv : Inv q) (entry : VerificationEntry H)
    (huntracked : ¬q.Tracked key) :
    q.addPendingVerify key entry =
      if q.pendingVerify.entries.length < maxPendingVerify ∧
          q.pendingOf entry.hintSender < maxPendingVerifyPerPeer then
        (.admitted,
          { q with
            pendingVerify := q.pendingVerify.insert key entry
            pendingPerSender := Tally.bump q.pendingPerSender entry.hintSender })
      else (.capacityRejected, q) := by
  rw [addPendingVerify, if_neg (hinv.containsKey.not.mpr huntracked)]
  dsimp only
  rw [hinv.senderCount]
  by_cases hglobal : q.pendingVerify.entries.length < maxPendingVerify
  · rw [if_neg (Nat.not_le.mpr hglobal)]
    by_cases hsender : q.pendingOf entry.hintSender < maxPendingVerifyPerPeer
    · rw [if_neg (Nat.not_le.mpr hsender), if_pos ⟨hglobal, hsender⟩, Tally.bump,
        hinv.senderCount]
    · rw [if_pos (Nat.not_lt.mp hsender), if_neg fun hand => hsender hand.2]
  · rw [if_pos (Nat.not_lt.mp hglobal), if_neg fun hand => hglobal hand.1]

/-- The pending map changes, and the other stages stay. -/
theorem Inv.withPending (hinv : Inv q) {pending : AList fun _ : H => VerificationEntry H}
    {counts : AList fun _ : H => Nat}
    (hkeys : ∀ key ∈ pending, key ∉ q.queuedKeys ∧ key ∉ q.inFlightFetch)
    (hsenders : Tally.Tallies (fun entry => entry.2.hintSender) pending.entries counts)
    (hlength : pending.entries.length ≤ maxPendingVerify)
    (hcounts : ∀ sender, Tally.count (fun entry => entry.2.hintSender) pending.entries sender ≤
      maxPendingVerifyPerPeer) :
    Inv { q with pendingVerify := pending, pendingPerSender := counts } where
  pending_not_queued := fun key hmem => (hkeys key hmem).1
  pending_not_inFlight := fun key hmem => (hkeys key hmem).2
  queued_not_inFlight := hinv.queued_not_inFlight
  queueKeys := hinv.queueKeys
  queued_nodup := hinv.queued_nodup
  senders := hsenders
  pending_le := hlength
  sender_le := hcounts
  queue_le := hinv.queue_le

theorem Inv.addPendingVerify (hinv : Inv q) (key : H) (entry : VerificationEntry H) :
    Inv (q.addPendingVerify key entry).2 := by
  by_cases htracked : q.Tracked key
  · rw [ReplicationQueues.addPendingVerify, if_pos (hinv.containsKey.mpr htracked)]
    exact hinv
  · rw [hinv.addPendingVerify_eq entry htracked]
    split_ifs with hroom
    · obtain ⟨hpending, hqueued, hinFlight⟩ := hinv.not_containsKey.mp
        (hinv.containsKey.not.mpr htracked)
      have hentries : (q.pendingVerify.insert key entry).entries
          = ⟨key, entry⟩ :: q.pendingVerify.entries := AList.entries_insert_of_notMem hpending
      apply hinv.withPending
      · intro other hother
        rcases (AList.mem_insert _).mp hother with rfl | hold
        · exact ⟨hqueued, hinFlight⟩
        · exact ⟨hinv.pending_not_queued other hold, hinv.pending_not_inFlight other hold⟩
      · rw [hentries]
        exact hinv.senders.bump
      · rw [hentries]
        exact hroom.1
      · intro sender
        rw [hentries]
        apply Tally.count_cons_le (hinv.sender_le sender)
        rintro rfl
        exact hroom.2
    · exact hinv

theorem Inv.setPendingState (hinv : Inv q) (key : H) (state : VerificationState) :
    Inv (q.setPendingState key state).2 := by
  unfold ReplicationQueues.setPendingState
  split
  · exact hinv
  · rename_i entry hlookup
    have hperm := Tally.perm_cons_erase hlookup
    have hentries : (q.pendingVerify.insert key { entry with state := state }).entries
        = ⟨key, { entry with state := state }⟩ :: (q.pendingVerify.erase key).entries :=
      AList.entries_insert
    have hsenders : Tally.Tallies (fun entry => entry.2.hintSender)
        (q.pendingVerify.insert key { entry with state := state }).entries q.pendingPerSender := by
      rw [hentries]
      exact (hinv.senders.perm hperm).replace rfl
    apply hinv.withPending
    · intro other hother
      have hold : other ∈ q.pendingVerify := by
        rcases (AList.mem_insert _).mp hother with rfl | hold
        · exact AList.lookup_isSome.mp (by rw [hlookup]; rfl)
        · exact hold
      exact ⟨hinv.pending_not_queued other hold, hinv.pending_not_inFlight other hold⟩
    · exact hsenders
    · rw [hentries, List.length_cons, ← List.length_cons, ← hperm.length_eq]
      exact hinv.pending_le
    · intro sender
      rw [← hsenders.getD sender, hinv.senderCount]
      exact hinv.sender_le sender

theorem Inv.removePending (hinv : Inv q) (key : H) : Inv (q.removePending key).2 := by
  unfold ReplicationQueues.removePending
  split
  · exact hinv
  · rename_i entry hlookup
    have hperm := Tally.perm_cons_erase hlookup
    apply hinv.withPending
    · intro other hother
      have hold := (AList.mem_erase.mp hother).2
      exact ⟨hinv.pending_not_queued other hold, hinv.pending_not_inFlight other hold⟩
    · exact (hinv.senders.perm hperm).release
    · calc (q.pendingVerify.erase key).entries.length
          ≤ q.pendingVerify.entries.length := by rw [hperm.length_eq]; exact Nat.le_succ _
        _ ≤ maxPendingVerify := hinv.pending_le
    · intro sender
      refine le_trans ?_ (hinv.sender_le sender)
      rw [pendingOf, Tally.count, Tally.count, hperm.countP_eq]
      exact List.Sublist.countP_le (List.sublist_cons_self _ _)

/-! ### The fetch queue -/

/-- The fetch queue changes, and the other stages stay. -/
theorem Inv.withQueue (hinv : Inv q) {queue : List (FetchCandidate H)} {keys : Finset H}
    (hother : ∀ key ∈ queue.map FetchCandidate.key, key ∉ q.pendingVerify ∧ key ∉ q.inFlightFetch)
    (hkeys : keys = (queue.map FetchCandidate.key).toFinset)
    (hnodup : (queue.map FetchCandidate.key).Nodup) (hlength : queue.length ≤ maxFetchQueue) :
    Inv { q with fetchQueue := queue, fetchQueueKeys := keys } where
  pending_not_queued := fun key hmem hqueued => (hother key hqueued).1 hmem
  pending_not_inFlight := hinv.pending_not_inFlight
  queued_not_inFlight := fun key hqueued => (hother key hqueued).2
  queueKeys := hkeys
  queued_nodup := hnodup
  senders := hinv.senders
  pending_le := hinv.pending_le
  sender_le := hinv.sender_le
  queue_le := hlength

theorem Inv.enqueueFetch (hinv : Inv q) (key distance : H) (sources : List H) :
    Inv (q.enqueueFetch key distance sources).2 := by
  unfold ReplicationQueues.enqueueFetch
  split_ifs with hcontains hfull
  · exact hinv
  · exact hinv
  · obtain ⟨hpending, hqueued, hinFlight⟩ := hinv.not_containsKey.mp hcontains
    have hperm := List.perm_orderedInsert FetchCandidate.Before ⟨key, distance, sources⟩ q.fetchQueue
    have hkeys := hperm.map FetchCandidate.key
    rw [List.map_cons] at hkeys
    apply hinv.withQueue
    · intro other hother
      rcases List.mem_cons.mp (hkeys.mem_iff.mp hother) with rfl | hold
      · exact ⟨hpending, hinFlight⟩
      · exact ⟨fun hmem => hinv.pending_not_queued other hmem hold,
          hinv.queued_not_inFlight other hold⟩
    · rw [List.toFinset_eq_of_perm _ _ hkeys, List.toFinset_cons, hinv.queueKeys]
      rfl
    · rw [hkeys.nodup_iff, List.nodup_cons]
      exact ⟨hqueued, hinv.queued_nodup⟩
    · rw [hperm.length_eq, List.length_cons]
      exact Nat.not_le.mp hfull

theorem Inv.promotePendingToFetch (hinv : Inv q) (key distance : H) (sources : List H) :
    Inv (q.promotePendingToFetch key distance sources).2 := by
  unfold ReplicationQueues.promotePendingToFetch
  split_ifs with hfull
  · exact hinv
  · exact (hinv.removePending key).enqueueFetch key distance sources

/-- Nothing that is queued is in flight, so the first candidate is taken. -/
theorem Inv.dequeueFetch_eq (hinv : Inv q) :
    q.dequeueFetch = (q.fetchQueue.head?,
      { q with
        fetchQueue := q.fetchQueue.tail
        fetchQueueKeys := (q.fetchQueue.tail.map FetchCandidate.key).toFinset }) := by
  have hkeys := hinv.queueKeys
  rw [queuedKeys] at hkeys
  unfold ReplicationQueues.dequeueFetch
  cases hqueue : q.fetchQueue with
  | nil =>
      rw [hqueue] at hkeys
      simp only [popNotInFlight, hkeys, List.head?_nil, List.tail_nil]
  | cons candidate rest =>
      have hnodup := hinv.queued_nodup
      rw [queuedKeys, hqueue, List.map_cons, List.nodup_cons] at hnodup
      have hinFlight : candidate.key ∉ q.inFlightFetch := by
        apply hinv.queued_not_inFlight
        simp [queuedKeys, hqueue]
      rw [hqueue, List.map_cons, List.toFinset_cons] at hkeys
      simp only [popNotInFlight, if_neg hinFlight, hkeys, List.head?_cons, List.tail_cons]
      rw [Finset.erase_insert]
      rw [List.mem_toFinset]
      exact hnodup.1

theorem Inv.dequeueFetch (hinv : Inv q) : Inv q.dequeueFetch.2 := by
  have hsublist := (List.tail_sublist q.fetchQueue).map FetchCandidate.key
  rw [hinv.dequeueFetch_eq]
  apply hinv.withQueue
  · intro key hmem
    have hold : key ∈ q.queuedKeys := hsublist.subset hmem
    exact ⟨fun hpending => hinv.pending_not_queued key hpending hold,
      hinv.queued_not_inFlight key hold⟩
  · rfl
  · exact hinv.queued_nodup.sublist hsublist
  · exact (List.tail_sublist q.fetchQueue).length_le.trans hinv.queue_le

/-- A dequeued candidate is in no stage. -/
theorem Inv.untracked_of_dequeueFetch (hinv : Inv q) {candidate : FetchCandidate H}
    (hdequeued : q.dequeueFetch.1 = some candidate) : ¬q.dequeueFetch.2.Tracked candidate.key := by
  rw [hinv.dequeueFetch_eq] at hdequeued ⊢
  obtain ⟨rest, hqueue⟩ := List.head?_eq_some_iff.mp hdequeued
  have hnodup := hinv.queued_nodup
  rw [queuedKeys, hqueue, List.map_cons, List.nodup_cons] at hnodup
  have hmem : candidate.key ∈ q.queuedKeys := by simp [queuedKeys, hqueue]
  rintro (hpending | hqueued | hinFlight)
  · exact hinv.pending_not_queued _ hpending hmem
  · have hrest : candidate.key ∈ rest.map FetchCandidate.key := by
      simpa [queuedKeys, hqueue] using hqueued
    exact hnodup.1 hrest
  · exact hinv.queued_not_inFlight _ hmem hinFlight

/-! ### Fetches in flight -/

/-- The fetches in flight change, and the other stages stay. -/
theorem Inv.withInFlight (hinv : Inv q) {inFlight : AList fun _ : H => InFlightEntry H}
    (hother : ∀ key ∈ inFlight, key ∉ q.pendingVerify ∧ key ∉ q.queuedKeys) :
    Inv { q with inFlightFetch := inFlight } where
  pending_not_queued := hinv.pending_not_queued
  pending_not_inFlight := fun key hmem hinFlight => (hother key hinFlight).1 hmem
  queued_not_inFlight := fun key hmem hinFlight => (hother key hinFlight).2 hmem
  queueKeys := hinv.queueKeys
  queued_nodup := hinv.queued_nodup
  senders := hinv.senders
  pending_le := hinv.pending_le
  sender_le := hinv.sender_le
  queue_le := hinv.queue_le

theorem Inv.inFlight_only (hinv : Inv q) (hmem : key ∈ q.inFlightFetch) :
    key ∉ q.pendingVerify ∧ key ∉ q.queuedKeys :=
  ⟨fun hpending => hinv.pending_not_inFlight key hpending hmem,
    fun hqueued => hinv.queued_not_inFlight key hqueued hmem⟩

theorem Inv.startFetch (hinv : Inv q) (huntracked : ¬q.Tracked key) (source : H)
    (allSources : List H) (now : Nat) : Inv (q.startFetch key source allSources now) := by
  apply hinv.withInFlight
  intro other hother
  rcases (AList.mem_insert _).mp hother with rfl | hold
  · exact ⟨fun hpending => huntracked (.inl hpending),
      fun hqueued => huntracked (.inr (.inl hqueued))⟩
  · exact hinv.inFlight_only hold

theorem Inv.completeFetch (hinv : Inv q) (key : H) : Inv (q.completeFetch key).2 := by
  apply hinv.withInFlight
  intro other hother
  exact hinv.inFlight_only (AList.mem_erase.mp hother).2

/-- A retry changes the entry of its key only. -/
theorem retryFetch_cases (q : ReplicationQueues H) (key : H) :
    (q.retryFetch key).2 = q ∨ ∃ entry, key ∈ q.inFlightFetch ∧
      (q.retryFetch key).2 = { q with inFlightFetch := q.inFlightFetch.insert key entry } := by
  unfold retryFetch
  split
  · exact .inl rfl
  · rename_i entry hlookup
    have hmem : key ∈ q.inFlightFetch := AList.lookup_isSome.mp (by rw [hlookup]; rfl)
    dsimp only
    split
    · exact .inr ⟨_, hmem, rfl⟩
    · exact .inr ⟨_, hmem, rfl⟩

theorem Inv.retryFetch (hinv : Inv q) (key : H) : Inv (q.retryFetch key).2 := by
  rcases retryFetch_cases q key with hsame | ⟨entry, hmem, hretried⟩
  · rw [hsame]
    exact hinv
  · rw [hretried]
    apply hinv.withInFlight
    intro other hother
    rcases (AList.mem_insert _).mp hother with rfl | hold
    · exact hinv.inFlight_only hmem
    · exact hinv.inFlight_only hold

/-! ### Eviction -/

/-- Releasing the stale entries of a list leaves the tally of the fresh ones. -/
theorem tallies_releaseStale {now maxAge : Nat}
    {entries kept : List (Sigma fun _ : H => VerificationEntry H)} {counts : AList fun _ : H => Nat}
    (htallies : Tally.Tallies (fun entry => entry.2.hintSender) (entries ++ kept) counts) :
    Tally.Tallies (fun entry => entry.2.hintSender)
      (entries.filter (fun entry => isFresh now maxAge entry.2) ++ kept)
      (releaseStale now maxAge entries counts) := by
  induction entries generalizing kept counts with
  | nil => exact htallies
  | cons entry rest ih =>
      rw [releaseStale]
      by_cases hfresh : isFresh now maxAge entry.2 = true
      · rw [if_pos hfresh, List.filter_cons_of_pos (by simpa using hfresh)]
        have hmoved : Tally.Tallies (fun entry => entry.2.hintSender) (rest ++ entry :: kept)
            counts := htallies.perm List.perm_middle.symm
        exact (ih hmoved).perm List.perm_middle
      · rw [if_neg hfresh, List.filter_cons_of_neg (by simpa using hfresh)]
        exact ih htallies.release

theorem Inv.evictStale (hinv : Inv q) (maxAge now : Nat) : Inv (q.evictStale maxAge now) := by
  have hsublist : (q.pendingVerify.entries.filter fun entry => isFresh now maxAge entry.2).Sublist
      q.pendingVerify.entries := List.filter_sublist
  apply hinv.withPending
  · intro key hmem
    have hold : key ∈ q.pendingVerify := (hsublist.map _).subset hmem
    exact ⟨hinv.pending_not_queued key hold, hinv.pending_not_inFlight key hold⟩
  · have hall : Tally.Tallies (fun entry => entry.2.hintSender) (q.pendingVerify.entries ++ [])
        q.pendingPerSender := by simpa using hinv.senders
    simpa using tallies_releaseStale hall
  · exact hsublist.length_le.trans hinv.pending_le
  · intro sender
    exact (hsublist.countP_le).trans (hinv.sender_le sender)

/-! ### Keys stay tracked -/

theorem Inv.tracked_enqueueFetch (hinv : Inv q) {key other distance : H} {sources : List H}
    (hroom : q.fetchQueue.length < maxFetchQueue) (htracked : q.Tracked other ∨ other = key) :
    (q.enqueueFetch key distance sources).2.Tracked other := by
  unfold ReplicationQueues.enqueueFetch
  split_ifs with hcontains hfull
  · rcases htracked with htracked | rfl
    · exact htracked
    · exact hinv.containsKey.mp hcontains
  · exact absurd hroom (Nat.not_lt.mpr hfull)
  · have hkeys := (List.perm_orderedInsert FetchCandidate.Before ⟨key, distance, sources⟩
      q.fetchQueue).map FetchCandidate.key
    rcases htracked with (hpending | hqueued | hinFlight) | rfl
    · exact .inl hpending
    · exact .inr (.inl (hkeys.mem_iff.mpr (List.mem_cons_of_mem _ hqueued)))
    · exact .inr (.inr hinFlight)
    · exact .inr (.inl (hkeys.mem_iff.mpr List.mem_cons_self))

theorem Inv.tracked_promotePendingToFetch (hinv : Inv q) {key other distance : H}
    {sources : List H} (htracked : q.Tracked other) :
    (q.promotePendingToFetch key distance sources).2.Tracked other := by
  have hremoved : (q.removePending key).2.Tracked other ∨ other = key := by
    unfold ReplicationQueues.removePending
    split
    · exact .inl htracked
    · rcases htracked with hpending | hrest
      · by_cases heq : other = key
        · exact .inr heq
        · exact .inl (.inl (AList.mem_erase.mpr ⟨heq, hpending⟩))
      · exact .inl (.inr hrest)
  have hqueue : (q.removePending key).2.fetchQueue = q.fetchQueue := by
    unfold ReplicationQueues.removePending
    split <;> rfl
  unfold ReplicationQueues.promotePendingToFetch
  split_ifs with hfull
  · exact htracked
  · apply (hinv.removePending key).tracked_enqueueFetch _ hremoved
    rw [hqueue]
    exact Nat.not_le.mp hfull

theorem tracked_setPendingState {key other : H} {state : VerificationState}
    (htracked : q.Tracked other) : (q.setPendingState key state).2.Tracked other := by
  unfold setPendingState
  split
  · exact htracked
  · rcases htracked with hpending | hrest
    · exact .inl ((AList.mem_insert _).mpr (.inr hpending))
    · exact .inr hrest

theorem tracked_retryFetch {key other : H} (htracked : q.Tracked other) :
    (q.retryFetch key).2.Tracked other := by
  rcases retryFetch_cases q key with hsame | ⟨entry, -, hretried⟩
  · rw [hsame]
    exact htracked
  · rw [hretried]
    rcases htracked with hpending | hqueued | hinFlight
    · exact .inl hpending
    · exact .inr (.inl hqueued)
    · exact .inr (.inr ((AList.mem_insert _).mpr (.inr hinFlight)))

end ReplicationQueues

/-! ### Every sequence of operations -/

namespace QueueState

open ReplicationQueues

variable {H : Type} [Digest H]

structure Inv (s : QueueState H) : Prop where
  queues : s.queues.Inv
  dequeued : ∀ candidate, s.dequeued = some candidate → ¬s.queues.Tracked candidate.key

theorem Inv.ofQueues {q : ReplicationQueues H} (hinv : q.Inv) : Inv ⟨q, none⟩ :=
  ⟨hinv, (fun _ hdequeued => nomatch hdequeued)⟩

theorem Inv.step {s s' : QueueState H} {op : QueueOp H} (hinv : Inv s)
    (hstep : step s op = some s') : Inv s' := by
  cases op with
  | addPendingVerify key entry =>
      obtain rfl := Option.some.inj hstep
      exact .ofQueues (hinv.queues.addPendingVerify key entry)
  | setPendingState key state =>
      obtain rfl := Option.some.inj hstep
      exact .ofQueues (hinv.queues.setPendingState key state)
  | removePending key =>
      obtain rfl := Option.some.inj hstep
      exact .ofQueues (hinv.queues.removePending key)
  | enqueueFetch key distance sources =>
      obtain rfl := Option.some.inj hstep
      exact .ofQueues (hinv.queues.enqueueFetch key distance sources)
  | promotePendingToFetch key distance sources =>
      obtain rfl := Option.some.inj hstep
      exact .ofQueues (hinv.queues.promotePendingToFetch key distance sources)
  | dequeueFetch =>
      obtain rfl := Option.some.inj hstep
      exact ⟨hinv.queues.dequeueFetch, fun candidate => hinv.queues.untracked_of_dequeueFetch⟩
  | startFetch key source allSources now =>
      simp only [QueueState.step] at hstep
      split at hstep
      · rename_i candidate hdequeued
        split_ifs at hstep with hkey
        obtain rfl := Option.some.inj hstep
        subst hkey
        exact .ofQueues (hinv.queues.startFetch (hinv.dequeued candidate hdequeued) source
          allSources now)
      · cases hstep
  | retryFetch key =>
      obtain rfl := Option.some.inj hstep
      exact .ofQueues (hinv.queues.retryFetch key)
  | completeFetch key =>
      obtain rfl := Option.some.inj hstep
      exact .ofQueues (hinv.queues.completeFetch key)
  | evictStale maxAge now =>
      obtain rfl := Option.some.inj hstep
      exact .ofQueues (hinv.queues.evictStale maxAge now)

/-- What every reachable state of the queues promises. -/
structure Sound (q : ReplicationQueues H) : Prop where
  inv : q.Inv
  admitted_iff : ∀ key entry, ¬q.Tracked key →
    ((q.addPendingVerify key entry).1 = .admitted ↔
      q.pendingVerify.entries.length < maxPendingVerify ∧
        q.pendingOf entry.hintSender < maxPendingVerifyPerPeer)
  promote_tracked : ∀ key distance sources other, q.Tracked other →
    (q.promotePendingToFetch key distance sources).2.Tracked other
  setState_tracked : ∀ key state other, q.Tracked other →
    (q.setPendingState key state).2.Tracked other
  retry_tracked : ∀ key other, q.Tracked other → (q.retryFetch key).2.Tracked other

/-- **The queues stay in step.** After every sequence of operations, in which a fetch is started
only right after its candidate was dequeued, the invariant holds, an untracked key is admitted
exactly when both counts are below their caps, and no promotion, state change or retry loses a
key. -/
theorem sound_of_run {ops : List (QueueOp H)} {s : QueueState H}
    (hrun : Runs.run QueueState.step init ops = some s) : Sound s.queues := by
  have hinv : Inv s :=
    Runs.stable_of_run Inv (fun _ _ _ hinv hstep => hinv.step hstep) (.ofQueues inv_new) hrun
  refine ⟨hinv.queues, ?_, ?_, ?_, ?_⟩
  · intro key entry huntracked
    rw [hinv.queues.addPendingVerify_eq entry huntracked]
    split_ifs with hroom
    · exact iff_of_true rfl hroom
    · exact iff_of_false id hroom
  · intro key distance sources other htracked
    exact hinv.queues.tracked_promotePendingToFetch htracked
  · intro key state other htracked
    exact tracked_setPendingState htracked
  · intro key other htracked
    exact tracked_retryFetch htracked

def hintedEntry : VerificationEntry Transcript :=
  ⟨.pendingVerify, .replica, [], ∅, 0, ⟨[7]⟩⟩

theorem sound_of_run_fetch :
    ∃ s, Runs.run QueueState.step init
        [.addPendingVerify ⟨[1]⟩ hintedEntry, .addPendingVerify ⟨[2]⟩ hintedEntry,
          .promotePendingToFetch ⟨[1]⟩ ⟨[3]⟩ [⟨[7]⟩, ⟨[8]⟩], .dequeueFetch,
          .startFetch ⟨[1]⟩ ⟨[7]⟩ [⟨[7]⟩, ⟨[8]⟩] 0, .retryFetch ⟨[1]⟩] = some s ∧
      s.queues.containsKey ⟨[1]⟩ = true ∧ Sound s.queues := by
  have hrun : (Runs.run QueueState.step init
      [.addPendingVerify ⟨[1]⟩ hintedEntry, .addPendingVerify ⟨[2]⟩ hintedEntry,
        .promotePendingToFetch ⟨[1]⟩ ⟨[3]⟩ [⟨[7]⟩, ⟨[8]⟩], .dequeueFetch,
        .startFetch ⟨[1]⟩ ⟨[7]⟩ [⟨[7]⟩, ⟨[8]⟩] 0, .retryFetch ⟨[1]⟩]).map
      (fun s => s.queues.containsKey ⟨[1]⟩) = some true := by
    decide +kernel
  obtain ⟨s, hrun, hcontains⟩ := Option.map_eq_some_iff.mp hrun
  exact ⟨s, hrun, hcontains, sound_of_run hrun⟩

end QueueState

end AntNode
