import AntNode.Lib.Visiting
import AntNode.Proof.QueueInvariant

/-!
# The sources of a fetch

The sources a fetch may still go to are a function of its list and of the set of tried ones: a retry
takes the first of them and leaves the others as they are, whatever the list repeats. The entry of
a fetch in flight is changed by nothing else, so the order holds across the operations of the other
tasks too.
-/

namespace AntNode

open Visiting

variable {H : Type} [Digest H]

namespace ReplicationQueues

variable {q : ReplicationQueues H} {key : H} {sources rest : List H}

/-- The fetch of the key is in flight, and `rest` are the sources it can still go to. -/
def Retrying (q : ReplicationQueues H) (key : H) (sources rest : List H) : Prop :=
  ∃ entry, q.inFlightFetch.lookup key = some entry ∧ entry.allSources = sources ∧
    entry.source ∈ entry.tried ∧ unvisited entry.tried sources = rest

theorem retrying_startFetch (q : ReplicationQueues H) (key first : H) (sources : List H)
    (now : Nat) :
    (q.startFetch key first sources now).Retrying key sources (unvisited {first} sources) :=
  ⟨_, AList.lookup_insert _, rfl, Finset.mem_singleton_self first, rfl⟩

theorem Retrying.mem_inFlight (hretrying : q.Retrying key sources rest) :
    key ∈ q.inFlightFetch := by
  obtain ⟨entry, hlookup, -⟩ := hretrying
  exact AList.lookup_isSome.mp (by rw [hlookup]; rfl)

/-- A retry goes to the first of the sources left and leaves the others. -/
theorem Retrying.retryFetch (hretrying : q.Retrying key sources rest) :
    (q.retryFetch key).1 = rest.head? ∧ (q.retryFetch key).2.Retrying key sources rest.tail := by
  obtain ⟨entry, hlookup, rfl, hsource, rfl⟩ := hretrying
  have hfind := find?_unvisited entry.tried entry.allSources
  unfold ReplicationQueues.retryFetch
  simp only [hlookup, Finset.insert_eq_of_mem hsource]
  cases hnext : (unvisited entry.tried entry.allSources).head? with
  | none =>
      rw [hnext] at hfind
      rw [hfind]
      refine ⟨rfl, _, AList.lookup_insert _, rfl, hsource, ?_⟩
      rw [List.head?_eq_none_iff.mp hnext, List.tail_nil]
  | some next =>
      rw [hnext] at hfind
      rw [hfind]
      exact ⟨rfl, _, AList.lookup_insert _, rfl, Finset.mem_insert_self _ _, unvisited_insert hnext⟩

/-- The queues after the given number of failed attempts in a row. -/
def retriedTimes (key : H) (n : Nat) (q : ReplicationQueues H) : ReplicationQueues H :=
  (fun q => (q.retryFetch key).2)^[n] q

theorem Retrying.retriedTimes (hretrying : q.Retrying key sources rest) (n : Nat) :
    (q.retriedTimes key n).Retrying key sources (rest.drop n) := by
  induction n with
  | zero => exact hretrying
  | succ n ih =>
      unfold ReplicationQueues.retriedTimes at ih ⊢
      rw [Function.iterate_succ_apply', ← List.tail_drop]
      exact ih.retryFetch.2

theorem retriedTimes_frame (q : ReplicationQueues H) (key : H) (n : Nat) :
    (q.retriedTimes key n).pendingVerify = q.pendingVerify ∧
      (q.retriedTimes key n).fetchQueueKeys = q.fetchQueueKeys := by
  induction n with
  | zero => exact ⟨rfl, rfl⟩
  | succ n ih =>
      unfold retriedTimes at ih ⊢
      rw [Function.iterate_succ_apply']
      rcases retryFetch_cases ((fun q => (q.retryFetch key).2)^[n] q) key with
        hsame | ⟨entry, -, hretried⟩
      · rw [hsame]
        exact ih
      · rw [hretried]
        exact ih

theorem containsKey_completeFetch {q' : ReplicationQueues H}
    (hpending : key ∉ q'.pendingVerify) (hqueued : key ∉ q'.fetchQueueKeys) :
    (q'.completeFetch key).2.containsKey key = false := by
  have herased : key ∉ q'.inFlightFetch.erase key := fun hmem => (AList.mem_erase.mp hmem).1 rfl
  simp [containsKey, completeFetch, hpending, hqueued, herased]

/-! ### What leaves the fetches in flight alone -/

@[simp]
theorem inFlightFetch_addPendingVerify (q : ReplicationQueues H) (key : H)
    (entry : VerificationEntry H) :
    (q.addPendingVerify key entry).2.inFlightFetch = q.inFlightFetch := by
  unfold addPendingVerify
  dsimp only
  split_ifs <;> rfl

@[simp]
theorem inFlightFetch_setPendingState (q : ReplicationQueues H) (key : H)
    (state : VerificationState) :
    (q.setPendingState key state).2.inFlightFetch = q.inFlightFetch := by
  unfold setPendingState
  cases q.pendingVerify.lookup key <;> rfl

@[simp]
theorem inFlightFetch_removePending (q : ReplicationQueues H) (key : H) :
    (q.removePending key).2.inFlightFetch = q.inFlightFetch := by
  unfold removePending
  cases q.pendingVerify.lookup key <;> rfl

@[simp]
theorem inFlightFetch_enqueueFetch (q : ReplicationQueues H) (key distance : H)
    (sources : List H) :
    (q.enqueueFetch key distance sources).2.inFlightFetch = q.inFlightFetch := by
  unfold enqueueFetch
  split_ifs <;> rfl

@[simp]
theorem inFlightFetch_promotePendingToFetch (q : ReplicationQueues H) (key distance : H)
    (sources : List H) :
    (q.promotePendingToFetch key distance sources).2.inFlightFetch = q.inFlightFetch := by
  unfold promotePendingToFetch
  split_ifs
  · rfl
  · rw [inFlightFetch_enqueueFetch, inFlightFetch_removePending]

end ReplicationQueues

namespace QueueState

open ReplicationQueues

variable {s s' : QueueState H} {key : H} {sources rest : List H}

/-- What the operation returns, where it is a retry of the key's fetch. -/
def retryResult (key : H) (s : QueueState H) : QueueOp H → List (Option H)
  | .retryFetch other => if other = key then [(s.queues.retryFetch other).1] else []
  | _ => []

/-- What the retries of the key's fetch return along a run. -/
def retryResults (key : H) : QueueState H → List (QueueOp H) → List (Option H)
  | _, [] => []
  | s, op :: ops =>
      retryResult key s op ++ ((s.step op).map fun s' => retryResults key s' ops).getD []

/-- Nothing but its own retries and its completion changes the entry of a fetch in flight. -/
theorem lookup_inFlight_step {op : QueueOp H} (hinv : Inv s) (hstep : s.step op = some s')
    (hmem : key ∈ s.queues.inFlightFetch) (hretry : op ≠ .retryFetch key)
    (hcomplete : op ≠ .completeFetch key) :
    s'.queues.inFlightFetch.lookup key = s.queues.inFlightFetch.lookup key := by
  cases op with
  | addPendingVerify other entry =>
      obtain rfl := Option.some.inj hstep
      rw [inFlightFetch_addPendingVerify]
  | setPendingState other state =>
      obtain rfl := Option.some.inj hstep
      rw [inFlightFetch_setPendingState]
  | removePending other =>
      obtain rfl := Option.some.inj hstep
      rw [inFlightFetch_removePending]
  | enqueueFetch other distance sources =>
      obtain rfl := Option.some.inj hstep
      rw [inFlightFetch_enqueueFetch]
  | promotePendingToFetch other distance sources =>
      obtain rfl := Option.some.inj hstep
      rw [inFlightFetch_promotePendingToFetch]
  | dequeueFetch =>
      obtain rfl := Option.some.inj hstep
      rfl
  | startFetch other source allSources now =>
      simp only [QueueState.step] at hstep
      split at hstep
      · rename_i candidate hdequeued
        split_ifs at hstep with hkey
        obtain rfl := Option.some.inj hstep
        have hne : key ≠ other := by
          rintro rfl
          exact hinv.dequeued candidate hdequeued (.inr (.inr (hkey ▸ hmem)))
        exact AList.lookup_insert_ne hne
      · cases hstep
  | retryFetch other =>
      obtain rfl := Option.some.inj hstep
      have hne : key ≠ other := by
        rintro rfl
        exact hretry rfl
      rcases retryFetch_cases s.queues other with hsame | ⟨entry, -, hretried⟩
      · exact congrArg (fun q : ReplicationQueues H => q.inFlightFetch.lookup key) hsame
      · rw [hretried]
        exact AList.lookup_insert_ne hne
  | completeFetch other =>
      obtain rfl := Option.some.inj hstep
      have hne : key ≠ other := by
        rintro rfl
        exact hcomplete rfl
      exact AList.lookup_erase_ne hne
  | evictStale maxAge now =>
      obtain rfl := Option.some.inj hstep
      rfl

theorem retryResult_of_ne {op : QueueOp H} (hne : op ≠ .retryFetch key) :
    retryResult key s op = [] := by
  cases op with
  | retryFetch other =>
      have hother : other ≠ key := by
        rintro rfl
        exact hne rfl
      exact if_neg hother
  | _ => rfl

theorem retryResults_cons {op : QueueOp H} {ops : List (QueueOp H)}
    (hstep : s.step op = some s') :
    retryResults key s (op :: ops) = retryResult key s op ++ retryResults key s' ops := by
  rw [retryResults, hstep, Option.map_some, Option.getD_some]

/-- Along a run that does not complete the fetch, the retries return the sources left, in order. -/
theorem retryResults_eq {ops : List (QueueOp H)} (hinv : Inv s)
    (hretrying : s.queues.Retrying key sources rest) (hrun : Runs.run step s ops = some s')
    (hcomplete : QueueOp.completeFetch key ∉ ops) :
    (∀ (i : Nat) result, (retryResults key s ops)[i]? = some result → result = rest[i]?) ∧
      Inv s' ∧ key ∈ s'.queues.inFlightFetch := by
  induction ops generalizing s rest with
  | nil =>
      obtain rfl := Option.some.inj hrun
      refine ⟨fun i result hresult => ?_, hinv, hretrying.mem_inFlight⟩
      cases hresult
  | cons op ops ih =>
      obtain ⟨mid, hstep, hrun⟩ := Runs.run_cons_eq_some.mp hrun
      obtain ⟨hfirst, hlater⟩ := not_or.mp (mt List.mem_cons.mpr hcomplete)
      by_cases hretry : op = .retryFetch key
      · subst hretry
        obtain rfl := Option.some.inj hstep
        obtain ⟨hnext, hretrying⟩ := hretrying.retryFetch
        obtain ⟨hresults, hlast⟩ :=
          ih (.ofQueues (hinv.queues.retryFetch key)) hretrying hrun hlater
        refine ⟨fun i result hresult => ?_, hlast⟩
        rw [retryResults_cons rfl, retryResult, if_pos rfl, List.singleton_append] at hresult
        cases i with
        | zero =>
            rw [List.getElem?_cons_zero, Option.some.injEq] at hresult
            rw [← hresult, hnext, List.head?_eq_getElem?]
        | succ i =>
            rw [List.getElem?_cons_succ] at hresult
            rw [hresults i result hresult, List.getElem?_tail]
      · have hkept : mid.queues.Retrying key sources rest := by
          have hsame := lookup_inFlight_step hinv hstep hretrying.mem_inFlight hretry
            (Ne.symm hfirst)
          obtain ⟨entry, hlookup, hentry⟩ := hretrying
          exact ⟨entry, hsame.trans hlookup, hentry⟩
        obtain ⟨hresults, hlast⟩ := ih (hinv.step hstep) hkept hrun hlater
        refine ⟨fun i result hresult => ?_, hlast⟩
        rw [retryResults_cons hstep, retryResult_of_ne hretry, List.nil_append] at hresult
        exact hresults i result hresult

/-- **Every source is tried once.** The retries after the first attempt go to the other sources,
each once and in the order of the list, and then to none, which ends the fetch; the same holds
where other tasks use the queues in between. -/
theorem retries_visit_each_source_once {first : H} (hfirst : first ∈ sources) :
    ∃ rest : List H, (∀ peer, peer ∈ rest ↔ peer ∈ sources ∧ peer ≠ first) ∧
      (first :: rest).Nodup ∧ rest.Pairwise (fun a b => sources.idxOf a < sources.idxOf b) ∧
      rest.length < sources.length ∧
      (∀ (q : ReplicationQueues H) (key : H) (now n : Nat),
        (((q.startFetch key first sources now).retriedTimes key n).retryFetch key).1 = rest[n]? ∧
        (q.containsKey key = false →
          (((q.startFetch key first sources now).retriedTimes key n).completeFetch
            key).2.containsKey key = false)) ∧
      ∀ (key : H) (now : Nat) (before ops : List (QueueOp H)) (s started s' : QueueState H),
        Runs.run step init before = some s →
        s.step (.startFetch key first sources now) = some started →
        Runs.run step started ops = some s' → QueueOp.completeFetch key ∉ ops →
        (∀ (i : Nat) result, (retryResults key started ops)[i]? = some result → result = rest[i]?) ∧
          (s'.queues.completeFetch key).2.containsKey key = false := by
  have hnodup : (first :: unvisited {first} sources).Nodup := by
    refine List.nodup_cons.mpr ⟨fun hmem => ?_, ?_⟩
    · exact (mem_unvisited.mp hmem).2 (Finset.mem_singleton_self first)
    · exact nodup_unvisited {first} sources
  have hsub : first :: unvisited {first} sources ⊆ sources := by
    refine List.cons_subset.mpr ⟨hfirst, fun peer hpeer => ?_⟩
    exact (mem_unvisited.mp hpeer).1
  refine ⟨unvisited {first} sources, ?_, ?_, unvisited_ordered _ _, ?_, ?_, ?_⟩
  · intro peer
    rw [mem_unvisited, Finset.mem_singleton]
  · exact hnodup
  · exact (hnodup.subperm hsub).length_le
  · intro q key now n
    have hretrying := (retrying_startFetch q key first sources now).retriedTimes n
    obtain ⟨hpending, hqueued⟩ :=
      retriedTimes_frame (q.startFetch key first sources now) key n
    refine ⟨?_, fun huntracked => containsKey_completeFetch ?_ ?_⟩
    · rw [hretrying.retryFetch.1, List.head?_drop]
    · rw [hpending]
      intro hmem
      simp [containsKey, show key ∈ q.pendingVerify from hmem] at huntracked
    · rw [hqueued]
      intro hmem
      simp [containsKey, show key ∈ q.fetchQueueKeys from hmem] at huntracked
  · intro key now before ops s started s' hreach hstart hrun hcomplete
    have hinv : Inv s :=
      Runs.stable_of_run Inv (fun _ _ _ hinv hstep => hinv.step hstep) (.ofQueues inv_new) hreach
    have hretrying : started.queues.Retrying key sources (unvisited {first} sources) := by
      simp only [step] at hstart
      split at hstart
      · split_ifs at hstart
        obtain rfl := Option.some.inj hstart
        exact retrying_startFetch s.queues key first sources now
      · cases hstart
    obtain ⟨hresults, hinv', hmem⟩ :=
      retryResults_eq (hinv.step hstart) hretrying hrun hcomplete
    refine ⟨hresults, containsKey_completeFetch (hinv'.queues.inFlight_only hmem).1 ?_⟩
    rw [hinv'.queues.queueKeys, List.mem_toFinset]
    exact (hinv'.queues.inFlight_only hmem).2

/-- The list of the example, which repeats a source before and after the first one taken. -/
def repeatedSources : List Transcript := [⟨[8]⟩, ⟨[7]⟩, ⟨[8]⟩, ⟨[9]⟩]

theorem retries_visit_each_source_once_repeated :
    ∃ rest : List Transcript, rest[0]? = some ⟨[8]⟩ ∧ rest[2]? = none ∧
      ((((new : ReplicationQueues Transcript).startFetch ⟨[1]⟩ ⟨[7]⟩ repeatedSources 0).retriedTimes
        ⟨[1]⟩ 3).completeFetch ⟨[1]⟩).2.containsKey ⟨[1]⟩ = false ∧
      ∃ s started s' : QueueState Transcript,
        Runs.run step init [.enqueueFetch ⟨[1]⟩ ⟨[3]⟩ repeatedSources, .dequeueFetch] = some s ∧
        s.step (.startFetch ⟨[1]⟩ ⟨[7]⟩ repeatedSources 0) = some started ∧
        Runs.run step started [.retryFetch ⟨[1]⟩, .evictStale 0 0, .retryFetch ⟨[1]⟩] = some s' ∧
        (s'.queues.completeFetch ⟨[1]⟩).2.containsKey ⟨[1]⟩ = false := by
  obtain ⟨rest, -, -, -, -, hqueue, hruns⟩ :=
    retries_visit_each_source_once (show (⟨[7]⟩ : Transcript) ∈ repeatedSources by decide)
  have hrun : (Runs.run step init ([.enqueueFetch ⟨[1]⟩ ⟨[3]⟩ repeatedSources, .dequeueFetch] ++
      .startFetch ⟨[1]⟩ ⟨[7]⟩ repeatedSources 0 ::
        [.retryFetch ⟨[1]⟩, .evictStale 0 0, .retryFetch ⟨[1]⟩])).isSome := by
    decide +kernel
  obtain ⟨s', hrun⟩ := Option.isSome_iff_exists.mp hrun
  obtain ⟨s, hreach, hrun⟩ := Runs.run_append_eq_some.mp hrun
  obtain ⟨started, hstart, hrun⟩ := Runs.run_cons_eq_some.mp hrun
  have hcomplete : QueueOp.completeFetch (⟨[1]⟩ : Transcript) ∉
      [QueueOp.retryFetch ⟨[1]⟩, .evictStale 0 0, .retryFetch ⟨[1]⟩] := by
    simp
  refine ⟨rest, ?_, ?_, (hqueue new ⟨[1]⟩ 0 3).2 rfl, s, started, s', hreach, hstart, hrun,
    (hruns ⟨[1]⟩ 0 _ _ s started s' hreach hstart hrun hcomplete).2⟩
  · rw [← (hqueue new ⟨[1]⟩ 0 0).1]
    decide +kernel
  · rw [← (hqueue new ⟨[1]⟩ 0 2).1]
    decide +kernel

end QueueState

end AntNode
