import AntNode.Proof.FetchRetries
import AntNode.Proof.QueueStages

/-!
# What becomes of a fetch

The fetch worker asks the sources of a candidate one after the other, and there is at most one task
for a key. A key whose fetch has failed for good has been asked of every source it entered the fetch
queue with, since it entered, and each of them has failed.
-/

namespace AntNode

open Runs

variable {H : Type} [Digest H]

namespace RepairState

open ReplicationQueues

/-! ### How a fetch ends -/

section Facts

variable (ctx : RepairContext H) (key source : H)

/-- The step ends a fetch of the key from the source, and nothing is stored. -/
def FailsAt (s : RepairState H) (e : RepairEvent H) : Prop :=
  (key, source) ∈ s.fetching ∧ ∃ reply accepted, e = .execute key source reply accepted ∧
    (executeSingleFetch ctx s.world key reply accepted).1 ≠ .stored

/-- The step ends a fetch of the key, which is in the store then. -/
def FetchedAt (s : RepairState H) (e : RepairEvent H) : Prop :=
  ∃ source reply accepted, (key, source) ∈ s.fetching ∧
    e = .execute key source reply accepted ∧
    key ∈ (executeSingleFetch ctx s.world key reply accepted).2.storage

def PanicsAt (s : RepairState H) (e : RepairEvent H) : Prop :=
  ∃ source, (key, source) ∈ s.fetching ∧ e = .panic key source

end Facts

theorem mem_storage_of_stored {ctx : RepairContext H} {world : RepairWorld H} {key : H}
    {reply : FetchReply H} {accepted : Bool}
    (hstored : (executeSingleFetch ctx world key reply accepted).1 = .stored) :
    key ∈ (executeSingleFetch ctx world key reply accepted).2.storage := by
  cases reply with
  | success respKey data =>
      unfold executeSingleFetch RepairWorld.put at hstored ⊢
      simp only at hstored ⊢
      split_ifs at hstored ⊢ with hkey hsize hhash hrefused hpresent
      · rw [not_not.mp hkey] at hpresent
        exact hpresent
      · rw [not_not.mp hkey]
        exact Finmap.mem_insert.mpr (.inl rfl)
  | noMessage | notFound | error | otherMessage => cases hstored

/-! ### What the worker does -/

section Worker

variable {s : RepairState H} {q : ReplicationQueues H} {key : H}

/-- The keys of the tasks of the worker. -/
def taskKeys (s : RepairState H) : List H := s.fetching.map Prod.fst ++ s.fetched.map Prod.fst

theorem not_mem_of_popNotInFlight {inFlight : AList fun _ : H => InFlightEntry H}
    {queue : List (FetchCandidate H)} {keys : Finset H} {candidate : FetchCandidate H}
    (hpopped : (popNotInFlight inFlight queue keys).1 = some candidate) :
    candidate.key ∉ inFlight := by
  induction queue generalizing keys with
  | nil => cases hpopped
  | cons first rest ih =>
      unfold popNotInFlight at hpopped
      split_ifs at hpopped with hflight
      · exact ih hpopped
      · obtain rfl : first = candidate := Option.some.inj hpopped
        exact hflight

theorem dequeue_cases (s : RepairState H) :
    (s.dequeue.fetching = s.fetching ∧
      s.dequeue.queues.inFlightFetch = s.queues.inFlightFetch) ∨
    ∃ candidate ∈ s.queues.fetchQueue, ∃ source, candidate.key ∉ s.queues.inFlightFetch ∧
      s.dequeue.fetching = s.fetching ++ [(candidate.key, source)] ∧
      s.dequeue.queues.inFlightFetch = s.queues.inFlightFetch.insert candidate.key
        ⟨candidate.key, source, s.world.now, candidate.sources, {source}⟩ := by
  unfold dequeue
  simp only
  split
  · exact .inl ⟨rfl, rfl⟩
  · rename_i candidate hpopped
    split
    · exact .inl ⟨rfl, rfl⟩
    · rename_i source sources hsources
      refine .inr ⟨candidate, (popNotInFlight_subset _ _ _).1 candidate hpopped, source,
        not_mem_of_popNotInFlight hpopped, rfl, ?_⟩
      rw [hsources]
      rfl

/-- A fetch whose result is taken goes on to another source, or is over. -/
theorem finish_cases (s : RepairState H) (key : H) (result : Option FetchResult) :
    (∃ r next, result = some r ∧ r ≠ .stored ∧ (s.queues.retryFetch key).1 = some next ∧
      s.finish key result = { s with
        queues := (s.queues.retryFetch key).2
        fetched := s.fetched.erase (key, result)
        fetching := s.fetching ++ [(key, next)] }) ∨
    ∃ queues, (queues = s.queues ∨ queues = (s.queues.retryFetch key).2) ∧
      s.finish key result = { s with
        queues := (queues.completeFetch key).2
        fetched := s.fetched.erase (key, result) } := by
  have hgoesOn : ∀ r next, r = .integrityFailed ∨ r = .sourceFailed →
      (s.queues.retryFetch key).1 = some next →
      s.finish key (some r) = { s with
        queues := (s.queues.retryFetch key).2
        fetched := s.fetched.erase (key, some r)
        fetching := s.fetching ++ [(key, next)] } := by
    intro r next hr hnext
    rcases hr with rfl | rfl <;> simp only [finish, hnext]
  have hisOver : ∀ r, r = .integrityFailed ∨ r = .sourceFailed →
      (s.queues.retryFetch key).1 = none →
      s.finish key (some r) = { s with
        queues := ((s.queues.retryFetch key).2.completeFetch key).2
        fetched := s.fetched.erase (key, some r) } := by
    intro r hr hnext
    rcases hr with rfl | rfl <;> simp only [finish, hnext]
  have hfailed : ∀ r, r = .integrityFailed ∨ r = .sourceFailed → result = some r →
      (∃ r next, result = some r ∧ r ≠ .stored ∧ (s.queues.retryFetch key).1 = some next ∧
        s.finish key result = { s with
          queues := (s.queues.retryFetch key).2
          fetched := s.fetched.erase (key, result)
          fetching := s.fetching ++ [(key, next)] }) ∨
      ∃ queues, (queues = s.queues ∨ queues = (s.queues.retryFetch key).2) ∧
        s.finish key result = { s with
          queues := (queues.completeFetch key).2
          fetched := s.fetched.erase (key, result) } := by
    intro r hr hresult
    subst hresult
    cases hnext : (s.queues.retryFetch key).1 with
    | some next =>
        refine .inl ⟨r, next, rfl, ?_, rfl, hgoesOn r next hr hnext⟩
        rintro rfl
        rcases hr with hr | hr <;> cases hr
    | none => exact .inr ⟨_, .inr rfl, hisOver r hr hnext⟩
  cases result with
  | none => exact .inr ⟨s.queues, .inl rfl, rfl⟩
  | some r =>
      cases r with
      | stored => exact .inr ⟨s.queues, .inl rfl, rfl⟩
      | integrityFailed => exact hfailed _ (.inl rfl) rfl
      | sourceFailed => exact hfailed _ (.inr rfl) rfl

theorem retryFetch_of_lookup {entry : InFlightEntry H}
    (hlookup : q.inFlightFetch.lookup key = some entry) (hsource : entry.source ∈ entry.tried) :
    (∃ next ∈ entry.allSources, q.retryFetch key = (some next,
      { q with
        inFlightFetch := q.inFlightFetch.insert key
          { entry with source := next, tried := insert next entry.tried } })) ∨
    ((q.retryFetch key).1 = none ∧ ∀ peer ∈ entry.allSources, peer ∈ entry.tried) := by
  unfold retryFetch
  rw [hlookup]
  simp only [Finset.insert_eq_of_mem hsource]
  cases hfind : entry.allSources.find? fun peer => decide (peer ∉ entry.tried) with
  | some next => exact .inl ⟨next, List.mem_of_find?_eq_some hfind, rfl⟩
  | none =>
      refine .inr ⟨rfl, fun peer hpeer => ?_⟩
      simpa using List.find?_eq_none.mp hfind peer hpeer

theorem lookup_retryFetch_of_ne {other : H} (hne : other ≠ key) :
    (q.retryFetch key).2.inFlightFetch.lookup other = q.inFlightFetch.lookup other := by
  rcases retryFetch_cases q key with hretry | ⟨entry, -, hretry⟩
  · rw [hretry]
  · rw [hretry]
    exact AList.lookup_insert_ne hne

end Worker

/-! ### The history of the fetches -/

section History

variable (ctx : RepairContext H) (s₀ : RepairState H) (events : List (RepairEvent H))

/-- The candidate enters the fetch queue at the first of the later events. -/
def EntersThen (candidate : FetchCandidate H) (mid : RepairState H)
    (later : List (RepairEvent H)) : Prop :=
  (∃ before, events = before ++ later ∧ run (step ctx) s₀ before = some mid) ∧
    ∃ e after, later = e :: after ∧ EntersAt ctx candidate mid e

/-- What has become of asking a source for a key. -/
def Asked (mid : RepairState H) (later : List (RepairEvent H)) (s : RepairState H)
    (key source : H) : Prop :=
  Occurred (step ctx) (FailsAt ctx key source) mid later ∨ (key, source) ∈ s.fetching ∨
    ∃ result, (key, result) ∈ s.fetched ∧ ∀ r, result = some r → r ≠ .stored →
      Occurred (step ctx) (FailsAt ctx key source) mid later

/-- The fetch in flight goes through the sources of a candidate. -/
def Pursues (s : RepairState H) (key : H) (entry : InFlightEntry H) : Prop :=
  entry.source ∈ entry.tried ∧ ∃ candidate mid later,
    EntersThen ctx s₀ events candidate mid later ∧ candidate.key = key ∧
      candidate.sources = entry.allSources ∧
      ∀ source ∈ entry.tried, Asked ctx mid later s key source

structure Attempts (s : RepairState H) : Prop where
  nodup : s.taskKeys.Nodup
  inFlight : ∀ key ∈ s.taskKeys, key ∈ s.queues.inFlightFetch
  queued : ∀ candidate ∈ s.queues.fetchQueue,
    ∃ mid later, EntersThen ctx s₀ events candidate mid later
  pursued : ∀ key entry, s.queues.inFlightFetch.lookup key = some entry →
    Pursues ctx s₀ events s key entry
  stored : ∀ key, (key, some .stored) ∈ s.fetched →
    Happened ctx s₀ events (FetchedAt ctx key)
  panicked : ∀ key, (key, none) ∈ s.fetched → Happened ctx s₀ events (PanicsAt key)

end History

section Steps

variable {ctx : RepairContext H} {s₀ s s' mid : RepairState H} {events later : List (RepairEvent H)}
  {e : RepairEvent H} {key source : H} {result : Option FetchResult}

theorem EntersThen.concat {candidate : FetchCandidate H}
    (henters : EntersThen ctx s₀ events candidate mid later) (e : RepairEvent H) :
    EntersThen ctx s₀ (events ++ [e]) candidate mid (later ++ [e]) := by
  obtain ⟨⟨before, rfl, hmid⟩, first, after, rfl, hat⟩ := henters
  exact ⟨⟨before, by simp, hmid⟩, first, after ++ [e], rfl, hat⟩

theorem EntersThen.run_later {candidate : FetchCandidate H}
    (henters : EntersThen ctx s₀ events candidate mid later)
    (hrun : run (step ctx) s₀ events = some s) : run (step ctx) mid later = some s := by
  obtain ⟨⟨before, rfl, hmid⟩, -⟩ := henters
  obtain ⟨mid', hmid', hlater⟩ := run_append_eq_some.mp hrun
  obtain rfl : mid = mid' := Option.some.inj (hmid.symm.trans hmid')
  exact hlater

theorem Asked.concat (hasked : Asked ctx mid later s key source) (e : RepairEvent H)
    (hfetching : (key, source) ∈ s.fetching → Asked ctx mid (later ++ [e]) s' key source)
    (hfetched : ∀ result, (key, result) ∈ s.fetched → (key, result) ∈ s'.fetched) :
    Asked ctx mid (later ++ [e]) s' key source := by
  rcases hasked with hfailed | hunder | ⟨result, hmem, hresult⟩
  · exact .inl (hfailed.concat e)
  · exact hfetching hunder
  · exact .inr (.inr ⟨result, hfetched result hmem, fun r hr hne => (hresult r hr hne).concat e⟩)

theorem Pursues.concat {entry : InFlightEntry H} (hpursues : Pursues ctx s₀ events s key entry)
    (hrun : run (step ctx) s₀ events = some s)
    (hasked : ∀ mid later source, run (step ctx) mid later = some s →
      Asked ctx mid later s key source → Asked ctx mid (later ++ [e]) s' key source) :
    Pursues ctx s₀ (events ++ [e]) s' key entry := by
  obtain ⟨hsource, candidate, mid, later, henters, hkey, hsources, htried⟩ := hpursues
  refine ⟨hsource, candidate, mid, later ++ [e], henters.concat e, hkey, hsources, ?_⟩
  intro source hmem
  exact hasked mid later source (henters.run_later hrun) (htried source hmem)

theorem Attempts.queued_of_step (hattempts : Attempts ctx s₀ events s)
    (hrun : run (step ctx) s₀ events = some s) (hstep : s.step ctx e = some s') :
    ∀ candidate ∈ s'.queues.fetchQueue,
      ∃ mid later, EntersThen ctx s₀ (events ++ [e]) candidate mid later := by
  intro candidate hmem
  by_cases hold : candidate ∈ s.queues.fetchQueue
  · obtain ⟨mid, later, henters⟩ := hattempts.queued candidate hold
    exact ⟨mid, later ++ [e], henters.concat e⟩
  · exact ⟨s, [e], ⟨events, rfl, hrun⟩, e, [], rfl, hold, s', hstep, hmem⟩

/-- A step that leaves the tasks of the worker alone. -/
theorem Attempts.of_quiet (hattempts : Attempts ctx s₀ events s)
    (hrun : run (step ctx) s₀ events = some s) (hstep : s.step ctx e = some s')
    (hfetching : s'.fetching = s.fetching) (hfetched : s'.fetched = s.fetched)
    (hinFlight : s'.queues.inFlightFetch = s.queues.inFlightFetch) :
    Attempts ctx s₀ (events ++ [e]) s' where
  nodup := by
    rw [taskKeys, hfetching, hfetched]
    exact hattempts.nodup
  inFlight := by
    rw [taskKeys, hfetching, hfetched, hinFlight]
    exact hattempts.inFlight
  queued := hattempts.queued_of_step hrun hstep
  pursued := by
    intro key entry hlookup
    rw [hinFlight] at hlookup
    refine (hattempts.pursued key entry hlookup).concat hrun ?_
    intro mid later source _ hasked
    refine hasked.concat e (fun hmem => .inr (.inl ?_)) fun result hmem => ?_
    · rwa [hfetching]
    · rwa [hfetched]
  stored := by
    rw [hfetched]
    exact fun key hmem => (hattempts.stored key hmem).concat e
  panicked := by
    rw [hfetched]
    exact fun key hmem => (hattempts.panicked key hmem).concat e

/-- A task is the only one of its key. -/
theorem Attempts.unique (hattempts : Attempts ctx s₀ events s) (hmem : (key, result) ∈ s.fetched) :
    (∀ source, (key, source) ∉ s.fetching) ∧
      ∀ other, (key, other) ∈ s.fetched → other = result := by
  have hnodup := hattempts.nodup
  rw [taskKeys, List.nodup_append] at hnodup
  obtain ⟨-, hfetched, hdisjoint⟩ := hnodup
  constructor
  · intro source hfetching
    exact hdisjoint key (List.mem_map_of_mem hfetching) key (List.mem_map_of_mem hmem) rfl
  · intro other hother
    exact congrArg Prod.snd (List.inj_on_of_nodup_map hfetched hother hmem rfl)

theorem Attempts.dequeue (hattempts : Attempts ctx s₀ events s)
    (hrun : run (step ctx) s₀ events = some s) (hstep : s.step ctx e = some s.dequeue) :
    Attempts ctx s₀ (events ++ [e]) s.dequeue := by
  have hfetched : s.dequeue.fetched = s.fetched := s.dequeue_frame.2.2.1
  obtain ⟨hfetching, hinFlight⟩ | ⟨candidate, hqueued, source, hnew, hfetching, hinFlight⟩ :=
    s.dequeue_cases
  · exact hattempts.of_quiet hrun hstep hfetching hfetched hinFlight
  have hkeys : s.dequeue.taskKeys.Perm (candidate.key :: s.taskKeys) := by
    rw [taskKeys, taskKeys, hfetching, hfetched]
    simp only [List.map_append, List.map_cons, List.map_nil, List.append_assoc, List.cons_append,
      List.nil_append]
    exact List.perm_middle
  refine ⟨?_, ?_, hattempts.queued_of_step hrun hstep, ?_, ?_, ?_⟩
  · rw [hkeys.nodup_iff, List.nodup_cons]
    exact ⟨fun hmem => hnew (hattempts.inFlight _ hmem), hattempts.nodup⟩
  · intro key hmem
    rw [hinFlight, AList.mem_insert]
    rcases List.mem_cons.mp (hkeys.mem_iff.mp hmem) with heq | hold
    · exact .inl heq
    · exact .inr (hattempts.inFlight key hold)
  · intro key entry hlookup
    rw [hinFlight] at hlookup
    by_cases heq : key = candidate.key
    · subst heq
      rw [AList.lookup_insert] at hlookup
      obtain rfl := Option.some.inj hlookup
      obtain ⟨mid, later, henters⟩ := hattempts.queued candidate hqueued
      refine ⟨Finset.mem_singleton_self _, candidate, mid, later ++ [e], henters.concat e, rfl, rfl,
        ?_⟩
      intro asked hasked
      rw [Finset.mem_singleton.mp hasked]
      refine .inr (.inl ?_)
      rw [hfetching]
      exact List.mem_append_right _ (List.mem_singleton_self _)
    · rw [AList.lookup_insert_ne heq] at hlookup
      refine (hattempts.pursued key entry hlookup).concat hrun ?_
      intro mid later asked _ hasked
      refine hasked.concat e (fun hmem => .inr (.inl ?_)) fun result hmem => ?_
      · rw [hfetching]
        exact List.mem_append_left _ hmem
      · rwa [hfetched]
  · rw [hfetched]
    exact fun key hmem => (hattempts.stored key hmem).concat e
  · rw [hfetched]
    exact fun key hmem => (hattempts.panicked key hmem).concat e

/-- A fetch ends, with a result or none. -/
theorem Attempts.of_ended {world : RepairWorld H} (hattempts : Attempts ctx s₀ events s)
    (hrun : run (step ctx) s₀ events = some s) (hfetching : (key, source) ∈ s.fetching)
    (hstep : s.step ctx e = some { s with
      world := world
      fetching := s.fetching.erase (key, source)
      fetched := s.fetched ++ [(key, result)] })
    (hfails : ∀ r, result = some r → r ≠ .stored → FailsAt ctx key source s e)
    (hstored : result = some .stored → FetchedAt ctx key s e)
    (hpanics : result = none → PanicsAt key s e) :
    Attempts ctx s₀ (events ++ [e]) { s with
      world := world
      fetching := s.fetching.erase (key, source)
      fetched := s.fetched ++ [(key, result)] } := by
  have hperm : (s.fetching.map Prod.fst).Perm
      (key :: (s.fetching.erase (key, source)).map Prod.fst) :=
    (List.perm_cons_erase hfetching).map Prod.fst
  have hkeys : ((s.fetching.erase (key, source)).map Prod.fst ++
      (s.fetched ++ [(key, result)]).map Prod.fst).Perm s.taskKeys := by
    rw [List.map_append, ← List.append_assoc]
    refine List.perm_append_comm.trans ?_
    exact (hperm.symm.append_right (s.fetched.map Prod.fst))
  refine ⟨hkeys.nodup_iff.mpr hattempts.nodup,
    fun other hmem => hattempts.inFlight other (hkeys.mem_iff.mp hmem),
    hattempts.queued_of_step hrun hstep, ?_, ?_, ?_⟩
  · intro other entry hlookup
    refine (hattempts.pursued other entry hlookup).concat hrun ?_
    intro mid later asked hlater hasked
    refine hasked.concat e (fun hmem => ?_) fun result' hmem => List.mem_append_left _ hmem
    by_cases heq : (other, asked) = (key, source)
    · obtain ⟨rfl, rfl⟩ := Prod.mk.inj heq
      refine .inr (.inr ⟨result, List.mem_append_right _ (List.mem_singleton_self _), ?_⟩)
      exact fun r hr hne => occurred_concat_self hlater (hfails r hr hne)
    · exact .inr (.inl ((List.mem_erase_of_ne heq).mpr hmem))
  · intro other hmem
    rcases List.mem_append.mp hmem with hold | hnew
    · exact (hattempts.stored other hold).concat e
    · obtain ⟨rfl, hresult⟩ := Prod.mk.inj (List.mem_singleton.mp hnew)
      exact occurred_concat_self hrun (hstored hresult.symm)
  · intro other hmem
    rcases List.mem_append.mp hmem with hold | hnew
    · exact (hattempts.panicked other hold).concat e
    · obtain ⟨rfl, hresult⟩ := Prod.mk.inj (List.mem_singleton.mp hnew)
      exact occurred_concat_self hrun (hpanics hresult.symm)

/-- Where a fetch has failed, so has every source it was asked of. -/
theorem Attempts.occurred_of_asked (hattempts : Attempts ctx s₀ events s) {r : FetchResult}
    (hfetched : (key, some r) ∈ s.fetched) (hfailed : r ≠ .stored)
    (hasked : Asked ctx mid later s key source) :
    Occurred (step ctx) (FailsAt ctx key source) mid later := by
  obtain ⟨hfetching, honly⟩ := hattempts.unique hfetched
  rcases hasked with hoccurred | hmem | ⟨result, hmem, hresult⟩
  · exact hoccurred
  · exact absurd hmem (hfetching source)
  · exact hresult r (honly result hmem) hfailed

theorem Attempts.exists_entry (hattempts : Attempts ctx s₀ events s)
    (hfetched : (key, result) ∈ s.fetched) :
    ∃ entry, s.queues.inFlightFetch.lookup key = some entry ∧
      Pursues ctx s₀ events s key entry := by
  have hmem := hattempts.inFlight key
    (List.mem_append_right _ (List.mem_map_of_mem (f := Prod.fst) hfetched))
  obtain ⟨entry, hlookup⟩ := Option.isSome_iff_exists.mp (AList.lookup_isSome.mpr hmem)
  exact ⟨entry, hlookup, hattempts.pursued key entry hlookup⟩

/-- Taking the result of one fetch changes nothing for the other keys. -/
theorem Pursues.of_erased {other : H} {entry : InFlightEntry H}
    (hpursues : Pursues ctx s₀ events s other entry) (hrun : run (step ctx) s₀ events = some s)
    (hne : other ≠ key)
    (hfetching : ∀ source, (other, source) ∈ s.fetching → (other, source) ∈ s'.fetching)
    (herased : s'.fetched = s.fetched.erase (key, result)) :
    Pursues ctx s₀ (events ++ [e]) s' other entry := by
  refine hpursues.concat hrun ?_
  intro mid later source _ hasked
  refine hasked.concat e (fun hmem => .inr (.inl (hfetching source hmem))) fun result' hmem => ?_
  rw [herased]
  exact (List.mem_erase_of_ne fun heq => hne (congrArg Prod.fst heq)).mpr hmem

/-- A fetch has failed and goes on to its next source. -/
theorem Attempts.of_retried {r : FetchResult} {entry : InFlightEntry H} {next : H}
    (hattempts : Attempts ctx s₀ events s) (hrun : run (step ctx) s₀ events = some s)
    (hstep : s.step ctx e = some s') (hfetched : (key, some r) ∈ s.fetched) (hfailed : r ≠ .stored)
    (hpursues : Pursues ctx s₀ events s key entry)
    (hfetching : s'.fetching = s.fetching ++ [(key, next)])
    (herased : s'.fetched = s.fetched.erase (key, some r))
    (hinFlight : s'.queues.inFlightFetch = s.queues.inFlightFetch.insert key
      { entry with source := next, tried := insert next entry.tried }) :
    Attempts ctx s₀ (events ++ [e]) s' := by
  have hkeys : s'.taskKeys.Perm s.taskKeys := by
    rw [taskKeys, taskKeys, hfetching, herased]
    simp only [List.map_append, List.map_cons, List.map_nil, List.append_assoc,
      List.cons_append, List.nil_append]
    have hperm := (List.perm_cons_erase hfetched).map Prod.fst
    exact hperm.symm.append_left (s.fetching.map Prod.fst)
  refine ⟨hkeys.nodup_iff.mpr hattempts.nodup, ?_, hattempts.queued_of_step hrun hstep, ?_, ?_, ?_⟩
  · intro other hmem
    rw [hinFlight, AList.mem_insert]
    exact .inr (hattempts.inFlight other (hkeys.mem_iff.mp hmem))
  · intro other entry' hentry'
    rw [hinFlight] at hentry'
    by_cases heq : other = key
    · subst heq
      rw [AList.lookup_insert] at hentry'
      obtain rfl := Option.some.inj hentry'
      obtain ⟨-, candidate, mid, later, henters, hkey, hsources, htried⟩ := hpursues
      refine ⟨Finset.mem_insert_self _ _, candidate, mid, later ++ [e], henters.concat e, hkey,
        hsources, ?_⟩
      intro source hsource
      rcases Finset.mem_insert.mp hsource with rfl | hold
      · refine .inr (.inl ?_)
        rw [hfetching]
        exact List.mem_append_right _ (List.mem_singleton_self _)
      · exact .inl ((hattempts.occurred_of_asked hfetched hfailed (htried source hold)).concat e)
    · rw [AList.lookup_insert_ne heq] at hentry'
      refine (hattempts.pursued other entry' hentry').of_erased hrun heq ?_ herased
      intro source hmem
      rw [hfetching]
      exact List.mem_append_left _ hmem
  · rw [herased]
    exact fun other hmem => (hattempts.stored other (List.mem_of_mem_erase hmem)).concat e
  · rw [herased]
    exact fun other hmem => (hattempts.panicked other (List.mem_of_mem_erase hmem)).concat e

/-- A fetch is over, and its key is no longer in flight. -/
theorem Attempts.of_completed (hattempts : Attempts ctx s₀ events s)
    (hrun : run (step ctx) s₀ events = some s) (hstep : s.step ctx e = some s')
    (hfetched : (key, result) ∈ s.fetched) (hfetching : s'.fetching = s.fetching)
    (herased : s'.fetched = s.fetched.erase (key, result))
    (hgone : s'.queues.inFlightFetch.lookup key = none)
    (hothers : ∀ other, other ≠ key →
      s'.queues.inFlightFetch.lookup other = s.queues.inFlightFetch.lookup other) :
    Attempts ctx s₀ (events ++ [e]) s' := by
  have hkeys : s.taskKeys.Perm (key :: s'.taskKeys) := by
    rw [taskKeys, taskKeys, hfetching, herased]
    have hperm := (List.perm_cons_erase hfetched).map Prod.fst
    exact (hperm.append_left (s.fetching.map Prod.fst)).trans List.perm_middle
  have hnodup := hkeys.nodup_iff.mp hattempts.nodup
  rw [List.nodup_cons] at hnodup
  refine ⟨hnodup.2, ?_, hattempts.queued_of_step hrun hstep, ?_, ?_, ?_⟩
  · intro other hmem
    have hne : other ≠ key := by
      rintro rfl
      exact hnodup.1 hmem
    have hold := hattempts.inFlight other (hkeys.mem_iff.mpr (List.mem_cons_of_mem _ hmem))
    rw [← AList.lookup_isSome, hothers other hne]
    exact AList.lookup_isSome.mpr hold
  · intro other entry hentry
    have hne : other ≠ key := by
      rintro rfl
      rw [hgone] at hentry
      cases hentry
    rw [hothers other hne] at hentry
    refine (hattempts.pursued other entry hentry).of_erased hrun hne ?_ herased
    intro source hmem
    rwa [hfetching]
  · rw [herased]
    exact fun other hmem => (hattempts.stored other (List.mem_of_mem_erase hmem)).concat e
  · rw [herased]
    exact fun other hmem => (hattempts.panicked other (List.mem_of_mem_erase hmem)).concat e

theorem Attempts.finish (hattempts : Attempts ctx s₀ events s)
    (hrun : run (step ctx) s₀ events = some s) (hfetched : (key, result) ∈ s.fetched)
    (hstep : s.step ctx e = some (s.finish key result)) :
    Attempts ctx s₀ (events ++ [e]) (s.finish key result) := by
  obtain ⟨r, next, rfl, hfailed, hnext, hfinish⟩ | ⟨queues, hqueues, hfinish⟩ :=
    s.finish_cases key result
  · obtain ⟨entry, hlookup, hpursues⟩ := hattempts.exists_entry hfetched
    obtain ⟨next', -, hretry⟩ | ⟨hnone, -⟩ := retryFetch_of_lookup hlookup hpursues.1
    · rw [hretry] at hnext hfinish
      obtain rfl : next' = next := Option.some.inj hnext
      exact hattempts.of_retried hrun hstep hfetched hfailed hpursues (by rw [hfinish])
        (by rw [hfinish]) (by rw [hfinish])
    · rw [hnone] at hnext
      cases hnext
  · refine hattempts.of_completed hrun hstep hfetched (by rw [hfinish]) (by rw [hfinish]) ?_ ?_
    · rw [hfinish]
      exact AList.lookup_erase _ _
    · intro other hne
      have hsame : queues.inFlightFetch.lookup other = s.queues.inFlightFetch.lookup other := by
        rcases hqueues with rfl | rfl
        · rfl
        · exact lookup_retryFetch_of_ne hne
      rw [hfinish, ← hsame]
      exact AList.lookup_erase_ne hne

theorem promoteProbed_inFlightFetch {rest : List H} (readFails : Bool) :
    (s.promoteProbed ctx key rest readFails).queues.inFlightFetch = s.queues.inFlightFetch := by
  unfold promoteProbed
  simp only
  split_ifs <;> simp

theorem update_inFlightFetch {evaluated : EvaluatedKey H} {rest : List (EvaluatedKey H)} :
    (s.update ctx evaluated rest).queues.inFlightFetch = s.queues.inFlightFetch := by
  unfold update
  simp only
  split
  · split_ifs <;> simp
  · simp

theorem removeAll_inFlightFetch (keys : List H) (q : ReplicationQueues H) :
    (keys.foldl (fun q key => (q.removePending key).2) q).inFlightFetch = q.inFlightFetch := by
  induction keys generalizing q with
  | nil => rfl
  | cons key keys ih => rw [List.foldl_cons, ih, inFlightFetch_removePending]

theorem classify_inFlightFetch {rest : List H} (readFails : Bool) :
    (s.classify key rest readFails).queues.inFlightFetch = s.queues.inFlightFetch := by
  unfold classify
  split_ifs
  · simp only
    split <;> exact inFlightFetch_setPendingState _ _ _
  · rfl

theorem Attempts.step (hrun : run (step ctx) s₀ events = some s)
    (hattempts : Attempts ctx s₀ events s) (hstep : s.step ctx e = some s') :
    Attempts ctx s₀ (events ++ [e]) s' := by
  have hquiet := hattempts.of_quiet hrun hstep
  cases steps_of_step hstep with
  | elsewhere | beginCycle | probe | verify | snapshot | evaluate | insertPaid | endLoop =>
      exact hquiet rfl rfl rfl
  | hint key entry => exact hquiet rfl rfl (inFlightFetch_addPendingVerify _ _ _)
  | classify readFails =>
      exact hquiet classify_frame.fetching classify_frame.fetched (classify_inFlightFetch readFails)
  | checkPaidOnly =>
      refine hquiet checkPaidOnly_frame.fetching checkPaidOnly_frame.fetched ?_
      unfold checkPaidOnly
      split_ifs <;> rfl
  | removePaidOnly => exact hquiet rfl rfl (removeAll_inFlightFetch _ _)
  | promoteProbed readFails =>
      exact hquiet promoteProbed_frame.fetching promoteProbed_frame.fetched
        (promoteProbed_inFlightFetch readFails)
  | checkFetch =>
      refine hquiet checkFetch_frame.fetching checkFetch_frame.fetched ?_
      unfold checkFetch
      split_ifs <;> rfl
  | update => exact hquiet update_frame.fetching update_frame.fetched update_inFlightFetch
  | dequeue => exact hattempts.dequeue hrun hstep
  | @execute key source reply accepted hfetching =>
      refine hattempts.of_ended hrun hfetching hstep ?_ ?_ ?_
      · intro r hr hne
        exact ⟨hfetching, reply, accepted, rfl, fun hstored => hne (hstored ▸ Option.some.inj hr).symm⟩
      · intro hr
        exact ⟨source, reply, accepted, hfetching, rfl, mem_storage_of_stored (Option.some.inj hr)⟩
      · intro hr
        cases hr
  | @panic key source hfetching =>
      refine hattempts.of_ended hrun hfetching hstep ?_ ?_ fun _ => ⟨source, hfetching, rfl⟩
      · intro r hr
        cases hr
      · intro hr
        cases hr
  | finish hfetched => exact hattempts.finish hrun hfetched hstep

theorem attempts_start (world : RepairWorld H) : Attempts ctx s₀ [] (start world) where
  nodup := List.nodup_nil
  inFlight := by simp [start, taskKeys]
  queued := by simp [start, ReplicationQueues.new]
  pursued := by simp [start, ReplicationQueues.new]
  stored := by simp [start]
  panicked := by simp [start]

theorem attempts_of_run {world : RepairWorld H}
    (hrun : run (RepairState.step ctx) (start world) events = some s) :
    Attempts ctx (start world) events s :=
  history_induction (attempts_start world)
    (fun _ _ _ _ hmid hattempts hstep => Attempts.step hmid hattempts hstep) hrun

/-- A fetch that has failed for good has failed with every source of its candidate. -/
theorem Attempts.exhausted (hattempts : Attempts ctx s₀ events s) {r : FetchResult}
    (hfetched : (key, some r) ∈ s.fetched) (hfailed : r ≠ .stored)
    (hnone : (s.queues.retryFetch key).1 = none) :
    ∃ candidate mid later, EntersThen ctx s₀ events candidate mid later ∧ candidate.key = key ∧
      ∀ source ∈ candidate.sources,
        Occurred (RepairState.step ctx) (FailsAt ctx key source) mid later := by
  obtain ⟨entry, hlookup, hsource, candidate, mid, later, henters, hkey, hsources, htried⟩ :=
    hattempts.exists_entry hfetched
  refine ⟨candidate, mid, later, henters, hkey, fun source hmem => ?_⟩
  obtain ⟨next, -, hretry⟩ | ⟨-, hall⟩ := retryFetch_of_lookup hlookup hsource
  · rw [hretry] at hnone
    cases hnone
  · rw [hsources] at hmem
    exact hattempts.occurred_of_asked hfetched hfailed (htried source (hall source hmem))

end Steps

end RepairState

end AntNode
