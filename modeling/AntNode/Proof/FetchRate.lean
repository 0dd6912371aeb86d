import AntNode.Proof.ReleaseCache

/-!
# How often the API is asked

Processes of one repository on one machine ask the API together, not each on its own: once a response
is in the cache file, no check asks again until it is stale. That holds whatever requests and writes
fail. It takes a clock that does not go back, and a replacement that is not cut short between the
removal of the old file and the renaming of the new one, since that leaves no file at all.
-/

namespace AntNode.Monitor

inductive CacheMark where
  | published (stamp : Nat)
  | asked (now : Nat)
  deriving DecidableEq

/-- A response is not asked for again while it is fresh. -/
def CacheMark.Spaced (ttl : Nat) : CacheMark → CacheMark → Prop
  | .published stamp, .asked now => stamp + ttl ≤ now
  | _, _ => True

def CheckPhase.isPlacing {V : Type} : CheckPhase V → Bool
  | .placing _ => true
  | _ => false

def CheckEvent.clock : CheckEvent → Option Nat
  | .check read => read.sinceEpoch
  | .recheck read => read.sinceEpoch
  | .write (.ok now) _ => some now
  | _ => none

namespace Machine

variable {P V : Type} [DecidableEq P] [LinearOrder V] (m : Machine P V)

/-- A response is put in place, or the API is about to be asked. -/
def mark (s : CacheDir P V) : P × CheckEvent → Option CacheMark
  | (p, .rename none) =>
      if (s.phase p).isPlacing then
        (s.releasesJsonTmp.bind m.json.fromStr).map fun cached =>
          .published cached.fetchedAtEpochSecs
      else none
  | (p, .recheck read) =>
      match s.phase p, m.readIfValid s p read with
      | .rechecking, none => read.sinceEpoch.map .asked
      | _, _ => none
  | _ => none

/-- The file and the clock can be read, and a replacement that has begun is finished. -/
def undisturbed (s : CacheDir P V) : P × CheckEvent → Bool
  | (p, .stop) => !(s.phase p).isPlacing
  | (_, .rename fault) => fault.isNone
  | (_, .recheck read) => read.readable && read.sinceEpoch.isSome
  | _ => true

def clocks (events : List (P × CheckEvent)) : List Nat := events.filterMap fun e => e.2.clock

/-- The file holds a response of `repo` written at `stamp`. -/
def Stamped (repo : String) (file : Option Bytes) (stamp : Nat) : Prop :=
  ∃ bytes releases, file = some bytes ∧ m.json.fromStr bytes = some ⟨repo, stamp, releases⟩

/-- What was published stays published until something newer is. -/
structure Paced (repo : String) (events : List (P × CheckEvent)) (s : CacheDir P V)
    (marks : List CacheMark) : Prop where
  spaced : marks.Pairwise (CacheMark.Spaced m.ttl)
  past : ∀ stamp, .published stamp ∈ marks → stamp ∈ clocks events
  tmp : ∀ p, (s.phase p).staged = true → ∃ later ∈ clocks events,
    m.Stamped repo s.releasesJsonTmp later ∧ ∀ stamp, .published stamp ∈ marks → stamp ≤ later
  file : ∀ stamp, .published stamp ∈ marks →
    (∃ later, m.Stamped repo s.releasesJson later ∧ stamp ≤ later) ∨
      ∃ p, (s.phase p).isPlacing = true

variable {m} {repo : String} {s s' : CacheDir P V} {p q : P} {event : CheckEvent}
  {events : List (P × CheckEvent)} {marks : List CacheMark}

omit [LinearOrder V] in
theorem staged_of_isPlacing {phase : CheckPhase V} (hplacing : phase.isPlacing = true) :
    phase.staged = true := by
  cases phase with
  | placing releases => rfl
  | _ => cases hplacing

omit [DecidableEq P] in
theorem mem_clocks_concat {now : Nat} (hmem : now ∈ clocks events) (e : P × CheckEvent) :
    now ∈ clocks (events ++ [e]) := by
  unfold clocks
  rw [List.filterMap_append]
  exact List.mem_append_left _ hmem

omit [DecidableEq P] in
theorem clocks_concat {now : Nat} (hnow : event.clock = some now) :
    clocks (events ++ [(p, event)]) = clocks events ++ [now] := by
  unfold clocks
  rw [List.filterMap_append]
  simp [hnow]

omit [DecidableEq P] [LinearOrder V] in
/-- A response that is not fresh any more is at least the whole time old. -/
theorem le_of_readIfValid_eq_none {read : CacheRead} {stamp now : Nat}
    (hstamped : m.Stamped (m.monitor p).repo s.releasesJson stamp) (hreadable : read.readable = true)
    (hnow : read.sinceEpoch = some now) (hread : m.readIfValid s p read = none) :
    m.ttl ≤ now - stamp := by
  obtain ⟨bytes, releases, hfile, hbytes⟩ := hstamped
  by_contra hfresh
  simp [readIfValid, Monitor.readIfValid, hfile, hbytes, hreadable, hnow, hfresh] at hread

omit [DecidableEq P] [LinearOrder V] in
/-- A step that marks nothing, leaves the file alone and touches no staged write. -/
theorem Paced.keep {e : P × CheckEvent} (hpaced : m.Paced repo events s marks)
    (hfile : s'.releasesJson = s.releasesJson)
    (hstaged : ∀ q, (s'.phase q).staged = true →
      (s.phase q).staged = true ∧ s'.releasesJsonTmp = s.releasesJsonTmp)
    (hplacing : ∀ q, (s.phase q).isPlacing = true → (s'.phase q).isPlacing = true) :
    m.Paced repo (events ++ [e]) s' marks where
  spaced := hpaced.spaced
  past := fun stamp hstamp => mem_clocks_concat (hpaced.past stamp hstamp) e
  tmp := by
    intro q hq
    obtain ⟨hold, htmp⟩ := hstaged q hq
    obtain ⟨later, hlater, hstamped, hle⟩ := hpaced.tmp q hold
    exact ⟨later, mem_clocks_concat hlater e, htmp ▸ hstamped, hle⟩
  file := by
    intro stamp hstamp
    rw [hfile]
    exact (hpaced.file stamp hstamp).imp_right fun ⟨q, hq⟩ => ⟨q, hplacing q hq⟩

omit [LinearOrder V] in
theorem Paced.move {e : P × CheckEvent} (hpaced : m.Paced repo events s marks) {phase : CheckPhase V}
    (hphase : s'.phase = Function.update s.phase p phase) (hnew : phase.staged = false)
    (hold : (s.phase p).isPlacing = false) (hfile : s'.releasesJson = s.releasesJson)
    (htmp : s'.releasesJsonTmp = s.releasesJsonTmp) :
    m.Paced repo (events ++ [e]) s' marks := by
  refine hpaced.keep hfile (fun q hq => ⟨?_, htmp⟩) (fun q hq => ?_)
  · by_cases heq : q = p
    · rw [hphase, heq, Function.update_self, hnew] at hq
      cases hq
    · rwa [hphase, Function.update_of_ne heq] at hq
  · by_cases heq : q = p
    · rw [heq, hold] at hq
      cases hq
    · rwa [hphase, Function.update_of_ne heq]

omit [DecidableEq P] [LinearOrder V] in
theorem Paced.asked (hpaced : m.Paced repo events s marks) {now : Nat}
    (hnow : ∀ stamp, .published stamp ∈ marks → stamp + m.ttl ≤ now) :
    m.Paced repo events s (marks ++ [.asked now]) := by
  have hold : ∀ stamp, .published stamp ∈ marks ++ [.asked now] → .published stamp ∈ marks := by
    intro stamp hstamp
    simpa using hstamp
  refine ⟨?_, fun stamp hstamp => hpaced.past stamp (hold stamp hstamp), ?_,
    fun stamp hstamp => hpaced.file stamp (hold stamp hstamp)⟩
  · apply List.pairwise_append.mpr
    refine ⟨hpaced.spaced, List.pairwise_singleton _ _, fun first hfirst last hlast => ?_⟩
    obtain rfl := List.mem_singleton.mp hlast
    cases first with
    | published stamp => exact hnow stamp hfirst
    | asked earlier => trivial
  · intro q hq
    obtain ⟨later, hlater, hstamped, hle⟩ := hpaced.tmp q hq
    exact ⟨later, hlater, hstamped, fun stamp hstamp => hle stamp (hold stamp hstamp)⟩

omit [DecidableEq P] [LinearOrder V] in
/-- Nothing is read before it is written. -/
theorem Paced.le_now (hpaced : m.Paced repo events s marks) {now : Nat}
    (hnow : event.clock = some now)
    (hclock : (clocks (events ++ [(p, event)])).Pairwise (· ≤ ·)) (stamp : Nat)
    (hstamp : .published stamp ∈ marks) : stamp ≤ now := by
  rw [clocks_concat hnow] at hclock
  exact (List.pairwise_append.mp hclock).2.2 stamp (hpaced.past stamp hstamp) now
    (List.mem_singleton_self now)

omit [LinearOrder V] in
/-- The check with the lock finds the newest response in the file. -/
theorem Paced.stale_step (hpaced : m.Paced (m.monitor p).repo events s marks)
    (hheld : HeldByChecks s) {read : CacheRead} {now : Nat} (hreadable : read.readable = true)
    (hnow : read.sinceEpoch = some now)
    (hclock : (clocks (events ++ [(p, .recheck read)])).Pairwise (· ≤ ·))
    (hphase : s.phase p = .rechecking) (hread : m.readIfValid s p read = none) :
    m.Paced (m.monitor p).repo (events ++ [(p, .recheck read)]) (s.goto p .fetching)
      (marks ++ [.asked now]) := by
  have hmoved : m.Paced (m.monitor p).repo (events ++ [(p, .recheck read)]) (s.goto p .fetching)
      marks := hpaced.move rfl rfl (by rw [hphase]; rfl) rfl rfl
  refine hmoved.asked fun stamp hstamp => ?_
  have hlast : (CheckEvent.recheck read).clock = some now := hnow
  have hpast : stamp ≤ now := hpaced.le_now hlast hclock stamp hstamp
  rcases hpaced.file stamp hstamp with ⟨later, hstamped, hle⟩ | ⟨q, hplacing⟩
  · have hage := le_of_readIfValid_eq_none hstamped hreadable hnow hread
    omega
  · have hlock := CheckPhase.hasLock_of_staged (staged_of_isPlacing hplacing)
    obtain rfl : p = q := hheld.unique (by rw [hphase]; rfl) hlock
    rw [hphase] at hplacing
    cases hplacing

omit [LinearOrder V] in
theorem Paced.written_step (hjson : m.RoundTrips) (hpaced : m.Paced (m.monitor p).repo events s marks)
    (hheld : HeldByChecks s) {now : Nat} {releases : List GitHubRelease} {bytes : Bytes}
    (hclock : (clocks (events ++ [(p, .write (.ok now) none)])).Pairwise (· ≤ ·))
    (hphase : s.phase p = .writing releases)
    (hbytes : m.json.toString ⟨(m.monitor p).repo, now, releases.map .fromGitHubRelease⟩ =
      .ok bytes) :
    m.Paced (m.monitor p).repo (events ++ [(p, .write (.ok now) none)])
      ({ s with releasesJsonTmp := some bytes }.goto p (.removing releases)) marks where
  spaced := hpaced.spaced
  past := fun stamp hstamp => mem_clocks_concat (hpaced.past stamp hstamp) _
  tmp := by
    intro q hq
    refine ⟨now, by rw [clocks_concat rfl]; simp, ⟨bytes, _, rfl, hjson _ _ hbytes⟩, ?_⟩
    exact hpaced.le_now rfl hclock
  file := by
    intro stamp hstamp
    refine (hpaced.file stamp hstamp).imp_right fun ⟨q, hplacing⟩ => ?_
    have hlock := CheckPhase.hasLock_of_staged (staged_of_isPlacing hplacing)
    obtain rfl : p = q := hheld.unique (by rw [hphase]; rfl) hlock
    rw [hphase] at hplacing
    cases hplacing

omit [LinearOrder V] in
theorem Paced.removed_step (hpaced : m.Paced repo events s marks) {removed : Bool}
    {releases : List GitHubRelease} (hphase : s.phase p = .removing releases) :
    m.Paced repo (events ++ [(p, .remove removed)])
      ({ s with releasesJson := if removed then none else s.releasesJson }.goto p
        (.placing releases)) marks where
  spaced := hpaced.spaced
  past := fun stamp hstamp => mem_clocks_concat (hpaced.past stamp hstamp) _
  tmp := by
    intro q hq
    have hold : (s.phase q).staged = true := by
      by_cases heq : q = p
      · rw [heq, hphase]
        rfl
      · simpa [CacheDir.goto, heq] using hq
    obtain ⟨later, hlater, hstamped, hle⟩ := hpaced.tmp q hold
    exact ⟨later, mem_clocks_concat hlater _, hstamped, hle⟩
  file := fun stamp hstamp => .inr ⟨p, by simp [CacheDir.goto, CheckPhase.isPlacing]⟩

omit [LinearOrder V] in
theorem Paced.renamed_step (hpaced : m.Paced repo events s marks) (hheld : HeldByChecks s)
    {releases : List GitHubRelease} (hphase : s.phase p = .placing releases)
    (result : Except UpgradeError (Option (UpgradeInfo V))) :
    m.Paced repo (events ++ [(p, .rename none)])
      ({ s with releasesJson := s.releasesJsonTmp, releasesJsonTmp := none }.finish p result)
      (marks ++ (m.mark s (p, .rename none)).toList) := by
  obtain ⟨later, hlater, hstamped, hle⟩ := hpaced.tmp p (by rw [hphase]; rfl)
  obtain ⟨bytes, cached, htmp, hbytes⟩ := hstamped
  have hmark : m.mark s (p, .rename none) = some (.published later) := by
    simp [mark, hphase, CheckPhase.isPlacing, htmp, hbytes]
  rw [hmark, Option.toList_some]
  have hnewest : ∀ stamp, .published stamp ∈ marks ++ [.published later] → stamp ≤ later := by
    intro stamp hstamp
    rcases List.mem_append.mp hstamp with hstamp | hstamp
    · exact hle stamp hstamp
    · cases List.mem_singleton.mp hstamp
      exact le_rfl
  refine ⟨?_, fun stamp hstamp => ?_, fun q hq => ?_, fun stamp hstamp => ?_⟩
  · apply List.pairwise_append.mpr
    refine ⟨hpaced.spaced, List.pairwise_singleton _ _, fun first hfirst last hlast => ?_⟩
    obtain rfl := List.mem_singleton.mp hlast
    cases first with
    | published stamp => trivial
    | asked earlier => trivial
  · rcases List.mem_append.mp hstamp with hstamp | hstamp
    · exact mem_clocks_concat (hpaced.past stamp hstamp) _
    · cases List.mem_singleton.mp hstamp
      exact mem_clocks_concat hlater _
  · have hne : q ≠ p := by
      rintro rfl
      simp [CacheDir.finish, CacheDir.goto, CheckPhase.staged] at hq
    have hold : (s.phase q).staged = true := by
      simpa [CacheDir.finish, CacheDir.goto, CacheDir.unlock, hne] using hq
    have hlock : (s.phase p).hasLock = true := by rw [hphase]; rfl
    exact absurd (hheld.unique (CheckPhase.hasLock_of_staged hold) hlock) hne
  · exact .inl ⟨later, ⟨bytes, cached, htmp, hbytes⟩, hnewest stamp hstamp⟩

theorem Paced.step (hjson : m.RoundTrips) (hrepo : ∀ p, (m.monitor p).repo = repo)
    (hpaced : m.Paced repo events s marks) (hheld : HeldByChecks s)
    (hundisturbed : undisturbed s (p, event) = true)
    (hclock : (clocks (events ++ [(p, event)])).Pairwise (· ≤ ·))
    (hstep : m.step s (p, event) = some s') :
    m.Paced repo (events ++ [(p, event)]) s' (marks ++ (m.mark s (p, event)).toList) := by
  obtain rfl := hrepo p
  have hunmarked (hmark : m.mark s (p, event) = none)
      (hnext : m.Paced (m.monitor p).repo (events ++ [(p, event)]) s' marks) :
      m.Paced (m.monitor p).repo (events ++ [(p, event)]) s'
        (marks ++ (m.mark s (p, event)).toList) := by
    rwa [hmark, Option.toList_none, List.append_nil]
  have hfree (hlock : (s.phase p).hasLock = false) : (s.phase p).isPlacing = false := by
    cases hphase : s.phase p with
    | placing releases =>
        rw [hphase] at hlock
        cases hlock
    | _ => rfl
  cases transition_of_step hstep with
  | stop =>
      exact hunmarked rfl (hpaced.move rfl rfl (by simpa [undisturbed] using hundisturbed) rfl rfl)
  | @hit _ read releases hevent hread =>
      rcases hevent with ⟨rfl, hlock⟩ | ⟨rfl, hphase⟩
      · exact hunmarked rfl (hpaced.move rfl rfl (hfree hlock) rfl rfl)
      · exact hunmarked (by simp [mark, hphase, hread])
          (hpaced.move rfl rfl (by rw [hphase]; rfl) rfl rfl)
  | miss hlock => exact hunmarked rfl (hpaced.move rfl rfl (hfree hlock) rfl rfl)
  | unlockable hphase =>
      exact hunmarked rfl (hpaced.move rfl rfl (by rw [hphase]; rfl) rfl rfl)
  | locked hphase hlock =>
      exact hunmarked rfl (hpaced.move rfl rfl (by rw [hphase]; rfl) rfl rfl)
  | @stale read hphase hread =>
      obtain ⟨hreadable, hsome⟩ := Bool.and_eq_true_iff.mp hundisturbed
      obtain ⟨now, hnow⟩ := Option.isSome_iff_exists.mp hsome
      have hmark : m.mark s (p, .recheck read) = some (.asked now) := by
        simp [mark, hphase, hread, hnow]
      rw [hmark, Option.toList_some]
      exact hpaced.stale_step hheld hreadable hnow hclock hphase hread
  | refused hphase => exact hunmarked rfl (hpaced.move rfl rfl (by rw [hphase]; rfl) rfl rfl)
  | fetched hphase hfetch =>
      exact hunmarked rfl (hpaced.move rfl rfl (by rw [hphase]; rfl) rfl rfl)
  | @unwritten sinceEpoch fault releases hphase tmp =>
      refine hunmarked rfl (hpaced.keep rfl (fun q hq => ?_) (fun q hq => ?_))
      · have hne : q ≠ p := by
          rintro rfl
          simp [CacheDir.finish, CacheDir.goto, CheckPhase.staged] at hq
        have hold : (s.phase q).staged = true := by
          simpa [CacheDir.finish, CacheDir.goto, CacheDir.unlock, hne] using hq
        have hlock : (s.phase p).hasLock = true := by rw [hphase]; rfl
        exact absurd (hheld.unique (CheckPhase.hasLock_of_staged hold) hlock) hne
      · have hlock := CheckPhase.hasLock_of_staged (staged_of_isPlacing hq)
        obtain rfl : p = q := hheld.unique (by rw [hphase]; rfl) hlock
        rw [hphase] at hq
        cases hq
  | written hphase hbytes =>
      exact hunmarked rfl (hpaced.written_step hjson hheld hclock hphase hbytes)
  | removed hphase => exact hunmarked rfl (hpaced.removed_step hphase)
  | unrenamed hphase => cases hundisturbed
  | renamed hphase => exact hpaced.renamed_step hheld hphase _

theorem paced_of_run {file tmp : Option Bytes} (hjson : m.RoundTrips)
    (hrepo : ∀ p, (m.monitor p).repo = repo)
    (hundisturbed : Runs.Along m.step (fun s e => undisturbed s e = true)
      (CacheDir.start file tmp) events)
    (hclock : (clocks events).Pairwise (· ≤ ·))
    (hrun : Runs.run m.step (CacheDir.start file tmp) events = some s) :
    m.Paced repo events s (Runs.trace m.step m.mark (CacheDir.start file tmp) events) := by
  refine Runs.history_induction (I := fun events s =>
    Runs.Along m.step (fun s e => undisturbed s e = true) (CacheDir.start file tmp) events →
      (clocks events).Pairwise (· ≤ ·) →
        m.Paced repo events s (Runs.trace m.step m.mark (CacheDir.start file tmp) events))
    ?_ ?_ hrun hundisturbed hclock
  · intro _ _
    exact ⟨List.Pairwise.nil, (fun stamp hstamp => by cases hstamp), (fun p hp => by cases hp),
      (fun stamp hstamp => by cases hstamp)⟩
  · rintro events mid ⟨p, event⟩ s' hmid ih hstep hundisturbed hclock
    have hbefore : (clocks events).Pairwise (· ≤ ·) := by
      rw [clocks, List.filterMap_append] at hclock
      exact (List.pairwise_append.mp hclock).1
    rw [Runs.trace_concat hmid]
    exact (ih hundisturbed.left hbefore).step hjson hrepo (machine_sound_of_run hjson hmid).held
      (hundisturbed.split hmid).2 hclock hstep

/-- Among processes of one repository, whatever requests and writes fail: once a response written at
some time is in place, no process asks the API before it has been there for the whole time a response
is fresh. -/
theorem requests_spaced {file tmp : Option Bytes} (hjson : m.RoundTrips)
    (hrepo : ∀ p q, (m.monitor p).repo = (m.monitor q).repo)
    (hundisturbed : Runs.Along m.step (fun s e => undisturbed s e = true)
      (CacheDir.start file tmp) events)
    (hclock : (clocks events).Pairwise (· ≤ ·))
    (hrun : Runs.run m.step (CacheDir.start file tmp) events = some s) :
    (Runs.trace m.step m.mark (CacheDir.start file tmp) events).Pairwise
      (CacheMark.Spaced m.ttl) := by
  cases events with
  | nil => exact List.Pairwise.nil
  | cons first rest =>
      exact (paced_of_run hjson (fun p => hrepo p first.1) hundisturbed hclock hrun).spaced

theorem trace_fetchedOnce {m : Machine Bool V} {body bytes : Bytes} {cached : CachedReleases}
    {releases : List GitHubRelease} (htexts : m.Texts body bytes cached releases) :
    (∃ s, Runs.run m.step (.start none none) (fetchedOnce body) = some s) ∧
      Runs.trace m.step m.mark (.start none none) (fetchedOnce body) =
        [.asked 90, .published 100, .asked 3700] := by
  obtain ⟨repo, fetchedAt, stored⟩ := cached
  obtain ⟨-, rfl, rfl⟩ := CachedReleases.mk.inj htexts.cached_eq
  constructor <;>
    simp [fetchedOnce, Runs.run, Runs.trace, step, mark, readIfValid, Monitor.readIfValid,
      CacheDir.start, CacheDir.goto, CacheDir.finish, CacheDir.unlock, CacheDir.writeTmp,
      fetchReleasesFromApi, Function.update, CheckPhase.isPlacing, htexts.ttl, htexts.repo,
      htexts.parseReleases, htexts.toString, htexts.fromStr]

theorem requests_spaced_shared :
    Runs.trace sharing.step sharing.mark (.start none none) sharedRun =
        [.asked 90, .published 100, .asked 3700] ∧
      (Runs.trace sharing.step sharing.mark (.start none none) sharedRun).Pairwise
        (CacheMark.Spaced sharing.ttl) := by
  obtain ⟨⟨s, hrun⟩, htrace⟩ := trace_fetchedOnce sharing_texts
  refine ⟨htrace, requests_spaced sharing_roundTrips (fun _ _ => rfl) ?_ ?_ hrun⟩
  · apply Runs.along_of_forall
    simp [sharedRun, fetchedOnce, undisturbed]
  · simp [sharedRun, fetchedOnce, clocks, CheckEvent.clock]

end Machine

end AntNode.Monitor
