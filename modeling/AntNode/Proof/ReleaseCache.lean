import AntNode.ReleaseCache
import AntNode.Lib.FirstSince
import AntNode.Lib.Linearise
import AntNode.Proof.ReleaseSelection

/-!
# What a check returns

The file lock keeps two checks from replacing the cache at once, so what is renamed into place is what
the same check has written, whole. Whatever stops or fails, the cache file is absent, as it was found,
or one API response under the repository it was fetched for.
-/

namespace AntNode.Monitor

theorem toGitHubRelease_fromGitHubRelease (r : GitHubRelease) :
    (CachedRelease.fromGitHubRelease r).toGitHubRelease = r := by
  have hassets : (r.assets.map .fromAsset).map CachedAsset.toAsset = r.assets := by
    rw [List.map_map]
    exact List.map_id _
  simp only [CachedRelease.fromGitHubRelease, CachedRelease.toGitHubRelease, hassets]

theorem map_toGitHubRelease (releases : List GitHubRelease) :
    (releases.map .fromGitHubRelease).map CachedRelease.toGitHubRelease = releases := by
  rw [List.map_map]
  calc
    releases.map (CachedRelease.toGitHubRelease ∘ .fromGitHubRelease) = releases.map id :=
      List.map_congr_left fun r _ => toGitHubRelease_fromGitHubRelease r
    _ = releases := List.map_id _

theorem readIfValid_eq_some {json : ReleaseJson} {ttl : Nat} {file : Option Bytes} {repo : String}
    {read : CacheRead} {releases : List GitHubRelease}
    (hread : readIfValid json ttl file repo read = some releases) :
    ∃ data cached now, file = some data ∧ json.fromStr data = some cached ∧ cached.repo = repo ∧
      read.sinceEpoch = some now ∧ now - cached.fetchedAtEpochSecs < ttl ∧
      releases = cached.releases.map CachedRelease.toGitHubRelease := by
  unfold readIfValid at hread
  split at hread
  · cases hread
  next data =>
    split_ifs at hread
    split at hread
    · cases hread
    next cached hcached =>
      split_ifs at hread with hrepo
      split at hread
      · cases hread
      next now hnow =>
        split_ifs at hread with hage
        exact ⟨data, cached, now, rfl, hcached, not_not.mp hrepo, hnow, not_le.mp hage,
          (Option.some.inj hread).symm⟩

namespace Machine

variable {P V : Type} [DecidableEq P] [LinearOrder V] (m : Machine P V)

/-- Everything a step of a process can do. -/
inductive Transition (s : CacheDir P V) (p : P) : CheckEvent → CacheDir P V → Prop where
  | stop : Transition s p .stop ((s.unlock p).goto p .idle)
  | hit {event : CheckEvent} {read : CacheRead} {releases : List GitHubRelease}
      (hevent : event = .check read ∧ (s.phase p).hasLock = false ∨
        event = .recheck read ∧ s.phase p = .rechecking)
      (hread : m.readIfValid s p read = some releases) :
      Transition s p event (s.finish p (.ok (m.select p releases)))
  | miss {read : CacheRead} (hphase : (s.phase p).hasLock = false) :
      Transition s p (.check read) (s.goto p .locking)
  | unlockable {createFault lockFault joinFault : Option String} {e : UpgradeError}
      (hphase : s.phase p = .locking) :
      Transition s p (.lock createFault lockFault joinFault) (s.finish p (.error e))
  | locked (hphase : s.phase p = .locking) (hlock : s.releasesLock = none) :
      Transition s p (.lock none none none) ({ s with releasesLock := some p }.goto p .rechecking)
  | stale {read : CacheRead} (hphase : s.phase p = .rechecking)
      (hread : m.readIfValid s p read = none) :
      Transition s p (.recheck read) (s.goto p .fetching)
  | refused {response : HttpResponse} {e : UpgradeError} (hphase : s.phase p = .fetching) :
      Transition s p (.respond response) (s.finish p (.error e))
  | fetched {response : HttpResponse} {releases : List GitHubRelease} (hphase : s.phase p = .fetching)
      (hfetch : fetchReleasesFromApi m.json response = .ok releases) :
      Transition s p (.respond response) (s.goto p (.writing releases))
  | unwritten {sinceEpoch : Except String Nat} {fault : Option Fault}
      {releases : List GitHubRelease} (hphase : s.phase p = .writing releases)
      (tmp : Option Bytes) :
      Transition s p (.write sinceEpoch fault)
        ({ s with releasesJsonTmp := tmp }.finish p (.ok (m.select p releases)))
  | written {now : Nat} {releases : List GitHubRelease} (hphase : s.phase p = .writing releases)
      {bytes : Bytes}
      (hbytes : m.json.toString ⟨(m.monitor p).repo, now, releases.map .fromGitHubRelease⟩ =
        .ok bytes) :
      Transition s p (.write (.ok now) none)
        ({ s with releasesJsonTmp := some bytes }.goto p (.removing releases))
  | removed {removed : Bool} {releases : List GitHubRelease}
      (hphase : s.phase p = .removing releases) :
      Transition s p (.remove removed)
        ({ s with releasesJson := if removed then none else s.releasesJson }.goto p
          (.placing releases))
  | unrenamed {e : String} {releases : List GitHubRelease} (hphase : s.phase p = .placing releases) :
      Transition s p (.rename (some e)) (s.finish p (.ok (m.select p releases)))
  | renamed {releases : List GitHubRelease} (hphase : s.phase p = .placing releases) :
      Transition s p (.rename none)
        ({ s with releasesJson := s.releasesJsonTmp, releasesJsonTmp := none }.finish p
          (.ok (m.select p releases)))

variable {m} {s s' : CacheDir P V} {p : P} {event : CheckEvent}

theorem transition_of_step (hstep : m.step s (p, event) = some s') : m.Transition s p event s' := by
  cases event with
  | stop =>
      obtain rfl := Option.some.inj hstep
      exact .stop
  | check read =>
      simp only [step] at hstep
      cases hread : m.readIfValid s p read with
      | some releases =>
          have hhit (hphase : (s.phase p).hasLock = false)
              (hstep : some (s.finish p (.ok (m.select p releases))) = some s') :
              m.Transition s p (.check read) s' := by
            obtain rfl := Option.some.inj hstep
            exact .hit (.inl ⟨rfl, hphase⟩) hread
          rw [hread] at hstep
          cases hphase : s.phase p with
          | idle =>
              rw [hphase] at hstep
              exact hhit (by rw [hphase]; rfl) hstep
          | done result =>
              rw [hphase] at hstep
              exact hhit (by rw [hphase]; rfl) hstep
          | _ => rw [hphase] at hstep; cases hstep
      | none =>
          have hmiss (hphase : (s.phase p).hasLock = false)
              (hstep : some (s.goto p .locking) = some s') : m.Transition s p (.check read) s' := by
            obtain rfl := Option.some.inj hstep
            exact .miss hphase
          rw [hread] at hstep
          cases hphase : s.phase p with
          | idle =>
              rw [hphase] at hstep
              exact hmiss (by rw [hphase]; rfl) hstep
          | done result =>
              rw [hphase] at hstep
              exact hmiss (by rw [hphase]; rfl) hstep
          | _ => rw [hphase] at hstep; cases hstep
  | lock createFault lockFault joinFault =>
      simp only [step] at hstep
      split at hstep
      next hphase =>
        split at hstep
        · obtain rfl := Option.some.inj hstep
          exact .unlockable hphase
        · obtain rfl := Option.some.inj hstep
          exact .unlockable hphase
        · obtain rfl := Option.some.inj hstep
          exact .unlockable hphase
        · split_ifs at hstep with hlock
          obtain rfl := Option.some.inj hstep
          exact .locked hphase (Option.not_isSome_iff_eq_none.mp hlock)
      · cases hstep
  | recheck read =>
      simp only [step] at hstep
      split at hstep
      next hphase =>
        split at hstep
        next releases hread =>
          obtain rfl := Option.some.inj hstep
          exact .hit (.inr ⟨rfl, hphase⟩) hread
        next hread =>
          obtain rfl := Option.some.inj hstep
          exact .stale hphase hread
      · cases hstep
  | respond response =>
      simp only [step] at hstep
      split at hstep
      next hphase =>
        split at hstep
        · obtain rfl := Option.some.inj hstep
          exact .refused hphase
        next releases hfetch =>
          obtain rfl := Option.some.inj hstep
          exact .fetched hphase hfetch
      · cases hstep
  | write sinceEpoch fault =>
      simp only [step] at hstep
      split at hstep
      next releases hphase =>
        unfold CacheDir.writeTmp at hstep
        cases sinceEpoch with
        | error e =>
            obtain rfl := Option.some.inj hstep
            exact .unwritten hphase s.releasesJsonTmp
        | ok now =>
            cases hbytes : m.json.toString
                ⟨(m.monitor p).repo, now, releases.map .fromGitHubRelease⟩ with
            | error e =>
                simp only [hbytes] at hstep
                obtain rfl := Option.some.inj hstep
                exact .unwritten hphase s.releasesJsonTmp
            | ok bytes =>
                simp only [hbytes] at hstep
                cases fault with
                | none =>
                    obtain rfl := Option.some.inj hstep
                    exact .written hphase hbytes
                | some fault =>
                    cases fault with
                    | before e =>
                        obtain rfl := Option.some.inj hstep
                        exact .unwritten hphase s.releasesJsonTmp
                    | midway e written =>
                        obtain rfl := Option.some.inj hstep
                        exact .unwritten hphase (some (bytes.take written))
      · cases hstep
  | remove removed =>
      simp only [step] at hstep
      split at hstep
      next releases hphase =>
        obtain rfl := Option.some.inj hstep
        have htransition : m.Transition s p (.remove removed) _ := .removed hphase
        cases removed with
        | false => exact htransition
        | true => exact htransition
      · cases hstep
  | rename fault =>
      simp only [step] at hstep
      split at hstep
      next releases hphase =>
        obtain rfl := Option.some.inj hstep
        cases fault with
        | some e => exact .unrenamed hphase
        | none => exact .renamed hphase
      · cases hstep

/-! ### The lock -/

def HeldByChecks (s : CacheDir P V) : Prop :=
  ∀ p, (s.phase p).hasLock = true ↔ s.releasesLock = some p

omit [LinearOrder V] in
theorem HeldByChecks.goto {phase : CheckPhase V} (hheld : HeldByChecks s)
    (hphase : phase.hasLock = (s.phase p).hasLock) : HeldByChecks (s.goto p phase) := by
  intro q
  by_cases heq : q = p
  · subst heq
    simp only [CacheDir.goto, Function.update_self, hphase, hheld q]
  · simp only [CacheDir.goto, Function.update_of_ne heq, hheld q]

omit [LinearOrder V] in
theorem HeldByChecks.release {phase : CheckPhase V} (hheld : HeldByChecks s)
    (hphase : phase.hasLock = false) : HeldByChecks ((s.unlock p).goto p phase) := by
  intro q
  by_cases heq : q = p
  · subst heq
    simp only [CacheDir.goto, CacheDir.unlock, Function.update_self, hphase, Bool.false_eq_true,
      false_iff]
    split_ifs with hlock
    · exact not_false
    · exact hlock
  · simp only [CacheDir.goto, CacheDir.unlock, Function.update_of_ne heq, hheld q]
    split_ifs with hlock
    · rw [hlock, Option.some_inj]
      exact ⟨fun hpq => absurd hpq.symm heq, fun hnone => by cases hnone⟩
    · exact Iff.rfl

omit [DecidableEq P] [LinearOrder V] in
theorem HeldByChecks.unique (hheld : HeldByChecks s) {q : P} (hp : (s.phase p).hasLock = true)
    (hq : (s.phase q).hasLock = true) : p = q :=
  Option.some.inj (((hheld p).mp hp).symm.trans ((hheld q).mp hq))

theorem HeldByChecks.step (hheld : HeldByChecks s) (htransition : m.Transition s p event s') :
    HeldByChecks s' := by
  cases htransition with
  | stop => exact hheld.release rfl
  | hit hevent hread => exact hheld.release rfl
  | miss hphase => exact hheld.goto hphase.symm
  | unlockable hphase => exact hheld.release rfl
  | locked hphase hlock =>
      intro q
      by_cases heq : q = p
      · subst heq
        simp [CacheDir.goto, CheckPhase.hasLock]
      · have hfree : (s.phase q).hasLock = false := by
          rw [← Bool.not_eq_true, hheld q, hlock]
          exact fun hnone => by cases hnone
        simp only [CacheDir.goto, Function.update_of_ne heq, hfree, Bool.false_eq_true, false_iff,
          Option.some_inj]
        exact fun hpq => heq hpq.symm
  | stale hphase hread => exact hheld.goto (by rw [hphase]; rfl)
  | refused hphase => exact hheld.release rfl
  | fetched hphase hfetch => exact hheld.goto (by rw [hphase]; rfl)
  | unwritten hphase tmp =>
      exact HeldByChecks.release (s := { s with releasesJsonTmp := tmp }) hheld rfl
  | @written now releases hphase bytes hbytes =>
      exact HeldByChecks.goto (s := { s with releasesJsonTmp := some bytes }) hheld
        (by rw [hphase]; rfl)
  | @removed removed releases hphase =>
      exact HeldByChecks.goto
        (s := { s with releasesJson := if removed then none else s.releasesJson }) hheld
        (by rw [hphase]; rfl)
  | unrenamed hphase => exact hheld.release rfl
  | renamed hphase =>
      exact HeldByChecks.release
        (s := { s with releasesJson := s.releasesJsonTmp, releasesJsonTmp := none }) hheld rfl

/-! ### Where releases come from -/

/-- The API answers a request of `p`. -/
def Fetches (m : Machine P V) (p : P) (event : P × CheckEvent) (releases : List GitHubRelease) :
    Prop :=
  ∃ response, event = (p, .respond response) ∧ fetchReleasesFromApi m.json response = .ok releases

/-- The clock after `p` has read the cache file. -/
def Reads (p : P) (event : P × CheckEvent) (now : Nat) : Prop :=
  ∃ read, (event = (p, .check read) ∨ event = (p, .recheck read)) ∧ read.sinceEpoch = some now

def Begins (p : P) (event : P × CheckEvent) : Prop := ∃ read, event = (p, .check read)

/-- Some process fetched the releases for `repo` and wrote them down at `stamp`. -/
def Published (m : Machine P V) (init : CacheDir P V) (events : List (P × CheckEvent))
    (repo : String) (stamp : Nat) (releases : List GitHubRelease) : Prop :=
  ∃ q, (m.monitor q).repo = repo ∧ (∃ fetch ∈ events, m.Fetches q fetch releases) ∧
    Runs.Occurred m.step (fun mid write =>
      mid.phase q = .writing releases ∧ write = (q, .write (.ok stamp) none)) init events

/-- The bytes are a whole response, published before. -/
def Whole (m : Machine P V) (init : CacheDir P V) (events : List (P × CheckEvent))
    (bytes : Bytes) : Prop :=
  ∃ repo stamp releases,
    m.json.fromStr bytes = some ⟨repo, stamp, releases.map .fromGitHubRelease⟩ ∧
      m.Published init events repo stamp releases

/-- The releases come from the cache file, which `p` found fresh. -/
def FromCache (m : Machine P V) (init : CacheDir P V) (events : List (P × CheckEvent)) (p : P)
    (releases : List GitHubRelease) : Prop :=
  ∃ before now stamp, FirstSince.Surviving (Reads p) (Begins p) events before now ∧
    now - stamp < m.ttl ∧
      (m.Published init before (m.monitor p).repo stamp releases ∨
        ∃ bytes cached, init.releasesJson = some bytes ∧ m.json.fromStr bytes = some cached ∧
          cached.repo = (m.monitor p).repo ∧ cached.fetchedAtEpochSecs = stamp ∧
          releases = cached.releases.map CachedRelease.toGitHubRelease)

/-- The releases come from the API, which `p` asked in this check. -/
def FromApi (m : Machine P V) (events : List (P × CheckEvent)) (p : P)
    (releases : List GitHubRelease) : Prop :=
  ∃ before, FirstSince.Surviving (m.Fetches p) (Begins p) events before releases

variable {init : CacheDir P V} {events : List (P × CheckEvent)} {releases : List GitHubRelease}
  {q : P}

theorem Published.concat {repo : String} {stamp : Nat}
    (hpublished : m.Published init events repo stamp releases) (e : P × CheckEvent) :
    m.Published init (events ++ [e]) repo stamp releases := by
  obtain ⟨q, hrepo, ⟨fetch, hfetch, hreleases⟩, hwrite⟩ := hpublished
  exact ⟨q, hrepo, ⟨fetch, List.mem_append_left _ hfetch, hreleases⟩, hwrite.concat e⟩

theorem Whole.concat {bytes : Bytes} (hwhole : m.Whole init events bytes) (e : P × CheckEvent) :
    m.Whole init (events ++ [e]) bytes := by
  obtain ⟨repo, stamp, releases, hbytes, hpublished⟩ := hwhole
  exact ⟨repo, stamp, releases, hbytes, hpublished.concat e⟩

omit [DecidableEq P] [LinearOrder V] in
theorem FromApi.concat {e : P × CheckEvent} (hapi : m.FromApi events p releases)
    (he : ¬ Begins p e) : m.FromApi (events ++ [e]) p releases := by
  obtain ⟨before, hsurviving⟩ := hapi
  exact ⟨before, hsurviving.concat he⟩

theorem FromCache.concat {e : P × CheckEvent} (hcache : m.FromCache init events p releases)
    (he : ¬ Begins p e) : m.FromCache init (events ++ [e]) p releases := by
  obtain ⟨before, now, stamp, hsurviving, hfresh⟩ := hcache
  exact ⟨before, now, stamp, hsurviving.concat he, hfresh⟩

omit [DecidableEq P] in
theorem not_begins_of_ne (hne : q ≠ p) : ¬ Begins q (p, event) := by
  rintro ⟨read, heq⟩
  exact hne (congrArg Prod.fst heq).symm

omit [DecidableEq P] in
theorem not_begins (hevent : ∀ read, event ≠ .check read) : ¬ Begins q (p, event) := by
  rintro ⟨read, heq⟩
  exact hevent read (congrArg Prod.snd heq)

end Machine

namespace CheckPhase

variable {V : Type}

/-- The releases of a check that has fetched and not yet returned. -/
def releases : CheckPhase V → Option (List GitHubRelease)
  | .writing releases => some releases
  | .removing releases => some releases
  | .placing releases => some releases
  | _ => none

/-- The temporary file is written. -/
def staged : CheckPhase V → Bool
  | .removing _ => true
  | .placing _ => true
  | _ => false

theorem hasLock_of_staged {phase : CheckPhase V} (hstaged : phase.staged = true) :
    phase.hasLock = true := by
  cases phase with
  | removing releases => rfl
  | placing releases => rfl
  | _ => cases hstaged

end CheckPhase

namespace Machine

variable {P V : Type} [DecidableEq P] [LinearOrder V] {m : Machine P V}
  {s s' init : CacheDir P V} {p q : P} {event : CheckEvent} {events : List (P × CheckEvent)}

theorem Transition.phase_of_ne (htransition : m.Transition s p event s') (hne : q ≠ p) :
    s'.phase q = s.phase q := by
  cases htransition <;> exact Function.update_of_ne hne _ _

/-- What the checks and the files of a machine hold. -/
structure Sound (m : Machine P V) (init : CacheDir P V) (events : List (P × CheckEvent))
    (s : CacheDir P V) : Prop where
  held : HeldByChecks s
  fetched : ∀ p releases, (s.phase p).releases = some releases → m.FromApi events p releases
  staged : ∀ p, (s.phase p).staged = true →
    ∃ bytes, s.releasesJsonTmp = some bytes ∧ m.Whole init events bytes
  file : ∀ bytes, s.releasesJson = some bytes →
    init.releasesJson = some bytes ∨ m.Whole init events bytes
  result : ∀ p upgrade, s.phase p = .done (.ok upgrade) → ∃ releases,
    upgrade = m.select p releases ∧ (m.FromApi events p releases ∨ m.FromCache init events p releases)

theorem Sound.fetched_step (hsound : m.Sound init events s)
    (htransition : m.Transition s p event s') (releases : List GitHubRelease)
    (hreleases : (s'.phase p).releases = some releases) :
    m.FromApi (events ++ [(p, event)]) p releases := by
  cases htransition with
  | stop | hit | miss | unlockable | locked | stale | refused | unwritten | unrenamed | renamed =>
      simp [CacheDir.goto, CacheDir.finish, CheckPhase.releases] at hreleases
  | @fetched response found hphase hfetch =>
      obtain rfl : found = releases := by
        simpa [CacheDir.goto, CheckPhase.releases] using hreleases
      exact ⟨events, FirstSince.surviving_concat_self ⟨response, rfl, hfetch⟩⟩
  | @written now found hphase bytes hbytes =>
      obtain rfl : found = releases := by
        simpa [CacheDir.goto, CheckPhase.releases] using hreleases
      have hold := hsound.fetched p found (by rw [hphase]; rfl)
      exact hold.concat (not_begins fun read hread => by cases hread)
  | @removed removed found hphase =>
      obtain rfl : found = releases := by
        simpa [CacheDir.goto, CheckPhase.releases] using hreleases
      have hold := hsound.fetched p found (by rw [hphase]; rfl)
      exact hold.concat (not_begins fun read hread => by cases hread)

/-- A check that has fetched has its answer, whatever becomes of the cache file. -/
theorem Sound.result_of_fetched (hsound : m.Sound init events s) {releases : List GitHubRelease}
    (hreleases : (s.phase p).releases = some releases) {upgrade : Option (UpgradeInfo V)}
    (hupgrade : m.select p releases = upgrade) (hevent : ∀ read, event ≠ .check read) :
    ∃ releases, upgrade = m.select p releases ∧
      (m.FromApi (events ++ [(p, event)]) p releases ∨
        m.FromCache init (events ++ [(p, event)]) p releases) :=
  ⟨releases, hupgrade.symm, .inl ((hsound.fetched p releases hreleases).concat (not_begins hevent))⟩

theorem Sound.fromCache_of_hit (hsound : m.Sound init events s) {read : CacheRead}
    {releases : List GitHubRelease}
    (hevent : event = .check read ∧ (s.phase p).hasLock = false ∨
      event = .recheck read ∧ s.phase p = .rechecking)
    (hread : m.readIfValid s p read = some releases) :
    m.FromCache init (events ++ [(p, event)]) p releases := by
  obtain ⟨data, cached, now, hfile, hdata, hrepo, hnow, hfresh, rfl⟩ := readIfValid_eq_some hread
  have hreads : Reads p (p, event) now := by
    rcases hevent with ⟨rfl, -⟩ | ⟨rfl, -⟩
    · exact ⟨read, .inl rfl, hnow⟩
    · exact ⟨read, .inr rfl, hnow⟩
  refine ⟨events, now, cached.fetchedAtEpochSecs, FirstSince.surviving_concat_self hreads, hfresh, ?_⟩
  rcases hsound.file data hfile with hinit | ⟨repo, stamp, releases, hwhole, hpublished⟩
  · exact .inr ⟨data, cached, hinit, hdata, hrepo, rfl, rfl⟩
  · obtain rfl := Option.some.inj (hdata.symm.trans hwhole)
    obtain rfl : repo = (m.monitor p).repo := hrepo
    left
    rw [map_toGitHubRelease]
    exact hpublished

theorem Sound.result_step (hsound : m.Sound init events s)
    (htransition : m.Transition s p event s') (upgrade : Option (UpgradeInfo V))
    (hresult : s'.phase p = .done (.ok upgrade)) :
    ∃ releases, upgrade = m.select p releases ∧
      (m.FromApi (events ++ [(p, event)]) p releases ∨
        m.FromCache init (events ++ [(p, event)]) p releases) := by
  cases htransition with
  | stop | miss | unlockable | locked | stale | refused | fetched | written | removed =>
      simp [CacheDir.goto, CacheDir.finish] at hresult
  | @hit _ read releases hevent hread =>
      have hupgrade : m.select p releases = upgrade := by
        simpa [CacheDir.goto, CacheDir.finish] using hresult
      exact ⟨releases, hupgrade.symm, .inr (hsound.fromCache_of_hit hevent hread)⟩
  | unwritten hphase tmp =>
      refine hsound.result_of_fetched (by rw [hphase]; rfl) ?_ (fun read hread => by cases hread)
      simpa [CacheDir.goto, CacheDir.finish] using hresult
  | unrenamed hphase =>
      refine hsound.result_of_fetched (by rw [hphase]; rfl) ?_ (fun read hread => by cases hread)
      simpa [CacheDir.goto, CacheDir.finish] using hresult
  | renamed hphase =>
      refine hsound.result_of_fetched (by rw [hphase]; rfl) ?_ (fun read hread => by cases hread)
      simpa [CacheDir.goto, CacheDir.finish] using hresult

/-- What is serialised can be read back. -/
def RoundTrips (m : Machine P V) : Prop :=
  ∀ cached bytes, m.json.toString cached = .ok bytes → m.json.fromStr bytes = some cached

theorem Sound.whole_of_written (hjson : m.RoundTrips) (hsound : m.Sound init events s)
    (hrun : Runs.run m.step init events = some s) {now : Nat} {releases : List GitHubRelease}
    (hphase : s.phase p = .writing releases) {bytes : Bytes}
    (hbytes : m.json.toString ⟨(m.monitor p).repo, now, releases.map .fromGitHubRelease⟩ =
      .ok bytes) :
    m.Whole init (events ++ [(p, .write (.ok now) none)]) bytes := by
  obtain ⟨before, fetch, after, heq, hfetch, -⟩ := hsound.fetched p releases (by rw [hphase]; rfl)
  have hmem : fetch ∈ events ++ [(p, .write (.ok now) none)] := by
    rw [heq]
    simp
  exact ⟨(m.monitor p).repo, now, releases, hjson _ _ hbytes, p, rfl, ⟨fetch, hmem, hfetch⟩,
    Runs.occurred_concat_self hrun ⟨hphase, rfl⟩⟩

/-- Only the check with the lock touches the temporary file. -/
theorem Sound.staged_step (hjson : m.RoundTrips) (hsound : m.Sound init events s)
    (hrun : Runs.run m.step init events = some s) (htransition : m.Transition s p event s')
    (hheld : HeldByChecks s') (hstaged : (s'.phase q).staged = true) :
    ∃ bytes, s'.releasesJsonTmp = some bytes ∧ m.Whole init (events ++ [(p, event)]) bytes := by
  have hkeep (htmp : s'.releasesJsonTmp = s.releasesJsonTmp) (hold : (s.phase q).staged = true) :
      ∃ bytes, s'.releasesJsonTmp = some bytes ∧ m.Whole init (events ++ [(p, event)]) bytes := by
    obtain ⟨bytes, hbytes, hwhole⟩ := hsound.staged q hold
    exact ⟨bytes, htmp.trans hbytes, hwhole.concat _⟩
  by_cases heq : q = p
  · subst heq
    cases htransition with
    | stop | hit | miss | unlockable | locked | stale | refused | fetched | unwritten | unrenamed
      | renamed => simp [CacheDir.goto, CacheDir.finish, CheckPhase.staged] at hstaged
    | @written now releases hphase bytes hbytes =>
        exact ⟨bytes, rfl, hsound.whole_of_written hjson hrun hphase hbytes⟩
    | removed hphase => exact hkeep rfl (by rw [hphase]; rfl)
  · have hold : (s.phase q).staged = true := htransition.phase_of_ne heq ▸ hstaged
    have hother (hlock : (s.phase p).hasLock = true) : False :=
      heq (hsound.held.unique (CheckPhase.hasLock_of_staged hold) hlock)
    cases htransition with
    | stop | hit | miss | unlockable | locked | stale | refused | fetched | removed | unrenamed =>
        exact hkeep rfl hold
    | unwritten hphase tmp => exact (hother (by rw [hphase]; rfl)).elim
    | written hphase hbytes => exact (hother (by rw [hphase]; rfl)).elim
    | renamed hphase => exact (hother (by rw [hphase]; rfl)).elim

theorem Sound.file_step (hsound : m.Sound init events s)
    (htransition : m.Transition s p event s') (bytes : Bytes)
    (hfile : s'.releasesJson = some bytes) :
    init.releasesJson = some bytes ∨ m.Whole init (events ++ [(p, event)]) bytes := by
  have hkeep (hold : s.releasesJson = some bytes) :
      init.releasesJson = some bytes ∨ m.Whole init (events ++ [(p, event)]) bytes :=
    (hsound.file bytes hold).imp_right fun hwhole => hwhole.concat _
  cases htransition with
  | stop | hit | miss | unlockable | locked | stale | refused | fetched | unwritten | written
    | unrenamed => exact hkeep hfile
  | @removed removed releases hphase =>
      cases removed with
      | true => cases hfile
      | false => exact hkeep hfile
  | renamed hphase =>
      obtain ⟨tmp, htmp, hwhole⟩ := hsound.staged p (by rw [hphase]; rfl)
      obtain rfl : tmp = bytes := Option.some.inj (htmp.symm.trans hfile)
      exact .inr (hwhole.concat _)

theorem Sound.step (hjson : m.RoundTrips) (hsound : m.Sound init events s)
    (hrun : Runs.run m.step init events = some s) (hstep : m.step s (p, event) = some s') :
    m.Sound init (events ++ [(p, event)]) s' := by
  have htransition := transition_of_step hstep
  have hheld := hsound.held.step htransition
  refine ⟨hheld, fun q releases hreleases => ?_,
    fun q => hsound.staged_step hjson hrun htransition hheld, hsound.file_step htransition,
    fun q upgrade hresult => ?_⟩
  · by_cases heq : q = p
    · subst heq
      exact hsound.fetched_step htransition releases hreleases
    · rw [htransition.phase_of_ne heq] at hreleases
      exact (hsound.fetched q releases hreleases).concat (not_begins_of_ne heq)
  · by_cases heq : q = p
    · subst heq
      exact hsound.result_step htransition upgrade hresult
    · rw [htransition.phase_of_ne heq] at hresult
      obtain ⟨releases, hupgrade, hfrom⟩ := hsound.result q upgrade hresult
      refine ⟨releases, hupgrade, hfrom.imp ?_ ?_⟩
      · exact fun hapi => hapi.concat (not_begins_of_ne heq)
      · exact fun hcache => hcache.concat (not_begins_of_ne heq)

theorem sound_start (file tmp : Option Bytes) :
    m.Sound (CacheDir.start file tmp) [] (CacheDir.start file tmp : CacheDir P V) where
  held := fun p => ⟨(fun hlock => by cases hlock), (fun hlock => by cases hlock)⟩
  fetched := fun p releases hreleases => by cases hreleases
  staged := fun p hstaged => by cases hstaged
  file := fun bytes hfile => .inl hfile
  result := fun p upgrade hresult => by cases hresult

theorem machine_sound_of_run {file tmp : Option Bytes} (hjson : m.RoundTrips)
    (hrun : Runs.run m.step (CacheDir.start file tmp) events = some s) :
    m.Sound (CacheDir.start file tmp) events s := by
  refine Runs.history_induction (I := m.Sound (CacheDir.start file tmp))
    (sound_start file tmp) ?_ hrun
  intro events mid e s' hmid ih hstep
  exact ih.step hjson hmid hstep

/-- In every interleaving of checks, with any faults and any process stopping anywhere: one check at
a time has the lock, the cache file is absent, untouched or one whole response, and every upgrade a
check finds is chosen from what the API answered in that check, or from a fresh entry of the
process's own repository. -/
theorem checks_sound {file tmp : Option Bytes} (hjson : m.RoundTrips)
    (hrun : Runs.run m.step (CacheDir.start file tmp) events = some s) :
    (∀ p q, (s.phase p).hasLock = true → (s.phase q).hasLock = true → p = q) ∧
    (∀ bytes, s.releasesJson = some bytes →
      file = some bytes ∨ m.Whole (CacheDir.start file tmp) events bytes) ∧
    (∀ p upgrade, s.phase p = .done (.ok upgrade) → ∃ releases,
      upgrade = m.select p releases ∧
        (m.FromApi events p releases ∨ m.FromCache (CacheDir.start file tmp) events p releases)) := by
  have hsound := machine_sound_of_run hjson hrun
  exact ⟨fun p q hp hq => hsound.held.unique hp hq, hsound.file, hsound.result⟩

/-! ### Two processes, one response -/

/-- Both wait for the lock; the first fetches, the second reads what the first wrote, and asks again
when it is stale. -/
def fetchedOnce (body : Bytes) : List (Bool × CheckEvent) :=
  [(true, .check ⟨true, some 90⟩), (false, .check ⟨true, some 90⟩), (true, .lock none none none),
    (true, .recheck ⟨true, some 90⟩), (true, .respond (.body body)),
    (true, .write (.ok 100) none), (true, .remove false), (true, .rename none),
    (false, .lock none none none), (false, .recheck ⟨true, some 3699⟩),
    (false, .check ⟨true, some 3700⟩), (false, .lock none none none),
    (false, .recheck ⟨true, some 3700⟩)]

/-- One repository, fresh for an hour; the body parses to these releases and they are cached as
these bytes. -/
structure Texts (m : Machine Bool V) (body bytes : Bytes) (cached : CachedReleases)
    (releases : List GitHubRelease) : Prop where
  ttl : m.ttl = 3600
  repo : ∀ p, (m.monitor p).repo = cached.repo
  parseReleases : m.json.parseReleases body = .ok releases
  cached_eq : cached = ⟨cached.repo, 100, releases.map .fromGitHubRelease⟩
  toString : m.json.toString cached = .ok bytes
  fromStr : m.json.fromStr bytes = some cached

theorem run_fetchedOnce {m : Machine Bool V} {body bytes : Bytes} {cached : CachedReleases}
    {releases : List GitHubRelease} (htexts : m.Texts body bytes cached releases) :
    ∃ s, Runs.run m.step (.start none none) ((fetchedOnce body).take 10) = some s ∧
      s.releasesJson = some bytes ∧ s.phase false = .done (.ok (m.select false releases)) := by
  obtain ⟨repo, fetchedAt, stored⟩ := cached
  obtain ⟨-, rfl, rfl⟩ := CachedReleases.mk.inj htexts.cached_eq
  have hback : releases.map (CachedRelease.toGitHubRelease ∘ CachedRelease.fromGitHubRelease) =
      releases := by
    refine (List.map_congr_left fun r _ => ?_).trans (List.map_id _)
    exact toGitHubRelease_fromGitHubRelease r
  simp [fetchedOnce, Runs.run, step, readIfValid, Monitor.readIfValid, CacheDir.start,
    CacheDir.goto, CacheDir.finish, CacheDir.unlock, CacheDir.writeTmp, fetchReleasesFromApi,
    Function.update, htexts.ttl, htexts.repo, htexts.parseReleases, htexts.toString,
    htexts.fromStr, hback]

def textBytes (text : String) : Bytes := text.toList.map fun c => UInt8.ofNat c.toNat

/-- The release as the API and the cache write it. -/
def sharedReleaseText : String :=
  "\x7b\"tag_name\":\"v1.1.0\",\"name\":\"1.1.0\",\"body\":\"notes\",\"prerelease\":false," ++
    "\"assets\":[\x7b\"name\":\"ant-node-x86_64-linux\"," ++
    "\"browser_download_url\":\"https://example.com/beta\"\x7d," ++
    "\x7b\"name\":\"ant-node-x86_64-linux.sig\"," ++
    "\"browser_download_url\":\"https://example.com/beta.sig\"\x7d]\x7d"

def sharedRelease : GitHubRelease :=
  ⟨"v1.1.0", "notes", false, [linuxBinary, linuxSignature]⟩

def sharedBody : Bytes := textBytes ("[" ++ sharedReleaseText ++ "]")

def sharedBytes : Bytes :=
  textBytes ("\x7b\"repo\":\"o/r\",\"fetched_at_epoch_secs\":100,\"releases\":[" ++
    sharedReleaseText ++ "]\x7d")

def sharedCache : CachedReleases := ⟨"o/r", 100, [.fromGitHubRelease sharedRelease]⟩

def sharedUpgrade : UpgradeInfo (ℕ ×ₗ ℕ ×ₗ ℕ) :=
  ⟨toLex (1, toLex (1, 0)), linuxBinary.browserDownloadUrl, linuxSignature.browserDownloadUrl,
    "notes"⟩

/-- Two processes of one repository at version 1.0.0, with `serde_json` on these texts. -/
def sharing : Machine Bool (ℕ ×ₗ ℕ ×ₗ ℕ) where
  json :=
    { toString := fun cached =>
        if cached = sharedCache then .ok sharedBytes else .error "unknown value"
      fromStr := fun bytes => if bytes = sharedBytes then some sharedCache else none
      parseReleases := fun bytes =>
        if bytes = sharedBody then .ok [sharedRelease] else .error "unknown text" }
  semver := plainSemver
  platform := ⟨"x86_64", "linux"⟩
  ttl := 3600
  monitor := fun _ => ⟨"o/r", .stable, toLex (1, toLex (0, 0))⟩

def sharedRun : List (Bool × CheckEvent) := fetchedOnce sharedBody

theorem sharing_roundTrips : sharing.RoundTrips := by
  intro cached bytes hbytes
  simp only [sharing] at hbytes ⊢
  split_ifs at hbytes with hcached
  obtain rfl := Except.ok.inj hbytes
  rw [if_pos rfl, hcached]

theorem sharing_texts : sharing.Texts sharedBody sharedBytes sharedCache [sharedRelease] where
  ttl := rfl
  repo := fun _ => rfl
  parseReleases := by simp [sharing]
  cached_eq := rfl
  toString := by simp [sharing]
  fromStr := by simp [sharing]

theorem sharing_select : sharing.select false [sharedRelease] = some sharedUpgrade := by
  decide +kernel

/-- The second process finds version 1.1.0 in what the first has fetched. -/
theorem checks_sound_shared :
    ∃ s, Runs.run sharing.step (.start none none) (sharedRun.take 10) = some s ∧
      s.releasesJson = some sharedBytes ∧ s.phase false = .done (.ok (some sharedUpgrade)) ∧
      ∃ releases, some sharedUpgrade = sharing.select false releases ∧
        (sharing.FromApi (sharedRun.take 10) false releases ∨
          sharing.FromCache (.start none none) (sharedRun.take 10) false releases) := by
  obtain ⟨s, hrun, hfile, hdone⟩ := run_fetchedOnce sharing_texts
  rw [sharing_select] at hdone
  exact ⟨s, hrun, hfile, hdone, (checks_sound sharing_roundTrips hrun).2.2 false _ hdone⟩

end Machine

end AntNode.Monitor
