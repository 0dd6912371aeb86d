import AntNode.BinaryCache
import AntNode.ReleaseMonitor
import AntNode.Lib.Runs

/-!
# The release cache

The nodes of a machine share one file of release metadata. A check reads it without a lock; where it
is missing, stale or of another repository, the check waits for an exclusive file lock, reads it again
and only then asks the API, with the lock held, and replaces the file by way of a temporary one. A
failed replacement does not fail the check.

Checks of any number of processes run side by side, a step at a time, and a process can stop at every
point, which frees its lock. A step comes with what the system answers at it: the clock, a fault, the
API's response. `serde_json` is a parameter, and reading a file that is not UTF-8 is one of its
failures. The request's URL and headers and the logging are left out.
-/

namespace AntNode.Monitor

structure CachedAsset where
  name : String
  browserDownloadUrl : String
  deriving DecidableEq

structure CachedRelease where
  tagName : String
  body : String
  prerelease : Bool
  assets : List CachedAsset
  deriving DecidableEq

structure CachedReleases where
  repo : String
  fetchedAtEpochSecs : Nat
  releases : List CachedRelease
  deriving DecidableEq

def CachedAsset.fromAsset (a : Asset) : CachedAsset := ⟨a.name, a.browserDownloadUrl⟩

def CachedAsset.toAsset (c : CachedAsset) : Asset := ⟨c.name, c.browserDownloadUrl⟩

def CachedRelease.fromGitHubRelease (r : GitHubRelease) : CachedRelease :=
  ⟨r.tagName, r.body, r.prerelease, r.assets.map .fromAsset⟩

def CachedRelease.toGitHubRelease (c : CachedRelease) : GitHubRelease :=
  ⟨c.tagName, c.body, c.prerelease, c.assets.map CachedAsset.toAsset⟩

structure ReleaseJson where
  toString : CachedReleases → Except String Bytes
  fromStr : Bytes → Option CachedReleases
  /-- The body of an API response. -/
  parseReleases : Bytes → Except String (List GitHubRelease)

structure UpgradeMonitor (V : Type) where
  repo : String
  channel : UpgradeChannel
  currentVersion : V

/-- A read of the cache file: whether it can be read, and the clock after it. -/
structure CacheRead where
  readable : Bool
  sinceEpoch : Option Nat

def readIfValid (json : ReleaseJson) (ttl : Nat) (file : Option Bytes) (repo : String)
    (read : CacheRead) : Option (List GitHubRelease) :=
  match file with
  | none => none
  | some data =>
      if !read.readable then none
      else
        match json.fromStr data with
        | none => none
        | some cached =>
            if cached.repo ≠ repo then none
            else
              match read.sinceEpoch with
              | none => none
              | some now =>
                  if now - cached.fetchedAtEpochSecs ≥ ttl then none
                  else some (cached.releases.map CachedRelease.toGitHubRelease)

def fetchReleasesFromApi (json : ReleaseJson) :
    HttpResponse → Except UpgradeError (List GitHubRelease)
  | .unsent e => .error (.network ("GitHub API request failed: " ++ e))
  | .status code => .error (.network ("GitHub API returned status: " ++ code))
  | .unread e => .error (.network ("Failed to parse releases: " ++ e))
  | .body bytes =>
      match json.parseReleases bytes with
      | .error e => .error (.network ("Failed to parse releases: " ++ e))
      | .ok releases => .ok releases

/-- What a check is about to do. From `rechecking` to `placing` it has the lock. -/
inductive CheckPhase (V : Type) where
  | idle
  | locking
  | rechecking
  | fetching
  | writing (releases : List GitHubRelease)
  | removing (releases : List GitHubRelease)
  | placing (releases : List GitHubRelease)
  | done (result : Except UpgradeError (Option (UpgradeInfo V)))

def CheckPhase.hasLock {V : Type} : CheckPhase V → Bool
  | .idle => false
  | .locking => false
  | .rechecking => true
  | .fetching => true
  | .writing _ => true
  | .removing _ => true
  | .placing _ => true
  | .done _ => false

/-- `write` is the clock, the serialisation and the temporary file, until it is synced. -/
inductive CheckEvent where
  | check (read : CacheRead)
  | lock (createFault lockFault joinFault : Option String)
  | recheck (read : CacheRead)
  | respond (response : HttpResponse)
  | write (sinceEpoch : Except String Nat) (fault : Option Fault)
  | remove (removed : Bool)
  | rename (fault : Option String)
  | stop

structure CacheDir (P V : Type) where
  releasesJson : Option Bytes
  releasesJsonTmp : Option Bytes
  releasesLock : Option P
  phase : P → CheckPhase V

namespace CacheDir

variable {P V : Type} [DecidableEq P]

def start (releasesJson releasesJsonTmp : Option Bytes) : CacheDir P V :=
  ⟨releasesJson, releasesJsonTmp, none, fun _ => .idle⟩

def goto (s : CacheDir P V) (p : P) (phase : CheckPhase V) : CacheDir P V :=
  { s with phase := Function.update s.phase p phase }

/-- The guard is dropped. -/
def unlock (s : CacheDir P V) (p : P) : CacheDir P V :=
  { s with releasesLock := if s.releasesLock = some p then none else s.releasesLock }

def finish (s : CacheDir P V) (p : P) (result : Except UpgradeError (Option (UpgradeInfo V))) :
    CacheDir P V :=
  (s.unlock p).goto p (.done result)

/-- Until the temporary file is synced. A fault midway leaves the bytes written so far. -/
def writeTmp (s : CacheDir P V) (json : ReleaseJson) (repo : String)
    (releases : List GitHubRelease) (sinceEpoch : Except String Nat) (fault : Option Fault) :
    Except UpgradeError Unit × CacheDir P V :=
  match sinceEpoch with
  | .error e => (.error (.upgrade ("System clock error: " ++ e)), s)
  | .ok now =>
      match json.toString ⟨repo, now, releases.map .fromGitHubRelease⟩ with
      | .error e => (.error (.upgrade ("Failed to serialize release cache: " ++ e)), s)
      | .ok bytes =>
          match fault with
          | some (.before e) => (.error (.io e), s)
          | some (.midway e written) =>
              (.error (.io e), { s with releasesJsonTmp := some (bytes.take written) })
          | none => (.ok (), { s with releasesJsonTmp := some bytes })

end CacheDir

/-- The machine: `serde_json`, the `semver` crate, the platform, the time a cached response is fresh,
and the monitor of each process. -/
structure Machine (P V : Type) where
  json : ReleaseJson
  semver : Semver V
  platform : Platform
  ttl : Nat
  monitor : P → UpgradeMonitor V

namespace Machine

variable {P V : Type} [DecidableEq P] [LinearOrder V] (m : Machine P V)

def select (p : P) (releases : List GitHubRelease) : Option (UpgradeInfo V) :=
  selectUpgradeFromReleases m.semver m.platform releases (m.monitor p).currentVersion
    (m.monitor p).channel

def readIfValid (s : CacheDir P V) (p : P) (read : CacheRead) : Option (List GitHubRelease) :=
  Monitor.readIfValid m.json m.ttl s.releasesJson (m.monitor p).repo read

/-- A step of `check_for_updates` with a release cache. -/
def step (s : CacheDir P V) : P × CheckEvent → Option (CacheDir P V)
  | (p, .stop) => some ((s.unlock p).goto p .idle)
  | (p, .check read) =>
      match s.phase p with
      | .idle | .done _ =>
          match m.readIfValid s p read with
          | some releases => some (s.finish p (.ok (m.select p releases)))
          | none => some (s.goto p .locking)
      | _ => none
  | (p, .lock createFault lockFault joinFault) =>
      match s.phase p with
      | .locking =>
          match joinFault, createFault, lockFault with
          | some e, _, _ => some (s.finish p (.error (.upgrade ("Cache lock task failed: " ++ e))))
          | none, some e, _ =>
              some (s.finish p (.error (.upgrade ("Failed to create release cache lock: " ++ e))))
          | none, none, some e =>
              some (s.finish p (.error (.upgrade ("Failed to acquire release cache lock: " ++ e))))
          | none, none, none =>
              if s.releasesLock.isSome then none
              else some ({ s with releasesLock := some p }.goto p .rechecking)
      | _ => none
  | (p, .recheck read) =>
      match s.phase p with
      | .rechecking =>
          match m.readIfValid s p read with
          | some releases => some (s.finish p (.ok (m.select p releases)))
          | none => some (s.goto p .fetching)
      | _ => none
  | (p, .respond response) =>
      match s.phase p with
      | .fetching =>
          match fetchReleasesFromApi m.json response with
          | .error e => some (s.finish p (.error e))
          | .ok releases => some (s.goto p (.writing releases))
      | _ => none
  | (p, .write sinceEpoch fault) =>
      match s.phase p with
      | .writing releases =>
          match s.writeTmp m.json (m.monitor p).repo releases sinceEpoch fault with
          | (.error _, s) => some (s.finish p (.ok (m.select p releases)))
          | (.ok (), s) => some (s.goto p (.removing releases))
      | _ => none
  | (p, .remove removed) =>
      match s.phase p with
      | .removing releases =>
          let s := if removed then { s with releasesJson := none } else s
          some (s.goto p (.placing releases))
      | _ => none
  | (p, .rename fault) =>
      match s.phase p with
      | .placing releases =>
          let s :=
            if fault.isSome then s
            else { s with releasesJson := s.releasesJsonTmp, releasesJsonTmp := none }
          some (s.finish p (.ok (m.select p releases)))
      | _ => none

end Machine

end AntNode.Monitor
