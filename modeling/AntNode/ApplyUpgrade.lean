import Mathlib.Order.Defs.LinearOrder
import AntNode.AutoApplyUpgrader
import AntNode.Lib.Runs

/-!
# Upgrades of nodes that share one binary

Several nodes run from one file, each with the version it was started with, and each applies the
upgrades it learns of. `apply_upgrade` compares the new version with the node's own, resolves the
binary in a fresh directory, asks the file on disk for its version, copies it to the backup, which
the nodes share too, and renames the new binary over it; if that fails it copies the backup back.
Any schedule of the nodes' steps is a run. A copy is one step. What a binary prints for `--version`
is a function of its bytes, and versions are ordered as `semver` orders them. How the node restarts
is left out.
-/

namespace AntNode

structure UpgradeInfo (V : Type) where
  version : V
  source : UpgradeSource

/-- A call of `apply_upgrade`. -/
structure UpgradeCall (V : Type) where
  currentVersion : V
  info : UpgradeInfo V
  binaryCache : Bool

inductive UpgradeResult (V : Type) where
  | success (version : V)
  | rolledBack (reason : String)
  | noUpgrade
  | error (e : UpgradeError)
  deriving DecidableEq

inductive ApplyPhase (V : Type) where
  | starting
  | resolving
  | resolved (extractedBinary : Bytes)
  | checked (extractedBinary : Bytes)
  | backedUp (extractedBinary : Bytes)
  | replaceFailed (e : String)
  | done (result : UpgradeResult V)
  deriving DecidableEq

/-- What the calls share, and how far each is. -/
structure UpgradeHost (V P : Type) where
  disk : Bytes
  backup : Option Bytes
  phase : P → ApplyPhase V

/-- A step of one call. `fault` is what makes it fail. -/
inductive ApplyEvent (P : Type) where
  | validate (p : P) (fault : Option String)
  | resolve (p : P) (world : Nat → Moment)
  | onDiskVersion (p : P) (answered : Bool)
  | createBackup (p : P) (fault : Option String)
  | replaceBinary (p : P) (fault : Option String)
  | rollback (p : P) (fault : Option String)

/-- The calls of a host, with what they take from elsewhere: the release tools, how a version is
written, and what a binary reports as its own. -/
structure UpgradeSetting (V P : Type) where
  calls : P → UpgradeCall V
  tools : ReleaseTools
  versionString : V → String
  reported : Bytes → Option V

namespace UpgradeSetting

variable {V P : Type} [LinearOrder V] [DecidableEq P] (setting : UpgradeSetting V P)

def env (p : P) (world : Nat → Moment) : UpgradeEnv where
  tools := setting.tools
  world := world
  version := setting.versionString (setting.calls p).info.version

/-- A call of `resolve_upgrade_binary` in a fresh directory: what it returns and how it leaves the
directory. -/
def resolveRun (p : P) (world : Nat → Moment) : Except UpgradeError StagedFile × Session :=
  (setting.env p world).resolveUpgradeBinary (setting.calls p).info.source
    (setting.calls p).binaryCache ⟨0, fun _ => none, []⟩

def resolvedPhase : Except UpgradeError StagedFile × Session → ApplyPhase V
  | (.error e, _) => .done (.rolledBack e.display)
  | (.ok path, s) =>
      match s.staged path with
      | none => .done (.error (.io "No such file or directory"))
      | some content => .resolved content.bytes

def setPhase (host : UpgradeHost V P) (p : P) (phase : ApplyPhase V) : UpgradeHost V P :=
  { host with phase := Function.update host.phase p phase }

def step (host : UpgradeHost V P) : ApplyEvent P → Option (UpgradeHost V P)
  | .validate p fault =>
      match host.phase p with
      | .starting =>
          if (setting.calls p).info.version ≤ (setting.calls p).currentVersion then
            some (setPhase host p (.done .noUpgrade))
          else
            some (setPhase host p (match fault with
              | none => .resolving
              | some e => .done (.error (.upgrade ("Failed to create temp dir: " ++ e)))))
      | _ => none
  | .resolve p world =>
      match host.phase p with
      | .resolving => some (setPhase host p (resolvedPhase (setting.resolveRun p world)))
      | _ => none
  | .onDiskVersion p answered =>
      match host.phase p with
      | .resolved extractedBinary =>
          let diskVersion := if answered then setting.reported host.disk else none
          if diskVersion = some (setting.calls p).info.version then
            some (setPhase host p (.done (.success (setting.calls p).info.version)))
          else some (setPhase host p (.checked extractedBinary))
      | _ => none
  | .createBackup p fault =>
      match host.phase p, fault with
      | .checked extractedBinary, none =>
          some { setPhase host p (.backedUp extractedBinary) with backup := some host.disk }
      | .checked _, some e => some (setPhase host p (.done (.rolledBack ("Backup failed: " ++ e))))
      | _, _ => none
  | .replaceBinary p fault =>
      match host.phase p, fault with
      | .backedUp extractedBinary, none =>
          some { setPhase host p (.done (.success (setting.calls p).info.version)) with
            disk := extractedBinary }
      | .backedUp _, some e => some (setPhase host p (.replaceFailed e))
      | _, _ => none
  | .rollback p fault =>
      match host.phase p, fault, host.backup with
      | .replaceFailed e, none, some backup =>
          some { setPhase host p (.done (.rolledBack ("Replacement failed: " ++ e))) with
            disk := backup }
      | .replaceFailed e, some restoreErr, _ =>
          some (setPhase host p (.done (.error (.upgrade ("Critical: replacement failed (" ++ e ++
            ") AND rollback failed (" ++ restoreErr ++ ")")))))
      | _, _, _ => none

def start (disk : Bytes) : UpgradeHost V P := ⟨disk, none, fun _ => .starting⟩

end UpgradeSetting

end AntNode
