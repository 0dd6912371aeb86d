import Mathlib.Data.List.Infix
import Mathlib.Order.Lattice

/-!
# The release monitor

The newest release of the list that fits the channel and ships a signed binary for this platform is
offered as the upgrade. Versions are those of the `semver` crate: how a text is parsed, how two
versions compare and whether a version has a pre-release suffix are parameters. The title of a
release, which nothing reads, and the logging are left out.

File names are compared in lower case. The source lowers every character Unicode has a lower case
for; no character outside ASCII lowers to a letter of the endings below alone, so lowering the ASCII
letters decides the same.
-/

namespace AntNode.Monitor

structure Asset where
  name : String
  browserDownloadUrl : String
  deriving DecidableEq

structure GitHubRelease where
  tagName : String
  body : String
  prerelease : Bool
  assets : List Asset
  deriving DecidableEq

inductive UpgradeChannel where
  | stable
  | beta
  deriving DecidableEq

structure UpgradeInfo (V : Type) where
  version : V
  downloadUrl : String
  signatureUrl : String
  releaseNotes : String
  deriving DecidableEq

/-- The constants of the build: architecture and operating system. -/
structure Platform where
  arch : String
  os : String

structure Semver (V : Type) where
  parse : String → Option V
  preIsEmpty : V → Bool

/-! ### Strings -/

def contains (text pattern : String) : Bool :=
  text.toList.tails.any fun tail => pattern.toList.isPrefixOf tail

def endsWith (text : List Char) (ending : String) : Bool := ending.toList.isSuffixOf text

/-! ### Assets -/

def archPatterns (arch : String) : List String :=
  if arch = "x86_64" then ["x86_64", "amd64", "x64"]
  else if arch = "aarch64" then ["aarch64", "arm64"]
  else if arch = "x86" then ["i686", "i386", "x86"]
  else [arch]

def osPatterns (os : String) : List String :=
  if os = "linux" then ["linux", "unknown-linux-gnu", "linux-gnu"]
  else if os = "macos" then ["darwin", "macos", "apple-darwin"]
  else if os = "windows" then ["windows", "pc-windows-msvc", "win64"]
  else [os]

def buildPlatformPatterns (arch os : String) : List String :=
  ((archPatterns arch).flatMap fun archPat =>
    (osPatterns os).flatMap fun osPat => [archPat ++ "-" ++ osPat, osPat ++ "-" ++ archPat]) ++
    archPatterns arch

def isBinaryAsset (os name : String) : Bool :=
  let lower := name.toList.map Char.toLower
  if [".sig", ".sha256", ".md5", ".txt", ".md", ".deb", ".rpm", ".msi"].any (endsWith lower) then
    false
  else if endsWith lower ".tar.gz" || endsWith lower ".zip" then true
  else if os = "windows" && !endsWith lower ".exe" then false
  else true

def findPlatformAsset (platform : Platform) (assets : List Asset) : Option Asset :=
  (buildPlatformPatterns platform.arch platform.os).findSome? fun pattern =>
    assets.find? fun asset => contains asset.name pattern && isBinaryAsset platform.os asset.name

/-! ### Selection -/

def versionFromTag {V : Type} (semver : Semver V) (tag : String) : Option V :=
  match tag.toList with
  | 'v' :: rest => semver.parse (String.ofList rest)
  | _ => semver.parse tag

variable {V : Type} [LinearOrder V]

/-- One round of the loop over the releases. -/
def considerRelease (semver : Semver V) (platform : Platform) (currentVersion : V)
    (channel : UpgradeChannel) (best : Option (UpgradeInfo V)) (release : GitHubRelease) :
    Option (UpgradeInfo V) :=
  match versionFromTag semver release.tagName with
  | none => best
  | some version =>
      if version ≤ currentVersion then best
      else if channel = .stable && !semver.preIsEmpty version then best
      else
        match findPlatformAsset platform release.assets with
        | none => best
        | some binaryAsset =>
            let sigName := binaryAsset.name ++ ".sig"
            match release.assets.find? fun asset => asset.name == sigName with
            | none => best
            | some sigAsset =>
                let candidate : UpgradeInfo V :=
                  { version := version
                    downloadUrl := binaryAsset.browserDownloadUrl
                    signatureUrl := sigAsset.browserDownloadUrl
                    releaseNotes := release.body }
                if best.all fun b => decide (b.version < candidate.version) then some candidate
                else best

def selectUpgradeFromReleases (semver : Semver V) (platform : Platform)
    (releases : List GitHubRelease) (currentVersion : V) (channel : UpgradeChannel) :
    Option (UpgradeInfo V) :=
  releases.foldl (considerRelease semver platform currentVersion channel) none

end AntNode.Monitor
