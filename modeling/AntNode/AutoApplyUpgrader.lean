import AntNode.BinaryCache

/-!
# The binary of an upgrade

An upgrade takes its binary from an archive that the cache holds or that it downloads. The archive
is verified in the process's own directory and extracted there.
-/

namespace AntNode

structure UpgradeSource where
  downloadUrl : String
  signatureUrl : String

/-! ### Archives -/

def ArchiveFormat.openError : ArchiveFormat → String → String
  | .tarGz, e => "Failed to read archive: " ++ e
  | .zip, e => "Failed to open zip archive: " ++ e

def ArchiveFormat.entryError : ArchiveFormat → EntryError → String
  | .tarGz, .entry e => "Failed to read entry: " ++ e
  | .tarGz, .path e => "Invalid path in archive: " ++ e
  | .zip, .entry e => "Failed to read zip entry: " ++ e
  | .zip, .path e => "Failed to read zip entry: " ++ e

def ArchiveFormat.notFound : ArchiveFormat → String
  | .tarGz => "ant-node binary not found in tar.gz archive"
  | .zip => "ant-node binary not found in zip archive"

/-- The first entry of the loop that is the binary. -/
def findBinary (format : ArchiveFormat) :
    List (Except EntryError ArchiveEntry) → Except UpgradeError ArchiveEntry
  | [] => .error (.upgrade format.notFound)
  | .error e :: _ => .error (.upgrade (format.entryError e))
  | .ok entry :: rest =>
      if entry.fileName = some "ant-node" ∨ entry.fileName = some "ant-node.exe" then .ok entry
      else findBinary format rest

/-- Two lower-case hexadecimal digits. -/
def hexByte (byte : UInt8) : String :=
  String.ofList [Nat.digitChar (byte.toNat / 16), Nat.digitChar (byte.toNat % 16)]

def archiveFormat : Bytes → Except UpgradeError ArchiveFormat
  | 0x1f :: 0x8b :: _ => .ok .tarGz
  | 0x50 :: 0x4b :: _ => .ok .zip
  | first :: second :: _ => .error (.upgrade ("Unknown archive format (magic bytes: " ++
      hexByte first ++ " " ++ hexByte second ++ ")"))
  | _ => .error (.upgrade "Failed to read archive header: failed to fill whole buffer")

/-- The binary an archive holds, as `extract_from_tar_gz` and `extract_from_zip` find it. -/
def ReleaseTools.binaryIn (tools : ReleaseTools) (archive : Bytes) :
    Except UpgradeError ArchiveEntry := do
  let format ← archiveFormat archive
  let entries ← (tools.entries format archive).mapError fun e => .upgrade (format.openError e)
  findBinary format entries

namespace UpgradeEnv

open Script

variable (env : UpgradeEnv) (source : UpgradeSource)

def extractBinary (archivePath : StagedFile) : Script Session UpgradeError StagedFile := do
  let bytes ← mapError .io (env.readStaged archivePath)
  let entry ← ofExcept (env.tools.binaryIn bytes)
  match entry.failure with
  | some e =>
      mapError .io (env.writeStaged .binary entry.data none)
      fail (.upgrade ("Failed to write binary: " ++ e))
  | none =>
      mapError .io (env.writeStaged .binary entry.data (some bytes))
      -- the permissions
      mapError .io env.syscall
      log (.extracted archivePath bytes)
      pure .binary

def download (url : String) (dest : StagedFile) : Script Session UpgradeError Unit := do
  let m ← env.moment
  match m.response url with
  | .unsent e => fail (.network ("Download failed: " ++ e))
  | .status code => fail (.network ("Download returned status: " ++ code))
  | .unread e => fail (.network ("Failed to read response: " ++ e))
  | .body bytes =>
      if maxArchiveSizeBytes < bytes.length then
        fail (.upgrade ("Downloaded file too large: " ++ toString bytes.length ++ " bytes (max " ++
          toString maxArchiveSizeBytes ++ ")"))
      else mapError .io (env.writeStaged dest bytes none)

def downloadVerifyExtract (cache : Bool) : Script Session UpgradeError StagedFile := do
  env.download source.downloadUrl .archive
  env.download source.signatureUrl .signature
  env.verifyFromFile .archive .signature
  let extractedBinary ← env.extractBinary .archive
  if cache then
    let _ ← (attempt (env.storeArchive .archive .signature) : Script Session UpgradeError _)
    pure extractedBinary
  else pure extractedBinary

/-- `cache` says whether a binary cache is configured. -/
def resolveUpgradeBinary (cache : Bool) : Script Session UpgradeError StagedFile := do
  if cache then
    match ← attempt env.getVerifiedArchive with
    | .ok verifiedArchive =>
        match ← attempt (env.extractBinary verifiedArchive) with
        | .ok extracted => pure extracted
        | .error _ => env.downloadVerifyExtract source true
    | .error _ =>
        -- the task that waits for the lock
        mapError (fun e => .upgrade ("Lock task failed: " ++ e)) env.syscall
        env.acquireDownloadLock
        match ← attempt env.getVerifiedArchive with
        | .ok verifiedArchive =>
            match ← attempt (env.extractBinary verifiedArchive) with
            | .ok extracted => pure extracted
            | .error _ => env.downloadVerifyExtract source true
        | .error _ => env.downloadVerifyExtract source true
  else env.downloadVerifyExtract source false

end UpgradeEnv

end AntNode
