import AntNode.Digest
import AntNode.Lib.Script

/-!
# The cache of upgrade archives

A node that upgrades stages archive and signature in a directory of its own, and takes them from a
cache directory it shares with other nodes or downloads them. Others write the shared directory, and
whatever else lies outside, between any two steps: what stands there at a step is an arbitrary
function of the step, and so is what a file that was opened there holds when it is read. Only the
process writes its own directory. A write follows symbolic links, so one to a name in the shared
directory may end in the process's own.

The ML-DSA library, SHA-256, `serde_json` and the archive formats are functions of bytes. A fault
before a write changes nothing, and one midway leaves the bytes written so far. What is logged is left
out, and so are the paths in error messages.
-/

namespace AntNode

def maxArchiveSizeBytes : Nat := 200 * 1024 * 1024

def signatureSize : Nat := 3309

def maxMetaBytes : Nat := 4 * 1024

/-- The links the kernel follows before it gives up. -/
def maxSymlinks : Nat := 40

/-! ### Files -/

/-- The names the cache uses for one version. -/
inductive CacheFile where
  | archive
  | signature
  | metadata
  | archiveTmp
  | signatureTmp
  | metadataTmp
  | downloadLock
  deriving DecidableEq

/-- The names in the process's own directory. -/
inductive StagedFile where
  | archive
  | signature
  | cachedArchive
  | cachedSignature
  | binary
  deriving DecidableEq

inductive Place where
  | cache (file : CacheFile)
  | elsewhere (path : String)
  | staged (file : StagedFile)
  deriving DecidableEq

/-- What a name outside the process's own directory stands for. -/
inductive Entry where
  | regular
  | special
  | symlink (target : Place)
  deriving DecidableEq

inductive Fault where
  | before (e : String)
  | midway (e : String) (written : Nat)

def Fault.message : Fault → String
  | .before e => e
  | .midway e _ => e

inductive HttpResponse where
  | unsent (e : String)
  | status (code : String)
  | unread (e : String)
  | body (bytes : Bytes)

/-- The surroundings of one step. -/
structure Moment where
  entry : Place → Option Entry
  /-- What the open file that the step reads holds. -/
  opened : Bytes
  fault : Option Fault
  response : String → HttpResponse
  sinceEpoch : Except String Nat

/-- Where a name leads. -/
def follow (entry : Place → Option Entry) : Nat → Place → Option Place
  | 0, _ => none
  | _ + 1, .staged file => some (.staged file)
  | links + 1, place =>
      match entry place with
      | some (.symlink target) => follow entry links target
      | _ => some place

/-- `extractedFrom` is the archive the file was extracted from, if it was and nothing has been
written to it since. -/
structure StagedContent where
  bytes : Bytes
  extractedFrom : Option Bytes
  deriving DecidableEq

/-- What a call has done, as far as it concerns archives. -/
inductive Act where
  | readCached (file : CacheFile)
  | verified (file : StagedFile) (archive : Bytes)
  | extracted (file : StagedFile) (archive : Bytes)
  | wroteCached (now : Nat) (file : CacheFile)
  deriving DecidableEq

/-- The state of a call: the steps taken, its own directory, and its acts, the latest first. -/
structure Session where
  now : Nat
  staged : StagedFile → Option StagedContent
  acts : List Act

inductive UpgradeError where
  | io (e : String)
  | upgrade (message : String)
  | network (message : String)
  | crypto (message : String)
  deriving DecidableEq

def UpgradeError.display : UpgradeError → String
  | .io e => "I/O error: " ++ e
  | .upgrade message => "upgrade error: " ++ message
  | .network message => "network error: " ++ message
  | .crypto message => "crypto error: " ++ message

structure CachedArchiveMeta where
  version : String
  archiveSha256 : String
  cachedAtEpochSecs : Nat
  deriving DecidableEq

inductive ArchiveFormat where
  | tarGz
  | zip
  deriving DecidableEq

inductive EntryError where
  | entry (e : String)
  | path (e : String)

/-- An entry with its file name, if it has one, and its data, cut short where `failure` says so. -/
structure ArchiveEntry where
  fileName : Option String
  data : Bytes
  failure : Option String

structure ReleaseTools where
  verifyWithContext : Bytes → Bytes → Except String Unit
  sha256 : Bytes → String
  metaFromStr : Bytes → Option CachedArchiveMeta
  metaToString : CachedArchiveMeta → Except String Bytes
  entries : ArchiveFormat → Bytes → Except String (List (Except EntryError ArchiveEntry))

/-- What one call runs in: the tools, the surroundings of every step, and its version. -/
structure UpgradeEnv where
  tools : ReleaseTools
  world : Nat → Moment
  version : String

namespace Session

def put (s : Session) (file : StagedFile) (content : StagedContent) : Session :=
  { s with staged := Function.update s.staged file (some content) }

def remove (s : Session) (file : StagedFile) : Session :=
  { s with staged := Function.update s.staged file none }

end Session

namespace UpgradeEnv

open Script

variable (env : UpgradeEnv) {ε : Type}

/-! ### Steps of the file system -/

def moment : Script Session ε Moment := fun s => (.ok (env.world s.now), { s with now := s.now + 1 })

def log (act : Act) : Script Session ε Unit := update fun s => { s with acts := act :: s.acts }

def outcome : Option Fault → Script Session String Unit
  | none => pure ()
  | some fault => fail fault.message

/-- A step that succeeds or fails and touches no file of the process. -/
def syscall : Script Session String Unit := do
  let m ← env.moment
  outcome m.fault

def readStaged (file : StagedFile) : Script Session String Bytes := do
  env.syscall
  let s ← look
  match s.staged file with
  | none => fail "No such file or directory"
  | some content => pure content.bytes

def writeStaged (file : StagedFile) (bytes : Bytes) (extractedFrom : Option Bytes) :
    Script Session String Unit := do
  let m ← env.moment
  match m.fault with
  | none => update fun s => s.put file ⟨bytes, extractedFrom⟩
  | some (.before e) => fail e
  | some (.midway e written) =>
      update fun s => s.put file ⟨bytes.take written, none⟩
      fail e

def removeStaged (file : StagedFile) : Script Session ε Unit := do
  let m ← env.moment
  match m.fault with
  | none => update fun s => s.remove file
  | some _ => pure ()

def writeThrough (target : Place) (bytes : Bytes) : Script Session ε Unit :=
  match target with
  | .staged file => update fun s => s.put file ⟨bytes, none⟩
  | _ => pure ()

/-- The bytes that are written of those to be written. -/
def writtenBytes (bytes : Bytes) : Option Fault → Bytes
  | some (.midway _ written) => bytes.take written
  | _ => bytes

/-- Open a name of the shared directory for writing, empty it and write. The bytes may depend on the
file that is opened, which is empty from then on. -/
def writeCached (file : CacheFile) (bytes : Place → Bytes) : Script Session String Unit := do
  let s ← look
  let m ← env.moment
  match m.fault, follow m.entry maxSymlinks (.cache file) with
  | some (.before e), _ => fail e
  | _, none => fail "Too many levels of symbolic links"
  | fault, some target =>
      log (.wroteCached s.now file)
      writeThrough target (writtenBytes (bytes target) fault)
      outcome fault

/-! ### Reading the cache -/

def isRegular (m : Moment) (s : Session) : Place → Option Bool
  | .staged file => (s.staged file).map fun _ => true
  | place =>
      match m.entry place with
      | some .regular => some true
      | some _ => some false
      | none => none

def heldBytes (m : Moment) (s : Session) : Place → Bytes
  | .staged file => ((s.staged file).map StagedContent.bytes).getD []
  | _ => m.opened

def notRegular : String := "not a regular file (FIFO/device/socket/dir)"

/-- Where a name leads and whether that is a regular file. -/
def stat (m : Moment) (file : CacheFile) : Script Session String (Place × Bool) := do
  let s ← look
  match m.fault, follow m.entry maxSymlinks (.cache file) with
  | some fault, _ => fail fault.message
  | none, none => fail "Too many levels of symbolic links"
  | none, some place =>
      match isRegular m s place with
      | none => fail "No such file or directory"
      | some regular => pure (place, regular)

/-- The opened file and its length. The second look is at the file that was opened. -/
def openRegularCapped (file : CacheFile) (maxLen : Nat) : Script Session String (Place × Nat) := do
  let before ← env.moment
  let (_, regular) ← stat before file
  if regular = false then fail notRegular else
  let atOpen ← env.moment
  let (handle, regular) ← stat atOpen file
  log (.readCached file)
  let after ← env.moment
  match after.fault with
  | some fault => fail fault.message
  | none =>
      if regular = false then fail notRegular else
      let s ← look
      let len := (heldBytes after s handle).length
      if maxLen < len then 
        fail ("file exceeds size cap (" ++ toString len ++ " > " ++ toString maxLen ++ ")")
      else pure (handle, len)

def readToString (file : CacheFile) (handle : Place) : Script Session String Bytes := do
  log (.readCached file)
  let m ← env.moment
  match m.fault with
  | some fault => fail fault.message
  | none =>
      let s ← look
      pure (heldBytes m s handle)

/-- Copy at most `len` bytes of an opened file of the cache into the process's directory. -/
def stage (file : CacheFile) (handle : Place) (len : Nat) (dest : StagedFile) :
    Script Session String Unit := do
  env.writeStaged dest [] none
  log (.readCached file)
  let m ← env.moment
  let s ← look
  let bytes := (heldBytes m s handle).take len
  match m.fault with
  | none => update fun s => s.put dest ⟨bytes, none⟩
  | some (.before e) => fail e
  | some (.midway e written) =>
      update fun s => s.put dest ⟨bytes.take written, none⟩
      fail e

def verifyFromFile (archivePath signaturePath : StagedFile) : Script Session UpgradeError Unit := do
  let sig ← mapError .io (env.readStaged signaturePath)
  let bytes ← mapError (fun e => .crypto ("Failed to read binary: " ++ e))
    (env.readStaged archivePath)
  if sig.length ≠ signatureSize then
    fail (.crypto ("Invalid signature size: expected " ++ toString signatureSize ++ ", got " ++
      toString sig.length))
  else
    mapError .crypto (ofExcept (env.tools.verifyWithContext bytes sig))
    log (.verified archivePath bytes)

def sha256File (file : StagedFile) : Script Session UpgradeError String := do
  let bytes ← mapError .io (env.readStaged file)
  mapError (fun e => .upgrade ("Failed to read file for hashing: " ++ e)) env.syscall
  pure (env.tools.sha256 bytes)

def cleanup : Script Session ε Unit := do
  env.removeStaged .cachedArchive
  env.removeStaged .cachedSignature

/-- Give up on the cache entry, and remove what was staged of it. -/
def orCleanup {α : Type} (x : Script Session ε α) : Script Session Unit α := do
  match ← attempt x with
  | .ok a => pure a
  | .error _ =>
      env.cleanup
      fail ()

def getVerifiedArchive : Script Session Unit StagedFile := do
  let (metaFile, _) ← mapError (fun _ => ()) (env.openRegularCapped .metadata maxMetaBytes)
  let metaData ← mapError (fun _ => ()) (env.readToString .metadata metaFile)
  match env.tools.metaFromStr metaData with
  | none => fail ()
  | some cached =>
      if cached.version ≠ env.version then fail () else
      let (archiveFile, archiveLen) ←
        mapError (fun _ => ()) (env.openRegularCapped .archive maxArchiveSizeBytes)
      let (sigFile, sigLen) ←
        mapError (fun _ => ()) (env.openRegularCapped .signature signatureSize)
      if sigLen ≠ signatureSize then fail () else
      env.orCleanup (env.stage .archive archiveFile archiveLen .cachedArchive)
      env.orCleanup (env.stage .signature sigFile sigLen .cachedSignature)
      let actualHash ← env.orCleanup (env.sha256File .cachedArchive)
      if actualHash ≠ cached.archiveSha256 then
        env.cleanup
        fail ()
      else
        env.orCleanup (env.verifyFromFile .cachedArchive .cachedSignature)
        pure .cachedArchive

/-! ### Writing the cache -/

/-- Copy to a temporary name, then remove the destination and rename. Neither of the last two
follows a link; a copy through a link to its own source finds the source emptied. -/
def atomicCopy (src : StagedFile) (tmp : CacheFile) : Script Session String Unit := do
  let bytes ← env.readStaged src
  env.writeCached tmp fun target => if target = .staged src then [] else bytes
  let _ ← attempt env.syscall
  env.syscall

def stagedLen (file : StagedFile) : Script Session String Nat := do
  let bytes ← env.readStaged file
  pure bytes.length

def storeArchive (archivePath signaturePath : StagedFile) : Script Session UpgradeError Unit := do
  let archiveLen ← mapError .io (env.stagedLen archivePath)
  if maxArchiveSizeBytes < archiveLen then
    fail (.upgrade ("Refusing to cache archive for " ++ env.version ++ ": size " ++
      toString archiveLen ++ " bytes exceeds MAX_ARCHIVE_SIZE_BYTES"))
  else
  let sigLen ← mapError .io (env.stagedLen signaturePath)
  if sigLen ≠ signatureSize then
    fail (.upgrade ("Refusing to cache archive for " ++ env.version ++ ": signature size " ++
      toString sigLen ++ " bytes, expected " ++ toString signatureSize))
  else
  mapError (fun e => .upgrade ("Refusing to cache archive for " ++ env.version ++
    ": signature does not verify (" ++ e.display ++ ")")) (env.verifyFromFile archivePath
    signaturePath)
  let archiveHash ← env.sha256File archivePath
  mapError .io (env.atomicCopy archivePath .archiveTmp)
  mapError .io (env.atomicCopy signaturePath .signatureTmp)
  let m ← env.moment
  let now ← mapError (fun e => .upgrade ("System clock error: " ++ e)) (ofExcept m.sinceEpoch)
  let metaJson ← mapError (fun e => .upgrade ("Failed to serialize cached archive metadata: " ++ e))
    (ofExcept (env.tools.metaToString ⟨env.version, archiveHash, now⟩))
  mapError .io (env.writeCached .metadataTmp fun _ => metaJson)
  mapError .io env.syscall
  let _ ← attempt env.syscall
  mapError .io env.syscall

def acquireDownloadLock : Script Session UpgradeError Unit := do
  mapError (fun e => .upgrade ("Failed to create download lock: " ++ e))
    (env.writeCached .downloadLock fun _ => [])
  mapError (fun e => .upgrade ("Failed to acquire download lock: " ++ e)) env.syscall

end UpgradeEnv

end AntNode
