import AntNode.CommitmentState
import AntNode.Digest
import AntNode.Lib.Runs

/-!
# The size of the LMDB map

The map is opened with the operator's cap, or with a size computed from the free space of the disk.
A `put` that finds the map full computes a size from the disk, grows the map to it under the
exclusive lock, and writes once more. Any number of puts and deletions run at once, each one step at
a time; a transaction is one step, since write transactions are serialised.

What LMDB and the file system answer is part of each event. LMDB raises a map that is opened
smaller than the data in it to the size of the data, and a transaction that does not commit has no
effect. Sizes are those of a 64-bit system. The statistics and the logging are left out.
-/

namespace AntNode

structure LmdbStorageConfig where
  maxMapSize : Nat
  diskReserve : Nat

def minMapSize : Nat := 256 * 1024 * 1024

def diskCheckIntervalSecs : Nat := 5

inductive StorageError (H : Type) where
  | addressMismatch (expected computed : H)
  | insufficientDiskSpace (available reserve : Nat)
  | storage (message : String)
  deriving DecidableEq

/-- The free bytes of the partition, and the length of the data file, zero where there is none. -/
structure DiskReading where
  available : Except String Nat
  currentDbBytes : Nat

inductive PutOutcome where
  | new
  | duplicate
  | mapFull
  deriving DecidableEq

/-- How the write transaction of a put comes out, where the chunk is not there already. -/
inductive PutWriteOutcome where
  | taskFailed (e : String)
  | txnFailed (e : String)
  | checkFailed (e : String)
  | putFull
  | putFailed (e : String)
  | commitFull
  | commitFailed (e : String)
  | committed
  deriving DecidableEq

inductive ReadFault where
  | txnFailed (e : String)
  | checkFailed (e : String)
  deriving DecidableEq

inductive ResizeFault where
  | taskFailed (e : String)
  | resizeFailed (e : String)
  deriving DecidableEq

inductive DeleteOutcome where
  | taskFailed (e : String)
  | txnFailed (e : String)
  | deleteFailed (e : String)
  | commitFailed (e : String)
  | committed
  deriving DecidableEq

/-- How far a put is. -/
inductive PutPhase (H : Type) where
  | idle
  | addressed (address : H)
  | absent (address : H)
  | writing (address : H)
  | full (address : H)
  | sized (address : H) (fromDisk : Nat)
  | retrying (address : H)
  | done (result : Except (StorageError H) Bool)

structure LmdbMap (H P : Type) where
  mapSize : Nat
  keys : Finset H
  lastDiskOk : Option Nat
  phase : P → PutPhase H

inductive MapEvent (H P : Type) where
  | put (p : P) (address : H) (content : Bytes)
  | existsChunk (p : P) (fault : Option ReadFault)
  | checkDiskSpace (p : P) (now : Nat) (available : Except String Nat)
  | tryPut (p : P) (outcome : PutWriteOutcome)
  | computeSize (p : P) (reading : DiskReading)
  | resize (p : P) (fault : Option ResizeFault)
  | checkCapacity (now : Nat) (available : Except String Nat)
  | delete (address : H) (outcome : DeleteOutcome)

/-- The put whose step the event is. -/
def MapEvent.putOf {H P : Type} : MapEvent H P → Option P
  | .put p _ _ | .existsChunk p _ | .checkDiskSpace p _ _ | .tryPut p _ => some p
  | .computeSize p _ | .resize p _ => some p
  | .checkCapacity _ _ | .delete _ _ => none

/-- What opening the environment meets: where it fails, the disk, and what is stored already. -/
structure OpenWorld (H : Type) where
  createDir : Option String
  reading : DiskReading
  openEnv : Option String
  writeTxn : Option String
  createDatabase : Option String
  commit : Option String
  initTask : Option String
  usedBytes : Nat
  storedKeys : Finset H

namespace LmdbMap

variable {H P : Type}

def failIf (label : String) (fault : Option String) : Except (StorageError H) Unit :=
  fault.elim (.ok ()) fun e => .error (.storage (label ++ e))

def availableSpace (available : Except String Nat) : Except (StorageError H) Nat :=
  match available with
  | .ok bytes => .ok bytes
  | .error e => .error (.storage ("Failed to query available disk space: " ++ e))

def computeMapSize (pageSize : Nat) (reading : DiskReading) (reserve : Nat) :
    Except (StorageError H) Nat := do
  let available ← availableSpace reading.available
  let growthRoom := available - reserve
  let target := min (reading.currentDbBytes + growthRoom) (2 ^ 64 - 1)
  let aligned := (target + pageSize - 1) / pageSize * pageSize % 2 ^ 64
  return max aligned minMapSize

def checkDiskSpace (available : Except String Nat) (reserve : Nat) :
    Except (StorageError H) Unit := do
  let available ← availableSpace available
  if available < reserve then .error (.insufficientDiskSpace available reserve) else .ok ()

/-- The answer, and the time of the last check that passed. -/
def checkDiskSpaceCached (lastDiskOk : Option Nat) (now : Nat) (available : Except String Nat)
    (reserve : Nat) : Except (StorageError H) Unit × Option Nat :=
  if lastDiskOk.any fun t => decide ((now - t) / nanosPerSec < diskCheckIntervalSecs) then
    (.ok (), lastDiskOk)
  else
    match checkDiskSpace available reserve with
    | .error e => (.error e, lastDiskOk)
    | .ok () => (.ok (), some now)

/-- The operator's cap, or what the disk has room for. -/
def initialMapSize (config : LmdbStorageConfig) (pageSize : Nat) (reading : DiskReading) :
    Except (StorageError H) Nat :=
  if config.maxMapSize > 0 then .ok config.maxMapSize
  else computeMapSize pageSize reading config.diskReserve

def new (config : LmdbStorageConfig) (pageSize : Nat) (world : OpenWorld H) :
    Except (StorageError H) (LmdbMap H P) := do
  failIf "Failed to create LMDB directory: " world.createDir
  let mapSize ← initialMapSize config pageSize world.reading
  failIf "Failed to open LMDB env: " world.openEnv
  failIf "Failed to create write txn: " world.writeTxn
  failIf "Failed to create database: " world.createDatabase
  failIf "Failed to commit db creation: " world.commit
  failIf "LMDB init task failed: " world.initTask
  return ⟨max mapSize world.usedBytes, world.storedKeys, none, fun _ => .idle⟩

variable [Digest H] [DecidableEq P]

/-- The authoritative duplicate check inside the write transaction. -/
def ifAbsent (keys : Finset H) (address : H)
    (result : Except (StorageError H) PutOutcome × Finset H) :
    Except (StorageError H) PutOutcome × Finset H :=
  if address ∈ keys then (.ok .duplicate, keys) else result

def tryPut (keys : Finset H) (address : H) :
    PutWriteOutcome → Except (StorageError H) PutOutcome × Finset H
  | .taskFailed e => (.error (.storage ("LMDB put task failed: " ++ e)), keys)
  | .txnFailed e => (.error (.storage ("Failed to create write txn: " ++ e)), keys)
  | .checkFailed e => (.error (.storage ("Failed to check existence: " ++ e)), keys)
  | .putFull => ifAbsent keys address (.ok .mapFull, keys)
  | .putFailed e =>
      ifAbsent keys address (.error (.storage ("Failed to put chunk: " ++ e)), keys)
  | .commitFull => ifAbsent keys address (.ok .mapFull, keys)
  | .commitFailed e =>
      ifAbsent keys address (.error (.storage ("Failed to commit put: " ++ e)), keys)
  | .committed => ifAbsent keys address (.ok .new, insert address keys)

def deleteChunk (keys : Finset H) (address : H) :
    DeleteOutcome → Except (StorageError H) Bool × Finset H
  | .taskFailed e => (.error (.storage ("LMDB delete task failed: " ++ e)), keys)
  | .txnFailed e => (.error (.storage ("Failed to create write txn: " ++ e)), keys)
  | .deleteFailed e => (.error (.storage ("Failed to delete chunk: " ++ e)), keys)
  | .commitFailed e => (.error (.storage ("Failed to commit delete: " ++ e)), keys)
  | .committed => (.ok (decide (address ∈ keys)), keys.erase address)

def setPhase (s : LmdbMap H P) (p : P) (phase : PutPhase H) : LmdbMap H P :=
  { s with phase := Function.update s.phase p phase }

/-- What a put does with the outcome of its write: on a full map the first one goes on to a resize,
the second one gives up. -/
def afterWrite (address : H) (retried : Bool) : Except (StorageError H) PutOutcome → PutPhase H
  | .error e => .done (.error e)
  | .ok .new => .done (.ok true)
  | .ok .duplicate => .done (.ok false)
  | .ok .mapFull =>
      if retried then
        .done (.error (.storage "LMDB map full after resize — disk may be at capacity"))
      else .full address

/-- The part of `try_resize` under the exclusive lock. -/
def tryResize (mapSize fromDisk : Nat) : Option ResizeFault → Except (StorageError H) Unit × Nat
  | some (.taskFailed e) => (.error (.storage ("LMDB resize task failed: " ++ e)), mapSize)
  | some (.resizeFailed e) =>
      if max fromDisk mapSize ≤ mapSize then (.ok (), mapSize)
      else (.error (.storage ("Failed to resize LMDB map: " ++ e)), mapSize)
  | none =>
      if max fromDisk mapSize ≤ mapSize then (.ok (), mapSize) else (.ok (), max fromDisk mapSize)

def step (config : LmdbStorageConfig) (pageSize : Nat) (s : LmdbMap H P) :
    MapEvent H P → Option (LmdbMap H P)
  | .put p address content =>
      match s.phase p with
      | .idle =>
          let computed := blake3 content
          if computed ≠ address then
            some (s.setPhase p (.done (.error (.addressMismatch address computed))))
          else some (s.setPhase p (.addressed address))
      | _ => none
  | .existsChunk p fault =>
      match s.phase p with
      | .addressed address =>
          match fault with
          | some (.txnFailed e) =>
              some (s.setPhase p (.done (.error (.storage ("Failed to create read txn: " ++ e)))))
          | some (.checkFailed e) =>
              some (s.setPhase p (.done (.error (.storage ("Failed to check existence: " ++ e)))))
          | none =>
              if address ∈ s.keys then some (s.setPhase p (.done (.ok false)))
              else some (s.setPhase p (.absent address))
      | _ => none
  | .checkDiskSpace p now available =>
      match s.phase p with
      | .absent address =>
          let (answer, lastDiskOk) :=
            checkDiskSpaceCached s.lastDiskOk now available config.diskReserve
          let s := { s with lastDiskOk := lastDiskOk }
          match answer with
          | .error e => some (s.setPhase p (.done (.error e)))
          | .ok () => some (s.setPhase p (.writing address))
      | _ => none
  | .tryPut p outcome =>
      match s.phase p with
      | .writing address =>
          let (answer, keys) := tryPut s.keys address outcome
          some ({ s with keys := keys }.setPhase p (afterWrite address false answer))
      | .retrying address =>
          let (answer, keys) := tryPut s.keys address outcome
          some ({ s with keys := keys }.setPhase p (afterWrite address true answer))
      | _ => none
  | .computeSize p reading =>
      match s.phase p with
      | .full address =>
          match computeMapSize pageSize reading config.diskReserve with
          | .error e => some (s.setPhase p (.done (.error e)))
          | .ok fromDisk => some (s.setPhase p (.sized address fromDisk))
      | _ => none
  | .resize p fault =>
      match s.phase p with
      | .sized address fromDisk =>
          let (answer, mapSize) := tryResize s.mapSize fromDisk fault
          let s := { s with mapSize := mapSize }
          match answer with
          | .error e => some (s.setPhase p (.done (.error e)))
          | .ok () => some (s.setPhase p (.retrying address))
      | _ => none
  | .checkCapacity now available =>
      some { s with
        lastDiskOk :=
          (checkDiskSpaceCached (H := H) s.lastDiskOk now available config.diskReserve).2 }
  | .delete address outcome => some { s with keys := (deleteChunk s.keys address outcome).2 }

end LmdbMap

end AntNode
