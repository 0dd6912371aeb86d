import AntNode.Commitment
import AntNode.Lib.FiniteMap
import AntNode.LmdbMap

/-!
# The chunk store

The LMDB store with the chunks in it, its answers and its statistics. Locks, sizes and the phases of
a put are those of the map: a step of the store is a step of the map, and writes the content of the
chunk where the map gets a new key. A read transaction is one step, which copies what it reads; what a
call does after its transaction touches nothing but the statistics, and is part of the same step. The
keys of the database are addresses, so `all_keys` skips nothing.
-/

namespace AntNode

structure StorageStats where
  chunksStored : Nat
  chunksRetrieved : Nat
  bytesStored : Nat
  bytesRetrieved : Nat
  duplicates : Nat
  verificationFailures : Nat
  currentChunks : Nat
  deriving DecidableEq

def StorageStats.zero : StorageStats := ⟨0, 0, 0, 0, 0, 0, 0⟩

inductive GetFault where
  | taskFailed (e : String)
  | txnFailed (e : String)
  | getFailed (e : String)
  deriving DecidableEq

inductive CountFault where
  | txnFailed (e : String)
  | statFailed (e : String)
  deriving DecidableEq

inductive ListFault where
  | taskFailed (e : String)
  | txnFailed (e : String)
  | iterateFailed (e : String)
  | entryFailed (e : String)
  deriving DecidableEq

structure ChunkStoreConfig extends LmdbStorageConfig where
  verifyOnRead : Bool

/-- `content` is what each put was called with; the statistics leave the chunks uncounted. -/
structure ChunkStore (H P : Type) where
  mapSize : Nat
  chunks : FiniteMap H Bytes
  lastDiskOk : Option Nat
  phase : P → PutPhase H
  content : P → Bytes
  stats : StorageStats

inductive StoreEvent (H P : Type) where
  | map (e : MapEvent H P)
  | get (address : H) (fault : Option GetFault)
  | getRaw (address : H) (fault : Option GetFault)
  | existsChunk (address : H) (fault : Option ReadFault)
  | allKeys (fault : Option ListFault)
  | readStats (fault : Option CountFault)

namespace ChunkStore

variable {H P : Type} [Digest H] [DecidableEq P]

/-- The map of the store. -/
def forget (s : ChunkStore H P) : LmdbMap H P := ⟨s.mapSize, s.chunks.keys, s.lastDiskOk, s.phase⟩

/-- `stored` is what the database holds at the opening. -/
def new (config : ChunkStoreConfig) (pageSize : Nat) (world : OpenWorld H)
    (stored : FiniteMap H Bytes) : Except (StorageError H) (ChunkStore H P) := do
  let map ← LmdbMap.new config.toLmdbStorageConfig pageSize { world with storedKeys := stored.keys }
  return ⟨map.mapSize, stored, map.lastDiskOk, map.phase, fun _ => [], .zero⟩

/-! ### Reads -/

def currentChunks (s : ChunkStore H P) : Option CountFault → Except (StorageError H) Nat
  | some (.txnFailed e) => .error (.storage ("Failed to create read txn: " ++ e))
  | some (.statFailed e) => .error (.storage ("Failed to read db stats: " ++ e))
  | none => .ok s.chunks.keys.card

/-- `stats`, which counts no chunks where it fails to read their number. -/
def readStats (s : ChunkStore H P) (fault : Option CountFault) : StorageStats :=
  match s.currentChunks fault with
  | .ok count => { s.stats with currentChunks := count }
  | .error _ => { s.stats with currentChunks := 0 }

def allKeys (s : ChunkStore H P) : Option ListFault → Except (StorageError H) (Finset H)
  | some (.taskFailed e) => .error (.storage ("all_keys task failed: " ++ e))
  | some (.txnFailed e) => .error (.storage ("Failed to create read txn: " ++ e))
  | some (.iterateFailed e) => .error (.storage ("Failed to iterate database: " ++ e))
  | some (.entryFailed e) => .error (.storage ("Failed to read entry: " ++ e))
  | none => .ok s.chunks.keys

def existsChunk (s : ChunkStore H P) (address : H) :
    Option ReadFault → Except (StorageError H) Bool
  | some (.txnFailed e) => .error (.storage ("Failed to create read txn: " ++ e))
  | some (.checkFailed e) => .error (.storage ("Failed to check existence: " ++ e))
  | none => .ok (decide (address ∈ s.chunks))

def getRaw (s : ChunkStore H P) (address : H) : Option GetFault →
    Except (StorageError H) (Option Bytes)
  | some (.taskFailed e) => .error (.storage ("get_raw task failed: " ++ e))
  | some (.txnFailed e) => .error (.storage ("Failed to create read txn: " ++ e))
  | some (.getFailed e) => .error (.storage ("Failed to get chunk: " ++ e))
  | none => .ok (s.chunks.lookup address)

/-- What `get` does with the copy of the chunk. -/
def verifyRead (config : ChunkStoreConfig) (stats : StorageStats) (address : H) (content : Bytes) :
    Except (StorageError H) (Option Bytes) × StorageStats :=
  if config.verifyOnRead && decide (blake3 content ≠ address) then
    (.error (.storage ("Chunk verification failed for " ++ hexEncode (asBytes address))),
      { stats with verificationFailures := stats.verificationFailures + 1 })
  else
    (.ok (some content),
      { stats with
        chunksRetrieved := stats.chunksRetrieved + 1
        bytesRetrieved := stats.bytesRetrieved + content.length })

def get (config : ChunkStoreConfig) (s : ChunkStore H P) (address : H) :
    Option GetFault → Except (StorageError H) (Option Bytes) × StorageStats
  | some (.taskFailed e) => (.error (.storage ("LMDB get task failed: " ++ e)), s.stats)
  | some (.txnFailed e) => (.error (.storage ("Failed to create read txn: " ++ e)), s.stats)
  | some (.getFailed e) => (.error (.storage ("Failed to get chunk: " ++ e)), s.stats)
  | none =>
      match s.chunks.lookup address with
      | none => (.ok none, s.stats)
      | some content => verifyRead config s.stats address content

/-! ### Steps -/

/-- The database after the write transaction of a put. -/
def commitPut (chunks : FiniteMap H Bytes) (address : H) (content : Bytes) :
    Except (StorageError H) PutOutcome → FiniteMap H Bytes
  | .ok .new => chunks.insert address content
  | _ => chunks

def chunksAfter (s : ChunkStore H P) : MapEvent H P → FiniteMap H Bytes
  | .tryPut p outcome =>
      match s.phase p with
      | .writing address | .retrying address =>
          commitPut s.chunks address (s.content p)
            (LmdbMap.tryPut s.chunks.keys address outcome).1
      | _ => s.chunks
  | .delete address outcome =>
      match (LmdbMap.deleteChunk s.chunks.keys address outcome).1 with
      | .ok _ => s.chunks.erase address
      | .error _ => s.chunks
  | _ => s.chunks

/-- The statistics of a put, kept where it returns. -/
def StorageStats.afterPut (stats : StorageStats) (content : Bytes) : PutPhase H → StorageStats
  | .done (.ok true) =>
      { stats with
        chunksStored := stats.chunksStored + 1
        bytesStored := stats.bytesStored + content.length }
  | .done (.ok false) => { stats with duplicates := stats.duplicates + 1 }
  | _ => stats

def contentAfter (s : ChunkStore H P) : MapEvent H P → P → Bytes
  | .put p _ content => Function.update s.content p content
  | _ => s.content

def statsAfter (s : ChunkStore H P) (e : MapEvent H P) (phase : P → PutPhase H) : StorageStats :=
  match e.putOf with
  | none => s.stats
  | some p => StorageStats.afterPut s.stats (s.content p) (phase p)

def step (config : ChunkStoreConfig) (pageSize : Nat) (s : ChunkStore H P) :
    StoreEvent H P → Option (ChunkStore H P)
  | .map e =>
      (LmdbMap.step config.toLmdbStorageConfig pageSize s.forget e).map fun map =>
        { mapSize := map.mapSize
          chunks := s.chunksAfter e
          lastDiskOk := map.lastDiskOk
          phase := map.phase
          content := s.contentAfter e
          stats := s.statsAfter e map.phase }
  | .get address fault => some { s with stats := (get config s address fault).2 }
  | .getRaw _ _ | .existsChunk _ _ | .allKeys _ | .readStats _ => some s

end ChunkStore

end AntNode
