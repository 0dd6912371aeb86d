import AntNode.Digest
import AntNode.Lib.Runs
import AntNode.Lib.RwLock

/-!
# Locks and transactions of the LMDB store

Each operation of the store is the sequence of what it does to `env_lock` and to the environment:
take the lock, open a transaction, close it, resize the map, give the lock back. A transaction and a
guard are closed where they go out of scope, the transaction first. An operation that can end in
more than one way has one sequence for each of its ways: opening a transaction may fail, and `put`
goes on from the duplicate check to the write, and from there to a resize and a second write.

Any number of operations run at once, one step of one of them at a time, and an acquisition waits
while the lock excludes it.
-/

namespace AntNode

inductive Txn where
  | read
  | write
  deriving DecidableEq

inductive LmdbStep where
  | acquireShared
  | acquireExclusive
  | release
  | openTxn (txn : Txn)
  | closeTxn
  | beginResize
  | endResize
  deriving DecidableEq

inductive LmdbOperation where
  | put
  | get
  | existsChunk
  | delete
  | currentChunks
  | allKeys
  | getRaw
  | tryResize
  deriving DecidableEq

namespace LmdbStorage

open LmdbStep

def transaction (txn : Txn) : List (List LmdbStep) := [[], [openTxn txn, closeTxn]]

def underSharedLock (paths : List (List LmdbStep)) : List (List LmdbStep) :=
  paths.map fun path => acquireShared :: path ++ [release]

def andThen (first second : List (List LmdbStep)) : List (List LmdbStep) :=
  first.flatMap fun path => second.map fun path' => path ++ path'

def existsChunk : List (List LmdbStep) := underSharedLock (transaction .read)

def get : List (List LmdbStep) := underSharedLock (transaction .read)

def currentChunks : List (List LmdbStep) := underSharedLock (transaction .read)

def delete : List (List LmdbStep) := underSharedLock (transaction .write)

def tryPut : List (List LmdbStep) := underSharedLock (transaction .write)

def allKeys : List (List LmdbStep) := transaction .read

def getRaw : List (List LmdbStep) := transaction .read

/-- The size of the map cannot be computed, or there is no room to grow, or the map grows. -/
def tryResize : List (List LmdbStep) :=
  [[], [acquireExclusive, release], [acquireExclusive, beginResize, endResize, release]]

/-- The content does not match the address; the chunk is there already or the disk is full; the
write settles it; the resize after a full map fails; the second write settles it. -/
def put : List (List LmdbStep) :=
  [[]] ++ existsChunk ++ andThen existsChunk tryPut ++
    andThen (andThen existsChunk tryPut) tryResize ++
    andThen (andThen (andThen existsChunk tryPut) tryResize) tryPut

end LmdbStorage

def LmdbOperation.paths : LmdbOperation → List (List LmdbStep)
  | put => LmdbStorage.put
  | get => LmdbStorage.get
  | existsChunk => LmdbStorage.existsChunk
  | delete => LmdbStorage.delete
  | currentChunks => LmdbStorage.currentChunks
  | allKeys => LmdbStorage.allKeys
  | getRaw => LmdbStorage.getRaw
  | tryResize => LmdbStorage.tryResize

/-- An operation under way: what it has still to do, the transaction it has open, and whether it is
inside `env.resize`. -/
structure LmdbTask where
  operation : LmdbOperation
  rest : List LmdbStep
  txn : Option Txn
  resizing : Bool
  deriving DecidableEq

structure LmdbState where
  envLock : RwLock Nat
  tasks : Nat → Option LmdbTask

inductive LmdbEvent where
  | call (id : Nat) (operation : LmdbOperation) (path : List LmdbStep)
  | advance (id : Nat)

namespace LmdbState

def new : LmdbState := ⟨.unlocked, fun _ => none⟩

/-- The effect of one step on the lock and on the task that takes it. -/
def perform (envLock : RwLock Nat) (id : Nat) (task : LmdbTask) :
    LmdbStep → Option (RwLock Nat × LmdbTask)
  | .acquireShared => (envLock.read id).map (·, task)
  | .acquireExclusive => (envLock.write id).map (·, task)
  | .release => some (envLock.unlock id, task)
  | .openTxn txn => some (envLock, { task with txn := some txn })
  | .closeTxn => some (envLock, { task with txn := none })
  | .beginResize => some (envLock, { task with resizing := true })
  | .endResize => some (envLock, { task with resizing := false })

def step (s : LmdbState) : LmdbEvent → Option LmdbState
  | .call id operation path =>
      if s.tasks id = none ∧ path ∈ operation.paths then
        some { s with tasks := Function.update s.tasks id (some ⟨operation, path, none, false⟩) }
      else none
  | .advance id =>
      match s.tasks id with
      | none => none
      | some task =>
          match task.rest with
          | [] => none
          | next :: rest =>
              (perform s.envLock id { task with rest := rest } next).map fun (envLock, task) =>
                ⟨envLock, Function.update s.tasks id (some task)⟩

end LmdbState

end AntNode
