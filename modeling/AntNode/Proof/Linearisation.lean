import AntNode.ChunkStore
import AntNode.Lib.Linearise
import AntNode.Proof.MapCap

/-!
# The chunk store is a content-addressed map

Puts look first and write later, fail at any point between, resize the map and write again, and run
beside each other, beside deletions and beside reads. Every call still takes effect at one step or at
none: a put at the write that adds its chunk or at the look that finds it there, a deletion and a read
at their transaction. In the order of these steps the answers that the calls gave are those of a map
from addresses to content, and the statistics count them.
-/

namespace AntNode

/-- An operation of the map, with its answer. `found` is a put of a chunk that is there, `refused` a
`get` of content that is not what its address says, `counted` the number of chunks `stats` gives. -/
inductive StoreOp (H : Type) where
  | stored (address : H) (content : Bytes)
  | found (address : H)
  | deleted (address : H) (existed : Bool)
  | read (address : H) (answer : Option Bytes)
  | refused (address : H)
  | readRaw (address : H) (answer : Option Bytes)
  | checked (address : H) (present : Bool)
  | listed (keys : Finset H)
  | counted (count : Nat)
  deriving DecidableEq

variable {H P : Type} [Digest H]

/-- The answer is that of the map. -/
def StoreOp.Legal (m : H → Option Bytes) : StoreOp H → Prop
  | .stored address content => m address = none ∧ blake3 content = address
  | .found address => (m address).isSome = true
  | .deleted address existed => existed = (m address).isSome
  | .read address answer | .readRaw address answer => answer = m address
  | .refused address => ∃ content, m address = some content ∧ blake3 content ≠ address
  | .checked address present => present = (m address).isSome
  | .listed keys => ∀ address, address ∈ keys ↔ (m address).isSome = true
  | .counted count => ∃ keys : Finset H, count = keys.card ∧
      ∀ address, address ∈ keys ↔ (m address).isSome = true

def StoreOp.next (m : H → Option Bytes) : StoreOp H → H → Option Bytes
  | .stored address content => Function.update m address (some content)
  | .deleted address _ => Function.update m address none
  | _ => m

open Classical in
/-- A content-addressed map, which refuses an operation with another answer than its own. -/
noncomputable def StoreOp.apply (m : H → Option Bytes) (op : StoreOp H) :
    Option (H → Option Bytes) :=
  if op.Legal m then some (op.next m) else none

def StoreOp.isStored : StoreOp H → Bool
  | .stored _ _ => true
  | _ => false

def StoreOp.isRemoved : StoreOp H → Bool
  | .deleted _ existed => existed
  | _ => false

/-- The operation only looks at the map. -/
def StoreOp.isQuery : StoreOp H → Bool
  | .stored _ _ | .found _ | .deleted _ _ => false
  | _ => true

/-- What an operation counts for. -/
def StoreOp.tally : StoreOp H → StorageStats
  | .stored _ content =>
      { StorageStats.zero with chunksStored := 1, bytesStored := content.length }
  | .found _ => { StorageStats.zero with duplicates := 1 }
  | .read _ (some content) =>
      { StorageStats.zero with chunksRetrieved := 1, bytesRetrieved := content.length }
  | .refused _ => { StorageStats.zero with verificationFailures := 1 }
  | _ => .zero

def StorageStats.add (a b : StorageStats) : StorageStats where
  chunksStored := a.chunksStored + b.chunksStored
  chunksRetrieved := a.chunksRetrieved + b.chunksRetrieved
  bytesStored := a.bytesStored + b.bytesStored
  bytesRetrieved := a.bytesRetrieved + b.bytesRetrieved
  duplicates := a.duplicates + b.duplicates
  verificationFailures := a.verificationFailures + b.verificationFailures
  currentChunks := a.currentChunks + b.currentChunks

namespace ChunkStore

def view (s : ChunkStore H P) : H → Option Bytes := fun address => s.chunks.lookup address

/-- The operation an event is the point of, as the call answers it, with the put it belongs to. A call
that fails is the point of none, unless it is a `get` that has read its chunk and refuses it. -/
def point (config : ChunkStoreConfig) (s : ChunkStore H P) :
    StoreEvent H P → Option (Option P × StoreOp H)
  | .map (.existsChunk p fault) =>
      match s.phase p with
      | .addressed address =>
          match s.existsChunk address fault with
          | .ok true => some (some p, .found address)
          | _ => none
      | _ => none
  | .map (.tryPut p outcome) =>
      match s.phase p with
      | .writing address | .retrying address =>
          match (LmdbMap.tryPut s.chunks.keys address outcome).1 with
          | .ok .new => some (some p, .stored address (s.content p))
          | .ok .duplicate => some (some p, .found address)
          | _ => none
      | _ => none
  | .map (.delete address outcome) =>
      match (LmdbMap.deleteChunk s.chunks.keys address outcome).1 with
      | .ok existed => some (none, .deleted address existed)
      | .error _ => none
  | .map _ => none
  | .get address fault =>
      match (get config s address fault).1, fault with
      | .ok answer, _ => some (none, .read address answer)
      | .error _, none => some (none, .refused address)
      | .error _, some _ => none
  | .getRaw address fault =>
      match s.getRaw address fault with
      | .ok answer => some (none, .readRaw address answer)
      | .error _ => none
  | .existsChunk address fault =>
      match s.existsChunk address fault with
      | .ok present => some (none, .checked address present)
      | .error _ => none
  | .allKeys fault =>
      match s.allKeys fault with
      | .ok keys => some (none, .listed keys)
      | .error _ => none
  | .readStats none => some (none, .counted (s.readStats none).currentChunks)
  | .readStats (some _) => none

/-- The operations of one put. -/
def opsOf [DecidableEq P] (p : P) (ops : List (Option P × StoreOp H)) : List (StoreOp H) :=
  (ops.filter fun op => decide (op.1 = some p)).map Prod.snd

/-- What a put that returned has done: an error means that it did nothing. -/
def settledOps (address : H) (content : Bytes) : Except (StorageError H) Bool → List (StoreOp H)
  | .ok true => [.stored address content]
  | .ok false => [.found address]
  | .error _ => []

def addressOf : PutPhase H → Option H
  | .idle => none
  | .addressed address | .absent address | .writing address | .full address => some address
  | .sized address _ | .retrying address => some address
  | .done _ => none

variable [DecidableEq P]

/-- What a run of the store comes to. -/
structure Linearised (config : ChunkStoreConfig) (pageSize : Nat) (start : ChunkStore H P)
    (events : List (StoreEvent H P)) (s : ChunkStore H P) : Prop where
  legal : Runs.run (fun m op => StoreOp.apply m op.2) start.view
    (Runs.trace (step config pageSize) (point config) start events) = some s.view
  settled : ∀ p address content result, .map (.put p address content) ∈ events →
    s.phase p = .done result →
    opsOf p (Runs.trace (step config pageSize) (point config) start events) =
      settledOps address content result
  pending : ∀ p, (∀ result, s.phase p ≠ .done result) →
    opsOf p (Runs.trace (step config pageSize) (point config) start events) = []
  counted : s.stats = ((Runs.trace (step config pageSize) (point config) start events).map
    (·.2.tally)).foldl StorageStats.add .zero
  conserved : (s.readStats none).currentChunks +
      (Runs.trace (step config pageSize) (point config) start events).countP (·.2.isRemoved) =
    (start.readStats none).currentChunks +
      (Runs.trace (step config pageSize) (point config) start events).countP (·.2.isStored)
  verified : config.verifyOnRead = true → ∀ address content, (none, .read address (some content)) ∈
    Runs.trace (step config pageSize) (point config) start events → blake3 content = address
  genuine : (∀ address content, start.chunks.lookup address = some content →
      blake3 content = address) →
    ∀ address content, s.getRaw address none = .ok (some content) → blake3 content = address

/-! ### What a step does -/

/-- Everything a step can do, with the operation it is the point of. -/
inductive Transition (config : ChunkStoreConfig) (s : ChunkStore H P) :
    StoreEvent H P → Option (Option P × StoreOp H) → ChunkStore H P → Prop where
  | called {p : P} {address : H} {content : Bytes} {phase : PutPhase H} (hidle : s.phase p = .idle)
      (hnext : blake3 content = address ∧ phase = .addressed address ∨
        ∃ e, phase = .done (.error e)) :
      Transition config s (.map (.put p address content)) none
        { s with
          phase := Function.update s.phase p phase
          content := Function.update s.content p content }
  | advanced {e : MapEvent H P} {p : P} {address : H} {phase : PutPhase H} {mapSize : Nat}
      {lastDiskOk : Option Nat} (hput : e.putOf = some p) (hnew : ∀ a c, e ≠ .put p a c)
      (haddress : addressOf (s.phase p) = some address)
      (hnext : addressOf phase = some address ∨ ∃ e, phase = .done (.error e)) :
      Transition config s (.map e) none
        { s with
          mapSize := mapSize
          lastDiskOk := lastDiskOk
          phase := Function.update s.phase p phase }
  | found {e : MapEvent H P} {p : P} {address : H} (hput : e.putOf = some p)
      (hnew : ∀ a c, e ≠ .put p a c) (haddress : addressOf (s.phase p) = some address)
      (hmem : address ∈ s.chunks) :
      Transition config s (.map e) (some (some p, .found address))
        { s with
          phase := Function.update s.phase p (.done (.ok false))
          stats := s.stats.add (StoreOp.found address).tally }
  | stored {e : MapEvent H P} {p : P} {address : H} (hput : e.putOf = some p)
      (hnew : ∀ a c, e ≠ .put p a c) (haddress : addressOf (s.phase p) = some address)
      (hmem : address ∉ s.chunks) :
      Transition config s (.map e) (some (some p, .stored address (s.content p)))
        { s with
          chunks := s.chunks.insert address (s.content p)
          phase := Function.update s.phase p (.done (.ok true))
          stats := s.stats.add (StoreOp.stored address (s.content p)).tally }
  | deleted {address : H} {outcome : DeleteOutcome} :
      Transition config s (.map (.delete address outcome))
        (some (none, .deleted address (decide (address ∈ s.chunks.keys))))
        { s with chunks := s.chunks.erase address }
  | idle {e : MapEvent H P} {lastDiskOk : Option Nat} (hother : e.putOf = none) :
      Transition config s (.map e) none { s with lastDiskOk := lastDiskOk }
  | queried {e : StoreEvent H P} {op : StoreOp H} (hother : ∀ e', e ≠ .map e')
      (hquery : op.isQuery = true) (hlegal : op.Legal s.view)
      (hverified : config.verifyOnRead = true → ∀ address content,
        op = .read address (some content) → blake3 content = address) :
      Transition config s e (some (none, op)) { s with stats := s.stats.add op.tally }
  | unread {e : StoreEvent H P} (hother : ∀ e', e ≠ .map e') : Transition config s e none s

variable {config : ChunkStoreConfig} {pageSize : Nat} {s s' start : ChunkStore H P}
  {e : StoreEvent H P}

/-! ### The map underneath -/

theorem keys_insert (chunks : FiniteMap H Bytes) (address : H) (content : Bytes) :
    (chunks.insert address content).keys = insert address chunks.keys := by
  ext a
  rw [Finset.mem_insert, Finmap.mem_keys, Finmap.mem_keys, Finmap.mem_insert]

omit [DecidableEq P] in
theorem keys_commitPut (chunks : FiniteMap H Bytes) (address : H) (content : Bytes)
    (outcome : PutWriteOutcome) :
    (commitPut chunks address content (LmdbMap.tryPut chunks.keys address outcome).1).keys =
      (LmdbMap.tryPut chunks.keys address outcome).2 := by
  cases outcome with
  | taskFailed e | txnFailed e | checkFailed e => rfl
  | committed =>
      simp only [LmdbMap.tryPut, LmdbMap.ifAbsent]
      split_ifs
      · rfl
      · exact keys_insert chunks address content
  | putFull | putFailed e | commitFull | commitFailed e =>
      simp only [LmdbMap.tryPut, LmdbMap.ifAbsent]
      split_ifs <;> rfl

/-- The store has a chunk for each key of the map, and no other. -/
theorem keys_of_step {e : MapEvent H P} {map : LmdbMap H P}
    (hmap : LmdbMap.step config.toLmdbStorageConfig pageSize s.forget e = some map) :
    map.keys = (s.chunksAfter e).keys := by
  cases e with
  | tryPut p outcome =>
      simp only [LmdbMap.step] at hmap
      split at hmap
      · rename_i address hphase
        obtain rfl := Option.some.inj hmap
        rw [chunksAfter, show s.phase p = .writing address from hphase]
        exact (keys_commitPut _ _ _ _).symm
      · rename_i address hphase
        obtain rfl := Option.some.inj hmap
        rw [chunksAfter, show s.phase p = .retrying address from hphase]
        exact (keys_commitPut _ _ _ _).symm
      · cases hmap
  | delete address outcome =>
      obtain rfl := Option.some.inj hmap
      cases outcome with
      | committed => exact (Finmap.keys_erase _ _).symm
      | _ => rfl
  | checkCapacity now available =>
      obtain rfl := Option.some.inj hmap
      rfl
  | put p address content =>
      simp only [LmdbMap.step] at hmap
      split at hmap
      · split_ifs at hmap <;> obtain rfl := Option.some.inj hmap <;> rfl
      · cases hmap
  | existsChunk p fault =>
      simp only [LmdbMap.step] at hmap
      split at hmap
      · split at hmap
        · obtain rfl := Option.some.inj hmap
          rfl
        · obtain rfl := Option.some.inj hmap
          rfl
        · split_ifs at hmap <;> obtain rfl := Option.some.inj hmap <;> rfl
      · cases hmap
  | checkDiskSpace p now available =>
      simp only [LmdbMap.step] at hmap
      split at hmap
      · split at hmap <;> obtain rfl := Option.some.inj hmap <;> rfl
      · cases hmap
  | computeSize p reading =>
      simp only [LmdbMap.step] at hmap
      split at hmap
      · split at hmap <;> obtain rfl := Option.some.inj hmap <;> rfl
      · cases hmap
  | resize p fault =>
      simp only [LmdbMap.step] at hmap
      split at hmap
      · split at hmap <;> obtain rfl := Option.some.inj hmap <;> rfl
      · cases hmap

def mapEvent : StoreEvent H P → Option (MapEvent H P)
  | .map e => some e
  | _ => none

/-- A run of the store is a run of the map, for which the reads are not there. -/
theorem forget_of_run {events : List (StoreEvent H P)}
    (hrun : Runs.run (step config pageSize) start events = some s) :
    Runs.run (LmdbMap.step config.toLmdbStorageConfig pageSize) start.forget
      (events.filterMap mapEvent) = some s.forget := by
  refine Runs.run_component (fun s e s' hstep => ?_) hrun
  cases e with
  | map e =>
      obtain ⟨map, hmap, rfl⟩ := Option.map_eq_some_iff.mp hstep
      simp only [mapEvent, Option.toList, Runs.run, hmap, Option.bind_some]
      rw [forget, ← keys_of_step hmap]
  | _ =>
      obtain rfl := Option.some.inj hstep
      rfl

/-! ### What a step is the point of -/

/-- A put goes on without an effect. -/
theorem Transition.of_advance {e : MapEvent H P} {p : P} {address : H} {phase : PutPhase H}
    {map : LmdbMap H P} (hput : e.putOf = some p) (hnew : ∀ a c, e ≠ .put p a c)
    (haddress : addressOf (s.phase p) = some address)
    (hnext : addressOf phase = some address ∨ ∃ e, phase = .done (.error e))
    (hphase : map.phase = Function.update s.phase p phase) (hpoint : point config s (.map e) = none)
    (hchunks : s.chunksAfter e = s.chunks) :
    Transition config s (.map e) (point config s (.map e))
      { mapSize := map.mapSize
        chunks := s.chunksAfter e
        lastDiskOk := map.lastDiskOk
        phase := map.phase
        content := s.contentAfter e
        stats := s.statsAfter e map.phase } := by
  have hcontent : s.contentAfter e = s.content := by
    cases e with
    | put p' a c =>
        obtain rfl : p' = p := Option.some.inj hput
        exact absurd rfl (hnew a c)
    | _ => rfl
  have hstats : s.statsAfter e map.phase = s.stats := by
    rw [statsAfter, hput, hphase]
    simp only [Function.update_self]
    rcases hnext with hsame | ⟨e, rfl⟩
    · cases phase with
      | done result => cases hsame
      | _ => rfl
    · rfl
  rw [hpoint, hchunks, hcontent, hstats, hphase]
  exact .advanced hput hnew haddress hnext

omit [DecidableEq P] in
/-- The write transaction reports a new chunk where there was none. -/
theorem notMem_of_tryPut_new {keys : Finset H} {address : H} {outcome : PutWriteOutcome}
    (hnew : (LmdbMap.tryPut keys address outcome).1 = .ok .new) : address ∉ keys := by
  intro hmem
  cases outcome <;> simp [LmdbMap.tryPut, LmdbMap.ifAbsent, hmem] at hnew

omit [DecidableEq P] in
theorem mem_of_tryPut_duplicate {keys : Finset H} {address : H} {outcome : PutWriteOutcome}
    (hfound : (LmdbMap.tryPut keys address outcome).1 = .ok .duplicate) : address ∈ keys := by
  by_contra hmem
  cases outcome <;> simp [LmdbMap.tryPut, LmdbMap.ifAbsent, hmem] at hfound

/-- What the write transaction of a put does, in both rounds. -/
theorem transition_of_write {p : P} {address : H} (retried : Bool) {outcome : PutWriteOutcome}
    (hphase : s.phase p = if retried then .retrying address else .writing address) :
    Transition config s (.map (.tryPut p outcome)) (point config s (.map (.tryPut p outcome)))
      { mapSize := s.mapSize
        chunks := s.chunksAfter (.tryPut p outcome)
        lastDiskOk := s.lastDiskOk
        phase := Function.update s.phase p (LmdbMap.afterWrite address retried
          (LmdbMap.tryPut s.chunks.keys address outcome).1)
        content := s.content
        stats := s.statsAfter (.tryPut p outcome) (Function.update s.phase p
          (LmdbMap.afterWrite address retried
            (LmdbMap.tryPut s.chunks.keys address outcome).1)) } := by
  have haddress : addressOf (s.phase p) = some address := by
    rw [hphase]
    cases retried <;> rfl
  have hchunks : s.chunksAfter (.tryPut p outcome) = commitPut s.chunks address (s.content p)
      (LmdbMap.tryPut s.chunks.keys address outcome).1 := by
    rw [chunksAfter, hphase]
    cases retried <;> rfl
  have hpoint : point config s (.map (.tryPut p outcome)) =
      match (LmdbMap.tryPut s.chunks.keys address outcome).1 with
      | .ok .new => some (some p, .stored address (s.content p))
      | .ok .duplicate => some (some p, .found address)
      | _ => none := by
    rw [point, hphase]
    cases retried <;> rfl
  rw [hchunks, hpoint, statsAfter]
  simp only [MapEvent.putOf, Function.update_self]
  cases hanswer : (LmdbMap.tryPut s.chunks.keys address outcome).1 with
  | error error => exact .advanced rfl (by simp) haddress (.inr ⟨error, rfl⟩)
  | ok answer =>
      cases answer with
      | new =>
          refine .stored rfl (by simp) haddress fun hmem => ?_
          exact notMem_of_tryPut_new hanswer (Finmap.mem_keys.mpr hmem)
      | duplicate =>
          exact .found rfl (by simp) haddress
            (Finmap.mem_keys.mp (mem_of_tryPut_duplicate hanswer))
      | mapFull =>
          cases retried with
          | false => exact .advanced rfl (by simp) haddress (.inl rfl)
          | true => exact .advanced rfl (by simp) haddress (.inr ⟨_, rfl⟩)

omit [DecidableEq P] in
theorem isSome_view_iff {address : H} : (s.view address).isSome = true ↔ address ∈ s.chunks :=
  Finmap.lookup_isSome

omit [DecidableEq P] in
/-- A `get` that reads its chunk gives it back or refuses it, and counts what it does. -/
theorem get_cases (config : ChunkStoreConfig) (s : ChunkStore H P) (address : H) :
    (get config s address none = (.ok none, s.stats) ∧ s.view address = none) ∨
    ∃ content, s.view address = some content ∧
      ((get config s address none =
          (.ok (some content), s.stats.add (StoreOp.read address (some content)).tally) ∧
        (config.verifyOnRead = true → blake3 content = address)) ∨
      ((∃ error, get config s address none =
          (.error error, s.stats.add (StoreOp.refused address).tally)) ∧
        blake3 content ≠ address)) := by
  cases hlookup : s.chunks.lookup address with
  | none =>
      refine .inl ⟨?_, hlookup⟩
      rw [get, hlookup]
  | some content =>
      refine .inr ⟨content, hlookup, ?_⟩
      simp only [get, hlookup, verifyRead]
      split_ifs with hrefused
      · rw [Bool.and_eq_true, decide_eq_true_iff] at hrefused
        exact .inr ⟨⟨_, rfl⟩, hrefused.2⟩
      · refine .inl ⟨rfl, fun hverify => ?_⟩
        by_contra hne
        exact hrefused (by simp [hverify, hne])

omit [DecidableEq P] in
theorem listed_keys (s : ChunkStore H P) (address : H) :
    address ∈ s.chunks.keys ↔ (s.view address).isSome = true := by
  rw [isSome_view_iff, Finmap.mem_keys]

theorem Transition.of_query (op : StoreOp H) (hother : ∀ e', e ≠ .map e')
    (hpoint : point config s e = some (none, op)) (hstats : s'.stats = s.stats.add op.tally)
    (hsame : s' = { s with stats := s'.stats }) (hquery : op.isQuery = true)
    (hlegal : op.Legal s.view) (hverified : config.verifyOnRead = true → ∀ address content,
      op = .read address (some content) → blake3 content = address) :
    Transition config s e (point config s e) s' := by
  rw [hpoint, hsame, hstats]
  exact .queried hother hquery hlegal hverified

theorem Transition.of_unread (hother : ∀ e', e ≠ .map e') (hpoint : point config s e = none) :
    Transition config s e (point config s e) s := by
  rw [hpoint]
  exact .unread hother

/-- What a `get` does. -/
theorem transition_of_get (address : H) (fault : Option GetFault) :
    Transition config s (.get address fault) (point config s (.get address fault))
      { s with stats := (get config s address fault).2 } := by
  have hother : ∀ e', StoreEvent.get address fault ≠ .map (P := P) e' := fun _ => nofun
  cases fault with
  | some fault => cases fault <;> exact .of_unread hother rfl
  | none =>
      rcases get_cases config s address with ⟨hget, hview⟩ | ⟨content, hview, ⟨hget, hverify⟩ |
        ⟨⟨error, hget⟩, hne⟩⟩
      · have hpoint : point config s (.get address none) = some (none, .read address none) := by
          simp only [point, hget]
        exact .of_query _ hother hpoint (by rw [hget]; rfl) rfl rfl hview.symm fun _ _ _ => nofun
      · have hpoint : point config s (.get address none) =
            some (none, .read address (some content)) := by
          simp only [point, hget]
        refine .of_query _ hother hpoint (by rw [hget]) rfl rfl hview.symm ?_
        intro hconfig address' content' heq
        obtain ⟨rfl, hcontent⟩ := StoreOp.read.inj heq
        rw [← Option.some.inj hcontent]
        exact hverify hconfig
      · have hpoint : point config s (.get address none) = some (none, .refused address) := by
          simp only [point, hget]
        exact .of_query _ hother hpoint (by rw [hget]) rfl rfl ⟨content, hview, hne⟩
          fun _ _ _ => nofun

/-- What the other reads do. -/
theorem transition_of_query (hother : ∀ e', e ≠ .map e') (hget : ∀ a fault, e ≠ .get a fault) :
    Transition config s e (point config s e) s := by
  cases e with
  | map e => exact absurd rfl (hother e)
  | get address fault => exact absurd rfl (hget address fault)
  | getRaw address fault =>
      rcases fault with - | fault
      · exact .of_query (.readRaw address (s.view address)) hother rfl rfl rfl rfl rfl
          fun _ _ _ => nofun
      · cases fault <;> exact .of_unread hother rfl
  | existsChunk address fault =>
      rcases fault with - | fault
      · refine .of_query (.checked address (decide (address ∈ s.chunks))) hother rfl rfl rfl rfl ?_
          fun _ _ _ => nofun
        change decide (address ∈ s.chunks) = (s.view address).isSome
        rw [Bool.eq_iff_iff, decide_eq_true_iff, isSome_view_iff]
      · cases fault <;> exact .of_unread hother rfl
  | allKeys fault =>
      rcases fault with - | fault
      · exact .of_query (.listed s.chunks.keys) hother rfl rfl rfl rfl s.listed_keys
          fun _ _ _ => nofun
      · cases fault <;> exact .of_unread hother rfl
  | readStats fault =>
      rcases fault with - | fault
      · exact .of_query (.counted s.chunks.keys.card) hother rfl rfl rfl rfl
          ⟨s.chunks.keys, rfl, s.listed_keys⟩ fun _ _ _ => nofun
      · exact .of_unread hother rfl

theorem transition_of_map {e : MapEvent H P}
    (hstep : step config pageSize s (.map e) = some s') :
    Transition config s (.map e) (point config s (.map e)) s' := by
  obtain ⟨map, hmap, rfl⟩ := Option.map_eq_some_iff.mp hstep
  cases e with
  | put p address content =>
      simp only [LmdbMap.step] at hmap
      split at hmap
      · rename_i hphase
        split_ifs at hmap with hcomputed
        · obtain rfl := Option.some.inj hmap
          have hstats : s.statsAfter (.put p address content)
              (Function.update s.phase p (.done (.error (.addressMismatch address
                (blake3 content))))) = s.stats := by
            simp [statsAfter, MapEvent.putOf, StorageStats.afterPut]
          exact hstats ▸ .called hphase (.inr ⟨_, rfl⟩)
        · obtain rfl := Option.some.inj hmap
          have hstats : s.statsAfter (.put p address content)
              (Function.update s.phase p (.addressed address)) = s.stats := by
            simp [statsAfter, MapEvent.putOf, StorageStats.afterPut]
          exact hstats ▸ .called hphase (.inl ⟨not_not.mp hcomputed, rfl⟩)
      · cases hmap
  | existsChunk p fault =>
      simp only [LmdbMap.step] at hmap
      split at hmap
      · rename_i address hphase
        have haddress : addressOf (s.phase p) = some address := by
          rw [show s.phase p = .addressed address from hphase]
          rfl
        have hpoint : point config s (.map (.existsChunk p fault)) =
            match s.existsChunk address fault with
            | .ok true => some (some p, .found address)
            | _ => none := by
          rw [point, show s.phase p = .addressed address from hphase]
        split at hmap
        · obtain rfl := Option.some.inj hmap
          exact .of_advance rfl (by simp) haddress (.inr ⟨_, rfl⟩) rfl hpoint rfl
        · obtain rfl := Option.some.inj hmap
          exact .of_advance rfl (by simp) haddress (.inr ⟨_, rfl⟩) rfl hpoint rfl
        · by_cases hmem : address ∈ s.chunks
          · rw [if_pos (show address ∈ s.forget.keys from Finmap.mem_keys.mpr hmem)] at hmap
            obtain rfl := Option.some.inj hmap
            rw [existsChunk, decide_eq_true hmem] at hpoint
            have hstats : s.statsAfter (.existsChunk p none)
                (Function.update s.phase p (.done (.ok false))) =
                  s.stats.add (StoreOp.found address).tally := by
              simp only [statsAfter, MapEvent.putOf, Function.update_self]
              rfl
            rw [hpoint]
            exact hstats ▸ .found rfl (by simp) haddress hmem
          · rw [if_neg (show ¬address ∈ s.forget.keys from fun h => hmem (Finmap.mem_keys.mp h))]
              at hmap
            obtain rfl := Option.some.inj hmap
            rw [existsChunk, decide_eq_false hmem] at hpoint
            exact .of_advance rfl (by simp) haddress (.inl rfl) rfl hpoint rfl
      · cases hmap
  | checkDiskSpace p now available =>
      simp only [LmdbMap.step] at hmap
      split at hmap
      · rename_i address hphase
        have haddress : addressOf (s.phase p) = some address := by
          rw [show s.phase p = .absent address from hphase]
          rfl
        split at hmap
        · obtain rfl := Option.some.inj hmap
          exact .of_advance rfl (by simp) haddress (.inr ⟨_, rfl⟩) rfl rfl rfl
        · obtain rfl := Option.some.inj hmap
          exact .of_advance rfl (by simp) haddress (.inl rfl) rfl rfl rfl
      · cases hmap
  | tryPut p outcome =>
      simp only [LmdbMap.step] at hmap
      split at hmap
      · rename_i address hphase
        obtain rfl := Option.some.inj hmap
        exact transition_of_write false hphase
      · rename_i address hphase
        obtain rfl := Option.some.inj hmap
        exact transition_of_write true hphase
      · cases hmap
  | computeSize p reading =>
      simp only [LmdbMap.step] at hmap
      split at hmap
      · rename_i address hphase
        have haddress : addressOf (s.phase p) = some address := by
          rw [show s.phase p = .full address from hphase]
          rfl
        split at hmap
        · obtain rfl := Option.some.inj hmap
          exact .of_advance rfl (by simp) haddress (.inr ⟨_, rfl⟩) rfl rfl rfl
        · obtain rfl := Option.some.inj hmap
          exact .of_advance rfl (by simp) haddress (.inl rfl) rfl rfl rfl
      · cases hmap
  | resize p fault =>
      simp only [LmdbMap.step] at hmap
      split at hmap
      · rename_i address fromDisk hphase
        have haddress : addressOf (s.phase p) = some address := by
          rw [show s.phase p = .sized address fromDisk from hphase]
          rfl
        split at hmap
        · obtain rfl := Option.some.inj hmap
          exact .of_advance rfl (by simp) haddress (.inr ⟨_, rfl⟩) rfl rfl rfl
        · obtain rfl := Option.some.inj hmap
          exact .of_advance rfl (by simp) haddress (.inl rfl) rfl rfl rfl
      · cases hmap
  | checkCapacity now available =>
      obtain rfl := Option.some.inj hmap
      exact .idle rfl
  | delete address outcome =>
      obtain rfl := Option.some.inj hmap
      cases outcome with
      | committed => exact .deleted
      | _ => exact .idle rfl

theorem transition_of_step (hstep : step config pageSize s e = some s') :
    Transition config s e (point config s e) s' := by
  cases e with
  | map e => exact transition_of_map hstep
  | get address fault =>
      obtain rfl := Option.some.inj hstep
      exact transition_of_get address fault
  | getRaw _ _ | existsChunk _ _ | allKeys _ | readStats _ =>
      obtain rfl := Option.some.inj hstep
      exact transition_of_query (by simp) (by simp)

/-! ### What the puts were called with -/

/-- A put that is under way was called once, with content that has its address. -/
structure Called (events : List (StoreEvent H P)) (s : ChunkStore H P) : Prop where
  idle : ∀ p, s.phase p = .idle → ∀ address content, .map (.put p address content) ∉ events
  running : ∀ p address, addressOf (s.phase p) = some address →
    blake3 (s.content p) = address ∧ .map (.put p address (s.content p)) ∈ events
  once : ∀ p address content address' content', .map (.put p address content) ∈ events →
    .map (.put p address' content') ∈ events → address = address' ∧ content = content'

omit [DecidableEq P] in
/-- An event that is no call of a put leaves the calls as they are. -/
theorem Called.frame {events : List (StoreEvent H P)} (hcalled : Called events s)
    (hnew : ∀ p address content, e ≠ .map (.put p address content))
    (hcontent : s'.content = s.content) (hidle : ∀ p, s'.phase p = .idle → s.phase p = .idle)
    (haddress : ∀ p address, addressOf (s'.phase p) = some address →
      addressOf (s.phase p) = some address) :
    Called (events ++ [e]) s' := by
  have hmem : ∀ p address content, .map (.put p address content) ∈ events ++ [e] →
      .map (.put p address content) ∈ events := by
    intro p address content hmem
    rcases List.mem_append.mp hmem with hold | hlast
    · exact hold
    · exact absurd (List.mem_singleton.mp hlast).symm (hnew p address content)
  refine ⟨?_, ?_, ?_⟩
  · intro p hp address content hput
    exact hcalled.idle p (hidle p hp) address content (hmem p address content hput)
  · intro p address hp
    obtain ⟨hhash, hput⟩ := hcalled.running p address (haddress p address hp)
    rw [hcontent]
    exact ⟨hhash, List.mem_append_left _ hput⟩
  · intro p address content address' content' hfirst hsecond
    exact hcalled.once p address content address' content' (hmem _ _ _ hfirst) (hmem _ _ _ hsecond)

/-- A put that goes on keeps its address, or is over. -/
theorem Called.frame_update {events : List (StoreEvent H P)} {e : MapEvent H P} {p : P}
    {phase : PutPhase H} (hcalled : Called events s) (hput : e.putOf = some p)
    (hnew : ∀ address content, e ≠ .put p address content) (hcontent : s'.content = s.content)
    (hphase : s'.phase = Function.update s.phase p phase)
    (hnext : (∃ address, addressOf (s.phase p) = some address ∧ addressOf phase = some address) ∨
      ∃ result, phase = .done result) :
    Called (events ++ [.map e]) s' := by
  refine hcalled.frame ?_ hcontent ?_ ?_
  · rintro q address content heq
    obtain rfl := StoreEvent.map.inj heq
    obtain rfl : q = p := Option.some.inj hput
    exact hnew address content rfl
  · intro q hq
    rw [hphase] at hq
    by_cases heq : q = p
    · subst heq
      rw [Function.update_self] at hq
      subst hq
      rcases hnext with ⟨address, -, hnext⟩ | ⟨result, hnext⟩ <;> cases hnext
    · rwa [Function.update_of_ne heq] at hq
  · intro q address hq
    rw [hphase] at hq
    by_cases heq : q = p
    · subst heq
      rw [Function.update_self] at hq
      rcases hnext with ⟨address', hold, hnext⟩ | ⟨result, rfl⟩
      · rw [hold, ← hnext, hq]
      · cases hq
    · rwa [Function.update_of_ne heq] at hq

theorem Called.put {events : List (StoreEvent H P)} {p : P} {address : H} {content : Bytes}
    {phase : PutPhase H} (hcalled : Called events s) (hidle : s.phase p = .idle)
    (hnext : blake3 content = address ∧ phase = .addressed address ∨ ∃ e, phase = .done (.error e)) :
    Called (events ++ [.map (.put p address content)])
      { s with
        phase := Function.update s.phase p phase
        content := Function.update s.content p content } := by
  have hmem : ∀ q a c, .map (.put q a c) ∈ events ++ [.map (.put p address content)] →
      .map (.put q a c) ∈ events ∨ q = p ∧ a = address ∧ c = content := by
    intro q a c hmem
    rcases List.mem_append.mp hmem with hold | hlast
    · exact .inl hold
    · exact .inr (MapEvent.put.inj (StoreEvent.map.inj (List.mem_singleton.mp hlast)))
  refine ⟨?_, ?_, ?_⟩
  · intro q hq a c hput
    by_cases heq : q = p
    · subst heq
      simp only [Function.update_self] at hq
      rcases hnext with ⟨-, rfl⟩ | ⟨e, rfl⟩ <;> cases hq
    · simp only [Function.update_of_ne heq] at hq
      rcases hmem q a c hput with hold | ⟨hp, -⟩
      · exact hcalled.idle q hq a c hold
      · exact heq hp
  · intro q address' hq
    by_cases heq : q = p
    · subst heq
      simp only [Function.update_self] at hq ⊢
      rcases hnext with ⟨hhash, rfl⟩ | ⟨e, rfl⟩
      · obtain rfl := Option.some.inj hq
        exact ⟨hhash, by simp⟩
      · cases hq
    · simp only [Function.update_of_ne heq] at hq ⊢
      obtain ⟨hhash, hput⟩ := hcalled.running q address' hq
      exact ⟨hhash, List.mem_append_left _ hput⟩
  · intro q a c a' c' hfirst hsecond
    rcases hmem q a c hfirst with hold | ⟨hp, ha, hc⟩
    · rcases hmem q a' c' hsecond with hold' | ⟨hp, -⟩
      · exact hcalled.once q a c a' c' hold hold'
      · exact absurd hold (hcalled.idle q (hp ▸ hidle) a c)
    · rcases hmem q a' c' hsecond with hold' | ⟨-, ha', hc'⟩
      · exact absurd hold' (hcalled.idle q (hp ▸ hidle) a' c')
      · exact ⟨ha.trans ha'.symm, hc.trans hc'.symm⟩

theorem Called.of_transition {events : List (StoreEvent H P)} {op : Option (Option P × StoreOp H)}
    (hcalled : Called events s) (htransition : Transition config s e op s') :
    Called (events ++ [e]) s' := by
  cases htransition with
  | called hidle hnext => exact hcalled.put hidle hnext
  | advanced hput hnew haddress hnext =>
      refine hcalled.frame_update hput hnew rfl rfl ?_
      rcases hnext with hnext | ⟨e, rfl⟩
      · exact .inl ⟨_, haddress, hnext⟩
      · exact .inr ⟨_, rfl⟩
  | found hput hnew _ _ => exact hcalled.frame_update hput hnew rfl rfl (.inr ⟨_, rfl⟩)
  | stored hput hnew _ _ => exact hcalled.frame_update hput hnew rfl rfl (.inr ⟨_, rfl⟩)
  | deleted => exact hcalled.frame (by simp) rfl (fun _ h => h) (fun _ _ h => h)
  | idle hother =>
      refine hcalled.frame ?_ rfl (fun _ h => h) (fun _ _ h => h)
      rintro q address content heq
      obtain rfl := StoreEvent.map.inj heq
      cases hother
  | queried hother _ _ _ =>
      exact hcalled.frame (fun _ _ _ => hother _) rfl (fun _ h => h) (fun _ _ h => h)
  | unread hother => exact hcalled.frame (fun _ _ _ => hother _) rfl (fun _ h => h) (fun _ _ h => h)

theorem called_of_run {events : List (StoreEvent H P)} (hidle : ∀ p, start.phase p = .idle)
    (hrun : Runs.run (step config pageSize) start events = some s) : Called events s := by
  refine Runs.history_induction (I := fun events s => Called events s) ?_
    (fun events mid e s' _ hcalled hstep => hcalled.of_transition (transition_of_step hstep)) hrun
  refine ⟨fun _ _ _ _ => List.not_mem_nil, fun p address hp => ?_, fun _ _ _ _ _ hmem => ?_⟩
  · rw [hidle p] at hp
    cases hp
  · cases hmem

/-! ### The map behind the answers -/

theorem view_insert (chunks : FiniteMap H Bytes) (address : H) (content : Bytes) :
    (fun a => (chunks.insert address content).lookup a) =
      Function.update (fun a => chunks.lookup a) address (some content) := by
  funext a
  by_cases heq : a = address
  · rw [heq, Function.update_self, Finmap.lookup_insert]
  · rw [Function.update_of_ne heq, Finmap.lookup_insert_of_ne _ heq]

theorem view_erase (chunks : FiniteMap H Bytes) (address : H) :
    (fun a => (chunks.erase address).lookup a) =
      Function.update (fun a => chunks.lookup a) address none := by
  funext a
  by_cases heq : a = address
  · rw [heq, Function.update_self, Finmap.lookup_erase]
  · rw [Function.update_of_ne heq, Finmap.lookup_erase_ne heq]

theorem apply_of_legal {m : H → Option Bytes} {op : StoreOp H} (hlegal : op.Legal m) :
    StoreOp.apply m op = some (op.next m) := if_pos hlegal

/-- The operation of a step is one of the map, and a step without one leaves the map as it is. -/
theorem run_point {events : List (StoreEvent H P)} {op : Option (Option P × StoreOp H)}
    (hcalled : Called events s) (htransition : Transition config s e op s') :
    Runs.run (fun m op => StoreOp.apply m op.2) s.view op.toList = some s'.view := by
  have hrun : ∀ {owner : Option P} {op : StoreOp H}, op.Legal s.view →
      op.next s.view = s'.view → Runs.run (fun m op => StoreOp.apply m op.2) s.view
        (some (owner, op)).toList = some s'.view := by
    intro owner op hlegal hnext
    rw [Option.toList, Runs.run, apply_of_legal hlegal, hnext]
    rfl
  cases htransition with
  | called _ _ => rfl
  | advanced _ _ _ _ => rfl
  | found _ _ _ hmem => exact hrun (isSome_view_iff.mpr hmem) rfl
  | stored _ _ haddress hmem =>
      exact hrun ⟨Finmap.lookup_eq_none.mpr hmem, (hcalled.running _ _ haddress).1⟩
        (view_insert _ _ _).symm
  | deleted =>
      refine hrun ?_ (view_erase _ _).symm
      change decide (_ ∈ s.chunks.keys) = (s.view _).isSome
      rw [Bool.eq_iff_iff, decide_eq_true_iff, listed_keys]
  | idle _ => rfl
  | @queried _ op _ hquery hlegal _ =>
      refine hrun hlegal ?_
      cases op with
      | stored _ _ | found _ | deleted _ _ => cases hquery
      | _ => rfl
  | unread _ => rfl

/-! ### The operations of one put -/

omit [Digest H] in
theorem opsOf_append (p : P) (ops later : List (Option P × StoreOp H)) :
    opsOf p (ops ++ later) = opsOf p ops ++ opsOf p later := by
  simp [opsOf]

omit [Digest H] in
theorem opsOf_own (p : P) (op : StoreOp H) : opsOf p (some (some p, op)).toList = [op] := by
  simp [opsOf]

omit [Digest H] in
theorem opsOf_other {p q : P} (hne : p ≠ q) (op : StoreOp H) :
    opsOf p (some (some q, op)).toList = [] := by
  simp [opsOf, hne.symm]

/-- A put has done what its result says, and nothing while it is under way. -/
structure Settled (events : List (StoreEvent H P)) (ops : List (Option P × StoreOp H))
    (s : ChunkStore H P) : Prop where
  settled : ∀ p address content result, .map (.put p address content) ∈ events →
    s.phase p = .done result → opsOf p ops = settledOps address content result
  pending : ∀ p, (∀ result, s.phase p ≠ .done result) → opsOf p ops = []

omit [Digest H] in
/-- A step without a point that leaves the puts that are over as they are, and ends none but with an
error. -/
theorem Settled.silent {events : List (StoreEvent H P)} {ops : List (Option P × StoreOp H)}
    {op : Option (Option P × StoreOp H)} (hsettled : Settled events ops s)
    (hop : ∀ p, opsOf p op.toList = [])
    (hdone : ∀ p result, s'.phase p = .done result → s.phase p = .done result ∨
      (∀ result, s.phase p ≠ .done result) ∧ ∃ error, result = .error error)
    (hkept : ∀ p result, s.phase p = .done result → s'.phase p = .done result)
    (hnew : ∀ p address content result, e = .map (.put p address content) →
      s.phase p ≠ .done result) :
    Settled (events ++ [e]) (ops ++ op.toList) s' := by
  refine ⟨?_, ?_⟩
  · intro p address content result hput hresult
    rw [opsOf_append, hop, List.append_nil]
    rcases hdone p result hresult with hold | ⟨hactive, error, rfl⟩
    · rcases List.mem_append.mp hput with hput | hlast
      · exact hsettled.settled p address content result hput hold
      · exact absurd hold (hnew p address content result (List.mem_singleton.mp hlast).symm)
    · exact hsettled.pending p hactive
  · intro p hactive
    rw [opsOf_append, hop, List.append_nil]
    exact hsettled.pending p fun result hold => hactive result (hkept p result hold)

/-- A put that was under way ends at its point. -/
theorem Settled.ends {events : List (StoreEvent H P)} {ops : List (Option P × StoreOp H)}
    {e : MapEvent H P} {p : P} {address : H} {op : StoreOp H}
    {result : Except (StorageError H) Bool} (hsettled : Settled events ops s)
    (hcalled : Called events s) (hput : e.putOf = some p) (hnew : ∀ a c, e ≠ .put p a c)
    (haddress : addressOf (s.phase p) = some address)
    (hphase : s'.phase = Function.update s.phase p (.done result))
    (hop : settledOps address (s.content p) result = [op]) :
    Settled (events ++ [.map e]) (ops ++ (some (some p, op)).toList) s' := by
  have hnotPut : ∀ q a c, StoreEvent.map (MapEvent.put q a c) ∈ events ++ [.map e] →
      .map (.put q a c) ∈ events := by
    intro q a c hmem
    rcases List.mem_append.mp hmem with hold | hlast
    · exact hold
    · obtain rfl := StoreEvent.map.inj (List.mem_singleton.mp hlast)
      obtain rfl : q = p := Option.some.inj hput
      exact absurd rfl (hnew a c)
  have hactive : ∀ result, s.phase p ≠ .done result := by
    intro result hdone
    rw [hdone] at haddress
    cases haddress
  refine ⟨?_, ?_⟩
  · intro q a c result' hmem hdone
    rw [opsOf_append]
    by_cases heq : q = p
    · subst heq
      rw [hphase, Function.update_self] at hdone
      obtain rfl := PutPhase.done.inj hdone
      obtain ⟨rfl, rfl⟩ := hcalled.once q a c address (s.content q) (hnotPut q a c hmem)
        (hcalled.running q address haddress).2
      rw [hsettled.pending q hactive, opsOf_own, List.nil_append, hop]
    · rw [hphase, Function.update_of_ne heq] at hdone
      rw [opsOf_other heq, List.append_nil]
      exact hsettled.settled q a c result' (hnotPut q a c hmem) hdone
  · intro q hpending
    rw [opsOf_append]
    by_cases heq : q = p
    · subst heq
      exact absurd (by rw [hphase, Function.update_self]) (hpending result)
    · rw [hphase, Function.update_of_ne heq] at hpending
      rw [opsOf_other heq, List.append_nil]
      exact hsettled.pending q hpending

omit [Digest H] in
/-- Where one put changes its phase, and is not over before. -/
theorem Settled.silent_update {events : List (StoreEvent H P)}
    {ops : List (Option P × StoreOp H)} {p : P} {phase : PutPhase H}
    (hsettled : Settled events ops s) (hphase : s'.phase = Function.update s.phase p phase)
    (hactive : ∀ result, s.phase p ≠ .done result)
    (hnext : ∀ result, phase = .done result → ∃ error, result = .error error)
    (hnew : ∀ q address content, e = .map (.put q address content) → q = p) :
    Settled (events ++ [e]) ops s' := by
  have hsilent : Settled (events ++ [e]) (ops ++ (none : Option (Option P × StoreOp H)).toList)
      s' := by
    refine hsettled.silent (fun _ => rfl) ?_ ?_ ?_
    · intro q result hdone
      rw [hphase] at hdone
      by_cases heq : q = p
      · subst heq
        rw [Function.update_self] at hdone
        exact .inr ⟨hactive, hnext result hdone⟩
      · rw [Function.update_of_ne heq] at hdone
        exact .inl hdone
    · intro q result hdone
      have hne : q ≠ p := by
        rintro rfl
        exact hactive result hdone
      rw [hphase, Function.update_of_ne hne, hdone]
    · intro q address content result heq
      rw [hnew q address content heq]
      exact hactive result
  simpa using hsilent

theorem Settled.of_transition {events : List (StoreEvent H P)} {ops : List (Option P × StoreOp H)}
    {op : Option (Option P × StoreOp H)} (hsettled : Settled events ops s)
    (hcalled : Called events s) (htransition : Transition config s e op s') :
    Settled (events ++ [e]) (ops ++ op.toList) s' := by
  cases htransition with
  | called hidle hnext =>
      rw [Option.toList, List.append_nil]
      refine hsettled.silent_update rfl (by simp [hidle]) ?_ ?_
      · rintro result rfl
        rcases hnext with ⟨-, hnext⟩ | ⟨error, hnext⟩
        · cases hnext
        · exact ⟨error, PutPhase.done.inj hnext⟩
      · intro q address content heq
        exact (MapEvent.put.inj (StoreEvent.map.inj heq)).1.symm
  | @advanced _ p _ _ _ _ hput hnew haddress hnext =>
      rw [Option.toList, List.append_nil]
      refine hsettled.silent_update rfl ?_ ?_ ?_
      · intro result hdone
        rw [hdone] at haddress
        cases haddress
      · rintro result rfl
        rcases hnext with hnext | ⟨error, hnext⟩
        · cases hnext
        · exact ⟨error, PutPhase.done.inj hnext⟩
      · intro q address content heq
        obtain rfl := StoreEvent.map.inj heq
        exact Option.some.inj hput
  | found hput hnew haddress _ => exact hsettled.ends hcalled hput hnew haddress rfl rfl
  | stored hput hnew haddress _ => exact hsettled.ends hcalled hput hnew haddress rfl rfl
  | deleted =>
      exact hsettled.silent (fun _ => rfl) (fun _ _ h => .inl h) (fun _ _ h => h) (by simp)
  | idle hother =>
      refine hsettled.silent (fun _ => rfl) (fun _ _ h => .inl h) (fun _ _ h => h) ?_
      rintro q address content result heq
      obtain rfl := StoreEvent.map.inj heq
      cases hother
  | queried hother _ _ _ =>
      exact hsettled.silent (fun _ => rfl) (fun _ _ h => .inl h) (fun _ _ h => h)
        fun p address content _ heq => absurd heq (hother _)
  | unread hother =>
      exact hsettled.silent (fun _ => rfl) (fun _ _ h => .inl h) (fun _ _ h => h)
        fun p address content _ heq => absurd heq (hother _)

/-! ### The statistics -/

/-- The counters of the store against the operations. -/
structure Counted (start : ChunkStore H P) (ops : List (Option P × StoreOp H))
    (s : ChunkStore H P) : Prop where
  counted : s.stats = (ops.map (·.2.tally)).foldl StorageStats.add .zero
  conserved : s.chunks.keys.card + ops.countP (·.2.isRemoved) =
    start.chunks.keys.card + ops.countP (·.2.isStored)

omit [Digest H] [DecidableEq P] in
/-- An operation adds to each count what it counts for. -/
theorem Counted.concat {ops : List (Option P × StoreOp H)} {op : Option P × StoreOp H}
    (hcounted : Counted start ops s) (hstats : s'.stats = s.stats.add op.2.tally)
    (hconserved : s'.chunks.keys.card + [op].countP (·.2.isRemoved) =
      s.chunks.keys.card + [op].countP (·.2.isStored)) :
    Counted start (ops ++ [op]) s' := by
  obtain ⟨hcount, hconserved'⟩ := hcounted
  refine ⟨?_, ?_⟩
  · rw [List.map_append, List.foldl_append, ← hcount, hstats]
    rfl
  · rw [List.countP_append, List.countP_append]
    omega

theorem Counted.of_transition {ops : List (Option P × StoreOp H)}
    {op : Option (Option P × StoreOp H)} (hcounted : Counted start ops s)
    (htransition : Transition config s e op s') : Counted start (ops ++ op.toList) s' := by
  have hsilent : ∀ {s' : ChunkStore H P}, s'.stats = s.stats → s'.chunks = s.chunks →
      Counted start (ops ++ []) s' := by
    intro s' hstats hchunks
    rw [List.append_nil]
    exact ⟨hstats ▸ hcounted.counted, hchunks ▸ hcounted.conserved⟩
  cases htransition with
  | called _ _ => exact hsilent rfl rfl
  | advanced _ _ _ _ => exact hsilent rfl rfl
  | found _ _ _ _ => exact hcounted.concat rfl rfl
  | @stored _ p address _ _ _ hmem =>
      refine hcounted.concat rfl ?_
      have hcard : (s.chunks.insert address (s.content p)).keys.card = s.chunks.keys.card + 1 := by
        rw [keys_insert, Finset.card_insert_of_notMem fun h => hmem (Finmap.mem_keys.mp h)]
      exact hcard
  | @deleted address _ =>
      refine hcounted.concat rfl ?_
      change (s.chunks.erase address).keys.card + _ = s.chunks.keys.card + 0
      rw [Finmap.keys_erase, List.countP_singleton]
      by_cases hmem : address ∈ s.chunks.keys
      · have hcard := Finset.card_erase_add_one hmem
        simpa [StoreOp.isRemoved, hmem] using hcard
      · simp [StoreOp.isRemoved, hmem]
  | idle _ => exact hsilent rfl rfl
  | @queried _ op _ hquery _ _ =>
      refine hcounted.concat rfl ?_
      cases op with
      | stored _ _ | found _ | deleted _ _ => cases hquery
      | _ => rfl
  | unread _ => exact hsilent rfl rfl

/-! ### A run -/

def Genuine (m : H → Option Bytes) : Prop :=
  ∀ address content, m address = some content → blake3 content = address

theorem genuine_apply {m m' : H → Option Bytes} {op : StoreOp H} (hgenuine : Genuine m)
    (happly : StoreOp.apply m op = some m') : Genuine m' := by
  obtain ⟨hlegal, hnext⟩ := Option.ite_none_right_eq_some.mp happly
  obtain rfl := Option.some.inj hnext
  have hupdate : ∀ address answer, (∀ content, answer = some content → blake3 content = address) →
      Genuine (Function.update m address answer) := by
    intro address answer hanswer a content hlookup
    by_cases heq : a = address
    · subst heq
      rw [Function.update_self] at hlookup
      exact hanswer content hlookup
    · rw [Function.update_of_ne heq] at hlookup
      exact hgenuine a content hlookup
  cases op with
  | stored address content =>
      refine hupdate address _ fun content' heq => ?_
      rw [← Option.some.inj heq]
      exact hlegal.2
  | deleted address existed => exact hupdate address none fun content heq => by cases heq
  | _ => exact hgenuine

omit [Digest H] [DecidableEq P] in
theorem new_eq_ok {world : OpenWorld H} {stored : FiniteMap H Bytes}
    (hnew : new config pageSize world stored = .ok start) :
    (∀ p, start.phase p = .idle) ∧ start.stats = .zero := by
  obtain ⟨map, hmap, hstart⟩ := Fallible.bind_eq_ok_iff.mp hnew
  obtain ⟨mapSize, hsize, hmap⟩ := LmdbMap.new_eq_ok hmap
  rw [← Except.ok.inj hstart, hmap]
  exact ⟨fun _ => rfl, rfl⟩

/-- With the check on, what `get` returns has its address. -/
theorem verified_of_run (hverify : config.verifyOnRead = true) {events : List (StoreEvent H P)}
    (hrun : Runs.run (step config pageSize) start events = some s) :
    ∀ address content, (none, .read address (some content)) ∈
      Runs.trace (step config pageSize) (point config) start events →
      blake3 content = address := by
  refine Runs.history_induction (I := fun events _ => ∀ address content,
    (none, .read address (some content)) ∈
      Runs.trace (step config pageSize) (point config) start events →
    blake3 content = address) (fun _ _ hmem => absurd hmem List.not_mem_nil) ?_ hrun
  intro events mid e s' hmid ih hstep address content hmem
  rw [Runs.trace_concat hmid] at hmem
  rcases List.mem_append.mp hmem with hold | hlast
  · exact ih address content hold
  · have htransition := transition_of_step hstep
    rw [Option.mem_toList] at hlast
    rw [hlast] at htransition
    cases htransition with
    | queried _ _ _ hverified => exact hverified hverify address content rfl

def readingConfig : ChunkStoreConfig := ⟨LmdbMap.cappedConfig, true⟩

/-- The content of the chunk is not what its address says. -/
def rotten : FiniteMap Transcript Bytes := FiniteMap.orInsert ∅ ⟨[2]⟩ [9]

/-- Both puts find the chunk missing; the first finds the map full, and after its resize the chunk of
the second. Then the store is read, and the rotten chunk deleted. -/
def racingPuts : List (StoreEvent Transcript Bool) :=
  [.map (.put true ⟨[1]⟩ [1]), .map (.put false ⟨[1]⟩ [1]), .map (.existsChunk true none),
    .map (.existsChunk false none), .map (.checkDiskSpace true 0 (.ok LmdbMap.cappedConfig.diskReserve)),
    .map (.checkDiskSpace false 0 (.error "busy")), .map (.tryPut true .putFull),
    .map (.tryPut false .committed), .map (.computeSize true ⟨.ok 0, 0⟩), .map (.resize true none),
    .map (.tryPut true .committed), .get ⟨[1]⟩ none, .get ⟨[2]⟩ none, .getRaw ⟨[2]⟩ none,
    .map (.delete ⟨[2]⟩ .committed), .existsChunk ⟨[2]⟩ none, .allKeys none, .readStats none]

end ChunkStore

end AntNode
