import AntNode.LmdbMap
import AntNode.Lib.Fallible
import AntNode.Transcript

/-!
# The cap of the LMDB map

Only a resize changes the map, to a size that was computed from the disk and is larger; the cap of
the operator is not looked at again. So the map stays within the cap exactly in the runs whose
resizes come with a size within it, and whose data fit into it at the opening.
-/

namespace AntNode.LmdbMap

variable {H P : Type}

theorem new_eq_ok {config : LmdbStorageConfig} {pageSize : Nat} {world : OpenWorld H}
    {s : LmdbMap H P} (hnew : new config pageSize world = .ok s) :
    ∃ mapSize, initialMapSize (H := H) config pageSize world.reading = .ok mapSize ∧
      s = ⟨max mapSize world.usedBytes, world.storedKeys, none, fun _ => .idle⟩ := by
  obtain ⟨-, hnew⟩ := Fallible.then_eq_ok_iff.mp hnew
  obtain ⟨mapSize, hsize, hnew⟩ := Fallible.bind_eq_ok_iff.mp hnew
  obtain ⟨-, hnew⟩ := Fallible.then_eq_ok_iff.mp hnew
  obtain ⟨-, hnew⟩ := Fallible.then_eq_ok_iff.mp hnew
  obtain ⟨-, hnew⟩ := Fallible.then_eq_ok_iff.mp hnew
  obtain ⟨-, hnew⟩ := Fallible.then_eq_ok_iff.mp hnew
  obtain ⟨-, hnew⟩ := Fallible.then_eq_ok_iff.mp hnew
  exact ⟨mapSize, hsize, (Except.ok.inj hnew).symm⟩

/-- A resize leaves the map alone or grows it to the size that was computed. -/
theorem tryResize_cases (mapSize fromDisk : Nat) (fault : Option ResizeFault) :
    (tryResize (H := H) mapSize fromDisk fault).2 = mapSize ∧
        (fault = none → fromDisk ≤ mapSize) ∨
      fault = none ∧ mapSize < fromDisk ∧
        (tryResize (H := H) mapSize fromDisk fault).2 = fromDisk := by
  rcases fault with - | (e | e)
  · by_cases hgrows : mapSize < fromDisk
    · refine .inr ⟨rfl, hgrows, ?_⟩
      rw [tryResize, max_eq_left hgrows.le, if_neg (Nat.not_le.mpr hgrows)]
    · refine .inl ⟨?_, fun _ => Nat.le_of_not_lt hgrows⟩
      rw [tryResize, max_eq_right (Nat.le_of_not_lt hgrows), if_pos le_rfl]
  · exact .inl ⟨rfl, fun hnone => by cases hnone⟩
  · refine .inl ⟨?_, fun hnone => by cases hnone⟩
    rw [tryResize]
    split_ifs <;> rfl

variable [Digest H]

theorem ifAbsent_snd {keys : Finset H} {address : H}
    {result : Except (StorageError H) PutOutcome × Finset H} (hkeys : result.2 = keys) :
    (ifAbsent keys address result).2 = keys := by
  unfold ifAbsent
  split_ifs
  · rfl
  · exact hkeys

/-- A put changes the keys where it commits, and then it reports a new chunk. -/
theorem tryPut_cases (keys : Finset H) (address : H) (outcome : PutWriteOutcome) :
    (tryPut keys address outcome).2 = keys ∨ (tryPut keys address outcome).1 = .ok .new := by
  cases outcome with
  | committed =>
      rw [tryPut, ifAbsent]
      by_cases hmem : address ∈ keys
      · rw [if_pos hmem]
        exact .inl rfl
      · rw [if_neg hmem]
        exact .inr rfl
  | taskFailed e => exact .inl rfl
  | txnFailed e => exact .inl rfl
  | checkFailed e => exact .inl rfl
  | putFull => exact .inl (ifAbsent_snd rfl)
  | putFailed e => exact .inl (ifAbsent_snd rfl)
  | commitFull => exact .inl (ifAbsent_snd rfl)
  | commitFailed e => exact .inl (ifAbsent_snd rfl)

variable [DecidableEq P] {config : LmdbStorageConfig} {pageSize : Nat} {s s' : LmdbMap H P}
  {e : MapEvent H P}

/-- Everything a step can do: a put goes on, and holds a size only where it has just computed it; a
put writes; a put resizes the map; another task deletes a chunk or checks the disk. -/
inductive Moves (config : LmdbStorageConfig) (pageSize : Nat) (s : LmdbMap H P) :
    MapEvent H P → LmdbMap H P → Prop where
  | advances {e : MapEvent H P} {p : P} {phase : PutPhase H} {lastDiskOk : Option Nat}
      (hput : e.putOf = some p) (hresize : ∀ fault, e ≠ .resize p fault)
      (hrunning : ∀ result, s.phase p ≠ .done result)
      (hsized : ∀ address fromDisk, phase = .sized address fromDisk → ∃ reading,
        e = .computeSize p reading ∧
          computeMapSize (H := H) pageSize reading config.diskReserve = .ok fromDisk) :
      Moves config pageSize s e ({ s with lastDiskOk := lastDiskOk }.setPhase p phase)
  | writes {p : P} {address : H} {retried : Bool} {outcome : PutWriteOutcome}
      (hrunning : ∀ result, s.phase p ≠ .done result) :
      Moves config pageSize s (.tryPut p outcome)
        ({ s with keys := (tryPut s.keys address outcome).2 }.setPhase p
          (afterWrite address retried (tryPut s.keys address outcome).1))
  | resizes {p : P} {address : H} {fromDisk : Nat} {fault : Option ResizeFault}
      {phase : PutPhase H} (hsized : s.phase p = .sized address fromDisk)
      (hnot : ∀ address fromDisk, phase ≠ .sized address fromDisk) :
      Moves config pageSize s (.resize p fault)
        ({ s with mapSize := (tryResize (H := H) s.mapSize fromDisk fault).2 }.setPhase p phase)
  | elsewhere {e : MapEvent H P} {keys : Finset H} {lastDiskOk : Option Nat}
      (hother : e.putOf = none) :
      Moves config pageSize s e { s with keys := keys, lastDiskOk := lastDiskOk }

/-- A put that is not done goes on to a phase without a size. -/
theorem Moves.goes_on {p : P} {old phase : PutPhase H} {lastDiskOk : Option Nat}
    (hput : e.putOf = some p) (hresize : ∀ fault, e ≠ .resize p fault) (hold : s.phase p = old)
    (hrunning : ∀ result, old ≠ .done result)
    (hphase : ∀ address fromDisk, phase ≠ .sized address fromDisk)
    (hstep : some ({ s with lastDiskOk := lastDiskOk }.setPhase p phase) = some s') :
    Moves config pageSize s e s' := by
  rw [← Option.some.inj hstep]
  refine .advances hput hresize (fun result hdone => ?_) fun address fromDisk heq => ?_
  · exact hrunning result (hold.symm.trans hdone)
  · exact absurd heq (hphase address fromDisk)

theorem moves_of_step (hstep : step config pageSize s e = some s') :
    Moves config pageSize s e s' := by
  cases e with
  | put p address content =>
      simp only [step] at hstep
      split at hstep
      · rename_i hphase
        split_ifs at hstep with hcomputed
        · exact .goes_on rfl (by simp) hphase (by simp) (by simp) hstep
        · exact .goes_on rfl (by simp) hphase (by simp) (by simp) hstep
      · cases hstep
  | existsChunk p fault =>
      simp only [step] at hstep
      split at hstep
      · rename_i address hphase
        split at hstep
        · exact .goes_on rfl (by simp) hphase (by simp) (by simp) hstep
        · exact .goes_on rfl (by simp) hphase (by simp) (by simp) hstep
        · split_ifs at hstep with hmem
          · exact .goes_on rfl (by simp) hphase (by simp) (by simp) hstep
          · exact .goes_on rfl (by simp) hphase (by simp) (by simp) hstep
      · cases hstep
  | checkDiskSpace p now available =>
      simp only [step] at hstep
      split at hstep
      · rename_i address hphase
        split at hstep
        · exact .goes_on rfl (by simp) hphase (by simp) (by simp) hstep
        · exact .goes_on rfl (by simp) hphase (by simp) (by simp) hstep
      · cases hstep
  | tryPut p outcome =>
      simp only [step] at hstep
      split at hstep
      · rename_i address hphase
        rw [← Option.some.inj hstep]
        exact .writes (by simp [hphase])
      · rename_i address hphase
        rw [← Option.some.inj hstep]
        exact .writes (by simp [hphase])
      · cases hstep
  | computeSize p reading =>
      simp only [step] at hstep
      split at hstep
      · rename_i address hphase
        split at hstep
        · exact .goes_on rfl (by simp) hphase (by simp) (by simp) hstep
        · rename_i fromDisk hsize
          rw [← Option.some.inj hstep]
          refine .advances rfl (by simp) (by simp [hphase]) fun address' fromDisk' heq => ?_
          obtain ⟨-, rfl⟩ := PutPhase.sized.inj heq
          exact ⟨reading, rfl, hsize⟩
      · cases hstep
  | resize p fault =>
      simp only [step] at hstep
      split at hstep
      · rename_i address fromDisk hphase
        split at hstep
        · rw [← Option.some.inj hstep]
          exact .resizes hphase (by simp)
        · rw [← Option.some.inj hstep]
          exact .resizes hphase (by simp)
      · cases hstep
  | checkCapacity now available =>
      rw [← Option.some.inj hstep]
      exact .elsewhere rfl
  | delete address outcome =>
      rw [← Option.some.inj hstep]
      exact .elsewhere rfl

/-! ### One step -/

omit [Digest H] in
theorem phase_setPhase_self (s : LmdbMap H P) (p : P) (phase : PutPhase H) :
    (s.setPhase p phase).phase p = phase := by
  simp [setPhase]

omit [Digest H] in
theorem phase_setPhase_of_ne (s : LmdbMap H P) {p other : P} (hne : other ≠ p)
    (phase : PutPhase H) : (s.setPhase p phase).phase other = s.phase other := by
  simp [setPhase, hne]

/-- The size a resize that meets no fault comes with. -/
def resizeTo (s : LmdbMap H P) : MapEvent H P → Option Nat
  | .resize p none =>
      match s.phase p with
      | .sized _ fromDisk => some fromDisk
      | _ => none
  | _ => none

omit [Digest H] [DecidableEq P] in
theorem mem_resizeTo {fromDisk : Nat} : fromDisk ∈ resizeTo s e ↔
    ∃ p address, e = .resize p none ∧ s.phase p = .sized address fromDisk := by
  constructor
  · intro hmem
    unfold resizeTo at hmem
    split at hmem
    · rename_i p
      split at hmem
      · rename_i address size hsized
        obtain rfl := Option.some.inj hmem
        exact ⟨p, address, rfl, hsized⟩
      · cases hmem
    · cases hmem
  · rintro ⟨p, address, rfl, hsized⟩
    simp [resizeTo, hsized]

/-- A resize comes with a size within the cap. -/
def WithinCap (cap : Nat) (s : LmdbMap H P) (e : MapEvent H P) : Prop :=
  ∀ fromDisk ∈ resizeTo s e, fromDisk ≤ cap

instance (cap : Nat) (s : LmdbMap H P) (e : MapEvent H P) : Decidable (WithinCap cap s e) :=
  inferInstanceAs (Decidable (∀ fromDisk ∈ resizeTo s e, _))

/-- The map grows to the size a resize comes with, or stays. -/
theorem mapSize_step (hstep : step config pageSize s e = some s') :
    s'.mapSize = s.mapSize ∧ (∀ fromDisk ∈ resizeTo s e, fromDisk ≤ s.mapSize) ∨
      ∃ fromDisk ∈ resizeTo s e, s.mapSize < fromDisk ∧ s'.mapSize = fromDisk := by
  cases moves_of_step hstep with
  | advances hput hresize _ _ =>
      refine .inl ⟨rfl, fun fromDisk hmem => ?_⟩
      obtain ⟨p, address, rfl, -⟩ := mem_resizeTo.mp hmem
      obtain rfl := Option.some.inj hput
      exact absurd rfl (hresize none)
  | writes _ =>
      refine .inl ⟨rfl, fun fromDisk hmem => ?_⟩
      cases hmem
  | @resizes p address fromDisk fault _ hsized _ =>
      rcases tryResize_cases (H := H) s.mapSize fromDisk fault with
        ⟨hsame, hle⟩ | ⟨rfl, hgrows, hgrown⟩
      · refine .inl ⟨hsame, fun fromDisk' hmem => ?_⟩
        obtain ⟨p', address', heq, hsized'⟩ := mem_resizeTo.mp hmem
        obtain ⟨rfl, rfl⟩ := MapEvent.resize.inj heq
        obtain ⟨-, rfl⟩ := PutPhase.sized.inj (hsized.symm.trans hsized')
        exact hle rfl
      · exact .inr ⟨fromDisk, mem_resizeTo.mpr ⟨p, address, rfl, hsized⟩, hgrows, hgrown⟩
  | elsewhere hother =>
      refine .inl ⟨rfl, fun fromDisk hmem => ?_⟩
      obtain ⟨p, address, rfl, -⟩ := mem_resizeTo.mp hmem
      cases hother

theorem mapSize_le_step (hstep : step config pageSize s e = some s') : s.mapSize ≤ s'.mapSize := by
  obtain ⟨hsame, -⟩ | ⟨fromDisk, -, hgrows, hgrown⟩ := mapSize_step hstep
  · exact hsame.ge
  · exact hgrown ▸ hgrows.le

/-- A step keeps the map within the cap exactly where a resize comes with a size within it. -/
theorem mapSize_le_cap_iff {cap : Nat} (hcap : s.mapSize ≤ cap)
    (hstep : step config pageSize s e = some s') : s'.mapSize ≤ cap ↔ WithinCap cap s e := by
  obtain ⟨hsame, hle⟩ | ⟨fromDisk, hmem, -, hgrown⟩ := mapSize_step hstep
  · rw [hsame]
    exact iff_of_true hcap fun fromDisk hmem => (hle fromDisk hmem).trans hcap
  · rw [hgrown]
    constructor
    · intro hfits fromDisk' hmem'
      obtain rfl := Option.some.inj (hmem.symm.trans hmem')
      exact hfits
    · intro hwithin
      exact hwithin fromDisk hmem

/-- The result of a put stands. -/
theorem done_step (hstep : step config pageSize s e = some s') {p : P}
    {result : Except (StorageError H) Bool} (hdone : s.phase p = .done result) :
    s'.phase p = .done result := by
  have hkept : ∀ {s : LmdbMap H P} {p' : P} {phase : PutPhase H}, s.phase p = .done result →
      p ≠ p' → (s.setPhase p' phase).phase p = .done result := by
    intro s p' phase hdone hne
    rw [phase_setPhase_of_ne s hne]
    exact hdone
  cases moves_of_step hstep with
  | advances _ _ hrunning _ =>
      refine hkept hdone ?_
      rintro rfl
      exact hrunning result hdone
  | writes hrunning =>
      refine hkept hdone ?_
      rintro rfl
      exact hrunning result hdone
  | resizes hsized _ =>
      refine hkept hdone ?_
      rintro rfl
      rw [hdone] at hsized
      cases hsized
  | elsewhere _ => exact hdone

/-- A step of a put that changes the keys ends it with a new chunk. -/
theorem keys_step (hstep : step config pageSize s e = some s') {p : P} (hput : e.putOf = some p)
    (hkeys : s'.keys ≠ s.keys) : s'.phase p = .done (.ok true) := by
  cases moves_of_step hstep with
  | advances _ _ _ _ => exact absurd rfl hkeys
  | @writes p' address _ outcome _ =>
      obtain rfl : p' = p := Option.some.inj hput
      rcases tryPut_cases s.keys address outcome with hsame | hnew
      · exact absurd hsame hkeys
      · rw [phase_setPhase_self, hnew]
        rfl
  | resizes _ _ => exact absurd rfl hkeys
  | elsewhere hother =>
      rw [hother] at hput
      cases hput

omit [Digest H] in
theorem afterWrite_ne_sized (address : H) (retried : Bool)
    (answer : Except (StorageError H) PutOutcome) (address' : H) (fromDisk : Nat) :
    afterWrite address retried answer ≠ .sized address' fromDisk := by
  intro heq
  rcases answer with e | (- | - | -)
  · cases heq
  · cases heq
  · cases heq
  · cases retried
    · cases heq
    · cases heq

/-- A put holds the size it held, or the one it computes. -/
theorem sized_step (hstep : step config pageSize s e = some s') {p : P} {address : H}
    {fromDisk : Nat} (hsized : s'.phase p = .sized address fromDisk) :
    s.phase p = .sized address fromDisk ∨ ∃ reading, e = .computeSize p reading ∧
      computeMapSize (H := H) pageSize reading config.diskReserve = .ok fromDisk := by
  have hmoved : ∀ {s : LmdbMap H P} {p' : P} {phase : PutPhase H},
      (s.setPhase p' phase).phase p = .sized address fromDisk →
        s.phase p = .sized address fromDisk ∨ p = p' ∧ phase = .sized address fromDisk := by
    intro s p' phase hphase
    by_cases hp : p = p'
    · subst hp
      rw [phase_setPhase_self] at hphase
      exact .inr ⟨rfl, hphase⟩
    · rw [phase_setPhase_of_ne s hp] at hphase
      exact .inl hphase
  cases moves_of_step hstep with
  | advances _ _ _ hcomputed =>
      rcases hmoved hsized with hold | ⟨rfl, hnew⟩
      · exact .inl hold
      · exact .inr (hcomputed address fromDisk hnew)
  | writes _ =>
      rcases hmoved hsized with hold | ⟨rfl, hnew⟩
      · exact .inl hold
      · exact absurd hnew (afterWrite_ne_sized _ _ _ _ _)
  | resizes _ hnot =>
      rcases hmoved hsized with hold | ⟨rfl, hnew⟩
      · exact .inl hold
      · exact absurd hnew (hnot _ _)
  | elsewhere _ => exact .inl hsized

/-! ### Every run -/

variable {world : OpenWorld H} {start : LmdbMap H P} {events : List (MapEvent H P)}

theorem mapSize_le_run (hrun : Runs.run (step config pageSize) s events = some s') :
    s.mapSize ≤ s'.mapSize :=
  Runs.stable_of_run (fun t => s.mapSize ≤ t.mapSize)
    (fun _ _ _ hle hstep => hle.trans (mapSize_le_step hstep)) le_rfl hrun

/-- Every size a put holds, and every size the map has grown to, was computed in the run. -/
structure Computed (config : LmdbStorageConfig) (pageSize : Nat) (start : LmdbMap H P)
    (events : List (MapEvent H P)) (s : LmdbMap H P) : Prop where
  sized : ∀ p address fromDisk, s.phase p = .sized address fromDisk →
    ∃ reading, .computeSize p reading ∈ events ∧
      computeMapSize (H := H) pageSize reading config.diskReserve = .ok fromDisk
  map : s.mapSize = start.mapSize ∨ ∃ p reading, .computeSize p reading ∈ events ∧
    computeMapSize (H := H) pageSize reading config.diskReserve = .ok s.mapSize

theorem Computed.step (hcomputed : Computed config pageSize start events s)
    (hstep : step config pageSize s e = some s') :
    Computed config pageSize start (events ++ [e]) s' := by
  constructor
  · intro p address fromDisk hsized
    rcases sized_step hstep hsized with hheld | ⟨reading, rfl, hsize⟩
    · obtain ⟨reading, hmem, hsize⟩ := hcomputed.sized p address fromDisk hheld
      exact ⟨reading, List.mem_append_left _ hmem, hsize⟩
    · exact ⟨reading, List.mem_append_right _ (List.mem_singleton_self _), hsize⟩
  · obtain ⟨hsame, -⟩ | ⟨fromDisk, hmem, -, hgrown⟩ := mapSize_step hstep
    · rw [hsame]
      rcases hcomputed.map with hstart | ⟨p, reading, hmem, hsize⟩
      · exact .inl hstart
      · exact .inr ⟨p, reading, List.mem_append_left _ hmem, hsize⟩
    · obtain ⟨p, address, rfl, hsized⟩ := mem_resizeTo.mp hmem
      obtain ⟨reading, hmem, hsize⟩ := hcomputed.sized p address fromDisk hsized
      rw [hgrown]
      exact .inr ⟨p, reading, List.mem_append_left _ hmem, hsize⟩

theorem computed_of_run (hidle : ∀ p, start.phase p = .idle)
    (hrun : Runs.run (LmdbMap.step config pageSize) start events = some s) :
    Computed config pageSize start events s := by
  refine Runs.history_induction ⟨fun p address fromDisk hsized => ?_, .inl rfl⟩
    (fun _ _ _ _ _ hcomputed hstep => hcomputed.step hstep) hrun
  rw [hidle] at hsized
  cases hsized

/-- **The map never shrinks, grows only to a size computed from the disk, and a failed put leaves
the keys alone**, in every run. It stays within the operator's cap exactly where the data fit at the
opening and every resize comes with a size within the cap. -/
theorem map_of_run (hnew : new config pageSize world = .ok start)
    (hrun : Runs.run (LmdbMap.step config pageSize) start events = some s) :
    (∀ before mid, before <+: events →
      Runs.run (LmdbMap.step config pageSize) start before = some mid →
        mid.mapSize ≤ s.mapSize) ∧
    (s.mapSize = start.mapSize ∨ ∃ p reading, .computeSize p reading ∈ events ∧
      computeMapSize (H := H) pageSize reading config.diskReserve = .ok s.mapSize) ∧
    (∀ p error, s.phase p = .done (.error error) → ∀ before e after mid next,
      events = before ++ e :: after →
      Runs.run (LmdbMap.step config pageSize) start before = some mid →
      mid.step config pageSize e = some next → e.putOf = some p → next.keys = mid.keys) ∧
    (0 < config.maxMapSize →
      ((∀ before mid, before <+: events →
        Runs.run (LmdbMap.step config pageSize) start before = some mid →
          mid.mapSize ≤ config.maxMapSize) ↔
        world.usedBytes ≤ config.maxMapSize ∧
          Runs.Along (LmdbMap.step config pageSize) (WithinCap config.maxMapSize) start
            events)) := by
  obtain ⟨mapSize, hsize, hstart⟩ := new_eq_ok hnew
  have hidle : ∀ p, start.phase p = .idle := by
    intro p
    rw [hstart]
  refine ⟨?_, (computed_of_run hidle hrun).map, ?_, ?_⟩
  · rintro before mid ⟨after, rfl⟩ hmid
    obtain ⟨mid', hmid', hafter⟩ := Runs.run_append_eq_some.mp hrun
    obtain rfl := Option.some.inj (hmid.symm.trans hmid')
    exact mapSize_le_run hafter
  · rintro p error hdone before e after mid next rfl hmid hstep hput
    by_contra hkeys
    have hended := keys_step hstep hput hkeys
    obtain ⟨mid', hmid', hlater⟩ := Runs.run_append_eq_some.mp hrun
    obtain rfl := Option.some.inj (hmid.symm.trans hmid')
    obtain ⟨next', hnext', hafter⟩ := Runs.run_cons_eq_some.mp hlater
    obtain rfl := Option.some.inj (hstep.symm.trans hnext')
    have hfinal : s.phase p = .done (.ok true) :=
      Runs.stable_of_run (fun t => t.phase p = .done (.ok true))
        (fun _ _ _ hdone hstep => done_step hstep hdone) hended hafter
    rw [hdone] at hfinal
    cases hfinal
  · intro hcap
    have hopened : start.mapSize = max config.maxMapSize world.usedBytes := by
      rw [initialMapSize, if_pos hcap] at hsize
      obtain rfl := Except.ok.inj hsize
      rw [hstart]
    by_cases hfits : world.usedBytes ≤ config.maxMapSize
    · have hsafe : start.mapSize ≤ config.maxMapSize := by
        rw [hopened]
        exact max_le le_rfl hfits
      rw [Runs.forall_prefix_iff_along (fun _ => True) (fun _ _ _ _ _ => trivial)
        (fun _ _ _ _ hsafe hstep => mapSize_le_cap_iff hsafe hstep) trivial hsafe hrun]
      exact (and_iff_right hfits).symm
    · refine iff_of_false (fun hprefix => hfits ?_) fun hboth => hfits hboth.1
      have hfirst := hprefix [] start List.nil_prefix rfl
      rw [hopened] at hfirst
      exact (le_max_right _ _).trans hfirst

/-! ### A resize past the cap -/

def mib : Nat := 1024 * 1024

/-- A cap of one GiB, and the default reserve. -/
def cappedConfig : LmdbStorageConfig := ⟨1024 * mib, 500 * mib⟩

def emptyWorld : OpenWorld Transcript where
  createDir := none
  reading := ⟨.ok (100 * 1024 * mib), 0⟩
  openEnv := none
  writeTxn := none
  createDatabase := none
  commit := none
  initTask := none
  usedBytes := 8192
  storedKeys := ∅

/-- A put that finds the map full, with the given free space on the disk when it resizes. -/
def fullMapPut (available : Nat) : List (MapEvent Transcript Unit) :=
  [.put () ⟨[1]⟩ [1], .existsChunk () none, .checkDiskSpace () 0 (.ok (100 * 1024 * mib)),
    .tryPut () .putFull, .computeSize () ⟨.ok available, 1024 * mib⟩, .resize () none,
    .tryPut () .committed]

def openedMap : LmdbMap Transcript Unit := ⟨cappedConfig.maxMapSize, ∅, none, fun _ => .idle⟩

theorem map_of_run_little_space :
    ∃ s, new cappedConfig 4096 emptyWorld = .ok openedMap ∧
      Runs.run (LmdbMap.step cappedConfig 4096) openedMap (fullMapPut 0) = some s ∧
      s.keys = {⟨[1]⟩} ∧
      ∀ before mid, before <+: fullMapPut 0 →
        Runs.run (LmdbMap.step cappedConfig 4096) openedMap before = some mid →
          mid.mapSize ≤ cappedConfig.maxMapSize := by
  have hrun : (Runs.run (LmdbMap.step cappedConfig 4096) openedMap (fullMapPut 0)).map
      LmdbMap.keys = some {⟨[1]⟩} := by
    decide +kernel
  obtain ⟨s, hrun, hkeys⟩ := Option.map_eq_some_iff.mp hrun
  have hnew : new cappedConfig 4096 emptyWorld = .ok openedMap := rfl
  refine ⟨s, hnew, hrun, hkeys, ((map_of_run hnew hrun).2.2.2 (by decide)).mpr ⟨by decide, ?_⟩⟩
  decide +kernel

/-- With room on the disk the map outgrows the cap. -/
theorem resize_ignores_cap :
    ∃ s, new cappedConfig 4096 emptyWorld = .ok openedMap ∧
      Runs.run (LmdbMap.step cappedConfig 4096) openedMap (fullMapPut (10 * 1024 * mib)) = some s ∧
      cappedConfig.maxMapSize < s.mapSize := by
  have hrun : (Runs.run (LmdbMap.step cappedConfig 4096) openedMap
      (fullMapPut (10 * 1024 * mib))).map LmdbMap.mapSize = some 11286872064 := by
    decide +kernel
  obtain ⟨s, hrun, hsize⟩ := Option.map_eq_some_iff.mp hrun
  refine ⟨s, rfl, hrun, ?_⟩
  rw [hsize]
  decide

end AntNode.LmdbMap
