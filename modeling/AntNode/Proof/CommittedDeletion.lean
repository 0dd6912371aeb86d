import AntNode.CommittedPruning
import AntNode.Proof.CrashRetention
import AntNode.Proof.PruneSafety

/-!
# Which commitments owe the bytes of a deleted key

A pass that finds a key in no commitment goes on to delete it, and no step of the pass, no emission
and no expiry brings the key into a commitment. Only a rotation that installs a commitment over the
key in between does. So while no rotation installs a key that is about to be deleted, no retained
commitment owes the bytes of a deleted key; where one does, the bytes are deleted all the same.
-/

namespace AntNode

open Runs

variable {H : Type} [Digest H]

theorem MerkleTree.mem_of_mem_leafKeys_build {entries : List (H × H)} {tree : MerkleTree H}
    (hbuild : build entries = .ok tree) {key : H} (hkey : key ∈ tree.leafKeys) :
    key ∈ entries.map Prod.fst := by
  rw [leafKeys, leaves_of_build hbuild, List.map_map] at hkey
  exact ((sortByKey_perm entries).map Prod.fst).mem_iff.mp hkey

/-- What a step of the pass, apart from its looking at a candidate again, does to the keys that are
to be deleted. -/
theorem RecordPrunePass.step_cases {ctx : PrunePassContext H} {event : RecordPruneEvent H}
    {pass pass' : RecordPrunePass H}
    (helsewhere : ∀ world, event ≠ .elsewhere world) (hrevalidate : event ≠ .revalidate)
    (hstep : pass.step ctx event = some pass') :
    pass'.keysToDelete = pass.keysToDelete ∧
      ((((∃ remaining, pass.phase = .selecting remaining) ∨
          ∃ remaining asked, pass.phase = .challenging remaining asked) ∧
        ((∃ remaining, pass'.phase = .selecting remaining) ∨
          (∃ remaining asked, pass'.phase = .challenging remaining asked) ∨
          ∃ remaining, pass'.phase = .revalidating remaining)) ∨
      (∃ remaining, pass.phase = .revalidating remaining) ∧
        pass'.phase = .deleting pass.keysToDelete ∨
      ∃ key rest, pass.phase = .deleting (key :: rest) ∧ pass'.phase = .deleting rest) := by
  unfold step at hstep
  cases event with
  | elsewhere world => exact absurd rfl (helsewhere world)
  | revalidate => exact absurd rfl hrevalidate
  | evaluate =>
      dsimp only at hstep
      split at hstep
      · rename_i key rest hphase
        cases hstep
        exact ⟨rfl, .inl ⟨.inl ⟨_, hphase⟩, .inl ⟨rest, rfl⟩⟩⟩
      · cases hstep
  | endSelection =>
      dsimp only at hstep
      split at hstep
      · rename_i hphase
        cases hstep
        exact ⟨rfl, .inl ⟨.inl ⟨_, hphase⟩, .inr (.inl ⟨_, _, rfl⟩)⟩⟩
      · cases hstep
  | readLocal peer key readFails =>
      dsimp only at hstep
      split at hstep
      · rename_i remaining asked hphase
        split at hstep
        · split at hstep <;>
          · cases hstep
            exact ⟨rfl, .inl ⟨.inr ⟨_, _, hphase⟩, .inr (.inl ⟨_, _, rfl⟩)⟩⟩
        · cases hstep
      · cases hstep
  | challenge peer key localBytes challenge =>
      dsimp only at hstep
      split at hstep
      · rename_i remaining asked hphase
        split at hstep
        · cases hstep
          exact ⟨rfl, .inl ⟨.inr ⟨_, _, hphase⟩, .inr (.inl ⟨_, _, rfl⟩)⟩⟩
        · cases hstep
      · cases hstep
  | endChallenges =>
      dsimp only at hstep
      split at hstep
      · rename_i hphase
        cases hstep
        exact ⟨rfl, .inl ⟨.inr ⟨_, _, hphase⟩, .inr (.inr ⟨_, rfl⟩)⟩⟩
      · cases hstep
  | endRevalidation =>
      dsimp only at hstep
      split at hstep
      · rename_i hphase
        cases hstep
        exact ⟨rfl, .inr (.inl ⟨⟨_, hphase⟩, rfl⟩)⟩
      · cases hstep
  | delete accepted =>
      dsimp only at hstep
      split at hstep
      · rename_i key rest hphase
        cases hstep
        exact ⟨rfl, .inr (.inr ⟨key, rest, hphase, rfl⟩)⟩
      · cases hstep

variable [CommitmentProtocol H]

namespace ResponderCommitmentState

variable {state state' : ResponderCommitmentState H} {key : H}

theorem isHeld_eq_true_iff : state.isHeld key = true ↔
    ∃ built ∈ state.slots, built.containsKey key = true := by
  rw [isHeld, List.any_eq_true]

theorem isHeld_of_sublist (hslots : state'.slots.Sublist state.slots)
    (hheld : state'.isHeld key = true) : state.isHeld key = true := by
  obtain ⟨built, hbuilt, hkey⟩ := isHeld_eq_true_iff.mp hheld
  exact isHeld_eq_true_iff.mpr ⟨built, hslots.mem hbuilt, hkey⟩

theorem isHeld_of_snapshotAndStamp {now : Nat}
    (hheld : (state.snapshotAndStamp now).1.isHeld key = true) : state.isHeld key = true := by
  unfold snapshotAndStamp at hheld
  cases hcurrent : state.current with
  | none => rwa [hcurrent] at hheld
  | some built =>
      rw [hcurrent] at hheld
      have hslots : (state.markGossipedLocked built.cachedHash now).slots.Sublist state.slots :=
        pruneSlots_slots_sublist _ _
      exact isHeld_of_sublist hslots hheld

/-- A rotation makes the commitments hold only keys that it found in range. -/
theorem isHeld_of_rotation {identity : NodeIdentity H} {now : Nat} {storedKeys : List H}
    {isResponsible : H → Bool} {randomness : Nat}
    (hok : rebuildAndRotateCommitment identity state now storedKeys isResponsible randomness
      = .ok state') (hheld : state'.isHeld key = true) :
    state.isHeld key = true ∨ isResponsible key = true := by
  rcases rebuildAndRotateCommitment_outcome hok with
    ⟨-, rfl | rfl⟩ | rfl | rfl | ⟨tree, built, rfl, hbuild, hbuilt⟩
  · cases hheld
  · exact .inl hheld
  · have hslots : (state.retireCurrent now).slots.Sublist state.slots :=
      pruneSlots_slots_sublist _ _
    exact .inl (isHeld_of_sublist hslots hheld)
  · have hslots : (state.ageOut now).slots.Sublist state.slots := pruneSlots_slots_sublist _ _
    exact .inl (isHeld_of_sublist hslots hheld)
  · have hslots : (state.rotate built now).slots.Sublist (built :: state.slots) :=
      pruneSlots_slots_sublist _ _
    have hadded : ResponderCommitmentState.isHeld
        { state with slots := built :: state.slots } key = true := isHeld_of_sublist hslots hheld
    obtain ⟨slot, hslot, hkey⟩ := isHeld_eq_true_iff.mp hadded
    rcases List.mem_cons.mp hslot with rfl | hold
    · right
      rw [BuiltCommitment.containsKey, (BuiltCommitment.buildFromTree_eq_ok hbuilt).1,
        MerkleTree.containsKey_iff] at hkey
      have hmem := MerkleTree.mem_of_mem_leafKeys_build hbuild hkey
      simp only [List.map_map, Function.comp_def, List.map_id'] at hmem
      exact (List.mem_filter.mp (List.mem_of_mem_take hmem)).2
    · exact .inl (isHeld_eq_true_iff.mpr ⟨slot, hold, hkey⟩)

end ResponderCommitmentState

namespace CommittedPruning

/-- No rotation installs a commitment over a key that is about to be deleted. -/
def Orderly (s : CommittedPruning H) : CommittedPruneEvent H → Prop
  | .install _ => ∀ rebuild, s.rebuild = some rebuild → ∀ key, s.AwaitsDeletion key →
      key ∉ rebuild.keys
  | _ => True

/-- Nothing is to be deleted before the candidates are looked at again, and what is to be deleted is
in no commitment. -/
structure Inv (s : CommittedPruning H) : Prop where
  checking : s.checked ≠ none → ∃ remaining, s.pass.phase = .revalidating remaining
  early : (∃ remaining, s.pass.phase = .selecting remaining) ∨
    (∃ remaining asked, s.pass.phase = .challenging remaining asked) → s.pass.keysToDelete = []
  unheld : ∀ key, s.AwaitsDeletion key → s.commitments.isHeld key = false

variable {ctx : PrunePassContext H} {identity : NodeIdentity H} {s s' : CommittedPruning H}

/-- A step that leaves the pass alone and lets the commitments hold nothing that awaits deletion. -/
theorem Inv.of_commitments (hinv : Inv s) (hpass : s'.pass = s.pass)
    (hchecked : s'.checked = s.checked)
    (hheld : ∀ key, s.AwaitsDeletion key → s'.commitments.isHeld key = true →
      s.commitments.isHeld key = true) : Inv s' := by
  refine ⟨fun hsome => ?_, fun hphase => ?_, fun key hawaits => ?_⟩
  · rw [hpass]
    exact hinv.checking (hchecked ▸ hsome)
  · rw [hpass] at hphase ⊢
    exact hinv.early hphase
  · have hawaits : s.AwaitsDeletion key := by
      simpa only [AwaitsDeletion, hpass, hchecked] using hawaits
    rw [← Bool.not_eq_true]
    intro hnew
    have hold := hheld key hawaits hnew
    rw [hinv.unheld key hawaits] at hold
    cases hold

theorem Inv.pass {event : RecordPruneEvent H} {pass : RecordPrunePass H} (hinv : Inv s)
    (hchecked : s.checked = none) (helsewhere : ∀ world, event ≠ .elsewhere world)
    (hrevalidate : event ≠ .revalidate) (hstep : s.view.step ctx event = some pass) :
    Inv { s with pass := pass } := by
  obtain ⟨hkeys, ⟨hearly, hlater⟩ | ⟨⟨remaining, hphase⟩, hphase'⟩ | ⟨key, rest, hphase, hphase'⟩⟩ :=
    RecordPrunePass.step_cases helsewhere hrevalidate hstep
  · have hnone : pass.keysToDelete = [] := hkeys.trans (hinv.early hearly)
    refine ⟨fun hsome => absurd hchecked hsome, fun _ => hnone, fun key hawaits => ?_⟩
    rcases hlater with ⟨remaining, hphase⟩ | ⟨remaining, asked, hphase⟩ | ⟨remaining, hphase⟩ <;>
      simp [AwaitsDeletion, hchecked, hphase, hnone] at hawaits
  · refine ⟨fun hsome => absurd hchecked hsome, fun hphases => by simp [hphase'] at hphases,
      fun key hawaits => hinv.unheld key ?_⟩
    have hphase : s.pass.phase = .revalidating remaining := hphase
    simpa [AwaitsDeletion, hchecked, hphase, hphase', view] using hawaits
  · refine ⟨fun hsome => absurd hchecked hsome, fun hphases => by simp [hphase'] at hphases,
      fun other hawaits => hinv.unheld other ?_⟩
    have hphase : s.pass.phase = .deleting (key :: rest) := hphase
    have hmem : other ∈ rest := by simpa [AwaitsDeletion, hchecked, hphase'] using hawaits
    simp [AwaitsDeletion, hchecked, hphase, hmem]

theorem Inv.skip {rest : List (RecordPruneCandidate H)} {remaining : List (RecordPruneCandidate H)}
    (hinv : Inv s) (hphase : s.pass.phase = .revalidating remaining) :
    Inv { s with pass.phase := .revalidating rest } := by
  refine ⟨fun _ => ⟨rest, rfl⟩, fun hphases => by simp at hphases,
    fun key hawaits => hinv.unheld key ?_⟩
  simpa only [AwaitsDeletion, hphase] using hawaits

theorem Inv.check {candidate : RecordPruneCandidate H} {rest : List (RecordPruneCandidate H)}
    (hinv : Inv s) (hphase : s.pass.phase = .revalidating (candidate :: rest))
    (hheld : s.commitments.isHeld candidate.key = false) :
    Inv { s with pass.phase := .revalidating rest, checked := some candidate } := by
  refine ⟨fun _ => ⟨rest, rfl⟩, fun hphases => by simp at hphases, fun key hawaits => ?_⟩
  rcases hawaits with ⟨other, hother, rfl⟩ | hkeys
  · cases hother
    exact hheld
  · refine hinv.unheld key (.inr ?_)
    rw [hphase]
    exact hkeys

/-- A looked-up candidate is forgotten or joins the keys to delete. -/
theorem Inv.lookUp {candidate : RecordPruneCandidate H} (hinv : Inv s)
    (hchecked : s.checked = some candidate) (confirmed : Bool) (world : PruneWorld H) :
    Inv { s with
      checked := none
      pass.world := world
      pass.keysToDelete :=
        if confirmed then s.pass.keysToDelete ++ [candidate.key] else s.pass.keysToDelete } := by
  obtain ⟨remaining, hphase⟩ := hinv.checking (by simp [hchecked])
  refine ⟨fun hsome => absurd rfl hsome, fun hphases => by simp [hphase] at hphases,
    fun key hawaits => hinv.unheld key ?_⟩
  simp only [AwaitsDeletion, hphase, reduceCtorEq, false_and, exists_false, false_or] at hawaits
  split_ifs at hawaits with hconfirmed
  · rcases List.mem_append.mp hawaits with hold | hnew
    · exact .inr (by rw [hphase]; exact hold)
    · exact .inl ⟨candidate, hchecked, (List.mem_singleton.mp hnew).symm⟩
  · exact .inr (by rw [hphase]; exact hawaits)

theorem Inv.elsewhere (hinv : Inv s) (world : PruneWorld H) :
    Inv { s with pass.world := world } :=
  ⟨hinv.checking, hinv.early, hinv.unheld⟩

theorem Inv.step {event : CommittedPruneEvent H} (hinv : Inv s) (horderly : Orderly s event)
    (hstep : s.step ctx identity event = some s') : Inv s' := by
  unfold CommittedPruning.step at hstep
  cases event with
  | elsewhere world =>
      cases hstep
      exact hinv.elsewhere world
  | pass event =>
      dsimp only at hstep
      split at hstep
      · cases hstep
      · cases hstep
      · rename_i hchecked helsewhere hrevalidate
        obtain ⟨pass, hpass, rfl⟩ := Option.map_eq_some_iff.mp hstep
        exact hinv.pass hchecked helsewhere hrevalidate hpass
      · cases hstep
  | checkHeld =>
      dsimp only at hstep
      split at hstep
      · rename_i candidate rest hchecked hphase
        split_ifs at hstep with hheld
        · cases hstep
          exact hinv.skip hphase
        · cases hstep
          exact hinv.check hphase (by simpa using hheld)
      · cases hstep
  | lookUpGroups =>
      dsimp only at hstep
      split at hstep
      · cases hstep
      · rename_i candidate hchecked
        cases hstep
        exact hinv.lookUp hchecked _ _
  | readStoredKeys =>
      dsimp only at hstep
      split at hstep
      · cases hstep
      · cases hstep
        exact hinv.of_commitments rfl rfl fun _ _ hheld => hheld
  | checkResponsible =>
      dsimp only at hstep
      split at hstep
      · cases hstep
        exact hinv.of_commitments rfl rfl fun _ _ hheld => hheld
      · cases hstep
  | install randomness =>
      dsimp only at hstep
      split at hstep
      · rename_i storedKeys keys hrebuild
        split at hstep
        · cases hstep
          exact hinv.of_commitments rfl rfl fun _ _ hheld => hheld
        · rename_i commitments hok
          cases hstep
          refine hinv.of_commitments rfl rfl fun key hawaits hheld => ?_
          rcases ResponderCommitmentState.isHeld_of_rotation hok hheld with hold | hnew
          · exact hold
          · exact absurd (of_decide_eq_true hnew) (horderly _ hrebuild key hawaits)
      · cases hstep
  | emitGossip =>
      cases hstep
      exact hinv.of_commitments rfl rfl fun _ _ =>
        ResponderCommitmentState.isHeld_of_snapshotAndStamp
  | emitQuote =>
      cases hstep
      exact hinv.of_commitments rfl rfl fun _ _ =>
        ResponderCommitmentState.isHeld_of_snapshotAndStamp

theorem inv_start (storedKeys : List H) (scanStart : Nat) (world : PruneWorld H)
    (commitments : ResponderCommitmentState H) (rebuild : Option (CommitmentRebuild H)) :
    Inv (start storedKeys scanStart world commitments rebuild) where
  checking hsome := absurd rfl hsome
  early _ := rfl
  unheld key hawaits := by simp [AwaitsDeletion, start, RecordPrunePass.start] at hawaits

theorem awaitsDeletion_of_nextDeletion {key : H} (hnext : s.nextDeletion = some key) :
    s.AwaitsDeletion key := by
  unfold nextDeletion at hnext
  split at hnext
  · rename_i first rest hchecked hphase
    cases hnext
    refine .inr ?_
    rw [hphase]
    exact List.mem_cons_self
  · cases hnext

/-- **No retained commitment owes the bytes of a deleted key**, along every run in which no rotation
installs a commitment over a key that is about to be deleted. -/
theorem deletes_uncommitted {storedKeys : List H} {scanStart : Nat} {world : PruneWorld H}
    {commitments : ResponderCommitmentState H} {rebuild : Option (CommitmentRebuild H)}
    {events : List (CommittedPruneEvent H)}
    (horderly : Along (CommittedPruning.step ctx identity) Orderly
      (start storedKeys scanStart world commitments rebuild) events)
    (hrun : run (CommittedPruning.step ctx identity)
      (start storedKeys scanStart world commitments rebuild) events = some s) :
    ∀ key, s.nextDeletion = some key → s.commitments.isHeld key = false := by
  have hinv : Inv s := invariant_of_run (fun _ _ _ hinv hok hstep => hinv.step hok hstep)
    (inv_start storedKeys scanStart world commitments rebuild) horderly hrun
  exact fun key hnext => hinv.unheld key (awaitsDeletion_of_nextDeletion hnext)

end CommittedPruning

namespace Transcript

open CommittedPruning RetentionNode

/-- The pass up to where it has found the key 2 in no commitment and out of range. -/
def confirmedDeletion : List (CommittedPruneEvent Transcript) :=
  [.pass .evaluate, .pass .endSelection,
    .pass (.readLocal ⟨[1]⟩ ⟨[2]⟩ false),
    .pass (.challenge ⟨[1]⟩ ⟨[2]⟩ [7] ⟨0, Vector.replicate 32 0, .auditResponse (.digests 0
      [computeAuditDigest (Vector.replicate 32 0) ⟨[1]⟩ ⟨[2]⟩ [7]])⟩),
    .pass .endChallenges, .checkHeld, .lookUpGroups]

/-- The node is in the close group of every key again. -/
def nearWorld : PruneWorld Transcript :=
  { hintedWorld.setRecordOutOfRange ⟨[2]⟩ with
    routing := ⟨fun _ _ => [⟨[1]⟩], fun _ _ => [⟨[0]⟩]⟩ }

def rotatedBeforeDeletion : List (CommittedPruneEvent Transcript) :=
  confirmedDeletion ++ [.elsewhere nearWorld, .readStoredKeys, .checkResponsible, .install 0,
    .emitGossip, .pass .endRevalidation]

/-- The key comes back into range after the pass has looked at it, a rotation commits to it and the
commitment is gossiped, and the pass deletes it. -/
theorem committed_key_deleted :
    ∃ s, run (CommittedPruning.step farNode copyingIdentity)
        (start [⟨[2]⟩] 0 hintedWorld .new none) rotatedBeforeDeletion = some s ∧
      s.nextDeletion = some ⟨[2]⟩ ∧ s.commitments.isHeld ⟨[2]⟩ = true := by
  have hrun : (run (CommittedPruning.step farNode copyingIdentity)
      (start [⟨[2]⟩] 0 hintedWorld .new none) rotatedBeforeDeletion).map
      (fun s => (s.nextDeletion, s.commitments.isHeld ⟨[2]⟩)) = some (some ⟨[2]⟩, true) := by
    decide +kernel
  obtain ⟨s, hrun, hs⟩ := Option.map_eq_some_iff.mp hrun
  obtain ⟨hnext, hheld⟩ := Prod.mk.inj hs
  exact ⟨s, hrun, hnext, hheld⟩

/-- A rotation that finds the key out of range, before the pass confirms its deletion. -/
def rotatedBeforePass : List (CommittedPruneEvent Transcript) :=
  .readStoredKeys :: .checkResponsible :: .install 0 ::
    (confirmedDeletion ++ [.pass .endRevalidation])

theorem deletes_uncommitted_rotatedBeforePass :
    ∃ s, run (CommittedPruning.step farNode copyingIdentity)
        (start [⟨[2]⟩] 0 hintedWorld .new none) rotatedBeforePass = some s ∧
      s.nextDeletion = some ⟨[2]⟩ ∧ s.commitments.isHeld ⟨[2]⟩ = false := by
  have hrun : (run (CommittedPruning.step farNode copyingIdentity)
      (start [⟨[2]⟩] 0 hintedWorld .new none) rotatedBeforePass).map nextDeletion =
        some (some ⟨[2]⟩) := by
    decide +kernel
  have horderly : Along (CommittedPruning.step farNode copyingIdentity) Orderly
      (start [⟨[2]⟩] 0 hintedWorld .new none) rotatedBeforePass := by
    refine ⟨trivial, fun s hs => ⟨trivial, fun s' hs' => ⟨?_, fun _ _ => along_of_forall ?_⟩⟩⟩
    · cases hs
      unfold CommittedPruning.step at hs'
      dsimp only at hs'
      split at hs'
      · cases hs'
        intro rebuild _ key hawaits
        simp [AwaitsDeletion, start, RecordPrunePass.start] at hawaits
      · cases hs'
    · simp [confirmedDeletion, Orderly]
  obtain ⟨s, hrun, hnext⟩ := Option.map_eq_some_iff.mp hrun
  exact ⟨s, hrun, hnext, deletes_uncommitted horderly hrun ⟨[2]⟩ hnext⟩

end Transcript

end AntNode
