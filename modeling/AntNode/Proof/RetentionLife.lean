import AntNode.Lib.Runs
import AntNode.Proof.Restore

/-!
# What is advertised and what is kept, over the life of a node

The advertised commitment is known only by its place, the first slot, and a flag. Over any sequence
of operations, passing time and clean restarts it is the last one rotated in, unless it was retired
or everything was cleared since. The slots are always among the commitments rotated in, newest
first, so what is dropped does not come back.
-/

namespace AntNode

open Runs ResponderCommitmentState

variable {H : Type} [Digest H] [CommitmentProtocol H]

structure RetentionProcess (H : Type) [Digest H] [CommitmentProtocol H] where
  clock : Clock
  state : ResponderCommitmentState H

/-- An operation at the current time, time that passes, or a clean restart: the snapshot taken last
is restored after `downtime`, by a process whose monotonic clock reads `mono`. -/
inductive LifeEvent (H : Type) [Digest H] [CommitmentProtocol H] where
  | tick (elapsed : Nat)
  | call (op : Op H)
  | clearAll
  | restart (downtime mono : Nat)

namespace RetentionProcess

def start (clock : Clock) : RetentionProcess H := ⟨clock, new⟩

def next (p : RetentionProcess H) : LifeEvent H → RetentionProcess H
  | .tick elapsed => ⟨⟨p.clock.mono + elapsed, p.clock.wall + elapsed⟩, p.state⟩
  | .call op => { p with state := (p.state.call ⟨p.clock.mono, op⟩).1 }
  | .clearAll => { p with state := p.state.clearAll }
  | .restart downtime mono =>
      let now : Clock := ⟨mono, p.clock.wall + downtime⟩
      ⟨now, restore (p.state.snapshot p.clock) now⟩

def step (p : RetentionProcess H) (e : LifeEvent H) : Option (RetentionProcess H) := some (p.next e)

end RetentionProcess

namespace LifeEvent

def rotated? : LifeEvent H → Option (BuiltCommitment H)
  | .call (.rotate newCurrent) => some newCurrent
  | _ => none

/-- What is advertised after an event, by what was advertised before. -/
def advertise (advertised : Option (BuiltCommitment H)) : LifeEvent H → Option (BuiltCommitment H)
  | .call (.rotate newCurrent) => some newCurrent
  | .call .retireCurrent => none
  | .clearAll => none
  | _ => advertised

/-- The event takes the write lock and enforces retention, or empties it. `current_for_gossip` and
`current_for_quote` return early when nothing is advertised. -/
def Mutates (p : RetentionProcess H) : LifeEvent H → Prop
  | .tick _ => False
  | .call .currentForGossip => p.state.current ≠ none
  | .call .currentForQuote => p.state.current ≠ none
  | _ => True

end LifeEvent

def rotatedIn (events : List (LifeEvent H)) : List (BuiltCommitment H) :=
  events.filterMap LifeEvent.rotated?

/-- The last commitment rotated in, if nothing retired or cleared it since. -/
def advertisedAfter (events : List (LifeEvent H)) : Option (BuiltCommitment H) :=
  events.foldl LifeEvent.advertise none

structure WellRotated (events : List (LifeEvent H)) : Prop where
  distinct : ((rotatedIn events).map BuiltCommitment.cachedHash).Nodup
  restorable : ∀ built ∈ rotatedIn events, built.ContentAddressed ∧
    verifyCommitmentSignature built.commitment = true

namespace ResponderCommitmentState

/-! ### Enforcing retention twice -/

theorem retainSlots_of_not_current (live : List H) (slots : List (BuiltCommitment H)) :
    retainSlots false live slots = slots.filter fun built => live.contains built.cachedHash := by
  cases slots with
  | nil => rfl
  | cons first rest =>
      rw [retainSlots_cons, List.filter_cons, Bool.false_or]
      split <;> rfl

theorem retainSlots_retainSlots (hasCurrent : Bool) (live : List H)
    (slots : List (BuiltCommitment H)) :
    retainSlots hasCurrent live (retainSlots hasCurrent live slots) =
      retainSlots hasCurrent live slots := by
  cases hasCurrent with
  | false => simp [retainSlots_of_not_current, List.filter_filter]
  | true =>
      cases slots with
      | nil => rfl
      | cons first rest =>
          rw [retainSlots_cons, Bool.true_or, if_pos rfl, List.singleton_append, retainSlots_cons,
            Bool.true_or, if_pos rfl, List.filter_filter]
          simp

theorem pruneSlots_pruneSlots (inner : ResponderCommitmentState H) (now : Nat) :
    (inner.pruneSlots now).pruneSlots now = inner.pruneSlots now := by
  have hstamps : (inner.pruneSlots now).recentlyGossiped.filter (fun g => decide (now < g.expiresAt))
      = (inner.pruneSlots now).recentlyGossiped := by
    rw [pruneSlots, List.filter_filter]
    simp
  have hslots : retainSlots (inner.pruneSlots now).hasCurrent
      ((inner.pruneSlots now).recentlyGossiped.map GossipedAt.hash) (inner.pruneSlots now).slots
      = (inner.pruneSlots now).slots := by
    have hflag : (inner.pruneSlots now).hasCurrent
        = (inner.hasCurrent && !(inner.pruneSlots now).slots.isEmpty) := rfl
    have hretain : (inner.pruneSlots now).slots = retainSlots inner.hasCurrent
        ((inner.pruneSlots now).recentlyGossiped.map GossipedAt.hash) inner.slots := rfl
    cases hempty : (inner.pruneSlots now).slots with
    | nil => rfl
    | cons first rest =>
        rw [← hempty, hflag, hempty, List.isEmpty_cons, Bool.not_false, Bool.and_true, ← hempty,
          hretain, retainSlots_retainSlots]
  have hagain : ∀ state : ResponderCommitmentState H,
      state.recentlyGossiped.filter (fun g => decide (now < g.expiresAt)) = state.recentlyGossiped →
      retainSlots state.hasCurrent (state.recentlyGossiped.map GossipedAt.hash) state.slots
        = state.slots →
      (state.hasCurrent && !state.slots.isEmpty) = state.hasCurrent →
      state.pruneSlots now = state := by
    intro state hstamps hslots hflag
    rw [pruneSlots, hstamps, hslots, hflag]
  refine hagain _ hstamps hslots ?_
  rw [pruneSlots, Bool.and_assoc, Bool.and_self]

/-- Every slot of a pruned state is the advertised one in front or has a stamp still ahead. -/
theorem getElem?_pruneSlots {inner : ResponderCommitmentState H} {now i : Nat}
    {built : BuiltCommitment H} (hget : (inner.pruneSlots now).slots[i]? = some built) :
    (i = 0 ∧ (inner.pruneSlots now).hasCurrent = true) ∨
      ∃ g ∈ (inner.pruneSlots now).recentlyGossiped, g.hash = built.cachedHash ∧
        now < g.expiresAt := by
  have hstamped : built.cachedHash ∈ (inner.pruneSlots now).recentlyGossiped.map GossipedAt.hash →
      ∃ g ∈ (inner.pruneSlots now).recentlyGossiped, g.hash = built.cachedHash ∧
        now < g.expiresAt := by
    intro hlive
    obtain ⟨g, hg, hhash⟩ := List.mem_map.mp hlive
    exact ⟨g, hg, hhash, of_decide_eq_true (List.mem_filter.mp hg).2⟩
  have hflag : (inner.pruneSlots now).hasCurrent
      = (inner.hasCurrent && !(inner.pruneSlots now).slots.isEmpty) := rfl
  have hretain : (inner.pruneSlots now).slots = retainSlots inner.hasCurrent
      ((inner.pruneSlots now).recentlyGossiped.map GossipedAt.hash) inner.slots := rfl
  have hnonempty : (inner.pruneSlots now).slots ≠ [] :=
    List.ne_nil_of_mem (List.mem_of_getElem? hget)
  cases hcurrent : inner.hasCurrent with
  | false =>
      rw [hretain, hcurrent, retainSlots_of_not_current] at hget
      have hmem := List.mem_of_getElem? hget
      exact .inr (hstamped (by simpa using (List.mem_filter.mp hmem).2))
  | true =>
      cases i with
      | zero =>
          refine .inl ⟨rfl, ?_⟩
          rw [hflag, hcurrent, Bool.true_and]
          simpa using hnonempty
      | succ i =>
          rw [hretain, hcurrent] at hget
          cases hslots : inner.slots with
          | nil =>
              rw [hslots] at hget
              cases hget
          | cons first rest =>
              rw [hslots, retainSlots_cons, Bool.true_or, if_pos rfl, List.singleton_append,
                List.getElem?_cons_succ] at hget
              have hmem := List.mem_of_getElem? hget
              exact .inr (hstamped (by simpa using (List.mem_filter.mp hmem).2))

/-! ### The stamps -/

/-- One stamp a hash, and no more of them than the backstop allows. -/
structure StampsBounded (stamps : List (GossipedAt H)) : Prop where
  nodup : (stamps.map GossipedAt.hash).Nodup
  length_le : stamps.length ≤ maxRetainedGossipedSlots

omit [Digest H] [CommitmentProtocol H] in
theorem StampsBounded.filter {stamps : List (GossipedAt H)} (hstamps : StampsBounded stamps)
    (keep : GossipedAt H → Bool) : StampsBounded (stamps.filter keep) where
  nodup := hstamps.nodup.sublist (List.filter_sublist.map GossipedAt.hash)
  length_le := (List.length_filter_le keep stamps).trans hstamps.length_le

theorem StampsBounded.markGossipedLocked {state : ResponderCommitmentState H}
    (hstamps : StampsBounded state.recentlyGossiped) (hash : H) (now : Nat) :
    StampsBounded (state.markGossipedLocked hash now).recentlyGossiped := by
  have hpush : StampsBounded (MoveToFront.push GossipedAt.hash maxRetainedGossipedSlots
      ⟨hash, now + gossipAnswerabilityTtl⟩ state.recentlyGossiped) :=
    ⟨MoveToFront.nodup_push hstamps.nodup, List.length_take_le _ _⟩
  exact hpush.filter fun g => decide (now < g.expiresAt)

theorem StampsBounded.snapshotAndStamp {state : ResponderCommitmentState H}
    (hstamps : StampsBounded state.recentlyGossiped) (now : Nat) :
    StampsBounded (state.snapshotAndStamp now).1.recentlyGossiped := by
  unfold ResponderCommitmentState.snapshotAndStamp
  cases state.current with
  | none => exact hstamps
  | some first => exact hstamps.markGossipedLocked first.cachedHash now

theorem StampsBounded.call {state : ResponderCommitmentState H}
    (hstamps : StampsBounded state.recentlyGossiped) (c : Call H) :
    StampsBounded (state.call c).1.recentlyGossiped := by
  obtain ⟨now, op⟩ := c
  cases op with
  | rotate newCurrent => exact hstamps.filter _
  | retireCurrent => exact hstamps.filter _
  | markGossiped hash => exact hstamps.markGossipedLocked hash now
  | currentForGossip => exact hstamps.snapshotAndStamp now
  | currentForQuote => exact hstamps.snapshotAndStamp now
  | ageOut => exact hstamps.filter _

theorem restoredStamp_hash {state : ResponderCommitmentState H} {before after : Clock}
    {built : BuiltCommitment H} {g : GossipedAt H}
    (hg : state.restoredStamp before after built = some g) :
    g.hash = built.cachedHash ∧ built.cachedHash ∈ state.recentlyGossiped.map GossipedAt.hash := by
  obtain ⟨expiresAt, hexpires, rfl⟩ := Option.map_eq_some_iff.mp hg
  obtain ⟨stamp, hstamp, -⟩ := Option.bind_eq_some_iff.mp hexpires
  obtain ⟨hmem, hsame⟩ := mem_of_stampOf hstamp
  exact ⟨rfl, List.mem_map.mpr ⟨stamp, hmem, hsame⟩⟩

/-- The restored stamps are among those there were, in the order of the slots. -/
theorem StampsBounded.restored {state : ResponderCommitmentState H}
    (hstamps : StampsBounded state.recentlyGossiped)
    (hslots : (state.slots.map BuiltCommitment.cachedHash).Nodup) (before after : Clock) :
    StampsBounded (state.slots.filterMap (state.restoredStamp before after)) := by
  have hsub : ((state.slots.filterMap (state.restoredStamp before after)).map
      GossipedAt.hash).Sublist (state.slots.map BuiltCommitment.cachedHash) := by
    clear hslots
    induction state.slots with
    | nil => exact List.Sublist.refl _
    | cons built rest ih =>
        cases hstamp : state.restoredStamp before after built with
        | none =>
            rw [List.filterMap_cons_none hstamp, List.map_cons]
            exact ih.cons _
        | some g =>
            rw [List.filterMap_cons_some hstamp, List.map_cons, List.map_cons,
              (restoredStamp_hash hstamp).1]
            exact ih.cons_cons _
  have hnodup := hslots.sublist hsub
  have hsubset : (state.slots.filterMap (state.restoredStamp before after)).map GossipedAt.hash ⊆
      state.recentlyGossiped.map GossipedAt.hash := by
    intro hash hhash
    obtain ⟨g, hg, rfl⟩ := List.mem_map.mp hhash
    obtain ⟨built, -, hrestored⟩ := List.mem_filterMap.mp hg
    rw [(restoredStamp_hash hrestored).1]
    exact (restoredStamp_hash hrestored).2
  have hlength := (List.subperm_of_subset hnodup hsubset).length_le
  rw [List.length_map, List.length_map] at hlength
  exact ⟨hnodup, hlength.trans hstamps.length_le⟩

end ResponderCommitmentState

/-! ### Whole runs -/

theorem rotatedIn_concat (events : List (LifeEvent H)) (e : LifeEvent H) :
    rotatedIn (events ++ [e]) = rotatedIn events ++ e.rotated?.toList := by
  rw [rotatedIn, List.filterMap_append]
  cases hrotated : e.rotated? <;> simp [rotatedIn, hrotated]

theorem advertisedAfter_concat (events : List (LifeEvent H)) (e : LifeEvent H) :
    advertisedAfter (events ++ [e]) = e.advertise (advertisedAfter events) :=
  List.foldl_concat _ _ _ _

theorem WellRotated.left {events later : List (LifeEvent H)}
    (hrotated : WellRotated (events ++ later)) : WellRotated events := by
  obtain ⟨hdistinct, hrestorable⟩ := hrotated
  rw [rotatedIn, List.filterMap_append] at hdistinct hrestorable
  refine ⟨?_, fun built hbuilt => hrestorable built (List.mem_append_left _ hbuilt)⟩
  rw [List.map_append] at hdistinct
  exact (List.nodup_append.mp hdistinct).1

namespace ResponderCommitmentState

theorem current_markGossipedLocked (state : ResponderCommitmentState H) (hash : H) (now : Nat) :
    (state.markGossipedLocked hash now).current = state.current :=
  current_pruneSlots _ now

theorem current_snapshotAndStamp (state : ResponderCommitmentState H) (now : Nat) :
    (state.snapshotAndStamp now).1.current = state.current := by
  unfold snapshotAndStamp
  cases hcurrent : state.current with
  | none => exact hcurrent
  | some first => exact (current_markGossipedLocked state _ now).trans hcurrent

theorem slots_snapshotAndStamp_sublist (state : ResponderCommitmentState H) (now : Nat) :
    (state.snapshotAndStamp now).1.slots.Sublist state.slots := by
  unfold snapshotAndStamp
  cases state.current with
  | none => exact List.Sublist.refl _
  | some first => exact pruneSlots_slots_sublist _ now

theorem slots_restore_sublist {state : ResponderCommitmentState H} (hrestorable : Restorable state)
    (before after : Clock) :
    (restore (state.snapshot before) after).slots.Sublist state.slots := by
  rw [restore_snapshot_eq hrestorable]
  exact pruneSlots_slots_sublist _ _

end ResponderCommitmentState

namespace RetentionProcess

variable {p p' : RetentionProcess H} {events : List (LifeEvent H)} {clock : Clock}

/-- What the events so far say about the state. -/
structure Exact (events : List (LifeEvent H)) (p : RetentionProcess H) : Prop where
  slots : p.state.slots.Sublist (rotatedIn events).reverse
  current : p.state.current = advertisedAfter events
  stamps : StampsBounded p.state.recentlyGossiped

theorem Exact.restorable (hexact : Exact events p) (hrotated : WellRotated events) :
    Restorable p.state :=
  fun built hbuilt => hrotated.restorable built
    (List.mem_reverse.mp (hexact.slots.subset hbuilt))

theorem Exact.nodup (hexact : Exact events p) (hrotated : WellRotated events) :
    (p.state.slots.map BuiltCommitment.cachedHash).Nodup := by
  refine List.Nodup.sublist (hexact.slots.map _) ?_
  rw [List.map_reverse, List.nodup_reverse]
  exact hrotated.distinct

theorem slots_next_sublist (hrestorable : Restorable p.state) (e : LifeEvent H) :
    (p.next e).state.slots.Sublist (e.rotated?.toList ++ p.state.slots) := by
  cases e with
  | tick elapsed => exact List.Sublist.refl _
  | clearAll => exact List.nil_sublist _
  | restart downtime mono => exact slots_restore_sublist hrestorable _ _
  | call op =>
      cases op with
      | rotate newCurrent => exact pruneSlots_slots_sublist _ _
      | retireCurrent => exact pruneSlots_slots_sublist _ _
      | markGossiped hash => exact pruneSlots_slots_sublist _ _
      | currentForGossip => exact slots_snapshotAndStamp_sublist _ _
      | currentForQuote => exact slots_snapshotAndStamp_sublist _ _
      | ageOut => exact pruneSlots_slots_sublist _ _

theorem current_next (hrestorable : Restorable p.state) (e : LifeEvent H) :
    (p.next e).state.current = e.advertise p.state.current := by
  cases e with
  | tick elapsed => rfl
  | clearAll => rfl
  | restart downtime mono => exact current_restore hrestorable _ _
  | call op =>
      cases op with
      | rotate newCurrent => exact current_pruneSlots _ _
      | retireCurrent => exact current_pruneSlots _ _
      | markGossiped hash => exact current_markGossipedLocked _ _ _
      | currentForGossip => exact current_snapshotAndStamp _ _
      | currentForQuote => exact current_snapshotAndStamp _ _
      | ageOut => exact current_pruneSlots _ _

theorem stampsBounded_next (hstamps : StampsBounded p.state.recentlyGossiped)
    (hrestorable : Restorable p.state)
    (hslots : (p.state.slots.map BuiltCommitment.cachedHash).Nodup) (e : LifeEvent H) :
    StampsBounded (p.next e).state.recentlyGossiped := by
  cases e with
  | tick elapsed => exact hstamps
  | clearAll => exact ⟨List.nodup_nil, Nat.zero_le _⟩
  | call op => exact hstamps.call ⟨p.clock.mono, op⟩
  | restart downtime mono =>
      have hrestored := hstamps.restored hslots p.clock ⟨mono, p.clock.wall + downtime⟩
      change StampsBounded (restore (p.state.snapshot p.clock) _).recentlyGossiped
      rw [restore_snapshot_eq hrestorable]
      exact hrestored.filter fun g => decide (mono < g.expiresAt)

theorem Exact.next {e : LifeEvent H} (hexact : Exact events p) (hrotated : WellRotated events) :
    Exact (events ++ [e]) (p.next e) where
  slots := by
    rw [rotatedIn_concat, List.reverse_append]
    refine (slots_next_sublist (hexact.restorable hrotated) e).trans ?_
    cases e.rotated? with
    | none => exact hexact.slots
    | some newCurrent => exact hexact.slots.cons_cons newCurrent
  current := by
    rw [current_next (hexact.restorable hrotated), advertisedAfter_concat, hexact.current]
  stamps := stampsBounded_next hexact.stamps (hexact.restorable hrotated) (hexact.nodup hrotated) e

theorem exact_of_run (hrotated : WellRotated events)
    (hrun : run step (start clock) events = some p) : Exact events p := by
  revert hrotated
  refine history_induction (I := fun events p => WellRotated events → Exact events p) ?_ ?_ hrun
  · intro _
    exact ⟨List.Sublist.refl _, rfl, List.nodup_nil, Nat.zero_le _⟩
  · intro events mid e p' _ ih hstep hrotated
    obtain rfl := Option.some.inj hstep
    exact (ih hrotated.left).next hrotated.left

/-! ### What a mutating operation leaves -/

theorem pruned_of_mutates {e : LifeEvent H} (hmutates : e.Mutates p) :
    (p.next e).state.slots = [] ∨
      ∃ inner, (p.next e).state = pruneSlots inner (p.next e).clock.mono := by
  have hemit : p.state.current ≠ none →
      ∃ inner, (p.state.snapshotAndStamp p.clock.mono).1 = pruneSlots inner p.clock.mono := by
    intro hcurrent
    obtain ⟨first, hfirst⟩ := Option.ne_none_iff_exists'.mp hcurrent
    exact ⟨_, by rw [snapshotAndStamp, hfirst]; rfl⟩
  cases e with
  | tick elapsed => exact absurd hmutates id
  | clearAll => exact .inl rfl
  | restart downtime mono => exact .inr ⟨_, rfl⟩
  | call op =>
      cases op with
      | rotate newCurrent => exact .inr ⟨_, rfl⟩
      | retireCurrent => exact .inr ⟨_, rfl⟩
      | markGossiped hash => exact .inr ⟨_, rfl⟩
      | currentForGossip => exact .inr (hemit hmutates)
      | currentForQuote => exact .inr (hemit hmutates)
      | ageOut => exact .inr ⟨_, rfl⟩

theorem slot_of_mutates {e : LifeEvent H} (hmutates : e.Mutates p) {i : Nat}
    {built : BuiltCommitment H} (hget : (p.next e).state.slots[i]? = some built) :
    (i = 0 ∧ (p.next e).state.current = some built) ∨
      ∃ g ∈ (p.next e).state.recentlyGossiped, g.hash = built.cachedHash ∧
        (p.next e).clock.mono < g.expiresAt := by
  rcases pruned_of_mutates hmutates with hempty | ⟨inner, hinner⟩
  · rw [hempty] at hget
    cases hget
  · rw [hinner] at hget ⊢
    rcases getElem?_pruneSlots hget with ⟨rfl, hcurrent⟩ | hstamped
    · refine .inl ⟨rfl, ?_⟩
      rw [ResponderCommitmentState.current, if_pos hcurrent, List.head?_eq_getElem?, hget]
    · exact .inr hstamped

/-! ### Nothing comes back -/

theorem slots_subset_of_run {before later : List (LifeEvent H)} {mid : RetentionProcess H}
    (hrotated : WellRotated (before ++ later)) (hbefore : run step (start clock) before = some mid)
    (hlater : run step mid later = some p) : p.state.slots ⊆ mid.state.slots ++ rotatedIn later := by
  revert hrotated
  refine history_induction (I := fun later p => WellRotated (before ++ later) →
    p.state.slots ⊆ mid.state.slots ++ rotatedIn later) ?_ ?_ hlater
  · intro _ built hbuilt
    exact List.mem_append_left _ hbuilt
  · intro later q e q' hq ih hstep hrotated built hbuilt
    obtain rfl := Option.some.inj hstep
    rw [← List.append_assoc] at hrotated
    have hrestorable := (exact_of_run hrotated.left
      (run_append_eq_some.mpr ⟨mid, hbefore, hq⟩)).restorable hrotated.left
    rw [rotatedIn_concat, ← List.append_assoc]
    rcases List.mem_append.mp ((slots_next_sublist hrestorable e).subset hbuilt) with hnew | hold
    · exact List.mem_append_right _ hnew
    · exact List.mem_append_left _ (ih hrotated.left hold)

theorem lookupByHash_eq_none_of_dropped {before later : List (LifeEvent H)}
    {mid : RetentionProcess H} (hrotated : WellRotated (before ++ later))
    (hbefore : run step (start clock) before = some mid) (hlater : run step mid later = some p)
    {built : BuiltCommitment H} (hbuilt : built ∈ rotatedIn before)
    (hdropped : built ∉ mid.state.slots) : p.state.lookupByHash built.cachedHash = none := by
  refine List.find?_eq_none.mpr fun found hfound hhash => ?_
  have hhash : found.cachedHash = built.cachedHash := of_decide_eq_true hhash
  have hdistinct := hrotated.distinct
  rw [rotatedIn, List.filterMap_append] at hdistinct
  rcases List.mem_append.mp (slots_subset_of_run hrotated hbefore hlater hfound) with hold | hnew
  · have hslots := (exact_of_run hrotated.left hbefore).slots
    have hsame := List.inj_on_of_nodup_map hrotated.left.distinct
      (List.mem_reverse.mp (hslots.subset hold)) hbuilt hhash
    exact hdropped (hsame ▸ hold)
  · rw [List.map_append, List.nodup_append] at hdistinct
    exact hdistinct.2.2 _ (List.mem_map_of_mem hbuilt) _ (List.mem_map_of_mem hnew) hhash.symm

/-- A commitment that is not advertised and whose stamps have lapsed goes with the next
`age_out`. -/
theorem notMem_slots_ageOut {built : BuiltCommitment H} (hcurrent : p.state.current ≠ some built)
    (hlapsed : ∀ g ∈ p.state.recentlyGossiped, g.hash = built.cachedHash →
      g.expiresAt ≤ p.clock.mono) :
    built ∉ (p.next (.call .ageOut)).state.slots := by
  intro hbuilt
  obtain ⟨i, hget⟩ := List.mem_iff_getElem?.mp hbuilt
  have hmutates : (LifeEvent.call Op.ageOut).Mutates p := trivial
  rcases slot_of_mutates hmutates hget with ⟨-, hlive⟩ | ⟨g, hg, hhash, hahead⟩
  · rw [show (p.next (.call .ageOut)).state.current = p.state.current from
      current_pruneSlots _ _] at hlive
    exact hcurrent hlive
  · exact absurd (hlapsed g (List.mem_of_mem_filter hg) hhash) (Nat.not_le.mpr hahead)

/-- Advertised state is exact and nothing is resurrected, over every run of operations, passing time
and clean restarts whose rotated commitments have distinct hashes and can be rebuilt. -/
theorem retention_exact (hrotated : WellRotated events)
    (hrun : run step (start clock) events = some p) :
    p.state.current = advertisedAfter events ∧
    ((p.state.recentlyGossiped.map GossipedAt.hash).Nodup ∧
      p.state.recentlyGossiped.length ≤ maxRetainedGossipedSlots) ∧
    (∀ before e mid, events = before ++ [e] → run step (start clock) before = some mid →
      e.Mutates mid → ∀ (i : Nat) (built : BuiltCommitment H), p.state.slots[i]? = some built →
        (i = 0 ∧ p.state.current = some built) ∨
          ∃ g ∈ p.state.recentlyGossiped, g.hash = built.cachedHash ∧
            p.clock.mono < g.expiresAt) ∧
    (∀ before later mid, events = before ++ later → run step (start clock) before = some mid →
      ∀ built ∈ rotatedIn before, built ∉ mid.state.slots →
        p.state.lookupByHash built.cachedHash = none) ∧
    (∀ now, (p.state.ageOut now).ageOut now = p.state.ageOut now) ∧
    ∀ built ∈ rotatedIn events, p.state.current ≠ some built →
      (∀ g ∈ p.state.recentlyGossiped, g.hash = built.cachedHash → g.expiresAt ≤ p.clock.mono) →
      (p.state.ageOut p.clock.mono).lookupByHash built.cachedHash = none ∧
      ∀ key, (p.state.ageOut p.clock.mono).isHeld key = true →
        ∃ other ∈ (p.state.ageOut p.clock.mono).slots,
          other.cachedHash ≠ built.cachedHash ∧ other.containsKey key = true := by
  have hexact := exact_of_run hrotated hrun
  refine ⟨hexact.current, ⟨hexact.stamps.nodup, hexact.stamps.length_le⟩, ?_, ?_,
    fun now => pruneSlots_pruneSlots _ now, ?_⟩
  · rintro before e mid rfl hbefore hmutates i built hget
    obtain ⟨mid', hmid', hlast⟩ := run_concat_eq_some.mp hrun
    obtain rfl : mid = mid' := Option.some.inj (hbefore.symm.trans hmid')
    obtain rfl := Option.some.inj hlast
    exact slot_of_mutates hmutates hget
  · rintro before later mid rfl hbefore built hbuilt hdropped
    obtain ⟨mid', hmid', hlater⟩ := run_append_eq_some.mp hrun
    obtain rfl : mid = mid' := Option.some.inj (hbefore.symm.trans hmid')
    exact lookupByHash_eq_none_of_dropped hrotated hbefore hlater hbuilt hdropped
  · intro built hbuilt hcurrent hlapsed
    have hdropped : built ∉ (p.state.ageOut p.clock.mono).slots :=
      notMem_slots_ageOut hcurrent hlapsed
    have hother : ∀ other ∈ (p.state.ageOut p.clock.mono).slots,
        other.cachedHash ≠ built.cachedHash := by
      intro other hother hhash
      have hmem := hexact.slots.subset ((pruneSlots_slots_sublist _ _).subset hother)
      exact hdropped (List.inj_on_of_nodup_map hrotated.distinct (List.mem_reverse.mp hmem) hbuilt
        hhash ▸ hother)
    refine ⟨List.find?_eq_none.mpr fun other hmem hhash =>
      hother other hmem (of_decide_eq_true hhash), fun key hheld => ?_⟩
    obtain ⟨other, hmem, hcontains⟩ := List.any_eq_true.mp hheld
    exact ⟨other, hmem, hother other hmem, hcontains⟩

/-- A node that advertises one commitment, rotates to another, restarts a minute later and retires:
it advertises nothing afterwards. -/
theorem retention_exact_retired :
    let events : List (LifeEvent Transcript) :=
      [.call (.rotate (Transcript.solo ⟨[1]⟩)), .call .currentForGossip, .tick 5,
        .call (.rotate (Transcript.solo ⟨[2]⟩)), .restart (60 * nanosPerSec) 7, .call .retireCurrent]
    WellRotated events ∧
      ∃ p, run step (start ⟨100, 1000 * nanosPerSec⟩) events = some p ∧ p.state.current = none ∧
        (p.state.recentlyGossiped.map GossipedAt.hash).Nodup := by
  intro events
  have hrotated : WellRotated events := by
    refine ⟨by decide +kernel, fun built hbuilt => ?_⟩
    have hbuilt : built ∈ [Transcript.solo ⟨[1]⟩, Transcript.solo ⟨[2]⟩] := hbuilt
    rcases List.mem_pair.mp hbuilt with rfl | rfl
    · exact restorable_solo ⟨[1]⟩
    · exact restorable_solo ⟨[2]⟩
  obtain ⟨p, hrun⟩ : ∃ p, run step (start ⟨100, 1000 * nanosPerSec⟩) events = some p := ⟨_, rfl⟩
  obtain ⟨hcurrent, ⟨hnodup, -⟩, -⟩ := retention_exact hrotated hrun
  exact ⟨hrotated, p, hrun, hcurrent, hnodup⟩

end RetentionProcess

end AntNode
