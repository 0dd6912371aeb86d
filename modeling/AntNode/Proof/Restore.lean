import AntNode.Proof.Retention

/-!
# Restarts do not lose retention

A snapshot keeps, for every slot, the signed commitment, its keys and the second its stamp expires;
a restore rebuilds the trees from the keys and turns the seconds back into instants.
Content-addressed slots come back as they were. A deadline loses less than a second on the way out
and gains the grace on the way in, and the clamp never reaches it, because no stamp lies further
ahead than one window plus one grace. That bound is an invariant of every reachable state, restarts
included.
-/

namespace AntNode

open LeftPacked

variable {H : Type} [Digest H] [CommitmentProtocol H]

/-- The wall-clock time of an instant, for the process whose clocks read `now`. -/
def Clock.toWall (now : Clock) (instant : Nat) : Int := now.wall + instant - now.mono

def Clock.Advances (now now' : Clock) : Prop :=
  ∃ elapsed, now'.mono = now.mono + elapsed ∧ now'.wall = now.wall + elapsed

theorem Clock.Advances.toWall_eq {now now' : Clock} (hadv : now.Advances now') (instant : Nat) :
    now'.toWall instant = now.toWall instant := by
  obtain ⟨elapsed, hmono, hwall⟩ := hadv
  simp only [Clock.toWall, hmono, hwall]
  push_cast
  ring

def BuiltCommitment.ContentAddressed (built : BuiltCommitment H) : Prop :=
  ∀ leaf ∈ built.tree.leaves, leaf.2 = leafHash leaf.1 leaf.1

/-! ### Slots -/

omit [CommitmentProtocol H] in
theorem MerkleTree.build_leafKeys {tree : MerkleTree H}
    (hcontent : ∀ leaf ∈ tree.leaves, leaf.2 = leafHash leaf.1 leaf.1) :
    MerkleTree.build (tree.leafKeys.map fun key => (key, key)) = .ok tree := by
  have hentries : tree.leafKeys.map (fun key => (key, key))
      = tree.leaves.map fun leaf => (leaf.1, leaf.1) := by
    rw [leafKeys, List.map_map]
    rfl
  rw [hentries]
  have hsorted : (tree.leaves.map fun leaf => (leaf.1, leaf.1)).Pairwise
      fun a b => a.1 < b.1 := List.pairwise_map.mpr tree.sorted
  obtain ⟨-, tree', hbuild, hleaves⟩ := build_of_pairwise_lt (by simpa using tree.leaves_ne_nil)
    (by simpa using tree.length_le) hsorted
  have htree : tree' = tree := by
    apply ext_leaves
    rw [hleaves, List.map_map]
    refine (List.map_congr_left fun leaf hleaf => ?_).trans (List.map_id _)
    exact Prod.ext rfl (hcontent leaf hleaf).symm
  rw [hbuild, htree]

theorem BuiltCommitment.fromPersisted_eq_some {commitment : StorageCommitment H}
    {tree : MerkleTree H} {built : BuiltCommitment H}
    (hbuilt : fromPersisted commitment tree = some built) :
    built.commitment = commitment ∧ built.tree = tree := by
  unfold fromPersisted at hbuilt
  split at hbuilt
  · split at hbuilt
    · split at hbuilt
      · cases hbuilt
      · obtain rfl := Option.some.inj hbuilt
        exact ⟨rfl, rfl⟩
    · cases hbuilt
  · cases hbuilt

theorem BuiltCommitment.fromPersisted_self {built : BuiltCommitment H}
    (hsigned : verifyCommitmentSignature built.commitment = true) :
    fromPersisted built.commitment built.tree = some built := by
  unfold fromPersisted
  rw [dif_pos ⟨built.root_eq, built.keyCount_eq⟩, if_pos hsigned]
  split
  · rename_i hnone
    rw [built.hash_eq] at hnone
    cases hnone
  · rename_i cachedHash hhash
    have heq : cachedHash = built.cachedHash := by
      rw [built.hash_eq] at hhash
      exact (Option.some.inj hhash).symm
    subst heq
    rfl

namespace ResponderCommitmentState

theorem restoreSlot_persistSlot (state : ResponderCommitmentState H) (now : Clock)
    {built : BuiltCommitment H} (hcontent : built.ContentAddressed)
    (hsigned : verifyCommitmentSignature built.commitment = true) :
    restoreSlot (state.persistSlot now built) = some built := by
  unfold restoreSlot
  have hbuild : MerkleTree.build ((state.persistSlot now built).leafKeys.map fun key => (key, key))
      = .ok built.tree := MerkleTree.build_leafKeys hcontent
  rw [hbuild]
  exact BuiltCommitment.fromPersisted_self hsigned

theorem cachedHash_of_restoreSlot {slot : PersistedSlot H} {built built' : BuiltCommitment H}
    (hslot : slot.commitment = built.commitment) (hrestore : restoreSlot slot = some built') :
    built'.cachedHash = built.cachedHash := by
  unfold restoreSlot at hrestore
  split at hrestore
  · cases hrestore
  · obtain ⟨hcommitment, -⟩ := BuiltCommitment.fromPersisted_eq_some hrestore
    have hhash := built'.hash_eq
    rw [hcommitment, hslot, built.hash_eq] at hhash
    exact (Option.some.inj hhash).symm

/-! ### Deadlines -/

def restoredExpiry (expiresAt : Nat) (before after : Clock) : Option Nat :=
  (expiryToUnix expiresAt before).bind fun expiresUnix => wallExpiryToInstant expiresUnix after

theorem lt_of_restoredExpiry {expiresAt restored : Nat} {before after : Clock}
    (hrestored : restoredExpiry expiresAt before after = some restored) :
    after.mono < restored ∧
      restored ≤ after.mono + gossipAnswerabilityTtl + restartStampGrace := by
  obtain ⟨expiresUnix, -, hinstant⟩ := Option.bind_eq_some_iff.mp hrestored
  unfold wallExpiryToInstant at hinstant
  dsimp only at hinstant
  split at hinstant
  · cases hinstant
  · have hpos : 0 < gossipAnswerabilityTtl + restartStampGrace := by decide
    obtain rfl := Option.some.inj hinstant
    omega

theorem clamped_deadline {ttl grace floored lost wall wall' remaining : Nat}
    (hfloor : floored + lost = wall + remaining) (hlost : lost ≤ grace) (hwall : wall ≤ wall')
    (hbound : remaining ≤ ttl + grace) (hahead : wall' < wall + remaining) :
    floored + grace - wall' ≠ 0 ∧
      wall + remaining ≤ wall' + min (floored + grace - wall') (ttl + grace) ∧
      wall' + min (floored + grace - wall') (ttl + grace) ≤ wall + remaining + grace := by
  omega

theorem mod_nanosPerSec_le_grace (nanos : Nat) : nanos % nanosPerSec ≤ restartStampGrace := by
  have hsecond : nanosPerSec ≤ restartStampGrace := by decide
  exact (Nat.mod_lt nanos (by decide)).le.trans hsecond

/-- A deadline still ahead comes back, no earlier than it was and at most the grace later. -/
theorem restoredExpiry_of_ahead {expiresAt : Nat} {before after : Clock}
    (hbound : expiresAt ≤ before.mono + gossipAnswerabilityTtl + restartStampGrace)
    (hwall : before.wall ≤ after.wall) (hahead : after.wall < before.toWall expiresAt) :
    ∃ restored, restoredExpiry expiresAt before after = some restored ∧
      before.toWall expiresAt ≤ after.toWall restored ∧
      after.toWall restored ≤ before.toWall expiresAt + restartStampGrace := by
  unfold Clock.toWall at hahead ⊢
  obtain ⟨remaining, rfl⟩ : ∃ remaining, expiresAt = before.mono + remaining :=
    ⟨expiresAt - before.mono, by omega⟩
  obtain ⟨hleft, hlower, hupper⟩ := clamped_deadline
    (Nat.div_add_mod' (before.wall + remaining) nanosPerSec) (mod_nanosPerSec_le_grace _) hwall
    (show remaining ≤ gossipAnswerabilityTtl + restartStampGrace by
      rw [add_assoc] at hbound
      exact Nat.le_of_add_le_add_left hbound)
    (by exact_mod_cast (show (after.wall : Int) < before.wall + remaining by
      push_cast at hahead
      linarith))
  have hunix : expiryToUnix (before.mono + remaining) before
      = some ((before.wall + remaining) / nanosPerSec) := by
    rw [expiryToUnix, Nat.add_sub_cancel_left, if_neg (by
      rintro rfl
      push_cast at hahead
      have : (before.wall : Int) ≤ after.wall := by exact_mod_cast hwall
      linarith)]
  refine ⟨_, by rw [restoredExpiry, hunix, Option.bind_some, wallExpiryToInstant, if_neg hleft],
    ?_, ?_⟩
  · have hlower : ((before.wall + remaining : Nat) : Int) ≤ _ := Int.ofNat_le.mpr hlower
    push_cast at hlower ⊢
    linarith
  · have hupper := Int.ofNat_le.mpr hupper
    push_cast at hupper ⊢
    linarith

/-! ### The stamps of a reachable state -/

/-- No stamp expires more than one window and one grace ahead, and a hash has one stamp. -/
structure WellStamped (stamps : List (GossipedAt H)) (mono : Nat) : Prop where
  bounded : ∀ g ∈ stamps, g.expiresAt ≤ mono + gossipAnswerabilityTtl + restartStampGrace
  unique : ∀ g ∈ stamps, ∀ g' ∈ stamps, g.hash = g'.hash → g = g'

namespace WellStamped

variable {stamps stamps' : List (GossipedAt H)} {mono mono' : Nat}

omit [Digest H] [CommitmentProtocol H] in
theorem subset (hstamps : WellStamped stamps mono) (hsub : stamps' ⊆ stamps) :
    WellStamped stamps' mono :=
  ⟨fun g hg => hstamps.bounded g (hsub hg),
    fun g hg g' hg' => hstamps.unique g (hsub hg) g' (hsub hg')⟩

omit [Digest H] [CommitmentProtocol H] in
theorem later (hstamps : WellStamped stamps mono) (hle : mono ≤ mono') :
    WellStamped stamps mono' :=
  ⟨fun g hg => (hstamps.bounded g hg).trans (by
    rw [add_assoc, add_assoc]
    exact Nat.add_le_add_right hle _), hstamps.unique⟩

omit [CommitmentProtocol H] in
theorem push (hstamps : WellStamped stamps mono) (hash : H) :
    WellStamped (MoveToFront.push GossipedAt.hash maxRetainedGossipedSlots
      ⟨hash, mono + gossipAnswerabilityTtl⟩ stamps) mono := by
  constructor
  · intro g hg
    rcases MoveToFront.mem_push hg with rfl | ⟨hg, -⟩
    · exact Nat.le_add_right _ _
    · exact hstamps.bounded g hg
  · intro g hg g' hg' hhash
    rcases MoveToFront.mem_push hg with rfl | ⟨hg, hne⟩ <;>
      rcases MoveToFront.mem_push hg' with rfl | ⟨hg', hne'⟩
    · rfl
    · exact absurd hhash.symm hne'
    · exact absurd hhash hne
    · exact hstamps.unique g hg g' hg' hhash

theorem markGossipedLocked {state : ResponderCommitmentState H}
    (hstamps : WellStamped state.recentlyGossiped mono) (hash : H) :
    WellStamped (state.markGossipedLocked hash mono).recentlyGossiped mono :=
  (hstamps.push hash).subset (List.filter_subset_self _)

theorem call {state : ResponderCommitmentState H}
    (hstamps : WellStamped state.recentlyGossiped mono) (op : Op H) :
    WellStamped (state.call ⟨mono, op⟩).1.recentlyGossiped mono := by
  have hemit : WellStamped (state.snapshotAndStamp mono).1.recentlyGossiped mono := by
    unfold snapshotAndStamp
    cases state.current with
    | none => exact hstamps
    | some first => exact hstamps.markGossipedLocked first.cachedHash
  cases op with
  | rotate newCurrent => exact hstamps.subset (List.filter_subset_self _)
  | retireCurrent => exact hstamps.subset (List.filter_subset_self _)
  | markGossiped hash => exact hstamps.markGossipedLocked hash
  | currentForGossip => exact hemit
  | currentForQuote => exact hemit
  | ageOut => exact hstamps.subset (List.filter_subset_self _)

end WellStamped

theorem exists_of_mem_restored {state : ResponderCommitmentState H} {before after : Clock}
    {g : GossipedAt H} (hg : g ∈ (restore (state.snapshot before) after).recentlyGossiped) :
    ∃ built ∈ state.slots, g.hash = built.cachedHash ∧
      ((state.stampOf built.cachedHash).bind fun stamp =>
        restoredExpiry stamp.expiresAt before after) = some g.expiresAt := by
  have hg : g ∈ ((state.snapshot before).slots.filterMap (restoreEntry after)).filterMap Prod.snd :=
    List.mem_of_mem_filter hg
  obtain ⟨entry, hentry, hsnd⟩ := List.mem_filterMap.mp hg
  obtain ⟨slot, hslot, hrestored⟩ := List.mem_filterMap.mp hentry
  obtain ⟨built, hbuilt, rfl⟩ := List.mem_map.mp hslot
  obtain ⟨built', hbuilt', rfl⟩ := Option.map_eq_some_iff.mp hrestored
  obtain ⟨expiresAt, hexpires, rfl⟩ := Option.map_eq_some_iff.mp hsnd
  refine ⟨built, hbuilt, cachedHash_of_restoreSlot rfl hbuilt', ?_⟩
  rw [← hexpires]
  simp only [persistSlot, Option.bind_assoc, restoredExpiry]

theorem wellStamped_restore {state : ResponderCommitmentState H} (before after : Clock) :
    WellStamped (restore (state.snapshot before) after).recentlyGossiped after.mono := by
  constructor
  · intro g hg
    obtain ⟨built, -, -, hexpires⟩ := exists_of_mem_restored hg
    obtain ⟨stamp, -, hrestored⟩ := Option.bind_eq_some_iff.mp hexpires
    exact (lt_of_restoredExpiry hrestored).2
  · intro g hg g' hg' hhash
    obtain ⟨built, -, hbuilt, hexpires⟩ := exists_of_mem_restored hg
    obtain ⟨built', -, hbuilt', hexpires'⟩ := exists_of_mem_restored hg'
    have hsame : built.cachedHash = built'.cachedHash := by rw [← hbuilt, ← hbuilt', hhash]
    rw [hsame, hexpires'] at hexpires
    obtain ⟨hash, expiresAt⟩ := g
    obtain ⟨hash', expiresAt'⟩ := g'
    exact GossipedAt.mk.injEq .. ▸ ⟨hhash, (Option.some.inj hexpires).symm⟩

/-! ### The round trip -/

/-- What is retained can be rebuilt: every slot is content-addressed and carries a valid
signature. -/
def Restorable (state : ResponderCommitmentState H) : Prop :=
  ∀ built ∈ state.slots, built.ContentAddressed ∧
    verifyCommitmentSignature built.commitment = true

def restoredStamp (state : ResponderCommitmentState H) (before after : Clock)
    (built : BuiltCommitment H) : Option (GossipedAt H) :=
  ((state.stampOf built.cachedHash).bind fun stamp =>
    restoredExpiry stamp.expiresAt before after).map fun expiresAt => ⟨built.cachedHash, expiresAt⟩

theorem restoredStamp_eq (state : ResponderCommitmentState H) (before after : Clock)
    (built : BuiltCommitment H) :
    state.restoredStamp before after built =
      ((state.persistSlot before built).expiresAtUnix.bind fun expiresUnix =>
        wallExpiryToInstant expiresUnix after).map fun expiresAt => ⟨built.cachedHash, expiresAt⟩ := by
  simp only [persistSlot, Option.bind_assoc, restoredStamp, restoredExpiry]

/-- A restorable state comes back with its slots in place, its flag, and the stamps still ahead. -/
theorem restore_snapshot_eq {state : ResponderCommitmentState H} (hrestorable : Restorable state)
    (before after : Clock) :
    restore (state.snapshot before) after = pruneSlots
      { slots := state.slots
        hasCurrent := state.hasCurrent && !state.slots.isEmpty
        recentlyGossiped := state.slots.filterMap (state.restoredStamp before after) }
      after.mono := by
  have hentries : (state.snapshot before).slots.filterMap (restoreEntry after)
      = state.slots.map fun built => (built, state.restoredStamp before after built) := by
    rw [snapshot, List.filterMap_map, ← List.filterMap_eq_map]
    apply List.filterMap_congr
    intro built hbuilt
    obtain ⟨hcontent, hsigned⟩ := hrestorable built hbuilt
    rw [Function.comp_apply, restoreEntry, restoreSlot_persistSlot state before hcontent hsigned,
      Option.map_some, Function.comp_apply, restoredStamp_eq]
  have hfirst : ((state.snapshot before).slots.head?.bind restoreSlot).isSome
      = !state.slots.isEmpty := by
    rw [snapshot, List.head?_map]
    cases hslots : state.slots with
    | nil => rfl
    | cons first rest =>
        obtain ⟨hcontent, hsigned⟩ := hrestorable first (by simp [hslots])
        rw [List.head?_cons, Option.map_some, Option.bind_some,
          restoreSlot_persistSlot state before hcontent hsigned]
        rfl
  have hslots : (state.slots.map fun built => (built, state.restoredStamp before after built)).map
      Prod.fst = state.slots := by
    rw [List.map_map]
    exact List.map_id _
  have hstamps : (state.slots.map fun built =>
        (built, state.restoredStamp before after built)).filterMap Prod.snd
      = state.slots.filterMap (state.restoredStamp before after) := by
    rw [List.filterMap_map]
    rfl
  unfold restore
  dsimp only
  rw [hentries, hfirst, hslots, hstamps]
  rfl

theorem mem_of_stampOf {state : ResponderCommitmentState H} {hash : H} {g : GossipedAt H}
    (hg : state.stampOf hash = some g) : g ∈ state.recentlyGossiped ∧ g.hash = hash :=
  ⟨List.mem_of_find?_eq_some hg, by simpa using List.find?_some hg⟩

theorem stampOf_eq_some {state : ResponderCommitmentState H} {mono : Nat}
    (hstamps : WellStamped state.recentlyGossiped mono) {g : GossipedAt H}
    (hg : g ∈ state.recentlyGossiped) : state.stampOf g.hash = some g := by
  obtain ⟨found, hfound⟩ := Option.isSome_iff_exists.mp
    (List.find?_isSome.mpr ⟨g, hg, by simp⟩ : (state.stampOf g.hash).isSome = true)
  obtain ⟨hmem, hhash⟩ := mem_of_stampOf hfound
  have hsame : found = g := hstamps.unique found hmem g hg hhash
  exact hfound.trans (congrArg some hsame)

theorem restore_of_ahead {state : ResponderCommitmentState H} (hrestorable : Restorable state)
    {before after : Clock} (hstamps : WellStamped state.recentlyGossiped before.mono)
    (hwall : before.wall ≤ after.wall) {built : BuiltCommitment H} (hbuilt : built ∈ state.slots)
    {g : GossipedAt H} (hg : g ∈ state.recentlyGossiped) (hhash : g.hash = built.cachedHash)
    (hahead : after.wall < before.toWall g.expiresAt) :
    let restored := restore (state.snapshot before) after
    built ∈ restored.slots ∧
      restored.lookupByHash built.cachedHash = state.lookupByHash built.cachedHash ∧
      ∃ expiresAt, ⟨built.cachedHash, expiresAt⟩ ∈ restored.recentlyGossiped ∧
        before.toWall g.expiresAt ≤ after.toWall expiresAt ∧
        after.toWall expiresAt ≤ before.toWall g.expiresAt + restartStampGrace := by
  intro restored
  obtain ⟨expiresAt, hexpires, hlower, hupper⟩ :=
    restoredExpiry_of_ahead (hstamps.bounded g hg) hwall hahead
  have hstamp : (⟨built.cachedHash, expiresAt⟩ : GossipedAt H)
      ∈ state.slots.filterMap (state.restoredStamp before after) := by
    refine List.mem_filterMap.mpr ⟨built, hbuilt, ?_⟩
    rw [restoredStamp, ← hhash, stampOf_eq_some hstamps hg, Option.bind_some, hexpires]
    rfl
  have hlive : (⟨built.cachedHash, expiresAt⟩ : GossipedAt H) ∈ restored.recentlyGossiped := by
    change _ ∈ (restore (state.snapshot before) after).recentlyGossiped
    rw [restore_snapshot_eq hrestorable]
    exact List.mem_filter.mpr ⟨hstamp, by simpa using (lt_of_restoredExpiry hexpires).1⟩
  refine ⟨?_, ?_, expiresAt, hlive, hlower, hupper⟩
  · change _ ∈ (restore (state.snapshot before) after).slots
    rw [restore_snapshot_eq hrestorable]
    exact mem_pruneSlots hbuilt hstamp rfl (lt_of_restoredExpiry hexpires).1
  · have hmem : built.cachedHash ∈ restored.recentlyGossiped.map GossipedAt.hash :=
      List.mem_map.mpr ⟨_, hlive, rfl⟩
    change (restore (state.snapshot before) after).lookupByHash _ = _
    change _ ∈ (restore (state.snapshot before) after).recentlyGossiped.map _ at hmem
    rw [restore_snapshot_eq hrestorable] at hmem ⊢
    exact find?_retainSlots hmem _

theorem current_restore {state : ResponderCommitmentState H} (hrestorable : Restorable state)
    (before after : Clock) :
    (restore (state.snapshot before) after).current = state.current := by
  rw [restore_snapshot_eq hrestorable, current_pruneSlots, current, current]
  cases state.slots with
  | nil => simp
  | cons first rest => simp

variable [Postcard H]

def PostcardRoundTrips (H : Type) [Postcard H] : Prop :=
  ∀ (persisted : PersistedRetention H) (bytes : Bytes),
    Postcard.toAllocvec persisted = some bytes → Postcard.fromPostcard bytes = some persisted

/-- The states a node reaches, with its clocks: operations, passing time, and restarts from any
snapshot it wrote. A restart may find the monotonic clock anywhere. -/
inductive Reachable : Clock → ResponderCommitmentState H → Prop where
  | start (now : Clock) : Reachable now new
  | tick {now now' : Clock} {state : ResponderCommitmentState H} :
      Reachable now state → now.Advances now' → Reachable now' state
  | call {now : Clock} {state : ResponderCommitmentState H} (op : Op H) :
      Reachable now state → Reachable now (state.call ⟨now.mono, op⟩).1
  | clearAll {now : Clock} {state : ResponderCommitmentState H} :
      Reachable now state → Reachable now state.clearAll
  | restart {now now' : Clock} {state : ResponderCommitmentState H} {bytes : Bytes}
      {persisted : PersistedRetention H} :
      Reachable now state → now.wall ≤ now'.wall → (state.snapshot now).toBytes = some bytes →
        PersistedRetention.fromBytes bytes = some persisted →
        Reachable now' (restore persisted now')

theorem fromBytes_toBytes (hpostcard : PostcardRoundTrips H) {state : ResponderCommitmentState H}
    {now : Clock} {bytes : Bytes} (hbytes : (state.snapshot now).toBytes = some bytes) :
    PersistedRetention.fromBytes bytes = some (state.snapshot now) := by
  rw [PersistedRetention.fromBytes, hpostcard _ _ hbytes]
  rfl

theorem Reachable.wellStamped (hpostcard : PostcardRoundTrips H) {now : Clock}
    {state : ResponderCommitmentState H} (hreach : Reachable now state) :
    WellStamped state.recentlyGossiped now.mono := by
  induction hreach with
  | start now => exact ⟨List.forall_mem_nil _, List.forall_mem_nil _⟩
  | tick _ hadv ih =>
      obtain ⟨elapsed, hmono, -⟩ := hadv
      exact ih.later (by omega)
  | call op _ ih => exact ih.call op
  | clearAll _ ih => exact ⟨List.forall_mem_nil _, List.forall_mem_nil _⟩
  | restart _ _ hbytes hpersisted ih =>
      rw [fromBytes_toBytes hpostcard hbytes] at hpersisted
      obtain rfl := Option.some.inj hpersisted
      exact wellStamped_restore _ _

/-- **A restart never under-retains.** From every reachable state whose slots are content-addressed
and signed, a snapshot that is written, read back and restored at a later wall time gives back every
commitment whose stamp is still ahead, under its hash and unchanged, with a deadline no earlier than
before and at most `RESTART_STAMP_GRACE` later. The advertised commitment is the same one, or still
none, and nothing is retained that was not retained before. -/
theorem restore_snapshot (hpostcard : PostcardRoundTrips H) {before after : Clock}
    {state : ResponderCommitmentState H} (hreach : Reachable before state)
    (hrestorable : Restorable state) (hwall : before.wall ≤ after.wall) {bytes : Bytes}
    (hbytes : (state.snapshot before).toBytes = some bytes) :
    ∃ persisted, PersistedRetention.fromBytes bytes = some persisted ∧
      (∀ built ∈ state.slots, ∀ g ∈ state.recentlyGossiped, g.hash = built.cachedHash →
        after.wall < before.toWall g.expiresAt →
        built ∈ (restore persisted after).slots ∧
        (∃ found, (restore persisted after).lookupByHash built.cachedHash = some found ∧
          state.lookupByHash built.cachedHash = some found ∧
          found.cachedHash = built.cachedHash) ∧
        (∃ g' ∈ (restore persisted after).recentlyGossiped, g'.hash = built.cachedHash) ∧
        ∀ g' ∈ (restore persisted after).recentlyGossiped, g'.hash = built.cachedHash →
          before.toWall g.expiresAt ≤ after.toWall g'.expiresAt ∧
          after.toWall g'.expiresAt ≤ before.toWall g.expiresAt + restartStampGrace) ∧
      (restore persisted after).current = state.current ∧
      (state.hasCurrent = false → (restore persisted after).current = none) ∧
      ∀ built ∈ (restore persisted after).slots, built ∈ state.slots := by
  have hstamps := hreach.wellStamped hpostcard
  refine ⟨state.snapshot before, fromBytes_toBytes hpostcard hbytes, ?_,
    current_restore hrestorable before after, fun hretired => ?_, fun built hbuilt => ?_⟩
  · intro built hbuilt g hg hhash hahead
    obtain ⟨hslot, hlookup, expiresAt, hlive, hlower, hupper⟩ :=
      restore_of_ahead hrestorable hstamps hwall hbuilt hg hhash hahead
    obtain ⟨found, hfound, hsame⟩ := Answerable.isSome_lookupByHash hbuilt
    refine ⟨hslot, ⟨found, hlookup.trans hfound, hfound, hsame⟩, ⟨_, hlive, rfl⟩, ?_⟩
    intro g' hg' hhash'
    obtain rfl := (wellStamped_restore before after).unique _ hlive g' hg' hhash'.symm
    exact ⟨hlower, hupper⟩
  · rw [current_restore hrestorable, current, if_neg (by simp [hretired])]
  · rw [restore_snapshot_eq hrestorable] at hbuilt
    exact (pruneSlots_slots_sublist _ _).mem hbuilt

theorem postcardRoundTrips_transcript : PostcardRoundTrips Transcript := by
  intro persisted bytes hbytes
  rw [← Option.some.inj hbytes]
  exact Transcript.fromPostcard_retentionBytes persisted

theorem restorable_solo (key : Transcript) : (Transcript.solo key).ContentAddressed ∧
    verifyCommitmentSignature (Transcript.solo key).commitment = true :=
  ⟨by simp [BuiltCommitment.ContentAddressed, Transcript.solo, Transcript.soloTree, leafOf],
    decide_eq_true rfl⟩

open Transcript in
theorem restore_snapshot_solo :
    let before : Clock := ⟨100, 1000 * nanosPerSec⟩
    let after : Clock := ⟨5, 1060 * nanosPerSec⟩
    let state := (new.run [⟨100, .rotate (solo ⟨[1]⟩)⟩]).call ⟨100, .currentForGossip⟩ |>.1
    ∃ persisted,
      PersistedRetention.fromBytes (retentionBytes (state.snapshot before)) = some persisted ∧
      (∃ found, (restore persisted after).lookupByHash (solo ⟨[1]⟩).cachedHash = some found ∧
        state.lookupByHash (solo ⟨[1]⟩).cachedHash = some found) ∧
      (restore persisted after).current = state.current := by
  intro before after state
  have hreach : Reachable before state := .call _ (.call (.rotate (solo ⟨[1]⟩)) (.start before))
  have hslots : state.slots = [solo ⟨[1]⟩] := by rfl
  have hstamps : state.recentlyGossiped
      = [⟨(solo ⟨[1]⟩).cachedHash, 100 + gossipAnswerabilityTtl⟩] := by rfl
  have hrestorable : Restorable state :=
    List.forall_mem_cons.mpr ⟨restorable_solo ⟨[1]⟩, List.forall_mem_nil _⟩
  obtain ⟨persisted, hpersisted, hahead, hcurrent, -⟩ := restore_snapshot
    postcardRoundTrips_transcript hreach hrestorable (show before.wall ≤ after.wall by decide) rfl
  obtain ⟨-, ⟨found, hfound, hbefore, -⟩, -⟩ := hahead (solo ⟨[1]⟩) (by simp [hslots])
    ⟨(solo ⟨[1]⟩).cachedHash, 100 + gossipAnswerabilityTtl⟩ (by simp [hstamps]) rfl (by decide)
  exact ⟨persisted, hpersisted, ⟨found, hfound, hbefore⟩, hcurrent⟩

end ResponderCommitmentState

end AntNode
