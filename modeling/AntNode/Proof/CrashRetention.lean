import AntNode.Lib.Fallible
import AntNode.RetentionNode
import AntNode.Proof.Restore

/-!
# Answerability across crashes

A pin is safe in memory when its slot is there with a stamp that lasts its window, and on disk when
the file holds its commitment with a deadline that lasts its window once the grace is added. The
first is kept by every step of a running process; the second is what a restart turns back into the
first. Between the two stands what was handed out since the file's snapshot was taken. The grace
covers a refreshed stamp that moved by no more than the grace. It cannot cover a root that was first
handed out after that snapshot, since the file does not hold it.
-/

namespace AntNode

open ResponderCommitmentState

variable {H : Type} [Digest H] [CommitmentProtocol H]

/-- The slot of the pin is there, and its stamp lasts the window. -/
def Held (state : ResponderCommitmentState H) (clock : Clock) (pin : HandedOut H) : Prop :=
  ∃ built ∈ state.slots, built.cachedHash = pin.hash ∧
    ∃ g ∈ state.recentlyGossiped, g.hash = pin.hash ∧
      (pin.handedAt + gossipAnswerabilityTtl : Nat) ≤ clock.toWall g.expiresAt

/-- The file holds the commitment of the pin, with a deadline that lasts the window once the grace
is added. -/
def Covers [Postcard H] (bytes : Bytes) (pin : HandedOut H) : Prop :=
  ∃ persisted : PersistedRetention H, PersistedRetention.fromBytes bytes = some persisted ∧
    ∃ slot ∈ persisted.slots, commitmentHash slot.commitment = some pin.hash ∧
      ∃ expiresUnix, slot.expiresAtUnix = some expiresUnix ∧
        pin.handedAt + gossipAnswerabilityTtl ≤ expiresUnix * nanosPerSec + restartStampGrace

namespace Held

variable {state : ResponderCommitmentState H} {clock : Clock} {pin : HandedOut H}

theorem lookupByHash (hheld : Held state clock pin) :
    ∃ found, state.lookupByHash pin.hash = some found := by
  obtain ⟨built, hbuilt, hhash, -⟩ := hheld
  obtain ⟨found, hfound, -⟩ := Answerable.isSome_lookupByHash hbuilt
  exact ⟨found, hhash ▸ hfound⟩

omit [Digest H] [CommitmentProtocol H] in
theorem lt_expiresAt {instant : Nat}
    (hlater : (pin.handedAt + gossipAnswerabilityTtl : Nat) ≤ clock.toWall instant)
    (hwindow : clock.wall < pin.handedAt + gossipAnswerabilityTtl) : clock.mono < instant := by
  unfold Clock.toWall at hlater
  generalize pin.handedAt + gossipAnswerabilityTtl = deadline at hlater hwindow
  omega

theorem pruneSlots (hheld : Held state clock pin)
    (hwindow : clock.wall < pin.handedAt + gossipAnswerabilityTtl) :
    Held (state.pruneSlots clock.mono) clock pin := by
  obtain ⟨built, hbuilt, hhash, g, hg, hstamp, hlater⟩ := hheld
  have hlive := lt_expiresAt hlater hwindow
  exact ⟨built, mem_pruneSlots hbuilt hg (hstamp.trans hhash.symm) hlive, hhash, g,
    List.mem_filter.mpr ⟨hg, by simpa using hlive⟩, hstamp, hlater⟩

theorem of_subset {state' : ResponderCommitmentState H} (hheld : Held state clock pin)
    (hslots : state.slots ⊆ state'.slots)
    (hstamps : state.recentlyGossiped ⊆ state'.recentlyGossiped) : Held state' clock pin := by
  obtain ⟨built, hbuilt, hhash, g, hg, hrest⟩ := hheld
  exact ⟨built, hslots hbuilt, hhash, g, hstamps hg, hrest⟩

theorem advance {clock' : Clock} (hheld : Held state clock pin) (hadv : clock.Advances clock') :
    Held state clock' pin := by
  obtain ⟨built, hbuilt, hhash, g, hg, hstamp, hlater⟩ := hheld
  exact ⟨built, hbuilt, hhash, g, hg, hstamp, by rwa [hadv.toWall_eq]⟩

theorem markGossipedLocked (hheld : Held state clock pin)
    (hwindow : clock.wall < pin.handedAt + gossipAnswerabilityTtl)
    (hpast : pin.handedAt ≤ clock.wall) {hash : H}
    (hroom : (state.recentlyGossiped.filter fun g => decide (g.hash ≠ hash)).length
      < maxRetainedGossipedSlots) :
    Held (state.markGossipedLocked hash clock.mono) clock pin := by
  obtain ⟨built, hbuilt, hhash, g, hg, hstamp, hlater⟩ := hheld
  have htake : (⟨hash, clock.mono + gossipAnswerabilityTtl⟩ ::
      state.recentlyGossiped.filter fun g => decide (g.hash ≠ hash)).take maxRetainedGossipedSlots
      = ⟨hash, clock.mono + gossipAnswerabilityTtl⟩ ::
        state.recentlyGossiped.filter fun g => decide (g.hash ≠ hash) :=
    List.take_of_length_le hroom
  have hstamped : Held { state with recentlyGossiped :=
      ⟨hash, clock.mono + gossipAnswerabilityTtl⟩ ::
        state.recentlyGossiped.filter fun g => decide (g.hash ≠ hash) } clock pin := by
    by_cases hself : pin.hash = hash
    · refine ⟨built, hbuilt, hhash, _, List.mem_cons_self, hself.symm, ?_⟩
      unfold Clock.toWall
      push_cast
      have : (pin.handedAt : Int) ≤ clock.wall := by exact_mod_cast hpast
      linarith
    · refine ⟨built, hbuilt, hhash, g, List.mem_cons_of_mem _ (List.mem_filter.mpr ⟨hg, ?_⟩),
        hstamp, hlater⟩
      simpa [hstamp] using hself
  have hpruned := hstamped.pruneSlots hwindow
  rwa [← htake] at hpruned

end Held

/-! ### Rotation -/

def SignsValidly (identity : NodeIdentity H) : Prop :=
  ∀ randomness root keyCount peerId publicKey signature,
    identity.sign randomness root keyCount peerId publicKey = .ok signature →
      verifyCommitmentSignature ⟨root, keyCount, peerId, publicKey, signature⟩ = true

theorem BuiltCommitment.buildFromTree_eq_ok {tree : MerkleTree H} {peerId : H} {publicKey : Bytes}
    {sign : H → Nat → H → Bytes → Except (CommitmentError H) Bytes} {built : BuiltCommitment H}
    (hbuilt : buildFromTree tree peerId publicKey sign = .ok built) :
    built.tree = tree ∧ ∃ signature,
      sign tree.root tree.keyCount peerId publicKey = .ok signature ∧
      built.commitment = ⟨tree.root, tree.keyCount, peerId, publicKey, signature⟩ := by
  unfold buildFromTree at hbuilt
  split at hbuilt
  · cases hbuilt
  · rename_i signature hsignature
    dsimp only at hbuilt
    split at hbuilt
    · cases hbuilt
    · obtain rfl := Except.ok.inj hbuilt
      exact ⟨rfl, signature, hsignature, rfl⟩

omit [CommitmentProtocol H] in
theorem MerkleTree.contentAddressed_of_build {keys : List H} {tree : MerkleTree H}
    (hbuild : MerkleTree.build (keys.map fun key => (key, key)) = .ok tree) :
    ∀ leaf ∈ tree.leaves, leaf.2 = leafHash leaf.1 leaf.1 := by
  intro leaf hleaf
  rw [leaves_of_build hbuild] at hleaf
  obtain ⟨entry, hentry, rfl⟩ := List.mem_map.mp hleaf
  obtain ⟨key, -, rfl⟩ := List.mem_map.mp ((sortByKey_perm _).mem_iff.mp hentry)
  rfl

/-- What a rotation can do. -/
theorem rebuildAndRotateCommitment_outcome {identity : NodeIdentity H}
    {state state' : ResponderCommitmentState H} {now : Nat} {storedKeys : List H}
    {isResponsible : H → Bool} {randomness : Nat}
    (hok : rebuildAndRotateCommitment identity state now storedKeys isResponsible randomness
      = .ok state') :
    (storedKeys = [] ∧ (state' = state.clearAll ∨ state' = state)) ∨
      state' = state.retireCurrent now ∨ state' = state.ageOut now ∨
      ∃ (tree : MerkleTree H) (built : BuiltCommitment H), state' = state.rotate built now ∧
        MerkleTree.build (((storedKeys.filter isResponsible).take maxCommitmentKeyCount).map
          fun key => (key, key)) = .ok tree ∧
        BuiltCommitment.buildFromTree tree identity.peerId identity.publicKey
          (identity.sign randomness) = .ok built := by
  unfold rebuildAndRotateCommitment at hok
  dsimp only at hok
  split at hok
  · split at hok
    · rename_i hempty
      obtain rfl := Except.ok.inj hok
      refine .inl ⟨List.isEmpty_iff.mp hempty, ?_⟩
      split
      · exact .inl rfl
      · exact .inr rfl
    · exact .inr (.inl (Except.ok.inj hok).symm)
  · obtain ⟨tree, hbuild, hok⟩ := Fallible.bind_eq_ok_iff.mp hok
    split at hok
    · exact .inr (.inr (.inl (Except.ok.inj hok).symm))
    · obtain ⟨built, hbuilt, hok⟩ := Fallible.bind_eq_ok_iff.mp hok
      exact .inr (.inr (.inr ⟨tree, built, (Except.ok.inj hok).symm, hbuild, hbuilt⟩))

theorem rebuildAndRotateCommitment_cases {identity : NodeIdentity H}
    (hsign : SignsValidly identity) {state state' : ResponderCommitmentState H} {now : Nat}
    {storedKeys : List H} {isResponsible : H → Bool} {randomness : Nat}
    (hok : rebuildAndRotateCommitment identity state now storedKeys isResponsible randomness
      = .ok state') :
    (storedKeys = [] ∧ (state' = state.clearAll ∨ state' = state)) ∨
      state' = state.retireCurrent now ∨ state' = state.ageOut now ∨
      ∃ built : BuiltCommitment H, state' = state.rotate built now ∧ built.ContentAddressed ∧
        verifyCommitmentSignature built.commitment = true := by
  rcases rebuildAndRotateCommitment_outcome hok with
    hempty | hretired | haged | ⟨tree, built, hrotated, hbuild, hbuilt⟩
  · exact .inl hempty
  · exact .inr (.inl hretired)
  · exact .inr (.inr (.inl haged))
  · obtain ⟨htree, signature, hsignature, hcommitment⟩ := BuiltCommitment.buildFromTree_eq_ok hbuilt
    refine .inr (.inr (.inr ⟨built, hrotated, ?_, ?_⟩))
    · rw [BuiltCommitment.ContentAddressed, htree]
      exact MerkleTree.contentAddressed_of_build hbuild
    · rw [hcommitment]
      exact hsign _ _ _ _ _ _ hsignature

theorem ResponderCommitmentState.Restorable.of_sublist {state state' : ResponderCommitmentState H}
    (hrestorable : Restorable state) (hslots : state'.slots.Sublist state.slots) :
    Restorable state' := fun built hbuilt => hrestorable built (hslots.mem hbuilt)

theorem ResponderCommitmentState.Restorable.rotation {identity : NodeIdentity H}
    (hsign : SignsValidly identity) {state state' : ResponderCommitmentState H}
    (hrestorable : Restorable state) {now : Nat} {storedKeys : List H}
    {isResponsible : H → Bool} {randomness : Nat}
    (hok : rebuildAndRotateCommitment identity state now storedKeys isResponsible randomness
      = .ok state') : Restorable state' := by
  rcases rebuildAndRotateCommitment_cases hsign hok with
    ⟨-, rfl | rfl⟩ | rfl | rfl | ⟨built, rfl, hcontent, hsigned⟩
  · exact fun _ hbuilt => absurd hbuilt List.not_mem_nil
  · exact hrestorable
  · exact hrestorable.of_sublist (pruneSlots_slots_sublist _ _)
  · exact hrestorable.of_sublist (pruneSlots_slots_sublist _ _)
  · have hadded : Restorable { state with slots := built :: state.slots, hasCurrent := true } :=
      List.forall_mem_cons.mpr ⟨⟨hcontent, hsigned⟩, hrestorable⟩
    exact hadded.of_sublist (pruneSlots_slots_sublist _ _)

theorem ResponderCommitmentState.WellStamped.rotation {identity : NodeIdentity H}
    (hsign : SignsValidly identity) {state state' : ResponderCommitmentState H} {now : Nat}
    (hstamps : WellStamped state.recentlyGossiped now)
    {storedKeys : List H} {isResponsible : H → Bool} {randomness : Nat}
    (hok : rebuildAndRotateCommitment identity state now storedKeys isResponsible randomness
      = .ok state') : WellStamped state'.recentlyGossiped now := by
  rcases rebuildAndRotateCommitment_cases hsign hok with
    ⟨-, rfl | rfl⟩ | rfl | rfl | ⟨built, rfl, -⟩
  · exact ⟨List.forall_mem_nil _, List.forall_mem_nil _⟩
  · exact hstamps
  · exact hstamps.call .retireCurrent
  · exact hstamps.call .ageOut
  · exact hstamps.call (.rotate built)

theorem Held.rotation {identity : NodeIdentity H} (hsign : SignsValidly identity)
    {state state' : ResponderCommitmentState H} {clock : Clock} {pin : HandedOut H}
    (hheld : Held state clock pin) (hwindow : clock.wall < pin.handedAt + gossipAnswerabilityTtl)
    {storedKeys : List H} (hstored : storedKeys ≠ []) {isResponsible : H → Bool} {randomness : Nat}
    (hok : rebuildAndRotateCommitment identity state clock.mono storedKeys isResponsible randomness
      = .ok state') : Held state' clock pin := by
  rcases rebuildAndRotateCommitment_cases hsign hok with
    ⟨hempty, -⟩ | rfl | rfl | ⟨built, rfl, -⟩
  · exact absurd hempty hstored
  · have hretired : Held { state with hasCurrent := false } clock pin :=
      hheld.of_subset (List.Subset.refl _) (List.Subset.refl _)
    exact hretired.pruneSlots hwindow
  · exact hheld.pruneSlots hwindow
  · have hadded : Held { state with slots := built :: state.slots, hasCurrent := true } clock pin :=
      hheld.of_subset (List.subset_cons_self _ _) (List.Subset.refl _)
    exact hadded.pruneSlots hwindow

theorem Held.of_emitted {state : ResponderCommitmentState H} {clock : Clock}
    {built : BuiltCommitment H} (hcurrent : state.current = some built) :
    Held (state.markGossipedLocked built.cachedHash clock.mono) clock
      ⟨built.cachedHash, clock.wall⟩ := by
  have hans : Answerable (state.markGossipedLocked built.cachedHash clock.mono) built
      (clock.mono + gossipAnswerabilityTtl) ∅ :=
    Answerable.markGossiped_self (mem_slots_of_current hcurrent) le_rfl
      (Nat.lt_add_of_pos_right (by decide))
  obtain ⟨g, hg, hhash, hlater⟩ := hans.stamped.mem
  refine ⟨built, hans.mem_slots, rfl, g, hg, hhash, ?_⟩
  have hlater : ((clock.mono + gossipAnswerabilityTtl : Nat) : Int) ≤ g.expiresAt :=
    Int.ofNat_le.mpr hlater
  unfold Clock.toWall
  push_cast at hlater ⊢
  linarith

/-! ### The file -/

variable [Postcard H]

/-- The bytes are a snapshot of a restorable state. -/
def IsSnapshot (H : Type) [Digest H] [CommitmentProtocol H] [Postcard H] (bytes : Bytes) : Prop :=
  ∃ (state : ResponderCommitmentState H) (clock : Clock),
    (state.snapshot clock).toBytes = some bytes ∧ Restorable state

/-- A snapshot covers every pin that is held when it is taken. -/
theorem Held.covers (hpostcard : PostcardRoundTrips H) {state : ResponderCommitmentState H}
    {clock : Clock} {pin : HandedOut H} (hheld : Held state clock pin)
    (hwindow : clock.wall < pin.handedAt + gossipAnswerabilityTtl)
    (hstamps : WellStamped state.recentlyGossiped clock.mono) {bytes : Bytes}
    (hbytes : (state.snapshot clock).toBytes = some bytes) : Covers bytes pin := by
  obtain ⟨built, hbuilt, hhash, g, hg, hstamp, hlater⟩ := hheld
  refine ⟨state.snapshot clock, fromBytes_toBytes hpostcard hbytes, state.persistSlot clock built,
    List.mem_map.mpr ⟨built, hbuilt, rfl⟩, hhash ▸ built.hash_eq,
    (clock.wall + (g.expiresAt - clock.mono)) / nanosPerSec, ?_, ?_⟩
  · have hlive := Held.lt_expiresAt hlater hwindow
    change ((state.stampOf built.cachedHash).bind
      fun stamp => expiryToUnix stamp.expiresAt clock) = _
    rw [hhash, ← hstamp, stampOf_eq_some hstamps hg, Option.bind_some, expiryToUnix,
      if_neg (by omega)]
  · have hfloor := Nat.div_add_mod' (clock.wall + (g.expiresAt - clock.mono)) nanosPerSec
    have hlost := mod_nanosPerSec_le_grace (clock.wall + (g.expiresAt - clock.mono))
    have hlive := Held.lt_expiresAt hlater hwindow
    unfold Clock.toWall at hlater
    generalize pin.handedAt + gossipAnswerabilityTtl = deadline at hlater ⊢
    generalize (clock.wall + (g.expiresAt - clock.mono)) / nanosPerSec * nanosPerSec = floored
      at hfloor ⊢
    generalize (clock.wall + (g.expiresAt - clock.mono)) % nanosPerSec = lost at hfloor hlost
    generalize restartStampGrace = grace at hlost ⊢
    omega

theorem loadCommitmentRetention_eq (hpostcard : PostcardRoundTrips H)
    {state : ResponderCommitmentState H} {clock : Clock} {bytes : Bytes}
    (hbytes : (state.snapshot clock).toBytes = some bytes) (now : Clock) :
    loadCommitmentRetention (some bytes) now = restore (state.snapshot clock) now := by
  rw [loadCommitmentRetention, Option.bind_some, fromBytes_toBytes hpostcard hbytes]

/-- A restart turns what the file covers back into what is held. -/
theorem Covers.held (hpostcard : PostcardRoundTrips H) {bytes : Bytes} {pin : HandedOut H}
    (hcovers : Covers bytes pin) (hsnapshot : IsSnapshot H bytes) {now : Clock}
    (hpast : pin.handedAt ≤ now.wall) (hwindow : now.wall < pin.handedAt + gossipAnswerabilityTtl) :
    Held (loadCommitmentRetention (some bytes) now) now pin := by
  obtain ⟨state, clock, hbytes, hrestorable⟩ := hsnapshot
  obtain ⟨persisted, hpersisted, slot, hslot, hpin, expiresUnix, hexpires, hlater⟩ := hcovers
  rw [fromBytes_toBytes hpostcard hbytes] at hpersisted
  obtain rfl := Option.some.inj hpersisted
  obtain ⟨built, hbuilt, rfl⟩ := List.mem_map.mp hslot
  have hhash : built.cachedHash = pin.hash :=
    Option.some.inj (built.hash_eq.symm.trans hpin)
  have hremaining : expiresUnix * nanosPerSec + restartStampGrace - now.wall ≠ 0 :=
    Nat.sub_ne_zero_of_lt (lt_of_lt_of_le hwindow hlater)
  set expiresAt := now.mono + min (expiresUnix * nanosPerSec + restartStampGrace - now.wall)
    (gossipAnswerabilityTtl + restartStampGrace) with hexpiresAt
  have hstamp : (⟨built.cachedHash, expiresAt⟩ : GossipedAt H)
      ∈ state.slots.filterMap (state.restoredStamp clock now) := by
    refine List.mem_filterMap.mpr ⟨built, hbuilt, ?_⟩
    rw [restoredStamp_eq, hexpires, Option.bind_some, wallExpiryToInstant, if_neg hremaining]
    rfl
  have hheld : Held { slots := state.slots
                      hasCurrent := state.hasCurrent && !state.slots.isEmpty
                      recentlyGossiped := state.slots.filterMap (state.restoredStamp clock now) }
      now pin := by
    refine ⟨built, hbuilt, hhash, _, hstamp, hhash, ?_⟩
    have hdeadline : pin.handedAt + gossipAnswerabilityTtl ≤ now.wall +
        min (expiresUnix * nanosPerSec + restartStampGrace - now.wall)
          (gossipAnswerabilityTtl + restartStampGrace) := by
      generalize expiresUnix * nanosPerSec = floored at hlater hremaining ⊢
      generalize gossipAnswerabilityTtl = ttl at hlater hwindow ⊢
      generalize restartStampGrace = grace at hlater hremaining ⊢
      omega
    have hdeadline : ((pin.handedAt + gossipAnswerabilityTtl : Nat) : Int) ≤ _ :=
      Int.ofNat_le.mpr hdeadline
    rw [Clock.toWall, hexpiresAt]
    push_cast at hdeadline ⊢
    linarith
  rw [loadCommitmentRetention_eq hpostcard hbytes, restore_snapshot_eq hrestorable]
  exact hheld.pruneSlots hwindow

theorem loadCommitmentRetention_spec (hpostcard : PostcardRoundTrips H) {disk : Option Bytes}
    (hdisk : ∀ bytes, disk = some bytes → IsSnapshot H bytes) (now : Clock) :
    Restorable (loadCommitmentRetention (H := H) disk now) ∧
      WellStamped (loadCommitmentRetention (H := H) disk now).recentlyGossiped now.mono := by
  cases disk with
  | none =>
      exact ⟨List.forall_mem_nil _, List.forall_mem_nil _, List.forall_mem_nil _⟩
  | some bytes =>
      obtain ⟨state, clock, hbytes, hrestorable⟩ := hdisk bytes rfl
      rw [loadCommitmentRetention_eq hpostcard hbytes]
      refine ⟨?_, wellStamped_restore clock now⟩
      rw [restore_snapshot_eq hrestorable]
      exact hrestorable.of_sublist (pruneSlots_slots_sublist _ _)

namespace RetentionNode

/-! ### Runs -/

/-- When a step keeps answerability. A rotation finds the store non-empty while a pin is in its
window; an emission finds room for its stamp; and after a crash, while a pin is in its window, the
file can be read, and covers the pin if it was handed out since the file's snapshot was taken. -/
def Safe (node : RetentionNode H) : RetentionEvent H → Prop
  | .rotate storedKeys _ _ => storedKeys = [] → ∀ pin ∈ node.handedOut, ¬node.InWindow pin
  | .emitGossip | .emitQuote => ∀ built, node.state.current = some built →
      (node.state.recentlyGossiped.filter fun g => decide (g.hash ≠ built.cachedHash)).length
        < maxRetainedGossipedSlots
  | .crash downtime _ readable => ∀ pin ∈ node.handedOut,
      node.clock.wall + downtime < pin.handedAt + gossipAnswerabilityTtl →
        readable = true ∧
          (pin ∈ node.unflushed → ∃ bytes, node.disk = some bytes ∧ Covers bytes pin)
  | _ => True

structure Inv (node : RetentionNode H) : Prop where
  restorable : Restorable node.state
  stamps : WellStamped node.state.recentlyGossiped node.clock.mono
  past : ∀ pin ∈ node.handedOut, pin.handedAt ≤ node.clock.wall
  held : ∀ pin ∈ node.handedOut, node.InWindow pin → Held node.state node.clock pin
  isSnapshot : ∀ bytes, node.disk = some bytes ∨ node.writing = some bytes → IsSnapshot H bytes
  disk : ∀ pin ∈ node.handedOut, node.InWindow pin →
    pin ∈ node.unflushed ∨ ∃ bytes, node.disk = some bytes ∧ Covers bytes pin
  writing : ∀ bytes, node.writing = some bytes → ∀ pin ∈ node.handedOut, node.InWindow pin →
    pin ∈ node.sinceSnapshot ∨ Covers bytes pin

theorem inv_fresh (clock : Clock) : Inv (fresh (H := H) clock) where
  restorable := List.forall_mem_nil _
  stamps := ⟨List.forall_mem_nil _, List.forall_mem_nil _⟩
  past := List.forall_mem_nil _
  held := List.forall_mem_nil _
  isSnapshot := by simp [fresh]
  disk := List.forall_mem_nil _
  writing := by simp [fresh]

variable {node : RetentionNode H}

omit [Postcard H] in
theorem inWindow_of_later {elapsed : Nat} {pin : HandedOut H}
    (hlater : node.clock.wall + elapsed < pin.handedAt + gossipAnswerabilityTtl) :
    node.InWindow pin :=
  (Nat.le_add_right _ _).trans_lt hlater

namespace Inv

theorem past_later (hinv : Inv node) (elapsed : Nat) {pin : HandedOut H}
    (hpin : pin ∈ node.handedOut) : pin.handedAt ≤ node.clock.wall + elapsed :=
  (hinv.past pin hpin).trans (Nat.le_add_right _ _)

theorem tick (hinv : Inv node) (elapsed : Nat) :
    Inv { node with clock := ⟨node.clock.mono + elapsed, node.clock.wall + elapsed⟩ } :=
  { hinv with
    stamps := hinv.stamps.later (Nat.le_add_right _ _)
    past := fun _ hpin => hinv.past_later elapsed hpin
    held := fun pin hpin hlater =>
      (hinv.held pin hpin (inWindow_of_later hlater)).advance ⟨elapsed, rfl, rfl⟩
    disk := fun pin hpin hlater => hinv.disk pin hpin (inWindow_of_later hlater)
    writing := fun bytes hbytes pin hpin hlater =>
      hinv.writing bytes hbytes pin hpin (inWindow_of_later hlater) }

theorem rotate {identity : NodeIdentity H} (hsign : SignsValidly identity) (hinv : Inv node)
    {storedKeys : List H} {isResponsible : H → Bool} {randomness : Nat}
    (hsafe : node.Safe (.rotate storedKeys isResponsible randomness)) :
    Inv (node.step identity (.rotate storedKeys isResponsible randomness)) := by
  unfold step
  dsimp only
  split
  · exact hinv
  · rename_i state hok
    exact { hinv with
      restorable := hinv.restorable.rotation hsign hok
      stamps := hinv.stamps.rotation hsign hok
      held := fun pin hpin hwindow => (hinv.held pin hpin hwindow).rotation hsign hwindow
        (fun hempty => hsafe hempty pin hpin hwindow) hok }

theorem handOut (hinv : Inv node)
    (hroom : ∀ built, node.state.current = some built →
      (node.state.recentlyGossiped.filter fun g => decide (g.hash ≠ built.cachedHash)).length
        < maxRetainedGossipedSlots) :
    Inv (node.handOut (node.state.snapshotAndStamp node.clock.mono)) := by
  unfold snapshotAndStamp
  cases hcurrent : node.state.current with
  | none => exact hinv
  | some built =>
      exact {
        restorable := hinv.restorable.of_sublist (pruneSlots_slots_sublist _ _)
        stamps := hinv.stamps.markGossipedLocked built.cachedHash
        past := List.forall_mem_cons.mpr ⟨le_rfl, hinv.past⟩
        held := List.forall_mem_cons.mpr ⟨fun _ => Held.of_emitted hcurrent, fun pin hpin hwindow =>
          (hinv.held pin hpin hwindow).markGossipedLocked hwindow (hinv.past pin hpin)
            (hroom built hcurrent)⟩
        isSnapshot := hinv.isSnapshot
        disk := List.forall_mem_cons.mpr ⟨fun _ => .inl List.mem_cons_self, fun pin hpin hwindow =>
          (hinv.disk pin hpin hwindow).imp_left (List.mem_cons_of_mem _)⟩
        writing := fun bytes hbytes => List.forall_mem_cons.mpr
          ⟨fun _ => .inl List.mem_cons_self, fun pin hpin hwindow =>
            (hinv.writing bytes hbytes pin hpin hwindow).imp_left (List.mem_cons_of_mem _)⟩ }

/-- The snapshot a write starts from covers everything handed out before it. -/
theorem persistBegin (hpostcard : PostcardRoundTrips H) (hinv : Inv node) :
    Inv node.persistBegin := by
  unfold RetentionNode.persistBegin
  split
  · rename_i bytes hwriting hbytes
    have hcovers : ∀ pin ∈ node.handedOut, node.InWindow pin → Covers bytes pin :=
      fun pin hpin hwindow =>
        (hinv.held pin hpin hwindow).covers hpostcard hwindow hinv.stamps hbytes
    split
    · split
      · rename_i hdisk
        exact { hinv with
          disk := fun pin hpin hwindow => .inr ⟨bytes, hdisk, hcovers pin hpin hwindow⟩ }
      · exact hinv
    · exact { hinv with
        isSnapshot := by
          rintro bytes' (hdisk | hnew)
          · exact hinv.isSnapshot bytes' (.inl hdisk)
          · obtain rfl := Option.some.inj hnew
            exact ⟨node.state, node.clock, hbytes, hinv.restorable⟩
        writing := by
          intro bytes' hnew pin hpin hwindow
          obtain rfl := Option.some.inj hnew
          exact .inr (hcovers pin hpin hwindow) }
  · exact hinv

theorem persistEnd (hinv : Inv node) (outcome : WriteOutcome) : Inv (node.persistEnd outcome) := by
  unfold RetentionNode.persistEnd
  split
  · exact hinv
  · rename_i bytes hwriting
    have hreplaced : ∀ last, Inv { node with
        disk := some bytes, last := last, writing := none, unflushed := node.sinceSnapshot } :=
      fun last => { hinv with
        isSnapshot := by
          rintro bytes' (hdisk | hnone)
          · exact hinv.isSnapshot bytes' (.inr (hwriting.trans hdisk))
          · cases hnone
        disk := fun pin hpin hwindow =>
          (hinv.writing bytes hwriting pin hpin hwindow).imp_right fun hcovers =>
            ⟨bytes, rfl, hcovers⟩
        writing := by
          intro bytes' hnone
          cases hnone }
    cases outcome with
    | written => exact hreplaced (some bytes)
    | renamedUnsynced => exact hreplaced node.last
    | failed => exact { hinv with
        isSnapshot := by
          rintro bytes' (hdisk | hnone)
          · exact hinv.isSnapshot bytes' (.inl hdisk)
          · cases hnone
        writing := by
          intro bytes' hnone
          cases hnone }

theorem crash (hpostcard : PostcardRoundTrips H) (hinv : Inv node) {downtime mono : Nat}
    {readable : Bool} (hsafe : node.Safe (.crash downtime mono readable)) :
    Inv (node.crash ⟨mono, node.clock.wall + downtime⟩ readable) := by
  have hread : ∀ bytes, (if readable then node.disk else none) = some bytes → IsSnapshot H bytes := by
    intro bytes hbytes
    split_ifs at hbytes
    exact hinv.isSnapshot bytes (.inl hbytes)
  obtain ⟨hrestorable, hstamps⟩ := loadCommitmentRetention_spec hpostcard hread
    ⟨mono, node.clock.wall + downtime⟩
  exact {
    restorable := hrestorable
    stamps := hstamps
    past := fun _ hpin => hinv.past_later downtime hpin
    held := by
      intro pin hpin hlater
      obtain ⟨rfl, hunflushed⟩ := hsafe pin hpin hlater
      -- in the file's snapshot already, or handed out since and covered all the same
      obtain ⟨bytes, hdisk, hcovers⟩ : ∃ bytes, node.disk = some bytes ∧ Covers bytes pin :=
        (hinv.disk pin hpin (inWindow_of_later hlater)).elim hunflushed id
      have hheld := hcovers.held hpostcard (hinv.isSnapshot bytes (.inl hdisk))
        (hinv.past_later downtime hpin) hlater
      rwa [← hdisk] at hheld
    isSnapshot := by
      rintro bytes (hdisk | hnone)
      · exact hinv.isSnapshot bytes (.inl hdisk)
      · cases hnone
    disk := fun pin hpin hlater => hinv.disk pin hpin (inWindow_of_later hlater)
    writing := by
      intro bytes hnone
      cases hnone }

theorem step (hpostcard : PostcardRoundTrips H) {identity : NodeIdentity H}
    (hsign : SignsValidly identity) (hinv : Inv node) {event : RetentionEvent H}
    (hsafe : node.Safe event) : Inv (node.step identity event) := by
  cases event with
  | tick elapsed => exact hinv.tick elapsed
  | rotate storedKeys isResponsible randomness => exact hinv.rotate hsign hsafe
  | emitGossip => exact hinv.handOut hsafe
  | emitQuote => exact hinv.handOut hsafe
  | persistBegin => exact hinv.persistBegin hpostcard
  | persistEnd outcome => exact hinv.persistEnd outcome
  | crash downtime mono readable => exact hinv.crash hpostcard hsafe

end Inv

def run (identity : NodeIdentity H) (node : RetentionNode H) :
    List (RetentionEvent H) → RetentionNode H
  | [] => node
  | event :: rest => run identity (node.step identity event) rest

def SafeRun (identity : NodeIdentity H) (node : RetentionNode H) :
    List (RetentionEvent H) → Prop
  | [] => True
  | event :: rest => node.Safe event ∧ SafeRun identity (node.step identity event) rest

theorem Inv.run (hpostcard : PostcardRoundTrips H) {identity : NodeIdentity H}
    (hsign : SignsValidly identity) {node : RetentionNode H} (hinv : Inv node)
    {events : List (RetentionEvent H)} (hsafe : SafeRun identity node events) :
    Inv (node.run identity events) := by
  induction events generalizing node with
  | nil => exact hinv
  | cons event rest ih => exact ih (hinv.step hpostcard hsign hsafe.1) hsafe.2

/-- **Answerability survives a crash.** In every state that a run of safe steps reaches, through any
interleaving of rotations, emissions, writes and unclean stops, every pin handed out so far is
answerable for as long as its window lasts. -/
theorem answerable_across_crashes (hpostcard : PostcardRoundTrips H) {identity : NodeIdentity H}
    (hsign : SignsValidly identity) {clock : Clock} {events : List (RetentionEvent H)}
    (hsafe : SafeRun identity (fresh clock) events) :
    ∀ pin ∈ ((fresh clock).run identity events).handedOut,
      ((fresh clock).run identity events).InWindow pin →
        ∃ found, ((fresh clock).run identity events).state.lookupByHash pin.hash = some found :=
  fun pin hpin hwindow =>
    (((inv_fresh clock).run hpostcard hsign hsafe).held pin hpin hwindow).lookupByHash

theorem step_rotate_of_ok {identity : NodeIdentity H} {node : RetentionNode H}
    {state : ResponderCommitmentState H} {storedKeys : List H} {isResponsible : H → Bool}
    {randomness : Nat} (hok : rebuildAndRotateCommitment identity node.state node.clock.mono
      storedKeys isResponsible randomness = .ok state) :
    node.step identity (.rotate storedKeys isResponsible randomness) =
      { node with state := state } := by
  rw [step, hok]

open Transcript

def copyingIdentity : NodeIdentity Transcript where
  peerId := ⟨[7]⟩
  publicKey := [7]
  sign _ root keyCount peerId publicKey := .ok (signedPayload ⟨root, keyCount, peerId, publicKey, []⟩)

theorem signsValidly_copyingIdentity : SignsValidly copyingIdentity := by
  intro randomness root keyCount peerId publicKey signature hsignature
  obtain rfl := Except.ok.inj hsignature
  exact decide_eq_true rfl

theorem rebuildAndRotateCommitment_solo {state : ResponderCommitmentState Transcript} {now : Nat}
    {key : Transcript} (hnew : ∀ current, state.current = some current →
      current.commitment.root ≠ (soloTree key).root) :
    rebuildAndRotateCommitment copyingIdentity state now [key] (fun _ => true) 0
      = .ok (state.rotate (solo key) now) := by
  have hbuild : MerkleTree.build ([key].map fun key => (key, key)) = .ok (soloTree key) :=
    @MerkleTree.build_leafKeys Transcript _ (soloTree key) (by simp [soloTree, leafOf])
  have hchanged : (state.current.any fun current =>
      decide (current.commitment.root = (soloTree key).root)) = false := by
    cases hcurrent : state.current with
    | none => rfl
    | some current => simpa using hnew current hcurrent
  have hbuilt : BuiltCommitment.buildFromTree (soloTree key) copyingIdentity.peerId
      copyingIdentity.publicKey (copyingIdentity.sign 0) = .ok (solo key) := rfl
  have htake : (([key].filter fun _ => true).take maxCommitmentKeyCount) = [key] :=
    List.take_of_length_le (by simp [maxCommitmentKeyCount])
  unfold rebuildAndRotateCommitment
  dsimp only
  rw [if_neg (by simp), htake, hbuild]
  change (if _ then _ else _) = _
  rw [hchanged, if_neg (by decide), hbuilt]
  rfl

theorem step_rotate_solo (node : RetentionNode Transcript) (key : Transcript)
    (hnew : ∀ current, node.state.current = some current →
      current.commitment.root ≠ (soloTree key).root) :
    node.step copyingIdentity (.rotate [key] (fun _ => true) 0)
      = { node with state := node.state.rotate (solo key) node.clock.mono } :=
  step_rotate_of_ok (rebuildAndRotateCommitment_solo hnew)

theorem answerable_across_crashes_flushed :
    let events : List (RetentionEvent Transcript) :=
      [.rotate [⟨[1]⟩] (fun _ => true) 0, .emitGossip, .persistBegin, .persistEnd .written,
        .crash (60 * nanosPerSec) 5 true]
    let final := (fresh ⟨100, 1000 * nanosPerSec⟩).run copyingIdentity events
    final.handedOut = [⟨(solo ⟨[1]⟩).cachedHash, 1000 * nanosPerSec⟩] ∧
      ∀ pin ∈ final.handedOut, final.InWindow pin →
        ∃ found, final.state.lookupByHash pin.hash = some found := by
  intro events final
  have hfirst := step_rotate_solo (fresh ⟨100, 1000 * nanosPerSec⟩) ⟨[1]⟩ (by rintro current ⟨⟩)
  have hsafe : SafeRun copyingIdentity (fresh ⟨100, 1000 * nanosPerSec⟩) events := by
    refine ⟨by rintro ⟨⟩, ?_⟩
    rw [hfirst]
    exact ⟨fun _ _ => (by decide : 0 < maxRetainedGossipedSlots), trivial, trivial,
      fun _ _ _ => ⟨rfl, fun hunflushed => absurd hunflushed List.not_mem_nil⟩, trivial⟩
  refine ⟨?_, answerable_across_crashes postcardRoundTrips_transcript signsValidly_copyingIdentity
    hsafe⟩
  change (run copyingIdentity (step copyingIdentity _ _) _).handedOut = _
  rw [hfirst]
  rfl

/-- **A root first handed out after the last flush is lost.** The node flushes, rotates to a new
root, pins it in a quote, and stops before the next flush; a minute later the pin is in its window
and the node does not know it. -/
theorem unflushed_root_lost :
    let events : List (RetentionEvent Transcript) :=
      [.rotate [⟨[1]⟩] (fun _ => true) 0, .emitGossip, .persistBegin, .persistEnd .written,
        .rotate [⟨[2]⟩] (fun _ => true) 0, .emitQuote, .crash (60 * nanosPerSec) 5 true]
    let final := (fresh ⟨100, 1000 * nanosPerSec⟩).run copyingIdentity events
    ∃ pin ∈ final.handedOut, pin.hash = (solo ⟨[2]⟩).cachedHash ∧ final.InWindow pin ∧
      final.state.lookupByHash pin.hash = none := by
  intro events final
  have hfirst := step_rotate_solo (fresh ⟨100, 1000 * nanosPerSec⟩) ⟨[1]⟩ (by rintro current ⟨⟩)
  set rotated : RetentionNode Transcript := { fresh ⟨100, 1000 * nanosPerSec⟩ with
    state := ResponderCommitmentState.new.rotate (solo ⟨[1]⟩) 100 } with hrotated
  set flushed := ((rotated.step copyingIdentity .emitGossip).step copyingIdentity .persistBegin).step
    copyingIdentity (.persistEnd .written) with hflushed
  have hsecond := step_rotate_solo flushed ⟨[2]⟩ (by
    intro current hcurrent
    obtain rfl : solo ⟨[1]⟩ = current := Option.some.inj hcurrent
    decide +kernel)
  have hfinal : final = ({ flushed with
      state := flushed.state.rotate (solo ⟨[2]⟩) 100 }.step copyingIdentity .emitQuote).step
        copyingIdentity (.crash (60 * nanosPerSec) 5 true) := by
    change run copyingIdentity (step copyingIdentity _ _) _ = _
    rw [hfirst]
    change run copyingIdentity (step copyingIdentity flushed _) _ = _
    rw [hsecond]
    rfl
  rw [hfinal]
  refine ⟨⟨(solo ⟨[2]⟩).cachedHash, 1000 * nanosPerSec⟩, List.mem_cons_self, rfl,
    (by decide : 1000 * nanosPerSec + 60 * nanosPerSec
      < 1000 * nanosPerSec + gossipAnswerabilityTtl), ?_⟩
  -- the file still holds the first root only
  have hbytes : (flushed.state.snapshot flushed.clock).toBytes
      = some (retentionBytes (flushed.state.snapshot flushed.clock)) := rfl
  have hload := loadCommitmentRetention_eq postcardRoundTrips_transcript hbytes
    ⟨5, 1000 * nanosPerSec + 60 * nanosPerSec⟩
  have hrestorable : Restorable flushed.state :=
    List.forall_mem_cons.mpr ⟨restorable_solo ⟨[1]⟩, List.forall_mem_nil _⟩
  rw [restore_snapshot_eq hrestorable] at hload
  change (loadCommitmentRetention (some (retentionBytes (flushed.state.snapshot flushed.clock)))
    ⟨5, 1000 * nanosPerSec + 60 * nanosPerSec⟩).lookupByHash (solo ⟨[2]⟩).cachedHash = none
  rw [hload]
  apply List.find?_eq_none.mpr
  intro built hbuilt
  obtain rfl : built = solo ⟨[1]⟩ :=
    List.mem_singleton.mp ((pruneSlots_slots_sublist _ _).mem hbuilt)
  decide +kernel

end RetentionNode

end AntNode
