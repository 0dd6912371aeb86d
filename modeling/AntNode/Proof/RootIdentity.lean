import AntNode.Proof.CrashRetention

/-!
# The root identifies the committed set

Leaves are sorted by distinct keys, so no level of a tree has a node twice and the self-paired last
node of an odd level cannot be mistaken for a pair. Leaves and nodes have different tags, so trees of
different depths have different roots. The key count is not needed to tell two trees apart, and the
rotation guard and the reload of a snapshot may compare roots only.
-/

namespace AntNode

open LeftPacked

variable {H : Type} [Digest H]

/-- No two leaves or nodes share a hash, and no leaf has the hash of a node. -/
structure SeparateHashes (H : Type) [Digest H] : Prop where
  leafHash : Function.Injective2 (leafHash (H := H))
  nodeHash : Function.Injective2 (nodeHash (H := H))
  leafHash_ne_nodeHash : ∀ key bytesHash left right : H,
    AntNode.leafHash key bytesHash ≠ AntNode.nodeHash left right

theorem Transcript.separateHashes : SeparateHashes Transcript :=
  ⟨leafHash_injective, nodeHash_injective, leafHash_ne_nodeHash⟩

namespace MerkleTree

theorem nodup_leafHashes (hashes : SeparateHashes H) (tree : MerkleTree H) :
    tree.leafHashes.Nodup := by
  rw [leafHashes, List.nodup_iff_pairwise_ne, List.pairwise_map]
  refine tree.sorted.imp_of_mem fun {leaf leaf'} hleaf hleaf' hlt heq => ?_
  obtain ⟨bytesHash, hbound⟩ := tree.leaf_bound leaf hleaf
  obtain ⟨bytesHash', hbound'⟩ := tree.leaf_bound leaf' hleaf'
  rw [hbound, hbound'] at heq
  exact hlt.ne (hashes.leafHash heq).1

theorem leafHashes_ne_nodeHash (hashes : SeparateHashes H) (tree : MerkleTree H) :
    ∀ leaf ∈ tree.leafHashes, ∀ left right, leaf ≠ nodeHash left right := by
  intro hash hhash left right
  obtain ⟨leaf, hleaf, rfl⟩ := List.mem_map.mp hhash
  obtain ⟨bytesHash, hbound⟩ := tree.leaf_bound leaf hleaf
  rw [hbound]
  exact hashes.leafHash_ne_nodeHash _ _ left right

theorem eq_of_root (hashes : SeparateHashes H) {tree tree' : MerkleTree H}
    (hroot : tree.root = tree'.root) : tree = tree' := by
  have hfold := foldUp_clog_eq_singleton tree.leafHashes_ne_nil
  have hfold' := foldUp_clog_eq_singleton tree'.leafHashes_ne_nil
  rw [← root_eq] at hfold hfold'
  have hleaves : tree.leafHashes = tree'.leafHashes :=
    eq_of_foldUp_eq_singleton nodeHash hashes.nodeHash (tree.nodup_leafHashes hashes)
      (tree'.nodup_leafHashes hashes) (tree.leafHashes_ne_nodeHash hashes)
      (tree'.leafHashes_ne_nodeHash hashes) hfold (hroot ▸ hfold')
  have hcount : tree.keyCount = tree'.keyCount := by
    rw [← length_leafHashes, hleaves, length_leafHashes]
  exact eq_of_root_eq hashes.leafHash hashes.nodeHash hroot hcount

theorem leafOf_injective (hashes : SeparateHashes H) :
    Function.Injective (leafOf : H × H → H × H) := by
  intro entry entry' heq
  obtain ⟨hkey, hleaf⟩ := Prod.mk.inj heq
  exact Prod.ext hkey (hashes.leafHash hleaf).2

theorem sortByKey_pairwise_lt {entries : List (H × H)} {tree : MerkleTree H}
    (hbuild : build entries = .ok tree) : (sortByKey entries).Pairwise fun a b => a.1 < b.1 := by
  have hsorted := tree.sorted
  rwa [leaves_of_build hbuild, List.pairwise_map] at hsorted

/-- Two accepted lists of entries have the same root exactly when they are permutations. -/
theorem root_eq_iff_perm (hashes : SeparateHashes H) {entries entries' : List (H × H)}
    {tree tree' : MerkleTree H} (hbuild : build entries = .ok tree)
    (hbuild' : build entries' = .ok tree') : tree.root = tree'.root ↔ entries.Perm entries' := by
  have hsort := sortByKey_perm entries
  have hsort' := sortByKey_perm entries'
  constructor
  · intro hroot
    have hleaves := congrArg leaves (eq_of_root hashes hroot)
    rw [leaves_of_build hbuild, leaves_of_build hbuild'] at hleaves
    have heq : sortByKey entries = sortByKey entries' :=
      List.map_injective_iff.mpr (leafOf_injective hashes) hleaves
    exact hsort.symm.trans (heq ▸ hsort')
  · intro hperm
    have heq : sortByKey entries = sortByKey entries' :=
      List.Perm.eq_of_pairwise (fun _ _ _ _ hlt hgt => absurd hgt hlt.asymm)
        (sortByKey_pairwise_lt hbuild) (sortByKey_pairwise_lt hbuild')
        (hsort.trans (hperm.trans hsort'.symm))
    have htree : tree = tree' := by
      apply ext_leaves
      rw [leaves_of_build hbuild, leaves_of_build hbuild', heq]
    rw [htree]

end MerkleTree

/-! ### The advertised commitment is content-addressed -/

variable [CommitmentProtocol H]

namespace ResponderCommitmentState

def ContentAddressed (state : ResponderCommitmentState H) : Prop :=
  ∀ built ∈ state.slots, built.ContentAddressed

theorem ContentAddressed.of_sublist {state state' : ResponderCommitmentState H}
    (hcontent : state.ContentAddressed) (hslots : state'.slots.Sublist state.slots) :
    state'.ContentAddressed := fun built hbuilt => hcontent built (hslots.mem hbuilt)

theorem ContentAddressed.snapshotAndStamp {state : ResponderCommitmentState H}
    (hcontent : state.ContentAddressed) (now : Nat) :
    (state.snapshotAndStamp now).1.ContentAddressed := by
  unfold ResponderCommitmentState.snapshotAndStamp
  cases state.current with
  | none => exact hcontent
  | some built => exact hcontent.of_sublist (pruneSlots_slots_sublist _ _)

theorem contentAddressed_restoreSlot {slot : PersistedSlot H} {built : BuiltCommitment H}
    (hrestore : restoreSlot slot = some built) : built.ContentAddressed := by
  unfold restoreSlot at hrestore
  split at hrestore
  · cases hrestore
  · rename_i tree hbuild
    obtain ⟨-, htree⟩ := BuiltCommitment.fromPersisted_eq_some hrestore
    rw [BuiltCommitment.ContentAddressed, htree]
    exact MerkleTree.contentAddressed_of_build hbuild

theorem contentAddressed_restore (persisted : PersistedRetention H) (now : Clock) :
    (restore persisted now).ContentAddressed := by
  have hrestored : ∀ built ∈ (persisted.slots.filterMap (restoreEntry now)).map Prod.fst,
      built.ContentAddressed := by
    intro built hbuilt
    obtain ⟨entry, hentry, rfl⟩ := List.mem_map.mp hbuilt
    obtain ⟨slot, -, hslot⟩ := List.mem_filterMap.mp hentry
    obtain ⟨built, hrestore, rfl⟩ := Option.map_eq_some_iff.mp hslot
    exact contentAddressed_restoreSlot hrestore
  exact fun built hbuilt => hrestored built ((pruneSlots_slots_sublist _ _).mem hbuilt)

end ResponderCommitmentState

open ResponderCommitmentState

/-- A rotation with something to commit to, by its guard. -/
theorem rebuildAndRotateCommitment_of_build {identity : NodeIdentity H}
    (state : ResponderCommitmentState H) (now : Nat) {storedKeys : List H}
    {isResponsible : H → Bool} (randomness : Nat) {tree : MerkleTree H}
    (hbuild : MerkleTree.build (((storedKeys.filter isResponsible).take maxCommitmentKeyCount).map
      fun key => (key, key)) = .ok tree) :
    rebuildAndRotateCommitment identity state now storedKeys isResponsible randomness =
      if state.current.any fun current => decide (current.commitment.root = tree.root) then
        .ok (state.ageOut now)
      else (BuiltCommitment.buildFromTree tree identity.peerId identity.publicKey
        (identity.sign randomness)).map fun built => state.rotate built now := by
  have hkeys : (storedKeys.filter isResponsible).isEmpty = false := by
    rw [List.isEmpty_eq_false_iff]
    intro hnil
    rw [hnil] at hbuild
    cases hbuild
  unfold rebuildAndRotateCommitment
  simp only [hkeys, hbuild]
  cases hguard : state.current.any fun current => decide (current.commitment.root = tree.root) with
  | true => simp [hguard, bind, Except.bind, pure, Except.pure]
  | false =>
      simp only [bind, Except.bind, pure, Except.pure, hguard]
      cases BuiltCommitment.buildFromTree tree identity.peerId identity.publicKey
        (identity.sign randomness) <;> rfl

theorem ResponderCommitmentState.ContentAddressed.rotation {identity : NodeIdentity H}
    {state state' : ResponderCommitmentState H} (hcontent : state.ContentAddressed) {now : Nat}
    {storedKeys : List H} {isResponsible : H → Bool} {randomness : Nat}
    (hok : rebuildAndRotateCommitment identity state now storedKeys isResponsible randomness
      = .ok state') : state'.ContentAddressed := by
  rcases rebuildAndRotateCommitment_outcome hok with
    ⟨-, rfl | rfl⟩ | rfl | rfl | ⟨tree, built, rfl, hbuild, hbuilt⟩
  · exact nofun
  · exact hcontent
  · exact hcontent.of_sublist (pruneSlots_slots_sublist _ _)
  · exact hcontent.of_sublist (pruneSlots_slots_sublist _ _)
  · have hnew : built.ContentAddressed := by
      rw [BuiltCommitment.ContentAddressed, (BuiltCommitment.buildFromTree_eq_ok hbuilt).1]
      exact MerkleTree.contentAddressed_of_build hbuild
    have hadded :
        ContentAddressed { state with slots := built :: state.slots, hasCurrent := true } :=
      List.forall_mem_cons.mpr ⟨hnew, hcontent⟩
    exact hadded.of_sublist (pruneSlots_slots_sublist _ _)

theorem RetentionNode.contentAddressed_handOut {node : RetentionNode H}
    {result : ResponderCommitmentState H × Option (BuiltCommitment H)}
    (hcontent : result.1.ContentAddressed) : (node.handOut result).state.ContentAddressed := by
  unfold handOut
  split <;> exact hcontent

/-- The advertised commitment commits to exactly these keys. -/
def Advertises (state : ResponderCommitmentState H) (keys : List H) : Prop :=
  ∃ current, state.current = some current ∧ ∀ key, key ∈ current.leafKeys ↔ key ∈ keys

theorem root_eq_iff_same_keys (hashes : SeparateHashes H) {current : BuiltCommitment H}
    (hcontent : current.ContentAddressed) {keys : List H} {tree : MerkleTree H}
    (hbuild : MerkleTree.build (keys.map fun key => (key, key)) = .ok tree) :
    current.commitment.root = tree.root ↔ ∀ key, key ∈ current.leafKeys ↔ key ∈ keys := by
  have hcurrent := MerkleTree.build_leafKeys hcontent
  have hnodup : ∀ {keys : List H} {tree : MerkleTree H},
      MerkleTree.build (keys.map fun key => (key, key)) = .ok tree → keys.Nodup := by
    intro keys tree hbuild
    obtain ⟨-, -, hnodup⟩ := MerkleTree.build_eq_ok_iff.mp ⟨tree, hbuild⟩
    simpa [Function.comp_def] using hnodup
  have hpair : Function.Injective fun key : H => (key, key) := fun _ _ heq => (Prod.mk.inj heq).1
  rw [← current.root_eq, MerkleTree.root_eq_iff_perm hashes hcurrent hbuild,
    List.map_perm_map_iff hpair, List.perm_ext_iff_of_nodup (hnodup hcurrent) (hnodup hbuild)]
  rfl

theorem guard_iff_advertises (hashes : SeparateHashes H) {state : ResponderCommitmentState H}
    (hcontent : state.ContentAddressed) {keys : List H} {tree : MerkleTree H}
    (hbuild : MerkleTree.build (keys.map fun key => (key, key)) = .ok tree) :
    (state.current.any fun current => decide (current.commitment.root = tree.root)) = true ↔
      Advertises state keys := by
  unfold Advertises
  cases hcurrent : state.current with
  | none => simp
  | some current =>
      have hroot := root_eq_iff_same_keys hashes (hcontent current (mem_slots_of_current hcurrent))
        hbuild
      simpa using hroot

variable [Postcard H]

namespace RetentionNode

theorem contentAddressed_step {identity : NodeIdentity H} {node : RetentionNode H}
    (hcontent : node.state.ContentAddressed) (event : RetentionEvent H) :
    (node.step identity event).state.ContentAddressed := by
  cases event with
  | tick elapsed => exact hcontent
  | rotate storedKeys isResponsible randomness =>
      simp only [step]
      split
      · exact hcontent
      · rename_i state hok
        exact hcontent.rotation hok
  | emitGossip => exact contentAddressed_handOut (hcontent.snapshotAndStamp _)
  | emitQuote => exact contentAddressed_handOut (hcontent.snapshotAndStamp _)
  | persistBegin =>
      simp only [step, persistBegin]
      split
      · split_ifs <;> exact hcontent
      · exact hcontent
  | persistEnd outcome =>
      simp only [step, persistEnd]
      repeat' split
      all_goals exact hcontent
  | crash downtime mono readable =>
      simp only [step, crash, loadCommitmentRetention]
      split
      · intro built hmem
        cases hmem
      · exact contentAddressed_restore _ _

theorem contentAddressed_run {identity : NodeIdentity H} {node : RetentionNode H}
    (hcontent : node.state.ContentAddressed) (events : List (RetentionEvent H)) :
    (node.run identity events).state.ContentAddressed := by
  induction events generalizing node with
  | nil => exact hcontent
  | cons event rest ih => exact ih (contentAddressed_step hcontent event)

end RetentionNode

/-- Two trees have the same root exactly when their entries are permutations. In every state a node
reaches, a rotation is skipped exactly when the advertised commitment already commits to the keys at
hand, and a signed commitment is reloaded only with a tree over the keys it was signed for. -/
theorem root_identifies_committed_set (hashes : SeparateHashes H) :
    (∀ (entries entries' : List (H × H)) (tree tree' : MerkleTree H),
      MerkleTree.build entries = .ok tree → MerkleTree.build entries' = .ok tree' →
        (tree.root = tree'.root ↔ entries.Perm entries')) ∧
    (∀ (identity : NodeIdentity H) (clock : Clock) (events : List (RetentionEvent H)) (now : Nat)
      (storedKeys : List H) (isResponsible : H → Bool) (randomness : Nat) (tree : MerkleTree H),
      MerkleTree.build (((storedKeys.filter isResponsible).take maxCommitmentKeyCount).map
        fun key => (key, key)) = .ok tree →
      let state := ((RetentionNode.fresh clock).run identity events).state
      let keys := (storedKeys.filter isResponsible).take maxCommitmentKeyCount
      let rotation :=
        rebuildAndRotateCommitment identity state now storedKeys isResponsible randomness
      (Advertises state keys → rotation = .ok (state.ageOut now)) ∧
      (¬ Advertises state keys → rotation = (BuiltCommitment.buildFromTree tree identity.peerId
        identity.publicKey (identity.sign randomness)).map fun built => state.rotate built now)) ∧
    ∀ (entries entries' : List (H × H)) (peerId : H) (publicKey : Bytes)
      (sign : H → Nat → H → Bytes → Except (CommitmentError H) Bytes)
      (signed restored : BuiltCommitment H) (tree' : MerkleTree H),
      BuiltCommitment.build entries peerId publicKey sign = .ok signed →
      MerkleTree.build entries' = .ok tree' →
      BuiltCommitment.fromPersisted signed.commitment tree' = some restored →
      entries'.Perm entries := by
  refine ⟨fun entries entries' tree tree' hbuild hbuild' =>
    MerkleTree.root_eq_iff_perm hashes hbuild hbuild', ?_, ?_⟩
  · intro identity clock events now storedKeys isResponsible randomness tree hbuild
    have hcontent : ((RetentionNode.fresh clock).run identity events).state.ContentAddressed :=
      RetentionNode.contentAddressed_run (fun _ hbuilt => absurd hbuilt List.not_mem_nil) events
    have hguard := guard_iff_advertises hashes hcontent hbuild
    dsimp only
    rw [rebuildAndRotateCommitment_of_build _ now randomness hbuild]
    exact ⟨fun hsame => if_pos (hguard.mpr hsame), fun hchanged => if_neg fun hg =>
      hchanged (hguard.mp hg)⟩
  · intro entries entries' peerId publicKey sign signed restored tree' hsigned hbuild' hrestored
    obtain ⟨tree, hbuild, hsigned⟩ := Fallible.bind_eq_ok_iff.mp hsigned
    obtain ⟨hcommitment, hrestoredTree⟩ := BuiltCommitment.fromPersisted_eq_some hrestored
    have hroot : tree'.root = tree.root := by
      rw [← hrestoredTree, restored.root_eq, hcommitment, ← signed.root_eq,
        (BuiltCommitment.buildFromTree_eq_ok hsigned).1]
    exact (MerkleTree.root_eq_iff_perm hashes hbuild' hbuild).mp hroot

/-! ### Three keys and four -/

open RetentionNode Transcript

def threeKeys : List Transcript := [⟨[1]⟩, ⟨[2]⟩, ⟨[3]⟩]

def fourKeys : List Transcript := [⟨[1]⟩, ⟨[2]⟩, ⟨[3]⟩, ⟨[4]⟩]

theorem exists_build (keys : List Transcript) (hne : keys ≠ [])
    (hlen : keys.length ≤ maxCommitmentKeyCount) (hnodup : keys.Nodup) :
    ∃ tree, MerkleTree.build (keys.map fun key => (key, key)) = .ok tree :=
  MerkleTree.build_eq_ok_iff.mpr
    ⟨by simpa using hne, by simpa using hlen, by simpa [Function.comp_def] using hnodup⟩

theorem exists_signed (tree : MerkleTree Transcript) :
    ∃ built, BuiltCommitment.buildFromTree tree copyingIdentity.peerId copyingIdentity.publicKey
        (copyingIdentity.sign 0) = .ok built ∧
      verifyCommitmentSignature built.commitment = true ∧ built.tree = tree :=
  ⟨⟨_, _, tree, rfl, rfl, rfl⟩, rfl, decide_eq_true rfl, rfl⟩

theorem advertises_rotate {keys : List Transcript} {tree : MerkleTree Transcript}
    {built : BuiltCommitment Transcript}
    (hbuild : MerkleTree.build (keys.map fun key => (key, key)) = .ok tree)
    (htree : built.tree = tree) (now : Nat) :
    Advertises (ResponderCommitmentState.new.rotate built now) keys := by
  have hcontent : built.ContentAddressed := by
    rw [BuiltCommitment.ContentAddressed, htree]
    exact MerkleTree.contentAddressed_of_build hbuild
  refine ⟨built, rfl, (root_eq_iff_same_keys separateHashes hcontent hbuild).mp ?_⟩
  rw [← built.root_eq, htree]

/-- The last of three leaves is paired with itself, and the root is still not that of four. A node
that advertises the three keys skips the rotation over them in another order and rotates over the
four; its commitment is reloaded with a tree over the three and with no tree over the four. -/
theorem root_identifies_committed_set_threeFour :
    ∃ (tree tree' : MerkleTree Transcript) (built built' : BuiltCommitment Transcript),
      MerkleTree.build (threeKeys.reverse.map fun key => (key, key)) = .ok tree ∧
      MerkleTree.build (fourKeys.map fun key => (key, key)) = .ok tree' ∧
      tree.root ≠ tree'.root ∧
      ((fresh ⟨100, 1000 * nanosPerSec⟩).run copyingIdentity
        [.rotate threeKeys (fun _ => true) 0]).state = .rotate .new built 100 ∧
      rebuildAndRotateCommitment copyingIdentity (.rotate .new built 100) 200 threeKeys.reverse
        (fun _ => true) 0 = .ok (.ageOut (.rotate .new built 100) 200) ∧
      rebuildAndRotateCommitment copyingIdentity (.rotate .new built 100) 200 fourKeys
        (fun _ => true) 0 = .ok (.rotate (.rotate .new built 100) built' 200) ∧
      BuiltCommitment.fromPersisted built.commitment tree = some built ∧
      BuiltCommitment.fromPersisted built.commitment tree' = none := by
  obtain ⟨hroot, hguard, hreload⟩ := root_identifies_committed_set Transcript.separateHashes
  have hguard := hguard copyingIdentity ⟨100, 1000 * nanosPerSec⟩
  obtain ⟨tree, hbuild⟩ := exists_build threeKeys (by decide) (by decide) (by decide)
  obtain ⟨reversed, hreversed⟩ := exists_build threeKeys.reverse (by decide) (by decide) (by decide)
  obtain ⟨tree', hbuild'⟩ := exists_build fourKeys (by decide) (by decide) (by decide)
  obtain ⟨built, hbuilt, hsigned, rfl⟩ := exists_signed tree
  obtain ⟨built', hbuilt', -, -⟩ := exists_signed tree'
  have hlonger : ¬(threeKeys.map fun key => (key, key)).Perm (fourKeys.map fun key => (key, key)) :=
    fun hperm => absurd hperm.length_eq (by decide)
  obtain rfl : reversed = built.tree := MerkleTree.eq_of_root Transcript.separateHashes
    ((hroot _ _ _ _ hreversed hbuild).mpr (threeKeys.reverse_perm.map _))
  have hfirst : rebuildAndRotateCommitment copyingIdentity .new 100 threeKeys (fun _ => true) 0 =
      .ok (.rotate .new built 100) :=
    ((hguard [] 100 threeKeys (fun _ => true) 0 _ hbuild).2 (by rintro ⟨current, ⟨⟩, -⟩)).trans
      (congrArg (Except.map _) hbuilt)
  have hrun : ((fresh ⟨100, 1000 * nanosPerSec⟩).run copyingIdentity
      [.rotate threeKeys (fun _ => true) 0]).state = .rotate .new built 100 :=
    congrArg RetentionNode.state (step_rotate_of_ok hfirst)
  have hguard := hguard [.rotate threeKeys (fun _ => true) 0] 200
  rw [hrun] at hguard
  have hskip := (hguard threeKeys.reverse (fun _ => true) 0 _ hreversed).1
    (advertises_rotate hreversed rfl 100)
  have hchanged : ¬Advertises (.rotate .new built 100) fourKeys := by
    rintro ⟨current, hcurrent, hkeys⟩
    obtain ⟨_, hcurrent', hkeys'⟩ := advertises_rotate hbuild rfl 100
    obtain rfl := Option.some.inj (hcurrent.symm.trans hcurrent')
    exact absurd ((hkeys' ⟨[4]⟩).mp ((hkeys ⟨[4]⟩).mpr (by decide))) (by decide)
  have hrotate := (hguard fourKeys (fun _ => true) 0 _ hbuild').2 hchanged
  have hreloaded := BuiltCommitment.fromPersisted_self hsigned
  have hrefused : BuiltCommitment.fromPersisted built.commitment tree' = none := by
    rw [Option.eq_none_iff_forall_ne_some]
    intro restored hrestored
    refine hlonger (hreload _ _ copyingIdentity.peerId copyingIdentity.publicKey
      (copyingIdentity.sign 0) built restored tree' ?_ hbuild' hrestored).symm
    exact Fallible.bind_eq_ok_iff.mpr ⟨_, hbuild, hbuilt⟩
  exact ⟨_, tree', built, built', hreversed, hbuild', fun heq => hlonger ((hroot _ _ _ _ hbuild
    hbuild').mp heq), hrun, hskip, hrotate.trans (congrArg (Except.map _) hbuilt'), hreloaded,
    hrefused⟩

end AntNode
