import AntNode.CommitmentState
import AntNode.Lib.MoveToFront
import AntNode.Proof.MerkleTree
import AntNode.Transcript

/-!
# Emitted commitments stay answerable

Handing out a commitment stamps its hash for one answerability window. `Answerable` is what that
buys: the slot is there, and its stamp is, with only hashes stamped since in front of it. Enforcing
retention keeps both until the deadline, and stamping keeps both while fewer than
`MAX_RETAINED_GOSSIPED_SLOTS` other hashes are in front, since the list is cut at its end.
-/

namespace AntNode

open LeftPacked

variable {H : Type} [Digest H]

namespace MerkleTree

theorem ext_leaves {tree tree' : MerkleTree H} (hleaves : tree.leaves = tree'.leaves) :
    tree = tree' := by
  obtain ⟨leaves, levels, hne, hlen, hsorted, hbound, hlevels⟩ := tree
  obtain ⟨leaves', levels', hne', hlen', hsorted', hbound', hlevels'⟩ := tree'
  dsimp only at hleaves
  subst hleaves
  subst hlevels hlevels'
  rfl

theorem containsKey_iff {tree : MerkleTree H} {key : H} :
    tree.containsKey key = true ↔ key ∈ tree.leafKeys := by
  simp [containsKey, keyIndex, leafKeys, List.findIdx?_isSome]

theorem eq_of_root_eq (hleaf : Function.Injective2 (leafHash (H := H)))
    (hnode : Function.Injective2 (nodeHash (H := H))) {tree tree' : MerkleTree H}
    (hroot : tree.root = tree'.root) (hcount : tree.keyCount = tree'.keyCount) : tree = tree' := by
  rw [root_eq, root_eq] at hroot
  have hhashes : tree.leafHashes = tree'.leafHashes :=
    merkleRoot_inj hnode (by rw [length_leafHashes, length_leafHashes, hcount])
      tree'.leafHashes_ne_nil hroot
  refine ext_leaves (List.ext_getElem hcount fun i hi hi' => ?_)
  obtain ⟨bytesHash, hbound⟩ := tree.leaf_bound _ (List.getElem_mem hi)
  obtain ⟨bytesHash', hbound'⟩ := tree'.leaf_bound _ (List.getElem_mem hi')
  have hsnd : tree.leaves[i].2 = tree'.leaves[i].2 := by
    have hget := congrArg (fun hashes => hashes[i]?) hhashes
    simpa [leafHashes, hi, hi'] using hget
  exact Prod.ext (hleaf (hbound.symm.trans (hsnd.trans hbound'))).1 hsnd

end MerkleTree

variable [CommitmentProtocol H]

/-- No two leaves, nodes or commitments share a hash. -/
structure CollisionFree (H : Type) [Digest H] [CommitmentProtocol H] : Prop where
  leafHash : Function.Injective2 (leafHash (H := H))
  nodeHash : Function.Injective2 (nodeHash (H := H))
  commitmentHash : ∀ (c c' : StorageCommitment H) (pin : H),
    commitmentHash c = some pin → commitmentHash c' = some pin → c = c'

theorem Transcript.collisionFree : CollisionFree Transcript :=
  ⟨leafHash_injective, nodeHash_injective, fun _ _ _ => commitmentHash_injective⟩

theorem BuiltCommitment.tree_eq_of_cachedHash_eq (hfree : CollisionFree H)
    {built built' : BuiltCommitment H} (hhash : built.cachedHash = built'.cachedHash) :
    built.tree = built'.tree := by
  have hcommitment : built.commitment = built'.commitment :=
    hfree.commitmentHash _ _ _ built.hash_eq (hhash ▸ built'.hash_eq)
  refine MerkleTree.eq_of_root_eq hfree.leafHash hfree.nodeHash ?_ ?_
  · rw [built.root_eq, built'.root_eq, hcommitment]
  · rw [built.keyCount_eq, built'.keyCount_eq, hcommitment]

namespace ResponderCommitmentState

/-! ### Enforcing retention -/

theorem retainSlots_cons (hasCurrent : Bool) (live : List H) (first : BuiltCommitment H)
    (rest : List (BuiltCommitment H)) :
    retainSlots hasCurrent live (first :: rest) =
      (if hasCurrent || live.contains first.cachedHash then [first] else [])
        ++ rest.filter fun built => live.contains built.cachedHash := by
  have hfilter : (rest.zipIdx 1).filter (fun slot =>
        (hasCurrent && slot.2 == 0) || live.contains slot.1.cachedHash)
      = (rest.zipIdx 1).filter ((fun built => live.contains built.cachedHash) ∘ Prod.fst) := by
    apply List.filter_congr
    intro slot hslot
    have hidx : slot.2 ≠ 0 := by
      have := List.le_snd_of_mem_zipIdx hslot
      omega
    simp [hidx]
  have hrest : ((rest.zipIdx 1).filter fun slot =>
        (hasCurrent && slot.2 == 0) || live.contains slot.1.cachedHash).map Prod.fst
      = rest.filter fun built => live.contains built.cachedHash := by
    rw [hfilter, ← List.filter_map, List.zipIdx_map_fst]
  rw [retainSlots, List.zipIdx_cons, List.filter_cons]
  simp only [beq_self_eq_true, Bool.and_true, Nat.zero_add]
  split
  · rw [List.map_cons, hrest, List.singleton_append]
  · rw [hrest, List.nil_append]

theorem retainSlots_sublist (hasCurrent : Bool) (live : List H)
    (slots : List (BuiltCommitment H)) : (retainSlots hasCurrent live slots).Sublist slots := by
  have hsub : (retainSlots hasCurrent live slots).Sublist (slots.zipIdx.map Prod.fst) :=
    List.filter_sublist.map Prod.fst
  rwa [List.zipIdx_map_fst] at hsub

theorem mem_retainSlots {hasCurrent : Bool} {live : List H} {slots : List (BuiltCommitment H)}
    {built : BuiltCommitment H} (hmem : built ∈ slots) (hlive : built.cachedHash ∈ live) :
    built ∈ retainSlots hasCurrent live slots := by
  cases slots with
  | nil => simp at hmem
  | cons first rest =>
      rw [retainSlots_cons]
      rcases List.mem_cons.mp hmem with rfl | hmem
      · simp [hlive]
      · exact List.mem_append_right _ (List.mem_filter.mpr ⟨hmem, by simpa using hlive⟩)

/-- A slot is kept for its stamp or as the advertised one. -/
theorem mem_live_or_head?_of_mem_retainSlots {hasCurrent : Bool} {live : List H}
    {slots : List (BuiltCommitment H)} {built : BuiltCommitment H}
    (hmem : built ∈ retainSlots hasCurrent live slots) :
    built.cachedHash ∈ live ∨ hasCurrent = true ∧ slots.head? = some built := by
  cases slots with
  | nil => cases hmem
  | cons first rest =>
      rw [retainSlots_cons] at hmem
      rcases List.mem_append.mp hmem with hfirst | hrest
      · split_ifs at hfirst with hkeep
        · obtain rfl : built = first := List.mem_singleton.mp hfirst
          rcases Bool.or_eq_true_iff.mp hkeep with hcurrent | hlive
          · exact .inr ⟨hcurrent, rfl⟩
          · exact .inl (by simpa using hlive)
        · cases hfirst
      · exact .inl (by simpa using (List.mem_filter.mp hrest).2)

theorem find?_retainSlots {hasCurrent : Bool} {live : List H} {hash : H} (hlive : hash ∈ live)
    (slots : List (BuiltCommitment H)) :
    (retainSlots hasCurrent live slots).find? (fun built => decide (built.cachedHash = hash))
      = slots.find? fun built => decide (built.cachedHash = hash) := by
  cases slots with
  | nil => rfl
  | cons first rest =>
      have hrest : (rest.filter fun built => live.contains built.cachedHash).find?
            (fun built => decide (built.cachedHash = hash))
          = rest.find? fun built => decide (built.cachedHash = hash) := by
        rw [List.find?_filter]
        congr 1
        funext built
        by_cases heq : built.cachedHash = hash
        · subst heq
          simpa using hlive
        · simp [heq]
      rw [retainSlots_cons, List.find?_append, hrest, List.find?_cons]
      by_cases heq : first.cachedHash = hash
      · subst heq
        simp [hlive]
      · split <;> simp [heq]

theorem pruneSlots_slots_sublist (inner : ResponderCommitmentState H) (now : Nat) :
    (inner.pruneSlots now).slots.Sublist inner.slots :=
  retainSlots_sublist _ _ _

theorem current_pruneSlots (inner : ResponderCommitmentState H) (now : Nat) :
    (inner.pruneSlots now).current = inner.current := by
  have hflag : (inner.pruneSlots now).hasCurrent
      = (inner.hasCurrent && !(inner.pruneSlots now).slots.isEmpty) := rfl
  have hretain : (inner.pruneSlots now).slots = retainSlots inner.hasCurrent
      ((inner.pruneSlots now).recentlyGossiped.map GossipedAt.hash) inner.slots := rfl
  rw [current, current, hflag, hretain]
  cases inner.hasCurrent with
  | false => rfl
  | true =>
      cases inner.slots with
      | nil => rfl
      | cons first rest =>
          rw [retainSlots_cons]
          rfl

theorem mem_pruneSlots {inner : ResponderCommitmentState H} {now : Nat}
    {built : BuiltCommitment H} (hmem : built ∈ inner.slots) {g : GossipedAt H}
    (hg : g ∈ inner.recentlyGossiped) (hhash : g.hash = built.cachedHash)
    (hlive : now < g.expiresAt) : built ∈ (inner.pruneSlots now).slots := by
  refine mem_retainSlots hmem (List.mem_map.mpr ⟨g, List.mem_filter.mpr ⟨hg, ?_⟩, hhash⟩)
  simpa using hlive

/-! ### Runs -/

inductive Op (H : Type) [Digest H] [CommitmentProtocol H] where
  | rotate (newCurrent : BuiltCommitment H)
  | retireCurrent
  | markGossiped (hash : H)
  | currentForGossip
  | currentForQuote
  | ageOut

structure Call (H : Type) [Digest H] [CommitmentProtocol H] where
  now : Nat
  op : Op H

def call (state : ResponderCommitmentState H) (c : Call H) :
    ResponderCommitmentState H × Option (BuiltCommitment H) :=
  match c.op with
  | .rotate newCurrent => (state.rotate newCurrent c.now, none)
  | .retireCurrent => (state.retireCurrent c.now, none)
  | .markGossiped hash => (state.markGossiped hash c.now, none)
  | .currentForGossip => state.currentForGossip c.now
  | .currentForQuote => state.currentForQuote c.now
  | .ageOut => (state.ageOut c.now, none)

def stampedBy (state : ResponderCommitmentState H) (c : Call H) : Option H :=
  match c.op with
  | .markGossiped hash => some hash
  | .currentForGossip | .currentForQuote => state.current.map BuiltCommitment.cachedHash
  | _ => none

def run (state : ResponderCommitmentState H) : List (Call H) → ResponderCommitmentState H
  | [] => state
  | c :: rest => run (state.call c).1 rest

def stamps (state : ResponderCommitmentState H) : List (Call H) → List (Nat × H)
  | [] => []
  | c :: rest =>
      (state.stampedBy c).toList.map (fun hash => (c.now, hash)) ++ stamps (state.call c).1 rest

theorem run_append (state : ResponderCommitmentState H) (before after : List (Call H)) :
    state.run (before ++ after) = (state.run before).run after := by
  induction before generalizing state with
  | nil => rfl
  | cons c rest ih => exact ih (state.call c).1

/-! ### What a stamp buys -/

/-- `built` is retained, stamped to expire no earlier than `deadline`, and only hashes of `seen` are
stamped in front of it. -/
structure Answerable (state : ResponderCommitmentState H) (built : BuiltCommitment H)
    (deadline : Nat) (seen : Finset H) : Prop where
  mem_slots : built ∈ state.slots
  stamped : MoveToFront.Within GossipedAt.hash (fun g => deadline ≤ g.expiresAt) built.cachedHash
    seen state.recentlyGossiped

namespace Answerable

variable {state : ResponderCommitmentState H} {built : BuiltCommitment H} {deadline : Nat}
  {seen : Finset H}

theorem pruneSlots (hans : Answerable state built deadline seen) {now : Nat}
    (hnow : now < deadline) : Answerable (state.pruneSlots now) built deadline seen := by
  obtain ⟨g, hg, hhash, hlive⟩ := hans.stamped.mem
  exact ⟨mem_pruneSlots hans.mem_slots hg hhash (by omega),
    hans.stamped.filter fun y _ hy => by simpa using lt_of_lt_of_le hnow hy⟩

theorem markGossiped_of_ne (hans : Answerable state built deadline seen) {now : Nat} {hash : H}
    (hnow : now < deadline) (hne : hash ≠ built.cachedHash)
    (hcard : (insert hash seen).card < maxRetainedGossipedSlots) :
    Answerable (state.markGossipedLocked hash now) built deadline (insert hash seen) := by
  have hpush : Answerable { state with
      recentlyGossiped := MoveToFront.push GossipedAt.hash maxRetainedGossipedSlots
        ⟨hash, now + gossipAnswerabilityTtl⟩ state.recentlyGossiped } built deadline
      (insert hash seen) :=
    ⟨hans.mem_slots, hans.stamped.push_of_ne (x := ⟨hash, now + gossipAnswerabilityTtl⟩) hne hcard⟩
  exact hpush.pruneSlots hnow

theorem markGossiped_self (hmem : built ∈ state.slots) {now : Nat}
    (hdeadline : deadline ≤ now + gossipAnswerabilityTtl) (hnow : now < deadline) :
    Answerable (state.markGossipedLocked built.cachedHash now) built deadline seen := by
  have hpush : Answerable { state with
      recentlyGossiped := MoveToFront.push GossipedAt.hash maxRetainedGossipedSlots
        ⟨built.cachedHash, now + gossipAnswerabilityTtl⟩ state.recentlyGossiped } built deadline
      seen :=
    ⟨hmem, MoveToFront.within_push_self (by decide) rfl hdeadline⟩
  exact hpush.pruneSlots hnow

theorem markGossiped (hans : Answerable state built deadline seen) {now : Nat} {hash : H}
    (hnow : now < deadline) (hdeadline : deadline ≤ now + gossipAnswerabilityTtl)
    (hcard : (seen ∪ ({hash} : Finset H).erase built.cachedHash).card < maxRetainedGossipedSlots) :
    Answerable (state.markGossipedLocked hash now) built deadline
      (seen ∪ ({hash} : Finset H).erase built.cachedHash) := by
  by_cases hself : hash = built.cachedHash
  · subst hself
    exact markGossiped_self hans.mem_slots hdeadline hnow
  · have hseen : seen ∪ ({hash} : Finset H).erase built.cachedHash = insert hash seen := by
      rw [Finset.erase_eq_of_notMem (by simpa using Ne.symm hself), Finset.union_comm,
        Finset.singleton_union]
    rw [hseen] at hcard ⊢
    exact hans.markGossiped_of_ne hnow hself hcard

theorem rotate (hans : Answerable state built deadline seen) {now : Nat} (hnow : now < deadline)
    (newCurrent : BuiltCommitment H) :
    Answerable (state.rotate newCurrent now) built deadline seen := by
  have hadd : Answerable { state with slots := newCurrent :: state.slots, hasCurrent := true }
      built deadline seen := ⟨List.mem_cons_of_mem _ hans.mem_slots, hans.stamped⟩
  exact hadd.pruneSlots hnow

theorem retireCurrent (hans : Answerable state built deadline seen) {now : Nat}
    (hnow : now < deadline) : Answerable (state.retireCurrent now) built deadline seen := by
  have hretire : Answerable { state with hasCurrent := false } built deadline seen :=
    ⟨hans.mem_slots, hans.stamped⟩
  exact hretire.pruneSlots hnow

/-- One step: a call before the deadline keeps a commitment answerable, with the hash it stamps
added in front. -/
theorem call (hans : Answerable state built deadline seen) {c : Call H} (hnow : c.now < deadline)
    (hdeadline : deadline ≤ c.now + gossipAnswerabilityTtl)
    (hcard : (seen ∪ (state.stampedBy c).toList.toFinset.erase built.cachedHash).card
      < maxRetainedGossipedSlots) :
    Answerable (state.call c).1 built deadline
      (seen ∪ (state.stampedBy c).toList.toFinset.erase built.cachedHash) := by
  obtain ⟨now, op⟩ := c
  have hemit : (seen ∪ (state.current.map BuiltCommitment.cachedHash).toList.toFinset.erase
        built.cachedHash).card < maxRetainedGossipedSlots →
      Answerable (state.snapshotAndStamp now).1 built deadline
        (seen ∪ (state.current.map BuiltCommitment.cachedHash).toList.toFinset.erase
          built.cachedHash) := by
    intro hcard
    unfold snapshotAndStamp
    cases hcurrent : state.current with
    | none => simpa using hans
    | some first =>
        simp only [hcurrent, Option.map_some, Option.toList_some, List.toFinset_cons,
          List.toFinset_nil, insert_empty_eq] at hcard ⊢
        exact hans.markGossiped hnow hdeadline hcard
  cases op with
  | rotate newCurrent =>
      simpa [stampedBy, ResponderCommitmentState.call] using hans.rotate hnow newCurrent
  | retireCurrent =>
      simpa [stampedBy, ResponderCommitmentState.call] using hans.retireCurrent hnow
  | markGossiped hash =>
      simp only [stampedBy, Option.toList_some, List.toFinset_cons, List.toFinset_nil,
        insert_empty_eq] at hcard ⊢
      exact hans.markGossiped hnow hdeadline hcard
  | currentForGossip => exact hemit hcard
  | currentForQuote => exact hemit hcard
  | ageOut =>
      simpa [stampedBy, ResponderCommitmentState.call, ageOut] using hans.pruneSlots hnow

theorem run (hans : Answerable state built deadline seen) {calls : List (Call H)}
    (hnow : ∀ c ∈ calls, c.now < deadline)
    (hdeadline : ∀ c ∈ calls, deadline ≤ c.now + gossipAnswerabilityTtl)
    (hcard : (seen ∪ ((state.stamps calls).map Prod.snd).toFinset.erase built.cachedHash).card
      < maxRetainedGossipedSlots) :
    ∃ seen, Answerable (state.run calls) built deadline seen := by
  induction calls generalizing state seen with
  | nil => exact ⟨seen, hans⟩
  | cons c rest ih =>
      have hown : ((state.stampedBy c).toList.map fun hash => (c.now, hash)).map Prod.snd
          = (state.stampedBy c).toList := by
        rw [List.map_map]
        exact List.map_id _
      rw [stamps, List.map_append, hown, List.toFinset_append, Finset.erase_union_distrib,
        ← Finset.union_assoc] at hcard
      have hstep := hans.call (hnow c (by simp)) (hdeadline c (by simp))
        (lt_of_le_of_lt (Finset.card_le_card Finset.subset_union_left) hcard)
      exact ih hstep (fun c' hc' => hnow c' (by simp [hc']))
        (fun c' hc' => hdeadline c' (by simp [hc'])) hcard

theorem isSome_lookupByHash (hmem : built ∈ state.slots) :
    ∃ found, state.lookupByHash built.cachedHash = some found ∧
      found.cachedHash = built.cachedHash := by
  obtain ⟨found, hfound⟩ := Option.isSome_iff_exists.mp
    (List.find?_isSome.mpr ⟨built, hmem, by simp⟩ :
      (state.lookupByHash built.cachedHash).isSome = true)
  exact ⟨found, hfound, by simpa using List.find?_some hfound⟩

end Answerable

theorem mem_slots_of_current {state : ResponderCommitmentState H} {built : BuiltCommitment H}
    (hcurrent : state.current = some built) : built ∈ state.slots := by
  unfold current at hcurrent
  split at hcurrent
  · exact List.mem_of_mem_head? hcurrent
  · cases hcurrent

theorem answerable_of_emitted {state : ResponderCommitmentState H} {built : BuiltCommitment H}
    {c : Call H} (hemit : c.op = .currentForGossip ∨ c.op = .currentForQuote)
    (hreturned : (state.call c).2 = some built) :
    Answerable (state.call c).1 built (c.now + gossipAnswerabilityTtl) ∅ := by
  obtain ⟨now, op⟩ := c
  have hcall : state.call ⟨now, op⟩ = state.snapshotAndStamp now := by
    rcases hemit with rfl | rfl <;> rfl
  rw [hcall] at hreturned ⊢
  unfold snapshotAndStamp at hreturned ⊢
  cases hcurrent : state.current with
  | none => simp [hcurrent] at hreturned
  | some first =>
      obtain rfl : first = built := by simpa [hcurrent] using hreturned
      exact Answerable.markGossiped_self (mem_slots_of_current hcurrent) le_rfl
        (Nat.lt_add_of_pos_right (by decide))

/-- **Emitted commitments stay answerable.** A commitment that `current_for_gossip` or
`current_for_quote` returned at `t` is found by its hash, with its tree, and each of its keys is
held, at every `t' < t + GOSSIP_ANSWERABILITY_TTL`, provided the calls after the emission stamped
fewer than `MAX_RETAINED_GOSSIPED_SLOTS` other hashes. -/
theorem emitted_stays_answerable (hfree : CollisionFree H) {before after : List (Call H)}
    {c : Call H} {built : BuiltCommitment H} (t' : Nat)
    (hclock : (before ++ c :: after).Pairwise fun a b => a.now ≤ b.now)
    (hemit : c.op = .currentForGossip ∨ c.op = .currentForQuote)
    (hreturned : ((new.run before).call c).2 = some built)
    (hlater : ∀ c' ∈ after, c'.now ≤ t') (hwindow : t' < c.now + gossipAnswerabilityTtl)
    (hfew : (((((new.run before).call c).1.stamps after).map Prod.snd).toFinset.erase
      built.cachedHash).card < maxRetainedGossipedSlots) :
    (∃ found, (new.run (before ++ c :: after)).lookupByHash built.cachedHash = some found ∧
        found.tree = built.tree) ∧
      ∀ key ∈ built.leafKeys, (new.run (before ++ c :: after)).isHeld key = true := by
  have hafter : ∀ c' ∈ after, c.now ≤ c'.now :=
    (List.pairwise_cons.mp (List.pairwise_append.mp hclock).2.1).1
  obtain ⟨seen, hans⟩ := (answerable_of_emitted hemit hreturned).run
    (fun c' hc' => lt_of_le_of_lt (hlater c' hc') hwindow)
    (fun c' hc' => Nat.add_le_add_right (hafter c' hc') _)
    (by rwa [Finset.empty_union])
  have hrun : new.run (before ++ c :: after) = ((new.run before).call c).1.run after :=
    run_append new before (c :: after)
  rw [hrun]
  refine ⟨?_, fun key hkey => ?_⟩
  · obtain ⟨found, hfound, hhash⟩ := Answerable.isSome_lookupByHash hans.mem_slots
    exact ⟨found, hfound, BuiltCommitment.tree_eq_of_cachedHash_eq hfree hhash⟩
  · exact List.any_eq_true.mpr ⟨built, hans.mem_slots, MerkleTree.containsKey_iff.mpr hkey⟩

open Transcript in
theorem emitted_stays_answerable_rotated :
    let calls : List (Call Transcript) := [⟨0, .rotate (solo ⟨[1]⟩)⟩]
    let after : List (Call Transcript) := [⟨nanosPerSec, .rotate (solo ⟨[2]⟩)⟩,
      ⟨2 * nanosPerSec, .currentForQuote⟩]
    let final := new.run (calls ++ ⟨0, .currentForGossip⟩ :: after)
    (∃ found, final.lookupByHash (solo ⟨[1]⟩).cachedHash = some found ∧
        found.tree = (solo ⟨[1]⟩).tree) ∧
      ∀ key ∈ (solo ⟨[1]⟩).leafKeys, final.isHeld key = true :=
  emitted_stays_answerable collisionFree (3600 * nanosPerSec) (by decide) (.inl rfl) (by rfl)
    (by decide) (by decide) (by decide +kernel)

open Transcript in
/-- **Stamps of the same instant count too.** Sixteen other hashes stamped at the instant of the
emission, none in `(t, t']`, push the emitted hash out, and the next rotation drops the slot. -/
theorem emitted_lost_at_same_instant :
    let after : List (Call Transcript) :=
      (List.range 16).map (fun i => ⟨0, .markGossiped ⟨[UInt8.ofNat i]⟩⟩) ++
        [⟨1, .rotate (solo ⟨[2]⟩)⟩]
    let emitted := (new.run [⟨0, .rotate (solo ⟨[1]⟩)⟩]).call ⟨0, .currentForGossip⟩
    emitted.2.map BuiltCommitment.cachedHash = some (solo ⟨[1]⟩).cachedHash ∧
      (after.Pairwise fun a b => a.now ≤ b.now) ∧
      ((emitted.1.stamps after).filter fun stamp => decide (0 < stamp.1)) = [] ∧
      ((emitted.1.run after).lookupByHash (solo ⟨[1]⟩).cachedHash).isNone = true := by
  decide +kernel

end ResponderCommitmentState

end AntNode
