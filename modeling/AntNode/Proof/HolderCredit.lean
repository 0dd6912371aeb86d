import AntNode.Lib.MoveToFront
import AntNode.RecentProvers
import AntNode.Transcript

/-!
# Who is credited as a holder

A bucket is sorted by proof time and a new proof is the latest one, so refreshing an entry and
sorting again moves it to the end, and a full bucket loses the entry whose last proof is oldest.
Read from its end a bucket is therefore a bounded move-to-front list: what keeps an entry in it is
how many other pairs were recorded since.
-/

namespace AntNode

variable {H : Type} [Digest H]

def ProverEntry.pair (e : ProverEntry H) : H × H := (e.peerId, e.commitmentHash)

namespace RecentProvers

inductive Op (H : Type) where
  | recordProof (key peerId commitmentHash : H) (provedAt : Nat)
  | sweepExpired (now : Nat)
  | forgetPeer (peerId : H)
  | forgetCommitment (staleHash : H)
  deriving DecidableEq

def call (provers : RecentProvers H) : Op H → RecentProvers H
  | .recordProof key peerId commitmentHash provedAt =>
      provers.recordProof key peerId commitmentHash provedAt
  | .sweepExpired now => provers.sweepExpired now
  | .forgetPeer peerId => provers.forgetPeer peerId
  | .forgetCommitment staleHash => provers.forgetCommitment staleHash

def run (ops : List (Op H)) : RecentProvers H := ops.foldl call new

def Op.provedAt? : Op H → Option Nat
  | .recordProof _ _ _ provedAt => some provedAt
  | _ => none

/-- The pair an operation records for `key`. -/
def Op.recorded? (key : H) : Op H → Option (H × H)
  | .recordProof key' peerId commitmentHash _ =>
      if key' = key then some (peerId, commitmentHash) else none
  | _ => none

def recordedFor (key : H) (ops : List (Op H)) : Finset (H × H) :=
  (ops.filterMap (Op.recorded? key)).toFinset

/-- Every proof is later than those recorded before it. -/
def TimesIncrease (ops : List (Op H)) : Prop := (ops.filterMap Op.provedAt?).Pairwise (· < ·)

/-! ### One bucket -/

structure WellKept (bucket : List (ProverEntry H)) : Prop where
  length_le : bucket.length ≤ maxProversPerKey
  sorted : bucket.Pairwise fun a b => a.provedAt < b.provedAt
  unique : (bucket.map ProverEntry.pair).Nodup

omit [Digest H] in
theorem sortByProvedAt_eq {bucket sorted : List (ProverEntry H)} (hperm : bucket.Perm sorted)
    (hsorted : sorted.Pairwise fun a b => a.provedAt < b.provedAt) :
    sortByProvedAt bucket = sorted := by
  have : Std.Total fun a b : ProverEntry H => a.provedAt ≤ b.provedAt :=
    ⟨fun a b => le_total a.provedAt b.provedAt⟩
  have : IsTrans (ProverEntry H) fun a b => a.provedAt ≤ b.provedAt :=
    ⟨fun a b c => le_trans⟩
  have hperm' : (sortByProvedAt bucket).Perm sorted :=
    (List.perm_insertionSort _ bucket).trans hperm
  have hnodup : (sorted.map ProverEntry.provedAt).Nodup := by
    rw [List.nodup_iff_pairwise_ne, List.pairwise_map]
    exact hsorted.imp ne_of_lt
  refine List.Perm.eq_of_pairwise (fun a b ha hb hab hba => ?_)
    (List.pairwise_insertionSort _ bucket) (hsorted.imp le_of_lt) hperm'
  exact List.inj_on_of_nodup_map hnodup (hperm'.subset ha) hb (le_antisymm hab hba)

variable {key peerId commitmentHash : H} {provedAt : Nat} {bucket : List (ProverEntry H)}

/-- What `refresh` does to a bucket without duplicates, up to the order of its entries. -/
theorem refresh_spec (peerId commitmentHash : H) (provedAt : Nat)
    (hunique : (bucket.map ProverEntry.pair).Nodup) :
    match refresh peerId commitmentHash provedAt bucket with
    | none => ∀ e ∈ bucket, e.pair ≠ (peerId, commitmentHash)
    | some refreshed => (∃ e ∈ bucket, e.pair = (peerId, commitmentHash)) ∧ refreshed.Perm
        (bucket.filter (fun e => decide (e.pair ≠ (peerId, commitmentHash))) ++
          [⟨peerId, provedAt, commitmentHash⟩]) := by
  induction bucket with
  | nil => simp [refresh]
  | cons first rest ih =>
      rw [List.map_cons, List.nodup_cons] at hunique
      have ih := ih hunique.2
      by_cases hfirst : first.peerId = peerId ∧ first.commitmentHash = commitmentHash
      · obtain ⟨rfl, rfl⟩ := hfirst
        have hrest : rest.filter (fun e => decide (e.pair ≠ first.pair)) = rest := by
          refine List.filter_eq_self.mpr fun e he => ?_
          have hne : e.pair ≠ first.pair := fun heq => hunique.1 (heq ▸ List.mem_map_of_mem he)
          simpa using hne
        rw [refresh, if_pos ⟨rfl, rfl⟩]
        refine ⟨⟨first, by simp, rfl⟩, ?_⟩
        have hpair : (first.peerId, first.commitmentHash) = first.pair := rfl
        rw [hpair, List.filter_cons_of_neg (by simp), hrest]
        exact (List.perm_append_singleton _ rest).symm
      · have hne : first.pair ≠ (peerId, commitmentHash) := by
          simpa [ProverEntry.pair, Prod.ext_iff] using hfirst
        rw [refresh, if_neg hfirst]
        cases hrefresh : refresh peerId commitmentHash provedAt rest with
        | none =>
            rw [hrefresh] at ih
            simpa using ⟨hne, ih⟩
        | some refreshed =>
            rw [hrefresh] at ih
            obtain ⟨⟨e, he, hpair⟩, hperm⟩ := ih
            refine ⟨⟨e, by simp [he], hpair⟩, ?_⟩
            rw [List.filter_cons_of_pos (by simpa using hne), List.cons_append]
            exact hperm.cons first

omit [Digest H] in
theorem pairwise_concat_latest {xs : List (ProverEntry H)} {e : ProverEntry H}
    (hsorted : xs.Pairwise fun a b => a.provedAt < b.provedAt)
    (hlatest : ∀ x ∈ xs, x.provedAt < e.provedAt) :
    (xs ++ [e]).Pairwise fun a b => a.provedAt < b.provedAt := by
  rw [List.pairwise_append]
  exact ⟨hsorted, List.pairwise_singleton _ _, fun x hx y hy => by
    obtain rfl := List.mem_singleton.mp hy
    exact hlatest x hx⟩

/-- Recording a proof later than all others moves its pair to the end and drops the entry at the
front of a full bucket. -/
theorem reverse_recordInBucket (peerId commitmentHash : H) (hkept : WellKept bucket)
    (hlatest : ∀ e ∈ bucket, e.provedAt < provedAt) :
    (recordInBucket peerId commitmentHash provedAt bucket).reverse =
      MoveToFront.push ProverEntry.pair maxProversPerKey ⟨peerId, provedAt, commitmentHash⟩
        bucket.reverse := by
  have hspec := refresh_spec peerId commitmentHash provedAt hkept.unique
  rw [recordInBucket, MoveToFront.push, List.filter_reverse]
  cases hrefresh : refresh peerId commitmentHash provedAt bucket with
  | none =>
      rw [hrefresh] at hspec
      have hall : bucket.filter (fun e => decide (e.pair ≠ (peerId, commitmentHash))) = bucket :=
        List.filter_eq_self.mpr fun e he => by simpa using hspec e he
      have hkeep : bucket.filter (fun e => decide
          (e.pair ≠ (⟨peerId, provedAt, commitmentHash⟩ : ProverEntry H).pair)) = bucket := hall
      have hshort : (if maxProversPerKey ≤ bucket.length then bucket.drop 1 else bucket)
          = bucket.drop (bucket.length - 15) := by
        have := hkept.length_le
        unfold maxProversPerKey at *
        split_ifs with hfull
        · rw [show bucket.length - 15 = 1 by omega]
        · rw [show bucket.length - 15 = 0 by omega, List.drop_zero]
      simp only [hshort]
      rw [hkeep, sortByProvedAt_eq (List.Perm.refl _)
        (pairwise_concat_latest (hkept.sorted.sublist (List.drop_sublist _ _))
          fun e he => hlatest e (List.mem_of_mem_drop he)),
        List.reverse_append, show maxProversPerKey = 15 + 1 from rfl, List.take_succ_cons,
        List.take_reverse]
      rfl
  | some refreshed =>
      rw [hrefresh] at hspec
      obtain ⟨⟨e, he, hpair⟩, hperm⟩ := hspec
      have hlt : (bucket.filter fun e => decide (e.pair ≠ (peerId, commitmentHash))).length
          < bucket.length :=
        List.length_filter_lt_length_iff_exists.mpr ⟨e, he, by simpa using hpair⟩
      have hsorted := pairwise_concat_latest (e := ⟨peerId, provedAt, commitmentHash⟩)
        (hkept.sorted.sublist
          (List.filter_sublist (p := fun e => decide (e.pair ≠ (peerId, commitmentHash)))))
        fun e he => hlatest e (List.mem_of_mem_filter he)
      have := hkept.length_le
      rw [List.take_of_length_le (by
        rw [List.length_cons, List.length_reverse]
        exact hlt.trans_le this)]
      change (sortByProvedAt refreshed).reverse = _
      rw [sortByProvedAt_eq hperm hsorted, List.reverse_append]
      rfl

omit [Digest H] in
theorem WellKept.filter (hkept : WellKept bucket) (keep : ProverEntry H → Bool) :
    WellKept (bucket.filter keep) where
  length_le := (List.length_filter_le keep bucket).trans hkept.length_le
  sorted := hkept.sorted.sublist List.filter_sublist
  unique := hkept.unique.sublist (List.filter_sublist.map ProverEntry.pair)

theorem mem_recordInBucket (hkept : WellKept bucket)
    (hlatest : ∀ e ∈ bucket, e.provedAt < provedAt) {e : ProverEntry H}
    (he : e ∈ recordInBucket peerId commitmentHash provedAt bucket) :
    e = ⟨peerId, provedAt, commitmentHash⟩ ∨ e ∈ bucket := by
  rw [← List.mem_reverse, reverse_recordInBucket _ _ hkept hlatest] at he
  rcases List.mem_cons.mp (List.mem_of_mem_take he) with rfl | he
  · exact .inl rfl
  · exact .inr (List.mem_reverse.mp (List.mem_of_mem_filter he))

theorem WellKept.recordInBucket (hkept : WellKept bucket)
    (hlatest : ∀ e ∈ bucket, e.provedAt < provedAt) :
    WellKept (recordInBucket peerId commitmentHash provedAt bucket) := by
  have hpush := reverse_recordInBucket peerId commitmentHash hkept hlatest
  refine ⟨?_, ?_, ?_⟩
  · rw [← List.length_reverse, hpush]
    exact List.length_take_le _ _
  · have hrev : (bucket.reverse.filter fun y => decide (y.pair ≠ (peerId, commitmentHash))).Pairwise
        fun a b => b.provedAt < a.provedAt :=
      (List.pairwise_reverse.mpr hkept.sorted).sublist List.filter_sublist
    rw [← List.reverse_reverse (RecentProvers.recordInBucket _ _ _ _), List.pairwise_reverse, hpush]
    refine List.Pairwise.sublist (List.take_sublist _ _) (List.pairwise_cons.mpr ⟨?_, hrev⟩)
    intro e he
    exact hlatest e (List.mem_reverse.mp (List.mem_of_mem_filter he))
  · have hnodup : (bucket.reverse.map ProverEntry.pair).Nodup := by
      rw [List.map_reverse, List.nodup_reverse]
      exact hkept.unique
    have hpushed : ((MoveToFront.push ProverEntry.pair maxProversPerKey
        ⟨peerId, provedAt, commitmentHash⟩ bucket.reverse).map ProverEntry.pair).Nodup :=
      MoveToFront.nodup_push hnodup
    rwa [← hpush, List.map_reverse, List.nodup_reverse] at hpushed

/-! ### Whole runs -/

/-- The proof behind an entry, not revoked since. -/
def RecordedIn (ops : List (Op H)) (key peerId commitmentHash : H) (provedAt : Nat) : Prop :=
  ∃ before after, ops = before ++ .recordProof key peerId commitmentHash provedAt :: after ∧
    .forgetPeer peerId ∉ after ∧ .forgetCommitment commitmentHash ∉ after

omit [Digest H] in
theorem RecordedIn.concat {ops : List (Op H)} {op : Op H}
    (hrecorded : RecordedIn ops key peerId commitmentHash provedAt)
    (hpeer : op ≠ .forgetPeer peerId) (hhash : op ≠ .forgetCommitment commitmentHash) :
    RecordedIn (ops ++ [op]) key peerId commitmentHash provedAt := by
  obtain ⟨before, after, rfl, hpeers, hhashes⟩ := hrecorded
  exact ⟨before, after ++ [op], by simp, by simp [hpeers, hpeer.symm], by simp [hhashes, hhash.symm]⟩

theorem run_concat (ops : List (Op H)) (op : Op H) : run (ops ++ [op]) = call (run ops) op :=
  List.foldl_concat call new op ops

theorem entries_recordProof_self (provers : RecentProvers H) :
    (call provers (.recordProof key peerId commitmentHash provedAt)).entries key =
      recordInBucket peerId commitmentHash provedAt (provers.entries key) :=
  Function.update_self ..

theorem entries_recordProof_of_ne (provers : RecentProvers H) {key' : H} (hkey : key ≠ key') :
    (call provers (.recordProof key' peerId commitmentHash provedAt)).entries key =
      provers.entries key :=
  Function.update_of_ne hkey ..

/-- What holds of every bucket after a run. -/
structure Sound (ops : List (Op H)) (key : H) (bucket : List (ProverEntry H)) : Prop where
  kept : WellKept bucket
  recorded : ∀ e ∈ bucket, RecordedIn ops key e.peerId e.commitmentHash e.provedAt

omit [Digest H] in
theorem Sound.retain {ops : List (Op H)} {op : Op H} (hsound : Sound ops key bucket)
    {keep : ProverEntry H → Bool}
    (hkeep : ∀ e, keep e = true →
      op ≠ .forgetPeer e.peerId ∧ op ≠ .forgetCommitment e.commitmentHash) :
    Sound (ops ++ [op]) key (bucket.filter keep) where
  kept := hsound.kept.filter keep
  recorded e he := by
    obtain ⟨hmem, hkept⟩ := List.mem_filter.mp he
    exact (hsound.recorded e hmem).concat (hkeep e hkept).1 (hkeep e hkept).2

omit [Digest H] in
theorem TimesIncrease.init {ops : List (Op H)} {op : Op H} (htimes : TimesIncrease (ops ++ [op])) :
    TimesIncrease ops := by
  rw [TimesIncrease, List.filterMap_append, List.pairwise_append] at htimes
  exact htimes.1

omit [Digest H] in
theorem TimesIncrease.lt_last {ops : List (Op H)} {time : Nat}
    (htimes : TimesIncrease (ops ++ [.recordProof key peerId commitmentHash provedAt]))
    (htime : time ∈ ops.filterMap Op.provedAt?) : time < provedAt := by
  rw [TimesIncrease, List.filterMap_append, List.pairwise_append] at htimes
  exact htimes.2.2 time htime provedAt (by simp [Op.provedAt?])

omit [Digest H] in
theorem RecordedIn.provedAt_mem {ops : List (Op H)}
    (hrecorded : RecordedIn ops key peerId commitmentHash provedAt) :
    provedAt ∈ ops.filterMap Op.provedAt? := by
  obtain ⟨before, after, rfl, -⟩ := hrecorded
  exact List.mem_filterMap.mpr ⟨.recordProof key peerId commitmentHash provedAt, by simp, rfl⟩

theorem sound_run {ops : List (Op H)} (htimes : TimesIncrease ops) (key : H) :
    Sound ops key ((run ops).entries key) := by
  induction ops using List.reverseRecOn with
  | nil => exact ⟨⟨by simp [run, new], List.Pairwise.nil, List.nodup_nil⟩, by simp [run, new]⟩
  | append_singleton ops op ih =>
      have ih := ih htimes.init
      rw [run_concat]
      cases op with
      | recordProof key' peerId commitmentHash provedAt =>
          by_cases hkey : key = key'
          · subst hkey
            have hlatest : ∀ e ∈ (run ops).entries key, e.provedAt < provedAt := fun e he =>
              htimes.lt_last (ih.recorded e he).provedAt_mem
            rw [entries_recordProof_self]
            refine ⟨ih.kept.recordInBucket hlatest, fun e he => ?_⟩
            rcases mem_recordInBucket ih.kept hlatest he with rfl | he
            · exact ⟨ops, [], rfl, by simp, by simp⟩
            · exact (ih.recorded e he).concat (by simp) (by simp)
          · rw [entries_recordProof_of_ne _ hkey]
            exact ⟨ih.kept, fun e he => (ih.recorded e he).concat (by simp) (by simp)⟩
      | sweepExpired now => exact ih.retain (by simp)
      | forgetPeer peerId =>
          refine ih.retain fun e he => ⟨?_, by simp⟩
          rintro ⟨⟩
          simp at he
      | forgetCommitment staleHash =>
          refine ih.retain fun e he => ⟨by simp, ?_⟩
          rintro ⟨⟩
          simp at he

/-- No operation since then revoked the pair, and no sweep was later than `now`. -/
structure Unrevoked (after : List (Op H)) (peerId commitmentHash : H) (now : Nat) : Prop where
  peer : .forgetPeer peerId ∉ after
  hash : .forgetCommitment commitmentHash ∉ after
  sweeps : ∀ s, .sweepExpired s ∈ after → s ≤ now

theorem recordedFor_concat (key : H) (ops : List (Op H)) (op : Op H) :
    recordedFor key (ops ++ [op]) =
      (Op.recorded? key op).elim (recordedFor key ops) (insert · (recordedFor key ops)) := by
  unfold recordedFor
  cases hrec : Op.recorded? key op with
  | none => simp [hrec]
  | some pair =>
      ext x
      simp [hrec]

omit [Digest H] in
theorem within_retain {provers : RecentProvers H} {P : ProverEntry H → Prop} {pair : H × H}
    {seen : Finset (H × H)} {keep : ProverEntry H → Bool}
    (hwithin : MoveToFront.Within ProverEntry.pair P pair seen (provers.entries key).reverse)
    (hkeep : ∀ e, e.pair = pair → P e → keep e = true) :
    MoveToFront.Within ProverEntry.pair P pair seen ((provers.retain keep).entries key).reverse := by
  change MoveToFront.Within _ _ _ _ ((provers.entries key).filter keep).reverse
  rw [← List.filter_reverse]
  exact hwithin.filter hkeep

/-- The pair stays within the last `MAX_PROVERS_PER_KEY` recorded for its key. -/
theorem within_run {before after : List (Op H)} {now : Nat}
    (htimes : TimesIncrease (before ++ .recordProof key peerId commitmentHash provedAt :: after))
    (hfresh : now - provedAt < proverEntryTtl)
    (hunrevoked : Unrevoked after peerId commitmentHash now)
    (hfew : ((recordedFor key after).erase (peerId, commitmentHash)).card < maxProversPerKey) :
    MoveToFront.Within ProverEntry.pair (fun e => now - e.provedAt < proverEntryTtl)
      (peerId, commitmentHash) ((recordedFor key after).erase (peerId, commitmentHash))
      ((run (before ++ .recordProof key peerId commitmentHash provedAt :: after)).entries
        key).reverse := by
  induction after using List.reverseRecOn with
  | nil =>
      have hsound := sound_run htimes.init key
      have hlatest : ∀ e ∈ (run before).entries key, e.provedAt < provedAt := fun e he =>
        htimes.lt_last (hsound.recorded e he).provedAt_mem
      rw [run_concat, entries_recordProof_self, reverse_recordInBucket _ _ hsound.kept hlatest]
      exact MoveToFront.within_push_self (by decide) rfl hfresh
  | append_singleton after op ih =>
      set ops := before ++ .recordProof key peerId commitmentHash provedAt :: after with hops
      have hsplit : before ++ .recordProof key peerId commitmentHash provedAt :: (after ++ [op])
          = ops ++ [op] := by simp [hops]
      rw [hsplit] at htimes ⊢
      have hmono : recordedFor key after ⊆ recordedFor key (after ++ [op]) := by
        rw [recordedFor_concat]
        cases Op.recorded? key op with
        | none => exact subset_rfl
        | some pair => exact Finset.subset_insert _ _
      have ih := ih htimes.init
        ⟨fun hmem => hunrevoked.peer (by simp [hmem]), fun hmem => hunrevoked.hash (by simp [hmem]),
          fun s hs => hunrevoked.sweeps s (by simp [hs])⟩
        ((Finset.card_le_card (Finset.erase_subset_erase _ hmono)).trans_lt hfew)
      have hsound := sound_run htimes.init key
      rw [run_concat]
      cases op with
      | recordProof key' peerId' commitmentHash' provedAt' =>
          by_cases hkey : key = key'
          · subst hkey
            have hlatest : ∀ e ∈ (run ops).entries key, e.provedAt < provedAt' := fun e he =>
              htimes.lt_last (hsound.recorded e he).provedAt_mem
            rw [entries_recordProof_self, reverse_recordInBucket _ _ hsound.kept hlatest]
            by_cases hpair : (peerId', commitmentHash') = (peerId, commitmentHash)
            · have hlater : provedAt < provedAt' :=
                htimes.lt_last (by simp [hops, Op.provedAt?])
              exact MoveToFront.within_push_self (by decide) hpair (by
                change now - provedAt' < proverEntryTtl
                omega)
            · rw [recordedFor_concat, Op.recorded?, if_pos rfl, Option.elim_some,
                Finset.erase_insert_of_ne hpair] at hfew ⊢
              exact ih.push_of_ne hpair hfew
          · rw [entries_recordProof_of_ne _ hkey, recordedFor_concat, Op.recorded?,
              if_neg (Ne.symm hkey)]
            exact ih
      | sweepExpired s =>
          have hs : s ≤ now := hunrevoked.sweeps s (by simp)
          rw [recordedFor_concat]
          refine within_retain ih fun e _ he => ?_
          rw [decide_eq_true_eq]
          omega
      | forgetPeer peerId' =>
          rw [recordedFor_concat]
          refine within_retain ih fun e hpair _ => ?_
          have hpeer : e.peerId = peerId := congrArg Prod.fst hpair
          rw [decide_eq_true_eq, hpeer]
          rintro rfl
          exact hunrevoked.peer (by simp)
      | forgetCommitment staleHash =>
          rw [recordedFor_concat]
          refine within_retain ih fun e hpair _ => ?_
          have hhash : e.commitmentHash = commitmentHash := congrArg Prod.snd hpair
          rw [decide_eq_true_eq, hhash]
          rintro rfl
          exact hunrevoked.hash (by simp)

/-- Holder credit is sound and kept. The sweeps of the node read the same clock as the question, so
none of them is later than it. -/
theorem isCreditedHolder_run {ops : List (Op H)} (htimes : TimesIncrease ops)
    (key peerId commitmentHash : H) (now : Nat) :
    WellKept ((run ops).entries key) ∧
    ((run ops).isCreditedHolder key peerId commitmentHash now = true →
      ∃ before provedAt after,
        ops = before ++ .recordProof key peerId commitmentHash provedAt :: after ∧
        now - provedAt < proverEntryTtl ∧
        .forgetPeer peerId ∉ after ∧ .forgetCommitment commitmentHash ∉ after) ∧
    (∀ before provedAt after,
      ops = before ++ .recordProof key peerId commitmentHash provedAt :: after →
      now - provedAt < proverEntryTtl →
      .forgetPeer peerId ∉ after → .forgetCommitment commitmentHash ∉ after →
      (∀ s, .sweepExpired s ∈ after → s ≤ now) →
      ((recordedFor key after).erase (peerId, commitmentHash)).card < maxProversPerKey →
      (run ops).isCreditedHolder key peerId commitmentHash now = true) := by
  have hsound := sound_run htimes key
  refine ⟨hsound.kept, fun hcredited => ?_, ?_⟩
  · obtain ⟨e, he, hmatch⟩ := List.any_eq_true.mp hcredited
    obtain ⟨rfl, rfl, hfresh⟩ := of_decide_eq_true hmatch
    obtain ⟨before, after, hops, hpeer, hhash⟩ := hsound.recorded e he
    exact ⟨before, e.provedAt, after, hops, hfresh, hpeer, hhash⟩
  · rintro before provedAt after rfl hfresh hpeer hhash hsweeps hfew
    obtain ⟨e, he, hpair, hfresh⟩ :=
      (within_run htimes hfresh ⟨hpeer, hhash, hsweeps⟩ hfew).mem
    obtain ⟨hpeer, hhash⟩ := Prod.ext_iff.mp hpair
    exact List.any_eq_true.mpr
      ⟨e, List.mem_reverse.mp he, decide_eq_true ⟨hpeer, hhash, hfresh⟩⟩

def refreshedOps : List (Op Transcript) :=
  [.recordProof ⟨[0]⟩ ⟨[1]⟩ ⟨[2]⟩ 10, .recordProof ⟨[0]⟩ ⟨[3]⟩ ⟨[4]⟩ 20,
    .recordProof ⟨[0]⟩ ⟨[1]⟩ ⟨[2]⟩ 30, .sweepExpired 40, .forgetPeer ⟨[5]⟩,
    .recordProof ⟨[0]⟩ ⟨[6]⟩ ⟨[7]⟩ 50]

theorem isCreditedHolder_run_refreshedOps :
    WellKept ((run refreshedOps).entries ⟨[0]⟩) ∧
      (run refreshedOps).isCreditedHolder ⟨[0]⟩ ⟨[1]⟩ ⟨[2]⟩ 60 = true := by
  have htimes : TimesIncrease refreshedOps := by
    unfold TimesIncrease
    decide
  have hspec := isCreditedHolder_run htimes ⟨[0]⟩ ⟨[1]⟩ ⟨[2]⟩ 60
  refine ⟨hspec.1, hspec.2.2 (refreshedOps.take 2) 30 (refreshedOps.drop 3) rfl ?_ ?_ ?_ ?_ ?_⟩
  · decide
  · simp [refreshedOps]
  · simp [refreshedOps]
  · simp [refreshedOps]
  · decide +kernel

end RecentProvers

end AntNode
