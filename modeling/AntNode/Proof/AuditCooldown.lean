import AntNode.AuditCooldown

/-!
# One audit lottery per window

A peer that passed is in the map with its latest stamp until the cooldown has run out, unless its
stamp is dropped to make room: the oldest goes first, and while some stamp of the full map is out of
force, so is the oldest. A flood of new peers within one window drops a stamp that is still in
force, and its peer passes again.
-/

namespace AntNode

variable {H : Type} [DecidableEq H]

omit [DecidableEq H] in
theorem oldestStamp_spec {entries : List (Sigma fun _ : H => Nat)} (hne : entries ≠ []) :
    ∃ victim ∈ entries, oldestStamp entries = some victim ∧
      ∀ entry ∈ entries, victim.2 ≤ entry.2 := by
  induction entries with
  | nil => exact absurd rfl hne
  | cons first rest ih =>
      by_cases hrest : rest = []
      · subst hrest
        exact ⟨first, by simp, rfl, by simp⟩
      · obtain ⟨victim, hmem, holdest, hle⟩ := ih hrest
        simp only [oldestStamp, holdest]
        by_cases hlt : victim.2 < first.2
        · refine ⟨victim, by simp [hmem], if_pos hlt, ?_⟩
          intro entry hentry
          rcases List.mem_cons.mp hentry with rfl | hentry
          · exact hlt.le
          · exact hle entry hentry
        · refine ⟨first, by simp, if_neg hlt, ?_⟩
          intro entry hentry
          rcases List.mem_cons.mp hentry with rfl | hentry
          · exact le_rfl
          · exact (Nat.le_of_not_lt hlt).trans (hle entry hentry)

/-- Everything a call can do. -/
theorem cooldownAllowsAudit_cases (map : CooldownMap H) (peer : H) (now : Nat) :
    (∃ last, map.lookup peer = some last ∧ now - last < auditOnGossipCooldown ∧
      cooldownAllowsAudit map peer now = (false, map)) ∨
    (∃ last, map.lookup peer = some last ∧ auditOnGossipCooldown ≤ now - last ∧
      cooldownAllowsAudit map peer now = (true, map.insert peer now)) ∨
    (map.lookup peer = none ∧ map.entries.length < maxLastCommitmentByPeer ∧
      cooldownAllowsAudit map peer now = (true, map.insert peer now)) ∨
    (map.lookup peer = none ∧ maxLastCommitmentByPeer ≤ map.entries.length ∧
      ∃ victim ∈ map.entries, (∀ entry ∈ map.entries, victim.2 ≤ entry.2) ∧
        cooldownAllowsAudit map peer now = (true, (map.erase victim.1).insert peer now)) := by
  unfold cooldownAllowsAudit
  cases hlookup : map.lookup peer with
  | some last =>
      by_cases hwithin : now - last < auditOnGossipCooldown
      · exact .inl ⟨last, rfl, hwithin, if_pos hwithin⟩
      · exact .inr (.inl ⟨last, rfl, Nat.le_of_not_lt hwithin, if_neg hwithin⟩)
  | none =>
      by_cases hfull : maxLastCommitmentByPeer ≤ map.entries.length
      · have hne : map.entries ≠ [] := by
          intro hnil
          rw [hnil, List.length_nil] at hfull
          exact absurd hfull (by decide)
        obtain ⟨victim, hmem, holdest, hle⟩ := oldestStamp_spec hne
        refine .inr (.inr (.inr ⟨rfl, hfull, victim, hmem, hle, ?_⟩))
        simp only [if_pos hfull, holdest, Option.elim_some]
      · refine .inr (.inr (.inl ⟨rfl, Nat.lt_of_not_le hfull, ?_⟩))
        simp only [if_neg hfull]

omit [DecidableEq H] in
theorem length_keys (map : CooldownMap H) : map.keys.length = map.entries.length :=
  List.length_map _

theorem length_insert_le (map : CooldownMap H) (peer : H) (now : Nat) :
    (map.insert peer now).entries.length ≤ map.entries.length + 1 := by
  have herase : (map.erase peer).entries.length ≤ map.entries.length := by
    rw [← length_keys, ← length_keys, AList.keys_erase]
    exact List.length_erase_le
  exact Nat.succ_le_succ herase

theorem length_insert_of_mem {map : CooldownMap H} {peer : H} (hmem : peer ∈ map) (now : Nat) :
    (map.insert peer now).entries.length = map.entries.length := by
  have hpos : 0 < map.keys.length := List.length_pos_of_mem hmem
  have herase : (map.erase peer).entries.length = map.entries.length - 1 := by
    rw [← length_keys, ← length_keys, AList.keys_erase, List.length_erase_of_mem hmem]
  have hinsert : (map.insert peer now).entries.length = (map.erase peer).entries.length + 1 := rfl
  rw [length_keys] at hpos
  omega

theorem length_erase_of_mem {map : CooldownMap H} {victim : Sigma fun _ : H => Nat}
    (hmem : victim ∈ map.entries) :
    (map.erase victim.1).entries.length + 1 = map.entries.length := by
  have hkey : victim.1 ∈ map.keys := List.mem_map_of_mem hmem
  have hpos : 0 < map.keys.length := List.length_pos_of_mem hkey
  rw [← length_keys, ← length_keys, AList.keys_erase, List.length_erase_of_mem hkey]
  omega

namespace CooldownState

variable {s s' : CooldownState H} {call : AuditCall H}

/-- The lottery does not touch the map. -/
theorem step_eq (s : CooldownState H) (call : AuditCall H) (hclock : s.clock ≤ call.now) :
    s.step call = some
      { map := (cooldownAllowsAudit (call.iteration.reorder s.map) call.peer call.now).2
        clock := call.now
        passed :=
          if (cooldownAllowsAudit (call.iteration.reorder s.map) call.peer call.now).1 then
            (call.peer, call.now) :: s.passed
          else s.passed } := by
  unfold step
  rw [if_neg (Nat.not_lt.mpr hclock)]
  cases call.lottery with
  | none => rfl
  | some wins => rfl

/-- What the call finds, and what it leaves: `map` is the map in the order the call iterates. -/
theorem step_cases (hstep : s.step call = some s') :
    s.clock ≤ call.now ∧ s'.clock = call.now ∧
    ∃ map : CooldownMap H, map.entries.Perm s.map.entries ∧
      ((∃ last, s.map.lookup call.peer = some last ∧ call.now - last < auditOnGossipCooldown ∧
          s'.map = map ∧ s'.passed = s.passed) ∨
        s'.passed = (call.peer, call.now) :: s.passed ∧
        ((∃ last, s.map.lookup call.peer = some last ∧ auditOnGossipCooldown ≤ call.now - last ∧
            s'.map = map.insert call.peer call.now) ∨
          (s.map.lookup call.peer = none ∧ s.map.entries.length < maxLastCommitmentByPeer ∧
            s'.map = map.insert call.peer call.now) ∨
          (s.map.lookup call.peer = none ∧ maxLastCommitmentByPeer ≤ s.map.entries.length ∧
            ∃ victim ∈ map.entries, (∀ entry ∈ s.map.entries, victim.2 ≤ entry.2) ∧
              s'.map = (map.erase victim.1).insert call.peer call.now))) := by
  have hclock : s.clock ≤ call.now := by
    by_contra hearly
    rw [step, if_pos (Nat.lt_of_not_le hearly)] at hstep
    cases hstep
  rw [step_eq s call hclock] at hstep
  obtain rfl := Option.some.inj hstep
  have hperm := call.iteration.perm s.map
  refine ⟨hclock, rfl, call.iteration.reorder s.map, hperm, ?_⟩
  rw [← AList.perm_lookup (a := call.peer) hperm, ← hperm.length_eq]
  rcases cooldownAllowsAudit_cases (call.iteration.reorder s.map) call.peer call.now with
    ⟨last, hlast, hwithin, heq⟩ | ⟨last, hlast, hafter, heq⟩ | ⟨hnone, hroom, heq⟩ |
    ⟨hnone, hfull, victim, hvictim, holdest, heq⟩
  · rw [heq]
    exact .inl ⟨last, hlast, hwithin, rfl, rfl⟩
  · rw [heq]
    exact .inr ⟨rfl, .inl ⟨last, hlast, hafter, rfl⟩⟩
  · rw [heq]
    exact .inr ⟨rfl, .inr (.inl ⟨hnone, hroom, rfl⟩)⟩
  · rw [heq]
    refine .inr ⟨rfl, .inr (.inr ⟨hnone, hfull, victim, hvictim, ?_, rfl⟩)⟩
    exact fun entry hentry => holdest entry (hperm.mem_iff.mpr hentry)

/-- The map never outgrows its cap. -/
theorem size_step (hstep : s.step call = some s')
    (hsize : s.map.entries.length ≤ maxLastCommitmentByPeer) :
    s'.map.entries.length ≤ maxLastCommitmentByPeer := by
  obtain ⟨-, -, map, hperm, ⟨last, -, -, hmap, -⟩ | ⟨-, ⟨last, hlast, -, hmap⟩ |
    ⟨-, hroom, hmap⟩ | ⟨-, -, victim, hvictim, -, hmap⟩⟩⟩ := step_cases hstep
  · rw [hmap, hperm.length_eq]
    exact hsize
  · have hmem : call.peer ∈ map := by
      rw [← AList.lookup_isSome, AList.perm_lookup hperm, hlast]
      rfl
    rw [hmap, length_insert_of_mem hmem, hperm.length_eq]
    exact hsize
  · rw [hmap]
    refine (length_insert_le map call.peer call.now).trans ?_
    rw [hperm.length_eq]
    exact hroom
  · rw [hmap]
    refine (length_insert_le _ call.peer call.now).trans ?_
    rw [length_erase_of_mem hvictim, hperm.length_eq]
    exact hsize

/-- Where the call drops a stamp, some stamp of the map is out of force. -/
def DropsExpired (s : CooldownState H) (call : AuditCall H) : Prop :=
  call.peer ∉ s.map → maxLastCommitmentByPeer ≤ s.map.entries.length →
    ∃ entry ∈ s.map.entries, entry.2 + auditOnGossipCooldown ≤ call.now

instance (s : CooldownState H) (call : AuditCall H) : Decidable (DropsExpired s call) :=
  inferInstanceAs (Decidable (_ → _ → ∃ entry ∈ s.map.entries, _))

/-- A peer that passed is stamped with its latest pass or a later one, or its window is over. -/
structure Spacing (s : CooldownState H) : Prop where
  stamped : ∀ pass ∈ s.passed, pass.2 ≤ s.clock ∧
    ((∃ last, s.map.lookup pass.1 = some last ∧ pass.2 ≤ last) ∨
      pass.2 + auditOnGossipCooldown ≤ s.clock)
  spaced : s.passed.Pairwise fun later earlier =>
    later.1 = earlier.1 → earlier.2 + auditOnGossipCooldown ≤ later.2

theorem spacing_start : Spacing (start : CooldownState H) :=
  ⟨fun _ hpass => absurd hpass List.not_mem_nil, List.Pairwise.nil⟩

/-- A pass keeps the spacing where the peer's window is over and no stamp in force is lost. -/
theorem Spacing.pass (hspacing : Spacing s) {peer : H} (hclock : s.clock ≤ s'.clock)
    (hpassed : s'.passed = (peer, s'.clock) :: s.passed)
    (hdone : ∀ pass ∈ s.passed, pass.1 = peer → pass.2 + auditOnGossipCooldown ≤ s'.clock)
    (hself : s'.map.lookup peer = some s'.clock)
    (hothers : ∀ other ≠ peer, ∀ last, s.map.lookup other = some last →
      s'.map.lookup other = some last ∨ last + auditOnGossipCooldown ≤ s'.clock) :
    Spacing s' := by
  constructor
  · intro pass hpass
    rw [hpassed] at hpass
    rcases List.mem_cons.mp hpass with rfl | hearlier
    · exact ⟨le_rfl, .inl ⟨s'.clock, hself, le_rfl⟩⟩
    · obtain ⟨htime, ⟨last, hlast, hle⟩ | hover⟩ := hspacing.stamped pass hearlier
      · refine ⟨htime.trans hclock, ?_⟩
        by_cases hpeer : pass.1 = peer
        · exact .inr (hdone pass hearlier hpeer)
        · rcases hothers pass.1 hpeer last hlast with hkept | hexpired
          · exact .inl ⟨last, hkept, hle⟩
          · exact .inr (by omega)
      · exact ⟨htime.trans hclock, .inr (hover.trans hclock)⟩
  · rw [hpassed]
    refine List.Pairwise.cons (fun earlier hearlier heq => ?_) hspacing.spaced
    exact hdone earlier hearlier heq.symm

theorem Spacing.unstamped (hspacing : Spacing s) {peer : H} (hnone : s.map.lookup peer = none) :
    ∀ pass ∈ s.passed, pass.1 = peer → pass.2 + auditOnGossipCooldown ≤ s.clock := by
  rintro pass hpass rfl
  obtain ⟨-, ⟨last, hlast, -⟩ | hover⟩ := hspacing.stamped pass hpass
  · rw [hnone] at hlast
    cases hlast
  · exact hover

theorem Spacing.step (hspacing : Spacing s) (hstep : s.step call = some s')
    (hexpired : DropsExpired s call) : Spacing s' := by
  obtain ⟨hclock, hnow, map, hperm, hcase⟩ := step_cases hstep
  rw [← hnow] at hclock
  have hlookup : ∀ other, map.lookup other = s.map.lookup other := fun other =>
    AList.perm_lookup hperm
  rcases hcase with ⟨last, -, -, hmap, hpassed⟩ | ⟨hpassed, hcase⟩
  · constructor
    · intro pass hpass
      rw [hpassed] at hpass
      obtain ⟨htime, hstamp | hover⟩ := hspacing.stamped pass hpass
      · rw [hmap, hlookup]
        exact ⟨htime.trans hclock, .inl hstamp⟩
      · exact ⟨htime.trans hclock, .inr (hover.trans hclock)⟩
    · rw [hpassed]
      exact hspacing.spaced
  · rw [← hnow] at hpassed hcase
    rcases hcase with ⟨last, hlast, hafter, hmap⟩ | ⟨hnone, -, hmap⟩ |
      ⟨hnone, hfull, victim, hvictim, holdest, hmap⟩
    · have hpos : 0 < auditOnGossipCooldown := by decide
      refine hspacing.pass hclock hpassed ?_ ?_ ?_
      · rintro pass hpass hpeer
        obtain ⟨-, ⟨stamp, hstamp, hle⟩ | hover⟩ := hspacing.stamped pass hpass
        · rw [hpeer, hlast, Option.some.injEq] at hstamp
          omega
        · exact hover.trans hclock
      · rw [hmap, AList.lookup_insert]
      · intro other hne stamp hstamp
        rw [hmap, AList.lookup_insert_ne hne, hlookup]
        exact .inl hstamp
    · refine hspacing.pass hclock hpassed ?_ ?_ ?_
      · intro pass hpass hpeer
        exact (hspacing.unstamped hnone pass hpass hpeer).trans hclock
      · rw [hmap, AList.lookup_insert]
      · intro other hne stamp hstamp
        rw [hmap, AList.lookup_insert_ne hne, hlookup]
        exact .inl hstamp
    · refine hspacing.pass hclock hpassed ?_ ?_ ?_
      · intro pass hpass hpeer
        exact (hspacing.unstamped hnone pass hpass hpeer).trans hclock
      · rw [hmap, AList.lookup_insert]
      · intro other hne stamp hstamp
        rw [hmap, AList.lookup_insert_ne hne]
        by_cases hdropped : other = victim.1
        · -- the dropped stamp is the oldest, so it is out of force where any is
          obtain ⟨entry, hentry, hover⟩ := hexpired (AList.lookup_eq_none.mp hnone) hfull
          have hle := holdest entry hentry
          have hvictimStamp : victim.2 = stamp := by
            have hmem : victim.2 ∈ map.lookup victim.1 := AList.mem_lookup_iff.mpr hvictim
            rw [← hdropped, hlookup, hstamp] at hmem
            exact (Option.some.inj hmem).symm
          exact .inr (by omega)
        · rw [AList.lookup_erase_ne hdropped, hlookup]
          exact .inl hstamp

/-- Two passes of one peer at different times are a cooldown apart. -/
def CooldownHeld (s : CooldownState H) : Prop :=
  ∀ peer t₁ t₂, (peer, t₁) ∈ s.passed → (peer, t₂) ∈ s.passed → t₁ < t₂ →
    auditOnGossipCooldown ≤ t₂ - t₁

/-- The same of a pair of passes, in either order. -/
def Apart (a b : H × Nat) : Prop :=
  a.1 = b.1 → a.2 ≠ b.2 →
    a.2 + auditOnGossipCooldown ≤ b.2 ∨ b.2 + auditOnGossipCooldown ≤ a.2

omit [DecidableEq H] in
theorem apart_symm : Std.Symm (Apart (H := H)) :=
  ⟨fun _ _ hapart heq hne => (hapart heq.symm hne.symm).symm⟩

theorem Spacing.cooldownHeld (hspacing : Spacing s) : CooldownHeld s := by
  intro peer t₁ t₂ hfirst hsecond hlt
  have := apart_symm (H := H)
  have hapart : s.passed.Pairwise Apart :=
    hspacing.spaced.imp fun {a b} hab heq _ => .inr (hab heq)
  have hself : ∀ pass ∈ s.passed, Apart pass pass := fun _ _ _ hne => absurd rfl hne
  have hpair := hapart.forall_of_forall hself hfirst hsecond rfl hlt.ne
  dsimp only at hpair
  omega

/-- **One pass per window**, for every run in which each dropped stamp is out of force; the map is
bounded in every run. -/
theorem cooldown_of_run {calls : List (AuditCall H)}
    (hrun : Runs.run CooldownState.step start calls = some s) :
    s.map.entries.length ≤ maxLastCommitmentByPeer ∧
      (Runs.Along CooldownState.step DropsExpired start calls → CooldownHeld s) := by
  refine ⟨?_, fun halong => ?_⟩
  · exact Runs.stable_of_run (fun s => s.map.entries.length ≤ maxLastCommitmentByPeer)
      (fun _ _ _ hsize hstep => size_step hstep hsize) (Nat.zero_le _) hrun
  · exact (Runs.invariant_of_run (fun _ _ _ hinv hok hstep => hinv.step hstep hok) spacing_start
      halong hrun).cooldownHeld

theorem passed_of_unstamped (hstep : s.step call = some s')
    (hnone : s.map.lookup call.peer = none) :
    s'.passed = (call.peer, call.now) :: s.passed := by
  obtain ⟨-, -, map, -, ⟨last, hlast, -⟩ | ⟨hpassed, -⟩⟩ := step_cases hstep
  · rw [hnone] at hlast
    cases hlast
  · exact hpassed

/-- A new peer at a full map takes the place of the only oldest stamp, however young it is, and of
no other. -/
theorem lookup_dropped (hstep : s.step call = some s') (hnew : call.peer ∉ s.map)
    (hfull : maxLastCommitmentByPeer ≤ s.map.entries.length) {oldest : Sigma fun _ : H => Nat}
    (hmem : oldest ∈ s.map.entries)
    (honly : ∀ entry ∈ s.map.entries, entry.2 ≤ oldest.2 → entry = oldest) :
    s'.map.lookup oldest.1 = none ∧ ∀ other ≠ oldest.1, other ≠ call.peer →
      s'.map.lookup other = s.map.lookup other := by
  have hnone : s.map.lookup call.peer = none := AList.lookup_eq_none.mpr hnew
  have hne : oldest.1 ≠ call.peer := by
    intro heq
    exact hnew (heq ▸ List.mem_map_of_mem hmem)
  obtain ⟨-, -, map, hperm, ⟨last, hlast, -⟩ | ⟨-, ⟨last, hlast, -⟩ | ⟨-, hroom, -⟩ |
    ⟨-, -, victim, hvictim, holdest, hmap⟩⟩⟩ := step_cases hstep
  · rw [hnone] at hlast
    cases hlast
  · rw [hnone] at hlast
    cases hlast
  · exact absurd hroom (Nat.not_lt.mpr hfull)
  · obtain rfl : victim = oldest :=
      honly victim (hperm.mem_iff.mp hvictim) (holdest oldest hmem)
    rw [hmap, AList.lookup_insert_ne hne, AList.lookup_erase]
    refine ⟨rfl, fun other hother hnotNew => ?_⟩
    rw [AList.lookup_insert_ne hnotNew, AList.lookup_erase_ne hother, AList.perm_lookup hperm]

/-! ### A flood of new peers -/

section Flood

variable (name : Nat → H)

def floodCall (i : Nat) : AuditCall H := ⟨name i, i, none, .asStored⟩

def flood (n : Nat) : List (AuditCall H) := (List.range n).map (floodCall name)

omit [DecidableEq H] in
theorem flood_succ (n : Nat) : flood name (n + 1) = flood name n ++ [floodCall name n] := by
  rw [flood, List.range_succ, List.map_append, List.map_singleton, flood]

omit [DecidableEq H] in
theorem stamped_of_flooded {name : Nat → H} {map : CooldownMap H} {n i : Nat}
    (hentries : map.entries = (List.range n).reverse.map (fun i => ⟨name i, i⟩)) (hi : i < n) :
    (⟨name i, i⟩ : Sigma fun _ : H => Nat) ∈ map.entries := by
  rw [hentries]
  exact List.mem_map_of_mem (List.mem_reverse.mpr (List.mem_range.mpr hi))

omit [DecidableEq H] in
/-- One stamp is older than all the others. -/
theorem eq_of_stamped_zero {name : Nat → H} {map : CooldownMap H} {n : Nat}
    (hentries : map.entries = (List.range n).reverse.map (fun i => ⟨name i, i⟩))
    {entry : Sigma fun _ : H => Nat} (hentry : entry ∈ map.entries) (hzero : entry.2 ≤ 0) :
    entry = ⟨name 0, 0⟩ := by
  rw [hentries] at hentry
  obtain ⟨i, -, rfl⟩ := List.mem_map.mp hentry
  obtain rfl : i = 0 := Nat.le_zero.mp hzero
  rfl

omit [DecidableEq H] in
theorem notMem_of_flooded {name : Nat → H} {map : CooldownMap H} {n : Nat} {peer : H}
    (hentries : map.entries = (List.range n).reverse.map (fun i => ⟨name i, i⟩))
    (hnew : ∀ i < n, name i ≠ peer) : peer ∉ map := by
  intro hmem
  obtain ⟨entry, hentry, hkey⟩ := List.mem_map.mp (show peer ∈ map.entries.map Sigma.fst from hmem)
  rw [hentries] at hentry
  obtain ⟨i, hi, rfl⟩ := List.mem_map.mp hentry
  exact hnew i (List.mem_range.mp (List.mem_reverse.mp hi)) hkey

/-- As many distinct peers as the map holds pass one after the other. -/
theorem run_flood (hname : ∀ i j, i < j → j ≤ maxLastCommitmentByPeer → name i ≠ name j) {n : Nat}
    (hn : n ≤ maxLastCommitmentByPeer) :
    ∃ s, Runs.run CooldownState.step start (flood name n) = some s ∧ s.clock ≤ n ∧
      s.map.entries = (List.range n).reverse.map (fun i => ⟨name i, i⟩) ∧
      s.passed = (List.range n).reverse.map fun i => (name i, i) := by
  induction n with
  | zero => exact ⟨start, rfl, le_rfl, rfl, rfl⟩
  | succ n ih =>
      obtain ⟨s, hrun, hclock, hentries, hpassed⟩ := ih (Nat.le_of_succ_le hn)
      have hnew : name n ∉ s.map :=
        notMem_of_flooded hentries fun i hi => hname i n hi (Nat.le_of_succ_le hn)
      have hroom : ¬maxLastCommitmentByPeer ≤ s.map.entries.length := by
        rw [hentries, List.length_map, List.length_reverse, List.length_range]
        omega
      have hcall : cooldownAllowsAudit s.map (name n) n = (true, s.map.insert (name n) n) := by
        unfold cooldownAllowsAudit
        rw [AList.lookup_eq_none.mpr hnew]
        simp only [if_neg hroom]
      have hstep : s.step (floodCall name n) =
          some ⟨s.map.insert (name n) n, n, (name n, n) :: s.passed⟩ := by
        have hcalled : cooldownAllowsAudit ((floodCall name n).iteration.reorder s.map)
            (floodCall name n).peer (floodCall name n).now = (true, s.map.insert (name n) n) :=
          hcall
        rw [step_eq s (floodCall name n) hclock, hcalled]
        rfl
      refine ⟨⟨s.map.insert (name n) n, n, (name n, n) :: s.passed⟩, ?_, Nat.le_succ n, ?_, ?_⟩
      · rw [flood_succ]
        exact Runs.run_concat_eq_some.mpr ⟨s, hrun, hstep⟩
      · rw [AList.entries_insert_of_notMem hnew, hentries, List.range_succ, List.reverse_concat,
          List.map_cons]
      · rw [hpassed, List.range_succ, List.reverse_concat, List.map_cons]

theorem along_flood (hname : ∀ i j, i < j → j ≤ maxLastCommitmentByPeer → name i ≠ name j)
    {n : Nat} (hn : n ≤ maxLastCommitmentByPeer) :
    Runs.Along CooldownState.step DropsExpired start (flood name n) := by
  induction n with
  | zero => trivial
  | succ n ih =>
      rw [flood_succ]
      refine (ih (Nat.le_of_succ_le hn)).concat fun s hs _ hfull => ?_
      obtain ⟨s', hrun, -, hentries, -⟩ := run_flood name hname (Nat.le_of_succ_le hn)
      obtain rfl := Option.some.inj (hs.symm.trans hrun)
      rw [hentries, List.length_map, List.length_reverse, List.length_range] at hfull
      omega

-- From here on the calls of the flood are a block of their own, never counted out.
attribute [irreducible] flood

/-- The map filled, one peer more after a delay, and the first one again. -/
def floodAgain (delay : Nat) : List (AuditCall H) :=
  flood name maxLastCommitmentByPeer ++
    [⟨name maxLastCommitmentByPeer, maxLastCommitmentByPeer + delay, none, .asStored⟩,
      ⟨name 0, maxLastCommitmentByPeer + delay + 1, none, .asStored⟩]

/-- The first peer passes again, whether or not its stamp was out of force when it was dropped. -/
theorem flood_readmits (hname : ∀ i j, i < j → j ≤ maxLastCommitmentByPeer → name i ≠ name j)
    (delay : Nat) :
    ∃ s, Runs.run CooldownState.step start (floodAgain name delay) = some s ∧
      (name 0, 0) ∈ s.passed ∧ (name 0, maxLastCommitmentByPeer + delay + 1) ∈ s.passed ∧
      (auditOnGossipCooldown ≤ maxLastCommitmentByPeer + delay →
        Runs.Along CooldownState.step DropsExpired start (floodAgain name delay)) := by
  obtain ⟨s, hrun, hclock, hentries, hpassed⟩ := run_flood name hname le_rfl
  have hnew : name maxLastCommitmentByPeer ∉ s.map :=
    notMem_of_flooded hentries fun i hi => hname i _ hi le_rfl
  set late : AuditCall H :=
    ⟨name maxLastCommitmentByPeer, maxLastCommitmentByPeer + delay, none, .asStored⟩ with hlate
  obtain ⟨full, hfull⟩ : ∃ full, s.step late = some full :=
    ⟨_, step_eq s late (hclock.trans (Nat.le_add_right _ _))⟩
  have hlength : maxLastCommitmentByPeer ≤ s.map.entries.length := by
    rw [hentries, List.length_map, List.length_reverse, List.length_range]
  obtain ⟨hdropped, hkept⟩ :=
    lookup_dropped hfull hnew hlength (stamped_of_flooded hentries (by decide)) fun _ =>
      eq_of_stamped_zero hentries
  have hnow : full.clock = maxLastCommitmentByPeer + delay := (step_cases hfull).2.1
  set again : AuditCall H := ⟨name 0, maxLastCommitmentByPeer + delay + 1, none, .asStored⟩
  obtain ⟨last, hlast⟩ : ∃ last, full.step again = some last :=
    ⟨_, step_eq full _ (by rw [hnow]; exact Nat.le_succ _)⟩
  have hpassedFull := passed_of_unstamped hfull (AList.lookup_eq_none.mpr hnew)
  have hpassedLast := passed_of_unstamped hlast hdropped
  refine ⟨last, ?_, ?_, ?_, fun hdelay => ?_⟩
  · exact Runs.run_append_eq_some.mpr ⟨s, hrun, Runs.run_cons_eq_some.mpr
      ⟨full, hfull, Runs.run_cons_eq_some.mpr ⟨last, hlast, rfl⟩⟩⟩
  · rw [hpassedLast, hpassedFull, hpassed]
    refine List.mem_cons_of_mem _ (List.mem_cons_of_mem _ ?_)
    exact List.mem_map_of_mem (f := fun i => (name i, i)) (by simp [maxLastCommitmentByPeer])
  · rw [hpassedLast]
    exact List.mem_cons_self
  · rw [floodAgain]
    refine (along_flood name hname le_rfl).append fun flooded hflooded => ?_
    obtain rfl := Option.some.inj (hrun.symm.trans hflooded)
    refine ⟨fun _ _ => ⟨⟨name 0, 0⟩, stamped_of_flooded hentries (by decide), by simpa using hdelay⟩,
      fun next hnext => ⟨fun _ _ => ⟨⟨name 1, 1⟩, ?_, ?_⟩, fun _ _ => trivial⟩⟩
    · obtain rfl := Option.some.inj (hfull.symm.trans hnext)
      apply AList.mem_lookup_iff.mp
      rw [hkept (name 1) (hname 0 1 (by decide) (by decide)).symm
        (hname 1 _ (by decide) le_rfl)]
      exact AList.mem_lookup_iff.mpr (stamped_of_flooded hentries (by decide))
    · change 1 + auditOnGossipCooldown ≤ maxLastCommitmentByPeer + delay + 1
      omega

end Flood

/-- The identifiers of the flood: 32 bytes, counted up. -/
def floodPeer (i : Nat) : BitVec 256 := BitVec.ofNat 256 i

theorem floodPeer_ne (i j : Nat) (hij : i < j) (hj : j ≤ maxLastCommitmentByPeer) :
    floodPeer i ≠ floodPeer j := by
  intro heq
  have hmax : maxLastCommitmentByPeer < 2 ^ 256 := by decide
  have hnat := congrArg BitVec.toNat heq
  simp only [floodPeer, BitVec.toNat_ofNat] at hnat
  rw [Nat.mod_eq_of_lt (by omega), Nat.mod_eq_of_lt (by omega)] at hnat
  omega

/-- A full map loses its oldest stamp when that is out of force, and its peer passes again. -/
theorem cooldown_of_run_flood :
    ∃ s, Runs.run CooldownState.step start (floodAgain floodPeer auditOnGossipCooldown) = some s ∧
      (floodPeer 0, 0) ∈ s.passed ∧
      (floodPeer 0, maxLastCommitmentByPeer + auditOnGossipCooldown + 1) ∈ s.passed ∧
      s.map.entries.length ≤ maxLastCommitmentByPeer ∧ CooldownHeld s := by
  obtain ⟨s, hrun, hfirst, hagain, halong⟩ :=
    flood_readmits floodPeer floodPeer_ne auditOnGossipCooldown
  obtain ⟨hsize, hheld⟩ := cooldown_of_run hrun
  have hdelay : auditOnGossipCooldown ≤ maxLastCommitmentByPeer + auditOnGossipCooldown :=
    Nat.le_add_left auditOnGossipCooldown maxLastCommitmentByPeer
  exact ⟨s, hrun, hfirst, hagain, hsize, hheld (halong hdelay)⟩

/-- The first peer passes twice within the window. -/
theorem flood_breaks_cooldown :
    ∃ s, Runs.run CooldownState.step start (flood floodPeer (maxLastCommitmentByPeer + 1) ++
        [⟨floodPeer 0, maxLastCommitmentByPeer + 1, none, .asStored⟩]) = some s ∧
      ¬CooldownHeld s := by
  obtain ⟨s, hrun, hfirst, hagain, -⟩ := flood_readmits floodPeer floodPeer_ne 0
  rw [floodAgain] at hrun
  refine ⟨s, ?_, fun hheld => ?_⟩
  · rw [flood_succ, List.append_assoc]
    exact hrun
  have hapart := hheld (floodPeer 0) 0 (maxLastCommitmentByPeer + 1) hfirst hagain (Nat.succ_pos _)
  exact absurd hapart (by decide)

end CooldownState

end AntNode
