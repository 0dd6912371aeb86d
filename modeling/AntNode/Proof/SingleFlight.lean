import AntNode.Closeness

/-!
# When a waiter is woken

A waiter finds a slot under the lock and builds its future after releasing it. If the leader's guard
pops the slot and fires in between, the future remembers a count that never grows again. Everything
else is as it should be: a slot that is not notified yet has exactly one caller that guards it and
will notify it, and only such slots are in the inflight cache. So a run loses no wake-up as long as
no guard fires while a caller sits in that gap.
-/

namespace AntNode

namespace ClosenessPhase

/-- The slot whose guard the caller holds. -/
def guarded : ClosenessPhase → Option Nat
  | leading slot | computed slot _ | published slot _ | dropping slot _ | popped slot _ => some slot
  | _ => none

def unpopped : ClosenessPhase → Option Nat
  | leading slot | computed slot _ | published slot _ | dropping slot _ => some slot
  | _ => none

/-- The slot a caller has found and whose future it has not built. -/
def inGap : ClosenessPhase → Option Nat
  | found _ slot => some slot
  | _ => none

theorem guarded_of_unpopped {phase : ClosenessPhase} {slot : Nat}
    (hunpopped : phase.unpopped = some slot) : phase.guarded = some slot := by
  cases phase <;> first | exact hunpopped | cases hunpopped

theorem inGap_of_unpopped {phase : ClosenessPhase} {slot : Nat}
    (hunpopped : phase.unpopped = some slot) : phase.inGap = none := by
  cases phase <;> first | rfl | cases hunpopped

end ClosenessPhase

namespace ClosenessState

variable {P : Type}

/-- The caller waits for a notification that has already been given: the guard of its slot has
finished dropping, and its future cannot complete. -/
def LostWakeUp (s : ClosenessState P) (c : Nat) : Prop :=
  ∃ n slot snapshot, s.phase c = .parked n slot snapshot ∧ 0 < (s.slots slot).notified ∧
    (s.slots slot).notified ≤ snapshot

/-- No guard fires while a caller has found its slot and not yet built the future. -/
def Timely (s : ClosenessState P) (event : ClosenessEvent P) : Prop :=
  ∀ c slot, event = .notifyWaiters c → (s.phase c).guarded = some slot →
    ∀ waiter, (s.phase waiter).inGap ≠ some slot

structure Inv (poolHash : Nat → P) (s : ClosenessState P) : Prop where
  lt_nextSlot : ∀ c slot, (s.phase c).guarded = some slot → slot < s.nextSlot
  guarded_unique : ∀ c c' slot, (s.phase c).guarded = some slot → (s.phase c').guarded = some slot →
    c = c'
  guarded_unnotified : ∀ c slot, (s.phase c).guarded = some slot → (s.slots slot).notified = 0
  exists_guard : ∀ slot < s.nextSlot, (s.slots slot).notified = 0 →
    ∃ c, (s.phase c).guarded = some slot
  inflight_unpopped : ∀ h slot, s.inflightCloseness h = some slot →
    ∃ c, poolHash c = h ∧ (s.phase c).unpopped = some slot
  gap : ∀ c slot, (s.phase c).inGap = some slot →
    slot < s.nextSlot ∧ (s.slots slot).notified = 0
  parked : ∀ c n slot snapshot, s.phase c = .parked n slot snapshot →
    slot < s.nextSlot ∧ snapshot = 0

variable {poolHash : Nat → P}

theorem inv_init : Inv poolHash (init : ClosenessState P) where
  lt_nextSlot := fun _ _ hguarded => by cases hguarded
  guarded_unique := fun _ _ _ hguarded => by cases hguarded
  guarded_unnotified := fun _ _ hguarded => by cases hguarded
  exists_guard := fun _ hlt => absurd hlt (Nat.not_lt_zero _)
  inflight_unpopped := fun _ _ hinflight => by cases hinflight
  gap := fun _ _ hgap => by cases hgap
  parked := fun _ _ _ _ hparked => by cases hparked

/-- What a step that neither creates nor notifies a slot may do: move one caller, and drop entries
of the inflight cache. A caller that stops leading must have taken its entry with it. -/
structure Moves (poolHash : Nat → P) (s s' : ClosenessState P) (c : Nat) (phase : ClosenessPhase) :
    Prop where
  phase_eq : s'.phase = Function.update s.phase c phase
  nextSlot_eq : s'.nextSlot = s.nextSlot
  notified_eq : ∀ slot, (s'.slots slot).notified = (s.slots slot).notified
  guarded_eq : phase.guarded = (s.phase c).guarded
  inflight : ∀ h slot, s'.inflightCloseness h = some slot → s.inflightCloseness h = some slot ∧
    (phase.unpopped = (s.phase c).unpopped ∨
      ¬(poolHash c = h ∧ (s.phase c).unpopped = some slot))
  gap : ∀ slot, phase.inGap = some slot → slot < s.nextSlot ∧ (s.slots slot).notified = 0
  parked : ∀ n slot snapshot, phase = .parked n slot snapshot → slot < s.nextSlot ∧ snapshot = 0

theorem Inv.move {s s' : ClosenessState P} {c : Nat} {phase : ClosenessPhase}
    (hinv : Inv poolHash s) (hmoves : Moves poolHash s s' c phase) : Inv poolHash s' := by
  have hself : s'.phase c = phase := by rw [hmoves.phase_eq, Function.update_self]
  have hother : ∀ c', c' ≠ c → s'.phase c' = s.phase c' := fun c' hne => by
    rw [hmoves.phase_eq, Function.update_of_ne hne]
  have hguarded : ∀ c', (s'.phase c').guarded = (s.phase c').guarded := by
    intro c'
    by_cases heq : c' = c
    · rw [heq, hself, hmoves.guarded_eq]
    · rw [hother c' heq]
  refine ⟨?_, ?_, ?_, ?_, ?_, ?_, ?_⟩
  · intro c' slot hslot
    rw [hmoves.nextSlot_eq]
    exact hinv.lt_nextSlot c' slot (hguarded c' ▸ hslot)
  · intro c₁ c₂ slot hslot₁ hslot₂
    exact hinv.guarded_unique c₁ c₂ slot (hguarded c₁ ▸ hslot₁) (hguarded c₂ ▸ hslot₂)
  · intro c' slot hslot
    rw [hmoves.notified_eq]
    exact hinv.guarded_unnotified c' slot (hguarded c' ▸ hslot)
  · intro slot hlt hzero
    rw [hmoves.nextSlot_eq] at hlt
    rw [hmoves.notified_eq] at hzero
    obtain ⟨c', hslot⟩ := hinv.exists_guard slot hlt hzero
    exact ⟨c', (hguarded c').trans hslot⟩
  · intro h slot hentry
    obtain ⟨hentry, hkept⟩ := hmoves.inflight h slot hentry
    obtain ⟨c', hhash, hunpopped⟩ := hinv.inflight_unpopped h slot hentry
    by_cases heq : c' = c
    · subst heq
      rcases hkept with hkept | hkept
      · exact ⟨c', hhash, by rw [hself, hkept, hunpopped]⟩
      · exact absurd ⟨hhash, hunpopped⟩ hkept
    · exact ⟨c', hhash, by rw [hother c' heq, hunpopped]⟩
  · intro c' slot hslot
    rw [hmoves.nextSlot_eq, hmoves.notified_eq]
    by_cases heq : c' = c
    · rw [heq, hself] at hslot
      exact hmoves.gap slot hslot
    · rw [hother c' heq] at hslot
      exact hinv.gap c' slot hslot
  · intro c' n slot snapshot hparked
    rw [hmoves.nextSlot_eq]
    by_cases heq : c' = c
    · rw [heq, hself] at hparked
      exact hmoves.parked n slot snapshot hparked
    · rw [hother c' heq] at hparked
      exact hinv.parked c' n slot snapshot hparked

theorem moves_goto {s : ClosenessState P} {c : Nat} {old phase : ClosenessPhase}
    (hold : s.phase c = old) (hguarded : phase.guarded = old.guarded)
    (hunpopped : phase.unpopped = old.unpopped)
    (hgap : ∀ slot, phase.inGap = some slot → slot < s.nextSlot ∧ (s.slots slot).notified = 0)
    (hparked : ∀ n slot snapshot, phase = .parked n slot snapshot →
      slot < s.nextSlot ∧ snapshot = 0) :
    Moves poolHash s (s.goto c phase) c phase where
  phase_eq := rfl
  nextSlot_eq := rfl
  notified_eq := fun _ => rfl
  guarded_eq := by rw [hold, hguarded]
  inflight := fun _ _ hentry => ⟨hentry, .inl (by rw [hold, hunpopped])⟩
  gap := hgap
  parked := hparked

def Idle (phase : ClosenessPhase) : Prop :=
  phase.guarded = none ∧ phase.unpopped = none ∧ phase.inGap = none ∧
    ∀ n slot snapshot, phase ≠ .parked n slot snapshot

theorem moves_goto_idle {s : ClosenessState P} {c : Nat} {old phase : ClosenessPhase}
    (hidle : Idle phase) (hold : s.phase c = old) (hguarded : old.guarded = none)
    (hunpopped : old.unpopped = none) : Moves poolHash s (s.goto c phase) c phase := by
  obtain ⟨hg, hu, hgap, hparked⟩ := hidle
  apply moves_goto hold
  · rw [hg, hguarded]
  · rw [hu, hunpopped]
  · intro slot hslot
    rw [hgap] at hslot
    cases hslot
  · intro n slot snapshot heq
    exact absurd heq (hparked n slot snapshot)

theorem idle_done (outcome : Option ClosenessResult) : Idle (.done outcome) :=
  ⟨rfl, rfl, rfl, fun _ _ _ heq => by cases heq⟩

theorem idle_attempt (n : Nat) : Idle (.attempt n) :=
  ⟨rfl, rfl, rfl, fun _ _ _ heq => by cases heq⟩

theorem idle_woken (n slot : Nat) : Idle (.woken n slot) :=
  ⟨rfl, rfl, rfl, fun _ _ _ heq => by cases heq⟩

theorem idle_afterWake (n : Nat) (result : Option ClosenessResult) : Idle (afterWake n result) := by
  unfold afterWake
  split
  · exact idle_done _
  · exact idle_done _
  · split
    · exact idle_done _
    · exact idle_attempt _

theorem moves_of_leader {s s' : ClosenessState P} {c slot : Nat} {old phase : ClosenessPhase}
    (hphase : s'.phase = Function.update s.phase c phase) (hnext : s'.nextSlot = s.nextSlot)
    (hnotified : ∀ i, (s'.slots i).notified = (s.slots i).notified)
    (hinflight : s'.inflightCloseness = s.inflightCloseness)
    (hold : s.phase c = old) (hleads : old.unpopped = some slot)
    (hnew : phase.unpopped = some slot) : Moves poolHash s s' c phase where
  phase_eq := hphase
  nextSlot_eq := hnext
  notified_eq := hnotified
  guarded_eq := by
    rw [hold, ClosenessPhase.guarded_of_unpopped hleads, ClosenessPhase.guarded_of_unpopped hnew]
  inflight := fun h i hentry => ⟨hinflight ▸ hentry, .inl (by rw [hold, hleads, hnew])⟩
  gap := fun i hgap => by
    rw [ClosenessPhase.inGap_of_unpopped hnew] at hgap
    cases hgap
  parked := fun n i snapshot heq => by
    rw [heq] at hnew
    cases hnew

theorem moves_of_phase_eq {s s' : ClosenessState P} (hphase : s'.phase = s.phase)
    (hnext : s'.nextSlot = s.nextSlot) (hslots : s'.slots = s.slots)
    (hinflight : ∀ h slot, s'.inflightCloseness h = some slot → s.inflightCloseness h = some slot)
    (hinv : Inv poolHash s) : Moves poolHash s s' 0 (s.phase 0) where
  phase_eq := by rw [hphase, Function.update_eq_self]
  nextSlot_eq := hnext
  notified_eq := fun slot => by rw [hslots]
  guarded_eq := rfl
  inflight := fun h slot hentry => ⟨hinflight h slot hentry, .inl rfl⟩
  gap := hinv.gap 0
  parked := hinv.parked 0

variable [DecidableEq P]

def leads (poolHash : Nat → P) (s : ClosenessState P) (c : Nat) : ClosenessState P :=
  { s with
    inflightCloseness := Function.update s.inflightCloseness (poolHash c) (some s.nextSlot)
    slots := Function.update s.slots s.nextSlot .new
    nextSlot := s.nextSlot + 1
    phase := Function.update s.phase c (.leading s.nextSlot) }

omit [DecidableEq P] in
def fires (s : ClosenessState P) (c slot : Nat) (outcome : Option ClosenessResult) :
    ClosenessState P :=
  { s with
    slots := Function.update s.slots slot
      { s.slots slot with notified := (s.slots slot).notified + 1 }
    phase := Function.update s.phase c (.done outcome) }

/-- Everything a step can do, one rule for each branch that is taken. -/
inductive Transition (poolHash : Nat → P) (s : ClosenessState P) :
    ClosenessEvent P → ClosenessState P → Prop where
  | hits {c : Nat} (hphase : s.phase c = .start) (hmem : poolHash c ∈ s.closenessPassCache) :
      Transition poolHash s (.checkPassCache c) (s.goto c (.done (some (.ok ()))))
  | misses {c : Nat} (hphase : s.phase c = .start) (hmem : poolHash c ∉ s.closenessPassCache) :
      Transition poolHash s (.checkPassCache c) (s.goto c (.attempt 0))
  | finds {c n slot : Nat} (hphase : s.phase c = .attempt n)
      (hentry : s.inflightCloseness (poolHash c) = some slot) :
      Transition poolHash s (.lockInflight c) (s.goto c (.found n slot))
  | leads {c n : Nat} (hphase : s.phase c = .attempt n)
      (hentry : s.inflightCloseness (poolHash c) = none) :
      Transition poolHash s (.lockInflight c) (leads poolHash s c)
  | parks {c n slot : Nat} (hphase : s.phase c = .found n slot) :
      Transition poolHash s (.buildNotified c)
        (s.goto c (.parked n slot (s.slots slot).notified))
  | wakes {c n slot snapshot : Nat} (hphase : s.phase c = .parked n slot snapshot)
      (hnotified : snapshot < (s.slots slot).notified) :
      Transition poolHash s (.wake c) (s.goto c (.woken n slot))
  | reads {c n slot : Nat} (hphase : s.phase c = .woken n slot) :
      Transition poolHash s (.readResult c) (s.goto c (afterWake n (s.slots slot).result))
  | computes {c slot : Nat} {result : ClosenessResult} (hphase : s.phase c = .leading slot) :
      Transition poolHash s (.innerReturns c result) (s.goto c (.computed slot result))
  | publishes {c slot : Nat} {result : ClosenessResult}
      (hphase : s.phase c = .computed slot result) :
      Transition poolHash s (.publish c)
        { s with
          slots := Function.update s.slots slot
            { s.slots slot with result := (s.slots slot).result.or (some result) }
          phase := Function.update s.phase c (.published slot result) }
  | caches {c slot : Nat} (hphase : s.phase c = .published slot (.ok ())) :
      Transition poolHash s (.cachePass c)
        { s with
          closenessPassCache := poolHash c :: s.closenessPassCache
          phase := Function.update s.phase c (.dropping slot (some (.ok ()))) }
  | fails {c slot : Nat} {e : String} (hphase : s.phase c = .published slot (.error e)) :
      Transition poolHash s (.cachePass c) (s.goto c (.dropping slot (some (.error e))))
  | pops {c slot : Nat} {outcome : Option ClosenessResult}
      (hphase : s.phase c = .dropping slot outcome) :
      Transition poolHash s (.popSlot c)
        { s with
          inflightCloseness :=
            if s.inflightCloseness (poolHash c) = some slot then
              Function.update s.inflightCloseness (poolHash c) none
            else s.inflightCloseness
          phase := Function.update s.phase c (.popped slot outcome) }
  | fires {c slot : Nat} {outcome : Option ClosenessResult}
      (hphase : s.phase c = .popped slot outcome) :
      Transition poolHash s (.notifyWaiters c) (fires s c slot outcome)
  | cancelsStart {c : Nat} (hphase : s.phase c = .start) :
      Transition poolHash s (.cancel c) (s.goto c (.done none))
  | cancelsParked {c n slot snapshot : Nat} (hphase : s.phase c = .parked n slot snapshot) :
      Transition poolHash s (.cancel c) (s.goto c (.done none))
  | cancelsLeader {c slot : Nat} (hphase : s.phase c = .leading slot) :
      Transition poolHash s (.cancel c) (s.goto c (.dropping slot none))
  | evictsInflight (h : P) :
      Transition poolHash s (.evictInflight h)
        { s with inflightCloseness := Function.update s.inflightCloseness h none }
  | evictsPass (h : P) :
      Transition poolHash s (.evictPass h)
        { s with closenessPassCache := s.closenessPassCache.filter fun h' => decide (h' ≠ h) }

theorem transition_of_step {s s' : ClosenessState P} {event : ClosenessEvent P}
    (hstep : step poolHash s event = some s') : Transition poolHash s event s' := by
  cases event with
  | evictInflight h =>
      obtain rfl := Option.some.inj hstep
      exact .evictsInflight h
  | evictPass h =>
      obtain rfl := Option.some.inj hstep
      exact .evictsPass h
  | checkPassCache c =>
      cases hphase : s.phase c <;> simp only [step, hphase, reduceCtorEq] at hstep
      obtain rfl := Option.some.inj hstep
      split
      · rename_i hmem
        exact .hits hphase hmem
      · rename_i hmem
        exact .misses hphase hmem
  | lockInflight c =>
      cases hphase : s.phase c <;> simp only [step, hphase, reduceCtorEq] at hstep
      cases hentry : s.inflightCloseness (poolHash c) with
      | some slot =>
          rw [hentry] at hstep
          obtain rfl := Option.some.inj hstep
          exact .finds hphase hentry
      | none =>
          rw [hentry] at hstep
          obtain rfl := Option.some.inj hstep
          exact .leads hphase hentry
  | buildNotified c =>
      cases hphase : s.phase c <;> simp only [step, hphase, reduceCtorEq] at hstep
      obtain rfl := Option.some.inj hstep
      exact .parks hphase
  | wake c =>
      cases hphase : s.phase c <;> simp only [step, hphase, reduceCtorEq] at hstep
      split_ifs at hstep with hnotified
      obtain rfl := Option.some.inj hstep
      exact .wakes hphase hnotified
  | readResult c =>
      cases hphase : s.phase c <;> simp only [step, hphase, reduceCtorEq] at hstep
      obtain rfl := Option.some.inj hstep
      exact .reads hphase
  | innerReturns c result =>
      cases hphase : s.phase c <;> simp only [step, hphase, reduceCtorEq] at hstep
      obtain rfl := Option.some.inj hstep
      exact .computes hphase
  | publish c =>
      cases hphase : s.phase c <;> simp only [step, hphase, reduceCtorEq] at hstep
      obtain rfl := Option.some.inj hstep
      exact .publishes hphase
  | cachePass c =>
      simp only [step] at hstep
      split at hstep
      · rename_i slot hphase
        obtain rfl := Option.some.inj hstep
        exact .caches hphase
      · rename_i slot e hphase
        obtain rfl := Option.some.inj hstep
        exact .fails hphase
      · cases hstep
  | popSlot c =>
      cases hphase : s.phase c <;> simp only [step, hphase, reduceCtorEq] at hstep
      obtain rfl := Option.some.inj hstep
      exact .pops hphase
  | notifyWaiters c =>
      cases hphase : s.phase c <;> simp only [step, hphase, reduceCtorEq] at hstep
      obtain rfl := Option.some.inj hstep
      exact .fires hphase
  | cancel c =>
      simp only [step] at hstep
      split at hstep
      · rename_i hphase
        obtain rfl := Option.some.inj hstep
        exact .cancelsStart hphase
      · rename_i n slot snapshot hphase
        obtain rfl := Option.some.inj hstep
        exact .cancelsParked hphase
      · rename_i slot hphase
        obtain rfl := Option.some.inj hstep
        exact .cancelsLeader hphase
      · cases hstep

/-- A step moves a caller, makes one a leader or fires a guard. -/
theorem step_cases {s s' : ClosenessState P} {event : ClosenessEvent P} (hinv : Inv poolHash s)
    (hstep : step poolHash s event = some s') :
    (∃ c phase, Moves poolHash s s' c phase) ∨
    (∃ c n, s.phase c = .attempt n ∧ s' = leads poolHash s c) ∨
    ∃ c slot outcome, event = .notifyWaiters c ∧ s.phase c = .popped slot outcome ∧
      s' = fires s c slot outcome := by
  cases transition_of_step hstep with
  | hits hphase _ => exact .inl ⟨_, _, moves_goto_idle (idle_done _) hphase rfl rfl⟩
  | misses hphase _ => exact .inl ⟨_, _, moves_goto_idle (idle_attempt 0) hphase rfl rfl⟩
  | finds hphase hentry =>
      obtain ⟨leader, -, hunpopped⟩ := hinv.inflight_unpopped _ _ hentry
      have hguarded := ClosenessPhase.guarded_of_unpopped hunpopped
      refine .inl ⟨_, _, moves_goto hphase rfl rfl ?_ ?_⟩
      · intro i hgap
        obtain rfl := Option.some.inj hgap
        exact ⟨hinv.lt_nextSlot leader _ hguarded, hinv.guarded_unnotified leader _ hguarded⟩
      · intro n i snapshot heq
        cases heq
  | leads hphase _ => exact .inr (.inl ⟨_, _, hphase, rfl⟩)
  | parks hphase =>
      obtain ⟨hlt, hzero⟩ := hinv.gap _ _ (by rw [hphase]; rfl)
      refine .inl ⟨_, _, moves_goto hphase rfl rfl ?_ ?_⟩
      · intro i hgap
        cases hgap
      · intro m i snapshot heq
        obtain ⟨-, rfl, rfl⟩ := ClosenessPhase.parked.inj heq
        exact ⟨hlt, hzero⟩
  | wakes hphase _ => exact .inl ⟨_, _, moves_goto_idle (idle_woken _ _) hphase rfl rfl⟩
  | reads hphase => exact .inl ⟨_, _, moves_goto_idle (idle_afterWake _ _) hphase rfl rfl⟩
  | computes hphase =>
      exact .inl ⟨_, _, moves_of_leader rfl rfl (fun _ => rfl) rfl hphase rfl rfl⟩
  | @publishes c slot result hphase =>
      refine .inl ⟨_, _, moves_of_leader rfl rfl (fun i => ?_) rfl hphase rfl rfl⟩
      by_cases heq : i = slot
      · rw [heq]
        simp
      · simp [Function.update_of_ne heq]
  | caches hphase =>
      exact .inl ⟨_, _, moves_of_leader rfl rfl (fun _ => rfl) rfl hphase rfl rfl⟩
  | fails hphase =>
      exact .inl ⟨_, _, moves_of_leader rfl rfl (fun _ => rfl) rfl hphase rfl rfl⟩
  | @pops c slot outcome hphase =>
      refine .inl ⟨c, .popped slot outcome, rfl, rfl, fun _ => rfl, by rw [hphase]; rfl, ?_,
        (fun i hgap => by cases hgap), (fun n i snapshot heq => by cases heq)⟩
      intro h i hentry
      by_cases hours : s.inflightCloseness (poolHash c) = some slot
      · simp only [if_pos hours] at hentry
        by_cases heq : h = poolHash c
        · rw [heq, Function.update_self] at hentry
          cases hentry
        · rw [Function.update_of_ne heq] at hentry
          exact ⟨hentry, .inr fun hand => heq hand.1.symm⟩
      · simp only [if_neg hours] at hentry
        refine ⟨hentry, .inr ?_⟩
        rintro ⟨rfl, hunpopped⟩
        rw [hphase] at hunpopped
        obtain rfl : slot = i := Option.some.inj hunpopped
        exact hours hentry
  | fires hphase => exact .inr (.inr ⟨_, _, _, rfl, hphase, rfl⟩)
  | cancelsStart hphase => exact .inl ⟨_, _, moves_goto_idle (idle_done none) hphase rfl rfl⟩
  | cancelsParked hphase => exact .inl ⟨_, _, moves_goto_idle (idle_done none) hphase rfl rfl⟩
  | cancelsLeader hphase =>
      exact .inl ⟨_, _, moves_of_leader rfl rfl (fun _ => rfl) rfl hphase rfl rfl⟩
  | evictsInflight h =>
      refine .inl ⟨0, _, moves_of_phase_eq rfl rfl rfl ?_ hinv⟩
      intro h' slot hentry
      dsimp only at hentry
      by_cases heq : h' = h
      · rw [heq, Function.update_self] at hentry
        cases hentry
      · rwa [Function.update_of_ne heq] at hentry
  | evictsPass h =>
      exact .inl ⟨0, _, moves_of_phase_eq rfl rfl rfl (fun _ _ hentry => hentry) hinv⟩

omit [DecidableEq P] in
theorem Inv.fires {s : ClosenessState P} {c slot : Nat} {outcome : Option ClosenessResult}
    (hinv : Inv poolHash s) (hphase : s.phase c = .popped slot outcome)
    (htimely : ∀ waiter, (s.phase waiter).inGap ≠ some slot) :
    Inv poolHash (fires s c slot outcome) := by
  have hguards : (s.phase c).guarded = some slot := by rw [hphase]; rfl
  have hself : (ClosenessState.fires s c slot outcome).phase c = .done outcome :=
    Function.update_self ..
  have hother : ∀ c', c' ≠ c → (ClosenessState.fires s c slot outcome).phase c' = s.phase c' :=
    fun c' hne => Function.update_of_ne hne _ _
  have hslot : ∀ i, i ≠ slot → (ClosenessState.fires s c slot outcome).slots i = s.slots i :=
    fun i hne => Function.update_of_ne hne _ _
  -- the guard is gone, and nobody else held it
  have hguarded : ∀ c' i, ((ClosenessState.fires s c slot outcome).phase c').guarded = some i →
      i ≠ slot ∧ (s.phase c').guarded = some i := by
    intro c' i hi
    by_cases heq : c' = c
    · rw [heq, hself] at hi
      cases hi
    · rw [hother c' heq] at hi
      refine ⟨?_, hi⟩
      rintro rfl
      exact heq (hinv.guarded_unique c' c i hi hguards)
  refine ⟨?_, ?_, ?_, ?_, ?_, ?_, ?_⟩
  · intro c' i hi
    exact hinv.lt_nextSlot c' i (hguarded c' i hi).2
  · intro c₁ c₂ i hi₁ hi₂
    exact hinv.guarded_unique c₁ c₂ i (hguarded c₁ i hi₁).2 (hguarded c₂ i hi₂).2
  · intro c' i hi
    obtain ⟨hne, hi⟩ := hguarded c' i hi
    rw [hslot i hne]
    exact hinv.guarded_unnotified c' i hi
  · intro i hlt hzero
    by_cases heq : i = slot
    · rw [heq] at hzero
      simp [ClosenessState.fires] at hzero
    · rw [hslot i heq] at hzero
      obtain ⟨c', hi⟩ := hinv.exists_guard i hlt hzero
      have hne : c' ≠ c := by
        rintro rfl
        rw [hguards] at hi
        exact heq (Option.some.inj hi).symm
      exact ⟨c', by rw [hother c' hne, hi]⟩
  · intro h i hentry
    obtain ⟨c', hhash, hunpopped⟩ := hinv.inflight_unpopped h i hentry
    have hne : c' ≠ c := by
      rintro rfl
      rw [hphase] at hunpopped
      cases hunpopped
    exact ⟨c', hhash, by rw [hother c' hne, hunpopped]⟩
  · intro c' i hi
    have hne : c' ≠ c := by
      rintro rfl
      rw [hself] at hi
      cases hi
    rw [hother c' hne] at hi
    have hslot' : i ≠ slot := by
      rintro rfl
      exact htimely c' hi
    rw [hslot i hslot']
    exact hinv.gap c' i hi
  · intro c' n i snapshot hparked
    have hne : c' ≠ c := by
      rintro rfl
      rw [hself] at hparked
      cases hparked
    rw [hother c' hne] at hparked
    exact hinv.parked c' n i snapshot hparked

theorem Inv.leads {s : ClosenessState P} {c n : Nat} (hinv : Inv poolHash s)
    (hphase : s.phase c = .attempt n) : Inv poolHash (leads poolHash s c) := by
  have hself : (ClosenessState.leads poolHash s c).phase c = .leading s.nextSlot :=
    Function.update_self ..
  have hother : ∀ c', c' ≠ c → (ClosenessState.leads poolHash s c).phase c' = s.phase c' :=
    fun c' hne => Function.update_of_ne hne _ _
  have hslot : ∀ i, i < s.nextSlot → (ClosenessState.leads poolHash s c).slots i = s.slots i :=
    fun i hlt => Function.update_of_ne hlt.ne _ _
  have hnew : ((ClosenessState.leads poolHash s c).slots s.nextSlot).notified = 0 := by
    simp [ClosenessState.leads, ClosenessSlot.new]
  -- the new slot has its one guard, and every other guard is an old one
  have hguarded : ∀ c' i, ((ClosenessState.leads poolHash s c).phase c').guarded = some i →
      (c' = c ∧ i = s.nextSlot) ∨ (c' ≠ c ∧ i < s.nextSlot ∧ (s.phase c').guarded = some i) := by
    intro c' i hi
    by_cases heq : c' = c
    · rw [heq, hself] at hi
      exact .inl ⟨heq, (Option.some.inj hi).symm⟩
    · rw [hother c' heq] at hi
      exact .inr ⟨heq, hinv.lt_nextSlot c' i hi, hi⟩
  refine ⟨?_, ?_, ?_, ?_, ?_, ?_, ?_⟩
  · intro c' i hi
    rcases hguarded c' i hi with ⟨-, rfl⟩ | ⟨-, hlt, -⟩
    · exact Nat.lt_succ_self _
    · exact Nat.lt_succ_of_lt hlt
  · intro c₁ c₂ i hi₁ hi₂
    rcases hguarded c₁ i hi₁ with ⟨rfl, rfl⟩ | ⟨-, hlt₁, hi₁⟩
    · rcases hguarded c₂ _ hi₂ with ⟨rfl, -⟩ | ⟨-, hlt₂, -⟩
      · rfl
      · exact absurd hlt₂ (lt_irrefl _)
    · rcases hguarded c₂ i hi₂ with ⟨-, rfl⟩ | ⟨-, -, hi₂⟩
      · exact absurd hlt₁ (lt_irrefl _)
      · exact hinv.guarded_unique c₁ c₂ i hi₁ hi₂
  · intro c' i hi
    rcases hguarded c' i hi with ⟨-, rfl⟩ | ⟨-, hlt, hi⟩
    · exact hnew
    · rw [hslot i hlt]
      exact hinv.guarded_unnotified c' i hi
  · intro i hlt hzero
    by_cases heq : i = s.nextSlot
    · exact ⟨c, by rw [hself, heq]; rfl⟩
    · have hlt : i < s.nextSlot := lt_of_le_of_ne (Nat.lt_succ_iff.mp hlt) heq
      rw [hslot i hlt] at hzero
      obtain ⟨c', hi⟩ := hinv.exists_guard i hlt hzero
      have hne : c' ≠ c := by
        rintro rfl
        rw [hphase] at hi
        cases hi
      exact ⟨c', by rw [hother c' hne, hi]⟩
  · intro h i hentry
    have hentry : Function.update s.inflightCloseness (poolHash c) (some s.nextSlot) h = some i :=
      hentry
    by_cases heq : h = poolHash c
    · rw [heq, Function.update_self] at hentry
      exact ⟨c, heq.symm, by rw [hself]; exact hentry⟩
    · rw [Function.update_of_ne heq] at hentry
      obtain ⟨c', hhash, hunpopped⟩ := hinv.inflight_unpopped h i hentry
      have hne : c' ≠ c := by
        rintro rfl
        exact heq hhash.symm
      exact ⟨c', hhash, by rw [hother c' hne, hunpopped]⟩
  · intro c' i hi
    have hne : c' ≠ c := by
      rintro rfl
      rw [hself] at hi
      cases hi
    rw [hother c' hne] at hi
    obtain ⟨hlt, hzero⟩ := hinv.gap c' i hi
    rw [hslot i hlt]
    exact ⟨Nat.lt_succ_of_lt hlt, hzero⟩
  · intro c' m i snapshot hparked
    have hne : c' ≠ c := by
      rintro rfl
      rw [hself] at hparked
      cases hparked
    rw [hother c' hne] at hparked
    obtain ⟨hlt, hzero⟩ := hinv.parked c' m i snapshot hparked
    exact ⟨Nat.lt_succ_of_lt hlt, hzero⟩

theorem Inv.step {s s' : ClosenessState P} {event : ClosenessEvent P} (hinv : Inv poolHash s)
    (htimely : Timely s event) (hstep : step poolHash s event = some s') : Inv poolHash s' := by
  rcases step_cases hinv hstep with ⟨c, phase, hmoves⟩ | ⟨c, n, hphase, rfl⟩ |
    ⟨c, slot, outcome, hevent, hphase, rfl⟩
  · exact hinv.move hmoves
  · exact hinv.leads hphase
  · exact hinv.fires hphase (htimely c slot hevent (by rw [hphase]; rfl))

/-! ### Every waiter is woken -/

/-- **No wake-up is lost while no guard fires into the gap.** In every run, of any number of
callers, with cancellations and evictions anywhere, whose guards never fire while a caller has found
the slot and not yet built its future: no caller waits on a slot whose guard has finished dropping,
and every waiter can take its step or has a leader that will still notify it. Conversely, whenever a
guard can fire while a caller is in the gap, two steps lose that caller's wake-up. -/
theorem no_lostWakeUp_of_timely (poolHash : Nat → P) :
    (∀ events s, Runs.run (step poolHash) init events = some s →
      Runs.Along (step poolHash) Timely init events →
        (∀ c, ¬LostWakeUp s c) ∧
        ∀ c n slot snapshot, s.phase c = .parked n slot snapshot →
          (step poolHash s (.wake c)).isSome = true ∨
            ∃ leader, (s.phase leader).guarded = some slot) ∧
    ∀ (s : ClosenessState P) (leader waiter slot n : Nat) (outcome : Option ClosenessResult),
      s.phase leader = .popped slot outcome → s.phase waiter = .found n slot →
        ∃ s', Runs.run (step poolHash) s [.notifyWaiters leader, .buildNotified waiter] = some s' ∧
          LostWakeUp s' waiter := by
  refine ⟨fun events s hrun htimely => ?_, fun s leader waiter slot n outcome hleader hwaiter => ?_⟩
  · have hinv : Inv poolHash s :=
      Runs.invariant_of_run (fun _ _ _ hinv htimely hstep => hinv.step htimely hstep)
        inv_init htimely hrun
    constructor
    · rintro c ⟨n, slot, snapshot, hparked, hpos, hle⟩
      obtain ⟨-, rfl⟩ := hinv.parked c n slot snapshot hparked
      omega
    · intro c n slot snapshot hparked
      obtain ⟨hlt, rfl⟩ := hinv.parked c n slot snapshot hparked
      by_cases hzero : (s.slots slot).notified = 0
      · exact .inr (hinv.exists_guard slot hlt hzero)
      · left
        simp only [step, hparked]
        rw [if_pos (Nat.pos_of_ne_zero hzero)]
        rfl
  · have hne : waiter ≠ leader := by
      rintro rfl
      rw [hleader] at hwaiter
      cases hwaiter
    have hfires : step poolHash s (.notifyWaiters leader) = some (fires s leader slot outcome) := by
      simp only [step, hleader]
      rfl
    have hphase : (fires s leader slot outcome).phase waiter = .found n slot :=
      (Function.update_of_ne hne _ _).trans hwaiter
    refine ⟨(fires s leader slot outcome).goto waiter
      (.parked n slot ((fires s leader slot outcome).slots slot).notified), ?_, ?_⟩
    · rw [Runs.run_cons_eq_some]
      refine ⟨_, hfires, ?_⟩
      simp only [Runs.run, step, hphase]
      rfl
    · refine ⟨n, slot, _, Function.update_self .., ?_, le_refl _⟩
      simp [goto, fires]

def leaderAndWaiter : List (ClosenessEvent Nat) :=
  [.checkPassCache 0, .lockInflight 0, .checkPassCache 1, .lockInflight 1]

def leaderPasses : List (ClosenessEvent Nat) :=
  [.innerReturns 0 (.ok ()), .publish 0, .cachePass 0, .popSlot 0]

omit [DecidableEq P] in
theorem timely_of_ne {s : ClosenessState P} {event : ClosenessEvent P}
    (hne : ∀ c, event ≠ .notifyWaiters c) : Timely s event :=
  fun c _ hevent => absurd hevent (hne c)

theorem no_lostWakeUp_of_timely_waiter :
    ∃ s, Runs.run (step fun _ => 0) init
        (leaderAndWaiter ++ [.buildNotified 1] ++ leaderPasses ++ [.notifyWaiters 0]) = some s ∧
      s.phase 1 = .parked 0 0 0 ∧ ∀ c, ¬LostWakeUp s c := by
  have halong : Runs.Along (step fun _ => 0) Timely init
      (leaderAndWaiter ++ [.buildNotified 1] ++ leaderPasses ++ [.notifyWaiters 0]) := by
    refine Runs.Along.concat (Runs.along_of_forall fun event hevent s => timely_of_ne ?_) ?_
    · intro c heq
      rw [heq] at hevent
      simp [leaderAndWaiter, leaderPasses] at hevent
    · intro s hrun c slot hevent hguarded waiter
      have hnone : (s.phase waiter).inGap = none := by
        obtain rfl := Option.some.inj hrun
        match waiter with
        | 0 => rfl
        | 1 => rfl
        | waiter + 2 => simp [Function.update, goto, init, ClosenessPhase.inGap]
      rw [hnone]
      exact (Option.some_ne_none slot).symm
  exact ⟨_, rfl, rfl, ((no_lostWakeUp_of_timely fun _ => 0).1 _ _ rfl halong).1⟩

/-- The leader's guard fires between the waiter's lookup and the construction of its future. The
waiter then waits for a count that is already there: its future never completes. -/
theorem wakeUp_lost_in_gap :
    ∃ s, Runs.run (step fun _ => 0) init
        (leaderAndWaiter ++ leaderPasses ++ [.notifyWaiters 0, .buildNotified 1]) = some s ∧
      LostWakeUp s 1 ∧ (step (fun _ => 0) s (.wake 1)).isNone = true := by
  refine ⟨_, rfl, ⟨0, 0, 1, rfl, Nat.one_pos, le_refl 1⟩, rfl⟩

end ClosenessState

end AntNode
