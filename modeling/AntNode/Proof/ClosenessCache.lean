import AntNode.Proof.MerkleAmount
import AntNode.Proof.SingleFlight

/-!
# What a closeness verdict rests on

A caller returns a verdict from one of three places: the pass cache, its own inner run, or the slot
of another leader. The history of a run says which. An entry of the pass cache was put there by an
inner run that passed; a result in a slot was published by the caller that led it; and a caller that
waits on a slot found it under the lock, where its leader had not dropped the guard. Since a slot
whose guard dropped never comes back, what it holds reaches nobody who calls later.
-/

namespace AntNode

namespace ClosenessState

variable {P : Type} [DecidableEq P]

/-! ### What a step may be -/

def HitsPassCache (poolHash : Nat → P) (c : Nat) (s : ClosenessState P) (e : ClosenessEvent P) :
    Prop :=
  e = .checkPassCache c ∧ s.phase c = .start ∧ poolHash c ∈ s.closenessPassCache

/-- The caller finds no slot and puts its own. -/
def Leads (poolHash : Nat → P) (c slot : Nat) (s : ClosenessState P) (e : ClosenessEvent P) :
    Prop :=
  e = .lockInflight c ∧ s.inflightCloseness (poolHash c) = none ∧ slot = s.nextSlot

/-- The caller finds a slot of its pool that some leader has not dropped the guard of. -/
def Joins (poolHash : Nat → P) (c slot : Nat) (s : ClosenessState P) (e : ClosenessEvent P) :
    Prop :=
  e = .lockInflight c ∧ s.inflightCloseness (poolHash c) = some slot ∧
    ∃ leader, poolHash leader = poolHash c ∧ (s.phase leader).unpopped = some slot

/-- The inner run of the leader of a slot returns. -/
def InnerReturns (c slot : Nat) (result : ClosenessResult) (s : ClosenessState P)
    (e : ClosenessEvent P) : Prop :=
  e = .innerReturns c result ∧ s.phase c = .leading slot

/-- A result of a leader, as its waiters return it. -/
def asWaiter : ClosenessResult → ClosenessResult
  | .ok () => .ok ()
  | .error e => .error ("payment error: " ++ e)

def leaderLost : ClosenessResult :=
  .error ("Merkle candidate pool rejected: closeness leader " ++
    "repeatedly failed to publish a result (likely repeated cancellation or panic).")

section History

variable (poolHash : Nat → P) (events : List (ClosenessEvent P))

/-- Such a step was taken in the run through the events. -/
def Happened (taken : ClosenessState P → ClosenessEvent P → Prop) : Prop :=
  Runs.Occurred (step poolHash) taken init events

/-- The caller led the slot, and its inner run returned the result. -/
def LedTo (c slot : Nat) (result : ClosenessResult) : Prop :=
  Happened poolHash events (Leads poolHash c slot) ∧
    Happened poolHash events (InnerReturns c slot result)

/-- Where the result of a caller comes from. -/
inductive ReturnedFrom (c : Nat) (result : ClosenessResult) : Prop where
  | passCache (hits : Happened poolHash events (HitsPassCache poolHash c))
      (result_eq : result = .ok ())
  | ownRun (slot : Nat) (led : LedTo poolHash events c slot result)
  | leader (slot leader : Nat) (leaderResult : ClosenessResult)
      (joins : Happened poolHash events (Joins poolHash c slot))
      (led : LedTo poolHash events leader slot leaderResult)
      (result_eq : result = asWaiter leaderResult)
  | leaderLost (slot : Nat) (joins : Happened poolHash events (Joins poolHash c slot))
      (result_eq : result = leaderLost)

/-- What the history says of a caller in its phase. -/
def PhaseFrom (c : Nat) : ClosenessPhase → Prop
  | .start | .attempt _ => True
  | .found _ slot | .parked _ slot _ | .woken _ slot =>
      Happened poolHash events (Joins poolHash c slot)
  | .leading slot => Happened poolHash events (Leads poolHash c slot)
  | .computed slot result | .published slot result => LedTo poolHash events c slot result
  | .dropping slot outcome | .popped slot outcome =>
      Happened poolHash events (Leads poolHash c slot) ∧
        ∀ result, outcome = some result → LedTo poolHash events c slot result
  | .done outcome => ∀ result, outcome = some result → ReturnedFrom poolHash events c result

/-- The state is what the history made of it. -/
structure From (s : ClosenessState P) : Prop where
  phase : ∀ c, PhaseFrom poolHash events c (s.phase c)
  passCache : ∀ h ∈ s.closenessPassCache, ∃ c slot, poolHash c = h ∧
    LedTo poolHash events c slot (.ok ())
  result : ∀ slot result, (s.slots slot).result = some result →
    ∃ leader, LedTo poolHash events leader slot result
  inflight : ∀ h slot, s.inflightCloseness h = some slot →
    ∃ c, poolHash c = h ∧ (s.phase c).unpopped = some slot

end History

section Steps

variable {poolHash : Nat → P} {events : List (ClosenessEvent P)} {s s' : ClosenessState P}
  {e : ClosenessEvent P} {c : Nat} {phase : ClosenessPhase}

omit [DecidableEq P] in
theorem goto_phase_self : (s.goto c phase).phase c = phase :=
  Function.update_self ..

theorem LedTo.concat {slot : Nat} {result : ClosenessResult}
    (hled : LedTo poolHash events c slot result) (e : ClosenessEvent P) :
    LedTo poolHash (events ++ [e]) c slot result :=
  ⟨hled.1.concat e, hled.2.concat e⟩

theorem ReturnedFrom.concat {result : ClosenessResult}
    (hfrom : ReturnedFrom poolHash events c result) (e : ClosenessEvent P) :
    ReturnedFrom poolHash (events ++ [e]) c result := by
  cases hfrom with
  | passCache hits result_eq => exact .passCache (hits.concat e) result_eq
  | ownRun slot led => exact .ownRun slot (led.concat e)
  | leader slot leader leaderResult joins led result_eq =>
      exact .leader slot leader leaderResult (joins.concat e) (led.concat e) result_eq
  | leaderLost slot joins result_eq => exact .leaderLost slot (joins.concat e) result_eq

theorem PhaseFrom.concat (hfrom : PhaseFrom poolHash events c phase) (e : ClosenessEvent P) :
    PhaseFrom poolHash (events ++ [e]) c phase := by
  cases phase with
  | start => trivial
  | attempt n => trivial
  | found n slot => exact Runs.Occurred.concat hfrom e
  | parked n slot snapshot => exact Runs.Occurred.concat hfrom e
  | woken n slot => exact Runs.Occurred.concat hfrom e
  | leading slot => exact Runs.Occurred.concat hfrom e
  | computed slot result => exact LedTo.concat hfrom e
  | published slot result => exact LedTo.concat hfrom e
  | dropping slot outcome =>
      exact ⟨hfrom.1.concat e, fun result heq => (hfrom.2 result heq).concat e⟩
  | popped slot outcome =>
      exact ⟨hfrom.1.concat e, fun result heq => (hfrom.2 result heq).concat e⟩
  | done outcome => exact fun result heq => (hfrom result heq).concat e

theorem PhaseFrom.leads {slot : Nat} (hfrom : PhaseFrom poolHash events c phase)
    (hunpopped : phase.unpopped = some slot) : Happened poolHash events (Leads poolHash c slot) := by
  cases phase with
  | leading i =>
      obtain rfl : i = slot := Option.some.inj hunpopped
      exact hfrom
  | computed i result =>
      obtain rfl : i = slot := Option.some.inj hunpopped
      exact hfrom.1
  | published i result =>
      obtain rfl : i = slot := Option.some.inj hunpopped
      exact hfrom.1
  | dropping i outcome =>
      obtain rfl : i = slot := Option.some.inj hunpopped
      exact hfrom.1
  | start | attempt | found | parked | woken | popped | done => cases hunpopped

/-! ### One step of the history -/

/-- One caller moves, and what is new in the caches and the slots comes from this step. -/
theorem From.update (hfrom : From poolHash events s)
    (hphase : s'.phase = Function.update s.phase c phase)
    (hmoved : PhaseFrom poolHash (events ++ [e]) c phase)
    (hpass : ∀ h ∈ s'.closenessPassCache, h ∈ s.closenessPassCache ∨
      ∃ c slot, poolHash c = h ∧ LedTo poolHash (events ++ [e]) c slot (.ok ()))
    (hresult : ∀ slot result, (s'.slots slot).result = some result →
      (s.slots slot).result = some result ∨
        ∃ leader, LedTo poolHash (events ++ [e]) leader slot result)
    (hinflight : ∀ h slot, s'.inflightCloseness h = some slot →
      (poolHash c = h ∧ phase.unpopped = some slot) ∨
      (s.inflightCloseness h = some slot ∧
        (poolHash c = h → (s.phase c).unpopped = some slot → phase.unpopped = some slot))) :
    From poolHash (events ++ [e]) s' := by
  have hself : s'.phase c = phase := by rw [hphase, Function.update_self]
  have hother : ∀ c', c' ≠ c → s'.phase c' = s.phase c' := fun c' hne => by
    rw [hphase, Function.update_of_ne hne]
  refine ⟨?_, ?_, ?_, ?_⟩
  · intro c'
    by_cases heq : c' = c
    · rw [heq, hself]
      exact hmoved
    · rw [hother c' heq]
      exact (hfrom.phase c').concat e
  · intro h hmem
    rcases hpass h hmem with hold | hnew
    · obtain ⟨c', slot, hhash, hled⟩ := hfrom.passCache h hold
      exact ⟨c', slot, hhash, hled.concat e⟩
    · exact hnew
  · intro slot result hslot
    rcases hresult slot result hslot with hold | hnew
    · obtain ⟨leader, hled⟩ := hfrom.result slot result hold
      exact ⟨leader, hled.concat e⟩
    · exact hnew
  · intro h slot hentry
    rcases hinflight h slot hentry with ⟨hhash, hunpopped⟩ | ⟨hentry, hkept⟩
    · exact ⟨c, hhash, by rw [hself, hunpopped]⟩
    · obtain ⟨c', hhash, hunpopped⟩ := hfrom.inflight h slot hentry
      by_cases heq : c' = c
      · subst heq
        exact ⟨c', hhash, by rw [hself, hkept hhash hunpopped]⟩
      · exact ⟨c', hhash, by rw [hother c' heq, hunpopped]⟩

theorem From.goto (hfrom : From poolHash events s) {old : ClosenessPhase} (hold : s.phase c = old)
    (hunpopped : phase.unpopped = old.unpopped)
    (hmoved : PhaseFrom poolHash (events ++ [e]) c phase) :
    From poolHash (events ++ [e]) (s.goto c phase) := by
  refine hfrom.update rfl hmoved (fun h hmem => .inl hmem) (fun slot result hslot => .inl hslot) ?_
  intro h slot hentry
  refine .inr ⟨hentry, fun _ hold' => ?_⟩
  rw [hunpopped, ← hold, hold']

/-- The pass cache and the inflight cache may lose entries. -/
theorem From.evict (hfrom : From poolHash events s) (hphase : s'.phase = s.phase)
    (hslots : s'.slots = s.slots)
    (hpass : ∀ h ∈ s'.closenessPassCache, h ∈ s.closenessPassCache)
    (hinflight : ∀ h slot, s'.inflightCloseness h = some slot → s.inflightCloseness h = some slot) :
    From poolHash (events ++ [e]) s' := by
  have hkept : s'.phase = Function.update s.phase 0 (s.phase 0) := by
    rw [hphase, Function.update_eq_self]
  refine hfrom.update hkept ((hfrom.phase 0).concat e) (fun h hmem => .inl (hpass h hmem)) ?_ ?_
  · intro slot result hslot
    rw [hslots] at hslot
    exact .inl hslot
  · intro h slot hentry
    exact .inr ⟨hinflight h slot hentry, fun _ hold => hold⟩

theorem PhaseFrom.afterWake {n slot : Nat} {result : Option ClosenessResult}
    (hjoins : Happened poolHash events (Joins poolHash c slot))
    (hresult : ∀ r, result = some r → ∃ leader, LedTo poolHash events leader slot r) :
    PhaseFrom poolHash events c (ClosenessState.afterWake n result) := by
  unfold ClosenessState.afterWake
  split
  · intro r hr
    obtain rfl := Option.some.inj hr
    obtain ⟨leader, hled⟩ := hresult _ rfl
    exact .leader slot leader _ hjoins hled rfl
  · intro r hr
    obtain rfl := Option.some.inj hr
    obtain ⟨leader, hled⟩ := hresult _ rfl
    exact .leader slot leader _ hjoins hled rfl
  · split
    · intro r hr
      obtain rfl := Option.some.inj hr
      exact .leaderLost slot hjoins rfl
    · trivial

theorem From.phase_concat (hfrom : From poolHash events s) {old : ClosenessPhase}
    (hold : s.phase c = old) (e : ClosenessEvent P) : PhaseFrom poolHash (events ++ [e]) c old := by
  rw [← hold]
  exact (hfrom.phase c).concat e

theorem From.step (hfrom : From poolHash events s)
    (hrun : Runs.run (step poolHash) init events = some s)
    (hstep : step poolHash s e = some s') : From poolHash (events ++ [e]) s' := by
  cases transition_of_step hstep with
  | @hits c hphase hmem =>
      refine hfrom.goto hphase rfl fun result hresult => ?_
      have hits : Happened poolHash (events ++ [.checkPassCache c]) (HitsPassCache poolHash c) :=
        Runs.occurred_concat_self hrun ⟨rfl, hphase, hmem⟩
      exact .passCache hits (Option.some.inj hresult).symm
  | misses hphase _ => exact hfrom.goto hphase rfl trivial
  | finds hphase hentry =>
      obtain ⟨leader, hhash, hunpopped⟩ := hfrom.inflight _ _ hentry
      refine hfrom.goto hphase rfl ?_
      exact Runs.occurred_concat_self hrun ⟨rfl, hentry, leader, hhash, hunpopped⟩
  | @leads c n hphase hentry =>
      have hleads : Happened poolHash (events ++ [.lockInflight c])
          (Leads poolHash c s.nextSlot) := Runs.occurred_concat_self hrun ⟨rfl, hentry, rfl⟩
      refine hfrom.update rfl hleads (fun h hmem => .inl hmem) ?_ ?_
      · intro slot result hslot
        by_cases heq : slot = s.nextSlot
        · rw [heq] at hslot
          simp [ClosenessState.leads, ClosenessSlot.new] at hslot
        · exact .inl (by simpa [ClosenessState.leads, Function.update_of_ne heq] using hslot)
      · intro h slot hslot
        dsimp only [ClosenessState.leads] at hslot
        by_cases heq : h = poolHash c
        · rw [heq, Function.update_self] at hslot
          exact .inl ⟨heq.symm, hslot⟩
        · rw [Function.update_of_ne heq] at hslot
          exact .inr ⟨hslot, fun hhash => absurd hhash.symm heq⟩
  | parks hphase => exact hfrom.goto hphase rfl (hfrom.phase_concat hphase _)
  | wakes hphase _ => exact hfrom.goto hphase rfl (hfrom.phase_concat hphase _)
  | @reads c n slot hphase =>
      refine hfrom.goto hphase (idle_afterWake n _).2.1
        (PhaseFrom.afterWake (hfrom.phase_concat hphase _) ?_)
      intro r hr
      obtain ⟨leader, hled⟩ := hfrom.result slot r hr
      exact ⟨leader, hled.concat _⟩
  | computes hphase =>
      exact hfrom.goto hphase rfl
        ⟨hfrom.phase_concat hphase _, Runs.occurred_concat_self hrun ⟨rfl, hphase⟩⟩
  | @publishes c slot result hphase =>
      have hled := hfrom.phase_concat hphase (.publish c)
      refine hfrom.update rfl hled (fun h hmem => .inl hmem) ?_ ?_
      · intro i r hr
        by_cases heq : i = slot
        · subst heq
          simp only [Function.update_self] at hr
          cases hold : (s.slots i).result with
          | some first =>
              rw [hold] at hr
              exact .inl hr
          | none =>
              rw [hold] at hr
              obtain rfl : result = r := Option.some.inj hr
              exact .inr ⟨c, hled⟩
        · exact .inl (by simpa [Function.update_of_ne heq] using hr)
      · intro h i hentry
        refine .inr ⟨hentry, fun _ hold => ?_⟩
        rw [hphase] at hold
        exact hold
  | @caches c slot hphase =>
      have hled := hfrom.phase_concat hphase (.cachePass c)
      refine hfrom.update rfl ⟨hled.1, fun r hr => Option.some.inj hr ▸ hled⟩ ?_
        (fun i r hr => .inl hr) ?_
      · intro h hmem
        rcases List.mem_cons.mp hmem with rfl | hold
        · exact .inr ⟨c, slot, rfl, hled⟩
        · exact .inl hold
      · intro h i hentry
        refine .inr ⟨hentry, fun _ hold => ?_⟩
        rw [hphase] at hold
        exact hold
  | @fails c slot e hphase =>
      have hled := hfrom.phase_concat hphase (.cachePass c)
      exact hfrom.goto hphase rfl ⟨hled.1, fun r hr => Option.some.inj hr ▸ hled⟩
  | @pops c slot outcome hphase =>
      have hled := hfrom.phase_concat hphase (.popSlot c)
      refine hfrom.update rfl hled (fun h hmem => .inl hmem) (fun i r hr => .inl hr) ?_
      intro h i hentry
      dsimp only at hentry
      by_cases hours : s.inflightCloseness (poolHash c) = some slot
      · rw [if_pos hours] at hentry
        by_cases heq : h = poolHash c
        · rw [heq, Function.update_self] at hentry
          cases hentry
        · rw [Function.update_of_ne heq] at hentry
          exact .inr ⟨hentry, fun hhash => absurd hhash.symm heq⟩
      · rw [if_neg hours] at hentry
        refine .inr ⟨hentry, ?_⟩
        rintro rfl hold
        rw [hphase] at hold
        obtain rfl : slot = i := Option.some.inj hold
        exact absurd hentry hours
  | @fires c slot outcome hphase =>
      have hled := hfrom.phase_concat hphase (.notifyWaiters c)
      refine hfrom.update rfl (fun r hr => .ownRun slot (hled.2 r hr)) (fun h hmem => .inl hmem)
        ?_ ?_
      · intro i r hr
        by_cases heq : i = slot
        · subst heq
          exact .inl (by simpa [ClosenessState.fires] using hr)
        · exact .inl (by simpa [ClosenessState.fires, Function.update_of_ne heq] using hr)
      · intro h i hentry
        refine .inr ⟨hentry, fun _ hold => ?_⟩
        rw [hphase] at hold
        cases hold
  | cancelsStart hphase =>
      refine hfrom.goto hphase rfl fun r hr => ?_
      cases hr
  | cancelsParked hphase =>
      refine hfrom.goto hphase rfl fun r hr => ?_
      cases hr
  | cancelsLeader hphase =>
      refine hfrom.goto hphase rfl ⟨hfrom.phase_concat hphase _, fun r hr => ?_⟩
      cases hr
  | evictsInflight h =>
      refine hfrom.evict rfl rfl (fun _ hmem => hmem) ?_
      intro h' slot hentry
      dsimp only at hentry
      by_cases heq : h' = h
      · rw [heq, Function.update_self] at hentry
        cases hentry
      · rwa [Function.update_of_ne heq] at hentry
  | evictsPass h =>
      exact hfrom.evict rfl rfl (fun _ hmem => List.mem_of_mem_filter hmem) fun _ _ hentry => hentry

theorem from_run (hrun : Runs.run (ClosenessState.step poolHash) init events = some s) :
    From poolHash events s := by
  refine Runs.history_induction ?_ (fun events mid e s' hmid hfrom hstep =>
    hfrom.step hmid hstep) hrun
  refine ⟨fun _ => trivial, fun _ hmem => ?_, fun _ _ hresult => ?_, fun _ _ hentry => ?_⟩
  · cases hmem
  · cases hresult
  · cases hentry

/-! ### A dropped slot stays dropped -/

omit [DecidableEq P] in
theorem afterWake_ne_start (n : Nat) (result : Option ClosenessResult) :
    afterWake n result ≠ .start := by
  unfold afterWake
  split
  · exact ClosenessPhase.noConfusion
  · exact ClosenessPhase.noConfusion
  · split <;> exact ClosenessPhase.noConfusion

/-- A caller moves, and starts to guard no slot. -/
def GuardsNoNew (s s' : ClosenessState P) : Prop :=
  ∃ c phase, s'.phase = Function.update s.phase c phase ∧ s'.nextSlot = s.nextSlot ∧
    (∀ slot, phase.unpopped = some slot → (s.phase c).unpopped = some slot) ∧
    (phase = .start → s.phase c = .start)

omit [DecidableEq P] in
theorem guardsNoNew_of_ne_start (c : Nat) {phase : ClosenessPhase}
    (hphase : s'.phase = Function.update s.phase c phase) (hnext : s'.nextSlot = s.nextSlot)
    (hguards : phase.unpopped = none ∨ phase.unpopped = (s.phase c).unpopped)
    (hne : phase ≠ .start) : GuardsNoNew s s' := by
  refine ⟨c, phase, hphase, hnext, fun slot hslot => ?_, fun hstart => absurd hstart hne⟩
  rcases hguards with hnone | hsame
  · rw [hnone] at hslot
    cases hslot
  · rwa [hsame] at hslot

/-- Either a caller moves and starts to guard no slot, or it puts a new one. -/
theorem step_moves (hstep : step poolHash s e = some s') :
    GuardsNoNew s s' ∨ ∃ c, e = .lockInflight c ∧ s' = leads poolHash s c := by
  cases transition_of_step hstep with
  | leads _ _ => exact .inr ⟨_, rfl, rfl⟩
  | reads _ =>
      refine .inl ⟨_, _, rfl, rfl, fun i hi => ?_, fun hstart => ?_⟩
      · rw [(idle_afterWake _ _).2.1] at hi
        cases hi
      · exact absurd hstart (afterWake_ne_start _ _)
  | hits | misses | finds | parks | wakes | pops | fires | cancelsStart | cancelsParked =>
      exact .inl (guardsNoNew_of_ne_start _ rfl rfl (.inl rfl) ClosenessPhase.noConfusion)
  | computes hphase | publishes hphase | caches hphase | fails hphase | cancelsLeader hphase =>
      exact .inl (guardsNoNew_of_ne_start _ rfl rfl (.inr (by rw [hphase]; rfl))
        ClosenessPhase.noConfusion)
  | evictsInflight h | evictsPass h =>
      exact .inl ⟨0, s.phase 0, (Function.update_eq_self 0 s.phase).symm, rfl,
        fun _ hslot => hslot, fun hstart => hstart⟩

theorem nextSlot_le_of_step (hstep : step poolHash s e = some s') : s.nextSlot ≤ s'.nextSlot := by
  rcases step_moves hstep with ⟨c, phase, -, hnext, -, -⟩ | ⟨c, -, rfl⟩
  · exact hnext.ge
  · exact Nat.le_succ _

/-- The slot was put, and its guard has dropped. -/
def Dropped (slot : Nat) (s : ClosenessState P) : Prop :=
  slot < s.nextSlot ∧ ∀ c, (s.phase c).unpopped ≠ some slot

theorem Dropped.step {slot : Nat} (hdropped : Dropped slot s)
    (hstep : step poolHash s e = some s') : Dropped slot s' := by
  refine ⟨hdropped.1.trans_le (nextSlot_le_of_step hstep), fun c hunpopped => ?_⟩
  rcases step_moves hstep with ⟨moved, phase, hphase, -, hkept, -⟩ | ⟨leader, -, rfl⟩
  · rw [hphase] at hunpopped
    by_cases heq : c = moved
    · rw [heq, Function.update_self] at hunpopped
      exact hdropped.2 moved (hkept slot hunpopped)
    · rw [Function.update_of_ne heq] at hunpopped
      exact hdropped.2 c hunpopped
  · have hphase : (leads poolHash s leader).phase
        = Function.update s.phase leader (.leading s.nextSlot) := rfl
    rw [hphase] at hunpopped
    by_cases heq : c = leader
    · rw [heq, Function.update_self] at hunpopped
      exact absurd (Option.some.inj hunpopped) hdropped.1.ne'
    · rw [Function.update_of_ne heq] at hunpopped
      exact hdropped.2 c hunpopped

theorem Dropped.run {slot : Nat} (hdropped : Dropped slot s)
    (hrun : Runs.run (ClosenessState.step poolHash) s events = some s') : Dropped slot s' :=
  Runs.stable_of_run (Dropped slot) (fun _ _ _ hdropped hstep => hdropped.step hstep) hdropped hrun

/-! ### Every slot has one leader -/

theorem leads_lt_and_unique (hrun : Runs.run (step poolHash) init events = some s) :
    (∀ c slot, Happened poolHash events (Leads poolHash c slot) → slot < s.nextSlot) ∧
    ∀ c c' slot, Happened poolHash events (Leads poolHash c slot) →
      Happened poolHash events (Leads poolHash c' slot) → c = c' := by
  refine Runs.history_induction (I := fun events s =>
    (∀ c slot, Happened poolHash events (Leads poolHash c slot) → slot < s.nextSlot) ∧
    ∀ c c' slot, Happened poolHash events (Leads poolHash c slot) →
      Happened poolHash events (Leads poolHash c' slot) → c = c') ?_ ?_ hrun
  · constructor
    · rintro c slot ⟨before, e, after, -, hnil, -⟩
      simp at hnil
    · rintro c c' slot ⟨before, e, after, -, hnil, -⟩
      simp at hnil
  · rintro events mid e s' hmid ⟨hlt, hunique⟩ hstep
    have hnew : ∀ c slot, Leads poolHash c slot mid e →
        e = .lockInflight c ∧ slot = mid.nextSlot ∧ slot < s'.nextSlot := by
      rintro c slot ⟨rfl, hentry, rfl⟩
      refine ⟨rfl, rfl, ?_⟩
      cases transition_of_step hstep with
      | finds _ hfound =>
          rw [hentry] at hfound
          cases hfound
      | leads => exact Nat.lt_succ_self _
    constructor
    · intro c slot hleads
      rcases (Runs.occurred_concat_iff hmid).mp hleads with hold | hnow
      · exact (hlt c slot hold).trans_le (nextSlot_le_of_step hstep)
      · exact (hnew c slot hnow).2.2
    · intro c c' slot hleads hleads'
      rcases (Runs.occurred_concat_iff hmid).mp hleads with hold | hnow
      · rcases (Runs.occurred_concat_iff hmid).mp hleads' with hold' | hnow'
        · exact hunique c c' slot hold hold'
        · exact absurd (hnew c' slot hnow').2.1 (hlt c slot hold).ne
      · rcases (Runs.occurred_concat_iff hmid).mp hleads' with hold' | hnow'
        · exact absurd (hnew c slot hnow).2.1 (hlt c' slot hold').ne
        · have heq := (hnew c slot hnow).1.symm.trans (hnew c' slot hnow').1
          exact ClosenessEvent.lockInflight.inj heq

theorem joins_leads {slot : Nat} (hjoins : Happened poolHash events (Joins poolHash c slot)) :
    ∃ leader, poolHash leader = poolHash c ∧
      Happened poolHash events (Leads poolHash leader slot) := by
  obtain ⟨before, e, after, mid, rfl, hmid, -, -, leader, hhash, hunpopped⟩ := hjoins
  have hleads := ((from_run hmid).phase leader).leads hunpopped
  exact ⟨leader, hhash, hleads.append _⟩

/-! ### A call that starts later -/

theorem start_of_run (hrun : Runs.run (step poolHash) s events = some s')
    (hstart : s'.phase c = .start) : s.phase c = .start := by
  induction events generalizing s with
  | nil =>
      obtain rfl : s = s' := Option.some.inj hrun
      exact hstart
  | cons e events ih =>
      obtain ⟨mid, hmid, hrun⟩ := Runs.run_cons_eq_some.mp hrun
      have hnext := ih hrun
      rcases step_moves hmid with ⟨moved, phase, hphase, -, -, hkept⟩ | ⟨leader, -, rfl⟩
      · rw [hphase] at hnext
        by_cases heq : c = moved
        · rw [heq, Function.update_self] at hnext
          exact heq ▸ hkept hnext
        · rwa [Function.update_of_ne heq] at hnext
      · have hphase : (leads poolHash s leader).phase
            = Function.update s.phase leader (.leading s.nextSlot) := rfl
        rw [hphase] at hnext
        by_cases heq : c = leader
        · rw [heq, Function.update_self] at hnext
          cases hnext
        · rwa [Function.update_of_ne heq] at hnext

theorem not_start_of_acts (hstep : step poolHash s e = some s')
    (hacts : e = .checkPassCache c ∨ e = .lockInflight c) : s'.phase c ≠ .start := by
  intro hstart
  rcases hacts with rfl | rfl
  · cases transition_of_step hstep with
    | hits | misses =>
        rw [goto_phase_self] at hstart
        cases hstart
  · cases transition_of_step hstep with
    | finds =>
        rw [goto_phase_self] at hstart
        cases hstart
    | leads =>
        dsimp only [leads] at hstart
        rw [Function.update_self] at hstart
        cases hstart

/-- What a caller did, it did after the time it had not started. -/
theorem occurred_later {later : List (ClosenessEvent P)} {mid : ClosenessState P}
    {taken : ClosenessState P → ClosenessEvent P → Prop}
    (hacts : ∀ s e, taken s e → e = .checkPassCache c ∨ e = .lockInflight c)
    (hmid : Runs.run (step poolHash) init events = some mid) (hstart : mid.phase c = .start)
    (hhappened : Happened poolHash (events ++ later) taken) :
    Runs.Occurred (step poolHash) taken mid later := by
  rcases hhappened.split hmid with hearly | hlate
  · obtain ⟨s₁, e, s₂, rest, htaken, hstep, hrest⟩ := hearly.exists_step hmid
    exact absurd (start_of_run hrest hstart) (not_start_of_acts hstep (hacts s₁ e htaken))
  · exact hlate

theorem slot_ne_of_dropped {later : List (ClosenessEvent P)} {slot slot' : Nat}
    (hdropped : Dropped slot s)
    (hoccurred : Runs.Occurred (step poolHash)
      (fun s e => Leads poolHash c slot' s e ∨ Joins poolHash c slot' s e) s later) :
    slot' ≠ slot := by
  obtain ⟨before, e, after, mid, -, hmid, htaken⟩ := hoccurred
  have hmid := hdropped.run hmid
  rcases htaken with ⟨-, -, rfl⟩ | ⟨-, -, leader, -, hunpopped⟩
  · exact hmid.1.ne'
  · rintro rfl
    exact hmid.2 leader hunpopped

end Steps

/-! ### The verdicts -/

section Verdicts

variable {H : Type} [Digest H] [QuoteProtocol H] [MerkleProtocol H]

/-- The hash each caller is called with. -/
def poolHashes (pool : Nat → MerklePaymentCandidatePool H) (c : Nat) : H := poolHash (pool c)

/-- The inner runs return what the check of the pool says, under some network view. -/
def InnerRunsCheck (pool : Nat → MerklePaymentCandidatePool H) (events : List (ClosenessEvent H)) :
    Prop :=
  ∀ c result, .innerReturns c result ∈ events →
    ∃ lookup, verifyMerkleCandidateClosenessInner lookup (pool c) = result

/-- An inner run on the pool passed. -/
def PassedInner (pool : Nat → MerklePaymentCandidatePool H) (events : List (ClosenessEvent H))
    (p : MerklePaymentCandidatePool H) : Prop :=
  ∃ c slot, pool c = p ∧ LedTo (poolHashes pool) events c slot (.ok ()) ∧
    ∃ lookup, verifyMerkleCandidateClosenessInner lookup p = .ok ()

/-- What the pass cache and every returned verdict rest on. -/
structure SoundVerdicts (pool : Nat → MerklePaymentCandidatePool H)
    (events : List (ClosenessEvent H)) (s : ClosenessState H) : Prop where
  ok_of_inner : ∀ c, s.phase c = .done (some (.ok ())) → PassedInner pool events (pool c)
  passCache_of_inner : ∀ h ∈ s.closenessPassCache, ∃ p, poolHash p = h ∧ PassedInner pool events p
  error_of_joined : ∀ c error, s.phase c = .done (some (.error error)) →
    (∃ slot, LedTo (poolHashes pool) events c slot (.error error)) ∨
    (∃ slot leader e, error = "payment error: " ++ e ∧ pool leader = pool c ∧
      LedTo (poolHashes pool) events leader slot (.error e) ∧
      Happened (poolHashes pool) events (Joins (poolHashes pool) c slot)) ∨
    .error error = leaderLost
  later_calls : ∀ before after mid slot c, events = before ++ after →
    Runs.run (step (poolHashes pool)) init before = some mid → Dropped slot mid →
    mid.phase c = .start → ∀ result, s.phase c = .done (some result) →
      Runs.Occurred (step (poolHashes pool)) (HitsPassCache (poolHashes pool) c) mid after ∨
      ∃ slot', slot' ≠ slot ∧ Runs.Occurred (step (poolHashes pool))
        (fun s e => Leads (poolHashes pool) c slot' s e ∨ Joins (poolHashes pool) c slot' s e)
        mid after

variable {pool : Nat → MerklePaymentCandidatePool H} {events : List (ClosenessEvent H)}
  {s : ClosenessState H}

omit [QuoteProtocol H] in
theorem mem_of_happened_innerReturns {c slot : Nat} {result : ClosenessResult}
    (hreturned : Happened (poolHashes pool) events (InnerReturns c slot result)) :
    .innerReturns c result ∈ events := by
  obtain ⟨before, e, after, mid, rfl, -, rfl, -⟩ := hreturned
  simp

theorem passedInner_of_led {c slot : Nat} (hinner : InnerRunsCheck pool events)
    (hled : LedTo (poolHashes pool) events c slot (.ok ())) : PassedInner pool events (pool c) :=
  ⟨c, slot, rfl, hled, hinner c _ (mem_of_happened_innerReturns hled.2)⟩

omit [QuoteProtocol H] in
/-- The leader of a slot that a caller joined has the caller's pool. -/
theorem pool_eq_of_joins {c leader slot : Nat} {result : ClosenessResult}
    (hinj : Function.Injective (poolHash : MerklePaymentCandidatePool H → H))
    (hrun : Runs.run (step (poolHashes pool)) init events = some s)
    (hjoins : Happened (poolHashes pool) events (Joins (poolHashes pool) c slot))
    (hled : LedTo (poolHashes pool) events leader slot result) : pool leader = pool c := by
  obtain ⟨leader', hhash, hleads⟩ := joins_leads hjoins
  obtain rfl : leader' = leader := (leads_lt_and_unique hrun).2 leader' leader slot hleads hled.1
  exact hinj hhash

theorem passedInner_of_hits {c : Nat}
    (hinj : Function.Injective (poolHash : MerklePaymentCandidatePool H → H))
    (hinner : InnerRunsCheck pool events)
    (hits : Happened (poolHashes pool) events (HitsPassCache (poolHashes pool) c)) :
    PassedInner pool events (pool c) := by
  obtain ⟨before, e, after, mid, rfl, hmid, -, -, hmem⟩ := hits
  obtain ⟨c', slot, hhash, hleads, hreturned⟩ := (from_run hmid).passCache _ hmem
  have hpool : pool c' = pool c := hinj hhash
  rw [← hpool]
  exact passedInner_of_led hinner ⟨hleads.append _, hreturned.append _⟩

/-- **Verdicts rest on inner runs, and no failure is cached.** For every interleaving of calls,
cancellations and evictions: an `Ok` returned for a pool, or cached for its hash, was returned by an
inner run on that pool before; an error of an inner run reaches its own caller and callers that
found its slot in flight; and a call that starts after a guard dropped hits a pass, or leads or
joins another slot. -/
theorem soundVerdicts
    (hinj : Function.Injective (poolHash : MerklePaymentCandidatePool H → H))
    (hinner : InnerRunsCheck pool events)
    (hrun : Runs.run (step (poolHashes pool)) init events = some s) :
    SoundVerdicts pool events s := by
  have hfrom := from_run hrun
  have hreturned : ∀ c result, s.phase c = .done (some result) →
      ReturnedFrom (poolHashes pool) events c result := by
    intro c result hdone
    have hphase := hfrom.phase c
    rw [hdone] at hphase
    exact hphase result rfl
  refine ⟨?_, ?_, ?_, ?_⟩
  · intro c hdone
    cases hreturned c _ hdone with
    | passCache hits => exact passedInner_of_hits hinj hinner hits
    | ownRun slot led => exact passedInner_of_led hinner led
    | leader slot leader leaderResult joins led result_eq =>
        rw [← pool_eq_of_joins hinj hrun joins led]
        cases leaderResult with
        | ok => exact passedInner_of_led hinner led
        | error e => cases result_eq
    | leaderLost slot joins result_eq => cases result_eq
  · intro h hmem
    obtain ⟨c, slot, hhash, hled⟩ := hfrom.passCache h hmem
    exact ⟨pool c, hhash, passedInner_of_led hinner hled⟩
  · intro c error hdone
    cases hreturned c _ hdone with
    | passCache hits result_eq => cases result_eq
    | ownRun slot led => exact .inl ⟨slot, led⟩
    | leader slot leader leaderResult joins led result_eq =>
        cases leaderResult with
        | ok => cases result_eq
        | error e =>
            exact .inr (.inl ⟨slot, leader, e, Except.error.inj result_eq,
              pool_eq_of_joins hinj hrun joins led, led, joins⟩)
    | leaderLost slot joins result_eq => exact .inr (.inr result_eq)
  · rintro before after mid slot c rfl hmid hdropped hstart result hdone
    have hother : ∀ slot', Happened (poolHashes pool) (before ++ after)
        (fun s e => Leads (poolHashes pool) c slot' s e ∨ Joins (poolHashes pool) c slot' s e) →
        ∃ slot', slot' ≠ slot ∧ Runs.Occurred (step (poolHashes pool))
          (fun s e => Leads (poolHashes pool) c slot' s e ∨ Joins (poolHashes pool) c slot' s e)
          mid after := by
      intro slot' hhappened
      have hlater := occurred_later (fun s e htaken => .inr (htaken.elim And.left And.left)) hmid
        hstart hhappened
      exact ⟨slot', slot_ne_of_dropped hdropped hlater, hlater⟩
    cases hreturned c _ hdone with
    | passCache hits => exact .inl (occurred_later (fun s e htaken => .inl htaken.1) hmid hstart hits)
    | ownRun slot' led => exact .inr (hother slot' (led.1.mono fun _ _ => .inl))
    | leader slot' leader leaderResult joins => exact .inr (hother slot' (joins.mono fun _ _ => .inr))
    | leaderLost slot' joins => exact .inr (hother slot' (joins.mono fun _ _ => .inr))

end Verdicts

def timedOutLookup : String :=
  "Merkle candidate pool rejected: authoritative network lookup " ++
    "timed out. Retry once the network lookup completes."

section Three

variable {P : Type}

def secondWaits : List (ClosenessEvent P) :=
  [.checkPassCache 0, .lockInflight 0, .checkPassCache 1, .lockInflight 1, .buildNotified 1]

def firstFails : List (ClosenessEvent P) :=
  [.innerReturns 0 (.error timedOutLookup), .publish 0, .cachePass 0, .popSlot 0, .notifyWaiters 0]

def thirdLeads : List (ClosenessEvent P) :=
  [.checkPassCache 2, .lockInflight 2, .wake 1, .readResult 1]

def thirdPasses : List (ClosenessEvent P) :=
  [.innerReturns 2 (.ok ()), .publish 2, .cachePass 2, .popSlot 2, .notifyWaiters 2]

/-- The inner run of the first caller fails while a second one waits for it. A third caller comes
when the guard is dropped, and its own run passes. -/
def failedThenPassed : List (ClosenessEvent P) :=
  secondWaits ++ firstFails ++ thirdLeads ++ thirdPasses

end Three

/-- The phases of three callers, with the others still to come. -/
def phases (first second third : ClosenessPhase) : Nat → ClosenessPhase
  | 0 => first
  | 1 => second
  | 2 => third
  | _ + 3 => .start

/-- Two slots, with none made after them. -/
def slotsOf (first second : ClosenessSlot) : Nat → ClosenessSlot
  | 0 => first
  | 1 => second
  | _ + 2 => .new

section Updates

variable {a b c x : ClosenessPhase} {p q r : ClosenessSlot}

theorem update_phases_zero : Function.update (phases a b c) 0 x = phases x b c := by
  funext i
  match i with
  | 0 | 1 | 2 | _ + 3 => rfl

theorem update_phases_one : Function.update (phases a b c) 1 x = phases a x c := by
  funext i
  match i with
  | 0 | 1 | 2 | _ + 3 => rfl

theorem update_phases_two : Function.update (phases a b c) 2 x = phases a b x := by
  funext i
  match i with
  | 0 | 1 | 2 | _ + 3 => rfl

theorem update_slotsOf_zero : Function.update (slotsOf p q) 0 r = slotsOf r q := by
  funext i
  match i with
  | 0 | 1 | _ + 2 => rfl

theorem update_slotsOf_one : Function.update (slotsOf p q) 1 r = slotsOf p r := by
  funext i
  match i with
  | 0 | 1 | _ + 2 => rfl

end Updates

/-- Everybody calls with the same hash. -/
def sharing (h : P) (cache : List P) (inflight : Option Nat) (slots : Nat → ClosenessSlot)
    (nextSlot : Nat) (phase : Nat → ClosenessPhase) : ClosenessState P :=
  ⟨cache, Function.update (fun _ => none) h inflight, slots, nextSlot, phase⟩

theorem init_eq_sharing (h : P) :
    init = sharing h [] none (slotsOf .new .new) 0 (phases .start .start .start) := by
  have hslots : (fun _ => .new : Nat → ClosenessSlot) = slotsOf .new .new := by
    funext i
    match i with
    | 0 | 1 | _ + 2 => rfl
  have hphases : (fun _ => .start : Nat → ClosenessPhase) = phases .start .start .start := by
    funext i
    match i with
    | 0 | 1 | 2 | _ + 3 => rfl
  rw [init, sharing, Function.update_eq_self_iff.mpr rfl, hslots, hphases]

/-- The first caller has failed, and the second one waits for it. -/
def afterFailure (h : P) : ClosenessState P :=
  sharing h [] none (slotsOf ⟨1, some (.error timedOutLookup)⟩ .new) 1
    (phases (.done (some (.error timedOutLookup))) (.parked 0 0 0) .start)

theorem run_firstFails (h : P) :
    Runs.run (step fun _ => h) init (secondWaits ++ firstFails) = some (afterFailure h) := by
  have hwaits : Runs.run (step fun _ => h) init secondWaits =
      some (sharing h [] (some 0) (slotsOf .new .new) 1
        (phases (.leading 0) (.parked 0 0 0) .start)) := by
    rw [init_eq_sharing h]
    simp [secondWaits, Runs.run, step, sharing, phases, slotsOf, goto, ClosenessSlot.new,
      update_phases_zero, update_phases_one, update_slotsOf_zero]
  refine Runs.run_append_eq_some.mpr ⟨_, hwaits, ?_⟩
  simp [firstFails, Runs.run, step, afterFailure, sharing, phases, slotsOf, goto,
    ClosenessSlot.new, update_phases_zero, update_slotsOf_zero]

/-- The second caller has returned the text of that failure, and the third one has passed. -/
def afterPass (h : P) : ClosenessState P :=
  sharing h [h] none (slotsOf ⟨1, some (.error timedOutLookup)⟩ ⟨1, some (.ok ())⟩) 2
    (phases (.done (some (.error timedOutLookup)))
      (.done (some (.error ("payment error: " ++ timedOutLookup)))) (.done (some (.ok ()))))

theorem run_thirdPasses (h : P) :
    Runs.run (step fun _ => h) (afterFailure h) (thirdLeads ++ thirdPasses) =
      some (afterPass h) := by
  have hwake : ∀ e, afterWake 0 (some (.error e)) = .done (some (.error ("payment error: " ++ e))) :=
    fun _ => rfl
  have hleads : Runs.run (step fun _ => h) (afterFailure h) thirdLeads =
      some (sharing h [] (some 1) (slotsOf ⟨1, some (.error timedOutLookup)⟩ .new) 2
        (phases (.done (some (.error timedOutLookup)))
          (.done (some (.error ("payment error: " ++ timedOutLookup)))) (.leading 1))) := by
    simp [thirdLeads, Runs.run, step, afterFailure, sharing, phases, slotsOf, goto, hwake,
      ClosenessSlot.new, update_phases_one, update_phases_two, update_slotsOf_one]
  refine Runs.run_append_eq_some.mpr ⟨_, hleads, ?_⟩
  simp [thirdPasses, Runs.run, step, afterPass, sharing, phases, slotsOf, goto, ClosenessSlot.new,
    update_phases_two, update_slotsOf_one]

theorem run_failedThenPassed (h : P) :
    Runs.run (step fun _ => h) init failedThenPassed = some (afterPass h) := by
  rw [failedThenPassed, List.append_assoc]
  exact Runs.run_append_eq_some.mpr ⟨_, run_firstFails h, run_thirdPasses h⟩

theorem soundVerdicts_failedThenPassed :
    let pool := (Transcript.merkleProofPriced 5).winnerPool
    ∃ s, Runs.run (step (poolHashes fun _ => pool)) init failedThenPassed = some s ∧
      s.phase 0 = .done (some (.error timedOutLookup)) ∧
      s.phase 1 = .done (some (.error ("payment error: " ++ timedOutLookup))) ∧
      s.phase 2 = .done (some (.ok ())) ∧ s.closenessPassCache = [poolHash pool] ∧
      SoundVerdicts (fun _ => pool) failedThenPassed s := by
  intro pool
  have hinner : InnerRunsCheck (fun _ => pool) failedThenPassed := by
    intro c result hmem
    obtain ⟨rfl, rfl⟩ | ⟨rfl, rfl⟩ : (c = 0 ∧ result = .error timedOutLookup) ∨
        (c = 2 ∧ result = .ok ()) := by
      simpa [failedThenPassed, secondWaits, firstFails, thirdLeads, thirdPasses] using hmem
    · exact ⟨some fun _ _ => .timedOut, by decide +kernel⟩
    · exact ⟨Transcript.sixteenPeers, by decide +kernel⟩
  have hrun := run_failedThenPassed (poolHash pool)
  exact ⟨_, hrun, rfl, rfl, rfl, rfl, soundVerdicts Transcript.poolHash_injective hinner hrun⟩

end ClosenessState

end AntNode
