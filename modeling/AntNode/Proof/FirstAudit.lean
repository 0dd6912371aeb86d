import AntNode.FirstAuditDrainer

/-!
# What becomes of a monetized pin

Pins wait by peer and audits are remembered by pin. While no peer's event names a pin that another
peer was audited for, an event that was received has been audited, still waits, gave way to a later
event of its peer or was looked at outside its window.
-/

namespace AntNode

open Runs

variable {H : Type} [DecidableEq H]

/-- No event that arrives or comes up names a pin audited for another peer. -/
def DrainerEvent.Own (d : FirstAuditDrainer H) : DrainerEvent H → Prop
  | .receive e => ∀ a ∈ d.launched, a.pin = e.pin → a.peer = e.peer
  | .turn _ _ => ∀ entry ∈ d.snapshot.head?,
      ∀ a ∈ d.launched, a.pin = entry.2.pin → a.peer = entry.2.peer
  | _ => True

instance DrainerEvent.decidableOwn (d : FirstAuditDrainer H) :
    (event : DrainerEvent H) → Decidable (event.Own d)
  | .receive e => inferInstanceAs (Decidable (∀ a ∈ d.launched, a.pin = e.pin → a.peer = e.peer))
  | .turn _ _ => inferInstanceAs (Decidable (∀ entry ∈ d.snapshot.head?,
      ∀ a ∈ d.launched, a.pin = entry.2.pin → a.peer = entry.2.peer))
  | .tick => .isTrue trivial
  | .drained => .isTrue trivial
  | .writeCooldown _ => .isTrue trivial

namespace FirstAuditDrainer

variable {d d' mid : FirstAuditDrainer H} {received : List (MonetizedPinEvent H)}
  {e : MonetizedPinEvent H} {events : List (DrainerEvent H)}

/-- A later event of the same peer takes the place of `e`. -/
def Replaces (e : MonetizedPinEvent H) (d : FirstAuditDrainer H) (event : DrainerEvent H) : Prop :=
  ∃ e', event = .receive e' ∧ e'.peer = e.peer ∧ d.firstAudited.contains e'.pin = false ∧
    (e.peer, e) ∈ d.pending.entries

/-- The loop comes to `e` when its quote is outside the audit window. -/
def Outdates (e : MonetizedPinEvent H) (d : FirstAuditDrainer H) (event : DrainerEvent H) : Prop :=
  ∃ now instant, event = .turn now instant ∧ d.snapshot.head? = some (e.peer, e) ∧
    quoteWithinAuditWindow e.quoteTs now = false

/-- What became of an event received just before `mid`, when the state is `d`. -/
def Accounted (e : MonetizedPinEvent H) (mid : FirstAuditDrainer H) (after : List (DrainerEvent H))
    (d : FirstAuditDrainer H) : Prop :=
  (∃ a ∈ d.launched, a.peer = e.peer ∧ a.pin = e.pin) ∨ (e.peer, e) ∈ d.queue ∨
    Occurred step (Replaces e) mid after ∨ Occurred step (Outdates e) mid after

/-- The state of a drainer whose events are among `received`. -/
structure Sound (received : List (MonetizedPinEvent H)) (d : FirstAuditDrainer H) : Prop where
  peers_le : (received.map MonetizedPinEvent.peer).toFinset.card ≤ d.pending.cap
  pins_le : (received.map MonetizedPinEvent.pin).toFinset.card ≤ d.firstAudited.cap
  queued : ∀ entry ∈ d.queue, entry.1 = entry.2.peer ∧ entry.2 ∈ received
  distinct : (d.queue.map Prod.fst).Nodup
  launched_mem : ∀ a ∈ d.launched, a ∈ received
  launched_nodup : (d.launched.map MonetizedPinEvent.pin).Nodup
  audited : ∀ pin, d.firstAudited.contains pin = true ↔ ∃ a ∈ d.launched, a.pin = pin

/-! ### The steps -/

theorem step_cases {event : DrainerEvent H} (hstep : d.step event = some d') :
    (∃ e phase, event = .receive e ∧ d.snapshot = [] ∧ d' = { d.takeIn e with phase := phase } ∧
      d'.snapshot = []) ∨
    ((event = .tick ∨ event = .drained) ∧ d.snapshot = [] ∧ d' = d.beginAudits) ∨
    (∃ now instant peer e rest, event = .turn now instant ∧ d.snapshot = (peer, e) :: rest ∧
      d' = { d.auditTurn peer e now instant with phase := .resume rest }) ∨
    ∃ map, event = .writeCooldown map ∧ d' = { d with cooldown := map } := by
  cases event with
  | receive e =>
      cases hphase : d.phase with
      | waiting =>
          simp only [step, hphase] at hstep
          obtain rfl := Option.some.inj hstep
          exact .inl ⟨e, _, rfl, by rw [snapshot, hphase], rfl, rfl⟩
      | draining drained =>
          simp only [step, hphase] at hstep
          split at hstep
          · obtain rfl := Option.some.inj hstep
            exact .inl ⟨e, _, rfl, by rw [snapshot, hphase], rfl, rfl⟩
          · cases hstep
      | auditing entries =>
          simp only [step, hphase] at hstep
          cases hstep
  | tick =>
      cases hphase : d.phase with
      | waiting =>
          simp only [step, hphase] at hstep
          obtain rfl := Option.some.inj hstep
          exact .inr (.inl ⟨.inl rfl, by rw [snapshot, hphase], rfl⟩)
      | draining drained =>
          simp only [step, hphase] at hstep
          cases hstep
      | auditing entries =>
          simp only [step, hphase] at hstep
          cases hstep
  | drained =>
      cases hphase : d.phase with
      | waiting =>
          simp only [step, hphase] at hstep
          cases hstep
      | draining drained =>
          simp only [step, hphase] at hstep
          obtain rfl := Option.some.inj hstep
          exact .inr (.inl ⟨.inr rfl, by rw [snapshot, hphase], rfl⟩)
      | auditing entries =>
          simp only [step, hphase] at hstep
          cases hstep
  | turn now instant =>
      cases hphase : d.phase with
      | waiting =>
          simp only [step, hphase] at hstep
          cases hstep
      | draining drained =>
          simp only [step, hphase] at hstep
          cases hstep
      | auditing entries =>
          cases entries with
          | nil =>
              simp only [step, hphase] at hstep
              cases hstep
          | cons entry rest =>
              simp only [step, hphase] at hstep
              obtain rfl := Option.some.inj hstep
              exact .inr (.inr (.inl ⟨now, instant, entry.1, entry.2, rest, rfl,
                by rw [snapshot, hphase], rfl⟩))
  | writeCooldown map => exact .inr (.inr (.inr ⟨map, rfl, (Option.some.inj hstep).symm⟩))

theorem auditTurn_cases (d : FirstAuditDrainer H) (peer : H) (e : MonetizedPinEvent H)
    (now instant : Nat) :
    (d.firstAudited.contains e.pin = true ∧ d.auditTurn peer e now instant = d) ∨
    (quoteWithinAuditWindow e.quoteTs now = false ∧ d.auditTurn peer e now instant = d) ∨
    (d.firstAudited.contains e.pin = false ∧ ∃ cooldown, d.auditTurn peer e now instant =
      { d with
        firstAudited := d.firstAudited.put e.pin ()
        cooldown := cooldown
        launched := e :: d.launched }) ∨
    ∃ cooldown, d.auditTurn peer e now instant =
      { d with pending := d.pending.put peer e, cooldown := cooldown } := by
  unfold auditTurn
  split_ifs with haudited hwindow
  · exact .inl ⟨haudited, rfl⟩
  · exact .inr (.inl ⟨hwindow, rfl⟩)
  · dsimp only
    split
    · exact .inr (.inr (.inl ⟨Bool.not_eq_true _ ▸ haudited, _, rfl⟩))
    · exact .inr (.inr (.inr ⟨_, rfl⟩))

/-! ### The queue -/

theorem queue_resume (firstAudited : Lru H Unit) (pending : Lru H (MonetizedPinEvent H))
    (rest : List (H × MonetizedPinEvent H)) (cooldown : CooldownMap H)
    (launched : List (MonetizedPinEvent H)) :
    (⟨firstAudited, pending, .resume rest, cooldown, launched⟩ : FirstAuditDrainer H).queue
      = pending.entries ++ rest := by
  cases rest <;> rfl

theorem perm_queue_beginAudits (hsnapshot : d.snapshot = []) :
    d.beginAudits.queue.Perm d.queue := by
  unfold beginAudits
  split_ifs with hempty
  · rw [queue, queue, hsnapshot]
    exact List.Perm.refl _
  · rw [queue, queue, hsnapshot, List.append_nil]
    exact List.reverse_perm _

theorem Sound.pending_mem (hsound : Sound received d) {entry : H × MonetizedPinEvent H}
    (hentry : entry ∈ d.pending.entries) :
    entry.1 ∈ (received.map MonetizedPinEvent.peer).toFinset := by
  obtain ⟨hpeer, hmem⟩ := hsound.queued entry (List.mem_append_left _ hentry)
  rw [hpeer, List.mem_toFinset]
  exact List.mem_map_of_mem hmem

theorem Sound.entries_put (hsound : Sound received d) (he : e ∈ received) :
    (d.pending.put e.peer e).entries
      = (e.peer, e) :: d.pending.entries.filter fun entry => decide (entry.1 ≠ e.peer) :=
  Lru.entries_put (fun _ => hsound.pending_mem)
    (List.mem_toFinset.mpr (List.mem_map_of_mem he)) hsound.peers_le

/-- A pin that is put back waits in place of the one taken from the snapshot. -/
theorem Sound.perm_putBack (hsound : Sound received d) {rest : List (H × MonetizedPinEvent H)}
    (hsnapshot : d.snapshot = (e.peer, e) :: rest) :
    ((d.pending.put e.peer e).entries ++ rest).Perm d.queue := by
  have hqueue : d.queue = d.pending.entries ++ (e.peer, e) :: rest := by rw [queue, hsnapshot]
  have he : e ∈ received := (hsound.queued (e.peer, e) (by simp [hqueue])).2
  have hdistinct := hsound.distinct
  rw [hqueue, List.map_append, List.map_cons, List.nodup_append] at hdistinct
  have hfilter : d.pending.entries.filter (fun entry => decide (entry.1 ≠ e.peer))
      = d.pending.entries := by
    apply List.filter_eq_self.mpr
    intro entry hentry
    exact decide_eq_true (hdistinct.2.2 _ (List.mem_map_of_mem hentry) _ List.mem_cons_self)
  rw [hsound.entries_put he, hfilter, hqueue]
  exact List.perm_middle.symm

/-! ### Soundness -/

theorem sound_start (cooldown : CooldownMap H)
    (hpeers : (received.map MonetizedPinEvent.peer).toFinset.card < maxLastCommitmentByPeer)
    (hpins : (received.map MonetizedPinEvent.pin).toFinset.card < maxLastCommitmentByPeer) :
    Sound received (start cooldown) where
  peers_le := hpeers.le
  pins_le := hpins.le
  queued := by simp [queue, snapshot, start, Lru.empty]
  distinct := by simp [queue, snapshot, start, Lru.empty]
  launched_mem := by simp [start]
  launched_nodup := by simp [start]
  audited := by simp [start, Lru.contains, Lru.peek, Lru.empty]

/-- Only the queue changes, and nothing enters it. -/
theorem Sound.of_subperm (hsound : Sound received d) (hqueue : d'.queue.Subperm d.queue)
    (hcap : d'.pending.cap = d.pending.cap) (haudited : d'.firstAudited = d.firstAudited)
    (hlaunched : d'.launched = d.launched) : Sound received d' where
  peers_le := hcap ▸ hsound.peers_le
  pins_le := haudited ▸ hsound.pins_le
  queued := fun entry hentry => hsound.queued entry (hqueue.subset hentry)
  distinct := by
    obtain ⟨queue, hperm, hsub⟩ := hqueue
    exact (hperm.map Prod.fst).nodup_iff.mp (hsound.distinct.sublist (hsub.map Prod.fst))
  launched_mem := hlaunched ▸ hsound.launched_mem
  launched_nodup := hlaunched ▸ hsound.launched_nodup
  audited := by
    rw [haudited, hlaunched]
    exact hsound.audited

theorem Sound.receive (hsound : Sound received d) (he : e ∈ received) (hsnapshot : d.snapshot = [])
    {phase : DrainerPhase H}
    (hafter : ({ d.takeIn e with phase := phase } : FirstAuditDrainer H).snapshot = []) :
    Sound received { d.takeIn e with phase := phase } := by
  unfold takeIn at hafter ⊢
  split_ifs at hafter ⊢ with haudited
  · refine hsound.of_subperm ?_ rfl rfl rfl
    rw [queue, queue, hafter, hsnapshot]
  · have hqueue : ({ d with pending := d.pending.put e.peer e, phase := phase } :
        FirstAuditDrainer H).queue
        = (e.peer, e) :: d.pending.entries.filter fun entry => decide (entry.1 ≠ e.peer) := by
      rw [queue, hafter, List.append_nil]
      exact hsound.entries_put he
    refine ⟨hsound.peers_le, hsound.pins_le, ?_, ?_, hsound.launched_mem, hsound.launched_nodup,
      hsound.audited⟩
    · intro entry hentry
      rw [hqueue] at hentry
      rcases List.mem_cons.mp hentry with rfl | hold
      · exact ⟨rfl, he⟩
      · exact hsound.queued entry (List.mem_append_left _ (List.mem_of_mem_filter hold))
    · rw [hqueue, ← hsound.entries_put he]
      exact (d.pending.put e.peer e).nodup

/-- A launch moves the pin from the queue to those audited. -/
theorem Sound.launch (hsound : Sound received d) {rest : List (H × MonetizedPinEvent H)}
    (hsnapshot : d.snapshot = (e.peer, e) :: rest)
    (hfresh : d.firstAudited.contains e.pin = false) (cooldown : CooldownMap H) :
    Sound received
      { d with
        firstAudited := d.firstAudited.put e.pin ()
        cooldown := cooldown
        launched := e :: d.launched
        phase := .resume rest } := by
  have hqueue : d.queue = d.pending.entries ++ (e.peer, e) :: rest := by rw [queue, hsnapshot]
  have hsub : (d.pending.entries ++ rest).Sublist d.queue := by
    rw [hqueue]
    exact (List.Sublist.refl _).append (List.sublist_cons_self _ _)
  have he : e ∈ received := (hsound.queued (e.peer, e) (by simp [hqueue])).2
  have hseen : ∀ entry ∈ d.firstAudited.entries,
      entry.1 ∈ (received.map MonetizedPinEvent.pin).toFinset := by
    intro entry hentry
    obtain ⟨a, ha, hpin⟩ := (hsound.audited entry.1).mp (Lru.contains_iff.mpr ⟨entry.2, hentry⟩)
    rw [← hpin, List.mem_toFinset]
    exact List.mem_map_of_mem (hsound.launched_mem a ha)
  have hother : ∀ a ∈ d.launched, a.pin ≠ e.pin := by
    intro a ha hpin
    have hcontains := (hsound.audited e.pin).mpr ⟨a, ha, hpin⟩
    rw [hfresh] at hcontains
    cases hcontains
  refine ⟨hsound.peers_le, hsound.pins_le, ?_, ?_, ?_, ?_, ?_⟩
  · rw [queue_resume]
    exact fun entry hentry => hsound.queued entry (hsub.subset hentry)
  · rw [queue_resume]
    exact hsound.distinct.sublist (hsub.map Prod.fst)
  · exact List.forall_mem_cons.mpr ⟨he, hsound.launched_mem⟩
  · rw [List.map_cons, List.nodup_cons]
    refine ⟨fun hmem => ?_, hsound.launched_nodup⟩
    obtain ⟨a, ha, hpin⟩ := List.mem_map.mp hmem
    exact hother a ha hpin
  · intro pin
    rw [Lru.contains_put hseen (List.mem_toFinset.mpr (List.mem_map_of_mem he)) hsound.pins_le,
      hsound.audited, List.exists_mem_cons_iff, eq_comm]

theorem Sound.turn (hsound : Sound received d) {peer : H} {rest : List (H × MonetizedPinEvent H)}
    (hsnapshot : d.snapshot = (peer, e) :: rest) (now instant : Nat) :
    Sound received { d.auditTurn peer e now instant with phase := .resume rest } := by
  obtain rfl : peer = e.peer :=
    (hsound.queued (peer, e) (by simp [queue, hsnapshot])).1
  have hsub : (d.pending.entries ++ rest).Sublist d.queue := by
    rw [queue, hsnapshot]
    exact (List.Sublist.refl _).append (List.sublist_cons_self _ _)
  have hdropped : Sound received { d with phase := .resume rest } := by
    refine hsound.of_subperm ?_ rfl rfl rfl
    rw [queue_resume]
    exact hsub.subperm
  rcases auditTurn_cases d e.peer e now instant with
    ⟨-, heq⟩ | ⟨-, heq⟩ | ⟨hfresh, cooldown, heq⟩ | ⟨cooldown, heq⟩
  · rw [heq]
    exact hdropped
  · rw [heq]
    exact hdropped
  · rw [heq]
    exact hsound.launch hsnapshot hfresh cooldown
  · rw [heq]
    refine hsound.of_subperm ?_ rfl rfl rfl
    rw [queue_resume]
    exact (hsound.perm_putBack hsnapshot).subperm

theorem sound_step {event : DrainerEvent H} (hsound : Sound received d)
    (hreceived : ∀ e, event = .receive e → e ∈ received) (hstep : d.step event = some d') :
    Sound received d' := by
  rcases step_cases hstep with ⟨e, phase, rfl, hsnapshot, rfl, hafter⟩ | ⟨-, hsnapshot, rfl⟩ |
    ⟨now, instant, peer, e, rest, rfl, hsnapshot, rfl⟩ | ⟨map, rfl, rfl⟩
  · exact hsound.receive (hreceived e rfl) hsnapshot hafter
  · have hqueue := (perm_queue_beginAudits hsnapshot).subperm
    unfold beginAudits at hqueue ⊢
    split_ifs at hqueue ⊢
    · exact hsound.of_subperm hqueue rfl rfl rfl
    · exact hsound.of_subperm hqueue rfl rfl rfl
  · exact hsound.turn hsnapshot now instant
  · exact hsound.of_subperm (List.Subperm.refl _) rfl rfl rfl

/-! ### One event -/

theorem launched_subset_step {event : DrainerEvent H} (hstep : d.step event = some d') :
    d.launched ⊆ d'.launched := by
  rcases step_cases hstep with ⟨e, phase, rfl, -, rfl, -⟩ | ⟨-, -, rfl⟩ |
    ⟨now, instant, peer, e, rest, rfl, -, rfl⟩ | ⟨map, rfl, rfl⟩
  · unfold takeIn
    split_ifs <;> exact List.Subset.refl _
  · unfold beginAudits
    split_ifs <;> exact List.Subset.refl _
  · rcases auditTurn_cases d peer e now instant with
      ⟨-, heq⟩ | ⟨-, heq⟩ | ⟨-, cooldown, heq⟩ | ⟨cooldown, heq⟩ <;> rw [heq]
    · exact List.Subset.refl _
    · exact List.Subset.refl _
    · exact List.subset_cons_self _ _
    · exact List.Subset.refl _
  · exact List.Subset.refl _

/-- The pin the loop comes to is audited, put back or outside its window. -/
theorem accounted_turn (hsound : Sound received d) (rest : List (H × MonetizedPinEvent H))
    (hown : ∀ a ∈ d.launched, a.pin = e.pin → a.peer = e.peer) (now instant : Nat) :
    let d' := { d.auditTurn e.peer e now instant with phase := .resume rest }
    (∃ a ∈ d'.launched, a.peer = e.peer ∧ a.pin = e.pin) ∨ (e.peer, e) ∈ d'.queue ∨
      quoteWithinAuditWindow e.quoteTs now = false := by
  intro d'
  rcases auditTurn_cases d e.peer e now instant with
    ⟨haudited, heq⟩ | ⟨hwindow, -⟩ | ⟨-, cooldown, heq⟩ | ⟨cooldown, heq⟩
  · obtain ⟨a, ha, hpin⟩ := (hsound.audited e.pin).mp haudited
    refine .inl ⟨a, ?_, hown a ha hpin, hpin⟩
    change a ∈ (d.auditTurn e.peer e now instant).launched
    rw [heq]
    exact ha
  · exact .inr (.inr hwindow)
  · refine .inl ⟨e, ?_, rfl, rfl⟩
    change e ∈ (d.auditTurn e.peer e now instant).launched
    rw [heq]
    exact List.mem_cons_self
  · refine .inr (.inl ?_)
    change (e.peer, e) ∈ ({ d.auditTurn e.peer e now instant with phase := .resume rest } :
      FirstAuditDrainer H).queue
    rw [heq, queue_resume]
    exact List.mem_append_left _ Lru.mem_put_self

/-- A pin the loop has not come to stays. -/
theorem waiting_turn (hsound : Sound received d) {peer : H} {e' : MonetizedPinEvent H}
    {rest : List (H × MonetizedPinEvent H)} (hsnapshot : d.snapshot = (peer, e') :: rest)
    (hwait : (e.peer, e) ∈ d.pending.entries ++ rest) (now instant : Nat) :
    (e.peer, e) ∈ ({ d.auditTurn peer e' now instant with phase := .resume rest } :
      FirstAuditDrainer H).queue := by
  obtain rfl : peer = e'.peer := (hsound.queued (peer, e') (by simp [queue, hsnapshot])).1
  rcases auditTurn_cases d e'.peer e' now instant with
    ⟨-, heq⟩ | ⟨-, heq⟩ | ⟨-, cooldown, heq⟩ | ⟨cooldown, heq⟩ <;> rw [heq, queue_resume]
  · exact hwait
  · exact hwait
  · exact hwait
  · rw [(hsound.perm_putBack hsnapshot).mem_iff, queue, hsnapshot]
    rcases List.mem_append.mp hwait with hpending | hrest
    · exact List.mem_append_left _ hpending
    · exact List.mem_append_right _ (List.mem_cons_of_mem _ hrest)

theorem waiting_step {event : DrainerEvent H} (hsound : Sound received d) (hown : event.Own d)
    (hreceived : ∀ e', event = .receive e' → e' ∈ received) (hstep : d.step event = some d')
    (hwait : (e.peer, e) ∈ d.queue) :
    (∃ a ∈ d'.launched, a.peer = e.peer ∧ a.pin = e.pin) ∨ (e.peer, e) ∈ d'.queue ∨
      Replaces e d event ∨ Outdates e d event := by
  rcases step_cases hstep with ⟨e', phase, rfl, hsnapshot, rfl, hafter⟩ | ⟨-, hsnapshot, rfl⟩ |
    ⟨now, instant, peer, e', rest, rfl, hsnapshot, rfl⟩ | ⟨map, rfl, rfl⟩
  · rw [queue, hsnapshot, List.append_nil] at hwait
    cases haudited : d.firstAudited.contains e'.pin with
    | true =>
        refine .inr (.inl ?_)
        rw [takeIn, if_pos haudited] at hafter ⊢
        exact List.mem_append_left _ hwait
    | false =>
        by_cases hpeer : e'.peer = e.peer
        · exact .inr (.inr (.inl ⟨e', rfl, hpeer, haudited, hwait⟩))
        · refine .inr (.inl ?_)
          rw [takeIn, if_neg (by simp [haudited])] at hafter ⊢
          refine List.mem_append_left _ ?_
          rw [hsound.entries_put (hreceived e' rfl)]
          refine List.mem_cons_of_mem _ (List.mem_filter.mpr ⟨hwait, ?_⟩)
          exact decide_eq_true fun hsame => hpeer hsame.symm
  · exact .inr (.inl ((perm_queue_beginAudits hsnapshot).mem_iff.mpr hwait))
  · rw [queue, hsnapshot] at hwait
    rcases List.mem_append.mp hwait with hpending | hrest
    · exact .inr (.inl (waiting_turn hsound hsnapshot (List.mem_append_left _ hpending) _ _))
    · rcases List.mem_cons.mp hrest with hhead | hrest
      · obtain ⟨rfl, rfl⟩ := Prod.mk.inj hhead
        have hhead : d.snapshot.head? = some (e.peer, e) := by rw [hsnapshot, List.head?_cons]
        rcases accounted_turn hsound rest (hown _ hhead) now instant with
          haudited | hwaits | hwindow
        · exact .inl haudited
        · exact .inr (.inl hwaits)
        · exact .inr (.inr (.inr ⟨now, instant, rfl, hhead, hwindow⟩))
      · exact .inr (.inl (waiting_turn hsound hsnapshot (List.mem_append_right _ hrest) _ _))
  · exact .inr (.inl hwait)

theorem Accounted.step {event : DrainerEvent H} {after : List (DrainerEvent H)}
    (haccounted : Accounted e mid after d) (hsound : Sound received d) (hown : event.Own d)
    (hreceived : ∀ e', event = .receive e' → e' ∈ received)
    (hrun : run FirstAuditDrainer.step mid after = some d) (hstep : d.step event = some d') :
    Accounted e mid (after ++ [event]) d' := by
  rcases haccounted with ⟨a, ha, hsame⟩ | hwait | hreplaced | houtdated
  · exact .inl ⟨a, launched_subset_step hstep ha, hsame⟩
  · rcases waiting_step hsound hown hreceived hstep hwait with
      haudited | hwaits | hreplaces | houtdates
    · exact .inl haudited
    · exact .inr (.inl hwaits)
    · exact .inr (.inr (.inl (occurred_concat_self hrun hreplaces)))
    · exact .inr (.inr (.inr (occurred_concat_self hrun houtdates)))
  · exact .inr (.inr (.inl (hreplaced.concat event)))
  · exact .inr (.inr (.inr (houtdated.concat event)))

/-- An event that arrives waits, unless its peer was audited for the pin before. -/
theorem accounted_receive (hsound : Sound received d) (hown : (DrainerEvent.receive e).Own d)
    (hstep : d.step (.receive e) = some d') : Accounted e d' [] d' := by
  rcases step_cases hstep with ⟨e', phase, hevent, -, rfl, -⟩ | ⟨hevent, -⟩ |
    ⟨now, instant, peer, e', rest, hevent, -⟩ | ⟨map, hevent, -⟩
  · obtain rfl := DrainerEvent.receive.inj hevent
    unfold takeIn
    split_ifs with haudited
    · obtain ⟨a, ha, hpin⟩ := (hsound.audited e.pin).mp haudited
      exact .inl ⟨a, ha, hown a ha hpin, hpin⟩
    · exact .inr (.inl (List.mem_append_left _ Lru.mem_put_self))
  · rcases hevent with hevent | hevent <;> cases hevent
  · cases hevent
  · cases hevent

/-! ### Whole runs -/

theorem mem_receivedIn : e ∈ receivedIn events ↔ DrainerEvent.receive e ∈ events := by
  rw [receivedIn, List.mem_filterMap]
  constructor
  · rintro ⟨event, hevent, hreceive⟩
    cases event with
    | receive e' =>
        obtain rfl := Option.some.inj hreceive
        exact hevent
    | tick => cases hreceive
    | drained => cases hreceive
    | turn now instant => cases hreceive
    | writeCooldown map => cases hreceive
  · intro hevent
    exact ⟨_, hevent, rfl⟩

theorem drainer_sound_of_run (hreceived : ∀ e, DrainerEvent.receive e ∈ events → e ∈ received)
    (hsound : Sound received d) (hrun : run step d events = some d') : Sound received d' := by
  have hevents : Along step (fun _ event => ∀ e, event = .receive e → e ∈ received) d events := by
    refine along_of_forall ?_
    rintro event hevent - e rfl
    exact hreceived e hevent
  exact invariant_of_run (fun _ _ _ hsound hevent hstep => sound_step hsound hevent hstep) hsound
    hevents hrun

theorem accounted_of_run {after : List (DrainerEvent H)}
    (hreceived : ∀ e, DrainerEvent.receive e ∈ after → e ∈ received) (hsound : Sound received mid)
    (hown : Along step (fun d event => event.Own d) mid after) (haccounted : Accounted e mid [] mid)
    (hrun : run step mid after = some d) : Accounted e mid after d := by
  revert hreceived hown
  refine history_induction (I := fun after d =>
    (∀ e, DrainerEvent.receive e ∈ after → e ∈ received) →
    Along step (fun d event => event.Own d) mid after → Accounted e mid after d) ?_ ?_ hrun
  · exact fun _ _ => haccounted
  · intro after d event d' hd ih hstep hreceived hown
    have hbefore : ∀ e, DrainerEvent.receive e ∈ after → e ∈ received :=
      fun e he => hreceived e (List.mem_append_left _ he)
    obtain ⟨hownBefore, hownLast⟩ := hown.split hd
    have hsoundBefore := drainer_sound_of_run hbefore hsound hd
    refine (ih hbefore hownBefore).step hsoundBefore hownLast ?_ hd hstep
    rintro e' rfl
    exact hreceived e' (by simp)

/-- With room in both caches, every audit is launched once, for an event that was received. While no
peer's event meets a pin audited for another, no event is lost either. -/
theorem first_audits_accounted {cooldown : CooldownMap H}
    (hpeers : ((receivedIn events).map MonetizedPinEvent.peer).toFinset.card
      < maxLastCommitmentByPeer)
    (hpins : ((receivedIn events).map MonetizedPinEvent.pin).toFinset.card
      < maxLastCommitmentByPeer)
    (hrun : run step (start cooldown) events = some d) :
    (d.launched.map fun a => (a.peer, a.pin)).Nodup ∧
    (∀ a ∈ d.launched, a ∈ receivedIn events) ∧
    (Along step (fun d event => event.Own d) (start cooldown) events →
      ∀ before e after mid, events = before ++ .receive e :: after →
        run step (start cooldown) (before ++ [.receive e]) = some mid → Accounted e mid after d) := by
  have hreceived : ∀ e, DrainerEvent.receive e ∈ events → e ∈ receivedIn events :=
    fun e => mem_receivedIn.mpr
  have hstart := sound_start cooldown hpeers hpins
  have hsound := drainer_sound_of_run hreceived hstart hrun
  refine ⟨?_, hsound.launched_mem, ?_⟩
  · refine List.Nodup.of_map Prod.snd ?_
    rw [List.map_map]
    exact hsound.launched_nodup
  · rintro hown before e after mid rfl hmid
    obtain ⟨last, hlast, hstep⟩ := run_concat_eq_some.mp hmid
    have hbefore := drainer_sound_of_run (fun e' he' => hreceived e' (by simp [he'])) hstart hlast
    have hmidSound := sound_step hbefore (fun e' he' => hreceived e' (by simp [he'])) hstep
    have hownHere := (hown.split hlast).2
    rw [List.append_cons] at hown hrun
    obtain ⟨mid', hmid', hlater⟩ := run_append_eq_some.mp hrun
    obtain rfl : mid = mid' := Option.some.inj (hmid.symm.trans hmid')
    exact accounted_of_run (fun e' he' => hreceived e' (by simp [he'])) hmidSound
      (hown.right hmid) (accounted_receive hbefore hownHere hstep) hlater

/-- Two peers with a pin each: the first is audited at once, the second waits for its cooldown. -/
theorem first_audits_accounted_twoPeers :
    let first : MonetizedPinEvent Nat := ⟨1, 10, 5, 0⟩
    let second : MonetizedPinEvent Nat := ⟨2, 20, 5, 0⟩
    let after : List (DrainerEvent Nat) :=
      [.drained, .turn 0 0, .writeCooldown (AList.insert 2 0 ∅), .turn 0 0]
    ∃ mid d, run step (start ∅) [.receive first, .receive second] = some mid ∧
      run step mid after = some d ∧ d.launched = [first] ∧ d.pending.entries = [(2, second)] ∧
      Accounted second mid after d := by
  intro first second after
  set events : List (DrainerEvent Nat) := [.receive first, .receive second] ++ after with hevents
  obtain ⟨d, hrun⟩ := Option.isSome_iff_exists.mp
    (show (run step (start ∅) events).isSome = true by decide +kernel)
  have hreport : (run step (start ∅) events).map (fun d => (d.launched, d.pending.entries))
      = some ([first], [(2, second)]) := by decide +kernel
  rw [hrun] at hreport
  obtain ⟨hlaunched, hpending⟩ := Prod.mk.inj (Option.some.inj hreport)
  obtain ⟨mid, hmid, hlater⟩ := run_append_eq_some.mp hrun
  obtain ⟨-, -, haccounted⟩ := first_audits_accounted (by decide) (by decide) hrun
  exact ⟨mid, d, hmid, hlater, hlaunched, hpending,
    haccounted (by decide +kernel) [.receive first] second after mid rfl hmid⟩

/-- **An audit of one peer is taken for another's.** The second peer's event names the pin the first
was audited for. It is dropped as done, and the peer is not audited for it. -/
theorem first_audits_pinClaimed :
    let first : MonetizedPinEvent Nat := ⟨1, 10, 5, 0⟩
    let second : MonetizedPinEvent Nat := ⟨2, 10, 5, 0⟩
    let before : List (DrainerEvent Nat) := [.receive first, .drained, .turn 0 0]
    ∃ d, run step (start ∅) (before ++ [.receive second]) = some d ∧
      ¬ Accounted second d [] d := by
  intro first second before
  obtain ⟨d, hrun⟩ := Option.isSome_iff_exists.mp
    (show (run step (start ∅) (before ++ [.receive second])).isSome = true by decide +kernel)
  have hreport : (run step (start ∅) (before ++ [.receive second])).map
      (fun d => (d.launched, d.queue)) = some ([first], []) := by decide +kernel
  rw [hrun] at hreport
  obtain ⟨hlaunched, hqueue⟩ := Prod.mk.inj (Option.some.inj hreport)
  have hnone : ∀ P : FirstAuditDrainer Nat → DrainerEvent Nat → Prop, ¬ Occurred step P d [] := by
    rintro P ⟨earlier, event, later, mid, hsplit, -⟩
    simp at hsplit
  refine ⟨d, hrun, ?_⟩
  rintro (⟨a, ha, hpeer, -⟩ | hwait | hreplaced | houtdated)
  · rw [hlaunched] at ha
    obtain rfl := List.mem_singleton.mp ha
    cases hpeer
  · rw [hqueue] at hwait
    cases hwait
  · exact hnone _ hreplaced
  · exact hnone _ houtdated

end FirstAuditDrainer

end AntNode
