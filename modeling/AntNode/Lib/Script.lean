import Mathlib.Order.Defs.Unbundled

/-!
# Scripts

A script runs on a state, may fail, and keeps what it did to the state when it does. `attempt` lets
another script look at the failure. A script goes along a preorder when it never takes a state
outside it, whether it fails or not, and scripts that do so compose. To keep an invariant is to go
along one such preorder.
-/

def Script (σ ε α : Type) : Type := σ → Except ε α × σ

namespace Script

variable {σ ε ε' α β : Type}

instance : Monad (Script σ ε) where
  pure a := fun s => (.ok a, s)
  bind x f := fun s =>
    match x s with
    | (.ok a, mid) => f a mid
    | (.error e, mid) => (.error e, mid)

def fail (e : ε) : Script σ ε α := fun s => (.error e, s)

def look : Script σ ε σ := fun s => (.ok s, s)

def update (f : σ → σ) : Script σ ε Unit := fun s => (.ok (), f s)

/-- Run a script and hand on its outcome. -/
def attempt (x : Script σ ε α) : Script σ ε' (Except ε α) := fun s => (.ok (x s).1, (x s).2)

def mapError (f : ε → ε') (x : Script σ ε α) : Script σ ε' α := fun s =>
  ((x s).1.mapError f, (x s).2)

def ofExcept (x : Except ε α) : Script σ ε α := fun s => (x, s)

/-! ### Successful runs -/

theorem bind_eq_ok {x : Script σ ε α} {f : α → Script σ ε β} {s s' : σ} {b : β} :
    (x >>= f) s = (.ok b, s') ↔ ∃ a mid, x s = (.ok a, mid) ∧ f a mid = (.ok b, s') := by
  change (match x s with
    | (.ok a, mid) => f a mid
    | (.error e, mid) => (.error e, mid)) = _ ↔ _
  rcases x s with ⟨e | a, mid⟩
  · simp
  · constructor
    · exact fun hrun => ⟨a, mid, rfl, hrun⟩
    · rintro ⟨a', mid', heq, hrun⟩
      obtain ⟨ha, rfl⟩ := Prod.mk.inj heq
      obtain rfl := Except.ok.inj ha
      exact hrun

theorem pure_eq_ok {a b : α} {s s' : σ} :
    (pure a : Script σ ε α) s = (.ok b, s') ↔ a = b ∧ s = s' := by
  change ((.ok a, s) : Except ε α × σ) = _ ↔ _
  simp

theorem exists_run {x : Script σ ε α} {s : σ} {a : α} (hok : (x s).1 = .ok a) :
    ∃ s', x s = (.ok a, s') ∧ (x s).2 = s' :=
  ⟨(x s).2, Prod.ext hok rfl, rfl⟩

theorem look_bind (f : σ → Script σ ε β) (s : σ) : (look >>= f) s = f s s := rfl

theorem update_bind (g : σ → σ) (f : Unit → Script σ ε β) (s : σ) :
    (update g >>= f) s = f () (g s) := rfl

theorem fail_ne_ok {e : ε} {s s' : σ} {a : α} : (fail e : Script σ ε α) s ≠ (.ok a, s') := by
  simp [fail]

theorem update_eq_ok {g : σ → σ} {s s' : σ} {u : Unit} :
    (update g : Script σ ε Unit) s = (.ok u, s') ↔ g s = s' := by
  simp [update]

theorem mapError_eq_ok {f : ε → ε'} {x : Script σ ε α} {s s' : σ} {a : α} :
    mapError f x s = (.ok a, s') ↔ x s = (.ok a, s') := by
  rw [mapError]
  rcases x s with ⟨e | b, mid⟩
  · change ((.error (f e), mid) : Except ε' α × σ) = _ ↔ _
    simp
  · change ((.ok b, mid) : Except ε' α × σ) = _ ↔ _
    simp

theorem ofExcept_eq_ok {x : Except ε α} {s s' : σ} {a : α} :
    ofExcept x s = (.ok a, s') ↔ x = .ok a ∧ s = s' := by
  simp [ofExcept]

theorem attempt_eq_ok {x : Script σ ε α} {s s' : σ} {result : Except ε α} :
    (attempt x : Script σ ε' _) s = (.ok result, s') ↔ x s = (result, s') := by
  rw [attempt]
  rcases x s with ⟨outcome, mid⟩
  simp

/-! ### Along a preorder -/

/-- Whatever the outcome, the script takes a state to one above it. -/
def Goes (R : σ → σ → Prop) (x : Script σ ε α) : Prop := ∀ s, R s (x s).2

variable {R : σ → σ → Prop} {x : Script σ ε α} {f : α → Script σ ε β}

theorem Goes.of_eq (hx : Goes R x) {s s' : σ} {result : Except ε α} (heq : x s = (result, s')) :
    R s s' := by
  have hgoes := hx s
  rw [heq] at hgoes
  exact hgoes

/-- Where the first script succeeds, the second may rely on what it returned. -/
theorem Goes.bind_of [IsTrans σ R] {P : α → Prop} (hx : Goes R x)
    (hreturns : ∀ s s' a, x s = (.ok a, s') → P a) (hf : ∀ a, P a → Goes R (f a)) :
    Goes R (x >>= f) := by
  intro s
  have hfirst := hx s
  change R s (match x s with
    | (.ok a, mid) => f a mid
    | (.error e, mid) => (.error e, mid)).2
  rcases hrun : x s with ⟨e | a, mid⟩
  · rw [hrun] at hfirst
    exact hfirst
  · rw [hrun] at hfirst
    exact IsTrans.trans _ _ _ hfirst (hf a (hreturns s mid a hrun) mid)

theorem Goes.bind [IsTrans σ R] (hx : Goes R x) (hf : ∀ a, Goes R (f a)) : Goes R (x >>= f) :=
  hx.bind_of (P := fun _ => True) (fun _ _ _ _ => trivial) fun a _ => hf a

theorem Goes.pure [Std.Refl R] (a : α) : Goes R (Pure.pure a : Script σ ε α) := fun s => refl s

theorem Goes.fail [Std.Refl R] (e : ε) : Goes R (Script.fail e : Script σ ε α) := fun s => refl s

theorem Goes.look [Std.Refl R] : Goes R (Script.look : Script σ ε σ) := fun s => refl s

theorem Goes.ofExcept [Std.Refl R] (outcome : Except ε α) :
    Goes R (Script.ofExcept outcome : Script σ ε α) := fun s => refl s

theorem Goes.attempt (hx : Goes R x) : Goes R (Script.attempt x : Script σ ε' _) := hx

theorem Goes.mapError (hx : Goes R x) (g : ε → ε') : Goes R (Script.mapError g x) := hx

/-! ### Keeping an invariant -/

def Keeps (Inv : σ → Prop) (s s' : σ) : Prop := Inv s → Inv s'

variable {Inv : σ → Prop}

instance : Std.Refl (Keeps Inv) := ⟨fun _ => id⟩

instance : IsTrans σ (Keeps Inv) := ⟨fun _ _ _ hfirst hsecond => hsecond ∘ hfirst⟩

/-- The second script may rely on what the first returned in a state with the invariant. -/
theorem Goes.bind_keeps {P : α → Prop} (hx : Goes (Keeps Inv) x)
    (hreturns : ∀ s s' a, Inv s → x s = (.ok a, s') → P a)
    (hf : ∀ a, P a → Goes (Keeps Inv) (f a)) : Goes (Keeps Inv) (x >>= f) := by
  intro s hinv
  have hfirst := hx s hinv
  change Inv (match x s with
    | (.ok a, mid) => f a mid
    | (.error e, mid) => (.error e, mid)).2
  rcases hrun : x s with ⟨e | a, mid⟩
  · rw [hrun] at hfirst
    exact hfirst
  · rw [hrun] at hfirst
    exact hf a (hreturns s mid a hinv hrun) mid hfirst

end Script
