import Mathlib.Data.Finmap
import Mathlib.Tactic

/-!
# Finite maps and what one loop does to one cell of them

Maps are equal when their lookups agree, so a statement about a map is one about each of its cells.
A loop that writes into maps is followed one cell at a time: what a step does to the cell is a
function of the cell alone, and the steps that do not own the cell leave it as it is.
-/

abbrev FiniteMap (κ α : Type) := Finmap fun _ : κ => α

namespace FiniteMap

variable {κ α β : Type} [DecidableEq κ] {m : FiniteMap κ α} {k k' : κ} {a : α}

/-- Change the value at a key, if there is one. -/
def modify (m : FiniteMap κ α) (k : κ) (f : α → α) : FiniteMap κ α :=
  match m.lookup k with
  | none => m
  | some a => m.insert k (f a)

/-- Add a value at a key that has none. -/
def orInsert (m : FiniteMap κ α) (k : κ) (a : α) : FiniteMap κ α :=
  if k ∈ m then m else m.insert k a

def mapValues (f : α → β) (m : FiniteMap κ α) : FiniteMap κ β where
  entries := m.entries.map fun entry => ⟨entry.1, f entry.2⟩
  nodupKeys := by
    rw [← Multiset.nodup_keys, Multiset.keys, Multiset.map_map]
    exact m.nodupKeys.nodup_keys

def retain (p : κ → α → Bool) (m : FiniteMap κ α) : FiniteMap κ α where
  entries := m.entries.filter fun entry => p entry.1 entry.2
  nodupKeys := by
    rw [← Multiset.nodup_keys]
    exact Multiset.nodup_of_le (Multiset.map_le_map (Multiset.filter_le _ _))
      m.nodupKeys.nodup_keys

omit [DecidableEq κ] in
theorem keys_filterMap_le (f : α → Option β) (entries : Multiset (Sigma fun _ : κ => α)) :
    (entries.filterMap fun entry =>
      (f entry.2).map fun b => (⟨entry.1, b⟩ : Sigma fun _ : κ => β)).keys ≤ entries.keys := by
  induction entries using Multiset.induction with
  | empty => exact le_refl _
  | cons entry entries ih =>
      cases hvalue : f entry.2 with
      | none =>
          rw [Multiset.filterMap_cons_none _ _ (by rw [hvalue]; rfl)]
          exact ih.trans (Multiset.map_le_map (Multiset.le_cons_self entries entry))
      | some b =>
          rw [Multiset.filterMap_cons_some _ _ _ (b := ⟨entry.1, b⟩) (by rw [hvalue]; rfl)]
          simpa [Multiset.keys] using ih

/-- What `f` makes of the values, where it makes anything of them. -/
def filterMapValues (f : α → Option β) (m : FiniteMap κ α) : FiniteMap κ β where
  entries := m.entries.filterMap fun entry => (f entry.2).map fun b => ⟨entry.1, b⟩
  nodupKeys := by
    rw [← Multiset.nodup_keys]
    exact Multiset.nodup_of_le (keys_filterMap_le f m.entries) m.nodupKeys.nodup_keys

theorem lookup_filterMapValues (f : α → Option β) :
    (filterMapValues f m).lookup k = (m.lookup k).bind f := by
  ext b
  rw [Finmap.lookup_eq_some_iff, filterMapValues, Multiset.mem_filterMap, Option.bind_eq_some_iff]
  constructor
  · rintro ⟨⟨k', a⟩, hmem, heq⟩
    obtain ⟨b', hb', heq⟩ := Option.map_eq_some_iff.mp heq
    cases heq
    exact ⟨a, Finmap.lookup_eq_some_iff.mpr hmem, hb'⟩
  · rintro ⟨a, hlookup, hb⟩
    exact ⟨⟨k, a⟩, Finmap.lookup_eq_some_iff.mp hlookup, by rw [hb]; rfl⟩

theorem lookup_retain_eq_some {p : κ → α → Bool} :
    (retain p m).lookup k = some a ↔ m.lookup k = some a ∧ p k a = true := by
  rw [Finmap.lookup_eq_some_iff, Finmap.lookup_eq_some_iff, retain, Multiset.mem_filter]

theorem lookup_mapValues (f : α → β) : (mapValues f m).lookup k = (m.lookup k).map f := by
  ext b
  rw [Finmap.lookup_eq_some_iff, mapValues, Multiset.mem_map, Option.map_eq_some_iff]
  constructor
  · rintro ⟨⟨k', a⟩, hmem, heq⟩
    cases heq
    exact ⟨a, Finmap.lookup_eq_some_iff.mpr hmem, rfl⟩
  · rintro ⟨a, hlookup, rfl⟩
    exact ⟨⟨k, a⟩, Finmap.lookup_eq_some_iff.mp hlookup, rfl⟩

theorem lookup_insert_eq :
    (m.insert k a).lookup k' = if k' = k then some a else m.lookup k' := by
  split_ifs with heq
  · subst heq
    exact Finmap.lookup_insert m
  · exact Finmap.lookup_insert_of_ne m heq

theorem lookup_modify (f : α → α) :
    (modify m k f).lookup k' = if k' = k then (m.lookup k').map f else m.lookup k' := by
  unfold modify
  split_ifs with heq
  · subst heq
    cases hlookup : m.lookup k' with
    | none => simp [hlookup]
    | some a => simp [Finmap.lookup_insert]
  · cases m.lookup k with
    | none => rfl
    | some a => exact Finmap.lookup_insert_of_ne m heq

theorem lookup_orInsert :
    (orInsert m k a).lookup k' =
      if k' = k then some ((m.lookup k').getD a) else m.lookup k' := by
  unfold orInsert
  split_ifs with hmem heq heq
  · subst heq
    obtain ⟨b, hlookup⟩ := Finmap.mem_iff.mp hmem
    rw [hlookup, Option.getD_some]
  · rfl
  · subst heq
    rw [Finmap.lookup_insert, Finmap.lookup_eq_none.mpr hmem, Option.getD_none]
  · exact Finmap.lookup_insert_of_ne m heq

end FiniteMap

/-- A cell after a loop whose owning steps all do the same to it, once or more. -/
theorem List.view_foldl {σ ι γ : Type} (step : σ → ι → σ) (view : σ → γ) (write : γ → γ)
    (Owns : ι → Prop) [DecidablePred Owns]
    (hstep : ∀ s i, view (step s i) = if Owns i then write (view s) else view s)
    (hidem : ∀ c, write (write c) = write c) (l : List ι) (s : σ) :
    view (l.foldl step s) = if ∃ i ∈ l, Owns i then write (view s) else view s := by
  induction l generalizing s with
  | nil => simp
  | cons i l ih =>
      rw [List.foldl_cons, ih, hstep]
      by_cases howns : Owns i <;> simp [howns, hidem]
