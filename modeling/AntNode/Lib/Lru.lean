import AntNode.Lib.MoveToFront

/-!
# Least-recently-used caches

A bounded map whose entries stand in the order of their last use, the latest first. Reading or
writing a key moves it to the front, and a write that finds the map full pushes the last entry out.
Every key has one entry, so what a cache holds for a key is a matter of membership.
-/

structure Lru (κ ν : Type) where
  cap : Nat
  entries : List (κ × ν)
  cap_pos : 0 < cap
  nodup : (entries.map Prod.fst).Nodup
  length_le : entries.length ≤ cap

namespace Lru

variable {κ ν : Type} [DecidableEq κ]

def empty (cap : Nat) (cap_pos : 0 < cap) : Lru κ ν :=
  ⟨cap, [], cap_pos, List.nodup_nil, Nat.zero_le cap⟩

def peek (cache : Lru κ ν) (k : κ) : Option ν :=
  (cache.entries.find? fun entry => decide (entry.1 = k)).map Prod.snd

/-- Write a key. -/
def put (cache : Lru κ ν) (k : κ) (v : ν) : Lru κ ν where
  cap := cache.cap
  entries := MoveToFront.push Prod.fst cache.cap (k, v) cache.entries
  cap_pos := cache.cap_pos
  nodup := MoveToFront.nodup_push cache.nodup
  length_le := List.length_take_le _ _

/-- Read a key, which moves its entry to the front. -/
def get (cache : Lru κ ν) (k : κ) : Option ν × Lru κ ν :=
  match cache.peek k with
  | none => (none, cache)
  | some v => (some v, cache.put k v)

/-- Whether a key has an entry, which does not count as a use. -/
def contains (cache : Lru κ ν) (k : κ) : Bool := (cache.peek k).isSome

def clear (cache : Lru κ ν) : Lru κ ν := empty cache.cap cache.cap_pos

/-- Drop the entry of a key. -/
def pop (cache : Lru κ ν) (k : κ) : Lru κ ν where
  cap := cache.cap
  entries := cache.entries.filter fun entry => decide (entry.1 ≠ k)
  cap_pos := cache.cap_pos
  nodup := cache.nodup.sublist (List.filter_sublist.map Prod.fst)
  length_le := (List.length_filter_le _ _).trans cache.length_le

variable {cache : Lru κ ν} {k : κ} {v : ν}

theorem peek_eq_some_iff : cache.peek k = some v ↔ (k, v) ∈ cache.entries := by
  rw [peek, Option.map_eq_some_iff]
  constructor
  · rintro ⟨⟨k', v'⟩, hfound, rfl⟩
    obtain rfl : k' = k := by simpa using List.find?_some hfound
    exact List.mem_of_find?_eq_some hfound
  · intro hmem
    have hsome : (cache.entries.find? fun entry => decide (entry.1 = k)).isSome = true :=
      List.find?_isSome.mpr ⟨(k, v), hmem, by simp⟩
    obtain ⟨entry, hentry⟩ := Option.isSome_iff_exists.mp hsome
    have hkey : entry.1 = k := by simpa using List.find?_some hentry
    have heq : entry = (k, v) :=
      List.inj_on_of_nodup_map cache.nodup (List.mem_of_find?_eq_some hentry) hmem hkey
    exact ⟨entry, hentry, by rw [heq]⟩

theorem contains_iff : cache.contains k = true ↔ ∃ v, (k, v) ∈ cache.entries := by
  rw [contains, Option.isSome_iff_exists]
  exact exists_congr fun v => peek_eq_some_iff

theorem mem_put {y : κ × ν} (hmem : y ∈ (cache.put k v).entries) :
    y = (k, v) ∨ y ∈ cache.entries ∧ y.1 ≠ k :=
  MoveToFront.mem_push hmem

theorem mem_put_self : (k, v) ∈ (cache.put k v).entries := by
  obtain ⟨cap, hcap⟩ := Nat.exists_eq_succ_of_ne_zero cache.cap_pos.ne'
  have hpush : (cache.put k v).entries = MoveToFront.push Prod.fst cache.cap (k, v) cache.entries :=
    rfl
  rw [hpush, MoveToFront.push, hcap, List.take_succ_cons]
  exact List.mem_cons_self

/-- A cache with room for every key in use pushes nothing out. -/
theorem entries_put {seen : Finset κ} (hseen : ∀ entry ∈ cache.entries, entry.1 ∈ seen)
    (hk : k ∈ seen) (hroom : seen.card ≤ cache.cap) :
    (cache.put k v).entries
      = (k, v) :: cache.entries.filter fun entry => decide (entry.1 ≠ k) := by
  have hnodup : (((k, v) :: cache.entries.filter fun entry => decide (entry.1 ≠ k)).map
      Prod.fst).Nodup := by
    rw [List.map_cons, List.nodup_cons]
    exact ⟨MoveToFront.notMem_filter_ne, cache.nodup.sublist (List.filter_sublist.map Prod.fst)⟩
  have hle := MoveToFront.length_le_card hnodup fun entry hentry => by
    rcases List.mem_cons.mp hentry with rfl | hold
    · exact hk
    · exact hseen entry (List.mem_of_mem_filter hold)
  exact List.take_of_length_le (hle.trans hroom)

theorem contains_put {seen : Finset κ} (hseen : ∀ entry ∈ cache.entries, entry.1 ∈ seen)
    (hk : k ∈ seen) (hroom : seen.card ≤ cache.cap) {k' : κ} :
    (cache.put k v).contains k' = true ↔ k' = k ∨ cache.contains k' = true := by
  rw [contains_iff, contains_iff, entries_put hseen hk hroom]
  by_cases hsame : k' = k
  · simp [hsame]
  · simp [hsame]

theorem peek_put_self : (cache.put k v).peek k = some v :=
  peek_eq_some_iff.mpr mem_put_self

/-- Writing what a key already holds changes the order only. -/
theorem mem_put_of_mem (hmem : (k, v) ∈ cache.entries) {y : κ × ν} :
    y ∈ (cache.put k v).entries ↔ y ∈ cache.entries := by
  have hsplit : ((k, v) :: cache.entries.filter fun entry => decide (entry.1 ≠ k)).Perm
      cache.entries := by
    obtain ⟨front, back, heq⟩ := List.append_of_mem hmem
    have hnodup := cache.nodup
    rw [heq, List.map_append, List.map_cons, List.nodup_append] at hnodup
    obtain ⟨-, hback, hdisjoint⟩ := hnodup
    have hfront : front.filter (fun entry => decide (entry.1 ≠ k)) = front := by
      apply List.filter_eq_self.mpr
      intro entry hentry
      exact decide_eq_true (hdisjoint _ (List.mem_map_of_mem hentry) k List.mem_cons_self)
    have hrest : back.filter (fun entry => decide (entry.1 ≠ k)) = back := by
      apply List.filter_eq_self.mpr
      intro entry hentry
      refine decide_eq_true fun hkey => ?_
      exact (List.nodup_cons.mp hback).1 (List.mem_map.mpr ⟨entry, hentry, hkey⟩)
    rw [heq, List.filter_append, List.filter_cons_of_neg (by simp), hfront, hrest]
    exact List.perm_middle.symm
  have hentries : (cache.put k v).entries
      = (k, v) :: cache.entries.filter fun entry => decide (entry.1 ≠ k) := by
    apply List.take_of_length_le
    rw [hsplit.length_eq]
    exact cache.length_le
  rw [hentries]
  exact hsplit.mem_iff

theorem get_fst : (cache.get k).1 = cache.peek k := by
  rw [get]
  cases cache.peek k <;> rfl

theorem mem_get {y : κ × ν} : y ∈ (cache.get k).2.entries ↔ y ∈ cache.entries := by
  rw [get]
  cases hpeek : cache.peek k with
  | none => exact Iff.rfl
  | some v => exact mem_put_of_mem (peek_eq_some_iff.mp hpeek)

end Lru
