import Mathlib.Data.List.Basic
import Mathlib.Data.Nat.Bitwise
import Mathlib.Logic.Function.Iterate
import Mathlib.Tactic

/-!
# Left-packed binary trees, level by level

A level is a list of nodes. The level above pairs neighbours, and a node left without a partner at
the right edge is paired with itself. Nothing here says what a node is: `h` combines two children
into their parent and is arbitrary, except where a result asks for it to be injective.

Two facts carry everything else. Going one level up commutes with cutting a level at an even
position, so a block aligned to `2 ^ k` folds to exactly the node that the whole tree has above it.
And with `h` injective, two levels of the same length that fold to the same nodes are the same
level, so a fold can be undone.
-/

namespace LeftPacked

variable {α : Type*} (h : α → α → α)

/-- The level above: neighbours are combined, an unpaired last node with itself. -/
def nextLevel : List α → List α
  | [] => []
  | [x] => [h x x]
  | x :: y :: rest => h x y :: nextLevel rest

def foldUp (k : Nat) (level : List α) : List α :=
  (nextLevel h)^[k] level

@[simp]
theorem nextLevel_nil : nextLevel h [] = [] := rfl

@[simp]
theorem nextLevel_singleton (x : α) : nextLevel h [x] = [h x x] := rfl

@[simp]
theorem nextLevel_cons_cons (x y : α) (rest : List α) :
    nextLevel h (x :: y :: rest) = h x y :: nextLevel h rest := rfl

@[simp]
theorem foldUp_zero (level : List α) : foldUp h 0 level = level := rfl

theorem foldUp_succ (k : Nat) (level : List α) :
    foldUp h (k + 1) level = nextLevel h (foldUp h k level) :=
  Function.iterate_succ_apply' (nextLevel h) k level

theorem foldUp_succ_apply (k : Nat) (level : List α) :
    foldUp h (k + 1) level = foldUp h k (nextLevel h level) := rfl

theorem foldUp_add (j k : Nat) (level : List α) :
    foldUp h (j + k) level = foldUp h j (foldUp h k level) :=
  Function.iterate_add_apply (nextLevel h) j k level

theorem length_nextLevel (level : List α) :
    (nextLevel h level).length = (level.length + 1) / 2 := by
  induction level using nextLevel.induct with
  | case1 => simp
  | case2 x => simp
  | case3 x y rest ih =>
      simp only [nextLevel_cons_cons, List.length_cons, ih]
      omega

@[simp]
theorem nextLevel_eq_nil_iff {level : List α} : nextLevel h level = [] ↔ level = [] := by
  rw [← List.length_eq_zero_iff, ← List.length_eq_zero_iff, length_nextLevel]
  omega

/-! ### Cutting a level -/

theorem nextLevel_drop (level : List α) (k : Nat) :
    nextLevel h (level.drop (2 * k)) = (nextLevel h level).drop k := by
  induction k generalizing level with
  | zero => simp
  | succ k ih =>
      match level with
      | [] => simp
      | [x] => simp [show 2 * (k + 1) = 2 * k + 1 + 1 by ring]
      | x :: y :: rest =>
          rw [show 2 * (k + 1) = 2 * k + 1 + 1 by ring]
          simpa using ih rest

theorem nextLevel_take (level : List α) (k : Nat) :
    nextLevel h (level.take (2 * k)) = (nextLevel h level).take k := by
  induction k generalizing level with
  | zero => simp
  | succ k ih =>
      match level with
      | [] => simp
      | [x] => simp [show 2 * (k + 1) = 2 * k + 1 + 1 by ring]
      | x :: y :: rest =>
          rw [show 2 * (k + 1) = 2 * k + 1 + 1 by ring]
          simpa using ih rest

theorem foldUp_drop (k : Nat) (level : List α) (slot : Nat) :
    foldUp h k (level.drop (slot * 2 ^ k)) = (foldUp h k level).drop slot := by
  induction k generalizing slot with
  | zero => simp
  | succ k ih =>
      rw [foldUp_succ, foldUp_succ, show slot * 2 ^ (k + 1) = 2 * slot * 2 ^ k by ring, ih,
        nextLevel_drop]

theorem foldUp_take (k : Nat) (level : List α) (count : Nat) :
    foldUp h k (level.take (count * 2 ^ k)) = (foldUp h k level).take count := by
  induction k generalizing count with
  | zero => simp
  | succ k ih =>
      rw [foldUp_succ, foldUp_succ, show count * 2 ^ (k + 1) = 2 * count * 2 ^ k by ring, ih,
        nextLevel_take]

/-- The leaves below the node at position `slot`, `k` levels up. -/
def block (level : List α) (k slot : Nat) : List α :=
  (level.drop (slot * 2 ^ k)).take (2 ^ k)

theorem block_map {β : Type*} (f : α → β) (level : List α) (k slot : Nat) :
    block (level.map f) k slot = (block level k slot).map f := by
  rw [block, block, List.map_take, List.map_drop]

theorem block_sublist (level : List α) (k slot : Nat) : (block level k slot).Sublist level :=
  (List.take_sublist _ _).trans (List.drop_sublist _ _)

/-- An aligned block folds to the one node the whole level has above it. -/
theorem foldUp_block (k : Nat) (level : List α) (slot : Nat) :
    foldUp h k (block level k slot) = ((foldUp h k level).drop slot).take 1 := by
  have htake := foldUp_take h k (level.drop (slot * 2 ^ k)) 1
  rw [one_mul, foldUp_drop] at htake
  exact htake

theorem head?_foldUp_block (k : Nat) (level : List α) (slot : Nat) :
    (foldUp h k (block level k slot)).head? = (foldUp h k level)[slot]? := by
  rw [foldUp_block, List.head?_take, if_neg (by omega), List.head?_drop]

theorem foldUp_append {k : Nat} {left : List α} (hleft : left.length = 2 ^ k) (right : List α) :
    foldUp h k (left ++ right) = foldUp h k left ++ foldUp h k right := by
  have htake := foldUp_take h k (left ++ right) 1
  have hdrop := foldUp_drop h k (left ++ right) 1
  rw [one_mul, List.take_left' hleft] at htake
  rw [one_mul, List.drop_left' hleft] at hdrop
  rw [htake, hdrop, List.take_append_drop]

/-! ### Lengths -/

theorem length_foldUp_le_one {k : Nat} {level : List α} (hlen : level.length ≤ 2 ^ k) :
    (foldUp h k level).length ≤ 1 := by
  induction k generalizing level with
  | zero => simpa using hlen
  | succ k ih =>
      rw [foldUp_succ_apply]
      apply ih
      rw [length_nextLevel]
      rw [pow_succ] at hlen
      omega

theorem foldUp_ne_nil {level : List α} (hne : level ≠ []) (k : Nat) : foldUp h k level ≠ [] := by
  induction k with
  | zero => exact hne
  | succ k ih => rwa [foldUp_succ, ne_eq, nextLevel_eq_nil_iff]

theorem length_foldUp_eq_one {k : Nat} {level : List α} (hne : level ≠ [])
    (hlen : level.length ≤ 2 ^ k) : (foldUp h k level).length = 1 :=
  le_antisymm (length_foldUp_le_one h hlen) (List.length_pos_of_ne_nil (foldUp_ne_nil h hne k))

theorem lt_length_foldUp_iff (k : Nat) (level : List α) (slot : Nat) :
    slot < (foldUp h k level).length ↔ slot * 2 ^ k < level.length := by
  have hnil : (foldUp h k level).drop slot = [] ↔ level.drop (slot * 2 ^ k) = [] := by
    rw [← foldUp_drop]
    refine ⟨fun heq => ?_, fun heq => ?_⟩
    · by_contra hne
      exact foldUp_ne_nil h hne k heq
    · rw [heq]
      exact (Function.iterate_fixed (nextLevel_nil h) k)
  rw [List.drop_eq_nil_iff, List.drop_eq_nil_iff] at hnil
  omega

/-! ### Undoing a fold -/

theorem nextLevel_inj (hinj : Function.Injective2 h) {xs ys : List α}
    (hlen : xs.length = ys.length) (heq : nextLevel h xs = nextLevel h ys) : xs = ys := by
  induction xs using nextLevel.induct generalizing ys with
  | case1 => exact (List.length_eq_zero_iff.mp hlen.symm).symm
  | case2 x =>
      obtain ⟨y, rfl⟩ := List.length_eq_one_iff.mp hlen.symm
      simp only [nextLevel_singleton, List.cons.injEq, and_true] at heq
      rw [(hinj heq).1]
  | case3 x x' rest ih =>
      match ys, hlen with
      | y :: y' :: rest', hlen =>
          simp only [nextLevel_cons_cons, List.cons.injEq] at heq
          obtain ⟨hhead, htail⟩ := heq
          obtain ⟨hx, hx'⟩ := hinj hhead
          have hrest : rest = rest' := ih (by simpa using hlen) htail
          rw [hx, hx', hrest]

theorem foldUp_inj (hinj : Function.Injective2 h) (k : Nat) {xs ys : List α}
    (hlen : xs.length = ys.length) (heq : foldUp h k xs = foldUp h k ys) : xs = ys := by
  induction k generalizing xs ys with
  | zero => exact heq
  | succ k ih =>
      refine nextLevel_inj h hinj hlen (ih ?_ heq)
      rw [length_nextLevel, length_nextLevel, hlen]

/-! ### Levels of unknown length

A node left without a partner is paired with itself, so two levels of different lengths can fold to
the same nodes only if one of them has a node twice. -/

theorem mem_nextLevel {level : List α} {z : α} (hz : z ∈ nextLevel h level) :
    ∃ x ∈ level, ∃ y, z = h x y := by
  induction level using nextLevel.induct with
  | case1 => cases hz
  | case2 x => exact ⟨x, by simp, x, by simpa using hz⟩
  | case3 x y rest ih =>
      rcases List.mem_cons.mp hz with rfl | hz
      · exact ⟨x, by simp, y, rfl⟩
      · obtain ⟨x', hx', y', rfl⟩ := ih hz
        exact ⟨x', by simp [hx'], y', rfl⟩

theorem nodup_nextLevel (hinj : Function.Injective2 h) {level : List α} (hnodup : level.Nodup) :
    (nextLevel h level).Nodup := by
  induction level using nextLevel.induct with
  | case1 => exact List.nodup_nil
  | case2 x => exact List.nodup_singleton _
  | case3 x y rest ih =>
      obtain ⟨hx, hrest⟩ := List.nodup_cons.mp hnodup
      refine List.nodup_cons.mpr ⟨fun hmem => ?_, ih (List.nodup_cons.mp hrest).2⟩
      obtain ⟨x', hx', y', heq⟩ := mem_nextLevel h hmem
      obtain ⟨rfl, -⟩ := hinj heq
      exact hx (by simp [hx'])

theorem nextLevel_inj_of_nodup (hinj : Function.Injective2 h) {xs ys : List α} (hxs : xs.Nodup)
    (hys : ys.Nodup) (heq : nextLevel h xs = nextLevel h ys) : xs = ys := by
  induction xs using nextLevel.induct generalizing ys with
  | case1 => exact ((nextLevel_eq_nil_iff h).mp heq.symm).symm
  | case2 x =>
      match ys with
      | [] => simp at heq
      | [y] =>
          simp only [nextLevel_singleton, List.cons.injEq, and_true] at heq
          rw [(hinj heq).1]
      | y :: y' :: rest =>
          simp only [nextLevel_singleton, nextLevel_cons_cons, List.cons.injEq] at heq
          obtain ⟨rfl, rfl⟩ := hinj heq.1
          simp at hys
  | case3 x x' rest ih =>
      match ys with
      | [] => simp at heq
      | [y] =>
          simp only [nextLevel_singleton, nextLevel_cons_cons, List.cons.injEq] at heq
          obtain ⟨rfl, rfl⟩ := hinj heq.1
          simp at hxs
      | y :: y' :: rest' =>
          simp only [nextLevel_cons_cons, List.cons.injEq] at heq
          obtain ⟨rfl, rfl⟩ := hinj heq.1
          have hrest : rest = rest' := ih (by simp_all) (by simp_all) heq.2
          rw [hrest]

theorem foldUp_inj_of_nodup (hinj : Function.Injective2 h) (k : Nat) {xs ys : List α}
    (hxs : xs.Nodup) (hys : ys.Nodup) (heq : foldUp h k xs = foldUp h k ys) : xs = ys := by
  induction k generalizing xs ys with
  | zero => exact heq
  | succ k ih =>
      have hnext : nextLevel h xs = nextLevel h ys :=
        ih (nodup_nextLevel h hinj hxs) (nodup_nextLevel h hinj hys) heq
      exact nextLevel_inj_of_nodup h hinj hxs hys hnext

/-- The first node of a level is the left child of the first node above it. -/
theorem head?_nextLevel {level : List α} {x : α} (hx : level.head? = some x) :
    ∃ y, (nextLevel h level).head? = some (h x y) := by
  match level with
  | [] => cases hx
  | [z] =>
      cases hx
      exact ⟨x, rfl⟩
  | z :: y :: rest =>
      cases hx
      exact ⟨y, rfl⟩

theorem head?_foldUp_succ (k : Nat) {level : List α} (hne : level ≠ []) :
    ∃ x y, (foldUp h k level).head? = some x ∧ (foldUp h (k + 1) level).head? = some (h x y) := by
  obtain ⟨x, hx⟩ := Option.isSome_iff_exists.mp
    (List.isSome_head?.mpr (foldUp_ne_nil h hne k))
  obtain ⟨y, hy⟩ := head?_nextLevel h hx
  exact ⟨x, y, hx, by rw [foldUp_succ, hy]⟩

/-- Where the elements of a level are no nodes, a level that is folded more often does not fold to
the same first node. -/
theorem not_lt_of_head?_foldUp (hinj : Function.Injective2 h) {j k : Nat} {xs ys : List α}
    (hleaf : ∀ x ∈ xs, ∀ y z, x ≠ h y z) (hxs : xs ≠ []) (hys : ys ≠ [])
    (heq : (foldUp h j xs).head? = (foldUp h k ys).head?) : ¬ j < k := by
  induction j generalizing k with
  | zero =>
      intro hlt
      obtain ⟨k, rfl⟩ := Nat.exists_eq_succ_of_ne_zero (Nat.ne_of_gt hlt)
      obtain ⟨y, z, -, hnode⟩ := head?_foldUp_succ h k hys
      rw [foldUp_zero, hnode] at heq
      exact hleaf (h y z) (List.mem_of_mem_head? heq) y z rfl
  | succ j ih =>
      intro hlt
      obtain ⟨k, rfl⟩ := Nat.exists_eq_succ_of_ne_zero (Nat.ne_zero_of_lt hlt)
      obtain ⟨x, x', hx, hxnode⟩ := head?_foldUp_succ h j hxs
      obtain ⟨y, y', hy, hynode⟩ := head?_foldUp_succ h k hys
      rw [hxnode, hynode, Option.some.injEq] at heq
      have hbelow : (foldUp h j xs).head? = (foldUp h k ys).head? := by
        rw [hx, hy, (hinj heq).1]
      exact ih hbelow (Nat.lt_of_succ_lt_succ hlt)

/-- Levels without duplicates whose elements are no nodes are equal as soon as they fold to the same
single node, however often each is folded. -/
theorem eq_of_foldUp_eq_singleton (hinj : Function.Injective2 h) {j k : Nat} {xs ys : List α}
    {root : α} (hxs : xs.Nodup) (hys : ys.Nodup) (hxleaf : ∀ x ∈ xs, ∀ y z, x ≠ h y z)
    (hyleaf : ∀ x ∈ ys, ∀ y z, x ≠ h y z) (hxroot : foldUp h j xs = [root])
    (hyroot : foldUp h k ys = [root]) : xs = ys := by
  have hne : ∀ {k : Nat} {level : List α}, foldUp h k level = [root] → level ≠ [] := by
    rintro k level hroot rfl
    rw [show foldUp h k [] = [] from Function.iterate_fixed (nextLevel_nil h) k] at hroot
    cases hroot
  have heq : (foldUp h j xs).head? = (foldUp h k ys).head? := by rw [hxroot, hyroot]
  have hjk := not_lt_of_head?_foldUp h hinj hxleaf (hne hxroot) (hne hyroot) heq
  have hkj := not_lt_of_head?_foldUp h hinj hyleaf (hne hyroot) (hne hxroot) heq.symm
  obtain rfl : j = k := by omega
  exact foldUp_inj_of_nodup h hinj j hxs hys (hxroot.trans hyroot.symm)

/-- Two blocks of the same length, each short enough to fold to one node, are equal as soon as
their nodes are. -/
theorem eq_of_head?_foldUp (hinj : Function.Injective2 h) {k : Nat} {xs ys : List α}
    (hlen : xs.length = ys.length) (hxs : xs.length ≤ 2 ^ k)
    (heq : (foldUp h k xs).head? = (foldUp h k ys).head?) : xs = ys := by
  apply foldUp_inj h hinj k hlen
  have hone : ∀ level : List α, level.length ≤ 1 → level = level.head?.toList := by
    intro level hle
    match level, hle with
    | [], _ => rfl
    | [x], _ => rfl
  calc foldUp h k xs = (foldUp h k xs).head?.toList := hone _ (length_foldUp_le_one h hxs)
    _ = (foldUp h k ys).head?.toList := by rw [heq]
    _ = foldUp h k ys := (hone _ (length_foldUp_le_one h (hlen ▸ hxs))).symm

/-! ### Climbing one path -/

/-- What the node at position `i` is combined with: its neighbour, or itself at the right edge. -/
def sibling (level : List α) (i : Nat) : Option α :=
  level[i ^^^ 1]?.or level[i]?

def combine (i : Nat) (node sib : α) : α :=
  if i % 2 = 0 then h node sib else h sib node

/-- Climb from the node at position `i`, one sibling a level, lowest level first. -/
def climb : List α → Nat → α → α
  | [], _, node => node
  | sib :: rest, i, node => climb rest (i / 2) (combine h i node sib)

theorem xor_one_eq (i : Nat) : i ^^^ 1 = if i % 2 = 0 then i + 1 else i - 1 := by
  rcases Nat.even_or_odd' i with ⟨j, rfl | rfl⟩
  · rw [if_pos (by omega)]
    exact Nat.xor_one_of_even ⟨j, by ring⟩
  · rw [if_neg (by omega)]
    exact Nat.xor_one_of_odd ⟨j, rfl⟩

theorem getElem?_nextLevel (level : List α) (j : Nat) :
    (nextLevel h level)[j]? =
      level[2 * j]?.map fun left => h left (level[2 * j + 1]?.getD left) := by
  induction level using nextLevel.induct generalizing j with
  | case1 => simp
  | case2 x => cases j <;> simp [show ∀ j, 2 * (j + 1) = 2 * j + 1 + 1 by intro; ring]
  | case3 x y rest ih =>
      cases j with
      | zero => simp
      | succ j => simpa [show 2 * (j + 1) = 2 * j + 1 + 1 by ring] using ih j

theorem getElem?_nextLevel_of_sibling {level : List α} {i : Nat} {node sib : α}
    (hnode : level[i]? = some node) (hsib : sibling level i = some sib) :
    (nextLevel h level)[i / 2]? = some (combine h i node sib) := by
  rw [getElem?_nextLevel]
  unfold sibling at hsib
  unfold combine
  rw [xor_one_eq] at hsib
  by_cases heven : i % 2 = 0
  · rw [if_pos heven] at hsib ⊢
    rw [show 2 * (i / 2) = i by omega, hnode]
    cases hright : level[i + 1]? with
    | none => simp_all
    | some right => simp_all
  · rw [if_neg heven] at hsib ⊢
    have hlt : i < level.length := (List.getElem?_eq_some_iff.mp hnode).1
    rw [show 2 * (i / 2) = i - 1 by omega, show i - 1 + 1 = i by omega, hnode]
    rw [List.getElem?_eq_getElem (show i - 1 < level.length by omega)] at hsib ⊢
    simp_all

theorem sibling_isSome {level : List α} {i : Nat} (hlt : i < level.length) :
    ∃ sib, sibling level i = some sib := by
  unfold sibling
  rw [List.getElem?_eq_getElem hlt]
  cases level[i ^^^ 1]? <;> simp

/-- `sibs` are the siblings met on the way up from position `i`. -/
def SiblingPath (h : α → α → α) (level : List α) : Nat → List α → Prop
  | _, [] => True
  | i, sib :: rest => sibling level i = some sib ∧ SiblingPath h (nextLevel h level) (i / 2) rest

theorem siblingPath_concat {level : List α} {i : Nat} {sibs : List α} {top : α} :
    SiblingPath h level i (sibs ++ [top]) ↔
      SiblingPath h level i sibs ∧
        sibling (foldUp h sibs.length level) (i / 2 ^ sibs.length) = some top := by
  induction sibs generalizing level i with
  | nil => simp [SiblingPath]
  | cons sib rest ih =>
      rw [List.cons_append, SiblingPath, SiblingPath, ih, List.length_cons, foldUp_succ_apply,
        Nat.div_div_eq_div_mul, ← pow_succ', and_assoc]

theorem climb_concat (sibs : List α) (top : α) (i : Nat) (node : α) :
    climb h (sibs ++ [top]) i node =
      combine h (i / 2 ^ sibs.length) (climb h sibs i node) top := by
  induction sibs generalizing i node with
  | nil => simp [climb]
  | cons sib rest ih =>
      rw [List.cons_append, climb, climb, ih, List.length_cons, Nat.div_div_eq_div_mul, ← pow_succ']

theorem exists_siblingPath {level : List α} {i : Nat} (hlt : i < level.length) (k : Nat) :
    ∃ sibs : List α, sibs.length = k ∧ SiblingPath h level i sibs := by
  induction k generalizing level i with
  | zero => exact ⟨[], rfl, trivial⟩
  | succ k ih =>
      obtain ⟨sib, hsib⟩ := sibling_isSome hlt
      have hlt' : i / 2 < (nextLevel h level).length := by
        rw [length_nextLevel]
        omega
      obtain ⟨rest, hlen, hrest⟩ := ih hlt'
      exact ⟨sib :: rest, by simp [hlen], hsib, hrest⟩

/-- Climbing with the level's own siblings reaches the node above. -/
theorem getElem?_foldUp_climb {level : List α} {i : Nat} {node : α} {sibs : List α}
    (hnode : level[i]? = some node) (hsibs : SiblingPath h level i sibs) :
    (foldUp h sibs.length level)[i / 2 ^ sibs.length]? = some (climb h sibs i node) := by
  induction sibs generalizing level i node with
  | nil => simpa [climb] using hnode
  | cons sib rest ih =>
      obtain ⟨hsib, hrest⟩ := hsibs
      have hup := ih (getElem?_nextLevel_of_sibling h hnode hsib) hrest
      rw [Nat.div_div_eq_div_mul, ← pow_succ'] at hup
      exact hup

/-- With `h` injective nothing else reaches it: a climb that ends at a node of the tree started at
the node below it and met the tree's own siblings. -/
theorem climb_sound (hinj : Function.Injective2 h) {level : List α} {i : Nat} {node : α}
    {sibs : List α} (hlt : i < level.length)
    (hroot : (foldUp h sibs.length level)[i / 2 ^ sibs.length]? = some (climb h sibs i node)) :
    level[i]? = some node ∧ SiblingPath h level i sibs := by
  induction sibs generalizing level i node with
  | nil => exact ⟨by simpa [climb] using hroot, trivial⟩
  | cons sib rest ih =>
      have hlt' : i / 2 < (nextLevel h level).length := by
        rw [length_nextLevel]
        omega
      have hup : (foldUp h rest.length (nextLevel h level))[i / 2 / 2 ^ rest.length]?
          = some (climb h rest (i / 2) (combine h i node sib)) := by
        rw [Nat.div_div_eq_div_mul, ← pow_succ']
        exact hroot
      obtain ⟨hparent, hrest⟩ := ih hlt' hup
      obtain ⟨own, hown⟩ := sibling_isSome hlt
      have hparent' := getElem?_nextLevel_of_sibling h (List.getElem?_eq_getElem hlt) hown
      rw [hparent', Option.some.injEq] at hparent
      unfold combine at hparent
      by_cases heven : i % 2 = 0
      · rw [if_pos heven, if_pos heven] at hparent
        obtain ⟨hnode, hsib⟩ := hinj hparent
        exact ⟨by rw [List.getElem?_eq_getElem hlt, hnode], by rw [hown, hsib], hrest⟩
      · rw [if_neg heven, if_neg heven] at hparent
        obtain ⟨hsib, hnode⟩ := hinj hparent
        exact ⟨by rw [List.getElem?_eq_getElem hlt, hnode], by rw [hown, hsib], hrest⟩

theorem SiblingPath.unique {level : List α} {i : Nat} {sibs sibs' : List α}
    (hlen : sibs.length = sibs'.length) (hsibs : SiblingPath h level i sibs)
    (hsibs' : SiblingPath h level i sibs') : sibs = sibs' := by
  induction sibs generalizing level i sibs' with
  | nil => exact (List.length_eq_zero_iff.mp hlen.symm).symm
  | cons sib rest ih =>
      match sibs', hlen with
      | sib' :: rest', hlen =>
          have hhead : sib = sib' := Option.some.inj (hsibs.1.symm.trans hsibs'.1)
          rw [hhead, ih (by simpa using hlen) hsibs.2 hsibs'.2]

end LeftPacked
