import Mathlib.Tactic

/-!
# Variable-length integers

A number is written seven bits at a time, lowest first, and every byte but the last has its top bit
set. A sequence is its length followed by its items.
-/

namespace Leb128

def encode (n : Nat) : List UInt8 :=
  if n < 128 then [UInt8.ofNat n] else UInt8.ofNat (128 + n % 128) :: encode (n / 128)
termination_by n
decreasing_by omega

def seq {α : Type} (write : α → List UInt8) (items : List α) : List UInt8 :=
  encode items.length ++ items.flatMap write

theorem length_encode_le {n width : Nat} (hwidth : 0 < width) (hn : n < 128 ^ width) :
    (encode n).length ≤ width := by
  induction width generalizing n with
  | zero => omega
  | succ width ih =>
      rw [encode]
      split
      · simp
      · rename_i hlarge
        have hmore : 0 < width := by
          rcases Nat.eq_zero_or_pos width with rfl | hpos
          · exact absurd hn hlarge
          · exact hpos
        have hrest : n / 128 < 128 ^ width := by
          rw [Nat.div_lt_iff_lt_mul (by norm_num), ← pow_succ]
          exact hn
        rw [List.length_cons]
        exact Nat.succ_le_succ (ih hmore hrest)

theorem length_seq {α : Type} {write : α → List UInt8} {size : Nat} {items : List α}
    (hsize : ∀ item ∈ items, (write item).length = size) :
    (seq write items).length = (encode items.length).length + size * items.length := by
  have hsizes : items.map (fun item => (write item).length) = items.map fun _ => size :=
    List.map_congr_left hsize
  rw [seq, List.length_append, List.length_flatMap, hsizes, List.map_const', List.sum_replicate,
    smul_eq_mul, mul_comm]

end Leb128
