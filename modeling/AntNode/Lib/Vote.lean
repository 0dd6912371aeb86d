import Mathlib.Data.List.Basic
import Mathlib.Tactic

/-!
# Votes that may still be open

Each voter says yes, no, or has not settled yet. A tally counts the first and the last kind. What
the voters may come to say in the end is a completion: a settled vote stays, an open one becomes
anything. Between the yes votes and the yes and open votes together lies every completion's count,
and the upper end is reached by the completion in which every open voter says yes.
-/

namespace Voting

inductive Vote where
  | yes
  | no
  | undecided
  deriving DecidableEq

/-- What a vote may become. -/
def Becomes (now later : Vote) : Prop := now = .undecided ∨ later = now

variable {α : Type} (vote later : α → Vote)

structure Tally where
  yes : Nat
  undecided : Nat
  deriving DecidableEq

def Tally.add (t : Tally) : Vote → Tally
  | .yes => { t with yes := t.yes + 1 }
  | .no => t
  | .undecided => { t with undecided := t.undecided + 1 }

def tally (voters : List α) : Tally :=
  voters.foldl (fun t voter => t.add (vote voter)) ⟨0, 0⟩

theorem foldl_add (voters : List α) (t : Tally) :
    voters.foldl (fun t voter => t.add (vote voter)) t =
      ⟨t.yes + voters.countP fun voter => vote voter = .yes,
        t.undecided + voters.countP fun voter => vote voter = .undecided⟩ := by
  induction voters generalizing t with
  | nil => simp
  | cons voter voters ih =>
      rw [List.foldl_cons, ih]
      cases hvote : vote voter <;> simp [Tally.add, hvote]
      · omega
      · omega

theorem tally_yes (voters : List α) :
    (tally vote voters).yes = voters.countP fun voter => vote voter = .yes := by
  simp [tally, foldl_add]

theorem tally_undecided (voters : List α) :
    (tally vote voters).undecided = voters.countP fun voter => vote voter = .undecided := by
  simp [tally, foldl_add]

theorem tally_yes_add_undecided (voters : List α) :
    (tally vote voters).yes + (tally vote voters).undecided =
      voters.countP fun voter => vote voter ≠ .no := by
  rw [tally_yes, tally_undecided]
  induction voters with
  | nil => rfl
  | cons voter voters ih =>
      cases hvote : vote voter <;> simp [hvote] at ih ⊢ <;> omega

variable {vote later}

theorem tally_yes_le_of_becomes {voters : List α}
    (hbecomes : ∀ voter ∈ voters, Becomes (vote voter) (later voter)) :
    (tally vote voters).yes ≤ (tally later voters).yes := by
  rw [tally_yes, tally_yes]
  apply List.countP_mono_left
  intro voter hmem hyes
  rw [decide_eq_true_iff] at hyes ⊢
  cases hbecomes voter hmem with
  | inl hopen => rw [hopen] at hyes; cases hyes
  | inr hsame => rw [hsame, hyes]

theorem tally_yes_le_possible_of_becomes {voters : List α}
    (hbecomes : ∀ voter ∈ voters, Becomes (vote voter) (later voter)) :
    (tally later voters).yes ≤ (tally vote voters).yes + (tally vote voters).undecided := by
  rw [tally_yes_add_undecided, tally_yes]
  apply List.countP_mono_left
  intro voter hmem hyes
  rw [decide_eq_true_iff] at hyes ⊢
  intro hno
  cases hbecomes voter hmem with
  | inl hopen => rw [hopen] at hno; cases hno
  | inr hsame => rw [hsame, hno] at hyes; cases hyes

/-- Every open vote turned into a yes. -/
theorem tally_yes_eq_possible {voters : List α}
    (hlater : ∀ voter ∈ voters, later voter = .yes ↔ vote voter ≠ .no) :
    (tally later voters).yes = (tally vote voters).yes + (tally vote voters).undecided := by
  rw [tally_yes_add_undecided, tally_yes]
  apply List.countP_congr
  intro voter hmem
  simp only [decide_eq_true_iff]
  exact hlater voter hmem

end Voting
