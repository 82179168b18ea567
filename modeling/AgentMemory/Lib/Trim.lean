import Mathlib

/-!
# Trimming a list to a budget

Items stand in the order in which they are given up. They are dropped from the front until what
is left costs no more than the budget, or one item is left.
-/

namespace AgentMemory

variable {α : Type*} (cost : α → Nat) (budget : Int)

/-- The longest suffix within the budget, or the last item. -/
def fitting : List α → List α
  | [] => []
  | a :: rest => if rest = [] ∨ (((a :: rest).map cost).sum : Int) ≤ budget then a :: rest else fitting rest

variable {cost budget}

theorem fitting_suffix (l : List α) : fitting cost budget l <:+ l := by
  fun_induction fitting cost budget l with
  | case1 => exact List.suffix_refl []
  | case2 a rest hfits => exact List.suffix_refl (a :: rest)
  | case3 a rest hfits ih => exact ih.trans (List.suffix_cons a rest)

/-- What fits is not trimmed. -/
theorem fitting_of_fits {l : List α} (h : ((l.map cost).sum : Int) ≤ budget) : fitting cost budget l = l := by
  cases l with
  | nil => rfl
  | cons a rest => exact if_pos (Or.inr h)

/-- What is left fits, or is one item. -/
theorem fits_or_le_one (l : List α) :
    (((fitting cost budget l).map cost).sum : Int) ≤ budget ∨ (fitting cost budget l).length ≤ 1 := by
  induction l with
  | nil => exact Or.inr (Nat.zero_le 1)
  | cons a rest ih =>
    unfold fitting
    split
    · next h =>
      rcases h with rfl | h
      · exact Or.inr (Nat.le_refl 1)
      · exact Or.inl h
    · exact ih

/-- Something is dropped from what does not fit. -/
theorem fitting_ne_self {l : List α} (hfits : budget < ((l.map cost).sum : Int)) (hlong : 1 < l.length) :
    fitting cost budget l ≠ l := by
  obtain _ | ⟨a, _ | ⟨b, rest⟩⟩ := l
  · exact absurd hlong (Nat.not_lt_zero 1)
  · exact absurd hlong (Nat.lt_irrefl 1)
  · intro hsame
    have hdropped : fitting cost budget (a :: b :: rest) = fitting cost budget (b :: rest) :=
      if_neg (by simpa using hfits)
    have hsuffix : fitting cost budget (b :: rest) <:+ b :: rest := fitting_suffix _
    have hle := hsuffix.length_le
    rw [← hdropped, hsame, List.length_cons] at hle
    omega

end AgentMemory
