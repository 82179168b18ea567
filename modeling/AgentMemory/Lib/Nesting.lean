import Mathlib

/-!
# Open elements of a sequence

Elements open one after the other, and each closes those before it that it does not lie within. What is
open at the end is kept by a stack: whoever comes drops what it closes from the stack and goes on top.
-/

namespace Nesting

variable {α : Type} (encloses : α → α → Bool)

/-- The elements that enclose all that come after them. -/
def openOf : List α → List α
  | [] => []
  | a :: later => if later.all (encloses a) = true then a :: openOf later else openOf later

variable {encloses}

@[simp] theorem openOf_nil : openOf encloses [] = [] := rfl

theorem openOf_cons (a : α) (later : List α) : openOf encloses (a :: later) =
    if later.all (encloses a) = true then a :: openOf encloses later else openOf encloses later := rfl

/-- One element more: what does not enclose it is dropped, and it goes on top. -/
theorem openOf_concat (as : List α) (b : α) :
    openOf encloses (as ++ [b]) = (openOf encloses as).filter (encloses · b) ++ [b] := by
  induction as with
  | nil => simp [openOf_cons]
  | cons a later ih =>
    have hall : (later ++ [b]).all (encloses a) = (later.all (encloses a) && encloses a b) := by simp
    rw [List.cons_append, openOf_cons, openOf_cons, hall, ih]
    by_cases hlater : later.all (encloses a) = true
    · by_cases hb : encloses a b = true
      · simp [hlater, hb]
      · simp [hlater, hb]
    · simp [hlater]

theorem openOf_sublist (as : List α) : (openOf encloses as).Sublist as := by
  induction as with
  | nil => exact List.Sublist.refl _
  | cons a later ih =>
    rw [openOf_cons]
    split
    · exact ih.cons_cons a
    · exact ih.cons a

/-- Each open element encloses those above it. -/
theorem pairwise_openOf (as : List α) : (openOf encloses as).Pairwise fun a b => encloses a b = true := by
  induction as with
  | nil => exact List.Pairwise.nil
  | cons a later ih =>
    rw [openOf_cons]
    split
    · next hall =>
      apply List.pairwise_cons.mpr
      refine ⟨fun b hb => ?_, ih⟩
      exact List.all_eq_true.mp hall b ((openOf_sublist later).subset hb)
    · exact ih

theorem getLast?_openOf_concat (as : List α) (b : α) : (openOf encloses (as ++ [b])).getLast? = some b := by
  rw [openOf_concat, List.getLast?_concat]

end Nesting
