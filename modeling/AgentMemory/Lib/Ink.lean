import AgentMemory.Lib.PyText

/-!
# A text without its white space

`ink` deletes all white space of a text. Stripping a text, splitting it into lines and joining
lines again all move white space only, so `ink` is what they have to keep.
-/

namespace PyText

/-- The characters of a text that are no white space. -/
def ink (text : Text) : Text := text.filter fun c => !isSpace c

@[simp] theorem ink_nil : ink [] = [] := rfl

@[simp] theorem ink_append (a b : Text) : ink (a ++ b) = ink a ++ ink b := List.filter_append ..

theorem ink_eq_nil {text : Text} : ink text = [] ↔ ∀ c ∈ text, isSpace c = true := by
  rw [ink, List.filter_eq_nil_iff]
  exact forall_congr' fun c => imp_congr_right fun _ => by simp

@[simp] theorem ink_dropWhile (text : Text) : ink (text.dropWhile isSpace) = ink text := by
  have hspace : ink (text.takeWhile isSpace) = [] :=
    ink_eq_nil.mpr fun _ hc => List.mem_takeWhile_imp hc
  calc ink (text.dropWhile isSpace)
      = ink (text.takeWhile isSpace) ++ ink (text.dropWhile isSpace) := by rw [hspace, List.nil_append]
    _ = ink text := by rw [← ink_append, List.takeWhile_append_dropWhile]

theorem ink_reverse (text : Text) : ink text.reverse = (ink text).reverse := List.filter_reverse ..

@[simp] theorem ink_strip (text : Text) : ink (strip text) = ink text := by
  rw [strip, List.rdropWhile, ink_reverse, ink_dropWhile, ink_reverse, List.reverse_reverse,
    ink_dropWhile]

/-- A text is stripped to nothing exactly when it is all white space. -/
theorem strip_eq_nil {text : Text} : strip text = [] ↔ ink text = [] := by
  constructor
  · intro h
    rw [← ink_strip, h, ink_nil]
  · intro h
    rw [ink_eq_nil] at h
    have hdrop : text.dropWhile isSpace = [] := List.dropWhile_eq_nil_iff.mpr h
    rw [strip, hdrop, List.rdropWhile_nil]

theorem length_strip_le (text : Text) : (strip text).length ≤ text.length := by
  have hinner : (text.dropWhile isSpace).length ≤ text.length :=
    (List.dropWhile_suffix _).length_le
  have houter : (strip text).length ≤ (text.dropWhile isSpace).length :=
    (List.rdropWhile_prefix _ _).length_le
  omega

/-- What joins lines is not in the ink. -/
theorem ink_intercalate {sep : Text} (hsep : ink sep = []) (lines : List Text) :
    ink (sep.intercalate lines) = lines.flatMap ink := by
  induction lines with
  | nil => rfl
  | cons line rest ih =>
    cases rest with
    | nil => simp
    | cons next others =>
      rw [List.intercalate_cons_cons, ink_append, ink_append, hsep, ih, List.append_nil]
      rfl

/-- Splitting a text into lines keeps its ink. -/
theorem ink_splitFrom (line text : Text) :
    (splitFrom line text).flatMap ink = ink line ++ ink text := by
  have hcr : isSpace '\r' = true := by decide
  have hlf : isSpace '\n' = true := by decide
  fun_induction splitFrom line text with
  | case1 => rfl
  | case2 line hne => simp
  | case3 line text ih => simp [ih, ink, hcr, hlf]
  | case4 line c text hcase hbreak ih =>
    have hspace := isSpace_of_isLineBreak hbreak
    simp [ih, ink, hspace]
  | case5 line c text hcase hbreak ih => rw [ih, ink_append, List.append_assoc, ← ink_append]; rfl

theorem ink_splitlines (text : Text) : (splitlines text).flatMap ink = ink text := by
  rw [splitlines, ink_splitFrom, ink_nil, List.nil_append]

end PyText
