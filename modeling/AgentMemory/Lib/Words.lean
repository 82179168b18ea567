import Mathlib.Data.List.DropRight

/-!
# Words

The words of a text are its maximal runs without blanks, for any notion of a blank. `starts`
counts them from left to right, so that the words of a text that is cut in two can be counted
part by part. `words_spaced` gives back the words of a text in which one blank stands between
any two.
-/

namespace Words

variable {α : Type} {blank : α → Bool}

/-- The words that begin in a text; the flag says whether a blank, or nothing, stands before it. -/
def starts (blank : α → Bool) : Bool → List α → Nat
  | _, [] => 0
  | fresh, a :: l => if blank a then starts blank true l else (if fresh then 1 else 0) + starts blank false l

/-- Whether a word may begin after this text. -/
def freshAfter (blank : α → Bool) : Bool → List α → Bool
  | fresh, [] => fresh
  | _, a :: l => freshAfter blank (blank a) l

@[simp] theorem starts_nil (fresh : Bool) : starts blank fresh [] = 0 := rfl

theorem starts_cons_of_blank {a : α} (h : blank a = true) (fresh : Bool) (l : List α) :
    starts blank fresh (a :: l) = starts blank true l :=
  if_pos h

theorem starts_cons_of_not_blank {a : α} (h : blank a = false) (fresh : Bool) (l : List α) :
    starts blank fresh (a :: l) = (if fresh then 1 else 0) + starts blank false l :=
  if_neg (by simp [h])

theorem starts_append (fresh : Bool) (l m : List α) :
    starts blank fresh (l ++ m) = starts blank fresh l + starts blank (freshAfter blank fresh l) m := by
  induction l generalizing fresh with
  | nil => exact (Nat.zero_add _).symm
  | cons a l ih =>
    cases ha : blank a with
    | true => rw [List.cons_append, starts_cons_of_blank ha, starts_cons_of_blank ha, ih, freshAfter, ha]
    | false =>
      rw [List.cons_append, starts_cons_of_not_blank ha, starts_cons_of_not_blank ha, ih, freshAfter, ha]
      omega

@[simp] theorem freshAfter_append (fresh : Bool) (l : List α) (a : α) :
    freshAfter blank fresh (l ++ [a]) = blank a := by
  induction l generalizing fresh with
  | nil => rfl
  | cons b l ih => exact ih (blank b)

/-- No word begins in blanks. -/
theorem starts_eq_zero_of_blank {l : List α} (h : ∀ a ∈ l, blank a = true) (fresh : Bool) :
    starts blank fresh l = 0 := by
  induction l generalizing fresh with
  | nil => rfl
  | cons a l ih =>
    rw [starts_cons_of_blank (h a List.mem_cons_self)]
    exact ih (fun b hb => h b (List.mem_cons_of_mem _ hb)) true

/-- After a blank a word begins wherever something is not blank. -/
theorem starts_true_pos {l : List α} : 0 < starts blank true l ↔ ∃ a ∈ l, blank a = false := by
  induction l with
  | nil => simp
  | cons b l ih =>
    cases hb : blank b with
    | true => rw [starts_cons_of_blank hb, ih, List.exists_mem_cons_iff, hb]; simp
    | false =>
      rw [starts_cons_of_not_blank hb]
      exact iff_of_true (Nat.add_pos_left Nat.one_pos _) ⟨b, List.mem_cons_self, hb⟩

/-- Within a word the next one begins after a blank. -/
theorem starts_false_pos {l : List α} : 0 < starts blank false l ↔
    ∃ before gap after, l = before ++ gap :: after ∧ blank gap = true ∧ ∃ a ∈ after, blank a = false := by
  constructor
  · intro h
    induction l with
    | nil => cases h
    | cons b l ih =>
      cases hb : blank b with
      | true =>
        rw [starts_cons_of_blank hb] at h
        exact ⟨[], b, l, rfl, hb, starts_true_pos.mp h⟩
      | false =>
        rw [starts_cons_of_not_blank hb] at h
        obtain ⟨before, gap, after, rfl, hgap, hafter⟩ := ih (by simpa using h)
        exact ⟨b :: before, gap, after, rfl, hgap, hafter⟩
  · intro ⟨before, gap, after, hl, hgap, hafter⟩
    have hpos : 0 < starts blank true after := starts_true_pos.mpr hafter
    rw [hl, starts_append, starts_cons_of_blank hgap]
    omega

/-- Blanks before a text hold no word. -/
theorem starts_dropWhile (l : List α) : starts blank true (l.dropWhile blank) = starts blank true l := by
  induction l with
  | nil => rfl
  | cons a l ih =>
    cases ha : blank a with
    | true => rw [List.dropWhile_cons_of_pos ha, ih, starts_cons_of_blank ha]
    | false => rw [List.dropWhile_cons_of_neg (by simp [ha])]

/-- Nor do blanks after it. -/
theorem starts_rdropWhile (fresh : Bool) (l : List α) :
    starts blank fresh (l.rdropWhile blank) = starts blank fresh l := by
  induction l using List.reverseRecOn with
  | nil => rfl
  | append_singleton l a ih =>
    cases ha : blank a with
    | true =>
      rw [List.rdropWhile_concat_pos _ _ _ ha, ih, starts_append, starts_cons_of_blank ha]
      rfl
    | false => rw [List.rdropWhile_concat_neg _ _ _ (by simp [ha])]

/-- The words of a text and those after its first are counted together. -/
theorem length_filter_splitOnP (l : List α) :
    ((l.splitOnP blank).filter fun word => !word.isEmpty).length = starts blank true l ∧
      ((l.splitOnP blank).tail.filter fun word => !word.isEmpty).length = starts blank false l := by
  induction l with
  | nil => exact ⟨rfl, rfl⟩
  | cons a l ih =>
    obtain ⟨hwords, htail⟩ := ih
    cases ha : blank a with
    | true =>
      rw [List.splitOnP_cons_eq_if_modifyHead, if_pos ha, starts_cons_of_blank ha, starts_cons_of_blank ha]
      exact ⟨hwords, hwords⟩
    | false =>
      rw [List.splitOnP_cons_eq_if_modifyHead, if_neg (by simp [ha]), starts_cons_of_not_blank ha, starts_cons_of_not_blank ha]
      cases hsplit : l.splitOnP blank with
      | nil => exact absurd hsplit (List.splitOnP_ne_nil blank l)
      | cons word rest =>
        rw [hsplit, List.tail_cons] at htail
        rw [List.modifyHead_cons, List.tail_cons, ← htail]
        refine ⟨?_, by simp⟩
        rw [List.filter_cons_of_pos rfl, List.length_cons]
        exact Nat.add_comm _ 1

/-! ## One blank between any two words -/

/-- The words with a blank between any two. -/
def spaced (sep : α) (words : List (List α)) : List α := (words.intersperse [sep]).flatten

/-- These are words. -/
def AreWords (blank : α → Bool) (words : List (List α)) : Prop := ∀ w ∈ words, w ≠ [] ∧ ∀ a ∈ w, blank a = false

theorem spaced_cons_cons (sep : α) (w v : List α) (words : List (List α)) :
    spaced sep (w :: v :: words) = w ++ sep :: spaced sep (v :: words) := rfl

theorem areWords_filter_splitOnP [DecidableEq α] (l : List α) : AreWords blank ((l.splitOnP blank).filter (· ≠ [])) := by
  suffices h : ∀ w ∈ l.splitOnP blank, ∀ a ∈ w, blank a = false by
    intro w hw
    obtain ⟨hmem, hne⟩ := List.mem_filter.mp hw
    exact ⟨of_decide_eq_true hne, h w hmem⟩
  induction l with
  | nil => simp
  | cons b l ih =>
    rw [List.splitOnP_cons_eq_if_modifyHead]
    split
    · exact List.forall_mem_cons.mpr ⟨by simp, ih⟩
    · next hb =>
      cases hsplit : l.splitOnP blank with
      | nil => simp
      | cons w rest =>
        rw [hsplit] at ih
        rw [List.modifyHead_cons]
        obtain ⟨hw, hrest⟩ := List.forall_mem_cons.mp ih
        exact List.forall_mem_cons.mpr ⟨List.forall_mem_cons.mpr ⟨by simpa using hb, hw⟩, hrest⟩

/-- The words of a text in which one blank stands between any two. -/
theorem words_spaced [DecidableEq α] {sep : α} (hsep : blank sep = true) {words : List (List α)}
    (h : AreWords blank words) : ((spaced sep words).splitOnP blank).filter (· ≠ []) = words := by
  induction words with
  | nil => rfl
  | cons w words ih =>
    obtain ⟨hw, hrest⟩ := List.forall_mem_cons.mp h
    cases words with
    | nil =>
      have hsingle : spaced sep [w] = w := by simp [spaced]
      rw [hsingle, List.splitOnP_eq_singleton hw.2]
      simp [hw.1]
    | cons v words =>
      rw [spaced_cons_cons, List.splitOnP_append_cons_of_forall_mem hw.2 sep hsep,
        List.filter_cons_of_pos (by simp [hw.1]), ih hrest]

/-- Such a text begins with a word. -/
theorem dropWhile_spaced {sep : α} {words : List (List α)} (h : AreWords blank words) :
    (spaced sep words).dropWhile blank = spaced sep words := by
  cases words with
  | nil => rfl
  | cons w words =>
    obtain ⟨hne, hw⟩ := h w List.mem_cons_self
    obtain ⟨a, u, rfl⟩ := List.exists_cons_of_ne_nil hne
    have ha : blank a = false := hw a List.mem_cons_self
    cases words <;> exact List.dropWhile_cons_of_neg (by simp [ha])

/-- And ends with one. -/
theorem rdropWhile_spaced {sep : α} {words : List (List α)} (h : AreWords blank words) :
    (spaced sep words).rdropWhile blank = spaced sep words := by
  induction words with
  | nil => rfl
  | cons w words ih =>
    obtain ⟨⟨hne, hw⟩, hrest⟩ := List.forall_mem_cons.mp h
    rw [List.rdropWhile_eq_self_iff] at ih ⊢
    intro hl
    cases words with
    | nil =>
      have hsingle : spaced sep [w] = w := by simp [spaced]
      simp only [hsingle] at hl ⊢
      simp [hw _ (List.getLast_mem hl)]
    | cons v words =>
      have hv : spaced sep (v :: words) ≠ [] := by
        obtain ⟨a, u, rfl⟩ := List.exists_cons_of_ne_nil (hrest v List.mem_cons_self).1
        cases words <;> simp [spaced]
      simp only [spaced_cons_cons]
      rw [List.getLast_append_of_ne_nil _ (List.cons_ne_nil _ _), List.getLast_cons hv]
      exact ih hrest hv

end Words
