import Mathlib.Data.List.Induction

/-!
# Uniqueness with missing values

A table takes a row unless one that is there agrees with it on the unique columns, but a row
with a missing value in one of them is equal to none. So the rows of a table are distinct, and
a row that is there is not taken again, as long as the rows that agree with an earlier one are
complete, and only then. `firstsBy` keeps the first element of each key.
-/

namespace Uniques

variable {α : Type} (agrees : α → α → Bool) (complete : α → Bool)

/-- A row goes to the end of the table, unless it is complete and agrees with one there. -/
def insertNew (rows : List α) (r : α) : List α :=
  if (rows.any fun r' => agrees r r' && complete r) = true then rows else rows ++ [r]

/-- No row of the table agrees with an earlier one. -/
def Distinct (rows : List α) : Prop := rows.Pairwise fun r r' => agrees r' r = false

/-- The rows that agree with an earlier one are complete. -/
def CompleteTwins (rows : List α) : Prop :=
  rows.Pairwise fun r r' => agrees r' r = true → complete r' = true

variable {agrees complete}

theorem insertNew_of_twin {rows : List α} {r r' : α} (hr' : r' ∈ rows) (hagrees : agrees r r' = true)
    (hcomplete : complete r = true) : insertNew agrees complete rows r = rows := by
  apply if_pos
  rw [List.any_eq_true]
  exact ⟨r', hr', by rw [hagrees, hcomplete]; rfl⟩

theorem insertNew_of_incomplete {rows : List α} {r : α} (h : complete r = false) :
    insertNew agrees complete rows r = rows ++ [r] := by
  apply if_neg
  simp [h]

theorem mem_of_mem_insertNew {rows : List α} {r r' : α} (h : r' ∈ insertNew agrees complete rows r) :
    r' ∈ rows ∨ r' = r := by
  unfold insertNew at h
  split at h
  · exact Or.inl h
  · exact (List.mem_append.mp h).imp_right List.mem_singleton.mp

theorem mem_insertNew {rows : List α} {r r' : α} (h : r' ∈ rows) :
    r' ∈ insertNew agrees complete rows r := by
  unfold insertNew
  split
  · exact h
  · exact List.mem_append_left _ h

theorem mem_foldl_insertNew {rows start : List α} {r : α} (h : r ∈ start) :
    r ∈ rows.foldl (insertNew agrees complete) start := by
  induction rows generalizing start with
  | nil => exact h
  | cons r' rows ih => exact ih (mem_insertNew h)

theorem mem_of_mem_foldl {rows start : List α} {r : α}
    (h : r ∈ rows.foldl (insertNew agrees complete) start) : r ∈ start ∨ r ∈ rows := by
  induction rows generalizing start with
  | nil => exact Or.inl h
  | cons r' rows ih =>
    rcases ih h with hstart | hrows
    · rcases mem_of_mem_insertNew hstart with hstart | rfl
      · exact Or.inl hstart
      · exact Or.inr List.mem_cons_self
    · exact Or.inr (List.mem_cons_of_mem r' hrows)

/-- An incomplete row is always taken. -/
theorem mem_foldl_of_incomplete {rows start : List α} {r : α} (h : r ∈ rows)
    (hincomplete : complete r = false) : r ∈ rows.foldl (insertNew agrees complete) start := by
  obtain ⟨before, after, rfl⟩ := List.append_of_mem h
  rw [List.foldl_append, List.foldl_cons, insertNew_of_incomplete hincomplete]
  exact mem_foldl_insertNew (List.mem_append_right _ List.mem_cons_self)

theorem CompleteTwins.of_append {before after : List α}
    (h : CompleteTwins agrees complete (before ++ after)) : CompleteTwins agrees complete before :=
  (List.pairwise_append.mp h).1

/-- What the table took agrees with what comes only where that is complete. -/
theorem CompleteTwins.complete_of_agrees {before after : List α} {r r' : α}
    (h : CompleteTwins agrees complete (before ++ r :: after))
    (hr' : r' ∈ before.foldl (insertNew agrees complete) []) (hagrees : agrees r r' = true) :
    complete r = true := by
  have hmem : r' ∈ before := (mem_of_mem_foldl hr').resolve_left List.not_mem_nil
  exact (List.pairwise_append.mp h).2.2 r' hmem r List.mem_cons_self hagrees

/-- Where agreeing rows are complete, the table stays distinct. -/
theorem distinct_of_completeTwins {rows : List α} (h : CompleteTwins agrees complete rows) :
    Distinct agrees (rows.foldl (insertNew agrees complete) []) := by
  induction rows using List.reverseRecOn with
  | nil => exact List.Pairwise.nil
  | append_singleton rows r ih =>
    have hbefore := ih h.of_append
    rw [List.foldl_append, List.foldl_cons, List.foldl_nil]
    unfold insertNew
    split
    · exact hbefore
    · rename_i hnone
      refine List.pairwise_append.mpr ⟨hbefore, List.pairwise_singleton _ _, ?_⟩
      intro r' hr' r'' hr''
      obtain rfl := List.mem_singleton.mp hr''
      rw [← Bool.not_eq_true]
      intro hagrees
      apply hnone
      rw [List.any_eq_true]
      exact ⟨r', hr', by rw [hagrees, h.complete_of_agrees hr' hagrees]; rfl⟩

/-- Where agreeing rows are complete, a row that agrees with one there changes nothing. -/
theorem CompleteTwins.insertNew_eq {before after : List α} {r r' : α}
    (h : CompleteTwins agrees complete (before ++ r :: after))
    (hr' : r' ∈ before.foldl (insertNew agrees complete) []) (hagrees : agrees r r' = true) :
    insertNew agrees complete (before.foldl (insertNew agrees complete) []) r =
      before.foldl (insertNew agrees complete) [] :=
  insertNew_of_twin hr' hagrees (h.complete_of_agrees hr' hagrees)

/-- If rows that agree with one there never change the table, they are complete. -/
theorem completeTwins_of_once (hsame : ∀ r r', agrees r r' = true → complete r = complete r')
    {rows : List α}
    (h : ∀ before r after, rows = before ++ r :: after →
      (∃ r' ∈ before.foldl (insertNew agrees complete) [], agrees r r' = true) →
      insertNew agrees complete (before.foldl (insertNew agrees complete) []) r =
        before.foldl (insertNew agrees complete) []) : CompleteTwins agrees complete rows := by
  induction rows using List.reverseRecOn with
  | nil => exact List.Pairwise.nil
  | append_singleton rows r ih =>
    refine List.pairwise_append.mpr ⟨ih ?_, List.pairwise_singleton _ _, ?_⟩
    · intro before r' after heq
      exact h before r' (after ++ [r]) (by rw [heq, List.append_assoc, List.cons_append])
    · intro r' hr' r'' hr'' hagrees
      obtain rfl := List.mem_singleton.mp hr''
      by_contra hincomplete
      rw [Bool.not_eq_true] at hincomplete
      have htaken : r' ∈ rows.foldl (insertNew agrees complete) [] :=
        mem_foldl_of_incomplete hr' ((hsame _ _ hagrees).symm.trans hincomplete)
      have hunchanged := h rows r'' [] rfl ⟨r', htaken, hagrees⟩
      rw [insertNew_of_incomplete hincomplete] at hunchanged
      have hlength := congrArg List.length hunchanged
      rw [List.length_append, List.length_singleton] at hlength
      omega

/-! ### The first of each key -/

section Firsts

variable {κ : Type} [DecidableEq κ] (key : α → κ)

/-- The first element of each key that is not seen yet. -/
def firstsBy : List κ → List α → List α
  | _, [] => []
  | seen, a :: l => if key a ∈ seen then firstsBy seen l else a :: firstsBy (key a :: seen) l

variable {key}

theorem firstsBy_sublist (seen : List κ) (l : List α) : (firstsBy key seen l).Sublist l := by
  induction l generalizing seen with
  | nil => exact List.Sublist.refl _
  | cons a l ih =>
    rw [firstsBy]
    split
    · exact (ih seen).cons a
    · exact (ih _).cons_cons a

/-- The keys are those of the list that are not seen. -/
theorem mem_map_firstsBy {seen : List κ} {l : List α} {k : κ} :
    k ∈ (firstsBy key seen l).map key ↔ k ∈ l.map key ∧ k ∉ seen := by
  induction l generalizing seen with
  | nil => simp [firstsBy]
  | cons a l ih =>
    rw [firstsBy]
    split
    · next hseen =>
      rw [ih, List.map_cons, List.mem_cons]
      constructor
      · intro ⟨hl, hk⟩
        exact ⟨Or.inr hl, hk⟩
      · intro ⟨hl, hk⟩
        exact ⟨hl.resolve_left fun heq => hk (heq ▸ hseen), hk⟩
    · next hnew =>
      rw [List.map_cons, List.mem_cons, ih, List.map_cons, List.mem_cons, List.mem_cons, not_or]
      by_cases hk : k = key a
      · simp [hk, hnew]
      · simp [hk]

theorem nodup_map_firstsBy (seen : List κ) (l : List α) : ((firstsBy key seen l).map key).Nodup := by
  induction l generalizing seen with
  | nil => exact List.nodup_nil
  | cons a l ih =>
    rw [firstsBy]
    split
    · exact ih seen
    · rw [List.map_cons, List.nodup_cons]
      refine ⟨fun hmem => ?_, ih _⟩
      exact (mem_map_firstsBy.mp hmem).2 List.mem_cons_self

theorem firstsBy_eq_nil_iff {seen : List κ} {l : List α} :
    firstsBy key seen l = [] ↔ ∀ a ∈ l, key a ∈ seen := by
  have hkeys : firstsBy key seen l = [] ↔ ∀ k, k ∉ (firstsBy key seen l).map key := by
    rw [← List.eq_nil_iff_forall_not_mem, List.map_eq_nil_iff]
  simp [hkeys, mem_map_firstsBy]

end Firsts

end Uniques
