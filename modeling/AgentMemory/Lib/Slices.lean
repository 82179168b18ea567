import Mathlib.Data.List.Basic

/-!
# Slices and the arrays behind them

A slice is a window of an array, and two slices may be windows of one array. Filtering a slice in
place (`out := in[:0]`, then `append` of what is kept) writes the kept elements over the front of
the array, so a second slice of that array reads them, and what is left behind them, afterwards.
-/

namespace Slices

/-- A window of an array, from its first cell on. -/
structure Slice where
  array : Nat
  len : Nat
  deriving DecidableEq

/-- Arrays by their addresses. -/
abbrev Heap (α : Type) := List (List α)

variable {α : Type}

/-- The array at an address. -/
def Heap.arrayAt (h : Heap α) (a : Nat) : List α := h.getD a []

/-- The elements of a slice. -/
def Heap.read (h : Heap α) (s : Slice) : List α := (h.arrayAt s.array).take s.len

@[simp] theorem arrayAt_set_self {h : Heap α} {a : Nat} (ha : a < h.length) (cells : List α) :
    Heap.arrayAt (h.set a cells) a = cells := by
  rw [Heap.arrayAt, List.getD_eq_getElem?_getD, List.getElem?_set_self ha, Option.getD_some]

theorem arrayAt_set_ne {h : Heap α} {a b : Nat} (hab : a ≠ b) (cells : List α) :
    Heap.arrayAt (h.set a cells) b = h.arrayAt b := by
  rw [Heap.arrayAt, Heap.arrayAt, List.getD_eq_getElem?_getD, List.getElem?_set_ne hab,
    List.getD_eq_getElem?_getD]

theorem arrayAt_append_of_lt {h : Heap α} {a : Nat} (ha : a < h.length) (cells : List α) :
    Heap.arrayAt (h ++ [cells]) a = h.arrayAt a := by
  rw [Heap.arrayAt, Heap.arrayAt, List.getD_eq_getElem?_getD, List.getElem?_append_left ha,
    List.getD_eq_getElem?_getD]

@[simp] theorem arrayAt_append_length (h : Heap α) (cells : List α) :
    Heap.arrayAt (h ++ [cells]) h.length = cells := by
  rw [Heap.arrayAt, List.getD_eq_getElem?_getD, List.getElem?_concat_length, Option.getD_some]

/-- The loop over the elements that are left: each is read where it stands now and, if it is
kept, written to the next cell of the front. -/
def compactFrom (keep : α → Bool) : (left : Nat) → (pos : Nat) → (next : Nat) → List α → List α × Nat
  | 0, _, next, cells => (cells, next)
  | left + 1, pos, next, cells =>
    match cells[pos]? with
    | none => (cells, next)
    | some v =>
      if keep v then compactFrom keep left (pos + 1) (next + 1) (cells.set next v)
      else compactFrom keep left (pos + 1) next cells

/-- A slice filtered in place. -/
def filterInPlace (keep : α → Bool) (h : Heap α) (s : Slice) : Heap α × Slice :=
  let (cells, len) := compactFrom keep s.len 0 0 (h.arrayAt s.array)
  (h.set s.array cells, ⟨s.array, len⟩)

/-- An array whose front is written over. -/
def overwrite (front cells : List α) : List α := front ++ cells.drop front.length

/-- The loop writes the kept elements one after the other and moves nothing else. -/
theorem compactFrom_eq (keep : α → Bool) {left pos next : Nat} {cells : List α} (hnext : next ≤ pos)
    (hleft : pos + left ≤ cells.length) :
    compactFrom keep left pos next cells =
      (overwrite (cells.take next ++ ((cells.drop pos).take left).filter keep) cells,
        next + (((cells.drop pos).take left).filter keep).length) := by
  induction left generalizing pos next cells with
  | zero =>
    have hlength : (cells.take next).length = next := List.length_take_of_le (by omega)
    simp [compactFrom, overwrite, hlength]
  | succ left ih =>
    have hat : pos < cells.length := by omega
    have hdrop : cells.drop pos = cells[pos] :: cells.drop (pos + 1) := List.drop_eq_getElem_cons hat
    unfold compactFrom
    rw [List.getElem?_eq_getElem hat, hdrop, List.take_succ_cons]
    simp only
    by_cases hkeep : keep cells[pos] = true
    · have hsame : (cells.set next cells[pos]).drop (pos + 1) = cells.drop (pos + 1) :=
        List.drop_set_of_lt (by omega)
      have hfront : (cells.set next cells[pos]).take (next + 1) = cells.take next ++ [cells[pos]] := by
        rw [List.take_set, List.take_add_one, List.getElem?_eq_getElem (by omega), Option.toList_some,
          List.set_append_right _ _ (List.length_take_le next cells), List.length_take_of_le (by omega),
          Nat.sub_self, List.set_cons_zero]
      rw [if_pos hkeep, List.filter_cons_of_pos hkeep, ih (by omega) (by rw [List.length_set]; omega), hsame, hfront]
      refine Prod.ext ?_ (by rw [List.length_cons]; omega)
      simp only [overwrite, List.append_assoc, List.singleton_append]
      congr 2
      rw [List.drop_set_of_lt]
      simp only [List.length_append, List.length_cons, List.length_take]
      omega
    · rw [if_neg hkeep, List.filter_cons_of_neg hkeep, ih (by omega) (by omega)]

/-- Filtering in place keeps what passes, in order, at the front of the array. -/
theorem filterInPlace_eq (keep : α → Bool) {h : Heap α} {s : Slice} (hlen : s.len ≤ (h.arrayAt s.array).length) :
    filterInPlace keep h s = (h.set s.array (overwrite ((h.read s).filter keep) (h.arrayAt s.array)),
      ⟨s.array, ((h.read s).filter keep).length⟩) := by
  have hcompact := compactFrom_eq keep (Nat.le_refl 0) (show 0 + s.len ≤ (h.arrayAt s.array).length by omega)
  simp only [filterInPlace, hcompact, List.take_zero, List.nil_append, List.drop_zero, Nat.zero_add]
  rfl

@[simp] theorem length_overwrite {front cells : List α} (h : front.length ≤ cells.length) :
    (overwrite front cells).length = cells.length := by
  rw [overwrite, List.length_append, List.length_drop]
  omega

theorem take_overwrite (front cells : List α) : (overwrite front cells).take front.length = front :=
  List.take_left

/-- A longer window reads what was written and then what it read there before. -/
theorem take_overwrite_of_le {front cells : List α} {n : Nat} (h : front.length ≤ n) :
    (overwrite front cells).take n = front ++ (cells.take n).drop front.length := by
  rw [overwrite, List.take_append, List.take_of_length_le h, List.drop_take]

/-- Filtering again, through a window as long as before, finds nothing more exactly where nothing
that is kept stood after something that is not. -/
theorem filter_drop_filter_eq_nil_iff (keep : α → Bool) (l : List α) :
    (l.drop (l.filter keep).length).filter keep = [] ↔ l.Pairwise fun a b => keep b = true → keep a = true := by
  induction l with
  | nil => simp
  | cons a l ih =>
    rw [List.pairwise_cons]
    by_cases ha : keep a = true
    · rw [List.filter_cons_of_pos ha, List.length_cons, List.drop_succ_cons, ih]
      exact ⟨fun h => ⟨fun _ _ _ => ha, h⟩, fun h => h.2⟩
    · rw [List.filter_cons_of_neg ha]
      cases hkept : l.filter keep with
      | nil =>
        have hnone : ∀ b ∈ l, ¬ keep b = true := List.filter_eq_nil_iff.mp hkept
        refine iff_of_true ?_ ⟨fun b hb hkeep => absurd hkeep (hnone b hb), ?_⟩
        · rw [List.length_nil, List.drop_zero, List.filter_cons_of_neg ha, hkept]
        · exact List.pairwise_of_forall_mem_list fun b _ c hc hkeep => absurd hkeep (hnone c hc)
      | cons b rest =>
        have hb : b ∈ l ∧ keep b = true := List.mem_filter.mp (by rw [hkept]; exact List.mem_cons_self)
        refine iff_of_false (fun hnil => ?_) fun h => ha (h.1 b hb.1 hb.2)
        rw [List.length_cons, List.drop_succ_cons] at hnil
        have hsplit := congrArg List.length (congrArg (List.filter keep) (List.take_append_drop rest.length l))
        rw [List.filter_append, List.length_append, hnil, hkept, List.length_cons, List.length_nil] at hsplit
        have hfilter := List.length_filter_le keep (l.take rest.length)
        have htake := List.length_take_le rest.length l
        omega

end Slices
