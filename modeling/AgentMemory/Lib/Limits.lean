import Mathlib.Data.List.Basic

/-!
# Limits before filters

A listing that takes the first rows, filters them and cuts off again returns a prefix of the
unlimited listing exactly when enough of the first rows match or nothing after them does.
-/

namespace Limits

variable {α : Type}

/-- The first elements, or all of them. -/
def cut (limit : Option Nat) (l : List α) : List α :=
  match limit with
  | some n => l.take n
  | none => l

theorem cut_sublist (limit : Option Nat) (l : List α) : List.Sublist (cut limit l) l := by
  cases limit with
  | none => exact List.Sublist.refl l
  | some n => exact List.take_sublist n l

theorem length_cut_le (n : Nat) (l : List α) : (cut (some n) l).length ≤ n :=
  List.length_take_le n l

/-- Among the first `k` elements there are `n` that match, or none matches after them. -/
def EnoughWithin (p : α → Bool) (k n : Nat) (l : List α) : Prop :=
  n ≤ (l.take k).countP p ∨ ∀ a ∈ l.drop k, p a = false

theorem take_filter_take_iff (p : α → Bool) (k n : Nat) (l : List α) :
    ((l.take k).filter p).take n = (l.filter p).take n ↔ EnoughWithin p k n l := by
  have hsplit : l.filter p = (l.take k).filter p ++ (l.drop k).filter p := by
    rw [← List.filter_append, List.take_append_drop]
  rw [hsplit, List.take_append, EnoughWithin, List.countP_eq_length_filter]
  rw [List.self_eq_append_right, List.take_eq_nil_iff, List.filter_eq_nil_iff, Nat.sub_eq_zero_iff_le]
  simp only [Bool.not_eq_true]

/-! ### Limits that are integers -/

/-- `LIMIT n` of SQLite, which is no limit where it is negative. -/
def limitTo (n : Int) (l : List α) : List α := if n < 0 then l else l.take n.toNat

/-- `l[:n]` of Python, which counts from the end where it is negative. -/
def sliceTo (n : Int) (l : List α) : List α := l.take (if n < 0 then (l.length + n).toNat else n.toNat)

theorem limitTo_natCast (n : Nat) (l : List α) : limitTo n l = l.take n := by
  rw [limitTo, if_neg (by omega), Int.toNat_natCast]

theorem sliceTo_natCast (n : Nat) (l : List α) : sliceTo n l = l.take n := by
  rw [sliceTo, if_neg (by omega), Int.toNat_natCast]

end Limits
