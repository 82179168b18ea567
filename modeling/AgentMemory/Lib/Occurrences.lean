import Mathlib.Data.List.Infix

/-!
# Where a text occurs

A text occurs in another where it is an infix of it. What does not contain a separator occurs on one side of the
separator or on the other.
-/

namespace Occurrences

variable {α : Type}

theorem prefix_of_prefix_append_cons {t a b : List α} {x : α} (hx : x ∉ t) (h : t <+: a ++ x :: b) : t <+: a := by
  have hcut : a ++ [x] <+: a ++ x :: b := ⟨b, by simp⟩
  rcases List.prefix_or_prefix_of_prefix h hcut with hle | hle
  · rcases List.prefix_concat_iff.mp hle with rfl | hle
    · exact absurd (List.mem_append_right a (List.mem_singleton_self x)) hx
    · exact hle
  · exact absurd (hle.subset (List.mem_append_right a (List.mem_singleton_self x))) hx

theorem infix_append_cons_iff {t a b : List α} {x : α} (hx : x ∉ t) : t <:+: a ++ x :: b ↔ t <:+: a ∨ t <:+: b := by
  constructor
  · intro h
    induction a with
    | nil =>
      rcases List.infix_cons_iff.mp h with hprefix | hinfix
      · exact .inl (prefix_of_prefix_append_cons (a := []) hx hprefix).isInfix
      · exact .inr hinfix
    | cons c a ih =>
      rcases List.infix_cons_iff.mp h with hprefix | hinfix
      · exact .inl (prefix_of_prefix_append_cons (a := c :: a) hx hprefix).isInfix
      · exact (ih hinfix).imp_left List.infix_cons
  · intro h
    rcases h with h | h
    · exact h.trans (List.prefix_append a (x :: b)).isInfix
    · exact h.trans ((List.suffix_cons x b).isInfix.trans (List.suffix_append a (x :: b)).isInfix)

end Occurrences
