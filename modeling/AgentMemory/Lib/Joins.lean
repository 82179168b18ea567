import Mathlib

/-!
# Joins of sequences

Values that are joined to a first one, one after the other, come to their least upper bound, so
nothing depends on their order or on how often one comes. In a linear order the bound is one of
the values.
-/

namespace Joins

variable {α β : Type} [SemilatticeSup α] [SemilatticeSup β]

/-- The values joined to the first, one after the other. -/
def joined (a : α) (values : List α) : α := values.foldl (· ⊔ ·) a

@[simp] theorem joined_nil (a : α) : joined a [] = a := rfl

@[simp] theorem joined_cons (a b : α) (values : List α) : joined a (b :: values) = joined (a ⊔ b) values := rfl

theorem isLUB_joined (a : α) (values : List α) : IsLUB {x | x ∈ a :: values} (joined a values) := by
  induction values generalizing a with
  | nil => simp
  | cons b values ih =>
    obtain ⟨hupper, hleast⟩ := ih (a ⊔ b)
    have hab : a ⊔ b ≤ joined (a ⊔ b) values := hupper List.mem_cons_self
    constructor
    · intro x hx
      rw [joined_cons]
      obtain rfl | hx := List.mem_cons.mp hx
      · exact le_sup_left.trans hab
      · obtain rfl | hx := List.mem_cons.mp hx
        · exact le_sup_right.trans hab
        · exact hupper (List.mem_cons_of_mem _ hx)
    · intro bound hbound
      apply hleast
      intro x hx
      obtain rfl | hx := List.mem_cons.mp hx
      · exact sup_le (hbound List.mem_cons_self) (hbound (List.mem_cons_of_mem _ List.mem_cons_self))
      · exact hbound (List.mem_cons_of_mem _ (List.mem_cons_of_mem _ hx))

/-- Values with the same elements have the same join. -/
theorem joined_congr {a a' : α} {values values' : List α} (h : ∀ x, x ∈ a :: values ↔ x ∈ a' :: values') :
    joined a values = joined a' values' := by
  have hset : {x | x ∈ a :: values} = {x | x ∈ a' :: values'} := Set.ext h
  exact (isLUB_joined a values).unique (hset ▸ isLUB_joined a' values')

theorem joined_perm {values values' : List α} (h : values.Perm values') (a : α) :
    joined a values = joined a values' :=
  joined_congr fun _ => (h.cons a).mem_iff

/-- A map that preserves joins preserves those of sequences. -/
theorem map_joined {f : α → β} (hf : ∀ a b, f (a ⊔ b) = f a ⊔ f b) (a : α) (values : List α) :
    f (joined a values) = joined (f a) (values.map f) := by
  induction values generalizing a with
  | nil => rfl
  | cons b values ih => rw [joined_cons, ih, hf, List.map_cons, joined_cons]

theorem isGreatest_joined {α : Type} [LinearOrder α] (a : α) (values : List α) :
    IsGreatest {x | x ∈ a :: values} (joined a values) := by
  refine ⟨?_, (isLUB_joined a values).1⟩
  induction values generalizing a with
  | nil => exact List.mem_cons_self
  | cons b values ih =>
    obtain h | h := List.mem_cons.mp (ih (a ⊔ b))
    · show joined (a ⊔ b) values ∈ a :: b :: values
      rw [h]
      obtain hmax | hmax := max_choice a b
      · exact List.mem_cons.mpr (Or.inl hmax)
      · exact List.mem_cons_of_mem _ (List.mem_cons.mpr (Or.inl hmax))
    · exact List.mem_cons_of_mem _ (List.mem_cons_of_mem _ h)

end Joins
