import AgentMemory.Lib.Table

/-!
# Rows gathered from contributions

A table to which contributions come one after the other: the first under a key starts the row
there, each later one adds to it. So the row under a key is made of the contributions with that
key alone, in their order: `mem_foldl_gather`.
-/

namespace Tables

variable {α β κ : Type} [DecidableEq κ] {key : α → κ}

/-- How a contribution starts a row and how it adds to one, which keeps its key. -/
structure Gathering (β : Type) (key : α → κ) where
  keyOf : β → κ
  start : β → α
  add : α → β → α
  key_start : ∀ b, key (start b) = keyOf b
  key_add : ∀ a b, key (add a b) = key a

namespace Gathering

variable (g : Gathering β key)

/-- The row that a contribution leaves. -/
def row : Option α → β → α
  | none, b => g.start b
  | some a, b => g.add a b

/-- A contribution comes to the table. -/
def gather (t : Table α key) (b : β) : Table α key := t.upsert (g.row (t.find? (g.keyOf b)) b)

variable {g}

theorem key_row {t : Table α key} (b : β) : key (g.row (t.find? (g.keyOf b)) b) = g.keyOf b := by
  cases h : t.find? (g.keyOf b) with
  | none => exact g.key_start b
  | some a => exact (g.key_add a b).trans (Table.find?_eq_some.mp h).2

/-- A contribution changes the row under its key only. -/
theorem find?_gather (t : Table α key) (b : β) (k : κ) :
    (g.gather t b).find? k = if g.keyOf b = k then some (g.row (t.find? k) b) else t.find? k := by
  have hkey : key (g.row (t.find? (g.keyOf b)) b) = g.keyOf b := key_row b
  rw [gather, Table.find?_upsert, hkey]
  split
  · next h => rw [h]
  · rfl

/-- The row under a key is made of the contributions with this key. -/
theorem find?_foldl_gather (bs : List β) (t : Table α key) (k : κ) :
    (bs.foldl g.gather t).find? k =
      (bs.filter fun b => g.keyOf b = k).foldl (fun found b => some (g.row found b)) (t.find? k) := by
  induction bs generalizing t with
  | nil => rfl
  | cons b bs ih =>
    rw [List.foldl_cons, ih, find?_gather]
    by_cases h : g.keyOf b = k <;> simp [h]

omit [DecidableEq κ] in
theorem foldl_row_some (bs : List β) (a : α) :
    bs.foldl (fun found b => some (g.row found b)) (some a) = some (bs.foldl g.add a) := by
  induction bs generalizing a with
  | nil => rfl
  | cons b bs ih => rw [List.foldl_cons, List.foldl_cons, row, ih]

/-- The rows of a table that was empty. -/
theorem mem_foldl_gather {bs : List β} {a : α} : a ∈ (bs.foldl g.gather Table.empty).rows ↔
    ∃ b rest, (bs.filter fun b => g.keyOf b = key a) = b :: rest ∧ a = rest.foldl g.add (g.start b) := by
  have hfind := @find?_foldl_gather _ _ _ _ _ g bs Table.empty (key a)
  rw [Table.find?_empty] at hfind
  have hmem : a ∈ (bs.foldl g.gather Table.empty).rows ↔
      (bs.foldl g.gather Table.empty).find? (key a) = some a :=
    ⟨Table.find?_of_mem, fun h => (Table.find?_eq_some.mp h).1⟩
  rw [hmem, hfind]
  cases bs.filter fun b => g.keyOf b = key a with
  | nil => simp
  | cons b rest =>
    rw [List.foldl_cons, row, foldl_row_some]
    constructor
    · intro h
      exact ⟨b, rest, rfl, (Option.some.inj h).symm⟩
    · intro h
      obtain ⟨b', rest', heq, ha⟩ := h
      obtain ⟨rfl, rfl⟩ := List.cons.inj heq
      rw [← ha]

/-- A key of a contribution is that of a row. -/
theorem exists_mem_foldl_gather {bs : List β} {b : β} (h : b ∈ bs) :
    ∃ a ∈ (bs.foldl g.gather Table.empty).rows, key a = g.keyOf b := by
  have hfilter : b ∈ bs.filter fun b' => g.keyOf b' = g.keyOf b := List.mem_filter.mpr ⟨h, decide_eq_true rfl⟩
  have hfind := @find?_foldl_gather _ _ _ _ _ g bs Table.empty (g.keyOf b)
  rw [Table.find?_empty] at hfind
  obtain ⟨first, rest, heq⟩ := List.exists_cons_of_ne_nil (List.ne_nil_of_mem hfilter)
  rw [heq, List.foldl_cons, row, foldl_row_some] at hfind
  obtain ⟨hmem, hkey⟩ := Table.find?_eq_some.mp hfind
  exact ⟨_, hmem, hkey⟩

end Gathering

end Tables
