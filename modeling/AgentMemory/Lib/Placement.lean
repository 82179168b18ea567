import Mathlib.Data.List.Nodup
import Mathlib.Data.List.Range
import Mathlib.Data.List.Perm.Subperm

/-!
# Placing items by their index

A list of empty slots is filled by writing each item at the index it carries, in order, the
last write to a slot winning. A filled slot holds an item that carries its index. When there
are as many items as slots, no slot stays empty exactly when no index is repeated and every
item has a value.
-/

namespace Placement

variable {α : Type}

/-- Write each item at its index. -/
def place (slots : List (Option α)) (items : List (Nat × Option α)) : List (Option α) :=
  items.foldl (fun slots item => slots.set item.1 item.2) slots

@[simp] theorem place_nil (slots : List (Option α)) : place slots [] = slots := rfl

@[simp] theorem place_cons (slots : List (Option α)) (item : Nat × Option α)
    (items : List (Nat × Option α)) :
    place slots (item :: items) = place (slots.set item.1 item.2) items := rfl

@[simp] theorem length_place (slots : List (Option α)) (items : List (Nat × Option α)) :
    (place slots items).length = slots.length := by
  induction items generalizing slots with
  | nil => rfl
  | cons item items ih => rw [place_cons, ih, List.length_set]

/-- A slot no item is for keeps what it holds. -/
theorem place_of_notMem {slots : List (Option α)} {items : List (Nat × Option α)} {i : Nat}
    (h : i ∉ items.map Prod.fst) : (place slots items)[i]? = slots[i]? := by
  induction items generalizing slots with
  | nil => rfl
  | cons item items ih =>
    rw [List.map_cons, List.mem_cons, not_or] at h
    rw [place_cons, ih h.2, List.getElem?_set_ne (Ne.symm h.1)]

/-- A slot some item is for holds the value of one of them. -/
theorem place_of_mem {slots : List (Option α)} {items : List (Nat × Option α)} {i : Nat}
    (h : i ∈ items.map Prod.fst) (hi : i < slots.length) :
    ∃ item ∈ items, item.1 = i ∧ (place slots items)[i]? = some item.2 := by
  induction items generalizing slots with
  | nil => cases h
  | cons item items ih =>
    have hi' : i < (slots.set item.1 item.2).length := by simpa using hi
    by_cases hlater : i ∈ items.map Prod.fst
    · obtain ⟨later, hmem, hat, hval⟩ := ih hlater hi'
      exact ⟨later, List.mem_cons_of_mem _ hmem, hat, hval⟩
    · have hfirst : i = item.1 := by
        rw [List.map_cons, List.mem_cons] at h
        exact h.resolve_right hlater
      subst hfirst
      refine ⟨item, List.mem_cons_self, rfl, ?_⟩
      rw [place_cons, place_of_notMem hlater, List.getElem?_set_self hi]

/-- Items written into empty slots: what a slot holds came in an item for it. -/
theorem mem_of_place_empty {n i : Nat} {items : List (Nat × Option α)} {v : α}
    (h : (place (List.replicate n none) items)[i]? = some (some v)) : (i, some v) ∈ items := by
  have hi : i < (List.replicate n (none : Option α)).length := by
    have := (List.getElem?_eq_some_iff.mp h).1
    rwa [length_place] at this
  by_cases hmem : i ∈ items.map Prod.fst
  · obtain ⟨⟨j, w⟩, hitem, rfl, hval⟩ := place_of_mem hmem hi
    rw [h, Option.some.injEq] at hval
    rwa [hval]
  · rw [place_of_notMem hmem, List.getElem?_replicate] at h
    split at h <;> simp at h

/-- As many indexes below `n` as there are slots cover all of them exactly when none is
repeated. -/
theorem covers_iff_nodup {n : Nat} {indexes : List Nat} (hlen : indexes.length = n)
    (hin : ∀ i ∈ indexes, i < n) : (∀ i < n, i ∈ indexes) ↔ indexes.Nodup := by
  constructor
  · intro h
    have hsub : List.Subperm (List.range n) indexes :=
      List.nodup_range.subperm fun i hi => h i (List.mem_range.mp hi)
    have hperm := hsub.perm_of_length_le (by rw [List.length_range, hlen])
    exact hperm.nodup_iff.mp List.nodup_range
  · intro h i hi
    have hsub : List.Subperm indexes (List.range n) :=
      h.subperm fun i hi => List.mem_range.mpr (hin i hi)
    have hperm := hsub.perm_of_length_le (by rw [List.length_range, hlen])
    exact hperm.mem_iff.mpr (List.mem_range.mpr hi)

/-- Two items for one slot are the same where no index is repeated. -/
theorem item_unique {items : List (Nat × Option α)} (h : (items.map Prod.fst).Nodup)
    {a b : Nat × Option α} (ha : a ∈ items) (hb : b ∈ items) (hab : a.1 = b.1) : a = b :=
  List.inj_on_of_nodup_map h ha hb hab

/-- No slot stays empty exactly when no index is repeated and no item is without a value. -/
theorem place_full_iff {n : Nat} {items : List (Nat × Option α)} (hlen : items.length = n)
    (hin : ∀ item ∈ items, item.1 < n) :
    none ∉ place (List.replicate n none) items ↔
      (items.map Prod.fst).Nodup ∧ ∀ item ∈ items, item.2 ≠ none := by
  have hidx : ∀ i ∈ items.map Prod.fst, i < n := by
    intro i hi
    obtain ⟨item, hitem, rfl⟩ := List.mem_map.mp hi
    exact hin item hitem
  have hlen' : (items.map Prod.fst).length = n := by rw [List.length_map, hlen]
  have hslots (i : Nat) (hi : i < n) : i < (List.replicate n (none : Option α)).length := by
    rwa [List.length_replicate]
  rw [← covers_iff_nodup hlen' hidx]
  constructor
  · intro hfull
    have hcover : ∀ i < n, i ∈ items.map Prod.fst := by
      intro i hi
      by_contra hno
      have hempty : (place (List.replicate n none) items)[i]? = (List.replicate n none)[i]? :=
        place_of_notMem hno
      rw [List.getElem?_replicate, if_pos hi] at hempty
      exact hfull (List.mem_of_getElem? hempty)
    refine ⟨hcover, ?_⟩
    intro item hitem hnone
    have hnodup := (covers_iff_nodup hlen' hidx).mp hcover
    have hi := hin item hitem
    obtain ⟨other, hother, hat, hval⟩ := place_of_mem (hcover _ hi) (hslots _ hi)
    rw [item_unique hnodup hother hitem hat, hnone] at hval
    exact hfull (List.mem_of_getElem? hval)
  · intro h hmem
    obtain ⟨i, hget⟩ := List.getElem?_of_mem hmem
    have hi : i < n := by
      have := (List.getElem?_eq_some_iff.mp hget).1
      rwa [length_place, List.length_replicate] at this
    obtain ⟨item, hitem, -, hval⟩ := place_of_mem (h.1 i hi) (hslots i hi)
    rw [hget, Option.some.injEq] at hval
    exact h.2 item hitem hval.symm

end Placement
