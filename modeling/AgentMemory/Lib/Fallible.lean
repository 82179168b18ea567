import Mathlib.Data.List.Forall2
import Mathlib.Data.List.ReduceOption

/-!
# Fallible maps and loops

`l.mapM f` in `Option` is the list of what `f` returns, where it returns for every element. What
is in the list, what is kept of it where `f` may also drop an element, and where such loops return.
-/

namespace Fallible

variable {α β κ : Type} {f : α → Option β} {l : List α}

theorem mapM_cons_eq_some {x : α} {out : List β} :
    (x :: l).mapM f = some out ↔ ∃ y ys, f x = some y ∧ l.mapM f = some ys ∧ out = y :: ys := by
  simp only [List.mapM_cons, Option.bind_eq_bind, Option.pure_def, Option.bind_eq_some_iff]
  constructor
  · intro h
    obtain ⟨y, hy, ys, hys, hout⟩ := h
    exact ⟨y, ys, hy, hys, (Option.some.inj hout).symm⟩
  · intro h
    obtain ⟨y, ys, hy, hys, rfl⟩ := h
    exact ⟨y, hy, ys, hys, rfl⟩

/-- What is returned for some element. -/
theorem mem_of_mapM {out : List β} (h : l.mapM f = some out) {y : β} : y ∈ out ↔ ∃ x ∈ l, f x = some y := by
  induction l generalizing out with
  | nil =>
    obtain rfl := Option.some.inj h
    simp
  | cons x l ih =>
    obtain ⟨z, zs, hz, hzs, rfl⟩ := mapM_cons_eq_some.mp h
    rw [List.mem_cons, ih hzs, List.exists_mem_cons_iff, hz, Option.some.injEq, eq_comm]

theorem forall_mem_of_mapM {P : β → Prop} {out : List β} (h : l.mapM f = some out)
    (hf : ∀ x ∈ l, ∀ y, f x = some y → P y) : ∀ y ∈ out, P y := by
  intro y hy
  obtain ⟨x, hx, hfx⟩ := (mem_of_mapM h).mp hy
  exact hf x hx y hfx

/-- What a loop whose body returns lists returns. -/
theorem forall_mem_flatten_of_mapM {P : κ → Prop} {f : α → Option (List κ)} {out : List (List κ)}
    (h : l.mapM f = some out) (hf : ∀ x ∈ l, ∀ ys, f x = some ys → ∀ y ∈ ys, P y) : ∀ y ∈ out.flatten, P y := by
  intro y hy
  obtain ⟨ys, hys, hy⟩ := List.mem_flatten.mp hy
  obtain ⟨x, hx, hfx⟩ := (mem_of_mapM h).mp hys
  exact hf x hx ys hfx y hy

theorem exists_of_mapM {out : List β} (h : l.mapM f = some out) : ∀ x ∈ l, ∃ y, f x = some y := by
  induction l generalizing out with
  | nil => exact fun x hx => absurd hx List.not_mem_nil
  | cons x l ih =>
    obtain ⟨y, ys, hy, hys, -⟩ := mapM_cons_eq_some.mp h
    exact List.forall_mem_cons.mpr ⟨⟨y, hy⟩, ih hys⟩

/-- It returns where it returns for each element. -/
theorem exists_mapM (h : ∀ x ∈ l, ∃ y, f x = some y) : ∃ out, l.mapM f = some out := by
  induction l with
  | nil => exact ⟨[], rfl⟩
  | cons x l ih =>
    obtain ⟨⟨y, hy⟩, hl⟩ := List.forall_mem_cons.mp h
    obtain ⟨ys, hys⟩ := ih hl
    exact ⟨y :: ys, mapM_cons_eq_some.mpr ⟨y, ys, hy, hys, rfl⟩⟩

theorem mapM_map_eq_some {γ : Type} {r : γ → α} {g : γ → β} {l : List γ} (h : ∀ x ∈ l, f (r x) = some (g x)) :
    (l.map r).mapM f = some (l.map g) := by
  induction l with
  | nil => rfl
  | cons x l ih =>
    obtain ⟨hx, hl⟩ := List.forall_mem_cons.mp h
    exact mapM_cons_eq_some.mpr ⟨g x, l.map g, hx, ih hl, rfl⟩

/-- Writing the elements, and reading them back. -/
theorem mapM_map_eq_self {r : β → α} {l : List β} (h : ∀ x ∈ l, f (r x) = some x) : (l.map r).mapM f = some l := by
  have hmap := @mapM_map_eq_some _ _ f _ r id l h
  rwa [List.map_id] at hmap

theorem mapM_eq_some_map {g : α → β} (h : ∀ x ∈ l, f x = some (g x)) : l.mapM f = some (l.map g) := by
  have hmap := @mapM_map_eq_some _ _ f _ id g l h
  rwa [List.map_id] at hmap

/-- It returns related results exactly where each call does. -/
theorem mapM_related_iff {γ : Type} {g : γ → α} {R : β → γ → Prop} (l : List γ) :
    (∃ out, (l.map g).mapM f = some out ∧ List.Forall₂ R out l) ↔ ∀ x ∈ l, ∃ y, f (g x) = some y ∧ R y x := by
  induction l with
  | nil => simp
  | cons x l ih =>
    rw [List.forall_mem_cons, ← ih, List.map_cons]
    constructor
    · intro h
      obtain ⟨out, hout, hrelated⟩ := h
      obtain ⟨y, ys, hy, hys, rfl⟩ := mapM_cons_eq_some.mp hout
      obtain ⟨hR, hRs⟩ := List.forall₂_cons.mp hrelated
      exact ⟨⟨y, hy, hR⟩, ys, hys, hRs⟩
    · intro h
      obtain ⟨⟨y, hy, hR⟩, ys, hys, hRs⟩ := h
      exact ⟨y :: ys, mapM_cons_eq_some.mpr ⟨y, ys, hy, hys, rfl⟩, List.Forall₂.cons hR hRs⟩

/-- The first of what was returned is returned for the first. -/
theorem mapM_take {out : List β} (h : l.mapM f = some out) (n : Nat) : (l.take n).mapM f = some (out.take n) := by
  induction l generalizing out n with
  | nil =>
    obtain rfl := Option.some.inj h
    rw [List.take_nil, List.reverse_nil, List.take_nil]
    rfl
  | cons x l ih =>
    obtain ⟨y, ys, hy, hys, rfl⟩ := mapM_cons_eq_some.mp h
    cases n with
    | zero => rfl
    | succ n => exact mapM_cons_eq_some.mpr ⟨y, ys.take n, hy, ih hys n, rfl⟩

/-- Where the function succeeds throughout, nothing is left out. -/
theorem filterMap_eq_of_mapM {out : List β} (h : l.mapM f = some out) : l.filterMap f = out := by
  induction l generalizing out with
  | nil => exact Option.some.inj h
  | cons x l ih =>
    obtain ⟨y, ys, hx, hl, rfl⟩ := mapM_cons_eq_some.mp h
    rw [List.filterMap_cons_some hx, ih hl]

/-! ### Dropping elements -/

section Drop

theorem mem_reduceOption_of_mapM {f : α → Option (Option β)} {out : List (Option β)} (h : l.mapM f = some out)
    {y : β} : y ∈ out.reduceOption ↔ ∃ x ∈ l, f x = some (some y) := by
  rw [List.reduceOption_mem_iff, mem_of_mapM h]

/-- What a loop with `continue` collects. -/
theorem forall_mem_of_mapM_filterMap {P : β → Prop} {f : α → Option (Option β)} {out : List β}
    (h : (l.mapM f).map (fun found => found.filterMap id) = some out)
    (hf : ∀ x ∈ l, ∀ y, f x = some (some y) → P y) : ∀ y ∈ out, P y := by
  obtain ⟨found, hfound, rfl⟩ := Option.map_eq_some_iff.mp h
  intro y hy
  obtain ⟨x, hx, hfx⟩ := (mem_reduceOption_of_mapM hfound).mp hy
  exact hf x hx y hfx

/-- Where an element keeps its key, what is left keeps the order of the keys. -/
theorem sublist_reduceOption_of_mapM {f : α → Option (Option α)} {out : List (Option α)} {key : α → κ} (hkey : ∀ x y, f x = some (some y) → key y = key x)
    (h : l.mapM f = some out) : (out.reduceOption.map key).Sublist (l.map key) := by
  induction l generalizing out with
  | nil =>
    obtain rfl := Option.some.inj h
    exact List.Sublist.refl _
  | cons x l ih =>
    obtain ⟨found, rest, hfound, hrest, rfl⟩ := mapM_cons_eq_some.mp h
    cases found with
    | none => exact (ih hrest).trans (List.sublist_cons_self _ _)
    | some y =>
      rw [List.reduceOption_cons_of_some, List.map_cons, List.map_cons, hkey x y hfound]
      exact (ih hrest).cons_cons _

end Drop

/-! ### Loops -/

/-- A loop whose steps return returns. -/
theorem isSome_foldlM {step : β → α → Option β} (h : ∀ state, ∀ x ∈ l, (step state x).isSome = true) (state : β) :
    (l.foldlM step state).isSome = true := by
  induction l generalizing state with
  | nil => rfl
  | cons x l ih =>
    obtain ⟨next, hnext⟩ := Option.isSome_iff_exists.mp (h state x List.mem_cons_self)
    rw [List.foldlM_cons, hnext]
    exact ih (fun state x hx => h state x (List.mem_cons_of_mem _ hx)) next

end Fallible
