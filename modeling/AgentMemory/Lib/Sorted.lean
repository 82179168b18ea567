import Mathlib.Data.List.Chain
import Mathlib.Data.List.Perm.Basic
import Mathlib.Data.List.Sort

/-!
# Enumerations of a sorted selection

A query with an order and a limit leaves the order of ties open, so its answer is any sorted
enumeration of the selected rows, cut off. `exists_sorted_find?_iff` says which row can be
the first one in the answer that passes a test: one that passes it, with no such row and
not too many rows strictly ahead. A `StableSort` is a language's own sort; what a `NeighbourSort`
puts first by a truth value is first whatever the other components are.
-/

namespace Sorted

variable {α : Type} [DecidableEq α] {r : α → α → Prop} [DecidableRel r]

/-- The elements that come before `a` in every enumeration sorted by `r`. -/
def ahead (r : α → α → Prop) [DecidableRel r] (s : List α) (a : α) : List α :=
  s.filter fun b => ¬ r a b

/-- An enumeration sorted by `r` with `a` right after the elements ahead of it. -/
def enumeration (r : α → α → Prop) [DecidableRel r] (s : List α) (a : α) : List α :=
  (ahead r s a).mergeSort (fun b c => r b c) ++
    a :: ((s.erase a).filter fun b => r a b).mergeSort (fun b c => r b c)

theorem perm_enumeration (hrefl : ∀ a, r a a) {s : List α} {a : α} (ha : a ∈ s) :
    (enumeration r s a).Perm s := by
  have herase : s.Perm (a :: s.erase a) := List.perm_cons_erase ha
  have hahead : (ahead r s a).Perm ((s.erase a).filter fun b => ¬ r a b) := by
    have hfilter := herase.filter fun b => decide (¬ r a b)
    rwa [List.filter_cons_of_neg (by simpa using hrefl a)] at hfilter
  have hsplit : ((s.erase a).filter (fun b => ¬ r a b) ++ (s.erase a).filter fun b => r a b).Perm
      (s.erase a) := by
    have hparts := List.filter_append_perm (fun b => decide (¬ r a b)) (s.erase a)
    simpa using hparts
  calc (enumeration r s a).Perm ((s.erase a).filter (fun b => ¬ r a b) ++
        a :: (s.erase a).filter fun b => r a b) :=
        ((List.mergeSort_perm _ _).trans hahead).append ((List.mergeSort_perm _ _).cons a)
    _ |>.Perm (a :: ((s.erase a).filter (fun b => ¬ r a b) ++
        (s.erase a).filter fun b => r a b)) := List.perm_middle
    _ |>.Perm (a :: s.erase a) := hsplit.cons a
    _ |>.Perm s := herase.symm

omit [DecidableEq α] in
theorem pairwise_mergeSort (htrans : ∀ a b c, r a b → r b c → r a c) (htotal : ∀ a b, r a b ∨ r b a) (l : List α) :
    (l.mergeSort fun b c => r b c).Pairwise r := by
  have hle : (l.mergeSort fun b c => r b c).Pairwise fun b c => decide (r b c) = true :=
    List.pairwise_mergeSort
      (fun x y z hxy hyz => by simpa using htrans x y z (by simpa using hxy) (by simpa using hyz))
      (fun x y => by simpa using htotal x y) l
  simpa using hle

theorem pairwise_enumeration (htrans : ∀ a b c, r a b → r b c → r a c)
    (htotal : ∀ a b, r a b ∨ r b a) (s : List α) (a : α) : (enumeration r s a).Pairwise r := by
  have hsorted : ∀ l : List α, (l.mergeSort fun b c => r b c).Pairwise r := pairwise_mergeSort htrans htotal
  have hbefore : ∀ b ∈ ahead r s a, r b a := by
    intro b hb
    have hnot : ¬ r a b := by simpa using (List.mem_filter.mp hb).2
    exact (htotal b a).resolve_right hnot
  refine List.pairwise_append.mpr ⟨hsorted _, List.pairwise_cons.mpr ⟨?_, hsorted _⟩, ?_⟩
  · intro b hb
    simpa using (List.mem_filter.mp (List.mem_mergeSort.mp hb)).2
  · intro b hb c hc
    have hba := hbefore b (List.mem_mergeSort.mp hb)
    rcases List.mem_cons.mp hc with rfl | hc
    · exact hba
    · have hac : r a c := by simpa using (List.mem_filter.mp (List.mem_mergeSort.mp hc)).2
      exact htrans b a c hba hac

omit [DecidableEq α] in
/-- In a sorted enumeration all elements strictly ahead of `a` stand before it. -/
theorem ahead_of_append (hrefl : ∀ a, r a a) {s before after : List α} {a : α}
    (hperm : (before ++ a :: after).Perm s) (hsorted : (before ++ a :: after).Pairwise r) :
    (ahead r s a).Perm (before.filter fun b => ¬ r a b) := by
  have hafter : ∀ b ∈ a :: after, r a b := by
    intro b hb
    rcases List.mem_cons.mp hb with rfl | hb
    · exact hrefl b
    · exact (List.pairwise_cons.mp (List.pairwise_append.mp hsorted).2.1).1 b hb
  have hnone : (a :: after).filter (fun b => decide (¬ r a b)) = [] := by
    rw [List.filter_eq_nil_iff]
    intro b hb
    simpa using hafter b hb
  have hfilter := hperm.symm.filter fun b => decide (¬ r a b)
  rwa [List.filter_append, hnone, List.append_nil] at hfilter

/-- Which element can be the first to pass a test among the first `k` of a sorted
enumeration. -/
theorem exists_sorted_find?_iff (hrefl : ∀ a, r a a) (htrans : ∀ a b c, r a b → r b c → r a c)
    (htotal : ∀ a b, r a b ∨ r b a) {s : List α} {a : α} {k : Nat} {p : α → Bool} :
    (∃ l : List α, l.Perm s ∧ l.Pairwise r ∧ (l.take k).find? p = some a) ↔
      a ∈ s ∧ p a = true ∧ (ahead r s a).length < k ∧ ∀ b ∈ ahead r s a, p b = false := by
  constructor
  · rintro ⟨l, hperm, hsorted, hfind⟩
    obtain ⟨hpa, before, rest, htake, hbefore⟩ := List.find?_eq_some_iff_append.mp hfind
    have hl : l = before ++ a :: (rest ++ l.drop k) := by
      calc l = l.take k ++ l.drop k := (List.take_append_drop k l).symm
        _ = before ++ a :: (rest ++ l.drop k) := by simp [htake]
    rw [hl] at hperm hsorted
    have hahead := ahead_of_append hrefl hperm hsorted
    refine ⟨hperm.subset (by simp), hpa, ?_, fun b hb => ?_⟩
    · have hlength := congrArg List.length htake
      have hle := List.length_filter_le (fun b => decide (¬ r a b)) before
      simp only [List.length_take, List.length_append, List.length_cons] at hlength
      rw [hahead.length_eq]
      omega
    · have hmem := (List.mem_filter.mp (hahead.subset hb)).1
      simpa using hbefore b hmem
  · rintro ⟨ha, hpa, hk, hahead⟩
    refine ⟨enumeration r s a, perm_enumeration hrefl ha, pairwise_enumeration htrans htotal s a, ?_⟩
    obtain ⟨rest, hrest⟩ : ∃ rest, k = (ahead r s a).length + (rest + 1) :=
      ⟨k - (ahead r s a).length - 1, by omega⟩
    have htake : (enumeration r s a).take k = (ahead r s a).mergeSort (fun b c => r b c) ++
        a :: (((s.erase a).filter fun b => r a b).mergeSort fun b c => r b c).take rest := by
      have hlength : ((ahead r s a).mergeSort fun b c => r b c).length = (ahead r s a).length :=
        List.length_mergeSort _
      rw [enumeration, hrest, ← hlength, List.take_length_add_append, List.take_succ_cons]
    rw [htake, List.find?_append, List.find?_cons_of_pos hpa]
    have hnone : ((ahead r s a).mergeSort fun b c => r b c).find? p = none := by
      rw [List.find?_eq_none]
      intro b hb
      simp [hahead b (List.mem_mergeSort.mp hb)]
    rw [hnone, Option.none_or]

/-! ### Sorting by a comparison -/

/-- `<` of two tuples whose components are ordered so: the first that differ decide. -/
def lexLess {α : Type} : List (α → α → Bool) → α → α → Bool
  | [], _, _ => false
  | le :: les, a, b => if (le a b && le b a) = true then lexLess les a b else le a b && !le b a

/-- All elements are comparable. -/
structure Comparable {α : Type} (le : α → α → Bool) (l : List α) : Prop where
  total : ∀ a ∈ l, ∀ b ∈ l, le a b = true ∨ le b a = true
  trans : ∀ a ∈ l, ∀ b ∈ l, ∀ c ∈ l, le a b = true → le b c = true → le a c = true

/-- What `lexLess` does not put before: equal first components leave it to the others. -/
theorem lexLess_cons_eq_false {α : Type} {le : α → α → Bool} {les : List (α → α → Bool)} {l : List α}
    (hle : Comparable le l) {a b : α} (ha : a ∈ l) (hb : b ∈ l) :
    lexLess (le :: les) a b = false ↔ le b a = true ∧ (le a b = true → lexLess les a b = false) := by
  have htotal := hle.total a ha b hb
  rw [lexLess]
  cases hab : le a b <;> cases hba : le b a <;> simp_all

theorem lexLess_trans {α : Type} {les : List (α → α → Bool)} {l : List α}
    (hles : ∀ le ∈ les, Comparable le l) {a b c : α} (ha : a ∈ l) (hb : b ∈ l) (hc : c ∈ l)
    (hba : lexLess les b a = false) (hcb : lexLess les c b = false) : lexLess les c a = false := by
  induction les with
  | nil => rfl
  | cons le les ih =>
    obtain ⟨hle, hrest⟩ := List.forall_mem_cons.mp hles
    rw [lexLess_cons_eq_false hle hb ha] at hba
    rw [lexLess_cons_eq_false hle hc hb] at hcb
    rw [lexLess_cons_eq_false hle hc ha]
    refine ⟨hle.trans a ha b hb c hc hba.1 hcb.1, fun hca => ih hrest ?_ ?_⟩
    · exact hba.2 (hle.trans b hb c hc a ha hcb.1 hca)
    · exact hcb.2 (hle.trans c hc a ha b hb hca hba.1)

theorem lexLess_total {α : Type} {les : List (α → α → Bool)} {l : List α}
    (hles : ∀ le ∈ les, Comparable le l) {a b : α} (ha : a ∈ l) (hb : b ∈ l) :
    lexLess les a b = false ∨ lexLess les b a = false := by
  induction les with
  | nil => exact Or.inl rfl
  | cons le les ih =>
    obtain ⟨hle, hrest⟩ := List.forall_mem_cons.mp hles
    rw [lexLess_cons_eq_false hle ha hb, lexLess_cons_eq_false hle hb ha]
    have htotal := hle.total a ha b hb
    cases hab : le a b <;> cases hba : le b a <;> simp_all

theorem lexLess_asymm {α : Type} (les : List (α → α → Bool)) {a b : α} (h : lexLess les a b = true) :
    lexLess les b a = false := by
  induction les with
  | nil => cases h
  | cons le les ih =>
    rw [lexLess] at h ⊢
    cases hab : le a b <;> cases hba : le b a <;> simp_all

/-- "Not before" is comparable if each component is. -/
theorem comparable_lexLess {α : Type} {les : List (α → α → Bool)} {l : List α}
    (hles : ∀ le ∈ les, Comparable le l) : Comparable (fun a b => !lexLess les b a) l where
  total a ha b hb := by
    rw [Bool.not_eq_true', Bool.not_eq_true']
    exact lexLess_total hles hb ha
  trans a ha b hb c hc hba hcb := by
    rw [Bool.not_eq_true'] at hba hcb ⊢
    exact lexLess_trans hles ha hb hc hba hcb

/-- A stable sort only compares the elements. -/
theorem pairwise_mergeSort_comparable {α : Type} {le : α → α → Bool} {l : List α} (hle : Comparable le l) :
    (l.mergeSort le).Pairwise fun a b => le a b = true := by
  have hsubtype : (l.attach.mergeSort fun a b => le a b).map Subtype.val = l.mergeSort le := by
    rw [@List.map_mergeSort _ _ _ le Subtype.val _ fun _ _ _ _ => rfl, List.attach_map_subtype_val]
  rw [← hsubtype, List.pairwise_map]
  refine List.pairwise_mergeSort ?_ ?_ l.attach
  · rintro ⟨a, ha⟩ ⟨b, hb⟩ ⟨c, hc⟩
    exact hle.trans a ha b hb c hc
  · rintro ⟨a, ha⟩ ⟨b, hb⟩
    rw [Bool.or_eq_true]
    exact hle.total a ha b hb

/-- A sort that rearranges whatever the comparison is, and is the stable one where that is a
weak order of the elements. -/
structure StableSort (α : Type) where
  sort : (α → α → Bool) → List α → List α
  perm : ∀ lt l, (sort lt l).Perm l
  stable : ∀ lt l, Comparable (fun a b => !lt b a) l → sort lt l = l.mergeSort fun a b => !lt b a

namespace StableSort

variable {α : Type} (s : StableSort α)

/-- The sort in descending order, which leaves ties in their order. -/
def descending (lt : α → α → Bool) (l : List α) : List α := (s.sort lt l.reverse).reverse

theorem perm_descending (lt : α → α → Bool) (l : List α) : (s.descending lt l).Perm l :=
  (List.reverse_perm _).trans ((s.perm lt _).trans (List.reverse_perm l))

theorem pairwise_descending {les : List (α → α → Bool)} {l : List α}
    (hles : ∀ le ∈ les, Comparable le l) :
    (s.descending (lexLess les) l).Pairwise fun a b => lexLess les a b = false := by
  have hreverse : ∀ le ∈ les, Comparable le l.reverse := fun le hle =>
    ⟨fun a ha b hb => (hles le hle).total a (List.mem_reverse.mp ha) b (List.mem_reverse.mp hb),
      fun a ha b hb c hc => (hles le hle).trans a (List.mem_reverse.mp ha) b (List.mem_reverse.mp hb) c
        (List.mem_reverse.mp hc)⟩
  have hcomparable := comparable_lexLess hreverse
  have hsorted := pairwise_mergeSort_comparable hcomparable
  rw [← s.stable _ _ hcomparable] at hsorted
  rw [descending, List.pairwise_reverse]
  exact hsorted.imp fun h => (Bool.not_eq_true' _).mp h

/-- In descending order by tuples no first component is below a later one. -/
theorem pairwise_descending_first {le : α → α → Bool} {les : List (α → α → Bool)} {l : List α}
    (hles : ∀ le' ∈ le :: les, Comparable le' l) :
    (s.descending (lexLess (le :: les)) l).Pairwise fun a b => le b a = true := by
  have hperm := s.perm_descending (lexLess (le :: les)) l
  refine (s.pairwise_descending hles).imp_of_mem ?_
  intro a b ha hb hab
  rw [lexLess_cons_eq_false (hles le List.mem_cons_self) (hperm.mem_iff.mp ha) (hperm.mem_iff.mp hb)] at hab
  exact hab.1

/-- The stable sort itself. -/
def merge (α : Type) : StableSort α where
  sort lt l := l.mergeSort fun a b => !lt b a
  perm _ l := List.mergeSort_perm l _
  stable _ _ _ := rfl

end StableSort

/-! ### Sorting by any comparison -/

/-- Where elements that pass come before those that do not, they are the first part. -/
theorem filter_append_of_pairwise {α : Type} {p : α → Bool} {l : List α}
    (h : l.Pairwise fun a b => p b = true → p a = true) : l.filter p ++ l.filter (fun a => !p a) = l := by
  induction l with
  | nil => rfl
  | cons a l ih =>
    obtain ⟨ha, hl⟩ := List.pairwise_cons.mp h
    by_cases hpa : p a = true
    · simp [hpa, ih hl]
    · have hnone : ∀ b ∈ l, ¬ p b = true := fun b hb hpb => hpa (ha b hb hpb)
      rw [List.filter_cons_of_neg hpa, List.filter_eq_nil_iff.mpr hnone, List.nil_append, List.filter_eq_self]
      intro b hb
      obtain rfl | hb := List.mem_cons.mp hb
      · simp [hpa]
      · simp [hnone b hb]

/-- Where at most `n` elements pass, the first `n` begin with all of them. -/
theorem take_of_pairwise {α : Type} {p : α → Bool} {l : List α} (h : l.Pairwise fun a b => p b = true → p a = true)
    {n : Nat} (hn : (l.filter p).length ≤ n) :
    l.take n = l.filter p ++ (l.filter fun a => !p a).take (n - (l.filter p).length) := by
  have htake : (l.filter p ++ l.filter fun a => !p a).take n =
      l.filter p ++ (l.filter fun a => !p a).take (n - (l.filter p).length) := by
    rw [List.take_append, List.take_of_length_le hn]
  rwa [filter_append_of_pairwise h] at htake

/-- A stable sort that leaves no element right behind one that it is below, also where the comparison is no weak
order, as one that merges runs does. -/
structure NeighbourSort (α : Type) extends StableSort α where
  neighbours : ∀ lt l, (∀ a b, lt a b = true → lt b a = false) → (sort lt l).IsChain fun a b => lt b a = false

namespace NeighbourSort

variable {α : Type} (s : NeighbourSort α)

/-- In descending order by tuples that begin with a truth value, what has it comes first. -/
theorem pairwise_descending {p : α → Bool} (les : List (α → α → Bool)) (l : List α) :
    (s.descending (lexLess ((fun a b => !p a || p b) :: les)) l).Pairwise fun a b => p b = true → p a = true := by
  have hchain := s.neighbours (lexLess ((fun a b => !p a || p b) :: les)) l.reverse fun _ _ => lexLess_asymm _
  have hfirst : (s.descending (lexLess ((fun a b => !p a || p b) :: les)) l).IsChain
      fun a b => p b = true → p a = true := by
    rw [StableSort.descending, List.isChain_reverse]
    refine hchain.imp fun a b hab hpa => ?_
    by_contra hpb
    simp [lexLess, hpa, hpb] at hab
  have htrans : IsTrans α fun a b => p b = true → p a = true := ⟨fun _ _ _ hab hbc hc => hab (hbc hc)⟩
  exact List.isChain_iff_pairwise.mp hfirst

end NeighbourSort

/-- Neighbours of merged lists are compared when the first of them is taken. -/
theorem isChain_merge {α : Type} {le : α → α → Bool} (htotal : ∀ a b, le a b = true ∨ le b a = true) {xs ys : List α}
    (hxs : xs.IsChain fun a b => le a b = true) (hys : ys.IsChain fun a b => le a b = true) :
    (xs.merge ys le).IsChain fun a b => le a b = true := by
  induction xs generalizing ys with
  | nil => simpa using hys
  | cons x xs ihx =>
    induction ys with
    | nil => simpa using hxs
    | cons y ys ihy =>
      obtain ⟨hx, hxs'⟩ := List.isChain_cons.mp hxs
      obtain ⟨hy, hys'⟩ := List.isChain_cons.mp hys
      rw [List.cons_merge_cons]
      split
      · next hle =>
        refine List.isChain_cons.mpr ⟨?_, ihx hxs' hys⟩
        cases xs with
        | nil => simpa using hle
        | cons x' xs =>
          rw [List.cons_merge_cons]
          split
          · simpa using hx
          · simpa using hle
      · next hle =>
        have hyx := (htotal x y).resolve_left hle
        refine List.isChain_cons.mpr ⟨?_, ihy hys'⟩
        cases ys with
        | nil => simpa using hyx
        | cons y' ys =>
          rw [List.cons_merge_cons]
          split
          · simpa using hyx
          · simpa using hy

theorem isChain_mergeSort {α : Type} {le : α → α → Bool} (htotal : ∀ a b, le a b = true ∨ le b a = true) (l : List α) :
    (l.mergeSort le).IsChain fun a b => le a b = true := by
  fun_induction List.mergeSort l le with
  | case1 => exact .nil
  | case2 => exact .singleton _
  | case3 a b xs le parts _ _ ihl ihr => exact isChain_merge htotal (ihl htotal) (ihr htotal)

theorem neighbours_mergeSort {α : Type} (lt : α → α → Bool) (l : List α)
    (hasymm : ∀ a b, lt a b = true → lt b a = false) :
    (l.mergeSort fun a b => !lt b a).IsChain fun a b => lt b a = false := by
  have htotal : ∀ a b, (!lt b a) = true ∨ (!lt a b) = true := by
    intro a b
    cases hba : lt b a with
    | false => simp
    | true => simp [hasymm b a hba]
  exact (isChain_mergeSort htotal l).imp fun _ _ h => (Bool.not_eq_true' _).mp h

/-- The stable sort itself. -/
def NeighbourSort.merge (α : Type) : NeighbourSort α where
  toStableSort := StableSort.merge α
  neighbours := neighbours_mergeSort

end Sorted
