import Mathlib.Data.List.Perm.Subperm
import Mathlib.Order.Defs.Unbundled
import AgentMemory.Lib.Sorted

/-!
# Pages of a ranked list

A page is what a query with an order and a limit returns: the first items of some arrangement that the
order admits, ties in any order. An item is on every page exactly where fewer others than a page holds
may stand before it. A cleaner reads a page again and again and removes from the items those on the page
that are due; it removes every due item in the end exactly where no due item has a page of items before it
that stay.
-/

namespace Pages

variable {α σ : Type} (before : α → α → Prop) (k : Nat)

/-- `ORDER BY … LIMIT k` over these items. -/
def Page (items page : List α) : Prop :=
  ∃ ordered : List α, ordered.Perm items ∧ ordered.Pairwise before ∧ page = ordered.take k

/-! ### The first items -/

/-- An item is among the first ones where fewer than these stand before it. -/
theorem mem_take_iff {items : List α} {k : Nat} {a : α} :
    a ∈ items.take k ↔ ∃ front back, items = front ++ a :: back ∧ front.length < k := by
  constructor
  · intro ha
    obtain ⟨front, back, hsplit⟩ := List.append_of_mem ha
    refine ⟨front, back ++ items.drop k, ?_, ?_⟩
    · rw [← List.cons_append, ← List.append_assoc, ← hsplit, List.take_append_drop]
    · have hlength := List.length_take_le k items
      rw [hsplit, List.length_append, List.length_cons] at hlength
      omega
  · rintro ⟨front, back, rfl, hlength⟩
    obtain ⟨rest, rfl⟩ := Nat.exists_eq_add_of_lt hlength
    rw [Nat.add_assoc, List.take_length_add_append, List.take_succ_cons]
    exact List.mem_append_right _ List.mem_cons_self

/-- The same, where what is taken is read, and only the first that can be are kept. -/
theorem mem_take_filterMap_take {β : Type} {f : α → Option β} {items : List α} {k k' : Nat} {b : β} :
    b ∈ ((items.take k).filterMap f).take k' ↔ ∃ front a back, items = front ++ a :: back ∧ f a = some b ∧
      front.length < k ∧ (front.filterMap f).length < k' := by
  constructor
  · intro hb
    obtain ⟨kept, more, hkept, hlength⟩ := mem_take_iff.mp hb
    obtain ⟨first, rest, htake, rfl, hrest⟩ := List.filterMap_eq_append_iff.mp hkept
    obtain ⟨dropped, a, back, rfl, hdropped, ha, rfl⟩ := List.filterMap_eq_cons_iff.mp hrest
    have hback : items = (first ++ dropped) ++ a :: (back ++ items.drop k) := by
      calc items = items.take k ++ items.drop k := (List.take_append_drop k items).symm
        _ = _ := by simp [htake]
    refine ⟨first ++ dropped, a, _, hback, ha, ?_, ?_⟩
    · have hle := List.length_take_le k items
      rw [htake] at hle
      simp only [List.length_append, List.length_cons] at hle ⊢
      omega
    · rw [List.filterMap_append, List.filterMap_eq_nil_iff.mpr hdropped, List.append_nil]
      exact hlength
  · rintro ⟨front, a, back, rfl, ha, hlength, hkept⟩
    obtain ⟨rest, rfl⟩ := Nat.exists_eq_add_of_lt hlength
    refine mem_take_iff.mpr ⟨front.filterMap f, (back.take rest).filterMap f, ?_, hkept⟩
    rw [Nat.add_assoc, List.take_length_add_append, List.take_succ_cons, List.filterMap_append,
      List.filterMap_cons_some ha]

section Crowd

variable {before k} {items page : List α} {a : α}

theorem Page.mem (h : Page before k items page) {b : α} (hb : b ∈ page) : b ∈ items := by
  obtain ⟨ordered, hperm, -, rfl⟩ := h
  exact hperm.mem_iff.mp (List.mem_of_mem_take hb)

/-- The items of a page in another order that is admitted are a page too. -/
theorem Page.of_perm {order : List α} (h : Page before k items page) (hperm : order.Perm page)
    (hsorted : order.Pairwise before) : Page before k items order := by
  obtain ⟨ordered, hitems, hordered, rfl⟩ := h
  have hsplit : (ordered.take k ++ ordered.drop k).Pairwise before := by rwa [List.take_append_drop]
  refine ⟨order ++ ordered.drop k, ?_, ?_, ?_⟩
  · refine (hperm.append_right _).trans ?_
    rwa [List.take_append_drop]
  · refine List.pairwise_append.mpr ⟨hsorted, (List.pairwise_append.mp hsplit).2.1, fun b hb c hc => ?_⟩
    exact (List.pairwise_append.mp hsplit).2.2 b (hperm.mem_iff.mp hb) c hc
  · have hlength := hperm.length_eq
    rw [List.length_take] at hlength
    rcases Nat.le_total k ordered.length with hle | hle
    · rw [min_eq_left hle] at hlength
      rw [← hlength, List.take_left]
    · rw [List.drop_of_length_le hle, List.append_nil, List.take_of_length_le (by omega)]

/-- Before an item with a property that no item of a page has, a page of others may stand. -/
theorem Page.crowd_of_missing [IsTrans α before] (h : Page before k items page) (hnodup : items.Nodup)
    {p : α → Bool} (ha : a ∈ items) (hpa : p a = true) (hmissing : ∀ b ∈ page, p b = false) :
    ∃ front : List α, front.Nodup ∧ k ≤ front.length ∧ ∀ b ∈ front, b ∈ items ∧ p b = false ∧ before b a := by
  obtain ⟨ordered, hperm, hpair, rfl⟩ := h
  have ha' := hperm.mem_iff.mpr ha
  have hfound : ordered.find? p ≠ none := by
    rw [ne_eq, List.find?_eq_none]
    exact fun hnone => hnone a ha' hpa
  -- the first such item stands behind `k` others, and `a` does not stand before it
  obtain ⟨c, hc⟩ := Option.ne_none_iff_exists'.mp hfound
  obtain ⟨hpc, front, back, rfl, hfront⟩ := List.find?_eq_some_iff_append.mp hc
  have hothers : ∀ b ∈ front, p b = false := fun b hb => by simpa using hfront b hb
  have hbefore := (List.pairwise_append.mp hpair).2.2
  have hback := (List.pairwise_cons.mp (List.pairwise_append.mp hpair).2.1).1
  refine ⟨front, ?_, ?_, fun b hb => ⟨?_, hothers b hb, ?_⟩⟩
  · exact (hperm.nodup_iff.mpr hnodup).sublist (List.sublist_append_left _ _)
  · by_contra hshort
    have hpage : c ∈ (front ++ c :: back).take k := by
      rw [List.take_append]
      refine List.mem_append_right _ ?_
      obtain ⟨m, hm⟩ : ∃ m, k - front.length = m + 1 := ⟨k - front.length - 1, by omega⟩
      rw [hm, List.take_succ_cons]
      exact List.mem_cons_self
    rw [hmissing c hpage] at hpc
    cases hpc
  · exact hperm.mem_iff.mp (List.mem_append_left _ hb)
  · rcases List.mem_append.mp ha' with hmem | hmem
    · rw [hothers a hmem] at hpa
      cases hpa
    · rcases List.mem_cons.mp hmem with rfl | hmem
      · exact hbefore b hb a List.mem_cons_self
      · exact IsTrans.trans _ _ _ (hbefore b hb c List.mem_cons_self) (hback a hmem)

variable [Std.Total before] [IsTrans α before] [DecidableRel before]

/-- The items without a property that may stand before another item. -/
def crowd (before : α → α → Prop) [DecidableRel before] (p : α → Bool) (items : List α) (a : α) : List α :=
  items.filter fun b => !p b && before b a

/-- An order in which ties are resolved against the items with a property. -/
def Against (before : α → α → Prop) (p : α → Bool) (a b : α) : Prop :=
  before a b ∧ (before b a → p a = true → p b = true)

instance (p : α → Bool) : DecidableRel (Against before p) := fun a b =>
  inferInstanceAs (Decidable (before a b ∧ (before b a → p a = true → p b = true)))

omit [DecidableRel before] [IsTrans α before] in
theorem against_total (p : α → Bool) (a b : α) : Against before p a b ∨ Against before p b a := by
  by_cases hab : before a b
  · by_cases hba : before b a
    · cases hpa : p a with
      | false => exact Or.inl ⟨hab, fun _ h => absurd h (by simp [hpa])⟩
      | true => exact Or.inr ⟨hba, fun _ _ => hpa⟩
    · exact Or.inl ⟨hab, fun h => absurd h hba⟩
  · exact Or.inr ⟨(Std.Total.total a b).resolve_left hab, fun h => absurd h hab⟩

omit [DecidableRel before] [Std.Total before] in
theorem against_trans (p : α → Bool) (a b c : α) (hab : Against before p a b) (hbc : Against before p b c) :
    Against before p a c := by
  refine ⟨IsTrans.trans _ _ _ hab.1 hbc.1, fun hca hpa => ?_⟩
  have hpb := hab.2 (IsTrans.trans _ _ _ hbc.1 hca) hpa
  exact hbc.2 (IsTrans.trans _ _ _ hca hab.1) hpb

/-- Where a page of others may stand before every item with a property, some page holds none of them. -/
theorem exists_page_without {p : α → Bool} (hnodup : items.Nodup)
    (hk : ∀ a ∈ items, p a = true → k ≤ (crowd before p items a).length) :
    ∃ page, Page before k items page ∧ ∀ a ∈ page, p a = false := by
  have hperm := List.mergeSort_perm items fun a b => Against before p a b
  have hsorted : (items.mergeSort fun a b => Against before p a b).Pairwise (Against before p) :=
    Sorted.pairwise_mergeSort (against_trans p) (against_total p) items
  refine ⟨_, ⟨_, hperm, hsorted.imp fun h => h.1, rfl⟩, fun a ha => ?_⟩
  by_contra hpa
  rw [Bool.not_eq_false] at hpa
  obtain ⟨front, rest, htake⟩ := List.append_of_mem ha
  generalize hordered : (items.mergeSort fun a b => Against before p a b) = ordered at *
  -- all of the crowd stands in front of `a`, and there is no room for it
  have hsplit : ordered = front ++ a :: (rest ++ ordered.drop k) := by
    calc ordered = ordered.take k ++ ordered.drop k := (List.take_append_drop k ordered).symm
      _ = front ++ a :: (rest ++ ordered.drop k) := by rw [htake]; simp
  have hcrowd : crowd before p items a ⊆ front := by
    intro b hb
    obtain ⟨hmem, hb⟩ := List.mem_filter.mp hb
    rw [Bool.and_eq_true, Bool.not_eq_true', decide_eq_true_eq] at hb
    have hmem' := hperm.mem_iff.mpr hmem
    rw [hsplit, List.mem_append, List.mem_cons] at hmem'
    rcases hmem' with hfront | rfl | hback
    · exact hfront
    · rw [hpa] at hb
      cases hb.1
    · rw [hsplit] at hsorted
      have hafter := (List.pairwise_cons.mp (List.pairwise_append.mp hsorted).2.1).1 b hback
      rw [hafter.2 hb.2 hpa] at hb
      cases hb.1
  have hlength := (List.subperm_of_subset (hnodup.filter _) hcrowd).length_le
  have hroom := congrArg List.length htake
  simp only [List.length_take, List.length_append, List.length_cons] at hroom
  have hpage := hk a (hperm.mem_iff.mp (List.mem_of_mem_take ha)) hpa
  unfold crowd at hpage
  omega

/-- Every page holds an item with a property exactly where fewer others than a page holds may stand before
one. -/
theorem forall_page_exists_iff {p : α → Bool} (hnodup : items.Nodup) :
    (∀ page, Page before k items page → ∃ a ∈ page, p a = true) ↔
      ∃ a ∈ items, p a = true ∧ (crowd before p items a).length < k := by
  constructor
  · intro h
    by_contra hnone
    have hk : ∀ a ∈ items, p a = true → k ≤ (crowd before p items a).length := fun a ha hpa =>
      Nat.le_of_not_lt fun hlt => hnone ⟨a, ha, hpa, hlt⟩
    obtain ⟨page, hpage, hwithout⟩ := exists_page_without hnodup hk
    obtain ⟨a, ha, hpa⟩ := h page hpage
    rw [hwithout a ha] at hpa
    cases hpa
  · rintro ⟨a, ha, hpa, hlt⟩ page hpage
    by_contra hnone
    have hmissing : ∀ b ∈ page, p b = false := fun b hb => Bool.eq_false_iff.mpr fun hpb => hnone ⟨b, hb, hpb⟩
    obtain ⟨front, hfrontnodup, hk, hfront⟩ := hpage.crowd_of_missing hnodup ha hpa hmissing
    have hsubset : front ⊆ crowd before p items a := by
      intro b hb
      obtain ⟨hb, hpb, hbefore⟩ := hfront b hb
      simp [crowd, hb, hpb, hbefore]
    have hlength := (List.subperm_of_subset hfrontnodup hsubset).length_le
    omega

/-! ### Ties -/

/-- An item that a full page has no room for, or that ties with no other. -/
def Untied (before : α → α → Prop) [DecidableRel before] (k : Nat) (items : List α) : Prop :=
  ∀ a ∈ items, ∀ b ∈ items, a ≠ b → before a b → before b a → k ≤ (Sorted.ahead before items a).length

/-- Which tied items are on the page is left open, and this item is one of them. -/
def Contested (before : α → α → Prop) [DecidableRel before] (k : Nat) (items : List α) (a : α) : Prop :=
  (Sorted.ahead before items a).length < k ∧ k < (items.filter fun b => before b a).length

instance [DecidableEq α] : Decidable (Untied before k items) :=
  inferInstanceAs (Decidable (∀ a ∈ items, ∀ b ∈ items, a ≠ b → before a b → before b a →
    k ≤ (Sorted.ahead before items a).length))

instance : Decidable (Contested before k items a) := inferInstanceAs (Decidable (_ ∧ _))

omit [IsTrans α before] in
/-- In an arrangement no more items stand in front of one than may stand there. -/
theorem length_ahead_le {front back : List α} (hperm : (front ++ a :: back).Perm items)
    (hpair : (front ++ a :: back).Pairwise before) : (Sorted.ahead before items a).length ≤ front.length := by
  have hrefl : ∀ b, before b b := fun b => (Std.Total.total b b).elim id id
  rw [(Sorted.ahead_of_append hrefl hperm hpair).length_eq]
  exact List.length_filter_le _ _

omit [IsTrans α before] in
/-- An item that ties with no other has one place in all arrangements. -/
theorem length_ahead_eq {front back : List α} (hnodup : items.Nodup) (hperm : (front ++ a :: back).Perm items)
    (hpair : (front ++ a :: back).Pairwise before)
    (huntied : ∀ b ∈ items, a ≠ b → before a b → ¬ before b a) :
    (Sorted.ahead before items a).length = front.length := by
  have hrefl : ∀ b, before b b := fun b => (Std.Total.total b b).elim id id
  rw [(Sorted.ahead_of_append hrefl hperm hpair).length_eq]
  refine congrArg List.length (List.filter_eq_self.mpr fun b hb => ?_)
  have hba : before b a := (List.pairwise_append.mp hpair).2.2 b hb a List.mem_cons_self
  have hne : a ≠ b := by
    rintro rfl
    have hdisjoint := (List.nodup_append.mp (hperm.nodup_iff.mpr hnodup)).2.2
    exact hdisjoint a hb a List.mem_cons_self rfl
  simpa using fun hab => huntied b (hperm.subset (List.mem_append_left _ hb)) hne hab hba

omit [IsTrans α before] in
/-- All pages are the same where no two items tie that a page has room for. -/
theorem page_unique {page' : List α} (hnodup : items.Nodup) (huntied : Untied before k items)
    (h : Page before k items page) (h' : Page before k items page') : page = page' := by
  obtain ⟨ordered, hperm, hpair, rfl⟩ := h
  obtain ⟨ordered', hperm', hpair', rfl⟩ := h'
  refine List.ext_getElem? fun i => ?_
  rw [List.getElem?_take, List.getElem?_take]
  split
  swap
  · rfl
  next hi =>
  by_cases hlt : i < ordered.length
  swap
  · have hlength := hperm.length_eq.trans hperm'.length_eq.symm
    rw [List.getElem?_eq_none (by omega), List.getElem?_eq_none (by omega)]
  -- the item at `i` stands at the number of those ahead of it, in both arrangements
  have hsplit : ordered = ordered.take i ++ ordered[i] :: ordered.drop (i + 1) := by
    rw [List.getElem_cons_drop, List.take_append_drop]
  have hfront : (ordered.take i).length = i := by rw [List.length_take, min_eq_left hlt.le]
  have hget := List.getElem?_eq_getElem hlt
  generalize ordered[i] = a at hsplit hget
  rw [hsplit] at hperm hpair
  have hahead := length_ahead_le hperm hpair
  have ha : a ∈ items := hperm.subset (by simp)
  have hsingle : ∀ b ∈ items, a ≠ b → before a b → ¬ before b a := fun b hb hne hab hba => by
    have hroom := huntied a ha b hb hne hab hba
    omega
  have hplace := length_ahead_eq hnodup hperm hpair hsingle
  obtain ⟨front', back', hsplit'⟩ := List.append_of_mem (hperm'.mem_iff.mpr ha)
  rw [hsplit'] at hperm' hpair'
  have hplace' := length_ahead_eq hnodup hperm' hpair' hsingle
  have hi' : front'.length = i := by omega
  rw [hget, hsplit', List.getElem?_append_right hi'.le, hi', Nat.sub_self]
  rfl

/-- An item that a page has room for stands on some page right behind those ahead of it. -/
theorem exists_page_at [DecidableEq α] (ha : a ∈ items) (hk : (Sorted.ahead before items a).length < k) :
    ∃ page, Page before k items page ∧ page[(Sorted.ahead before items a).length]? = some a := by
  have hrefl : ∀ b, before b b := fun b => (Std.Total.total b b).elim id id
  refine ⟨_, ⟨Sorted.enumeration before items a, Sorted.perm_enumeration hrefl ha,
    Sorted.pairwise_enumeration (fun _ _ _ => IsTrans.trans _ _ _) Std.Total.total items a, rfl⟩, ?_⟩
  rw [List.getElem?_take_of_lt hk, Sorted.enumeration, List.getElem?_append_right (by rw [List.length_mergeSort]),
    List.length_mergeSort, Nat.sub_self]
  rfl

omit [IsTrans α before] in
/-- All pages agree on an item that is not contested. -/
theorem mem_page_of_not_contested [DecidableEq α] {page' : List α} (hnodup : items.Nodup)
    (hsettled : ¬ Contested before k items a) (h : Page before k items page) (h' : Page before k items page')
    (ha : a ∈ page) : a ∈ page' := by
  have hitem := h.mem ha
  obtain ⟨ordered, hperm, hpair, rfl⟩ := h
  obtain ⟨ordered', hperm', hpair', rfl⟩ := h'
  -- as the item is on a page, there is room for it, so it has its place on every page
  obtain ⟨front, rest, htake⟩ := List.append_of_mem ha
  have hsplit : ordered = front ++ a :: (rest ++ ordered.drop k) := by
    calc ordered = ordered.take k ++ ordered.drop k := (List.take_append_drop k ordered).symm
      _ = front ++ a :: (rest ++ ordered.drop k) := by rw [htake]; simp
  rw [hsplit] at hperm hpair
  have hahead := length_ahead_le hperm hpair
  have hroom := congrArg List.length htake
  simp only [List.length_take, List.length_append, List.length_cons] at hroom
  have hcrowd : (items.filter fun b => before b a).length ≤ k := by
    by_contra hmore
    exact hsettled ⟨by omega, by omega⟩
  obtain ⟨front', back', rfl⟩ := List.append_of_mem (hperm'.mem_iff.mpr hitem)
  have hfront' : front' ++ [a] ⊆ items.filter fun b => before b a := by
    intro b hb
    rw [List.mem_append, List.mem_singleton] at hb
    rcases hb with hb | rfl
    · have hba : before b a := (List.pairwise_append.mp hpair').2.2 b hb a List.mem_cons_self
      exact List.mem_filter.mpr ⟨hperm'.subset (List.mem_append_left _ hb), by simpa using hba⟩
    · exact List.mem_filter.mpr ⟨hitem, by simpa using (Std.Total.total b b : before b b ∨ before b b).elim id id⟩
  have hfrontnodup : (front' ++ [a]).Nodup := by
    refine (hperm'.nodup_iff.mpr hnodup).sublist ?_
    exact List.Sublist.append_left (List.singleton_sublist.mpr List.mem_cons_self) front'
  have hlength := (List.subperm_of_subset hfrontnodup hfront').length_le
  rw [List.length_append, List.length_singleton] at hlength
  rw [List.take_append]
  refine List.mem_append_right _ ?_
  obtain ⟨m, hm⟩ : ∃ m, k - front'.length = m + 1 := ⟨k - front'.length - 1, by omega⟩
  rw [hm, List.take_succ_cons]
  exact List.mem_cons_self

end Crowd

/-- So many steps of a relation. -/
inductive Times (next : σ → σ → Prop) : Nat → σ → σ → Prop where
  | none (s : σ) : Times next 0 s s
  | more {n : Nat} {s s' s'' : σ} : next s s' → Times next n s' s'' → Times next (n + 1) s s''

/-- A system that reads a page of its live items and clears those on it that are due. -/
structure Cleaner (σ α : Type) (before : α → α → Prop) (k : Nat) where
  live : σ → List α
  due : α → Bool
  next : σ → σ → Prop
  nodup : ∀ s, (live s).Nodup
  page_of_next : ∀ s s', next s s' → ∃ page, Page before k (live s) page ∧
    ∀ a, a ∈ live s' ↔ a ∈ live s ∧ ¬ (a ∈ page ∧ due a = true)
  next_of_page : ∀ s page, Page before k (live s) page → ∃ s', next s s' ∧
    ∀ a, a ∈ live s' ↔ a ∈ live s ∧ ¬ (a ∈ page ∧ due a = true)

namespace Cleaner

variable {before : α → α → Prop} [DecidableRel before] {k : Nat} (c : Cleaner σ α before k)

/-- The live items that stay and may stand before another one. -/
def staying (s : σ) (a : α) : List α := crowd before c.due (c.live s) a

/-- Nothing live is due. -/
def Done (s : σ) : Prop := ∀ a ∈ c.live s, c.due a = false

variable {c} {s s' : σ}

theorem staying_next {page : List α}
    (hlive : ∀ a, a ∈ c.live s' ↔ a ∈ c.live s ∧ ¬ (a ∈ page ∧ c.due a = true)) (a : α) :
    (c.staying s' a).Perm (c.staying s a) := by
  refine (List.perm_ext_iff_of_nodup ((c.nodup s').filter _) ((c.nodup s).filter _)).mpr fun b => ?_
  simp only [List.mem_filter, hlive, Bool.and_eq_true, Bool.not_eq_true']
  constructor
  · rintro ⟨⟨hb, -⟩, hstay⟩
    exact ⟨hb, hstay⟩
  · rintro ⟨hb, hstay⟩
    refine ⟨⟨hb, fun hcleared => ?_⟩, hstay⟩
    rw [hcleared.2] at hstay
    exact absurd hstay.1 (by decide)

/-- No due item has a page of staying ones before it. -/
def Clearable (c : Cleaner σ α before k) (s : σ) : Prop :=
  ∀ a ∈ c.live s, c.due a = true → (c.staying s a).length < k

theorem clearable_next (h : c.Clearable s) (hnext : c.next s s') : c.Clearable s' := by
  obtain ⟨page, -, hlive⟩ := c.page_of_next s s' hnext
  intro a ha hdue
  rw [(staying_next hlive a).length_eq]
  exact h a ((hlive a).mp ha).1 hdue

omit [DecidableRel before] in
theorem done_next (h : c.Done s) (hnext : c.next s s') : c.Done s' := by
  obtain ⟨page, -, hlive⟩ := c.page_of_next s s' hnext
  exact fun a ha => h a ((hlive a).mp ha).1

variable [IsTrans α before] [Std.Total before]

/-- Every step clears one. -/
theorem length_due_next (h : c.Clearable s) (hnext : c.next s s') (hdue : ¬ c.Done s) :
    ((c.live s').filter c.due).length < ((c.live s).filter c.due).length := by
  obtain ⟨page, hpage, hlive⟩ := c.page_of_next s s' hnext
  simp only [Done, not_forall, Bool.not_eq_false] at hdue
  obtain ⟨a, ha, hdue⟩ := hdue
  obtain ⟨b, hb, hbdue⟩ := (forall_page_exists_iff (c.nodup s)).mpr ⟨a, ha, hdue, h a ha hdue⟩ page hpage
  have hsubset : b :: (c.live s').filter c.due ⊆ (c.live s).filter c.due := by
    refine List.cons_subset.mpr ⟨List.mem_filter.mpr ⟨hpage.mem hb, hbdue⟩, fun x hx => ?_⟩
    obtain ⟨hx, hxdue⟩ := List.mem_filter.mp hx
    exact List.mem_filter.mpr ⟨((hlive x).mp hx).1, hxdue⟩
  have hnot : b ∉ (c.live s').filter c.due := fun hmem =>
    ((hlive b).mp (List.mem_of_mem_filter hmem)).2 ⟨hb, hbdue⟩
  have hnodup := List.nodup_cons.mpr ⟨hnot, (c.nodup s').filter c.due⟩
  have hlength := (List.subperm_of_subset hnodup hsubset).length_le
  rw [List.length_cons] at hlength
  omega

theorem done_of_times (h : c.Clearable s) {n : Nat} (hn : ((c.live s).filter c.due).length ≤ n)
    (hrun : Times c.next n s s') : c.Done s' := by
  induction hrun with
  | none s =>
    intro a ha
    have hnone := List.length_eq_zero_iff.mp (Nat.le_zero.mp hn)
    exact Bool.eq_false_iff.mpr (List.filter_eq_nil_iff.mp hnone a ha)
  | @more n s s₁ s₂ hnext hrun ih =>
    apply ih (clearable_next h hnext)
    by_cases hdone : c.Done s
    · have hnone := List.filter_eq_nil_iff.mpr fun a ha =>
        Bool.eq_false_iff.mp (done_next hdone hnext a ha)
      rw [hnone]
      exact Nat.zero_le n
    · have hlt := length_due_next h hnext hdone
      omega

/-- A due item behind a page of staying ones may be passed over for ever. -/
theorem exists_times_starving [DecidableEq α] {a : α} (ha : a ∈ c.live s) (hdue : c.due a = true)
    (hk : k ≤ (c.staying s a).length) (n : Nat) : ∃ s', Times c.next n s s' ∧ a ∈ c.live s' := by
  induction n generalizing s with
  | zero => exact ⟨s, .none s, ha⟩
  | succ n ih =>
    have hcrowd : (c.staying s a).length ≤ (crowd before (fun b => b = a) (c.live s) a).length := by
      refine (List.subperm_of_subset ((c.nodup s).filter _) fun b hb => ?_).length_le
      obtain ⟨hb, hstay⟩ := List.mem_filter.mp hb
      have hne : b ≠ a := by
        rintro rfl
        simp [hdue] at hstay
      simp only [Bool.and_eq_true, decide_eq_true_eq] at hstay
      simp [crowd, hb, hne, hstay.2]
    have hall : ∀ b ∈ c.live s, decide (b = a) = true → k ≤ (crowd before (fun b => b = a) (c.live s) b).length := by
      intro b _ hb
      rw [of_decide_eq_true hb]
      exact hk.trans hcrowd
    obtain ⟨page, hpage, hnot⟩ := exists_page_without (c.nodup s) hall
    obtain ⟨s₁, hnext, hlive⟩ := c.next_of_page s page hpage
    have ha₁ : a ∈ c.live s₁ :=
      (hlive a).mpr ⟨ha, fun hmem => of_decide_eq_false (hnot a hmem.1) rfl⟩
    obtain ⟨s', hrun, ha'⟩ := ih ha₁ (hk.trans_eq (staying_next hlive a).length_eq.symm)
    exact ⟨s', .more hnext hrun, ha'⟩

/-- So many steps are certain to leave nothing due exactly where no due item has a page of staying ones
before it. -/
theorem done_iff_clearable [DecidableEq α] (s : σ) : (∃ n, ∀ s', Times c.next n s s' → c.Done s') ↔ c.Clearable s := by
  constructor
  · rintro ⟨n, hdone⟩ a ha hdue
    by_contra hk
    obtain ⟨s', hrun, ha'⟩ := exists_times_starving ha hdue (Nat.le_of_not_lt hk) n
    rw [hdone s' hrun a ha'] at hdue
    cases hdue
  · exact fun h => ⟨_, fun s' => done_of_times h le_rfl⟩

end Cleaner

end Pages
