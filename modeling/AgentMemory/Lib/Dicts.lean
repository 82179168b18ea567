import Mathlib

/-!
# Dictionaries in key order

A dictionary whose equality does not see the order of insertion, such as Python's, is a
list of entries in strictly ascending key order. `insert` writes an entry, a later one over
an earlier one with the same key, and `ofPairs` is the dictionary a display or a parser
builds from its pairs in turn.
-/

namespace Dicts

variable {κ α : Type} [LinearOrder κ]

/-- The entries are in strictly ascending key order. -/
def Ordered (d : List (κ × α)) : Prop := d.Pairwise fun a b => a.1 < b.1

/-- The value under a key. -/
def valueAt (k : κ) : List (κ × α) → Option α
  | [] => none
  | (k', v) :: rest => if k = k' then some v else valueAt k rest

/-- Write a value under a key. -/
def insert (k : κ) (v : α) : List (κ × α) → List (κ × α)
  | [] => [(k, v)]
  | (k', v') :: rest =>
    if k < k' then (k, v) :: (k', v') :: rest
    else if k = k' then (k, v) :: rest
    else (k', v') :: insert k v rest

/-- Drop a key. -/
def erase (k : κ) (d : List (κ × α)) : List (κ × α) := d.filter fun kv => kv.1 ≠ k

/-- The dictionary of these pairs, written in turn. -/
def ofPairs (pairs : List (κ × α)) : List (κ × α) :=
  pairs.foldl (fun d kv => insert kv.1 kv.2 d) []

theorem ordered_nil : Ordered ([] : List (κ × α)) := List.Pairwise.nil

@[simp] theorem ordered_cons {kv : κ × α} {d : List (κ × α)} :
    Ordered (kv :: d) ↔ (∀ kv' ∈ d, kv.1 < kv'.1) ∧ Ordered d := List.pairwise_cons

theorem Ordered.lt_of_mem {d rest : List (κ × α)} {kv : κ × α} (h : Ordered (d ++ kv :: rest)) :
    ∀ kv' ∈ d, kv'.1 < kv.1 :=
  fun kv' hkv' => (List.pairwise_append.mp h).2.2 kv' hkv' kv List.mem_cons_self

theorem mem_of_mem_insert {k : κ} {v : α} {d : List (κ × α)} {kv : κ × α}
    (h : kv ∈ insert k v d) : kv = (k, v) ∨ kv ∈ d := by
  induction d with
  | nil => simpa [insert] using h
  | cons kv' rest ih =>
    unfold insert at h
    split_ifs at h with hlt heq
    · simpa using h
    · rcases List.mem_cons.mp h with h | h
      · exact Or.inl h
      · exact Or.inr (List.mem_cons_of_mem _ h)
    · rcases List.mem_cons.mp h with h | h
      · simp [h]
      · rcases ih h with h | h <;> simp [h]

theorem ordered_insert (k : κ) (v : α) {d : List (κ × α)} (h : Ordered d) :
    Ordered (insert k v d) := by
  induction d with
  | nil => simp [insert, ordered_nil]
  | cons kv rest ih =>
    obtain ⟨hfirst, hrest⟩ := ordered_cons.mp h
    unfold insert
    split_ifs with hlt heq
    · refine ordered_cons.mpr ⟨fun kv' hkv' => ?_, h⟩
      rcases List.mem_cons.mp hkv' with rfl | hkv'
      · exact hlt
      · exact lt_trans hlt (hfirst kv' hkv')
    · refine ordered_cons.mpr ⟨fun kv' hkv' => ?_, hrest⟩
      simpa [heq] using hfirst kv' hkv'
    · refine ordered_cons.mpr ⟨fun kv' hkv' => ?_, ih hrest⟩
      rcases mem_of_mem_insert hkv' with rfl | hkv'
      · exact lt_of_le_of_ne (not_lt.mp hlt) (Ne.symm heq)
      · exact hfirst kv' hkv'

@[simp] theorem valueAt_insert (k k' : κ) (v : α) (d : List (κ × α)) :
    valueAt k' (insert k v d) = if k' = k then some v else valueAt k' d := by
  induction d with
  | nil => simp [insert, valueAt]
  | cons kv rest ih =>
    obtain ⟨k'', v''⟩ := kv
    unfold insert
    split_ifs with hlt heq <;> grind [valueAt]

/-- A key above all others is written at the end. -/
theorem insert_of_forall_lt {k : κ} {v : α} {d : List (κ × α)} (h : ∀ kv ∈ d, kv.1 < k) :
    insert k v d = d ++ [(k, v)] := by
  induction d with
  | nil => rfl
  | cons kv rest ih =>
    have hkv := h kv List.mem_cons_self
    simp [insert, not_lt_of_gt hkv, ne_of_gt hkv, ih fun kv' h' => h kv' (List.mem_cons_of_mem _ h')]

theorem ordered_ofPairs (pairs : List (κ × α)) : Ordered (ofPairs pairs) := by
  unfold ofPairs
  suffices h : ∀ d : List (κ × α), Ordered d →
      Ordered (pairs.foldl (fun d kv => insert kv.1 kv.2 d) d) from h [] ordered_nil
  induction pairs with
  | nil => exact fun d hd => hd
  | cons kv rest ih => exact fun d hd => ih _ (ordered_insert kv.1 kv.2 hd)

theorem mem_of_mem_ofPairs {pairs : List (κ × α)} {kv : κ × α} (h : kv ∈ ofPairs pairs) :
    kv ∈ pairs := by
  unfold ofPairs at h
  suffices hd : ∀ d : List (κ × α),
      kv ∈ pairs.foldl (fun d kv => insert kv.1 kv.2 d) d → kv ∈ d ∨ kv ∈ pairs by
    simpa using hd [] h
  clear h
  induction pairs with
  | nil => exact fun d hd => Or.inl hd
  | cons kv' rest ih =>
    intro d hd
    rcases ih _ hd with hd | hd
    · rcases mem_of_mem_insert hd with rfl | hd
      · exact Or.inr List.mem_cons_self
      · exact Or.inl hd
    · exact Or.inr (List.mem_cons_of_mem _ hd)

theorem foldl_insert_append {d rest : List (κ × α)} (h : Ordered (d ++ rest)) :
    rest.foldl (fun d kv => insert kv.1 kv.2 d) d = d ++ rest := by
  induction rest generalizing d with
  | nil => simp
  | cons kv rest ih =>
    have hassoc : d ++ kv :: rest = (d ++ [kv]) ++ rest := by simp
    rw [List.foldl_cons, insert_of_forall_lt h.lt_of_mem, hassoc]
    exact ih (hassoc ▸ h)

/-- Entries already in order are their own dictionary. -/
theorem ofPairs_of_ordered {d : List (κ × α)} (h : Ordered d) : ofPairs d = d := by
  simpa [ofPairs] using foldl_insert_append (d := []) (by simpa using h)

theorem valueAt_foldl_insert {pairs d : List (κ × α)} {k : κ} (h : ∀ kv ∈ pairs, kv.1 ≠ k) :
    valueAt k (pairs.foldl (fun d kv => insert kv.1 kv.2 d) d) = valueAt k d := by
  induction pairs generalizing d with
  | nil => rfl
  | cons kv rest ih =>
    have hne : k ≠ kv.1 := Ne.symm (h kv List.mem_cons_self)
    rw [List.foldl_cons, ih fun kv' h' => h kv' (List.mem_cons_of_mem _ h')]
    simp [hne]

/-- Looking a key up in a display whose keys differ finds its own value. -/
theorem valueAt_ofPairs {pairs : List (κ × α)} (h : (pairs.map Prod.fst).Nodup) (k : κ) :
    valueAt k (ofPairs pairs) = valueAt k pairs := by
  unfold ofPairs
  suffices hd : ∀ d : List (κ × α), valueAt k d = none →
      valueAt k (pairs.foldl (fun d kv => insert kv.1 kv.2 d) d) = valueAt k pairs from hd [] rfl
  induction pairs with
  | nil => exact fun d hd => hd
  | cons kv rest ih =>
    obtain ⟨k', v⟩ := kv
    rw [List.map_cons, List.nodup_cons] at h
    intro d hd
    rw [List.foldl_cons]
    by_cases hk : k = k'
    · subst hk
      have hrest : ∀ kv ∈ rest, kv.1 ≠ k := fun kv hkv e => h.1 (List.mem_map.mpr ⟨kv, hkv, e⟩)
      rw [valueAt_foldl_insert hrest]
      simp [valueAt]
    · rw [ih h.2 _ (by simp [hk, hd])]
      simp [valueAt, hk]

theorem valueAt_eq_none {k : κ} {d : List (κ × α)} : valueAt k d = none ↔ ∀ kv ∈ d, kv.1 ≠ k := by
  induction d with
  | nil => simp [valueAt]
  | cons kv rest ih =>
    simp only [valueAt, List.forall_mem_cons]
    by_cases hk : k = kv.1
    · simp [hk]
    · simp [hk, ih, Ne.symm hk]

/-- Dropping a key that was written drops it. -/
@[simp] theorem erase_insert (k : κ) (v : α) (d : List (κ × α)) :
    erase k (insert k v d) = erase k d := by
  induction d with
  | nil => simp [insert, erase]
  | cons kv rest ih =>
    unfold insert
    split_ifs with hlt heq
    · simp [erase]
    · simp [erase, heq]
    · simp only [erase] at ih
      simp only [erase, List.filter_cons, ih]

/-- Writing a key puts one entry in the place of any that had it. -/
theorem insert_perm {d : List (κ × α)} (h : Ordered d) (k : κ) (v : α) :
    (insert k v d).Perm ((k, v) :: erase k d) := by
  induction d with
  | nil => exact List.Perm.refl _
  | cons kv rest ih =>
    obtain ⟨hfirst, hrest⟩ := ordered_cons.mp h
    have hself : ∀ {d : List (κ × α)}, (∀ kv' ∈ d, k < kv'.1) → erase k d = d := by
      intro d hd
      simpa [erase, List.filter_eq_self] using fun a b hab => ne_of_gt (hd (a, b) hab)
    unfold insert
    split_ifs with hlt heq
    · rw [hself (List.forall_mem_cons.mpr ⟨hlt, fun kv' h' => lt_trans hlt (hfirst kv' h')⟩)]
    · have herase : erase k (kv :: rest) = rest := by
        rw [erase, List.filter_cons_of_neg (by simp [heq])]
        exact hself fun kv' h' => heq ▸ hfirst kv' h'
      rw [herase]
    · have herase : erase k (kv :: rest) = kv :: erase k rest :=
        List.filter_cons_of_pos (by simpa using Ne.symm heq)
      rw [herase]
      exact ((ih hrest).cons kv).trans (List.Perm.swap _ _ _)

theorem erase_of_valueAt_eq_none {k : κ} {d : List (κ × α)} (h : valueAt k d = none) : erase k d = d := by
  simpa [erase, List.filter_eq_self] using valueAt_eq_none.mp h

theorem foldl_insert_perm {pairs d : List (κ × α)} (h : (pairs.map Prod.fst).Nodup)
    (hd : Ordered d) (hfree : ∀ kv ∈ pairs, valueAt kv.1 d = none) :
    (pairs.foldl (fun d kv => insert kv.1 kv.2 d) d).Perm (pairs ++ d) := by
  induction pairs generalizing d with
  | nil => exact List.Perm.refl _
  | cons kv rest ih =>
    obtain ⟨k, v⟩ := kv
    rw [List.map_cons, List.nodup_cons] at h
    obtain ⟨hk, hrest⟩ := List.forall_mem_cons.mp hfree
    have hfree' : ∀ kv ∈ rest, valueAt kv.1 (insert k v d) = none := by
      intro kv hkv
      have hne : kv.1 ≠ k := fun e => h.1 (List.mem_map.mpr ⟨kv, hkv, e⟩)
      simp [hne, hrest kv hkv]
    have hinsert := insert_perm hd k v
    rw [erase_of_valueAt_eq_none hk] at hinsert
    have htail := ih h.2 (ordered_insert k v hd) hfree'
    exact htail.trans ((hinsert.append_left rest).trans List.perm_middle)

/-- A display whose keys differ holds its pairs. -/
theorem ofPairs_perm {pairs : List (κ × α)} (h : (pairs.map Prod.fst).Nodup) :
    (ofPairs pairs).Perm pairs := by
  simpa [ofPairs] using foldl_insert_perm h ordered_nil fun _ _ => rfl

@[simp] theorem valueAt_erase_self (k : κ) (d : List (κ × α)) : valueAt k (erase k d) = none :=
  valueAt_eq_none.mpr fun _ hkv => by simpa using (List.mem_filter.mp hkv).2

end Dicts
