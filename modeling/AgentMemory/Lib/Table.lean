import Mathlib.Data.List.Dedup

/-!
# Tables with a unique key

A map from keys to rows that carry their own key, and a relational table with a primary
key, hold the same thing: a list of rows no two of which share a key. `Table` keeps that
uniqueness as a field. `upsert` writes a row over the one with its key, `erase` drops a
key; `find?_upsert` and `mem_upsert` say all that a write can change.
-/

namespace Tables

/-- Rows of type `α`, at most one for each `key`. -/
structure Table (α : Type) {κ : Type} (key : α → κ) where
  rows : List α
  nodup : (rows.map key).Nodup

namespace Table

variable {α κ : Type} {key : α → κ}

def empty : Table α key := ⟨[], List.nodup_nil⟩

instance : Inhabited (Table α key) := ⟨empty⟩

@[ext] theorem ext {s t : Table α key} (h : s.rows = t.rows) : s = t := by
  cases s; cases t; simpa using h

instance [DecidableEq α] : DecidableEq (Table α key) := fun s t =>
  decidable_of_iff (s.rows = t.rows) ⟨ext, fun h => by rw [h]⟩

/-- Two rows of a table with one key are one row. -/
theorem eq_of_key {t : Table α key} {a b : α} (ha : a ∈ t.rows) (hb : b ∈ t.rows)
    (h : key a = key b) : a = b :=
  List.inj_on_of_nodup_map t.nodup ha hb h

theorem rows_nodup (t : Table α key) : t.rows.Nodup := t.nodup.of_map key

variable [DecidableEq κ]

/-- The row under a key. -/
def find? (t : Table α key) (k : κ) : Option α := t.rows.find? fun r => key r = k

theorem find?_eq_some {t : Table α key} {k : κ} {a : α} :
    t.find? k = some a ↔ a ∈ t.rows ∧ key a = k := by
  constructor
  · intro h
    exact ⟨List.mem_of_find?_eq_some h, by simpa using List.find?_some h⟩
  · rintro ⟨ha, rfl⟩
    cases h : t.find? (key a) with
    | none =>
      have := List.find?_eq_none.mp h a ha
      simp at this
    | some b =>
      have hb : key b = key a := by simpa using List.find?_some h
      rw [eq_of_key (List.mem_of_find?_eq_some h) ha hb]

theorem find?_eq_none {t : Table α key} {k : κ} :
    t.find? k = none ↔ ∀ a ∈ t.rows, key a ≠ k := by
  simp [find?]

theorem mem_map_key {t : Table α key} {k : κ} : k ∈ t.rows.map key ↔ t.find? k ≠ none := by
  simp [find?_eq_none]

theorem find?_of_mem {t : Table α key} {a : α} (h : a ∈ t.rows) : t.find? (key a) = some a :=
  find?_eq_some.mpr ⟨h, rfl⟩

@[simp] theorem find?_empty (k : κ) : (empty : Table α key).find? k = none := rfl

/-- `rows` with the row under `key a`, if there is one, replaced by `a`. -/
def replaceRow (key : α → κ) (a : α) (rows : List α) : List α :=
  rows.map fun r => if key r = key a then a else r

theorem map_key_replaceRow (a : α) (rows : List α) :
    (replaceRow key a rows).map key = rows.map key := by
  simp only [replaceRow, List.map_map]
  apply List.map_congr_left
  intro r _
  simp only [Function.comp_apply]
  split
  · next h => exact h.symm
  · rfl

/-- Write `a`: over the row with its key where there is one, else as a new row. -/
def upsert (t : Table α key) (a : α) : Table α key :=
  if h : key a ∈ t.rows.map key then
    ⟨replaceRow key a t.rows, by rw [map_key_replaceRow]; exact t.nodup⟩
  else
    ⟨t.rows ++ [a], by
      rw [List.map_append, List.map_singleton]
      exact t.nodup.append (List.nodup_singleton _) (by simpa using h)⟩

theorem mem_upsert {t : Table α key} {a r : α} :
    r ∈ (t.upsert a).rows ↔ r = a ∨ (r ∈ t.rows ∧ key r ≠ key a) := by
  unfold upsert
  split
  · next h =>
    obtain ⟨b, hb, hk⟩ := List.mem_map.mp h
    simp only [replaceRow, List.mem_map]
    constructor
    · rintro ⟨x, hx, rfl⟩
      split
      · exact Or.inl rfl
      · next hne => exact Or.inr ⟨hx, hne⟩
    · rintro (rfl | ⟨hr, hne⟩)
      · exact ⟨b, hb, by simp [hk]⟩
      · exact ⟨r, hr, by simp [hne]⟩
  · next h =>
    have hfresh : ∀ x ∈ t.rows, key x ≠ key a := fun x hx e => h (List.mem_map.mpr ⟨x, hx, e⟩)
    simp only [List.mem_append, List.mem_singleton]
    constructor
    · rintro (hr | rfl)
      · exact Or.inr ⟨hr, hfresh r hr⟩
      · exact Or.inl rfl
    · rintro (rfl | ⟨hr, -⟩)
      · exact Or.inr rfl
      · exact Or.inl hr

theorem mem_upsert_self (t : Table α key) (a : α) : a ∈ (t.upsert a).rows :=
  mem_upsert.mpr (Or.inl rfl)

/-- What a write changes: the row under its own key. -/
theorem find?_upsert (t : Table α key) (a : α) (k : κ) :
    (t.upsert a).find? k = if key a = k then some a else t.find? k := by
  split
  · next h => exact find?_eq_some.mpr ⟨mem_upsert_self t a, h⟩
  · next h =>
    cases hf : t.find? k with
    | none =>
      rw [find?_eq_none] at hf ⊢
      intro r hr
      rcases mem_upsert.mp hr with rfl | ⟨hr, -⟩
      · exact h
      · exact hf r hr
    | some b =>
      obtain ⟨hb, hk⟩ := find?_eq_some.mp hf
      exact find?_eq_some.mpr ⟨mem_upsert.mpr (Or.inr ⟨hb, fun e => h (e ▸ hk)⟩), hk⟩

@[simp] theorem find?_upsert_self (t : Table α key) (a : α) :
    (t.upsert a).find? (key a) = some a := by
  simp [find?_upsert]

theorem find?_upsert_of_ne (t : Table α key) {a : α} {k : κ} (h : key a ≠ k) :
    (t.upsert a).find? k = t.find? k := by
  simp [find?_upsert, h]

/-- Every row of a written table that is not the written one was there before. -/
theorem mem_of_mem_upsert {t : Table α key} {a r : α} (h : r ∈ (t.upsert a).rows)
    (hne : key r ≠ key a) : r ∈ t.rows := by
  rcases mem_upsert.mp h with rfl | ⟨hr, -⟩
  · exact absurd rfl hne
  · exact hr

theorem length_upsert (t : Table α key) (a : α) :
    (t.upsert a).rows.length = t.rows.length + if t.find? (key a) = none then 1 else 0 := by
  unfold upsert
  split
  · next h =>
    obtain ⟨b, hb, hk⟩ := List.mem_map.mp h
    have : t.find? (key a) = some b := find?_eq_some.mpr ⟨hb, hk⟩
    simp [replaceRow, this]
  · next h =>
    have : t.find? (key a) = none := find?_eq_none.mpr fun x hx e =>
      h (List.mem_map.mpr ⟨x, hx, e⟩)
    simp [this]

/-- Write `a` only where its key is free, as a content-addressed store does. -/
def putNew (t : Table α key) (a : α) : Table α key :=
  match t.find? (key a) with
  | some _ => t
  | none => t.upsert a

theorem find?_putNew (t : Table α key) (a : α) (k : κ) :
    (t.putNew a).find? k = (t.find? k).or (if key a = k then some a else none) := by
  unfold putNew
  cases hf : t.find? (key a) with
  | some b =>
    by_cases hk : key a = k
    · subst hk
      simp [hf]
    · simp [hk]
  | none =>
    rw [find?_upsert]
    by_cases hk : key a = k
    · subst hk
      simp [hf]
    · simp [hk]

/-- Among rows put one after the other, a key keeps the first row written under it. -/
theorem find?_foldl_putNew (t : Table α key) (as : List α) (k : κ) :
    (as.foldl putNew t).find? k = (t.find? k).or (as.find? fun a => key a = k) := by
  induction as generalizing t with
  | nil => simp
  | cons a as ih =>
    rw [List.foldl_cons, ih, find?_putNew, Option.or_assoc]
    by_cases hk : key a = k <;> simp [hk]

/-- Nothing changes where every key is there already, and only there. -/
theorem foldl_putNew_eq_self {t : Table α key} {as : List α} :
    as.foldl putNew t = t ↔ ∀ a ∈ as, t.find? (key a) ≠ none := by
  constructor
  · intro hsame a ha hnone
    have hfind := find?_foldl_putNew t as (key a)
    rw [hsame, hnone, Option.none_or] at hfind
    have habsent := List.find?_eq_none.mp hfind.symm a ha
    simp at habsent
  · intro hthere
    induction as with
    | nil => rfl
    | cons a as ih =>
      obtain ⟨ha, has⟩ := List.forall_mem_cons.mp hthere
      obtain ⟨b, hb⟩ := Option.ne_none_iff_exists'.mp ha
      have hput : t.putNew a = t := by
        unfold putNew
        rw [hb]
      rw [List.foldl_cons, hput]
      exact ih has

/-- Change every row, but no key. -/
def mapRows (t : Table α key) (f : α → α) (hf : ∀ r, key (f r) = key r) : Table α key :=
  ⟨t.rows.map f, by
    have hkeys : (t.rows.map f).map key = t.rows.map key := by simp [Function.comp_def, hf]
    rw [hkeys]
    exact t.nodup⟩

theorem find?_mapRows (t : Table α key) (f : α → α) (hf : ∀ r, key (f r) = key r) (k : κ) :
    (t.mapRows f hf).find? k = (t.find? k).map f := by
  simp [find?, mapRows, List.find?_map, Function.comp_def, hf]

/-- A change of the rows under some keys, one key after the other, where doing it twice is
doing it once. -/
theorem find?_foldl_mapRows {f : α → α} (hf : ∀ r, key (f r) = key r) (hidem : ∀ r, f (f r) = f r)
    (ks : List κ) (t : Table α key) (k : κ) :
    (ks.foldl (fun t old => t.mapRows (fun r => if key r = old then f r else r)
      fun r => by split <;> simp [hf]) t).find? k =
        (t.find? k).map fun r => if k ∈ ks then f r else r := by
  induction ks generalizing t with
  | nil => simp
  | cons old ks ih =>
    rw [List.foldl_cons, ih, find?_mapRows, Option.map_map]
    cases hrow : t.find? k with
    | none => rfl
    | some r =>
      have hkey : key r = k := (find?_eq_some.mp hrow).2
      simp only [Option.map_some, Function.comp_apply, hkey, List.mem_cons]
      by_cases hold : k = old <;> by_cases hmem : k ∈ ks <;> simp [hold, hmem, hidem]

/-- The keys of a table into which rows are written one after the other. -/
theorem find?_foldl_upsert_ne_none (as : List α) (t : Table α key) (k : κ) :
    (as.foldl upsert t).find? k ≠ none ↔ (∃ a ∈ as, key a = k) ∨ t.find? k ≠ none := by
  induction as generalizing t with
  | nil => simp
  | cons a as ih =>
    rw [List.foldl_cons, ih, find?_upsert, List.exists_mem_cons_iff]
    by_cases hk : key a = k <;> simp [hk]

theorem find?_foldl_upsert_of_ne {as : List α} {k : κ} (h : ∀ a ∈ as, key a ≠ k) (t : Table α key) :
    (as.foldl upsert t).find? k = t.find? k := by
  induction as generalizing t with
  | nil => rfl
  | cons a as ih =>
    obtain ⟨ha, has⟩ := List.forall_mem_cons.mp h
    rw [List.foldl_cons, ih has, find?_upsert_of_ne t ha]

theorem mem_of_mem_foldl_upsert {as : List α} {t : Table α key} {r : α} (h : r ∈ (as.foldl upsert t).rows) :
    r ∈ as ∨ r ∈ t.rows := by
  induction as generalizing t with
  | nil => exact Or.inr h
  | cons a as ih =>
    obtain hmem | hmem := ih h
    · exact Or.inl (List.mem_cons_of_mem _ hmem)
    · obtain rfl | hmem := mem_upsert.mp hmem
      · exact Or.inl List.mem_cons_self
      · exact Or.inr hmem.1

/-- Rows of new keys stand behind the others. -/
theorem rows_foldl_upsert {as : List α} {t : Table α key} (h : ((t.rows ++ as).map key).Nodup) :
    (as.foldl upsert t).rows = t.rows ++ as := by
  induction as generalizing t with
  | nil => rw [List.append_nil]; rfl
  | cons a as ih =>
    have hfresh : key a ∉ t.rows.map key := by
      intro hmem
      rw [List.map_append] at h
      exact (List.nodup_append.mp h).2.2 _ hmem _ List.mem_cons_self rfl
    have hrows : (t.upsert a).rows = t.rows ++ [a] := by
      unfold upsert
      rw [dif_neg hfresh]
    rw [List.foldl_cons, ih, hrows, List.append_assoc, List.singleton_append]
    rwa [hrows, List.append_assoc, List.singleton_append]

/-- Keep the rows that pass a test. -/
def keep (t : Table α key) (p : α → Bool) : Table α key :=
  ⟨t.rows.filter p, t.nodup.sublist (List.filter_sublist.map key)⟩

theorem find?_keep (t : Table α key) (p : α → Bool) (k : κ) :
    (t.keep p).find? k = (t.find? k).filter p := by
  cases h : t.find? k with
  | none =>
    rw [find?_eq_none] at h
    exact find?_eq_none.mpr fun a ha => h a (List.mem_filter.mp ha).1
  | some a =>
    obtain ⟨ha, hk⟩ := find?_eq_some.mp h
    by_cases hp : p a = true
    · rw [Option.filter_some_pos hp]
      exact find?_eq_some.mpr ⟨List.mem_filter.mpr ⟨ha, hp⟩, hk⟩
    · rw [Option.filter_some_neg (by simpa using hp), find?_eq_none]
      intro b hb hkb
      obtain ⟨hb, hpb⟩ := List.mem_filter.mp hb
      rw [eq_of_key hb ha (hkb.trans hk.symm)] at hpb
      exact hp hpb

/-- The table without the row under a key. -/
def erase (t : Table α key) (k : κ) : Table α key :=
  ⟨t.rows.filter fun r => key r ≠ k, t.nodup.sublist (List.filter_sublist.map key)⟩

theorem mem_erase {t : Table α key} {k : κ} {r : α} :
    r ∈ (t.erase k).rows ↔ r ∈ t.rows ∧ key r ≠ k := by
  simp [erase]

/-- No later row has the key of a row exactly if none of the last rows under each key has. -/
theorem forall_mem_lastRows {a : α} {as : List α} :
    (∀ b ∈ as.pwFilter fun a b => key a ≠ key b, key a ≠ key b) ↔ ∀ b ∈ as, key a ≠ key b := by
  apply List.forall_mem_pwFilter
  intro x y z hxz
  by_cases hxy : key x = key y
  · exact Or.inr (hxy ▸ hxz)
  · exact Or.inl hxy

/-- The last row written under a key is there in the end. -/
theorem find?_foldl_upsert_last {as : List α} {a : α}
    (ha : a ∈ as.pwFilter fun a b => key a ≠ key b) (t : Table α key) :
    (as.foldl upsert t).find? (key a) = some a := by
  induction as generalizing t with
  | nil => cases ha
  | cons b as ih =>
    rw [List.foldl_cons]
    by_cases hb : ∀ a ∈ as, key b ≠ key a
    · rw [List.pwFilter_cons_of_pos (forall_mem_lastRows.mpr hb), List.mem_cons] at ha
      rcases ha with rfl | ha
      · rw [find?_foldl_upsert_of_ne fun a' ha' => (hb a' ha').symm]
        exact find?_upsert_self t a
      · exact ih ha _
    · rw [List.pwFilter_cons_of_neg fun h => hb (forall_mem_lastRows.mp h)] at ha
      exact ih ha _

/-- Rows written after the rows with their key are deleted, where no key is unique by
itself: of the written rows the last under each key are left. -/
theorem foldl_replace (writes rows : List α) :
    writes.foldl (fun rows w => rows.filter (fun r => key r ≠ key w) ++ [w]) rows =
      rows.filter (fun r => ∀ w ∈ writes, key r ≠ key w) ++
        writes.pwFilter fun w w' => key w ≠ key w' := by
  induction writes generalizing rows with
  | nil => simp
  | cons w writes ih =>
    rw [List.foldl_cons, ih, List.filter_append, List.filter_filter, List.append_assoc]
    congr 1
    · apply List.filter_congr
      intro r _
      simp [Bool.and_comm]
    · by_cases hw : ∀ w' ∈ writes, key w ≠ key w'
      · rw [List.pwFilter_cons_of_pos (forall_mem_lastRows.mpr hw), List.filter_singleton, decide_eq_true hw]
        rfl
      · rw [List.pwFilter_cons_of_neg (fun h => hw (forall_mem_lastRows.mp h)), List.filter_singleton,
          decide_eq_false hw]
        rfl

end Table

end Tables
