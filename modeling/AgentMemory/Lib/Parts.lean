import AgentMemory.Lib.Table

/-!
# Parts of a table

The rows that pass a test are a table of their own. A write goes into the part where the row passes and leaves it
alone where it does not, as long as the row it replaces stands on the same side.
-/

namespace Tables

namespace Table

variable {α κ : Type} {key : α → κ} [DecidableEq κ]

omit [DecidableEq κ] in
@[simp] theorem mem_keep {t : Table α key} {p : α → Bool} {r : α} : r ∈ (t.keep p).rows ↔ r ∈ t.rows ∧ p r = true :=
  List.mem_filter

theorem mem_map_key_keep {t : Table α key} {p : α → Bool} {k : κ} (h : ∀ r ∈ t.rows, key r = k → p r = true) :
    k ∈ (t.keep p).rows.map key ↔ k ∈ t.rows.map key := by
  rw [mem_map_key, mem_map_key, find?_keep]
  cases hfind : t.find? k with
  | none => simp
  | some r =>
    obtain ⟨hr, hk⟩ := find?_eq_some.mp hfind
    simp [h r hr hk]

/-- A write within the part. -/
theorem keep_upsert_of_pos {t : Table α key} {p : α → Bool} {a : α} (ha : p a = true)
    (hold : ∀ r ∈ t.rows, key r = key a → p r = true) : (t.upsert a).keep p = (t.keep p).upsert a := by
  have hkeys := mem_map_key_keep hold
  apply Table.ext
  unfold upsert
  by_cases hmem : key a ∈ t.rows.map key
  · rw [dif_pos hmem, dif_pos (hkeys.mpr hmem)]
    change (replaceRow key a t.rows).filter p = replaceRow key a (t.rows.filter p)
    rw [replaceRow, replaceRow, List.filter_map]
    congr 1
    apply List.filter_congr
    intro r hr
    rw [Function.comp_apply]
    split
    · next hk => rw [ha, hold r hr hk]
    · rfl
  · rw [dif_neg hmem, dif_neg fun h => hmem (hkeys.mp h)]
    change (t.rows ++ [a]).filter p = t.rows.filter p ++ [a]
    rw [List.filter_append, List.filter_cons_of_pos ha, List.filter_nil]

/-- A write outside the part. -/
theorem keep_upsert_of_neg {t : Table α key} {p : α → Bool} {a : α} (ha : p a = false)
    (hold : ∀ r ∈ t.rows, key r = key a → p r = false) : (t.upsert a).keep p = t.keep p := by
  apply Table.ext
  unfold upsert
  by_cases hmem : key a ∈ t.rows.map key
  · rw [dif_pos hmem]
    change (replaceRow key a t.rows).filter p = t.rows.filter p
    rw [replaceRow, List.filter_map]
    have hsame : t.rows.filter (p ∘ fun r => if key r = key a then a else r) = t.rows.filter p := by
      apply List.filter_congr
      intro r hr
      rw [Function.comp_apply]
      split
      · next hk => rw [ha, hold r hr hk]
      · rfl
    rw [hsame]
    refine (List.map_congr_left fun r hr => ?_).trans (List.map_id _)
    obtain ⟨hr, hp⟩ := List.mem_filter.mp hr
    have hk : key r ≠ key a := fun hk => Bool.false_ne_true ((hold r hr hk).symm.trans hp)
    rw [if_neg hk, id]
  · rw [dif_neg hmem]
    change (t.rows ++ [a]).filter p = t.rows.filter p
    rw [List.filter_append, List.filter_cons_of_neg (by simp [ha]), List.filter_nil, List.append_nil]

theorem keep_erase (t : Table α key) (p : α → Bool) (k : κ) : (t.erase k).keep p = (t.keep p).erase k :=
  Table.ext (List.filter_comm _ _ _)

/-- Deleting a row outside the part. -/
theorem keep_erase_of_neg {t : Table α key} {p : α → Bool} {k : κ} (hold : ∀ r ∈ t.rows, key r = k → p r = false) :
    (t.erase k).keep p = t.keep p := by
  apply Table.ext
  rw [keep_erase]
  refine List.filter_eq_self.mpr fun r hr => ?_
  obtain ⟨hr, hp⟩ := mem_keep.mp hr
  exact decide_eq_true fun hk => Bool.false_ne_true ((hold r hr hk).symm.trans hp)

theorem keep_foldl_upsert_of_pos {t : Table α key} {p : α → Bool} {as : List α} (has : ∀ a ∈ as, p a = true)
    (hold : ∀ a ∈ as, ∀ r ∈ t.rows, key r = key a → p r = true) :
    (as.foldl upsert t).keep p = as.foldl upsert (t.keep p) := by
  induction as generalizing t with
  | nil => rfl
  | cons a as ih =>
    obtain ⟨ha, has⟩ := List.forall_mem_cons.mp has
    obtain ⟨hfirst, hold⟩ := List.forall_mem_cons.mp hold
    rw [List.foldl_cons, List.foldl_cons, ih has, keep_upsert_of_pos ha hfirst]
    intro b hb r hr hk
    rcases mem_upsert.mp hr with rfl | hr
    · exact ha
    · exact hold b hb r hr.1 hk

theorem keep_foldl_upsert_of_neg {t : Table α key} {p : α → Bool} {as : List α} (has : ∀ a ∈ as, p a = false)
    (hold : ∀ a ∈ as, ∀ r ∈ t.rows, key r = key a → p r = false) : (as.foldl upsert t).keep p = t.keep p := by
  induction as generalizing t with
  | nil => rfl
  | cons a as ih =>
    obtain ⟨ha, has⟩ := List.forall_mem_cons.mp has
    obtain ⟨hfirst, hold⟩ := List.forall_mem_cons.mp hold
    rw [List.foldl_cons, ih has, keep_upsert_of_neg ha hfirst]
    intro b hb r hr hk
    rcases mem_upsert.mp hr with rfl | hr
    · exact ha
    · exact hold b hb r hr.1 hk

theorem mem_of_mem_foldl_erase {ks : List κ} {t : Table α key} {r : α} (h : r ∈ (ks.foldl erase t).rows) :
    r ∈ t.rows := by
  induction ks generalizing t with
  | nil => exact h
  | cons k ks ih => exact (mem_erase.mp (ih h)).1

theorem keep_foldl_erase (ks : List κ) (t : Table α key) (p : α → Bool) :
    (ks.foldl erase t).keep p = ks.foldl erase (t.keep p) := by
  induction ks generalizing t with
  | nil => rfl
  | cons k ks ih => rw [List.foldl_cons, List.foldl_cons, ih, keep_erase]

theorem keep_foldl_erase_of_neg {ks : List κ} {t : Table α key} {p : α → Bool}
    (hold : ∀ k ∈ ks, ∀ r ∈ t.rows, key r = k → p r = false) : (ks.foldl erase t).keep p = t.keep p := by
  induction ks generalizing t with
  | nil => rfl
  | cons k ks ih =>
    obtain ⟨hfirst, hold⟩ := List.forall_mem_cons.mp hold
    rw [List.foldl_cons, ih fun b hb r hr => hold b hb r (mem_erase.mp hr).1, keep_erase_of_neg hfirst]

/-- Tables that agree in a part go on doing so when a row of the part is written. -/
theorem keep_upsert_congr {t u : Table α key} {p : α → Bool} {a : α} (ha : p a = true)
    (ht : ∀ r ∈ t.rows, key r = key a → p r = true) (hu : ∀ r ∈ u.rows, key r = key a → p r = true)
    (h : t.keep p = u.keep p) : (t.upsert a).keep p = (u.upsert a).keep p := by
  rw [keep_upsert_of_pos ha ht, keep_upsert_of_pos ha hu, h]

theorem keep_foldl_upsert_congr {t u : Table α key} {p : α → Bool} {as : List α} (has : ∀ a ∈ as, p a = true)
    (ht : ∀ a ∈ as, ∀ r ∈ t.rows, key r = key a → p r = true)
    (hu : ∀ a ∈ as, ∀ r ∈ u.rows, key r = key a → p r = true) (h : t.keep p = u.keep p) :
    (as.foldl upsert t).keep p = (as.foldl upsert u).keep p := by
  rw [keep_foldl_upsert_of_pos has ht, keep_foldl_upsert_of_pos has hu, h]

end Table

end Tables
