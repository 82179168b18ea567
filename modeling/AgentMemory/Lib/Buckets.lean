import Mathlib.Data.List.Nodup
import Mathlib.Data.List.Basic

/-!
# Bucketed tables

A table keeps entries in lists under a lossy index and finds an entry in its list by a
signature. As long as no list holds two entries of one signature, the table is a map from an
index and a signature to an entry: `get_put` and `get_sweep` say what writing one entry and
sweeping over all of them do to that map, whatever else shares the list.
-/

namespace Buckets

variable {ι E S : Type} [DecidableEq ι] [DecidableEq S] (sig : E → S)

/-- The lists under their indexes, in order of insertion. -/
abbrev Table (ι E : Type) := List (ι × List E)

/-- The list under an index, empty where there is none. -/
def bucketAt (t : Table ι E) (i : ι) : List E := (t.lookup i).getD []

/-- The entry of a signature in the list under an index. -/
def get (t : Table ι E) (i : ι) (s : S) : Option E := (bucketAt t i).find? fun e => sig e = s

/-- An entry takes the place of the first one with its signature, or goes to the end. -/
def putIn (e : E) : List E → List E
  | [] => [e]
  | e' :: rest => if sig e' = sig e then e :: rest else e' :: putIn e rest

/-- The list under an index is set. -/
def setBucket (i : ι) (b : List E) : Table ι E → Table ι E
  | [] => [(i, b)]
  | (j, b') :: rest => if j = i then (i, b) :: rest else (j, b') :: setBucket i b rest

/-- An entry is written under an index. -/
def put (t : Table ι E) (i : ι) (e : E) : Table ι E := setBucket i (putIn sig e (bucketAt t i)) t

/-- Every entry is updated or dropped, and empty lists go. -/
def sweep (f : E → Option E) (t : Table ι E) : Table ι E :=
  (t.map fun p => (p.1, p.2.filterMap f)).filter fun p => !p.2.isEmpty

/-- No index has two lists, and no list two entries of one signature. -/
structure Proper (t : Table ι E) : Prop where
  indexes : (t.map Prod.fst).Nodup
  signatures : ∀ i, ((bucketAt t i).map sig).Nodup

omit [DecidableEq S] in
theorem proper_nil : Proper sig ([] : Table ι E) where
  indexes := List.nodup_nil
  signatures := fun _ => List.nodup_nil

/-! ### Writing one entry -/

theorem bucketAt_setBucket (t : Table ι E) (i j : ι) (b : List E) :
    bucketAt (setBucket i b t) j = if j = i then b else bucketAt t j := by
  induction t with
  | nil =>
    by_cases hji : j = i
    · simp [setBucket, bucketAt, hji]
    · have hb : (j == i) = false := by simpa using hji
      simp [setBucket, bucketAt, hji, List.lookup_cons, hb]
  | cons p rest ih =>
    obtain ⟨k, b'⟩ := p
    unfold setBucket
    unfold bucketAt at ih ⊢
    by_cases hki : k = i
    · subst hki
      by_cases hjk : j = k
      · simp [hjk]
      · have hb : (j == k) = false := by simpa using hjk
        simp [List.lookup_cons, hjk, hb]
    · rw [if_neg hki]
      by_cases hjk : j = k
      · subst hjk
        simp [hki]
      · have hb : (j == k) = false := by simpa using hjk
        simp only [List.lookup_cons, hb]
        exact ih

theorem fst_setBucket (t : Table ι E) (i : ι) (b : List E) :
    (setBucket i b t).map Prod.fst = if i ∈ t.map Prod.fst then t.map Prod.fst
      else t.map Prod.fst ++ [i] := by
  induction t with
  | nil => simp [setBucket]
  | cons p rest ih =>
    obtain ⟨k, b'⟩ := p
    unfold setBucket
    by_cases hki : k = i
    · simp [hki]
    · rw [if_neg hki, List.map_cons, ih]
      have hik : i ≠ k := Ne.symm hki
      by_cases hmem : i ∈ rest.map Prod.fst
      · simp [hmem, hik]
      · simp [hmem, hik]

theorem find?_putIn (e : E) (b : List E) (s : S) :
    (putIn sig e b).find? (fun e' => sig e' = s) =
      if s = sig e then some e else b.find? fun e' => sig e' = s := by
  induction b with
  | nil =>
    by_cases hs : s = sig e
    · simp [putIn, hs]
    · simp [putIn, hs, Ne.symm hs]
  | cons e' rest ih =>
    unfold putIn
    by_cases heq : sig e' = sig e
    · rw [if_pos heq]
      by_cases hs : s = sig e
      · simp [hs]
      · simp [hs, heq, Ne.symm hs]
    · rw [if_neg heq, List.find?_cons, List.find?_cons, ih]
      by_cases hs : s = sig e
      · subst hs
        simp [heq]
      · simp [hs]

theorem mem_sig_putIn {e : E} {b : List E} {s : S} :
    s ∈ (putIn sig e b).map sig ↔ s = sig e ∨ s ∈ b.map sig := by
  induction b with
  | nil => simp [putIn]
  | cons e' rest ih =>
    unfold putIn
    by_cases heq : sig e' = sig e
    · simp [heq]
    · rw [if_neg heq, List.map_cons, List.mem_cons, ih, List.map_cons, List.mem_cons]
      exact or_left_comm

theorem nodup_putIn {e : E} {b : List E} (h : (b.map sig).Nodup) :
    ((putIn sig e b).map sig).Nodup := by
  induction b with
  | nil => simp [putIn]
  | cons e' rest ih =>
    rw [List.map_cons, List.nodup_cons] at h
    unfold putIn
    by_cases heq : sig e' = sig e
    · rw [if_pos heq, List.map_cons, List.nodup_cons, ← heq]
      exact h
    · rw [if_neg heq, List.map_cons, List.nodup_cons, mem_sig_putIn, not_or]
      exact ⟨⟨heq, h.1⟩, ih h.2⟩

/-- A written entry is found under its index and signature; nothing else changes. -/
theorem get_put (t : Table ι E) (i j : ι) (e : E) (s : S) :
    get sig (put sig t i e) j s = if j = i ∧ s = sig e then some e else get sig t j s := by
  unfold get put
  rw [bucketAt_setBucket]
  by_cases hj : j = i
  · subst hj
    rw [if_pos rfl, find?_putIn]
    simp
  · rw [if_neg hj, if_neg (fun h => hj h.1)]

theorem Proper.put {sig : E → S} {t : Table ι E} (h : Proper sig t) (i : ι) (e : E) :
    Proper sig (put sig t i e) where
  indexes := by
    unfold Buckets.put
    rw [fst_setBucket]
    split
    · exact h.indexes
    · rename_i hnew
      exact List.nodup_append.mpr ⟨h.indexes, List.nodup_singleton _, by
        intro a ha b hb hab
        rw [List.mem_singleton] at hb
        exact hnew (hb ▸ hab ▸ ha)⟩
  signatures := by
    intro j
    unfold Buckets.put
    rw [bucketAt_setBucket]
    split
    · exact nodup_putIn sig (h.signatures i)
    · exact h.signatures j

/-! ### Sweeping -/

theorem bucketAt_sweep {f : E → Option E} {t : Table ι E} (h : (t.map Prod.fst).Nodup) (i : ι) :
    bucketAt (sweep f t) i = (bucketAt t i).filterMap f := by
  unfold bucketAt sweep
  induction t with
  | nil => rfl
  | cons p rest ih =>
    obtain ⟨k, b⟩ := p
    rw [List.map_cons, List.nodup_cons] at h
    have hrest := ih h.2
    rw [List.map_cons]
    by_cases hik : i = k
    · subst hik
      by_cases hempty : b.filterMap f = []
      · rw [List.filter_cons_of_neg (by simp [hempty]), hrest]
        have hnone : rest.lookup i = none := by
          rw [List.lookup_eq_none_iff]
          intro q hq
          rw [bne_iff_ne]
          intro heq
          exact h.1 (List.mem_map.mpr ⟨q, hq, heq.symm⟩)
        simp [hnone, hempty]
      · rw [List.filter_cons_of_pos (by simpa using hempty)]
        simp
    · have hb : (i == k) = false := by simpa using hik
      by_cases hempty : b.filterMap f = []
      · rw [List.filter_cons_of_neg (by simp [hempty]), hrest, List.lookup_cons, hb]
      · rw [List.filter_cons_of_pos (by simpa using hempty), List.lookup_cons, hb, List.lookup_cons, hb]
        exact hrest

theorem find?_filterMap {f : E → Option E} (hf : ∀ e e', f e = some e' → sig e' = sig e)
    {b : List E} (h : (b.map sig).Nodup) (s : S) :
    (b.filterMap f).find? (fun e => sig e = s) = (b.find? fun e => sig e = s).bind f := by
  induction b with
  | nil => rfl
  | cons e rest ih =>
    rw [List.map_cons, List.nodup_cons] at h
    have hrest := ih h.2
    have hnone (hs : sig e = s) : rest.find? (fun e => sig e = s) = none := by
      rw [List.find?_eq_none]
      intro e' he' heq
      simp only [decide_eq_true_eq] at heq
      exact h.1 (List.mem_map.mpr ⟨e', he', heq.trans hs.symm⟩)
    cases hfe : f e with
    | none =>
      rw [List.filterMap_cons_none hfe, hrest, List.find?_cons]
      by_cases hs : sig e = s
      · simp [hs, hnone hs, hfe]
      · simp [hs]
    | some e' =>
      rw [List.filterMap_cons_some hfe, List.find?_cons, List.find?_cons, hf e e' hfe, hrest]
      by_cases hs : sig e = s
      · simp [hs, hfe]
      · simp [hs]

/-- What a sweep does to every entry. -/
theorem get_sweep {t : Table ι E} (h : Proper sig t) {f : E → Option E}
    (hf : ∀ e e', f e = some e' → sig e' = sig e) (i : ι) (s : S) :
    get sig (sweep f t) i s = (get sig t i s).bind f := by
  unfold get
  rw [bucketAt_sweep h.indexes, find?_filterMap sig hf (h.signatures i)]

omit [DecidableEq S] in
theorem Proper.sweep {sig : E → S} {t : Table ι E} (h : Proper sig t) {f : E → Option E}
    (hf : ∀ e e', f e = some e' → sig e' = sig e) : Proper sig (sweep f t) where
  indexes := by
    unfold Buckets.sweep
    have hsub : List.Sublist
        (((t.map fun p => (p.1, p.2.filterMap f)).filter fun p => !p.2.isEmpty).map Prod.fst)
        ((t.map fun p => (p.1, p.2.filterMap f)).map Prod.fst) := List.filter_sublist.map _
    rw [List.map_map] at hsub
    exact h.indexes.sublist hsub
  signatures := by
    intro i
    rw [bucketAt_sweep h.indexes]
    have hsub : ∀ b : List E, List.Sublist ((b.filterMap f).map sig) (b.map sig) := by
      intro b
      induction b with
      | nil => exact List.Sublist.refl _
      | cons e rest ih =>
        cases hfe : f e with
        | none =>
          rw [List.filterMap_cons_none hfe, List.map_cons]
          exact ih.cons _
        | some e' =>
          rw [List.filterMap_cons_some hfe, List.map_cons, List.map_cons, hf e e' hfe]
          exact ih.cons_cons _
    exact (h.signatures i).sublist (hsub _)

end Buckets
