import AgentMemory.Lib.Json

/-!
# The size of a JSON text

An object's text is as long as its entries with their separators and the braces, whatever
their order. So writing an entry more makes it longer by that entry, and writing a value over
another by the difference of the two.
-/

namespace Dicts

variable {κ α : Type} [LinearOrder κ]

theorem perm_of_valueAt {d : List (κ × α)} (h : Ordered d) {k : κ} {v : α} (hv : valueAt k d = some v) :
    d.Perm ((k, v) :: erase k d) := by
  have hsame : insert k v d = d := by
    induction d with
    | nil => exact absurd hv nofun
    | cons kv rest ih =>
      obtain ⟨k', v'⟩ := kv
      obtain ⟨hfirst, hrest⟩ := ordered_cons.mp h
      rw [valueAt] at hv
      by_cases hk : k = k'
      · rw [if_pos hk] at hv
        simp [insert, hk, Option.some.inj hv]
      · rw [if_neg hk] at hv
        have hlt : ¬ k < k' := by
          intro hlt
          have hnone : valueAt k rest = none :=
            valueAt_eq_none.mpr fun kv hkv => ne_of_gt (lt_trans hlt (hfirst kv hkv))
          rw [hnone] at hv
          cases hv
        simp [insert, hk, hlt, ih hrest hv]
  have hperm := insert_perm h k v
  rwa [hsame] at hperm

end Dicts

namespace JsonText

open Dicts PyText

variable {F : Type} {fl : Floats F}

/-- The characters of an entry with its colon and the comma or the brace before it. -/
def entrySize (fl : Floats F) (entry : Text × Json F) : Nat :=
  (quote entry.1).length + (dumps fl entry.2).length + 2

theorem length_dumpsFields (fields : List (Text × Json F)) :
    (dumpsFields fl [','] fields).length = (fields.map (entrySize fl)).sum + 1 := by
  induction fields with
  | nil => rfl
  | cons entry fields ih =>
    obtain ⟨k, j⟩ := entry
    simp only [dumpsFields, List.length_append, List.length_cons, List.length_nil, List.map_cons, List.sum_cons,
      entrySize, ih]
    omega

theorem length_dumps_obj {fields : List (Text × Json F)} (h : fields ≠ []) :
    (dumps fl (.obj fields)).length = (fields.map (entrySize fl)).sum + 1 := by
  cases fields with
  | nil => exact absurd rfl h
  | cons entry fields =>
    obtain ⟨k, j⟩ := entry
    simp only [dumps, dumpsFields, List.length_append, List.length_cons, List.length_nil, List.map_cons,
      List.sum_cons, entrySize, length_dumpsFields]
    omega

theorem insert_ne_nil (k : Text) (j : Json F) (d : List (Text × Json F)) : insert k j d ≠ [] := by
  cases d with
  | nil => exact List.cons_ne_nil _ _
  | cons kv rest =>
    unfold Dicts.insert
    split_ifs <;> exact List.cons_ne_nil _ _

theorem length_dumps_insert_erase {d : List (Text × Json F)} (hd : Ordered d) (k : Text) (j : Json F) :
    (dumps fl (.obj (insert k j d))).length =
      entrySize fl (k, j) + ((erase k d).map (entrySize fl)).sum + 1 := by
  have hperm := (insert_perm hd k j).map (entrySize fl)
  rw [length_dumps_obj (insert_ne_nil k j d), hperm.sum_eq, List.map_cons, List.sum_cons]

/-- An entry more. -/
theorem length_dumps_insert_new {d : List (Text × Json F)} (hd : Ordered d) (hne : d ≠ []) {k : Text}
    (hk : valueAt k d = none) (j : Json F) :
    (dumps fl (.obj (insert k j d))).length = (dumps fl (.obj d)).length + entrySize fl (k, j) := by
  rw [length_dumps_insert_erase hd, erase_of_valueAt_eq_none hk, length_dumps_obj hne]
  omega

/-- A value in the place of another. -/
theorem length_dumps_insert {d : List (Text × Json F)} (hd : Ordered d) {k : Text} {old : Json F}
    (hk : valueAt k d = some old) (j : Json F) :
    (dumps fl (.obj (insert k j d))).length + (dumps fl old).length =
      (dumps fl (.obj d)).length + (dumps fl j).length := by
  have hne : d ≠ [] := by
    rintro rfl
    cases hk
  have hperm := (perm_of_valueAt hd hk).map (entrySize fl)
  rw [length_dumps_insert_erase hd, length_dumps_obj hne, hperm.sum_eq, List.map_cons, List.sum_cons]
  simp only [entrySize]
  omega

end JsonText
