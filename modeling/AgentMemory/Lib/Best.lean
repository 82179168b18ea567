import AgentMemory.Lib.Table

/-!
# The best entry under each key

A table to which entries come one after the other and which keeps, under each key, one that
no other of its entries beats. `Best` says this of the entries so far and `Best.note` what an
entry more does.
-/

namespace Tables

variable {α κ : Type} [DecidableEq κ] {key : α → κ}

/-- Take an entry where it beats the one with its key, or there is none. -/
def Table.note (le : α → α → Bool) (t : Table α key) (a : α) : Table α key :=
  match t.find? (key a) with
  | none => t.upsert a
  | some b => if (le b a && !le a b) = true then t.upsert a else t

/-- The rows are entries, and each entry is matched by the row under its key. -/
structure Best (le : α → α → Bool) (entries : α → Prop) (t : Table α key) : Prop where
  entry : ∀ a ∈ t.rows, entries a
  best : ∀ a, entries a → ∃ b, t.find? (key a) = some b ∧ le a b = true

namespace Best

variable {le : α → α → Bool} {entries entries' : α → Prop} {t : Table α key}

theorem empty : Best le (fun _ => False) (Table.empty : Table α key) :=
  ⟨fun _ ha => absurd ha List.not_mem_nil, fun _ => False.elim⟩

theorem congr (h : Best le entries t) (hiff : ∀ a, entries a ↔ entries' a) : Best le entries' t :=
  ⟨fun a ha => (hiff a).mp (h.entry a ha), fun a ha => h.best a ((hiff a).mpr ha)⟩

/-- The keys of the table are those of the entries. -/
theorem find?_ne_none (h : Best le entries t) {k : κ} :
    t.find? k ≠ none ↔ ∃ a, entries a ∧ key a = k := by
  constructor
  · intro hfind
    obtain ⟨a, ha⟩ := Option.ne_none_iff_exists'.mp hfind
    obtain ⟨hmem, hkey⟩ := Table.find?_eq_some.mp ha
    exact ⟨a, h.entry a hmem, hkey⟩
  · rintro ⟨a, ha, rfl⟩
    obtain ⟨b, hb, -⟩ := h.best a ha
    rw [hb]
    exact Option.some_ne_none b

section Ordered

variable {good : α → Prop} (htotal : ∀ a b, good a → good b → le a b = true ∨ le b a = true)
  (htrans : ∀ a b c, le a b = true → le b c = true → le a c = true)

include htotal htrans

/-- One entry more. -/
theorem note (h : Best le entries t) (hgood : ∀ b, entries b → good b) {a : α} (ha : good a) :
    Best le (fun b => entries b ∨ b = a) (t.note le a) := by
  have hself : le a a = true := or_self_iff.mp (htotal a a ha ha)
  -- Writing the entry where it beats all that have its key.
  have hwrite : (∀ b, entries b → key b = key a → le b a = true) →
      Best le (fun b => entries b ∨ b = a) (t.upsert a) := by
    intro hbeats
    refine ⟨fun b hb => ?_, fun b hb => ?_⟩
    · obtain rfl | ⟨hb, -⟩ := Table.mem_upsert.mp hb
      · exact Or.inr rfl
      · exact Or.inl (h.entry b hb)
    · rw [Table.find?_upsert]
      split
      · next hkey =>
        obtain hb | rfl := hb
        · exact ⟨a, rfl, hbeats b hb hkey.symm⟩
        · exact ⟨b, rfl, hself⟩
      · next hkey =>
        obtain hb | rfl := hb
        · exact h.best b hb
        · exact absurd rfl hkey
  unfold Table.note
  cases hfind : t.find? (key a) with
  | none =>
    apply hwrite
    intro b hb hkey
    obtain ⟨c, hc, -⟩ := h.best b hb
    rw [hkey, hfind] at hc
    cases hc
  | some c =>
    obtain ⟨hmem, hkey⟩ := Table.find?_eq_some.mp hfind
    have hc := h.entry c hmem
    dsimp only
    split
    · next hless =>
      apply hwrite
      intro b hb hkey'
      obtain ⟨c', hc', hle⟩ := h.best b hb
      rw [hkey', hfind] at hc'
      obtain rfl := Option.some.inj hc'
      simp only [Bool.and_eq_true] at hless
      exact htrans b c a hle hless.1
    · next hless =>
      -- The entry under the key is no worse.
      have hle : le a c = true := by
        obtain hle | hle := htotal a c ha (hgood c hc)
        · exact hle
        · simpa [hle] using hless
      refine ⟨fun b hb => Or.inl (h.entry b hb), fun b hb => ?_⟩
      obtain hb | rfl := hb
      · exact h.best b hb
      · exact ⟨c, hfind, hle⟩

/-- The entries of a list, one after the other. -/
theorem foldl {β : Type} {f : β → α} {bs : List β} (h : Best le entries t)
    (hgood : ∀ b, entries b → good b) (hbs : ∀ b ∈ bs, good (f b)) :
    Best le (fun a => entries a ∨ ∃ b ∈ bs, a = f b) (bs.foldl (fun t b => t.note le (f b)) t) := by
  induction bs generalizing entries t with
  | nil => exact h.congr fun a => by simp
  | cons b bs ih =>
    obtain ⟨hb, hbs⟩ := List.forall_mem_cons.mp hbs
    have hgood' : ∀ a, entries a ∨ a = f b → good a := by
      rintro a (ha | rfl)
      · exact hgood a ha
      · exact hb
    refine (ih (h.note htotal htrans hgood hb) hgood' hbs).congr fun a => ?_
    rw [List.exists_mem_cons_iff, or_assoc]

end Ordered

end Best

end Tables
