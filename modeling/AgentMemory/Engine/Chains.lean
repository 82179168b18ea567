import AgentMemory.Engine.Facts
import AgentMemory.Lib.Succession

/-!
# Supersession chains

Following `superseded_by` from a row of `facts`. A call of `add_fact` writes its fact as active
and leads the superseded ones to it, so every chain ends at an active fact, unless the call
names its own fact as superseded: the loop over the old facts then closes the new one onto
itself. `supersession_chains_end_iff` is the statement for whole runs.
-/

namespace AgentMemory

open PyText Tables Succession

variable {F : Type} {rt : LedgerRuntime F}

namespace FactLedger

/-- The row of the first fact names the second one in `superseded_by`. -/
def SupersededBy (s : FactLedger F) (f g : Text) : Prop :=
  ∃ row, s.facts.find? f = some row ∧ row.supersededBy = some g

/-- Following `superseded_by` from a present fact visits no fact twice and ends at an active
one. -/
def ChainsEnd (s : FactLedger F) : Prop :=
  ∀ id, s.facts.find? id ≠ none → ∃ path last row, Leads s.SupersededBy id path ∧ path.Nodup ∧
    path.getLast? = some last ∧ s.facts.find? last = some row ∧ row.status = .active

/-- The rows that nothing superseded are active, and the others name a present fact. -/
def RowsSound (s : FactLedger F) : Prop :=
  ∀ id row, s.facts.find? id = some row →
    (row.supersededBy = none → row.status = .active) ∧
      ∀ g, row.supersededBy = some g → s.facts.find? g ≠ none

variable {s : FactLedger F} {c : AddFact F}

theorem supersededBy_unique (s : FactLedger F) (f g g' : Text) (h : s.SupersededBy f g)
    (h' : s.SupersededBy f g') : g = g' := by
  obtain ⟨row, hrow, hg⟩ := h
  obtain ⟨row', hrow', hg'⟩ := h'
  rw [hrow] at hrow'
  obtain rfl := Option.some.inj hrow'
  exact Option.some.inj (hg.symm.trans hg')

/-- What a sound ledger's chains reach is present. -/
theorem RowsSound.present (hs : s.RowsSound) {f k : Text} (hf : s.facts.find? f ≠ none)
    (h : Relation.ReflTransGen s.SupersededBy f k) : s.facts.find? k ≠ none := by
  cases h with
  | refl => exact hf
  | tail _ hstep =>
    obtain ⟨row, hrow, hk⟩ := hstep
    exact (hs _ row hrow).2 _ hk

/-- In a sound ledger it is enough that every chain ends. -/
theorem RowsSound.chainsEnd_iff (hs : s.RowsSound) :
    s.ChainsEnd ↔ ∀ id, Ends s.SupersededBy id := by
  constructor
  · intro h id
    by_cases hid : s.facts.find? id = none
    · refine Open.ends ?_
      intro g ⟨row, hrow, _⟩
      rw [hid] at hrow
      cases hrow
    · obtain ⟨path, _, _, hpath, _⟩ := h id hid
      obtain ⟨k, _, hreach, hopen⟩ := hpath.last
      exact ⟨k, hreach, hopen⟩
  · intro h id hid
    obtain ⟨path, hpath⟩ := exists_leads (h id)
    obtain ⟨k, hlast, hreach, hopen⟩ := hpath.last
    obtain ⟨row, hrow⟩ := Option.ne_none_iff_exists'.mp (hs.present hid hreach)
    have hnone : row.supersededBy = none := by
      cases hg : row.supersededBy with
      | none => rfl
      | some g => exact absurd ⟨row, hrow, hg⟩ (hopen g)
    exact ⟨path, k, row, hpath, hpath.nodup s.supersededBy_unique, hlast, hrow,
      (hs k row hrow).1 hnone⟩

/-- A present fact stays present. -/
theorem find?_addFact_ne (hc : c.accepted rt = true) {id : Text}
    (h : id = c.factId rt ∨ s.facts.find? id ≠ none) : (s.addFact rt c).facts.find? id ≠ none := by
  rw [find?_addFact hc, ne_eq, Option.map_eq_none_iff]
  rcases h with rfl | h
  · simp
  · split
    · simp
    · exact h

theorem rowsSound_addFact (hs : s.RowsSound) : (s.addFact rt c).RowsSound := by
  by_cases hc : c.accepted rt = true
  swap
  · rw [Bool.not_eq_true] at hc
    rw [addFact_of_rejected hc]
    exact hs
  intro id row hrow
  rw [find?_addFact hc, Option.map_eq_some_iff] at hrow
  obtain ⟨old, hold, rfl⟩ := hrow
  by_cases hmem : id ∈ c.supersedesList
  · rw [if_pos hmem]
    refine ⟨fun hnone => absurd hnone (by simp [superseded]), ?_⟩
    intro g hg
    exact find?_addFact_ne hc (Or.inl (Option.some.inj hg).symm)
  · rw [if_neg hmem]
    by_cases hid : c.factId rt = id
    · rw [if_pos hid] at hold
      obtain rfl := Option.some.inj hold
      refine ⟨fun _ => rfl, ?_⟩
      intro g hg
      cases hg
    · rw [if_neg hid] at hold
      refine ⟨(hs id old hold).1, ?_⟩
      intro g hg
      exact find?_addFact_ne hc (Or.inr ((hs id old hold).2 g hg))

/-- What a call does to the successors: its own fact gets none, the superseded ones get it, and
the others keep theirs. -/
theorem supersededBy_addFact (hc : c.accepted rt = true) (f g : Text) :
    (s.addFact rt c).SupersededBy f g ↔
      if f ∈ c.supersedesList then
        g = c.factId rt ∧ (f = c.factId rt ∨ s.facts.find? f ≠ none)
      else f ≠ c.factId rt ∧ s.SupersededBy f g := by
  unfold SupersededBy
  simp only [find?_addFact hc, Option.map_eq_some_iff]
  by_cases hmem : f ∈ c.supersedesList
  · rw [if_pos hmem]
    simp only [if_pos hmem]
    constructor
    · intro hnow
      obtain ⟨_, ⟨old, hold, hrow⟩, hg⟩ := hnow
      subst hrow
      refine ⟨(Option.some.inj hg).symm, ?_⟩
      by_cases hid : c.factId rt = f
      · exact Or.inl hid.symm
      · rw [if_neg hid] at hold
        right
        rw [hold]
        exact Option.some_ne_none old
    · intro hnow
      obtain ⟨rfl, hpresent⟩ := hnow
      by_cases hid : c.factId rt = f
      · exact ⟨_, ⟨c.record rt, if_pos hid, rfl⟩, rfl⟩
      · obtain ⟨old, hold⟩ :=
          Option.ne_none_iff_exists'.mp (hpresent.resolve_left (Ne.symm hid))
        exact ⟨_, ⟨old, (if_neg hid).trans hold, rfl⟩, rfl⟩
  · rw [if_neg hmem]
    simp only [if_neg hmem]
    constructor
    · intro hnow
      obtain ⟨_, ⟨old, hold, hrow⟩, hg⟩ := hnow
      subst hrow
      by_cases hid : c.factId rt = f
      · rw [if_pos hid] at hold
        obtain rfl := Option.some.inj hold
        cases hg
      · rw [if_neg hid] at hold
        exact ⟨Ne.symm hid, old, hold, hg⟩
    · intro hbefore
      obtain ⟨hid, old, hold, hg⟩ := hbefore
      exact ⟨_, ⟨old, (if_neg (Ne.symm hid)).trans hold, rfl⟩, hg⟩

/-- The step lemma. -/
theorem chainsEnd_addFact_iff (hs : s.RowsSound) (hends : s.ChainsEnd) :
    (s.addFact rt c).ChainsEnd ↔ (c.accepted rt = true → c.factId rt ∉ c.supersedesList) := by
  by_cases hc : c.accepted rt = true
  swap
  · rw [Bool.not_eq_true] at hc
    rw [addFact_of_rejected hc]
    simp [hc, hends]
  rw [(rowsSound_addFact hs).chainsEnd_iff]
  constructor
  · intro h _ hown
    have hself : (s.addFact rt c).SupersededBy (c.factId rt) (c.factId rt) := by
      rw [supersededBy_addFact hc, if_pos hown]
      exact ⟨rfl, Or.inl rfl⟩
    obtain ⟨path, hpath⟩ := exists_leads (h (c.factId rt))
    have hsame := hpath.unique (s.addFact rt c).supersededBy_unique (.step hself hpath)
    exact List.cons_ne_self _ _ hsame.symm
  · intro hclean id
    have hfree := hclean hc
    apply (hs.chainsEnd_iff.mp hends id).redirect
    · intro g hg
      rw [supersededBy_addFact hc, if_neg hfree] at hg
      exact hg.1 rfl
    · intro f hf
      by_cases hmem : f ∈ c.supersedesList
      · by_cases hpresent : s.facts.find? f = none
        · left
          intro g
          rw [supersededBy_addFact hc, if_pos hmem]
          refine iff_of_false (fun hg => hg.2.elim hf (fun hne => hne hpresent)) ?_
          intro ⟨row, hrow, _⟩
          rw [hpresent] at hrow
          cases hrow
        · right
          rw [supersededBy_addFact hc, if_pos hmem]
          exact ⟨rfl, Or.inr hpresent⟩
      · left
        intro g
        rw [supersededBy_addFact hc, if_neg hmem]
        exact and_iff_right hf

theorem sound_empty : (empty : FactLedger F).RowsSound ∧ (empty : FactLedger F).ChainsEnd := by
  constructor
  · intro id row hrow
    cases hrow
  · intro id hid
    exact absurd rfl hid

end FactLedger

/-- In all states that a run of `add_fact` calls reaches every chain of supersessions ends at an
active fact exactly when no accepted call supersedes its own fact. -/
theorem supersession_chains_end_iff (rt : LedgerRuntime F) (calls : List (AddFact F)) :
    (∀ before after s, calls = before ++ after →
        Runs.run (addFactStep rt) FactLedger.empty before = some s → s.ChainsEnd) ↔
      ∀ c ∈ calls, c.accepted rt = true → c.factId rt ∉ c.supersedesList := by
  have hsound {before : List (AddFact F)} {s : FactLedger F}
      (hrun : Runs.run (addFactStep rt) FactLedger.empty before = some s) : s.RowsSound := by
    refine Runs.run_invariant ?_ FactLedger.sound_empty.1 (Runs.guarded_true _ _) hrun
    intro s c s' hs _ hstep
    obtain rfl := Option.some.inj hstep
    exact FactLedger.rowsSound_addFact hs
  have htotal (s : FactLedger F) (c : AddFact F) : ∃ s', addFactStep rt s c = some s' := ⟨_, rfl⟩
  have hboth : (∀ before after s, calls = before ++ after →
      Runs.run (addFactStep rt) FactLedger.empty before = some s → s.RowsSound ∧ s.ChainsEnd) ↔
      Runs.Guarded (addFactStep rt)
        (fun _ c => c.accepted rt = true → c.factId rt ∉ c.supersedesList) FactLedger.empty calls := by
    apply Runs.forall_reached_iff_guarded htotal
    · intro s c s' hs hstep
      obtain rfl := Option.some.inj hstep
      rw [FactLedger.chainsEnd_addFact_iff hs.1 hs.2]
      exact and_iff_right (FactLedger.rowsSound_addFact hs.1)
    · exact FactLedger.sound_empty
  rw [← Runs.guarded_iff_forall htotal, ← hboth]
  constructor
  · intro h before after s heq hrun
    exact ⟨hsound hrun, h before after s heq hrun⟩
  · intro h before after s heq hrun
    exact (h before after s heq hrun).2

/-- A fact added again with its own id among the superseded ones is superseded by itself. -/
theorem FactLedger.chain_closed_by_own_id :
    ∃ s, Runs.run (addFactStep sampleLedgerRuntime) FactLedger.empty
        [sampleFact "tea".toList [], sampleFact "tea".toList [sampleTeaId]] = some s ∧
      ¬ s.ChainsEnd := by
  refine ⟨_, rfl, ?_⟩
  have htea : (sampleFact "tea".toList [sampleTeaId]).accepted sampleLedgerRuntime = true :=
    accepted_sampleFact accepted_sampleTea
  obtain ⟨hsound, hends⟩ := @sound_empty SampleNumber
  have hfirst : (empty.addFact sampleLedgerRuntime (sampleFact "tea".toList [])).ChainsEnd :=
    (chainsEnd_addFact_iff hsound hends).mpr fun _ => List.not_mem_nil
  intro h
  have hclean := (chainsEnd_addFact_iff (rowsSound_addFact hsound) hfirst).mp h htea
  rw [supersedesList_sampleFact] at hclean
  exact hclean List.mem_cons_self

end AgentMemory
