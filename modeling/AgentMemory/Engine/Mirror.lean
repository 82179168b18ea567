import AgentMemory.Engine.Knowledge
import Mathlib.Data.List.Perm.Basic

/-!
# The knowledge graph as a mirror of the ledger

A vault's ledger and knowledge graph under runs of `add_fact` and `rebuild_indexes`. A live
`add_fact` indexes the row it has just written; a rebuild clears the graph and indexes all
rows in the order of `list_facts`, and stops before that where there is no log or its replay
raises. The graph mirrors the ledger after every run that keeps to `KeepsMirror`.
-/

namespace AgentMemory

open Dicts PyText JsonText Tables

/-- The two stores of a vault that hold facts. -/
structure FactStores (F : Type) where
  ledger : FactLedger F
  knowledge : KnowledgeGraph F

/-- What becomes of the log in `rebuild_indexes` (`vault.py:232-238`): there is none, a line
or a record raises, or every record is remembered again. -/
inductive LogReplay where
  | absent | raises | completes
  deriving DecidableEq

/-- A step of a run; `order` is the order in which `list_facts` returns the facts. -/
inductive MirrorAct (F : Type) where
  | add (c : AddFact F)
  | rebuild (log : LogReplay) (order : List Text)

section Model

variable {F : Type} (rt : LedgerRuntime F)

/-- `ORDER BY confidence DESC, created_at DESC` may put the first row before the second. -/
def FactRow.comesBefore (row row' : FactRow F) : Bool :=
  rt.le row'.confidence row.confidence &&
    (!rt.le row.confidence row'.confidence || rt.le row'.createdAt row.createdAt)

namespace FactLedger

/-- The rows under these ids. -/
def rowsOf (s : FactLedger F) (order : List Text) : List (FactRow F) := order.filterMap s.facts.find?

/-- `list_facts(limit=None)` (`facts.py:222-244`) may return the facts in this order. -/
def Listed (s : FactLedger F) (order : List Text) : Prop :=
  order.Perm (s.facts.rows.map FactRow.factId) ∧
    (s.rowsOf order).Pairwise fun row row' => row.comesBefore rt row' = true

instance (s : FactLedger F) (order : List Text) : Decidable (s.Listed rt order) :=
  inferInstanceAs (Decidable (_ ∧ _))

/-- The id of a fact's assertion. -/
def assertionOf (s : FactLedger F) (id : Text) : Option Text :=
  (s.facts.find? id).map (FactRow.assertionId rt)

end FactLedger

/-- The assertion has the status of the fact and is superseded by the assertion of the fact
that the row names, or by none where it names none. -/
structure KgAssertion.Mirrors (s : FactLedger F) (row : FactRow F) (a : KgAssertion F) : Prop where
  factId : a.factId = row.factId
  status : a.status = row.status
  superseded : a.supersededBy = none ↔ row.supersededBy = none
  supersededBy : a.supersededBy = row.supersededBy.bind (s.assertionOf rt)

namespace FactStores

def empty : FactStores F := ⟨FactLedger.empty, KnowledgeGraph.empty⟩

/-- `add_fact` with its call of `index_fact` (`facts.py:109-205`). -/
def add (c : AddFact F) (s : FactStores F) : FactStores F :=
  let ledger := s.ledger.addFact rt c
  match c.accepted rt, ledger.facts.find? (c.factId rt) with
  | true, some row => ⟨ledger, s.knowledge.indexFact rt row⟩
  | _, _ => ⟨ledger, s.knowledge⟩

/-- `rebuild_indexes` (`vault.py:228-241`) on the two stores. -/
def rebuild (log : LogReplay) (order : List Text) (s : FactStores F) : FactStores F :=
  match log with
  | .completes => ⟨s.ledger, KnowledgeGraph.replay rt (s.ledger.rowsOf order)⟩
  | _ => ⟨s.ledger, KnowledgeGraph.empty⟩

def step (s : FactStores F) : MirrorAct F → Option (FactStores F)
  | .add c => some (s.add rt c)
  | .rebuild log order => if s.ledger.Listed rt order then some (s.rebuild rt log order) else none

/-- Every fact has an assertion that mirrors its row, and the conflict rows are the images of
those between facts of the ledger. -/
structure Mirrors (s : FactStores F) : Prop where
  assertion : ∀ id row, s.ledger.facts.find? id = some row →
    ∃ a, s.knowledge.assertions.find? (row.assertionId rt) = some a ∧ a.Mirrors rt s.ledger row
  conflict : ∀ x y, s.knowledge.Recorded x y ↔ ∃ g f, s.ledger.Recorded g f ∧
    s.ledger.assertionOf rt g = some x ∧ s.ledger.assertionOf rt f = some y

/-- The condition on a step. An added fact shares no id with another fact, nor its
assertion's; one that is new is named by no conflict row and does not supersede itself. A
rebuild of a ledger with facts replays the log, and the facts that supersede one come after
it, list it still, and the last of them is the one its row names. -/
def KeepsMirror (s : FactStores F) : MirrorAct F → Prop
  | .add c => c.accepted rt = true →
      (∀ id x, s.ledger.assertionOf rt id = some x →
        (id = c.factId rt ↔ x = (c.record rt).assertionId rt)) ∧
      (s.ledger.facts.find? (c.factId rt) = none →
        c.factId rt ∉ c.supersedesList ∧ ∀ g, ¬ s.ledger.Recorded g (c.factId rt))
  | .rebuild log order => s.ledger.facts.rows = [] ∨ log = .completes ∧
      ∀ f row, s.ledger.facts.find? f = some row →
        (∀ g, s.ledger.Recorded g f →
          g ∈ (KnowledgeGraph.listers (s.ledger.rowsOf order) f).map FactRow.factId) ∧
        (KnowledgeGraph.listers (s.ledger.rowsOf order) f).getLast?.map FactRow.factId =
          row.supersededBy

end FactStores

end Model

/-! ## The ledger's own part -/

section Facts

variable {F : Type} {rt : LedgerRuntime F}

namespace FactLedger

variable {s : FactLedger F} {c : AddFact F}

/-- The superseding side of a conflict row is a fact, so is the one a row names, and what a
row lists as superseded has a conflict row. -/
structure Sound (s : FactLedger F) : Prop where
  superseding : ∀ g f, s.Recorded g f → s.facts.find? g ≠ none
  status : ∀ id row, s.facts.find? id = some row →
    (row.status = .superseded ↔ row.supersededBy ≠ none) ∧
      ∀ g, row.supersededBy = some g → s.facts.find? g ≠ none
  listed : ∀ id row, s.facts.find? id = some row →
    ∀ f ∈ row.supersedes, f ≠ [] ∧ s.Recorded id f

/-- Where a row after an accepted call comes from. -/
theorem row_of_addFact (hc : c.accepted rt = true) {id : Text} {row : FactRow F}
    (hrow : (s.addFact rt c).facts.find? id = some row) :
    ∃ old, ((id = c.factId rt ∧ old = c.record rt) ∨
        (id ≠ c.factId rt ∧ s.facts.find? id = some old)) ∧
      row = if id ∈ c.supersedesList then superseded (c.factId rt) old else old := by
  rw [find?_addFact hc, Option.map_eq_some_iff] at hrow
  obtain ⟨old, hold, rfl⟩ := hrow
  refine ⟨old, ?_, rfl⟩
  by_cases hid : c.factId rt = id
  · rw [if_pos hid] at hold
    exact Or.inl ⟨hid.symm, (Option.some.inj hold).symm⟩
  · rw [if_neg hid] at hold
    exact Or.inr ⟨Ne.symm hid, hold⟩

theorem find?_addFact_ne_none (hc : c.accepted rt = true) (id : Text) :
    (s.addFact rt c).facts.find? id ≠ none ↔ id = c.factId rt ∨ s.facts.find? id ≠ none := by
  rw [find?_addFact hc]
  by_cases hid : c.factId rt = id
  · simp [hid]
  · simp [hid, Ne.symm hid]

theorem sound_addFact (hs : s.Sound) : (s.addFact rt c).Sound := by
  by_cases hc : c.accepted rt = true
  swap
  · rw [Bool.not_eq_true] at hc
    rw [addFact_of_rejected hc]
    exact hs
  refine ⟨fun g f hgf => ?_, fun id row hrow => ?_, fun id row hrow f hf => ?_⟩
  · rw [find?_addFact_ne_none hc]
    rcases (recorded_addFact hc g f).mp hgf with ⟨hg, -⟩ | hgf
    · exact Or.inl hg
    · exact Or.inr (hs.superseding g f hgf)
  · obtain ⟨old, hold, rfl⟩ := row_of_addFact hc hrow
    simp only [find?_addFact_ne_none hc]
    by_cases hmem : id ∈ c.supersedesList
    · rw [if_pos hmem]
      exact ⟨by simp [superseded], fun g hg => Or.inl (Option.some.inj hg).symm⟩
    · rw [if_neg hmem]
      rcases hold with ⟨-, rfl⟩ | ⟨-, hold⟩
      · simp [AddFact.record]
      · obtain ⟨hstatus, hby⟩ := hs.status id old hold
        exact ⟨hstatus, fun g hg => Or.inr (hby g hg)⟩
  · obtain ⟨old, hold, rfl⟩ := row_of_addFact hc hrow
    have hlist : f ∈ old.supersedes := by
      split at hf
      · exact hf
      · exact hf
    rw [recorded_addFact hc]
    rcases hold with ⟨rfl, rfl⟩ | ⟨-, hold⟩
    · have hf' : f ∈ c.supersedesList := hlist
      exact ⟨by simpa using (List.mem_filter.mp hf').2, Or.inl ⟨rfl, hf'⟩⟩
    · obtain ⟨hne, hgf⟩ := hs.listed id old hold f hlist
      exact ⟨hne, Or.inr hgf⟩

/-- A call changes the assertion's id of the added fact only. -/
theorem assertionOf_addFact (hc : c.accepted rt = true) (id : Text) :
    (s.addFact rt c).assertionOf rt id =
      if c.factId rt = id then some ((c.record rt).assertionId rt) else s.assertionOf rt id := by
  have hmark : ∀ row : FactRow F, (if id ∈ c.supersedesList then superseded (c.factId rt) row
      else row).assertionId rt = row.assertionId rt := by
    intro row
    split <;> rfl
  rw [assertionOf, find?_addFact hc, Option.map_map]
  by_cases hid : c.factId rt = id
  · rw [if_pos hid, if_pos hid, Option.map_some, Function.comp_apply, hmark]
  · rw [if_neg hid, if_neg hid, assertionOf]
    exact Option.map_congr fun row _ => hmark row

theorem assertionOf_ne_nil {id x : Text} (h : s.assertionOf rt id = some x) : x ≠ [] := by
  obtain ⟨row, -, rfl⟩ := Option.map_eq_some_iff.mp h
  exact row.assertionId_ne_nil

theorem assertionOf_of_row {id : Text} {row : FactRow F} (h : s.facts.find? id = some row) :
    s.assertionOf rt id = some (row.assertionId rt) := by
  rw [assertionOf, h, Option.map_some]

theorem exists_assertionOf {id : Text} (h : s.facts.find? id ≠ none) :
    ∃ x, s.assertionOf rt id = some x := by
  obtain ⟨row, hrow⟩ := Option.ne_none_iff_exists'.mp h
  exact ⟨_, assertionOf_of_row hrow⟩

end FactLedger

/-! ## One step -/

namespace KgAssertion.Mirrors

variable {s : FactLedger F} {row : FactRow F} {a : KgAssertion F}

theorem fresh (ids : List Text) (hrow : row.supersededBy = none) :
    (row.assertion rt ids).Mirrors rt s row where
  factId := rfl
  status := rfl
  superseded := ⟨fun _ => hrow, fun _ => rfl⟩
  supersededBy := by rw [hrow]; rfl

/-- The marks of both loops. -/
theorem marked {g x : Text} (hg : s.assertionOf rt g = some x) (hfact : a.factId = row.factId) :
    (KnowledgeGraph.superseded x a).Mirrors rt s (FactLedger.superseded g row) where
  factId := hfact
  status := rfl
  superseded := ⟨fun h => (Option.some_ne_none _ h).elim, fun h => (Option.some_ne_none _ h).elim⟩
  supersededBy := hg.symm

theorem transfer {s' : FactLedger F} (h : a.Mirrors rt s row)
    (hsame : ∀ g, row.supersededBy = some g → s'.assertionOf rt g = s.assertionOf rt g) :
    a.Mirrors rt s' row where
  factId := h.factId
  status := h.status
  superseded := h.superseded
  supersededBy := by
    rw [h.supersededBy]
    cases hby : row.supersededBy with
    | none => rfl
    | some g => rw [Option.bind_some, Option.bind_some, hsame g hby]

end KgAssertion.Mirrors

namespace FactStores

/-- The mirror with what its proof needs: facts have different assertions, and the graph
holds these and no others. -/
structure Consistent (rt : LedgerRuntime F) (s : FactStores F) : Prop where
  sound : s.ledger.Sound
  injective : ∀ id id' x, s.ledger.assertionOf rt id = some x →
    s.ledger.assertionOf rt id' = some x → id = id'
  holds : s.knowledge.Holds fun id x => s.ledger.assertionOf rt id = some x
  mirrors : s.Mirrors rt

variable {s : FactStores F} {c : AddFact F}

/-- An accepted call indexes the row of its fact. -/
theorem add_eq (hc : c.accepted rt = true) :
    ∃ row, (s.ledger.addFact rt c).facts.find? (c.factId rt) = some row ∧
      row = (if c.factId rt ∈ c.supersedesList then FactLedger.superseded (c.factId rt) (c.record rt)
        else c.record rt) ∧ s.add rt c = ⟨s.ledger.addFact rt c, s.knowledge.indexFact rt row⟩ := by
  have hrow := FactLedger.find?_addFact (s := s.ledger) hc (c.factId rt)
  rw [if_pos rfl, Option.map_some] at hrow
  exact ⟨_, hrow, rfl, by simp [add, hc, hrow]⟩

theorem add_of_rejected (hc : c.accepted rt = false) : s.add rt c = s := by
  simp [add, hc, FactLedger.addFact_of_rejected hc]

theorem assertionOf_keep (hc : c.accepted rt = true) (hids : ∀ id x, s.ledger.assertionOf rt id = some x →
    (id = c.factId rt ↔ x = (c.record rt).assertionId rt)) {id x : Text}
    (h : s.ledger.assertionOf rt id = some x) : (s.ledger.addFact rt c).assertionOf rt id = some x := by
  rw [FactLedger.assertionOf_addFact hc]
  by_cases hid : c.factId rt = id
  · rw [if_pos hid, (hids id x h).mp hid.symm]
  · rw [if_neg hid, h]

/-- The pairs of a fact and its assertion after a call. -/
theorem assertionOf_add_iff (hc : c.accepted rt = true)
    (hids : ∀ id x, s.ledger.assertionOf rt id = some x →
      (id = c.factId rt ↔ x = (c.record rt).assertionId rt)) (id x : Text) :
    (s.ledger.addFact rt c).assertionOf rt id = some x ↔
      if (c.record rt).assertionId rt = x then id = c.factId rt
      else s.ledger.assertionOf rt id = some x := by
  rw [FactLedger.assertionOf_addFact hc]
  by_cases hid : c.factId rt = id
  · rw [if_pos hid, Option.some_inj]
    by_cases hx : (c.record rt).assertionId rt = x
    · simp [hx, hid.symm]
    · simpa [hx] using fun h => hx ((hids id x h).mp hid.symm).symm
  · rw [if_neg hid]
    by_cases hx : (c.record rt).assertionId rt = x
    · simp only [hx, if_true, Ne.symm hid, iff_false]
      exact fun h => hid ((hids id x h).mpr hx.symm).symm
    · rw [if_neg hx]

theorem mirrors_add (hs : s.Consistent rt) (hc : c.accepted rt = true)
    (hids : ∀ id x, s.ledger.assertionOf rt id = some x →
      (id = c.factId rt ↔ x = (c.record rt).assertionId rt))
    (hnew : s.ledger.facts.find? (c.factId rt) = none →
      c.factId rt ∉ c.supersedesList ∧ ∀ g, ¬ s.ledger.Recorded g (c.factId rt))
    {row : FactRow F} (hfind : (s.ledger.addFact rt c).facts.find? (c.factId rt) = some row)
    (hrow : row = if c.factId rt ∈ c.supersedesList
      then FactLedger.superseded (c.factId rt) (c.record rt) else c.record rt) :
    Mirrors rt ⟨s.ledger.addFact rt c, s.knowledge.indexFact rt row⟩ := by
  have haid : row.assertionId rt = (c.record rt).assertionId rt := by
    rw [hrow]; split <;> rfl
  have hlist : row.supersedes = c.supersedesList := by
    rw [hrow]; split <;> rfl
  have hmarked : ∀ x, x ∈ s.knowledge.supersededIds rt row ↔
      ∃ f ∈ c.supersedesList, s.ledger.assertionOf rt f = some x := by
    intro x
    rw [KnowledgeGraph.mem_supersededIds hs.holds (by simp [hlist, AddFact.supersedesList])
      (fun _ _ => FactLedger.assertionOf_ne_nil), hlist]
  have hown : (s.ledger.addFact rt c).assertionOf rt (c.factId rt) = some (row.assertionId rt) :=
    FactLedger.assertionOf_of_row hfind
  constructor
  · intro id row' hrow'
    by_cases hid : id = c.factId rt
    · subst hid
      obtain rfl := Option.some.inj (hfind.symm.trans hrow')
      have hmem : row.assertionId rt ∈ s.knowledge.supersededIds rt row ↔
          c.factId rt ∈ c.supersedesList := by
        rw [hmarked, haid]
        constructor
        · rintro ⟨f, hf, hx⟩
          rwa [← (hids f _ hx).mpr rfl]
        · intro hf
          obtain ⟨x, hx⟩ := @FactLedger.exists_assertionOf _ rt _ _ fun h => (hnew h).1 hf
          exact ⟨_, hf, by rw [hx, (hids _ x hx).mp rfl]⟩
      rw [KnowledgeGraph.find?_indexFact, if_pos rfl]
      refine ⟨_, rfl, ?_⟩
      simp only [hmem]
      by_cases hself : c.factId rt ∈ c.supersedesList
      · rw [if_pos hself] at hrow ⊢
        have hfact : (row.assertion rt (s.knowledge.supersededIds rt row)).factId =
            (c.record rt).factId := by rw [hrow]; rfl
        have hmark := @KgAssertion.Mirrors.marked _ rt _ (c.record rt) _ _ _ hown hfact
        rwa [← hrow] at hmark
      · rw [if_neg hself] at hrow ⊢
        exact KgAssertion.Mirrors.fresh _ (by rw [hrow]; rfl)
    · obtain ⟨old, hold, rfl⟩ := FactLedger.row_of_addFact hc hrow'
      have hfindold : s.ledger.facts.find? id = some old := by simpa [hid] using hold
      have hidx : s.ledger.assertionOf rt id = some (old.assertionId rt) :=
        FactLedger.assertionOf_of_row hfindold
      have hne : row.assertionId rt ≠ old.assertionId rt := fun h =>
        hid ((hids id _ hidx).mpr (h.symm.trans haid))
      have hmem : old.assertionId rt ∈ s.knowledge.supersededIds rt row ↔
          id ∈ c.supersedesList := by
        rw [hmarked]
        constructor
        · rintro ⟨f, hf, hx⟩
          rwa [hs.injective id f _ hidx hx]
        · exact fun hf => ⟨id, hf, hidx⟩
      obtain ⟨a, ha, hmirrors⟩ := hs.mirrors.assertion id old hfindold
      have hsameid : (if id ∈ c.supersedesList then FactLedger.superseded (c.factId rt) old
          else old).assertionId rt = old.assertionId rt := by
        split <;> rfl
      rw [hsameid, KnowledgeGraph.find?_indexFact, if_neg hne, ha]
      refine ⟨_, rfl, ?_⟩
      simp only [hmem]
      by_cases hself : id ∈ c.supersedesList
      · rw [if_pos hself, if_pos hself]
        exact KgAssertion.Mirrors.marked hown hmirrors.factId
      · rw [if_neg hself, if_neg hself]
        apply hmirrors.transfer
        intro g hg
        obtain ⟨x, hx⟩ := @FactLedger.exists_assertionOf _ rt _ _
          ((hs.sound.status id old hfindold).2 g hg)
        rw [hx]
        exact assertionOf_keep hc hids hx
  · intro x y
    rw [KnowledgeGraph.recorded_indexFact, hmarked, hs.mirrors.conflict]
    simp only [FactLedger.recorded_addFact hc]
    constructor
    · rintro (⟨rfl, f, hf, hy⟩ | ⟨g, f, hgf, hx, hy⟩)
      · exact ⟨_, f, Or.inl ⟨rfl, hf⟩, hown, assertionOf_keep hc hids hy⟩
      · exact ⟨g, f, Or.inr hgf, assertionOf_keep hc hids hx, assertionOf_keep hc hids hy⟩
    · rintro ⟨g, f, hgf, hx, hy⟩
      -- a fact that the conflict names as superseded is no new one
      have hold : s.ledger.facts.find? f ≠ none := by
        intro hnone
        have hadded : c.factId rt = f := by
          by_contra hne
          rw [FactLedger.assertionOf_addFact hc, if_neg hne, FactLedger.assertionOf, hnone] at hy
          cases hy
        subst hadded
        obtain ⟨hself, hrecorded⟩ := hnew hnone
        rcases hgf with ⟨-, hf⟩ | hgf
        · exact hself hf
        · exact hrecorded g hgf
      obtain ⟨y', hy'⟩ := @FactLedger.exists_assertionOf _ rt _ _ hold
      obtain rfl := Option.some.inj ((assertionOf_keep hc hids hy').symm.trans hy)
      rcases hgf with ⟨rfl, hf⟩ | hgf
      · obtain rfl := Option.some.inj (hown.symm.trans hx)
        exact Or.inl ⟨rfl, f, hf, hy'⟩
      · obtain ⟨x', hx'⟩ := @FactLedger.exists_assertionOf _ rt _ _ (hs.sound.superseding g f hgf)
        obtain rfl := Option.some.inj ((assertionOf_keep hc hids hx').symm.trans hx)
        exact Or.inr ⟨g, f, hgf, hx', hy'⟩

/-- An added fact keeps the mirror. -/
theorem consistent_add (hs : s.Consistent rt) (hkeep : s.KeepsMirror rt (.add c)) :
    (s.add rt c).Consistent rt := by
  by_cases hc : c.accepted rt = true
  swap
  · rw [Bool.not_eq_true] at hc
    rwa [add_of_rejected hc]
  obtain ⟨hids, hnew⟩ := hkeep hc
  obtain ⟨row, hfind, hrow, heq⟩ := add_eq (s := s) hc
  have hafter := assertionOf_add_iff hc hids
  have haid : row.assertionId rt = (c.record rt).assertionId rt := by
    rw [hrow]; split <;> rfl
  have hid : row.factId = c.factId rt := (Table.find?_eq_some.mp hfind).2
  rw [heq]
  refine ⟨FactLedger.sound_addFact hs.sound, fun id id' x hx hx' => ?_, ?_,
    mirrors_add hs hc hids hnew hfind hrow⟩
  · rw [hafter] at hx hx'
    split at hx
    · next h => rw [if_pos h] at hx'; rw [hx, hx']
    · next h => rw [if_neg h] at hx'; exact hs.injective id id' x hx hx'
  · have hsame : (fun id x => (s.ledger.addFact rt c).assertionOf rt id = some x) =
        fun id x => if row.assertionId rt = x then id = row.factId
          else s.ledger.assertionOf rt id = some x := by
      funext id x
      rw [haid, hid]
      exact propext (hafter id x)
    show KnowledgeGraph.Holds _ _
    rw [hsame]
    exact KnowledgeGraph.holds_indexFact hs.holds

end FactStores

namespace FactLedger

variable {s : FactLedger F} {order : List Text}

theorem mem_rowsOf (horder : s.Listed rt order) {f : FactRow F} :
    f ∈ s.rowsOf order ↔ s.facts.find? f.factId = some f := by
  rw [rowsOf, List.mem_filterMap]
  constructor
  · rintro ⟨id, -, hf⟩
    rwa [(Table.find?_eq_some.mp hf).2]
  · intro hf
    have hmem : f ∈ s.facts.rows := (Table.find?_eq_some.mp hf).1
    exact ⟨f.factId, horder.1.mem_iff.mpr (List.mem_map_of_mem hmem), hf⟩

theorem factId_rowsOf (horder : s.Listed rt order) : (s.rowsOf order).map FactRow.factId = order := by
  have hfound : ∀ id ∈ order, ∃ row, s.facts.find? id = some row ∧ row.factId = id := by
    intro id hid
    obtain ⟨row, hrow, rfl⟩ := List.mem_map.mp (horder.1.mem_iff.mp hid)
    exact ⟨row, Table.find?_of_mem hrow, rfl⟩
  clear horder
  induction order with
  | nil => rfl
  | cons id order ih =>
    obtain ⟨row, hrow, hid⟩ := hfound id List.mem_cons_self
    have hrest := ih fun id hid => hfound id (List.mem_cons_of_mem _ hid)
    rw [rowsOf, List.filterMap_cons_some hrow, List.map_cons, hid]
    exact congrArg _ hrest

end FactLedger

namespace FactStores

variable {s : FactStores F} {order : List Text}

/-- The listed rows can be replayed. -/
theorem replayed_rowsOf (hs : s.Consistent rt) (horder : s.ledger.Listed rt order) :
    KnowledgeGraph.Replayed rt (s.ledger.rowsOf order)
      (KnowledgeGraph.replay rt (s.ledger.rowsOf order)) := by
  have hids : ((s.ledger.rowsOf order).map FactRow.factId).Nodup := by
    rw [FactLedger.factId_rowsOf horder, horder.1.nodup_iff]
    exact s.ledger.facts.nodup
  apply KnowledgeGraph.replayed hids
  · apply List.Nodup.map_on _ (List.Nodup.of_map _ hids)
    intro f hf f' hf' haid
    have hfid := @FactLedger.assertionOf_of_row _ rt _ _ _ ((FactLedger.mem_rowsOf horder).mp hf)
    have hfid' := @FactLedger.assertionOf_of_row _ rt _ _ _ ((FactLedger.mem_rowsOf horder).mp hf')
    rw [← haid] at hfid'
    exact List.inj_on_of_nodup_map hids hf hf' (hs.injective _ _ _ hfid hfid')
  · intro row hrow hnil
    exact (hs.sound.listed _ row ((FactLedger.mem_rowsOf horder).mp hrow) [] hnil).1 rfl

theorem rebuild_eq {log : LogReplay} (horder : s.ledger.Listed rt order)
    (hlog : s.ledger.facts.rows = [] ∨ log = .completes) :
    s.rebuild rt log order = ⟨s.ledger, KnowledgeGraph.replay rt (s.ledger.rowsOf order)⟩ := by
  rcases hlog with hrows | rfl
  · have hnil : order = [] := by
      have hperm := horder.1
      rwa [hrows, List.map_nil, List.perm_nil] at hperm
    subst hnil
    cases log <;> rfl
  · rfl

/-- A rebuild that keeps to the condition leaves the mirror. -/
theorem consistent_rebuild {log : LogReplay} (hs : s.Consistent rt)
    (horder : s.ledger.Listed rt order) (hkeep : s.KeepsMirror rt (.rebuild log order)) :
    (s.rebuild rt log order).Consistent rt := by
  have hlog : s.ledger.facts.rows = [] ∨ log = .completes := hkeep.imp_right And.left
  have hlast : ∀ f row, s.ledger.facts.find? f = some row →
      (∀ g, s.ledger.Recorded g f →
        g ∈ (KnowledgeGraph.listers (s.ledger.rowsOf order) f).map FactRow.factId) ∧
      (KnowledgeGraph.listers (s.ledger.rowsOf order) f).getLast?.map FactRow.factId =
        row.supersededBy := by
    rcases hkeep with hrows | ⟨-, h⟩
    · intro f row hrow
      have hmem := (Table.find?_eq_some.mp hrow).1
      simp [hrows] at hmem
    · exact h
  have hreplay := replayed_rowsOf hs horder
  have hassertion : ∀ f ∈ s.ledger.rowsOf order,
      s.ledger.assertionOf rt f.factId = some (f.assertionId rt) := fun f hf =>
    FactLedger.assertionOf_of_row ((FactLedger.mem_rowsOf horder).mp hf)
  have hrow_of : ∀ {id x}, s.ledger.assertionOf rt id = some x →
      ∃ f ∈ s.ledger.rowsOf order, f.factId = id ∧ f.assertionId rt = x := by
    intro id x hx
    obtain ⟨f, hf, rfl⟩ := Option.map_eq_some_iff.mp hx
    obtain rfl := (Table.find?_eq_some.mp hf).2
    exact ⟨f, (FactLedger.mem_rowsOf horder).mpr hf, rfl, rfl⟩
  rw [rebuild_eq horder hlog]
  refine ⟨hs.sound, hs.injective, ?_, ?_, ?_⟩
  · have hsame : (fun id x => s.ledger.assertionOf rt id = some x) =
        fun id x => ∃ f ∈ s.ledger.rowsOf order, f.factId = id ∧ f.assertionId rt = x := by
      funext id x
      rw [eq_iff_iff]
      constructor
      · exact hrow_of
      · rintro ⟨f, hf, rfl, rfl⟩
        exact hassertion f hf
    show KnowledgeGraph.Holds _ _
    rw [hsame]
    exact hreplay.holds
  · intro id row hrow
    obtain rfl := (Table.find?_eq_some.mp hrow).2
    have hmem : row ∈ s.ledger.rowsOf order := (FactLedger.mem_rowsOf horder).mpr hrow
    obtain ⟨a, ha, hfact⟩ := hreplay.holds.2 _ _ ⟨row, hmem, rfl, rfl⟩
    obtain ⟨hstatus, hby⟩ := hreplay.status row hmem a ha
    have hnamed := (hlast _ row hrow).2
    refine ⟨a, ha, hfact, ?_, ?_, ?_⟩
    · rw [hstatus]
      cases hlist : KnowledgeGraph.listers (s.ledger.rowsOf order) row.factId with
      | nil => rfl
      | cons g rest =>
        have hsome : row.supersededBy ≠ none := by
          rw [← hnamed, hlist]
          simp
        exact ((hs.sound.status _ row hrow).1.mpr hsome).symm
    · rw [hby, ← hnamed, Option.map_eq_none_iff, Option.map_eq_none_iff]
    · rw [hby, ← hnamed]
      cases hlast : (KnowledgeGraph.listers (s.ledger.rowsOf order) row.factId).getLast? with
      | none => rfl
      | some g =>
        have hg := (KnowledgeGraph.mem_of_mem_listers (List.mem_of_getLast? hlast)).1
        exact (hassertion g hg).symm
  · intro x y
    rw [hreplay.recorded]
    constructor
    · rintro ⟨f, hf, g, hg, rfl, rfl⟩
      obtain ⟨hmem, hlist⟩ := KnowledgeGraph.mem_of_mem_listers hg
      have hrow := (FactLedger.mem_rowsOf horder).mp hmem
      exact ⟨g.factId, f.factId, (hs.sound.listed _ g hrow _ hlist).2, hassertion g hmem, hassertion f hf⟩
    · rintro ⟨g, f, hgf, hx, hy⟩
      obtain ⟨frow, hf, rfl, rfl⟩ := hrow_of hy
      obtain ⟨grow, hg, rfl⟩ := List.mem_map.mp
        ((hlast _ frow ((FactLedger.mem_rowsOf horder).mp hf)).1 g hgf)
      have hgx := hassertion grow (KnowledgeGraph.mem_of_mem_listers hg).1
      exact ⟨frow, hf, grow, hg, Option.some.inj (hgx.symm.trans hx), rfl⟩

/-- The step lemma. -/
theorem consistent_step {s' : FactStores F} {act : MirrorAct F} (hs : s.Consistent rt)
    (hkeep : s.KeepsMirror rt act) (hstep : s.step rt act = some s') : s'.Consistent rt := by
  cases act with
  | add c =>
    obtain rfl := Option.some.inj hstep
    exact consistent_add hs hkeep
  | rebuild log order =>
    by_cases horder : s.ledger.Listed rt order
    · rw [step, if_pos horder] at hstep
      obtain rfl := Option.some.inj hstep
      exact consistent_rebuild hs horder hkeep
    · rw [step, if_neg horder] at hstep
      cases hstep

theorem consistent_empty : (empty : FactStores F).Consistent rt := by
  have hrows : ∀ id, (empty : FactStores F).ledger.facts.find? id = none := fun _ => rfl
  have hpairs : ∀ g f, ¬ (empty : FactStores F).ledger.Recorded g f := fun g f h => h rfl
  have hids : ∀ id, (empty : FactStores F).ledger.assertionOf rt id = none := fun _ => rfl
  have hassertions : ∀ x, (empty : FactStores F).knowledge.assertions.find? x = none := fun _ => rfl
  have hconflicts : ∀ x y, ¬ (empty : FactStores F).knowledge.Recorded x y := fun x y h => h rfl
  refine ⟨⟨?_, ?_, ?_⟩, ?_, ⟨?_, ?_⟩, ⟨?_, ?_⟩⟩ <;> simp [hrows, hpairs, hids, hassertions, hconflicts]

end FactStores

def sampleTea : AddFact SampleNumber := sampleFact "tea".toList []

/-- The fact that supersedes it, added later. -/
def sampleLateCoffee : AddFact SampleNumber := { sampleCoffee with createdAt := .one }

/-- One fact and a rebuild. -/
def sampleMirrorRun : List (MirrorAct SampleNumber) := [.add sampleTea, .rebuild .completes [sampleTeaId]]

theorem guarded_sampleMirrorRun : Runs.Guarded (FactStores.step sampleLedgerRuntime)
    (FactStores.KeepsMirror sampleLedgerRuntime) .empty sampleMirrorRun := by
  have haccepted : sampleTea.accepted sampleLedgerRuntime = true := accepted_sampleTea
  have hlist : sampleTea.supersedesList = [] := rfl
  refine ⟨fun _ => ⟨fun id x h => (by cases h), fun _ => ⟨by simp [hlist], fun g h => h rfl⟩⟩,
    fun s hs => ⟨Or.inr ⟨rfl, fun f row hrow => ?_⟩, fun _ _ => trivial⟩⟩
  obtain rfl := Option.some.inj hs
  obtain ⟨row', hfind, -, hadd⟩ := FactStores.add_eq (s := FactStores.empty) haccepted
  rw [hadd] at hrow ⊢
  have hpairs : ∀ g, ¬ (FactLedger.empty.addFact sampleLedgerRuntime sampleTea).Recorded g f := by
    intro g
    rw [FactLedger.recorded_addFact haccepted, hlist]
    simp [FactLedger.empty, FactLedger.Recorded]
  have hrows : (FactLedger.empty.addFact sampleLedgerRuntime sampleTea).rowsOf [sampleTeaId] =
      [] ++ [row'] := List.filterMap_cons_some hfind
  refine ⟨fun g hg => (hpairs g hg).elim, ?_⟩
  show (KnowledgeGraph.listers (FactLedger.rowsOf _ [sampleTeaId]) f).getLast?.map FactRow.factId = _
  rw [FactStores.empty, hrows, KnowledgeGraph.listers_concat_of_not_mem List.not_mem_nil]
  obtain ⟨old, ⟨-, rfl⟩ | ⟨-, hold⟩, rfl⟩ := FactLedger.row_of_addFact haccepted hrow
  · simp [hlist, AddFact.record]
  · cases hold

end Facts

end AgentMemory
