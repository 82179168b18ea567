import AgentMemory.Engine.Facts

/-!
# The knowledge graph

The part of `KnowledgeGraph` of `engines/living_memoryv2/src/living_memoryv2/knowledge.py`
that copies facts: the rows of `kg_assertions` that come from a fact and those of
`kg_conflicts`. `index_fact` writes the assertion of a fact without its `superseded_by` and
marks the assertions the fact supersedes, where they are there already, so what a replay of
facts leaves depends on their order; `replayed` says how.
-/

namespace AgentMemory

open Dicts PyText JsonText Tables

/-- A row of `kg_assertions` (`knowledge.py:131-154`) with a fact id, without its normalised
columns and entities. -/
structure KgAssertion (F : Type) where
  assertionId : Text
  subject : Text
  predicate : Text
  object : Text
  sourceMemoryId : Text
  factId : Text
  scope : List (Text × Json F)
  validFrom : Option F
  validTo : Option F
  observedAt : F
  confidence : F
  status : FactStatus
  reason : Text
  supersedes : List Text
  supersededBy : Option Text

/-- A row of `kg_conflicts` (`knowledge.py:159-165`). -/
structure KgConflict (F : Type) where
  supersedingAssertionId : Text
  supersededAssertionId : Text
  reason : Text
  createdAt : F

/-- The primary key of `kg_conflicts`. -/
def KgConflict.key {F : Type} (c : KgConflict F) : Text × Text :=
  (c.supersedingAssertionId, c.supersededAssertionId)

/-- The two tables. -/
structure KnowledgeGraph (F : Type) where
  assertions : Table (KgAssertion F) KgAssertion.assertionId
  conflicts : Table (KgConflict F) KgConflict.key

section Model

variable {F : Type} (rt : LedgerRuntime F)

namespace FactRow

variable (row : FactRow F)

/-- The id of the fact's assertion (`knowledge.py:291-301`). -/
def assertionId : Text :=
  "kg_".toList ++ (sha256Hex rt.toPython (dict [("subject", .str (norm rt (strip row.subject))),
    ("predicate", .str (norm rt (strip row.predicate))), ("object", .str (norm rt (strip row.object))),
    ("source_memory_id", .str (strip row.sourceMemoryId)), ("fact_id", .str row.factId),
    ("valid_from", numberValue (row.validFrom.map .float)),
    ("valid_to", numberValue (row.validTo.map .float))])).take 24

/-- The assertion of the fact (`knowledge.py:302-321` on the arguments of `index_fact`). -/
def assertion (supersedes : List Text) : KgAssertion F where
  assertionId := row.assertionId rt
  subject := strip row.subject
  predicate := strip row.predicate
  object := strip row.object
  sourceMemoryId := strip row.sourceMemoryId
  factId := row.factId
  scope := row.scope
  validFrom := row.validFrom
  validTo := row.validTo
  observedAt := row.createdAt
  confidence := rt.clamp row.confidence
  status := row.status
  reason := if row.reason = [] then "fact_ledger".toList else row.reason
  supersedes := supersedes
  supersededBy := none

end FactRow

namespace KnowledgeGraph

/-- `clear` (`knowledge.py:174-178`). -/
def empty : KnowledgeGraph F := ⟨Table.empty, Table.empty⟩

/-- The assertion as a superseding one leaves it (`knowledge.py:359-362`). -/
def superseded (assertionId : Text) (a : KgAssertion F) : KgAssertion F :=
  { a with status := .superseded, supersededBy := some assertionId }

/-- One round of the loop over `supersedes_list` (`knowledge.py:358-371`). -/
def supersede (record : KgAssertion F) (k : KnowledgeGraph F) (old : Text) : KnowledgeGraph F where
  assertions := k.assertions.mapRows
    (fun a => if a.assertionId = old then superseded record.assertionId a else a)
    fun a => by split <;> rfl
  conflicts := k.conflicts.upsert ⟨record.assertionId, old, record.reason, record.observedAt⟩

/-- The writes of `add_assertion` (`knowledge.py:322-371`). -/
def addAssertion (record : KgAssertion F) (k : KnowledgeGraph F) : KnowledgeGraph F :=
  record.supersedes.foldl (supersede record) { k with assertions := k.assertions.upsert record }

/-- `assertion_ids_for_facts` (`knowledge.py:382-392`). -/
def assertionIdsForFacts (k : KnowledgeGraph F) (factIds : List Text) : List Text :=
  ((k.assertions.rows.filter fun a => a.factId ∈ factIds.filter (· ≠ [])).mergeSort
    fun a b => rt.le a.observedAt b.observedAt).map KgAssertion.assertionId

/-- The ids `add_assertion` gets from `index_fact` and keeps (`knowledge.py:290`, `:415`). -/
def supersededIds (k : KnowledgeGraph F) (row : FactRow F) : List Text :=
  (k.assertionIdsForFacts rt row.supersedes).filter (· ≠ [])

/-- `index_fact` (`knowledge.py:414-431`) of a row of the ledger, whose texts are not blank. -/
def indexFact (k : KnowledgeGraph F) (row : FactRow F) : KnowledgeGraph F :=
  k.addAssertion (row.assertion rt (k.supersededIds rt row))

/-- The facts indexed one after the other in a cleared graph. -/
def replay (rows : List (FactRow F)) : KnowledgeGraph F := rows.foldl (indexFact rt) empty

end KnowledgeGraph

end Model

/-! ## What indexing a fact does -/

section Facts

variable {F : Type} {rt : LedgerRuntime F}

theorem FactRow.assertionId_ne_nil (row : FactRow F) : row.assertionId rt ≠ [] := by
  simp [assertionId]

namespace KnowledgeGraph

/-- A conflict row says that the first assertion superseded the second. -/
def Recorded (k : KnowledgeGraph F) (x y : Text) : Prop := k.conflicts.find? (x, y) ≠ none

theorem mem_assertionIdsForFacts {k : KnowledgeGraph F} {factIds : List Text} {x : Text} :
    x ∈ k.assertionIdsForFacts rt factIds ↔
      ∃ a, k.assertions.find? x = some a ∧ a.factId ∈ factIds ∧ a.factId ≠ [] := by
  simp only [assertionIdsForFacts, List.mem_map, List.mem_mergeSort, List.mem_filter,
    decide_eq_true_eq, Table.find?_eq_some]
  constructor
  · rintro ⟨a, ⟨ha, hmem⟩, rfl⟩
    exact ⟨a, ⟨ha, rfl⟩, hmem⟩
  · rintro ⟨a, ⟨ha, rfl⟩, hmem⟩
    exact ⟨a, ⟨ha, hmem⟩, rfl⟩

/-- The loop over the superseded ids changes the two tables apart. -/
theorem supersede_foldl (record : KgAssertion F) (olds : List Text) (k : KnowledgeGraph F) :
    olds.foldl (supersede record) k =
      ⟨olds.foldl (fun t old => t.mapRows
          (fun a => if a.assertionId = old then superseded record.assertionId a else a)
          fun a => by split <;> rfl) k.assertions,
        (olds.map fun old => ⟨record.assertionId, old, record.reason, record.observedAt⟩).foldl
          Table.upsert k.conflicts⟩ := by
  induction olds generalizing k with
  | nil => rfl
  | cons old olds ih => rw [List.foldl_cons, ih]; rfl

theorem find?_addAssertion (record : KgAssertion F) (k : KnowledgeGraph F) (x : Text) :
    (k.addAssertion record).assertions.find? x =
      (if record.assertionId = x then some record else k.assertions.find? x).map fun a =>
        if x ∈ record.supersedes then superseded record.assertionId a else a := by
  rw [addAssertion, supersede_foldl, ← Table.find?_upsert]
  convert Table.find?_foldl_mapRows (f := superseded record.assertionId) (fun _ => by rfl)
    (fun _ => by rfl) record.supersedes (k.assertions.upsert record) x

theorem recorded_addAssertion (record : KgAssertion F) (k : KnowledgeGraph F) (x y : Text) :
    (k.addAssertion record).Recorded x y ↔
      (x = record.assertionId ∧ y ∈ record.supersedes) ∨ k.Recorded x y := by
  rw [addAssertion, supersede_foldl, Recorded, Table.find?_foldl_upsert_ne_none]
  simp [KgConflict.key, Recorded, and_comm, eq_comm]

/-- The assertions are those of the fact ids and assertion ids in this relation. -/
def Holds (k : KnowledgeGraph F) (P : Text → Text → Prop) : Prop :=
  (∀ x a, k.assertions.find? x = some a → P a.factId x) ∧
    ∀ id x, P id x → ∃ a, k.assertions.find? x = some a ∧ a.factId = id

variable {k : KnowledgeGraph F} {P : Text → Text → Prop} {row : FactRow F}

theorem mem_supersededIds (hk : k.Holds P) (hne : [] ∉ row.supersedes) (hP : ∀ id x, P id x → x ≠ [])
    (x : Text) : x ∈ k.supersededIds rt row ↔ ∃ id ∈ row.supersedes, P id x := by
  rw [supersededIds, List.mem_filter, decide_eq_true_eq, mem_assertionIdsForFacts]
  constructor
  · rintro ⟨⟨a, ha, hmem, -⟩, -⟩
    exact ⟨a.factId, hmem, hk.1 x a ha⟩
  · rintro ⟨id, hmem, hid⟩
    obtain ⟨a, ha, rfl⟩ := hk.2 id x hid
    exact ⟨⟨a, ha, hmem, fun h => hne (h ▸ hmem)⟩, hP _ x hid⟩

theorem find?_indexFact (x : Text) :
    (k.indexFact rt row).assertions.find? x =
      (if row.assertionId rt = x then some (row.assertion rt (k.supersededIds rt row))
        else k.assertions.find? x).map fun a =>
          if x ∈ k.supersededIds rt row then superseded (row.assertionId rt) a else a :=
  find?_addAssertion _ k x

theorem recorded_indexFact (x y : Text) : (k.indexFact rt row).Recorded x y ↔
    (x = row.assertionId rt ∧ y ∈ k.supersededIds rt row) ∨ k.Recorded x y :=
  recorded_addAssertion _ k x y

/-- Indexing a fact puts its assertion beside the others. -/
theorem holds_indexFact (hk : k.Holds P) : (k.indexFact rt row).Holds fun id x =>
    if row.assertionId rt = x then id = row.factId else P id x := by
  constructor
  · intro x a ha
    rw [find?_indexFact, Option.map_eq_some_iff] at ha
    obtain ⟨old, hold, rfl⟩ := ha
    have hfact : (if x ∈ k.supersededIds rt row then superseded (row.assertionId rt) old
        else old).factId = old.factId := by
      split <;> rfl
    rw [hfact]
    by_cases hx : row.assertionId rt = x
    · rw [if_pos hx] at hold ⊢
      obtain rfl := Option.some.inj hold
      rfl
    · rw [if_neg hx] at hold ⊢
      exact hk.1 x old hold
  · intro id x hid
    rw [find?_indexFact]
    by_cases hx : row.assertionId rt = x
    · rw [if_pos hx] at hid ⊢
      subst hid
      exact ⟨_, rfl, by split <;> rfl⟩
    · rw [if_neg hx] at hid ⊢
      obtain ⟨a, ha, rfl⟩ := hk.2 id x hid
      rw [ha]
      exact ⟨_, rfl, by split <;> rfl⟩

/-! ## What a replay leaves -/

/-- The facts that list this one among those they supersede and come after it. -/
def listers (rows : List (FactRow F)) (id : Text) : List (FactRow F) :=
  (rows.dropWhile fun row => row.factId ≠ id).tail.filter fun row => id ∈ row.supersedes

theorem mem_of_mem_listers {rows : List (FactRow F)} {id : Text} {g : FactRow F}
    (hg : g ∈ listers rows id) : g ∈ rows ∧ id ∈ g.supersedes := by
  obtain ⟨htail, hlist⟩ := List.mem_filter.mp hg
  exact ⟨(List.dropWhile_sublist _).subset (List.mem_of_mem_tail htail), by simpa using hlist⟩

theorem listers_concat_of_mem {rows : List (FactRow F)} {id : Text}
    (hid : id ∈ rows.map FactRow.factId) (row : FactRow F) :
    listers (rows ++ [row]) id = listers rows id ++ if id ∈ row.supersedes then [row] else [] := by
  obtain ⟨f, hf, hfid⟩ := List.mem_map.mp hid
  have hfound : rows.dropWhile (fun row => row.factId ≠ id) ≠ [] := by
    rw [Ne, List.dropWhile_eq_nil_iff]
    intro hall
    simpa [hfid] using hall f hf
  rw [listers, List.dropWhile_append, if_neg (by simpa using hfound),
    List.tail_append_of_ne_nil hfound, List.filter_append, List.filter_singleton]
  simp [listers]

theorem listers_concat_of_not_mem {rows : List (FactRow F)} {id : Text}
    (hid : id ∉ rows.map FactRow.factId) (row : FactRow F) : listers (rows ++ [row]) id = [] := by
  have hnone : rows.dropWhile (fun row => row.factId ≠ id) = [] := by
    rw [List.dropWhile_eq_nil_iff]
    intro f hf
    simpa using fun h => hid (List.mem_map.mpr ⟨f, hf, h⟩)
  rw [listers, List.dropWhile_append, hnone]
  by_cases hrow : row.factId = id <;> simp [hrow]

/-- The graph after a replay of these facts: an assertion for each, marked by the last fact
that lists it and comes later, and a conflict row for each such pair. -/
structure Replayed (rt : LedgerRuntime F) (rows : List (FactRow F)) (k : KnowledgeGraph F) : Prop where
  holds : k.Holds fun id x => ∃ f ∈ rows, f.factId = id ∧ f.assertionId rt = x
  status : ∀ f ∈ rows, ∀ a, k.assertions.find? (f.assertionId rt) = some a →
    a.status = (if (listers rows f.factId).isEmpty = true then f.status else .superseded) ∧
      a.supersededBy = (listers rows f.factId).getLast?.map (FactRow.assertionId rt)
  recorded : ∀ x y, k.Recorded x y ↔
    ∃ f ∈ rows, ∃ g ∈ listers rows f.factId, g.assertionId rt = x ∧ f.assertionId rt = y

/-- The step lemma. -/
theorem replayed_indexFact {rows : List (FactRow F)} (hk : Replayed rt rows k)
    (hids : ((rows ++ [row]).map FactRow.factId).Nodup)
    (haids : ((rows ++ [row]).map (FactRow.assertionId rt)).Nodup) (hne : [] ∉ row.supersedes) :
    Replayed rt (rows ++ [row]) (k.indexFact rt row) := by
  rw [List.map_append, List.map_singleton, List.nodup_append_comm, List.singleton_append,
    List.nodup_cons] at hids haids
  have hfresh : ∀ f ∈ rows, row.assertionId rt ≠ f.assertionId rt := fun f hf h =>
    haids.1 (List.mem_map.mpr ⟨f, hf, h.symm⟩)
  have hmarked : ∀ x, x ∈ k.supersededIds rt row ↔
      ∃ f ∈ rows, f.factId ∈ row.supersedes ∧ f.assertionId rt = x := by
    intro x
    rw [mem_supersededIds hk.holds hne (by rintro id x ⟨f, -, -, rfl⟩; exact f.assertionId_ne_nil)]
    constructor
    · rintro ⟨id, hid, f, hf, rfl, rfl⟩
      exact ⟨f, hf, hid, rfl⟩
    · rintro ⟨f, hf, hid, rfl⟩
      exact ⟨f.factId, hid, f, hf, rfl, rfl⟩
  have hown : row.assertionId rt ∉ k.supersededIds rt row := by
    rw [hmarked]
    rintro ⟨f, hf, -, h⟩
    exact hfresh f hf h.symm
  have hold : ∀ f ∈ rows, f.assertionId rt ∈ k.supersededIds rt row ↔ f.factId ∈ row.supersedes := by
    intro f hf
    rw [hmarked]
    constructor
    · rintro ⟨f', hf', hmem, h⟩
      obtain rfl := List.inj_on_of_nodup_map haids.2 hf' hf h
      exact hmem
    · exact fun hmem => ⟨f, hf, hmem, rfl⟩
  refine ⟨?_, ?_, ?_⟩
  · have hsame : (fun id x => ∃ f ∈ rows ++ [row], f.factId = id ∧ f.assertionId rt = x) =
        fun id x => if row.assertionId rt = x then id = row.factId
          else ∃ f ∈ rows, f.factId = id ∧ f.assertionId rt = x := by
      funext id x
      by_cases hx : row.assertionId rt = x
      · subst hx
        simp only [List.mem_append, List.mem_singleton, if_true, eq_iff_iff]
        constructor
        · rintro ⟨f, hf | rfl, rfl, h⟩
          · exact absurd h.symm (hfresh f hf)
          · rfl
        · rintro rfl
          exact ⟨row, Or.inr rfl, rfl, rfl⟩
      · simp [or_and_right, exists_or, hx]
    rw [hsame]
    exact holds_indexFact hk.holds
  · intro f hf a ha
    rw [find?_indexFact, Option.map_eq_some_iff] at ha
    obtain ⟨old, hfind, rfl⟩ := ha
    rcases List.mem_append.mp hf with hf | hf
    · rw [if_neg (hfresh f hf)] at hfind
      obtain ⟨hstatus, hby⟩ := hk.status f hf old hfind
      rw [listers_concat_of_mem (List.mem_map_of_mem hf)]
      simp only [hold f hf]
      by_cases hmem : f.factId ∈ row.supersedes
      · simp [hmem, superseded]
      · rw [if_neg hmem, if_neg hmem, List.append_nil]
        exact ⟨hstatus, hby⟩
    · obtain rfl := List.mem_singleton.mp hf
      rw [if_pos rfl] at hfind
      obtain rfl := Option.some.inj hfind
      rw [listers_concat_of_not_mem hids.1, if_neg hown]
      exact ⟨rfl, rfl⟩
  · intro x y
    rw [recorded_indexFact, hk.recorded, hmarked]
    constructor
    · rintro (⟨rfl, f, hf, hmem, rfl⟩ | ⟨f, hf, g, hg, rfl, rfl⟩)
      · refine ⟨f, List.mem_append_left _ hf, row, ?_, rfl, rfl⟩
        simp [listers_concat_of_mem (List.mem_map_of_mem hf), hmem]
      · refine ⟨f, List.mem_append_left _ hf, g, ?_, rfl, rfl⟩
        rw [listers_concat_of_mem (List.mem_map_of_mem hf)]
        exact List.mem_append_left _ hg
    · rintro ⟨f, hf, g, hg, rfl, rfl⟩
      rcases List.mem_append.mp hf with hmemf | hf
      · rw [listers_concat_of_mem (List.mem_map_of_mem hmemf), List.mem_append] at hg
        rcases hg with hg | hg
        · exact Or.inr ⟨f, hmemf, g, hg, rfl, rfl⟩
        · by_cases hmem : f.factId ∈ row.supersedes
          · obtain rfl : g = row := by simpa [hmem] using hg
            exact Or.inl ⟨rfl, f, hmemf, hmem, rfl⟩
          · simp [hmem] at hg
      · obtain rfl := List.mem_singleton.mp hf
        simp [listers_concat_of_not_mem hids.1] at hg

/-- A replay of facts with different ids, whose assertions have different ids too. -/
theorem replayed {rows : List (FactRow F)} (hids : (rows.map FactRow.factId).Nodup)
    (haids : (rows.map (FactRow.assertionId rt)).Nodup) (hne : ∀ row ∈ rows, [] ∉ row.supersedes) :
    Replayed rt rows (replay rt rows) := by
  induction rows using List.reverseRecOn with
  | nil => exact ⟨⟨by simp [replay, empty], by simp⟩, by simp, by simp [replay, empty, Recorded]⟩
  | append_singleton rows row ih =>
    have hinitial : rows <+: rows ++ [row] := List.prefix_append _ _
    rw [replay, List.foldl_append]
    exact replayed_indexFact (ih (hids.sublist (hinitial.sublist.map _))
      (haids.sublist (hinitial.sublist.map _)) fun r hr => hne r (List.mem_append_left _ hr)) hids haids
      (hne row (by simp))

end KnowledgeGraph

end Facts

end AgentMemory
