import AgentMemory.Engine.Graph
import AgentMemory.Lib.Uniques

/-!
# Uniqueness of relations

The table `relations` has a `UNIQUE` constraint on the graph, the normalised texts, the memory
and the two ends of the validity, and `INSERT OR IGNORE` relies on it. Where one of the ends is
missing its column is `NULL`, which is equal to nothing: such a relation is inserted as often as
it is added. `relations_unique_iff` says for whole runs of `add_relation` and `index_memory`
that this is the only way to two rows of one relation.
-/

namespace AgentMemory

open JsonText PyText Commits Uniques

variable {F : Type} (rt : GraphRuntime F)

/-- The two columns hold the same, be it nothing. -/
def RealColumn.agrees : RealColumn F → RealColumn F → Bool
  | .null, .null => true
  | x, y => x.sameValue rt y

/-- The column holds a value. -/
def RealColumn.isValue : RealColumn F → Bool
  | .null => false
  | _ => true

namespace RelationRow

/-- The rows agree on the columns of the constraint. -/
def agrees (row row' : RelationRow F) : Bool :=
  row.graphName = row'.graphName &&
    norm rt.toLedgerRuntime row.subject = norm rt.toLedgerRuntime row'.subject &&
    norm rt.toLedgerRuntime row.predicate = norm rt.toLedgerRuntime row'.predicate &&
    norm rt.toLedgerRuntime row.object = norm rt.toLedgerRuntime row'.object &&
    row.memoryId = row'.memoryId && row.validFrom.agrees rt row'.validFrom &&
    row.validTo.agrees rt row'.validTo

/-- Both ends of the validity are there. -/
def bounded (row : RelationRow F) : Bool := row.validFrom.isValue && row.validTo.isValue

end RelationRow

/-- The row that `add_relation` inserts, where it raises nothing and no column is `NULL` that
may not be. -/
def AddRelation.row (a : AddRelation F) : Option (RelationRow F) := do
  let name ← graphNameOf rt a.graphName a.validFrom a.validTo
  let confidence ← floatOf rt a.confidence
  let subject ← required a.subject
  let predicate ← required a.predicate
  let object ← required a.object
  let validFrom ← bindReal rt a.validFrom
  let validTo ← bindReal rt a.validTo
  let source ← bindText rt a.source
  match ← bindReal rt a.createdAt.value with
  | .real createdAt =>
    pure ⟨name, subject, predicate, object, a.memoryId, validFrom, validTo, rt.clamp confidence,
      source, createdAt⟩
  | _ => none

/-- A call that writes relations. -/
inductive GraphCall (F : Type) where
  | addRelation (a : AddRelation F)
  | indexMemory (m : IndexedFields F)

/-- The calls of `add_relation` that `index_memory` makes: one that raises is the last. -/
def relationAdds (m : IndexedFields F) : List (Json F) → List (AddRelation F)
  | [] => []
  | item :: items =>
    match relationArgs rt m item with
    | none => []
    | some a => a :: if a.accepted rt = true then relationAdds m items else []

/-- The calls of `add_relation` that a call makes. -/
def GraphCall.adds : GraphCall F → List (AddRelation F)
  | .addRelation a => [a]
  | .indexMemory m => relationAdds rt m m.relations

namespace GraphStore

/-- The table after `add_relation`, whether it returns or raises. -/
def add (s : GraphStore F) (a : AddRelation F) : GraphStore F := (s.addRelation rt a).getD s

/-- The table after a call. -/
def call (s : GraphStore F) : GraphCall F → GraphStore F
  | .addRelation a => s.add rt a
  | .indexMemory m => after (indexMemory rt m) s

/-- The table after a run of calls. -/
def run (calls : List (GraphCall F)) : GraphStore F := calls.foldl (call rt) empty

/-- No two rows agree on the columns of the constraint. -/
def DistinctRelations (s : GraphStore F) : Prop :=
  s.relations.Pairwise fun row row' => row'.agrees rt row = false

/-- Adding a relation that agrees with a row adds no row. -/
def AddsOnce (s : GraphStore F) (a : AddRelation F) : Prop :=
  ∀ row, a.row rt = some row → (∃ row' ∈ s.relations, row.agrees rt row' = true) →
    s.addRelation rt a = some s

end GraphStore

/-! ## What a run inserts -/

section Facts

variable {rt}

theorem sameRelation_eq (row row' : RelationRow F) :
    row.sameRelation rt row' = (row.agrees rt row' && row.bounded) := by
  unfold RelationRow.sameRelation RelationRow.agrees RelationRow.bounded
  have hcolumn (x y : RealColumn F) : x.sameValue rt y = (x.agrees rt y && x.isValue) := by
    cases x <;> cases y <;> simp [RealColumn.agrees, RealColumn.sameValue, RealColumn.isValue]
  rw [hcolumn, hcolumn]
  ac_rfl

theorem bounded_of_agrees {row row' : RelationRow F} (h : row.agrees rt row' = true) :
    row.bounded = row'.bounded := by
  have hcolumn {x y : RealColumn F} (hxy : x.agrees rt y = true) : x.isValue = y.isValue := by
    cases x <;> cases y <;> first | rfl | cases hxy
  unfold RelationRow.agrees at h
  simp only [Bool.and_eq_true] at h
  unfold RelationRow.bounded
  rw [hcolumn h.1.2, hcolumn h.2]

namespace GraphStore

theorem insertOrIgnore_eq (row : RelationRow F) (s : GraphStore F) :
    s.insertOrIgnore rt row =
      ⟨insertNew (RelationRow.agrees rt) RelationRow.bounded s.relations row⟩ := by
  have hsame : RelationRow.sameRelation rt row = fun row' => row.agrees rt row' && row.bounded := by
    funext row'
    exact sameRelation_eq row row'
  unfold insertOrIgnore insertNew
  rw [hsame]
  split <;> rfl

/-- An accepted call inserts its row, if it has one. -/
theorem addRelation_eq (a : AddRelation F) (s : GraphStore F) :
    s.addRelation rt a =
      if a.accepted rt = true then some ((a.row rt).elim s fun row => s.insertOrIgnore rt row)
      else none := by
  unfold addRelation AddRelation.row AddRelation.accepted
  cases graphNameOf rt a.graphName a.validFrom a.validTo <;> try rfl
  cases floatOf rt a.confidence <;> try rfl
  cases required a.subject <;> try rfl
  cases required a.predicate <;> try rfl
  cases required a.object <;> try rfl
  cases bindReal rt a.validFrom <;> try rfl
  cases bindReal rt a.validTo <;> try rfl
  cases bindText rt a.source <;> try rfl
  rcases bindReal rt a.createdAt.value with _ | (_ | _ | _) <;> rfl

theorem accepted_of_row {a : AddRelation F} {row : RelationRow F} (h : a.row rt = some row) :
    a.accepted rt = true := by
  simp only [AddRelation.row, Option.bind_eq_bind, Option.bind_eq_some_iff] at h
  obtain ⟨_, hname, _, hconfidence, _, hsubject, _, hpredicate, _, hobject, _, hfrom, _, hto, _,
    hsource, _, hcreated, _⟩ := h
  simp [AddRelation.accepted, hname, hconfidence, hsubject, hpredicate, hobject, hfrom, hto,
    hsource, hcreated]

/-- A call leaves the table with its row, if it has one. -/
theorem add_eq (s : GraphStore F) (a : AddRelation F) :
    s.add rt a = (a.row rt).elim s fun row => s.insertOrIgnore rt row := by
  unfold add
  rw [addRelation_eq]
  by_cases ha : a.accepted rt = true
  · rw [if_pos ha]
    rfl
  · rw [if_neg ha]
    cases hrow : a.row rt with
    | none => rfl
    | some row => exact absurd (accepted_of_row hrow) ha

/-- The table after calls of `add_relation` holds what was taken of their rows. -/
theorem relations_foldl_add (adds : List (AddRelation F)) (s : GraphStore F) :
    (adds.foldl (add rt) s).relations = (adds.filterMap (AddRelation.row rt)).foldl
      (insertNew (RelationRow.agrees rt) RelationRow.bounded) s.relations := by
  induction adds generalizing s with
  | nil => rfl
  | cons a adds ih =>
    rw [List.foldl_cons, ih, add_eq]
    cases hrow : a.row rt with
    | none => rw [List.filterMap_cons_none hrow]; rfl
    | some row =>
      rw [List.filterMap_cons_some hrow, List.foldl_cons, Option.elim_some, insertOrIgnore_eq]

/-- Indexing an envelope is a sequence of calls of `add_relation`. -/
theorem after_indexItems (m : IndexedFields F) (items : List (Json F)) (s : GraphStore F) :
    after (forM items fun item =>
      commit fun s : GraphStore F => (relationArgs rt m item).bind fun a => s.addRelation rt a) s =
        (relationAdds rt m items).foldl (add rt) s := by
  induction items generalizing s with
  | nil => rfl
  | cons item items ih =>
    rw [List.forM_cons, after_bind, returns_commit, after_commit]
    unfold relationAdds
    cases hargs : relationArgs rt m item with
    | none => rfl
    | some a =>
      simp only [Option.bind_some, addRelation_isSome]
      by_cases ha : a.accepted rt = true
      · rw [if_pos ha, if_pos ha, ih]
        rfl
      · rw [if_neg ha, if_neg ha]
        rfl

/-- A run is a sequence of calls of `add_relation`. -/
theorem run_eq (calls : List (GraphCall F)) :
    run rt calls = (calls.flatMap (GraphCall.adds rt)).foldl (add rt) empty := by
  unfold run
  generalize empty = s
  induction calls generalizing s with
  | nil => rfl
  | cons c calls ih =>
    rw [List.foldl_cons, List.flatMap_cons, List.foldl_append, ih]
    congr 1
    cases c with
    | addRelation a => rfl
    | indexMemory m => exact after_indexItems m m.relations s

/-- Of a row that a call inserts, the call adds nothing exactly when the table takes nothing. -/
theorem addsOnce_iff {s : GraphStore F} {a : AddRelation F} :
    s.AddsOnce rt a ↔ ∀ row, a.row rt = some row →
      (∃ row' ∈ s.relations, row.agrees rt row' = true) →
      insertNew (RelationRow.agrees rt) RelationRow.bounded s.relations row = s.relations := by
  unfold AddsOnce
  refine forall_congr' fun row => forall_congr' fun hrow => imp_congr_right fun _ => ?_
  rw [addRelation_eq, if_pos (accepted_of_row hrow), hrow, Option.elim_some, insertOrIgnore_eq,
    Option.some.injEq]
  exact ⟨fun h => congrArg GraphStore.relations h, fun h => by rw [h]⟩

end GraphStore

end Facts

/-- After a run no two rows agree on the columns of the constraint, and a relation that agrees
with a row adds none, exactly when of the relations that the run adds those that agree with an
earlier one have both ends of their validity. -/
theorem relations_unique_iff (rt : GraphRuntime F) (calls : List (GraphCall F)) :
    ((∀ before after, calls = before ++ after → (GraphStore.run rt before).DistinctRelations rt) ∧
      ∀ before a after, calls.flatMap (GraphCall.adds rt) = before ++ a :: after →
        (before.foldl (GraphStore.add rt) GraphStore.empty).AddsOnce rt a) ↔
      ((calls.flatMap (GraphCall.adds rt)).filterMap (AddRelation.row rt)).Pairwise fun row row' =>
        row'.agrees rt row = true → row'.bounded = true := by
  constructor
  · intro ⟨_, honce⟩
    have hsame (row row' : RelationRow F) (h : row.agrees rt row' = true) :
        row.bounded = row'.bounded := bounded_of_agrees h
    apply completeTwins_of_once hsame
    intro before row after heq htwin
    -- The rows before this one are those of the calls before its call.
    obtain ⟨adds, rest, hadds, rfl, hrest⟩ := List.filterMap_eq_append_iff.mp heq
    obtain ⟨skipped, a, later, rfl, hskipped, hrow, rfl⟩ := List.filterMap_eq_cons_iff.mp hrest
    have hbefore : (adds ++ skipped).filterMap (AddRelation.row rt) =
        adds.filterMap (AddRelation.row rt) := by
      rw [List.filterMap_append, List.filterMap_eq_nil_iff.mpr hskipped, List.append_nil]
    have hadd := GraphStore.addsOnce_iff.mp
      (honce (adds ++ skipped) a later (by rw [hadds, List.append_assoc])) row hrow
    rw [GraphStore.relations_foldl_add, hbefore] at hadd
    exact hadd htwin
  · intro htwins
    refine ⟨?_, ?_⟩
    · intro before after heq
      rw [heq, List.flatMap_append, List.filterMap_append] at htwins
      rw [GraphStore.DistinctRelations, GraphStore.run_eq, GraphStore.relations_foldl_add]
      exact distinct_of_completeTwins (CompleteTwins.of_append htwins)
    · intro before a after heq
      rw [GraphStore.addsOnce_iff]
      intro row hrow ⟨row', hrow', hagrees⟩
      rw [heq, List.filterMap_append, List.filterMap_cons_some hrow] at htwins
      rw [GraphStore.relations_foldl_add] at hrow' ⊢
      exact CompleteTwins.insertNew_eq htwins hrow' hagrees

/-- A relation without a validity, as `index_memory` adds most. -/
def sampleTimeless : AddRelation SampleNumber :=
  ⟨"tea".toList, "is".toList, "hot".toList, "m".toList, .null, .null, .null, .float .one, .null,
    .float .one⟩

/-- A relation without a validity is there twice after it was added twice. -/
theorem GraphStore.timeless_relation_twice :
    ¬ (run sampleGraphRuntime [.addRelation sampleTimeless, .addRelation sampleTimeless]).DistinctRelations
      sampleGraphRuntime := by
  unfold DistinctRelations
  decide +kernel

end AgentMemory
