import AgentMemory.Engine.Assertions
import AgentMemory.Lib.Runs

/-!
# What indexing does to an entity

`KnowledgeGraph` of `engines/living_memoryv2/src/living_memoryv2/knowledge.py`: the calls that
index an assertion, a memory or a fact write the entities they mention through the same
`upsert_entity` as a caller who sets one. That merges aliases, sources and confidence with what
is there, but writes type and status over it: `entity_kept_iff` says which runs of such calls
leave an entity as it was set.
-/

namespace AgentMemory

open Dicts PyText JsonText Tables Commits Runs

/-- The runtime with the laws of `<=` on floats; only a NaN is not comparable. -/
structure OrderedRuntime (F : Type) extends GraphRuntime F where
  le_total : ∀ x y, isNan x = false → isNan y = false → le x y = true ∨ le y x = true
  le_trans : ∀ x y z, le x y = true → le y z = true → le x z = true

/-- The calls that index. -/
inductive IndexCall (F : Type) where
  | addAssertion (a : AddAssertion F)
  | indexMemory (m : IndexedFields F)
  | indexFact (row : FactRow F)

section Model

variable {F : Type} (rt : GraphRuntime F)

/-- The call on the graphs. -/
def IndexCall.call : IndexCall F → Call (Graphs F) Unit
  | .addAssertion a => Graphs.addAssertion rt a
  | .indexMemory m => Graphs.indexMemory rt m
  | .indexFact row => Graphs.indexFact rt row

/-- The graphs after a call, whether it returns or raises. -/
def indexStep (g : Graphs F) (c : IndexCall F) : Option (Graphs F) := some (after (c.call rt) g)

/-- The id of the entity that is set. -/
def UpsertEntity.entityId (e : UpsertEntity F) : Text := entityIdOf rt (strip e.name) e.scope

/-- The roles in which the call writes the entity with this id, in their order. -/
def AddAssertion.roles (a : AddAssertion F) (id : Text) : List Text :=
  if (a.complete && !rt.isNan a.observedAt) = true then
    (if a.subjectEntity.entityId rt = id then ["subject".toList] else []) ++
      if a.kind = "entity".toList ∧ a.objectEntity.entityId rt = id then ["object".toList] else []
  else []

/-- The same for the relations of an envelope, up to the first that raises. -/
def relationRoles (m : IndexedFields F) (id : Text) : List (Json F) → List Text
  | [] => []
  | item :: items =>
    match assertionArgs rt m item with
    | some a => a.roles rt id ++ if a.accepted rt = true then relationRoles m id items else []
    | none => []

/-- The roles in which the call writes the entity with this id. -/
def IndexCall.roles (id : Text) : IndexCall F → List Text
  | .addAssertion a => a.roles rt id
  | .indexMemory m => relationRoles rt m id m.relations
  | .indexFact row => (row.assertionArgs []).roles rt id

/-- The last role that the call gives the entity is the type it has, and it is active. -/
def IndexCall.Harmless (e : UpsertEntity F) (c : IndexCall F) : Prop :=
  ∀ role ∈ (c.roles rt (e.entityId rt)).getLast?,
    role = orText e.entityType "entity".toList ∧ orText e.status "active".toList = "active".toList

/-- The row of the entity is there with the type and status of this one, at least its aliases
and sources and no lower confidence. -/
def EntityKept (row : KgEntity F) (g : Graphs F) : Prop :=
  ∃ row', g.knowledge.entities.find? row.entityId = some row' ∧ row'.entityType = row.entityType ∧
    row'.status = row.status ∧ row.aliases ⊆ row'.aliases ∧
      row.sourceMemoryIds ⊆ row'.sourceMemoryIds ∧ rt.le row.confidence row'.confidence = true

end Model

section Facts

variable {F : Type} {rt : OrderedRuntime F}

/-! ## What one write does to a row -/

/-- The row after writes in these roles: it has grown, and the last role is its type. -/
structure Marked (rt : OrderedRuntime F) (roles : List Text) (row row' : KgEntity F) : Prop where
  entityType : row'.entityType = roles.getLast?.getD row.entityType
  status : row'.status = if roles = [] then row.status else "active".toList
  aliases : row.aliases ⊆ row'.aliases
  sources : row.sourceMemoryIds ⊆ row'.sourceMemoryIds
  confidence : rt.le row.confidence row'.confidence = true
  isNan : rt.isNan row'.confidence = false

theorem le_self {x : F} (h : rt.isNan x = false) : rt.le x x = true := by
  rcases rt.le_total x x h h with hle | hle <;> exact hle

theorem Marked.refl {row : KgEntity F} (h : rt.isNan row.confidence = false) :
    Marked rt [] row row :=
  ⟨rfl, rfl, fun _ hx => hx, fun _ hx => hx, le_self h, h⟩

theorem Marked.trans {roles roles' : List Text} {row row' row'' : KgEntity F}
    (h : Marked rt roles row row') (h' : Marked rt roles' row' row'') :
    Marked rt (roles ++ roles') row row'' where
  entityType := by
    rw [h'.entityType, h.entityType, List.getLast?_append]
    cases roles'.getLast? <;> rfl
  status := by
    rw [h'.status, h.status]
    cases roles <;> cases roles' <;> rfl
  aliases := fun _ hx => h'.aliases (h.aliases hx)
  sources := fun _ hx => h'.sources (h.sources hx)
  confidence := rt.le_trans _ _ _ h.confidence h'.confidence
  isNan := h'.isNan

theorem valueAt_foldl_insert_eq_none {κ α : Type} [LinearOrder κ] {k : κ} {pairs : List (κ × α)}
    {d : List (κ × α)} : valueAt k (pairs.foldl (fun d kv => Dicts.insert kv.1 kv.2 d) d) = none ↔
      valueAt k d = none ∧ ∀ kv ∈ pairs, kv.1 ≠ k := by
  induction pairs generalizing d with
  | nil => simp
  | cons kv pairs ih =>
    rw [List.foldl_cons, ih, valueAt_insert, List.forall_mem_cons]
    by_cases hk : k = kv.1
    · simp [hk]
    · simp [hk, Ne.symm hk]

theorem mem_sortedSet {texts : List Text} {x : Text} : x ∈ sortedSet texts ↔ x ∈ texts := by
  have hkeys : x ∈ sortedSet texts ↔ valueAt x (ofPairs (texts.map fun s => (s, ()))) ≠ none := by
    rw [sortedSet, Ne, valueAt_eq_none, List.mem_map]
    push Not
    rfl
  rw [hkeys, ofPairs, Ne, valueAt_foldl_insert_eq_none]
  simp [valueAt]

/-- The row that is written over another is marked with its role. -/
theorem marked_row {e : UpsertEntity F} {row : KgEntity F} {role : Text} (hrole : role ≠ [])
    (htype : e.entityType = role) (hstatus : e.status = "active".toList)
    (h : rt.isNan row.confidence = false) :
    Marked rt [role] row (e.row rt.toGraphRuntime (some row)) := by
  have hclamp := rt.isNan_clamp e.confidence
  have hmax : rt.le row.confidence (maxOf rt.toGraphRuntime row.confidence (rt.clamp e.confidence)) = true ∧
      rt.isNan (maxOf rt.toGraphRuntime row.confidence (rt.clamp e.confidence)) = false := by
    unfold maxOf
    by_cases hle : rt.le (rt.clamp e.confidence) row.confidence = true
    · rw [if_pos hle]
      exact ⟨le_self h, h⟩
    · rw [if_neg hle]
      exact ⟨(rt.le_total _ _ h hclamp).resolve_right hle, hclamp⟩
  exact
    { entityType := by
        subst htype
        exact MemoryEnvelope.orText_of_ne hrole
      status := by
        rw [UpsertEntity.row, hstatus]
        rfl
      aliases := fun x hx => mem_sortedSet.mpr (List.mem_append_left _ hx)
      sources := fun x hx => mem_sortedSet.mpr (List.mem_append_left _ hx)
      confidence := hmax.1
      isNan := hmax.2 }

/-! ## What a call does -/

/-- The call marks the row of the entity with these roles. -/
def Marks (rt : OrderedRuntime F) (id : Text) (c : Call (Graphs F) Unit) (roles : List Text) : Prop :=
  ∀ g row, g.knowledge.entities.find? id = some row → rt.isNan row.confidence = false →
    ∃ row', (after c g).knowledge.entities.find? id = some row' ∧ Marked rt roles row row'

/-- The rows of `kg_entities` after an upsert. -/
def upsertRow (rt : GraphRuntime F) (e : UpsertEntity F) (t : Table (KgEntity F) KgEntity.entityId) :
    Table (KgEntity F) KgEntity.entityId := t.upsert (e.row rt (t.find? (e.entityId rt)))

theorem find?_upsertRow {e : UpsertEntity F} {t : Table (KgEntity F) KgEntity.entityId} {id : Text} :
    (upsertRow rt.toGraphRuntime e t).find? id =
      if e.entityId rt.toGraphRuntime = id then some (e.row rt.toGraphRuntime (t.find? id))
      else t.find? id := by
  have hkey : (e.row rt.toGraphRuntime (t.find? (e.entityId rt.toGraphRuntime))).entityId =
      e.entityId rt.toGraphRuntime := rfl
  rw [upsertRow, Table.find?_upsert, hkey]
  split
  · next h => rw [h]
  · rfl

theorem entities_insertAssertion {a : AddAssertion F} {k k' : KnowledgeTables F}
    (h : k.insertAssertion rt.toGraphRuntime a = some k') : k'.entities = k.entities := by
  obtain ⟨record, -, rfl⟩ := Option.map_eq_some_iff.mp h
  have hmark : ∀ (olds : List Text) (k : KnowledgeTables F),
      (olds.foldl (KnowledgeTables.mark record) k).entities = k.entities := by
    intro olds
    induction olds with
    | nil => exact fun k => rfl
    | cons old olds ih => exact fun k => ih _
  exact hmark _ _

/-- What `add_assertion` does after the entities are written. -/
theorem preserves_entities (a : AddAssertion F) (t : Table (KgEntity F) KgEntity.entityId) :
    Preserves (fun g : Graphs F => g.knowledge.entities = t) (do
      Graphs.onKnowledge (commit (KnowledgeTables.insertAssertion rt.toGraphRuntime a))
      Graphs.onRelations (commit (GraphStore.addRelation rt.toGraphRuntime (a.edge rt.toGraphRuntime)))
      forM a.supersedesList fun old => Graphs.onRelations (commit
        (GraphStore.addRelation rt.toGraphRuntime (a.conflictEdge rt.toGraphRuntime old)))) := by
  have hrelations : ∀ c : Call (GraphStore F) Unit,
        Preserves (fun g : Graphs F => g.knowledge.entities = t) (Graphs.onRelations c) := by
    intro c
    apply preserves_on
    exact fun _ _ h => h
  refine Preserves.bind ?_ ((hrelations _).bind (preserves_forM fun _ _ => hrelations _))
  intro g hg
  rw [Graphs.onKnowledge, after_on, after_commit]
  cases hinsert : g.knowledge.insertAssertion rt.toGraphRuntime a with
  | none => exact hg
  | some k => exact (entities_insertAssertion hinsert).trans hg

theorem upsertEntity_eq {e : UpsertEntity F} (hname : strip e.name ≠ [])
    (hnan : rt.isNan e.createdAt = false) (k : KnowledgeTables F) :
    k.upsertEntity rt.toGraphRuntime e =
      some { k with entities := upsertRow rt.toGraphRuntime e k.entities } := if_pos ⟨hname, hnan⟩

/-- An upsert that is accepted, in a call. -/
theorem call_upsertEntity {e : UpsertEntity F} (hname : strip e.name ≠ [])
    (hnan : rt.isNan e.createdAt = false) (g : Graphs F) :
    returns (Graphs.onKnowledge (commit (KnowledgeTables.upsertEntity rt.toGraphRuntime e))) g = true ∧
      (after (Graphs.onKnowledge (commit (KnowledgeTables.upsertEntity rt.toGraphRuntime e)))
        g).knowledge.entities = upsertRow rt.toGraphRuntime e g.knowledge.entities := by
  have heq := upsertEntity_eq hname hnan g.knowledge
  constructor
  · rw [Graphs.onKnowledge, returns_on, returns_commit, heq]
    rfl
  · rw [Graphs.onKnowledge, after_on, after_commit, heq]
    rfl

/-- The writes of the entities of an assertion. -/
theorem entities_addAssertion (a : AddAssertion F) (g : Graphs F) :
    (after (Graphs.addAssertion rt.toGraphRuntime a) g).knowledge.entities =
      if (a.complete && !rt.isNan a.observedAt) = true then
        if a.kind = "entity".toList then upsertRow rt.toGraphRuntime a.objectEntity
          (upsertRow rt.toGraphRuntime a.subjectEntity g.knowledge.entities)
        else upsertRow rt.toGraphRuntime a.subjectEntity g.knowledge.entities
      else g.knowledge.entities := by
  rw [Graphs.addAssertion, after_bind, returns_check]
  by_cases hcomplete : a.complete = true
  swap
  · simp [hcomplete]
  rw [if_pos hcomplete, after_check]
  by_cases hnan : rt.isNan a.observedAt = true
  · have hnone : KnowledgeTables.upsertEntity rt.toGraphRuntime a.subjectEntity g.knowledge = none :=
      if_neg fun h => by simp [AddAssertion.subjectEntity, hnan] at h
    rw [after_bind, Graphs.onKnowledge, returns_on, returns_commit, hnone, after_on, after_commit, hnone]
    simp [hnan]
  · have hnan' : rt.isNan a.observedAt = false := by simpa using hnan
    have hcomplete' := hcomplete
    simp only [AddAssertion.complete, Bool.and_eq_true, decide_eq_true_eq] at hcomplete'
    obtain ⟨⟨⟨hsubject, -⟩, hobject⟩, -⟩ := hcomplete'
    obtain ⟨hreturns, hfirst⟩ := @call_upsertEntity _ rt a.subjectEntity
      (by rw [AddAssertion.subjectEntity, strip_strip]; exact hsubject) hnan' g
    rw [after_bind, if_pos hreturns, if_pos (by simp [hcomplete, hnan'])]
    refine @Preserves.after_bind _ (fun g : Graphs F => g.knowledge.entities = _) _ (fun _ => _)
      (preserves_entities a _) _ ?_
    by_cases hkind : a.kind = "entity".toList
    · rw [if_pos hkind, decide_eq_true hkind, ← hfirst]
      exact (call_upsertEntity (by rw [AddAssertion.objectEntity, strip_strip]; exact hobject) hnan' _).2
    · rw [if_neg hkind, decide_eq_false hkind]
      exact hfirst

/-- `add_assertion` marks an entity with the roles it writes it in. -/
theorem marks_addAssertion (a : AddAssertion F) (id : Text) :
    Marks rt id (Graphs.addAssertion rt.toGraphRuntime a) (a.roles rt.toGraphRuntime id) := by
  intro g row hrow hnan
  rw [entities_addAssertion]
  unfold AddAssertion.roles
  by_cases hwritten : (a.complete && !rt.isNan a.observedAt) = true
  swap
  · rw [if_neg hwritten, if_neg hwritten]
    exact ⟨row, hrow, .refl hnan⟩
  rw [if_pos hwritten, if_pos hwritten]
  -- Each of the two writes marks the row if the entity is its own.
  have hwrite : ∀ (e : UpsertEntity F) (role : Text) (t : Table (KgEntity F) KgEntity.entityId)
      (row : KgEntity F), role ≠ [] → e.entityType = role → e.status = "active".toList →
        t.find? id = some row → rt.isNan row.confidence = false →
          ∃ row', (upsertRow rt.toGraphRuntime e t).find? id = some row' ∧
            Marked rt (if e.entityId rt.toGraphRuntime = id then [role] else []) row row' := by
    intro e role t row hrole htype hstatus hfind hnan
    rw [find?_upsertRow, hfind]
    split
    · exact ⟨_, rfl, marked_row hrole htype hstatus hnan⟩
    · exact ⟨row, rfl, .refl hnan⟩
  obtain ⟨row', hrow', hmarked⟩ := hwrite a.subjectEntity "subject".toList _ row (by decide) rfl rfl hrow hnan
  by_cases hkind : a.kind = "entity".toList
  · obtain ⟨row'', hrow'', hmarked'⟩ :=
      hwrite a.objectEntity "object".toList _ row' (by decide) rfl rfl hrow' hmarked.isNan
    rw [if_pos hkind, if_congr (and_iff_right hkind) rfl rfl]
    exact ⟨row'', hrow'', hmarked.trans hmarked'⟩
  · have hnone : (if a.kind = "entity".toList ∧ a.objectEntity.entityId rt.toGraphRuntime = id then
        ["object".toList] else []) = [] := if_neg fun h => hkind h.1
    rw [if_neg hkind, hnone, List.append_nil]
    exact ⟨row', hrow', hmarked⟩

theorem marks_indexMemory (m : IndexedFields F) (id : Text) (items : List (Json F)) :
    Marks rt id (forM items (Graphs.indexRelation rt.toGraphRuntime m))
      (relationRoles rt.toGraphRuntime m id items) := by
  induction items with
  | nil => exact fun g row hrow hnan => ⟨row, hrow, .refl hnan⟩
  | cons item items ih =>
    intro g row hrow hnan
    rw [List.forM_cons, relationRoles, after_bind, Graphs.indexRelation]
    cases hargs : assertionArgs rt.toGraphRuntime m item with
    | none => exact ⟨row, by simpa using hrow, .refl hnan⟩
    | some a =>
      obtain ⟨row', hrow', hmarked⟩ := marks_addAssertion a id g row hrow hnan
      simp only [Graphs.decides_addAssertion a g]
      by_cases haccepted : a.accepted rt.toGraphRuntime = true
      · rw [if_pos haccepted, if_pos haccepted]
        obtain ⟨row'', hrow'', hmarked'⟩ := ih _ row' hrow' hmarked.isNan
        exact ⟨row'', hrow'', hmarked.trans hmarked'⟩
      · rw [if_neg haccepted, if_neg haccepted, List.append_nil]
        exact ⟨row', hrow', hmarked⟩

/-- The roles do not depend on what a fact supersedes. -/
theorem roles_assertionArgs (row : FactRow F) (supersedes : List Text) (id : Text) :
    (row.assertionArgs supersedes).roles rt.toGraphRuntime id =
      (row.assertionArgs []).roles rt.toGraphRuntime id := by
  simp only [AddAssertion.roles, AddAssertion.complete, AddAssertion.kind, AddAssertion.subjectEntity,
    AddAssertion.objectEntity, FactRow.assertionArgs]
  rfl

theorem marks_call (c : IndexCall F) (id : Text) :
    Marks rt id (c.call rt.toGraphRuntime) (c.roles rt.toGraphRuntime id) := by
  cases c with
  | addAssertion a => exact marks_addAssertion a id
  | indexMemory m => exact marks_indexMemory m id m.relations
  | indexFact row =>
    intro g
    rw [IndexCall.call, Graphs.indexFact, after_reading, IndexCall.roles, ← roles_assertionArgs]
    exact marks_addAssertion _ id g

/-! ## Runs -/

theorem find?_set {g : Graphs F} {e : UpsertEntity F} {k : KnowledgeTables F}
    (hset : g.knowledge.upsertEntity rt.toGraphRuntime e = some k) :
    k.entities.find? (e.entityId rt.toGraphRuntime) = some (e.row rt.toGraphRuntime
      (g.knowledge.entities.find? (e.entityId rt.toGraphRuntime))) := by
  obtain ⟨-, hk⟩ := Option.ite_none_right_eq_some.mp hset
  obtain rfl := Option.some.inj hk
  exact find?_upsertRow.trans (if_pos rfl)

theorem isNan_set {g : Graphs F} {e : UpsertEntity F}
    (hstored : ∀ row ∈ g.knowledge.entities.rows, rt.isNan row.confidence = false) :
    rt.isNan (e.row rt.toGraphRuntime
      (g.knowledge.entities.find? (e.entityId rt.toGraphRuntime))).confidence = false := by
  have hclamp := rt.isNan_clamp e.confidence
  cases hold : g.knowledge.entities.find? (e.entityId rt.toGraphRuntime) with
  | none => exact hclamp
  | some old =>
    simp only [UpsertEntity.row, Option.elim_some, maxOf]
    split
    · exact hstored old (Table.find?_eq_some.mp hold).1
    · exact hclamp

theorem Marked.entityKept {row row' : KgEntity F} {g : Graphs F} (h : Marked rt [] row row')
    (hrow : g.knowledge.entities.find? row.entityId = some row') :
    EntityKept rt.toGraphRuntime row g :=
  ⟨row', hrow, h.entityType, h.status, h.aliases, h.sources, h.confidence⟩

/-- Roles that end with the type of an active entity leave it unmarked. -/
theorem Marked.of_last {row row' : KgEntity F} {roles : List Text} (h : Marked rt roles row row')
    (hlast : ∀ role ∈ roles.getLast?, role = row.entityType ∧ row.status = "active".toList) :
    Marked rt [] row row' := by
  cases hroles : roles.getLast? with
  | none =>
    obtain rfl := List.getLast?_eq_none_iff.mp hroles
    exact h
  | some role =>
    obtain ⟨htype, hstatus⟩ := hlast role hroles
    have hne : roles ≠ [] := fun hnil => by simp [hnil] at hroles
    have hentity := h.entityType
    have hactive := h.status
    rw [hroles, Option.getD_some, htype] at hentity
    rw [if_neg hne, ← hstatus] at hactive
    exact { h with entityType := hentity, status := hactive }

theorem Marked.last {row row' : KgEntity F} {roles : List Text} (h : Marked rt roles row row')
    (htype : row'.entityType = row.entityType) (hstatus : row'.status = row.status) :
    ∀ role ∈ roles.getLast?, role = row.entityType ∧ row.status = "active".toList := by
  intro role hrole
  have hne : roles ≠ [] := fun hnil => by simp [hnil] at hrole
  have hentity := h.entityType
  have hactive := h.status
  rw [Option.mem_def.mp hrole, Option.getD_some] at hentity
  rw [if_neg hne] at hactive
  exact ⟨hentity.symm.trans htype, hstatus.symm.trans hactive⟩

/-- A call that keeps an entity ends by giving it the type it has, or none. -/
theorem last_of_kept {g : Graphs F} {row row' : KgEntity F} {c : IndexCall F}
    (hrow : g.knowledge.entities.find? row.entityId = some row') (hmarked : Marked rt [] row row')
    (h : EntityKept rt.toGraphRuntime row (after (c.call rt.toGraphRuntime) g)) :
    ∀ role ∈ (c.roles rt.toGraphRuntime row.entityId).getLast?,
      role = row.entityType ∧ row.status = "active".toList := by
  obtain ⟨row'', hrow'', htype, hstatus, -⟩ := h
  obtain ⟨last, hlast, hmarked'⟩ := marks_call c row.entityId g row' hrow hmarked.isNan
  obtain rfl := Option.some.inj (hrow''.symm.trans hlast)
  exact (hmarked.trans hmarked').last htype hstatus

/-- In a run of calls that index, an entity that was set stays as it was set, but for what it
gains, exactly if no call ends by giving it another type or another status. -/
theorem entity_kept_iff {g : Graphs F} {e : UpsertEntity F} {k : KnowledgeTables F}
    (hset : g.knowledge.upsertEntity rt.toGraphRuntime e = some k)
    (hstored : ∀ row ∈ g.knowledge.entities.rows, rt.isNan row.confidence = false)
    (calls : List (IndexCall F)) :
    (∀ before later g', calls = before ++ later →
      run (indexStep rt.toGraphRuntime) { g with knowledge := k } before = some g' →
        EntityKept rt.toGraphRuntime (e.row rt.toGraphRuntime
          (g.knowledge.entities.find? (e.entityId rt.toGraphRuntime))) g') ↔
      ∀ c ∈ calls, c.Harmless rt.toGraphRuntime e := by
  have htotal : ∀ (s : Graphs F) (c : IndexCall F), ∃ s', indexStep rt.toGraphRuntime s c = some s' :=
    fun s c => ⟨_, rfl⟩
  have hrow := find?_set hset
  have hnan := isNan_set (e := e) hstored
  generalize hset' : e.row rt.toGraphRuntime
    (g.knowledge.entities.find? (e.entityId rt.toGraphRuntime)) = row at *
  have hid : row.entityId = e.entityId rt.toGraphRuntime := by rw [← hset']; rfl
  have htype : row.entityType = orText e.entityType "entity".toList := by rw [← hset']; rfl
  have hstatus : row.status = orText e.status "active".toList := by rw [← hset']; rfl
  have hharmless : ∀ c : IndexCall F, c.Harmless rt.toGraphRuntime e ↔
      ∀ role ∈ (c.roles rt.toGraphRuntime row.entityId).getLast?,
        role = row.entityType ∧ row.status = "active".toList := by
    intro c
    rw [IndexCall.Harmless, hid, htype, hstatus]
  rw [← guarded_iff_forall htotal]
  refine forall_holds_iff_guarded
    (I := fun g => ∃ row', g.knowledge.entities.find? row.entityId = some row' ∧ Marked rt [] row row')
    htotal ?_ ?_ ?_ ?_ calls
  · rintro g ⟨row', hrow', hmarked⟩
    exact hmarked.entityKept hrow'
  · rintro g c g' ⟨row', hrow', hmarked⟩ hc hstep
    obtain rfl := Option.some.inj hstep
    obtain ⟨row'', hrow'', hmarked'⟩ := marks_call c row.entityId g row' hrow' hmarked.isNan
    exact ⟨row'', hrow'', (hmarked.trans hmarked').of_last ((hharmless c).mp hc)⟩
  · rintro g c g' ⟨row', hrow', hmarked⟩ hstep hkept
    obtain rfl := Option.some.inj hstep
    exact (hharmless c).mpr (last_of_kept hrow' hmarked hkept)
  · exact ⟨row, by rw [hid]; exact hrow, .refl hnan⟩

end Facts

/-- The runtime of the examples with its order. -/
def sampleOrderedRuntime : OrderedRuntime SampleNumber where
  toGraphRuntime := sampleGraphRuntime
  le_total := by rintro (_ | _) (_ | _) _ _ <;> decide
  le_trans := by rintro (_ | _) (_ | _) (_ | _) <;> decide

/-- An entity that is set as a project. -/
def sampleProject : UpsertEntity SampleNumber :=
  ⟨"psi".toList, "project".toList, [], [], [], .one, .half, "active".toList⟩

/-- An assertion about it. -/
def aboutProject : AddAssertion SampleNumber where
  subject := "psi".toList
  predicate := "uses".toList
  object := "sqlite".toList
  sourceMemoryId := "m".toList
  scope := []
  objectKind := "literal".toList
  graphName := []
  factId := none
  validFrom := .null
  validTo := .null
  observedAt := .half
  confidence := .one
  status := "active".toList
  reason := []
  supersedes := []

/-- The runtime of the two. -/
abbrev sampleRuntime : GraphRuntime SampleNumber := sampleOrderedRuntime.toGraphRuntime

/-- The knowledge graph after the entity is set. -/
def projectSet : KnowledgeTables SampleNumber :=
  { KnowledgeTables.empty with entities := upsertRow sampleRuntime sampleProject Table.empty }

theorem upsertEntity_sampleProject :
    (Graphs.empty : Graphs SampleNumber).knowledge.upsertEntity sampleRuntime sampleProject =
      some projectSet :=
  @upsertEntity_eq _ sampleOrderedRuntime sampleProject (by decide) rfl KnowledgeTables.empty

theorem entity_kept_iff_project :
    (∀ before later g', [IndexCall.addAssertion aboutProject] = before ++ later →
      run (indexStep sampleRuntime) { (Graphs.empty : Graphs SampleNumber) with knowledge := projectSet }
        before = some g' →
          EntityKept sampleRuntime (sampleProject.row sampleRuntime
            ((Graphs.empty : Graphs SampleNumber).knowledge.entities.find?
              (sampleProject.entityId sampleRuntime))) g') ↔
      ∀ c ∈ [IndexCall.addAssertion aboutProject], c.Harmless sampleRuntime sampleProject :=
  @entity_kept_iff _ sampleOrderedRuntime Graphs.empty sampleProject projectSet upsertEntity_sampleProject
    nofun [.addAssertion aboutProject]

theorem roles_aboutProject : (IndexCall.addAssertion aboutProject).roles sampleRuntime
    (sampleProject.entityId sampleRuntime) = ["subject".toList] := by
  have hwritten : (aboutProject.complete && !sampleRuntime.isNan aboutProject.observedAt) = true := by
    decide
  have hkind : ¬ aboutProject.kind = "entity".toList := by decide
  have hsame : aboutProject.subjectEntity.entityId sampleRuntime =
      sampleProject.entityId sampleRuntime := by
    simp only [UpsertEntity.entityId, AddAssertion.subjectEntity, aboutProject, sampleProject, strip_strip]
  rw [IndexCall.roles, AddAssertion.roles, if_pos hwritten, if_pos hsame, if_neg fun h => hkind h.1,
    List.append_nil]

/-- An assertion about the project makes it a subject. -/
theorem project_made_subject :
    ¬ ∀ (g g' : Graphs SampleNumber) (e : UpsertEntity SampleNumber) (k : KnowledgeTables SampleNumber)
      (calls : List (IndexCall SampleNumber)),
      g.knowledge.upsertEntity sampleRuntime e = some k →
        run (indexStep sampleRuntime) { g with knowledge := k } calls = some g' →
          EntityKept sampleRuntime (e.row sampleRuntime
            (g.knowledge.entities.find? (e.entityId sampleRuntime))) g' := by
  intro h
  have hrun : run (indexStep sampleRuntime) { Graphs.empty with knowledge := projectSet }
      [.addAssertion aboutProject] = some (after ((IndexCall.addAssertion aboutProject).call sampleRuntime)
        { Graphs.empty with knowledge := projectSet }) := rfl
  have hkept := h Graphs.empty _ sampleProject projectSet _ upsertEntity_sampleProject hrun
  have hrow := find?_set upsertEntity_sampleProject
  have hnan : sampleRuntime.isNan (sampleProject.row sampleRuntime
      ((Graphs.empty : Graphs SampleNumber).knowledge.entities.find?
        (sampleProject.entityId sampleRuntime))).confidence = false := isNan_set nofun
  generalize hproject : sampleProject.row sampleRuntime
    ((Graphs.empty : Graphs SampleNumber).knowledge.entities.find?
      (sampleProject.entityId sampleRuntime)) = row at hkept hrow hnan
  have hid : row.entityId = sampleProject.entityId sampleRuntime := by rw [← hproject]; rfl
  have hentity : row.entityType = "project".toList := by rw [← hproject]; rfl
  rw [← hid] at hrow
  obtain ⟨htype, -⟩ := last_of_kept hrow (.refl hnan) hkept "subject".toList
    (by rw [hid, roles_aboutProject]; rfl)
  rw [hentity] at htype
  exact absurd htype (by decide)

end AgentMemory
