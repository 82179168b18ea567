import AgentMemory.Engine.TaskState
import AgentMemory.Lib.Runs

/-!
# Task checkpoints

What runs of `TaskStateStore.update` keep of the rows. An update reads the row under the id
as the caller spells it and saves it under the stripped id, so an update that does not find
the row it replaces begins a new state over it. `checkpoints_kept` says that all other
updates keep the checkpoints.
-/

namespace AgentMemory

open Dicts PyText JsonText

section Facts

variable {F V : Type} {o : Objects F V}

/-- The fields that stay what they are unless a patch has them. -/
def keptNames : List String := "objective" :: ListField.all.map ListField.name

/-- No list field is patched with a value, other than `None`, a text or a collection, whose
`str` is empty. -/
def UpdateCall.Texted (o : Objects F V) (c : UpdateCall F V) : Prop :=
  ∀ (f : ListField) (value : V), c.get f.name = some value → o.kind value = .other →
    o.str value ≠ some []

/-- The id has no white space around it, or no row is under the stripped id. -/
def UpdateCall.FindsRow (rows : TaskRows F) (c : UpdateCall F V) : Prop :=
  strip c.taskId = c.taskId ∨ rows.find? (strip c.taskId) = none

/-- What an update does to the rows. -/
def updateStep (o : Objects F V) (rows : TaskRows F) (c : UpdateCall F V) : Option (TaskRows F) :=
  some (TaskStateStore.update o c rows).2

/-- One update keeps the checkpoints: no stored sequence decreases, an update that raises
changes no row, and an accepted one keeps the fields that its patch does not have. -/
structure KeepsCheckpoints (o : Objects F V) (rows : TaskRows F) (c : UpdateCall F V) : Prop where
  monotone : ∀ id row, rows.find? id = some row →
    ∃ row', (TaskStateStore.update o c rows).2.find? id = some row' ∧
      row.checkpointSequence ≤ row'.checkpointSequence
  raising : ∀ e, (TaskStateStore.update o c rows).1 = .error e →
    (TaskStateStore.update o c rows).2 = rows
  kept : ∀ s, (TaskStateStore.update o c rows).1 = .ok s →
    ∀ row, rows.find? s.taskId = some row → ∀ name ∈ keptNames, c.get name = none →
      ∃ row', (TaskStateStore.update o c rows).2.find? s.taskId = some row' ∧
        field row'.stateJson name = field row.stateJson name

/-- A row as an update saves it. -/
def TaskRow.Saved (V : Type) (row : TaskRow F) : Prop :=
  ∃ (s : TaskState F V) (scope : List (Text × Json F)), row = s.row scope ∧ s.Normal ∧
    ∀ f, [] ∉ s.lists f

/-- Every row is as an update saves it. -/
def AllSaved (V : Type) (rows : TaskRows F) : Prop := ∀ row ∈ rows.rows, row.Saved V

variable {rows : TaskRows F} {c : UpdateCall F V}

/-- An update finds the row it replaces. -/
theorem find?_strip (hrows : AllSaved V rows) (hfinds : c.FindsRow rows) :
    rows.find? c.taskId = rows.find? (strip c.taskId) := by
  by_cases hstrip : strip c.taskId = c.taskId
  · rw [hstrip]
  · have hnone : rows.find? (strip c.taskId) = none := hfinds.resolve_left hstrip
    rw [hnone, Tables.Table.find?_eq_none]
    intro row hrow hkey
    obtain ⟨s, scope, rfl, hnormal, -⟩ := hrows row hrow
    have hid : s.taskId = c.taskId := hkey
    exact hstrip (hid ▸ hnormal.stripped)

theorem notMem_patchList {f : ListField} {old new : List Text} (htexted : c.Texted o)
    (hold : [] ∉ old) (h : c.patchList o f old = .ok new) : [] ∉ new := by
  unfold UpdateCall.patchList at h
  split at h
  · rwa [← Except.ok.inj h]
  · next value hvalue =>
    unfold stringList at h
    split at h
    · simp [← Except.ok.inj h]
    · rw [← Except.ok.inj h]
      split <;> simp_all [eq_comm]
    · obtain ⟨texts, -, h⟩ := bind_eq_ok.mp h
      simp [← Except.ok.inj h]
    · next hkind =>
      obtain ⟨text, htext, h⟩ := bind_eq_ok.mp h
      have hne := htexted f value hvalue hkind
      rw [orRaise_eq_ok] at htext
      rw [← Except.ok.inj h, List.mem_singleton]
      rintro rfl
      exact hne htext

/-- An accepted update on rows that are as updates save them. -/
theorem prepared_saved {s : TaskState F V} {saved : TaskRow F} (hrows : AllSaved V rows)
    (htexted : c.Texted o)
    (h : TaskStateStore.prepared o c (rows.find? c.taskId) = .ok (s, saved)) :
    saved.Saved V ∧ saved.taskId = s.taskId ∧ s.taskId = strip c.taskId := by
  cases hfound : rows.find? c.taskId with
  | none =>
    rw [hfound] at h
    obtain ⟨hnormal, htask, hid⟩ := TaskStateStore.prepared_none h
    obtain ⟨existing, scope, hexisting, hmerge, -, hrow⟩ := TaskStateStore.prepared_eq_ok h
    obtain rfl := Except.ok.inj hexisting
    obtain ⟨first, hfirst, hmerged, -⟩ := UpdateCall.merge_eq_ok hmerge
    obtain ⟨-, -, hempty⟩ := UpdateCall.start_none hfirst
    refine ⟨⟨s, scope, hrow, hnormal, fun f => ?_⟩, hid, htask⟩
    exact notMem_patchList htexted (by simp [hempty]) (hmerged.lists f)
  | some row =>
    obtain ⟨hmem, hkey⟩ := Tables.Table.find?_eq_some.mp hfound
    obtain ⟨old, oldScope, rfl, hold, -⟩ := hrows row hmem
    rw [hfound] at h
    obtain ⟨hkeeps, scope, -, rfl⟩ := TaskStateStore.prepared_some hold h
    have hid : old.taskId = c.taskId := hkey
    refine ⟨⟨s, scope, rfl, hkeeps.normal, fun f => ?_⟩, rfl, ?_⟩
    · exact notMem_patchList htexted (by simp) (hkeeps.lists f)
    · rw [hkeeps.taskId, ← hid, hold.stripped]

theorem allSaved_update (hrows : AllSaved V rows) (htexted : c.Texted o) :
    AllSaved V (TaskStateStore.update o c rows).2 := by
  unfold TaskStateStore.update
  split
  · next s saved h =>
    intro row hrow
    rcases Tables.Table.mem_upsert.mp hrow with rfl | ⟨hrow, -⟩
    · exact (prepared_saved hrows htexted h).1
    · exact hrows row hrow
  · exact hrows

/-- A saved row keeps the row it replaces. -/
theorem field_kept {old s : TaskState F V} {oldScope scope : List (Text × Json F)}
    (hold : ∀ f, [] ∉ old.lists f) (hkeeps : TaskStateStore.Keeps o c old oldScope s)
    {name : String} (hname : name ∈ keptNames) (hnone : c.get name = none) :
    field (s.toDict scope) name = field (old.toDict oldScope) name := by
  rcases List.mem_cons.mp hname with rfl | hname
  · have hobjective := hkeeps.texts .objective hnone
    rw [TextField.orDefault_objective, TextField.orDefault_objective] at hobjective
    have hnew := @TaskState.field_text _ _ s scope .objective
    have hwas := @TaskState.field_text _ _ old oldScope .objective
    rw [hobjective] at hnew
    exact hnew.trans hwas.symm
  · obtain ⟨f, -, rfl⟩ := List.mem_map.mp hname
    have hlist := hkeeps.lists f
    rw [UpdateCall.patchList, hnone, Except.ok.injEq] at hlist
    have hfull : (old.lists f).filter (· ≠ []) = old.lists f := by
      rw [List.filter_eq_self]
      intro text htext
      have hne : text ≠ [] := fun heq => hold f (heq ▸ htext)
      simp [hne]
    rw [TaskState.field_list, TaskState.field_list, ← hlist, hfull]

/-- The step lemma: an update that finds the row it replaces keeps the checkpoints. -/
theorem keepsCheckpoints_update (hrows : AllSaved V rows) (hfinds : c.FindsRow rows)
    (htexted : c.Texted o) : KeepsCheckpoints o rows c := by
  have hfind := find?_strip hrows hfinds
  cases hprepared : TaskStateStore.prepared o c (rows.find? c.taskId) with
  | error e =>
    have hupdate : TaskStateStore.update o c rows = (.error e, rows) := by
      rw [TaskStateStore.update, hprepared]
    constructor
    · intro id row hrow
      exact ⟨row, by rw [hupdate, hrow], le_refl _⟩
    · intro _ _
      rw [hupdate]
    · intro s hs
      rw [hupdate] at hs
      cases hs
  | ok result =>
    obtain ⟨s, saved⟩ := result
    have hupdate : TaskStateStore.update o c rows = (.ok s, rows.upsert saved) := by
      rw [TaskStateStore.update, hprepared]
    obtain ⟨-, hsavedId, htaskId⟩ := prepared_saved hrows htexted hprepared
    have hreplaced : ∀ row, rows.find? s.taskId = some row → ∃ old oldScope scope,
        row = TaskState.row old oldScope ∧ (∀ f, [] ∉ old.lists f) ∧
          TaskStateStore.Keeps o c old oldScope s ∧ saved = s.row scope := by
      intro row hrow
      rw [htaskId, ← hfind] at hrow
      obtain ⟨hmem, -⟩ := Tables.Table.find?_eq_some.mp hrow
      obtain ⟨old, oldScope, rfl, hold, hfull⟩ := hrows row hmem
      rw [hrow] at hprepared
      obtain ⟨hkeeps, scope, -, hsaved⟩ := TaskStateStore.prepared_some hold hprepared
      exact ⟨old, oldScope, scope, rfl, hfull, hkeeps, hsaved⟩
    constructor
    · intro id row hrow
      rw [hupdate, Tables.Table.find?_upsert]
      by_cases hid : saved.taskId = id
      · subst hid
        rw [hsavedId] at hrow
        obtain ⟨old, oldScope, scope, rfl, -, hkeeps, rfl⟩ := hreplaced row hrow
        exact ⟨s.row scope, if_pos rfl, hkeeps.sequence⟩
      · exact ⟨row, by rw [if_neg hid, hrow], le_refl _⟩
    · intro e he
      rw [hupdate] at he
      cases he
    · intro s' hs' row hrow name hname hnone
      rw [hupdate] at hs'
      obtain rfl := Except.ok.inj hs'
      obtain ⟨old, oldScope, scope, rfl, hfull, hkeeps, rfl⟩ := hreplaced row hrow
      refine ⟨s.row scope, ?_, field_kept hfull hkeeps hname hnone⟩
      rw [hupdate]
      exact Tables.Table.find?_upsert_self _ _

/-- In every run whose updates find the rows they replace, every update keeps the
checkpoints. -/
theorem checkpoints_kept (o : Objects F V) (calls : List (UpdateCall F V))
    (hguard : Runs.Guarded (updateStep o) (fun rows c => c.FindsRow rows ∧ c.Texted o)
      Tables.Table.empty calls) :
    Runs.Guarded (updateStep o) (KeepsCheckpoints o) Tables.Table.empty calls := by
  refine Runs.guarded_of_invariant (I := AllSaved V) ?_ ?_ ?_ hguard
  · rintro rows c rows' hrows ⟨-, htexted⟩ hstep
    obtain rfl := Option.some.inj hstep
    exact allSaved_update hrows htexted
  · rintro rows c hrows ⟨hfinds, htexted⟩
    exact keepsCheckpoints_update hrows hfinds htexted
  · simp [AllSaved, Tables.Table.empty]

end Facts

/-- A runtime whose values are JSON values and whose times are whole seconds. -/
def sampleObjects : Objects Nat (Json Nat) where
  zero := 0
  isZero x := x = 0
  repr
    | .int n => decimal n
    | .bool b => (if b then "True" else "False").toList
    | _ => []
  intOf
    | .float x => some x
    | .bool b => some b.toNat
    | _ => none
  floatOf
    | .int n => some n.toNat
    | _ => none
  kind
    | .null => .null
    | .str s => .text s
    | .arr items => .items items
    | _ => .other
  truthy
    | .null => some false
    | .bool b => some b
    | .int n => some (n ≠ 0)
    | .float x => some (x ≠ 0)
    | .str s => some (s ≠ [])
    | .arr items => some !items.isEmpty
    | .obj fields => some !fields.isEmpty
  str
    | .str s => some s
    | .int n => some (decimal n)
    | _ => none
  int
    | .int n => some n
    | _ => none
  dict
    | .obj d => some (.obj d)
    | _ => none
  dumps
    | .obj d => some d
    | _ => none
  ofDict := .obj
  dumps_ofDict _ := rfl

/-- `update(task_id, patch=patch)` at second 1. -/
def sampleUpdate (taskId : String) (patch : List (String × Json Nat)) : UpdateCall Nat (Json Nat) where
  taskId := taskId.toList
  scope := .null
  patch := ofPairs (patch.map fun kv => (kv.1.toList, kv.2))
  now _ := 1

/-- `update("t", patch={"objective": "ship", "checkpoint_sequence": 3})`. -/
def shipUpdate : UpdateCall Nat (Json Nat) :=
  sampleUpdate "t" [("objective", .str "ship".toList), ("checkpoint_sequence", .int 3)]

/-- `update(" t ", patch={"open_subtasks": ["next"]})`. -/
def spacedUpdate : UpdateCall Nat (Json Nat) :=
  sampleUpdate " t " [("open_subtasks", .arr [.str "next".toList])]

/-- `update("t", patch={"open_subtasks": ["next"]})`. -/
def nextUpdate : UpdateCall Nat (Json Nat) :=
  sampleUpdate "t" [("open_subtasks", .arr [.str "next".toList])]

theorem texted_shipUpdate : shipUpdate.Texted sampleObjects := by
  intro f value hvalue
  have hnone : shipUpdate.get f.name = none := by cases f <;> rfl
  rw [hnone] at hvalue
  cases hvalue

theorem texted_nextUpdate : nextUpdate.Texted sampleObjects := by
  intro f value hvalue hother
  have hlist : nextUpdate.get f.name = none ∨
      nextUpdate.get f.name = some (.arr [.str "next".toList]) := by
    cases f <;> first | exact Or.inl rfl | exact Or.inr rfl
  rcases hlist with hnone | hlist
  · rw [hnone] at hvalue
    cases hvalue
  · rw [hlist] at hvalue
    obtain rfl := Option.some.inj hvalue
    cases hother

theorem checkpoints_kept_ship :
    Runs.Guarded (updateStep sampleObjects) (KeepsCheckpoints sampleObjects) Tables.Table.empty
      [shipUpdate, nextUpdate] := by
  apply checkpoints_kept
  refine ⟨⟨Or.inl (by decide), texted_shipUpdate⟩, fun rows _ => ?_⟩
  exact ⟨⟨Or.inl (by decide), texted_nextUpdate⟩, fun _ _ => trivial⟩

/-- The second update begins a new state over the row of the first. -/
theorem checkpoint_reset_by_spaced_id :
    ¬ ∀ calls : List (UpdateCall Nat (Json Nat)),
      Runs.Guarded (updateStep sampleObjects) (KeepsCheckpoints sampleObjects) Tables.Table.empty
        calls := by
  intro h
  have hsecond := ((h [shipUpdate, spacedUpdate]).2 _ rfl).1
  have hthree : ((TaskStateStore.update sampleObjects shipUpdate Tables.Table.empty).2.find?
      "t".toList).map TaskRow.checkpointSequence = some 3 := by decide +kernel
  have hone : ((TaskStateStore.update sampleObjects spacedUpdate
      (TaskStateStore.update sampleObjects shipUpdate Tables.Table.empty).2).2.find?
        "t".toList).map TaskRow.checkpointSequence = some 1 := by decide +kernel
  obtain ⟨row, hrow, hseq⟩ := Option.map_eq_some_iff.mp hthree
  obtain ⟨row', hrow', hle⟩ := hsecond.monotone _ row hrow
  rw [hrow', Option.map_some, Option.some.injEq] at hone
  omega

end AgentMemory
