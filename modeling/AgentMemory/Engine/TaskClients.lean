import AgentMemory.Engine.Checkpoints

/-!
# Task updates of several clients

The updates of several `TaskStateStore` clients on one database, interleaved: an update
reads its row in one transaction (`get`) and writes the whole row in another (`_save`), and
any steps of other clients may lie between. `no_lost_update` says that nothing is lost in a
run in which each save replaces the row its update has read.
-/

namespace AgentMemory

open Dicts PyText JsonText

/-- An update between its `get` and its `_save`, with the row it selected. -/
structure PendingUpdate (F V : Type) where
  call : UpdateCall F V
  row : Option (TaskRow F)

/-- The database and, for each client, the update it is in. -/
structure TaskClients (κ F V : Type) where
  rows : TaskRows F
  pending : κ → Option (PendingUpdate F V)

/-- The steps of a client. -/
inductive ClientStep (κ F V : Type) where
  /-- `update` is called and selects its row. -/
  | get (client : κ) (call : UpdateCall F V)
  /-- `update` ends: it saves its row, or raises. -/
  | save (client : κ)
  /-- The database fails, and `update` raises. -/
  | fail (client : κ)

/-- What `get` reads of a field besides the id and the times. -/
inductive TaskField where
  | text (f : TextField)
  | list (f : ListField)
  | scope
  | sequence

section Model

variable {κ F V : Type} [DecidableEq κ] (o : Objects F V)

namespace TaskClients

def start (κ F V : Type) : TaskClients κ F V := ⟨Tables.Table.empty, fun _ => none⟩

def step (s : TaskClients κ F V) : ClientStep κ F V → Option (TaskClients κ F V)
  | .get client call =>
    match s.pending client with
    | some _ => none
    | none => some { s with
        pending := Function.update s.pending client (some ⟨call, s.rows.find? call.taskId⟩) }
  | .save client =>
    match s.pending client with
    | none => none
    | some p =>
      let rows := match TaskStateStore.prepared o p.call p.row with
        | .ok (_, saved) => s.rows.upsert saved
        | .error _ => s.rows
      some ⟨rows, Function.update s.pending client none⟩
  | .fail client =>
    match s.pending client with
    | none => none
    | some _ => some { s with pending := Function.update s.pending client none }

end TaskClients

/-- The value `get` reads of a field. -/
def TaskRow.held (now : F) (row : TaskRow F) (f : TaskField) : Except TaskError (Json F) := do
  let s : TaskState F V ← TaskState.fromDict o now row.stateJson
  match f with
  | .text f => .ok (.str (s.texts f))
  | .list f => .ok (.arr ((s.lists f).map Json.str))
  | .scope => do
    let scope ← orRaise (o.dumps s.scope)
    .ok (.obj scope)
  | .sequence => .ok (.int s.checkpointSequence)

/-- The value the patch gives a field, as `get` reads it. An empty checkpoint id is none: the
update makes one up. -/
def UpdateCall.given (c : UpdateCall F V) : TaskField → Except TaskError (Option (Json F))
  | .text f =>
    match c.get f.name with
    | none => .ok none
    | some value => do
      let text ← strOrEmpty o value
      .ok (if f = .checkpointId ∧ text = [] then none else some (.str (f.orDefault text)))
  | .list f =>
    match c.get f.name with
    | none => .ok none
    | some value => do
      let texts ← stringList o value
      .ok (some (.arr ((texts.filter (· ≠ [])).map Json.str)))
  | .scope =>
    match c.get "scope" with
    | none => .ok none
    | some value => do
      let dict ← dictOrEmpty o value
      let scope ← orRaise (o.dumps dict)
      .ok (some (.obj scope))
  | .sequence =>
    match c.get "checkpoint_sequence" with
    | none => .ok none
    | some value =>
      match o.kind value with
      | .null => .ok none
      | _ => do
        let requested ← orRaise (o.int value)
        .ok (some (.int (max 0 requested)))

/-- The fields an update sets: those of its patch, the scope also by an argument, and the
sequence always. -/
def UpdateCall.Sets (c : UpdateCall F V) : TaskField → Prop
  | .text f => c.get f.name ≠ none
  | .list f => c.get f.name ≠ none
  | .scope => c.get "scope" ≠ none ∨ o.truthy c.scope ≠ some false
  | .sequence => True

/-- The step is the `_save` of an accepted update, with the row it saves. -/
def Saves (s : TaskClients κ F V) (a : ClientStep κ F V) (p : PendingUpdate F V)
    (saved : TaskRow F) : Prop :=
  ∃ client state, a = .save client ∧ s.pending client = some p ∧
    TaskStateStore.prepared o p.call p.row = .ok (state, saved)

/-- A save replaces the row its update has read, or adds one where it has read none. -/
def Fresh (s : TaskClients κ F V) (a : ClientStep κ F V) : Prop :=
  ∀ p saved, Saves o s a p saved → s.rows.find? saved.taskId = p.row

/-- The step saves no update of this task that sets the field. -/
def Leaves (id : Text) (f : TaskField) (s : TaskClients κ F V) (a : ClientStep κ F V) : Prop :=
  ∀ p saved, Saves o s a p saved → saved.taskId = id → ¬ p.call.Sets o f

/-- No stored sequence is lower in the second state. -/
def SequencesKept (s s' : TaskClients κ F V) : Prop :=
  ∀ id row, s.rows.find? id = some row →
    ∃ row', s'.rows.find? id = some row' ∧ row.checkpointSequence ≤ row'.checkpointSequence

/-- No sequence decreases between two states of the run, and at its end every field in the
patch of an accepted update has the value it was given, unless an update accepted later set
it. -/
structure NoLostUpdate (acts : List (ClientStep κ F V)) : Prop where
  sequences : ∀ before after mid s, acts = before ++ after →
    Runs.run (TaskClients.step o) (TaskClients.start κ F V) before = some mid →
    Runs.run (TaskClients.step o) mid after = some s → SequencesKept mid s
  fields : ∀ before a after mid next s p saved f value, acts = before ++ a :: after →
    Runs.run (TaskClients.step o) (TaskClients.start κ F V) before = some mid →
    TaskClients.step o mid a = some next → Runs.run (TaskClients.step o) next after = some s →
    Saves o mid a p saved → p.call.given o f = .ok (some value) →
    Runs.Guarded (TaskClients.step o) (Leaves o saved.taskId f) next after →
    ∃ row, s.rows.find? saved.taskId = some row ∧ ∀ now, row.held o now f = .ok value

end Model

section Facts

variable {κ F V : Type} [DecidableEq κ] {o : Objects F V}

/-- Every row is that of a state as updates save them. -/
def AllNormal (V : Type) (rows : TaskRows F) : Prop :=
  ∀ row ∈ rows.rows, ∃ (s : TaskState F V) (scope : List (Text × Json F)),
    row = s.row scope ∧ s.Normal

/-- The value a saved state gives a field. -/
def TaskState.value (s : TaskState F V) (scope : List (Text × Json F)) : TaskField → Json F
  | .text f => .str (f.orDefault (s.texts f))
  | .list f => .arr (((s.lists f).filter (· ≠ [])).map Json.str)
  | .scope => .obj scope
  | .sequence => .int (max 0 s.checkpointSequence)

theorem held_row {s : TaskState F V} (h : s.Normal) (scope : List (Text × Json F)) (now : F)
    (f : TaskField) : (s.row scope).held o now f = .ok (s.value scope f) := by
  obtain ⟨loaded, hloaded, -, hscope, htexts, hlists, hseq⟩ :=
    @TaskState.Normal.fromDict_toDict _ _ o _ scope h now
  rw [TaskRow.held, TaskState.row, hloaded]
  cases f with
  | text f => simp [bind, Except.bind, TaskState.value, htexts]
  | list f => simp [bind, Except.bind, TaskState.value, hlists]
  | scope => simp [bind, Except.bind, TaskState.value, hscope, o.dumps_ofDict, orRaise]
  | sequence => simp [bind, Except.bind, TaskState.value, hseq]

/-- A field in the patch has the value it was given. -/
theorem value_given {c : UpdateCall F V} {first s : TaskState F V} {exists_ : Bool}
    {scope : List (Text × Json F)} (hmerged : UpdateCall.Merged o c first s)
    (hseq : c.sequence o exists_ first = .ok s.checkpointSequence)
    (hscope : o.dumps s.scope = some scope) {f : TaskField} {value : Json F}
    (hgiven : c.given o f = .ok (some value)) : s.value scope f = value := by
  cases f with
  | text f =>
    have hpatch := hmerged.texts f
    simp only [UpdateCall.given] at hgiven
    cases hget : c.get f.name with
    | none => simp [hget] at hgiven
    | some v =>
      rw [hget] at hgiven
      obtain ⟨text, htext, hgiven⟩ := bind_eq_ok.mp hgiven
      split at hgiven
      · cases hgiven
      · next hne =>
        obtain rfl := Option.some.inj (Except.ok.inj hgiven)
        have hnamed : text ≠ [] ∨ f ≠ .checkpointId := by tauto
        have hpatched : c.patchText o f (first.texts f) = .ok text := by
          simp only [UpdateCall.patchText, hget, htext]
        rw [TaskState.value, hpatch text hpatched hnamed]
  | list f =>
    have hpatch := hmerged.lists f
    simp only [UpdateCall.given] at hgiven
    cases hget : c.get f.name with
    | none => simp [hget] at hgiven
    | some v =>
      rw [hget] at hgiven
      obtain ⟨texts, htexts, hgiven⟩ := bind_eq_ok.mp hgiven
      obtain rfl := Option.some.inj (Except.ok.inj hgiven)
      simp only [UpdateCall.patchList, hget, htexts, Except.ok.injEq] at hpatch
      rw [TaskState.value, hpatch]
  | scope =>
    have hpatch := hmerged.scope
    simp only [UpdateCall.given] at hgiven
    cases hget : c.get "scope" with
    | none => simp [hget] at hgiven
    | some v =>
      rw [hget] at hgiven
      obtain ⟨dict, hdict, hgiven⟩ := bind_eq_ok.mp hgiven
      obtain ⟨dumped, hdumped, hgiven⟩ := bind_eq_ok.mp hgiven
      obtain rfl := Option.some.inj (Except.ok.inj hgiven)
      simp only [UpdateCall.patchScope, hget, hdict, Except.ok.injEq] at hpatch
      rw [orRaise_eq_ok, hpatch, hscope, Option.some.injEq] at hdumped
      rw [TaskState.value, hdumped]
  | sequence =>
    simp only [UpdateCall.given] at hgiven
    simp only [UpdateCall.sequence] at hseq
    cases hget : c.get "checkpoint_sequence" with
    | none => simp [hget] at hgiven
    | some v =>
      rw [hget] at hgiven hseq
      dsimp only at hgiven hseq
      split at hgiven
      · cases hgiven
      · next hkind =>
        obtain ⟨requested, hrequested, hgiven⟩ := bind_eq_ok.mp hgiven
        obtain rfl := Option.some.inj (Except.ok.inj hgiven)
        split at hseq
        · next hnull => exact absurd hnull hkind
        · rw [hrequested] at hseq
          simp only [bind, Except.bind] at hseq
          split at hseq
          · cases hseq
          · rw [TaskState.value, Except.ok.inj hseq]

/-- A field that an update does not set keeps its value. -/
theorem value_kept {c : UpdateCall F V} {old s : TaskState F V}
    {oldScope scope : List (Text × Json F)} (hkeeps : TaskStateStore.Keeps o c old oldScope s)
    (hscope : o.dumps s.scope = some scope) {f : TaskField} (hf : ¬ c.Sets o f) :
    s.value scope f = old.value oldScope f := by
  cases f with
  | text f =>
    have hnone : c.get f.name = none := not_not.mp hf
    rw [TaskState.value, TaskState.value, hkeeps.texts f hnone]
  | list f =>
    have hnone : c.get f.name = none := not_not.mp hf
    have hlist := hkeeps.lists f
    rw [UpdateCall.patchList, hnone, Except.ok.injEq] at hlist
    rw [TaskState.value, TaskState.value, ← hlist, List.filter_filter]
    simp
  | scope =>
    simp only [UpdateCall.Sets, not_or, not_not] at hf
    have hsame := hkeeps.scope hf.1 hf.2
    rw [hscope, Option.some.injEq] at hsame
    rw [TaskState.value, TaskState.value, hsame]
  | sequence => exact absurd trivial hf

/-- What a fresh save does to the rows. -/
structure SavesOver (o : Objects F V) (s s' : TaskClients κ F V) (c : UpdateCall F V)
    (saved : TaskRow F) : Prop where
  rows : s'.rows = s.rows.upsert saved
  normal : ∃ (state : TaskState F V) (scope : List (Text × Json F)),
    saved = state.row scope ∧ state.Normal
  sequence : ∀ row, s.rows.find? saved.taskId = some row →
    row.checkpointSequence ≤ saved.checkpointSequence
  kept : ∀ row f, s.rows.find? saved.taskId = some row → ¬ c.Sets o f →
    ∀ now, saved.held o now f = row.held o now f
  given : ∀ f value, c.given o f = .ok (some value) → ∀ now, saved.held o now f = .ok value

/-- The step lemma: a step leaves the rows as they are or saves an update over the row it
has read. -/
theorem TaskClients.step_cases {s s' : TaskClients κ F V} {a : ClientStep κ F V} (hrows : AllNormal V s.rows)
    (hfresh : Fresh o s a) (hstep : TaskClients.step o s a = some s') :
    (s'.rows = s.rows ∧ ∀ p saved, ¬ Saves o s a p saved) ∨
      ∃ p saved, Saves o s a p saved ∧ SavesOver o s s' p.call saved := by
  cases a with
  | get client call =>
    left
    simp only [TaskClients.step] at hstep
    split at hstep
    · cases hstep
    · obtain rfl := Option.some.inj hstep
      refine ⟨rfl, ?_⟩
      rintro p saved ⟨_, _, ha, -⟩
      cases ha
  | fail client =>
    left
    simp only [TaskClients.step] at hstep
    split at hstep
    · cases hstep
    · obtain rfl := Option.some.inj hstep
      refine ⟨rfl, ?_⟩
      rintro p saved ⟨_, _, ha, -⟩
      cases ha
  | save client =>
    simp only [TaskClients.step] at hstep
    split at hstep
    · cases hstep
    · next p hp =>
      cases hprepared : TaskStateStore.prepared o p.call p.row with
      | error e =>
        rw [hprepared] at hstep
        obtain rfl := Option.some.inj hstep
        refine Or.inl ⟨rfl, ?_⟩
        rintro p' saved ⟨_, state, ha, hp', hsaved⟩
        cases ha
        obtain rfl := Option.some.inj (hp.symm.trans hp')
        simp [hprepared] at hsaved
      | ok result =>
        obtain ⟨state, saved⟩ := result
        rw [hprepared] at hstep
        obtain rfl := Option.some.inj hstep
        have hsaves : Saves o s (.save client) p saved := ⟨client, state, rfl, hp, hprepared⟩
        have hread := hfresh p saved hsaves
        refine Or.inr ⟨p, saved, hsaves, ?_⟩
        obtain ⟨existing, scope, -, hmerge, hscope, rfl⟩ := TaskStateStore.prepared_eq_ok hprepared
        obtain ⟨first, -, hmerged, hseq⟩ := UpdateCall.merge_eq_ok hmerge
        have hgiven : state.Normal → ∀ f value, p.call.given o f = .ok (some value) →
            ∀ now, (state.row scope).held o now f = .ok value := by
          intro hnormal f value hvalue now
          rw [held_row hnormal, value_given hmerged hseq hscope hvalue]
        cases hrow : p.row with
        | none =>
          rw [hrow] at hprepared hread
          obtain ⟨hnormal, -, -⟩ := TaskStateStore.prepared_none hprepared
          exact ⟨rfl, ⟨state, scope, rfl, hnormal⟩, by simp [hread], by simp [hread],
            hgiven hnormal⟩
        | some row =>
          rw [hrow] at hprepared hread
          obtain ⟨hmem, -⟩ := Tables.Table.find?_eq_some.mp hread
          obtain ⟨old, oldScope, rfl, hold⟩ := hrows row hmem
          obtain ⟨hkeeps, -⟩ := TaskStateStore.prepared_some hold hprepared
          refine ⟨rfl, ⟨state, scope, rfl, hkeeps.normal⟩, ?_, ?_, hgiven hkeeps.normal⟩
          · intro row hfound
            obtain rfl := Option.some.inj (hread.symm.trans hfound)
            exact hkeeps.sequence
          · intro row f hfound hf now
            obtain rfl := Option.some.inj (hread.symm.trans hfound)
            rw [held_row hkeeps.normal, held_row hold, value_kept hkeeps hscope hf]

theorem allNormal_step {s s' : TaskClients κ F V} {a : ClientStep κ F V}
    (hrows : AllNormal V s.rows) (hfresh : Fresh o s a)
    (hstep : TaskClients.step o s a = some s') : AllNormal V s'.rows := by
  rcases TaskClients.step_cases hrows hfresh hstep with ⟨hsame, -⟩ | ⟨p, saved, -, hover⟩
  · rwa [hsame]
  · rw [hover.rows]
    intro row hrow
    rcases Tables.Table.mem_upsert.mp hrow with rfl | ⟨hrow, -⟩
    · exact hover.normal
    · exact hrows row hrow

theorem sequencesKept_step {s s' : TaskClients κ F V} {a : ClientStep κ F V}
    (hrows : AllNormal V s.rows) (hfresh : Fresh o s a)
    (hstep : TaskClients.step o s a = some s') : SequencesKept s s' := by
  intro id row hrow
  rcases TaskClients.step_cases hrows hfresh hstep with ⟨hsame, -⟩ | ⟨p, saved, -, hover⟩
  · exact ⟨row, by rw [hsame, hrow], le_refl _⟩
  · rw [hover.rows, Tables.Table.find?_upsert]
    by_cases hid : saved.taskId = id
    · subst hid
      exact ⟨saved, if_pos rfl, hover.sequence row hrow⟩
    · exact ⟨row, by rw [if_neg hid, hrow], le_refl _⟩

/-- A step that does not set the field of the task leaves its value. -/
theorem held_step {s s' : TaskClients κ F V} {a : ClientStep κ F V} {id : Text} {f : TaskField}
    {value : Json F} (hrows : AllNormal V s.rows) (hfresh : Fresh o s a)
    (hleaves : Leaves o id f s a) (hstep : TaskClients.step o s a = some s')
    (hheld : ∃ row, s.rows.find? id = some row ∧ ∀ now, row.held o now f = .ok value) :
    ∃ row, s'.rows.find? id = some row ∧ ∀ now, row.held o now f = .ok value := by
  obtain ⟨row, hrow, hvalue⟩ := hheld
  rcases TaskClients.step_cases hrows hfresh hstep with ⟨hsame, -⟩ | ⟨p, saved, hsaves, hover⟩
  · exact ⟨row, by rw [hsame, hrow], hvalue⟩
  · rw [hover.rows, Tables.Table.find?_upsert]
    by_cases hid : saved.taskId = id
    · subst hid
      refine ⟨saved, if_pos rfl, fun now => ?_⟩
      rw [hover.kept row f hrow (hleaves p saved hsaves rfl) now, hvalue now]
    · exact ⟨row, by rw [if_neg hid, hrow], hvalue⟩

omit [DecidableEq κ] in
theorem allNormal_start : AllNormal V (TaskClients.start κ F V).rows := by
  simp [AllNormal, TaskClients.start, Tables.Table.empty]

omit [DecidableEq κ] in
/-- A save right after its own read is fresh. -/
theorem fresh_save {s : TaskClients κ F V} {client : κ} {p : PendingUpdate F V}
    (hrows : AllNormal V s.rows) (hp : s.pending client = some p)
    (hread : p.row = s.rows.find? p.call.taskId) (hstrip : strip p.call.taskId = p.call.taskId) :
    Fresh o s (.save client) := by
  rintro p' saved ⟨client', state, ha, hp', hprepared⟩
  cases ha
  obtain rfl := Option.some.inj (hp.symm.trans hp')
  have hid : saved.taskId = p.call.taskId := by
    cases hrow : p.row with
    | none =>
      rw [hrow] at hprepared
      obtain ⟨-, htask, hsaved⟩ := TaskStateStore.prepared_none hprepared
      rw [hsaved, htask, hstrip]
    | some row =>
      obtain ⟨hmem, hkey⟩ := Tables.Table.find?_eq_some.mp (hread.symm.trans hrow)
      obtain ⟨old, oldScope, rfl, hold⟩ := hrows row hmem
      rw [hrow] at hprepared
      obtain ⟨hkeeps, scope, -, rfl⟩ := TaskStateStore.prepared_some hold hprepared
      exact hkeeps.taskId.trans hkey
  rw [hid, hread]

/-- In every run in which each save replaces the row its update has read, no update is lost. -/
theorem no_lost_update (o : Objects F V) (acts : List (ClientStep κ F V))
    (hguard : Runs.Guarded (TaskClients.step o) (Fresh o) (TaskClients.start κ F V) acts) :
    NoLostUpdate o acts := by
  constructor
  · rintro before after mid s rfl hbefore hafter
    obtain ⟨hfirst, hlast⟩ := Runs.guarded_append hbefore hguard
    have hmid : AllNormal V mid.rows := Runs.run_invariant (I := fun s => AllNormal V s.rows)
      (fun _ _ _ hrows hfresh hstep => allNormal_step hrows hfresh hstep) allNormal_start hfirst
      hbefore
    have hkept : AllNormal V s.rows ∧ SequencesKept mid s := by
      refine Runs.run_invariant (I := fun s => AllNormal V s.rows ∧ SequencesKept mid s) ?_ ?_
        hlast hafter
      · rintro s a s' ⟨hrows, hkept⟩ hfresh hstep
        refine ⟨allNormal_step hrows hfresh hstep, fun id row hrow => ?_⟩
        obtain ⟨row', hrow', hle⟩ := hkept id row hrow
        obtain ⟨row'', hrow'', hle'⟩ := sequencesKept_step hrows hfresh hstep id row' hrow'
        exact ⟨row'', hrow'', le_trans hle hle'⟩
      · exact ⟨hmid, fun _ row hrow => ⟨row, hrow, le_refl _⟩⟩
    exact hkept.2
  · rintro before a after mid next s p saved f value rfl hbefore hstep hafter hsaves hgiven hleaves
    obtain ⟨hfirst, hfresh, hlast⟩ := Runs.guarded_append hbefore hguard
    have hmid : AllNormal V mid.rows := Runs.run_invariant (I := fun s => AllNormal V s.rows)
      (fun _ _ _ hrows hfresh hstep => allNormal_step hrows hfresh hstep) allNormal_start hfirst
      hbefore
    have hheld : ∃ row, next.rows.find? saved.taskId = some row ∧
        ∀ now, row.held o now f = .ok value := by
      rcases TaskClients.step_cases hmid hfresh hstep with ⟨-, hnone⟩ | ⟨p', saved', hsaves', hover⟩
      · exact absurd hsaves (hnone p saved)
      · obtain ⟨client, state, rfl, hp, hprepared⟩ := hsaves
        obtain ⟨client', state', ha, hp', hprepared'⟩ := hsaves'
        cases ha
        obtain rfl := Option.some.inj (hp.symm.trans hp')
        obtain ⟨-, rfl⟩ := Prod.mk.inj (Except.ok.inj (hprepared.symm.trans hprepared'))
        rw [hover.rows]
        exact ⟨saved, Tables.Table.find?_upsert_self _ _, hover.given f value hgiven⟩
    have hend : AllNormal V s.rows ∧ ∃ row, s.rows.find? saved.taskId = some row ∧
        ∀ now, row.held o now f = .ok value := by
      refine Runs.run_invariant (I := fun s => AllNormal V s.rows ∧
        ∃ row, s.rows.find? saved.taskId = some row ∧ ∀ now, row.held o now f = .ok value) ?_
        ⟨allNormal_step hmid hfresh hstep, hheld⟩ (Runs.guarded_and (hlast next hstep) hleaves)
        hafter
      rintro s a s' ⟨hrows, hheld⟩ ⟨hfresh, hleave⟩ hstep
      exact ⟨allNormal_step hrows hfresh hstep, held_step hrows hfresh hleave hstep hheld⟩
    exact hend.2

end Facts

/-- Client `true` updates the task after client `false`. -/
theorem no_lost_update_inTurn :
    NoLostUpdate sampleObjects
      [ClientStep.get false shipUpdate, .save false, .get true nextUpdate, .save true] := by
  apply no_lost_update
  have hget : ∀ (s : TaskClients Bool Nat (Json Nat)) client call,
      Fresh sampleObjects s (.get client call) := by
    rintro s client call p saved ⟨_, _, ha, -⟩
    cases ha
  have hsave : ∀ (s s' : TaskClients Bool Nat (Json Nat)) client call, AllNormal (Json Nat) s.rows →
      strip call.taskId = call.taskId → TaskClients.step sampleObjects s (.get client call) = some s' →
      AllNormal (Json Nat) s'.rows ∧ Fresh sampleObjects s' (.save client) := by
    intro s s' client call hrows hstrip hstep
    have hrows' := allNormal_step hrows (hget s client call) hstep
    simp only [TaskClients.step] at hstep
    split at hstep
    · cases hstep
    · obtain rfl := Option.some.inj hstep
      exact ⟨hrows', fresh_save hrows' (Function.update_self _ _ _) rfl hstrip⟩
  refine ⟨hget _ _ _, fun first hfirst => ?_⟩
  obtain ⟨hnormal, hfresh⟩ := hsave _ _ _ _ allNormal_start (by decide) hfirst
  refine ⟨hfresh, fun second hsecond => ⟨hget _ _ _, fun third hthird => ?_⟩⟩
  have hnormal' := allNormal_step hnormal hfresh hsecond
  exact ⟨(hsave _ _ _ _ hnormal' (by decide) hthird).2, fun _ _ => trivial⟩

/-- Both clients read before the first one saves. -/
def overlappingReads : List (ClientStep Bool Nat (Json Nat)) :=
  [.get false shipUpdate, .get true nextUpdate, .save false]

/-- The second client saves a state without the row of the first. -/
theorem update_lost_between_clients :
    ¬ ∀ acts : List (ClientStep Bool Nat (Json Nat)), NoLostUpdate sampleObjects acts := by
  intro h
  have hmid : ((Runs.run (TaskClients.step sampleObjects) (TaskClients.start Bool Nat (Json Nat))
      overlappingReads).bind fun s => s.rows.find? "t".toList).map TaskRow.checkpointSequence =
        some 3 := by decide +kernel
  have hend : ((Runs.run (TaskClients.step sampleObjects) (TaskClients.start Bool Nat (Json Nat))
      (overlappingReads ++ [.save true])).bind fun s => s.rows.find? "t".toList).map
        TaskRow.checkpointSequence = some 1 := by decide +kernel
  obtain ⟨row, hrow, hthree⟩ := Option.map_eq_some_iff.mp hmid
  obtain ⟨mid, hbefore, hrow⟩ := Option.bind_eq_some_iff.mp hrow
  obtain ⟨row', hrow', hone⟩ := Option.map_eq_some_iff.mp hend
  obtain ⟨s, hrun, hrow'⟩ := Option.bind_eq_some_iff.mp hrow'
  obtain ⟨mid', hbefore', hafter⟩ := Runs.run_append.mp hrun
  obtain rfl := Option.some.inj (hbefore.symm.trans hbefore')
  obtain ⟨row'', hrow'', hle⟩ := (h _).sequences _ _ mid s rfl hbefore hafter _ row hrow
  obtain rfl := Option.some.inj (hrow'.symm.trans hrow'')
  omega

end AgentMemory
