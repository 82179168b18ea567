import AgentMemory.Engine.Checkpoints
import AgentMemory.Lib.JsonRead

/-!
# Automatic checkpoint ids

`TaskStateStore.update` names a checkpoint by its sequence where the state has no id yet. A
state that is read back has the id it was saved with, so an update that advances the sequence
keeps the id of the checkpoint before it. `checkpoint_ids_follow_iff` says which runs of
updates without an id of their own have an id for each sequence.
-/

namespace AgentMemory

open Dicts PyText JsonText

/-- An update without a checkpoint id of its own: its patch has none or an empty one. -/
structure AutomaticUpdate {F V : Type} (o : Objects F V) extends UpdateCall F V where
  automatic : ∀ value text, toUpdateCall.get "checkpoint_id" = some value →
    strOrEmpty o value = .ok text → text = []

/-- The rows, and the states that were stored so far. -/
structure TaskHistory (F V : Type) where
  rows : TaskRows F
  stored : List (TaskState F V)

section Model

variable {F V : Type} (o : Objects F V)

def TaskHistory.empty : TaskHistory F V := ⟨Tables.Table.empty, []⟩

/-- What an update adds to the history. -/
def recordStep (history : TaskHistory F V) (c : AutomaticUpdate o) : Option (TaskHistory F V) :=
  some <| match TaskStateStore.update o c.toUpdateCall history.rows with
    | (.ok s, rows) => ⟨rows, history.stored ++ [s]⟩
    | (.error _, rows) => ⟨rows, history.stored⟩

/-- `f"ckpt_{checkpoint_sequence}"`. -/
def automaticId (sequence : Int) : Text := "ckpt_".toList ++ decimal sequence

/-- States of one task with different sequences have different checkpoint ids. -/
def IdsFollow (stored : List (TaskState F V)) : Prop :=
  ∀ s ∈ stored, ∀ s' ∈ stored, s.taskId = s'.taskId → s.checkpointSequence ≠ s'.checkpointSequence →
    s.texts .checkpointId ≠ s'.texts .checkpointId

/-- The patch asks for the sequence. -/
def UpdateCall.Requests (c : UpdateCall F V) (sequence : Int) : Prop :=
  ∃ value, c.get "checkpoint_sequence" = some value ∧ o.kind value ≠ .null ∧ o.int value = some sequence

/-- A row that the update finds loses its checkpoint id or keeps its sequence. -/
def UpdateCall.FollowsSequence (rows : TaskRows F) (c : UpdateCall F V) : Prop :=
  ∀ row, rows.find? c.taskId = some row →
    c.get "checkpoint_id" ≠ none ∨ c.Requests o row.checkpointSequence

/-- The update follows the sequence, or it raises and stores nothing. -/
def AutomaticUpdate.FollowsOrRaises (history : TaskHistory F V) (c : AutomaticUpdate o) : Prop :=
  (∃ e, (TaskStateStore.update o c.toUpdateCall history.rows).1 = .error e) ∨
    c.FollowsSequence o history.rows

/-- Each row is a state that was stored, and each stored state is named by its sequence. -/
structure TaskHistory.Named (history : TaskHistory F V) : Prop where
  rows : ∀ row ∈ history.rows.rows, ∃ s ∈ history.stored, s.Normal ∧ ∃ scope, row = s.row scope
  ids : ∀ s ∈ history.stored, s.texts .checkpointId = automaticId s.checkpointSequence

end Model

theorem automaticId_injective : Function.Injective automaticId := by
  intro m n h
  have hdecimal := List.append_cancel_left h
  rw [← intOf_decimal m, hdecimal, intOf_decimal]

section Facts

variable {F V : Type} {o : Objects F V}

namespace UpdateCall

variable {c : UpdateCall F V} {existing : Option (TaskState F V)} {first s : TaskState F V}

/-- How a merge names the checkpoint. -/
theorem merge_checkpointId (h : c.merge o existing = .ok s) : ∃ first text,
    c.start o existing = .ok first ∧ c.sequence o existing.isSome first = .ok s.checkpointSequence ∧
      c.patchText o .checkpointId (first.texts .checkpointId) = .ok text ∧
      s.texts .checkpointId = if text = [] then automaticId s.checkpointSequence else text := by
  simp only [merge, bind_eq_ok] at h
  obtain ⟨first, hfirst, seq, hseq, texts, htexts, lists, -, scope, -, h⟩ := h
  obtain rfl := Except.ok.inj h
  have hpatched := (setEach_eq_ok TextField.nodup_all htexts).1 .checkpointId (TextField.mem_all _)
  let merged : TaskState F V := { first with
    scope := scope
    texts := texts
    lists := lists
    checkpointSequence := seq }
  have hsequence : (named merged).checkpointSequence = seq := (named_eq merged).2.2.2
  have hid : (named merged).texts .checkpointId =
      if texts .checkpointId = [] then automaticId seq else texts .checkpointId := by
    unfold named
    by_cases hempty : texts .checkpointId = [] <;> simp [merged, hempty, automaticId]
  refine ⟨first, texts .checkpointId, hfirst, ?_, hpatched, ?_⟩
  · rw [hseq]
    exact congrArg Except.ok hsequence.symm
  · show (named merged).texts .checkpointId =
      if texts .checkpointId = [] then automaticId (named merged).checkpointSequence else texts .checkpointId
    rw [hid, hsequence]

/-- The sequence of a row stays what it is exactly where the patch asks for it. -/
theorem sequence_eq_iff {seq n : Int} (h : c.sequence o true first = .ok seq)
    (hfirst : first.checkpointSequence = max 0 n) : seq = n ↔ c.Requests o n := by
  simp only [sequence] at h
  split at h
  · next hnone =>
    obtain rfl := Except.ok.inj h
    refine iff_of_false (by omega) ?_
    rintro ⟨value, hvalue, -⟩
    rw [hnone] at hvalue
    cases hvalue
  · next value hvalue =>
    have hrequests : c.Requests o n ↔ o.kind value ≠ .null ∧ o.int value = some n := by
      simp [Requests, hvalue]
    rw [hrequests]
    split at h
    · next hnull =>
      obtain rfl := Except.ok.inj h
      exact iff_of_false (by omega) fun hrequest => hrequest.1 hnull
    · next hkind =>
      simp only [bind_eq_ok, orRaise_eq_ok] at h
      obtain ⟨requested, hrequested, h⟩ := h
      split at h
      · cases h
      · obtain rfl := Except.ok.inj h
        simpa [hrequested] using fun _ => hkind

end UpdateCall

namespace AutomaticUpdate

variable {c : AutomaticUpdate o} {s : TaskState F V} {saved : TaskRow F}

/-- What an update without an id of its own makes of an id. -/
theorem patchText_eq {old text : Text} (h : c.patchText o .checkpointId old = .ok text) :
    text = if c.get "checkpoint_id" = none then old else [] := by
  unfold UpdateCall.patchText at h
  split at h
  · next hnone =>
    have hmissing : c.get "checkpoint_id" = none := hnone
    rw [if_pos hmissing]
    exact (Except.ok.inj h).symm
  · next value hvalue =>
    have hsome : c.get "checkpoint_id" = some value := hvalue
    rw [if_neg (by simp [hsome])]
    exact c.automatic value text hsome h

/-- A new state is named by its sequence. -/
theorem id_of_prepared_none (h : TaskStateStore.prepared o c.toUpdateCall none = .ok (s, saved)) :
    s.texts .checkpointId = automaticId s.checkpointSequence := by
  obtain ⟨existing, scope, hexisting, hmerge, -, -⟩ := TaskStateStore.prepared_eq_ok h
  obtain rfl := Except.ok.inj hexisting
  obtain ⟨first, text, hfirst, -, htext, hid⟩ := UpdateCall.merge_checkpointId hmerge
  simp only [UpdateCall.start, bind_eq_ok] at hfirst
  obtain ⟨_, -, hfirst⟩ := hfirst
  obtain ⟨-, -, -, htexts, -⟩ := TaskState.postInit_eq_ok hfirst
  have hempty : first.texts .checkpointId = [] := htexts .checkpointId
  have hnil := patchText_eq htext
  rw [hempty, ite_self] at hnil
  rw [hid, if_pos hnil]

/-- A state over a row keeps the id of the row, or is named by its sequence. -/
theorem id_of_prepared_some {old : TaskState F V} {oldScope : List (Text × Json F)} (hold : old.Normal)
    (h : TaskStateStore.prepared o c.toUpdateCall (some (old.row oldScope)) = .ok (s, saved)) :
    s.texts .checkpointId = (if c.get "checkpoint_id" = none then old.texts .checkpointId
      else automaticId s.checkpointSequence) ∧
    (s.checkpointSequence = old.checkpointSequence ↔ c.Requests o old.checkpointSequence) := by
  obtain ⟨existing, scope, hexisting, hmerge, -, -⟩ := TaskStateStore.prepared_eq_ok h
  obtain ⟨read, hread, -, -, hreadTexts, -, hreadSeq⟩ :=
    @TaskState.Normal.fromDict_toDict _ _ o _ oldScope hold (c.now 0)
  obtain rfl : some read = existing := by
    rw [TaskStateStore.loaded, TaskState.row, hread] at hexisting
    exact Except.ok.inj hexisting
  obtain ⟨first, text, hfirst, hseq, htext, hid⟩ := UpdateCall.merge_checkpointId hmerge
  obtain ⟨-, -, htexts, -, hfirstSeq, -⟩ := UpdateCall.start_some hfirst
  have hsame : first.texts .checkpointId = old.texts .checkpointId := by
    rw [htexts, hreadTexts, TextField.orDefault_orDefault, TextField.orDefault, if_neg hold.named]
  have hmax : first.checkpointSequence = max 0 old.checkpointSequence := by omega
  refine ⟨?_, UpdateCall.sequence_eq_iff hseq hmax⟩
  have hcases := patchText_eq htext
  rw [hsame] at hcases
  rw [hid, hcases]
  by_cases hnone : c.get "checkpoint_id" = none <;> simp [hnone, hold.named]

end AutomaticUpdate

namespace TaskHistory

variable {history : TaskHistory F V} {c : AutomaticUpdate o} {s : TaskState F V} {saved : TaskRow F}

/-- The step lemma: what an accepted update stores is named by its sequence, or it has the id of a stored state of the
task with another sequence. -/
theorem Named.stored (h : history.Named)
    (hprepared : TaskStateStore.prepared o c.toUpdateCall (history.rows.find? c.taskId) = .ok (s, saved)) :
    s.Normal ∧ (∃ scope, saved = s.row scope) ∧
      (c.FollowsSequence o history.rows → s.texts .checkpointId = automaticId s.checkpointSequence) ∧
      (¬ c.FollowsSequence o history.rows → ∃ old ∈ history.stored, old.taskId = s.taskId ∧
        old.checkpointSequence ≠ s.checkpointSequence ∧ old.texts .checkpointId = s.texts .checkpointId) := by
  cases hfound : history.rows.find? c.taskId with
  | none =>
    rw [hfound] at hprepared
    obtain ⟨hnormal, -, -⟩ := TaskStateStore.prepared_none hprepared
    obtain ⟨-, scope, -, -, -, hsaved⟩ := TaskStateStore.prepared_eq_ok hprepared
    have hfollows : c.FollowsSequence o history.rows := by
      intro row hrow
      rw [hfound] at hrow
      cases hrow
    exact ⟨hnormal, ⟨scope, hsaved⟩, fun _ => AutomaticUpdate.id_of_prepared_none hprepared,
      fun hnot => absurd hfollows hnot⟩
  | some row =>
    obtain ⟨hmem, -⟩ := Tables.Table.find?_eq_some.mp hfound
    obtain ⟨old, holdMem, hold, oldScope, rfl⟩ := h.rows row hmem
    rw [hfound] at hprepared
    obtain ⟨hkeeps, scope, -, hsaved⟩ := TaskStateStore.prepared_some hold hprepared
    obtain ⟨hid, hsequence⟩ := AutomaticUpdate.id_of_prepared_some hold hprepared
    have hfollows : c.FollowsSequence o history.rows ↔
        c.get "checkpoint_id" ≠ none ∨ c.Requests o old.checkpointSequence := by
      simp only [UpdateCall.FollowsSequence, hfound, Option.some.injEq, forall_eq']
      rfl
    refine ⟨hkeeps.normal, ⟨scope, hsaved⟩, fun hyes => ?_, fun hno => ?_⟩
    · by_cases hnone : c.get "checkpoint_id" = none
      · have hrequests := (hfollows.mp hyes).resolve_left (not_not_intro hnone)
        rw [hid, if_pos hnone, h.ids old holdMem, hsequence.mpr hrequests]
      · rw [hid, if_neg hnone]
    · rw [hfollows, not_or, not_not] at hno
      obtain ⟨hnone, hrequests⟩ := hno
      refine ⟨old, holdMem, hkeeps.taskId.symm, fun heq => hrequests (hsequence.mp heq.symm), ?_⟩
      rw [hid, if_pos hnone]

/-- In a history that is named by the sequences, ids follow them. -/
theorem Named.idsFollow (h : history.Named) : IdsFollow history.stored := by
  intro s hs s' hs' _ hne hid
  rw [h.ids s hs, h.ids s' hs'] at hid
  exact hne (automaticId_injective hid)

theorem Named.record (h : history.Named) (hnormal : s.Normal) (hsaved : ∃ scope, saved = s.row scope)
    (hid : s.texts .checkpointId = automaticId s.checkpointSequence) :
    Named ⟨history.rows.upsert saved, history.stored ++ [s]⟩ where
  rows row hrow := by
    obtain rfl | ⟨hrow, -⟩ := Tables.Table.mem_upsert.mp hrow
    · exact ⟨s, List.mem_append_right _ (List.mem_singleton_self s), hnormal, hsaved⟩
    · obtain ⟨old, hold, hrest⟩ := h.rows row hrow
      exact ⟨old, List.mem_append_left _ hold, hrest⟩
  ids t ht := by
    obtain ht | ht := List.mem_append.mp ht
    · exact h.ids t ht
    · obtain rfl := List.mem_singleton.mp ht
      exact hid

end TaskHistory

/-- In a run of updates without a checkpoint id of their own, stored states of one task with different sequences have
different ids exactly if each update that is accepted over a row of its task empties the id of the row or asks for the
row's own sequence. -/
theorem checkpoint_ids_follow_iff (o : Objects F V) (calls : List (AutomaticUpdate o)) :
    (∀ before after history, calls = before ++ after →
      Runs.run (recordStep o) TaskHistory.empty before = some history → IdsFollow history.stored) ↔
    Runs.Guarded (recordStep o) (AutomaticUpdate.FollowsOrRaises o) TaskHistory.empty calls := by
  have hupdate : ∀ (history : TaskHistory F V) (c : AutomaticUpdate o) result,
      TaskStateStore.prepared o c.toUpdateCall (history.rows.find? c.taskId) = result →
        TaskStateStore.update o c.toUpdateCall history.rows = (match result with
          | .ok found => (.ok found.1, history.rows.upsert found.2)
          | .error e => (.error e, history.rows)) := by
    intro history c result hresult
    rw [TaskStateStore.update, hresult]
    cases result <;> rfl
  refine Runs.forall_holds_iff_guarded (I := TaskHistory.Named) (J := fun history => IdsFollow history.stored)
    (fun history c => ⟨_, rfl⟩) (fun history h => h.idsFollow) ?_ ?_ ⟨?_, ?_⟩ calls
  · intro history c history' h hfollows hstep
    obtain rfl := Option.some.inj hstep
    cases hprepared : TaskStateStore.prepared o c.toUpdateCall (history.rows.find? c.taskId) with
    | error e =>
      rw [hupdate history c _ hprepared]
      exact h
    | ok found =>
      obtain ⟨hnormal, hsaved, hid, -⟩ := h.stored hprepared
      obtain ⟨e, he⟩ | hfollows := hfollows
      · rw [hupdate history c _ hprepared] at he
        cases he
      · rw [hupdate history c _ hprepared]
        exact h.record hnormal hsaved (hid hfollows)
  · intro history c history' h hstep hids
    obtain rfl := Option.some.inj hstep
    cases hprepared : TaskStateStore.prepared o c.toUpdateCall (history.rows.find? c.taskId) with
    | error e => exact Or.inl ⟨e, by rw [hupdate history c _ hprepared]⟩
    | ok found =>
      right
      by_contra hnot
      obtain ⟨old, hold, htask, hseq, hid⟩ := (h.stored hprepared).2.2.2 hnot
      rw [hupdate history c _ hprepared] at hids
      exact hids old (List.mem_append_left _ hold) found.1 (List.mem_append_right _ (List.mem_singleton_self _))
        htask hseq hid
  · intro row hrow
    cases hrow
  · intro s hs
    cases hs

end Facts

/-- `update("t", patch={"objective": "ship"})`. -/
def beginUpdate : AutomaticUpdate sampleObjects where
  toUpdateCall := sampleUpdate "t" [("objective", .str "ship".toList)]
  automatic _ _ h _ := by cases h

/-- `update("t", patch={"open_subtasks": ["next"]})`. -/
def advanceUpdate : AutomaticUpdate sampleObjects where
  toUpdateCall := nextUpdate
  automatic _ _ h _ := by cases h

/-- The second checkpoint of a task has the id of the first. -/
theorem checkpoint_id_kept : ¬ ∀ (calls : List (AutomaticUpdate sampleObjects)) (history : TaskHistory Nat (Json Nat)),
    Runs.run (recordStep sampleObjects) TaskHistory.empty calls = some history → IdsFollow history.stored := by
  intro h
  have hstored : (Runs.run (recordStep sampleObjects) TaskHistory.empty [beginUpdate, advanceUpdate]).map
      (fun history => history.stored.map fun s => (s.taskId, s.texts .checkpointId, s.checkpointSequence)) =
      some [("t".toList, "ckpt_1".toList, 1), ("t".toList, "ckpt_1".toList, 2)] := by
    decide +kernel
  obtain ⟨history, hrun, hstates⟩ := Option.map_eq_some_iff.mp hstored
  have hbegin : ("t".toList, "ckpt_1".toList, (1 : Int)) ∈
      history.stored.map fun s => (s.taskId, s.texts .checkpointId, s.checkpointSequence) := by simp [hstates]
  have hadvance : ("t".toList, "ckpt_1".toList, (2 : Int)) ∈
      history.stored.map fun s => (s.taskId, s.texts .checkpointId, s.checkpointSequence) := by simp [hstates]
  obtain ⟨s, hs, hfirst⟩ := List.mem_map.mp hbegin
  obtain ⟨s', hs', hsecond⟩ := List.mem_map.mp hadvance
  simp only [Prod.mk.injEq] at hfirst hsecond
  have hne : s.checkpointSequence ≠ s'.checkpointSequence := by omega
  exact h _ history hrun s hs s' hs' (hfirst.1.trans hsecond.1.symm) hne (hfirst.2.1.trans hsecond.2.1.symm)

end AgentMemory
