import AgentMemory.Engine.Atomic

/-!
# Boxes

`MemoryBox` and the tables `boxes` and `box_memories` of `MemoryVault`
(`engines/living_memoryv2/src/living_memoryv2/vault.py`). A memory is numbered when it is first
remembered in a box, so a box lists its memories in that order. Closing a box is a mark on its
row that `remember` does not read: `box_history` says what a box holds after any run of these
calls, and so when a closed box is still what it was.
-/

namespace AgentMemory

open Dicts PyText JsonText Tables Commits

/-- The values of the column `boxes.state`. -/
inductive BoxStatus where
  | opened | closed
  deriving DecidableEq

/-- A row of `boxes` (`vault.py:113-122`). -/
structure BoxRow (F : Type) where
  id : Text
  name : Text
  scope : List (Text × Json F)
  createdAt : F
  closedAt : Option F
  state : BoxStatus

/-- `BoxInfo` (`vault.py:20-28`). -/
structure BoxInfo (F : Type) extends BoxRow F where
  memoryIds : List Text

/-- A vault with its boxes. -/
structure BoxVault (F : Type) where
  vault : VaultState F
  boxes : Table (BoxRow F) BoxRow.id

/-- A `MemoryBox` with what `remember` reads of its info. -/
structure MemoryBox (F : Type) where
  id : Text
  scope : List (Text × Json F)

/-- A call, with the id that it draws and its readings of the clock. -/
inductive BoxCall (F : Type) where
  | openBox (id name : Text) (scope : List (Text × Json F)) (now : F)
  | closeBox (id : Text) (now : F)
  | remember (now : F) (appendLog : Bool) (m : MemoryEnvelope F) (boxId : Option Text) (extractFacts : Bool)
  | boxRemember (box : MemoryBox F) (now : F) (m : MemoryEnvelope F)

/-- The rows of a box (`vault.py:189-192`). -/
def rowsOfBox (boxId : Text) (t : Table BoxMemory BoxMemory.key) : List BoxMemory :=
  t.rows.filter fun row => row.boxId = boxId

/-- `memory_ids` of a box: `ORDER BY sequence`. -/
def memoryIdsOf (boxId : Text) (t : Table BoxMemory BoxMemory.key) : List Text :=
  ((rowsOfBox boxId t).mergeSort fun a b => a.sequence ≤ b.sequence).map BoxMemory.memoryId

section Model

variable {F : Type} (rt : GraphRuntime F) (options : StoreOptions)
  (extract : MemoryEnvelope F → List (ExtractedFact F))

/-- `get_box` (`vault.py:184-201`); none is a `KeyError`. -/
def BoxVault.getBox (v : BoxVault F) (boxId : Text) : Option (BoxInfo F) :=
  (v.boxes.find? boxId).map fun row => ⟨row, memoryIdsOf boxId v.vault.boxMemories⟩

/-- The envelope that `MemoryBox.remember` makes (`vault.py:39-49`). -/
def MemoryBox.scopedMemory (box : MemoryBox F) (now : F) (m : MemoryEnvelope F) : Option (MemoryEnvelope F) :=
  let merged := m.scope.foldl (fun scope kv => insert kv.1 kv.2 scope) box.scope
  let scope := insert "box_id".toList (.str box.id) (insert "session_id".toList (.str box.id) merged)
  match m.toDict with
  | .obj data =>
    MemoryEnvelope.fromDict rt.toPython now
      (.obj (insert "content_hash".toList (.str []) (insert "scope".toList (.obj scope) data)))
  | _ => none

/-- The row after `UPDATE boxes SET state = 'closed', closed_at = now WHERE id = id`. -/
def BoxRow.close (id : Text) (now : F) (row : BoxRow F) : BoxRow F :=
  if row.id = id then { row with state := .closed, closedAt := some now } else row

theorem BoxRow.id_close (id : Text) (now : F) (row : BoxRow F) : (row.close id now).id = row.id := by
  unfold BoxRow.close
  split <;> rfl

namespace BoxVault

/-- A new vault. -/
def empty : BoxVault F := ⟨VaultState.empty, Table.empty⟩

def onVault (c : Call (VaultState F) Unit) : Call (BoxVault F) Unit :=
  on BoxVault.vault (fun vault v => { v with vault := vault }) c

def onBoxes (c : Call (Table (BoxRow F) BoxRow.id) Unit) : Call (BoxVault F) Unit :=
  on BoxVault.boxes (fun boxes v => { v with boxes := boxes }) c

/-- `open_box` (`vault.py:135-150`), which raises where the id is taken. -/
def openBox (id name : Text) (scope : List (Text × Json F)) (now : F) : Call (BoxVault F) Unit :=
  onBoxes (commit fun t =>
    if (t.find? id).isSome = true then none else some (t.upsert ⟨id, name, scope, now, none, .opened⟩))

/-- `close_box` (`vault.py:152-157`). -/
def closeBox (id : Text) (now : F) : Call (BoxVault F) Unit :=
  onBoxes (commit fun t => some (t.mapRows (BoxRow.close id now) (BoxRow.id_close id now)))

end BoxVault

namespace BoxCall

/-- The call on a vault. -/
def call : BoxCall F → Call (BoxVault F) Unit
  | openBox id name scope now => BoxVault.openBox id name scope now
  | closeBox id now => BoxVault.closeBox id now
  | remember now appendLog m boxId extractFacts =>
    BoxVault.onVault (VaultState.remember rt options extract now appendLog m boxId extractFacts)
  | boxRemember box now m =>
    match box.scopedMemory rt now m with
    | some memory =>
      BoxVault.onVault (VaultState.remember rt options extract now true memory (some box.id) false)
    | none => check false

/-- The box in which the call remembers a memory, and the id of the memory. -/
def target : BoxCall F → Option (Text × Text)
  | remember _ _ m boxId _ => boxId.map fun boxId => (boxId, m.id)
  | boxRemember box now m => (box.scopedMemory rt now m).map fun memory => (box.id, memory.id)
  | _ => none

/-- The memory that the call remembers in the box, if it returns. -/
def remembered (boxId : Text) (v : BoxVault F) (c : BoxCall F) : List Text :=
  match c.target rt with
  | some (id, memoryId) => if returns (c.call rt options extract) v = true ∧ id = boxId then [memoryId] else []
  | none => []

end BoxCall

namespace BoxVault

/-- The vault after the calls, whether they return or raise. -/
def afterCalls (v : BoxVault F) (calls : List (BoxCall F)) : BoxVault F :=
  calls.foldl (fun v c => after (c.call rt options extract) v) v

/-- The memories that the calls remember in the box, in turn. -/
def rememberedIn (boxId : Text) (v : BoxVault F) : List (BoxCall F) → List Text
  | [] => []
  | c :: calls =>
    c.remembered rt options extract boxId v ++
      rememberedIn boxId (after (c.call rt options extract) v) calls

end BoxVault

end Model

/-! ## The rows of a box -/

theorem sequence_lt_nextSequence {boxId : Text} {t : Table BoxMemory BoxMemory.key} {row : BoxMemory}
    (h : row ∈ rowsOfBox boxId t) : row.sequence < VaultState.nextSequence boxId t := by
  have hmem : row.sequence ∈ (rowsOfBox boxId t).map BoxMemory.sequence := List.mem_map_of_mem h
  have hle := List.le_max?_getD_of_mem (k := 0) hmem
  have hmax : VaultState.nextSequence boxId t =
      max 0 (((rowsOfBox boxId t).map BoxMemory.sequence).max?.getD 0) + 1 :=
    congrArg (· + 1) List.foldl_max
  omega

/-- An element more comes last, unless it is there. -/
theorem eraseDups_append_singleton (l : List Text) (a : Text) :
    (l ++ [a]).eraseDups = if a ∈ l then l.eraseDups else l.eraseDups ++ [a] := by
  rw [List.eraseDups_append, List.removeAll, List.filter_singleton]
  by_cases ha : a ∈ l
  · simp [ha]
  · simp [ha, List.eraseDups_cons]

/-- The rows of the box stand in the order of their numbers, and so in that in which these
memories were first remembered. -/
structure InOrder (boxId : Text) (memoryIds : List Text) (t : Table BoxMemory BoxMemory.key) : Prop where
  memories : (rowsOfBox boxId t).map BoxMemory.memoryId = memoryIds.eraseDups
  sequences : (rowsOfBox boxId t).Pairwise fun a b => a.sequence < b.sequence

namespace InOrder

variable {boxId : Text} {memoryIds : List Text} {t : Table BoxMemory BoxMemory.key}

theorem memoryIdsOf (h : InOrder boxId memoryIds t) : memoryIdsOf boxId t = memoryIds.eraseDups := by
  rw [AgentMemory.memoryIdsOf, List.mergeSort_of_pairwise, h.memories]
  exact h.sequences.imp fun hlt => by simpa using hlt.le

theorem mem_iff (h : InOrder boxId memoryIds t) {memoryId : Text} :
    memoryId ∈ memoryIds ↔ t.find? (boxId, memoryId) ≠ none := by
  rw [← List.mem_eraseDups, ← h.memories, ← Table.mem_map_key]
  simp only [rowsOfBox, List.mem_map, List.mem_filter, decide_eq_true_eq, BoxMemory.key, Prod.mk.injEq]
  constructor
  · rintro ⟨row, ⟨hrow, hbox⟩, hmemory⟩
    exact ⟨row, hrow, hbox, hmemory⟩
  · rintro ⟨row, hrow, hbox, hmemory⟩
    exact ⟨row, ⟨hrow, hbox⟩, hmemory⟩

/-- A memory is remembered in a box. -/
theorem put (h : InOrder boxId memoryIds t) (id memoryId : Text) :
    InOrder boxId (memoryIds ++ if id = boxId then [memoryId] else [])
      (t.putNew ⟨id, memoryId, VaultState.nextSequence id t⟩) := by
  unfold Table.putNew
  cases hfind : t.find? (BoxMemory.key ⟨id, memoryId, VaultState.nextSequence id t⟩) with
  | some row =>
    -- The memory is in the box already.
    have hids : (memoryIds ++ if id = boxId then [memoryId] else []).eraseDups = memoryIds.eraseDups := by
      split
      · next hid =>
        subst hid
        have hthere : t.find? (id, memoryId) ≠ none := fun hnone => by cases hfind.symm.trans hnone
        rw [eraseDups_append_singleton, if_pos (h.mem_iff.mpr hthere)]
      · rw [List.append_nil]
    exact ⟨h.memories.trans hids.symm, h.sequences⟩
  | none =>
    have hnew := Table.find?_eq_none.mp hfind
    have hrows : (t.upsert ⟨id, memoryId, VaultState.nextSequence id t⟩).rows =
        t.rows ++ [⟨id, memoryId, VaultState.nextSequence id t⟩] := by
      unfold Table.upsert
      rw [dif_neg]
      rintro hmem
      obtain ⟨row, hrow, hkey⟩ := List.mem_map.mp hmem
      exact hnew row hrow hkey
    have hbox : rowsOfBox boxId (t.upsert ⟨id, memoryId, VaultState.nextSequence id t⟩) =
        rowsOfBox boxId t ++ if id = boxId then [⟨id, memoryId, VaultState.nextSequence id t⟩] else [] := by
      rw [rowsOfBox, hrows, List.filter_append, List.filter_singleton]
      simp [rowsOfBox, Bool.cond_eq_ite]
    by_cases hid : id = boxId
    · subst hid
      have hmem : memoryId ∉ memoryIds := fun hmem => h.mem_iff.mp hmem hfind
      rw [if_pos rfl] at hbox
      constructor
      · rw [hbox, if_pos rfl, List.map_append, h.memories, eraseDups_append_singleton, if_neg hmem]
        rfl
      · rw [hbox]
        refine List.pairwise_append.mpr ⟨h.sequences, List.pairwise_singleton _ _, ?_⟩
        intro row hrow row' hrow'
        obtain rfl := List.mem_singleton.mp hrow'
        exact sequence_lt_nextSequence hrow
    · rw [if_neg hid, List.append_nil] at hbox
      rw [if_neg hid, List.append_nil]
      exact ⟨by rw [hbox, h.memories], by rw [hbox]; exact h.sequences⟩

end InOrder

/-! ## What a call does to the boxes -/

section Facts

variable {F : Type} {rt : GraphRuntime F} {options : StoreOptions}
  {extract : MemoryEnvelope F → List (ExtractedFact F)}

/-- The table after a memory is remembered in the box, if one is named. -/
def putRow (boxId : Option Text) (memoryId : Text) (t : Table BoxMemory BoxMemory.key) :
    Table BoxMemory BoxMemory.key :=
  boxId.elim t fun boxId => t.putNew ⟨boxId, memoryId, VaultState.nextSequence boxId t⟩

/-- `remember` numbers the memory last, after all that can raise. -/
theorem changes_remember (now : F) (appendLog : Bool) (m : MemoryEnvelope F) (boxId : Option Text)
    (extractFacts : Bool) :
    Changes VaultState.boxMemories (putRow boxId m.id)
      (VaultState.remember rt options extract now appendLog m boxId extractFacts) := by
  have hput : Changes VaultState.boxMemories (putRow boxId m.id)
      (forM boxId.toList fun boxId => VaultState.putInBox boxId m.id : Call (VaultState F) Unit) := by
    intro v
    cases boxId <;> rfl
  have hstore : ∀ (c : Call (TemporalStore F) Unit) (t : Table BoxMemory BoxMemory.key),
      Preserves (fun v => v.boxMemories = t) (VaultState.onStore c) := by
    intro c t v hv
    rw [VaultState.onStore, after_on]
    exact hv
  have hgraphs : ∀ (c : Call (Graphs F) Unit) (t : Table BoxMemory BoxMemory.key),
      Preserves (fun v => v.boxMemories = t) (VaultState.onGraphs c) := by
    intro c t v hv
    rw [VaultState.onGraphs, after_on]
    exact hv
  unfold VaultState.remember
  refine Changes.after_keeping ?_ (hstore _)
  refine Changes.after_keeping ?_ (hgraphs _)
  refine Changes.after_keeping ?_ (hgraphs _)
  refine Changes.after_keeping hput fun t => Preserves.callIf (preserves_forM ?_) _
  intro fact _
  exact VaultState.preserves_addFact (fun _ _ h => h) fun _ h => h

theorem changes_onVault {f : Table BoxMemory BoxMemory.key → Table BoxMemory BoxMemory.key}
    {c : Call (VaultState F) Unit} (h : Changes VaultState.boxMemories f c) :
    Changes (fun v : BoxVault F => v.vault.boxMemories) f (BoxVault.onVault c) :=
  h.on BoxVault.vault _ fun _ _ => rfl

theorem changes_onBoxes (c : Call (Table (BoxRow F) BoxRow.id) Unit) :
    Changes (fun v : BoxVault F => v.vault.boxMemories) (fun t => t) (BoxVault.onBoxes c) := by
  refine changes_of_preserves fun t v hv => ?_
  rw [BoxVault.onBoxes, after_on]
  exact hv

/-- What a call does to the rows, by the memory it remembers. -/
theorem changes_call (c : BoxCall F) :
    Changes (fun v : BoxVault F => v.vault.boxMemories)
      (fun t => (c.target rt).elim t fun target => putRow (some target.1) target.2 t)
      (c.call rt options extract) := by
  cases c with
  | openBox id name scope now => exact changes_onBoxes _
  | closeBox id now =>
    rw [BoxCall.call, BoxVault.closeBox]
    exact changes_onBoxes _
  | remember now appendLog m boxId extractFacts =>
    have hchanges := changes_onVault (@changes_remember _ rt options extract now appendLog m boxId extractFacts)
    cases boxId <;> exact hchanges
  | boxRemember box now m =>
    simp only [BoxCall.call, BoxCall.target]
    cases box.scopedMemory rt now m with
    | none => exact changes_of_preserves fun t => preserves_check false
    | some memory => exact changes_onVault (changes_remember now true memory (some box.id) false)

theorem InOrder.call {boxId : Text} {memoryIds : List Text} {v : BoxVault F}
    (h : InOrder boxId memoryIds v.vault.boxMemories) (c : BoxCall F) :
    InOrder boxId (memoryIds ++ c.remembered rt options extract boxId v)
      (after (c.call rt options extract) v).vault.boxMemories := by
  have hchanges := @changes_call _ rt options extract c v
  simp only at hchanges
  rw [hchanges, BoxCall.remembered]
  cases htarget : c.target rt with
  | none =>
    rw [List.append_nil, Option.elim_none, ite_self]
    exact h
  | some target =>
    obtain ⟨id, memoryId⟩ := target
    by_cases hreturns : returns (c.call rt options extract) v = true
    · simp only [hreturns, true_and]
      exact h.put id memoryId
    · rw [if_neg hreturns]
      simpa [hreturns] using h

theorem InOrder.afterCalls {boxId : Text} {memoryIds : List Text} {v : BoxVault F}
    (h : InOrder boxId memoryIds v.vault.boxMemories) (calls : List (BoxCall F)) :
    InOrder boxId (memoryIds ++ v.rememberedIn rt options extract boxId calls)
      (v.afterCalls rt options extract calls).vault.boxMemories := by
  induction calls generalizing v memoryIds with
  | nil => rwa [BoxVault.rememberedIn, List.append_nil]
  | cons c calls ih =>
    have hcalls := ih (@InOrder.call _ rt options extract boxId memoryIds v h c)
    rwa [List.append_assoc] at hcalls

/-! ## Closed boxes -/

/-- The box is there and its row says that it is closed. -/
def BoxVault.Closed (boxId : Text) (v : BoxVault F) : Prop :=
  ∃ row, v.boxes.find? boxId = some row ∧ row.state = .closed

theorem boxes_onVault (c : Call (VaultState F) Unit) (v : BoxVault F) :
    (after (BoxVault.onVault c) v).boxes = v.boxes := by
  rw [BoxVault.onVault, after_on]

theorem boxes_closeBox (id : Text) (now : F) (v : BoxVault F) :
    (after (BoxVault.closeBox id now) v).boxes = v.boxes.mapRows (BoxRow.close id now) (BoxRow.id_close id now) := by
  rw [BoxVault.closeBox, BoxVault.onBoxes, after_on, after_commit, Option.getD_some]

/-- No call opens a closed box again. -/
theorem BoxVault.Closed.call {boxId : Text} {v : BoxVault F} (h : v.Closed boxId) (c : BoxCall F) :
    (after (c.call rt options extract) v).Closed boxId := by
  obtain ⟨row, hrow, hclosed⟩ := h
  cases c with
  | openBox id name scope now =>
    rw [BoxCall.call, BoxVault.openBox, BoxVault.Closed, BoxVault.onBoxes, after_on, after_commit]
    by_cases hid : id = boxId
    · subst hid
      exact ⟨row, by simp [hrow], hclosed⟩
    · cases hfind : v.boxes.find? id with
      | some _ => exact ⟨row, by simpa [hfind] using hrow, hclosed⟩
      | none => exact ⟨row, by simp [Table.find?_upsert_of_ne, hid, hrow], hclosed⟩
  | closeBox id now =>
    rw [BoxCall.call, BoxVault.Closed, boxes_closeBox, Table.find?_mapRows, hrow]
    refine ⟨row.close id now, rfl, ?_⟩
    unfold BoxRow.close
    split
    · rfl
    · exact hclosed
  | remember now appendLog m id extractFacts =>
    rw [BoxCall.call, BoxVault.Closed, boxes_onVault]
    exact ⟨row, hrow, hclosed⟩
  | boxRemember box now m =>
    rw [BoxCall.call, BoxVault.Closed]
    cases box.scopedMemory rt now m with
    | none => exact ⟨row, by simpa using hrow, hclosed⟩
    | some memory => exact ⟨row, by rw [boxes_onVault]; exact hrow, hclosed⟩

theorem BoxVault.Closed.afterCalls {boxId : Text} {v : BoxVault F} (h : v.Closed boxId)
    (calls : List (BoxCall F)) : (v.afterCalls rt options extract calls).Closed boxId := by
  induction calls generalizing v with
  | nil => exact h
  | cons c calls ih => exact ih (h.call c)

/-- A box that is there is closed by closing it. -/
theorem closed_closeBox {boxId : Text} {v : BoxVault F} (h : v.boxes.find? boxId ≠ none) (now : F) :
    (after (BoxVault.closeBox boxId now) v).Closed boxId := by
  obtain ⟨row, hrow⟩ := Option.ne_none_iff_exists'.mp h
  have hid : row.id = boxId := (Table.find?_eq_some.mp hrow).2
  rw [BoxVault.Closed, boxes_closeBox, Table.find?_mapRows, hrow]
  exact ⟨row.close boxId now, rfl, by rw [BoxRow.close, if_pos hid]⟩

theorem inOrder_empty (boxId : Text) : InOrder boxId [] (BoxVault.empty : BoxVault F).vault.boxMemories :=
  ⟨rfl, List.Pairwise.nil⟩

theorem BoxVault.afterCalls_append (v : BoxVault F) (calls calls' : List (BoxCall F)) :
    v.afterCalls rt options extract (calls ++ calls') =
      (v.afterCalls rt options extract calls).afterCalls rt options extract calls' :=
  List.foldl_append

/-- What is remembered later comes after what a box holds, and changes nothing where it is there. -/
theorem eraseDups_append_eq_self {l l' : List Text} :
    (l ++ l').eraseDups = l.eraseDups ↔ ∀ a ∈ l', a ∈ l.eraseDups := by
  rw [List.eraseDups_append, List.append_right_eq_self]
  simp only [List.mem_eraseDups]
  constructor
  · intro hnil a ha
    by_contra hnew
    have hmem : a ∈ (l'.removeAll l).eraseDups := List.mem_eraseDups.mpr (by simp [List.removeAll, ha, hnew])
    rw [hnil] at hmem
    exact List.not_mem_nil hmem
  · intro hthere
    have hnone : l'.removeAll l = [] := by simpa [List.removeAll, List.filter_eq_nil_iff] using hthere
    rw [hnone, List.eraseDups_nil]

/-- A box always lists the memories remembered in it, each once and in the order of the first
time, under different numbers. From when it is closed on it stays closed, its list only grows at
the end, and it stays the same exactly if no memory is remembered in it that it does not hold. -/
theorem box_history (rt : GraphRuntime F) (options : StoreOptions)
    (extract : MemoryEnvelope F → List (ExtractedFact F)) (boxId : Text) (calls : List (BoxCall F)) :
    memoryIdsOf boxId (BoxVault.empty.afterCalls rt options extract calls).vault.boxMemories =
        (BoxVault.empty.rememberedIn rt options extract boxId calls).eraseDups ∧
      ((rowsOfBox boxId (BoxVault.empty.afterCalls rt options extract calls).vault.boxMemories).map
        BoxMemory.sequence).Nodup ∧
      ∀ before now later, calls = before ++ .closeBox boxId now :: later →
        ∀ closed, closed = BoxVault.empty.afterCalls rt options extract (before ++ [.closeBox boxId now]) →
          ((BoxVault.empty.afterCalls rt options extract before).boxes.find? boxId ≠ none →
            (BoxVault.empty.afterCalls rt options extract calls).Closed boxId) ∧
          memoryIdsOf boxId closed.vault.boxMemories <+:
            memoryIdsOf boxId (BoxVault.empty.afterCalls rt options extract calls).vault.boxMemories ∧
          (memoryIdsOf boxId (BoxVault.empty.afterCalls rt options extract calls).vault.boxMemories =
              memoryIdsOf boxId closed.vault.boxMemories ↔
            ∀ id ∈ closed.rememberedIn rt options extract boxId later,
              id ∈ memoryIdsOf boxId closed.vault.boxMemories) := by
  have hcalls := fun calls => @InOrder.afterCalls _ rt options extract boxId [] _ (inOrder_empty boxId) calls
  simp only [List.nil_append] at hcalls
  refine ⟨(hcalls calls).memoryIdsOf, ?_, ?_⟩
  · rw [List.Nodup, List.pairwise_map]
    exact (hcalls calls).sequences.imp fun hlt => hlt.ne
  · rintro before now later rfl closed rfl
    have hbefore := hcalls (before ++ [.closeBox boxId now])
    have hafter := @InOrder.afterCalls _ rt options extract _ _ _ hbefore later
    have hsplit : BoxVault.empty.afterCalls rt options extract (before ++ .closeBox boxId now :: later) =
        (BoxVault.empty.afterCalls rt options extract (before ++ [.closeBox boxId now])).afterCalls
          rt options extract later := by
      rw [← BoxVault.afterCalls_append, List.append_assoc, List.singleton_append]
    rw [hsplit, hbefore.memoryIdsOf, hafter.memoryIdsOf]
    refine ⟨fun hthere => ?_, ?_, ?_⟩
    · apply BoxVault.Closed.afterCalls
      rw [BoxVault.afterCalls_append]
      exact closed_closeBox hthere now
    · rw [List.eraseDups_append]
      exact List.prefix_append _ _
    · exact eraseDups_append_eq_self

end Facts

/-! ## A memory in a closed box -/

theorem sampleOne_pastEpoch : sampleGraphRuntime.isZero .one = false := rfl

/-- A call that remembers a memory in a box. -/
def boxedCall : VaultCall sampleGraphRuntime :=
  ⟨sampleMemory [] sampleText, valid_sampleMemory pairwise_noTags valid_sampleText, .one, sampleOne_pastEpoch,
    some "box_1".toList, false⟩

def openedBox : BoxCall SampleNumber := .openBox "box_1".toList "session".toList [] .half

def closedBox : BoxCall SampleNumber := .closeBox "box_1".toList .one

/-- The same call of `remember` on a vault with boxes. -/
def rememberedLate : BoxCall SampleNumber :=
  .remember boxedCall.now true boxedCall.memory boxedCall.boxId boxedCall.extractFacts

theorem remembered_rememberedLate (v : BoxVault SampleNumber) :
    rememberedLate.remembered sampleGraphRuntime .default (fun _ => []) "box_1".toList v = ["m".toList] := by
  have haccepted : boxedCall.accepted (fun _ => []) = true := by decide
  have hreturns := @VaultCall.returns_remember _ _ .default (fun _ => []) boxedCall v.vault
  have hcall : returns (rememberedLate.call sampleGraphRuntime .default fun _ => []) v = true := by
    rw [rememberedLate, BoxCall.call, BoxVault.onVault, returns_on]
    exact hreturns.trans haccepted
  have htarget : rememberedLate.target sampleGraphRuntime = some ("box_1".toList, "m".toList) := rfl
  rw [BoxCall.remembered, htarget]
  exact if_pos ⟨hcall, rfl⟩

/-- The box is still closed, and lists what it listed first. -/
theorem box_history_session :
    (BoxVault.empty.afterCalls sampleGraphRuntime .default (fun _ => [])
      [openedBox, closedBox, rememberedLate]).Closed "box_1".toList ∧
    memoryIdsOf "box_1".toList (BoxVault.empty.afterCalls sampleGraphRuntime .default (fun _ => [])
        [openedBox, closedBox]).vault.boxMemories <+:
      memoryIdsOf "box_1".toList (BoxVault.empty.afterCalls sampleGraphRuntime .default (fun _ => [])
        [openedBox, closedBox, rememberedLate]).vault.boxMemories := by
  obtain ⟨hclosed, hgrows, -⟩ := (box_history sampleGraphRuntime .default (fun _ => []) "box_1".toList
    [openedBox, closedBox, rememberedLate]).2.2 [openedBox] .one [rememberedLate] rfl _ rfl
  exact ⟨hclosed (by decide), hgrows⟩

/-- A box lists a memory that is remembered in it after it was closed. -/
theorem closed_box_grows :
    ¬ ∀ (boxId : Text) (calls before later : List (BoxCall SampleNumber)) (now : SampleNumber),
      calls = before ++ .closeBox boxId now :: later →
        (BoxVault.empty.afterCalls sampleGraphRuntime .default (fun _ => []) before).boxes.find? boxId ≠ none →
          memoryIdsOf boxId
              (BoxVault.empty.afterCalls sampleGraphRuntime .default (fun _ => []) calls).vault.boxMemories =
            memoryIdsOf boxId (BoxVault.empty.afterCalls sampleGraphRuntime .default (fun _ => [])
              (before ++ [.closeBox boxId now])).vault.boxMemories := by
  intro h
  have hfrozen := h "box_1".toList _ [openedBox] [rememberedLate] .one rfl (by decide)
  have hids := fun calls => (@InOrder.afterCalls _ sampleGraphRuntime .default (fun _ => []) "box_1".toList [] _
    (inOrder_empty "box_1".toList) calls).memoryIdsOf
  have hlater : BoxVault.empty.rememberedIn sampleGraphRuntime .default (fun _ => []) "box_1".toList
      [openedBox, closedBox, rememberedLate] = ["m".toList] := by
    rw [BoxVault.rememberedIn, BoxVault.rememberedIn, BoxVault.rememberedIn, remembered_rememberedLate]
    rfl
  have hbefore : BoxVault.empty.rememberedIn sampleGraphRuntime .default (fun _ => []) "box_1".toList
      [openedBox, closedBox] = [] := rfl
  have hcalls : [openedBox] ++ .closeBox "box_1".toList .one :: [rememberedLate] =
      [openedBox, closedBox, rememberedLate] := rfl
  have hclosed : [openedBox] ++ [.closeBox "box_1".toList .one] = [openedBox, closedBox] := rfl
  rw [hids, hids, hcalls, hclosed, hlater, hbefore] at hfrozen
  exact absurd hfrozen (by decide)

end AgentMemory
