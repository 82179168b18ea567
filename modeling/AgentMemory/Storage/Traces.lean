import AgentMemory.Http.Server
import AgentMemory.Lib.Runs
import AgentMemory.Lib.Slices

/-!
# Traces in memory

`storage/memory/trace_store.go` deletes a memory from the traces by filtering their lists in
place, and `buildTrace` stores one slice in two of them (`service.go:132-133`). The traces are kept
here with the arrays behind their lists, next to the `TraceStore` of values they stand for;
`deletes_exact_iff` says for which deletions both go on together.
-/

namespace AgentMemory.Traces

open Tables Slices AgentMemory.Http

/-- `retrieval.Trace` with its lists as slices. -/
structure TraceRow where
  id : String
  query : String
  tenantID : String
  userID : String
  candidateIDs : Slice
  selectedIDs : Slice
  rejectedIDs : Slice
  scores : List (String × ℚ)
  filters : List (String × String)
  tokenEstimate : Nat
  createdAt : Time

/-- A nil slice: a window of no cells. -/
def nilSlice : Slice := ⟨0, 0⟩

/-- The trace a row stands for. -/
def TraceRow.value (h : Heap String) (row : TraceRow) : Trace where
  id := row.id
  query := row.query
  tenantID := row.tenantID
  userID := row.userID
  candidateIDs := h.read row.candidateIDs
  selectedIDs := h.read row.selectedIDs
  rejectedIDs := h.read row.rejectedIDs
  scores := row.scores
  filters := row.filters
  tokenEstimate := row.tokenEstimate
  createdAt := row.createdAt

/-- `memstorage.TraceStore`: the map of traces, and the arrays. -/
structure TraceMap where
  heap : Heap String
  traces : Table TraceRow TraceRow.id

/-- `NewTraceStore` (`trace_store.go:16-18`). -/
def TraceMap.empty : TraceMap := ⟨[], Table.empty⟩

/-- The trace under an id. -/
def TraceMap.trace? (s : TraceMap) (id : String) : Option Trace := (s.traces.find? id).map (TraceRow.value s.heap)

/-- `SaveTrace` (`trace_store.go:20-26`) of the trace that `buildTrace` makes: its ids are one new
array, and two fields are windows of it (`service.go:114-133`). -/
def saveTrace (s : TraceMap) (q : Query) (selected : List Candidate) (traceID : String) (now : Time) : TraceMap :=
  let ids : Slice := ⟨s.heap.length, selected.length⟩
  let trace := traceOf q selected traceID now
  { heap := s.heap ++ [selected.map (·.memory.id)]
    traces := s.traces.upsert
      { id := trace.id
        query := trace.query
        tenantID := trace.tenantID
        userID := trace.userID
        candidateIDs := ids
        selectedIDs := ids
        rejectedIDs := nilSlice
        scores := trace.scores
        filters := trace.filters
        tokenEstimate := trace.tokenEstimate
        createdAt := trace.createdAt } }

/-- `removeString` (`trace_store.go:56-64`). -/
def removeString (h : Heap String) (s : Slice) (target : String) : Heap String × Slice :=
  filterInPlace (fun v => v ≠ target) h s

/-- The lists of a trace without a memory (`trace_store.go:47-50`). -/
def removeMemory (memoryID : String) (h : Heap String) (row : TraceRow) : Heap String × TraceRow :=
  let (h, candidateIDs) := removeString h row.candidateIDs memoryID
  let (h, selectedIDs) := removeString h row.selectedIDs memoryID
  let (h, rejectedIDs) := removeString h row.rejectedIDs memoryID
  (h, { row with
    candidateIDs := candidateIDs
    selectedIDs := selectedIDs
    rejectedIDs := rejectedIDs
    scores := row.scores.filter fun score => score.1 ≠ memoryID })

/-- One round of the loop of `DeleteByMemoryID`. -/
def deleteAt (tenantID memoryID : String) (s : TraceMap) (id : String) : TraceMap :=
  match s.traces.find? id with
  | none => s
  | some row =>
    if row.tenantID ≠ tenantID then s
    else
      let (heap, row) := removeMemory memoryID s.heap row
      ⟨heap, s.traces.upsert row⟩

/-- The order in which a `range` goes through a map. -/
structure MapOrder where
  order : List String → List String
  perm : ∀ ids, (order ids).Perm ids

/-- `DeleteByMemoryID` (`trace_store.go:39-54`). -/
def deleteByMemoryID (order : MapOrder) (s : TraceMap) (tenantID memoryID : String) : TraceMap :=
  (order.order (s.traces.rows.map TraceRow.id)).foldl (deleteAt tenantID memoryID) s

/-! ## What is asked of the store -/

/-- A trace without a memory, as `array_remove` leaves it (`postgres/audit_store.go:72-85`). -/
def withoutMemory (memoryID : String) (trace : Trace) : Trace :=
  { trace with
    candidateIDs := trace.candidateIDs.filter fun v => v ≠ memoryID
    selectedIDs := trace.selectedIDs.filter fun v => v ≠ memoryID
    rejectedIDs := trace.rejectedIDs.filter fun v => v ≠ memoryID
    scores := trace.scores.filter fun score => score.1 ≠ memoryID }

/-- A trace after a memory of a tenant was deleted. -/
def afterDelete (tenantID memoryID : String) (trace : Trace) : Trace :=
  if trace.tenantID ≠ tenantID then trace else withoutMemory memoryID trace

theorem id_afterDelete (tenantID memoryID : String) (trace : Trace) :
    (afterDelete tenantID memoryID trace).id = trace.id := by
  unfold afterDelete
  split <;> rfl

/-- What happens to the traces: `Retrieve` saves one, or a memory is deleted from them. -/
inductive TraceAction where
  | save (q : Query) (selected : List Candidate) (traceID : String) (now : Time)
  | delete (order : MapOrder) (tenantID memoryID : String)

/-- The action on the map. -/
def TraceMap.act (s : TraceMap) : TraceAction → TraceMap
  | .save q selected traceID now => saveTrace s q selected traceID now
  | .delete order tenantID memoryID => deleteByMemoryID order s tenantID memoryID

/-- The action on the values. -/
def specAct (t : TraceStore) : TraceAction → TraceStore
  | .save q selected traceID now => t.upsert (traceOf q selected traceID now)
  | .delete _ tenantID memoryID => t.mapRows (afterDelete tenantID memoryID) (id_afterDelete tenantID memoryID)

/-- Both side by side. -/
def step (st : TraceMap × TraceStore) (a : TraceAction) : Option (TraceMap × TraceStore) :=
  some (st.1.act a, specAct st.2 a)

/-- Every trace has the lists of candidates and of selected memories that it should have. -/
def Exact (st : TraceMap × TraceStore) : Prop :=
  ∀ id, (st.1.trace? id).map Trace.candidateIDs = (st.2.find? id).map Trace.candidateIDs ∧
    (st.1.trace? id).map Trace.selectedIDs = (st.2.find? id).map Trace.selectedIDs

/-- Nothing but the id itself comes after it. -/
def NothingAfter (id : String) (ids : List String) : Prop := ids.Pairwise fun a b => b ≠ id → a ≠ id

/-- The deleted memory is the last of every trace of its tenant that names it. -/
def DeletesLast (st : TraceMap × TraceStore) : TraceAction → Prop
  | .save .. => True
  | .delete _ tenantID memoryID =>
    ∀ id trace, st.1.trace? id = some trace → trace.tenantID = tenantID → NothingAfter memoryID trace.candidateIDs

/-! ## Rows and their arrays -/

/-- Each row has an array of its own. -/
structure Separate (s : TraceMap) : Prop where
  inside : ∀ row ∈ s.traces.rows, row.candidateIDs.array < s.heap.length
  shared : ∀ row ∈ s.traces.rows, row.selectedIDs.array = row.candidateIDs.array
  candidateLen : ∀ row ∈ s.traces.rows, row.candidateIDs.len ≤ (s.heap.arrayAt row.candidateIDs.array).length
  selectedLen : ∀ row ∈ s.traces.rows, row.selectedIDs.len ≤ (s.heap.arrayAt row.candidateIDs.array).length
  noRejected : ∀ row ∈ s.traces.rows, row.rejectedIDs = nilSlice
  apart : ∀ row ∈ s.traces.rows, ∀ row' ∈ s.traces.rows,
    row.candidateIDs.array = row'.candidateIDs.array → row.id = row'.id

/-- A row with its array. -/
abbrev View := TraceRow × List String

/-- The row under an id with its array. -/
def TraceMap.view (s : TraceMap) (id : String) : Option View :=
  (s.traces.find? id).map fun row => (row, s.heap.arrayAt row.candidateIDs.array)

/-- The trace that a row and its array stand for. -/
def View.value (v : View) : Trace where
  id := v.1.id
  query := v.1.query
  tenantID := v.1.tenantID
  userID := v.1.userID
  candidateIDs := v.2.take v.1.candidateIDs.len
  selectedIDs := v.2.take v.1.selectedIDs.len
  rejectedIDs := []
  scores := v.1.scores
  filters := v.1.filters
  tokenEstimate := v.1.tokenEstimate
  createdAt := v.1.createdAt

/-- The candidates that are left. -/
def View.kept (memoryID : String) (v : View) : List String :=
  (v.2.take v.1.candidateIDs.len).filter fun x => x ≠ memoryID

/-- The array after the candidates were filtered. -/
def View.firstPass (memoryID : String) (v : View) : List String := overwrite (v.kept memoryID) v.2

/-- The selected memories that are left, which are read after that. -/
def View.keptSelected (memoryID : String) (v : View) : List String :=
  ((v.firstPass memoryID).take v.1.selectedIDs.len).filter fun x => x ≠ memoryID

/-- The array after both lists were filtered. -/
def View.secondPass (memoryID : String) (v : View) : List String :=
  overwrite (v.keptSelected memoryID) (v.firstPass memoryID)

/-- `removeMemory` on a row and its array. -/
def View.remove (memoryID : String) (v : View) : View :=
  ({ v.1 with
    candidateIDs := ⟨v.1.candidateIDs.array, (v.kept memoryID).length⟩
    selectedIDs := ⟨v.1.candidateIDs.array, (v.keptSelected memoryID).length⟩
    scores := v.1.scores.filter fun score => score.1 ≠ memoryID }, v.secondPass memoryID)

/-- One round of the loop on a row and its array. -/
def View.afterDelete (tenantID memoryID : String) (v : View) : View :=
  if v.1.tenantID ≠ tenantID then v else v.remove memoryID

variable {s : TraceMap} {t : TraceStore}

/-- Filtering a nil slice does nothing. -/
theorem removeString_nil (h : Heap String) (target : String) : removeString h nilSlice target = (h, nilSlice) := by
  have hnone : removeString h nilSlice target = (h.set 0 (h.arrayAt 0), nilSlice) := rfl
  rw [hnone]
  cases h with
  | nil => rfl
  | cons cells rest => rfl

theorem length_kept_le (memoryID : String) (v : View) : (v.kept memoryID).length ≤ v.2.length :=
  (List.length_filter_le _ _).trans (List.length_take_le' _ _)

@[simp] theorem length_firstPass (memoryID : String) (v : View) : (v.firstPass memoryID).length = v.2.length :=
  length_overwrite (length_kept_le memoryID v)

theorem length_keptSelected_le (memoryID : String) (v : View) : (v.keptSelected memoryID).length ≤ v.2.length := by
  rw [← length_firstPass memoryID v]
  exact (List.length_filter_le _ _).trans (List.length_take_le' _ _)

@[simp] theorem length_secondPass (memoryID : String) (v : View) : (v.secondPass memoryID).length = v.2.length := by
  rw [View.secondPass, length_overwrite, length_firstPass]
  rw [length_firstPass]
  exact length_keptSelected_le memoryID v

/-- The three lists of a row are filtered in its array. -/
theorem removeMemory_eq (h : Separate s) (memoryID : String) {row : TraceRow} (hrow : row ∈ s.traces.rows) :
    removeMemory memoryID s.heap row =
      (s.heap.set row.candidateIDs.array (View.secondPass memoryID (row, s.heap.arrayAt row.candidateIDs.array)),
        (View.remove memoryID (row, s.heap.arrayAt row.candidateIDs.array)).1) := by
  have hnil := h.noRejected row hrow
  obtain ⟨v, hv⟩ : ∃ v : View, v = (row, s.heap.arrayAt row.candidateIDs.array) := ⟨_, rfl⟩
  have hfirst : removeString s.heap row.candidateIDs memoryID =
      (s.heap.set row.candidateIDs.array (v.firstPass memoryID), ⟨row.candidateIDs.array, (v.kept memoryID).length⟩) := by
    rw [hv]
    exact filterInPlace_eq _ (h.candidateLen row hrow)
  have hnow : Heap.arrayAt (s.heap.set row.candidateIDs.array (v.firstPass memoryID)) row.selectedIDs.array =
      v.firstPass memoryID := by
    rw [h.shared row hrow, arrayAt_set_self (h.inside row hrow)]
  have hsecond : removeString (s.heap.set row.candidateIDs.array (v.firstPass memoryID)) row.selectedIDs memoryID =
      (s.heap.set row.candidateIDs.array (v.secondPass memoryID),
        ⟨row.candidateIDs.array, (v.keptSelected memoryID).length⟩) := by
    have hlen : row.selectedIDs.len ≤
        (Heap.arrayAt (s.heap.set row.candidateIDs.array (v.firstPass memoryID)) row.selectedIDs.array).length := by
      rw [hnow, length_firstPass, hv]
      exact h.selectedLen row hrow
    have hfilter := filterInPlace_eq (fun x => decide (x ≠ memoryID)) hlen
    rw [Heap.read, hnow, h.shared row hrow, List.set_set] at hfilter
    rw [View.secondPass, View.keptSelected, hv]
    rw [hv] at hfilter
    exact hfilter
  unfold removeMemory
  simp only [hfirst, hsecond, hnil, removeString_nil]
  rw [hv]
  simp only [View.remove, hnil]

/-- The view of a row that is there. -/
theorem view_of_mem {row : TraceRow} (hrow : row ∈ s.traces.rows) :
    s.view row.id = some (row, s.heap.arrayAt row.candidateIDs.array) := by
  rw [TraceMap.view, Table.find?_of_mem hrow, Option.map_some]

/-- Writing a row and its array changes no other row and no other array. -/
theorem view_write (h : Separate s) {row row' : TraceRow} (hrow : row ∈ s.traces.rows) (cells : List String)
    (hid : row'.id = row.id) (harray : row'.candidateIDs.array = row.candidateIDs.array) (k : String) :
    (TraceMap.mk (s.heap.set row.candidateIDs.array cells) (s.traces.upsert row')).view k =
      if k = row.id then some (row', cells) else s.view k := by
  unfold TraceMap.view
  rw [Table.find?_upsert, hid]
  by_cases hk : k = row.id
  · rw [if_pos hk.symm, if_pos hk, Option.map_some, harray, arrayAt_set_self (h.inside row hrow)]
  · rw [if_neg (Ne.symm hk), if_neg hk]
    cases hother : s.traces.find? k with
    | none => rfl
    | some other =>
      obtain ⟨hmem, hkey⟩ := Table.find?_eq_some.mp hother
      have hne : row.candidateIDs.array ≠ other.candidateIDs.array :=
        fun hsame => hk (hkey.symm.trans (h.apart row hrow other hmem hsame).symm)
      rw [Option.map_some, Option.map_some, arrayAt_set_ne hne]

theorem separate_write (h : Separate s) {row row' : TraceRow} (hrow : row ∈ s.traces.rows) {cells : List String}
    (hid : row'.id = row.id) (harray : row'.candidateIDs.array = row.candidateIDs.array)
    (hshared : row'.selectedIDs.array = row.candidateIDs.array) (hnil : row'.rejectedIDs = nilSlice)
    (hcandidate : row'.candidateIDs.len ≤ cells.length) (hselected : row'.selectedIDs.len ≤ cells.length) :
    Separate ⟨s.heap.set row.candidateIDs.array cells, s.traces.upsert row'⟩ := by
  have hinside := h.inside row hrow
  -- a row of the new table is the written one, or an old one with another array
  have hcases : ∀ r ∈ (s.traces.upsert row').rows,
      r = row' ∨ r ∈ s.traces.rows ∧ r.id ≠ row.id ∧ row.candidateIDs.array ≠ r.candidateIDs.array := by
    intro r hr
    rcases Table.mem_upsert.mp hr with rfl | ⟨hmem, hne⟩
    · exact Or.inl rfl
    · rw [hid] at hne
      exact Or.inr ⟨hmem, hne, fun hsame => hne (h.apart row hrow r hmem hsame).symm⟩
  constructor
  · intro r hr
    rw [List.length_set]
    rcases hcases r hr with rfl | ⟨hmem, -, -⟩
    · rwa [harray]
    · exact h.inside r hmem
  · intro r hr
    rcases hcases r hr with rfl | ⟨hmem, -, -⟩
    · rw [hshared, harray]
    · exact h.shared r hmem
  · intro r hr
    rcases hcases r hr with rfl | ⟨hmem, -, hne⟩
    · rwa [harray, arrayAt_set_self hinside]
    · rw [arrayAt_set_ne hne]
      exact h.candidateLen r hmem
  · intro r hr
    rcases hcases r hr with rfl | ⟨hmem, -, hne⟩
    · rwa [harray, arrayAt_set_self hinside]
    · rw [arrayAt_set_ne hne]
      exact h.selectedLen r hmem
  · intro r hr
    rcases hcases r hr with rfl | ⟨hmem, -, -⟩
    · exact hnil
    · exact h.noRejected r hmem
  · intro r hr r' hr' hsame
    rcases hcases r hr with rfl | ⟨hmem, -, hne⟩
    · rcases hcases r' hr' with rfl | ⟨-, -, hne'⟩
      · rfl
      · exact absurd (harray.symm.trans hsame) hne'
    · rcases hcases r' hr' with rfl | ⟨hmem', -, -⟩
      · exact absurd (hsame.trans harray).symm hne
      · exact h.apart r hmem r' hmem' hsame

/-- A round leaves every row its own array, and is `View.afterDelete` on the row it is about. -/
theorem deleteAt_spec (h : Separate s) (tenantID memoryID id : String) :
    Separate (deleteAt tenantID memoryID s id) ∧
      ∀ k, (deleteAt tenantID memoryID s id).view k =
        if k = id then (s.view k).map (View.afterDelete tenantID memoryID) else s.view k := by
  unfold deleteAt
  cases hfind : s.traces.find? id with
  | none =>
    refine ⟨h, fun k => ?_⟩
    by_cases hk : k = id
    · rw [if_pos hk, hk, TraceMap.view, hfind, Option.map_none, Option.map_none]
    · rw [if_neg hk]
  | some row =>
    obtain ⟨hrow, rfl⟩ := Table.find?_eq_some.mp hfind
    by_cases htenant : row.tenantID ≠ tenantID
    · simp only [if_pos htenant]
      refine ⟨h, fun k => ?_⟩
      by_cases hk : k = row.id
      · rw [if_pos hk, hk, view_of_mem hrow, Option.map_some, View.afterDelete, if_pos htenant]
      · rw [if_neg hk]
    · simp only [if_neg htenant, removeMemory_eq h memoryID hrow]
      refine ⟨separate_write h hrow rfl rfl rfl (h.noRejected row hrow) ?_ ?_, fun k => ?_⟩
      · rw [length_secondPass]
        exact length_kept_le memoryID _
      · rw [length_secondPass]
        exact length_keptSelected_le memoryID _
      · refine (view_write h hrow _ ?_ ?_ k).trans ?_
        · rfl
        · rfl
        · by_cases hk : k = row.id
          · rw [if_pos hk, if_pos hk, hk, view_of_mem hrow, Option.map_some, View.afterDelete, if_neg htenant]
            rfl
          · rw [if_neg hk, if_neg hk]

/-- The loop treats every row on its own. -/
theorem foldl_deleteAt_spec (h : Separate s) (tenantID memoryID : String) {ids : List String} (hids : ids.Nodup) :
    Separate (ids.foldl (deleteAt tenantID memoryID) s) ∧
      ∀ k, (ids.foldl (deleteAt tenantID memoryID) s).view k =
        if k ∈ ids then (s.view k).map (View.afterDelete tenantID memoryID) else s.view k := by
  induction ids generalizing s with
  | nil => exact ⟨h, fun k => by simp⟩
  | cons id ids ih =>
    obtain ⟨hfresh, hrest⟩ := List.nodup_cons.mp hids
    obtain ⟨hseparate, hview⟩ := deleteAt_spec h tenantID memoryID id
    obtain ⟨hseparate', hview'⟩ := ih hseparate hrest
    refine ⟨hseparate', fun k => ?_⟩
    rw [List.foldl_cons, hview', hview]
    by_cases hk : k = id
    · subst hk
      rw [if_neg hfresh, if_pos rfl, if_pos List.mem_cons_self]
    · rw [if_neg hk]
      simp only [List.mem_cons, hk, false_or]

/-- Deleting a memory, in whatever order the map is gone through. -/
theorem deleteByMemoryID_spec (h : Separate s) (order : MapOrder) (tenantID memoryID : String) :
    Separate (deleteByMemoryID order s tenantID memoryID) ∧
      ∀ k, (deleteByMemoryID order s tenantID memoryID).view k =
        (s.view k).map (View.afterDelete tenantID memoryID) := by
  have hperm := order.perm (s.traces.rows.map TraceRow.id)
  obtain ⟨hseparate, hview⟩ := foldl_deleteAt_spec h tenantID memoryID (hperm.nodup_iff.mpr s.traces.nodup)
  refine ⟨hseparate, fun k => ?_⟩
  refine (hview k).trans ?_
  by_cases hk : k ∈ order.order (s.traces.rows.map TraceRow.id)
  · rw [if_pos hk]
  · rw [if_neg hk]
    have hnone : s.traces.find? k = none := by
      by_contra hsome
      exact hk (hperm.mem_iff.mpr (Table.mem_map_key.mpr hsome))
    rw [TraceMap.view, hnone, Option.map_none, Option.map_none]

/-! ## Values -/

theorem trace?_eq_value (h : Separate s) (id : String) : s.trace? id = (s.view id).map View.value := by
  unfold TraceMap.trace? TraceMap.view
  cases hfind : s.traces.find? id with
  | none => rfl
  | some row =>
    obtain ⟨hrow, -⟩ := Table.find?_eq_some.mp hfind
    have hrejected : s.heap.read row.rejectedIDs = [] := by
      rw [h.noRejected row hrow]
      exact List.take_zero
    have hselected : s.heap.read row.selectedIDs =
        (s.heap.arrayAt row.candidateIDs.array).take row.selectedIDs.len := by
      rw [Heap.read, h.shared row hrow]
    simp only [Option.map_some, TraceRow.value, View.value, hrejected, hselected]
    rfl

/-- Both lists are one slice. -/
def View.OneSlice (v : View) : Prop := v.1.selectedIDs = v.1.candidateIDs

variable {v : View} {memoryID : String}

/-- What comes into the second list besides: ids that were left behind the kept ones. -/
def View.extra (memoryID : String) (v : View) : List String :=
  ((v.2.take v.1.candidateIDs.len).drop (v.kept memoryID).length).filter fun x => x ≠ memoryID

theorem keptSelected_eq (h : v.OneSlice) : v.keptSelected memoryID = v.kept memoryID ++ v.extra memoryID := by
  have hle : (v.kept memoryID).length ≤ v.1.candidateIDs.len :=
    (List.length_filter_le _ _).trans (List.length_take_le _ _)
  rw [View.keptSelected, h, View.firstPass, take_overwrite_of_le hle, List.filter_append]
  congr 1
  exact List.filter_eq_self.mpr fun x hx => (List.mem_filter.mp hx).2

theorem extra_eq_nil_iff : v.extra memoryID = [] ↔ NothingAfter memoryID v.value.candidateIDs := by
  refine (filter_drop_filter_eq_nil_iff (fun x => decide (x ≠ memoryID)) _).trans ?_
  unfold NothingAfter View.value
  simp only [decide_eq_true_eq]

theorem candidateIDs_remove (h : v.OneSlice) :
    (v.remove memoryID).value.candidateIDs = v.value.candidateIDs.filter fun x => x ≠ memoryID := by
  change (v.secondPass memoryID).take (v.kept memoryID).length = v.kept memoryID
  rw [View.secondPass, keptSelected_eq h, overwrite, List.append_assoc]
  exact List.take_left

theorem selectedIDs_remove (h : v.OneSlice) : (v.remove memoryID).value.selectedIDs =
    (v.value.selectedIDs.filter fun x => x ≠ memoryID) ++ v.extra memoryID := by
  have hsame : v.value.selectedIDs.filter (fun x => x ≠ memoryID) = v.kept memoryID := by
    rw [View.kept, ← h]
    rfl
  rw [hsame, ← keptSelected_eq h]
  exact take_overwrite _ _

/-- Where nothing comes after the memory, its row is as it should be and still one slice. -/
theorem value_remove (h : v.OneSlice) (hlast : NothingAfter memoryID v.value.candidateIDs) :
    (v.remove memoryID).value = withoutMemory memoryID v.value ∧ (v.remove memoryID).OneSlice := by
  have hnone := extra_eq_nil_iff.mpr hlast
  constructor
  · have hcandidates : (v.remove memoryID).value.candidateIDs = _ := candidateIDs_remove h
    have hselected : (v.remove memoryID).value.selectedIDs = _ := selectedIDs_remove h
    rw [hnone, List.append_nil] at hselected
    unfold withoutMemory
    rw [← hcandidates, ← hselected]
    rfl
  · have hkept : v.keptSelected memoryID = _ := keptSelected_eq h
    rw [hnone, List.append_nil] at hkept
    change Slice.mk _ _ = Slice.mk _ _
    rw [hkept]

/-! ## Runs -/

/-- The map stands for the store: each row has its own array, both lists of a row are one slice,
and the traces are the same. -/
structure Refines (st : TraceMap × TraceStore) : Prop where
  separate : Separate st.1
  oneSlice : ∀ id v, st.1.view id = some v → v.OneSlice
  same : ∀ id, st.1.trace? id = st.2.find? id

theorem Refines.exact {st : TraceMap × TraceStore} (h : Refines st) : Exact st := by
  intro id
  rw [h.same]
  exact ⟨rfl, rfl⟩

/-- The row of a saved trace: both lists are the new array. -/
def savedRow (s : TraceMap) (q : Query) (selected : List Candidate) (traceID : String) (now : Time) : TraceRow where
  id := traceID
  query := q.text
  tenantID := q.tenantID
  userID := q.userID
  candidateIDs := ⟨s.heap.length, selected.length⟩
  selectedIDs := ⟨s.heap.length, selected.length⟩
  rejectedIDs := nilSlice
  scores := selected.map fun c => (c.memory.id, c.score)
  filters := q.filters
  tokenEstimate := (selected.map fun c => estimateTokens c.memory.content).sum
  createdAt := now

variable (q : Query) (selected : List Candidate) (traceID : String) (now : Time)

theorem saveTrace_eq : saveTrace s q selected traceID now =
    ⟨s.heap ++ [selected.map (·.memory.id)], s.traces.upsert (savedRow s q selected traceID now)⟩ := rfl

theorem value_savedRow : View.value (savedRow s q selected traceID now, selected.map (·.memory.id)) =
    traceOf q selected traceID now := by
  have htake : (selected.map (·.memory.id)).take selected.length = selected.map (·.memory.id) :=
    List.take_of_length_le (by rw [List.length_map])
  simp only [View.value, savedRow, htake]
  rfl

theorem view_saveTrace (h : Separate s) (k : String) : (saveTrace s q selected traceID now).view k =
    if traceID = k then some (savedRow s q selected traceID now, selected.map (·.memory.id)) else s.view k := by
  rw [saveTrace_eq, TraceMap.view, Table.find?_upsert]
  change Option.map _ (if traceID = k then _ else _) = _
  by_cases hk : traceID = k
  · rw [if_pos hk, if_pos hk, Option.map_some]
    exact congrArg some (Prod.ext rfl (arrayAt_append_length s.heap _))
  · rw [if_neg hk, if_neg hk, TraceMap.view]
    cases hother : s.traces.find? k with
    | none => rfl
    | some row =>
      have hinside := h.inside row (Table.find?_eq_some.mp hother).1
      rw [Option.map_some, Option.map_some, arrayAt_append_of_lt hinside]

theorem separate_saveTrace (h : Separate s) : Separate (saveTrace s q selected traceID now) := by
  have hnew : Heap.arrayAt (s.heap ++ [selected.map (·.memory.id)]) s.heap.length = selected.map (·.memory.id) :=
    arrayAt_append_length s.heap _
  have hcases : ∀ row ∈ (s.traces.upsert (savedRow s q selected traceID now)).rows,
      row = savedRow s q selected traceID now ∨ row ∈ s.traces.rows ∧ row.candidateIDs.array < s.heap.length := by
    intro row hrow
    rcases Table.mem_upsert.mp hrow with rfl | ⟨hmem, -⟩
    · exact Or.inl rfl
    · exact Or.inr ⟨hmem, h.inside row hmem⟩
  have hlen : selected.length ≤ (Heap.arrayAt (s.heap ++ [selected.map (·.memory.id)]) s.heap.length).length := by
    rw [hnew, List.length_map]
  rw [saveTrace_eq]
  constructor
  · intro row hrow
    rw [List.length_append, List.length_singleton]
    rcases hcases row hrow with rfl | ⟨-, hinside⟩
    · exact Nat.lt_succ_self s.heap.length
    · omega
  · intro row hrow
    rcases hcases row hrow with rfl | ⟨hmem, -⟩
    · rfl
    · exact h.shared row hmem
  · intro row hrow
    rcases hcases row hrow with rfl | ⟨hmem, hinside⟩
    · exact hlen
    · rw [arrayAt_append_of_lt hinside]
      exact h.candidateLen row hmem
  · intro row hrow
    rcases hcases row hrow with rfl | ⟨hmem, hinside⟩
    · exact hlen
    · rw [arrayAt_append_of_lt hinside]
      exact h.selectedLen row hmem
  · intro row hrow
    rcases hcases row hrow with rfl | ⟨hmem, -⟩
    · rfl
    · exact h.noRejected row hmem
  · intro row hrow row' hrow' hsame
    rcases hcases row hrow with rfl | ⟨hmem, hinside⟩
    · rcases hcases row' hrow' with rfl | ⟨-, hinside'⟩
      · rfl
      · exact absurd hsame (Nat.ne_of_gt hinside')
    · rcases hcases row' hrow' with rfl | ⟨hmem', -⟩
      · exact absurd hsame (Nat.ne_of_lt hinside)
      · exact h.apart row hmem row' hmem' hsame

theorem refines_save {st : TraceMap × TraceStore} (h : Refines st) :
    Refines (saveTrace st.1 q selected traceID now, st.2.upsert (traceOf q selected traceID now)) := by
  have hseparate := separate_saveTrace q selected traceID now h.separate
  have hview := view_saveTrace q selected traceID now h.separate
  refine ⟨hseparate, fun k v hv => ?_, fun k => ?_⟩
  · rw [hview] at hv
    split at hv
    · obtain rfl := Option.some.inj hv
      exact rfl
    · exact h.oneSlice k v hv
  · rw [trace?_eq_value hseparate, hview, Table.find?_upsert, ← h.same, trace?_eq_value h.separate]
    change _ = if traceID = k then _ else _
    split
    · rw [Option.map_some, value_savedRow]
    · rfl

theorem value_afterDelete {tenantID : String} (h : v.OneSlice)
    (hlast : v.value.tenantID = tenantID → NothingAfter memoryID v.value.candidateIDs) :
    (v.afterDelete tenantID memoryID).value = afterDelete tenantID memoryID v.value ∧
      (v.afterDelete tenantID memoryID).OneSlice := by
  have hvalue : v.value.tenantID = v.1.tenantID := rfl
  unfold View.afterDelete afterDelete
  rw [hvalue]
  by_cases htenant : v.1.tenantID ≠ tenantID
  · rw [if_pos htenant, if_pos htenant]
    exact ⟨rfl, h⟩
  · rw [if_neg htenant, if_neg htenant]
    exact value_remove h (hlast (not_not.mp htenant))

theorem trace?_delete (h : Separate s) (order : MapOrder) (tenantID memoryID k : String) :
    (deleteByMemoryID order s tenantID memoryID).trace? k =
      (s.view k).map fun v => (v.afterDelete tenantID memoryID).value := by
  obtain ⟨hseparate, hview⟩ := deleteByMemoryID_spec h order tenantID memoryID
  rw [trace?_eq_value hseparate, hview, Option.map_map]
  rfl

theorem refines_delete {st : TraceMap × TraceStore} (h : Refines st) {order : MapOrder} {tenantID memoryID : String}
    (hlast : DeletesLast st (.delete order tenantID memoryID)) :
    Refines (st.1.act (.delete order tenantID memoryID), specAct st.2 (.delete order tenantID memoryID)) := by
  obtain ⟨hseparate, hview⟩ := deleteByMemoryID_spec h.separate order tenantID memoryID
  have hrow : ∀ id v, st.1.view id = some v → (v.afterDelete tenantID memoryID).value =
      afterDelete tenantID memoryID v.value ∧ (v.afterDelete tenantID memoryID).OneSlice := by
    intro id v hv
    refine value_afterDelete (h.oneSlice id v hv) fun htenant => hlast id v.value ?_ htenant
    rw [trace?_eq_value h.separate, hv, Option.map_some]
  refine ⟨hseparate, fun k v hv => ?_, fun k => ?_⟩
  · rw [TraceMap.act, hview] at hv
    obtain ⟨before, hbefore, rfl⟩ := Option.map_eq_some_iff.mp hv
    exact (hrow k before hbefore).2
  · rw [specAct, Table.find?_mapRows, ← h.same, trace?_eq_value h.separate]
    refine (trace?_delete h.separate order tenantID memoryID k).trans ?_
    cases hbefore : st.1.view k with
    | none => rfl
    | some v => simp only [Option.map_some, (hrow k v hbefore).1]

/-- A deletion that leaves the traces exact deleted the last memory of each. -/
theorem last_of_exact {st : TraceMap × TraceStore} (h : Refines st) {order : MapOrder} {tenantID memoryID : String}
    (hexact : Exact (st.1.act (.delete order tenantID memoryID), specAct st.2 (.delete order tenantID memoryID))) :
    DeletesLast st (.delete order tenantID memoryID) := by
  intro id trace htrace htenant
  have hafter := trace?_delete h.separate order tenantID memoryID id
  have hvalue := htrace
  rw [trace?_eq_value h.separate] at hvalue
  obtain ⟨v, hv, rfl⟩ := Option.map_eq_some_iff.mp hvalue
  obtain ⟨-, hselected⟩ := hexact id
  have hv' : ¬ v.1.tenantID ≠ tenantID := not_not.mpr htenant
  simp only [specAct, Table.find?_mapRows, ← h.same, htrace, TraceMap.act, hafter, hv, Option.map_some,
    Option.some.injEq] at hselected
  rw [View.afterDelete, if_neg hv', afterDelete, if_neg (not_not.mpr htenant),
    selectedIDs_remove (h.oneSlice id v hv)] at hselected
  exact extra_eq_nil_iff.mp (List.append_right_eq_self.mp hselected)

theorem refines_empty : Refines (TraceMap.empty, Table.empty) := by
  refine ⟨⟨?_, ?_, ?_, ?_, ?_, ?_⟩, ?_, fun _ => rfl⟩
  · exact fun _ hrow => absurd hrow List.not_mem_nil
  · exact fun _ hrow => absurd hrow List.not_mem_nil
  · exact fun _ hrow => absurd hrow List.not_mem_nil
  · exact fun _ hrow => absurd hrow List.not_mem_nil
  · exact fun _ hrow => absurd hrow List.not_mem_nil
  · exact fun _ hrow => absurd hrow List.not_mem_nil
  · intro id v hv
    cases hv

/-- In every run of `Retrieve` and deletions all traces stay exact if and only if each deleted
memory was the last of the traces that named it. -/
theorem deletes_exact_iff (acts : List TraceAction) :
    (∀ before after st, acts = before ++ after →
      Runs.run step (TraceMap.empty, Table.empty) before = some st → Exact st) ↔
      Runs.Guarded step DeletesLast (TraceMap.empty, Table.empty) acts := by
  have htotal : ∀ st a, ∃ st', step st a = some st' := fun _ _ => ⟨_, rfl⟩
  have hexact : ∀ st, Refines st → Exact st := fun _ h => h.exact
  refine Runs.forall_holds_iff_guarded htotal hexact ?_ ?_ refines_empty acts
  · intro st a st' h hlast hst
    obtain rfl := Option.some.inj hst
    cases a with
    | save q selected traceID now => exact refines_save q selected traceID now h
    | delete order tenantID memoryID => exact refines_delete h hlast
  · intro st a st' h hst hexact
    obtain rfl := Option.some.inj hst
    cases a with
    | save q selected traceID now => trivial
    | delete order tenantID memoryID => exact last_of_exact h hexact

/-! ## Two memories -/

/-- A query of a tenant. -/
def tracedQuery : Query := ⟨"t", "", "", "", "", "fact", 10, 0, 5, []⟩

/-- The candidate for a memory of this id. -/
def candidateOf (id : String) : Candidate := ⟨{ newMemory 5 .fact .user "a fact" with id := id }, 1, [], "text"⟩

/-- A trace of two memories, from which the first is deleted. -/
def deleteFirst : List TraceAction :=
  [.save tracedQuery [candidateOf "a", candidateOf "b"] "trace_1" 5,
    .delete ⟨fun ids => ids, fun ids => List.Perm.refl ids⟩ "t" "a"]

/-- The second memory is selected twice afterwards. -/
theorem deleteFirst_not_exact : ∃ st, Runs.run step (TraceMap.empty, Table.empty) deleteFirst = some st ∧
    (st.1.trace? "trace_1").map Trace.candidateIDs = some ["b"] ∧
    (st.1.trace? "trace_1").map Trace.selectedIDs = some ["b", "b"] ∧ ¬ Exact st := by
  refine ⟨_, rfl, by decide +kernel, by decide +kernel, fun hexact => ?_⟩
  obtain ⟨-, hselected⟩ := hexact "trace_1"
  exact absurd hselected (by decide +kernel)

end AgentMemory.Traces
