import AgentMemory.Lib.Table
import AgentMemory.Domain.Text
import AgentMemory.Domain.Memory
import Mathlib.Data.List.Perm.Basic

/-!
# Memory stores

The two implementations of `ports.MemoryStore`: the in-process map
(`adapters/storage/memory/memory_store.go`) and the `memories` table
(`adapters/storage/postgres/memory_store.go`). Both hold one row per id. They differ in
what a conflicting `Upsert` keeps of the old row and in how `List` filters, orders and
limits; `Backend` says which one is wired. A map is enumerated in no fixed order, and SQL
leaves the order of ties open, so `Lists` is a relation.
-/

namespace AgentMemory

open Tables

/-- The rows of a memory store, one per id. -/
abbrev MemoryStore := Table Memory Memory.id

/-- Which `ports.MemoryStore` is wired (`bootstrap/app.go`, `storesFor`). Postgres reads
the text of a time filter as a `timestamptz`, and matches texts against an `ILIKE` pattern. -/
inductive Backend where
  | memory
  | postgres (timestamptz : String → Time) (ilike : String → String → Bool)

/-- `matchesQuery` (`storage/memory/memory_store.go:83-103`). -/
def matchesQuery (mem : Memory) (q : Query) : Bool :=
  if mem.status ≠ .active then false
  else if q.tenantID ≠ "" ∧ mem.tenantID ≠ q.tenantID then false
  else if q.userID ≠ "" ∧ mem.userID ≠ q.userID then false
  else if q.agentID ≠ "" ∧ mem.agentID ≠ "" ∧ mem.agentID ≠ q.agentID then false
  else if q.projectID ≠ "" ∧ mem.projectID ≠ "" ∧ mem.projectID ≠ q.projectID then false
  else if q.sessionID ≠ "" ∧ mem.sessionID ≠ "" ∧ mem.sessionID ≠ q.sessionID then false
  else true

/-- The `status` argument of `buildMemoryListQuery`: `active` unless the query asks for
another. -/
def listStatus (q : Query) : String :=
  if q.filter "status" = "" then "active" else q.filter "status"

/-- The `WHERE` clauses of `buildMemoryListQuery` without text search
(`storage/postgres/memory_store.go:140-176`). -/
def listClauses (timestamptz : String → Time) (q : Query) (mem : Memory) : Bool :=
  (q.tenantID = "" || mem.tenantID = q.tenantID) &&
  (q.userID = "" || mem.userID = q.userID) &&
  (q.projectID = "" || mem.projectID = q.projectID) &&
  mem.status = Status.ofName (listStatus q) &&
  (q.filter "type" = "" || mem.type = MemoryType.ofName (q.filter "type")) &&
  (q.filter "created_after" = "" || timestamptz (q.filter "created_after") ≤ mem.createdAt) &&
  (q.filter "created_before" = "" || mem.createdAt ≤ timestamptz (q.filter "created_before"))

/-- `ORDER BY importance DESC, updated_at DESC`. -/
def ListedBefore (a b : Memory) : Prop :=
  b.importance < a.importance ∨ (a.importance = b.importance ∧ b.updatedAt ≤ a.updatedAt)

/-- What `SELECT … WHERE clauses ORDER BY … LIMIT` may return. -/
def Selects (clauses : Memory → Bool) (s : MemoryStore) (q : Query) (out : List Memory) : Prop :=
  ∃ ordered : List Memory, ordered.Perm (s.rows.filter clauses) ∧
    ordered.Pairwise ListedBefore ∧ out = ordered.take q.normalizedLimit

/-- The text clause of `buildMemoryListQuery`. -/
def likeClause (ilike : String → String → Bool) (q : Query) (mem : Memory) : Bool :=
  let text := String.ofList (trimSpace q.text.toList)
  text = "" || ilike mem.content ("%" ++ text ++ "%") || ilike mem.summary ("%" ++ text ++ "%")

/-- `hasAnyToken` (`storage/memory/memory_store.go:105-114`). -/
def hasAnyToken (lower : Char → Char) (content query : List Char) : Bool :=
  let haystack := toLower lower content
  (fields (toLower lower query)).any fun token =>
    let token := trim token punctuation
    2 < len token && contains haystack token

/-- The tests of the in-process `SearchByText` on a row (`memory_store.go:66-81`). -/
def textMatches (lower : Char → Char) (q : Query) (mem : Memory) : Bool :=
  let needle := toLower lower (trimSpace q.text.toList)
  matchesQuery mem q &&
    (needle = [] || contains (toLower lower mem.content.toList) needle ||
      hasAnyToken lower mem.content.toList needle)

/-- A metadata value after `json.Marshal` and `json.Unmarshal`. -/
def MetaValue.decoded : MetaValue → MetaValue
  | .versions history => .decodedVersions history
  | v => v

/-- A memory as the `memories` table gives it back. -/
def Memory.encoded (m : Memory) : Memory :=
  { m with metadata := m.metadata.map fun kv => (kv.1, kv.2.decoded) }

theorem lookup_encoded (m : Memory) (key : String) :
    m.encoded.metadata.lookup key = (m.metadata.lookup key).map MetaValue.decoded := by
  unfold Memory.encoded
  dsimp only
  induction m.metadata with
  | nil => rfl
  | cons kv rest ih =>
    rw [List.map_cons, List.lookup_cons, List.lookup_cons, ih]
    cases (key == kv.1) <;> rfl

namespace Backend

/-- The row `Upsert` leaves under the id of `mem`. The map stores `mem`; the table's
`ON CONFLICT (id) DO UPDATE` (`postgres/memory_store.go:41-60`) sets every column but
`tenant_id` and `created_at`. -/
def stored : Backend → Option Memory → Memory → Memory
  | .memory, _, mem => mem
  | .postgres _ _, none, mem => mem.encoded
  | .postgres _ _, some old, mem =>
      { mem.encoded with tenantID := old.tenantID, createdAt := old.createdAt }

/-- `MemoryStore.Upsert`. -/
def upsert (b : Backend) (s : MemoryStore) (mem : Memory) : MemoryStore :=
  s.upsert (b.stored (s.find? mem.id) mem)

/-- `MemoryStore.Get`; `none` is `ErrNotFound`. -/
def get (_ : Backend) (s : MemoryStore) (tenantID memoryID : String) : Option Memory :=
  (s.find? memoryID).filter fun mem => mem.tenantID = tenantID ∧ mem.status ≠ .deleted

/-- `MemoryStore.Delete`; `none` is `ErrNotFound`. The table also stamps `updated_at`
(`postgres/memory_store.go:89-107`). -/
def delete (b : Backend) (s : MemoryStore) (tenantID memoryID : String) (now : Time) :
    Option MemoryStore :=
  match s.find? memoryID with
  | none => none
  | some mem =>
      if mem.tenantID ≠ tenantID then none
      else match b with
        | .memory => some (s.upsert { mem with status := .deleted })
        | .postgres _ _ => some (s.upsert { mem with status := .deleted, updatedAt := now })

/-- `MemoryStore.List`: what it may return for a query. -/
def Lists : Backend → MemoryStore → Query → List Memory → Prop
  | .memory, s, q, out => out.Perm (s.rows.filter (matchesQuery · q))
  | .postgres timestamptz _, s, q, out => Selects (listClauses timestamptz q) s q out

/-- `MemoryStore.SearchByText`: what it may return for a query. -/
def Searches (lower : Char → Char) : Backend → MemoryStore → Query → List Memory → Prop
  | .memory, s, q, out => out.Perm (s.rows.filter (textMatches lower q))
  | .postgres timestamptz ilike, s, q, out =>
      Selects (fun mem => listClauses timestamptz q mem && likeClause ilike q mem) s q out

@[simp] theorem stored_id (b : Backend) (old : Option Memory) (m : Memory) :
    (b.stored old m).id = m.id := by
  cases b <;> cases old <;> rfl

@[simp] theorem stored_status (b : Backend) (old : Option Memory) (m : Memory) :
    (b.stored old m).status = m.status := by
  cases b <;> cases old <;> rfl

@[simp] theorem stored_content (b : Backend) (old : Option Memory) (m : Memory) :
    (b.stored old m).content = m.content := by
  cases b <;> cases old <;> rfl

@[simp] theorem stored_isActive (b : Backend) (old : Option Memory) (m : Memory) (now : Time) :
    (b.stored old m).isActive now = m.isActive now := by
  cases b <;> cases old <;> rfl

/-- What an `Upsert` changes: the row under the id it writes. -/
theorem find?_upsert (b : Backend) (s : MemoryStore) (m : Memory) (id : String) :
    (b.upsert s m).find? id = if m.id = id then some (b.stored (s.find? m.id) m) else s.find? id := by
  simp [upsert, Table.find?_upsert]

theorem mem_upsert (b : Backend) {s : MemoryStore} {m r : Memory} :
    r ∈ (b.upsert s m).rows ↔ r = b.stored (s.find? m.id) m ∨ (r ∈ s.rows ∧ r.id ≠ m.id) := by
  simp [upsert, Table.mem_upsert]

theorem mem_of_selects {clauses : Memory → Bool} {s : MemoryStore} {q : Query} {out : List Memory}
    (h : Selects clauses s q out) {m : Memory} (hm : m ∈ out) : m ∈ s.rows ∧ clauses m = true := by
  obtain ⟨ordered, hp, -, rfl⟩ := h
  exact List.mem_filter.mp (hp.mem_iff.mp (List.mem_of_mem_take hm))

/-- A listed memory is a row of the store. -/
theorem mem_rows_of_lists {b : Backend} {s : MemoryStore} {q : Query} {out : List Memory}
    (h : b.Lists s q out) {m : Memory} (hm : m ∈ out) : m ∈ s.rows := by
  cases b with
  | memory => exact (List.mem_filter.mp (h.mem_iff.mp hm)).1
  | postgres ts ilike => exact (mem_of_selects h hm).1

/-- No memory is listed twice. -/
theorem nodup_of_lists {b : Backend} {s : MemoryStore} {q : Query} {out : List Memory}
    (h : b.Lists s q out) : (out.map Memory.id).Nodup := by
  cases b with
  | memory =>
    exact ((h.map _).nodup_iff).mpr (s.nodup.sublist (List.filter_sublist.map _))
  | postgres ts ilike =>
    obtain ⟨ordered, hp, -, rfl⟩ := h
    have ho : (ordered.map Memory.id).Nodup :=
      ((hp.map _).nodup_iff).mpr (s.nodup.sublist (List.filter_sublist.map _))
    exact ho.sublist ((List.take_sublist _ _).map _)

/-- `List` without a status filter returns memories with status `active` only. -/
theorem active_of_lists {b : Backend} {s : MemoryStore} {q : Query} {out : List Memory}
    (h : b.Lists s q out) (hq : q.filter "status" = "") {m : Memory} (hm : m ∈ out) :
    m.status = .active := by
  cases b with
  | memory =>
    have := (List.mem_filter.mp (h.mem_iff.mp hm)).2
    by_contra hne
    simp [matchesQuery, hne] at this
  | postgres ts ilike =>
    have := (mem_of_selects h hm).2
    simp only [listClauses, listStatus, hq, Bool.and_eq_true, if_true] at this
    simpa [Status.ofName] using this.1.1.1.2

theorem ofName_eq_deleted {name : String} (h : Status.ofName name = .deleted) :
    name = "deleted" := by
  unfold Status.ofName at h
  split_ifs at h with h1 h2 h3 h4
  exact h3

/-- `List` returns a deleted memory only to a query that asks for that status. -/
theorem filter_of_lists_deleted {b : Backend} {s : MemoryStore} {q : Query} {out : List Memory}
    (h : b.Lists s q out) {m : Memory} (hm : m ∈ out) (hst : m.status = .deleted) :
    q.filter "status" = "deleted" := by
  cases b with
  | memory =>
    have hq := (List.mem_filter.mp (h.mem_iff.mp hm)).2
    simp [matchesQuery, hst] at hq
  | postgres ts ilike =>
    have hq := (mem_of_selects h hm).2
    simp only [listClauses, Bool.and_eq_true, decide_eq_true_eq, hst] at hq
    have hname := ofName_eq_deleted hq.1.1.1.2.symm
    unfold listStatus at hname
    split_ifs at hname with hempty
    · exact absurd hname (by decide)
    · exact hname

/-- The row `Get` returns is the one under the id, of the tenant and not deleted. -/
theorem get_eq_some {b : Backend} {s : MemoryStore} {tenantID memoryID : String} {m : Memory} :
    b.get s tenantID memoryID = some m ↔
      s.find? memoryID = some m ∧ m.tenantID = tenantID ∧ m.status ≠ .deleted := by
  simp [get, Option.filter_eq_some_iff]

/-- After a `Delete` that succeeds the row under the id has status `deleted`, and no other
row has changed. -/
theorem find?_delete {b : Backend} {s s' : MemoryStore} {tenantID memoryID : String} {now : Time}
    (h : b.delete s tenantID memoryID now = some s') :
    (∃ m, s'.find? memoryID = some m ∧ m.status = .deleted) ∧
      ∀ id, id ≠ memoryID → s'.find? id = s.find? id := by
  unfold delete at h
  cases hf : s.find? memoryID with
  | none => simp [hf] at h
  | some mem =>
    have hid : mem.id = memoryID := (Table.find?_eq_some.mp hf).2
    simp only [hf] at h
    split at h
    · exact absurd h (by simp)
    · cases b <;>
      · simp only [Option.some.injEq] at h
        subst h
        refine ⟨?_, fun id hne => Table.find?_upsert_of_ne _ fun e => hne (e ▸ hid)⟩
        exact ⟨_, by rw [Table.find?_upsert]; exact if_pos hid, rfl⟩

end Backend

end AgentMemory
