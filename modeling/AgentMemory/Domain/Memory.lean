import Mathlib.Data.Rat.Defs

/-!
# Domain types

`internal/domain/memory` and `internal/domain/retrieval`. An instant is counted in
nanoseconds from Go's zero time, so `IsZero` is `= 0`; scores are exact rationals. Every
string type with named constants keeps a constructor for the other strings a stored row
can hold.
-/

namespace AgentMemory

/-- `time.Time`. -/
abbrev Time := Int

/-- `memory.Type` (`memory/types.go`). -/
inductive MemoryType where
  | episode | fact | preference | procedure | relation | note
  | other (name : String)
  deriving DecidableEq, Repr

/-- The string a `memory.Type` is. -/
def MemoryType.name : MemoryType → String
  | .episode => "episode"
  | .fact => "fact"
  | .preference => "preference"
  | .procedure => "procedure"
  | .relation => "relation"
  | .note => "note"
  | .other name => name

/-- The `memory.Type` a string is. -/
def MemoryType.ofName (name : String) : MemoryType :=
  if name = "episode" then .episode
  else if name = "fact" then .fact
  else if name = "preference" then .preference
  else if name = "procedure" then .procedure
  else if name = "relation" then .relation
  else if name = "note" then .note
  else .other name

/-- `memory.Status` (`memory/types.go`). -/
inductive Status where
  | active | superseded | deleted | expired
  | other (name : String)
  deriving DecidableEq, Repr

/-- The string a `memory.Status` is. -/
def Status.name : Status → String
  | .active => "active"
  | .superseded => "superseded"
  | .deleted => "deleted"
  | .expired => "expired"
  | .other name => name

/-- The `memory.Status` a string is. -/
def Status.ofName (name : String) : Status :=
  if name = "active" then .active
  else if name = "superseded" then .superseded
  else if name = "deleted" then .deleted
  else if name = "expired" then .expired
  else .other name

/-- `memory.Scope` (`memory/scope.go`). -/
inductive Scope where
  | global | tenant | organization | project | agent | user | session | thread
  | other (name : String)
  deriving DecidableEq, Repr

/-- The string a `memory.Scope` is. -/
def Scope.name : Scope → String
  | .global => "global"
  | .tenant => "tenant"
  | .organization => "organization"
  | .project => "project"
  | .agent => "agent"
  | .user => "user"
  | .session => "session"
  | .thread => "thread"
  | .other name => name

/-- `memory.SafetyLabel` (`memory/types.go`). -/
inductive SafetyLabel where
  | safetyPublic | safetyInternal | safetySensitive | safetyPII | safetyCredential
  | safetyPromptAttack
  | other (name : String)
  deriving DecidableEq, Repr

/-- `memory.Version` (`memory/version.go`): a snapshot of an earlier state. -/
structure Version where
  id : String
  memoryID : String
  version : Int
  content : String
  changeReason : String
  createdAt : Time
  deriving DecidableEq, Repr

/-- The values of `Metadata` that the services read or write. A version history is a Go
slice until it goes through JSON; decoded again it is a plain JSON list. -/
inductive MetaValue where
  | text (value : String)
  | versions (history : List Version)
  | decodedVersions (history : List Version)
  deriving DecidableEq, Repr

/-- `memory.Memory` (`memory/memory.go:5-27`). -/
structure Memory where
  id : String
  tenantID : String
  userID : String
  agentID : String
  projectID : String
  sessionID : String
  type : MemoryType
  content : String
  summary : String
  sourceEventIDs : List String
  confidence : ℚ
  importance : ℚ
  validFrom : Time
  validUntil : Option Time
  createdAt : Time
  updatedAt : Time
  status : Status
  scope : Scope
  version : Int
  safetyLabels : List SafetyLabel
  metadata : List (String × MetaValue)
  deriving DecidableEq

/-- `NewMemory` (`memory/memory.go:29-41`). -/
def newMemory (now : Time) (typ : MemoryType) (scope : Scope) (content : String) : Memory where
  id := ""
  tenantID := ""
  userID := ""
  agentID := ""
  projectID := ""
  sessionID := ""
  type := typ
  content := content
  summary := ""
  sourceEventIDs := []
  confidence := 7 / 10
  importance := 1 / 2
  validFrom := now
  validUntil := none
  createdAt := now
  updatedAt := now
  status := .active
  scope := scope
  version := 1
  safetyLabels := []
  metadata := []

/-- A user's fact, as a distiller states it (`NewMemory` and the fields it leaves empty). -/
def userFact (now : Time) (id content : String) : Memory :=
  { newMemory now .fact .user content with id := id, tenantID := "t", userID := "u" }

namespace Memory

/-- `Memory.IsActive` (`memory/memory.go:44-55`). -/
def isActive (m : Memory) (at_ : Time) : Bool :=
  if m.status ≠ .active then false
  else if m.validFrom ≠ 0 ∧ at_ < m.validFrom then false
  else match m.validUntil with
    | some until_ => !(until_ < at_)
    | none => true

theorem status_of_isActive {m : Memory} {at_ : Time} (h : m.isActive at_ = true) :
    m.status = .active := by
  by_contra hne
  simp [isActive, hne] at h

end Memory

/-- `memory.EventRole` (`memory/event.go`). -/
inductive EventRole where
  | user | assistant | system | tool
  | other (name : String)
  deriving DecidableEq, Repr

/-- `memory.Event` (`memory/event.go:18-31`). -/
structure Event where
  id : String
  tenantID : String
  userID : String
  agentID : String
  sessionID : String
  projectID : String
  role : EventRole
  content : String
  toolName : String
  toolResult : String
  createdAt : Time
  metadata : List (String × MetaValue)
  deriving DecidableEq

/-- `retrieval.Query` (`retrieval/query.go:8-20`). -/
structure Query where
  tenantID : String
  userID : String
  agentID : String
  projectID : String
  sessionID : String
  text : String
  limit : Int
  tokenBudget : Int
  now : Time
  filters : List (String × String)
  deriving DecidableEq, Repr

namespace Query

/-- `q.Filters[key]`: the empty string where the map has no such key. -/
def filter (q : Query) (key : String) : String := (q.filters.lookup key).getD ""

/-- `Query.NormalizedLimit` (`retrieval/query.go:22-30`). -/
def normalizedLimit (q : Query) : Nat :=
  if q.limit ≤ 0 then 8 else if 50 < q.limit then 50 else q.limit.toNat

end Query

/-- The zero `retrieval.Query`, from which the services fill in what they ask for. -/
def Query.zero : Query := ⟨"", "", "", "", "", "", 0, 0, 0, []⟩

end AgentMemory
