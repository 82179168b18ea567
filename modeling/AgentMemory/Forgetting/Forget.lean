import AgentMemory.Services.Indexing

/-!
# Forgetting

`internal/services/forgetting`: deletion (`service.go`), PII redaction (`redaction.go`) and
the retention sweep (`expiration.go`). All of them but the deletion read a memory, change
the copy and `Upsert` it, with nothing that ties the write to the row that was read.
-/

namespace AgentMemory

open Tables Calls

/-- `policy.DeletionRequest`. -/
structure DeletionRequest where
  tenantID : String
  userID : String
  memoryID : String
  reason : String

/-- `policy.DeletionReceipt`. -/
structure DeletionReceipt where
  id : String
  tenantID : String
  memoryID : String
  deletedAt : Time
  reason : String

/-- `policy.RetentionPolicy`. -/
structure RetentionPolicy where
  tenantID : String
  defaultTTL : Int
  deleteExpiredHard : Bool

/-- `Service.Delete` (`forgetting/service.go:32-49`), with the receipt log that both
binaries wire. Only the first call can fail it. -/
def delete (req : DeletionRequest) : Go DeletionReceipt := do
  ask (.delete req.tenantID req.memoryID)
  Prog.ignore (Call.deleteVectors [req.memoryID])
  Prog.ignore (Call.deleteTraces req.tenantID req.memoryID)
  let _ ← ask .now
  let _ ← ask (.newID "rcpt")
  Prog.ignore (Call.appendReceipt ⟨req.tenantID, "delete", req.memoryID, req.reason⟩)
  let now ← ask .now
  pure ⟨"del_" ++ req.memoryID, req.tenantID, req.memoryID, now, req.reason⟩

/-- `withoutLabel` (`redaction.go:88-96`). -/
def withoutLabel (labels : List SafetyLabel) (drop : SafetyLabel) : List SafetyLabel :=
  labels.filter (· ≠ drop)

/-- The memory `Redact` writes (`redaction.go:61-68`). -/
def redacted (mem : Memory) (content summary : String) (now : Time) : Memory :=
  { mem with
    content := content
    summary := summary
    safetyLabels := withoutLabel mem.safetyLabels .safetyPII
    version := mem.version + 1
    updatedAt := now }

/-- What `Redact` does with the copy it read (`redaction.go:59-85`). -/
def redactCopy (redactPII : String → String × Bool) (tenantID memoryID reason : String)
    (mem : Memory) (now : Time) : Go DeletionReceipt := do
  let (content, contentChanged) := redactPII mem.content
  let (summary, summaryChanged) := redactPII mem.summary
  if (contentChanged || summaryChanged) = true then do
    ask (.upsert (redacted mem content summary now))
    indexMemory (redacted mem content summary now)
  let reason := if reason = "" then "pii_redaction" else reason
  pure ⟨"redact_" ++ memoryID, tenantID, memoryID, now, reason⟩

/-- `Redactor.Redact` (`redaction.go:52-86`), for any `redactPII`: the masked text and
whether anything changed. -/
def redact (redactPII : String → String × Bool) (tenantID memoryID reason : String) :
    Go DeletionReceipt := do
  let mem ← ask (.get tenantID memoryID)
  let now ← ask .now
  redactCopy redactPII tenantID memoryID reason mem now

/-- `sweepBatchSize` (`expiration.go:14`). -/
def sweepBatchSize : Int := 500

/-- Whether `Sweep` expires a memory (`expiration.go:41-47`). -/
def sweepExpires (pol : RetentionPolicy) (now : Time) (mem : Memory) : Bool :=
  (match mem.validUntil with
    | some until_ => until_ < now
    | none => false) ||
  (0 < pol.defaultTTL && pol.defaultTTL < now - mem.updatedAt)

/-- What `Sweep` does to an expired memory (`expiration.go:48-63`). -/
def sweepOne (pol : RetentionPolicy) (tenantID : String) (now : Time) (mem : Memory) : Go Unit :=
  if pol.deleteExpiredHard = true then do
    let _ ← delete ⟨tenantID, "", mem.id, "retention_sweep"⟩
    pure ()
  else ask (.upsert { mem with status := .expired, updatedAt := now })

/-- The loop of `Sweep` (`expiration.go:38-65`). -/
def sweepLoop (pol : RetentionPolicy) (tenantID : String) (now : Time) (affected : Nat) :
    List Memory → Go Nat
  | [] => pure affected
  | mem :: rest =>
    if mem.status ≠ .active then sweepLoop pol tenantID now affected rest
    else if sweepExpires pol now mem = false then sweepLoop pol tenantID now affected rest
    else do
      sweepOne pol tenantID now mem
      sweepLoop pol tenantID now (affected + 1) rest

/-- `Sweeper.Sweep` (`expiration.go:31-67`). -/
def sweep (tenantID : String) (pol : RetentionPolicy) : Go Nat := do
  let now ← ask .now
  let memories ← ask (.list { Query.zero with tenantID := tenantID, limit := sweepBatchSize })
  sweepLoop pol tenantID now 0 memories

end AgentMemory
