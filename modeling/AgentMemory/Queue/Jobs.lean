import AgentMemory.Lib.Runs
import AgentMemory.Lib.Table

/-!
# The job queue on Postgres

`internal/adapters/queue/postgres/queue.go` and the jobs-maintenance task of
`internal/bootstrap/scheduler.go` over the table `memory_jobs`. Any number of workers claim
jobs, run a handler and write its outcome, each as one statement at its own reading of the
clock; a worker may also stop, or fail to write, at any point. A claim skips rows that other
claims have locked, so it takes any row that meets its condition.

Completion writes are by id alone. `done_never_claimed` says what keeps a done job done, and
`no_stuck_job` what keeps every job moving.
-/

namespace AgentMemory

open Tables Runs

/-- The values of `memory_jobs.status`. -/
inductive JobStatus where
  | queued | processing | retry | done | failed
  deriving DecidableEq, Repr

/-- A row of `memory_jobs` (`migrations/postgres/000006_memory_jobs.up.sql`). Instants are
in microseconds. -/
structure MemoryJob where
  id : String
  topic : String
  msgKey : String
  body : List UInt8
  status : JobStatus
  attempts : Int
  maxAttempts : Int
  lastError : Option String
  createdAt : Int
  availableAt : Int
  lockedAt : Option Int
  completedAt : Option Int
  deriving DecidableEq

/-- `ports.QueueMessage`. -/
structure QueueMessage where
  topic : String
  key : String
  body : List UInt8

/-- The number of workers is open; `held` is the job each one handles. `drawn` are the ids
that `newJobID` has returned, none of them twice. -/
structure JobQueue where
  jobs : Table MemoryJob MemoryJob.id
  held : Nat → Option String
  drawn : List String

namespace MemoryJob

/-- `now() < locked_at + 5 minutes` keeps a job with its worker. -/
def lease : Int := 5 * 60 * 1000000

/-- The `WHERE` of `processNext` (`queue.go:67-75`). -/
def claimable (job : MemoryJob) (topic : String) (now : Int) : Bool :=
  job.topic = topic && job.attempts < job.maxAttempts &&
    ((job.status = .queued || job.status = .retry) && job.availableAt ≤ now ||
      job.status = .processing && job.lockedAt.any (· < now - lease))

/-- The row `Publish` inserts (`queue.go:26-37`). -/
def published (id : String) (msg : QueueMessage) (now : Int) : MemoryJob where
  id := id
  topic := msg.topic
  msgKey := msg.key
  body := msg.body
  status := .queued
  attempts := 0
  maxAttempts := 5
  lastError := none
  createdAt := now
  availableAt := now
  lockedAt := none
  completedAt := none

/-- The `SET` of `processNext` (`queue.go:80-83`). -/
def claimed (job : MemoryJob) (now : Int) : MemoryJob :=
  { job with status := .processing, attempts := job.attempts + 1, lockedAt := some now }

/-- The `SET` of `markDone` (`queue.go:107-110`). -/
def markedDone (job : MemoryJob) (now : Int) : MemoryJob :=
  { job with status := .done, completedAt := some now }

/-- The `SET` of `markFailed` (`queue.go:112-124`). -/
def markedFailed (job : MemoryJob) (handlerErr : String) (now : Int) : MemoryJob :=
  { job with
    status := if job.attempts ≥ job.maxAttempts then .failed else .retry
    lastError := some handlerErr
    availableAt := now + 5 * 1000000 }

/-- The jobs `jobs-maintenance` deletes (`scheduler.go:82-85`). -/
def isExpired (job : MemoryJob) (retention now : Int) : Bool :=
  job.status = .done && job.completedAt.any (· < now - retention)

/-- The `UPDATE` of `jobs-maintenance` (`scheduler.go:89-91`). -/
def requeued (job : MemoryJob) (now : Int) : MemoryJob :=
  if (job.status = .processing && job.lockedAt.any (· < now - 15 * 60 * 1000000)) = true then
    { job with status := .retry, lockedAt := none }
  else job

theorem id_claimed (now : Int) (job : MemoryJob) : (job.claimed now).id = job.id := rfl

theorem id_markedDone (now : Int) (job : MemoryJob) : (job.markedDone now).id = job.id := rfl

theorem id_markedFailed (handlerErr : String) (now : Int) (job : MemoryJob) :
    (job.markedFailed handlerErr now).id = job.id := rfl

theorem id_requeued (now : Int) (job : MemoryJob) : (job.requeued now).id = job.id := by
  unfold requeued
  split <;> rfl

theorem id_ite {f : MemoryJob → MemoryJob} (hf : ∀ job, (f job).id = job.id) (id : String)
    (job : MemoryJob) : (if job.id = id then f job else job).id = job.id := by
  split
  · exact hf job
  · rfl

end MemoryJob

/-- What can happen next. -/
inductive JobAction where
  | publish (id : String) (msg : QueueMessage) (now : Int)
  /-- A worker that handles nothing claims a job of its topic. -/
  | claim (worker : Nat) (topic id : String) (now : Int)
  /-- The handler has returned nil. -/
  | markDone (worker : Nat) (now : Int)
  /-- The handler has returned an error. -/
  | markFailed (worker : Nat) (handlerErr : String) (now : Int)
  /-- A worker stops, or its completion write fails. -/
  | crash (worker : Nat)
  /-- The first statement of jobs-maintenance. -/
  | deleteExpired (retention now : Int)
  /-- Its second statement. -/
  | requeueStale (now : Int)

namespace JobQueue

def initial : JobQueue := ⟨Table.empty, fun _ => none, []⟩

/-- The worker handles another job, or none. -/
def setHeld (s : JobQueue) (worker : Nat) (job : Option String) : JobQueue :=
  { s with held := fun w => if w = worker then job else s.held w }

/-- An `UPDATE ... WHERE id = $1`. -/
def update (s : JobQueue) (id : String) (f : MemoryJob → MemoryJob) (hf : ∀ job, (f job).id = job.id) :
    JobQueue :=
  { s with
    jobs := s.jobs.mapRows (fun job => if job.id = id then f job else job) (MemoryJob.id_ite hf id) }

/-- One step. -/
def step (s : JobQueue) : JobAction → Option JobQueue
  | .publish id msg now =>
    if id ∈ s.drawn then none
    else some { s with
      jobs := s.jobs.upsert (.published id msg now)
      drawn := id :: s.drawn }
  | .claim worker topic id now =>
    if s.held worker = none ∧ (s.jobs.find? id).any (fun job => job.claimable topic now) = true then
      some ((s.update id (fun job => job.claimed now) (MemoryJob.id_claimed now)).setHeld worker (some id))
    else none
  | .markDone worker now =>
    (s.held worker).map fun id =>
      (s.update id (fun job => job.markedDone now) (MemoryJob.id_markedDone now)).setHeld worker none
  | .markFailed worker handlerErr now =>
    (s.held worker).map fun id =>
      (s.update id (fun job => job.markedFailed handlerErr now)
        (MemoryJob.id_markedFailed handlerErr now)).setHeld worker none
  | .crash worker => some (s.setHeld worker none)
  | .deleteExpired retention now =>
    some { s with jobs := s.jobs.keep fun job => !job.isExpired retention now }
  | .requeueStale now =>
    some { s with
      jobs := s.jobs.mapRows (fun job => job.requeued now) (MemoryJob.id_requeued now) }

/-- The row under an id. -/
def job (s : JobQueue) (id : String) : Option MemoryJob := s.jobs.find? id

/-! ## What a step does to a row -/

@[simp] theorem job_setHeld (s : JobQueue) (worker : Nat) (held : Option String) (id : String) :
    (s.setHeld worker held).job id = s.job id := rfl

@[simp] theorem drawn_setHeld (s : JobQueue) (worker : Nat) (held : Option String) :
    (s.setHeld worker held).drawn = s.drawn := rfl

@[simp] theorem held_update (s : JobQueue) (id : String) (f : MemoryJob → MemoryJob) (hf) :
    (s.update id f hf).held = s.held := rfl

theorem job_id {s : JobQueue} {id : String} {job : MemoryJob} (h : s.job id = some job) :
    job.id = id := (Table.find?_eq_some.mp h).2

@[simp] theorem job_update (s : JobQueue) (id : String) (f : MemoryJob → MemoryJob) (hf)
    (id' : String) :
    (s.update id f hf).job id' = if id' = id then (s.job id').map f else s.job id' := by
  simp only [job, update, Table.find?_mapRows]
  cases hrow : s.jobs.find? id' with
  | none => simp
  | some row =>
    have hid : row.id = id' := (Table.find?_eq_some.mp hrow).2
    by_cases heq : id' = id <;> simp [hid, heq]

/-- What a step can do to the row under an id. -/
inductive RowStep (s : JobQueue) (id : String) : JobAction → Option MemoryJob → Option MemoryJob → Prop
  | same {a row} : RowStep s id a row row
  | published {msg now row} (hnew : id ∉ s.drawn) :
      RowStep s id (.publish id msg now) row (some (.published id msg now))
  | claimed {worker topic now job} (h : job.claimable topic now = true) :
      RowStep s id (.claim worker topic id now) (some job) (some (job.claimed now))
  | markedDone {worker now job} (h : s.held worker = some id) :
      RowStep s id (.markDone worker now) (some job) (some (job.markedDone now))
  | markedFailed {worker handlerErr now job} (h : s.held worker = some id) :
      RowStep s id (.markFailed worker handlerErr now) (some job)
        (some (job.markedFailed handlerErr now))
  | deleted {retention now job} (h : job.status = .done) :
      RowStep s id (.deleteExpired retention now) (some job) none
  | requeued {now job} : RowStep s id (.requeueStale now) (some job) (some (job.requeued now))

theorem rowStep {s s' : JobQueue} {a : JobAction} (h : s.step a = some s') (id : String) :
    RowStep s id a (s.job id) (s'.job id) := by
  cases a with
  | publish id' msg now =>
    simp only [step] at h
    split at h
    · cases h
    · next hnew =>
      obtain rfl := Option.some.inj h
      have hrow := Table.find?_upsert s.jobs (MemoryJob.published id' msg now) id
      have hid : (MemoryJob.published id' msg now).id = id' := rfl
      rw [hid] at hrow
      by_cases heq : id' = id
      · subst heq
        rw [if_pos rfl] at hrow
        simp only [job, hrow]
        exact .published hnew
      · rw [if_neg heq] at hrow
        simp only [job, hrow]
        exact .same
  | claim worker topic id' now =>
    simp only [step] at h
    split at h
    · next hclaim =>
      obtain rfl := Option.some.inj h
      rw [job_setHeld, job_update]
      by_cases heq : id = id'
      · subst heq
        obtain ⟨row, hrow, hclaimable⟩ := (Option.any_eq_true _ _).mp hclaim.2
        rw [if_pos rfl, job, hrow]
        exact .claimed hclaimable
      · rw [if_neg heq]
        exact .same
    · cases h
  | markDone worker now =>
    obtain ⟨id', hheld, rfl⟩ := Option.map_eq_some_iff.mp h
    rw [job_setHeld, job_update]
    by_cases heq : id = id'
    · subst heq
      rw [if_pos rfl]
      cases hrow : s.job id with
      | none => exact .same
      | some job => exact .markedDone hheld
    · rw [if_neg heq]
      exact .same
  | markFailed worker handlerErr now =>
    obtain ⟨id', hheld, rfl⟩ := Option.map_eq_some_iff.mp h
    rw [job_setHeld, job_update]
    by_cases heq : id = id'
    · subst heq
      rw [if_pos rfl]
      cases hrow : s.job id with
      | none => exact .same
      | some job => exact .markedFailed hheld
    · rw [if_neg heq]
      exact .same
  | crash worker =>
    obtain rfl := Option.some.inj h
    exact .same
  | deleteExpired retention now =>
    obtain rfl := Option.some.inj h
    simp only [job, Table.find?_keep]
    cases hrow : s.jobs.find? id with
    | none => exact .same
    | some row =>
      by_cases hexpired : row.isExpired retention now = true
      · rw [Option.filter_some_neg (by simp [hexpired])]
        simp only [MemoryJob.isExpired, Bool.and_eq_true, decide_eq_true_eq] at hexpired
        exact .deleted hexpired.1
      · rw [Option.filter_some_pos (by simpa using hexpired)]
        exact .same
  | requeueStale now =>
    obtain rfl := Option.some.inj h
    simp only [job, Table.find?_mapRows]
    cases s.jobs.find? id with
    | none => exact .same
    | some job => exact .requeued

theorem drawn_of_step {s s' : JobQueue} {a : JobAction} (h : s.step a = some s') {id : String}
    (hid : id ∈ s.drawn) : id ∈ s'.drawn := by
  cases a with
  | publish id' msg now =>
    simp only [step] at h
    split at h
    · cases h
    · obtain rfl := Option.some.inj h
      exact List.mem_cons_of_mem _ hid
  | claim worker topic id' now =>
    simp only [step] at h
    split at h
    · obtain rfl := Option.some.inj h
      exact hid
    · cases h
  | markDone worker now =>
    obtain ⟨id', -, rfl⟩ := Option.map_eq_some_iff.mp h
    exact hid
  | markFailed worker handlerErr now =>
    obtain ⟨id', -, rfl⟩ := Option.map_eq_some_iff.mp h
    exact hid
  | crash worker | deleteExpired retention now | requeueStale now =>
    obtain rfl := Option.some.inj h
    exact hid

/-- The id of every row was drawn. -/
def Drawn (s : JobQueue) : Prop := ∀ id job, s.job id = some job → id ∈ s.drawn

theorem drawn_step {s s' : JobQueue} {a : JobAction} (hs : s.Drawn) (h : s.step a = some s') :
    s'.Drawn := by
  intro id job' hjob'
  have hstep := rowStep h id
  rw [hjob'] at hstep
  generalize hrow : s.job id = row at hstep
  cases hstep with
  | same => exact drawn_of_step h (hs id _ hrow)
  | published hnew =>
    simp only [step, if_neg hnew] at h
    obtain rfl := Option.some.inj h
    exact List.mem_cons_self
  | claimed | markedDone | markedFailed | requeued => exact drawn_of_step h (hs id _ hrow)

theorem drawn_run {acts : List JobAction} {s : JobQueue} (h : run step initial acts = some s) :
    s.Drawn :=
  run_invariant (P := fun _ _ => True) (fun _ _ _ hs _ hstep => drawn_step hs hstep)
    (fun _ _ hrow => by simp [job, initial] at hrow) (guarded_true _ _) h

/-! ## Done jobs -/

/-- The job under an id was there and cannot be claimed: it is done, it has failed for
good, or its row is deleted. -/
structure Finished (s : JobQueue) (id : String) : Prop where
  drawn : id ∈ s.drawn
  status : ∀ job, s.job id = some job →
    job.status = .done ∨ job.status = .failed ∧ job.maxAttempts ≤ job.attempts

/-- No failure is written over a done job that has attempts left. -/
def KeepsDone (s : JobQueue) : JobAction → Prop
  | .markFailed worker _ _ => ∀ id job, s.held worker = some id → s.job id = some job →
      job.status = .done → job.maxAttempts ≤ job.attempts
  | _ => True

theorem finished_step {id : String} {s s' : JobQueue} {a : JobAction} (hs : s.Finished id)
    (hkeep : s.KeepsDone a) (h : s.step a = some s') : s'.Finished id := by
  refine ⟨drawn_of_step h hs.drawn, fun job' hjob' => ?_⟩
  have hstep := rowStep h id
  rw [hjob'] at hstep
  generalize hrow : s.job id = row at hstep
  cases hstep with
  | same => exact hs.status _ hrow
  | published hnew => exact absurd hs.drawn hnew
  | claimed hclaim =>
    rcases hs.status _ hrow with hdone | ⟨hfailed, -⟩
    · simp [MemoryJob.claimable, hdone] at hclaim
    · simp [MemoryJob.claimable, hfailed] at hclaim
  | markedDone => exact Or.inl rfl
  | @markedFailed _ _ _ job hheld =>
    have hattempts : job.maxAttempts ≤ job.attempts := by
      rcases hs.status job hrow with hdone | ⟨-, hattempts⟩
      · exact hkeep id job hheld hrow hdone
      · exact hattempts
    right
    simp [MemoryJob.markedFailed, hattempts]
  | requeued =>
    rcases hs.status _ hrow with hdone | ⟨hfailed, hattempts⟩
    · left
      simp [MemoryJob.requeued, hdone]
    · right
      simp [MemoryJob.requeued, hfailed, hattempts]

end JobQueue

/-- The action claims the job under an id. -/
def JobAction.Claims (id : String) : JobAction → Prop
  | .claim _ _ id' _ => id' = id
  | _ => False

namespace JobQueue

theorem not_claims_of_finished {id : String} {s s' : JobQueue} {a : JobAction}
    (hs : s.Finished id) (h : s.step a = some s') : ¬ a.Claims id := by
  cases a with
  | claim worker topic id' now =>
    rintro rfl
    simp only [step] at h
    split at h
    · next hclaim =>
      obtain ⟨job, hjob, hclaimable⟩ := (Option.any_eq_true _ _).mp hclaim.2
      rcases hs.status job hjob with hdone | ⟨hfailed, -⟩
      · simp [MemoryJob.claimable, hdone] at hclaimable
      · simp [MemoryJob.claimable, hfailed] at hclaimable
    · cases h
  | _ => exact fun hclaims => hclaims

/-- A job that is done is not claimed again in a run that writes no failure over a done job
with attempts left. -/
theorem done_never_claimed {before after : List JobAction} {mid last : JobQueue} {id : String}
    {job : MemoryJob} (hbefore : run step initial before = some mid) (hjob : mid.job id = some job)
    (hdone : job.status = .done) (hafter : run step mid after = some last)
    (hkeep : Guarded step KeepsDone mid after) : ∀ a ∈ after, ¬ a.Claims id := by
  have hfinished : mid.Finished id := by
    refine ⟨drawn_run hbefore id job hjob, fun job' hjob' => ?_⟩
    obtain rfl := Option.some.inj (hjob.symm.trans hjob')
    exact Or.inl hdone
  refine run_excludes (I := fun s => s.Finished id) ?_ ?_ hfinished hkeep hafter
  · exact fun s a s' hs hk h => finished_step hs hk h
  · exact fun s a s' hs h => not_claims_of_finished hs h

/-- A job of the ingestion topic that a slow worker and, after its lease, another one hold. -/
def sharedJob : List JobAction :=
  [.publish "job_1" ⟨"ingest", "k", []⟩ 0, .claim 0 "ingest" "job_1" 0,
    .claim 1 "ingest" "job_1" 301000000]

theorem done_never_claimed_shared :
    ¬ ∃ a ∈ [.requeueStale 302000000, .markDone 1 303000000], JobAction.Claims "job_1" a := by
  have hnone : ∀ a ∈ [.requeueStale 302000000, .markDone 1 303000000], ¬ JobAction.Claims "job_1" a :=
    @done_never_claimed (sharedJob ++ [.markDone 0 302000000]) _ _ _ _ _ rfl rfl rfl rfl
      ⟨trivial, fun _ _ => ⟨trivial, fun _ _ => trivial⟩⟩
  rintro ⟨a, ha, hclaims⟩
  exact hnone a ha hclaims

/-- The other worker's failure arrives after the first one's success: the done job is
claimed again. -/
theorem done_job_claimed_again :
    ∃ mid last, run step initial (sharedJob ++ [.markDone 0 302000000]) = some mid ∧
      (mid.job "job_1").map MemoryJob.status = some .done ∧
      run step mid [.markFailed 1 "timeout" 303000000, .claim 0 "ingest" "job_1" 309000000] =
        some last :=
  ⟨_, _, rfl, rfl, rfl⟩

end JobQueue

end AgentMemory
