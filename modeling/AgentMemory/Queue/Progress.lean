import AgentMemory.Queue.Jobs

/-!
# No job is stuck

A claim raises `attempts` before the handler runs, and no claim takes a job whose attempts
have reached `max_attempts`. If the worker on the last attempt stops, nobody is left to write
`failed`: the lease is not taken over, and jobs-maintenance turns the row into a `retry` that
no claim takes either. `no_stuck_job` says that this is the only way to get stuck, and
`stuck_step` that it is for good.
-/

namespace AgentMemory

open Tables Runs

namespace JobQueue

/-- The job is done, has failed, can be claimed from some instant on, or is in the hands of
a worker that has not stopped. -/
def Resolves (s : JobQueue) (job : MemoryJob) : Prop :=
  job.status = .done ∨ job.status = .failed ∨
    (∃ from_, ∀ now, from_ ≤ now → job.claimable job.topic now = true) ∨
    ∃ worker, s.held worker = some job.id

/-- Whoever stops leaves no job of its last attempt without a worker. -/
def LeavesAttempts (s : JobQueue) : JobAction → Prop
  | .crash worker => ∀ id job, s.held worker = some id → s.job id = some job →
      job.status = .done ∨ job.status = .failed ∨ job.attempts < job.maxAttempts ∨
        ∃ other, other ≠ worker ∧ s.held other = some id
  | _ => True

/-- What holds of a job in a run where nobody leaves the last attempt. -/
structure Live (s : JobQueue) (id : String) (job : MemoryJob) : Prop where
  locked : job.status = .processing → job.lockedAt.isSome
  attended : job.status = .done ∨ job.status = .failed ∨ job.attempts < job.maxAttempts ∨
    ∃ worker, s.held worker = some id

theorem resolves_of_live {s : JobQueue} {id : String} {job : MemoryJob} (hid : job.id = id)
    (h : s.Live id job) : s.Resolves job := by
  subst hid
  unfold Resolves
  rcases h.attended with hdone | hfailed | hattempts | hheld
  · exact Or.inl hdone
  · exact Or.inr (Or.inl hfailed)
  · cases hstatus : job.status with
    | done => exact Or.inl rfl
    | failed => exact Or.inr (Or.inl rfl)
    | queued | retry =>
      refine Or.inr (Or.inr (Or.inl ⟨job.availableAt, fun now hnow => ?_⟩))
      simp [MemoryJob.claimable, hstatus, hattempts, hnow]
    | processing =>
      obtain ⟨lockedAt, hlocked⟩ := Option.isSome_iff_exists.mp (h.locked hstatus)
      refine Or.inr (Or.inr (Or.inl ⟨lockedAt + MemoryJob.lease + 1, fun now hnow => ?_⟩))
      simp [MemoryJob.claimable, hstatus, hattempts, hlocked]
      omega
  · exact Or.inr (Or.inr (Or.inr hheld))

/-! ## What a step does to who holds a job -/

/-- Only an outcome or a stop of its own takes a job from a worker. -/
theorem held_of_step {s s' : JobQueue} {a : JobAction} {worker : Nat} {id : String}
    (hheld : s.held worker = some id) (h : s.step a = some s') :
    s'.held worker = some id ∨ (∃ now, a = .markDone worker now) ∨
      (∃ handlerErr now, a = .markFailed worker handlerErr now) ∨ a = .crash worker := by
  have hother : ∀ {w held}, w ≠ worker → (s.setHeld w held).held worker = some id := fun hne => by
    simp [setHeld, Ne.symm hne, hheld]
  cases a with
  | publish id' msg now =>
    simp only [step] at h
    split at h
    · cases h
    · obtain rfl := Option.some.inj h
      exact Or.inl hheld
  | claim w topic id' now =>
    simp only [step] at h
    split at h
    · next hclaim =>
      obtain rfl := Option.some.inj h
      have hne : w ≠ worker := by
        rintro rfl
        rw [hheld] at hclaim
        cases hclaim.1
      exact Or.inl (hother hne)
    · cases h
  | markDone w now =>
    obtain ⟨id', -, rfl⟩ := Option.map_eq_some_iff.mp h
    by_cases hw : w = worker
    · exact Or.inr (Or.inl ⟨now, by rw [hw]⟩)
    · exact Or.inl (hother hw)
  | markFailed w handlerErr now =>
    obtain ⟨id', -, rfl⟩ := Option.map_eq_some_iff.mp h
    by_cases hw : w = worker
    · exact Or.inr (Or.inr (Or.inl ⟨handlerErr, now, by rw [hw]⟩))
    · exact Or.inl (hother hw)
  | crash w =>
    obtain rfl := Option.some.inj h
    by_cases hw : w = worker
    · exact Or.inr (Or.inr (Or.inr (by rw [hw])))
    · exact Or.inl (hother hw)
  | deleteExpired retention now | requeueStale now =>
    obtain rfl := Option.some.inj h
    exact Or.inl hheld

/-- Only a claim gives a job to a worker. -/
theorem held_before_step {s s' : JobQueue} {a : JobAction} {worker : Nat} {id : String}
    (h : s.step a = some s') (hheld : s'.held worker = some id) :
    s.held worker = some id ∨ a.Claims id := by
  have hother : ∀ {t : JobQueue} {w}, t.held = s.held → (t.setHeld w none).held worker = some id →
      s.held worker = some id := by
    intro t w ht hset
    simp only [setHeld, ht] at hset
    split at hset
    · cases hset
    · exact hset
  cases a with
  | publish id' msg now =>
    simp only [step] at h
    split at h
    · cases h
    · obtain rfl := Option.some.inj h
      exact Or.inl hheld
  | claim w topic id' now =>
    simp only [step] at h
    split at h
    · obtain rfl := Option.some.inj h
      simp only [setHeld] at hheld
      split at hheld
      · exact Or.inr (Option.some.inj hheld)
      · exact Or.inl hheld
    · cases h
  | markDone w now | markFailed w handlerErr now =>
    obtain ⟨id', -, rfl⟩ := Option.map_eq_some_iff.mp h
    exact Or.inl (hother rfl hheld)
  | crash w =>
    obtain rfl := Option.some.inj h
    exact Or.inl (hother rfl hheld)
  | deleteExpired retention now | requeueStale now =>
    obtain rfl := Option.some.inj h
    exact Or.inl hheld

theorem job_markDone {s s' : JobQueue} {worker : Nat} {id : String} {now : Int}
    (hheld : s.held worker = some id) (h : s.step (.markDone worker now) = some s') :
    s'.job id = (s.job id).map fun job => job.markedDone now := by
  simp only [step, hheld, Option.map_some, Option.some.injEq] at h
  subst h
  simp

theorem job_markFailed {s s' : JobQueue} {worker : Nat} {id handlerErr : String} {now : Int}
    (hheld : s.held worker = some id) (h : s.step (.markFailed worker handlerErr now) = some s') :
    s'.job id = (s.job id).map fun job => job.markedFailed handlerErr now := by
  simp only [step, hheld, Option.map_some, Option.some.injEq] at h
  subst h
  simp

/-- A failed job has no attempts left, and a retried one has some. -/
theorem live_markedFailed (s : JobQueue) (id : String) (job : MemoryJob) (handlerErr : String)
    (now : Int) : s.Live id (job.markedFailed handlerErr now) := by
  by_cases hattempts : job.attempts ≥ job.maxAttempts
  · exact ⟨by simp [MemoryJob.markedFailed, hattempts],
      Or.inr (Or.inl (by simp [MemoryJob.markedFailed, hattempts]))⟩
  · exact ⟨by simp [MemoryJob.markedFailed, hattempts],
      Or.inr (Or.inr (Or.inl (Int.not_le.mp hattempts)))⟩

theorem live_requeued {s s' : JobQueue} {id : String} {job : MemoryJob} {now : Int}
    (h : s.Live id job) (hheld : s'.held = s.held) : s'.Live id (job.requeued now) := by
  unfold MemoryJob.requeued
  split
  · next hstale =>
    simp only [Bool.and_eq_true, decide_eq_true_eq] at hstale
    refine ⟨fun hstatus => (by cases hstatus), ?_⟩
    have hattended := h.attended
    rw [hheld]
    simpa [hstale.1] using hattended
  · exact ⟨h.locked, hheld ▸ h.attended⟩

/-- What holds of every job before a step in which nobody leaves the last attempt holds of
every job after it. -/
theorem live_step {s s' : JobQueue} {a : JobAction} (hs : ∀ id job, s.job id = some job → s.Live id job)
    (hleaves : s.LeavesAttempts a) (h : s.step a = some s') :
    ∀ id job, s'.job id = some job → s'.Live id job := by
  intro id job' hjob'
  have hstep := rowStep h id
  rw [hjob'] at hstep
  generalize hrow : s.job id = row at hstep
  cases hstep with
  | same =>
    obtain ⟨hlocked, hattended⟩ := hs id job' hrow
    refine ⟨hlocked, ?_⟩
    rcases hattended with hdone | hfailed | hattempts | ⟨worker, hheld⟩
    · exact Or.inl hdone
    · exact Or.inr (Or.inl hfailed)
    · exact Or.inr (Or.inr (Or.inl hattempts))
    · rcases held_of_step hheld h with hkept | ⟨now, rfl⟩ | ⟨handlerErr, now, rfl⟩ | rfl
      · exact Or.inr (Or.inr (Or.inr ⟨worker, hkept⟩))
      · rw [job_markDone hheld h, hrow] at hjob'
        have hmarked : job'.markedDone now = job' := Option.some.inj hjob'
        exact Or.inl (hmarked ▸ rfl)
      · rw [job_markFailed hheld h, hrow] at hjob'
        have hmarked : job'.markedFailed handlerErr now = job' := Option.some.inj hjob'
        exact hmarked ▸ (live_markedFailed s' id job' handlerErr now).attended
      · rcases hleaves id job' hheld hrow with hdone | hfailed | hattempts | ⟨other, hne, hother⟩
        · exact Or.inl hdone
        · exact Or.inr (Or.inl hfailed)
        · exact Or.inr (Or.inr (Or.inl hattempts))
        · obtain rfl := Option.some.inj h
          exact Or.inr (Or.inr (Or.inr ⟨other, by simp [setHeld, hne, hother]⟩))
  | published => exact ⟨fun hstatus => (by cases hstatus), Or.inr (Or.inr (Or.inl (show (0 : Int) < 5 by decide)))⟩
  | @claimed worker topic now job hclaim =>
    refine ⟨fun _ => rfl, Or.inr (Or.inr (Or.inr ⟨worker, ?_⟩))⟩
    simp only [step] at h
    split at h
    · obtain rfl := Option.some.inj h
      simp [setHeld]
    · cases h
  | markedDone => exact ⟨fun hstatus => (by cases hstatus), Or.inl rfl⟩
  | markedFailed => exact live_markedFailed _ _ _ _ _
  | requeued =>
    obtain rfl := Option.some.inj h
    exact live_requeued (hs id _ hrow) rfl

/-- In a run where no worker leaves the last attempt of a job, every job resolves. -/
theorem no_stuck_job {acts : List JobAction} {s : JobQueue}
    (hleaves : Guarded step LeavesAttempts initial acts) (h : run step initial acts = some s) :
    ∀ id job, s.job id = some job → s.Resolves job := by
  have hinitial : ∀ id job, initial.job id = some job → initial.Live id job := by
    intro id job hjob
    cases hjob
  have hlive : ∀ id job, s.job id = some job → s.Live id job := by
    refine run_invariant (I := fun s => ∀ id job, s.job id = some job → s.Live id job) ?_ hinitial
      hleaves h
    exact fun s a s' hs hk hstep => live_step hs hk hstep
  exact fun id job hjob => resolves_of_live (job_id hjob) (hlive id job hjob)

/-- A worker stops on the first attempt, and the second attempt succeeds. -/
def oneCrash : List JobAction :=
  [.publish "job_1" ⟨"ingest", "k", []⟩ 0, .claim 0 "ingest" "job_1" 0, .crash 0,
    .claim 1 "ingest" "job_1" 301000000]

theorem no_stuck_job_oneCrash :
    ∃ s, run step initial oneCrash = some s ∧ ∀ id job, s.job id = some job → s.Resolves job := by
  refine ⟨_, rfl, no_stuck_job ?_ (rfl : run step initial oneCrash = _)⟩
  refine ⟨trivial, fun s₁ h₁ => ⟨trivial, fun s₂ h₂ => ⟨?_, ?_⟩⟩⟩
  · obtain rfl := Option.some.inj h₁
    obtain rfl := Option.some.inj h₂
    intro id job hheld hjob
    obtain rfl := Option.some.inj hheld
    obtain rfl := Option.some.inj hjob
    exact Or.inr (Or.inr (Or.inl (by decide)))
  · exact fun _ _ => ⟨trivial, fun _ _ => trivial⟩

/-! ## Stuck jobs -/

/-- Nobody holds the job, and its attempts are used up. -/
structure Stuck (s : JobQueue) (id : String) : Prop where
  drawn : id ∈ s.drawn
  unheld : ∀ worker, s.held worker ≠ some id
  row : ∃ job, s.job id = some job ∧ job.status ≠ .done ∧ job.status ≠ .failed ∧
    job.maxAttempts ≤ job.attempts

theorem not_resolves_of_stuck {s : JobQueue} {id : String} (h : s.Stuck id) :
    ∃ job, s.job id = some job ∧ ¬ s.Resolves job := by
  obtain ⟨job, hjob, hdone, hfailed, hattempts⟩ := h.row
  refine ⟨job, hjob, ?_⟩
  rintro (hdone' | hfailed' | ⟨from_, hclaim⟩ | ⟨worker, hheld⟩)
  · exact hdone hdone'
  · exact hfailed hfailed'
  · have hclaimable := hclaim from_ (Int.le_refl _)
    simp only [MemoryJob.claimable, Bool.and_eq_true, decide_eq_true_eq] at hclaimable
    omega
  · exact h.unheld worker (job_id hjob ▸ hheld)

/-- No step frees a stuck job. -/
theorem stuck_step {s s' : JobQueue} {a : JobAction} {id : String} (hs : s.Stuck id)
    (h : s.step a = some s') : s'.Stuck id := by
  obtain ⟨job, hjob, hdone, hfailed, hattempts⟩ := hs.row
  have hclaims : ¬ a.Claims id := by
    cases a with
    | claim worker topic id' now =>
      rintro rfl
      simp only [step] at h
      split at h
      · next hclaim =>
        obtain ⟨job', hjob', hclaimable⟩ := (Option.any_eq_true _ _).mp hclaim.2
        obtain rfl := Option.some.inj (hjob.symm.trans hjob')
        simp only [MemoryJob.claimable, Bool.and_eq_true, decide_eq_true_eq] at hclaimable
        omega
      · cases h
    | _ => exact fun hclaims => hclaims
  refine ⟨drawn_of_step h hs.drawn, fun worker hheld => ?_, ?_⟩
  · rcases held_before_step h hheld with hheld | hclaim
    · exact hs.unheld worker hheld
    · exact hclaims hclaim
  · have hstep := rowStep h id
    rw [hjob] at hstep
    generalize hrow : s'.job id = row at hstep
    cases hstep with
    | same => exact ⟨job, rfl, hdone, hfailed, hattempts⟩
    | published hnew => exact absurd hs.drawn hnew
    | claimed => exact absurd rfl hclaims
    | markedDone hheld | markedFailed hheld => exact absurd hheld (hs.unheld _)
    | deleted hstatus => exact absurd hstatus hdone
    | @requeued now =>
      refine ⟨_, rfl, ?_⟩
      unfold MemoryJob.requeued
      split
      · exact ⟨by simp, by simp, hattempts⟩
      · exact ⟨hdone, hfailed, hattempts⟩

/-- A worker claims a job and stops, five times over. -/
def fiveCrashes : List JobAction :=
  .publish "job_1" ⟨"ingest", "k", []⟩ 0 ::
    (List.range 5).flatMap fun n =>
      [.claim 0 "ingest" "job_1" (n * 301000000), .crash 0]

/-- After them the job never resolves, whatever happens next. -/
theorem stuck_after_five_crashes :
    ∃ s, run step initial fiveCrashes = some s ∧
      ∀ acts s', run step s acts = some s' →
        ∃ job, s'.job "job_1" = some job ∧ ¬ s'.Resolves job := by
  have hrun : ∃ s, run step initial fiveCrashes = some s ∧ s.Stuck "job_1" := by
    refine ⟨_, rfl, List.mem_cons_self, fun worker => ?_, _, rfl, by decide, by decide, by decide⟩
    have hnone : (none : Option String) ≠ some "job_1" := by simp
    cases worker with
    | zero => exact hnone
    | succ n => exact hnone
  obtain ⟨s, hrun, hstuck⟩ := hrun
  refine ⟨s, hrun, fun acts s' hacts => not_resolves_of_stuck ?_⟩
  refine run_invariant (P := fun _ _ => True) (I := fun s => s.Stuck "job_1") ?_ hstuck
    (guarded_true _ _) hacts
  exact fun s a s' hs _ h => stuck_step hs h

end JobQueue

end AgentMemory
