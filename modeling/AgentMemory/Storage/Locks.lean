import AgentMemory.Lib.Runs
import Mathlib.Data.List.Count
import Mathlib.Data.List.Induction

/-!
# Advisory locks

`WithAdvisoryLock` of `internal/adapters/storage/postgres/locks.go`, with which every job of the scheduler runs
(`leaderSafe` in `internal/bootstrap/scheduler.go`). A lock belongs to a session of the database, and the call gives its
connection back to the pool whether the unlock was executed or not. `jobs_exclusive_iff` says what keeps two processes
from running a job at once, and `lock_refused_iff` what becomes of a lock that was not given back.
-/

namespace AgentMemory

open Runs

/-- A session of the database. It serves one call at a time, and ends at any point, whether a call runs on it or
not. -/
inductive LockSession (Name : Type) where
  | idle
  | running (name : Name)
  /-- The session has ended, and the job that was started on it goes on. -/
  | orphaned (name : Name)
  | closed
  deriving DecidableEq

/-- The sessions of all processes, and the session that holds the lock of a key, with how often it has taken it again
since. -/
structure LockTable (Name Key : Type) where
  sessions : Nat → LockSession Name
  locks : Key → Option (Nat × Nat)

/-- What can happen next. -/
inductive LockAction (Name : Type) where
  /-- A call of `WithAdvisoryLock` on the connection of a session, as far as `fn` (`locks.go:12-24`). -/
  | attempt (session : Nat) (name : Name)
  /-- The lock is taken, and the answer is lost. -/
  | attemptUnheard (session : Nat) (name : Name)
  /-- `fn` has returned and the lock is given back (`locks.go:25-28`). -/
  | finish (session : Nat) (name : Name)
  /-- `fn` has returned, and the unlock is not executed: the context it is given may have ended. -/
  | finishUnheard (session : Nat) (name : Name)
  /-- The session ends. -/
  | close (session : Nat)
  deriving DecidableEq

section Model

variable {Name Key : Type}

namespace LockTable

def initial : LockTable Name Key := ⟨fun _ => .idle, fun _ => none⟩

def setSession (t : LockTable Name Key) (session : Nat) (state : LockSession Name) : LockTable Name Key :=
  { t with sessions := fun s => if s = session then state else t.sessions s }

/-- The end of a session gives back all that it holds. -/
def unlockAll (t : LockTable Name Key) (session : Nat) : LockTable Name Key :=
  { t with locks := fun k => (t.locks k).filter fun lock => lock.1 ≠ session }

/-- How often a session holds the lock of a key. -/
def count (t : LockTable Name Key) (session : Nat) (key : Key) : Nat :=
  match t.locks key with
  | some (holder, again) => if holder = session then again + 1 else 0
  | none => 0

@[simp] theorem count_setSession (t : LockTable Name Key) (session s : Nat) (state : LockSession Name) (k : Key) :
    (t.setSession session state).count s k = t.count s k := rfl

theorem sessions_setSession (t : LockTable Name Key) (session s : Nat) (state : LockSession Name) :
    (t.setSession session state).sessions s = if s = session then state else t.sessions s := rfl

theorem count_of_held {t : LockTable Name Key} {k : Key} {holder again : Nat} (h : t.locks k = some (holder, again))
    (s : Nat) : t.count s k = if holder = s then again + 1 else 0 := by
  rw [count, h]

theorem count_of_free {t : LockTable Name Key} {k : Key} (h : t.locks k = none) (s : Nat) : t.count s k = 0 := by
  rw [count, h]

theorem count_pos_iff {t : LockTable Name Key} {s : Nat} {k : Key} :
    0 < t.count s k ↔ ∃ again, t.locks k = some (s, again) := by
  cases h : t.locks k with
  | none => simp [count_of_free h]
  | some lock =>
    rw [count_of_held h]
    by_cases hs : lock.1 = s
    · rw [if_pos hs]
      exact iff_of_true (Nat.succ_pos _) ⟨lock.2, by rw [← hs]⟩
    · rw [if_neg hs]
      refine iff_of_false (Nat.lt_irrefl 0) fun hsome => ?_
      obtain ⟨again, hagain⟩ := hsome
      exact hs (congrArg Prod.fst (Option.some.inj hagain))

/-- Two sessions do not hold one lock. -/
theorem eq_of_count_pos {t : LockTable Name Key} {s s' : Nat} {k : Key} (h : 0 < t.count s k) (h' : 0 < t.count s' k) :
    s = s' := by
  obtain ⟨again, hs⟩ := count_pos_iff.mp h
  obtain ⟨again', hs'⟩ := count_pos_iff.mp h'
  exact congrArg Prod.fst (Option.some.inj (hs.symm.trans hs'))

theorem count_unlockAll (t : LockTable Name Key) (session s : Nat) (k : Key) :
    (t.unlockAll session).count s k = if s = session then 0 else t.count s k := by
  cases h : t.locks k with
  | none =>
    have hfree : (t.unlockAll session).locks k = none := by simp [unlockAll, h]
    simp [count_of_free hfree, count_of_free h]
  | some lock =>
    by_cases hlock : lock.1 = session
    · have hfree : (t.unlockAll session).locks k = none := by simp [unlockAll, h, hlock]
      rw [count_of_free hfree, count_of_held h]
      split
      · rfl
      · next hs => rw [if_neg fun heq => hs (heq.symm.trans hlock)]
    · have hheld : (t.unlockAll session).locks k = some lock := by simp [unlockAll, h, Option.filter, hlock]
      rw [count_of_held hheld, count_of_held h]
      split
      · next hs => rw [if_neg fun heq => hlock (hs.trans heq)]
      · simp

variable [DecidableEq Key]

def setLock (t : LockTable Name Key) (key : Key) (lock : Option (Nat × Nat)) : LockTable Name Key :=
  { t with locks := fun k => if k = key then lock else t.locks k }

/-- `pg_try_advisory_lock`, where it is not refused. -/
def tryLock (t : LockTable Name Key) (session : Nat) (key : Key) : Option (LockTable Name Key) :=
  match t.locks key with
  | none => some (t.setLock key (some (session, 0)))
  | some (holder, again) => if holder = session then some (t.setLock key (some (session, again + 1))) else none

/-- `pg_advisory_unlock` by the session that holds the lock. -/
def unlock (t : LockTable Name Key) (key : Key) : LockTable Name Key :=
  match t.locks key with
  | some (session, again + 1) => t.setLock key (some (session, again))
  | _ => t.setLock key none

theorem locks_setLock (t : LockTable Name Key) (key k : Key) (lock : Option (Nat × Nat)) :
    (t.setLock key lock).locks k = if k = key then lock else t.locks k := rfl

theorem count_setLock_of_ne (t : LockTable Name Key) {key k : Key} (lock : Option (Nat × Nat)) (h : k ≠ key) (s : Nat) :
    (t.setLock key lock).count s k = t.count s k := by
  rw [count, count, locks_setLock, if_neg h]

/-- A lock that is taken is held once more by the session, and by nobody else. -/
theorem tryLock_eq_some {t t' : LockTable Name Key} {session : Nat} {key : Key} (h : t.tryLock session key = some t') :
    t'.sessions = t.sessions ∧
      ∀ s k, t'.count s k = t.count s k + if s = session ∧ k = key then 1 else 0 := by
  unfold tryLock at h
  split at h
  · next hfree =>
    obtain rfl := Option.some.inj h
    refine ⟨rfl, fun s k => ?_⟩
    by_cases hk : k = key
    · subst hk
      rw [count_of_held (if_pos rfl), count_of_free hfree]
      simp [eq_comm]
    · rw [count_setLock_of_ne t _ hk]
      simp [hk]
  · next holder again hheld =>
    obtain ⟨rfl, h⟩ := Option.ite_none_right_eq_some.mp h
    obtain rfl := Option.some.inj h
    refine ⟨rfl, fun s k => ?_⟩
    by_cases hk : k = key
    · subst hk
      rw [count_of_held (if_pos rfl), count_of_held hheld]
      by_cases hs : holder = s <;> simp [hs, eq_comm]
    · rw [count_setLock_of_ne t _ hk]
      simp [hk]

/-- It is refused where another session holds the lock. -/
theorem tryLock_eq_none_iff {t : LockTable Name Key} {session : Nat} {key : Key} :
    t.tryLock session key = none ↔ ∃ s, s ≠ session ∧ 0 < t.count s key := by
  unfold tryLock
  cases hlock : t.locks key with
  | none => simp [count_of_free hlock]
  | some lock =>
    by_cases hholder : lock.1 = session
    · refine iff_of_false (by simp [hholder]) fun hother => ?_
      obtain ⟨s, hne, hpos⟩ := hother
      obtain ⟨again, hagain⟩ := count_pos_iff.mp hpos
      exact hne ((congrArg Prod.fst (Option.some.inj (hlock.symm.trans hagain))).symm.trans hholder)
    · refine iff_of_true (by simp [hholder]) ⟨lock.1, hholder, count_pos_iff.mpr ⟨lock.2, hlock⟩⟩

/-- An unlock by the holder gives the lock back once. -/
theorem count_unlock {t : LockTable Name Key} {session : Nat} {key : Key} (h : 0 < t.count session key) (s : Nat)
    (k : Key) : (t.unlock key).count s k + (if s = session ∧ k = key then 1 else 0) = t.count s k := by
  obtain ⟨again, hlock⟩ := count_pos_iff.mp h
  have hunlock : t.unlock key = t.setLock key (if again = 0 then none else some (session, again - 1)) := by
    unfold unlock
    rw [hlock]
    cases again <;> rfl
  rw [hunlock]
  by_cases hk : k = key
  · subst hk
    rw [count_of_held hlock]
    cases again with
    | zero => simp [count_of_free (t := t.setLock k none) (if_pos rfl), eq_comm]
    | succ again =>
      rw [if_neg (Nat.succ_ne_zero _), count_of_held (if_pos rfl)]
      by_cases hs : session = s <;> simp [hs, eq_comm]
  · rw [count_setLock_of_ne t _ hk]
    simp [hk]

variable [DecidableEq Name] (hashtext : Name → Key)

/-- One step. -/
def step (t : LockTable Name Key) : LockAction Name → Option (LockTable Name Key)
  | .attempt session name =>
    if t.sessions session = .idle then
      match t.tryLock session (hashtext name) with
      | none => some t
      | some t' => some (t'.setSession session (.running name))
    else none
  | .attemptUnheard session name =>
    if t.sessions session = .idle then t.tryLock session (hashtext name) else none
  | .finish session name =>
    if t.sessions session = .running name then some ((t.unlock (hashtext name)).setSession session .idle)
    else if t.sessions session = .orphaned name then some (t.setSession session .closed)
    else none
  | .finishUnheard session name =>
    if t.sessions session = .running name then some (t.setSession session .idle) else none
  | .close session =>
    match t.sessions session with
    | .running name => some ((t.unlockAll session).setSession session (.orphaned name))
    | .idle => some ((t.unlockAll session).setSession session .closed)
    | _ => none

/-- Everything that a step can do. -/
inductive Stepped (t : LockTable Name Key) : LockAction Name → LockTable Name Key → Prop where
  | refused (session : Nat) (name : Name) : Stepped t (.attempt session name) t
  | started {session : Nat} {name : Name} {t' : LockTable Name Key} (hidle : t.sessions session = .idle)
      (hlock : t.tryLock session (hashtext name) = some t') :
      Stepped t (.attempt session name) (t'.setSession session (.running name))
  | taken {session : Nat} {name : Name} {t' : LockTable Name Key} (hidle : t.sessions session = .idle)
      (hlock : t.tryLock session (hashtext name) = some t') : Stepped t (.attemptUnheard session name) t'
  | finished {session : Nat} {name : Name} (hrunning : t.sessions session = .running name) :
      Stepped t (.finish session name) ((t.unlock (hashtext name)).setSession session .idle)
  | ended {session : Nat} {name : Name} (horphan : t.sessions session = .orphaned name) :
      Stepped t (.finish session name) (t.setSession session .closed)
  | kept {session : Nat} {name : Name} (hrunning : t.sessions session = .running name) :
      Stepped t (.finishUnheard session name) (t.setSession session .idle)
  | orphaned {session : Nat} {name : Name} (hrunning : t.sessions session = .running name) :
      Stepped t (.close session) ((t.unlockAll session).setSession session (.orphaned name))
  | closed {session : Nat} (hidle : t.sessions session = .idle) :
      Stepped t (.close session) ((t.unlockAll session).setSession session .closed)

variable {hashtext}

theorem step_cases {t t' : LockTable Name Key} {a : LockAction Name} (h : t.step hashtext a = some t') :
    t.Stepped hashtext a t' := by
  cases a with
  | attempt session name =>
    simp only [step] at h
    obtain ⟨hidle, h⟩ := Option.ite_none_right_eq_some.mp h
    split at h
    · obtain rfl := Option.some.inj h
      exact .refused session name
    · next mid hmid =>
      obtain rfl := Option.some.inj h
      exact .started hidle hmid
  | attemptUnheard session name =>
    simp only [step] at h
    obtain ⟨hidle, h⟩ := Option.ite_none_right_eq_some.mp h
    exact .taken hidle h
  | finish session name =>
    simp only [step] at h
    split at h
    · next hrunning =>
      obtain rfl := Option.some.inj h
      exact .finished hrunning
    · obtain ⟨horphan, h⟩ := Option.ite_none_right_eq_some.mp h
      obtain rfl := Option.some.inj h
      exact .ended horphan
  | finishUnheard session name =>
    simp only [step] at h
    obtain ⟨hrunning, h⟩ := Option.ite_none_right_eq_some.mp h
    obtain rfl := Option.some.inj h
    exact .kept hrunning
  | close session =>
    simp only [step] at h
    split at h
    · next name hrunning =>
      obtain rfl := Option.some.inj h
      exact .orphaned hrunning
    · next hidle =>
      obtain rfl := Option.some.inj h
      exact .closed hidle
    · cases h

omit [DecidableEq Name] in
theorem sessions_unlock (t : LockTable Name Key) (key : Key) : (t.unlock key).sessions = t.sessions := by
  unfold unlock
  split <;> rfl

end LockTable

/-! ## What a session holds -/

variable [DecidableEq Key] (hashtext : Name → Key)

/-- One where the job on a session has the key. -/
def LockSession.runs (key : Key) : LockSession Name → Nat
  | .running name => if hashtext name = key then 1 else 0
  | _ => 0

theorem LockSession.runs_of_not_running {state : LockSession Name} {key : Key}
    (h : ∀ name, state ≠ .running name) : state.runs hashtext key = 0 := by
  cases state with
  | running name => exact absurd rfl (h name)
  | _ => rfl

theorem LockSession.runs_pos_iff {state : LockSession Name} {key : Key} :
    0 < state.runs hashtext key ↔ ∃ name, state = .running name ∧ hashtext name = key := by
  cases state with
  | running name => by_cases hk : hashtext name = key <;> simp [LockSession.runs, hk]
  | _ => simp [LockSession.runs]

/-- The session has not ended. -/
def LockSession.live : LockSession Name → Bool
  | .idle => true
  | .running _ => true
  | .orphaned _ => false
  | .closed => false

/-- A lock of the key is taken, or not given back, and nobody knows of it. -/
def LockAction.leaks (session : Nat) (key : Key) : LockAction Name → Bool
  | .attemptUnheard s name => s = session && hashtext name = key
  | .finishUnheard s name => s = session && hashtext name = key
  | _ => false

namespace LockTable

variable [DecidableEq Name] {hashtext}

/-- A job that runs has its lock. -/
def Held (hashtext : Name → Key) (t : LockTable Name Key) : Prop :=
  ∀ s name, t.sessions s = .running name → 0 < t.count s (hashtext name)

omit [DecidableEq Name] in
theorem Held.runs_le {t : LockTable Name Key} (ht : t.Held hashtext) (s : Nat) (k : Key) :
    (t.sessions s).runs hashtext k ≤ t.count s k := by
  cases hstate : t.sessions s with
  | running name =>
    by_cases hk : hashtext name = k
    · have hpos := ht s name hstate
      simp only [LockSession.runs, if_pos hk]
      rwa [hk] at hpos
    · simp [LockSession.runs, hk]
  | _ => exact Nat.zero_le _

/-- What a session holds, and what the job on it accounts for, after a step: a leak is all that is held more. -/
theorem count_step {t t' : LockTable Name Key} {a : LockAction Name} (ht : t.Held hashtext)
    (h : t.step hashtext a = some t') (s : Nat) (k : Key) (ha : a ≠ .close s) :
    t'.count s k + (t.sessions s).runs hashtext k =
      t.count s k + (t'.sessions s).runs hashtext k + if a.leaks hashtext s k = true then 1 else 0 := by
  cases step_cases h with
  | refused session name => simp [LockAction.leaks]
  | started hidle hlock =>
    rename_i session name mid
    obtain ⟨hsessions, hcount⟩ := tryLock_eq_some hlock
    rw [count_setSession, hcount, sessions_setSession, hsessions]
    by_cases hs : s = session
    · subst hs
      simp [hidle, LockSession.runs, LockAction.leaks, eq_comm]
    · simp [hs, LockAction.leaks]
  | taken hidle hlock =>
    rename_i session name
    obtain ⟨hsessions, hcount⟩ := tryLock_eq_some hlock
    have hleaks : (LockAction.attemptUnheard session name).leaks hashtext s k = true ↔
        s = session ∧ k = hashtext name := by
      rw [LockAction.leaks, Bool.and_eq_true, decide_eq_true_eq, decide_eq_true_eq, eq_comm, @eq_comm Key]
    rw [hcount, hsessions]
    simp only [hleaks]
    omega
  | finished hrunning =>
    rename_i session name
    have hcount := count_unlock (ht session name hrunning) s k
    rw [count_setSession, sessions_setSession, sessions_unlock]
    by_cases hs : s = session
    · subst hs
      rw [← hcount]
      simp [hrunning, LockSession.runs, LockAction.leaks, eq_comm]
    · simp only [hs, false_and, if_false, Nat.add_zero] at hcount ⊢
      rw [hcount]
      simp [LockAction.leaks]
  | ended horphan =>
    rename_i session name
    rw [count_setSession, sessions_setSession]
    by_cases hs : s = session
    · subst hs
      simp [horphan, LockSession.runs, LockAction.leaks]
    · simp [hs, LockAction.leaks]
  | kept hrunning =>
    rename_i session name
    rw [count_setSession, sessions_setSession]
    by_cases hs : s = session
    · subst hs
      simp [hrunning, LockSession.runs, LockAction.leaks]
    · simp [hs, LockAction.leaks, Ne.symm hs]
  | orphaned hrunning =>
    rename_i session name
    have hs : s ≠ session := fun heq => ha (heq ▸ rfl)
    rw [count_setSession, sessions_setSession, count_unlockAll, if_neg hs, if_neg hs]
    simp [LockAction.leaks, unlockAll]
  | closed hidle =>
    rename_i session
    have hs : s ≠ session := fun heq => ha (heq ▸ rfl)
    rw [count_setSession, sessions_setSession, count_unlockAll, if_neg hs, if_neg hs]
    simp [LockAction.leaks, unlockAll]

/-- Where a session ends, all that it holds is given back, and nothing runs on it. -/
theorem count_close {t t' : LockTable Name Key} {s : Nat} (h : t.step hashtext (.close s) = some t') :
    (∀ k, t'.count s k = 0) ∧ ∀ name, t'.sessions s ≠ .running name := by
  cases step_cases h with
  | orphaned hrunning => simp [sessions_setSession, count_unlockAll]
  | closed hidle => simp [sessions_setSession, count_unlockAll]

omit [DecidableEq Key] [DecidableEq Name] in
theorem held_initial : (initial : LockTable Name Key).Held hashtext := fun _ _ h => by cases h

theorem held_step {t t' : LockTable Name Key} {a : LockAction Name} (ht : t.Held hashtext)
    (h : t.step hashtext a = some t') : t'.Held hashtext := by
  intro s name hname
  by_cases hclose : a = .close s
  · subst hclose
    exact absurd hname ((count_close h).2 name)
  · have hcount := count_step ht h s (hashtext name) hclose
    have hruns : (t'.sessions s).runs hashtext (hashtext name) = 1 := by simp [hname, LockSession.runs]
    have hbefore := ht.runs_le s (hashtext name)
    omega

theorem held_run {t : LockTable Name Key} {acts : List (LockAction Name)}
    (h : run (step hashtext) (initial : LockTable Name Key) acts = some t) : t.Held hashtext :=
  run_invariant (P := fun _ _ => True) (fun _ _ _ ht _ hstep => held_step ht hstep) held_initial (guarded_true _ _) h

/-- What a session has leaked of a lock, and still holds, after a step. -/
def LockAction.keptAfter (hashtext : Name → Key) (session : Nat) (key : Key) (kept : Nat) : LockAction Name → Nat
  | .close s => if s = session then 0 else kept
  | a => kept + if a.leaks hashtext session key = true then 1 else 0

/-- What a session has leaked of a lock since it began. -/
def kept (hashtext : Name → Key) (session : Nat) (key : Key) (acts : List (LockAction Name)) : Nat :=
  acts.foldl (LockAction.keptAfter hashtext session key) 0

/-- What a session holds is the lock of the job that runs on it, and what it has leaked. -/
theorem count_run {t : LockTable Name Key} {acts : List (LockAction Name)}
    (h : run (step hashtext) (initial : LockTable Name Key) acts = some t) (s : Nat) (k : Key) :
    t.count s k = (t.sessions s).runs hashtext k + kept hashtext s k acts := by
  induction acts using List.reverseRecOn generalizing t with
  | nil =>
    obtain rfl := Option.some.inj h
    rfl
  | append_singleton acts a ih =>
    obtain ⟨mid, hmid, hlast⟩ := run_append.mp h
    obtain ⟨last, hstep, hlast⟩ := run_cons.mp hlast
    obtain rfl := Option.some.inj hlast
    have hbefore := ih hmid
    rw [kept, List.foldl_append, ← kept, List.foldl_cons, List.foldl_nil]
    by_cases hclose : a = .close s
    · subst hclose
      obtain ⟨hnone, hidle⟩ := count_close hstep
      rw [hnone k, LockAction.keptAfter, if_pos rfl, LockSession.runs_of_not_running hashtext hidle]
    · have hcount := count_step (held_run hmid) hstep s k hclose
      have hkept : LockAction.keptAfter hashtext s k (kept hashtext s k acts) a =
          kept hashtext s k acts + if a.leaks hashtext s k = true then 1 else 0 := by
        cases a with
        | close s' =>
          have hne : s' ≠ s := fun heq => hclose (congrArg LockAction.close heq)
          rw [LockAction.keptAfter, if_neg hne]
          rfl
        | _ => rfl
      rw [hkept]
      omega

/-! ## Jobs exclude each other -/

/-- No session ends while a job runs on it. -/
def KeepsSession (t : LockTable Name Key) : LockAction Name → Prop
  | .close s => ∀ name, t.sessions s ≠ .running name
  | _ => True

/-- No job goes on without its session. -/
def Attended (t : LockTable Name Key) : Prop := ∀ s name, t.sessions s ≠ .orphaned name

theorem attended_step {t t' : LockTable Name Key} {a : LockAction Name} (ht : t.Attended) (ha : t.KeepsSession a)
    (h : t.step hashtext a = some t') : t'.Attended := by
  intro s name
  have hs := ht s name
  cases step_cases h with
  | refused session name' => exact hs
  | started hidle hlock =>
    rw [sessions_setSession, (tryLock_eq_some hlock).1]
    split
    · simp
    · exact hs
  | taken hidle hlock => rwa [(tryLock_eq_some hlock).1]
  | finished hrunning =>
    rw [sessions_setSession, sessions_unlock]
    split
    · simp
    · exact hs
  | ended horphan => exact absurd horphan (ht _ _)
  | kept hrunning =>
    rw [sessions_setSession]
    split
    · simp
    · exact hs
  | orphaned hrunning => exact absurd hrunning (ha _)
  | closed hidle =>
    rw [sessions_setSession]
    split
    · simp
    · exact hs

/-- A job runs that was started on the session. -/
def Executes (t : LockTable Name Key) (s : Nat) (name : Name) : Prop :=
  t.sessions s = .running name ∨ t.sessions s = .orphaned name

/-- No two jobs of one key run at once. -/
def Exclusive (hashtext : Name → Key) (t : LockTable Name Key) : Prop :=
  ∀ s s' name name', t.Executes s name → t.Executes s' name' → hashtext name = hashtext name' → s = s'

omit [DecidableEq Key] [DecidableEq Name] in
theorem exclusive_of_attended {t : LockTable Name Key} (hheld : t.Held hashtext) (ht : t.Attended) :
    t.Exclusive hashtext := by
  intro s s' name name' hs hs' hkey
  have hrunning := hs.resolve_right (ht s name)
  have hrunning' := hs'.resolve_right (ht s' name')
  exact eq_of_count_pos (hheld s name hrunning) (hkey ▸ hheld s' name' hrunning')

/-- A session that has ended holds nothing. -/
def Ended (t : LockTable Name Key) : Prop := ∀ s k, (t.sessions s).live = false → t.count s k = 0

theorem ended_step {t t' : LockTable Name Key} {a : LockAction Name} (hheld : t.Held hashtext) (ht : t.Ended)
    (h : t.step hashtext a = some t') : t'.Ended := by
  intro s k hs
  have hbefore := ht s k
  cases step_cases h with
  | refused session name => exact hbefore hs
  | started hidle hlock =>
    obtain ⟨hsessions, hcount⟩ := tryLock_eq_some hlock
    rw [sessions_setSession, hsessions] at hs
    split at hs
    · cases hs
    · next hne => simpa [hcount, hne] using hbefore hs
  | taken hidle hlock =>
    obtain ⟨hsessions, hcount⟩ := tryLock_eq_some hlock
    rw [hsessions] at hs
    rename_i session name
    have hne : s ≠ session := fun heq => by simp [heq, hidle, LockSession.live] at hs
    simpa [hcount, hne] using hbefore hs
  | finished hrunning =>
    rename_i session name
    rw [sessions_setSession, sessions_unlock] at hs
    split at hs
    · cases hs
    · next hne =>
      have hcount := count_unlock (hheld session name hrunning) s k
      rw [hbefore hs] at hcount
      rw [count_setSession]
      omega
  | ended horphan =>
    rename_i session name
    rw [count_setSession]
    by_cases heq : s = session
    · exact hbefore (by rw [heq, horphan]; rfl)
    · rw [sessions_setSession, if_neg heq] at hs
      exact hbefore hs
  | kept hrunning =>
    rw [sessions_setSession] at hs
    split at hs
    · cases hs
    · exact hbefore hs
  | orphaned hrunning =>
    rw [count_setSession, count_unlockAll]
    split
    · rfl
    · next hne => exact hbefore (by rwa [sessions_setSession, if_neg hne] at hs)
  | closed hidle =>
    rw [count_setSession, count_unlockAll]
    split
    · rfl
    · next hne => exact hbefore (by rwa [sessions_setSession, if_neg hne] at hs)

/-- All but finitely many sessions are idle. -/
def Roomy (t : LockTable Name Key) : Prop := ∃ n, ∀ s, n ≤ s → t.sessions s = .idle

omit [DecidableEq Key] [DecidableEq Name] in
theorem Roomy.setSession {t : LockTable Name Key} (ht : t.Roomy) (session : Nat) (state : LockSession Name) :
    (t.setSession session state).Roomy := by
  obtain ⟨n, hn⟩ := ht
  refine ⟨max n (session + 1), fun s hs => ?_⟩
  have hne : s ≠ session := by omega
  rw [sessions_setSession, if_neg hne]
  exact hn s (by omega)

theorem roomy_step {t t' : LockTable Name Key} {a : LockAction Name} (ht : t.Roomy)
    (h : t.step hashtext a = some t') : t'.Roomy := by
  have hsame : ∀ {mid : LockTable Name Key}, mid.sessions = t.sessions → mid.Roomy := fun heq => by
    rwa [Roomy, heq]
  cases step_cases h with
  | refused session name => exact ht
  | started hidle hlock => exact (hsame (tryLock_eq_some hlock).1).setSession _ _
  | taken hidle hlock => exact hsame (tryLock_eq_some hlock).1
  | finished hrunning => exact (hsame (sessions_unlock _ _)).setSession _ _
  | ended horphan => exact ht.setSession _ _
  | kept hrunning => exact ht.setSession _ _
  | orphaned hrunning => exact (hsame rfl).setSession _ _
  | closed hidle => exact (hsame rfl).setSession _ _

/-- What is reached keeps all of this. -/
theorem reached {t : LockTable Name Key} {acts : List (LockAction Name)}
    (h : run (step hashtext) (initial : LockTable Name Key) acts = some t) :
    t.Held hashtext ∧ t.Ended ∧ t.Roomy := by
  refine run_invariant (P := fun _ _ => True) (I := fun t => t.Held hashtext ∧ t.Ended ∧ t.Roomy)
    (fun t a t' ht _ hstep => ?_) ?_ (guarded_true _ _) h
  · obtain ⟨hheld, hended, hroomy⟩ := ht
    exact ⟨held_step hheld hstep, ended_step hheld hended hstep, roomy_step hroomy hstep⟩
  · exact ⟨held_initial, fun _ _ _ => rfl, 0, fun _ _ => rfl⟩

omit [DecidableEq Name] in
theorem exists_tryLock {t : LockTable Name Key} {s : Nat} {k : Key} (h : ∀ s', 0 < t.count s' k → s' = s) :
    ∃ mid, t.tryLock s k = some mid := by
  refine Option.ne_none_iff_exists'.mp fun hnone => ?_
  obtain ⟨s', hne, hpos⟩ := tryLock_eq_none_iff.mp hnone
  exact hne (h s' hpos)

/-- A job that goes on without its session is started again, on an idle session that can have its lock. -/
theorem started_again {t : LockTable Name Key} {s session : Nat} {name : Name} (horphan : t.sessions s = .orphaned name)
    (hidle : t.sessions session = .idle) (hfree : ∀ s', 0 < t.count s' (hashtext name) → s' = session) :
    ∃ t', t.step hashtext (.attempt session name) = some t' ∧ ¬ t'.Exclusive hashtext := by
  obtain ⟨mid, hmid⟩ := exists_tryLock hfree
  have hne : s ≠ session := fun heq => by
    rw [heq, hidle] at horphan
    cases horphan
  refine ⟨mid.setSession session (.running name), by simp [step, hidle, hmid], fun hexclusive => ?_⟩
  refine hne (hexclusive s session name name (.inr ?_) (.inl ?_) rfl)
  · rw [sessions_setSession, if_neg hne, (tryLock_eq_some hmid).1, horphan]
  · rw [sessions_setSession, if_pos rfl]

/-- There is such a session, or will be one as soon as the job that runs on it is done. -/
theorem exists_not_exclusive {t : LockTable Name Key} (hheld : t.Held hashtext) (hended : t.Ended) (hroomy : t.Roomy)
    {s : Nat} {name : Name} (horphan : t.sessions s = .orphaned name) :
    ∃ acts t', Guarded (step hashtext) KeepsSession t acts ∧ run (step hashtext) t acts = some t' ∧
      ¬ t'.Exclusive hashtext := by
  by_cases hlock : ∃ holder, 0 < t.count holder (hashtext name)
  · obtain ⟨holder, hpos⟩ := hlock
    cases hstate : t.sessions holder with
    | idle =>
      obtain ⟨t', hstep, hbroken⟩ := started_again horphan hstate fun s' hs' => eq_of_count_pos hs' hpos
      exact ⟨[.attempt holder name], t', ⟨trivial, fun _ _ => trivial⟩, run_cons.mpr ⟨t', hstep, rfl⟩, hbroken⟩
    | running other =>
      have hne : s ≠ holder := fun heq => by
        rw [heq, hstate] at horphan
        cases horphan
      by_cases hkey : hashtext other = hashtext name
      · refine ⟨[], t, trivial, rfl, fun hexclusive => ?_⟩
        exact hne (hexclusive s holder name other (.inr horphan) (.inl hstate) hkey.symm)
      · -- the session has leaked the lock, and runs another job, which is finished first
        have hfinish : t.step hashtext (.finish holder other) =
            some ((t.unlock (hashtext other)).setSession holder .idle) := by simp [step, hstate]
        have hcount : ∀ s', ((t.unlock (hashtext other)).setSession holder .idle).count s' (hashtext name) =
            t.count s' (hashtext name) := fun s' => by
          have hunlock := count_unlock (hheld holder other hstate) s' (hashtext name)
          rwa [if_neg fun h => hkey h.2.symm, Nat.add_zero] at hunlock
        have horphan' : ((t.unlock (hashtext other)).setSession holder .idle).sessions s = .orphaned name := by
          rw [sessions_setSession, if_neg hne, sessions_unlock, horphan]
        have hidle : ((t.unlock (hashtext other)).setSession holder .idle).sessions holder = .idle := by
          rw [sessions_setSession, if_pos rfl]
        obtain ⟨t', hstep, hbroken⟩ := started_again horphan' hidle fun s' hs' =>
          eq_of_count_pos (hcount s' ▸ hs') hpos
        exact ⟨[.finish holder other, .attempt holder name], t', ⟨trivial, fun _ _ => ⟨trivial, fun _ _ => trivial⟩⟩,
          run_cons.mpr ⟨_, hfinish, run_cons.mpr ⟨t', hstep, rfl⟩⟩, hbroken⟩
    | orphaned other => exact absurd (hended holder _ (by rw [hstate]; rfl)) (Nat.ne_of_gt hpos)
    | closed => exact absurd (hended holder _ (by rw [hstate]; rfl)) (Nat.ne_of_gt hpos)
  · obtain ⟨n, hn⟩ := hroomy
    obtain ⟨t', hstep, hbroken⟩ := started_again horphan (hn n (Nat.le_refl n))
      fun s' hs' => absurd ⟨s', hs'⟩ hlock
    exact ⟨[.attempt n name], t', ⟨trivial, fun _ _ => trivial⟩, run_cons.mpr ⟨t', hstep, rfl⟩, hbroken⟩

/-- As long as sessions end only where no job runs on them, no two jobs of one key run at once, exactly if no session has
ended under its job before. -/
theorem jobs_exclusive_iff {t : LockTable Name Key} {acts : List (LockAction Name)}
    (h : run (step hashtext) (initial : LockTable Name Key) acts = some t) :
    (∀ later t', Guarded (step hashtext) KeepsSession t later → run (step hashtext) t later = some t' →
      t'.Exclusive hashtext) ↔ t.Attended := by
  obtain ⟨hheld, hended, hroomy⟩ := reached h
  constructor
  · intro hexclusive s name horphan
    obtain ⟨later, t', hguard, hrun, hbroken⟩ := exists_not_exclusive hheld hended hroomy horphan
    exact hbroken (hexclusive later t' hguard hrun)
  · intro hattended later t' hguard hrun
    have hafter := run_invariant (I := fun t => t.Held hashtext ∧ t.Attended)
      (fun _ _ _ ht ha hstep => ⟨held_step ht.1 hstep, attended_step ht.2 ha hstep⟩) ⟨hheld, hattended⟩ hguard hrun
    exact exclusive_of_attended hafter.1 hafter.2

theorem jobs_exclusive_iff_two :
    (∀ later t', Guarded (step id)
        KeepsSession ((initial.setLock 7 (some (0, 0))).setSession 0 (.running 7) : LockTable Nat Nat) later →
      run (step id) ((initial.setLock 7 (some (0, 0))).setSession 0 (.running 7)) later = some t' →
        t'.Exclusive id) ↔
      ((initial.setLock 7 (some (0, 0))).setSession 0 (.running 7) : LockTable Nat Nat).Attended :=
  jobs_exclusive_iff (show run (step id) initial [.attempt 0 7, .attempt 1 7] = some _ from rfl)

/-- A lock is refused exactly if a job of its key runs on another session, or another session has leaked it and has not
ended since. -/
theorem lock_refused_iff {t : LockTable Name Key} {acts : List (LockAction Name)}
    (h : run (step hashtext) (initial : LockTable Name Key) acts = some t) (session : Nat) (key : Key) :
    t.tryLock session key = none ↔
      ∃ s, s ≠ session ∧
        ((∃ name, t.sessions s = .running name ∧ hashtext name = key) ∨ 0 < kept hashtext s key acts) := by
  rw [tryLock_eq_none_iff]
  refine exists_congr fun s => and_congr_right fun _ => ?_
  rw [count_run h s key, ← LockSession.runs_pos_iff]
  omega

theorem lock_refused_iff_leaked :
    (initial.setLock 7 (some (0, 0)) : LockTable Nat Nat).tryLock 1 7 = none ↔
      ∃ s, s ≠ 1 ∧ ((∃ name, (initial.setLock 7 (some (0, 0)) : LockTable Nat Nat).sessions s = .running name ∧
        id name = 7) ∨ 0 < kept id s 7 [.attemptUnheard 0 7]) :=
  lock_refused_iff (show run (step id) initial [.attemptUnheard 0 7] = some _ from rfl) 1 7

end LockTable

end Model

end AgentMemory
