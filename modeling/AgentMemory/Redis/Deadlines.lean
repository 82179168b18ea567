import AgentMemory.Redis.RateLimiter

/-!
# The deadlines of the counters

The call of `Allow` that begins a counter also sets its deadline (`rate_limit.go:33-37`), with a second command. Redis
keeps a counter for which nobody does for good. `counters_expire_iff` says in which runs none is left behind.
-/

namespace AgentMemory.Redis

open Runs

/-- A counter without a deadline stands under the name. -/
def Bucket.Undated (b : Bucket) : Prop := ∃ c, b.counter = some c ∧ c.deadline = none

namespace Bucket

variable {b : Bucket} {now : Int}

theorem undated_incr : (b.incr now).2.Undated ↔ b.counter = none ∨ b.Undated := by
  unfold Bucket.incr Undated
  cases b.counter <;> simp

theorem not_undated_pexpire : ¬ (b.pexpire now).2.Undated := by
  unfold Bucket.pexpire Undated
  cases hcounter : b.counter <;> simp [hcounter]

theorem undated_of_expire (h : (b.expire now).Undated) : b.Undated := by
  obtain ⟨c, hc, hdeadline⟩ := h
  exact ⟨c, Option.eq_some_of_filter_eq_some hc, hdeadline⟩

theorem number_incr_of_none (h : b.counter = none) : (b.incr now).1.number = 1 := by
  rw [Bucket.incr, h]

end Bucket

/-- The call is about to set a deadline. -/
def AllowPhase.Expires (phase : AllowPhase) (name : List Char) : Prop :=
  ∃ server answer again, phase = .expiring server name answer again

namespace Limiting

variable {s s' : Limiting} {a : LimitAction} {name : List Char} {call : Nat} {phase : AllowPhase}

def Expiring (s : Limiting) (name : List Char) : Prop := ∃ call, (s.calls call).Expires name

/-- Each counter without a deadline has a call that is about to set it. -/
def Dated (s : Limiting) : Prop := ∀ name, (s.buckets name).Undated → s.Expiring name

/-- The steps after which nobody sets the deadline of a counter. -/
inductive Strands (s : Limiting) : LimitAction → Prop
  /-- A counter is begun by a command that was given up. -/
  | deliver {index : Nat} {name : List Char} (hlate : s.late[index]? = some (.incr name))
    (hnone : (s.buckets name).counter = none) (hidle : ¬ s.Expiring name) : Strands s (.deliver index)
  /-- It is begun, and the answer comes too late. -/
  | keep {call server : Nat} {name : List Char} (hcall : s.calls call = .counting server name true)
    (hnone : (s.buckets name).counter = none) (hidle : ¬ s.Expiring name) : Strands s (.keep call)
  /-- It is begun, and an earlier answer is read, which is not a one. -/
  | hear {call server : Nat} {name : List Char} {again : Bool} {a : Answer} {rest : List Answer}
    (hcall : s.calls call = .counting server name again) (hnone : (s.buckets name).counter = none)
    (hidle : ¬ s.Expiring name) (hunread : s.unread server = a :: rest) (hnumber : a.number ≠ 1) :
    Strands s (.hear call)
  /-- The call that was to set the deadline gives up. -/
  | fail {call server : Nat} {name : List Char} {a : Answer} (hcall : s.calls call = .expiring server name a true)
    (hundated : (s.buckets name).Undated) (hidle : ∀ i ≠ call, ¬ (s.calls i).Expires name) : Strands s (.fail call)

theorem expiring_setCall (h : s.Expiring name) (hcall : ¬ (s.calls call).Expires name) :
    (s.setCall call phase).Expiring name := by
  obtain ⟨i, hi⟩ := h
  have hne : i ≠ call := fun heq => hcall (heq ▸ hi)
  exact ⟨i, (calls_setCall_of_ne s phase hne).symm ▸ hi⟩

theorem expiring_of_setCall (h : (s.setCall call phase).Expiring name) (hphase : ¬ phase.Expires name) :
    ∃ i ≠ call, (s.calls i).Expires name := by
  obtain ⟨i, hi⟩ := h
  have hne : i ≠ call := by
    rintro rfl
    exact hphase ((calls_setCall_self s i phase) ▸ hi)
  exact ⟨i, hne, (calls_setCall_of_ne s phase hne) ▸ hi⟩

theorem buckets_execute_of_ne (s : Limiting) {c : Command} (h : name ≠ c.name) :
    (s.execute c).buckets name = s.buckets name := if_neg h

/-- A counter that is new, and one that had no deadline. -/
theorem undated_execute_incr {counted : List Char} (h : ((s.execute (.incr counted)).buckets name).Undated) :
    (name = counted ∧ (s.buckets counted).counter = none) ∨ (s.buckets name).Undated := by
  by_cases hname : name = counted
  · subst hname
    rw [show (s.execute (.incr name)).buckets name = _ from buckets_execute_self s (.incr name)] at h
    exact (Bucket.undated_incr.mp h).imp (fun hnone => ⟨rfl, hnone⟩) id
  · rw [buckets_execute_of_ne s (c := .incr counted) hname] at h
    exact Or.inr h

theorem undated_of_execute_incr {counted : List Char} (h : (s.buckets counted).counter = none) :
    ((s.execute (.incr counted)).buckets counted).Undated :=
  (buckets_execute_self s (.incr counted)).symm ▸ Bucket.undated_incr.mpr (Or.inl h)

theorem undated_execute_pexpire {dated : List Char} (h : ((s.execute (.pexpire dated)).buckets name).Undated) :
    name ≠ dated ∧ (s.buckets name).Undated := by
  by_cases hname : name = dated
  · subst hname
    rw [show (s.execute (.pexpire name)).buckets name = _ from buckets_execute_self s (.pexpire name)] at h
    exact absurd h Bucket.not_undated_pexpire
  · rw [buckets_execute_of_ne s (c := .pexpire dated) hname] at h
    exact ⟨hname, h⟩

theorem not_expires_counting {server : Nat} {counted : List Char} {again : Bool}
    (hcall : s.calls call = .counting server counted again) : ¬ (s.calls call).Expires name := by
  rintro ⟨_, _, _, heq⟩
  rw [hcall] at heq
  cases heq

theorem not_expires_of_ne {server : Nat} {dated : List Char} {answer : Answer} {again : Bool}
    (hcall : s.calls call = .expiring server dated answer again) (hname : name ≠ dated) :
    ¬ (s.calls call).Expires name := by
  rintro ⟨_, _, _, heq⟩
  rw [hcall] at heq
  cases heq
  exact hname rfl

theorem not_expires_returned {answer : Option Answer} {counted : List Char} :
    ¬ (AllowPhase.returned counted answer).Expires name := by
  rintro ⟨_, _, _, heq⟩
  cases heq

/-- The call sets the deadline, whatever it hears. -/
theorem dated_setDeadline (h : s.Dated) {server server' : Nat} {dated : List Char} {answer : Answer} {again : Bool}
    {answers : List Answer} (hcall : s.calls call = .expiring server dated answer again) :
    (((s.execute (.pexpire dated)).setUnread server' answers).setCall call phase).Dated := by
  intro name hundated
  obtain ⟨hname, hold⟩ := undated_execute_pexpire hundated
  exact expiring_setCall (h name hold) (not_expires_of_ne hcall hname)

/-- The call counts: a counter without a deadline has a call, or it is the one that this call begins. -/
theorem expiring_or_begun (h : s.Dated) {server server' : Nat} {counted : List Char} {again : Bool}
    {answers : List Answer} (hcall : s.calls call = .counting server counted again)
    (hundated : ((s.execute (.incr counted)).buckets name).Undated) :
    (((s.execute (.incr counted)).setUnread server' answers).setCall call phase).Expiring name ∨
      (name = counted ∧ (s.buckets counted).counter = none ∧ ¬ s.Expiring counted) := by
  have hkeeps : s.Expiring name →
      (((s.execute (.incr counted)).setUnread server' answers).setCall call phase).Expiring name := fun hexpiring =>
    expiring_setCall hexpiring (not_expires_counting hcall)
  obtain ⟨rfl, hnone⟩ | hold := undated_execute_incr hundated
  · by_cases hexpiring : s.Expiring name
    · exact Or.inl (hkeeps hexpiring)
    · exact Or.inr ⟨rfl, hnone, hexpiring⟩
  · exact Or.inl (hkeeps (h name hold))

theorem dated_start (h : s.Dated) {server : Nat} {key : List Char} {window : Int}
    (hstep : s.step (.start call server key window) = some s') : s'.Dated := by
  simp only [step, Option.ite_none_right_eq_some, Option.some.injEq] at hstep
  obtain ⟨hidle, rfl⟩ := hstep
  refine fun name hundated => expiring_setCall (h name hundated) ?_
  rintro ⟨_, _, _, heq⟩
  rw [hidle] at heq
  cases heq

theorem dated_deliver_iff (h : s.Dated) {index : Nat} (hstep : s.step (.deliver index) = some s') :
    s'.Dated ↔ ¬ s.Strands (.deliver index) := by
  obtain ⟨c, hlate, rfl⟩ := Option.map_eq_some_iff.mp hstep
  constructor
  · rintro hdated (⟨hincr, hnone, hidle⟩ | _ | _ | _)
    cases hlate.symm.trans hincr
    exact hidle (hdated _ (undated_of_execute_incr hnone))
  · intro hstrands name hundated
    cases c with
    | incr counted =>
      obtain ⟨rfl, hnone⟩ | hold := undated_execute_incr hundated
      · by_contra hidle
        exact hstrands (.deliver hlate hnone hidle)
      · exact h name hold
    | pexpire dated => exact h name (undated_execute_pexpire hundated).2

theorem dated_keep_iff (h : s.Dated) (hstep : s.step (.keep call) = some s') :
    s'.Dated ↔ ¬ s.Strands (.keep call) := by
  simp only [step, Option.ite_none_right_eq_some] at hstep
  obtain ⟨hagain, hstep⟩ := hstep
  obtain ⟨⟨server, c⟩, hcommand, rfl⟩ := Option.map_eq_some_iff.mp hstep
  cases hcall : s.calls call with
  | idle => simp [hcall, AllowPhase.again] at hagain
  | returned name answer => simp [hcall, AllowPhase.again] at hagain
  | counting server' counted again =>
    obtain rfl : again = true := by simpa [hcall, AllowPhase.again] using hagain
    rw [hcall] at hcommand
    cases hcommand
    constructor
    · rintro hdated (_ | ⟨hcounting, hnone, hidle⟩ | _ | _)
      cases hcall.symm.trans hcounting
      obtain ⟨i, -, hi⟩ := expiring_of_setCall (hdated counted (undated_of_execute_incr hnone)) not_expires_returned
      exact hidle ⟨i, hi⟩
    · intro hstrands name hundated
      obtain hexpiring | ⟨rfl, hnone, hidle⟩ := expiring_or_begun h hcall hundated
      · exact hexpiring
      · exact absurd (.keep hcall hnone hidle) hstrands
  | expiring server' dated answer again =>
    rw [hcall] at hcommand
    cases hcommand
    refine iff_of_true (dated_setDeadline h hcall) ?_
    rintro (_ | ⟨hcounting, _, _⟩ | _ | _)
    cases hcall.symm.trans hcounting

theorem dated_fail_iff (h : s.Dated) (hstep : s.step (.fail call) = some s') :
    s'.Dated ↔ ¬ s.Strands (.fail call) := by
  obtain ⟨⟨server, c⟩, hcommand, rfl⟩ := Option.map_eq_some_iff.mp hstep
  cases hcall : s.calls call with
  | idle => simp [hcall, AllowPhase.command] at hcommand
  | returned name answer => simp [hcall, AllowPhase.command] at hcommand
  | counting server' counted again =>
    refine iff_of_true (fun name hundated => ?_) ?_
    · exact expiring_setCall (h name hundated) (not_expires_counting hcall)
    · rintro (_ | _ | _ | ⟨hexpiring, _, _⟩)
      cases hcall.symm.trans hexpiring
  | expiring server' dated answer again =>
    cases again with
    | false =>
      refine iff_of_true (fun name hundated => ?_) ?_
      · by_cases hname : name = dated
        · subst hname
          exact ⟨call, by simp [AllowPhase.failed, AllowPhase.Expires]⟩
        · exact expiring_setCall (h name hundated) (not_expires_of_ne hcall hname)
      · rintro (_ | _ | _ | ⟨hexpiring, _, _⟩)
        cases hcall.symm.trans hexpiring
    | true =>
      constructor
      · rintro hdated (_ | _ | _ | ⟨hexpiring, hundated, hidle⟩)
        cases hcall.symm.trans hexpiring
        obtain ⟨i, hne, hi⟩ := expiring_of_setCall (hdated dated hundated) not_expires_returned
        exact hidle i hne hi
      · intro hstrands name hundated
        by_contra hidle
        obtain ⟨i, hi⟩ := h name hundated
        have hself : i = call := by
          by_contra hne
          exact hidle ⟨i, (calls_setCall_of_ne _ _ hne).symm ▸ hi⟩
        subst hself
        obtain ⟨_, _, _, heq⟩ := hi
        cases hcall.symm.trans heq
        refine hstrands (.fail hcall hundated fun j hne hj => hidle ?_)
        exact ⟨j, (calls_setCall_of_ne _ _ hne).symm ▸ hj⟩

theorem dated_hear_iff (h : s.Dated) (hstep : s.step (.hear call) = some s') :
    s'.Dated ↔ ¬ s.Strands (.hear call) := by
  obtain ⟨⟨server, c⟩, hcommand, rfl⟩ := Option.map_eq_some_iff.mp hstep
  cases hcall : s.calls call with
  | idle => simp [hcall, AllowPhase.command] at hcommand
  | returned name answer => simp [hcall, AllowPhase.command] at hcommand
  | counting server' counted again =>
    rw [hcall] at hcommand
    cases hcommand
    constructor
    · rintro hdated (_ | _ | ⟨hcounting, hnone, hidle, hunread, hnumber⟩ | _)
      cases hcall.symm.trans hcounting
      have hheard := hdated counted (undated_of_execute_incr hnone)
      simp only [hunread, AllowPhase.heard, List.headD_cons, if_neg hnumber] at hheard
      obtain ⟨i, -, hi⟩ := expiring_of_setCall hheard not_expires_returned
      exact hidle ⟨i, hi⟩
    · intro hstrands name hundated
      obtain hexpiring | ⟨rfl, hnone, hidle⟩ := expiring_or_begun h hcall hundated
      · exact hexpiring
      · by_cases hread : ((s.unread server).headD (s.answer (.incr name))).number = 1
        · exact ⟨call, server, _, false, (calls_setCall_self _ _ _).trans (if_pos hread)⟩
        · -- What is read is not a one, so it is not the answer to this command.
          cases hunread : s.unread server with
          | nil =>
            rw [hunread] at hread
            exact absurd (Bucket.number_incr_of_none hnone) hread
          | cons a rest =>
            rw [hunread] at hread
            exact absurd (.hear hcall hnone hidle hunread hread) hstrands
  | expiring server' dated answer again =>
    rw [hcall] at hcommand
    cases hcommand
    refine iff_of_true (dated_setDeadline h hcall) ?_
    rintro (_ | _ | ⟨hcounting, _, _, _, _⟩ | _)
    cases hcall.symm.trans hcounting

theorem dated_step_iff (h : s.Dated) (hstep : s.step a = some s') : s'.Dated ↔ ¬ s.Strands a := by
  cases a with
  | start call server key window => exact iff_of_true (dated_start h hstep) (by rintro (_ | _ | _ | _))
  | hear call => exact dated_hear_iff h hstep
  | fail call => exact dated_fail_iff h hstep
  | keep call => exact dated_keep_iff h hstep
  | deliver index => exact dated_deliver_iff h hstep
  | tick now =>
    simp only [step, Option.ite_none_right_eq_some, Option.some.injEq] at hstep
    obtain ⟨-, rfl⟩ := hstep
    exact iff_of_true (fun name hundated => h name (Bucket.undated_of_expire hundated)) (by rintro (_ | _ | _ | _))

theorem not_strands_of_none (hstep : s.step a = none) : ¬ s.Strands a := by
  rintro (⟨hlate, _, _⟩ | ⟨hcall, _, _⟩ | ⟨hcall, _, _, _, _⟩ | ⟨hcall, _, _⟩)
  · simp [step, hlate] at hstep
  · simp [step, hcall, AllowPhase.again, AllowPhase.command] at hstep
  · simp [step, hcall, AllowPhase.command] at hstep
  · simp [step, hcall, AllowPhase.command] at hstep

/-- In all states that a run reaches every counter without a deadline has a call that is about to set it, exactly if no
step of the run leaves one behind. -/
theorem counters_expire_iff (acts : List LimitAction) :
    (∀ before after s', acts = before ++ after → run step initial before = some s' → s'.Dated) ↔
      Guarded step (fun s a => ¬ s.Strands a) initial acts := by
  have hinitial : initial.Dated := by
    rintro name ⟨c, hc, -⟩
    cases hc
  exact forall_holds_iff_guarded_of_none (I := Dated) (J := Dated)
    (fun _ _ _ hnone => not_strands_of_none hnone) (fun _ h => h)
    (fun _ _ _ h hstrands hstep => (dated_step_iff h hstep).mpr hstrands)
    (fun _ _ _ h hstep hdated => (dated_step_iff h hstep).mp hdated) hinitial acts

end Limiting

end AgentMemory.Redis
