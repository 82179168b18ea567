import Mathlib.Logic.Relation
import Mathlib.Logic.Function.Basic

/-!
# Programs over fallible calls

A program makes calls, each answered with a value or an error, and ends with a result or
an error. `Exec` is the big-step semantics over any relation that says how a call may be
answered and what it does to the state; the relation carries every source of
nondeterminism (faults, enumeration orders, fresh identifiers, clocks). `wp` is the
demonic weakest precondition computed from the program, and `wp_iff_exec` makes the two
agree. `recorded` keeps a history of calls beside the state, for properties of whole runs.
-/

namespace Calls

/-- A program over the calls `Op`, where `op` is answered in `Resp op`. -/
inductive Prog (Op : Type) (Resp : Op → Type) (Err : Type) (α : Type) where
  | ret (a : α)
  | fail (e : Err)
  | call (op : Op) (k : Except Err (Resp op) → Prog Op Resp Err α)

namespace Prog

variable {Op : Type} {Resp : Op → Type} {Err : Type} {α β γ : Type}

/-- Sequencing; an error ends the whole program. -/
def bind : Prog Op Resp Err α → (α → Prog Op Resp Err β) → Prog Op Resp Err β
  | ret a, f => f a
  | fail e, _ => fail e
  | call op k, f => call op fun r => (k r).bind f

instance : Monad (Prog Op Resp Err) where
  pure := ret
  bind := bind

/-- Make one call and pass its error on. -/
def perform (op : Op) : Prog Op Resp Err (Resp op) :=
  call op fun
    | .ok r => ret r
    | .error e => fail e

/-- Make one call and go on whatever the answer is. -/
def ignore (op : Op) : Prog Op Resp Err Unit :=
  call op fun _ => ret ()

/-- Make one call and look at its answer, an error included. -/
def attempt (op : Op) : Prog Op Resp Err (Except Err (Resp op)) :=
  call op ret

/-- Run a program and look at how it ends. -/
def caught : Prog Op Resp Err α → Prog Op Resp Err (Except Err α)
  | ret a => ret (.ok a)
  | fail e => ret (.error e)
  | call op k => call op fun r => (k r).caught

/-- The program that has ended so. -/
def ended : Except Err α → Prog Op Resp Err α
  | .ok a => ret a
  | .error e => fail e

end Prog

open Prog

section Semantics

variable {Op : Type} {Resp : Op → Type} {Err σ : Type} {α β : Type}

/-- How a call may be answered: `step op s r s'` when `op` in state `s` may answer `r` and
leave `s'`. -/
abbrev Step (Op : Type) (Resp : Op → Type) (Err σ : Type) :=
  (op : Op) → σ → Except Err (Resp op) → σ → Prop

/-- Complete executions of a program. -/
inductive Exec (step : Step Op Resp Err σ) :
    Prog Op Resp Err α → σ → Except Err α → σ → Prop where
  | ret (a : α) (s : σ) : Exec step (.ret a) s (.ok a) s
  | fail (e : Err) (s : σ) : Exec step (.fail e) s (.error e) s
  | call {op : Op} {k : Except Err (Resp op) → Prog Op Resp Err α} {s s' s'' : σ}
      {r : Except Err (Resp op)} {o : Except Err α} :
      step op s r s' → Exec step (k r) s' o s'' → Exec step (.call op k) s o s''

/-- Every execution of the program from the state ends in `Q`. -/
def wp (step : Step Op Resp Err σ) (Q : Except Err α → σ → Prop) :
    Prog Op Resp Err α → σ → Prop
  | .ret a, s => Q (.ok a) s
  | .fail e, s => Q (.error e) s
  | .call op k, s => ∀ r s', step op s r s' → wp step Q (k r) s'

variable {step : Step Op Resp Err σ}

@[simp] theorem wp_ret {Q : Except Err α → σ → Prop} {a : α} {s : σ} :
    wp step Q (.ret a) s ↔ Q (.ok a) s := Iff.rfl

@[simp] theorem wp_pure {Q : Except Err α → σ → Prop} {a : α} {s : σ} :
    wp step Q (pure a : Prog Op Resp Err α) s ↔ Q (.ok a) s := Iff.rfl

@[simp] theorem wp_fail {Q : Except Err α → σ → Prop} {e : Err} {s : σ} :
    wp step Q (.fail e) s ↔ Q (.error e) s := Iff.rfl

theorem wp_call {Q : Except Err α → σ → Prop} {op : Op}
    {k : Except Err (Resp op) → Prog Op Resp Err α} {s : σ} :
    wp step Q (.call op k) s ↔ ∀ r s', step op s r s' → wp step Q (k r) s' := Iff.rfl

theorem wp_mono {Q R : Except Err α → σ → Prop} (h : ∀ o s, Q o s → R o s)
    (p : Prog Op Resp Err α) (s : σ) (hp : wp step Q p s) : wp step R p s := by
  induction p generalizing s with
  | ret a => exact h _ _ hp
  | fail e => exact h _ _ hp
  | call op k ih => exact fun r s' hs => ih r s' (hp r s' hs)

/-- What every execution guarantees holds under fewer answers. -/
theorem wp_step_mono {step' : Step Op Resp Err σ} {Q : Except Err α → σ → Prop}
    (h : ∀ op s r s', step' op s r s' → step op s r s') (p : Prog Op Resp Err α) (s : σ)
    (hp : wp step Q p s) : wp step' Q p s := by
  induction p generalizing s with
  | ret a => exact hp
  | fail e => exact hp
  | call op k ih => exact fun r s' hs => ih r s' (hp r s' (h op s r s' hs))

/-- The postcondition of a first part: go on with the second, or end in its error. -/
def bindPost (step : Step Op Resp Err σ) (Q : Except Err β → σ → Prop)
    (f : α → Prog Op Resp Err β) : Except Err α → σ → Prop
  | .ok a, s => wp step Q (f a) s
  | .error e, s => Q (.error e) s

theorem wp_bind {Q : Except Err β → σ → Prop} {f : α → Prog Op Resp Err β}
    (p : Prog Op Resp Err α) (s : σ) :
    wp step Q (p >>= f) s ↔ wp step (bindPost step Q f) p s := by
  induction p generalizing s with
  | ret a => exact Iff.rfl
  | fail e => exact Iff.rfl
  | call op k ih => exact forall_congr' fun r => forall_congr' fun s' => imp_congr_right fun _ => ih r s'

theorem wp_perform {op : Op} {Q : Except Err (Resp op) → σ → Prop} {s : σ} :
    wp step Q (perform op) s ↔ ∀ r s', step op s r s' → Q r s' := by
  simp only [perform, wp_call]
  refine forall_congr' fun r => forall_congr' fun s' => imp_congr_right fun _ => ?_
  cases r <;> rfl

theorem wp_attempt {op : Op} {Q : Except Err (Except Err (Resp op)) → σ → Prop} {s : σ} :
    wp step Q (attempt op) s ↔ ∀ r s', step op s r s' → Q (.ok r) s' := Iff.rfl

theorem wp_caught {Q : Except Err (Except Err α) → σ → Prop} (p : Prog Op Resp Err α) (s : σ) :
    wp step Q p.caught s ↔ wp step (fun o s' => Q (.ok o) s') p s := by
  induction p generalizing s with
  | ret a => exact Iff.rfl
  | fail e => exact Iff.rfl
  | call op k ih => exact forall_congr' fun r => forall_congr' fun s' => imp_congr_right fun _ => ih r s'

theorem wp_ended {Q : Except Err α → σ → Prop} {o : Except Err α} {s : σ} :
    wp step Q (ended o : Prog Op Resp Err α) s ↔ Q o s := by
  cases o <;> exact Iff.rfl

theorem wp_ignore {Q : Except Err Unit → σ → Prop} {op : Op} {s : σ} :
    wp step Q (ignore op : Prog Op Resp Err Unit) s ↔ ∀ r s', step op s r s' → Q (.ok ()) s' :=
  Iff.rfl

/-- A call followed by the rest: the rule the proofs step through a program with. -/
theorem wp_perform_bind {Q : Except Err β → σ → Prop} {op : Op}
    {f : Resp op → Prog Op Resp Err β} {s : σ} :
    wp step Q (perform op >>= f) s ↔
      ∀ r s', step op s r s' → match r with
        | .ok a => wp step Q (f a) s'
        | .error e => Q (.error e) s' := by
  rw [wp_bind, wp_perform]
  refine forall_congr' fun r => forall_congr' fun s' => imp_congr_right fun _ => ?_
  cases r <;> rfl

theorem wp_iff_exec {Q : Except Err α → σ → Prop} (p : Prog Op Resp Err α) (s : σ) :
    wp step Q p s ↔ ∀ o s', Exec step p s o s' → Q o s' := by
  induction p generalizing s with
  | ret a =>
    constructor
    · intro h o s' he
      cases he
      exact h
    · intro h
      exact h _ _ (.ret a s)
  | fail e =>
    constructor
    · intro h o s' he
      cases he
      exact h
    · intro h
      exact h _ _ (.fail e s)
  | call op k ih =>
    constructor
    · intro h o s'' he
      cases he with
      | call hs hk => exact (ih _ _).mp (h _ _ hs) _ _ hk
    · intro h r s' hs
      exact (ih _ _).mpr fun o s'' hk => h _ _ (.call hs hk)

/-- An execution meets every postcondition its program guarantees. -/
theorem Exec.post {Q : Except Err α → σ → Prop} {p : Prog Op Resp Err α} {s s' : σ}
    {o : Except Err α} (he : Exec step p s o s') (h : wp step Q p s) : Q o s' :=
  (wp_iff_exec p s).mp h o s' he

/-- An execution of a first part goes on with one of the second. -/
theorem Exec.bind {p : Prog Op Resp Err α} {f : α → Prog Op Resp Err β} {s s' s'' : σ} {a : α}
    {o : Except Err β} (hp : Exec step p s (.ok a) s') (hf : Exec step (f a) s' o s'') :
    Exec step (p >>= f) s o s'' := by
  induction p generalizing s with
  | ret b =>
    cases hp
    exact hf
  | fail e => cases hp
  | call op k ih =>
    cases hp with
    | call hs hk => exact .call hs (ih _ hk)

/-- An execution of two parts in a row, taken apart. -/
theorem Exec.of_bind {p : Prog Op Resp Err α} {f : α → Prog Op Resp Err β} {s s'' : σ} {b : β}
    (h : Exec step (p >>= f) s (.ok b) s'') :
    ∃ a s', Exec step p s (.ok a) s' ∧ Exec step (f a) s' (.ok b) s'' := by
  induction p generalizing s with
  | ret a => exact ⟨a, s, .ret a s, h⟩
  | fail e =>
    change Exec step (.fail e) s (.ok b) s'' at h
    cases h
  | call op k ih =>
    change Exec step (.call op fun r => k r >>= f) s (.ok b) s'' at h
    cases h with
    | call hs hrest =>
      obtain ⟨a, s', hp, hf⟩ := ih _ hrest
      exact ⟨a, s', .call hs hp, hf⟩

/-- An execution is one under more answers too. -/
theorem Exec.mono {step' : Step Op Resp Err σ} (hstep : ∀ op s r s', step op s r s' → step' op s r s')
    {p : Prog Op Resp Err α} {s s' : σ} {o : Except Err α} (h : Exec step p s o s') : Exec step' p s o s' := by
  induction h with
  | ret a s => exact .ret a s
  | fail e s => exact .fail e s
  | call hs _ ih => exact .call (hstep _ _ _ _ hs) ih

/-- An error of a first part ends the whole program. -/
theorem Exec.bind_error {p : Prog Op Resp Err α} {f : α → Prog Op Resp Err β} {s s' : σ} {e : Err}
    (hp : Exec step p s (.error e) s') : Exec step (p >>= f) s (.error e) s' := by
  induction p generalizing s with
  | ret b => cases hp
  | fail e' =>
    cases hp
    exact .fail e _
  | call op k ih =>
    cases hp with
    | call hs hk => exact .call hs (ih _ hk)

/-- One call, with its answer, as an execution. -/
theorem Exec.perform {op : Op} {s s' : σ} {r : Except Err (Resp op)} (hs : step op s r s') :
    Exec step (perform op) s r s' := by
  cases r with
  | ok a => exact .call hs (.ret a s')
  | error e => exact .call hs (.fail e s')

/-- An answered call as the first step of an execution. -/
theorem Exec.answer {op : Op} {f : Resp op → Prog Op Resp Err β} {s s' s'' : σ} {a : Resp op}
    {o : Except Err β} (hs : step op s (.ok a) s') (hf : Exec step (f a) s' o s'') :
    Exec step (Prog.perform op >>= f) s o s'' :=
  (Exec.perform hs).bind hf

/-- A call whose answer is ignored as the first step of an execution. -/
theorem Exec.ignored {op : Op} {f : Unit → Prog Op Resp Err β} {s s' s'' : σ}
    {r : Except Err (Resp op)} {o : Except Err β} (hs : step op s r s')
    (hf : Exec step (f ()) s' o s'') : Exec step (Prog.ignore op >>= f) s o s'' :=
  Exec.call hs hf

/-- A call as a history records it: the state it was made in and whether it failed. -/
structure Made (Op σ : Type) where
  op : Op
  before : σ
  failed : Bool

/-- A history after a call, which it records if `keep` says so. -/
def note (keep : Op → Bool) (op : Op) (s : σ) (r : Except Err (Resp op))
    (history : List (Made Op σ)) : List (Made Op σ) :=
  if keep op then history ++ [⟨op, s, !r.isOk⟩] else history

/-- The same calls, with a history of those that `keep` selects kept beside the state. -/
def recorded (keep : Op → Bool) (step : Step Op Resp Err σ) :
    Step Op Resp Err (σ × List (Made Op σ)) :=
  fun op s r s' => step op s.1 r s'.1 ∧ s'.2 = note keep op s.1 r s.2

/-- An execution with its history is one without. -/
theorem Exec.of_recorded {keep : Op → Bool} {p : Prog Op Resp Err α} {t t' : σ × List (Made Op σ)}
    {o : Except Err α} (h : Exec (recorded keep step) p t o t') : Exec step p t.1 o t'.1 := by
  induction h with
  | ret a t => exact .ret a t.1
  | fail e t => exact .fail e t.1
  | call hs _ ih => exact .call hs.1 ih

/-- What holds of the state whatever the history is holds without one. -/
theorem wp_of_recorded {keep : Op → Bool} {Q : Except Err α → σ → Prop}
    (p : Prog Op Resp Err α) (s : σ) (history : List (Made Op σ))
    (h : wp (recorded keep step) (fun o t => Q o t.1) p (s, history)) : wp step Q p s := by
  induction p generalizing s history with
  | ret a => exact h
  | fail e => exact h
  | call op k ih =>
    exact fun r s' hs => ih r s' _ (h r (s', note keep op s r history) ⟨hs, rfl⟩)

/-- The rule for a call followed by the rest, with the history. -/
theorem wp_recorded_bind {keep : Op → Bool}
    {Q : Except Err β → σ × List (Made Op σ) → Prop} {op : Op}
    {f : Resp op → Prog Op Resp Err β} {s : σ} {history : List (Made Op σ)} :
    wp (recorded keep step) Q (perform op >>= f) (s, history) ↔
      ∀ r s', step op s r s' → match r with
        | .ok a => wp (recorded keep step) Q (f a) (s', note keep op s r history)
        | .error e => Q (.error e) (s', note keep op s r history) := by
  rw [wp_perform_bind]
  constructor
  · intro h r s' hs
    exact h r (s', note keep op s r history) ⟨hs, rfl⟩
  · rintro h r ⟨s', history'⟩ ⟨hs, rfl⟩
    exact h r s' hs

/-! ## Programs that keep away from some calls -/

/-- As long as its calls are answered as `seen` allows, the program makes no `bad` call and
returns what `post` allows. -/
def Prog.Avoids (bad : Op → Prop) (seen : (op : Op) → Except Err (Resp op) → Prop)
    (post : α → Prop) : Prog Op Resp Err α → Prop
  | .ret a => post a
  | .fail _ => True
  | .call op k => ¬ bad op ∧ ∀ r, seen op r → (k r).Avoids bad seen post

section Avoids

variable {bad : Op → Prop} {seen : (op : Op) → Except Err (Resp op) → Prop}

theorem avoids_bind {post : α → Prop} {post' : β → Prop} {p : Prog Op Resp Err α}
    {f : α → Prog Op Resp Err β} (hp : p.Avoids bad seen post)
    (hf : ∀ a, post a → (f a).Avoids bad seen post') : (p >>= f).Avoids bad seen post' := by
  induction p with
  | ret a => exact hf a hp
  | fail e => trivial
  | call op k ih => exact ⟨hp.1, fun r hr => ih r (hp.2 r hr)⟩

/-- After a call the rest may rely on its answer. -/
theorem avoids_perform_bind {post : β → Prop} {op : Op} {f : Resp op → Prog Op Resp Err β}
    (h : ¬ bad op) (hf : ∀ a, seen op (.ok a) → (f a).Avoids bad seen post) :
    (perform op >>= f).Avoids bad seen post := by
  refine ⟨h, fun r hr => ?_⟩
  cases r with
  | ok a => exact hf a hr
  | error e => trivial

theorem avoids_perform (op : Op) (h : ¬ bad op) :
    (perform op : Prog Op Resp Err (Resp op)).Avoids bad seen fun _ => True := by
  refine ⟨h, fun r _ => ?_⟩
  cases r <;> trivial

theorem avoids_ignore {op : Op} (h : ¬ bad op) :
    (Prog.ignore op : Prog Op Resp Err Unit).Avoids bad seen fun _ => True :=
  ⟨h, fun _ _ => trivial⟩

/-- A property of the state that every other call keeps holds after the program. -/
theorem wp_of_avoids {I : σ → Prop} {post : α → Prop} {p : Prog Op Resp Err α} {s : σ}
    (hstep : ∀ op s r s', ¬ bad op → I s → step op s r s' → seen op r ∧ I s')
    (hp : p.Avoids bad seen post) (hs : I s) :
    wp step (fun o s' => I s' ∧ ∀ a, o = .ok a → post a) p s := by
  induction p generalizing s with
  | ret a => exact ⟨hs, fun _ he => Except.ok.inj he ▸ hp⟩
  | fail e => exact ⟨hs, fun _ he => nomatch he⟩
  | call op k ih =>
    intro r s' h
    obtain ⟨hr, hs'⟩ := hstep op s r s' hp.1 hs h
    exact ih r (hp.2 r hr) hs'

end Avoids

end Semantics

/-! ## Interleaving -/

section Pool

variable {Op : Type} {Resp : Op → Type} {Err σ ι : Type} {α : Type}

/-- Programs running side by side over one state. -/
structure Pool (Op : Type) (Resp : Op → Type) (Err σ ι α : Type) where
  threads : ι → Prog Op Resp Err α
  store : σ

variable [DecidableEq ι]

/-- One step of a thread, where the guard on the pool before it admits the step. -/
def Pool.GuardedNext (guard : Pool Op Resp Err σ ι α → ι → Prop) (step : Step Op Resp Err σ)
    (c c' : Pool Op Resp Err σ ι α) : Prop :=
  ∃ (i : ι) (op : Op) (k : Except Err (Resp op) → Prog Op Resp Err α) (r : Except Err (Resp op)),
    guard c i ∧ c.threads i = .call op k ∧ step op c.store r c'.store ∧
      c'.threads = Function.update c.threads i (k r)

/-- Any number of admitted steps, in any interleaving. -/
abbrev Pool.GuardedRun (guard : Pool Op Resp Err σ ι α → ι → Prop) (step : Step Op Resp Err σ) :
    Pool Op Resp Err σ ι α → Pool Op Resp Err σ ι α → Prop :=
  Relation.ReflTransGen (Pool.GuardedNext guard step)

/-- The guard that admits every step. -/
def Pool.unguarded (_ : Pool Op Resp Err σ ι α) (_ : ι) : Prop := True

variable {step : Step Op Resp Err σ} {guard : Pool Op Resp Err σ ι α → ι → Prop}

/-- What every step preserves holds in every state a run reaches. -/
theorem Pool.GuardedRun.invariant {I : Pool Op Resp Err σ ι α → Prop}
    (hstep : ∀ c c', I c → Pool.GuardedNext guard step c c' → I c')
    {c c' : Pool Op Resp Err σ ι α} (hrun : Pool.GuardedRun guard step c c') (hc : I c) : I c' := by
  induction hrun with
  | refl => exact hc
  | tail _ hn ih => exact hstep _ _ ih hn

/-- One step of a pool of threads that all avoid the bad calls keeps what the other calls
keep. -/
theorem Pool.GuardedNext.avoids {I : σ → Prop} {bad : Op → Prop}
    {seen : (op : Op) → Except Err (Resp op) → Prop} {c c' : Pool Op Resp Err σ ι α}
    (hstep : ∀ op s r s', ¬ bad op → I s → step op s r s' → seen op r ∧ I s')
    {post : α → Prop} (hn : Pool.GuardedNext guard step c c')
    (hc : ∀ i, (c.threads i).Avoids bad seen post) (hs : I c.store) :
    (∀ i, (c'.threads i).Avoids bad seen post) ∧ I c'.store := by
  obtain ⟨i, op, k, r, -, hi, hcall, hthreads⟩ := hn
  have havoid := hc i
  rw [hi] at havoid
  obtain ⟨hr, hs'⟩ := hstep op _ r _ havoid.1 hs hcall
  refine ⟨fun j => ?_, hs'⟩
  rw [hthreads]
  by_cases hj : j = i
  · subst hj
    rw [Function.update_self]
    exact havoid.2 r hr
  · rw [Function.update_of_ne hj]
    exact hc j

/-- A thread that the guard always admits can run to its end while the others wait. -/
theorem Pool.GuardedRun.of_exec {i : ι} {o : Except Err α} {s' : σ} {p : Prog Op Resp Err α}
    (threads : ι → Prog Op Resp Err α) (s : σ)
    (hguard : ∀ c : Pool Op Resp Err σ ι α, (∀ j, j ≠ i → c.threads j = threads j) → guard c i)
    (hi : threads i = p) (he : Exec step p s o s') :
    Pool.GuardedRun guard step ⟨threads, s⟩ ⟨Function.update threads i (Prog.ended o), s'⟩ := by
  induction p generalizing threads s with
  | ret a =>
    cases he
    rw [Prog.ended, ← hi, Function.update_eq_self]
  | fail e =>
    cases he
    rw [Prog.ended, ← hi, Function.update_eq_self]
  | call op k ih =>
    cases he with
    | @call _ _ _ s₁ _ r _ hs hk =>
      have hnext : Pool.GuardedNext guard step ⟨threads, s⟩ ⟨Function.update threads i (k r), s₁⟩ :=
        ⟨i, op, k, r, hguard ⟨threads, s⟩ fun _ _ => rfl, hi, hs, rfl⟩
      have hrest := ih r (Function.update threads i (k r)) s₁
        (fun c hc => hguard c fun j hj => (hc j hj).trans (Function.update_of_ne hj _ _))
        (Function.update_self _ _ _) hk
      rw [Function.update_idem] at hrest
      exact hrest.head hnext

end Pool

end Calls
