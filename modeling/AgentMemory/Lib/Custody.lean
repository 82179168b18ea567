import AgentMemory.Lib.Prog
import Mathlib.Order.Basic

/-!
# Programs with holdings

A custody says which calls a program may make with what it holds, which answers it counts on, and what an answer adds
to its holdings. `Within` is the discipline of a program. In a pool every thread has holdings of its own, so the
discipline can say that the threads keep out of each other's way: by `Pool.GuardedRun.project` the steps that some of
the threads take are a run without the others, where the steps of the others leave a relation between the two stores
alone.
-/

namespace Calls

variable {Op : Type} {Resp : Op → Type} {Err σ γ : Type} [Preorder γ] {α β : Type}

/-- What a program may do with its holdings, and what it comes to hold. -/
structure Custody (Op : Type) (Resp : Op → Type) (Err γ : Type) [Preorder γ] where
  may : γ → Op → Prop
  seen : γ → (op : Op) → Except Err (Resp op) → Prop
  gain : γ → (op : Op) → Except Err (Resp op) → γ
  le_gain : ∀ g op r, g ≤ gain g op r

/-- As long as its calls are answered as the custody counts on, the program makes the calls that its holdings allow and
returns what `post` allows. -/
def Prog.Within (D : Custody Op Resp Err γ) (post : γ → α → Prop) : Prog Op Resp Err α → γ → Prop
  | .ret a, g => post g a
  | .fail _, _ => True
  | .call op k, g => D.may g op ∧ ∀ r, D.seen g op r → (k r).Within D post (D.gain g op r)

variable {D : Custody Op Resp Err γ}

theorem within_bind {post : γ → α → Prop} {post' : γ → β → Prop} {p : Prog Op Resp Err α}
    {f : α → Prog Op Resp Err β} {g : γ} (hp : p.Within D post g)
    (hf : ∀ g' a, g ≤ g' → post g' a → (f a).Within D post' g') : (p >>= f).Within D post' g := by
  induction p generalizing g with
  | ret a => exact hf g a le_rfl hp
  | fail e => trivial
  | call op k ih =>
    refine ⟨hp.1, fun r hr => ih r (hp.2 r hr) fun g' a hle => ?_⟩
    exact hf g' a ((D.le_gain g op r).trans hle)

/-- After a call the rest may rely on its answer, and on what it adds. -/
theorem within_perform_bind {post : γ → β → Prop} {op : Op} {f : Resp op → Prog Op Resp Err β} {g : γ}
    (h : D.may g op) (hf : ∀ a, D.seen g op (.ok a) → (f a).Within D post (D.gain g op (.ok a))) :
    (Prog.perform op >>= f).Within D post g := by
  refine ⟨h, fun r hr => ?_⟩
  cases r with
  | ok a => exact hf a hr
  | error e => trivial

theorem within_ignore_bind {post : γ → β → Prop} {op : Op} {f : Unit → Prog Op Resp Err β} {g : γ} (h : D.may g op)
    (hf : ∀ g', g ≤ g' → (f ()).Within D post g') : (Prog.ignore op >>= f).Within D post g :=
  ⟨h, fun r _ => hf _ (D.le_gain g op r)⟩

theorem within_mono {post post' : γ → α → Prop} (h : ∀ g a, post g a → post' g a) {p : Prog Op Resp Err α} {g : γ}
    (hp : p.Within D post g) : p.Within D post' g := by
  induction p generalizing g with
  | ret a => exact h g a hp
  | fail e => trivial
  | call op k ih => exact ⟨hp.1, fun r hr => ih r (hp.2 r hr)⟩

/-! ## Pools -/

variable {ι : Type} [DecidableEq ι]

/-- The holdings after an answer to a thread. -/
def holdingsAfter (D : ι → Custody Op Resp Err γ) (hold : ι → γ) (i : ι) (op : Op) (r : Except Err (Resp op)) :
    ι → γ :=
  Function.update hold i ((D i).gain (hold i) op r)

/-- Each thread of a pool keeps to its custody. -/
def Pool.Within (D : ι → Custody Op Resp Err γ) (post : ι → γ → α → Prop) (hold : ι → γ)
    (threads : ι → Prog Op Resp Err α) : Prop :=
  ∀ i, (threads i).Within (D i) (post i) (hold i)

theorem Pool.Within.step {D : ι → Custody Op Resp Err γ} {post : ι → γ → α → Prop} {hold : ι → γ}
    {threads : ι → Prog Op Resp Err α} (h : Pool.Within D post hold threads) {i : ι} {op : Op}
    {k : Except Err (Resp op) → Prog Op Resp Err α} (hi : threads i = .call op k) :
    (D i).may (hold i) op ∧ ∀ r, (D i).seen (hold i) op r →
      Pool.Within D post (holdingsAfter D hold i op r) (Function.update threads i (k r)) := by
  have hthread := h i
  rw [hi] at hthread
  refine ⟨hthread.1, fun r hr j => ?_⟩
  by_cases hj : j = i
  · subst hj
    rw [holdingsAfter, Function.update_self, Function.update_self]
    exact hthread.2 r hr
  · rw [holdingsAfter, Function.update_of_ne hj, Function.update_of_ne hj]
    exact h j

variable {step : Step Op Resp Err σ}

/-- The steps that the threads of `mine` take in a run, as a run in which no other thread takes a step. `K hold s v`
relates the store `s` of the run with all threads to the store `v` of the run with these alone. -/
theorem Pool.GuardedRun.project {D : ι → Custody Op Resp Err γ} {post : ι → γ → α → Prop} {mine : ι → Prop}
    {K : (ι → γ) → σ → σ → Prop}
    (hothers : ∀ i, ¬ mine i → ∀ hold s v op r s', K hold s v → (D i).may (hold i) op → step op s r s' →
      (D i).seen (hold i) op r ∧ K (holdingsAfter D hold i op r) s' v)
    (hmine : ∀ i, mine i → ∀ hold s v op r s', K hold s v → (D i).may (hold i) op → step op s r s' →
      (D i).seen (hold i) op r ∧ ∃ v', step op v r v' ∧ K (holdingsAfter D hold i op r) s' v')
    {threads : ι → Prog Op Resp Err α} {hold : ι → γ} {s : σ} (hwithin : Pool.Within D post hold threads)
    (hK : K hold s s) {c : Pool Op Resp Err σ ι α} (hrun : Pool.GuardedRun Pool.unguarded step ⟨threads, s⟩ c) :
    ∃ (hold' : ι → γ) (c' : Pool Op Resp Err σ ι α),
      Pool.GuardedRun (fun _ i => mine i) step ⟨threads, s⟩ c' ∧ (∀ i, mine i → c'.threads i = c.threads i) ∧
        K hold' c.store c'.store ∧ Pool.Within D post hold' c.threads := by
  induction hrun with
  | refl => exact ⟨hold, ⟨threads, s⟩, .refl, fun _ _ => rfl, hK, hwithin⟩
  | @tail c c₁ _ hnext ih =>
    obtain ⟨hold', c', hrun', hsame, hK', hwithin'⟩ := ih
    obtain ⟨i, op, k, r, -, hi, hcall, hthreads⟩ := hnext
    obtain ⟨hmay, hrest⟩ := hwithin'.step hi
    rw [hthreads]
    by_cases hm : mine i
    · obtain ⟨hseen, v', hv', hK₁⟩ := hmine i hm hold' c.store c'.store op r c₁.store hK' hmay hcall
      refine ⟨_, ⟨Function.update c'.threads i (k r), v'⟩, ?_, ?_, hK₁, hrest r hseen⟩
      · exact hrun'.tail ⟨i, op, k, r, hm, (hsame i hm).trans hi, hv', rfl⟩
      · intro j hj
        change Function.update c'.threads i (k r) j = Function.update c.threads i (k r) j
        by_cases hji : j = i
        · subst hji
          rw [Function.update_self, Function.update_self]
        · rw [Function.update_of_ne hji, Function.update_of_ne hji]
          exact hsame j hj
    · obtain ⟨hseen, hK₁⟩ := hothers i hm hold' c.store c'.store op r c₁.store hK' hmay hcall
      refine ⟨_, c', hrun', fun j hj => ?_, hK₁, hrest r hseen⟩
      have hji : j ≠ i := fun h => hm (h ▸ hj)
      rw [Function.update_of_ne hji]
      exact hsame j hj

end Calls
