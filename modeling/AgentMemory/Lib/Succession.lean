import Mathlib.Logic.Relation
import Mathlib.Data.List.Nodup

/-!
# Succession

Nodes are closed one at a time, each by a successor, and `r a b` says that `b` closed `a`.
A chain of successors that reaches an open node keeps what its first node held. One more
closing keeps every chain going unless it closes a ring, and a ring stays closed whatever
is closed later: `ends_close_iff` says both. Where successors are unique, the chain of a node
is a list without repetitions (`Leads.nodup`).
-/

namespace Succession

open Relation

variable {α : Type} {r : α → α → Prop} {n c : α}

/-- A node that nothing has closed. -/
def Open (r : α → α → Prop) (a : α) : Prop := ∀ b, ¬ r a b

/-- The successors of a node lead to an open one. -/
def Ends (r : α → α → Prop) (a : α) : Prop := ∃ k, ReflTransGen r a k ∧ Open r k

/-- The succession after `c` has closed `n`. -/
def close (r : α → α → Prop) (n c : α) : α → α → Prop :=
  fun a b => r a b ∨ (a = n ∧ b = c)

theorem Open.ends {a : α} (h : Open r a) : Ends r a := ⟨a, .refl, h⟩

theorem reach_close {a b : α} (h : ReflTransGen r a b) : ReflTransGen (close r n c) a b :=
  ReflTransGen.mono (fun _ _ => Or.inl) _ _ h

theorem open_close {k : α} (h : Open r k) (hk : k ≠ n) : Open (close r n c) k := by
  rintro b (hb | ⟨rfl, -⟩)
  · exact h b hb
  · exact hk rfl

/-- A closing that joins no ring keeps every chain. -/
theorem ends_close {a : α} (h : ∀ x, Ends r x) (hring : ¬ ReflTransGen r c n) :
    Ends (close r n c) a := by
  obtain ⟨k, hak, hk⟩ := h a
  by_cases hkn : k = n
  · subst hkn
    obtain ⟨l, hcl, hl⟩ := h c
    have hstep : close r k c k c := Or.inr ⟨rfl, rfl⟩
    refine ⟨l, (reach_close hak).trans ((reach_close hcl).head hstep), open_close hl ?_⟩
    rintro rfl
    exact hring hcl
  · exact ⟨k, reach_close hak, open_close hk hkn⟩

/-- Whatever a node reaches after a closing it reached before, or it reached the node that
was closed. -/
theorem reach_of_close {a k : α} (h : ReflTransGen (close r n c) a k) :
    ReflTransGen r a k ∨ ReflTransGen r a n := by
  induction h with
  | refl => exact Or.inl .refl
  | tail _ hstep ih =>
    rcases ih with ih | ih
    · rcases hstep with hr | ⟨rfl, -⟩
      · exact Or.inl (ih.tail hr)
      · exact Or.inr ih
    · exact Or.inr ih

/-- A lost chain is lost for good. -/
theorem ends_of_close {a : α} (hopen : Open r n) (h : Ends (close r n c) a) : Ends r a := by
  obtain ⟨k, hak, hk⟩ := h
  rcases reach_of_close hak with h | h
  · exact ⟨k, h, fun b hb => hk b (Or.inl hb)⟩
  · exact ⟨n, h, hopen⟩

/-- Where the successor of `n` already led to `n`, whatever `n` reaches leads back to it. -/
theorem reach_back (hopen : Open r n) (hfun : ∀ a b b', r a b → r a b' → b = b')
    (hring : ReflTransGen r c n) {x : α} (h : ReflTransGen (close r n c) n x) :
    ReflTransGen (close r n c) x n := by
  induction h with
  | refl => exact .refl
  | @tail x y _ hxy ih =>
    rcases hxy with hxy | ⟨rfl, rfl⟩
    · rcases ih.cases_head with rfl | ⟨y', hxy' | ⟨rfl, -⟩, hy'⟩
      · exact absurd hxy (hopen y)
      · exact hfun x y y' hxy hxy' ▸ hy'
      · exact absurd hxy (hopen y)
    · exact reach_close hring

theorem not_ends_ring (hopen : Open r n) (hfun : ∀ a b b', r a b → r a b' → b = b')
    (hring : ReflTransGen r c n) : ¬ Ends (close r n c) n := by
  rintro ⟨k, hnk, hk⟩
  rcases (reach_back hopen hfun hring hnk).cases_head with rfl | ⟨y, hky, -⟩
  · exact hk c (Or.inr ⟨rfl, rfl⟩)
  · exact hk y hky

/-- What one closing does to the chains. -/
theorem ends_close_iff (hopen : Open r n) (hfun : ∀ a b b', r a b → r a b' → b = b') :
    (∀ a, Ends (close r n c) a) ↔ (∀ a, Ends r a) ∧ ¬ ReflTransGen r c n := by
  constructor
  · intro h
    exact ⟨fun a => ends_of_close hopen (h a), fun hring => not_ends_ring hopen hfun hring (h n)⟩
  · rintro ⟨h, hring⟩ a
    exact ends_close h hring

/-! ## Chains -/

/-- The chain of successors of a node, to an open one. -/
inductive Leads (r : α → α → Prop) : α → List α → Prop
  | stop {a : α} : Open r a → Leads r a [a]
  | step {a b : α} {path : List α} : r a b → Leads r b path → Leads r a (a :: path)

theorem exists_leads {a : α} (h : Ends r a) : ∃ path, Leads r a path := by
  obtain ⟨k, hak, hk⟩ := h
  induction hak using ReflTransGen.head_induction_on with
  | refl => exact ⟨[k], .stop hk⟩
  | head hstep _ ih =>
    obtain ⟨path, hpath⟩ := ih
    exact ⟨_, .step hstep hpath⟩

theorem Leads.head {a : α} {path : List α} (h : Leads r a path) : a ∈ path := by
  cases h with
  | stop => exact List.mem_cons_self
  | step => exact List.mem_cons_self

/-- A chain ends at an open node that its first one reaches. -/
theorem Leads.last {a : α} {path : List α} (h : Leads r a path) :
    ∃ k, path.getLast? = some k ∧ ReflTransGen r a k ∧ Open r k := by
  induction h with
  | @stop a hopen => exact ⟨a, rfl, .refl, hopen⟩
  | step hstep hpath ih =>
    obtain ⟨k, hlast, hreach, hopen⟩ := ih
    refine ⟨k, ?_, hreach.head hstep, hopen⟩
    rw [List.getLast?_cons, hlast]
    rfl

/-- Where successors are unique, so is the chain. -/
theorem Leads.unique (hfun : ∀ a b b', r a b → r a b' → b = b') {a : α} {path path' : List α}
    (h : Leads r a path) (h' : Leads r a path') : path = path' := by
  induction h generalizing path' with
  | stop hopen =>
    cases h' with
    | stop => rfl
    | step hstep => exact absurd hstep (hopen _)
  | step hstep _ ih =>
    cases h' with
    | stop hopen => exact absurd hstep (hopen _)
    | step hstep' hpath' =>
      obtain rfl := hfun _ _ _ hstep hstep'
      rw [ih hpath']

theorem Leads.of_mem {a x : α} {path : List α} (h : Leads r a path) (hx : x ∈ path) :
    ∃ path', Leads r x path' ∧ path'.length ≤ path.length := by
  induction h with
  | @stop a hopen =>
    obtain rfl := List.mem_singleton.mp hx
    exact ⟨_, .stop hopen, Nat.le_refl _⟩
  | @step a b path hstep hpath ih =>
    rcases List.mem_cons.mp hx with rfl | hx
    · exact ⟨_, .step hstep hpath, Nat.le_refl _⟩
    · obtain ⟨path', hpath', hle⟩ := ih hx
      exact ⟨path', hpath', Nat.le_succ_of_le hle⟩

/-- Where successors are unique, no node comes twice in a chain: its chain would be longer than
itself. -/
theorem Leads.nodup (hfun : ∀ a b b', r a b → r a b' → b = b') {a : α} {path : List α}
    (h : Leads r a path) : path.Nodup := by
  induction h with
  | stop => exact List.nodup_singleton _
  | @step a b path hstep hpath ih =>
    refine List.nodup_cons.mpr ⟨fun hmem => ?_, ih⟩
    obtain ⟨path', hpath', hle⟩ := hpath.of_mem hmem
    rw [hpath'.unique hfun (.step hstep hpath), List.length_cons] at hle
    exact Nat.not_succ_le_self _ hle

/-- Chains still end after some nodes were led to an open one and the others left alone. -/
theorem Ends.redirect {r' : α → α → Prop} {n : α} (hopen : Open r' n)
    (h : ∀ a, a ≠ n → (∀ b, r' a b ↔ r a b) ∨ r' a n) {a : α} (ha : Ends r a) : Ends r' a := by
  obtain ⟨k, hak, hk⟩ := ha
  induction hak using ReflTransGen.head_induction_on with
  | refl =>
    by_cases hkn : k = n
    · exact ⟨n, hkn ▸ .refl, hopen⟩
    · rcases h k hkn with hsame | hled
      · exact ⟨k, .refl, fun b hb => hk b ((hsame b).mp hb)⟩
      · exact ⟨n, .single hled, hopen⟩
  | @head a b hstep _ ih =>
    by_cases han : a = n
    · exact ⟨n, han ▸ .refl, hopen⟩
    · rcases h a han with hsame | hled
      · obtain ⟨l, hbl, hl⟩ := ih
        exact ⟨l, hbl.head ((hsame b).mpr hstep), hl⟩
      · exact ⟨n, .single hled, hopen⟩

end Succession
