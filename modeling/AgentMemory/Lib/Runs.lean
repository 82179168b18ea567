import Mathlib.Logic.Basic

/-!
# Runs of a step function

A system is a function that says which state an action leads to, where the action is
possible. `run` takes a list of actions, `Guarded` says that every step of such a run meets
a condition on its action and on the state before it, and `run_invariant` is the rule by
which what one such step preserves holds after the whole run.
-/

namespace Runs

variable {σ α : Type} {step : σ → α → Option σ}

/-- The state after these actions, if each of them is possible in turn. -/
def run (step : σ → α → Option σ) (s : σ) : List α → Option σ
  | [] => some s
  | a :: acts => (step s a).bind fun s' => run step s' acts

/-- Every step of the run meets the condition. -/
def Guarded (step : σ → α → Option σ) (P : σ → α → Prop) (s : σ) : List α → Prop
  | [] => True
  | a :: acts => P s a ∧ ∀ s', step s a = some s' → Guarded step P s' acts

@[simp] theorem run_nil (s : σ) : run step s [] = some s := rfl

theorem run_cons {s s' : σ} {a : α} {acts : List α} :
    run step s (a :: acts) = some s' ↔ ∃ mid, step s a = some mid ∧ run step mid acts = some s' :=
  Option.bind_eq_some_iff

theorem run_append {s s' : σ} {acts acts' : List α} :
    run step s (acts ++ acts') = some s' ↔
      ∃ mid, run step s acts = some mid ∧ run step mid acts' = some s' := by
  induction acts generalizing s with
  | nil => simp
  | cons a acts ih =>
    rw [List.cons_append, run_cons]
    simp only [ih, run_cons]
    constructor
    · rintro ⟨first, hfirst, mid, hmid, hrest⟩
      exact ⟨mid, ⟨first, hfirst, hmid⟩, hrest⟩
    · rintro ⟨mid, ⟨first, hfirst, hmid⟩, hrest⟩
      exact ⟨first, hfirst, mid, hmid, hrest⟩

theorem guarded_append {P : σ → α → Prop} {s mid : σ} {acts acts' : List α}
    (hrun : run step s acts = some mid) (h : Guarded step P s (acts ++ acts')) :
    Guarded step P s acts ∧ Guarded step P mid acts' := by
  induction acts generalizing s with
  | nil =>
    obtain rfl := Option.some.inj hrun
    exact ⟨trivial, h⟩
  | cons a acts ih =>
    obtain ⟨first, hfirst, hmid⟩ := run_cons.mp hrun
    obtain ⟨ha, hrest⟩ := h
    obtain ⟨-, hlast⟩ := ih hmid (hrest first hfirst)
    refine ⟨⟨ha, fun s' hs' => ?_⟩, hlast⟩
    obtain rfl := Option.some.inj (hfirst.symm.trans hs')
    exact (ih hmid (hrest first hfirst)).1

theorem guarded_and {P Q : σ → α → Prop} {s : σ} {acts : List α} (hP : Guarded step P s acts)
    (hQ : Guarded step Q s acts) : Guarded step (fun s a => P s a ∧ Q s a) s acts := by
  induction acts generalizing s with
  | nil => trivial
  | cons a acts ih => exact ⟨⟨hP.1, hQ.1⟩, fun s' hs' => ih (hP.2 s' hs') (hQ.2 s' hs')⟩

/-- What every step that meets the condition preserves holds after every run whose steps
meet it. -/
theorem run_invariant {P : σ → α → Prop} {I : σ → Prop}
    (hstep : ∀ s a s', I s → P s a → step s a = some s' → I s') {s s' : σ} {acts : List α}
    (hI : I s) (hguard : Guarded step P s acts) (hrun : run step s acts = some s') : I s' := by
  induction acts generalizing s with
  | nil =>
    obtain rfl := Option.some.inj hrun
    exact hI
  | cons a acts ih =>
    obtain ⟨mid, hmid, hrest⟩ := run_cons.mp hrun
    exact ih (hstep s a mid hI hguard.1 hmid) (hguard.2 mid hmid) hrest

/-- An action that needs a state the invariant excludes is taken by no such run. -/
theorem run_excludes {P : σ → α → Prop} {I : σ → Prop} {B : α → Prop}
    (hstep : ∀ s a s', I s → P s a → step s a = some s' → I s')
    (hbad : ∀ s a s', I s → step s a = some s' → ¬ B a) {s s' : σ} {acts : List α}
    (hI : I s) (hguard : Guarded step P s acts) (hrun : run step s acts = some s') :
    ∀ a ∈ acts, ¬ B a := by
  induction acts generalizing s with
  | nil => simp
  | cons a acts ih =>
    obtain ⟨mid, hmid, hrest⟩ := run_cons.mp hrun
    refine List.forall_mem_cons.mpr ⟨hbad s a mid hI hmid, ?_⟩
    exact ih (hstep s a mid hI hguard.1 hmid) (hguard.2 mid hmid) hrest

/-- What the invariant gives of a step holds of every step. -/
theorem guarded_of_invariant {P Q : σ → α → Prop} {I : σ → Prop}
    (hstep : ∀ s a s', I s → P s a → step s a = some s' → I s')
    (hgives : ∀ s a, I s → P s a → Q s a) {s : σ} {acts : List α} (hI : I s)
    (hguard : Guarded step P s acts) : Guarded step Q s acts := by
  induction acts generalizing s with
  | nil => trivial
  | cons a acts ih =>
    refine ⟨hgives s a hI hguard.1, fun s' hs' => ?_⟩
    exact ih (hstep s a s' hI hguard.1 hs') (hguard.2 s' hs')

/-- Where the steps that meet the condition preserve an invariant, and the others end in a state
without the property that the invariant gives, the property holds of all states a run reaches
exactly if all its steps meet the condition. -/
theorem forall_holds_iff_guarded_of_none {P : σ → α → Prop} {I J : σ → Prop}
    (hnone : ∀ s a, I s → step s a = none → P s a) (hIJ : ∀ s, I s → J s)
    (hkeep : ∀ s a s', I s → P s a → step s a = some s' → I s')
    (hbreak : ∀ s a s', I s → step s a = some s' → J s' → P s a) {s : σ} (hI : I s) (acts : List α) :
    (∀ before after s', acts = before ++ after → run step s before = some s' → J s') ↔
      Guarded step P s acts := by
  induction acts generalizing s with
  | nil =>
    refine ⟨fun _ => trivial, fun _ before after s' heq hrun => ?_⟩
    obtain ⟨rfl, -⟩ := List.nil_eq_append_iff.mp heq
    obtain rfl := Option.some.inj hrun
    exact hIJ s hI
  | cons a acts ih =>
    constructor
    · intro h
      have ha : P s a := by
        cases hnext : step s a with
        | none => exact hnone s a hI hnext
        | some next => exact hbreak s a next hI hnext (h [a] acts next rfl (run_cons.mpr ⟨next, hnext, rfl⟩))
      refine ⟨ha, fun next hnext => ?_⟩
      refine (ih (hkeep s a next hI ha hnext)).mp fun before after s' heq hrun => ?_
      exact h (a :: before) after s' (by rw [heq, List.cons_append]) (run_cons.mpr ⟨next, hnext, hrun⟩)
    · intro ⟨ha, hrest⟩ before after s' heq hrun
      cases before with
      | nil =>
        obtain rfl := Option.some.inj hrun
        exact hIJ s hI
      | cons b before =>
        obtain ⟨rfl, htail⟩ := List.cons.inj heq
        obtain ⟨next, hnext, hrest'⟩ := run_cons.mp hrun
        exact (ih (hkeep s a next hI ha hnext)).mpr (hrest next hnext) before after s' htail hrest'

/-- Where every action is possible. -/
theorem forall_holds_iff_guarded {P : σ → α → Prop} {I J : σ → Prop}
    (htotal : ∀ s a, ∃ s', step s a = some s') (hIJ : ∀ s, I s → J s)
    (hkeep : ∀ s a s', I s → P s a → step s a = some s' → I s')
    (hbreak : ∀ s a s', I s → step s a = some s' → J s' → P s a) {s : σ} (hI : I s) (acts : List α) :
    (∀ before after s', acts = before ++ after → run step s before = some s' → J s') ↔
      Guarded step P s acts := by
  refine forall_holds_iff_guarded_of_none (fun s a _ hnone => ?_) hIJ hkeep hbreak hI acts
  obtain ⟨next, hnext⟩ := htotal s a
  cases hnone.symm.trans hnext

/-- Where every step that meets the condition, and no other, preserves the invariant, it
holds of all states a run reaches exactly if all its steps meet the condition. -/
theorem forall_reached_iff_guarded {P : σ → α → Prop} {I : σ → Prop}
    (htotal : ∀ s a, ∃ s', step s a = some s')
    (hstep : ∀ s a s', I s → step s a = some s' → (I s' ↔ P s a)) {s : σ} (hI : I s)
    (acts : List α) :
    (∀ before after s', acts = before ++ after → run step s before = some s' → I s') ↔
      Guarded step P s acts :=
  forall_holds_iff_guarded htotal (fun _ h => h) (fun s a s' hI hP hs => (hstep s a s' hI hs).mpr hP)
    (fun s a s' hI hs hJ => (hstep s a s' hI hs).mp hJ) hI acts

/-- Without a condition on the steps. -/
theorem guarded_true (s : σ) (acts : List α) : Guarded step (fun _ _ => True) s acts := by
  induction acts generalizing s with
  | nil => trivial
  | cons a acts ih => exact ⟨trivial, fun s' _ => ih s'⟩

theorem guarded_of_forall {Q : α → Prop} {s : σ} {acts : List α} (h : ∀ a ∈ acts, Q a) :
    Guarded step (fun _ a => Q a) s acts := by
  induction acts generalizing s with
  | nil => trivial
  | cons a acts ih =>
    obtain ⟨ha, hacts⟩ := List.forall_mem_cons.mp h
    exact ⟨ha, fun _ _ => ih hacts⟩

/-- A condition on the actions alone. -/
theorem guarded_iff_forall {Q : α → Prop} (htotal : ∀ s a, ∃ s', step s a = some s') {s : σ}
    {acts : List α} : Guarded step (fun _ a => Q a) s acts ↔ ∀ a ∈ acts, Q a := by
  induction acts generalizing s with
  | nil => exact iff_of_true trivial fun _ ha => absurd ha List.not_mem_nil
  | cons a acts ih =>
    obtain ⟨next, hnext⟩ := htotal s a
    rw [List.forall_mem_cons]
    constructor
    · intro ⟨ha, hrest⟩
      exact ⟨ha, ih.mp (hrest next hnext)⟩
    · intro ⟨ha, hrest⟩
      exact ⟨ha, fun s' _ => ih.mpr hrest⟩

end Runs
