import Mathlib.Logic.Basic

/-!
# Calls that commit in parts

A call commits its work in parts; where it raises, what it has committed stays. `Call` is
such a call, `commit` one transaction of it. Whether a call returns often follows from its
arguments alone: `Decides` says so, and its rules compute the condition along sequences and
loops. `Preserves` is for what a call leaves true, whether it returns or raises.
-/

namespace Commits

variable {σ τ ι : Type}

/-- A call on a state; both ways to end leave a state. -/
abbrev Call (σ : Type) := EStateM Unit σ

/-- The call returns. -/
def returns (c : Call σ Unit) (s : σ) : Bool :=
  match c s with
  | .ok _ _ => true
  | .error _ _ => false

/-- The state after the call, whether it returns or raises. -/
def after (c : Call σ Unit) (s : σ) : σ :=
  match c s with
  | .ok _ s' => s'
  | .error _ s' => s'

/-- One transaction; where it raises it is rolled back. -/
def commit (f : σ → Option σ) : Call σ Unit := fun s =>
  match f s with
  | some s' => .ok () s'
  | none => .error () s

/-- A check that raises where it fails. -/
def check (ok : Bool) : Call σ Unit := commit fun s => if ok = true then some s else none

/-- A call that is made where the condition holds. -/
def callIf (b : Bool) (c : Call σ Unit) : Call σ Unit := if b = true then c else pure ()

/-- A call that depends on what the state is when it begins. -/
def reading (f : σ → Call σ Unit) : Call σ Unit := fun s => f s s

/-- A call on a part of the state. -/
def on (get : σ → τ) (set : τ → σ → σ) (c : Call τ Unit) : Call σ Unit := fun s =>
  match c (get s) with
  | .ok _ t => .ok () (set t s)
  | .error _ t => .error () (set t s)

/-! ## What sequences and loops do -/

@[simp] theorem returns_pure (s : σ) : returns (pure () : Call σ Unit) s = true := rfl

@[simp] theorem after_pure (s : σ) : after (pure () : Call σ Unit) s = s := rfl

@[simp] theorem returns_commit (f : σ → Option σ) (s : σ) : returns (commit f) s = (f s).isSome := by
  unfold returns commit
  cases f s <;> rfl

@[simp] theorem after_commit (f : σ → Option σ) (s : σ) : after (commit f) s = (f s).getD s := by
  unfold after commit
  cases f s <;> rfl

@[simp] theorem returns_check (ok : Bool) (s : σ) : returns (check ok) s = ok := by
  cases ok <;> rfl

@[simp] theorem after_check (ok : Bool) (s : σ) : after (check ok) s = s := by
  cases ok <;> rfl

theorem returns_bind (c : Call σ Unit) (d : Unit → Call σ Unit) (s : σ) :
    returns (c >>= d) s = (returns c s && returns (d ()) (after c s)) := by
  unfold returns after
  cases hc : c s <;> simp [Bind.bind, EStateM.bind, hc]

theorem after_bind (c : Call σ Unit) (d : Unit → Call σ Unit) (s : σ) :
    after (c >>= d) s = if returns c s = true then after (d ()) (after c s) else after c s := by
  unfold returns after
  cases hc : c s <;> simp [Bind.bind, EStateM.bind, hc]

@[simp] theorem returns_on (get : σ → τ) (set : τ → σ → σ) (c : Call τ Unit) (s : σ) :
    returns (on get set c) s = returns c (get s) := by
  unfold returns on
  cases c (get s) <;> rfl

@[simp] theorem after_on (get : σ → τ) (set : τ → σ → σ) (c : Call τ Unit) (s : σ) :
    after (on get set c) s = set (after c (get s)) s := by
  unfold after on
  cases c (get s) <;> rfl

@[simp] theorem returns_reading (f : σ → Call σ Unit) (s : σ) : returns (reading f) s = returns (f s) s := rfl

@[simp] theorem after_reading (f : σ → Call σ Unit) (s : σ) : after (reading f) s = after (f s) s := rfl

theorem returns_callIf (b : Bool) (c : Call σ Unit) (s : σ) :
    returns (callIf b c) s = (!b || returns c s) := by
  cases b <;> rfl

/-- The calls do the same from this state. -/
def SameFrom (s : σ) (c d : Call σ Unit) : Prop := c s = d s

theorem SameFrom.returns {s : σ} {c d : Call σ Unit} (h : SameFrom s c d) : returns c s = returns d s := by
  unfold Commits.returns
  rw [h]

theorem SameFrom.after {s : σ} {c d : Call σ Unit} (h : SameFrom s c d) : after c s = after d s := by
  unfold Commits.after
  rw [h]

theorem SameFrom.symm {s : σ} {c d : Call σ Unit} (h : SameFrom s c d) : SameFrom s d c := Eq.symm h

theorem SameFrom.trans {s : σ} {c d e : Call σ Unit} (h : SameFrom s c d) (h' : SameFrom s d e) :
    SameFrom s c e := Eq.trans h h'

theorem SameFrom.bind {s : σ} {c d : Call σ Unit} (h : SameFrom s c d) (rest : Unit → Call σ Unit) :
    SameFrom s (c >>= rest) (d >>= rest) := by
  simp only [SameFrom, Bind.bind, EStateM.bind]
  rw [h]

theorem bind_assoc_from (s : σ) (c d e : Call σ Unit) :
    SameFrom s ((c >>= fun _ => d) >>= fun _ => e) (c >>= fun _ => d >>= fun _ => e) := by
  simp only [SameFrom, Bind.bind, EStateM.bind]
  cases c s <;> rfl

/-- A call that does nothing from this state. -/
def IdleFrom (s : σ) (c : Call σ Unit) : Prop := SameFrom s c (pure ())

theorem IdleFrom.bind {s : σ} {c : Call σ Unit} (h : IdleFrom s c) (rest : Unit → Call σ Unit) :
    SameFrom s (c >>= rest) (rest ()) :=
  (SameFrom.bind h rest).trans rfl

/-- A loop begins with the first of its rounds that is not idle. -/
theorem forM_from_first {α : Type} {attempt : ι → Option α} {f : ι → Call σ Unit} {s : σ}
    (hidle : ∀ i, attempt i = none → IdleFrom s (f i)) (items : List ι) :
    (items.filterMap attempt = [] → IdleFrom s (forM items f)) ∧
      ∀ a rest, items.filterMap attempt = a :: rest →
        ∃ (i : ι) (later : List ι), attempt i = some a ∧
          SameFrom s (forM items f) (f i >>= fun _ => forM later f) := by
  induction items with
  | nil => exact ⟨fun _ => rfl, fun a rest h => absurd h.symm (List.cons_ne_nil _ _)⟩
  | cons i items ih =>
    obtain ⟨ihnone, ihsome⟩ := ih
    rw [List.forM_cons]
    cases hattempt : attempt i with
    | none =>
      have hskip := (hidle i hattempt).bind fun _ => forM items f
      rw [List.filterMap_cons_none hattempt]
      refine ⟨fun h => hskip.trans (ihnone h), fun a rest h => ?_⟩
      obtain ⟨j, later, hj, hsame⟩ := ihsome a rest h
      exact ⟨j, later, hj, hskip.trans hsame⟩
    | some b =>
      rw [List.filterMap_cons_some hattempt]
      refine ⟨fun h => absurd h (List.cons_ne_nil _ _), fun a rest h => ?_⟩
      obtain ⟨rfl, -⟩ := List.cons.inj h
      exact ⟨i, items, hattempt, rfl⟩

/-! ## Whether a call returns -/

/-- Whether the call returns does not depend on the state. -/
def Decides (c : Call σ Unit) (ok : Bool) : Prop := ∀ s, returns c s = ok

theorem decides_pure : Decides (pure () : Call σ Unit) true := fun _ => rfl

theorem decides_check (ok : Bool) : Decides (check ok : Call σ Unit) ok := returns_check ok

theorem decides_commit {f : σ → Option σ} {ok : Bool} (h : ∀ s, (f s).isSome = ok) :
    Decides (commit f) ok := fun s => by
  rw [returns_commit, h]

theorem Decides.bind {c : Call σ Unit} {d : Unit → Call σ Unit} {okc okd : Bool} (hc : Decides c okc)
    (hd : Decides (d ()) okd) : Decides (c >>= d) (okc && okd) := fun s => by
  rw [returns_bind, hc, hd]

theorem Decides.callIf {c : Call σ Unit} {ok : Bool} (h : Decides c ok) (b : Bool) :
    Decides (callIf b c) (!b || ok) := fun s => by
  rw [returns_callIf, h]

theorem Decides.on {c : Call τ Unit} {ok : Bool} (h : Decides c ok) (get : σ → τ) (set : τ → σ → σ) :
    Decides (on get set c) ok := fun s => by
  rw [returns_on, h]

/-- A loop returns where each of its rounds does. -/
theorem decides_forM {f : ι → Call σ Unit} {ok : ι → Bool} {items : List ι}
    (h : ∀ item ∈ items, Decides (f item) (ok item)) : Decides (forM items f) (items.all ok) := by
  induction items with
  | nil => exact decides_pure
  | cons item items ih =>
    obtain ⟨hitem, hitems⟩ := List.forall_mem_cons.mp h
    rw [List.forM_cons, List.all_cons]
    exact hitem.bind (ih hitems)

/-! ## What a call preserves -/

/-- What holds before the call holds after it, whether it returns or raises. -/
def Preserves (I : σ → Prop) (c : Call σ Unit) : Prop := ∀ s, I s → I (after c s)

section Preserves

variable {I : σ → Prop} {c : Call σ Unit}

theorem preserves_pure : Preserves I (pure ()) := fun _ hs => hs

theorem preserves_check (ok : Bool) : Preserves I (check ok) := fun s hs => by
  rw [after_check]
  exact hs

theorem preserves_commit {f : σ → Option σ} (h : ∀ s s', I s → f s = some s' → I s') :
    Preserves I (commit f) := fun s hs => by
  rw [after_commit]
  cases hf : f s with
  | none => exact hs
  | some s' => exact h s s' hs hf

/-- What holds after the first part holds after the whole where the rest preserves it. -/
theorem Preserves.after_bind {d : Unit → Call σ Unit} (hd : Preserves I (d ())) {s : σ}
    (hs : I (after c s)) : I (after (c >>= d) s) := by
  rw [Commits.after_bind]
  split
  · exact hd _ hs
  · exact hs

theorem Preserves.bind {d : Unit → Call σ Unit} (hc : Preserves I c) (hd : Preserves I (d ())) :
    Preserves I (c >>= d) := fun s hs => hd.after_bind (hc s hs)

theorem Preserves.callIf (h : Preserves I c) (b : Bool) : Preserves I (callIf b c) := by
  cases b
  · exact preserves_pure
  · exact h

theorem preserves_reading {f : σ → Call σ Unit} (h : ∀ s, Preserves I (f s)) :
    Preserves I (reading f) := fun s hs => h s s hs

theorem preserves_forM {f : ι → Call σ Unit} {items : List ι}
    (h : ∀ item ∈ items, Preserves I (f item)) : Preserves I (forM items f) := by
  induction items with
  | nil => exact preserves_pure
  | cons item items ih =>
    obtain ⟨hitem, hitems⟩ := List.forall_mem_cons.mp h
    rw [List.forM_cons]
    exact hitem.bind (ih hitems)

end Preserves

/-- A call on a part preserves what does not depend on the part. -/
theorem preserves_on {I : σ → Prop} {get : σ → τ} {set : τ → σ → σ}
    (h : ∀ t s, I s → I (set t s)) (c : Call τ Unit) : Preserves I (on get set c) := fun s hs => by
  rw [after_on]
  exact h _ s hs

/-! ## What a call does to a part -/

/-- Where it returns the call changes the part so, and where it raises it leaves it. -/
def Changes (get : σ → τ) (f : τ → τ) (c : Call σ Unit) : Prop :=
  ∀ s, get (after c s) = if returns c s = true then f (get s) else get s

/-- A call that comes after those that leave the part. -/
theorem Changes.after_keeping {get : σ → τ} {f : τ → τ} {c : Call σ Unit} {d : Unit → Call σ Unit}
    (hd : Changes get f (d ())) (hc : ∀ t, Preserves (fun s => get s = t) c) :
    Changes get f (c >>= d) := by
  intro s
  have hkeeps : get (after c s) = get s := hc (get s) s rfl
  rw [after_bind, returns_bind]
  cases hreturns : returns c s with
  | false => simpa using hkeeps
  | true =>
    rw [if_pos rfl, Bool.true_and, ← hkeeps]
    exact hd _

/-- A call on a larger state. -/
theorem Changes.on {ρ : Type} {get : σ → τ} {f : τ → τ} {c : Call σ Unit} (h : Changes get f c)
    (part : ρ → σ) (set : σ → ρ → ρ) (hset : ∀ s r, part (set s r) = s) :
    Changes (fun r => get (part r)) f (Commits.on part set c) := by
  intro r
  rw [after_on, returns_on]
  simpa only [hset] using h (part r)

theorem changes_of_preserves {get : σ → τ} {c : Call σ Unit} (h : ∀ t, Preserves (fun s => get s = t) c) :
    Changes get id c := by
  intro s
  rw [id, ite_self]
  exact h (get s) s rfl

end Commits
