import Mathlib.Data.Option.Basic
import Mathlib.Order.WellFounded

/-!
# Loops that may end

A loop goes from one state to the next until there is none. Facts about all of its rounds:
what one round keeps holds in every round, what has ended stays ended, and a measure that
falls leads to a goal.
-/

namespace AgentMemory

variable {σ : Type*}

/-- The state after so many rounds, while the loop lasts. -/
def rounds (next : σ → Option σ) (s : σ) : Nat → Option σ
  | 0 => some s
  | n + 1 => (rounds next s n).bind next

variable {next : σ → Option σ} {s t : σ}

theorem rounds_add (m n : Nat) : rounds next s (m + n) = (rounds next s m).bind fun t => rounds next t n := by
  induction n with
  | zero => simp [rounds]
  | succ n ih =>
    rw [Nat.add_succ, rounds, ih, Option.bind_assoc]
    rfl

/-- The rounds after the state of a round are those of a loop that starts there. -/
theorem rounds_after {m : Nat} (h : rounds next s m = some t) (n : Nat) :
    rounds next s (m + n) = rounds next t n := by
  rw [rounds_add, h, Option.bind_some]

/-- What each round keeps holds after every round. -/
theorem rounds_invariant {I : σ → Prop} (hstep : ∀ s s', I s → next s = some s' → I s') (hs : I s) {n : Nat}
    (h : rounds next s n = some t) : I t := by
  induction n generalizing t with
  | zero =>
    obtain rfl := Option.some.inj h
    exact hs
  | succ n ih =>
    obtain ⟨mid, hmid, hnext⟩ := Option.bind_eq_some_iff.mp h
    exact hstep mid t (ih hmid) hnext

/-- A loop that has ended has no further rounds. -/
theorem rounds_ended {m n : Nat} (h : rounds next s m = none) (hle : m ≤ n) : rounds next s n = none := by
  obtain ⟨k, rfl⟩ := Nat.exists_eq_add_of_le hle
  rw [rounds_add, h, Option.bind_none]

/-- A loop whose measure falls until the goal is met meets it. -/
theorem exists_rounds_of_measure {I G : σ → Prop} (measure : σ → Nat)
    (hstep : ∀ s, I s → ¬ G s → ∃ s', next s = some s' ∧ I s' ∧ measure s' < measure s) (hs : I s) :
    ∃ n t, rounds next s n = some t ∧ I t ∧ G t := by
  induction hm : measure s using Nat.strong_induction_on generalizing s with
  | _ m ih =>
    by_cases hgoal : G s
    · exact ⟨0, s, rfl, hs, hgoal⟩
    · obtain ⟨s', hnext, hs', hless⟩ := hstep s hs hgoal
      obtain ⟨n, t, hrun, ht⟩ := ih _ (hm ▸ hless) hs' rfl
      refine ⟨1 + n, t, ?_, ht⟩
      rw [rounds_after (show rounds next s 1 = some s' from hnext), hrun]

/-- The state in which the loop ends and how many rounds it takes, if it takes fewer than these. -/
def runLoop (next : σ → Option σ) : Nat → σ → Option (σ × Nat)
  | 0, _ => none
  | fuel + 1, s =>
    match next s with
    | none => some (s, 0)
    | some s' => (runLoop next fuel s').map fun r => (r.1, r.2 + 1)

theorem rounds_of_runLoop {fuel n : Nat} (h : runLoop next fuel s = some (t, n)) :
    rounds next s n = some t ∧ next t = none := by
  induction fuel generalizing s n with
  | zero => cases h
  | succ fuel ih =>
    unfold runLoop at h
    cases hnext : next s with
    | none =>
      rw [hnext] at h
      cases h
      exact ⟨rfl, hnext⟩
    | some s' =>
      rw [hnext] at h
      obtain ⟨⟨t', m⟩, hrun, heq⟩ := Option.map_eq_some_iff.mp h
      cases heq
      obtain ⟨hrounds, hended⟩ := ih hrun
      refine ⟨?_, hended⟩
      rw [Nat.add_comm, rounds_after (show rounds next s 1 = some s' from hnext)]
      exact hrounds

/-- A loop whose measure falls ends before it has as many rounds as the measure is. -/
theorem runLoop_isSome {I : σ → Prop} {measure : σ → Nat}
    (hstep : ∀ s s', I s → next s = some s' → I s' ∧ measure s' < measure s) (hs : I s) {fuel : Nat}
    (hfuel : measure s < fuel) : (runLoop next fuel s).isSome = true := by
  induction fuel generalizing s with
  | zero => omega
  | succ fuel ih =>
    unfold runLoop
    cases hnext : next s with
    | none => rfl
    | some s' =>
      obtain ⟨hs', hless⟩ := hstep s s' hs hnext
      rw [Option.isSome_map]
      exact ih hs' (by omega)

/-- A loop ends in one state. -/
theorem rounds_end_unique {m n : Nat} {t t' : σ} (h : rounds next s m = some t) (ht : next t = none)
    (h' : rounds next s n = some t') (ht' : next t' = none) : t = t' := by
  obtain hlt | rfl | hlt := Nat.lt_trichotomy m n
  · have hended : rounds next s (m + 1) = none := by rw [rounds, h, Option.bind_some, ht]
    rw [rounds_ended hended hlt] at h'
    cases h'
  · exact Option.some.inj (h.symm.trans h')
  · have hended : rounds next s (n + 1) = none := by rw [rounds, h', Option.bind_some, ht']
    rw [rounds_ended hended hlt] at h
    cases h

/-- A loop whose steps are only taken until it may stop. -/
def guarded (stop : σ → Bool) (step : σ → Option σ) (s : σ) : Option σ :=
  if stop s = true then none else step s

/-- The rounds of such a loop are those steps before which no state let it stop. -/
theorem rounds_guarded {stop : σ → Bool} {step : σ → Option σ} {n : Nat} :
    rounds (guarded stop step) s n = some t ↔
      rounds step s n = some t ∧ ∀ m < n, ∀ u, rounds step s m = some u → stop u = false := by
  induction n generalizing t with
  | zero =>
    refine ⟨fun h => ⟨h, fun m hm => ?_⟩, fun h => h.1⟩
    exact absurd hm (Nat.not_lt_zero m)
  | succ n ih =>
    have hsucc : ∀ next : σ → Option σ, rounds next s (n + 1) = (rounds next s n).bind next := fun _ => rfl
    rw [hsucc, hsucc, Option.bind_eq_some_iff, Option.bind_eq_some_iff]
    refine ⟨fun ⟨mid, hmid, hstep⟩ => ?_, fun ⟨⟨mid, hmid, hstep⟩, hgo⟩ => ?_⟩
    · obtain ⟨hrounds, hgo⟩ := ih.mp hmid
      obtain ⟨hstop, hstep⟩ := Option.ite_none_left_eq_some.mp hstep
      refine ⟨⟨mid, hrounds, hstep⟩, fun m hm u hu => ?_⟩
      obtain hlt | rfl := Nat.lt_succ_iff_lt_or_eq.mp hm
      · exact hgo m hlt u hu
      · obtain rfl := Option.some.inj (hu.symm.trans hrounds)
        exact Bool.eq_false_iff.mpr hstop
    · refine ⟨mid, ih.mpr ⟨hmid, fun m hm => hgo m (Nat.lt_succ_of_lt hm)⟩, ?_⟩
      have hstop := hgo n (Nat.lt_succ_self n) mid hmid
      rw [guarded, if_neg (Bool.eq_false_iff.mp hstop)]
      exact hstep

end AgentMemory
