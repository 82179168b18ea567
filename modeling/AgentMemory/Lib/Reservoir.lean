import Mathlib.Algebra.Order.Field.Basic
import Mathlib.Tactic.Linarith
import Mathlib.Tactic.Ring

/-!
# Reservoirs

A reservoir holds up to a capacity, fills at a rate and gives one unit to a draw where there
is one. `Draws.count_le` bounds what a run of draws takes in a window of time, wherever in the
run the window begins, by the capacity and what flows in during the window.
-/

namespace Reservoirs

variable {K : Type} [Field K] [LinearOrder K] [IsStrictOrderedRing K]

/-- What is in the reservoir, and since when. -/
structure Level (K : Type) where
  stock : K
  since : K

/-- The unit that a draw takes, if it takes one. -/
def unit (taken : Bool) : K := if taken = true then 1 else 0

/-- A draw at a time, from one level to the next: no more is there, with what is taken, than
the capacity and than what was there and flowed in. -/
structure Draw (capacity rate : K) (b : Level K) (now : K) (taken : Bool) (b' : Level K) : Prop where
  since : b'.since = now
  nonneg : 0 ≤ b'.stock
  le_capacity : b'.stock + unit taken ≤ capacity
  le_filled : b'.stock + unit taken ≤ b.stock + rate * (now - b.since)

/-- Draws at times that do not decrease. -/
inductive Draws (capacity rate : K) : Level K → List (K × Bool) → Prop where
  | nil (b : Level K) : Draws capacity rate b []
  | cons {b b' : Level K} {now : K} {taken : Bool} {draws : List (K × Bool)} (hle : b.since ≤ now)
    (hdraw : Draw capacity rate b now taken b') (hdraws : Draws capacity rate b' draws) :
    Draws capacity rate b ((now, taken) :: draws)

/-- The draws up to a time that take something. -/
def countUntil (t : K) (draws : List (K × Bool)) : Nat := draws.countP fun d => d.2 && d.1 ≤ t

/-- The draws in a window of time that take something. -/
def countIn (s t : K) (draws : List (K × Bool)) : Nat :=
  draws.countP fun d => d.2 && s ≤ d.1 && d.1 ≤ t

omit [Field K] [IsStrictOrderedRing K] in
theorem countIn_le_countUntil (s t : K) (draws : List (K × Bool)) :
    countIn s t draws ≤ countUntil t draws := by
  apply List.countP_mono_left
  intro d _ h
  simp only [Bool.and_eq_true] at h ⊢
  exact ⟨h.1.1, h.2⟩

namespace Draws

variable {capacity rate : K} {b : Level K} {draws : List (K × Bool)}

omit [IsStrictOrderedRing K] in
theorem since_le (h : Draws capacity rate b draws) : ∀ d ∈ draws, b.since ≤ d.1 := by
  induction h with
  | nil b => exact fun d hd => absurd hd List.not_mem_nil
  | cons hle hdraw _ ih =>
    intro d hd
    rcases List.mem_cons.mp hd with rfl | hd
    · exact hle
    · exact hle.trans (hdraw.since ▸ ih d hd)

omit [IsStrictOrderedRing K] in
/-- After the window nothing is counted. -/
theorem countUntil_of_lt {t : K} (h : Draws capacity rate b draws) (hlt : t < b.since) :
    countUntil t draws = 0 := by
  rw [countUntil, List.countP_eq_zero]
  intro d hd
  have hd := h.since_le d hd
  simp [not_le.mpr (hlt.trans_le hd)]

theorem countUntil_le (hrate : 0 ≤ rate) (h : Draws capacity rate b draws) (hb : 0 ≤ b.stock)
    {t : K} (ht : b.since ≤ t) : (countUntil t draws : K) ≤ b.stock + rate * (t - b.since) := by
  induction h with
  | nil b =>
    have hflow : 0 ≤ rate * (t - b.since) := mul_nonneg hrate (sub_nonneg.mpr ht)
    simp only [countUntil, List.countP_nil, Nat.cast_zero]
    linarith
  | @cons b b' now taken draws hle hdraw hdraws ih =>
    have hsince := hdraw.since
    have hfilled := hdraw.le_filled
    by_cases hnow : now ≤ t
    · have hrest := ih hdraw.nonneg (hsince ▸ hnow)
      rw [hsince] at hrest
      have hcount : (countUntil t ((now, taken) :: draws) : K) = countUntil t draws + unit taken := by
        cases taken <;> simp [countUntil, unit, hnow]
      have hsplit : rate * (t - b.since) = rate * (t - now) + rate * (now - b.since) := by ring
      rw [hcount, hsplit]
      linarith
    · have hcount : countUntil t ((now, taken) :: draws) = 0 := by
        have hrest := hdraws.countUntil_of_lt (hsince ▸ not_le.mp hnow)
        rw [countUntil] at hrest ⊢
        simp [hnow, hrest]
      have hflow : 0 ≤ rate * (t - b.since) := mul_nonneg hrate (sub_nonneg.mpr ht)
      rw [hcount, Nat.cast_zero]
      linarith

/-- In no window are more draws served than the capacity and what flows in meanwhile. -/
theorem count_le (hcapacity : 0 ≤ capacity) (hrate : 0 ≤ rate) (h : Draws capacity rate b draws)
    {s t : K} (hst : s ≤ t) : (countIn s t draws : K) ≤ capacity + rate * (t - s) := by
  induction h with
  | nil b =>
    have hflow : 0 ≤ rate * (t - s) := mul_nonneg hrate (sub_nonneg.mpr hst)
    simp only [countIn, List.countP_nil, Nat.cast_zero]
    linarith
  | @cons b b' now taken draws hle hdraw hdraws ih =>
    have hsince := hdraw.since
    have hcap := hdraw.le_capacity
    by_cases hs : s ≤ now
    · by_cases ht : now ≤ t
      · -- The window has begun: what is left of the capacity serves the draws that follow.
        have hrest := hdraws.countUntil_le hrate hdraw.nonneg (hsince ▸ ht)
        have hin : (countIn s t draws : K) ≤ countUntil t draws := by
          exact_mod_cast countIn_le_countUntil s t draws
        have hcount : (countIn s t ((now, taken) :: draws) : K) = countIn s t draws + unit taken := by
          cases taken <;> simp [countIn, unit, hs, ht]
        have hflow : rate * (t - now) ≤ rate * (t - s) :=
          mul_le_mul_of_nonneg_left (by linarith) hrate
        rw [hsince] at hrest
        rw [hcount]
        linarith
      · have hcount : countIn s t ((now, taken) :: draws) = countIn s t draws := by
          simp [countIn, ht]
        rw [hcount]
        exact ih
    · have hcount : countIn s t ((now, taken) :: draws) = countIn s t draws := by
        simp [countIn, hs]
      rw [hcount]
      exact ih

end Draws

end Reservoirs
