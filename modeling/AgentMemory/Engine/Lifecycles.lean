import AgentMemory.Engine.Governance

/-!
# The lifecycle of a memory

`engines/living_memoryv2/src/living_memoryv2/lifecycle.py`: what the metadata of a memory say of its state, and
how the state moves its importance and the score of a result. A score that is adjusted is between zero and one
whatever the arithmetic; in exact arithmetic no state ranks above `active` where the query asks for no history,
which is `active_ranks_first`.
-/

namespace AgentMemory

open Dicts PyText JsonText

/-- The runtime of scores: `str.lower`, the order and the arithmetic of numbers, the number that a decimal of the
source is, and `math.log1p`, which raises for an integer that is no float. -/
structure LifecycleRuntime (F : Type) where
  lower : Text → Text
  le : F → F → Bool
  add : F → F → F
  sub : F → F → F
  mul : F → F → F
  ofRat : ℚ → F
  log1p : Int → Option F
  ofRat_le : ∀ p q, p ≤ q → le (ofRat p) (ofRat q) = true

/-- `ALLOWED_STATES` (`lifecycle.py:11-18`). -/
inductive LifecycleState where
  | active | historical | superseded | contradicted | archival | deleted
  deriving DecidableEq

/-- `LifecycleView` (`lifecycle.py:50-65`). -/
structure LifecycleView (F : Type) where
  state : LifecycleState
  version : Option Text
  supersedes : List Text
  supersededBy : Option Text
  validFrom : Option F
  validTo : Option F
  usageCount : Int
  lastUsedAt : Option F
  importanceDelta : F
  baseImportance : F

def LifecycleState.name : LifecycleState → String
  | active => "active"
  | historical => "historical"
  | superseded => "superseded"
  | contradicted => "contradicted"
  | archival => "archival"
  | deleted => "deleted"

def LifecycleState.all : List LifecycleState :=
  [.active, .historical, .superseded, .contradicted, .archival, .deleted]

/-- `HISTORICAL_QUERY_TERMS` (`lifecycle.py:20-38`). -/
def historicalQueryTerms : List Text :=
  ["anterior".toList, "antiga".toList, "antigo".toList, "audit".toList, "auditoria".toList, "before".toList,
    "evolution".toList, "evolucao".toList, "evolução".toList, "historical".toList, "historico".toList,
    "histórico".toList, "history".toList, "old".toList, "passado".toList, "past".toList, "previous".toList]

/-- `CURRENT_QUERY_TERMS` (`lifecycle.py:40-47`). -/
def currentQueryTerms : List Text :=
  ["active".toList, "atual".toList, "current".toList, "latest".toList, "now".toList, "recente".toList]

section Model

variable {F : Type} (rt : LifecycleRuntime F)

/-! ## Numbers and terms -/

/-- `x < y`. -/
def less (x y : F) : Bool := rt.le x y && !rt.le y x

/-- `max(x, y)`. -/
def greater (x y : F) : F := if less rt x y = true then y else x

/-- `min(x, y)`. -/
def lesser (x y : F) : F := if less rt y x = true then y else x

/-- `_clamp` (`lifecycle.py:225-226`). -/
def toUnit (x : F) : F := lesser rt (rt.ofRat 1) (greater rt (rt.ofRat 0) x)

/-- `0.0 <= x <= 1.0`. -/
def InUnit (x : F) : Prop := rt.le (rt.ofRat 0) x = true ∧ rt.le x (rt.ofRat 1) = true

/-- `_terms` (`lifecycle.py:185-186`). -/
def lifecycleTerms (terms : List Text) : List Text :=
  (terms.filter fun term => strip term ≠ []).map fun term => rt.lower (strip term)

/-- `bool(terms & vocabulary)`. -/
def mentions (terms vocabulary : List Text) : Bool := (lifecycleTerms rt terms).any (· ∈ vocabulary)

/-! ## Importance and score -/

/-- `state_adjustment` as the state sets it (`lifecycle.py:88-94`). -/
def LifecycleState.adjustment : LifecycleState → F
  | historical => rt.ofRat (-10 / 100)
  | superseded => rt.ofRat (-28 / 100)
  | contradicted => rt.ofRat (-22 / 100)
  | archival => rt.ofRat (-35 / 100)
  | active | deleted => rt.ofRat 0

namespace LifecycleView

variable (v : LifecycleView F) (terms : List Text) (atTime : Option F)

/-- `active_at` (`lifecycle.py:67-72`). -/
def activeAt : Bool :=
  atTime.all fun x => v.validFrom.all (fun y => rt.le y x) && v.validTo.all fun y => rt.le x y

/-- `should_recall` (`lifecycle.py:128-134`). -/
def shouldRecall : Bool :=
  v.state ≠ .deleted && (v.activeAt rt atTime || mentions rt terms historicalQueryTerms)

/-- `state_adjustment` (`lifecycle.py:88-102`). -/
def importanceAdjustment : F :=
  let historical := mentions rt terms historicalQueryTerms
  let adjustment := v.state.adjustment rt
  let adjustment :=
    if historical = true ∧ v.state ∈ [.historical, .superseded, .archival] then
      rt.add adjustment (rt.ofRat (25 / 100)) else adjustment
  let adjustment :=
    if historical = true ∧ v.state = .contradicted then rt.add adjustment (rt.ofRat (10 / 100)) else adjustment
  let adjustment :=
    if mentions rt terms currentQueryTerms = true ∧ v.state = .superseded then
      rt.sub adjustment (rt.ofRat (12 / 100)) else adjustment
  if v.activeAt rt atTime = false ∧ historical = false then rt.sub adjustment (rt.ofRat (50 / 100)) else adjustment

/-- `usage_bonus` (`lifecycle.py:104`). -/
def usageBonus : Option F :=
  (rt.log1p (max 0 v.usageCount)).map fun logarithm =>
    lesser rt (rt.ofRat (12 / 100)) (rt.mul logarithm (rt.ofRat (3 / 100)))

/-- `effective_importance` (`lifecycle.py:74-105`). -/
def effectiveImportance (baseImportance : Option F) : Option F :=
  let base := (baseImportance.map (toUnit rt)).getD v.baseImportance
  if v.state = .deleted then some (rt.ofRat 0)
  else
    (v.usageBonus rt).map fun bonus =>
      toUnit rt (rt.add (rt.add (rt.add base v.importanceDelta) (v.importanceAdjustment rt terms atTime)) bonus)

/-- `adjustment` (`lifecycle.py:119-125`). -/
def scoreAdjustment (effective : F) : F :=
  let historical := mentions rt terms historicalQueryTerms
  let adjustment := rt.mul (rt.sub effective (toUnit rt v.baseImportance)) (rt.ofRat (65 / 100))
  let adjustment :=
    if v.state = .superseded ∧ mentions rt terms currentQueryTerms = true then
      rt.sub adjustment (rt.ofRat (18 / 100)) else adjustment
  let adjustment :=
    if v.state = .contradicted ∧ historical = false then rt.sub adjustment (rt.ofRat (20 / 100)) else adjustment
  if v.state ∈ [.historical, .superseded, .archival] ∧ historical = true then
    rt.add adjustment (rt.ofRat (16 / 100)) else adjustment

/-- `adjusted_score` (`lifecycle.py:107-126`). -/
def adjustedScore (score : F) : Option F :=
  if v.state = .deleted then some (rt.ofRat 0)
  else
    (v.effectiveImportance rt terms atTime none).map fun effective =>
      toUnit rt (rt.add score (v.scoreAdjustment rt terms effective))

end LifecycleView

end Model

/-! ## Reading the metadata -/

/-- The runtime of `lifecycle_for` and `governance_for`, with `round(x, 4)`. -/
structure GovernedRuntime (F : Type) extends WorkRuntime F, LifecycleRuntime F where
  round4 : F → F

section Metadata

variable {F : Type} (rt : GovernedRuntime F)

/-- `_optional_float` (`lifecycle.py:189-195`); an integer out of range raises. -/
def optionalFloat : Option (Json F) → Option (Option F)
  | some (.bool b) => some (some (rt.ofInt (if b = true then 1 else 0)))
  | some (.int n) => if rt.inRange n = true then some (some (rt.ofInt n)) else none
  | some (.float x) => some (some x)
  | some (.str s) => some (if s = [] then none else rt.parseFloat s)
  | _ => some none

/-- `max(0, int(x))` of a float, and zero for a NaN; an infinity raises. -/
def usageOf (x : F) : Option Int :=
  if rt.isNan x = true then some 0 else (rt.truncate x).map fun n => max 0 n

/-- `_optional_int` (`lifecycle.py:198-207`). -/
def optionalInt : Option (Json F) → Option Int
  | some (.bool b) => some (if b = true then 1 else 0)
  | some (.int n) => some (max 0 n)
  | some (.float x) => usageOf rt x
  | some (.str s) =>
    if s = [] then some 0
    else
      match rt.parseInt s with
      | some n => some (max 0 n)
      | none => ((rt.parseFloat s).map (usageOf rt)).getD (some 0)
  | _ => some 0

/-- `_optional_str` (`lifecycle.py:210-214`). -/
def optionalStr : Option (Json F) → Option Text
  | none | some .null => none
  | some value =>
    let text := strip (strOf rt.toGraphRuntime value)
    if text = [] then none else some text

/-- `_string_list` (`lifecycle.py:217-222`). -/
def stringsOf : Option (Json F) → List Text
  | none | some .null => []
  | some (.arr items) => (items.map (strOf rt.toGraphRuntime)).filter (· ≠ [])
  | some value => [strOf rt.toGraphRuntime value]

/-- `_state` (`lifecycle.py:180-182`). -/
def lifecycleState (value : Option (Json F)) : LifecycleState :=
  let text := rt.lower (strip (strOr rt.toFacadeRuntime value "active".toList))
  let text := text.map fun c => if c = ' ' then '_' else c
  (LifecycleState.all.find? fun state => state.name.toList = text).getD .active

/-- `lifecycle_for` (`lifecycle.py:162-177`); none is an exception. -/
def lifecycleFor (m : MemoryEnvelope F) : Option (LifecycleView F) := do
  let data := match valueAt "lifecycle".toList m.metadata with
    | some (.obj d) => d
    | _ => []
  let validFrom ← optionalFloat rt (valueAt "valid_from".toList data)
  let validTo ← optionalFloat rt (valueAt "valid_to".toList data)
  let usageCount ← optionalInt rt (valueAt "usage_count".toList data)
  let lastUsedAt ← optionalFloat rt (valueAt "last_used_at".toList data)
  let importanceDelta ← optionalFloat rt (valueAt "importance_delta".toList data)
  let importanceDelta := importanceDelta.getD (rt.ofRat 0)
  some {
    state := lifecycleState rt (valueAt "state".toList data)
    version := optionalStr rt (valueAt "version".toList data)
    supersedes := stringsOf rt (valueAt "supersedes".toList data)
    supersededBy := optionalStr rt (valueAt "superseded_by".toList data)
    validFrom := validFrom
    validTo := validTo
    usageCount := usageCount
    lastUsedAt := lastUsedAt
    importanceDelta := if rt.isZero importanceDelta = true then rt.ofRat 0 else importanceDelta
    baseImportance := m.importance }

end Metadata

/-! ## Scores between zero and one -/

section Facts

variable {F : Type} {rt : LifecycleRuntime F} {x y : F}

theorem inUnit_zero : InUnit rt (rt.ofRat 0) := ⟨rt.ofRat_le 0 0 le_rfl, rt.ofRat_le 0 1 zero_le_one⟩

theorem inUnit_one : InUnit rt (rt.ofRat 1) := ⟨rt.ofRat_le 0 1 zero_le_one, rt.ofRat_le 1 1 le_rfl⟩

/-- Whatever is clamped, a NaN as well. -/
theorem inUnit_toUnit (x : F) : InUnit rt (toUnit rt x) := by
  have hnonneg : rt.le (rt.ofRat 0) (greater rt (rt.ofRat 0) x) = true := by
    unfold greater
    split
    · next hless => exact (Bool.and_eq_true_iff.mp hless).1
    · exact inUnit_zero.1
  unfold toUnit lesser
  split
  · next hless => exact ⟨hnonneg, (Bool.and_eq_true_iff.mp hless).1⟩
  · exact inUnit_one

theorem inUnit_greater (hx : InUnit rt x) (hy : InUnit rt y) : InUnit rt (greater rt x y) := by
  unfold greater
  split
  · exact hy
  · exact hx

namespace LifecycleView

variable {v : LifecycleView F} {terms : List Text} {atTime : Option F}

theorem inUnit_effectiveImportance {base : Option F} {effective : F}
    (h : v.effectiveImportance rt terms atTime base = some effective) : InUnit rt effective := by
  unfold effectiveImportance at h
  dsimp only at h
  split at h
  · obtain rfl := Option.some.inj h
    exact inUnit_zero
  · obtain ⟨bonus, -, rfl⟩ := Option.map_eq_some_iff.mp h
    exact inUnit_toUnit _

theorem inUnit_adjustedScore {score adjusted : F} (h : v.adjustedScore rt terms atTime score = some adjusted) :
    InUnit rt adjusted := by
  unfold adjustedScore at h
  split at h
  · obtain rfl := Option.some.inj h
    exact inUnit_zero
  · obtain ⟨effective, -, rfl⟩ := Option.map_eq_some_iff.mp h
    exact inUnit_toUnit _

end LifecycleView

end Facts

/-! ## Exact arithmetic -/

section Exact

variable {K : Type} [Field K] [LinearOrder K] [IsStrictOrderedRing K]

theorem decide_ratCast_le (p q : ℚ) (h : p ≤ q) : decide ((p : K) ≤ (q : K)) = true :=
  decide_eq_true (Rat.cast_le.mpr h)

/-- Numbers without rounding; what stands for the logarithm is left open. -/
def exactRuntime (K : Type) [Field K] [LinearOrder K] [IsStrictOrderedRing K] (lower : Text → Text)
    (log1p : Int → K) : LifecycleRuntime K where
  lower := lower
  le x y := decide (x ≤ y)
  add x y := x + y
  sub x y := x - y
  mul x y := x * y
  ofRat q := (q : K)
  log1p n := some (log1p n)
  ofRat_le := decide_ratCast_le

/-- The view in another state. -/
def LifecycleView.inState (v : LifecycleView K) (state : LifecycleState) : LifecycleView K := { v with state := state }

variable (lower : Text → Text) (log1p : Int → K) {v : LifecycleView K} {terms : List Text} {atTime : Option K}

theorem greater_exact (x y : K) : greater (exactRuntime K lower log1p) x y = max x y := by
  by_cases h : y ≤ x
  · simp [greater, less, exactRuntime, h]
  · have hle := (not_le.mp h).le
    simp [greater, less, exactRuntime, h, hle]

theorem lesser_exact (x y : K) : lesser (exactRuntime K lower log1p) x y = min x y := by
  by_cases h : x ≤ y
  · simp [lesser, less, exactRuntime, h]
  · have hle := (not_le.mp h).le
    simp [lesser, less, exactRuntime, h, hle]

theorem toUnit_exact (x : K) : toUnit (exactRuntime K lower log1p) x = min 1 (max 0 x) := by
  rw [toUnit, lesser_exact, greater_exact]
  simp [exactRuntime]

theorem toUnit_mono {x y : K} (h : x ≤ y) :
    toUnit (exactRuntime K lower log1p) x ≤ toUnit (exactRuntime K lower log1p) y := by
  rw [toUnit_exact, toUnit_exact]
  exact min_le_min_left 1 (max_le_max_left 0 h)

variable {lower log1p}

theorem inUnit_exact {x : K} (h : InUnit (exactRuntime K lower log1p) x) : 0 ≤ x ∧ x ≤ 1 := by
  obtain ⟨hnonneg, hone⟩ := h
  simpa [exactRuntime] using And.intro (of_decide_eq_true hnonneg) (of_decide_eq_true hone)

/-! ### What a state takes -/

/-- What a state and the query take from the importance of an active memory. -/
def LifecycleState.loss (current : Bool) : LifecycleState → K
  | historical => 10 / 100
  | superseded => 28 / 100 + if current = true then 12 / 100 else 0
  | contradicted => 22 / 100
  | archival => 35 / 100
  | active | deleted => 0

/-- What a state and the query take from a score, besides. -/
def LifecycleState.scoreLoss (current : Bool) : LifecycleState → K
  | superseded => if current = true then 18 / 100 else 0
  | contradicted => 20 / 100
  | active | historical | archival | deleted => 0

theorem loss_nonneg (current : Bool) (s : LifecycleState) : 0 ≤ (s.loss current : K) := by
  cases s <;> cases current <;> norm_num [LifecycleState.loss]

theorem scoreLoss_nonneg (current : Bool) (s : LifecycleState) : 0 ≤ (s.scoreLoss current : K) := by
  cases s <;> cases current <;> norm_num [LifecycleState.scoreLoss]

section Ranking

variable (h : mentions (exactRuntime K lower log1p) terms historicalQueryTerms = false)

include h

/-- Without a historical term the importance is that of an active memory less the loss. -/
theorem importanceAdjustment_exact : v.importanceAdjustment (exactRuntime K lower log1p) terms atTime =
    (v.inState .active).importanceAdjustment (exactRuntime K lower log1p) terms atTime -
      v.state.loss (mentions (exactRuntime K lower log1p) terms currentQueryTerms) := by
  have hsame : (v.inState .active).activeAt (exactRuntime K lower log1p) atTime =
      v.activeAt (exactRuntime K lower log1p) atTime := rfl
  have hself : (v.inState .active).state = .active := rfl
  simp only [LifecycleView.importanceAdjustment, h, hsame, hself]
  generalize v.activeAt (exactRuntime K lower log1p) atTime = valid
  generalize mentions (exactRuntime K lower log1p) terms currentQueryTerms = current
  cases v.state <;> cases valid <;> cases current <;>
    simp [LifecycleState.adjustment, LifecycleState.loss, exactRuntime] <;> ring

/-- Without a historical term the score is moved by the gain in importance less the loss. -/
theorem scoreAdjustment_exact (effective : K) : v.scoreAdjustment (exactRuntime K lower log1p) terms effective =
    (effective - toUnit (exactRuntime K lower log1p) v.baseImportance) * (65 / 100) -
      v.state.scoreLoss (mentions (exactRuntime K lower log1p) terms currentQueryTerms) := by
  simp only [LifecycleView.scoreAdjustment, h]
  generalize mentions (exactRuntime K lower log1p) terms currentQueryTerms = current
  cases v.state <;> cases current <;> simp [LifecycleState.scoreLoss, exactRuntime]

end Ranking

/-! ### The ranking -/

/-- The importance before it is clamped. -/
def LifecycleView.exactImportance (lower : Text → Text) (log1p : Int → K) (v : LifecycleView K) (terms : List Text)
    (atTime : Option K) (base : K) : K :=
  base + v.importanceDelta + v.importanceAdjustment (exactRuntime K lower log1p) terms atTime +
    min (12 / 100) (log1p (max 0 v.usageCount) * (3 / 100))

theorem effectiveImportance_exact (hstate : v.state ≠ .deleted) (base : Option K) :
    v.effectiveImportance (exactRuntime K lower log1p) terms atTime base =
      some (toUnit (exactRuntime K lower log1p) (v.exactImportance lower log1p terms atTime
        ((base.map (toUnit (exactRuntime K lower log1p))).getD v.baseImportance))) := by
  have hbonus : v.usageBonus (exactRuntime K lower log1p) =
      some (min (12 / 100) (log1p (max 0 v.usageCount) * (3 / 100))) := by
    simp only [LifecycleView.usageBonus, lesser_exact]
    simp [exactRuntime]
  rw [LifecycleView.effectiveImportance, if_neg hstate, hbonus]
  rfl

theorem adjustedScore_exact (hstate : v.state ≠ .deleted) (score : K) :
    v.adjustedScore (exactRuntime K lower log1p) terms atTime score =
      some (toUnit (exactRuntime K lower log1p) (score + v.scoreAdjustment (exactRuntime K lower log1p) terms
        (toUnit (exactRuntime K lower log1p) (v.exactImportance lower log1p terms atTime v.baseImportance)))) := by
  rw [LifecycleView.adjustedScore, if_neg hstate, effectiveImportance_exact hstate]
  rfl

/-- No state has a greater importance than `active`. -/
theorem exactImportance_le_active (h : mentions (exactRuntime K lower log1p) terms historicalQueryTerms = false) :
    v.exactImportance lower log1p terms atTime v.baseImportance ≤
      (v.inState .active).exactImportance lower log1p terms atTime v.baseImportance := by
  have hloss := @loss_nonneg K _ _ _ (mentions (exactRuntime K lower log1p) terms currentQueryTerms) v.state
  have hdelta : (v.inState .active).importanceDelta = v.importanceDelta := rfl
  have husage : (v.inState .active).usageCount = v.usageCount := rfl
  unfold LifecycleView.exactImportance
  rw [importanceAdjustment_exact (v := v) h, hdelta, husage]
  linarith

/-- No state has a greater score than `active`. -/
theorem adjustedScore_le_active (h : mentions (exactRuntime K lower log1p) terms historicalQueryTerms = false)
    (score : K) : ∃ adjusted active, v.adjustedScore (exactRuntime K lower log1p) terms atTime score = some adjusted ∧
      (v.inState .active).adjustedScore (exactRuntime K lower log1p) terms atTime score = some active ∧
      adjusted ≤ active := by
  have hself : (v.inState .active).state ≠ .deleted := LifecycleState.noConfusion
  have hactive := @adjustedScore_exact K _ _ _ lower log1p (v.inState .active) terms atTime hself score
  by_cases hstate : v.state = .deleted
  · have hunit := inUnit_exact (LifecycleView.inUnit_adjustedScore hactive)
    refine ⟨_, _, if_pos hstate, hactive, ?_⟩
    simpa [exactRuntime] using hunit.1
  · refine ⟨_, _, adjustedScore_exact hstate score, hactive, toUnit_mono lower log1p ?_⟩
    have hloss := @scoreLoss_nonneg K _ _ _ (mentions (exactRuntime K lower log1p) terms currentQueryTerms) v.state
    have hactiveLoss : (v.inState .active).state.scoreLoss
        (mentions (exactRuntime K lower log1p) terms currentQueryTerms) = (0 : K) := rfl
    have hbase : (v.inState .active).baseImportance = v.baseImportance := rfl
    have heffective := toUnit_mono lower log1p (@exactImportance_le_active K _ _ _ lower log1p v terms atTime h)
    rw [scoreAdjustment_exact h, scoreAdjustment_exact h, hactiveLoss, hbase]
    linarith

/-- Without a historical term no state ranks above `active`. Scores and importances are between zero and one, and
zero where the memory is deleted. -/
theorem active_ranks_first (lower : Text → Text) (log1p : Int → K) (v : LifecycleView K) (terms : List Text)
    (atTime : Option K) (score : K) :
    (mentions (exactRuntime K lower log1p) terms historicalQueryTerms = false → ∀ s, ∃ adjusted active,
      (v.inState s).adjustedScore (exactRuntime K lower log1p) terms atTime score = some adjusted ∧
        (v.inState .active).adjustedScore (exactRuntime K lower log1p) terms atTime score = some active ∧
        adjusted ≤ active) ∧
    (∃ adjusted, v.adjustedScore (exactRuntime K lower log1p) terms atTime score = some adjusted ∧
      0 ≤ adjusted ∧ adjusted ≤ 1 ∧ (v.state = .deleted → adjusted = 0)) ∧
    ∀ base, ∃ effective, v.effectiveImportance (exactRuntime K lower log1p) terms atTime base = some effective ∧
      0 ≤ effective ∧ effective ≤ 1 ∧ (v.state = .deleted → effective = 0) := by
  have hzero : (exactRuntime K lower log1p).ofRat 0 = 0 := by simp [exactRuntime]
  refine ⟨fun h s => ?_, ?_, fun base => ?_⟩
  · exact @adjustedScore_le_active K _ _ _ lower log1p (v.inState s) terms atTime h score
  · by_cases hstate : v.state = .deleted
    · refine ⟨0, ?_, le_rfl, zero_le_one, fun _ => rfl⟩
      rw [LifecycleView.adjustedScore, if_pos hstate, hzero]
    · have hadjusted := @adjustedScore_exact K _ _ _ lower log1p v terms atTime hstate score
      obtain ⟨hnonneg, hone⟩ := inUnit_exact (LifecycleView.inUnit_adjustedScore hadjusted)
      exact ⟨_, hadjusted, hnonneg, hone, fun hdeleted => absurd hdeleted hstate⟩
  · by_cases hstate : v.state = .deleted
    · refine ⟨0, ?_, le_rfl, zero_le_one, fun _ => rfl⟩
      rw [LifecycleView.effectiveImportance, if_pos hstate, hzero]
    · have heffective := @effectiveImportance_exact K _ _ _ lower log1p v terms atTime hstate base
      obtain ⟨hnonneg, hone⟩ := inUnit_exact (LifecycleView.inUnit_effectiveImportance heffective)
      exact ⟨_, heffective, hnonneg, hone, fun hdeleted => absurd hdeleted hstate⟩

end Exact

/-- A memory that is no longer valid at the time of the query. -/
def staleView : LifecycleView ℚ where
  state := .superseded
  version := none
  supersedes := []
  supersededBy := some "mem_2".toList
  validFrom := none
  validTo := some 10
  usageCount := 3
  lastUsedAt := none
  importanceDelta := 1 / 10
  baseImportance := 4 / 5

theorem active_ranks_first_stale : ∃ adjusted active : ℚ,
    (staleView.inState .superseded).adjustedScore (exactRuntime ℚ id fun n => (n : ℚ)) ["now".toList] (some 12) (1 / 2) =
        some adjusted ∧
      (staleView.inState .active).adjustedScore (exactRuntime ℚ id fun n => (n : ℚ)) ["now".toList] (some 12) (1 / 2) =
        some active ∧ adjusted ≤ active :=
  (active_ranks_first id (fun n => (n : ℚ)) staleView ["now".toList] (some 12) (1 / 2)).1 (by decide +kernel) .superseded

end AgentMemory
