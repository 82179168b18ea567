import AgentMemory.Agentic.Heuristics
import AgentMemory.Lib.Loops

/-!
# Driving a goal by the advice

`docs/goal-lifecycle.md`: an agent asks for advice, performs the route it is given and asks
again, until it is told to answer or to verify. `chooseRoute` tests for a plan before it looks
at the phase, so an agent that has executed is told to execute again;
`lifecycle_progresses_iff` says which requests never come to that.
-/

namespace AgentMemory

/-- The route that `Decide` recommends. -/
def advised (lower : Char → Char) (req : DecisionRequest) : Option Route :=
  match Agentic.decide lower req with
  | .ok advice => some advice.route
  | .error _ => none

/-- The request once the agent has performed a route. -/
def Route.perform : Route → DecisionRequest → DecisionRequest
  | .research, req => { req with hasEvidence := true }
  | .specify, req => { req with hasApprovedSpec := true }
  | .plan, req => { req with hasPlan := true }
  | .execute, req => { req with phase := .verify }
  | _, req => req

/-- The routes the driver stops at. -/
def Route.ends : Route → Bool
  | .answerDirectly | .verify => true
  | _ => false

/-- One round of the driver. -/
def driveOnce (lower : Char → Char) (req : DecisionRequest) : Option DecisionRequest :=
  (advised lower req).bind fun route => if route.ends = true then none else some (route.perform req)

/-- The route recommended in a round, while the driver runs. -/
def routeAt (lower : Char → Char) (req : DecisionRequest) (n : Nat) : Option Route :=
  (rounds (driveOnce lower) req n).bind (advised lower)

/-- The driver is given no route twice, and after `execute` it ends with `verify`. -/
structure Progresses (lower : Char → Char) (req : DecisionRequest) : Prop where
  once : ∀ i j route, routeAt lower req i = some route → routeAt lower req j = some route → i = j
  verified : (∃ i, routeAt lower req i = some .execute) →
    ∃ n, routeAt lower req n = some .verify ∧ routeAt lower req (n + 1) = none

/-- There is no plan and nothing in the request asks for one, or the task is blank. -/
def NoWorkAsked (lower : Char → Char) (req : DecisionRequest) : Prop :=
  trimSpace req.task.toList = [] ∨
    req.hasPlan = false ∧ req.userAskedForCode = false ∧ asksForWork lower req.task = false

/-! ## What one piece of advice says -/

variable {lower : Char → Char} {req : DecisionRequest} {route : Route}

/-- The flag that performing a route sets. -/
def Route.flag : Route → DecisionRequest → Bool
  | .research, req => req.hasEvidence
  | .specify, req => req.hasApprovedSpec
  | .plan, req => req.hasPlan
  | _, _ => false

theorem advised_of_task (h : trimSpace req.task.toList ≠ []) :
    advised lower req = some (chooseRoute lower req (inferRisk lower req) (inferHorizon lower req)) := by
  unfold advised Agentic.decide
  rw [if_neg h]

theorem advised_eq_some (h : advised lower req = some route) : trimSpace req.task.toList ≠ [] ∧
    chooseRoute lower req (inferRisk lower req) (inferHorizon lower req) = route := by
  by_cases hblank : trimSpace req.task.toList = []
  · unfold advised Agentic.decide at h
    rw [if_pos hblank] at h
    cases h
  · rw [advised_of_task hblank] at h
    exact ⟨hblank, Option.some.inj h⟩

/-- The guard of each route. -/
theorem chooseRoute_cases (lower : Char → Char) (req : DecisionRequest) (risk : RiskLevel) (horizon : Horizon) :
    (chooseRoute lower req risk horizon = .research ∧ needsResearch lower req = true) ∨
    (chooseRoute lower req risk horizon = .specify ∧ needsSpec lower req risk horizon = true) ∨
    (chooseRoute lower req risk horizon = .plan ∧ needsPlan lower req = true) ∨
    (chooseRoute lower req risk horizon = .execute ∧ (req.hasPlan = true ∨ req.userAskedForCode = true)) ∨
    ((chooseRoute lower req risk horizon).ends = true ∧ needsPlan lower req = false ∧
      req.hasPlan = false ∧ req.userAskedForCode = false) := by
  unfold chooseRoute
  split
  · next hresearch => exact Or.inl ⟨rfl, hresearch⟩
  split
  · next hspec => exact Or.inr (Or.inl ⟨rfl, hspec⟩)
  split
  · next hplan => exact Or.inr (Or.inr (Or.inl ⟨rfl, hplan⟩))
  split
  · next hexecute => exact Or.inr (Or.inr (Or.inr (Or.inl ⟨rfl, by simpa using hexecute⟩)))
  · next hplan hexecute =>
    have hrest : req.hasPlan = false ∧ req.userAskedForCode = false := by simpa using hexecute
    refine Or.inr (Or.inr (Or.inr (Or.inr ⟨?_, by simpa using hplan, hrest⟩)))
    split <;> rfl

/-- A route is recommended only while its flag is not set. -/
theorem flag_of_advised (h : advised lower req = some route) : route.flag req = false := by
  obtain ⟨-, rfl⟩ := advised_eq_some h
  rcases chooseRoute_cases lower req (inferRisk lower req) (inferHorizon lower req) with
    ⟨hroute, hneeds⟩ | ⟨hroute, hneeds⟩ | ⟨hroute, hneeds⟩ | ⟨hroute, -⟩ | ⟨hends, -⟩
  · rw [hroute]
    by_contra hset
    have hflag : req.hasEvidence = true := by simpa [Route.flag] using hset
    simp [needsResearch, hflag] at hneeds
  · rw [hroute]
    by_contra hset
    have hflag : req.hasApprovedSpec = true := by simpa [Route.flag] using hset
    simp [needsSpec, hflag] at hneeds
  · rw [hroute]
    by_contra hset
    have hflag : req.hasPlan = true := by simpa [Route.flag] using hset
    simp [needsPlan, hflag] at hneeds
  · rw [hroute]
    rfl
  · revert hends
    cases chooseRoute lower req (inferRisk lower req) (inferHorizon lower req) <;> simp [Route.ends, Route.flag]

/-- Performing a stage sets its flag. -/
theorem flag_perform_self (h : advised lower req = some route) (hends : route.ends = false)
    (hexecute : route ≠ .execute) : route.flag (route.perform req) = true := by
  obtain ⟨-, rfl⟩ := advised_eq_some h
  rcases chooseRoute_cases lower req (inferRisk lower req) (inferHorizon lower req) with
    ⟨hchosen, -⟩ | ⟨hchosen, -⟩ | ⟨hchosen, -⟩ | ⟨hchosen, -⟩ | ⟨hstops, -⟩
  · rw [hchosen]
    rfl
  · rw [hchosen]
    rfl
  · rw [hchosen]
    rfl
  · exact absurd hchosen hexecute
  · rw [hends] at hstops
    cases hstops

/-- Performing a route takes no flag back. -/
theorem flag_perform {r : Route} (h : r.flag req = true) (route : Route) : r.flag (route.perform req) = true := by
  cases r <;> cases route <;> simp_all [Route.flag, Route.perform]

/-- A driver that goes on has performed what it was advised. -/
theorem driveOnce_eq_some {req' : DecisionRequest} (h : driveOnce lower req = some req') :
    ∃ route, advised lower req = some route ∧ route.ends = false ∧ req' = route.perform req := by
  obtain ⟨route, hadvised, hnext⟩ := Option.bind_eq_some_iff.mp h
  split at hnext
  · cases hnext
  · next hends => exact ⟨route, hadvised, by simpa using hends, (Option.some.inj hnext).symm⟩

theorem driveOnce_of_advised (h : advised lower req = some route) (hends : route.ends = false) :
    driveOnce lower req = some (route.perform req) := by
  rw [driveOnce, h, Option.bind_some, if_neg (by simp [hends])]

theorem routeAt_eq_some {n : Nat} (h : routeAt lower req n = some route) :
    ∃ now, rounds (driveOnce lower) req n = some now ∧ advised lower now = some route :=
  Option.bind_eq_some_iff.mp h

/-! ## Requests that never come to execution -/

theorem noWorkAsked_step {req' : DecisionRequest} (h : NoWorkAsked lower req)
    (hnext : driveOnce lower req = some req') : NoWorkAsked lower req' := by
  obtain ⟨route, hadvised, -, rfl⟩ := driveOnce_eq_some hnext
  obtain ⟨htask, hroute⟩ := advised_eq_some hadvised
  obtain ⟨hplan, hcode, hwords⟩ := h.resolve_left htask
  have hneeds : needsPlan lower req = false := by simp [needsPlan, hplan, hcode, hwords]
  rcases chooseRoute_cases lower req (inferRisk lower req) (inferHorizon lower req) with
    ⟨hchosen, -⟩ | ⟨hchosen, -⟩ | ⟨-, hplans⟩ | ⟨-, hworks⟩ | ⟨hends, -⟩
  · rw [← hroute, hchosen]
    exact Or.inr ⟨hplan, hcode, hwords⟩
  · rw [← hroute, hchosen]
    exact Or.inr ⟨hplan, hcode, hwords⟩
  · rw [hneeds] at hplans
    cases hplans
  · simp [hplan, hcode] at hworks
  · rw [← hroute]
    revert hends
    cases chooseRoute lower req (inferRisk lower req) (inferHorizon lower req) <;>
      simp [Route.ends, Route.perform, NoWorkAsked, hplan, hcode, hwords]

/-- Without work to do the advice is never to execute. -/
theorem not_execute_of_noWorkAsked (h : NoWorkAsked lower req) : advised lower req ≠ some .execute := by
  intro hadvised
  obtain ⟨htask, hroute⟩ := advised_eq_some hadvised
  obtain ⟨hplan, hcode, -⟩ := h.resolve_left htask
  rcases chooseRoute_cases lower req (inferRisk lower req) (inferHorizon lower req) with
    ⟨hchosen, -⟩ | ⟨hchosen, -⟩ | ⟨hchosen, -⟩ | ⟨-, hworks⟩ | ⟨hends, -⟩
  · simp [hchosen] at hroute
  · simp [hchosen] at hroute
  · simp [hchosen] at hroute
  · simp [hplan, hcode] at hworks
  · simp [hroute, Route.ends] at hends

/-- A stage that was recommended is not recommended in a later round. -/
theorem routeAt_once (h : NoWorkAsked lower req) {i j : Nat} (hi : routeAt lower req i = some route)
    (hj : routeAt lower req j = some route) : ¬ i < j := by
  intro hlt
  obtain ⟨before, hbefore, hadvised⟩ := routeAt_eq_some hi
  obtain ⟨after_, hafter, hagain⟩ := routeAt_eq_some hj
  obtain ⟨k, rfl⟩ : ∃ k, j = i + 1 + k := Nat.exists_eq_add_of_le hlt
  have hnext : rounds (driveOnce lower) req (i + 1) = driveOnce lower before := by
    rw [rounds, hbefore, Option.bind_some]
  cases hround : driveOnce lower before with
  | none =>
    rw [rounds_ended (hnext.trans hround) (Nat.le_add_right _ k)] at hafter
    cases hafter
  | some mid =>
    rw [rounds_after (hnext.trans hround)] at hafter
    obtain ⟨route', hadvised', hends, rfl⟩ := driveOnce_eq_some hround
    obtain rfl : route' = route := Option.some.inj (hadvised'.symm.trans hadvised)
    have hwork := rounds_invariant (fun _ _ hwork hstep => noWorkAsked_step hwork hstep) h hbefore
    have hset : route'.flag (route'.perform before) = true := by
      apply flag_perform_self hadvised hends
      rintro rfl
      exact not_execute_of_noWorkAsked hwork hadvised
    have hstill : route'.flag after_ = true := by
      refine rounds_invariant (I := fun now => route'.flag now = true) ?_ hset hafter
      intro now now' hflag hstep
      obtain ⟨other, -, -, rfl⟩ := driveOnce_eq_some hstep
      exact flag_perform hflag other
    rw [flag_of_advised hagain] at hstill
    cases hstill

/-! ## Requests that do -/

/-- The flags that are not set. -/
def openFlags (req : DecisionRequest) : Nat :=
  (!req.hasEvidence).toNat + (!req.hasApprovedSpec).toNat + (!req.hasPlan).toNat

/-- A stage that was open is no longer. -/
theorem openFlags_perform (h : advised lower req = some route)
    (hstage : route = .research ∨ route = .specify ∨ route = .plan) :
    openFlags (route.perform req) < openFlags req := by
  have hflag := flag_of_advised h
  rcases hstage with rfl | rfl | rfl
  · have hopen : req.hasEvidence = false := hflag
    simp [openFlags, Route.perform, hopen]
  · have hopen : req.hasApprovedSpec = false := hflag
    simp [openFlags, Route.perform, hopen]
  · have hopen : req.hasPlan = false := hflag
    simp [openFlags, Route.perform, hopen]

/-- Where work is asked for, the advice is a stage that is open, or to execute. -/
theorem advised_of_work (h : ¬ NoWorkAsked lower req) : ∃ route, advised lower req = some route ∧
    (route = .execute ∨ route = .research ∨ route = .specify ∨ route = .plan) := by
  obtain ⟨htask, hwork⟩ := not_or.mp h
  refine ⟨_, advised_of_task htask, ?_⟩
  rcases chooseRoute_cases lower req (inferRisk lower req) (inferHorizon lower req) with
    ⟨hchosen, -⟩ | ⟨hchosen, -⟩ | ⟨hchosen, -⟩ | ⟨hchosen, -⟩ | ⟨-, hneeds, hplan, hcode⟩
  · exact Or.inr (Or.inl hchosen)
  · exact Or.inr (Or.inr (Or.inl hchosen))
  · exact Or.inr (Or.inr (Or.inr hchosen))
  · exact Or.inl hchosen
  · refine absurd ⟨hplan, hcode, ?_⟩ hwork
    simpa [needsPlan, hplan, hcode] using hneeds

theorem work_perform (h : ¬ NoWorkAsked lower req) (route : Route) : ¬ NoWorkAsked lower (route.perform req) := by
  intro hnone
  apply h
  cases route <;> simp_all [NoWorkAsked, Route.perform]

/-- The driver is told to execute at some point. -/
theorem exists_execute (h : ¬ NoWorkAsked lower req) : ∃ n now, rounds (driveOnce lower) req n = some now ∧
    ¬ NoWorkAsked lower now ∧ advised lower now = some .execute := by
  refine exists_rounds_of_measure openFlags ?_ h
  intro now hwork hgoal
  obtain ⟨route, hadvised, rfl | hstage⟩ := advised_of_work hwork
  · exact absurd hadvised hgoal
  · have hends : route.ends = false := by rcases hstage with rfl | rfl | rfl <;> rfl
    exact ⟨_, driveOnce_of_advised hadvised hends, work_perform hwork route, openFlags_perform hadvised hstage⟩

/-- Moving to the verify phase does not change the advice to execute. -/
theorem execute_again (h : advised lower req = some .execute) :
    advised lower (Route.execute.perform req) = some .execute := by
  obtain ⟨htask, hroute⟩ := advised_eq_some h
  refine (@advised_of_task lower (Route.execute.perform req) htask).trans (congrArg some ?_)
  unfold chooseRoute at hroute ⊢
  split_ifs at hroute with hresearch hspec hplan hexecute
  exact (if_neg hresearch).trans ((if_neg hspec).trans ((if_neg hplan).trans (if_pos hexecute)))

/-- The driver progresses exactly where nothing leads to execution: the phase that executing
sets is not looked at while there is a plan or a request for code. -/
theorem lifecycle_progresses_iff (lower : Char → Char) (req : DecisionRequest) :
    Progresses lower req ↔ NoWorkAsked lower req := by
  constructor
  · intro h
    by_contra hwork
    obtain ⟨n, now, hrun, -, hexecute⟩ := exists_execute hwork
    have hround : routeAt lower req n = some .execute := by
      rw [routeAt, hrun, Option.bind_some, hexecute]
    have hnext : routeAt lower req (n + 1) = some .execute := by
      rw [routeAt, rounds, hrun, Option.bind_some, driveOnce_of_advised hexecute rfl, Option.bind_some]
      exact execute_again hexecute
    exact absurd (h.once n (n + 1) _ hround hnext) (by omega)
  · intro h
    refine ⟨fun i j route hi hj => ?_, ?_⟩
    · have hij := routeAt_once h hi hj
      have hji := routeAt_once h hj hi
      omega
    · rintro ⟨i, hi⟩
      obtain ⟨now, hrun, hadvised⟩ := routeAt_eq_some hi
      have hwork := rounds_invariant (fun _ _ hwork hstep => noWorkAsked_step hwork hstep) h hrun
      exact absurd hadvised (not_execute_of_noWorkAsked hwork)

/-- An approved plan with its evidence at hand. -/
def plannedRequest : DecisionRequest where
  task := "ship it"
  phase := .execute
  risk := .low
  tokenBudget := 900
  hasApprovedSpec := true
  hasPlan := true
  hasEvidence := true
  userAskedForCode := false

/-- The plan is executed again and again. -/
theorem plan_executed_twice : ¬ Progresses Char.toLower plannedRequest := by
  intro h
  have hsame := h.once 0 1 .execute (by decide +kernel) (by decide +kernel)
  omega

end AgentMemory
