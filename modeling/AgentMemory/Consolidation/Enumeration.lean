import AgentMemory.Consolidation.Convergence
import AgentMemory.Lib.Pages

/-!
# The order of the neighbours

The loop of `Consolidate` (`service.go:50-76`) returns at the first neighbour that a test matches, and a
store leaves the order of some neighbours open: the in-memory one ranges over a map, and Postgres orders by
importance and update time only. `order_free_iff` says where all orders of the same neighbours lead to the
same decision and the same stores.
-/

namespace AgentMemory

open Tables Calls

/-- The calls at one instant, where the neighbours are listed in this order and the next id is given. -/
def enumerating (d : Deployment) (now : Time) (order : List Memory) (id : String) : Step Call Resp Err World :=
  fun c w r w' => answering (d.steady now) now order c w r w' ∧ match c, r with
    | .newID _, .ok newID => newID = id
    | _, _ => True

/-- Any two orders in which the store may list these neighbours end the same. -/
def OrderFree (d : Deployment) (now : Time) (candidate : Memory) (w : World) (neighbors : List Memory) : Prop :=
  ∀ order order' : List Memory, order.Perm neighbors → order'.Perm neighbors → ∀ id o o' w₁ w₂,
    Exec (enumerating d now order id) (consolidate (d.steady now) candidate) w o w₁ →
    Exec (enumerating d now order' id) (consolidate (d.steady now) candidate) w o' w₂ → o = o' ∧ w₁ = w₂

/-- What a store lists before what, where it has an order at all. -/
def Backend.Before : Backend → Memory → Memory → Prop
  | .memory => fun _ _ => True
  | .postgres _ _ => ListedBefore

/-- A test matches the neighbour, and the store lists none before it that a test matches. -/
structure Foremost (d : Deployment) (now : Time) (candidate : Memory) (neighbors : List Memory) (n : Memory) :
    Prop where
  mem : n ∈ neighbors
  applies : applies d.lower now candidate n = true
  first : ∀ m ∈ neighbors, AgentMemory.applies d.lower now candidate m = true → d.backend.Before n m

/-- The stores once the edge of a relation is written. -/
def World.linked (w : World) (d : Deployment) (source target : Memory) (relation : RelationType) : World :=
  if d.hasGraph = true then { w with edges := w.edges ++ [relationEdge source target relation] } else w

/-- What `Consolidate` comes to where this is the first match; `id` is the one of a snapshot. -/
def settled (d : Deployment) (now : Time) (candidate : Memory) (id : String) (w : World) :
    Option Memory → Result × World
  | none => (⟨candidate, .new, []⟩, w)
  | some n =>
    if mergeThreshold ≤ similar d.lower n.content candidate.content then
      (⟨merge n candidate now, .merged, []⟩,
        { w with memories := d.backend.upsert w.memories (merge n candidate now) })
    else if shouldSupersede d.lower n candidate = true then
      (⟨candidate, .superseded, [closed n candidate id now]⟩,
        World.linked
          { w with
            issued := id :: w.issued
            memories := d.backend.upsert w.memories (closed n candidate id now) }
          d candidate (closed n candidate id now) .supersedes)
    else (⟨candidate, .contradicts, [n]⟩, w.linked d candidate n .contradicts)

variable {d : Deployment} {now : Time} {candidate n : Memory} {w : World} {neighbors order : List Memory} {id : String}

/-! ## Listings -/

instance : DecidableRel d.backend.Before := fun a b =>
  match d.backend with
  | .memory => isTrue trivial
  | .postgres _ _ => inferInstanceAs (Decidable (ListedBefore a b))

theorem before_refl (b : Backend) (m : Memory) : b.Before m m := by
  cases b with
  | memory => trivial
  | postgres => exact listedBefore_refl m

theorem before_trans (b : Backend) (m₁ m₂ m₃ : Memory) (h : b.Before m₁ m₂) (h' : b.Before m₂ m₃) :
    b.Before m₁ m₃ := by
  cases b with
  | memory => trivial
  | postgres => exact listedBefore_trans m₁ m₂ m₃ h h'

theorem before_total (b : Backend) (m₁ m₂ : Memory) : b.Before m₁ m₂ ∨ b.Before m₂ m₁ := by
  cases b with
  | memory => exact Or.inl trivial
  | postgres => exact listedBefore_total m₁ m₂

/-- Of the orders of some neighbours, a store may list those that keep to its own. -/
theorem lists_perm_iff {b : Backend} {s : MemoryStore} {q : Query} (hl : b.Lists s q neighbors)
    (hperm : order.Perm neighbors) : b.Lists s q order ↔ order.Pairwise b.Before := by
  cases b with
  | memory => exact iff_of_true (hperm.trans hl) (List.pairwise_of_forall fun _ _ => trivial)
  | postgres timestamptz ilike =>
    constructor
    · rintro ⟨ordered, -, hsorted, rfl⟩
      exact hsorted.sublist (List.take_sublist _ _)
    · intro hsorted
      exact Pages.Page.of_perm hl hperm hsorted

/-- The foremost matches are those that some order puts first. -/
theorem foremost_iff : Foremost d now candidate neighbors n ↔ ∃ order : List Memory,
    order.Perm neighbors ∧ order.Pairwise d.backend.Before ∧ order.find? (applies d.lower now candidate) = some n := by
  have hfirst := Sorted.exists_sorted_find?_iff (before_refl d.backend) (before_trans d.backend)
    (before_total d.backend) (s := neighbors) (a := n) (k := neighbors.length) (p := applies d.lower now candidate)
  have htake : (∃ order : List Memory, order.Perm neighbors ∧ order.Pairwise d.backend.Before ∧
      (order.take neighbors.length).find? (applies d.lower now candidate) = some n) ↔
      ∃ order : List Memory, order.Perm neighbors ∧ order.Pairwise d.backend.Before ∧
        order.find? (applies d.lower now candidate) = some n := by
    refine exists_congr fun order => and_congr_right fun hperm => ?_
    rw [List.take_of_length_le hperm.length_eq.le]
  rw [← htake, hfirst]
  have hahead : ∀ m, m ∈ Sorted.ahead d.backend.Before neighbors n ↔ m ∈ neighbors ∧ ¬ d.backend.Before n m := by
    intro m
    simp [Sorted.ahead]
  constructor
  · rintro ⟨hmem, happ, hfirst⟩
    refine ⟨hmem, happ, ?_, fun m hm => ?_⟩
    · exact List.length_filter_lt_length_iff_exists.mpr ⟨n, hmem, by simpa using before_refl d.backend n⟩
    · obtain ⟨hm, hnot⟩ := (hahead m).mp hm
      by_contra hmatch
      exact hnot (hfirst m hm (by simpa using hmatch))
  · rintro ⟨hmem, happ, -, hfirst⟩
    refine ⟨hmem, happ, fun m hm hmatch => ?_⟩
    by_contra hnot
    rw [hfirst m ((hahead m).mpr ⟨hm, hnot⟩)] at hmatch
    cases hmatch

/-! ## Where a run ends -/

theorem enumerating_answer {c : Call} {w' : World} {r : Except Err (Resp c)} (h : enumerating d now order id c w r w')
    (hc : c.canRefuse = false) : ∃ a, r = .ok a ∧ Answers (d.steady now) c w a w' := by
  rcases step_store h.1.1 hc with hanswer | ⟨e, -, hfaulty, -⟩
  · exact hanswer
  · exact hfaulty.elim

theorem wp_linkRelation_enumerating {source target : Memory} {relation : RelationType} {Q : Except Err Unit → World → Prop}
    (h : Q (.ok ()) (w.linked d source target relation)) :
    wp (enumerating d now order id) Q (linkRelation (d.steady now) source target relation) w := by
  unfold linkRelation
  unfold World.linked at h
  cases hgraph : d.hasGraph with
  | false =>
    rw [if_neg (by simp [hgraph])] at h
    rw [if_pos (show (d.steady now).hasGraph = false from hgraph)]
    exact h
  | true =>
    rw [if_pos hgraph] at h
    rw [if_neg (by simp [Deployment.steady, hgraph]), wp_ignore]
    intro r w' hs
    obtain ⟨_, -, rfl⟩ := enumerating_answer hs rfl
    exact h

theorem wp_settle_enumerating :
    wp (enumerating d now order id) (fun o w' => o = .ok (settled d now candidate id w (some n)).1 ∧
      w' = (settled d now candidate id w (some n)).2) (settle (d.steady now) now candidate n) w := by
  unfold settle settled
  dsimp only
  by_cases hmerge : mergeThreshold ≤ similar d.lower n.content candidate.content
  · rw [if_pos hmerge, if_pos (show mergeThreshold ≤ similar (d.steady now).lower _ _ from hmerge), wp_perform_bind]
    intro r w' hs
    obtain ⟨_, rfl, rfl⟩ := enumerating_answer hs rfl
    exact ⟨rfl, rfl⟩
  · rw [if_neg hmerge, if_neg (show ¬ mergeThreshold ≤ similar (d.steady now).lower _ _ from hmerge)]
    by_cases hsupersede : shouldSupersede d.lower n candidate = true
    · rw [if_pos hsupersede, if_pos (show shouldSupersede (d.steady now).lower _ _ = true from hsupersede),
        wp_perform_bind]
      intro r w' hs
      obtain ⟨newID, rfl, -, rfl⟩ := enumerating_answer hs rfl
      obtain rfl : id = newID := hs.2.symm
      dsimp only
      rw [wp_perform_bind]
      intro r w' hs
      obtain ⟨_, rfl, rfl⟩ := enumerating_answer hs rfl
      dsimp only
      rw [wp_bind]
      exact wp_linkRelation_enumerating ⟨rfl, rfl⟩
    · rw [if_neg hsupersede, if_neg (show ¬ shouldSupersede (d.steady now).lower _ _ = true from hsupersede), wp_bind]
      exact wp_linkRelation_enumerating ⟨rfl, rfl⟩

/-- A run lists the neighbours in its order and settles the first match. -/
theorem exec_enumerating {o : Except Err Result} {w' : World}
    (h : Exec (enumerating d now order id) (consolidate (d.steady now) candidate) w o w') :
    d.backend.Lists w.memories (neighborQuery candidate) order ∧
      o = .ok (settled d now candidate id w (order.find? (applies d.lower now candidate))).1 ∧
      w' = (settled d now candidate id w (order.find? (applies d.lower now candidate))).2 := by
  refine h.post (Q := fun o w' => d.backend.Lists w.memories (neighborQuery candidate) order ∧
    o = .ok (settled d now candidate id w (order.find? (applies d.lower now candidate))).1 ∧
    w' = (settled d now candidate id w (order.find? (applies d.lower now candidate))).2) ?_
  unfold consolidate
  rw [wp_perform_bind]
  intro r w₁ hs
  obtain ⟨instant, rfl, -, rfl⟩ := enumerating_answer hs rfl
  obtain rfl : now = instant := (Except.ok.inj hs.1.2).symm
  dsimp only
  rw [wp_perform_bind]
  intro r w₂ hs
  obtain ⟨listed, rfl, hlists, rfl⟩ := enumerating_answer hs rfl
  obtain rfl : order = listed := (Except.ok.inj hs.1.2).symm
  dsimp only
  rw [consolidateLoop_eq]
  cases hfind : List.find? (applies d.lower now candidate) order with
  | none =>
    rw [show order.find? (applies (d.steady now).lower now candidate) = none from hfind]
    exact ⟨hlists, rfl, rfl⟩
  | some n =>
    rw [show order.find? (applies (d.steady now).lower now candidate) = some n from hfind]
    exact wp_mono (fun o w' h => ⟨hlists, h⟩) _ _ wp_settle_enumerating

theorem exec_linkRelation_enumerating {source target : Memory} {relation : RelationType} :
    Exec (enumerating d now order id) (linkRelation (d.steady now) source target relation) w (.ok ())
      (w.linked d source target relation) := by
  unfold linkRelation World.linked
  cases hgraph : d.hasGraph with
  | false =>
    rw [if_pos (show (d.steady now).hasGraph = false from hgraph), if_neg (by simp)]
    exact .ret _ _
  | true =>
    rw [if_neg (by simp [Deployment.steady, hgraph]), if_pos rfl]
    have hedge : Answers (d.steady now) (.upsertEdge (relationEdge source target relation)) w ()
        { w with edges := w.edges ++ [relationEdge source target relation] } := rfl
    exact .call ⟨⟨step_answer hedge, trivial⟩, trivial⟩ (.ret _ _)

theorem exec_settle_enumerating (hid : w.Fresh id) :
    Exec (enumerating d now order id) (settle (d.steady now) now candidate n) w
      (.ok (settled d now candidate id w (some n)).1) (settled d now candidate id w (some n)).2 := by
  unfold settle settled
  dsimp only
  by_cases hmerge : mergeThreshold ≤ similar d.lower n.content candidate.content
  · rw [if_pos hmerge, if_pos (show mergeThreshold ≤ similar (d.steady now).lower _ _ from hmerge)]
    have hput : Answers (d.steady now) (.upsert (merge n candidate now)) w ()
        { w with memories := d.backend.upsert w.memories (merge n candidate now) } := rfl
    exact Exec.answer ⟨⟨step_answer hput, trivial⟩, trivial⟩ (.ret _ _)
  · rw [if_neg hmerge, if_neg (show ¬ mergeThreshold ≤ similar (d.steady now).lower _ _ from hmerge)]
    by_cases hsupersede : shouldSupersede d.lower n candidate = true
    · rw [if_pos hsupersede, if_pos (show shouldSupersede (d.steady now).lower _ _ = true from hsupersede)]
      have hnew : Answers (d.steady now) (.newID "ver") w id { w with issued := id :: w.issued } := ⟨hid, rfl⟩
      have hput : Answers (d.steady now) (.upsert (closed n candidate id now)) { w with issued := id :: w.issued } ()
          { w with
            issued := id :: w.issued
            memories := d.backend.upsert w.memories (closed n candidate id now) } := rfl
      refine Exec.answer ⟨⟨step_answer hnew, trivial⟩, rfl⟩ ?_
      refine Exec.answer ⟨⟨step_answer hput, trivial⟩, trivial⟩ ?_
      exact Exec.bind exec_linkRelation_enumerating (.ret _ _)
    · rw [if_neg hsupersede, if_neg (show ¬ shouldSupersede (d.steady now).lower _ _ = true from hsupersede)]
      exact Exec.bind exec_linkRelation_enumerating (.ret _ _)

/-- Each order that the store may list has a run. -/
theorem exists_enumerating (now : Time) (hl : d.backend.Lists w.memories (neighborQuery candidate) order) (hid : w.Fresh id) :
    ∃ o w', Exec (enumerating d now order id) (consolidate (d.steady now) candidate) w o w' := by
  have hnow : Answers (d.steady now) .now w now w := ⟨rfl, rfl⟩
  have hlist : Answers (d.steady now) (.list (neighborQuery candidate)) w order w := ⟨hl, rfl⟩
  have hloop : ∃ o w', Exec (enumerating d now order id) (consolidateLoop (d.steady now) now candidate order) w o w' := by
    rw [consolidateLoop_eq]
    cases order.find? (applies (d.steady now).lower now candidate) with
    | none => exact ⟨_, _, .ret _ _⟩
    | some n => exact ⟨_, _, exec_settle_enumerating hid⟩
  obtain ⟨o, w', hloop⟩ := hloop
  exact ⟨o, w', Exec.answer ⟨⟨step_answer hnow, rfl⟩, trivial⟩
    (Exec.answer ⟨⟨step_answer hlist, rfl⟩, trivial⟩ hloop)⟩

/-! ## One foremost match -/

/-- What a call comes to names the match it has acted on. -/
theorem touched_settled : (settled d now candidate id w (some n)).1.touched = [n.id] := by
  unfold settled
  dsimp only
  split
  · rfl
  · split
    · rfl
    · rfl

theorem foremost_unique_of_orderFree (hl : d.backend.Lists w.memories (neighborQuery candidate) neighbors)
    (h : OrderFree d now candidate w neighbors) {m : Memory} (hn : Foremost d now candidate neighbors n)
    (hm : Foremost d now candidate neighbors m) : n = m := by
  obtain ⟨order, hperm, hsorted, hfind⟩ := foremost_iff.mp hn
  obtain ⟨order', hperm', hsorted', hfind'⟩ := foremost_iff.mp hm
  obtain ⟨id, hid⟩ := exists_fresh w
  obtain ⟨o, w₁, hrun⟩ := exists_enumerating now ((lists_perm_iff hl hperm).mpr hsorted) hid
  obtain ⟨o', w₂, hrun'⟩ := exists_enumerating now ((lists_perm_iff hl hperm').mpr hsorted') hid
  obtain ⟨-, ho, -⟩ := exec_enumerating hrun
  obtain ⟨-, ho', -⟩ := exec_enumerating hrun'
  rw [hfind] at ho
  rw [hfind'] at ho'
  have hresult := (h order order' hperm hperm' id o o' w₁ w₂ hrun hrun').1
  rw [ho, ho'] at hresult
  have hid : n.id = m.id := by
    have htouched := congrArg Result.touched (Except.ok.inj hresult)
    rw [touched_settled, touched_settled] at htouched
    exact List.singleton_inj.mp htouched
  have hrow := Table.find?_of_mem (Backend.mem_rows_of_lists hl hn.mem)
  have hrow' := Table.find?_of_mem (Backend.mem_rows_of_lists hl hm.mem)
  rw [hid, hrow'] at hrow
  exact (Option.some.inj hrow).symm

theorem find?_eq_of_foremost_unique {order' : List Memory} (hperm : order.Perm neighbors)
    (hperm' : order'.Perm neighbors) (hsorted : order.Pairwise d.backend.Before)
    (hsorted' : order'.Pairwise d.backend.Before)
    (h : ∀ n m, Foremost d now candidate neighbors n → Foremost d now candidate neighbors m → n = m) :
    order.find? (applies d.lower now candidate) = order'.find? (applies d.lower now candidate) := by
  cases hfind : order.find? (applies d.lower now candidate) with
  | none =>
    refine (List.find?_eq_none.mpr fun m hm => ?_).symm
    exact List.find?_eq_none.mp hfind m (hperm.mem_iff.mpr (hperm'.mem_iff.mp hm))
  | some n =>
    have hn := foremost_iff.mpr ⟨order, hperm, hsorted, hfind⟩
    cases hfind' : order'.find? (applies d.lower now candidate) with
    | none => exact absurd hn.applies (List.find?_eq_none.mp hfind' n (hperm'.mem_iff.mpr hn.mem))
    | some m => exact congrArg some (h n m hn (foremost_iff.mpr ⟨order', hperm', hsorted', hfind'⟩))

/-- `Consolidate` does not depend on the order of its neighbours exactly where one of them at most may be the
first that a test matches. -/
theorem order_free_iff (d : Deployment) (now : Time) (candidate : Memory) {w : World} {neighbors : List Memory}
    (hl : d.backend.Lists w.memories (neighborQuery candidate) neighbors) :
    OrderFree d now candidate w neighbors ↔
      ∀ n m, Foremost d now candidate neighbors n → Foremost d now candidate neighbors m → n = m := by
  constructor
  · exact fun h n m hn hm => foremost_unique_of_orderFree hl h hn hm
  · intro h order order' hperm hperm' id o o' w₁ w₂ hrun hrun'
    obtain ⟨hlists, rfl, rfl⟩ := exec_enumerating hrun
    obtain ⟨hlists', rfl, rfl⟩ := exec_enumerating hrun'
    rw [find?_eq_of_foremost_unique hperm hperm' ((lists_perm_iff hl hperm).mp hlists)
      ((lists_perm_iff hl hperm').mp hlists') h]
    exact ⟨rfl, rfl⟩

/-- A statement, and the same said again. -/
def saidOnce : MemoryStore := ⟨[shortFact], by decide⟩
def saidTwice : MemoryStore := ⟨[shortFact, userFact 2 "b" "alice prefere cafe forte"], by decide⟩
def saidAgain : Memory := userFact 3 "c" "alice prefere cafe forte"

theorem order_free_one :
    OrderFree (.inProcess 5) 5 saidAgain (.holding saidOnce)
        (saidOnce.rows.filter (matchesQuery · (neighborQuery saidAgain))) ↔
      ∀ n m, Foremost (.inProcess 5) 5 saidAgain (saidOnce.rows.filter (matchesQuery · (neighborQuery saidAgain))) n →
        Foremost (.inProcess 5) 5 saidAgain (saidOnce.rows.filter (matchesQuery · (neighborQuery saidAgain))) m →
        n = m :=
  @order_free_iff (.inProcess 5) 5 saidAgain (.holding saidOnce) _ (List.Perm.refl _)

/-- The candidate is merged into whichever of its two duplicates the map gives first. -/
theorem order_not_free :
    ¬ OrderFree (.inProcess 5) 5 saidAgain (.holding saidTwice)
      (saidTwice.rows.filter (matchesQuery · (neighborQuery saidAgain))) := by
  intro h
  have hneighbors : saidTwice.rows.filter (matchesQuery · (neighborQuery saidAgain)) =
      [shortFact, userFact 2 "b" "alice prefere cafe forte"] := by decide +kernel
  have hlists : (Deployment.inProcess 5).backend.Lists (World.holding saidTwice).memories (neighborQuery saidAgain)
      (saidTwice.rows.filter (matchesQuery · (neighborQuery saidAgain))) := List.Perm.refl _
  have hunique := @foremost_unique_of_orderFree (.inProcess 5) 5 saidAgain shortFact (.holding saidTwice) _ hlists h
    (userFact 2 "b" "alice prefere cafe forte")
  rw [hneighbors] at hunique
  have hfirst : applies Char.toLower 5 saidAgain shortFact = true := by decide +kernel
  have hsecond : applies Char.toLower 5 saidAgain (userFact 2 "b" "alice prefere cafe forte") = true := by
    decide +kernel
  have hsame := hunique ⟨by simp, hfirst, fun _ _ _ => trivial⟩ ⟨by simp, hsecond, fun _ _ _ => trivial⟩
  revert hsame
  decide +kernel

end AgentMemory
