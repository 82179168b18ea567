import AgentMemory.Engine.Entities
import AgentMemory.Engine.Listing
import AgentMemory.Lib.Best
import AgentMemory.Lib.Layers
import AgentMemory.Lib.Sorted

/-!
# Walks through the relation graph

`walk_related_memory_ids` of `engines/living_memoryv2/src/living_memoryv2/graph.py`: hop by
hop the relations at the nodes of the last hop give their memories a score, and their subjects
and objects are the nodes of the next. The nodes of a hop are those at its distance from the
terms, so the walk is a breadth-first search that keeps the best score of each memory;
`walk_eq_reference` compares it with the distances and the scores themselves.
-/

namespace AgentMemory

open Dicts PyText JsonText Tables Sorted Limits Layers

/-- The runtime with the arithmetic of floats. -/
structure ArithmeticRuntime (F : Type) extends OrderedRuntime F, ListingRuntime F where
  sub : F → F → F
  mul : F → F → F

/-- `max(0.1, 1.0 - (hop * 0.15))` (`graph.py:369`). -/
def hopWeight {F : Type} (rt : ArithmeticRuntime F) (hop : Nat) : F :=
  let least := rt.ofText "0.1".toList
  let weight := rt.sub (rt.ofText "1.0".toList) (rt.mul (rt.ofInt hop) (rt.ofText "0.15".toList))
  if (rt.le least weight && !rt.le weight least) = true then weight else least

/-- The runtime with the weights of hops, which are positive and finite. -/
structure WalkRuntime (F : Type) extends ArithmeticRuntime F where
  isNan_weighted : ∀ x hop, isNan x = false → isNan (mul x (hopWeight toArithmeticRuntime hop)) = false

/-- The arguments of `walk_related_memory_ids` (`graph.py:314-322`); no graph name is every graph. -/
structure WalkArgs (F : Type) where
  terms : List Text
  limit : Int
  maxHops : Int
  atTime : Option F
  graphNames : List Text

/-- An entry of `scores`. -/
structure Scored (F : Type) where
  memoryId : Text
  score : F
  createdAt : F

/-- The local variables of the loop over the hops. -/
structure WalkState (F : Type) where
  frontier : List Text
  seenNodes : List Text
  scores : Table (Scored F) Scored.memoryId

section Model

variable {F : Type} (rt : WalkRuntime F)

/-- `subject_norm`, `predicate_norm` and `object_norm`. -/
def RelationRow.norms (row : RelationRow F) : List Text :=
  [norm rt.toLedgerRuntime row.subject, norm rt.toLedgerRuntime row.predicate,
    norm rt.toLedgerRuntime row.object]

/-- The nodes that a row leads to. -/
def RelationRow.ends (row : RelationRow F) : List Text :=
  [norm rt.toLedgerRuntime row.subject, norm rt.toLedgerRuntime row.object]

/-- The score of a row at a hop. -/
def RelationRow.scored (hop : Nat) (row : RelationRow F) : Scored F :=
  ⟨row.memoryId, rt.mul row.confidence (hopWeight rt.toArithmeticRuntime hop), row.createdAt⟩

namespace WalkArgs

variable (a : WalkArgs F)

/-- `normalized` (`graph.py:323`). -/
def normalized : List Text := (a.terms.map (norm rt.toLedgerRuntime)).filter (· ≠ [])

/-- `graph_filter` (`graph.py:326`), which raises for a name that is unknown. -/
def graphFilter : Option (List Text) :=
  a.graphNames.mapM fun name => graphNameOf rt.toGraphRuntime (.str name) .null .null

/-- `range(max(1, int(max_hops)))`. -/
def hops : Nat := (max 1 a.maxHops).toNat

/-- `max(limit * 4, limit)`. -/
def cap : Int := max (a.limit * 4) a.limit

/-- The clauses on graphs and times (`graph.py:341-351`). -/
def passes (names : List Text) (row : RelationRow F) : Bool :=
  (names = [] || row.graphName ∈ names) &&
    a.atTime.all fun x => (!row.validFrom.isValue || row.validFrom.atMost rt.toListingRuntime x) &&
      (!row.validTo.isValue || row.validTo.atLeast rt.toListingRuntime x)

end WalkArgs

/-- The rows that the statement of a hop matches (`graph.py:352-366`). -/
def GraphStore.matching (g : GraphStore F) (a : WalkArgs F) (names nodes : List Text) : List (RelationRow F) :=
  g.relations.filter fun row => a.passes rt names row && (row.norms rt).any (· ∈ nodes)

/-- `LIMIT n`; a negative one is none. -/
def sqlLimit (n : Int) : Option Nat := if n < 0 then none else some n.toNat

/-- `items[:n]`. -/
def upTo {α : Type} (n : Int) (items : List α) : List α :=
  if n < 0 then items.take (items.length - n.natAbs) else items.take n.toNat

/-- The frontier without the nodes that were seen (`graph.py:334`). -/
def WalkState.nodes (s : WalkState F) : List Text :=
  (s.frontier.filter fun item => item ≠ [] ∧ item ∉ s.seenNodes).dedup

/-- The order in which a statement visits the rows it matches. -/
structure Visits (F : Type) where
  visit : Nat → List (RelationRow F) → List (RelationRow F)
  perm : ∀ hop rows, (visit hop rows).Perm rows

variable (visits : Visits F) (a : WalkArgs F)

/-- The body of the loop (`graph.py:334-377`); a state without nodes stays, as after `break`. A
row limit that is no parameter raises. -/
def GraphStore.hop (g : GraphStore F) (names : List Text) (hop : Nat) (s : WalkState F) : Option (WalkState F) :=
  if s.nodes = [] then some s
  else if fitsParameter a.cap = true then
    let rows := cut (sqlLimit a.cap) (visits.visit hop (g.matching rt a names s.nodes))
    some {
      frontier := rows.flatMap (RelationRow.ends rt)
      seenNodes := s.seenNodes ++ s.nodes
      scores := rows.foldl (fun t row => t.note (fun x y => rt.le x.score y.score) (row.scored rt hop))
        s.scores }
  else none

/-- The state before a hop. -/
def GraphStore.walkTo (g : GraphStore F) (names : List Text) : Nat → Option (WalkState F)
  | 0 => some ⟨a.normalized rt, [], Table.empty⟩
  | hop + 1 => (walkTo g names hop).bind (g.hop rt visits a names hop)

/-- `scores` after the loop. -/
def GraphStore.walkScores (g : GraphStore F) : Option (Table (Scored F) Scored.memoryId) :=
  if a.normalized rt = [] then some Table.empty
  else a.graphFilter rt |>.bind fun names => (g.walkTo rt visits a names a.hops).map WalkState.scores

/-- `walk_related_memory_ids` (`graph.py:314-380`). -/
def GraphStore.walkRelatedMemoryIds (sorting : StableSort (Scored F)) (g : GraphStore F) : Option (List Text) :=
  (g.walkScores rt visits a).map fun scores =>
    (upTo a.limit (sorting.descending (lexLess [fun x y => rt.le x.score y.score,
      fun x y => rt.le x.createdAt y.createdAt]) scores.rows)).map Scored.memoryId

/-! ## The reference -/

/-- A relation that passes the filters leads from the first node to the second. -/
def GraphStore.Leads (g : GraphStore F) (names : List Text) (u v : Text) : Prop :=
  ∃ row ∈ g.relations, a.passes rt names row = true ∧ u ∈ row.norms rt ∧ v ∈ row.ends rt ∧ v ≠ []

/-- The node is so far from the terms. -/
def GraphStore.AtDistance (g : GraphStore F) (names : List Text) : Nat → Text → Prop :=
  Layers.AtDistance (g.Leads rt a names) (· ∈ a.normalized rt)

/-- The relation passes the filters and is incident to a node at this distance. -/
structure GraphStore.Reaches (g : GraphStore F) (names : List Text) (distance : Nat) (row : RelationRow F) :
    Prop where
  mem : row ∈ g.relations
  passes : a.passes rt names row = true
  node : ∃ u, g.AtDistance rt a names distance u ∧ u ∈ row.norms rt

/-- No statement of the walk matches more rows than it may return. -/
def GraphStore.WithinCap (g : GraphStore F) : Prop :=
  ∀ names hop s, a.graphFilter rt = some names → hop < a.hops → g.walkTo rt visits a names hop = some s →
    a.cap < 0 ∨ ((g.matching rt a names s.nodes).length : Int) ≤ a.cap

/-- The scores are the best of the relations that are reached, at the distance of their nodes. -/
structure GraphStore.ReferenceScores (g : GraphStore F) (names : List Text)
    (scores : Table (Scored F) Scored.memoryId) : Prop where
  memories : ∀ id, scores.find? id ≠ none ↔
    ∃ distance < a.hops, ∃ row, g.Reaches rt a names distance row ∧ row.memoryId = id
  attained : ∀ b ∈ scores.rows, ∃ distance < a.hops, ∃ row, g.Reaches rt a names distance row ∧
    b = row.scored rt distance
  greatest : ∀ distance < a.hops, ∀ row, g.Reaches rt a names distance row →
    ∃ b, scores.find? row.memoryId = some b ∧ rt.le (row.scored rt distance).score b.score = true

/-- The ids of the best rows of a table: distinct, the better ones first, and none better left out. -/
structure Leading (le : F → F → Bool) (scores : Table (Scored F) Scored.memoryId) (ids : List Text) : Prop where
  nodup : ids.Nodup
  scored : ∀ id ∈ ids, scores.find? id ≠ none
  ordered : ids.Pairwise fun id id' => ∀ b c, scores.find? id = some b → scores.find? id' = some c →
    le c.score b.score = true
  omitted : ∀ id ∈ ids, ∀ b c, scores.find? id = some b → c ∈ scores.rows → c.memoryId ∉ ids →
    le c.score b.score = true

end Model

/-! ## The walk and the distances -/

section Facts

variable {F : Type} {rt : WalkRuntime F} {visits : Visits F} {a : WalkArgs F} {g : GraphStore F}
  {names : List Text}

theorem mem_nodes {s : WalkState F} {v : Text} :
    v ∈ s.nodes ↔ v ∈ s.frontier ∧ v ≠ [] ∧ v ∉ s.seenNodes := by
  simp [WalkState.nodes]

theorem mem_matching {nodes : List Text} {row : RelationRow F} :
    row ∈ g.matching rt a names nodes ↔
      row ∈ g.relations ∧ a.passes rt names row = true ∧ ∃ u ∈ nodes, u ∈ row.norms rt := by
  simp only [GraphStore.matching, List.mem_filter, Bool.and_eq_true, List.any_eq_true, decide_eq_true_eq]
  refine and_congr_right fun _ => and_congr_right fun _ => ?_
  exact ⟨fun ⟨u, hu, hnode⟩ => ⟨u, hnode, hu⟩, fun ⟨u, hu, hnode⟩ => ⟨u, hnode, hu⟩⟩

/-- Where it is within the limit, the statement returns what it matches. -/
theorem cut_perm_matching {hop : Nat} {nodes : List Text}
    (hcap : a.cap < 0 ∨ ((g.matching rt a names nodes).length : Int) ≤ a.cap) :
    (cut (sqlLimit a.cap) (visits.visit hop (g.matching rt a names nodes))).Perm
      (g.matching rt a names nodes) := by
  have hperm := visits.perm hop (g.matching rt a names nodes)
  have hlength := hperm.length_eq
  unfold sqlLimit
  split
  · exact hperm
  · rw [cut, List.take_of_length_le (by omega)]
    exact hperm

/-- The state before a hop: its nodes are those at this distance, it has seen those before, and
its scores are the best so far. -/
structure Walked (rt : WalkRuntime F) (a : WalkArgs F) (g : GraphStore F) (names : List Text) (hop : Nat)
    (s : WalkState F) : Prop where
  nodes : ∀ v, v ∈ s.nodes ↔ g.AtDistance rt a names hop v
  seen : ∀ v, v ∈ s.seenNodes ↔ ∃ m < hop, g.AtDistance rt a names m v
  scores : Best (fun x y => rt.le x.score y.score)
    (fun x => ∃ m < hop, ∃ row, g.Reaches rt a names m row ∧ x = row.scored rt m) s.scores

theorem walked_zero : Walked rt a g names 0 ⟨a.normalized rt, [], Table.empty⟩ where
  nodes v := by
    rw [GraphStore.AtDistance, atDistance_zero, mem_nodes]
    simp [WalkArgs.normalized]
  seen v := by simp
  scores := Best.empty.congr fun x => by simp

/-- A hop without nodes is the last. -/
theorem Walked.stay {hop : Nat} {s : WalkState F} (h : Walked rt a g names hop s) (hnodes : s.nodes = []) :
    Walked rt a g names (hop + 1) s := by
  have hempty : ∀ v, ¬ g.AtDistance rt a names hop v := by
    intro v hv
    rw [← h.nodes, hnodes] at hv
    exact List.not_mem_nil hv
  have hlater : ∀ v, ¬ g.AtDistance rt a names (hop + 1) v :=
    not_atDistance_of_le hempty (Nat.le_succ hop)
  refine ⟨fun v => ?_, fun v => ?_, h.scores.congr fun x => ?_⟩
  · rw [hnodes]
    exact iff_of_false List.not_mem_nil (hlater v)
  · rw [h.seen]
    constructor
    · rintro ⟨m, hm, hv⟩
      exact ⟨m, by omega, hv⟩
    · rintro ⟨m, hm, hv⟩
      obtain hm | rfl := Nat.lt_succ_iff_lt_or_eq.mp hm
      · exact ⟨m, hm, hv⟩
      · exact absurd hv (hempty v)
  · constructor
    · rintro ⟨m, hm, hx⟩
      exact ⟨m, by omega, hx⟩
    · rintro ⟨m, hm, row, hrow, hx⟩
      obtain hm | rfl := Nat.lt_succ_iff_lt_or_eq.mp hm
      · exact ⟨m, hm, row, hrow, hx⟩
      · obtain ⟨u, hu, -⟩ := hrow.node
        exact absurd hu (hempty u)

/-- The rows that a hop matches are those it reaches. -/
theorem Walked.mem_matching {hop : Nat} {s : WalkState F} (h : Walked rt a g names hop s)
    {row : RelationRow F} : row ∈ g.matching rt a names s.nodes ↔ g.Reaches rt a names hop row := by
  rw [AgentMemory.mem_matching]
  simp only [h.nodes]
  exact ⟨fun ⟨hmem, hpasses, hnode⟩ => ⟨hmem, hpasses, hnode⟩,
    fun hrow => ⟨hrow.mem, hrow.passes, hrow.node⟩⟩

/-- A score of a stored confidence is a number. -/
theorem isNan_scored (hstored : ∀ row ∈ g.relations, rt.isNan row.confidence = false) {distance : Nat}
    {row : RelationRow F} (hrow : g.Reaches rt a names distance row) :
    rt.isNan (row.scored rt distance).score = false :=
  rt.isNan_weighted _ _ (hstored row hrow.mem)

/-- A hop through rows that are those it reaches. -/
theorem Walked.advance {hop : Nat} {s : WalkState F} (h : Walked rt a g names hop s)
    (hstored : ∀ row ∈ g.relations, rt.isNan row.confidence = false)
    {rows : List (RelationRow F)} (hrows : ∀ row, row ∈ rows ↔ g.Reaches rt a names hop row) :
    Walked rt a g names (hop + 1) {
      frontier := rows.flatMap (RelationRow.ends rt)
      seenNodes := s.seenNodes ++ s.nodes
      scores := rows.foldl (fun t row => t.note (fun x y => rt.le x.score y.score) (row.scored rt hop))
        s.scores } := by
  have hseen : ∀ v, v ∈ s.seenNodes ++ s.nodes ↔ ∃ m < hop + 1, g.AtDistance rt a names m v := by
    intro v
    rw [List.mem_append, h.seen, h.nodes]
    constructor
    · rintro (⟨m, hm, hv⟩ | hv)
      · exact ⟨m, by omega, hv⟩
      · exact ⟨hop, by omega, hv⟩
    · rintro ⟨m, hm, hv⟩
      obtain hm | rfl := Nat.lt_succ_iff_lt_or_eq.mp hm
      · exact Or.inl ⟨m, hm, hv⟩
      · exact Or.inr hv
  refine ⟨fun v => ?_, hseen, ?_⟩
  · have hfrontier : v ∈ rows.flatMap (RelationRow.ends rt) ∧ v ≠ [] ↔
        ∃ u, g.AtDistance rt a names hop u ∧ g.Leads rt a names u v := by
      rw [List.mem_flatMap]
      constructor
      · rintro ⟨⟨row, hrow, hv⟩, hne⟩
        have hreaches := (hrows row).mp hrow
        obtain ⟨u, hu, hnode⟩ := hreaches.node
        exact ⟨u, hu, row, hreaches.mem, hreaches.passes, hnode, hv, hne⟩
      · rintro ⟨u, hu, row, hmem, hpasses, hnode, hv, hne⟩
        exact ⟨⟨row, (hrows row).mpr ⟨hmem, hpasses, u, hu, hnode⟩, hv⟩, hne⟩
    have hnew : v ∉ s.seenNodes ++ s.nodes ↔ ∀ m ≤ hop, ¬ g.AtDistance rt a names m v := by
      rw [hseen]
      simp only [Nat.lt_succ_iff, not_exists, not_and]
    rw [mem_nodes, ← and_assoc, hfrontier, hnew]
    exact atDistance_succ.symm
  · have htotal : ∀ x y : Scored F, rt.isNan x.score = false → rt.isNan y.score = false →
        rt.le x.score y.score = true ∨ rt.le y.score x.score = true :=
      fun x y => rt.le_total x.score y.score
    have htrans : ∀ x y z : Scored F, rt.le x.score y.score = true → rt.le y.score z.score = true →
        rt.le x.score z.score = true := fun x y z => rt.le_trans x.score y.score z.score
    refine (h.scores.foldl htotal htrans ?_ ?_).congr fun x => ?_
    · rintro x ⟨m, -, row, hrow, rfl⟩
      exact isNan_scored hstored hrow
    · intro row hrow
      exact isNan_scored hstored ((hrows row).mp hrow)
    · constructor
      · rintro (⟨m, hm, hx⟩ | ⟨row, hrow, hx⟩)
        · exact ⟨m, by omega, hx⟩
        · exact ⟨hop, by omega, row, (hrows row).mp hrow, hx⟩
      · rintro ⟨m, hm, row, hrow, hx⟩
        obtain hm | rfl := Nat.lt_succ_iff_lt_or_eq.mp hm
        · exact Or.inl ⟨m, hm, row, hrow, hx⟩
        · exact Or.inr ⟨row, (hrows row).mpr hrow, hx⟩

/-- Each state of a walk whose statements are within their limit. -/
theorem walked_walkTo (hstored : ∀ row ∈ g.relations, rt.isNan row.confidence = false)
    (hcap : g.WithinCap rt visits a) (hfilter : a.graphFilter rt = some names) {hop : Nat} (hhop : hop ≤ a.hops)
    {s : WalkState F} (h : g.walkTo rt visits a names hop = some s) : Walked rt a g names hop s := by
  induction hop generalizing s with
  | zero =>
    obtain rfl := Option.some.inj h
    exact walked_zero
  | succ hop ih =>
    obtain ⟨before, hbefore, h⟩ := Option.bind_eq_some_iff.mp h
    have hwalked := ih (by omega) hbefore
    unfold GraphStore.hop at h
    split at h
    · next hnodes =>
      obtain rfl := Option.some.inj h
      exact hwalked.stay hnodes
    · obtain ⟨-, h⟩ := Option.ite_none_right_eq_some.mp h
      obtain rfl := Option.some.inj h
      apply hwalked.advance hstored
      intro row
      have hperm := @cut_perm_matching _ rt visits a g names hop before.nodes (hcap names hop before hfilter (by omega) hbefore)
      rw [hperm.mem_iff]
      exact hwalked.mem_matching

/-- The scores of a walk within its limits. -/
theorem referenceScores_walkScores (hstored : ∀ row ∈ g.relations, rt.isNan row.confidence = false)
    (hcap : g.WithinCap rt visits a) (hfilter : a.graphFilter rt = some names)
    {scores : Table (Scored F) Scored.memoryId} (h : g.walkScores rt visits a = some scores) :
    g.ReferenceScores rt a names scores := by
  -- Without terms the empty scores are those of the walk too, which stays where it is.
  have hbest : Best (fun x y => rt.le x.score y.score)
      (fun x => ∃ m < a.hops, ∃ row, g.Reaches rt a names m row ∧ x = row.scored rt m) scores := by
    unfold GraphStore.walkScores at h
    split at h
    · next hterms =>
      obtain rfl := Option.some.inj h
      refine Best.empty.congr fun x => iff_of_false not_false ?_
      rintro ⟨m, -, row, hrow, -⟩
      obtain ⟨u, hu, -⟩ := hrow.node
      refine not_atDistance_of_le (fun v hv => ?_) (Nat.zero_le m) u hu
      rw [atDistance_zero, hterms] at hv
      exact List.not_mem_nil hv
    · rw [hfilter, Option.bind_some] at h
      obtain ⟨s, hs, rfl⟩ := Option.map_eq_some_iff.mp h
      exact (walked_walkTo hstored hcap hfilter le_rfl hs).scores
  refine ⟨fun id => ?_, hbest.entry, fun distance hdistance row hrow => ?_⟩
  · rw [hbest.find?_ne_none]
    constructor
    · rintro ⟨x, ⟨m, hm, row, hrow, rfl⟩, hid⟩
      exact ⟨m, hm, row, hrow, hid⟩
    · rintro ⟨m, hm, row, hrow, hid⟩
      exact ⟨_, ⟨m, hm, row, hrow, rfl⟩, hid⟩
  · exact hbest.best _ ⟨distance, hdistance, row, hrow, rfl⟩

theorem prefix_upTo {α : Type} (n : Int) (items : List α) : upTo n items <+: items := by
  unfold upTo
  split <;> exact List.take_prefix _ _

/-- The numbers of the scores are comparable. -/
theorem comparable_scores (hstored : ∀ row ∈ g.relations, rt.isNan row.confidence = false)
    (hcreated : ∀ row ∈ g.relations, rt.isNan row.createdAt = false) (hcap : g.WithinCap rt visits a)
    {scores : Table (Scored F) Scored.memoryId} (h : g.walkScores rt visits a = some scores) :
    ∀ le ∈ [fun x y : Scored F => rt.le x.score y.score, fun x y => rt.le x.createdAt y.createdAt],
      Comparable le scores.rows := by
  have hnumbers : ∀ b ∈ scores.rows, rt.isNan b.score = false ∧ rt.isNan b.createdAt = false := by
    cases hfilter : a.graphFilter rt with
    | none =>
      rw [GraphStore.walkScores, hfilter, Option.bind_none] at h
      obtain ⟨-, hscores⟩ := Option.ite_none_right_eq_some.mp h
      obtain rfl := Option.some.inj hscores
      exact nofun
    | some names =>
      intro b hb
      obtain ⟨distance, -, row, hrow, rfl⟩ := (referenceScores_walkScores hstored hcap hfilter h).attained b hb
      exact ⟨isNan_scored hstored hrow, hcreated row hrow.mem⟩
  refine List.forall_mem_cons.mpr ⟨?_, List.forall_mem_singleton.mpr ?_⟩
  · exact ⟨fun x hx y hy => rt.le_total _ _ (hnumbers x hx).1 (hnumbers y hy).1,
      fun x _ y _ z _ => rt.le_trans _ _ _⟩
  · exact ⟨fun x hx y hy => rt.le_total _ _ (hnumbers x hx).2 (hnumbers y hy).2,
      fun x _ y _ z _ => rt.le_trans _ _ _⟩

theorem leading_of_prefix {le : F → F → Bool} {scores : Table (Scored F) Scored.memoryId}
    {ranked kept : List (Scored F)} (hperm : ranked.Perm scores.rows)
    (hranked : ranked.Pairwise fun x y => le y.score x.score = true) (hkept : kept <+: ranked) :
    Leading le scores (kept.map Scored.memoryId) := by
  obtain ⟨rest, rfl⟩ := hkept
  obtain ⟨hfirst, -, hacross⟩ := List.pairwise_append.mp hranked
  have hmem : ∀ b ∈ kept, b ∈ scores.rows := fun b hb => hperm.subset (List.mem_append_left _ hb)
  have hnodup : ((kept ++ rest).map Scored.memoryId).Nodup :=
    (hperm.map Scored.memoryId).nodup_iff.mpr scores.nodup
  rw [List.map_append] at hnodup
  -- The row of an id that is kept is the one by which it is kept.
  have hrow : ∀ x ∈ kept, ∀ b, scores.find? x.memoryId = some b → b = x := by
    intro x hx b hb
    rw [Table.find?_of_mem (hmem x hx)] at hb
    exact (Option.some.inj hb).symm
  refine ⟨(List.nodup_append.mp hnodup).1, ?_, ?_, ?_⟩
  · rw [List.forall_mem_map]
    intro b hb
    rw [Table.find?_of_mem (hmem b hb)]
    exact Option.some_ne_none b
  · rw [List.pairwise_map]
    refine hfirst.imp_of_mem ?_
    intro x y hx hy hle b c hb hc
    rw [hrow x hx b hb, hrow y hy c hc]
    exact hle
  · rw [List.forall_mem_map]
    intro x hx b c hb hc hout
    rw [hrow x hx b hb]
    obtain hin | hin := List.mem_append.mp (hperm.symm.subset hc)
    · exact absurd (List.mem_map_of_mem hin) hout
    · exact hacross x hx c hin

end Facts

/-- A walk within its limits scores the memories of the relations at nodes that are nearer to the
terms than its hops, each by the best of them, and returns the best of these memories in order. -/
theorem walk_eq_reference {F : Type} (rt : WalkRuntime F) (visits : Visits F) (sorting : StableSort (Scored F))
    {g : GraphStore F} (hstored : ∀ row ∈ g.relations, rt.isNan row.confidence = false)
    (hcreated : ∀ row ∈ g.relations, rt.isNan row.createdAt = false) {a : WalkArgs F}
    (hcap : g.WithinCap rt visits a) {ids : List Text}
    (h : g.walkRelatedMemoryIds rt visits a sorting = some ids) :
    ∃ scores, g.walkScores rt visits a = some scores ∧
      (∀ names, a.graphFilter rt = some names → g.ReferenceScores rt a names scores) ∧
        Leading rt.le scores ids := by
  obtain ⟨scores, hscores, rfl⟩ := Option.map_eq_some_iff.mp h
  refine ⟨scores, hscores, fun names hfilter => referenceScores_walkScores hstored hcap hfilter hscores, ?_⟩
  apply leading_of_prefix (sorting.perm_descending _ scores.rows) _ (prefix_upTo a.limit _)
  exact sorting.pairwise_descending_first (comparable_scores hstored hcreated hcap hscores)

/-- The runtime of the examples with the weight of the first hop. -/
def sampleWalkRuntime : WalkRuntime SampleNumber where
  toOrderedRuntime := sampleOrderedRuntime
  equalsInt _ _ := false
  sub _ _ := .one
  mul
    | x, .one => x
    | _, .half => .half
  isNan_weighted _ _ _ := rfl

/-- A graph with a relation of one memory. -/
def sampleGraph : GraphStore SampleNumber :=
  ⟨[⟨"semantic".toList, "psi".toList, "uses".toList, "sqlite".toList, "m".toList, .null, .null, .one,
    none, .half⟩]⟩

def sampleWalk : WalkArgs SampleNumber := ⟨["psi".toList], 5, 1, none, []⟩

def sampleVisits : Visits SampleNumber := ⟨fun _ rows => rows, fun _ rows => .refl rows⟩

theorem walk_eq_reference_psi : ∃ ids scores,
    sampleGraph.walkScores sampleWalkRuntime sampleVisits sampleWalk = some scores ∧
      (∀ names, sampleWalk.graphFilter sampleWalkRuntime = some names →
        sampleGraph.ReferenceScores sampleWalkRuntime sampleWalk names scores) ∧
        Leading sampleWalkRuntime.le scores ids := by
  have hcap : sampleGraph.WithinCap sampleWalkRuntime sampleVisits sampleWalk := by
    intro names hop s _ _ _
    have hcap : sampleWalk.cap = 20 := rfl
    have hlength := List.length_filter_le (fun row => sampleWalk.passes sampleWalkRuntime names row &&
      (row.norms sampleWalkRuntime).any (· ∈ s.nodes)) sampleGraph.relations
    have hone : sampleGraph.relations.length = 1 := rfl
    right
    unfold GraphStore.matching
    omega
  have hreturns : (sampleGraph.walkScores sampleWalkRuntime sampleVisits sampleWalk).isSome = true := by
    decide +kernel
  obtain ⟨scores, hscores⟩ := Option.isSome_iff_exists.mp hreturns
  exact ⟨_, walk_eq_reference sampleWalkRuntime sampleVisits (.merge _) (fun _ _ => rfl) (fun _ _ => rfl) hcap
    (congrArg (Option.map _) hscores)⟩

end AgentMemory
