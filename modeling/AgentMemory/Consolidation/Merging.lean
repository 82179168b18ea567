import AgentMemory.Consolidation.Consolidate
import AgentMemory.Lib.Joins

/-!
# Merges in a row

`Merge` (`merge.go:16-31`) folds one candidate after the other into a memory. What it takes from them is a
join: the union of the event ids, the greatest scores and the earliest creation. `merge_joins` says what a
row of merges comes to, and that it comes to the same in every order.
-/

namespace AgentMemory

open Joins

/-- Candidates merged into a memory one after the other, each at its own time. -/
def mergeAll (m : Memory) (merges : List (Memory × Time)) : Memory :=
  merges.foldl (fun m c => merge m c.1 c.2) m

/-- What a merge joins: event ids, confidence, importance and, with the order turned round, the creation. -/
abbrev MergeJoin := Finset String × ℚ × ℚ × Timeᵒᵈ

/-- The part of a memory that a merge joins. -/
def Memory.mergeJoin (m : Memory) : MergeJoin :=
  (m.sourceEventIDs.toFinset, m.confidence, m.importance, OrderDual.toDual m.createdAt)

/-- The content, status and scope fields are the same. -/
structure SameRecord (m m' : Memory) : Prop where
  content : m.content = m'.content
  status : m.status = m'.status
  scope : m.scope = m'.scope
  tenantID : m.tenantID = m'.tenantID
  userID : m.userID = m'.userID
  agentID : m.agentID = m'.agentID
  projectID : m.projectID = m'.projectID
  sessionID : m.sessionID = m'.sessionID

/-- `merged` joins the memory and the candidates. -/
structure JoinOf (m : Memory) (candidates : List Memory) (merged : Memory) : Prop where
  nodup : merged.sourceEventIDs.Nodup
  ids : ∀ id, id ∈ merged.sourceEventIDs ↔ ∃ c ∈ m :: candidates, id ∈ c.sourceEventIDs
  confidence : IsGreatest {x | x ∈ (m :: candidates).map Memory.confidence} merged.confidence
  importance : IsGreatest {x | x ∈ (m :: candidates).map Memory.importance} merged.importance
  createdAt : IsLeast {t | t ∈ (m :: candidates).map Memory.createdAt} merged.createdAt
  version : merged.version = m.version + candidates.length
  record : SameRecord merged m

/-- All that a join says of two memories is the same; the event ids are so as sets. -/
structure SameJoin (m m' : Memory) : Prop where
  ids : ∀ id, id ∈ m.sourceEventIDs ↔ id ∈ m'.sourceEventIDs
  confidence : m.confidence = m'.confidence
  importance : m.importance = m'.importance
  createdAt : m.createdAt = m'.createdAt
  version : m.version = m'.version
  record : SameRecord m m'

/-! ## One merge -/

theorem mem_foldl_addNew {id : String} {items out : List String} :
    id ∈ items.foldl (fun out item => if item ∈ out then out else out ++ [item]) out ↔ id ∈ out ∨ id ∈ items := by
  induction items generalizing out with
  | nil => simp
  | cons item items ih =>
    rw [List.foldl_cons, ih, List.mem_cons]
    split
    · next hitem =>
      constructor
      · exact Or.imp_right Or.inr
      · rintro (h | rfl | h)
        · exact Or.inl h
        · exact Or.inl hitem
        · exact Or.inr h
    · simp [or_assoc]

theorem nodup_foldl_addNew {items out : List String} (h : out.Nodup) :
    (items.foldl (fun out item => if item ∈ out then out else out ++ [item]) out).Nodup := by
  induction items generalizing out with
  | nil => exact h
  | cons item items ih =>
    rw [List.foldl_cons]
    apply ih
    split
    · exact h
    · next hitem =>
      have hne : ∀ a ∈ out, a ≠ item := fun a ha he => hitem (he ▸ ha)
      exact List.nodup_append.mpr ⟨h, List.nodup_singleton _, by simpa using hne⟩

theorem mem_unionStrings {id : String} {a b : List String} : id ∈ unionStrings a b ↔ id ∈ a ∨ id ∈ b := by
  unfold unionStrings
  rw [mem_foldl_addNew]
  simp

theorem nodup_unionStrings (a b : List String) : (unionStrings a b).Nodup := nodup_foldl_addNew List.nodup_nil

theorem ite_lt_eq_sup {α : Type} [LinearOrder α] (a b : α) : (if a < b then b else a) = a ⊔ b := by
  split
  · next h => exact (sup_eq_right.mpr h.le).symm
  · next h => exact (sup_eq_left.mpr (not_lt.mp h)).symm

/-- A merge joins the two memories. -/
theorem mergeJoin_merge (m c : Memory) (now : Time) : (merge m c now).mergeJoin = m.mergeJoin ⊔ c.mergeJoin := by
  have hids : (unionStrings m.sourceEventIDs c.sourceEventIDs).toFinset =
      m.sourceEventIDs.toFinset ⊔ c.sourceEventIDs.toFinset := by
    ext id
    simp [mem_unionStrings]
  have hcreated : OrderDual.toDual (if c.createdAt < m.createdAt then c.createdAt else m.createdAt) =
      OrderDual.toDual m.createdAt ⊔ OrderDual.toDual c.createdAt :=
    ite_lt_eq_sup (OrderDual.toDual m.createdAt) (OrderDual.toDual c.createdAt)
  simp only [Memory.mergeJoin, merge, hids, hcreated, ite_lt_eq_sup, Prod.mk_sup_mk]

theorem sameRecord_merge (m c : Memory) (now : Time) : SameRecord (merge m c now) m :=
  ⟨rfl, rfl, rfl, rfl, rfl, rfl, rfl, rfl⟩

theorem SameRecord.trans {m₁ m₂ m₃ : Memory} (h : SameRecord m₁ m₂) (h' : SameRecord m₂ m₃) : SameRecord m₁ m₃ :=
  ⟨h.content.trans h'.content, h.status.trans h'.status, h.scope.trans h'.scope, h.tenantID.trans h'.tenantID,
    h.userID.trans h'.userID, h.agentID.trans h'.agentID, h.projectID.trans h'.projectID,
    h.sessionID.trans h'.sessionID⟩

theorem SameRecord.symm {m m' : Memory} (h : SameRecord m m') : SameRecord m' m :=
  ⟨h.content.symm, h.status.symm, h.scope.symm, h.tenantID.symm, h.userID.symm, h.agentID.symm, h.projectID.symm,
    h.sessionID.symm⟩

/-! ## A row of merges -/

section Rows

variable (m : Memory) (merges : List (Memory × Time))

theorem mergeJoin_mergeAll :
    (mergeAll m merges).mergeJoin = joined m.mergeJoin ((merges.map Prod.fst).map Memory.mergeJoin) := by
  induction merges generalizing m with
  | nil => rfl
  | cons c merges ih =>
    show (mergeAll (merge m c.1 c.2) merges).mergeJoin = _
    rw [ih, mergeJoin_merge]
    rfl

/-- Any part of the join is the join of that part. -/
theorem part_mergeAll {β : Type} [SemilatticeSup β] (part : MergeJoin → β)
    (hpart : ∀ a b, part (a ⊔ b) = part a ⊔ part b) : part (mergeAll m merges).mergeJoin =
      joined (part m.mergeJoin) ((merges.map Prod.fst).map fun c => part c.mergeJoin) := by
  rw [mergeJoin_mergeAll, map_joined hpart, List.map_map]
  rfl

theorem version_mergeAll : (mergeAll m merges).version = m.version + merges.length := by
  induction merges generalizing m with
  | nil => simp [mergeAll]
  | cons c merges ih =>
    show (mergeAll (merge m c.1 c.2) merges).version = _
    have hone : (merge m c.1 c.2).version = m.version + 1 := rfl
    rw [ih, hone, List.length_cons]
    push_cast
    omega

theorem sameRecord_mergeAll : SameRecord (mergeAll m merges) m := by
  induction merges generalizing m with
  | nil => exact ⟨rfl, rfl, rfl, rfl, rfl, rfl, rfl, rfl⟩
  | cons c merges ih => exact (ih (merge m c.1 c.2)).trans (sameRecord_merge m c.1 c.2)

theorem nodup_mergeAll (h : merges ≠ []) : (mergeAll m merges).sourceEventIDs.Nodup := by
  rw [← List.dropLast_append_getLast h, mergeAll, List.foldl_append]
  exact nodup_unionStrings _ _

end Rows

theorem mem_joined_ids {id : String} (ids : Finset String) (others : List (Finset String)) :
    id ∈ joined ids others ↔ ∃ s ∈ ids :: others, id ∈ s := by
  induction others generalizing ids with
  | nil => simp
  | cons other others ih =>
    rw [joined_cons, ih]
    simp [or_assoc]

/-- A row of merges joins the memory and the candidates. -/
theorem joinOf_mergeAll (m : Memory) {merges : List (Memory × Time)} (h : merges ≠ []) :
    JoinOf m (merges.map Prod.fst) (mergeAll m merges) := by
  have hids : (mergeAll m merges).sourceEventIDs.toFinset = joined m.sourceEventIDs.toFinset
      ((merges.map Prod.fst).map fun c => c.sourceEventIDs.toFinset) := part_mergeAll m merges Prod.fst fun _ _ => rfl
  have hconfidence : (mergeAll m merges).confidence = joined m.confidence ((merges.map Prod.fst).map Memory.confidence) :=
    part_mergeAll m merges (fun j => j.2.1) fun _ _ => rfl
  have himportance : (mergeAll m merges).importance = joined m.importance ((merges.map Prod.fst).map Memory.importance) :=
    part_mergeAll m merges (fun j => j.2.2.1) fun _ _ => rfl
  have hcreated : OrderDual.toDual (mergeAll m merges).createdAt = joined (OrderDual.toDual m.createdAt)
      ((merges.map Prod.fst).map fun c => OrderDual.toDual c.createdAt) :=
    part_mergeAll m merges (fun j => j.2.2.2) fun _ _ => rfl
  constructor
  · exact nodup_mergeAll m merges h
  · intro id
    rw [← List.mem_toFinset, hids, mem_joined_ids]
    simp
  · rw [hconfidence]
    exact isGreatest_joined _ _
  · rw [himportance]
    exact isGreatest_joined _ _
  · have hgreatest := isGreatest_joined (OrderDual.toDual m.createdAt)
      ((merges.map Prod.fst).map fun c => OrderDual.toDual c.createdAt)
    rw [← hcreated] at hgreatest
    obtain ⟨hmem, hupper⟩ := hgreatest
    refine ⟨?_, fun t ht => ?_⟩
    · simpa using hmem
    · apply OrderDual.toDual_le_toDual.mp
      apply hupper
      simpa using ht
  · rw [version_mergeAll, List.length_map]
  · exact sameRecord_mergeAll m merges

/-- The candidates in another order, at whatever times, are joined to the same. -/
theorem sameJoin_of_perm (m : Memory) {merges merges' : List (Memory × Time)} (h : merges ≠ [])
    (hperm : (merges'.map Prod.fst).Perm (merges.map Prod.fst)) : SameJoin (mergeAll m merges) (mergeAll m merges') := by
  have hlength : merges'.length = merges.length := by simpa using hperm.length_eq
  have h' : merges' ≠ [] := fun hnil => h (List.length_eq_zero_iff.mp (hlength ▸ List.length_eq_zero_iff.mpr hnil))
  have hjoin := joinOf_mergeAll m h
  have hjoin' := joinOf_mergeAll m h'
  have hinputs : ∀ c, c ∈ m :: merges'.map Prod.fst ↔ c ∈ m :: merges.map Prod.fst := fun _ => (hperm.cons m).mem_iff
  constructor
  · intro id
    rw [hjoin.ids, hjoin'.ids]
    simp only [hinputs]
  · apply hjoin.confidence.unique
    simpa only [List.mem_map, hinputs] using hjoin'.confidence
  · apply hjoin.importance.unique
    simpa only [List.mem_map, hinputs] using hjoin'.importance
  · apply hjoin.createdAt.unique
    simpa only [List.mem_map, hinputs] using hjoin'.createdAt
  · rw [hjoin.version, hjoin'.version, List.length_map, List.length_map, hlength]
  · exact hjoin.record.trans hjoin'.record.symm

/-- A row of merges joins the memory and the candidates, and the same in every order of the candidates. -/
theorem merge_joins (m : Memory) (merges : List (Memory × Time)) (h : merges ≠ []) :
    JoinOf m (merges.map Prod.fst) (mergeAll m merges) ∧
      ∀ merges' : List (Memory × Time), (merges'.map Prod.fst).Perm (merges.map Prod.fst) →
        SameJoin (mergeAll m merges) (mergeAll m merges') :=
  ⟨joinOf_mergeAll m h, fun _ => sameJoin_of_perm m h⟩

/-- Two statements of a user's. -/
def coffeeFact : Memory := { userFact 3 "c" "alice likes coffee" with sourceEventIDs := ["e1", "e1"], confidence := 9 / 10 }
def teaFact : Memory := { userFact 1 "d" "alice likes tea" with sourceEventIDs := ["e2", "e1"], importance := 4 / 5 }

theorem merge_joins_coffee :
    JoinOf (userFact 2 "b" "alice drinks") [coffeeFact, teaFact]
        (mergeAll (userFact 2 "b" "alice drinks") [(coffeeFact, 5), (teaFact, 6)]) ∧
      ∀ merges' : List (Memory × Time), (merges'.map Prod.fst).Perm [coffeeFact, teaFact] →
        SameJoin (mergeAll (userFact 2 "b" "alice drinks") [(coffeeFact, 5), (teaFact, 6)])
          (mergeAll (userFact 2 "b" "alice drinks") merges') :=
  merge_joins (userFact 2 "b" "alice drinks") [(coffeeFact, 5), (teaFact, 6)] (List.cons_ne_nil _ _)

end AgentMemory
