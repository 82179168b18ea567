import AgentMemory.Services.World
import AgentMemory.Consolidation.Similarity

/-!
# Consolidate

`consolidation.Service.Consolidate` (`service.go:34-78`): the candidate is compared with
the memories `List` returns, in that order, and the first one that some test matches
decides. `consolidateLoop_eq` says so; `Outcome` lists everything a call can do to the
stores, and `wp_consolidate` is the rule the services that call it are verified with.
-/

namespace AgentMemory

open Tables Calls

/-- `unionStrings` (`merge.go:61-74`): the items of both lists, each at its first place. -/
def unionStrings (a b : List String) : List String :=
  (a ++ b).foldl (fun out item => if item ∈ out then out else out ++ [item]) []

/-- `Merge` (`merge.go:16-31`). -/
def merge (existing incoming : Memory) (now : Time) : Memory :=
  { existing with
    sourceEventIDs := unionStrings existing.sourceEventIDs incoming.sourceEventIDs
    confidence := if existing.confidence < incoming.confidence then incoming.confidence
      else existing.confidence
    importance := if existing.importance < incoming.importance then incoming.importance
      else existing.importance
    createdAt := if incoming.createdAt < existing.createdAt then incoming.createdAt
      else existing.createdAt
    updatedAt := now
    version := existing.version + 1 }

/-- `maxVersionHistory` (`versioning.go:13`). -/
def maxVersionHistory : Nat := 5

/-- `Snapshot` (`versioning.go:16-25`); `id` is the fresh version id. -/
def snapshot (mem : Memory) (reason id : String) (now : Time) : Version :=
  { id := id
    memoryID := mem.id
    version := mem.version
    content := mem.content
    changeReason := reason
    createdAt := now }

/-- The history the type assertion in `AppendVersion` finds: none where the value was
decoded from JSON. -/
def versionHistory (mem : Memory) : List Version :=
  match mem.metadata.lookup "versions" with
  | some (.versions history) => history
  | _ => []

/-- `AppendVersion` (`versioning.go:29-39`). -/
def appendVersion (mem : Memory) (version : Version) : Memory :=
  let history := versionHistory mem ++ [version]
  let history := history.drop (history.length - maxVersionHistory)
  { mem with
    metadata := ("versions", .versions history) :: mem.metadata.filter (·.1 ≠ "versions") }

/-- `Supersede` (`temporal.go:28-33`). -/
def supersede (old : Memory) (now : Time) : Memory :=
  { old with status := .superseded, validUntil := some now, updatedAt := now }

/-- The change reason of a superseded memory. -/
def supersededBy (id : String) : String := "superseded by " ++ id

/-- The row Consolidate writes for a neighbour that `candidate` supersedes. -/
def closed (neighbor candidate : Memory) (versionID : String) (now : Time) : Memory :=
  supersede (appendVersion neighbor
    (snapshot neighbor (supersededBy candidate.id) versionID now)) now

/-- The newest entry of a version history, decoded from JSON or not. -/
def Memory.lastVersion (m : Memory) : Option Version :=
  match m.metadata.lookup "versions" with
  | some (.versions history) | some (.decodedVersions history) => history.getLast?
  | _ => none

/-- The row records that the memory under `id` closed it. -/
def Memory.SupersededBy (m : Memory) (id : String) : Prop :=
  m.status = .superseded ∧ ∃ v, m.lastVersion = some v ∧ v.changeReason = supersededBy id

theorem supersededBy_injective {a b : String} (h : supersededBy a = supersededBy b) : a = b := by
  have hl := congrArg String.toList h
  simp only [supersededBy, String.toList_append, List.append_cancel_left_eq] at hl
  exact String.toList_inj.mp hl

/-- A row names one successor. -/
theorem Memory.SupersededBy.unique {m : Memory} {a b : String} (ha : m.SupersededBy a)
    (hb : m.SupersededBy b) : a = b := by
  obtain ⟨-, v, hv, hva⟩ := ha
  obtain ⟨-, v', hv', hvb⟩ := hb
  obtain rfl : v = v' := Option.some.inj (hv.symm.trans hv')
  exact supersededBy_injective (hva.symm.trans hvb)

theorem Memory.SupersededBy.not_active {m : Memory} {id : String} (h : m.SupersededBy id) :
    m.status ≠ .active := by
  rw [h.1]
  exact Status.noConfusion

theorem getLast?_bounded (history : List Version) (v : Version) :
    ((history ++ [v]).drop ((history ++ [v]).length - maxVersionHistory)).getLast? = some v := by
  have hlt : (history ++ [v]).length - maxVersionHistory < (history ++ [v]).length := by
    simp only [List.length_append, List.length_singleton, maxVersionHistory]
    omega
  rw [List.getLast?_drop, if_neg (not_le_of_gt hlt), List.getLast?_concat]

/-- The row Consolidate closes names the candidate. -/
theorem stored_closed_supersededBy (b : Backend) (old : Option Memory) (neighbor candidate : Memory)
    (id : String) (now : Time) :
    (b.stored old (closed neighbor candidate id now)).SupersededBy candidate.id := by
  refine ⟨by rw [Backend.stored_status]; rfl, ?_⟩
  refine ⟨snapshot neighbor (supersededBy candidate.id) id now, ?_, rfl⟩
  have hlast := getLast?_bounded (versionHistory neighbor)
    (snapshot neighbor (supersededBy candidate.id) id now)
  cases b <;> cases old <;>
    simpa [Memory.lastVersion, Backend.stored, closed, supersede, appendVersion, Memory.encoded,
      MetaValue.decoded] using hlast

/-- The row under `a` records that the memory under `b` closed it. -/
def SupersededIn (s : MemoryStore) (a b : String) : Prop :=
  ∃ m, s.find? a = some m ∧ m.SupersededBy b

theorem supersededIn_upsert {b : Backend} {s : MemoryStore} {m : Memory} {a c : String} :
    SupersededIn (b.upsert s m) a c ↔
      if m.id = a then (b.stored (s.find? m.id) m).SupersededBy c else SupersededIn s a c := by
  unfold SupersededIn
  rw [Backend.find?_upsert]
  split
  · constructor
    · rintro ⟨_, he, h⟩
      exact Option.some.inj he ▸ h
    · intro h
      exact ⟨_, rfl, h⟩
  · exact Iff.rfl

/-- An active row names no successor. -/
theorem not_supersededIn_of_active {s : MemoryStore} {n : Memory} {now : Time} (hn : n ∈ s.rows)
    (hact : n.isActive now = true) {c : String} :
    ¬ SupersededIn s n.id c := by
  rintro ⟨m, hm, h⟩
  obtain rfl := Option.some.inj ((Table.find?_of_mem hn).symm.trans hm)
  exact h.not_active (Memory.status_of_isActive hact)

/-- `memory.RelationType` (`memory/relation.go`), the relations Consolidate records. -/
inductive RelationType where
  | supersedes | contradicts
  deriving DecidableEq, Repr

def RelationType.name : RelationType → String
  | .supersedes => "supersedes"
  | .contradicts => "contradicts"

/-- The edge `linkRelation` writes. -/
def relationEdge (source target : Memory) (relation : RelationType) : GraphEdge :=
  { fromID := source.id
    toID := target.id
    type := relation.name
    payload := [("tenant_id", source.tenantID), ("relation", relation.name)] }

/-- `Result.Action` (`service.go:28`). -/
inductive Action where
  | merged | superseded | contradicts | new
  deriving DecidableEq, Repr

/-- `consolidation.Result` (`service.go:25-32`). -/
structure Result where
  memory : Memory
  action : Action
  updated : List Memory
  deriving DecidableEq

/-- `linkRelation` (`service.go:82-96`): relations are advisory, a failure is ignored. -/
def linkRelation (d : Deployment) (source target : Memory) (relation : RelationType) : Go Unit :=
  if d.hasGraph = false then pure ()
  else Prog.ignore (Call.upsertEdge (relationEdge source target relation))

/-- The loop of `Consolidate` over the neighbours (`service.go:50-76`). -/
def consolidateLoop (d : Deployment) (now : Time) (candidate : Memory) :
    List Memory → Go Result
  | [] => pure ⟨candidate, .new, []⟩
  | neighbor :: rest =>
    if neighbor.id = candidate.id ∨ neighbor.isActive now = false then
      consolidateLoop d now candidate rest
    else if mergeThreshold ≤ similar d.lower neighbor.content candidate.content then do
      let merged := merge neighbor candidate now
      ask (.upsert merged)
      pure ⟨merged, .merged, []⟩
    else if shouldSupersede d.lower neighbor candidate = true then do
      let id ← ask (.newID "ver")
      let neighbor := closed neighbor candidate id now
      ask (.upsert neighbor)
      linkRelation d candidate neighbor .supersedes
      pure ⟨candidate, .superseded, [neighbor]⟩
    else if contradicts d.lower neighbor candidate = true then do
      linkRelation d candidate neighbor .contradicts
      pure ⟨candidate, .contradicts, [neighbor]⟩
    else consolidateLoop d now candidate rest

/-- The query `Consolidate` lists the neighbours with (`service.go:40-45`). -/
def neighborQuery (candidate : Memory) : Query :=
  { Query.zero with
    tenantID := candidate.tenantID
    userID := candidate.userID
    limit := 50
    filters := [("type", candidate.type.name)] }

/-- `Consolidate` (`service.go:38-78`). -/
def consolidate (d : Deployment) (candidate : Memory) : Go Result := do
  let now ← ask .now
  let neighbors ← ask (.list (neighborQuery candidate))
  consolidateLoop d now candidate neighbors

/-! ## The first match decides -/

/-- Some test matches the neighbour: it is not the candidate itself, it is active, and it
is a near-duplicate, an older statement or a contradiction. -/
def applies (lower : Char → Char) (now : Time) (candidate neighbor : Memory) : Bool :=
  neighbor.id ≠ candidate.id && neighbor.isActive now &&
    (mergeThreshold ≤ similar lower neighbor.content candidate.content ||
      shouldSupersede lower neighbor candidate || contradicts lower neighbor candidate)

/-- What the loop does with the neighbour that decides. -/
def settle (d : Deployment) (now : Time) (candidate neighbor : Memory) : Go Result :=
  if mergeThreshold ≤ similar d.lower neighbor.content candidate.content then do
    let merged := merge neighbor candidate now
    ask (.upsert merged)
    pure ⟨merged, .merged, []⟩
  else if shouldSupersede d.lower neighbor candidate = true then do
    let id ← ask (.newID "ver")
    let neighbor := closed neighbor candidate id now
    ask (.upsert neighbor)
    linkRelation d candidate neighbor .supersedes
    pure ⟨candidate, .superseded, [neighbor]⟩
  else do
    linkRelation d candidate neighbor .contradicts
    pure ⟨candidate, .contradicts, [neighbor]⟩

theorem consolidateLoop_eq (d : Deployment) (now : Time) (candidate : Memory)
    (neighbors : List Memory) :
    consolidateLoop d now candidate neighbors =
      match neighbors.find? (applies d.lower now candidate) with
      | none => pure ⟨candidate, .new, []⟩
      | some neighbor => settle d now candidate neighbor := by
  induction neighbors with
  | nil => simp [consolidateLoop]
  | cons n rest ih =>
    rw [consolidateLoop]
    by_cases h1 : n.id = candidate.id ∨ n.isActive now = false
    · have : applies d.lower now candidate n = false := by
        rcases h1 with h1 | h1 <;> simp [applies, h1]
      rw [if_pos h1, List.find?_cons_of_neg (by simp [this]), ih]
    rw [if_neg h1]
    obtain ⟨hid, hact⟩ := not_or.mp h1
    by_cases h2 : mergeThreshold ≤ similar d.lower n.content candidate.content
    · have : applies d.lower now candidate n = true := by simp_all [applies]
      rw [if_pos h2, List.find?_cons_of_pos this]
      simp only [settle, if_pos h2]
    rw [if_neg h2]
    by_cases h3 : shouldSupersede d.lower n candidate = true
    · have : applies d.lower now candidate n = true := by simp_all [applies]
      rw [if_pos h3, List.find?_cons_of_pos this]
      simp only [settle, if_neg h2, if_pos h3]
    rw [if_neg h3]
    by_cases h4 : contradicts d.lower n candidate = true
    · have : applies d.lower now candidate n = true := by simp_all [applies]
      rw [if_pos h4, List.find?_cons_of_pos this]
      simp only [settle, if_neg h2, if_neg h3]
    · have : ¬ applies d.lower now candidate n = true := by simp_all [applies]
      rw [if_neg h4, List.find?_cons_of_neg this, ih]

theorem applies_iff {lower : Char → Char} {now : Time} {candidate neighbor : Memory} :
    applies lower now candidate neighbor = true ↔
      neighbor.id ≠ candidate.id ∧ neighbor.isActive now = true ∧
        (mergeThreshold ≤ similar lower neighbor.content candidate.content ∨
          shouldSupersede lower neighbor candidate = true ∨
          contradicts lower neighbor candidate = true) := by
  simp [applies, and_assoc, or_assoc]

/-! ## Everything a call can do -/

/-- The stores after `linkRelation`: one more edge, or the same edges where no graph is
wired or the graph store fails. -/
def Linked (d : Deployment) (source target : Memory) (relation : RelationType) (w w' : World) :
    Prop :=
  (d.hasGraph = true ∧ w' = { w with edges := w.edges ++ [relationEdge source target relation] }) ∨
    ((d.hasGraph = false ∨ d.faulty) ∧ w' = w)

/-- A write over the row of a memory that the store holds, which failed. -/
def FailedOver (w : World) (c : Made Call World) : Prop :=
  c.failed = true ∧ c.before.memories = w.memories ∧
    ∃ m, c.op = .upsert m ∧ ∃ n ∈ w.memories.rows, n.id = m.id

/-- The outcomes of `Consolidate` for a candidate in a world, with the writes it made:
`now` is its clock reading, `neighbors` what `List` returned to it. -/
inductive Outcome (d : Deployment) (candidate : Memory) (w : World) :
    Except Err Result → World → History → Prop where
  /-- A store call failed; no row has changed. -/
  | failed (e : Err) (issued : List String) (writes : History) :
      d.faulty → (∀ c ∈ writes, FailedOver w c) →
      Outcome d candidate w (.error e) { w with issued := issued } writes
  | new {now : Time} {neighbors : List Memory} :
      d.clock now → d.backend.Lists w.memories (neighborQuery candidate) neighbors →
      neighbors.find? (applies d.lower now candidate) = none →
      Outcome d candidate w (.ok ⟨candidate, .new, []⟩) w []
  | merged {now : Time} {neighbors : List Memory} {n : Memory} :
      d.clock now → d.backend.Lists w.memories (neighborQuery candidate) neighbors →
      neighbors.find? (applies d.lower now candidate) = some n →
      mergeThreshold ≤ similar d.lower n.content candidate.content →
      Outcome d candidate w (.ok ⟨merge n candidate now, .merged, []⟩)
        { w with memories := d.backend.upsert w.memories (merge n candidate now) }
        [⟨.upsert (merge n candidate now), w, false⟩]
  | superseded {now : Time} {neighbors : List Memory} {n : Memory} {id : String} {w' : World} :
      d.clock now → d.backend.Lists w.memories (neighborQuery candidate) neighbors →
      neighbors.find? (applies d.lower now candidate) = some n →
      similar d.lower n.content candidate.content < mergeThreshold →
      shouldSupersede d.lower n candidate = true →
      w.Fresh id →
      Linked d candidate (closed n candidate id now) .supersedes
        { w with
          issued := id :: w.issued
          memories := d.backend.upsert w.memories (closed n candidate id now) } w' →
      Outcome d candidate w (.ok ⟨candidate, .superseded, [closed n candidate id now]⟩) w'
        [⟨.upsert (closed n candidate id now), { w with issued := id :: w.issued }, false⟩]
  | contradicts {now : Time} {neighbors : List Memory} {n : Memory} {w' : World} :
      d.clock now → d.backend.Lists w.memories (neighborQuery candidate) neighbors →
      neighbors.find? (applies d.lower now candidate) = some n →
      similar d.lower n.content candidate.content < mergeThreshold →
      shouldSupersede d.lower n candidate = false →
      contradicts d.lower n candidate = true →
      Linked d candidate n .contradicts w w' →
      Outcome d candidate w (.ok ⟨candidate, .contradicts, [n]⟩) w' []

variable {d : Deployment} {candidate n : Memory} {now : Time} {neighbors : List Memory}
  {w : World} {history : History}

theorem step_upsertEdge {e : GraphEdge} {w' : World} {r : Except Err Unit}
    (h : step d (.upsertEdge e) w r w') :
    w' = { w with edges := w.edges ++ [e] } ∨ (d.faulty ∧ w' = w) := by
  rcases h with ⟨_, -, hw⟩ | ⟨_, -, hw, hr | ⟨hf, -⟩⟩
  · exact Or.inl hw
  · exact hr.elim
  · exact Or.inr ⟨hf, hw⟩

theorem wp_linkRelation {source target : Memory} {relation : RelationType}
    {Q : Except Err Unit → World × History → Prop}
    (h : ∀ w', Linked d source target relation w w' → Q (.ok ()) (w', history)) :
    wp (watched d) Q (linkRelation d source target relation) (w, history) := by
  unfold linkRelation
  split
  · next hg => exact h w (Or.inr ⟨Or.inl hg, rfl⟩)
  · next hg =>
    rw [wp_ignore]
    rintro r ⟨w', history'⟩ ⟨hs, rfl⟩
    apply h
    rcases step_upsertEdge hs with hw | ⟨hf, hw⟩
    · exact Or.inl ⟨by simpa using hg, hw⟩
    · exact Or.inr ⟨Or.inr hf, hw⟩

theorem wp_settle {Q : Except Err Result → World × History → Prop}
    (hnow : d.clock now) (hl : d.backend.Lists w.memories (neighborQuery candidate) neighbors)
    (hn : neighbors.find? (applies d.lower now candidate) = some n)
    (h : ∀ o w' writes, Outcome d candidate w o w' writes → Q o (w', history ++ writes)) :
    wp (watched d) Q (settle d now candidate n) (w, history) := by
  have hrow : n ∈ w.memories.rows := Backend.mem_rows_of_lists hl (List.mem_of_find?_eq_some hn)
  unfold settle
  split
  · next hm =>
    rw [wp_recorded_bind]
    intro r w' hs
    rcases step_store hs rfl with ⟨a, rfl, hw⟩ | ⟨e, rfl, hf, rfl⟩
    · subst hw
      exact h _ _ _ (.merged hnow hl hn hm)
    · refine h _ _ _ (.failed e w'.issued [⟨.upsert (merge n candidate now), w', true⟩] hf ?_)
      simp only [List.mem_singleton]
      rintro c rfl
      exact ⟨rfl, rfl, _, rfl, n, hrow, rfl⟩
  · next hm =>
    have hlt := lt_of_not_ge hm
    split
    · next hs =>
      rw [wp_recorded_bind]
      intro r w₁ hid
      obtain ⟨id, rfl, hfresh, rfl⟩ := step_sure hid rfl
      dsimp only
      rw [wp_recorded_bind]
      intro r w₂ hup
      rcases step_store hup rfl with ⟨a, rfl, hw⟩ | ⟨e, rfl, hf, rfl⟩
      · subst hw
        dsimp only
        rw [wp_bind]
        apply wp_linkRelation
        intro w' hlink
        exact h _ _ _ (.superseded hnow hl hn hlt hs hfresh hlink)
      · refine h _ _ _ (.failed e (id :: w.issued)
          [⟨.upsert (closed n candidate id now), { w with issued := id :: w.issued }, true⟩] hf ?_)
        simp only [List.mem_singleton]
        rintro c rfl
        exact ⟨rfl, rfl, _, rfl, n, hrow, rfl⟩
    · next hs =>
      have happ := applies_iff.mp (List.find?_some hn)
      have hc : contradicts d.lower n candidate = true := by
        rcases happ.2.2 with h' | h' | h'
        · exact absurd h' hm
        · exact absurd h' hs
        · exact h'
      rw [wp_bind]
      apply wp_linkRelation
      intro w' hlink
      have hout := h _ _ _ (.contradicts hnow hl hn hlt (by simpa using hs) hc hlink)
      rwa [List.append_nil] at hout

/-- Whatever holds of every outcome holds after `Consolidate`. -/
theorem wp_consolidate {Q : Except Err Result → World × History → Prop}
    (h : ∀ o w' writes, Outcome d candidate w o w' writes → Q o (w', history ++ writes)) :
    wp (watched d) Q (consolidate d candidate) (w, history) := by
  unfold consolidate
  rw [wp_recorded_bind]
  intro r w₁ hs
  obtain ⟨now, rfl, hnow, rfl⟩ := step_sure hs rfl
  dsimp only
  rw [wp_recorded_bind]
  intro r w₂ hs
  rcases step_store hs rfl with ⟨neighbors, rfl, hl, rfl⟩ | ⟨e, rfl, hf, rfl⟩
  · dsimp only
    rw [consolidateLoop_eq]
    split
    · next hnone =>
      have hout := h _ _ _ (.new hnow hl hnone)
      rwa [List.append_nil] at hout
    · next n hsome => exact wp_settle hnow hl hsome h
  · have hout := h _ _ _ (.failed e w₂.issued [] hf (by simp))
    rwa [List.append_nil] at hout

theorem exec_linkRelation {source target : Memory} {relation : RelationType}
    (hg : d.hasGraph = true) :
    Exec (watched d) (linkRelation d source target relation) (w, history) (.ok ())
      ({ w with edges := w.edges ++ [relationEdge source target relation] }, history) := by
  have hedge : watched d (.upsertEdge (relationEdge source target relation)) (w, history) (.ok ())
      ({ w with edges := w.edges ++ [relationEdge source target relation] }, history) :=
    ⟨Or.inl ⟨(), rfl, rfl⟩, rfl⟩
  rw [linkRelation, if_neg (by simp [hg])]
  exact .call hedge (.ret _ _)

/-- Two statements that share four of five words: either supersedes the other. -/
def shortFact : Memory := userFact 1 "a" "alice prefere cafe forte"
def longFact : Memory := userFact 2 "b" "alice prefere cafe forte quente"

/-- Where the tests say so, some run supersedes the first neighbour they match. -/
theorem exec_consolidate_superseded {id : String} (hnow : d.clock now)
    (hl : d.backend.Lists w.memories (neighborQuery candidate) neighbors)
    (hn : neighbors.find? (applies d.lower now candidate) = some n)
    (hlt : similar d.lower n.content candidate.content < mergeThreshold)
    (hs : shouldSupersede d.lower n candidate = true) (hid : w.Fresh id)
    (hg : d.hasGraph = true) :
    Exec (watched d) (consolidate d candidate) (w, history)
      (.ok ⟨candidate, .superseded, [closed n candidate id now]⟩)
      ({ w with
          issued := id :: w.issued
          memories := d.backend.upsert w.memories (closed n candidate id now)
          edges := w.edges ++ [relationEdge candidate (closed n candidate id now) .supersedes] },
        history ++ [⟨.upsert (closed n candidate id now),
          { w with issued := id :: w.issued }, false⟩]) := by
  refine exec_answer (show Answers d .now w now w from ⟨hnow, rfl⟩) ?_
  refine exec_answer (show Answers d (.list _) w neighbors w from ⟨hl, rfl⟩) ?_
  rw [consolidateLoop_eq, hn]
  simp only [settle, if_neg (not_le_of_gt hlt), if_pos hs]
  refine exec_answer (show Answers d (.newID "ver") w id _ from ⟨hid, rfl⟩) ?_
  refine exec_answer (show Answers d (.upsert _) _ () _ from rfl) ?_
  exact Exec.bind (exec_linkRelation hg) (.ret _ _)

end AgentMemory
