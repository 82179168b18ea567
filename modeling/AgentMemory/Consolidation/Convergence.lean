import AgentMemory.Consolidation.Compaction
import AgentMemory.Consolidation.Scoped

/-!
# Repeated compaction

The job calls `Consolidate` for memories that the store already holds, and `Merge` writes the
neighbour back with its next version while the candidate stays active, so the pair is merged
again in the next pass. Every write of a pass puts its row further: a merge raises the version,
a closing takes the row out of the active ones. So a pass leaves the memories exactly where it
writes none, and `compaction_converges_iff` says for which stores no pass writes any.
-/

open Relation

namespace AgentMemory

open Tables Calls

/-- One pass of the compaction job. -/
def Pass (d : Deployment) (now : Time) (tenant : String) (w w' : World) : Prop :=
  ∃ o, Exec (step (d.steady now)) (compaction (d.steady now) tenant) w o w'

/-- After a first pass no number of further ones changes a memory. -/
def Converges (d : Deployment) (now : Time) (tenant : String) (w : World) : Prop :=
  ∀ w₁, Pass d now tenant w w₁ → ∀ w₂, ReflTransGen (Pass d now tenant) w₁ w₂ → w₂.memories = w₁.memories

/-- The query of the job for the memories of a tenant. -/
def snapshotQuery (tenant : String) : Query := { Query.zero with tenantID := tenant, limit := 200 }

/-- The row can be in an answer of `List`. In process any matched row is; in Postgres fewer
listed rows than the limit are ahead of it by importance and update time. -/
def MayList (b : Backend) (s : MemoryStore) (q : Query) (m : Memory) : Prop :=
  match b with
  | .memory => m ∈ s.rows.filter (matchesQuery · q)
  | .postgres timestamptz _ =>
    let listed := s.rows.filter (listClauses timestamptz q)
    m ∈ listed ∧ (Sorted.ahead ListedBefore listed m).length < q.normalizedLimit

/-- No active memory that the job can list has a near-duplicate or a newer statement for a first
match. -/
def Compacted (d : Deployment) (now : Time) (tenant : String) (s : MemoryStore) : Prop :=
  ∀ m n, MayList d.backend s (snapshotQuery tenant) m → m.isActive now = true → MayDecide d s m now n →
    similar d.lower n.content m.content < mergeThreshold ∧ shouldSupersede d.lower n m = false

variable {d : Deployment} {now : Time} {tenant : String} {w w' w₁ w₂ : World} {s s' s₁ : MemoryStore}
  {m n candidate : Memory} {neighbors : List Memory}

theorem mayList_iff {b : Backend} {q : Query} :
    MayList b s q m ↔ ∃ listed, b.Lists s q listed ∧ m ∈ listed := by
  unfold MayList
  cases b with
  | memory =>
    constructor
    · intro hmem
      exact ⟨_, List.Perm.refl _, hmem⟩
    · rintro ⟨listed, hlists, hmem⟩
      exact hlists.mem_iff.mp hmem
  | postgres timestamptz ilike =>
    have hfind := Sorted.exists_sorted_find?_iff listedBefore_refl listedBefore_trans listedBefore_total
      (s := s.rows.filter (listClauses timestamptz q)) (a := m) (k := q.normalizedLimit) (p := fun x => x = m)
    constructor
    · rintro ⟨hmem, hahead⟩
      have hnone : ∀ x ∈ Sorted.ahead ListedBefore (s.rows.filter (listClauses timestamptz q)) m,
          decide (x = m) = false := by
        intro x hx
        have hnot := (List.mem_filter.mp hx).2
        apply decide_eq_false
        rintro rfl
        simp [listedBefore_refl] at hnot
      obtain ⟨ordered, hperm, hsorted, hfound⟩ := hfind.mpr ⟨hmem, decide_eq_true rfl, hahead, hnone⟩
      exact ⟨_, ⟨ordered, hperm, hsorted, rfl⟩, List.mem_of_find?_eq_some hfound⟩
    · rintro ⟨_, ⟨ordered, hperm, hsorted, rfl⟩, hmem⟩
      have hfound : (ordered.take q.normalizedLimit).find? (fun x => x = m) = some m := by
        cases hx : (ordered.take q.normalizedLimit).find? (fun x => x = m) with
        | none => exact absurd (decide_eq_true rfl) (List.find?_eq_none.mp hx m hmem)
        | some x =>
          have heq := List.find?_some hx
          rw [of_decide_eq_true heq]
      obtain ⟨hrow, -, hahead, -⟩ := hfind.mp ⟨ordered, hperm, hsorted, hfound⟩
      exact ⟨hrow, hahead⟩

/-! ## How far a row is -/

/-- How far a row is: its version, and whether it is closed. -/
def Memory.stage (m : Memory) : Int := 2 * m.version + if m.status = .active then 0 else 1

/-- Every row of the one store is as far in the other, and some row is further. -/
def Overtakes (s s' : MemoryStore) : Prop :=
  (∀ id m, s.find? id = some m → ∃ m', s'.find? id = some m' ∧ m.stage ≤ m'.stage) ∧
    ∃ id m m', s.find? id = some m ∧ s'.find? id = some m' ∧ m.stage < m'.stage

theorem Overtakes.ne (h : Overtakes s s') : s' ≠ s := by
  rintro rfl
  obtain ⟨-, id, m, m', hm, hm', hlt⟩ := h
  obtain rfl := Option.some.inj (hm.symm.trans hm')
  omega

theorem Overtakes.trans (h : Overtakes s s₁) (h' : Overtakes s₁ s') : Overtakes s s' := by
  constructor
  · intro id m hm
    obtain ⟨m₁, hm₁, hle₁⟩ := h.1 id m hm
    obtain ⟨m', hm', hle'⟩ := h'.1 id m₁ hm₁
    exact ⟨m', hm', hle₁.trans hle'⟩
  · obtain ⟨id, m, m₁, hm, hm₁, hlt⟩ := h.2
    obtain ⟨m', hm', hle'⟩ := h'.1 id m₁ hm₁
    exact ⟨id, m, m', hm, hm', by omega⟩

/-- A write of a row that is further overtakes the store. -/
theorem overtakes_upsert {b : Backend} (hn : n ∈ s.rows) (hid : m.id = n.id)
    (hstage : n.stage < (b.stored (s.find? m.id) m).stage) : Overtakes s (b.upsert s m) := by
  have hold := Table.find?_of_mem hn
  constructor
  · intro id old hfound
    by_cases hsame : m.id = id
    · refine ⟨b.stored (s.find? m.id) m, ?_, ?_⟩
      · rw [Backend.find?_upsert, if_pos hsame]
      · rw [← hsame, hid, hold] at hfound
        obtain rfl := Option.some.inj hfound
        omega
    · refine ⟨old, ?_, le_refl _⟩
      rw [Backend.find?_upsert, if_neg hsame]
      exact hfound
  · refine ⟨n.id, n, b.stored (s.find? m.id) m, hold, ?_, hstage⟩
    rw [Backend.find?_upsert, if_pos hid]

theorem stage_merge (b : Backend) (old : Option Memory) : n.stage < (b.stored old (merge n candidate now)).stage := by
  have hversion : (b.stored old (merge n candidate now)).version = n.version + 1 := by
    cases b <;> cases old <;> rfl
  have hstatus : (b.stored old (merge n candidate now)).status = n.status := by
    cases b <;> cases old <;> rfl
  rw [Memory.stage, Memory.stage, hversion, hstatus]
  omega

theorem stage_closed (b : Backend) (old : Option Memory) (id : String) (hact : n.isActive now = true) :
    n.stage < (b.stored old (closed n candidate id now)).stage := by
  have hversion : (b.stored old (closed n candidate id now)).version = n.version := by
    cases b <;> cases old <;> rfl
  have hstatus : (b.stored old (closed n candidate id now)).status = .superseded := by
    cases b <;> cases old <;> rfl
  rw [Memory.stage, Memory.stage, hversion, hstatus, if_pos (Memory.status_of_isActive hact)]
  simp

/-! ## What a call does -/

/-- The call writes no memory, or some row is further after it. -/
theorem memories_of_outcome {o : Except Err Result} {writes : History} (hsteady : ¬ d.faulty)
    (h : Outcome d candidate w o w' writes) : w'.memories = w.memories ∨ Overtakes w.memories w'.memories := by
  cases h with
  | failed e issued writes hf hw => exact absurd hf hsteady
  | new hnow hl hn => exact Or.inl rfl
  | merged hnow hl hn hsim =>
    have hrow := Backend.mem_rows_of_lists hl (List.mem_of_find?_eq_some hn)
    exact Or.inr (overtakes_upsert hrow rfl (stage_merge _ _))
  | superseded hnow hl hn hlt hsup hid hlink =>
    have hrow := Backend.mem_rows_of_lists hl (List.mem_of_find?_eq_some hn)
    have hact := (applies_iff.mp (List.find?_some hn)).2.1
    rw [(edges_linked hlink).1]
    exact Or.inr (overtakes_upsert hrow rfl (stage_closed _ _ _ hact))
  | contradicts hnow hl hn hlt hsup hcon hlink => exact Or.inl (edges_linked hlink).1

/-- A call whose possible first matches are contradictions writes no memory. -/
theorem memories_of_contradicted {o : Except Err Result} {writes : History} (hsteady : ¬ d.faulty)
    (hmay : ∀ now, d.clock now → ∀ n, MayDecide d w.memories candidate now n →
      similar d.lower n.content candidate.content < mergeThreshold ∧ shouldSupersede d.lower n candidate = false)
    (h : Outcome d candidate w o w' writes) : w'.memories = w.memories := by
  cases h with
  | failed e issued writes hf hw => exact absurd hf hsteady
  | new hnow hl hn => rfl
  | merged hnow hl hn hsim =>
    have hlt := (hmay _ hnow _ (mayDecide_iff.mpr ⟨_, hl, hn⟩)).1
    exact absurd hsim (not_le_of_gt hlt)
  | superseded hnow hl hn hlt hsup hid hlink =>
    have hnot := (hmay _ hnow _ (mayDecide_iff.mpr ⟨_, hl, hn⟩)).2
    rw [hsup] at hnot
    cases hnot
  | contradicts hnow hl hn hlt hsup hcon hlink => exact (edges_linked hlink).1

theorem wp_consolidate_step {Q : Except Err Result → World → Prop}
    (h : ∀ o w' writes, Outcome d candidate w o w' writes → Q o w') : wp (step d) Q (consolidate d candidate) w :=
  wp_of_recorded _ _ [] (wp_consolidate fun o w' writes hout => h o w' writes hout)

/-- What every call of a pass keeps holds after the pass. -/
theorem wp_loop_of_calls {I : MemoryStore → Prop} {mems : List Memory}
    (hcall : ∀ m ∈ mems, m.isActive now = true → ∀ w o w' writes, I w.memories →
      Outcome (d.steady now) m w o w' writes → I w'.memories) (hw : I w.memories) :
    wp (step (d.steady now)) (fun _ w' => I w'.memories) (compactionLoop (d.steady now) mems) w := by
  induction mems generalizing w with
  | nil => exact hw
  | cons m rest ih =>
    have hrest : ∀ {w : World}, I w.memories →
        wp (step (d.steady now)) (fun _ w' => I w'.memories) (compactionLoop (d.steady now) rest) w :=
      ih fun x hx => hcall x (List.mem_cons_of_mem m hx)
    rw [compactionLoop, wp_perform_bind]
    intro r w₁ hs
    obtain ⟨t, rfl, ht, rfl⟩ := step_sure hs rfl
    obtain rfl : now = t := Eq.symm ht
    dsimp only
    split
    · exact hrest hw
    · next hact =>
      rw [wp_bind]
      apply wp_consolidate_step
      intro o w' writes hout
      have hkept := hcall m List.mem_cons_self (by simpa using hact) w₁ o w' writes hw hout
      cases o with
      | ok result => exact hrest hkept
      | error e => exact hkept

theorem wp_pass_of_calls {I : MemoryStore → Prop}
    (hcall : ∀ m, MayList d.backend w.memories (snapshotQuery tenant) m → m.isActive now = true →
      ∀ w o w' writes, I w.memories → Outcome (d.steady now) m w o w' writes → I w'.memories)
    (hw : I w.memories) :
    wp (step (d.steady now)) (fun _ w' => I w'.memories) (compaction (d.steady now) tenant) w := by
  rw [compaction, wp_perform_bind]
  intro r w₁ hs
  rcases step_store hs rfl with ⟨mems, rfl, hl, rfl⟩ | ⟨_, _, hf, -⟩
  · exact wp_loop_of_calls (fun m hm => hcall m (mayList_iff.mpr ⟨mems, hl, hm⟩)) hw
  · exact hf.elim

/-- A pass over a compacted store leaves its memories. -/
theorem memories_of_compacted (hcompacted : Compacted d now tenant w.memories) (h : Pass d now tenant w w') :
    w'.memories = w.memories := by
  obtain ⟨o, hrun⟩ := h
  refine hrun.post (wp_pass_of_calls (I := fun s => s = w.memories) ?_ rfl)
  intro m hm hact w₁ o w₂ writes hw₁ hout
  rw [← hw₁]
  refine memories_of_contradicted (d := d.steady now) (fun hf => hf) ?_ hout
  rintro _ rfl n hn
  rw [hw₁] at hn
  exact hcompacted m n hm hact hn

/-- So does any number of passes. -/
theorem memories_of_passes (hcompacted : Compacted d now tenant w.memories)
    (h : ReflTransGen (Pass d now tenant) w w') : w'.memories = w.memories := by
  induction h with
  | refl => rfl
  | tail _ hpass ih =>
    rw [← ih] at hcompacted
    exact (memories_of_compacted hcompacted hpass).trans ih

/-! ## Some pass writes -/

theorem exists_lists (b : Backend) (s : MemoryStore) (q : Query) : ∃ out, b.Lists s q out := by
  cases b with
  | memory => exact ⟨_, List.Perm.refl _⟩
  | postgres timestamptz ilike =>
    let selected := s.rows.filter (listClauses timestamptz q)
    refine ⟨_, selected.mergeSort (fun x y => ListedBefore x y), List.mergeSort_perm _ _, ?_, rfl⟩
    exact Sorted.pairwise_mergeSort listedBefore_trans listedBefore_total selected

theorem exists_link (d : Deployment) (source target : Memory) (relation : RelationType) (w : World) :
    ∃ w', Exec (step d) (linkRelation d source target relation) w (.ok ()) w' ∧ w'.memories = w.memories := by
  unfold linkRelation
  split
  · exact ⟨w, .ret _ _, rfl⟩
  · have hedge : step d (.upsertEdge (relationEdge source target relation)) w (.ok ())
        { w with edges := w.edges ++ [relationEdge source target relation] } := step_answer rfl
    exact ⟨_, .call hedge (.ret _ _), rfl⟩

/-- The first match is written where it is a near-duplicate or an older statement. -/
def Writes (lower : Char → Char) (candidate n : Memory) : Prop :=
  mergeThreshold ≤ similar lower n.content candidate.content ∨ shouldSupersede lower n candidate = true

theorem exec_settle_merged (hm : mergeThreshold ≤ similar d.lower n.content candidate.content) :
    Exec (step d) (settle d now candidate n) w (.ok ⟨merge n candidate now, .merged, []⟩)
      { w with memories := d.backend.upsert w.memories (merge n candidate now) } := by
  have hput : step d (.upsert (merge n candidate now)) w (.ok ())
      { w with memories := d.backend.upsert w.memories (merge n candidate now) } := step_answer rfl
  rw [settle, if_pos hm]
  exact Exec.answer hput (.ret _ _)

/-- Some run settles the first match, and overtakes the store where it writes. -/
theorem exists_settle (hrow : n ∈ w.memories.rows) (hact : n.isActive now = true) (candidate : Memory) :
    ∃ r w', Exec (step d) (settle d now candidate n) w (.ok r) w' ∧
      (Writes d.lower candidate n → Overtakes w.memories w'.memories) := by
  by_cases hm : mergeThreshold ≤ similar d.lower n.content candidate.content
  · exact ⟨_, _, exec_settle_merged hm, fun _ => overtakes_upsert hrow rfl (stage_merge _ _)⟩
  · rw [settle, if_neg hm]
    split
    · obtain ⟨id, hid⟩ := exists_fresh w
      have hnew : step d (.newID "ver") w (.ok id) { w with issued := id :: w.issued } := step_answer ⟨hid, rfl⟩
      have hput : step d (.upsert (closed n candidate id now)) { w with issued := id :: w.issued } (.ok ())
          { w with
            issued := id :: w.issued
            memories := d.backend.upsert w.memories (closed n candidate id now) } := step_answer rfl
      obtain ⟨w', hlink, hmemories⟩ := exists_link d candidate (closed n candidate id now) .supersedes
        { w with
          issued := id :: w.issued
          memories := d.backend.upsert w.memories (closed n candidate id now) }
      refine ⟨_, w', Exec.answer hnew (Exec.answer hput (Exec.bind hlink (.ret _ _))), fun _ => ?_⟩
      rw [hmemories]
      exact overtakes_upsert hrow rfl (stage_closed _ _ _ hact)
    · next hs =>
      obtain ⟨w', hlink, -⟩ := exists_link d candidate n .contradicts w
      exact ⟨_, w', Exec.bind hlink (.ret _ _), fun hwrites => absurd hwrites (not_or.mpr ⟨hm, hs⟩)⟩

/-- A call that lists the neighbours settles the first match. -/
theorem exec_call_first {o : Except Err Result} (hl : d.backend.Lists w.memories (neighborQuery candidate) neighbors)
    (hn : neighbors.find? (applies d.lower now candidate) = some n)
    (h : Exec (step (d.steady now)) (settle (d.steady now) now candidate n) w o w') :
    Exec (step (d.steady now)) (consolidate (d.steady now) candidate) w o w' := by
  have hclock : step (d.steady now) .now w (.ok now) w := step_answer ⟨rfl, rfl⟩
  have hlist : step (d.steady now) (.list (neighborQuery candidate)) w (.ok neighbors) w := step_answer ⟨hl, rfl⟩
  have hfirst : neighbors.find? (applies (d.steady now).lower now candidate) = some n := hn
  refine Exec.answer hclock (Exec.answer hlist ?_)
  rw [consolidateLoop_eq, hfirst]
  exact h

/-- With any listing of the neighbours the call has a run. -/
theorem exists_call (now : Time) (hl : d.backend.Lists w.memories (neighborQuery candidate) neighbors) :
    ∃ r w', Exec (step (d.steady now)) (consolidate (d.steady now) candidate) w (.ok r) w' ∧
      ∀ n, neighbors.find? (applies d.lower now candidate) = some n → Writes d.lower candidate n →
        Overtakes w.memories w'.memories := by
  cases hn : neighbors.find? (applies d.lower now candidate) with
  | none =>
    have hclock : step (d.steady now) .now w (.ok now) w := step_answer ⟨rfl, rfl⟩
    have hlist : step (d.steady now) (.list (neighborQuery candidate)) w (.ok neighbors) w := step_answer ⟨hl, rfl⟩
    have hnone : neighbors.find? (applies (d.steady now).lower now candidate) = none := hn
    refine ⟨⟨candidate, .new, []⟩, w, Exec.answer hclock (Exec.answer hlist ?_), fun n h => by cases h⟩
    rw [consolidateLoop_eq, hnone]
    exact .ret _ _
  | some n =>
    have hrow := Backend.mem_rows_of_lists hl (List.mem_of_find?_eq_some hn)
    have hact := (applies_iff.mp (List.find?_some hn)).2.1
    obtain ⟨r, w', hsettle, hwrites⟩ := exists_settle (d := d.steady now) hrow hact candidate
    refine ⟨r, w', exec_call_first hl hn hsettle, ?_⟩
    intro first hfirst
    obtain rfl := Option.some.inj hfirst
    exact hwrites

theorem exists_loop (d : Deployment) (now : Time) (mems : List Memory) (w : World) :
    ∃ w', Exec (step (d.steady now)) (compactionLoop (d.steady now) mems) w (.ok ()) w' := by
  induction mems generalizing w with
  | nil => exact ⟨w, .ret _ _⟩
  | cons m rest ih =>
    have hclock : step (d.steady now) .now w (.ok now) w := step_answer ⟨rfl, rfl⟩
    by_cases hact : m.isActive now = false
    · obtain ⟨w', hrest⟩ := ih w
      refine ⟨w', Exec.answer hclock ?_⟩
      rw [if_pos hact]
      exact hrest
    · obtain ⟨neighbors, hl⟩ := exists_lists d.backend w.memories (neighborQuery m)
      obtain ⟨r, w₁, hcall, -⟩ := exists_call now hl
      obtain ⟨w', hrest⟩ := ih w₁
      refine ⟨w', Exec.answer hclock ?_⟩
      rw [if_neg hact]
      exact Exec.bind hcall hrest

theorem memories_of_loop {mems : List Memory} {o : Except Err Unit}
    (h : Exec (step (d.steady now)) (compactionLoop (d.steady now) mems) w o w') :
    w'.memories = w.memories ∨ Overtakes w.memories w'.memories := by
  refine h.post (wp_loop_of_calls (I := fun s => s = w.memories ∨ Overtakes w.memories s) ?_ (Or.inl rfl))
  intro m _ _ w₁ o w₂ writes hw₁ hout
  have hcall := memories_of_outcome (d := d.steady now) (fun hf => hf) hout
  rcases hw₁ with hsame | hover
  · rwa [hsame] at hcall
  · rcases hcall with hsame | hover'
    · exact Or.inr (hsame ▸ hover)
    · exact Or.inr (hover.trans hover')

/-- Where a first match can be written, some loop overtakes the store. -/
theorem exists_loop_overtakes {mems : List Memory} (hm : m ∈ mems) (hact : m.isActive now = true)
    (hn : MayDecide d w.memories m now n) (hwrites : Writes d.lower m n) :
    ∃ w', Exec (step (d.steady now)) (compactionLoop (d.steady now) mems) w (.ok ()) w' ∧
      Overtakes w.memories w'.memories := by
  induction mems generalizing w with
  | nil => cases hm
  | cons x rest ih =>
    have hclock : step (d.steady now) .now w (.ok now) w := step_answer ⟨rfl, rfl⟩
    have hafter : ∀ w₁, Overtakes w.memories w₁.memories → ∃ w', Exec (step (d.steady now))
        (compactionLoop (d.steady now) rest) w₁ (.ok ()) w' ∧ Overtakes w.memories w'.memories := by
      intro w₁ hover
      obtain ⟨w', hrest⟩ := exists_loop d now rest w₁
      refine ⟨w', hrest, ?_⟩
      rcases memories_of_loop hrest with hsame | hover'
      · rw [hsame]
        exact hover
      · exact hover.trans hover'
    by_cases hx : x.isActive now = false
    · have hm : m ∈ rest := by
        rcases List.mem_cons.mp hm with rfl | hm
        · rw [hact] at hx
          cases hx
        · exact hm
      obtain ⟨w', hrest, hover⟩ := ih hm hn
      refine ⟨w', Exec.answer hclock ?_, hover⟩
      rw [if_pos hx]
      exact hrest
    · have hrun : ∃ r w₁ w', Exec (step (d.steady now)) (consolidate (d.steady now) x) w (.ok r) w₁ ∧
          Exec (step (d.steady now)) (compactionLoop (d.steady now) rest) w₁ (.ok ()) w' ∧
          Overtakes w.memories w'.memories := by
        rcases List.mem_cons.mp hm with rfl | hm
        · obtain ⟨neighbors, hl, hfirst⟩ := mayDecide_iff.mp hn
          obtain ⟨r, w₁, hcall, hover⟩ := exists_call now hl
          obtain ⟨w', hrest, hover'⟩ := hafter w₁ (hover n hfirst hwrites)
          exact ⟨r, w₁, w', hcall, hrest, hover'⟩
        · obtain ⟨neighbors, hl⟩ := exists_lists d.backend w.memories (neighborQuery x)
          obtain ⟨r, w₁, hcall, -⟩ := exists_call now hl
          rcases hcall.post (wp_consolidate_step fun _ _ _ => memories_of_outcome fun hf => hf) with hsame | hover
          · rw [← hsame] at hn
            obtain ⟨w', hrest, hover'⟩ := ih hm hn
            rw [hsame] at hover'
            exact ⟨r, w₁, w', hcall, hrest, hover'⟩
          · obtain ⟨w', hrest, hover'⟩ := hafter w₁ hover
            exact ⟨r, w₁, w', hcall, hrest, hover'⟩
      obtain ⟨r, w₁, w', hcall, hrest, hover⟩ := hrun
      refine ⟨w', Exec.answer hclock ?_, hover⟩
      rw [if_neg hx]
      exact Exec.bind hcall hrest

/-- Where a first match can be written, some pass overtakes the store. -/
theorem exists_pass_overtakes (hm : MayList d.backend w.memories (snapshotQuery tenant) m)
    (hact : m.isActive now = true) (hn : MayDecide d w.memories m now n) (hwrites : Writes d.lower m n) :
    ∃ w', Pass d now tenant w w' ∧ Overtakes w.memories w'.memories := by
  obtain ⟨mems, hl, hmem⟩ := mayList_iff.mp hm
  obtain ⟨w', hloop, hover⟩ := exists_loop_overtakes hmem hact hn hwrites
  have hlist : step (d.steady now) (.list (snapshotQuery tenant)) w (.ok mems) w := step_answer ⟨hl, rfl⟩
  exact ⟨w', ⟨_, Exec.answer hlist hloop⟩, hover⟩

/-- Compaction converges exactly where every first pass leaves a store in which no memory that
the job can list has a near-duplicate or a newer statement for a first match. -/
theorem compaction_converges_iff (d : Deployment) (now : Time) (tenant : String) (w : World) :
    Converges d now tenant w ↔ ∀ w₁, Pass d now tenant w w₁ → Compacted d now tenant w₁.memories := by
  constructor
  · intro hconverges w₁ hfirst m n hm hact hn
    have hnot : ¬ Writes d.lower m n := by
      intro hwrites
      obtain ⟨w₂, hsecond, hover⟩ := exists_pass_overtakes hm hact hn hwrites
      exact hover.ne (hconverges w₁ hfirst w₂ (.single hsecond))
    obtain ⟨hmerge, hsupersede⟩ := not_or.mp hnot
    exact ⟨lt_of_not_ge hmerge, by simpa using hsupersede⟩
  · intro hcompacted w₁ hfirst w₂ hpasses
    exact memories_of_passes (hcompacted w₁ hfirst) hpasses

/-! ## One statement, stored twice -/

def firstCopy : Memory := userFact 1 "a" "alice prefere cafe forte"
def secondCopy : Memory := userFact 2 "b" "alice prefere cafe forte"

def bothCopies : World := World.holding ((Table.empty.upsert firstCopy).upsert secondCopy)

/-- The first copy is merged into the second one, -/
def secondMerged : World :=
  { bothCopies with memories := Backend.memory.upsert bothCopies.memories (merge secondCopy firstCopy 5) }

/-- and the second into the first. -/
def bothMerged : World :=
  { secondMerged with memories := Backend.memory.upsert secondMerged.memories (merge firstCopy secondCopy 5) }

theorem pass_bothCopies : Pass (.inProcess 5) 5 "t" bothCopies bothMerged := by
  have hsnapshot : Backend.memory.Lists bothCopies.memories (snapshotQuery "t") [firstCopy, secondCopy] :=
    List.Perm.refl _
  have hfirst : Backend.memory.Lists bothCopies.memories (neighborQuery firstCopy) [firstCopy, secondCopy] :=
    List.Perm.refl _
  have hsecond : Backend.memory.Lists secondMerged.memories (neighborQuery secondCopy)
      [firstCopy, merge secondCopy firstCopy 5] := List.Perm.refl _
  have hmatch : [firstCopy, secondCopy].find? (applies Char.toLower 5 firstCopy) = some secondCopy := by
    decide +kernel
  have hmatch' : [firstCopy, merge secondCopy firstCopy 5].find? (applies Char.toLower 5 secondCopy) =
      some firstCopy := by
    decide +kernel
  have hsimilar : mergeThreshold ≤ similar Char.toLower firstCopy.content firstCopy.content := by
    decide +kernel
  have hclock : ∀ w, step ((Deployment.inProcess 5).steady 5) .now w (.ok 5) w := fun _ => step_answer ⟨rfl, rfl⟩
  have hlist : step ((Deployment.inProcess 5).steady 5) (.list (snapshotQuery "t")) bothCopies
      (.ok [firstCopy, secondCopy]) bothCopies := step_answer ⟨hsnapshot, rfl⟩
  refine ⟨.ok (), Exec.answer hlist ?_⟩
  rw [compactionLoop]
  refine Exec.answer (hclock _) ?_
  rw [if_neg (by decide +kernel)]
  refine Exec.bind (exec_call_first hfirst hmatch (exec_settle_merged hsimilar)) ?_
  rw [compactionLoop]
  refine Exec.answer (hclock _) ?_
  rw [if_neg (by decide +kernel)]
  exact Exec.bind (exec_call_first hsecond hmatch' (exec_settle_merged hsimilar)) (.ret _ _)

/-- Each pass merges the copies into one another again. -/
theorem compaction_diverges : ¬ Converges (.inProcess 5) 5 "t" bothCopies := by
  have hlisted : merge firstCopy secondCopy 5 ∈
      bothMerged.memories.rows.filter (matchesQuery · (snapshotQuery "t")) := by
    decide +kernel
  have hfirst : MayDecide (.inProcess 5) bothMerged.memories (merge firstCopy secondCopy 5) 5
      (merge secondCopy firstCopy 5) := ⟨by decide +kernel, by decide +kernel⟩
  have hwrites : Writes Char.toLower (merge firstCopy secondCopy 5) (merge secondCopy firstCopy 5) :=
    Or.inl (by decide +kernel)
  obtain ⟨w₂, hsecond, hover⟩ := exists_pass_overtakes (d := .inProcess 5) hlisted (by decide +kernel) hfirst hwrites
  intro hconverges
  exact hover.ne (hconverges _ pass_bothCopies w₂ (.single hsecond))

end AgentMemory
