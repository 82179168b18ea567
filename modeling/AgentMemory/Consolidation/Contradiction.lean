import AgentMemory.Consolidation.Consolidate
import Mathlib.Data.Set.Finite.Basic
import Mathlib.Data.Fintype.EquivFin

/-!
# Contradicting memories

The doc comment of `Consolidate` (`service.go:34-37`) promises that contradictions "keep
both linked with a contradicts relation". One negation word changes the token set by one
element, so a contradicting pair is often also similar, and the two similarity tests are
made first. The last theorem says exactly when the promise is kept.
-/

namespace AgentMemory

open Tables Calls

/-- The runs of a service in which the clock reads `now` and `List` returns `neighbors`. -/
def answering (d : Deployment) (now : Time) (neighbors : List Memory) :
    Step Call Resp Err World := fun c w r w' =>
  step d c w r w' ∧ match c, r with
    | .now, r => r = .ok now
    | .list _, r => r = .ok neighbors
    | _, _ => True

/-- The contradicting neighbours of a candidate among those listed. -/
def Contradicting (d : Deployment) (now : Time) (neighbors : List Memory) (candidate n : Memory) :
    Prop :=
  n ∈ neighbors ∧ n.id ≠ candidate.id ∧ n.isActive now = true ∧
    contradicts d.lower n candidate = true

/-- What the doc comment promises of an execution that starts in `w` and ends with `o` in
`w'`: a contradicting neighbour keeps its row, and where no other neighbour matches a test
the candidate comes back and is linked to it. -/
structure ContradictionKept (d : Deployment) (now : Time) (neighbors : List Memory)
    (candidate : Memory) (w : World) (o : Except Err Result) (w' : World) : Prop where
  kept : ∀ n, Contradicting d now neighbors candidate n → n ∈ w'.memories.rows
  linked : ∀ n, Contradicting d now neighbors candidate n →
    (∀ m ∈ neighbors, m ≠ n → applies d.lower now candidate m = false) →
    (∃ r, o = .ok r ∧ r.memory = candidate) ∧
      w'.edges = w.edges ++ [relationEdge candidate n .contradicts]

/-- The first neighbour some test matches, where it contradicts the candidate, is less
similar than either threshold; where it is the only match, the graph store takes its edge. -/
def FirstMatchBelowThreshold (d : Deployment) (now : Time) (neighbors : List Memory)
    (candidate : Memory) : Prop :=
  ∀ n, neighbors.find? (applies d.lower now candidate) = some n →
    contradicts d.lower n candidate = true →
    similar d.lower n.content candidate.content < supersedeThreshold ∧
      ((∀ m ∈ neighbors, m ≠ n → applies d.lower now candidate m = false) →
        d.hasGraph = true ∧ ¬ d.faulty)

variable {d : Deployment} {now : Time} {neighbors : List Memory} {candidate n : Memory}
  {w w' : World}

theorem applies_of_contradicting (h : Contradicting d now neighbors candidate n) :
    applies d.lower now candidate n = true :=
  applies_iff.mpr ⟨h.2.1, h.2.2.1, Or.inr (Or.inr h.2.2.2)⟩

theorem exists_fresh (w : World) : ∃ id, w.Fresh id := by
  obtain ⟨id, hid⟩ := Infinite.exists_notMem_finset
    (w.issued.toFinset ∪ (w.events.rows.map Event.id).toFinset ∪
      (w.memories.rows.map Memory.id).toFinset)
  simp only [Finset.mem_union, List.mem_toFinset, not_or, List.mem_map, not_exists, not_and] at hid
  exact ⟨id, hid.1.1, Table.find?_eq_none.mpr hid.1.2, Table.find?_eq_none.mpr hid.2⟩

/-- In a run with these answers `Consolidate` is its loop over `neighbors`. -/
theorem wp_consolidate_answering (hnow : d.clock now)
    (hl : d.backend.Lists w.memories (neighborQuery candidate) neighbors)
    {Q : Except Err Result → World → Prop} :
    wp (answering d now neighbors) Q (consolidate d candidate) w ↔
      wp (answering d now neighbors) Q (consolidateLoop d now candidate neighbors) w := by
  unfold consolidate
  rw [wp_perform_bind]
  constructor
  · intro h
    have h1 := h (.ok now) w ⟨Or.inl ⟨now, rfl, hnow, rfl⟩, rfl⟩
    dsimp only at h1
    rw [wp_perform_bind] at h1
    exact h1 (.ok neighbors) w ⟨Or.inl ⟨neighbors, rfl, hl, rfl⟩, rfl⟩
  · rintro h r w₁ ⟨hs, hr⟩
    obtain rfl : r = .ok now := hr
    obtain ⟨_, -, -, rfl⟩ := step_sure hs rfl
    dsimp only
    rw [wp_perform_bind]
    rintro r w₂ ⟨hs, hr⟩
    obtain rfl : r = .ok neighbors := hr
    rcases step_store hs rfl with ⟨_, -, -, rfl⟩ | ⟨_, he, -⟩
    · exact h
    · cases he

/-- A row written over under its own id is gone. -/
theorem not_mem_upsert (b : Backend) {s : MemoryStore} {m n : Memory} (hid : m.id = n.id)
    (hne : ∀ old, b.stored old m ≠ n) : n ∉ (b.upsert s m).rows := by
  rw [Backend.mem_upsert]
  rintro (h | ⟨-, h⟩)
  · exact hne _ h.symm
  · exact h hid.symm

theorem stored_merge_ne (b : Backend) (old : Option Memory) :
    b.stored old (merge n candidate now) ≠ n := by
  intro h
  have : (b.stored old (merge n candidate now)).version = n.version + 1 := by
    cases b <;> cases old <;> rfl
  rw [h] at this
  omega

theorem stored_closed_ne (b : Backend) (old : Option Memory) (id : String)
    (hact : n.isActive now = true) : b.stored old (closed n candidate id now) ≠ n := by
  intro h
  have hs := Backend.stored_status b old (closed n candidate id now)
  rw [h, Memory.status_of_isActive hact] at hs
  cases hs

/-- A first match that contradicts the candidate and reaches a similarity threshold is
merged or superseded, so some run loses its row. -/
theorem not_kept_of_similar
    (hn : neighbors.find? (applies d.lower now candidate) = some n)
    (hc : contradicts d.lower n candidate = true)
    (hs : supersedeThreshold ≤ similar d.lower n.content candidate.content) :
    ¬ wp (answering d now neighbors) (ContradictionKept d now neighbors candidate w)
      (settle d now candidate n) w := by
  intro h
  have happ := applies_iff.mp (List.find?_some hn)
  have hcon : Contradicting d now neighbors candidate n :=
    ⟨List.mem_of_find?_eq_some hn, happ.1, happ.2.1, hc⟩
  unfold settle at h
  split at h
  · rw [wp_perform_bind] at h
    have hk := h (.ok ()) _ ⟨Or.inl ⟨(), rfl, rfl⟩, trivial⟩
    have hgone : n ∉ (d.backend.upsert w.memories (merge n candidate now)).rows :=
      not_mem_upsert _ rfl fun old => stored_merge_ne _ old
    exact hgone (hk.kept n hcon)
  · next hm =>
    obtain ⟨htype, hdur⟩ := type_of_contradicts hc
    have hsup : shouldSupersede d.lower n candidate = true :=
      ((merges_or_supersedes htype hdur).mpr hs).resolve_left hm
    rw [if_pos hsup, wp_perform_bind] at h
    obtain ⟨id, hid⟩ := exists_fresh w
    have h1 := h (.ok id) _ ⟨Or.inl ⟨id, rfl, hid, rfl⟩, trivial⟩
    dsimp only at h1
    rw [wp_perform_bind] at h1
    have h2 := h1 (.ok ()) _ ⟨Or.inl ⟨(), rfl, rfl⟩, trivial⟩
    dsimp only at h2
    rw [wp_bind] at h2
    have hgone : n ∉ (d.backend.upsert w.memories (closed n candidate id now)).rows :=
      not_mem_upsert _ rfl fun old => stored_closed_ne _ old _ happ.2.1
    unfold linkRelation at h2
    split at h2
    · exact hgone (h2.kept n hcon)
    · have hk := h2 (.ok ()) _ ⟨Or.inl ⟨(), rfl, rfl⟩, trivial⟩
      exact hgone (hk.kept n hcon)

/-- A run that leaves every row keeps the contradicting neighbours, for they were listed. -/
theorem kept_of_memories_eq (hl : d.backend.Lists w.memories (neighborQuery candidate) neighbors)
    (he : w'.memories = w.memories) :
    ∀ n, Contradicting d now neighbors candidate n → n ∈ w'.memories.rows := fun n hn => by
  rw [he]
  exact Backend.mem_rows_of_lists hl hn.1

theorem wp_linkRelation_answering {source target : Memory} {relation : RelationType}
    {Q : Except Err Unit → World → Prop} :
    wp (answering d now neighbors) Q (linkRelation d source target relation) w ↔
      ∀ w', Linked d source target relation w w' → Q (.ok ()) w' := by
  unfold linkRelation
  split
  · next hg =>
    constructor
    · rintro h w' (⟨hg', -⟩ | ⟨-, rfl⟩)
      · rw [hg] at hg'
        cases hg'
      · exact h
    · intro h
      exact h w (Or.inr ⟨Or.inl hg, rfl⟩)
  · next hg =>
    rw [wp_ignore]
    constructor
    · rintro h w' (⟨-, rfl⟩ | ⟨hf, rfl⟩)
      · exact h (.ok ()) _ ⟨Or.inl ⟨(), rfl, rfl⟩, trivial⟩
      · have hfault := hf.resolve_left hg
        exact h (.error .unavailable) _ ⟨Or.inr ⟨_, rfl, rfl, Or.inr ⟨hfault, rfl, rfl⟩⟩, trivial⟩
    · rintro h r w' ⟨hs, -⟩
      rcases step_upsertEdge hs with hw | ⟨hf, hw⟩
      · exact h _ (Or.inl ⟨by simpa using hg, hw⟩)
      · exact h _ (Or.inr ⟨Or.inr hf, hw⟩)

/-- A first match below both thresholds is linked to the candidate and to nothing else. -/
theorem wp_settle_contradicts {Q : Except Err Result → World → Prop}
    (hs : similar d.lower n.content candidate.content < supersedeThreshold) :
    wp (answering d now neighbors) Q (settle d now candidate n) w ↔
      ∀ w', Linked d candidate n .contradicts w w' →
        Q (.ok ⟨candidate, .contradicts, [n]⟩) w' := by
  have hlt : similar d.lower n.content candidate.content < mergeThreshold :=
    hs.trans (by norm_num [supersedeThreshold, mergeThreshold])
  have hno : shouldSupersede d.lower n candidate ≠ true := by
    rw [Ne, shouldSupersede_iff]
    rintro ⟨-, -, h, -⟩
    exact absurd h (not_le_of_gt hs)
  unfold settle
  rw [if_neg (not_le_of_gt hlt), if_neg hno, wp_bind, wp_linkRelation_answering]
  exact Iff.rfl

/-- The neighbour that decides is the only row `settle` can change. -/
theorem wp_settle_frame :
    wp (step d) (fun _ w' => ∀ id, n.id ≠ id → w'.memories.find? id = w.memories.find? id)
      (settle d now candidate n) w := by
  have hlink : ∀ {target : Memory} {relation : RelationType} {w₁ w₂ : World},
      Linked d candidate target relation w₁ w₂ → w₂.memories = w₁.memories := by
    rintro target relation w₁ w₂ (⟨-, rfl⟩ | ⟨-, rfl⟩) <;> rfl
  unfold settle
  split
  · rw [wp_perform_bind]
    intro r w₁ hs
    rcases step_store hs rfl with ⟨_, rfl, rfl⟩ | ⟨e, rfl, -, rfl⟩
    · intro id hne
      exact (Backend.find?_upsert _ _ _ _).trans (if_neg hne)
    · exact fun _ _ => rfl
  split
  · rw [wp_perform_bind]
    intro r w₁ hs
    obtain ⟨vid, rfl, -, rfl⟩ := step_sure hs rfl
    dsimp only
    rw [wp_perform_bind]
    intro r w₂ hs
    rcases step_store hs rfl with ⟨_, rfl, rfl⟩ | ⟨e, rfl, -, rfl⟩
    · dsimp only
      rw [wp_bind]
      apply wp_of_recorded _ _ []
      apply wp_linkRelation
      intro w' hl id hne
      rw [hlink hl]
      exact (Backend.find?_upsert _ _ _ _).trans (if_neg hne)
    · exact fun _ _ => rfl
  · rw [wp_bind]
    apply wp_of_recorded _ _ []
    apply wp_linkRelation
    intro w' hl id _
    rw [hlink hl]

/-- A neighbour that decides and contradicts nothing leaves the contradicting ones alone. -/
theorem kept_of_settle_other
    (hl : d.backend.Lists w.memories (neighborQuery candidate) neighbors)
    (hn : neighbors.find? (applies d.lower now candidate) = some n)
    (hc : contradicts d.lower n candidate ≠ true) :
    wp (answering d now neighbors) (ContradictionKept d now neighbors candidate w)
      (settle d now candidate n) w := by
  apply wp_step_mono fun _ _ _ _ h => h.1
  refine wp_mono (fun o w' hframe => ?_) _ _ wp_settle_frame
  have hmem := List.mem_of_find?_eq_some hn
  refine ⟨fun m hm => ?_, fun m hm honly => ?_⟩
  · have hrow := Backend.mem_rows_of_lists hl hm.1
    have hne : n.id ≠ m.id := fun e => by
      have : n = m := List.inj_on_of_nodup_map (Backend.nodup_of_lists hl) hmem hm.1 e
      exact hc (this ▸ hm.2.2.2)
    exact (Table.find?_eq_some.mp ((hframe m.id hne).trans (Table.find?_of_mem hrow))).1
  · by_cases e : n = m
    · exact absurd hm.2.2.2 (e ▸ hc)
    · have := honly n hmem e
      rw [List.find?_some hn] at this
      cases this

/-- Executions of `Consolidate` in which the clock reads `now` and `List` returns
`neighbors` keep every contradiction exactly when `FirstMatchBelowThreshold` holds. -/
theorem contradictionKept_wp (hnow : d.clock now)
    (hl : d.backend.Lists w.memories (neighborQuery candidate) neighbors) :
    wp (answering d now neighbors) (ContradictionKept d now neighbors candidate w)
        (consolidate d candidate) w ↔
      FirstMatchBelowThreshold d now neighbors candidate := by
  rw [wp_consolidate_answering hnow hl, consolidateLoop_eq]
  cases hn : neighbors.find? (applies d.lower now candidate) with
  | none =>
    have hnone := List.find?_eq_none.mp hn
    refine ⟨fun _ n h => by simp [hn] at h, fun _ => ⟨kept_of_memories_eq hl rfl, ?_⟩⟩
    intro n h _
    exact absurd (applies_of_contradicting h) (hnone n h.1)
  | some n =>
    have hmem := List.mem_of_find?_eq_some hn
    by_cases hc : contradicts d.lower n candidate = true
    swap
    · refine ⟨fun _ m hm hcm => ?_, fun _ => kept_of_settle_other hl hn hc⟩
      obtain rfl : n = m := Option.some.inj (hn.symm.trans hm)
      exact absurd hcm hc
    by_cases hs : similar d.lower n.content candidate.content < supersedeThreshold
    swap
    · refine ⟨fun h => absurd h (not_kept_of_similar hn hc (le_of_not_gt hs)), fun h => ?_⟩
      exact absurd (h n hn hc).1 hs
    have happ := applies_iff.mp (List.find?_some hn)
    have hcon : Contradicting d now neighbors candidate n := ⟨hmem, happ.1, happ.2.1, hc⟩
    rw [wp_settle_contradicts hs]
    constructor
    · intro h m hm _
      obtain rfl : n = m := Option.some.inj (hn.symm.trans hm)
      refine ⟨hs, fun honly => ?_⟩
      by_contra hno
      have hunlinked : Linked d candidate n .contradicts w w := by
        refine Or.inr ⟨?_, rfl⟩
        by_cases hg : d.hasGraph = true
        · exact Or.inr (not_not.mp fun hf => hno ⟨hg, hf⟩)
        · exact Or.inl (by simpa using hg)
      have hedge := ((h w hunlinked).linked n hcon honly).2
      simp at hedge
    · intro h w' hlink
      have hmems : w'.memories = w.memories := by
        rcases hlink with ⟨-, rfl⟩ | ⟨-, rfl⟩ <;> rfl
      refine ⟨kept_of_memories_eq hl hmems, fun m hm honly => ⟨⟨_, rfl, rfl⟩, ?_⟩⟩
      obtain rfl : n = m := by
        by_contra e
        have := honly n hmem e
        rw [List.find?_some hn] at this
        cases this
      obtain ⟨hg, hf⟩ := (h n hn hc).2 honly
      rcases hlink with ⟨-, rfl⟩ | ⟨hno | hno, -⟩
      · rfl
      · rw [hg] at hno
        cases hno
      · exact absurd hno hf

/-- The promise of the doc comment, for the executions with these answers: every one of
them keeps the contradictions exactly when the first neighbour that any test matches, if
it contradicts the candidate, is below both similarity thresholds. -/
theorem consolidate_keeps_contradictions_iff (d : Deployment) (now : Time)
    (neighbors : List Memory) (candidate : Memory) (w : World) (hnow : d.clock now)
    (hl : d.backend.Lists w.memories (neighborQuery candidate) neighbors) :
    (∀ o w', Exec (answering d now neighbors) (consolidate d candidate) w o w' →
        ContradictionKept d now neighbors candidate w o w') ↔
      FirstMatchBelowThreshold d now neighbors candidate := by
  rw [← wp_iff_exec]
  exact contradictionKept_wp hnow hl

/-- A statement of six words and the same one denied. -/
def stated : Memory := userFact 1 "m1" "usuario gosta de trabalhar com kubernetes"
def denied : Memory := userFact 2 "m2" "usuario nao gosta de trabalhar com kubernetes"

/-- The store that holds the statement only. -/
def statedOnly : World := World.holding (Table.empty.upsert stated)

theorem lists_stated : Backend.memory.Lists statedOnly.memories (neighborQuery denied) [stated] :=
  List.Perm.refl _

theorem consolidate_keeps_contradictions_iff_denied :
    (∀ o w', Exec (answering (.inProcess 3) 3 [stated]) (consolidate (.inProcess 3) denied)
        statedOnly o w' → ContradictionKept (.inProcess 3) 3 [stated] denied statedOnly o w') ↔
      FirstMatchBelowThreshold (.inProcess 3) 3 [stated] denied :=
  consolidate_keeps_contradictions_iff _ _ _ _ _ rfl lists_stated

theorem contradicts_stated : contradicts Char.toLower stated denied = true := by decide +kernel

theorem find?_stated :
    [stated].find? (applies Char.toLower 3 denied) = some stated := by decide +kernel

/-- Five of six tokens are shared, so the statement is merged away. -/
theorem similar_stated :
    supersedeThreshold ≤ similar Char.toLower stated.content denied.content := by
  decide +kernel

/-- The statement that the denial contradicts does not keep its row. -/
theorem contradiction_swallowed :
    ¬ ∀ o w', Exec (answering (.inProcess 3) 3 [stated]) (consolidate (.inProcess 3) denied)
        statedOnly o w' → ContradictionKept (.inProcess 3) 3 [stated] denied statedOnly o w' := by
  rw [← wp_iff_exec, contradictionKept_wp rfl lists_stated]
  intro h
  exact absurd (h stated find?_stated contradicts_stated).1 (not_lt_of_ge similar_stated)

end AgentMemory
