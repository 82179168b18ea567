import AgentMemory.Context.Pack
import Mathlib.Algebra.Order.BigOperators.Group.List

/-!
# What a trimmed pack holds

Where the ids in a pack are distinct, `EnforceBudget` keeps the longest run of the
best-scored memories that fits the budget (`fitting`), or the best one, and shows each of them
compressed. `rows_enforceBudget` and `tokenEstimate_enforceBudget` say so of the sections and of
the estimate.
-/

namespace AgentMemory

/-! ## Filing the candidates -/

@[simp] theorem rows_fileMemories (pack : ContextPack) (mems : List Memory) (s : PackSection) :
    (fileMemories pack mems).rows s = pack.rows s ++ mems.filter fun mem => sectionFor mem = s := by
  induction mems generalizing pack with
  | nil => simp [fileMemories]
  | cons mem rest ih =>
    rw [fileMemories, ih, ContextPack.rows_setRows]
    by_cases hsection : sectionFor mem = s
    · rw [List.filter_cons_of_pos (by simpa using hsection), if_pos hsection.symm, hsection,
        List.append_assoc, List.singleton_append]
    · rw [List.filter_cons_of_neg (by simpa using hsection), if_neg (fun h => hsection h.symm)]

@[simp] theorem tokenEstimate_fileMemories (pack : ContextPack) (mems : List Memory) :
    (fileMemories pack mems).tokenEstimate = pack.tokenEstimate := by
  induction mems generalizing pack with
  | nil => rfl
  | cons mem rest ih => rw [fileMemories, ih, ContextPack.tokenEstimate_setRows]

@[simp] theorem control_fileMemories (pack : ContextPack) (mems : List Memory) :
    (fileMemories pack mems).control = pack.control := by
  induction mems generalizing pack with
  | nil => rfl
  | cons mem rest ih => rw [fileMemories, ih, ContextPack.control_setRows]

theorem rows_packOf (candidates : List Candidate) (trace : Trace) (s : PackSection) :
    (packOf candidates trace).rows s = (candidates.map Candidate.memory).filter fun mem => sectionFor mem = s := by
  have hrows : (packOf candidates trace).rows s = (fileMemories
      ⟨[], [], [], [], [], [], [], [], trace.tokenEstimate, trace.id, none⟩
      (candidates.map Candidate.memory)).rows s := by
    cases s <;> rfl
  rw [hrows, rows_fileMemories]
  cases s <;> rfl

@[simp] theorem tokenEstimate_packOf (candidates : List Candidate) (trace : Trace) :
    (packOf candidates trace).tokenEstimate = trace.tokenEstimate :=
  tokenEstimate_fileMemories _ _

@[simp] theorem control_packOf (candidates : List Candidate) (trace : Trace) :
    (packOf candidates trace).control = none :=
  control_fileMemories _ _

@[simp] theorem citations_packOf (candidates : List Candidate) (trace : Trace) :
    (packOf candidates trace).citations = buildCitations candidates := rfl

/-- Every candidate's memory is in one section of the pack. -/
theorem memories_packOf (candidates : List Candidate) (trace : Trace) :
    (packOf candidates trace).memories.Perm (candidates.map Candidate.memory) := by
  rw [ContextPack.memories, List.perm_iff_count]
  intro mem
  simp only [PackSection.all, List.flatMap_cons, List.flatMap_nil, List.count_append, rows_packOf, List.count_nil]
  have hcount : ∀ s, ((candidates.map Candidate.memory).filter fun m => sectionFor m = s).count mem =
      if sectionFor mem = s then (candidates.map Candidate.memory).count mem else 0 := by
    intro s
    split
    · next hsection => exact List.count_filter (by simpa using hsection)
    · next hsection => exact List.count_eq_zero_of_not_mem fun hmem => hsection (by simpa using (List.mem_filter.mp hmem).2)
  simp only [hcount]
  cases sectionFor mem <;> simp

/-! ## References -/

variable {pack : ContextPack} {candidates : List Candidate}

/-- The tokens of the memory a reference names. -/
def refTokens (pack : ContextPack) (ref : Ref) : Nat :=
  match (pack.rows ref.inSection).find? fun mem => mem.id = ref.id with
  | some mem => estimateTokens mem.content
  | none => 0

/-- The memories of a pack have distinct ids. -/
def ContextPack.Distinct (pack : ContextPack) : Prop := (pack.memories.map Memory.id).Nodup

theorem ContextPack.Distinct.eq_of_id (h : pack.Distinct) {mem mem' : Memory} (hmem : mem ∈ pack.memories)
    (hmem' : mem' ∈ pack.memories) (hid : mem.id = mem'.id) : mem = mem' :=
  List.inj_on_of_nodup_map h hmem hmem' hid

/-- A memory is in one section only. -/
theorem ContextPack.Distinct.section_eq (h : pack.Distinct) {s t : PackSection} {mem mem' : Memory}
    (hmem : mem ∈ pack.rows s) (hmem' : mem' ∈ pack.rows t) (hid : mem.id = mem'.id) : s = t := by
  by_contra hne
  rw [ContextPack.Distinct, ContextPack.memories, List.map_flatMap, List.nodup_flatMap] at h
  have hdisjoint : ∀ s t : PackSection, s ≠ t → List.Disjoint ((pack.rows s).map Memory.id)
      ((pack.rows t).map Memory.id) := by
    have hpairs := h.2
    simp only [PackSection.all, List.pairwise_cons, List.mem_cons, List.not_mem_nil, or_false, Function.onFun,
      forall_eq_or_imp, forall_eq] at hpairs
    intro s t hst
    cases s <;> cases t <;> first | exact absurd rfl hst | (simp_all; done) | (apply List.Disjoint.symm; simp_all)
  exact hdisjoint s t hne (List.mem_map_of_mem hmem) (hid ▸ List.mem_map_of_mem hmem')

/-- Among memories of the pack, the one with an id is found by it. -/
theorem find?_distinct (h : pack.Distinct) {mems : List Memory} (hsub : ∀ m ∈ mems, m ∈ pack.memories)
    {mem : Memory} (hmem : mem ∈ mems) : (mems.find? fun m => m.id = mem.id) = some mem := by
  cases hfound : mems.find? fun m => m.id = mem.id with
  | none =>
    have hnone := List.find?_eq_none.mp hfound mem hmem
    simp at hnone
  | some found =>
    have hin := List.mem_of_find?_eq_some hfound
    have hid : found.id = mem.id := by simpa using List.find?_some hfound
    rw [h.eq_of_id (hsub found hin) (hsub mem hmem) hid]

theorem mem_refsOf {ref : Ref} (h : ref ∈ refsOf pack candidates) :
    ∃ mem ∈ pack.rows ref.inSection, mem.id = ref.id := by
  obtain ⟨s, -, href⟩ := List.mem_flatMap.mp h
  obtain ⟨mem, hmem, rfl⟩ := List.mem_map.mp href
  exact ⟨mem, hmem, rfl⟩

theorem ids_refsOf (pack : ContextPack) (candidates : List Candidate) :
    (refsOf pack candidates).map Ref.id = pack.memories.map Memory.id := by
  rw [refsOf, ContextPack.memories, List.map_flatMap, List.map_flatMap]
  simp only [List.map_map]
  rfl

theorem refTokens_eq (h : pack.Distinct) {s : PackSection} {mem : Memory} (hmem : mem ∈ pack.rows s) (score : ℚ) :
    refTokens pack ⟨s, mem.id, score⟩ = estimateTokens mem.content := by
  rw [refTokens, find?_distinct h (fun m hm => ContextPack.mem_memories.mpr ⟨s, hm⟩) hmem]

/-! ## Dropping -/

/-- The memories of a section under these references. -/
def rowsUnder (pack : ContextPack) (refs : List Ref) (s : PackSection) : List Memory :=
  (pack.rows s).filter fun mem => mem.id ∈ refs.map Ref.id

/-- Dropping one victim leaves the memories under the others. -/
theorem rowsUnder_drop (h : pack.Distinct) {victim : Ref} {rest : List Ref} {now : ContextPack}
    (hids : ((victim :: rest).map Ref.id).Nodup)
    (hvictim : ∃ mem ∈ pack.rows victim.inSection, mem.id = victim.id)
    (hnow : ∀ s, now.rows s = rowsUnder pack (victim :: rest) s) (s : PackSection) :
    (now.setRows victim.inSection (removeByID (now.rows victim.inSection) victim.id)).rows s =
      rowsUnder pack rest s := by
  have hfresh : victim.id ∉ rest.map Ref.id := (List.nodup_cons.mp hids).1
  rw [ContextPack.rows_setRows]
  split
  · next hsame =>
    subst hsame
    rw [removeByID, hnow, rowsUnder, rowsUnder, List.filter_filter]
    apply List.filter_congr
    intro mem _
    by_cases hid : mem.id = victim.id
    · simp [hid, hfresh]
    · simp [hid]
  · next hother =>
    obtain ⟨found, hfound, hid⟩ := hvictim
    rw [hnow, rowsUnder, rowsUnder]
    apply List.filter_congr
    intro mem hmem
    have hne : mem.id ≠ victim.id := fun hsame => hother (h.section_eq hmem hfound (hsame.trans hid.symm))
    simp [hne]

/-- The victims that are left are those that fit, and the estimate is theirs. -/
theorem dropVictims_spec (h : pack.Distinct) (budget : Int) {victims : List Ref}
    (hids : (victims.map Ref.id).Nodup)
    (hvictims : ∀ v ∈ victims, ∃ mem ∈ pack.rows v.inSection, mem.id = v.id) {now : ContextPack}
    (hnow : ∀ s, now.rows s = rowsUnder pack victims s) :
    (∀ s, (dropVictims budget victims now (victims.map (refTokens pack)).sum victims.length).1.rows s =
      rowsUnder pack (fitting (refTokens pack) budget victims) s) ∧
    (dropVictims budget victims now (victims.map (refTokens pack)).sum victims.length).2 =
      ((fitting (refTokens pack) budget victims).map (refTokens pack)).sum := by
  induction victims generalizing now with
  | nil => exact ⟨hnow, rfl⟩
  | cons victim rest ih =>
    have hstop : ((((victim :: rest).map (refTokens pack)).sum : Nat) : Int) ≤ budget ∨
        (victim :: rest).length ≤ 1 ↔
          rest = [] ∨ (((victim :: rest).map (refTokens pack)).sum : Int) ≤ budget := by
      rw [or_comm, List.length_cons]
      apply or_congr_left
      cases rest <;> simp
    unfold dropVictims fitting
    by_cases hfits : rest = [] ∨ (((victim :: rest).map (refTokens pack)).sum : Int) ≤ budget
    · rw [if_pos (hstop.mpr hfits), if_pos hfits]
      exact ⟨hnow, rfl⟩
    · rw [if_neg (fun hs => hfits (hstop.mp hs)), if_neg hfits]
      obtain ⟨mem, hmem, hid⟩ := hvictims victim List.mem_cons_self
      have hfound : ((now.rows victim.inSection).find? fun m => m.id = victim.id) = some mem := by
        rw [hnow, ← hid]
        apply find?_distinct h
        · intro m hm
          exact ContextPack.mem_memories.mpr ⟨victim.inSection, List.mem_of_mem_filter hm⟩
        · exact List.mem_filter.mpr ⟨hmem, by simp [hid]⟩
      have htokens : refTokens pack victim = estimateTokens mem.content := by
        rw [← refTokens_eq h hmem victim.score, hid]
      have hleft : ((((victim :: rest).map (refTokens pack)).sum : Nat) : Int) - (estimateTokens mem.content : Nat) =
          ((rest.map (refTokens pack)).sum : Nat) := by
        rw [List.map_cons, List.sum_cons, htokens]
        omega
      have hrest := ih (List.nodup_cons.mp hids).2 (fun v hv => hvictims v (List.mem_cons_of_mem _ hv))
        (rowsUnder_drop h hids ⟨mem, hmem, hid⟩ hnow)
      simp only [hfound, hleft, List.length_cons, Nat.add_sub_cancel]
      exact hrest

theorem dropVictims_frame (budget : Int) (victims : List Ref) (now : ContextPack) (estimate : Int) (total : Nat) :
    (dropVictims budget victims now estimate total).1.citations = now.citations ∧
      (dropVictims budget victims now estimate total).1.control = now.control := by
  induction victims generalizing now estimate total with
  | nil => exact ⟨rfl, rfl⟩
  | cons victim rest ih =>
    unfold dropVictims
    split
    · exact ⟨rfl, rfl⟩
    · obtain ⟨hcitations, hcontrol⟩ := ih _ _ _
      exact ⟨hcitations.trans (ContextPack.citations_setRows _ _ _),
        hcontrol.trans (ContextPack.control_setRows _ _ _)⟩

/-! ## Compressing -/

/-- A memory as a trimmed pack shows it. -/
def shownMemory (mem : Memory) : Memory :=
  if (fields mem.content.toList).length ≤ 120 then mem else { mem with content := compressed mem.content }

/-- The tokens that showing a memory adds, or takes away. -/
def growth (mem : Memory) : Int := estimateTokens (shownMemory mem).content - estimateTokens mem.content

@[simp] theorem id_shownMemory (mem : Memory) : (shownMemory mem).id = mem.id := by
  unfold shownMemory
  split <;> rfl

theorem compressRows_eq (mems : List Memory) (estimate : Int) :
    compressRows mems estimate = (mems.map shownMemory, estimate + (mems.map growth).sum) := by
  induction mems generalizing estimate with
  | nil => simp [compressRows]
  | cons mem rest ih =>
    unfold compressRows
    split
    · next hshort => simp [ih, shownMemory, growth, hshort]
    · next hlong =>
      simp only [ih, List.map_cons, List.sum_cons, shownMemory, growth, hlong, if_false, Prod.mk.injEq, true_and]
      omega

theorem compressSections_spec (sections : List PackSection) (hsections : sections.Nodup) (now : ContextPack)
    (estimate : Int) :
    (∀ s, (compressSections sections now estimate).1.rows s =
      if s ∈ sections then (now.rows s).map shownMemory else now.rows s) ∧
    (compressSections sections now estimate).2 = estimate + ((sections.flatMap now.rows).map growth).sum := by
  induction sections generalizing now estimate with
  | nil => exact ⟨fun _ => rfl, by simp [compressSections]⟩
  | cons s rest ih =>
    obtain ⟨hfresh, hrest⟩ := List.nodup_cons.mp hsections
    have hothers : rest.flatMap (now.setRows s ((now.rows s).map shownMemory)).rows = rest.flatMap now.rows := by
      apply List.flatMap_congr
      intro t ht
      rw [ContextPack.rows_setRows, if_neg]
      rintro rfl
      exact hfresh ht
    unfold compressSections
    simp only [compressRows_eq]
    obtain ⟨hrows, hestimate⟩ := ih hrest (now.setRows s ((now.rows s).map shownMemory))
      (estimate + ((now.rows s).map growth).sum)
    constructor
    · intro t
      rw [hrows, ContextPack.rows_setRows]
      by_cases hsame : t = s
      · subst hsame
        simp [hfresh]
      · simp [hsame]
    · rw [hestimate, hothers, List.flatMap_cons, List.map_append, List.sum_append, add_assoc]

theorem compressSections_frame (sections : List PackSection) (now : ContextPack) (estimate : Int) :
    (compressSections sections now estimate).1.citations = now.citations ∧
      (compressSections sections now estimate).1.control = now.control := by
  induction sections generalizing now estimate with
  | nil => exact ⟨rfl, rfl⟩
  | cons s rest ih =>
    unfold compressSections
    obtain ⟨hcitations, hcontrol⟩ := ih (now.setRows s (compressRows (now.rows s) estimate).1) _
    exact ⟨hcitations.trans (ContextPack.citations_setRows _ _ _),
      hcontrol.trans (ContextPack.control_setRows _ _ _)⟩

/-! ## The whole of `EnforceBudget` -/

/-- The references that `EnforceBudget` leaves. -/
def keptRefs (sorting : SliceSort) (pack : ContextPack) (candidates : List Candidate) (budget : Int) : List Ref :=
  fitting (refTokens pack) budget (sorting.sort (refsOf pack candidates))

/-- The memories under these references, section by section. -/
def memoriesUnder (pack : ContextPack) (refs : List Ref) : List Memory :=
  pack.memories.filter fun mem => mem.id ∈ refs.map Ref.id

/-- The tokens of some memories. -/
def contentTokens (mems : List Memory) : Nat := (mems.map fun mem => estimateTokens mem.content).sum

variable {sorting : SliceSort} {budget : Int}

theorem flatMap_rowsUnder (refs : List Ref) :
    PackSection.all.flatMap (rowsUnder pack refs) = memoriesUnder pack refs := by
  rw [memoriesUnder, ContextPack.memories, List.filter_flatMap]
  rfl

theorem sublist_keptRefs : (keptRefs sorting pack candidates budget).Sublist
    (sorting.sort (refsOf pack candidates)) :=
  (fitting_suffix _).sublist

theorem nodup_sorted (h : pack.Distinct) : ((sorting.sort (refsOf pack candidates)).map Ref.id).Nodup := by
  rw [((sorting.perm (refsOf pack candidates)).map Ref.id).nodup_iff, ids_refsOf]
  exact h

/-- References and the memories under them have the same ids. -/
theorem ids_memoriesUnder (h : pack.Distinct) {refs : List Ref}
    (hrefs : refs.Sublist (sorting.sort (refsOf pack candidates))) :
    ((memoriesUnder pack refs).map Memory.id).Perm (refs.map Ref.id) := by
  refine (List.perm_ext_iff_of_nodup (h.sublist (List.filter_sublist.map Memory.id))
    ((nodup_sorted h).sublist (hrefs.map Ref.id))).mpr fun id => ?_
  constructor
  · intro hid
    obtain ⟨mem, hmem, rfl⟩ := List.mem_map.mp hid
    simpa using (List.mem_filter.mp hmem).2
  · intro hid
    have hall : id ∈ pack.memories.map Memory.id := by
      rw [← ids_refsOf pack candidates]
      exact ((sorting.perm _).map Ref.id).mem_iff.mp ((hrefs.map Ref.id).subset hid)
    obtain ⟨mem, hmem, rfl⟩ := List.mem_map.mp hall
    exact List.mem_map_of_mem (List.mem_filter.mpr ⟨hmem, by simpa using hid⟩)

/-- The tokens of a memory by its id. -/
def idTokens (pack : ContextPack) (id : String) : Nat :=
  match pack.memories.find? fun mem => mem.id = id with
  | some mem => estimateTokens mem.content
  | none => 0

theorem idTokens_eq (h : pack.Distinct) {mem : Memory} (hmem : mem ∈ pack.memories) :
    idTokens pack mem.id = estimateTokens mem.content := by
  rw [idTokens, find?_distinct h (fun _ hm => hm) hmem]

/-- References count as the memories under them. -/
theorem sum_refTokens (h : pack.Distinct) {refs : List Ref}
    (hrefs : refs.Sublist (sorting.sort (refsOf pack candidates))) :
    (refs.map (refTokens pack)).sum = contentTokens (memoriesUnder pack refs) := by
  have hleft : refs.map (refTokens pack) = (refs.map Ref.id).map (idTokens pack) := by
    rw [List.map_map]
    apply List.map_congr_left
    intro ref href
    obtain ⟨mem, hmem, hid⟩ := mem_refsOf ((sorting.perm _).mem_iff.mp (hrefs.subset href))
    have htokens := refTokens_eq h hmem ref.score
    rw [hid] at htokens
    rw [Function.comp_apply, ← hid, idTokens_eq h (ContextPack.mem_memories.mpr ⟨_, hmem⟩)]
    exact htokens
  have hright : (memoriesUnder pack refs).map (fun mem => estimateTokens mem.content) =
      ((memoriesUnder pack refs).map Memory.id).map (idTokens pack) := by
    rw [List.map_map]
    apply List.map_congr_left
    intro mem hmem
    exact (idTokens_eq h (List.mem_of_mem_filter hmem)).symm
  rw [contentTokens, hleft, hright]
  exact ((ids_memoriesUnder h hrefs).map (idTokens pack)).sum_eq.symm

/-- All references cover all memories. -/
theorem memoriesUnder_sorted : memoriesUnder pack (sorting.sort (refsOf pack candidates)) = pack.memories := by
  apply List.filter_eq_self.mpr
  intro mem hmem
  have hid : mem.id ∈ (refsOf pack candidates).map Ref.id := by
    rw [ids_refsOf]
    exact List.mem_map_of_mem hmem
  simpa using ((sorting.perm _).map Ref.id).mem_iff.mpr hid

theorem rowsUnder_sorted (s : PackSection) : rowsUnder pack (sorting.sort (refsOf pack candidates)) s = pack.rows s := by
  apply List.filter_eq_self.mpr
  intro mem hmem
  have hid : mem.id ∈ (refsOf pack candidates).map Ref.id := by
    rw [ids_refsOf]
    exact List.mem_map_of_mem (ContextPack.mem_memories.mpr ⟨s, hmem⟩)
  simpa using ((sorting.perm _).map Ref.id).mem_iff.mpr hid

/-- What a pack is after it was trimmed. -/
structure Trimmed (pack : ContextPack) (refs : List Ref) (out : ContextPack) : Prop where
  rows : ∀ s, out.rows s = (rowsUnder pack refs s).map shownMemory
  estimate : out.tokenEstimate = contentTokens (memoriesUnder pack refs) + ((memoriesUnder pack refs).map growth).sum
  citations : out.citations = pack.citations
  control : out.control = pack.control

/-- `EnforceBudget` on a pack whose estimate counts its memories and is over the budget. -/
theorem trimmed_enforceBudget (h : pack.Distinct) (hestimate : pack.tokenEstimate = contentTokens pack.memories)
    (hbudget : 0 < budget) (hover : budget < pack.tokenEstimate) :
    Trimmed pack (keptRefs sorting pack candidates budget) (enforceBudget sorting pack candidates budget) := by
  have hsum : pack.tokenEstimate = (((sorting.sort (refsOf pack candidates)).map (refTokens pack)).sum : Nat) := by
    rw [hestimate, sum_refTokens h (List.Sublist.refl _), memoriesUnder_sorted]
  have hlength : (refsOf pack candidates).length = (sorting.sort (refsOf pack candidates)).length :=
    (sorting.perm _).length_eq.symm
  have hvictims : ∀ v ∈ sorting.sort (refsOf pack candidates), ∃ mem ∈ pack.rows v.inSection, mem.id = v.id :=
    fun v hv => mem_refsOf ((sorting.perm _).mem_iff.mp hv)
  obtain ⟨hrows, hleft⟩ := dropVictims_spec h budget (nodup_sorted h) hvictims (fun s => (rowsUnder_sorted s).symm)
  obtain ⟨hcitations, hcontrol⟩ := dropVictims_frame budget (sorting.sort (refsOf pack candidates)) pack
    pack.tokenEstimate (refsOf pack candidates).length
  rw [← hsum, ← hlength] at hrows hleft
  unfold enforceBudget
  rw [if_neg (by omega)]
  simp only
  generalize dropVictims budget (sorting.sort (refsOf pack candidates)) pack pack.tokenEstimate
    (refsOf pack candidates).length = dropped at hrows hleft hcitations hcontrol
  obtain ⟨hshown, hfinal⟩ := compressSections_spec PackSection.all (by decide) dropped.1 dropped.2
  obtain ⟨hcitations', hcontrol'⟩ := compressSections_frame PackSection.all dropped.1 dropped.2
  have hall : PackSection.all.flatMap dropped.1.rows =
      memoriesUnder pack (keptRefs sorting pack candidates budget) := by
    rw [← flatMap_rowsUnder]
    exact List.flatMap_congr fun s _ => hrows s
  refine ⟨fun s => ?_, ?_, hcitations'.trans hcitations, hcontrol'.trans hcontrol⟩
  · have hin : s ∈ PackSection.all := by cases s <;> decide
    have hout := hshown s
    rw [if_pos hin, hrows] at hout
    refine Eq.trans ?_ hout
    cases s <;> rfl
  · change (compressSections PackSection.all dropped.1 dropped.2).2 = _
    rw [hfinal, hall, hleft]
    exact congrArg (fun n : Nat => (n : Int) + _) (sum_refTokens h sublist_keptRefs)

end AgentMemory
