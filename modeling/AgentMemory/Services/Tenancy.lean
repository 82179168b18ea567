import AgentMemory.Lib.Custody
import AgentMemory.Lib.Parts
import AgentMemory.Services.Requests
import Mathlib.Data.Set.Basic

/-!
# Tenancy

The tenants share the stores, and a store writes by id alone. Ids are what a call holds: those of its own tenant that it
has read, and those that were issued to it. `tenant_alone` says what this keeps apart: in every interleaving the calls
for a tenant go just as they would if there were no other calls at all.
-/

namespace AgentMemory

open Tables Calls

/-! ## What a call holds -/

/-- The call concerns this tenant, and writes under ids that are held. -/
def Call.Mine (tenantID : String) (own : Set String) : Call → Prop
  | .now | .newID _ | .embed _ | .embedBatch _ | .rerank _ _ | .rangeOver _ => True
  | .appendEvent e => e.tenantID = tenantID ∧ e.id ∈ own
  | .extract e => e.tenantID = tenantID
  | .list q | .searchByText q | .searchKeywords q => q.tenantID = tenantID
  | .searchVectors q => q.tenantID = tenantID
  | .get t _ | .delete t _ | .deleteTraces t _ => t = tenantID
  | .upsert m => m.tenantID = tenantID ∧ m.id ∈ own
  | .upsertVectors items => ∀ item ∈ items, item.id ∈ own ∧ payloadAt item.payload "tenant_id" = tenantID
  | .deleteVectors ids => ∀ id ∈ ids, id ∈ own
  | .indexKeyword doc => doc.id ∈ own ∧ payloadAt doc.payload "tenant_id" = tenantID
  | .upsertNode node => node.id ∈ own ∧ payloadAt node.payload "tenant_id" = tenantID
  | .upsertEdge edge => edge.fromID ∈ own
  | .traverse q => q.startID ∈ own
  | .saveTrace trace => trace.tenantID = tenantID
  | .appendReceipt entry => entry.tenantID = tenantID

/-- What is read is the tenant's, and a map is ranged over by its keys. -/
def Call.Replies (tenantID : String) : (c : Call) → Except Err (Resp c) → Prop
  | .get _ _, .ok m => m.tenantID = tenantID
  | .list _, .ok out => ∀ m ∈ out, m.tenantID = tenantID
  | .searchByText _, .ok out => ∀ m ∈ out, m.tenantID = tenantID
  | .extract _, .ok out => ∀ m ∈ out, m.tenantID = tenantID
  | .rangeOver keys, .ok out => out.Perm keys
  | _, _ => True

/-- The ids of some memories. -/
def memoryIDs (mems : List Memory) : Set String := { id | ∃ m ∈ mems, m.id = id }

/-- The ids that an answer issues. -/
def Call.issued : (c : Call) → Except Err (Resp c) → Set String
  | .newID _, .ok id => {id}
  | .extract _, .ok out => memoryIDs out
  | _, _ => ∅

/-- The ids that an answer brings. -/
def Call.gained : (c : Call) → Except Err (Resp c) → Set String
  | .newID _, .ok id => {id}
  | .extract _, .ok out => memoryIDs out
  | .get _ _, .ok m => {m.id}
  | .list _, .ok out => memoryIDs out
  | .searchByText _, .ok out => memoryIDs out
  | .delete _ id, .ok _ => {id}
  | _, _ => ∅

/-- What a call for a tenant does with the ids it holds. -/
def custody (tenantID : String) : Custody Call Resp Err (Set String) where
  may := Call.Mine tenantID
  seen := fun _ => Call.Replies tenantID
  gain := fun own c r => own ∪ c.gained r
  le_gain := fun _ _ _ => Set.subset_union_left

/-- A program for a tenant that keeps to it. -/
abbrev KeepsTo {α : Type} (tenantID : String) (post : Set String → α → Prop) (p : Go α) (own : Set String) : Prop :=
  p.Within (custody tenantID) post own

/-- A memory of the tenant, under an id that is held. -/
structure Memory.IsMine (tenantID : String) (own : Set String) (m : Memory) : Prop where
  tenant : m.tenantID = tenantID
  id : m.id ∈ own

variable {t : String} {own own' : Set String}

theorem Memory.IsMine.mono {m : Memory} (h : m.IsMine t own) (hle : own ⊆ own') : m.IsMine t own' :=
  ⟨h.tenant, hle h.id⟩

theorem isMine_of_replies {mems : List Memory} (h : ∀ m ∈ mems, m.tenantID = t) :
    ∀ m ∈ mems, m.IsMine t (own ∪ memoryIDs mems) :=
  fun m hm => ⟨h m hm, .inr ⟨m, hm, rfl⟩⟩

/-! ## The services keep to their tenant -/

theorem keeps_ignore {c : Call} (h : c.Mine t own) :
    KeepsTo t (fun own' _ => own ⊆ own') (Prog.ignore c : Go Unit) own :=
  ⟨h, fun _ _ => Set.subset_union_left⟩

theorem keeps_perform {c : Call} (h : c.Mine t own) : KeepsTo t (fun _ _ => True) (ask c) own := by
  refine ⟨h, fun r _ => ?_⟩
  cases r <;> trivial

theorem keeps_indexMemory {mem : Memory} (h : mem.IsMine t own) :
    KeepsTo t (fun _ _ => True) (indexMemory mem) own := by
  refine within_perform_bind trivial fun vec _ => keeps_perform ?_
  intro item hitem
  obtain rfl := List.mem_singleton.mp hitem
  exact ⟨.inl h.id, h.tenant⟩

theorem keeps_indexMemories {mems : List Memory} (h : ∀ m ∈ mems, m.IsMine t own) :
    KeepsTo t (fun own' _ => own ⊆ own') (indexMemories mems) own := by
  unfold indexMemories
  split
  · exact Set.Subset.rfl
  · refine within_perform_bind trivial fun vectors _ => ?_
    have hitems : (Call.upsertVectors (mems.zipWith vectorItem vectors)).Mine t (own ∪ ∅) := by
      intro item hitem
      rw [← List.map_uncurry_zip_eq_zipWith, List.mem_map] at hitem
      obtain ⟨⟨mem, vec⟩, hpair, rfl⟩ := hitem
      have hmine := h mem (List.of_mem_zip hpair).1
      exact ⟨.inl hmine.id, hmine.tenant⟩
    refine ⟨hitems, fun r _ => ?_⟩
    cases r with
    | ok _ => exact Set.subset_union_left.trans Set.subset_union_left
    | error _ => trivial

theorem keeps_upsertNodes {mems : List Memory} (h : ∀ m ∈ mems, m.IsMine t own) :
    KeepsTo t (fun _ _ => True) (upsertNodes mems) own := by
  induction mems generalizing own with
  | nil => trivial
  | cons mem rest ih =>
    obtain ⟨hmem, hrest⟩ := List.forall_mem_cons.mp h
    refine within_perform_bind ⟨hmem.id, hmem.tenant⟩ fun _ _ => ?_
    exact ih fun m hm => (hrest m hm).mono Set.subset_union_left

theorem keeps_delete {req : DeletionRequest} (h : req.tenantID = t) :
    KeepsTo t (fun own' _ => own ⊆ own') (delete req) own := by
  refine within_perform_bind h fun _ _ => ?_
  refine within_ignore_bind (fun id hid => .inr (List.mem_singleton.mp hid)) fun own₁ h₁ => ?_
  refine within_ignore_bind h fun own₂ h₂ => ?_
  refine within_perform_bind trivial fun _ _ => ?_
  refine within_perform_bind trivial fun _ _ => ?_
  refine within_ignore_bind h fun own₃ h₃ => ?_
  refine within_perform_bind trivial fun _ _ => ?_
  have hle : own ⊆ own₃ := ((Set.subset_union_left.trans h₁).trans h₂).trans
    ((Set.subset_union_left.trans Set.subset_union_left).trans h₃)
  exact hle.trans Set.subset_union_left

theorem keeps_redact {tenantID memoryID reason : String} (h : tenantID = t) :
    KeepsTo t (fun _ _ => True) (redact redactPII tenantID memoryID reason) own := by
  refine within_perform_bind h fun mem hmem => ?_
  refine within_perform_bind trivial fun now _ => ?_
  have hmine : mem.IsMine t (own ∪ {mem.id} ∪ ∅) := ⟨hmem, .inl (.inr rfl)⟩
  unfold redactCopy
  dsimp only
  split
  · have hwrite : ∀ content summary, (redacted mem content summary now).IsMine t (own ∪ {mem.id} ∪ ∅) :=
      fun _ _ => ⟨hmine.tenant, hmine.id⟩
    refine within_perform_bind ⟨(hwrite _ _).tenant, (hwrite _ _).id⟩ fun _ _ => ?_
    exact within_bind (keeps_indexMemory ((hwrite _ _).mono Set.subset_union_left)) fun _ _ _ _ => trivial
  · trivial

theorem keeps_sweepOne {pol : RetentionPolicy} {now : Time} {mem : Memory} (h : mem.IsMine t own) :
    KeepsTo t (fun own' _ => own ⊆ own') (sweepOne pol t now mem) own := by
  unfold sweepOne
  split
  · exact within_bind (keeps_delete rfl) fun _ _ _ hle => hle
  · refine ⟨⟨h.tenant, h.id⟩, fun r _ => ?_⟩
    cases r with
    | ok _ => exact Set.subset_union_left
    | error _ => trivial

theorem keeps_sweepLoop {pol : RetentionPolicy} {now : Time} {mems : List Memory} (h : ∀ m ∈ mems, m.IsMine t own)
    (affected : Nat) : KeepsTo t (fun _ _ => True) (sweepLoop pol t now affected mems) own := by
  induction mems generalizing own affected with
  | nil => trivial
  | cons mem rest ih =>
    obtain ⟨hmem, hrest⟩ := List.forall_mem_cons.mp h
    rw [sweepLoop]
    split
    · exact ih hrest affected
    split
    · exact ih hrest affected
    exact within_bind (keeps_sweepOne hmem) fun own' _ hle hpost => ih (fun m hm => (hrest m hm).mono hle) _

theorem keeps_sweep (pol : RetentionPolicy) : KeepsTo t (fun _ _ => True) (sweep t pol) own := by
  refine within_perform_bind trivial fun now _ => ?_
  exact within_perform_bind rfl fun mems hmems => keeps_sweepLoop (isMine_of_replies hmems) 0

theorem keeps_linkRelation (d : Deployment) {source target : Memory} (relation : RelationType)
    (h : source.IsMine t own) : KeepsTo t (fun own' _ => own ⊆ own') (linkRelation d source target relation) own := by
  unfold linkRelation
  split
  · exact Set.Subset.rfl
  · exact keeps_ignore h.id

theorem keeps_consolidate (d : Deployment) {candidate : Memory} (h : candidate.IsMine t own) :
    KeepsTo t (fun own' result => own ⊆ own' ∧ result.memory.IsMine t own') (consolidate d candidate) own := by
  refine within_perform_bind trivial fun now _ => ?_
  refine within_perform_bind h.tenant fun neighbors hneighbors => ?_
  have hcandidate : candidate.IsMine t (own ∪ ∅ ∪ memoryIDs neighbors) :=
    h.mono (Set.subset_union_left.trans Set.subset_union_left)
  have hle : own ⊆ own ∪ ∅ ∪ memoryIDs neighbors := Set.subset_union_left.trans Set.subset_union_left
  change KeepsTo t _ (consolidateLoop d now candidate neighbors) (own ∪ ∅ ∪ memoryIDs neighbors)
  rw [consolidateLoop_eq]
  split
  · exact ⟨hle, hcandidate⟩
  next n hn =>
  have hmine : n.IsMine t (own ∪ ∅ ∪ memoryIDs neighbors) :=
    isMine_of_replies hneighbors n (List.mem_of_find?_eq_some hn)
  generalize own ∪ ∅ ∪ memoryIDs neighbors = own₁ at *
  unfold settle
  split
  · have hmerged : (merge n candidate now).IsMine t own₁ := ⟨hmine.tenant, hmine.id⟩
    refine within_perform_bind ⟨hmerged.tenant, hmerged.id⟩ fun _ _ => ?_
    exact ⟨hle.trans Set.subset_union_left, hmerged.mono Set.subset_union_left⟩
  split
  · refine within_perform_bind trivial fun vid _ => ?_
    refine within_perform_bind ⟨hmine.tenant, .inl hmine.id⟩ fun _ _ => ?_
    have hle₂ : own₁ ⊆ own₁ ∪ {vid} ∪ ∅ := Set.subset_union_left.trans Set.subset_union_left
    refine within_bind (keeps_linkRelation d _ (hcandidate.mono hle₂)) fun own₃ _ _ h₃ => ?_
    exact ⟨(hle.trans hle₂).trans h₃, hcandidate.mono (hle₂.trans h₃)⟩
  · refine within_bind (keeps_linkRelation d _ hcandidate) fun own₂ _ _ h₂ => ?_
    exact ⟨hle.trans h₂, hcandidate.mono h₂⟩

theorem keeps_compactionLoop (d : Deployment) {mems : List Memory} (h : ∀ m ∈ mems, m.IsMine t own) :
    KeepsTo t (fun _ _ => True) (compactionLoop d mems) own := by
  induction mems generalizing own with
  | nil => trivial
  | cons mem rest ih =>
    obtain ⟨hmem, hrest⟩ := List.forall_mem_cons.mp h
    rw [compactionLoop]
    refine within_perform_bind trivial fun now _ => ?_
    have hle : own ⊆ own ∪ ∅ := Set.subset_union_left
    split
    · exact ih fun m hm => (hrest m hm).mono hle
    · refine within_bind (keeps_consolidate d (hmem.mono hle)) fun own' _ _ hresult => ?_
      exact ih fun m hm => (hrest m hm).mono (hle.trans hresult.1)

theorem keeps_compaction (d : Deployment) : KeepsTo t (fun _ _ => True) (compaction d t) own :=
  within_perform_bind rfl fun _ hmems => keeps_compactionLoop d (isMine_of_replies hmems)

theorem keeps_storeCandidate (d : Deployment) {mem : Memory} (h : mem.IsMine t own) :
    KeepsTo t (fun own' stored => own ⊆ own' ∧ stored.IsMine t own') (storeCandidate d mem) own := by
  unfold storeCandidate
  split
  · refine within_bind (keeps_consolidate d h) fun own' result _ hresult => ?_
    refine within_perform_bind ⟨hresult.2.tenant, hresult.2.id⟩ fun _ _ => ?_
    exact ⟨hresult.1.trans Set.subset_union_left, hresult.2.mono Set.subset_union_left⟩
  · refine within_perform_bind ⟨h.tenant, h.id⟩ fun _ _ => ?_
    exact ⟨Set.subset_union_left, h.mono Set.subset_union_left⟩

theorem keeps_indexKeywords (d : Deployment) {mem : Memory} (h : mem.IsMine t own) :
    KeepsTo t (fun own' _ => own ⊆ own') (indexKeywords d mem) own := by
  unfold indexKeywords
  split
  · exact keeps_ignore ⟨h.id, h.tenant⟩
  · exact Set.Subset.rfl

theorem keeps_ingestLoop (d : Deployment) {created candidates : List Memory} (hcreated : ∀ m ∈ created, m.IsMine t own)
    (h : ∀ m ∈ candidates, m.IsMine t own) :
    KeepsTo t (fun own' out => ∀ m ∈ out, m.IsMine t own') (ingestLoop d created candidates) own := by
  induction candidates generalizing own created with
  | nil => exact hcreated
  | cons mem rest ih =>
    obtain ⟨hmem, hrest⟩ := List.forall_mem_cons.mp h
    rw [ingestLoop]
    split
    · exact ih hcreated hrest
    refine within_bind (keeps_storeCandidate d hmem) fun own₁ stored _ hstored => ?_
    refine within_bind (keeps_indexKeywords d hstored.2) fun own₂ _ _ hle => ?_
    have hle₂ := hstored.1.trans hle
    refine ih (fun m hm => ?_) fun m hm => (hrest m hm).mono hle₂
    rcases List.mem_append.mp hm with hm | hm
    · exact (hcreated m hm).mono hle₂
    · obtain rfl := List.mem_singleton.mp hm
      exact hstored.2.mono hle

theorem keeps_ingest (d : Deployment) {req : IngestRequest} (h : req.tenantID = t) :
    KeepsTo t (fun _ _ => True) (ingest d req) own := by
  refine within_perform_bind trivial fun now _ => ?_
  refine within_perform_bind trivial fun eid _ => ?_
  dsimp only
  split
  · trivial
  refine within_perform_bind ⟨h, .inr rfl⟩ fun _ _ => ?_
  refine within_perform_bind h fun candidates hcandidates => ?_
  have hnone : ∀ m ∈ ([] : List Memory), m.IsMine t (own ∪ ∅ ∪ {eid} ∪ ∅ ∪ memoryIDs candidates) :=
    fun m hm => absurd hm List.not_mem_nil
  refine within_bind (keeps_ingestLoop d hnone (isMine_of_replies hcandidates)) fun own₁ created _ hcreated => ?_
  suffices hwrites : KeepsTo t (fun _ _ => True) _ own₁ from within_bind hwrites fun _ _ _ _ => trivial
  refine within_bind (keeps_indexMemories hcreated) fun own₂ _ _ hle => ?_
  split
  · exact keeps_upsertNodes fun m hm => (hcreated m hm).mono hle
  · trivial

theorem keeps_createArtifact {α : Type} {idPrefix : String}
    {make : Time → String → Except Err (Written α × Written Memory)}
    (h : ∀ now id artifact mem, make now id = .ok (artifact, mem) → StoredArtifact t id mem.value) :
    KeepsTo t (fun _ _ => True) (createArtifact idPrefix make) own := by
  refine within_perform_bind trivial fun now _ => ?_
  refine within_perform_bind trivial fun eid _ => ?_
  split
  · trivial
  · next artifact mem hmake =>
    have hstored := h now eid artifact mem hmake
    exact within_perform_bind ⟨hstored.tenantID, .inr hstored.id⟩ fun _ _ => trivial

theorem keeps_assembleControlContext (json : ArtifactJSON) (lower : Char → Char) {req : ControlRequest}
    (h : req.tenantID = t) : KeepsTo t (fun _ _ => True) (assembleControlContext json lower req) own := by
  have hspec : KeepsTo t (fun _ _ => True) (selectSpec json req) own := by
    unfold selectSpec
    split
    · refine ⟨h, fun r _ => ?_⟩
      cases r <;> trivial
    · refine ⟨h, fun r _ => ?_⟩
      cases r <;> trivial
  have hplan : ∀ own', KeepsTo t (fun _ _ => True) (selectPlan json req) own' := by
    intro own'
    unfold selectPlan
    split
    · refine ⟨h, fun r _ => ?_⟩
      cases r <;> trivial
    · refine ⟨h, fun r _ => ?_⟩
      cases r <;> trivial
  exact within_bind hspec fun own' _ _ _ => within_bind (hplan own') fun _ _ _ _ => trivial

/-! ## Retrieval -/

/-- The candidates of a map are the tenant's. -/
def CandidatesMine (t : String) (own : Set String) (candidates : Candidates) : Prop :=
  ∀ c ∈ candidates.rows, c.memory.IsMine t own

theorem CandidatesMine.mono {candidates : Candidates} (h : CandidatesMine t own candidates) (hle : own ⊆ own') :
    CandidatesMine t own' candidates :=
  fun c hc => (h c hc).mono hle

theorem CandidatesMine.upsert {candidates : Candidates} {c : Candidate} (h : CandidatesMine t own candidates)
    (hc : c.memory.IsMine t own) : CandidatesMine t own (candidates.upsert c) := by
  intro c' hc'
  rcases Table.mem_upsert.mp hc' with rfl | hold
  · exact hc
  · exact h c' hold.1

/-- A channel that finds candidates and keeps those there are. -/
abbrev FindsOwn (t : String) (p : Go Candidates) (own : Set String) : Prop :=
  KeepsTo t (fun own' candidates => own ⊆ own' ∧ CandidatesMine t own' candidates) p own

theorem finding_of_le {p : Go Candidates} (hle : own ⊆ own') (h : FindsOwn t p own') :
    KeepsTo t (fun own₂ candidates => own ⊆ own₂ ∧ CandidatesMine t own₂ candidates) p own' :=
  within_mono (fun _ _ hpost => ⟨hle.trans hpost.1, hpost.2⟩) h

theorem finding_mergeResults (ch : Channel) {q : Query} (hq : q.tenantID = t) {results : List (String × ℚ)}
    {candidates : Candidates} (hc : CandidatesMine t own candidates) :
    FindsOwn t (mergeResults ch q results candidates) own := by
  induction results generalizing own candidates with
  | nil => exact ⟨Set.Subset.rfl, hc⟩
  | cons result rest ih =>
    refine ⟨hq, fun r hr => ?_⟩
    have hle : own ⊆ own ∪ (Call.get q.tenantID result.1).gained r := Set.subset_union_left
    refine finding_of_le hle ?_
    cases r with
    | error e => exact ih (hc.mono hle)
    | ok mem =>
      have hmine : mem.IsMine t (own ∪ {mem.id}) := ⟨hr, .inr rfl⟩
      have hfound : (ch.candidate candidates result.2 mem).memory.IsMine t (own ∪ {mem.id}) := by
        unfold Channel.candidate
        cases hfind : candidates.find? mem.id with
        | none => exact hmine
        | some existing => exact (hc existing (Table.find?_eq_some.mp hfind).1).mono hle
      change FindsOwn t (if mem.isActive q.now = true then _ else _) (own ∪ {mem.id})
      split
      · exact ih ((hc.mono hle).upsert hfound)
      · exact ih (hc.mono hle)

theorem finding_textSearch {q : Query} (hq : q.tenantID = t) {candidates : Candidates}
    (hc : CandidatesMine t own candidates) : FindsOwn t (textSearch q candidates) own := by
  refine within_perform_bind hq fun textual htextual => ?_
  have hle : own ⊆ own ∪ memoryIDs textual := Set.subset_union_left
  have hfound : ∀ mem ∈ textual.filter (·.isActive q.now), mem.IsMine t (own ∪ memoryIDs textual) := fun mem hmem =>
    isMine_of_replies htextual mem (List.mem_filter.mp hmem).1
  have hstart := hc.mono hle
  refine ⟨hle, ?_⟩
  change CandidatesMine t (own ∪ memoryIDs textual) _
  clear hc htextual
  generalize textual.filter (·.isActive q.now) = found at hfound
  generalize own ∪ memoryIDs textual = own₁ at *
  induction found generalizing candidates with
  | nil => exact hstart
  | cons mem rest ih =>
    obtain ⟨hmem, hrest⟩ := List.forall_mem_cons.mp hfound
    exact ih (hstart.upsert (c := textCandidate mem) hmem) hrest

theorem finding_expandSeeds {q : Query} (hq : q.tenantID = t) (depth : Int) {seeds : List String}
    (hseeds : ∀ seedID ∈ seeds, seedID ∈ own) {candidates : Candidates} (hc : CandidatesMine t own candidates) :
    FindsOwn t (expandSeeds q depth seeds candidates) own := by
  induction seeds generalizing own candidates with
  | nil => exact ⟨Set.Subset.rfl, hc⟩
  | cons seedID rest ih =>
    obtain ⟨hseed, hrest⟩ := List.forall_mem_cons.mp hseeds
    refine within_perform_bind hseed fun results _ => ?_
    have hle : own ⊆ own ∪ ∅ := Set.subset_union_left
    refine within_bind (finding_mergeResults graphChannel hq (hc.mono hle)) fun own₁ candidates₁ _ h₁ => ?_
    have hle₁ := hle.trans h₁.1
    exact finding_of_le hle₁ (ih (fun s hs => hle₁ (hrest s hs)) h₁.2)

theorem finding_planned {use : Bool} {search : Candidates → Go Candidates} {candidates : Candidates}
    (hc : CandidatesMine t own candidates) (hsearch : FindsOwn t (search candidates) own) :
    FindsOwn t (planned use search candidates) own := by
  unfold planned
  split
  · exact hsearch
  · exact ⟨Set.Subset.rfl, hc⟩

theorem finding_gather (p : SearchPlan) {q : Query} (hq : q.tenantID = t) (limit : Nat) :
    FindsOwn t (gather p q limit) own := by
  have hempty : CandidatesMine t own .empty := fun _ hc => absurd hc List.not_mem_nil
  refine within_bind (finding_planned hempty (finding_textSearch hq hempty)) fun own₁ cs₁ _ h₁ => ?_
  refine finding_of_le h₁.1 (within_bind (finding_planned h₁.2 ?_) fun own₂ cs₂ _ h₂ => ?_)
  · refine within_perform_bind trivial fun vec _ => ?_
    refine within_perform_bind hq fun results _ => ?_
    have hle : own₁ ⊆ own₁ ∪ ∅ ∪ ∅ := Set.subset_union_left.trans Set.subset_union_left
    exact finding_of_le hle (finding_mergeResults vectorChannel hq (h₁.2.mono hle))
  refine finding_of_le h₂.1 (within_bind (finding_planned h₂.2 ?_) fun own₃ cs₃ _ h₃ => ?_)
  · refine within_perform_bind hq fun results _ => ?_
    have hle : own₂ ⊆ own₂ ∪ ∅ := Set.subset_union_left
    exact finding_of_le hle (finding_mergeResults keywordChannel hq (h₂.2.mono hle))
  refine finding_of_le h₃.1 (finding_planned h₃.2 ?_)
  refine within_perform_bind trivial fun seeds hseeds => ?_
  have hle : own₃ ⊆ own₃ ∪ ∅ := Set.subset_union_left
  refine finding_of_le hle (finding_expandSeeds hq _ (fun seedID hseed => ?_) (h₃.2.mono hle))
  obtain ⟨c, hc, rfl⟩ := List.mem_map.mp (hseeds.mem_iff.mp hseed)
  exact hle (h₃.2 c hc).id

theorem keeps_retrieve (d : Deployment) {query : Query} (h : query.tenantID = t) :
    KeepsTo t (fun _ _ => True) (retrieve d query) own := by
  have hnow : KeepsTo t (fun _ _ => True) (queryNow query) own := by
    unfold queryNow
    split
    · exact keeps_perform trivial
    · trivial
  refine within_bind hnow fun own₁ now _ _ => ?_
  have hq : (applyScopeFilters { query with now := now }).tenantID = t := h
  dsimp only
  generalize applyScopeFilters { query with now := now } = q at hq
  refine within_bind (finding_gather _ hq _) fun own₂ candidates _ _ => ?_
  refine within_perform_bind trivial fun order _ => ?_
  have hrerank : ∀ own', KeepsTo t (fun _ _ => True) (rerank q (rank d q candidates order)) own' := by
    refine fun own' => ⟨trivial, fun r _ => ?_⟩
    cases r <;> trivial
  refine within_bind (hrerank _) fun own₃ reranked _ _ => ?_
  have htrace : ∀ selected, KeepsTo t (fun _ trace => trace.tenantID = t) (buildTrace q selected) own₃ := fun _ =>
    within_perform_bind trivial fun _ _ => within_perform_bind trivial fun _ _ => hq
  refine within_bind (htrace _) fun own₄ trace _ hmine => ?_
  exact within_perform_bind hmine fun _ _ => trivial

theorem keeps_program (d : Deployment) (json : ArtifactCodec) (call : ServiceCall) :
    KeepsTo call.tenantID (fun _ _ => True) (call.program d json) own := by
  cases call with
  | ingest req => exact within_bind (keeps_ingest d rfl) fun _ _ _ _ => trivial
  | retrieve query => exact within_bind (keeps_retrieve d rfl) fun _ _ _ _ => trivial
  | delete req => exact within_bind (keeps_delete rfl) fun _ _ _ _ => trivial
  | redact tenantID memoryID reason => exact within_bind (keeps_redact rfl) fun _ _ _ _ => trivial
  | createSpec req =>
    exact within_bind (keeps_createArtifact fun _ _ _ _ => storedArtifact_createSpec) fun _ _ _ _ => trivial
  | createPlan req =>
    exact within_bind (keeps_createArtifact fun _ _ _ _ => storedArtifact_createPlan) fun _ _ _ _ => trivial
  | controlContext req => exact within_bind (keeps_assembleControlContext _ _ rfl) fun _ _ _ _ => trivial
  | sweep tenantID pol => exact within_bind (keeps_sweep pol) fun _ _ _ _ => trivial
  | compaction tenant => exact within_bind (keeps_compaction d) fun _ _ _ _ => trivial

end AgentMemory
