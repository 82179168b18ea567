import AgentMemory.Ingestion.Distillation
import AgentMemory.Retrieval.Answers
import AgentMemory.Services.Requests

/-!
# Credentials

A memory whose content names a credential is distilled with a label that keeps `Retrieve` from returning it. All the
services change memories side by side: a merge keeps the content and the labels of one of the two, a redaction masks a
part of the content and drops another label, a specification or a plan is stored without labels. A program is careful
that writes a memory only as it has read or distilled it, up to what keeps the label in place;
`credentials_not_retrieved` holds in every interleaving of the services, since all of them are careful.
-/

namespace AgentMemory

open Tables Calls Regex Occurrences

/-- A specification or a plan (`agentic/service.go:257-302`). -/
def Memory.isArtifact (m : Memory) : Bool := (m.metadata.lookup "agentic_kind").isSome

/-- A memory that names a credential is labelled so, unless it is an artifact. -/
def Memory.Contained (lower : Char → Char) (m : Memory) : Prop :=
  namesCredential lower m.content.toList = true → .safetyCredential ∈ m.safetyLabels ∨ m.isArtifact = true

variable {lower : Char → Char}

theorem Memory.Contained.of_eq {m m' : Memory} (h : m.Contained lower) (hcontent : m'.content = m.content)
    (hlabels : m'.safetyLabels = m.safetyLabels) (hkind : m'.isArtifact = m.isArtifact) : m'.Contained lower := by
  rw [Memory.Contained, hcontent, hlabels, hkind]
  exact h

/-! ## What keeps the label in place -/

theorem isArtifact_stored (b : Backend) (old : Option Memory) (m : Memory) :
    (b.stored old m).isArtifact = m.isArtifact := by
  have hencoded : m.encoded.isArtifact = m.isArtifact := by
    rw [Memory.isArtifact, lookup_encoded, Option.isSome_map, ← Memory.isArtifact]
  cases b with
  | memory => rfl
  | postgres ts ilike => cases old <;> exact hencoded

theorem contained_stored {m : Memory} (h : m.Contained lower) (b : Backend) (old : Option Memory) :
    (b.stored old m).Contained lower := by
  refine h.of_eq (Backend.stored_content b old m) ?_ (isArtifact_stored b old m)
  cases b <;> cases old <;> rfl

theorem contained_merge {existing : Memory} (h : existing.Contained lower) (incoming : Memory) (now : Time) :
    (merge existing incoming now).Contained lower := h.of_eq rfl rfl rfl

theorem isArtifact_appendVersion (m : Memory) (version : Version) :
    (appendVersion m version).isArtifact = m.isArtifact := by
  have hfilter : (m.metadata.filter (·.1 ≠ "versions")).lookup "agentic_kind" = m.metadata.lookup "agentic_kind" := by
    induction m.metadata with
    | nil => rfl
    | cons kv rest ih =>
      by_cases hversions : kv.1 = "versions"
      · rw [List.filter_cons_of_neg (by simp [hversions]), ih, List.lookup_cons]
        simp [hversions]
      · rw [List.filter_cons_of_pos (by simp [hversions]), List.lookup_cons, List.lookup_cons, ih]
  exact congrArg Option.isSome hfilter

theorem contained_closed {neighbor : Memory} (h : neighbor.Contained lower) (candidate : Memory) (versionID : String)
    (now : Time) : (closed neighbor candidate versionID now).Contained lower :=
  h.of_eq rfl rfl (isArtifact_appendVersion neighbor _)

theorem contained_draft {event : Event} {draft : Draft} (h : draft.Labelled lower) :
    (draft.memory event).Contained lower := fun hnames => .inl (h hnames)

/-! ## Redaction -/

theorem contains_iff (text sub : List Char) : contains text sub = true ↔ sub <:+: text := by
  simp [contains, List.infix_iff_prefix_suffix, List.mem_tails, and_comm]

theorem namesCredential_iff (text : List Char) :
    namesCredential lower text = true ↔ ∃ term ∈ credentialTerms, term.toList <:+: text.map lower := by
  simp [namesCredential, Distillation.containsAny, List.any_eq_true, contains_iff, toLower]

/-- `unicode.ToLower` on ASCII. -/
def AsciiLower (lower : Char → Char) : Prop := ∀ c : Char, c.toNat < 128 → lower c = c.toLower

theorem map_lower_of_ascii (h : AsciiLower lower) {text : List Char} (htext : ∀ c ∈ text, c.toNat < 128) :
    text.map lower = text.map Char.toLower :=
  List.map_congr_left fun c hc => h c (htext c hc)

/-- No marker names a credential, nor is a part of a term the end of one. -/
theorem term_marker {term : String} (hterm : term ∈ credentialTerms) {p : PIIPattern} (hp : p ∈ piiPatterns) :
    '[' ∉ term.toList ∧ ']' ∉ term.toList ∧ (∀ c ∈ "REDACTED:".toList ++ p.kind.toList, c.toNat < 128) ∧
      ¬ term.toList <:+: ("REDACTED:".toList ++ p.kind.toList).map Char.toLower := by
  have hkind : p.kind ∈ ["email", "cpf", "card", "phone"] := by
    simp only [piiPatterns, List.mem_cons, List.not_mem_nil, or_false] at hp
    rcases hp with rfl | rfl | rfl | rfl <;> simp
  have hall : ∀ term ∈ credentialTerms, ∀ kind ∈ ["email", "cpf", "card", "phone"],
      '[' ∉ term.toList ∧ ']' ∉ term.toList ∧
        ("REDACTED:".toList ++ kind.toList).all (fun c => decide (c.toNat < 128)) = true ∧
          contains (("REDACTED:".toList ++ kind.toList).map Char.toLower) term.toList = false := by
    decide
  obtain ⟨hopen, hclose, hascii, hmarker⟩ := hall term hterm p.kind hkind
  refine ⟨hopen, hclose, fun c hc => of_decide_eq_true (List.all_eq_true.mp hascii c hc), fun h => ?_⟩
  exact Bool.false_ne_true (hmarker.symm.trans ((contains_iff _ _).mpr h))

theorem namesCredential_replaceAll (hlower : AsciiLower lower) {p : PIIPattern} (hp : p ∈ piiPatterns)
    {text : List Char} (h : namesCredential lower (replaceAll p.pattern.re (piiMarker p.kind) text) = true) :
    namesCredential lower text = true := by
  obtain ⟨term, hterm, hinfix⟩ := (namesCredential_iff _).mp h
  obtain ⟨hopen, hclose, hascii, hmarker⟩ := term_marker hterm hp
  rw [← map_lower_of_ascii hlower hascii] at hmarker
  have hbracket : lower '[' = '[' ∧ lower ']' = ']' := ⟨hlower '[' (by decide), hlower ']' (by decide)⟩
  have hscan := (scanned_pieces (PII.known_of_mem hp).ne_nil text).gap_isInfix
  refine (namesCredential_iff _).mpr ⟨term, hterm, ?_⟩
  have hgap := infix_map_render (by rwa [hbracket.1]) (by rwa [hbracket.2]) hmarker hinfix
  rcases hgap with hgap | hlast
  · obtain ⟨piece, hpiece, hoccurs⟩ := hgap
    exact hoccurs.trans ((hscan.1 piece hpiece).map lower)
  · exact hlast.trans (hscan.2.map lower)

/-- Masking makes no text name a credential. -/
theorem namesCredential_redactPII (hlower : AsciiLower lower) {text : String}
    (h : namesCredential lower (redactPII text).1.toList = true) : namesCredential lower text.toList = true := by
  have hfold : ∀ patterns : List PIIPattern, (∀ p ∈ patterns, p ∈ piiPatterns) → ∀ state : List Char × Bool,
      namesCredential lower (patterns.foldl redactStep state).1 = true → namesCredential lower state.1 = true := by
    intro patterns
    induction patterns with
    | nil => exact fun _ _ hstate => hstate
    | cons p patterns ih =>
      intro hall state hstate
      obtain ⟨hp, hrest⟩ := List.forall_mem_cons.mp hall
      have hround := ih hrest _ hstate
      unfold redactStep at hround
      split at hround
      · exact namesCredential_replaceAll hlower hp hround
      · exact hround
  refine hfold piiPatterns (fun _ hp => hp) (text.toList, false) ?_
  rw [redactPII, String.toList_ofList] at h
  exact h

theorem contained_redacted (hlower : AsciiLower lower) {mem : Memory} (h : mem.Contained lower) (summary : String)
    (now : Time) : (redacted mem (redactPII mem.content).1 summary now).Contained lower := by
  intro hnames
  refine (h (namesCredential_redactPII hlower hnames)).imp_left fun hlabel => ?_
  exact List.mem_filter.mpr ⟨hlabel, by decide⟩

/-! ## The services are careful -/

/-- The call writes a memory that names a credential without its label, or distills a text that hides one. -/
def Call.Uncovers (lower : Char → Char) : Call → Prop
  | .upsert m => ¬ m.Contained lower
  | .extract e => ¬ Shown lower (Distiller.textOf e)
  | _ => False

/-- The memories of an answer are contained. -/
def RepliesContained (lower : Char → Char) : (c : Call) → Except Err (Resp c) → Prop
  | .get _ _, .ok m => m.Contained lower
  | .list _, .ok out => ∀ m ∈ out, m.Contained lower
  | .searchByText _, .ok out => ∀ m ∈ out, m.Contained lower
  | .extract _, .ok out => ∀ m ∈ out, m.Contained lower
  | .rerank _ candidates, .ok out => ∀ c' ∈ out, ∃ c ∈ candidates, c.RerankOf c'
  | _, _ => True

/-- As long as what it reads is contained, the program uncovers nothing and returns what `post` allows. -/
abbrev Careful {α : Type} (lower : Char → Char) (post : α → Prop) (p : Go α) : Prop :=
  p.Avoids (Call.Uncovers lower) (RepliesContained lower) post

/-- Every memory of a store is contained. -/
def AllContained (lower : Char → Char) (s : MemoryStore) : Prop := ∀ m ∈ s.rows, m.Contained lower

theorem allContained_upsert {b : Backend} {s : MemoryStore} {m : Memory} (hs : AllContained lower s)
    (hm : m.Contained lower) : AllContained lower (b.upsert s m) := by
  intro r hr
  rcases (Backend.mem_upsert b).mp hr with rfl | hold
  · exact contained_stored hm b _
  · exact hs r hold.1

theorem allContained_delete {b : Backend} {s s' : MemoryStore} {tenantID memoryID : String} {now : Time}
    (hs : AllContained lower s) (h : b.delete s tenantID memoryID now = some s') : AllContained lower s' := by
  unfold Backend.delete at h
  split at h
  · cases h
  next mem hfind =>
  obtain ⟨-, h⟩ := Option.ite_none_left_eq_some.mp h
  have hmem := hs mem (Table.find?_eq_some.mp hfind).1
  split at h
  · obtain rfl := Option.some.inj h
    intro r hr
    rcases Table.mem_upsert.mp hr with rfl | hold
    · exact hmem.of_eq rfl rfl rfl
    · exact hs r hold.1
  · obtain rfl := Option.some.inj h
    intro r hr
    rcases Table.mem_upsert.mp hr with rfl | hold
    · exact hmem.of_eq rfl rfl rfl
    · exact hs r hold.1

/-- Stores whose memories are contained answer with contained memories, and a call that uncovers nothing keeps them
so. -/
theorem step_contained {s : Distiller} (hs : s.AnswersShown) {d : Deployment} {c : Call} {w w' : World}
    {r : Except Err (Resp c)} (hc : ¬ c.Uncovers s.lower) (hw : AllContained s.lower w.memories)
    (h : step (d.distilling s.drafts) c w r w') : RepliesContained s.lower c r ∧ AllContained s.lower w'.memories := by
  rcases step_cases h with ⟨a, rfl, ha⟩ | ⟨e, rfl, rfl⟩
  swap
  · exact ⟨by cases c <;> trivial, hw⟩
  cases c with
  | get tenantID memoryID =>
    obtain ⟨hget, rfl⟩ := ha
    exact ⟨hw a (Table.find?_eq_some.mp (Backend.get_eq_some.mp hget).1).1, hw⟩
  | list q =>
    obtain ⟨hlists, rfl⟩ := ha
    exact ⟨fun m hm => hw m (Backend.mem_rows_of_lists hlists hm), hw⟩
  | searchByText q =>
    obtain ⟨hsearch, rfl⟩ := ha
    exact ⟨fun m hm => hw m (textScope_of_searches hsearch hm).1, hw⟩
  | extract e =>
    obtain ⟨ids, -, -, -, rfl, rfl⟩ := ha
    refine ⟨fun m hm => ?_, hw⟩
    obtain ⟨mem, hmem, -, heq⟩ := mem_withIDs hm
    obtain ⟨draft, hdraft, rfl⟩ := List.mem_map.mp hmem
    have hdrafted : (draft.memory e).Contained s.lower :=
      contained_draft (Distiller.labelled_drafts hs (not_not.mp hc) draft hdraft)
    rw [heq]
    exact hdrafted.of_eq rfl rfl rfl
  | upsert m =>
    obtain rfl := ha
    exact ⟨trivial, allContained_upsert hw (not_not.mp hc)⟩
  | delete tenantID memoryID =>
    obtain ⟨now, s', hdelete, rfl⟩ := ha
    exact ⟨trivial, allContained_delete hw hdelete⟩
  | rerank query candidates => exact ⟨ha.1, ha.2 ▸ hw⟩
  | now => exact ⟨trivial, ha.2 ▸ hw⟩
  | newID _ => exact ⟨trivial, ha.2 ▸ hw⟩
  | searchVectors _ => exact ⟨trivial, ha.2 ▸ hw⟩
  | searchKeywords _ => exact ⟨trivial, ha.2 ▸ hw⟩
  | traverse _ => exact ⟨trivial, ha.2 ▸ hw⟩
  | rangeOver _ => exact ⟨trivial, ha.2 ▸ hw⟩
  | _ => exact ⟨trivial, by subst ha; exact hw⟩

theorem careful_of_indexes {α : Type} {p : Go α} (h : Indexes p) : Careful lower (fun _ => True) p := by
  induction p with
  | ret a => trivial
  | fail e => trivial
  | call c k ih =>
    refine ⟨fun hc => ?_, fun r _ => ih r (h.2 r trivial)⟩
    have hindexing := h.1
    cases c <;> simp_all [Call.isIndexing, Call.Uncovers]

theorem careful_delete (req : DeletionRequest) : Careful lower (fun _ => True) (delete req) := by
  refine avoids_perform_bind id fun _ _ => ?_
  refine avoids_bind (avoids_ignore id) fun _ _ => ?_
  refine avoids_bind (avoids_ignore id) fun _ _ => ?_
  refine avoids_perform_bind id fun _ _ => ?_
  refine avoids_perform_bind id fun _ _ => ?_
  refine avoids_bind (avoids_ignore id) fun _ _ => ?_
  exact avoids_perform_bind id fun _ _ => trivial

theorem careful_redact (hlower : AsciiLower lower) (tenantID memoryID reason : String) :
    Careful lower (fun _ => True) (redact redactPII tenantID memoryID reason) := by
  refine avoids_perform_bind id fun mem hmem => ?_
  refine avoids_perform_bind id fun now _ => ?_
  unfold redactCopy
  dsimp only
  split
  · refine avoids_perform_bind (not_not_intro (contained_redacted hlower hmem _ now)) fun _ _ => ?_
    exact avoids_bind (careful_of_indexes (indexes_indexMemory _)) fun _ _ => trivial
  · trivial

theorem careful_sweepOne (pol : RetentionPolicy) (tenantID : String) (now : Time) {mem : Memory}
    (h : mem.Contained lower) : Careful lower (fun _ => True) (sweepOne pol tenantID now mem) := by
  unfold sweepOne
  split
  · exact avoids_bind (careful_delete _) fun _ _ => trivial
  · exact avoids_perform (Call.upsert _) (not_not_intro (h.of_eq rfl rfl rfl))

theorem careful_sweepLoop (pol : RetentionPolicy) (tenantID : String) (now : Time) (affected : Nat)
    (mems : List Memory) (h : ∀ m ∈ mems, m.Contained lower) :
    Careful lower (fun _ => True) (sweepLoop pol tenantID now affected mems) := by
  induction mems generalizing affected with
  | nil => trivial
  | cons mem rest ih =>
    obtain ⟨hmem, hrest⟩ := List.forall_mem_cons.mp h
    rw [sweepLoop]
    split
    · exact ih _ hrest
    split
    · exact ih _ hrest
    exact avoids_bind (careful_sweepOne pol tenantID now hmem) fun _ _ => ih _ hrest

theorem careful_sweep (tenantID : String) (pol : RetentionPolicy) :
    Careful lower (fun _ => True) (sweep tenantID pol) := by
  refine avoids_perform_bind id fun now _ => ?_
  exact avoids_perform_bind id fun mems hmems => careful_sweepLoop _ _ _ _ _ hmems

theorem careful_linkRelation (d : Deployment) (source target : Memory) (relation : RelationType) :
    Careful lower (fun _ => True) (linkRelation d source target relation) := by
  unfold linkRelation
  split
  · trivial
  · exact avoids_ignore id

/-- What is to be stored is the candidate, or a neighbour with its own content and labels. -/
theorem careful_consolidate (d : Deployment) {candidate : Memory} (h : candidate.Contained lower) :
    Careful lower (fun result => result.memory.Contained lower) (consolidate d candidate) := by
  refine avoids_perform_bind id fun now _ => ?_
  refine avoids_perform_bind id fun neighbors hlist => ?_
  rw [consolidateLoop_eq]
  split
  · exact h
  next n hn =>
  have hcontained := hlist n (List.mem_of_find?_eq_some hn)
  unfold settle
  split
  · have hmerged := contained_merge hcontained candidate now
    exact avoids_perform_bind (not_not_intro hmerged) fun _ _ => hmerged
  split
  · refine avoids_perform_bind id fun vid _ => ?_
    refine avoids_perform_bind (not_not_intro (contained_closed hcontained candidate vid now)) fun _ _ => ?_
    exact avoids_bind (careful_linkRelation _ _ _ _) fun _ _ => h
  · exact avoids_bind (careful_linkRelation _ _ _ _) fun _ _ => h

theorem careful_compactionLoop (d : Deployment) {mems : List Memory} (h : ∀ m ∈ mems, m.Contained lower) :
    Careful lower (fun _ => True) (compactionLoop d mems) := by
  induction mems with
  | nil => trivial
  | cons mem rest ih =>
    obtain ⟨hmem, hrest⟩ := List.forall_mem_cons.mp h
    rw [compactionLoop]
    refine avoids_perform_bind id fun now _ => ?_
    split
    · exact ih hrest
    · exact avoids_bind (careful_consolidate d hmem) fun _ _ => ih hrest

theorem careful_compaction (d : Deployment) (tenant : String) :
    Careful lower (fun _ => True) (compaction d tenant) :=
  avoids_perform_bind id fun _ hmems => careful_compactionLoop d hmems

theorem careful_storeCandidate (d : Deployment) {mem : Memory} (h : mem.Contained lower) :
    Careful lower (fun _ => True) (storeCandidate d mem) := by
  unfold storeCandidate
  split
  · refine avoids_bind (careful_consolidate d h) fun result hresult => ?_
    exact avoids_perform_bind (not_not_intro hresult) fun _ _ => trivial
  · exact avoids_perform_bind (not_not_intro h) fun _ _ => trivial

theorem careful_indexKeywords (d : Deployment) (mem : Memory) :
    Careful lower (fun _ => True) (indexKeywords d mem) := by
  unfold indexKeywords
  split
  · exact avoids_ignore id
  · trivial

theorem careful_ingestLoop (d : Deployment) (created : List Memory) {candidates : List Memory}
    (h : ∀ m ∈ candidates, m.Contained lower) : Careful lower (fun _ => True) (ingestLoop d created candidates) := by
  induction candidates generalizing created with
  | nil => trivial
  | cons mem rest ih =>
    obtain ⟨hmem, hrest⟩ := List.forall_mem_cons.mp h
    rw [ingestLoop]
    split
    · exact ih _ hrest
    refine avoids_bind (careful_storeCandidate d hmem) fun stored _ => ?_
    exact avoids_bind (careful_indexKeywords d stored) fun _ _ => ih _ hrest

theorem careful_ingest (d : Deployment) (req : IngestRequest) : Careful lower (fun _ => True) (ingest d req) := by
  refine avoids_perform_bind id fun now _ => ?_
  refine avoids_perform_bind id fun eid _ => ?_
  dsimp only
  split
  · trivial
  refine avoids_perform_bind id fun _ _ => ?_
  have hshown : ¬ (Call.extract (newEvent now eid req)).Uncovers lower :=
    not_not_intro (Distiller.shown_textOf_newEvent lower now eid req)
  refine avoids_perform_bind hshown fun candidates hcand => ?_
  refine avoids_bind (careful_ingestLoop d [] hcand) fun created _ => ?_
  exact avoids_bind (careful_of_indexes (indexes_indexCreated d created)) fun _ _ => trivial

/-! ## Retrieval -/

/-- The candidates of a map are contained. -/
def CandidatesContained (lower : Char → Char) (candidates : Candidates) : Prop :=
  ∀ c ∈ candidates.rows, c.memory.Contained lower

theorem CandidatesContained.upsert {candidates : Candidates} {c : Candidate} (h : CandidatesContained lower candidates)
    (hc : c.memory.Contained lower) : CandidatesContained lower (candidates.upsert c) := by
  intro c' hc'
  rcases Table.mem_upsert.mp hc' with rfl | hold
  · exact hc
  · exact h c' hold.1

/-- A channel that finds candidates and keeps those there are. -/
abbrev Gathers (lower : Char → Char) (p : Go Candidates) : Prop := Careful lower (CandidatesContained lower) p

theorem gathers_mergeResults (ch : Channel) (q : Query) {results : List (String × ℚ)} {candidates : Candidates}
    (hc : CandidatesContained lower candidates) : Gathers lower (mergeResults ch q results candidates) := by
  induction results generalizing candidates with
  | nil => exact hc
  | cons result rest ih =>
    refine ⟨id, fun r hr => ?_⟩
    cases r with
    | error e => exact ih hc
    | ok mem =>
      have hfound : (ch.candidate candidates result.2 mem).memory.Contained lower := by
        unfold Channel.candidate
        cases hfind : candidates.find? mem.id with
        | none => exact hr
        | some existing => exact hc existing (Table.find?_eq_some.mp hfind).1
      change Gathers lower (if mem.isActive q.now = true then _ else _)
      split
      · exact ih (hc.upsert hfound)
      · exact ih hc

theorem gathers_textSearch (q : Query) {candidates : Candidates} (hc : CandidatesContained lower candidates) :
    Gathers lower (textSearch q candidates) := by
  refine avoids_perform_bind id fun textual htextual => ?_
  have hfound : ∀ mem ∈ textual.filter (·.isActive q.now), mem.Contained lower := fun mem hmem =>
    htextual mem (List.mem_filter.mp hmem).1
  change CandidatesContained lower _
  generalize textual.filter (·.isActive q.now) = found at hfound
  induction found generalizing candidates with
  | nil => exact hc
  | cons mem rest ih =>
    obtain ⟨hmem, hrest⟩ := List.forall_mem_cons.mp hfound
    exact ih (hc.upsert hmem) hrest

theorem gathers_expandSeeds (q : Query) (depth : Int) {seeds : List String} {candidates : Candidates}
    (hc : CandidatesContained lower candidates) : Gathers lower (expandSeeds q depth seeds candidates) := by
  induction seeds generalizing candidates with
  | nil => exact hc
  | cons seedID rest ih =>
    refine avoids_perform_bind id fun results _ => ?_
    exact avoids_bind (gathers_mergeResults graphChannel q hc) fun _ hcs => ih hcs

theorem gathers_planned {use : Bool} {search : Candidates → Go Candidates} {candidates : Candidates}
    (hc : CandidatesContained lower candidates) (hsearch : Gathers lower (search candidates)) :
    Gathers lower (planned use search candidates) := by
  unfold planned
  split
  · exact hsearch
  · exact hc

theorem gathers_gather (p : SearchPlan) (q : Query) (limit : Nat) : Gathers lower (gather p q limit) := by
  have hempty : CandidatesContained lower .empty := fun _ hc => absurd hc List.not_mem_nil
  refine avoids_bind (gathers_planned hempty (gathers_textSearch q hempty)) fun cs₁ hc₁ => ?_
  refine avoids_bind (gathers_planned hc₁ ?_) fun cs₂ hc₂ => ?_
  · refine avoids_perform_bind id fun vec _ => ?_
    exact avoids_perform_bind id fun results _ => gathers_mergeResults vectorChannel q hc₁
  refine avoids_bind (gathers_planned hc₂ ?_) fun cs₃ hc₃ => ?_
  · exact avoids_perform_bind id fun results _ => gathers_mergeResults keywordChannel q hc₂
  refine gathers_planned hc₃ ?_
  exact avoids_perform_bind id fun seeds _ => gathers_expandSeeds q _ hc₃

/-- What the privacy gates let through names no credential, or is an artifact. -/
def Released (lower : Char → Char) (mem : Memory) : Prop :=
  namesCredential lower mem.content.toList = true → mem.isArtifact = true

theorem released_of_passesGates {d : Deployment} (hgates : d.privacyGates = true) {q : Query} {c : Candidate}
    (h : passesGates d q c = true) (hc : c.memory.Contained lower) : Released lower c.memory := by
  intro hnames
  refine (hc hnames).resolve_left fun hlabel => ?_
  simp only [passesGates, hgates, Bool.not_true, Bool.false_or, Bool.and_eq_true, passesPrivacy, List.all_eq_true] at h
  exact Bool.false_ne_true (h.2 _ hlabel)

theorem careful_rerank {d : Deployment} (hgates : d.privacyGates = true) (q : Query) {candidates : Candidates}
    (hc : CandidatesContained lower candidates) (order : List String) :
    Careful lower (fun out => ∀ c ∈ out, Released lower c.memory) (rerank q (rank d q candidates order)) := by
  have hranked : ∀ c ∈ rank d q candidates order, Released lower c.memory := by
    intro c hmem
    obtain ⟨c₀, hrow, heq, hpass⟩ := mem_rank_memory (List.mem_map_of_mem hmem)
    rw [← heq]
    exact released_of_passesGates hgates hpass (hc c₀ hrow)
  refine ⟨id, fun r hr => ?_⟩
  cases r with
  | ok reranked =>
    intro c' hc'
    obtain ⟨c, hmem, hrerank⟩ := hr c' hc'
    rw [hrerank.1]
    exact hranked c hmem
  | error e =>
    intro c' hc'
    obtain ⟨c, hmem, rfl⟩ := List.mem_map.mp hc'
    exact hranked c hmem

theorem careful_retrieve {d : Deployment} (hgates : d.privacyGates = true) (query : Query) :
    Careful lower (fun answer => ∀ c ∈ answer.1, Released lower c.memory) (retrieve d query) := by
  have hnow : Careful lower (fun _ => True) (queryNow query) := by
    unfold queryNow
    split
    · exact avoids_perform _ id
    · trivial
  refine avoids_bind hnow fun now _ => ?_
  dsimp only
  refine avoids_bind (gathers_gather _ _ _) fun candidates hc => ?_
  refine avoids_perform_bind id fun order _ => ?_
  refine avoids_bind (careful_rerank hgates _ hc order) fun reranked hreranked => ?_
  have htrace : ∀ selected, Careful lower (fun _ => True) (buildTrace (applyScopeFilters { query with now := now })
      selected) := fun selected => avoids_perform_bind id fun _ _ => avoids_perform_bind id fun _ _ => trivial
  refine avoids_bind (htrace _) fun trace _ => ?_
  refine avoids_perform_bind id fun _ _ => ?_
  exact fun c hmem => hreranked c (List.mem_of_mem_take hmem)

/-! ## The services side by side -/

theorem careful_createArtifact {α : Type} {idPrefix tenantID : String}
    {make : Time → String → Except Err (Written α × Written Memory)}
    (h : ∀ now id artifact mem, make now id = .ok (artifact, mem) → StoredArtifact tenantID id mem.value) :
    Careful lower (fun _ => True) (createArtifact idPrefix make) := by
  refine avoids_perform_bind id fun now _ => ?_
  refine avoids_perform_bind id fun eid _ => ?_
  split
  · trivial
  · next artifact mem hmake =>
    have hkind : mem.value.isArtifact = true := (h now eid artifact mem hmake).kind
    exact avoids_perform_bind (not_not_intro fun _ => .inr hkind) fun _ _ => trivial

theorem careful_assembleControlContext (json : ArtifactJSON) (req : ControlRequest) :
    Careful lower (fun _ => True) (assembleControlContext json lower req) := by
  have hspec : Careful lower (fun _ => True) (selectSpec json req) := by
    unfold selectSpec
    split
    · refine ⟨id, fun r _ => ?_⟩
      cases r <;> trivial
    · refine ⟨id, fun r _ => ?_⟩
      cases r <;> trivial
  have hplan : Careful lower (fun _ => True) (selectPlan json req) := by
    unfold selectPlan
    split
    · refine ⟨id, fun r _ => ?_⟩
      cases r <;> trivial
    · refine ⟨id, fun r _ => ?_⟩
      cases r <;> trivial
  exact avoids_bind hspec fun _ _ => avoids_bind hplan fun _ _ => trivial

/-- What is retrieved is released. -/
def Reply.Clears (lower : Char → Char) : Reply → Prop
  | .retrieved candidates _ => ∀ c ∈ candidates, Released lower c.memory
  | _ => True

theorem careful_program (hlower : AsciiLower lower) {d : Deployment} (hgates : d.privacyGates = true)
    (hd : d.lower = lower) (json : ArtifactCodec) (call : ServiceCall) :
    Careful lower (Reply.Clears lower) (call.program d json) := by
  cases call with
  | ingest req => exact avoids_bind (careful_ingest d req) fun _ _ => trivial
  | retrieve query => exact avoids_bind (careful_retrieve hgates query) fun _ h => h
  | delete req => exact avoids_bind (careful_delete req) fun _ _ => trivial
  | redact tenantID memoryID reason => exact avoids_bind (careful_redact hlower _ _ _) fun _ _ => trivial
  | createSpec req =>
    exact avoids_bind (careful_createArtifact fun _ _ _ _ => storedArtifact_createSpec) fun _ _ => trivial
  | createPlan req =>
    exact avoids_bind (careful_createArtifact fun _ _ _ _ => storedArtifact_createPlan) fun _ _ => trivial
  | controlContext req =>
    subst hd
    exact avoids_bind (careful_assembleControlContext _ req) fun _ _ => trivial
  | sweep tenantID pol => exact avoids_bind (careful_sweep tenantID pol) fun _ _ => trivial
  | compaction tenant => exact avoids_bind (careful_compaction d tenant) fun _ _ => trivial

/-- The services without a language model. -/
def plainDistiller : Distiller := ⟨Char.toLower, fun _ => 5, none⟩

/-- The services that create a specification about a credential, in one process. -/
def tokenSpecPool : Pool Call Resp Err World Unit Reply where
  threads := fun _ =>
    ServiceCall.program ((Deployment.inProcess 5).distilling plainDistiller.drafts) plainCodec (.createSpec tokenSpec)
  store := World.empty

/-- When it is stored. -/
def tokenSpecCreated : Pool Call Resp Err World Unit Reply where
  threads := Function.update tokenSpecPool.threads () (.ret (.spec (newSpec tokenSpec 5 "spec_1")))
  store := worldOfTokenSpec

theorem run_tokenSpec :
    Pool.GuardedRun Pool.unguarded (step ((Deployment.inProcess 5).distilling plainDistiller.drafts)) tokenSpecPool
      tokenSpecCreated :=
  Pool.GuardedRun.of_exec tokenSpecPool.threads World.empty (fun _ _ => trivial) rfl (exec_tokenSpec _)

end AgentMemory
