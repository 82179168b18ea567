import AgentMemory.Ingestion.Ingest

/-!
# A failed ingest and the memories it closed

`Consolidate` writes the closed neighbour first, and `Ingest` writes the candidate that
closed it afterwards (`service.go:93-102`). Between the two writes the neighbour names a
successor that is not stored yet: `Pending` is what holds there, `Replaced` what holds
before and after. An error at any other call leaves `Replaced` as it was.
-/

namespace AgentMemory

open Tables Calls

/-- Every memory that was active before is active or superseded by a stored memory. -/
def Replaced (s₀ s : MemoryStore) : Prop :=
  ∀ m₀ ∈ s₀.rows, m₀.status = .active → ∃ m, s.find? m₀.id = some m ∧
    (m.status = .active ∨ ∃ id, m.SupersededBy id ∧ s.find? id ≠ none)

/-- The same while the memory under `id` is still to be written. -/
def Pending (s₀ s : MemoryStore) (id : String) : Prop :=
  ∀ m₀ ∈ s₀.rows, m₀.status = .active → ∃ m, s.find? m₀.id = some m ∧
    (m.status = .active ∨ ∃ k, m.SupersededBy k ∧ (s.find? k ≠ none ∨ k = id))

/-- A memory that was active before names `id` as its successor, and no memory is stored
under `id`. -/
def StrandedBy (s₀ s : MemoryStore) (id : String) : Prop :=
  s.find? id = none ∧ ∃ m₀ ∈ s₀.rows, m₀.status = .active ∧ SupersededIn s m₀.id id

/-- A failed write of the successor that a memory active before already names. -/
def Strands (s₀ : MemoryStore) (c : Made Call World) : Prop :=
  c.failed = true ∧ ∃ m, c.op = .upsert m ∧ StrandedBy s₀ c.before.memories m.id

variable {d : Deployment} {s₀ s : MemoryStore} {m : Memory} {b : Backend} {w w' : World}
  {history : History}

theorem replaced_refl : Replaced s s := fun m₀ hm hact =>
  ⟨m₀, Table.find?_of_mem hm, Or.inl hact⟩

theorem Replaced.pending (h : Replaced s₀ s) (id : String) : Pending s₀ s id := by
  intro m₀ hm hact
  obtain ⟨m, hf, hst | ⟨k, hsup, hk⟩⟩ := h m₀ hm hact
  · exact ⟨m, hf, Or.inl hst⟩
  · exact ⟨m, hf, Or.inr ⟨k, hsup, Or.inl hk⟩⟩

theorem find?_upsert_ne_none {id : String} (h : s.find? id ≠ none ∨ id = m.id) :
    (b.upsert s m).find? id ≠ none := by
  rw [Backend.find?_upsert]
  split
  · exact Option.some_ne_none _
  · next hne => exact h.resolve_right (Ne.symm hne)

/-- The write of the pending memory completes the replacement. -/
theorem Pending.upsert (h : Pending s₀ s m.id) (hm : s₀.find? m.id = none ∨ m.status = .active) :
    Replaced s₀ (b.upsert s m) := by
  intro m₀ hm₀ hact
  by_cases he : m.id = m₀.id
  · refine ⟨_, by rw [Backend.find?_upsert, if_pos he], Or.inl ?_⟩
    rw [Backend.stored_status]
    exact hm.resolve_left (by rw [he, Table.find?_of_mem hm₀]; exact Option.some_ne_none _)
  · obtain ⟨r, hf, hst⟩ := h m₀ hm₀ hact
    refine ⟨r, by rw [Backend.find?_upsert, if_neg he]; exact hf, ?_⟩
    exact hst.imp_right fun ⟨k, hsup, hk⟩ => ⟨k, hsup, find?_upsert_ne_none hk⟩

/-- Where that write fails, the replacement stands unless a memory is stranded. -/
theorem Pending.replaced_iff {id : String} (h : Pending s₀ s id) :
    Replaced s₀ s ↔ ¬ StrandedBy s₀ s id := by
  constructor
  · rintro hr ⟨hnone, m₀, hm₀, hact, r, hf, hsup⟩
    obtain ⟨r', hf', hst⟩ := hr m₀ hm₀ hact
    obtain rfl := Option.some.inj (hf.symm.trans hf')
    rcases hst with hst | ⟨k, hk, hpresent⟩
    · exact hsup.not_active hst
    · exact hpresent (hk.unique hsup ▸ hnone)
  · intro hno m₀ hm₀ hact
    obtain ⟨r, hf, hst | ⟨k, hsup, hk | rfl⟩⟩ := h m₀ hm₀ hact
    · exact ⟨r, hf, Or.inl hst⟩
    · exact ⟨r, hf, Or.inr ⟨k, hsup, hk⟩⟩
    · exact ⟨r, hf, Or.inr ⟨k, hsup, fun hnone => hno ⟨hnone, m₀, hm₀, hact, r, hf, hsup⟩⟩⟩

theorem not_strands_of_ok {op : Call} : ¬ Strands s₀ ⟨op, w, false⟩ := fun h => by
  cases h.1

theorem not_strands_of_failedOver {c : Made Call World} (h : FailedOver w c) :
    ¬ Strands s₀ c := by
  obtain ⟨-, hw, m, hop, n, hn, hid⟩ := h
  rintro ⟨-, m', hop', hnone, -⟩
  obtain rfl : m = m' := by
    rw [hop] at hop'
    cases hop'
    rfl
  rw [hw, ← hid, Table.find?_of_mem hn] at hnone
  cases hnone

/-- What `Consolidate` leaves for the write that follows it. -/
theorem pending_of_outcome {candidate : Memory} {result : Result} {writes : History}
    (h : Replaced s₀ w.memories) (ho : Outcome d candidate w (.ok result) w' writes) :
    Pending s₀ w'.memories result.memory.id ∧
      (result.memory = candidate ∨ result.memory.status = .active) ∧
      ∀ c ∈ writes, ¬ Strands s₀ c := by
  cases ho with
  | new => exact ⟨h.pending _, Or.inl rfl, by simp⟩
  | @merged now neighbors n _ hl hn _ =>
    have hst : (merge n candidate now).status = .active :=
      Memory.status_of_isActive (applies_iff.mp (List.find?_some hn)).2.1
    refine ⟨((h.pending _).upsert (Or.inr hst)).pending _, Or.inr hst, ?_⟩
    simp only [List.mem_singleton]
    rintro c rfl
    exact not_strands_of_ok
  | @superseded now neighbors n vid _ _ hl hn _ _ _ hlink =>
    have hmem : w'.memories = d.backend.upsert w.memories (closed n candidate vid now) := by
      rcases hlink with ⟨-, rfl⟩ | ⟨-, rfl⟩ <;> rfl
    refine ⟨?_, Or.inl rfl, ?_⟩
    · rw [hmem]
      intro m₀ hm₀ hact
      by_cases he : n.id = m₀.id
      · refine ⟨_, by rw [Backend.find?_upsert]; exact if_pos he, Or.inr ⟨candidate.id, ?_, Or.inr rfl⟩⟩
        exact stored_closed_supersededBy _ _ _ _ _ _
      · obtain ⟨r, hf, hst⟩ := h m₀ hm₀ hact
        refine ⟨r, by rw [Backend.find?_upsert]; exact (if_neg he).trans hf, ?_⟩
        exact hst.imp_right fun ⟨k, hsup, hk⟩ => ⟨k, hsup, Or.inl (find?_upsert_ne_none (Or.inl hk))⟩
    · simp only [List.mem_singleton]
      rintro c rfl
      exact not_strands_of_ok
  | contradicts _ _ _ _ _ _ hlink =>
    have hmem : w'.memories = w.memories := by
      rcases hlink with ⟨-, rfl⟩ | ⟨-, rfl⟩ <;> rfl
    exact ⟨hmem ▸ h.pending _, Or.inl rfl, by simp⟩

/-- What holds between two candidates. -/
structure BetweenCandidates (s₀ : MemoryStore) (rest : List Memory) (t : World × History) : Prop where
  replaced : Replaced s₀ t.1.memories
  unstranded : ∀ c ∈ t.2, ¬ Strands s₀ c
  fresh : ∀ m ∈ rest, s₀.find? m.id = none

/-- What holds after an error. -/
def AfterError (s₀ : MemoryStore) (t : World × History) : Prop :=
  Replaced s₀ t.1.memories ↔ ∀ c ∈ t.2, ¬ Strands s₀ c

/-- The write of a candidate, once what it replaces has been closed. -/
theorem wp_upsert_pending {mem : Memory} {rest : List Memory} (hp : Pending s₀ w.memories mem.id)
    (hm : s₀.find? mem.id = none ∨ mem.status = .active)
    (hh : ∀ c ∈ history, ¬ Strands s₀ c) (hrest : ∀ m ∈ rest, s₀.find? m.id = none) :
    wp (watched d) (fun o t => match o with
      | .ok _ => BetweenCandidates s₀ rest t
      | .error _ => AfterError s₀ t)
      (do ask (.upsert mem); pure mem) (w, history) := by
  rw [wp_recorded_bind]
  intro r w₁ hs
  have hsnoc : ∀ {p : Made Call World → Prop} {c : Made Call World},
      (∀ x ∈ history, p x) → ((∀ x ∈ history ++ [c], p x) ↔ p c) := by
    intro p c hall
    simp [or_imp, forall_and]
    exact fun _ => hall
  rcases step_store hs rfl with ⟨_, rfl, rfl⟩ | ⟨e, rfl, -, rfl⟩
  · exact ⟨hp.upsert hm, (hsnoc hh).mpr not_strands_of_ok, hrest⟩
  · change _ ↔ ∀ c ∈ history ++ [⟨.upsert mem, w₁, true⟩], ¬ Strands s₀ c
    rw [hsnoc hh, hp.replaced_iff]
    refine not_congr ⟨fun h => ⟨rfl, mem, rfl, h⟩, ?_⟩
    rintro ⟨-, m', he, h⟩
    cases he
    exact h

theorem wp_storeCandidate {mem : Memory} {rest : List Memory} {t : World × History}
    (h : BetweenCandidates s₀ (mem :: rest) t) :
    wp (watched d) (fun o t' => match o with
      | .ok _ => BetweenCandidates s₀ rest t'
      | .error _ => AfterError s₀ t') (storeCandidate d mem) t := by
  obtain ⟨w, history⟩ := t
  obtain ⟨hr, hh, hfresh⟩ := h
  have hmem : s₀.find? mem.id = none := hfresh mem List.mem_cons_self
  have hrest : ∀ m ∈ rest, s₀.find? m.id = none := fun m hm => hfresh m (List.mem_cons_of_mem _ hm)
  unfold storeCandidate
  split
  · rw [wp_bind]
    apply wp_consolidate
    intro o w' writes ho
    cases o with
    | ok result =>
      obtain ⟨hp, hres, hw⟩ := pending_of_outcome hr ho
      refine wp_upsert_pending hp (hres.imp (fun he => by rw [he]; exact hmem) id) ?_ hrest
      intro c hc
      exact (List.mem_append.mp hc).elim (hh c) (hw c)
    | error e =>
      cases ho with
      | failed _ _ _ _ hw =>
        refine iff_of_true hr fun c hc => ?_
        exact (List.mem_append.mp hc).elim (hh c) fun hc => not_strands_of_failedOver (hw c hc)
  · exact wp_upsert_pending (hr.pending _) (Or.inl hmem) hh hrest

theorem afterError_of_untouched (hw : w.memories = s₀)
    (hop : ∀ c ∈ history, ∀ m, c.op ≠ .upsert m) : AfterError s₀ (w, history) := by
  refine iff_of_true (by subst hw; exact replaced_refl) fun c hc => ?_
  rintro ⟨-, m, hm, -⟩
  exact hop c hc m hm

theorem isUpsert_of_appendEvent {e : Event} {failed : Bool} :
    ∀ c ∈ ([⟨.appendEvent e, w, failed⟩] : History), ∀ m, c.op ≠ .upsert m := by
  simp

/-- Every execution of `Ingest`, with what it leaves. -/
theorem wp_ingest_replaced (d : Deployment) (req : IngestRequest) (hw : w.memories = s₀) :
    wp (watched d) (fun o t => match o with
      | .ok _ => BetweenCandidates s₀ [] t
      | .error _ => AfterError s₀ t) (ingest d req) (w, []) := by
  unfold ingest
  rw [wp_recorded_bind]
  intro r w₁ hs
  obtain ⟨now, rfl, -, rfl⟩ := step_sure hs rfl
  dsimp only
  rw [wp_recorded_bind]
  intro r w₂ hs
  obtain ⟨id, rfl, -, rfl⟩ := step_sure hs rfl
  dsimp only
  split
  · exact afterError_of_untouched hw (by simp [note, Call.isWrite])
  rw [wp_recorded_bind]
  intro r w₃ hs
  rcases step_store hs rfl with ⟨_, rfl, rfl⟩ | ⟨e, rfl, -, rfl⟩
  swap
  · exact afterError_of_untouched hw isUpsert_of_appendEvent
  dsimp only
  rw [wp_recorded_bind]
  intro r w₄ hs
  rcases step_store hs rfl with ⟨candidates, rfl, ids, -, hfresh, hlen, rfl, rfl⟩ | ⟨e, rfl, -, rfl⟩
  swap
  · exact afterError_of_untouched hw isUpsert_of_appendEvent
  dsimp only
  have hinit : BetweenCandidates s₀
      (withIDs (d.distill (newEvent now id req)) ids)
      ({ w₁ with
          issued := ids ++ id :: w₁.issued
          events := w₁.events.upsert (newEvent now id req) },
        [⟨.appendEvent (newEvent now id req), { w₁ with issued := id :: w₁.issued }, false⟩]) := by
    refine ⟨by subst hw; exact replaced_refl, by simpa using not_strands_of_ok, ?_⟩
    intro m hm
    obtain ⟨-, -, hid, -⟩ := mem_withIDs hm
    subst hw
    exact (hfresh _ hid).2.2
  rw [wp_bind]
  refine wp_mono ?_ _ _ (wp_ingestLoop (fun _ rest t => BetweenCandidates s₀ rest t)
    (fun _ t => AfterError s₀ t) ?_ ?_ (fun _ _ _ _ h _ => wp_storeCandidate h) hinit)
  · rintro (e | created) ⟨w', history'⟩ h
    · exact h
    change wp (watched d) _ (indexCreated d created >>= _) (w', history')
    rw [wp_bind]
    refine wp_mono ?_ _ _ (wp_indexing (indexes_indexCreated d created))
    rintro o ⟨w'', history''⟩ ⟨hsame, rfl⟩
    cases o with
    | ok _ => exact ⟨hsame.memories ▸ h.replaced, h.unstranded, h.fresh⟩
    | error _ => exact iff_of_true (hsame.memories ▸ h.replaced) h.unstranded
  · intro _ rest w' w'' history' hsame h
    exact ⟨hsame.memories ▸ h.replaced, h.unstranded, h.fresh⟩
  · intro _ mem rest t h _
    exact ⟨h.replaced, h.unstranded, fun m hm => h.fresh m (List.mem_cons_of_mem _ hm)⟩

/-- An `Ingest` that returns an error leaves every memory that was active before active or
superseded by a stored one, exactly when no write that failed was that of a successor some
of them already named. -/
theorem failed_ingest_keeps_replacements_iff (d : Deployment) (req : IngestRequest) (w w' : World)
    (o : Except Err IngestResponse) (history : History)
    (hrun : Exec (watched d) (ingest d req) (w, []) o (w', history)) :
    ((∃ e, o = .error e) → Replaced w.memories w'.memories) ↔
      ∀ c ∈ history, ¬ Strands w.memories c := by
  have hpost := hrun.post (wp_ingest_replaced d req rfl)
  cases o with
  | ok _ => exact iff_of_true (fun ⟨_, he⟩ => nomatch he) hpost.unstranded
  | error e =>
    constructor
    · intro h
      exact hpost.mp (h ⟨e, rfl⟩)
    · intro h _
      exact hpost.mpr h

/-! ## A write that fails after the memory it replaces was closed -/

/-- The distiller restates the longer fact, and calls may fail. -/
def faultyDeployment : Deployment :=
  { Deployment.inProcess 5 with distill := fun _ => [longFact], faulty := True }

def restated : Memory := { longFact with id := "m1" }

/-- The store before, when the candidate is to be consolidated, and after. -/
def shortOnly : World := World.holding (Table.empty.upsert shortFact)

def extracted : World :=
  { shortOnly with
    issued := ["m1", "e1"]
    events := Table.empty.upsert (newEvent 5 "e1" (statement "alice prefere cafe forte quente")) }

def shortStranded : World :=
  { extracted with
    issued := "v1" :: extracted.issued
    memories := Backend.memory.upsert extracted.memories (closed shortFact restated "v1" 5)
    edges := [relationEdge restated (closed shortFact restated "v1" 5) .supersedes] }

def strandingHistory : History :=
  [⟨.appendEvent (newEvent 5 "e1" (statement "alice prefere cafe forte quente")),
      { shortOnly with issued := ["e1"] }, false⟩,
    ⟨.upsert (closed shortFact restated "v1" 5), { extracted with issued := "v1" :: extracted.issued },
      false⟩,
    ⟨.upsert restated, shortStranded, true⟩]

theorem run_shortStranded :
    Exec (watched faultyDeployment)
      (ingest faultyDeployment (statement "alice prefere cafe forte quente")) (shortOnly, [])
      (.error .unavailable) (shortStranded, strandingHistory) := by
  have hfresh : shortOnly.Fresh "e1" := ⟨by decide, by decide, by decide⟩
  have hfresh' : World.Fresh { shortOnly with
      issued := ["e1"]
      events := extracted.events } "m1" := ⟨by decide, by decide, by decide⟩
  have hfresh'' : extracted.Fresh "v1" := ⟨by decide, by decide, by decide⟩
  have hvalid : validateEvent (newEvent 5 "e1" (statement "alice prefere cafe forte quente")) =
      none := by decide
  have hlist : Backend.memory.Lists extracted.memories (neighborQuery restated) [shortFact] :=
    List.Perm.refl _
  have hmatch : [shortFact].find? (applies Char.toLower 5 restated) = some shortFact := by
    decide +kernel
  unfold ingest
  refine exec_answer (show Answers _ .now shortOnly 5 shortOnly from ⟨rfl, rfl⟩) ?_
  refine exec_answer (show Answers _ (.newID "evt") shortOnly "e1" _ from ⟨hfresh, rfl⟩) ?_
  dsimp only
  rw [hvalid]
  refine exec_answer (show Answers _ (.appendEvent _) _ () _ from rfl) ?_
  refine exec_answer (show Answers faultyDeployment (.extract _) _ [restated] extracted from
    ⟨["m1"], by simp, fun _ hid => by rw [List.mem_singleton.mp hid]; exact hfresh', rfl, rfl, rfl⟩) ?_
  refine Exec.bind_error ?_
  rw [ingestLoop, if_neg (by decide)]
  refine Exec.bind_error ?_
  rw [storeCandidate, if_pos (show faultyDeployment.hasConsolidator = true from rfl)]
  refine Exec.bind (exec_consolidate_superseded rfl hlist hmatch (by decide +kernel)
    (by decide +kernel) hfresh'' rfl) ?_
  refine Exec.bind_error (Exec.perform ?_)
  exact ⟨Or.inr ⟨.unavailable, rfl, rfl, Or.inr ⟨trivial, rfl, rfl⟩⟩, rfl⟩

theorem failed_ingest_keeps_replacements_iff_shortStranded :
    ((∃ e, (.error .unavailable : Except Err IngestResponse) = .error e) →
        Replaced shortOnly.memories shortStranded.memories) ↔
      ∀ c ∈ strandingHistory, ¬ Strands shortOnly.memories c :=
  failed_ingest_keeps_replacements_iff _ _ _ _ _ _ run_shortStranded

/-- The longer fact was to replace the shorter one and is not stored. -/
theorem failed_ingest_strands :
    ¬ ∀ o w' history,
      Exec (watched faultyDeployment)
        (ingest faultyDeployment (statement "alice prefere cafe forte quente")) (shortOnly, [])
        o (w', history) →
      (∃ e, o = .error e) → Replaced shortOnly.memories w'.memories := by
  intro h
  have hr := h _ _ _ run_shortStranded ⟨_, rfl⟩
  refine (hr.pending "m1").replaced_iff.mp hr ⟨by decide +kernel, shortFact, by decide +kernel, rfl,
    closed shortFact restated "v1" 5, by decide +kernel, ?_⟩
  exact stored_closed_supersededBy .memory none shortFact restated "v1" 5

end AgentMemory
