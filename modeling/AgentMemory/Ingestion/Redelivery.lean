import AgentMemory.Ingestion.Ingest

/-!
# Redelivered ingest requests

The queue hands a message to the worker again after a failed attempt, after a lease that
expired and after a `markDone` that failed (`queue/postgres/queue.go:62-124`). `Ingest`
keeps no record of the messages it has seen and draws fresh ids in every attempt, so a
delivery adds what it got to write to what earlier ones wrote. `AtLeastOnce` is what that
design guarantees: exact counts of copies, and no candidate of the last delivery lost.
-/

namespace AgentMemory

open Tables Calls

/-- Deliveries of one request, of which the last one succeeds with `resp`. -/
inductive Deliveries (d : Deployment) (req : IngestRequest) :
    World × History → IngestResponse → World × History → Prop where
  | last {t t' : World × History} {resp : IngestResponse} :
      Exec (watched d) (ingest d req) t (.ok resp) t' → Deliveries d req t resp t'
  | again {t t' t'' : World × History} {o : Except Err IngestResponse} {resp : IngestResponse} :
      Exec (watched d) (ingest d req) t o t' → Deliveries d req t' resp t'' →
      Deliveries d req t resp t''

def Call.isAppend : Call → Bool
  | .appendEvent _ => true
  | _ => false

def Call.isUpsert : Call → Bool
  | .upsert _ => true
  | _ => false

/-- How many event appends, and how many memory writes, of a history succeeded. -/
def appends (history : History) : Nat := history.countP fun c => c.op.isAppend && !c.failed
def upserts (history : History) : Nat := history.countP fun c => c.op.isUpsert && !c.failed

/-- A memory that holds what a candidate states: its text up to case and outer space, or,
where candidates are consolidated, a text the merge test takes for the same. -/
def Holds (d : Deployment) (m candidate : Memory) : Prop :=
  dedupeKey d.lower m = dedupeKey d.lower candidate ∨
    (d.hasConsolidator = true ∧ mergeThreshold ≤ similar d.lower m.content candidate.content)

/-- What deliveries add to the stores. -/
structure Added (d : Deployment) (req : IngestRequest) (t t' : World × History) : Prop where
  /-- One event per append that succeeded. -/
  events : t'.1.events.rows.length + appends t.2 = t.1.events.rows.length + appends t'.2
  /-- Each of them is the request's event, but for its id and time. -/
  copies : ∀ e ∈ t'.1.events.rows, e ∈ t.1.events.rows ∨ ∃ now id, e = newEvent now id req
  /-- Without a consolidator, one memory per write that succeeded. -/
  memories : d.hasConsolidator = false →
    t'.1.memories.rows.length + upserts t.2 = t.1.memories.rows.length + upserts t'.2

/-- What is guaranteed of deliveries that end in success. -/
structure AtLeastOnce (d : Deployment) (req : IngestRequest) (t : World × History)
    (resp : IngestResponse) (t' : World × History) : Prop extends Added d req t t' where
  stored : resp.event ∈ t'.1.events.rows
  held : ∀ candidate ∈ d.distill resp.event, ∃ m ∈ t'.1.memories.rows, Holds d m candidate

variable {d : Deployment} {req : IngestRequest} {w w' : World} {history writes : History}
  {t t' t'' : World × History}

theorem Added.refl : Added d req t t := ⟨rfl, fun _ he => Or.inl he, fun _ => rfl⟩

theorem Added.trans (h : Added d req t t') (h' : Added d req t' t'') : Added d req t t'' := by
  refine ⟨?_, ?_, fun hc => ?_⟩
  · have h₁ := h.events
    have h₂ := h'.events
    omega
  · intro e he
    rcases h'.copies e he with he | he
    · exact h.copies e he
    · exact Or.inr he
  · have h₁ := h.memories hc
    have h₂ := h'.memories hc
    omega

theorem appends_append (h h' : History) : appends (h ++ h') = appends h + appends h' :=
  List.countP_append

theorem upserts_append (h h' : History) : upserts (h ++ h') = upserts h + upserts h' :=
  List.countP_append

@[simp] theorem appends_note_upsert {m : Memory} {r : Except Err (Resp (.upsert m))} :
    appends (note Call.isWrite (.upsert m) w r history) = appends history := by
  simp [note, Call.isWrite, appends, Call.isAppend]

@[simp] theorem upserts_note_upsert {m : Memory} {r : Except Err (Resp (.upsert m))} :
    upserts (note Call.isWrite (.upsert m) w r history) =
      upserts history + if r.isOk = true then 1 else 0 := by
  cases h : r.isOk <;> simp [note, Call.isWrite, upserts, Call.isUpsert, h]

@[simp] theorem appends_note_append {e : Event} {r : Except Err (Resp (.appendEvent e))} :
    appends (note Call.isWrite (.appendEvent e) w r history) =
      appends history + if r.isOk = true then 1 else 0 := by
  cases h : r.isOk <;> simp [note, Call.isWrite, appends, Call.isAppend, h]

@[simp] theorem upserts_note_append {e : Event} {r : Except Err (Resp (.appendEvent e))} :
    upserts (note Call.isWrite (.appendEvent e) w r history) = upserts history := by
  simp [note, Call.isWrite, upserts, Call.isUpsert]

/-! ## What one candidate adds -/

/-- Every memory keeps its id and text. -/
def Keeps (s s' : MemoryStore) : Prop :=
  ∀ m ∈ s.rows, ∃ m' ∈ s'.rows, m'.id = m.id ∧ m'.content = m.content

theorem Keeps.refl (s : MemoryStore) : Keeps s s := fun m hm => ⟨m, hm, rfl, rfl⟩

theorem Keeps.trans {s s' s'' : MemoryStore} (h : Keeps s s') (h' : Keeps s' s'') : Keeps s s'' := by
  intro m hm
  obtain ⟨m', hm', hid, hcontent⟩ := h m hm
  obtain ⟨m'', hm'', hid', hcontent'⟩ := h' m' hm'
  exact ⟨m'', hm'', hid'.trans hid, hcontent'.trans hcontent⟩

/-- A write over a row with the same text, or under a new id, keeps the memories. -/
theorem keeps_upsert {b : Backend} {s : MemoryStore} {m : Memory}
    (h : ∀ r ∈ s.rows, r.id = m.id → r.content = m.content) : Keeps s (b.upsert s m) := by
  intro r hr
  by_cases he : r.id = m.id
  · refine ⟨_, (Backend.mem_upsert b).mpr (Or.inl rfl), ?_, ?_⟩
    · rw [Backend.stored_id, he]
    · rw [Backend.stored_content, h r hr he]
  · exact ⟨r, (Backend.mem_upsert b).mpr (Or.inr ⟨hr, he⟩), rfl, rfl⟩

theorem keeps_upsert_row {b : Backend} {s : MemoryStore} {n m : Memory} (hn : n ∈ s.rows)
    (hid : m.id = n.id) (hcontent : m.content = n.content) : Keeps s (b.upsert s m) :=
  keeps_upsert fun r hr he => by
    rw [Table.eq_of_key hr hn (he.trans hid), hcontent]

theorem find?_upsert_row {b : Backend} {s : MemoryStore} {n m : Memory} (hn : n ∈ s.rows)
    (hid : m.id = n.id) {id : String} (h : s.find? id = none) : (b.upsert s m).find? id = none := by
  rw [Backend.find?_upsert, if_neg ?_]
  · exact h
  · rintro rfl
    rw [hid, Table.find?_of_mem hn] at h
    cases h

/-- What `Consolidate` leaves of the stores. -/
structure Consolidated (w : World) (w' : World) (writes : History) : Prop where
  keeps : Keeps w.memories w'.memories
  absent : ∀ id, w.memories.find? id = none → w'.memories.find? id = none
  events : w'.events = w.events
  appends : appends writes = 0

theorem consolidated_of_linked {source target : Memory} {relation : RelationType}
    (h : Linked d source target relation w w') : w'.memories = w.memories ∧ w'.events = w.events := by
  rcases h with ⟨-, rfl⟩ | ⟨-, rfl⟩ <;> exact ⟨rfl, rfl⟩

theorem consolidated_of_outcome {candidate : Memory} {o : Except Err Result}
    (ho : Outcome d candidate w o w' writes) : Consolidated w w' writes := by
  cases ho with
  | failed e issued writes _ hw =>
    refine ⟨Keeps.refl _, fun _ h => h, rfl, ?_⟩
    refine List.countP_eq_zero.mpr fun c hc => ?_
    obtain ⟨-, -, m, hop, -⟩ := hw c hc
    simp [hop, Call.isAppend]
  | new => exact ⟨Keeps.refl _, fun _ h => h, rfl, rfl⟩
  | @merged now neighbors n _ hl hn _ =>
    have hrow := Backend.mem_rows_of_lists hl (List.mem_of_find?_eq_some hn)
    have hid : (merge n candidate now).id = n.id := rfl
    exact ⟨keeps_upsert_row hrow hid rfl, fun _ => find?_upsert_row hrow hid, rfl, rfl⟩
  | @superseded now neighbors n vid _ _ hl hn _ _ _ hlink =>
    have hrow := Backend.mem_rows_of_lists hl (List.mem_of_find?_eq_some hn)
    have hid : (closed n candidate vid now).id = n.id := rfl
    obtain ⟨hmem, hev⟩ := consolidated_of_linked hlink
    refine ⟨?_, fun id h => ?_, hev, rfl⟩
    · rw [hmem]
      exact keeps_upsert_row hrow hid rfl
    · rw [hmem]
      exact find?_upsert_row hrow hid h
  | contradicts _ _ _ _ _ _ hlink =>
    obtain ⟨hmem, hev⟩ := consolidated_of_linked hlink
    exact ⟨hmem ▸ Keeps.refl _, fun _ h => hmem ▸ h, hev, rfl⟩

/-- The memory to write is the candidate, or the neighbour it was merged into. -/
theorem result_of_outcome {candidate : Memory} {result : Result}
    (ho : Outcome d candidate w (.ok result) w' writes) :
    result.memory = candidate ∨ (∃ r ∈ w'.memories.rows, r.id = result.memory.id ∧
      r.content = result.memory.content) ∧
      mergeThreshold ≤ similar d.lower result.memory.content candidate.content := by
  cases ho with
  | new => exact Or.inl rfl
  | @merged now neighbors n _ hl hn hm =>
    have hrow := Backend.mem_rows_of_lists hl (List.mem_of_find?_eq_some hn)
    refine Or.inr ⟨⟨_, (Backend.mem_upsert _).mpr (Or.inl rfl), ?_, ?_⟩, hm⟩
    · rw [Backend.stored_id]
    · rw [Backend.stored_content]
  | superseded => exact Or.inl rfl
  | contradicts => exact Or.inl rfl

/-! ## The candidate loop -/

/-- What holds of a delivery that started in `t₀`, appended `event` and has the candidates
`rest` of `all` before it, having written `created`. -/
structure Delivering (d : Deployment) (req : IngestRequest) (t₀ : World × History) (event : Event)
    (all created rest : List Memory) (t : World × History) : Prop where
  added : Added d req t₀ t
  stored : event ∈ t.1.events.rows
  fresh : ∀ m ∈ rest, t.1.memories.find? m.id = none
  nodup : (rest.map Memory.id).Nodup
  created : ∀ m ∈ created, ∃ r ∈ t.1.memories.rows, r.id = m.id ∧ r.content = m.content
  held : ∀ c ∈ all, c ∈ rest ∨ ∃ m ∈ t.1.memories.rows, Holds d m c

variable {t₀ : World × History} {event : Event} {all created rest : List Memory} {mem : Memory}

theorem Holds.congr {m m' candidate : Memory} (h : Holds d m candidate)
    (hc : m'.content = m.content) : Holds d m' candidate := by
  unfold Holds dedupeKey at *
  rwa [hc]

theorem held_of_keeps {s s' : MemoryStore} {c : Memory} (hk : Keeps s s')
    (h : ∃ m ∈ s.rows, Holds d m c) : ∃ m ∈ s'.rows, Holds d m c := by
  obtain ⟨m, hm, hold⟩ := h
  obtain ⟨m', hm', -, hcontent⟩ := hk m hm
  exact ⟨m', hm', hold.congr hcontent⟩

theorem created_of_keeps {s s' : MemoryStore} {m : Memory} (hk : Keeps s s')
    (h : ∃ r ∈ s.rows, r.id = m.id ∧ r.content = m.content) :
    ∃ r ∈ s'.rows, r.id = m.id ∧ r.content = m.content := by
  obtain ⟨r, hr, hid, hcontent⟩ := h
  obtain ⟨r', hr', hid', hcontent'⟩ := hk r hr
  exact ⟨r', hr', hid'.trans hid, hcontent'.trans hcontent⟩

theorem Delivering.consolidated (h : Delivering d req t₀ event all created rest (w, history))
    (hc : d.hasConsolidator = true) (hw : Consolidated w w' writes) :
    Delivering d req t₀ event all created rest (w', history ++ writes) where
  added := by
    refine h.added.trans ⟨?_, fun e he => Or.inl ?_, fun hno => ?_⟩
    · simp only [appends_append, hw.appends, hw.events]
      rfl
    · rwa [hw.events] at he
    · rw [hc] at hno
      cases hno
  stored := hw.events ▸ h.stored
  fresh m hm := hw.absent _ (h.fresh m hm)
  nodup := h.nodup
  created m hm := created_of_keeps hw.keeps (h.created m hm)
  held c hcand := (h.held c hcand).imp_right (held_of_keeps hw.keeps)

/-- The write of the memory that consolidating `mem` gave: `mem` itself, or a row it was
merged into. -/
theorem wp_upsert_delivering {m : Memory}
    (h : Delivering d req t₀ event all created (mem :: rest) (w, history))
    (hm : m = mem ∨ d.hasConsolidator = true ∧
      (∃ r ∈ w.memories.rows, r.id = m.id ∧ r.content = m.content) ∧
      mergeThreshold ≤ similar d.lower m.content mem.content) :
    wp (watched d) (fun o t => match o with
      | .ok stored => Delivering d req t₀ event all (created ++ [stored]) rest t
      | .error _ => Added d req t₀ t)
      (do ask (.upsert m); pure m) (w, history) := by
  rw [wp_recorded_bind]
  intro r w₁ hs
  rcases step_store hs rfl with ⟨_, rfl, rfl⟩ | ⟨e, rfl, -, rfl⟩
  swap
  · refine h.added.trans ⟨?_, fun e he => Or.inl he, fun _ => ?_⟩
    · simp
    · simp [Except.isOk, Except.toBool]
  have habsent : m = mem → w.memories.find? m.id = none := fun he =>
    he ▸ h.fresh mem List.mem_cons_self
  have hkeeps : Keeps w.memories (d.backend.upsert w.memories m) := by
    rcases hm with he | ⟨-, ⟨r, hr, hid, hcontent⟩, -⟩
    · exact keeps_upsert fun r hr hid => absurd hid (Table.find?_eq_none.mp (habsent he) r hr)
    · exact keeps_upsert_row hr hid.symm hcontent.symm
  refine ⟨h.added.trans ⟨?_, fun e he => Or.inl he, fun hc => ?_⟩, h.stored, fun x hx => ?_, ?_, ?_, ?_⟩
  · simp
  · obtain he : m = mem := hm.resolve_right fun hno => by
      rw [hc] at hno
      cases hno.1
    have hlen := Table.length_upsert w.memories (d.backend.stored (w.memories.find? m.id) m)
    rw [Backend.stored_id, if_pos (habsent he)] at hlen
    simp only [Backend.upsert, upserts_note_upsert, hlen, Except.isOk, Except.toBool, if_true]
    omega
  · have hxm : m.id ≠ x.id := by
      intro he
      rcases hm with rfl | ⟨-, ⟨r, hr, hid, -⟩, -⟩
      · exact (List.nodup_cons.mp h.nodup).1 (he ▸ List.mem_map_of_mem hx)
      · have hnone := h.fresh x (List.mem_cons_of_mem _ hx)
        rw [← he, ← hid, Table.find?_of_mem hr] at hnone
        cases hnone
    rw [show ({ w with memories := d.backend.upsert w.memories m } : World).memories =
      d.backend.upsert w.memories m from rfl, Backend.find?_upsert, if_neg hxm]
    exact h.fresh x (List.mem_cons_of_mem _ hx)
  · exact (List.nodup_cons.mp h.nodup).2
  · intro x hx
    rcases List.mem_append.mp hx with hx | hx
    · exact created_of_keeps hkeeps (h.created x hx)
    · obtain rfl := List.mem_singleton.mp hx
      exact ⟨_, (Backend.mem_upsert _).mpr (Or.inl rfl), Backend.stored_id _ _ _,
        Backend.stored_content _ _ _⟩
  · intro c hc
    rcases h.held c hc with hrest | hheld
    · rcases List.mem_cons.mp hrest with rfl | hrest
      · refine Or.inr ⟨_, (Backend.mem_upsert _).mpr (Or.inl rfl), Holds.congr ?_
          (Backend.stored_content _ _ m)⟩
        rcases hm with rfl | ⟨hcons, -, hsim⟩
        · exact Or.inl rfl
        · exact Or.inr ⟨hcons, hsim⟩
      · exact Or.inl hrest
    · exact Or.inr (held_of_keeps hkeeps hheld)

theorem wp_storeCandidate_delivering
    (h : Delivering d req t₀ event all created (mem :: rest) (w, history)) :
    wp (watched d) (fun o t => match o with
      | .ok stored => Delivering d req t₀ event all (created ++ [stored]) rest t
      | .error _ => Added d req t₀ t) (storeCandidate d mem) (w, history) := by
  unfold storeCandidate
  split
  · next hc =>
    rw [wp_bind]
    apply wp_consolidate
    intro o w' writes ho
    have hdel := h.consolidated hc (consolidated_of_outcome ho)
    cases o with
    | ok result =>
      exact wp_upsert_delivering hdel ((result_of_outcome ho).imp_right fun hr => ⟨hc, hr⟩)
    | error e => exact hdel.added
  · exact wp_upsert_delivering h (Or.inl rfl)

/-- A skipped candidate is held by the memory it duplicates. -/
theorem Delivering.skip (h : Delivering d req t₀ event all created (mem :: rest) t)
    (hd : isDuplicate d.lower created mem = true) : Delivering d req t₀ event all created rest t where
  added := h.added
  stored := h.stored
  fresh m hm := h.fresh m (List.mem_cons_of_mem _ hm)
  nodup := (List.nodup_cons.mp h.nodup).2
  created := h.created
  held c hc := by
    rcases h.held c hc with hrest | hheld
    · rcases List.mem_cons.mp hrest with rfl | hrest
      · obtain ⟨m, hm, hkey⟩ := List.any_eq_true.mp hd
        obtain ⟨r, hr, -, hcontent⟩ := h.created m hm
        have hhold : Holds d m c := Or.inl (by simpa using hkey)
        exact Or.inr ⟨r, hr, hhold.congr hcontent⟩
      · exact Or.inl hrest
    · exact Or.inr hheld

theorem Delivering.frame (hsame : SameRows w w')
    (h : Delivering d req t₀ event all created rest (w, history)) :
    Delivering d req t₀ event all created rest (w', history) where
  added := h.added.trans
    ⟨by rw [hsame.events], fun e he => Or.inl (hsame.events ▸ he), fun _ => by rw [hsame.memories]⟩
  stored := hsame.events ▸ h.stored
  fresh := hsame.memories ▸ h.fresh
  nodup := h.nodup
  created := hsame.memories ▸ h.created
  held := hsame.memories ▸ h.held

/-! ## A delivery and a run of deliveries -/

theorem added_append (hfresh : w.events.find? event.id = none)
    (hcopy : ∃ now id, event = newEvent now id req) :
    Added d req (w, history) ({ w with events := w.events.upsert event },
      note Call.isWrite (.appendEvent event) w (.ok () : Except Err (Resp (.appendEvent event)))
        history) := by
  refine ⟨?_, fun e he => ?_, fun _ => by simp⟩
  · have hlen := Table.length_upsert w.events event
    rw [if_pos hfresh] at hlen
    simp only [appends_note_append, hlen, Except.isOk, Except.toBool, if_true]
    omega
  · rcases Table.mem_upsert.mp he with rfl | ⟨he, -⟩
    · exact Or.inr hcopy
    · exact Or.inl he

theorem delivering_init {ids : List String} (h : Added d req t₀ (w, history))
    (hstored : event ∈ w.events.rows) (hnodup : ids.Nodup) (hfresh : ∀ id ∈ ids, w.Fresh id)
    (hlen : ids.length = (d.distill event).length) :
    Delivering d req t₀ event (withIDs (d.distill event) ids) [] (withIDs (d.distill event) ids)
      ({ w with issued := ids ++ w.issued }, history) where
  added := ⟨h.events, h.copies, h.memories⟩
  stored := hstored
  fresh m hm := by
    obtain ⟨-, -, hid, -⟩ := mem_withIDs hm
    exact (hfresh _ hid).2.2
  nodup := by rwa [map_id_withIDs hlen]
  created := by simp
  held c hc := Or.inl hc

theorem held_distilled {ids : List String} (hlen : ids.length = (d.distill event).length)
    (h : Delivering d req t₀ event (withIDs (d.distill event) ids) created [] t) :
    ∀ c ∈ d.distill event, ∃ m ∈ t.1.memories.rows, Holds d m c := by
  intro c hc
  obtain ⟨c', hc', hcontent⟩ := exists_withIDs hlen hc
  obtain ⟨m, hm, hold⟩ := (h.held c' hc').resolve_left (by simp)
  refine ⟨m, hm, ?_⟩
  unfold Holds dedupeKey at *
  rwa [hcontent] at hold

/-- Every delivery, with what it adds. -/
theorem wp_ingest_added (h : Added d req t₀ (w, history)) :
    wp (watched d) (fun o t => match o with
      | .ok resp => AtLeastOnce d req t₀ resp t
      | .error _ => Added d req t₀ t) (ingest d req) (w, history) := by
  unfold ingest
  rw [wp_recorded_bind]
  intro r w₁ hs
  obtain ⟨now, rfl, -, rfl⟩ := step_sure hs rfl
  dsimp only
  rw [wp_recorded_bind]
  intro r w₂ hs
  obtain ⟨id, rfl, hid, rfl⟩ := step_sure hs rfl
  dsimp only
  have hissued : Added d req t₀ ({ w₁ with issued := id :: w₁.issued }, history) :=
    ⟨h.events, h.copies, h.memories⟩
  change wp (watched d) _ _ ({ w₁ with issued := id :: w₁.issued }, history)
  split
  · exact hissued
  rw [wp_recorded_bind]
  intro r w₃ hs
  rcases step_store hs rfl with ⟨_, rfl, rfl⟩ | ⟨e, rfl, -, rfl⟩
  swap
  · exact hissued.trans ⟨by simp [Except.isOk, Except.toBool], fun e he => Or.inl he, by simp⟩
  dsimp only
  have happended := hissued.trans (added_append hid.2.1 ⟨now, id, rfl⟩)
  rw [wp_recorded_bind]
  intro r w₄ hs
  rcases step_store hs rfl with ⟨_, rfl, ids, hnodup, hfresh, hlen, rfl, rfl⟩ | ⟨e, rfl, -, rfl⟩
  swap
  · exact happended
  dsimp only
  have hinit := delivering_init happended (Table.mem_upsert_self _ _) hnodup hfresh hlen
  rw [wp_bind]
  refine wp_mono ?_ _ _ (wp_ingestLoop
    (fun created rest => Delivering d req t₀ _ (withIDs _ ids) created rest)
    (fun _ => Added d req t₀) (fun _ _ _ _ _ hsame h => h.frame hsame)
    (fun _ _ _ _ h hd => h.skip hd) (fun _ _ _ _ h _ => wp_storeCandidate_delivering h) hinit)
  rintro (e | created) ⟨w', history'⟩ h
  · exact h
  change wp (watched d) _ (indexCreated d created >>= _) (w', history')
  rw [wp_bind]
  refine wp_mono ?_ _ _ (wp_indexing (indexes_indexCreated d created))
  rintro o ⟨w'', history''⟩ ⟨hsame, rfl⟩
  have hdone := h.frame hsame
  cases o with
  | ok _ => exact ⟨hdone.added, hdone.stored, held_distilled hlen hdone⟩
  | error _ => exact hdone.added

/-- A world after one more delivery of a statement that distills to nothing. -/
def World.delivered (w : World) (id : String) : World :=
  { w with
    issued := id :: w.issued
    events := w.events.upsert (newEvent 5 id (statement "ola")) }

theorem exec_delivery {id : String} (hid : w.Fresh id) :
    Exec (watched (.inProcess 5)) (ingest (.inProcess 5) (statement "ola")) (w, history)
      (.ok ⟨newEvent 5 id (statement "ola"), []⟩)
      (w.delivered id, history ++ [⟨.appendEvent (newEvent 5 id (statement "ola")),
        { w with issued := id :: w.issued }, false⟩]) := by
  have hvalid : validateEvent (newEvent 5 id (statement "ola")) = none :=
    (show validateEvent (newEvent 5 "" (statement "ola")) = none by decide)
  unfold ingest
  refine exec_answer (show Answers _ .now w 5 w from ⟨rfl, rfl⟩) ?_
  refine exec_answer (show Answers _ (.newID "evt") w id _ from ⟨hid, rfl⟩) ?_
  dsimp only
  rw [hvalid]
  refine exec_answer (show Answers _ (.appendEvent _) _ () _ from rfl) ?_
  refine exec_answer (show Answers (.inProcess 5) (.extract _) _ [] (w.delivered id) from
    ⟨[], List.nodup_nil, by simp, rfl, rfl, rfl⟩) ?_
  exact Exec.bind (.ret _ _) (Exec.bind (.ret _ _) (.ret _ _))

/-- The worker finishes a delivery, cannot mark it done and gets the message again. -/
theorem deliveries_twice :
    ∃ t, Deliveries (.inProcess 5) (statement "ola") (World.empty, [])
      ⟨newEvent 5 "e2" (statement "ola"), []⟩ (((World.empty.delivered "e1").delivered "e2"), t) := by
  have hfresh : World.empty.Fresh "e1" := ⟨by decide, by decide, by decide⟩
  have hfresh' : (World.empty.delivered "e1").Fresh "e2" := ⟨by decide, by decide, by decide⟩
  exact ⟨_, .again (exec_delivery hfresh) (.last (exec_delivery hfresh'))⟩

end AgentMemory
