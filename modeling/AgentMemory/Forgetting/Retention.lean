import AgentMemory.Lib.Pages
import AgentMemory.Consolidation.Scoped
import AgentMemory.Forgetting.Interleaving

/-!
# Repeated retention sweeps

`Sweep` (`internal/services/forgetting/expiration.go:31-67`) asks for 500 memories of the tenant, and
`NormalizedLimit` makes 50 of them, the most important ones. A sweep removes what it expires from the
active memories and leaves the others, so the pages of later sweeps reach further down only as far as the
active memories that stay leave room. `sweeps_complete_iff` says for which stores that is far enough.
-/

namespace AgentMemory

open Tables Calls

/-- An active memory of the tenant. -/
def activeOf (tenantID : String) (m : Memory) : Bool := m.tenantID = tenantID && m.status = .active

/-- A memory is past its `ValidUntil` or, under a positive TTL, older than the TTL. -/
def PastRetention (pol : RetentionPolicy) (now : Time) (m : Memory) : Prop :=
  (∃ until_, m.validUntil = some until_ ∧ until_ < now) ∨ (0 < pol.defaultTTL ∧ pol.defaultTTL < now - m.updatedAt)

/-- No active memory of the tenant is past its retention. -/
def NothingOverdue (tenantID : String) (pol : RetentionPolicy) (now : Time) (s : MemoryStore) : Prop :=
  ∀ m ∈ s.rows, m.tenantID = tenantID → m.status = .active → ¬ PastRetention pol now m

/-- The active memories of the tenant that a sweep leaves and that may be listed before another one. -/
def leftBefore (tenantID : String) (pol : RetentionPolicy) (now : Time) (s : MemoryStore) (m : Memory) : List Memory :=
  (s.rows.filter (activeOf tenantID)).filter fun n => !sweepExpires pol now n && ListedBefore n m

/-- So many sweeps of a tenant, one after the other. -/
abbrev Sweeps (d : Deployment) (tenantID : String) (pol : RetentionPolicy) : Nat → World → World → Prop :=
  Pages.Times fun w w' => ∃ o, Exec (step d) (sweep tenantID pol) w o w'

variable {d : Deployment} {tenantID : String} {pol : RetentionPolicy} {now : Time} {w w' : World} {m : Memory}

theorem activeOf_iff : activeOf tenantID m = true ↔ m.tenantID = tenantID ∧ m.status = .active := by
  simp [activeOf]

theorem sweepExpires_iff : sweepExpires pol now m = true ↔ PastRetention pol now m := by
  unfold sweepExpires PastRetention
  cases m.validUntil with
  | none => simp
  | some until_ => simp

/-! ## One sweep -/

/-- The call changes a row of the memories. -/
def Call.touchesRows : Call → Bool
  | .upsert _ | .delete _ _ => true
  | _ => false

theorem step_untouched {c : Call} {r : Except Err (Resp c)} (h : step d c w r w') (hc : c.touchesRows = false) :
    w'.memories = w.memories := by
  rcases step_cases h with ⟨a, rfl, ha⟩ | ⟨e, rfl, rfl⟩
  · cases c with
    | upsert m => cases hc
    | delete t id => cases hc
    | extract e =>
      obtain ⟨-, -, -, -, -, rfl⟩ := ha
      rfl
    | _ => first | (subst ha; rfl) | (obtain ⟨-, rfl⟩ := ha; rfl)
  · rfl

/-- The row is out of the active memories of the tenant, and the others are as they were. -/
def Retired (tenantID : String) (m : Memory) (s s' : MemoryStore) : Prop :=
  ∀ a, activeOf tenantID a = true → (a ∈ s'.rows ↔ a ∈ s.rows ∧ a ≠ m)

theorem retired_upsert {s : MemoryStore} (hm : m ∈ s.rows) {row : Memory} (hid : row.id = m.id)
    (hrow : activeOf tenantID row = false) : Retired tenantID m s (s.upsert row) := by
  intro a ha
  rw [Table.mem_upsert, hid]
  constructor
  · rintro (rfl | ⟨hmem, hne⟩)
    · rw [hrow] at ha
      cases ha
    · exact ⟨hmem, fun heq => hne (heq ▸ rfl)⟩
  · rintro ⟨hmem, hne⟩
    exact Or.inr ⟨hmem, fun heq => hne (Table.eq_of_key hmem hm heq)⟩

variable {timestamptz : String → Time} {ilike : String → String → Bool}

/-- Postgres deletes a row of the tenant. -/
theorem exists_delete (hm : m ∈ w.memories.rows) (htenant : m.tenantID = tenantID) (at_ : Time) :
    (Backend.postgres timestamptz ilike).delete w.memories tenantID m.id at_ =
      some (w.memories.upsert { m with status := .deleted, updatedAt := at_ }) := by
  unfold Backend.delete
  rw [Table.find?_of_mem hm]
  simp [htenant]

theorem activeOf_of_status {row : Memory} (h : row.status ≠ .active) : activeOf tenantID row = false := by
  simp [activeOf, h]

/-- A deletion retires the row; what it does besides cannot fail it. -/
theorem wp_delete_retired (hm : m ∈ w.memories.rows) (htenant : m.tenantID = tenantID) (reason : String) :
    wp (step ((d.onPostgres timestamptz ilike).steady now))
      (fun o w' => (∃ receipt, o = .ok receipt) ∧ Retired tenantID m w.memories w'.memories)
      (delete ⟨tenantID, "", m.id, reason⟩) w := by
  unfold delete
  rw [wp_perform_bind]
  intro r w₁ hs
  rcases hs with ⟨_, rfl, at_, s, hdelete, rfl⟩ | ⟨e, -, -, hrefused | ⟨hf, -⟩⟩
  · have hgone := (exists_delete hm htenant at_).symm.trans hdelete
    obtain rfl := Option.some.inj hgone
    have hretired : Retired tenantID m w.memories
        (w.memories.upsert { m with status := .deleted, updatedAt := at_ }) :=
      retired_upsert hm rfl (activeOf_of_status Status.noConfusion)
    -- the five calls that follow leave the memories alone, and none of them can end the deletion
    dsimp only
    rw [wp_bind, wp_ignore]
    intro r₁ w₁ h₁
    rw [bindPost, wp_bind, wp_ignore]
    intro r₂ w₂ h₂
    rw [bindPost, wp_perform_bind]
    intro r₃ w₃ h₃
    obtain ⟨-, rfl, -, rfl⟩ := step_sure h₃ rfl
    dsimp only
    rw [wp_perform_bind]
    intro r₄ w₄ h₄
    obtain ⟨rid, rfl, -, rfl⟩ := step_sure h₄ rfl
    dsimp only
    rw [wp_bind, wp_ignore]
    intro r₅ w₅ h₅
    rw [bindPost, wp_perform_bind]
    intro r₆ w₆ h₆
    obtain ⟨at', rfl, -, rfl⟩ := step_sure h₆ rfl
    refine ⟨⟨_, rfl⟩, ?_⟩
    rw [step_untouched h₅ rfl, step_untouched h₂ rfl, step_untouched h₁ rfl]
    exact hretired
  · have hgone := (exists_delete hm htenant now).symm.trans (hrefused.1 now)
    cases hgone
  · exact hf.elim

/-- A sweep retires what it expires, softly or hard. -/
theorem wp_sweepOne (hm : m ∈ w.memories.rows) (hactive : activeOf tenantID m = true) :
    wp (step ((d.onPostgres timestamptz ilike).steady now))
      (fun o w' => o = .ok () ∧ Retired tenantID m w.memories w'.memories) (sweepOne pol tenantID now m) w := by
  obtain ⟨htenant, -⟩ := activeOf_iff.mp hactive
  unfold sweepOne
  split
  · rw [wp_bind]
    refine wp_mono ?_ _ _ (wp_delete_retired hm htenant "retention_sweep")
    rintro o w₁ ⟨⟨receipt, rfl⟩, hretired⟩
    exact ⟨rfl, hretired⟩
  · apply wp_perform.mpr
    intro r w₁ hs
    rcases step_store hs rfl with ⟨_, rfl, rfl⟩ | ⟨e, -, hf, -⟩
    · refine ⟨rfl, retired_upsert hm (Backend.stored_id _ _ _) (activeOf_of_status ?_)⟩
      rw [Backend.stored_status]
      exact Status.noConfusion
    · exact hf.elim

/-- The active memories after a sweep that read these ones. -/
def SweptOf (pol : RetentionPolicy) (tenantID : String) (now : Time) (listed : List Memory) (s s' : MemoryStore) : Prop :=
  ∀ a, activeOf tenantID a = true → (a ∈ s'.rows ↔ a ∈ s.rows ∧ ¬ (a ∈ listed ∧ sweepExpires pol now a = true))

theorem SweptOf.of_retired {listed : List Memory} {s s₁ s' : MemoryStore} (hexpires : sweepExpires pol now m = true)
    (h : Retired tenantID m s s₁) (h' : SweptOf pol tenantID now listed s₁ s') :
    SweptOf pol tenantID now (m :: listed) s s' := by
  intro a ha
  rw [h' a ha, h a ha, List.mem_cons]
  constructor
  · rintro ⟨⟨hmem, hne⟩, hnot⟩
    exact ⟨hmem, fun hswept => hnot ⟨hswept.1.resolve_left hne, hswept.2⟩⟩
  · rintro ⟨hmem, hnot⟩
    refine ⟨⟨hmem, ?_⟩, fun hswept => hnot ⟨Or.inr hswept.1, hswept.2⟩⟩
    rintro rfl
    exact hnot ⟨Or.inl rfl, hexpires⟩

theorem SweptOf.skip {listed : List Memory} {s s' : MemoryStore} (hkept : sweepExpires pol now m = false)
    (h : SweptOf pol tenantID now listed s s') : SweptOf pol tenantID now (m :: listed) s s' := by
  intro a ha
  rw [h a ha, List.mem_cons]
  refine and_congr_right fun _ => not_congr (and_congr_left fun hexpires => ?_)
  refine ⟨Or.inr, fun hmem => hmem.resolve_left ?_⟩
  rintro rfl
  rw [hkept] at hexpires
  cases hexpires

/-- What the sweep does to a list of active rows. -/
theorem wp_sweepLoop (affected : Nat) (listed : List Memory) (hnodup : listed.Nodup)
    (hrows : ∀ m ∈ listed, m ∈ w.memories.rows ∧ activeOf tenantID m = true) :
    wp (step ((d.onPostgres timestamptz ilike).steady now))
      (fun o w' => (∃ n, o = .ok n) ∧ SweptOf pol tenantID now listed w.memories w'.memories)
      (sweepLoop pol tenantID now affected listed) w := by
  induction listed generalizing affected w with
  | nil => exact ⟨⟨affected, rfl⟩, fun a _ => by simp⟩
  | cons mem rest ih =>
    obtain ⟨hnew, hnodup⟩ := List.nodup_cons.mp hnodup
    obtain ⟨⟨hrow, hactive⟩, hrest⟩ := List.forall_mem_cons.mp hrows
    rw [sweepLoop, if_neg (not_not.mpr (activeOf_iff.mp hactive).2)]
    split
    · next hkept =>
      refine wp_mono ?_ _ _ (ih affected hnodup hrest)
      rintro o w₁ ⟨hok, hswept⟩
      exact ⟨hok, hswept.skip hkept⟩
    · next hexpires =>
      rw [wp_bind]
      refine wp_mono ?_ _ _ (wp_sweepOne hrow hactive)
      rintro o w₁ ⟨rfl, hretired⟩
      have hrest' : ∀ m ∈ rest, m ∈ w₁.memories.rows ∧ activeOf tenantID m = true := by
        intro m hm
        obtain ⟨hmrow, hmactive⟩ := hrest m hm
        exact ⟨(hretired m hmactive).mpr ⟨hmrow, fun heq => hnew (heq ▸ hm)⟩, hmactive⟩
      refine wp_mono ?_ _ _ (ih (affected + 1) hnodup hrest')
      rintro o w₂ ⟨hok, hswept⟩
      exact ⟨hok, hswept.of_retired (Bool.not_eq_false _ ▸ hexpires) hretired⟩

/-! ## Sweeps can be made -/

theorem exists_exec_sweepOne (hm : m ∈ w.memories.rows) (hactive : activeOf tenantID m = true) :
    ∃ w', Exec (step ((d.onPostgres timestamptz ilike).steady now)) (sweepOne pol tenantID now m) w (.ok ()) w' := by
  obtain ⟨htenant, -⟩ := activeOf_iff.mp hactive
  unfold sweepOne
  split
  · let gone : MemoryStore := w.memories.upsert { m with status := .deleted, updatedAt := now }
    obtain ⟨rid, hrid⟩ := exists_fresh { w with memories := gone }
    have hdelete : (Backend.postgres timestamptz ilike).delete w.memories tenantID m.id now = some gone :=
      exists_delete hm htenant now
    exact ⟨_, exec_delete rfl hdelete hrid⟩
  · exact ⟨_, .perform (step_answer rfl)⟩

theorem exists_exec_sweepLoop (affected : Nat) (listed : List Memory) (hnodup : listed.Nodup)
    (hrows : ∀ m ∈ listed, m ∈ w.memories.rows ∧ activeOf tenantID m = true) :
    ∃ o w', Exec (step ((d.onPostgres timestamptz ilike).steady now)) (sweepLoop pol tenantID now affected listed)
      w o w' := by
  induction listed generalizing affected w with
  | nil => exact ⟨_, _, .ret affected w⟩
  | cons mem rest ih =>
    obtain ⟨hnew, hnodup⟩ := List.nodup_cons.mp hnodup
    obtain ⟨⟨hrow, hactive⟩, hrest⟩ := List.forall_mem_cons.mp hrows
    rw [sweepLoop, if_neg (not_not.mpr (activeOf_iff.mp hactive).2)]
    split
    · exact ih affected hnodup hrest
    · have hexists : ∃ w₁, Exec (step ((d.onPostgres timestamptz ilike).steady now))
          (sweepOne pol tenantID now mem) w (.ok ()) w₁ := exists_exec_sweepOne hrow hactive
      obtain ⟨w₁, hone⟩ := hexists
      have hretired := (hone.post (wp_sweepOne hrow hactive)).2
      have hrest' : ∀ m ∈ rest, m ∈ w₁.memories.rows ∧ activeOf tenantID m = true := by
        intro m hm
        obtain ⟨hmrow, hmactive⟩ := hrest m hm
        exact ⟨(hretired m hmactive).mpr ⟨hmrow, fun heq => hnew (heq ▸ hm)⟩, hmactive⟩
      obtain ⟨o, w', hloop⟩ := ih (affected + 1) hnodup hrest'
      exact ⟨o, w', hone.bind hloop⟩

/-- The query of a sweep. -/
def sweepQuery (tenantID : String) : Query := { Query.zero with tenantID := tenantID, limit := sweepBatchSize }

theorem listClauses_sweepQuery (htenant : tenantID ≠ "") (m : Memory) :
    listClauses timestamptz (sweepQuery tenantID) m = activeOf tenantID m := by
  have hfilter : ∀ key, (sweepQuery tenantID).filter key = "" := fun _ => rfl
  have hstatus : Status.ofName (listStatus (sweepQuery tenantID)) = .active := rfl
  rw [Bool.eq_iff_iff, activeOf_iff]
  simp only [listClauses, hfilter, hstatus, Bool.and_eq_true, Bool.or_eq_true, decide_eq_true_eq, true_or, and_true]
  simp only [sweepQuery, Query.zero, htenant, true_or, false_or, and_true]

/-- What a sweep can list is a page of the active memories of the tenant. -/
theorem lists_sweepQuery (htenant : tenantID ≠ "") {s : MemoryStore} {listed : List Memory} :
    ((d.onPostgres timestamptz ilike).steady now).backend.Lists s (sweepQuery tenantID) listed ↔
      Pages.Page ListedBefore 50 (s.rows.filter (activeOf tenantID)) listed := by
  have hclauses : listClauses timestamptz (sweepQuery tenantID) = activeOf tenantID :=
    funext (listClauses_sweepQuery htenant)
  show Selects (listClauses timestamptz (sweepQuery tenantID)) s (sweepQuery tenantID) listed ↔ _
  rw [hclauses]
  exact Iff.rfl

theorem listed_rows {s : MemoryStore} {listed : List Memory}
    (h : Pages.Page ListedBefore 50 (s.rows.filter (activeOf tenantID)) listed) :
    listed.Nodup ∧ ∀ m ∈ listed, m ∈ s.rows ∧ activeOf tenantID m = true := by
  refine ⟨?_, fun m hm => List.mem_filter.mp (h.mem hm)⟩
  obtain ⟨ordered, hperm, -, rfl⟩ := h
  exact (hperm.nodup_iff.mpr (s.rows_nodup.filter _)).sublist (List.take_sublist 50 ordered)

theorem SweptOf.mem_filter {listed : List Memory} {s s' : MemoryStore} (h : SweptOf pol tenantID now listed s s')
    (a : Memory) : a ∈ s'.rows.filter (activeOf tenantID) ↔
      a ∈ s.rows.filter (activeOf tenantID) ∧ ¬ (a ∈ listed ∧ sweepExpires pol now a = true) := by
  simp only [List.mem_filter]
  constructor
  · rintro ⟨hmem, hactive⟩
    obtain ⟨hrow, hnot⟩ := (h a hactive).mp hmem
    exact ⟨⟨hrow, hactive⟩, hnot⟩
  · rintro ⟨⟨hrow, hactive⟩, hnot⟩
    exact ⟨(h a hactive).mpr ⟨hrow, hnot⟩, hactive⟩

/-- A sweep reads some page and clears it. -/
theorem page_of_sweep (htenant : tenantID ≠ "") {o : Except Err Nat}
    (hexec : Exec (step ((d.onPostgres timestamptz ilike).steady now)) (sweep tenantID pol) w o w') :
    ∃ listed, Pages.Page ListedBefore 50 (w.memories.rows.filter (activeOf tenantID)) listed ∧
      SweptOf pol tenantID now listed w.memories w'.memories := by
  suffices hwp : wp (step ((d.onPostgres timestamptz ilike).steady now)) (fun _ w' => ∃ listed,
      Pages.Page ListedBefore 50 (w.memories.rows.filter (activeOf tenantID)) listed ∧
        SweptOf pol tenantID now listed w.memories w'.memories) (sweep tenantID pol) w from hexec.post hwp
  unfold sweep
  rw [wp_perform_bind]
  intro r w₁ hs
  obtain ⟨at_, rfl, rfl, rfl⟩ := step_sure hs rfl
  dsimp only
  rw [wp_perform_bind]
  intro r w₂ hs
  rcases step_store hs rfl with ⟨listed, rfl, hlists, rfl⟩ | ⟨e, -, hf, -⟩
  · have hpage := (lists_sweepQuery htenant).mp hlists
    obtain ⟨hnodup, hrows⟩ := listed_rows hpage
    refine wp_mono ?_ _ _ (wp_sweepLoop 0 listed hnodup hrows)
    rintro o w₃ ⟨-, hswept⟩
    exact ⟨listed, hpage, hswept⟩
  · exact hf.elim

/-- Any page may be the one. -/
theorem exists_sweep_of_page (htenant : tenantID ≠ "") {listed : List Memory}
    (hpage : Pages.Page ListedBefore 50 (w.memories.rows.filter (activeOf tenantID)) listed) :
    ∃ o w', Exec (step ((d.onPostgres timestamptz ilike).steady now)) (sweep tenantID pol) w o w' ∧
      SweptOf pol tenantID now listed w.memories w'.memories := by
  obtain ⟨hnodup, hrows⟩ := listed_rows hpage
  have hloop : ∃ o w', Exec (step ((d.onPostgres timestamptz ilike).steady now))
      (sweepLoop pol tenantID now 0 listed) w o w' := exists_exec_sweepLoop 0 listed hnodup hrows
  obtain ⟨o, w', hloop⟩ := hloop
  refine ⟨o, w', ?_, (hloop.post (wp_sweepLoop 0 listed hnodup hrows)).2⟩
  refine .answer (step_answer (show Answers _ .now w now w from ⟨rfl, rfl⟩)) ?_
  exact .answer (step_answer (show Answers _ (.list _) w listed w from ⟨(lists_sweepQuery htenant).mpr hpage, rfl⟩)) hloop

/-- The sweeps of a tenant clear pages of 50 of its active memories. -/
def sweeper (d : Deployment) (timestamptz : String → Time) (ilike : String → String → Bool) (now : Time)
    (pol : RetentionPolicy) {tenantID : String} (htenant : tenantID ≠ "") : Pages.Cleaner World Memory ListedBefore 50 where
  live w := w.memories.rows.filter (activeOf tenantID)
  due := sweepExpires pol now
  next w w' := ∃ o, Exec (step ((d.onPostgres timestamptz ilike).steady now)) (sweep tenantID pol) w o w'
  nodup w := w.memories.rows_nodup.filter _
  page_of_next := by
    rintro w w' ⟨o, hexec⟩
    obtain ⟨listed, hpage, hswept⟩ := page_of_sweep htenant hexec
    exact ⟨listed, hpage, hswept.mem_filter⟩
  next_of_page := by
    intro w listed hpage
    obtain ⟨o, w', hexec, hswept⟩ := exists_sweep_of_page htenant hpage
    exact ⟨w', ⟨o, hexec⟩, hswept.mem_filter⟩

theorem done_sweeper_iff (htenant : tenantID ≠ "") :
    (sweeper d timestamptz ilike now pol htenant).Done w ↔ NothingOverdue tenantID pol now w.memories := by
  unfold Pages.Cleaner.Done NothingOverdue
  simp only [sweeper, List.mem_filter, activeOf_iff, ← sweepExpires_iff, Bool.not_eq_true, and_imp]

theorem clearable_sweeper_iff (htenant : tenantID ≠ "") :
    (sweeper d timestamptz ilike now pol htenant).Clearable w ↔
      ∀ m ∈ w.memories.rows, m.tenantID = tenantID → m.status = .active → PastRetention pol now m →
        (leftBefore tenantID pol now w.memories m).length < 50 := by
  unfold Pages.Cleaner.Clearable
  simp only [← sweepExpires_iff]
  constructor
  · intro h m hm htenant hactive hdue
    exact h m (List.mem_filter.mpr ⟨hm, activeOf_iff.mpr ⟨htenant, hactive⟩⟩) hdue
  · intro h m hm hdue
    obtain ⟨hm, hactive⟩ := List.mem_filter.mp hm
    obtain ⟨htenant, hactive⟩ := activeOf_iff.mp hactive
    exact h m hm htenant hactive hdue

/-- Some number of sweeps at a fixed clock leaves nothing overdue exactly where no overdue memory has 50
others that stay before it. -/
theorem sweeps_complete_iff (d : Deployment) (timestamptz : String → Time) (ilike : String → String → Bool)
    (now : Time) (pol : RetentionPolicy) {tenantID : String} (htenant : tenantID ≠ "") (w : World) :
    (∃ n, ∀ w', Sweeps ((d.onPostgres timestamptz ilike).steady now) tenantID pol n w w' →
        NothingOverdue tenantID pol now w'.memories) ↔
      ∀ m ∈ w.memories.rows, m.tenantID = tenantID → m.status = .active → PastRetention pol now m →
        (leftBefore tenantID pol now w.memories m).length < 50 := by
  have hclears := (sweeper d timestamptz ilike now pol htenant).done_iff_clearable w
  simp only [done_sweeper_iff htenant, clearable_sweeper_iff htenant] at hclears
  exact hclears

/-- Fifty statements that are important, and one that is not and whose time is over. -/
def lastingFact (n : Nat) : Memory := { userFact 1 (String.ofList (List.replicate n 'i')) "alice gosta de cafe" with importance := 1 }
def outdatedFact : Memory := { userFact 1 "old" "alice mora em lisboa" with validUntil := some 2 }

def crowdedStore : MemoryStore := ⟨outdatedFact :: (List.range 50).map lastingFact, by decide +kernel⟩

/-- Postgres, without what a sweep does not use of it. -/
def sweptDeployment : Deployment := (Deployment.inProcess 5).onPostgres (fun _ => 0) (fun _ _ => false)

/-- In a store of two no page is full. -/
theorem sweeps_complete_few :
    (∃ n, ∀ w', Sweeps (sweptDeployment.steady 5) "t" ⟨"t", 0, false⟩ n
        (.holding (Table.empty.upsert outdatedFact)) w' → NothingOverdue "t" ⟨"t", 0, false⟩ 5 w'.memories) ↔
      ∀ m ∈ (Table.empty.upsert outdatedFact : MemoryStore).rows, m.tenantID = "t" → m.status = .active →
        PastRetention ⟨"t", 0, false⟩ 5 m →
          (leftBefore "t" ⟨"t", 0, false⟩ 5 (Table.empty.upsert outdatedFact) m).length < 50 :=
  sweeps_complete_iff (.inProcess 5) (fun _ => 0) (fun _ _ => false) 5 ⟨"t", 0, false⟩ (by decide)
    (.holding (Table.empty.upsert outdatedFact))

/-- The fifty are the page of every sweep, and the one stays active. -/
theorem sweeps_never_complete :
    ¬ ∃ n, ∀ w', Sweeps (sweptDeployment.steady 5) "t" ⟨"t", 0, false⟩ n
      (.holding crowdedStore) w' → NothingOverdue "t" ⟨"t", 0, false⟩ 5 w'.memories := by
  rintro ⟨n, h⟩
  have htenant : "t" ≠ "" := by decide
  have hlive : outdatedFact ∈ (sweeper (.inProcess 5) (fun _ => 0) (fun _ _ => false) 5 ⟨"t", 0, false⟩ htenant).live
      (.holding crowdedStore) := List.mem_filter.mpr ⟨List.mem_cons_self, by decide⟩
  have hdue : sweepExpires ⟨"t", 0, false⟩ 5 outdatedFact = true := by decide
  have hstay : (leftBefore "t" ⟨"t", 0, false⟩ 5 crowdedStore outdatedFact).length = 50 := by decide +kernel
  obtain ⟨w', hsweeps, hstarved⟩ := Pages.Cleaner.exists_times_starving hlive hdue hstay.ge n
  have hdone := (done_sweeper_iff htenant).mpr (h w' hsweeps) outdatedFact hstarved
  rw [show (sweeper (.inProcess 5) (fun _ => 0) (fun _ _ => false) 5 ⟨"t", 0, false⟩ htenant).due outdatedFact = true from hdue] at hdone
  cases hdone

end AgentMemory
