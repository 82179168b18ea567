import AgentMemory.Consolidation.Contradiction
import AgentMemory.Lib.Sorted

/-!
# The scope of a consolidation

The doc comment of `Consolidate` (`service.go:34-37`) says that a candidate is compared
"against active same-scope memories". The query names the tenant and the user, which are
wildcards where they are empty, and a type filter that only Postgres applies; of the tests
only supersession and contradiction compare the type. `consolidate_stays_in_scope_iff` says
for both backends which rows of the store a call can act on, and what these rows must agree
on with the candidate for the call to stay in its scope.
-/

namespace AgentMemory

open Tables Calls

/-- The memory is in the scope of the candidate. -/
structure SameScope (candidate n : Memory) : Prop where
  tenantID : n.tenantID = candidate.tenantID
  userID : n.userID = candidate.userID
  agentID : n.agentID = candidate.agentID
  projectID : n.projectID = candidate.projectID
  scope : n.scope.name = candidate.scope.name
  sessionID : candidate.scope.name = "session" → n.sessionID = candidate.sessionID
  type : n.type.name = candidate.type.name

/-- The ids of the memories a result has merged, superseded or linked. -/
def Result.touched (r : Result) : List String :=
  match r.action with
  | .merged => [r.memory.id]
  | .superseded | .contradicts => r.updated.map Memory.id
  | .new => []

/-- In an execution that starts in `w` and ends with `o` in `w'`, every stored memory that
the result names, whose row changed or to which an edge was added, is in the scope of the
candidate. -/
structure StaysInScope (candidate : Memory) (w : World) (o : Except Err Result) (w' : World) :
    Prop where
  touched : ∀ r, o = .ok r → ∀ id ∈ r.touched, ∀ n, w.memories.find? id = some n →
    SameScope candidate n
  rows : ∀ id n, w.memories.find? id = some n → w'.memories.find? id ≠ some n →
    SameScope candidate n
  edges : ∀ e ∈ w'.edges, e ∉ w.edges → ∀ n, w.memories.find? e.toID = some n →
    SameScope candidate n

/-- The type filter does not narrow the list: the in-process store ignores it, and Postgres
does where the candidate has no type. -/
def Backend.IgnoresType : Backend → Memory → Prop
  | .memory, _ => True
  | .postgres _ _, candidate => candidate.type.name = ""

instance : DecidableRel ListedBefore := fun a b =>
  inferInstanceAs (Decidable (b.importance < a.importance ∨
    (a.importance = b.importance ∧ b.updatedAt ≤ a.updatedAt)))

/-- The row can be the first one that a test matches in an answer of `List`. In process any
matched row can; in Postgres fewer than 50 listed rows are ahead of it by importance and
update time, and none of them is matched. -/
def MayDecide (d : Deployment) (s : MemoryStore) (candidate : Memory) (now : Time) (n : Memory) :
    Prop :=
  match d.backend with
  | .memory =>
    n ∈ s.rows.filter (matchesQuery · (neighborQuery candidate)) ∧
      applies d.lower now candidate n = true
  | .postgres timestamptz _ =>
    let listed := s.rows.filter (listClauses timestamptz (neighborQuery candidate))
    n ∈ listed ∧ applies d.lower now candidate n = true ∧
      (Sorted.ahead ListedBefore listed n).length < 50 ∧
      ∀ m ∈ Sorted.ahead ListedBefore listed n, applies d.lower now candidate m = false

/-- What neither the query nor the tests have compared agrees. -/
structure AgreesWhereUnchecked (d : Deployment) (candidate n : Memory) : Prop where
  tenantID : candidate.tenantID = "" → n.tenantID = ""
  userID : candidate.userID = "" → n.userID = ""
  agentID : n.agentID = candidate.agentID
  projectID : n.projectID = candidate.projectID
  scope : n.scope.name = candidate.scope.name
  sessionID : candidate.scope.name = "session" → n.sessionID = candidate.sessionID
  type : d.backend.IgnoresType candidate →
    mergeThreshold ≤ similar d.lower n.content candidate.content →
    n.type.name = candidate.type.name

variable {d : Deployment} {candidate n : Memory} {now : Time} {neighbors : List Memory}
  {w w' : World}

/-! ## What the query and the tests check -/

theorem name_ofName (name : String) : (MemoryType.ofName name).name = name := by
  unfold MemoryType.ofName
  split_ifs with h h h h h h <;> simp [MemoryType.name, h]

theorem listedBefore_refl (a : Memory) : ListedBefore a a := Or.inr ⟨rfl, le_refl _⟩

theorem listedBefore_trans (a b c : Memory) (hab : ListedBefore a b) (hbc : ListedBefore b c) :
    ListedBefore a c := by
  rcases hab with hab | ⟨hab, hab'⟩
  · rcases hbc with hbc | ⟨hbc, -⟩
    · exact Or.inl (hbc.trans hab)
    · exact Or.inl (hbc ▸ hab)
  · rcases hbc with hbc | ⟨hbc, hbc'⟩
    · exact Or.inl (hab ▸ hbc)
    · exact Or.inr ⟨hab.trans hbc, hbc'.trans hab'⟩

theorem listedBefore_total (a b : Memory) : ListedBefore a b ∨ ListedBefore b a := by
  rcases lt_trichotomy a.importance b.importance with h | h | h
  · exact Or.inr (Or.inl h)
  · rcases le_total a.updatedAt b.updatedAt with hle | hle
    · exact Or.inr (Or.inr ⟨h.symm, hle⟩)
    · exact Or.inl (Or.inr ⟨h, hle⟩)
  · exact Or.inl (Or.inl h)

instance : IsTrans Memory ListedBefore := ⟨listedBefore_trans⟩

instance : Std.Total ListedBefore := ⟨listedBefore_total⟩

/-- `MayDecide` says which row is the first match in some answer. -/
theorem mayDecide_iff {s : MemoryStore} :
    MayDecide d s candidate now n ↔ ∃ neighbors, d.backend.Lists s (neighborQuery candidate) neighbors ∧
      neighbors.find? (applies d.lower now candidate) = some n := by
  unfold MayDecide
  cases d.backend with
  | memory =>
    constructor
    · rintro ⟨hmem, happ⟩
      exact ⟨n :: (s.rows.filter (matchesQuery · (neighborQuery candidate))).erase n,
        (List.perm_cons_erase hmem).symm, List.find?_cons_of_pos happ⟩
    · rintro ⟨neighbors, hlists, hfind⟩
      exact ⟨hlists.mem_iff.mp (List.mem_of_find?_eq_some hfind), List.find?_some hfind⟩
  | postgres timestamptz ilike =>
    have hlimit : (neighborQuery candidate).normalizedLimit = 50 := rfl
    dsimp only
    rw [← Sorted.exists_sorted_find?_iff listedBefore_refl listedBefore_trans listedBefore_total]
    constructor
    · rintro ⟨ordered, hperm, hsorted, hfind⟩
      exact ⟨ordered.take 50, ⟨ordered, hperm, hsorted, by rw [hlimit]⟩, hfind⟩
    · rintro ⟨neighbors, ⟨ordered, hperm, hsorted, rfl⟩, hfind⟩
      exact ⟨ordered, hperm, hsorted, by rwa [hlimit] at hfind⟩

/-- A listed memory has the candidate's tenant and user where the candidate has them. -/
theorem listed_tenant_user {s : MemoryStore}
    (hl : d.backend.Lists s (neighborQuery candidate) neighbors) (hn : n ∈ neighbors) :
    (candidate.tenantID ≠ "" → n.tenantID = candidate.tenantID) ∧
      (candidate.userID ≠ "" → n.userID = candidate.userID) := by
  cases hb : d.backend with
  | memory =>
    rw [hb] at hl
    have hmatch := (List.mem_filter.mp (hl.mem_iff.mp hn)).2
    unfold matchesQuery at hmatch
    split_ifs at hmatch with _ htenant huser
    exact ⟨fun hne => not_not.mp fun h => htenant ⟨hne, h⟩,
      fun hne => not_not.mp fun h => huser ⟨hne, h⟩⟩
  | postgres timestamptz ilike =>
    rw [hb] at hl
    have hclauses := (Backend.mem_of_selects hl hn).2
    simp only [listClauses, Bool.and_eq_true, Bool.or_eq_true, decide_eq_true_eq] at hclauses
    obtain ⟨⟨⟨⟨⟨⟨htenant, huser⟩, -⟩, -⟩, -⟩, -⟩, -⟩ := hclauses
    exact ⟨fun hne => htenant.resolve_left hne, fun hne => huser.resolve_left hne⟩

/-- Where Postgres filters by type, a listed memory has the candidate's. -/
theorem listed_type {s : MemoryStore} (hl : d.backend.Lists s (neighborQuery candidate) neighbors)
    (hn : n ∈ neighbors) (htype : ¬ d.backend.IgnoresType candidate) :
    n.type.name = candidate.type.name := by
  cases hb : d.backend with
  | memory =>
    rw [hb] at htype
    exact absurd trivial htype
  | postgres timestamptz ilike =>
    rw [hb] at hl htype
    have hclauses := (Backend.mem_of_selects hl hn).2
    have hfilter : (neighborQuery candidate).filter "type" = candidate.type.name := rfl
    simp only [listClauses, hfilter, Bool.and_eq_true, Bool.or_eq_true, decide_eq_true_eq] at hclauses
    obtain ⟨⟨⟨-, hn⟩, -⟩, -⟩ := hclauses
    rw [hn.resolve_left htype, name_ofName]

/-- For a memory that a test matches among those listed, being in scope is a matter of what
has not been compared. -/
theorem sameScope_iff {s : MemoryStore} (hl : d.backend.Lists s (neighborQuery candidate) neighbors)
    (hn : n ∈ neighbors) (happ : applies d.lower now candidate n = true) :
    SameScope candidate n ↔ AgreesWhereUnchecked d candidate n := by
  obtain ⟨htenant, huser⟩ := listed_tenant_user hl hn
  constructor
  · intro h
    exact ⟨fun he => h.tenantID.trans he, fun he => h.userID.trans he, h.agentID, h.projectID,
      h.scope, h.sessionID, fun _ _ => h.type⟩
  · intro h
    refine ⟨?_, ?_, h.agentID, h.projectID, h.scope, h.sessionID, ?_⟩
    · by_cases he : candidate.tenantID = ""
      · rw [h.tenantID he, he]
      · exact htenant he
    · by_cases he : candidate.userID = ""
      · rw [h.userID he, he]
      · exact huser he
    · by_cases hignored : d.backend.IgnoresType candidate
      · rcases (applies_iff.mp happ).2.2 with hmerge | hsup | hcon
        · exact h.type hignored hmerge
        · rw [(shouldSupersede_iff.mp hsup).1]
        · rw [(type_of_contradicts hcon).1]
      · exact listed_type hl hn hignored

/-! ## What a call acts on -/

/-- The only memory an execution acts on is the one under the id of `n`. -/
structure ActsOn (n : Memory) (w : World) (o : Except Err Result) (w' : World) : Prop where
  touched : ∀ r, o = .ok r → ∀ id ∈ r.touched, id = n.id
  rows : ∀ id, id ≠ n.id → w'.memories.find? id = w.memories.find? id
  edges : ∀ e ∈ w'.edges, e ∈ w.edges ∨ e.toID = n.id

theorem ActsOn.staysInScope {o : Except Err Result} (h : ActsOn n w o w') (hn : n ∈ w.memories.rows)
    (hscope : SameScope candidate n) : StaysInScope candidate w o w' := by
  have hrow : ∀ m, w.memories.find? n.id = some m → SameScope candidate m := by
    intro m hm
    obtain rfl := Option.some.inj ((Table.find?_of_mem hn).symm.trans hm)
    exact hscope
  constructor
  · intro r hr id hid m hm
    rw [h.touched r hr id hid] at hm
    exact hrow m hm
  · intro id m hm hchanged
    by_cases hid : id = n.id
    · exact hrow m (hid ▸ hm)
    · exact absurd ((h.rows id hid).trans hm) hchanged
  · intro e he hnew m hm
    rw [(h.edges e he).resolve_left hnew] at hm
    exact hrow m hm

/-- An execution that changes no row and no edge and names no memory. -/
theorem staysInScope_of_eq {o : Except Err Result} (hrows : w'.memories = w.memories)
    (hedges : w'.edges = w.edges) (htouched : ∀ r, o = .ok r → r.touched = []) :
    StaysInScope candidate w o w' := by
  constructor
  · intro r hr id hid
    rw [htouched r hr] at hid
    cases hid
  · intro id m hm hchanged
    rw [hrows] at hchanged
    exact absurd hm hchanged
  · intro e he hnew
    rw [hedges] at he
    exact absurd he hnew

theorem find?_upsert_other {b : Backend} {s : MemoryStore} {m : Memory} (hid : m.id = n.id) {id : String}
    (hne : id ≠ n.id) : (b.upsert s m).find? id = s.find? id := by
  rw [Backend.find?_upsert, if_neg]
  rintro rfl
  exact hne hid

theorem edges_linked {source target : Memory} {relation : RelationType}
    (hlink : Linked d source target relation w w') :
    w'.memories = w.memories ∧ ∀ e ∈ w'.edges, e ∈ w.edges ∨ e.toID = target.id := by
  rcases hlink with ⟨-, rfl⟩ | ⟨-, rfl⟩
  · refine ⟨rfl, fun e he => ?_⟩
    rcases List.mem_append.mp he with he | he
    · exact Or.inl he
    · obtain rfl := List.mem_singleton.mp he
      exact Or.inr rfl
  · exact ⟨rfl, fun e he => Or.inl he⟩

/-- Every outcome acts on the first match only. -/
theorem staysInScope_of_outcome {o : Except Err Result} {writes : History}
    (hall : ∀ now, d.clock now → ∀ n, MayDecide d w.memories candidate now n →
      AgreesWhereUnchecked d candidate n)
    (h : Outcome d candidate w o w' writes) : StaysInScope candidate w o w' := by
  have hscope : ∀ {now : Time} {neighbors : List Memory} {n : Memory}, d.clock now →
      d.backend.Lists w.memories (neighborQuery candidate) neighbors →
      neighbors.find? (applies d.lower now candidate) = some n →
      n ∈ w.memories.rows ∧ SameScope candidate n := by
    intro now neighbors n hnow hl hn
    have hmem := List.mem_of_find?_eq_some hn
    refine ⟨Backend.mem_rows_of_lists hl hmem, (sameScope_iff hl hmem (List.find?_some hn)).mpr ?_⟩
    exact hall now hnow n (mayDecide_iff.mpr ⟨neighbors, hl, hn⟩)
  cases h with
  | failed e issued writes hf hw => exact staysInScope_of_eq rfl rfl fun r hr => by cases hr
  | new hnow hl hn =>
    refine staysInScope_of_eq rfl rfl fun r hr => ?_
    obtain rfl := Except.ok.inj hr
    rfl
  | merged hnow hl hn hsim =>
    obtain ⟨hrow, hsame⟩ := hscope hnow hl hn
    refine ActsOn.staysInScope ⟨?_, ?_, ?_⟩ hrow hsame
    · intro r hr id hid
      obtain rfl := Except.ok.inj hr
      exact List.mem_singleton.mp hid
    · intro id hne
      exact find?_upsert_other rfl hne
    · exact fun e he => Or.inl he
  | superseded hnow hl hn hlt hsup hid hlink =>
    obtain ⟨hrow, hsame⟩ := hscope hnow hl hn
    obtain ⟨hrows, hedges⟩ := edges_linked hlink
    refine ActsOn.staysInScope ⟨?_, ?_, ?_⟩ hrow hsame
    · intro r hr id hid
      obtain rfl := Except.ok.inj hr
      exact List.mem_singleton.mp hid
    · intro id hne
      rw [hrows]
      exact find?_upsert_other rfl hne
    · exact hedges
  | contradicts hnow hl hn hlt hsup hcon hlink =>
    obtain ⟨hrow, hsame⟩ := hscope hnow hl hn
    obtain ⟨hrows, hedges⟩ := edges_linked hlink
    refine ActsOn.staysInScope ⟨?_, ?_, ?_⟩ hrow hsame
    · intro r hr id hid
      obtain rfl := Except.ok.inj hr
      exact List.mem_singleton.mp hid
    · intro id _
      rw [hrows]
    · exact hedges

theorem exists_linked (d : Deployment) (source target : Memory) (relation : RelationType)
    (w : World) : ∃ w', Linked d source target relation w w' := by
  by_cases hg : d.hasGraph = true
  · exact ⟨_, Or.inl ⟨hg, rfl⟩⟩
  · exact ⟨w, Or.inr ⟨Or.inl (by simpa using hg), rfl⟩⟩

/-- A first match is named by the result of some run. -/
theorem exists_touched {Q : Except Err Result → World → Prop}
    (h : wp (answering d now neighbors) Q (settle d now candidate n) w) :
    ∃ r w', Q (.ok r) w' ∧ n.id ∈ r.touched := by
  unfold settle at h
  split at h
  · rw [wp_perform_bind] at h
    have hend := h (.ok ()) _ ⟨Or.inl ⟨(), rfl, rfl⟩, trivial⟩
    exact ⟨_, _, hend, List.mem_singleton.mpr rfl⟩
  · split at h
    · rw [wp_perform_bind] at h
      obtain ⟨id, hid⟩ := exists_fresh w
      have hnamed := h (.ok id) _ ⟨Or.inl ⟨id, rfl, hid, rfl⟩, trivial⟩
      dsimp only at hnamed
      rw [wp_perform_bind] at hnamed
      have hclosed := hnamed (.ok ()) _ ⟨Or.inl ⟨(), rfl, rfl⟩, trivial⟩
      dsimp only at hclosed
      rw [wp_bind, wp_linkRelation_answering] at hclosed
      obtain ⟨w₁, hw₁⟩ := exists_linked d _ _ _ _
      exact ⟨_, _, hclosed w₁ hw₁, List.mem_singleton.mpr rfl⟩
    · rw [wp_bind, wp_linkRelation_answering] at h
      obtain ⟨w₁, hw₁⟩ := exists_linked d _ _ _ _
      exact ⟨_, _, h w₁ hw₁, List.mem_singleton.mpr rfl⟩

/-- Executions that stay in the scope show what the possible first matches agree on. -/
theorem agrees_of_staysInScope
    (h : ∀ o w', Exec (step d) (consolidate d candidate) w o w' → StaysInScope candidate w o w')
    (hnow : d.clock now) (hmay : MayDecide d w.memories candidate now n) :
    AgreesWhereUnchecked d candidate n := by
  obtain ⟨neighbors, hl, hn⟩ := mayDecide_iff.mp hmay
  have hmem := List.mem_of_find?_eq_some hn
  have hanswered : wp (answering d now neighbors) (StaysInScope candidate w)
      (settle d now candidate n) w := by
    have hwp : wp (answering d now neighbors) (StaysInScope candidate w) (consolidate d candidate)
        w := wp_step_mono (fun _ _ _ _ hstep => hstep.1) _ _ ((wp_iff_exec _ _).mpr h)
    rwa [wp_consolidate_answering hnow hl, consolidateLoop_eq, hn] at hwp
  obtain ⟨r, w', hscope, htouched⟩ := exists_touched hanswered
  have hrow := Table.find?_of_mem (Backend.mem_rows_of_lists hl hmem)
  exact (sameScope_iff hl hmem (List.find?_some hn)).mp
    (hscope.touched r rfl n.id htouched n hrow)

/-- Every execution of `Consolidate` stays in the scope of the candidate exactly when every
row that can be its first match agrees with the candidate where neither the query nor the
tests compare them. -/
theorem consolidate_stays_in_scope_iff (d : Deployment) (candidate : Memory) (w : World) :
    (∀ o w', Exec (step d) (consolidate d candidate) w o w' → StaysInScope candidate w o w') ↔
      ∀ now, d.clock now → ∀ n, MayDecide d w.memories candidate now n →
        AgreesWhereUnchecked d candidate n := by
  constructor
  · intro h now hnow n hmay
    exact agrees_of_staysInScope h hnow hmay
  · intro hall
    rw [← wp_iff_exec]
    apply wp_of_recorded _ _ []
    apply wp_consolidate
    intro o w' writes hout
    exact staysInScope_of_outcome hall hout

/-- The same statement, made in two projects. -/
def inProjectA : Memory := { stated with projectID := "a" }
def inProjectB : Memory := { stated with id := "m2", projectID := "b" }

/-- A Postgres deployment at one instant. -/
def postgresAt (now : Time) : Deployment :=
  { Deployment.inProcess now with backend := .postgres (fun _ => 0) fun _ _ => false }

theorem mayDecide_inProjectA :
    MayDecide (.inProcess 3) (Table.empty.upsert inProjectA) inProjectB 3 inProjectA ∧
      MayDecide (postgresAt 3) (Table.empty.upsert inProjectA) inProjectB 3 inProjectA := by
  constructor
  · exact ⟨by decide +kernel, by decide +kernel⟩
  · exact ⟨by decide +kernel, by decide +kernel, by decide +kernel, by decide +kernel⟩

/-- With either backend the statement made in one project is merged into the row of the
other project. -/
theorem merged_across_projects :
    (¬ ∀ o w', Exec (step (.inProcess 3)) (consolidate (.inProcess 3) inProjectB)
        (World.holding (Table.empty.upsert inProjectA)) o w' →
        StaysInScope inProjectB (World.holding (Table.empty.upsert inProjectA)) o w') ∧
      ¬ ∀ o w', Exec (step (postgresAt 3)) (consolidate (postgresAt 3) inProjectB)
        (World.holding (Table.empty.upsert inProjectA)) o w' →
        StaysInScope inProjectB (World.holding (Table.empty.upsert inProjectA)) o w' := by
  constructor
  · intro h
    have hagrees := agrees_of_staysInScope h rfl mayDecide_inProjectA.1
    exact absurd hagrees.projectID (by decide)
  · intro h
    have hagrees := agrees_of_staysInScope h rfl mayDecide_inProjectA.2
    exact absurd hagrees.projectID (by decide)

end AgentMemory
