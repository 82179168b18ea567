import AgentMemory.Retrieval.Scope
import AgentMemory.Services.Tenancy

/-!
# A tenant by itself

Since every call keeps to its tenant, its steps change no other tenant's part of the stores, and what it is answered
depends on its own tenant's part alone. So the steps of one tenant's calls can be taken out of any run:
`tenant_alone`.
-/

namespace AgentMemory

open Tables Calls

variable {t : String} {own : Set String}

/-! ## Parts of the stores -/

theorem filter_filter_of_imp {α : Type} {p q : α → Bool} (h : ∀ a, q a = true → p a = true) (l : List α) :
    (l.filter p).filter q = l.filter q := by
  rw [List.filter_filter]
  apply List.filter_congr
  intro a _
  cases hq : q a with
  | false => rfl
  | true => rw [h a hq, Bool.and_self]

/-- The memories of a tenant. -/
def ofTenant (t : String) (s : MemoryStore) : MemoryStore := s.keep fun m => m.tenantID = t

theorem find?_ofTenant {s : MemoryStore} {id : String} (h : ∀ m ∈ s.rows, m.id = id → m.tenantID = t) :
    (ofTenant t s).find? id = s.find? id := by
  rw [ofTenant, Table.find?_keep]
  cases hfind : s.find? id with
  | none => rfl
  | some m =>
    obtain ⟨hm, hid⟩ := Table.find?_eq_some.mp hfind
    exact Option.filter_some_pos (decide_eq_true (h m hm hid))

/-- The row that a write leaves is the tenant's, where the row it replaces is. -/
theorem tenantID_stored (b : Backend) {s : MemoryStore} {m : Memory} (hm : m.tenantID = t)
    (hold : ∀ r ∈ s.rows, r.id = m.id → r.tenantID = t) : (b.stored (s.find? m.id) m).tenantID = t := by
  cases b with
  | memory => exact hm
  | postgres ts ilike =>
    cases hfind : s.find? m.id with
    | none => exact hm
    | some old =>
      obtain ⟨hmem, hid⟩ := Table.find?_eq_some.mp hfind
      exact hold old hmem hid

theorem ofTenant_upsert (b : Backend) {s : MemoryStore} {m : Memory} (hm : m.tenantID = t)
    (hold : ∀ r ∈ s.rows, r.id = m.id → r.tenantID = t) :
    ofTenant t (b.upsert s m) = b.upsert (ofTenant t s) m := by
  rw [Backend.upsert, Backend.upsert, find?_ofTenant hold, ofTenant, ofTenant]
  refine Table.keep_upsert_of_pos (decide_eq_true (tenantID_stored b hm hold)) fun r hr hid => ?_
  exact decide_eq_true (hold r hr (hid.trans (Backend.stored_id b _ m)))

theorem ofTenant_upsert_other (b : Backend) {s : MemoryStore} {m : Memory} {T : String} (hne : t ≠ T)
    (hm : m.tenantID = t) (hold : ∀ r ∈ s.rows, r.id = m.id → r.tenantID = t) :
    ofTenant T (b.upsert s m) = ofTenant T s := by
  have hstored := tenantID_stored b hm hold
  refine Table.keep_upsert_of_neg (decide_eq_false fun h => hne (hstored.symm.trans h)) fun r hr hid => ?_
  have hr := hold r hr (hid.trans (Backend.stored_id b _ m))
  exact decide_eq_false fun h => hne (hr.symm.trans h)

theorem get_ofTenant (b : Backend) (s : MemoryStore) (id : String) : b.get (ofTenant t s) t id = b.get s t id := by
  unfold Backend.get
  rw [ofTenant, Table.find?_keep]
  cases s.find? id with
  | none => rfl
  | some m =>
    by_cases hm : m.tenantID = t <;> simp [Option.filter, hm]

/-- What a deletion does: it writes the row it finds, with another status. -/
theorem delete_cases {b : Backend} {s s' : MemoryStore} {id : String} {now : Time}
    (h : b.delete s t id now = some s') :
    ∃ mem mem', s.find? id = some mem ∧ mem.tenantID = t ∧ mem'.id = mem.id ∧ mem'.tenantID = t ∧
      s' = s.upsert mem' := by
  unfold Backend.delete at h
  split at h
  · cases h
  next mem hfind =>
  obtain ⟨htenant, h⟩ := Option.ite_none_left_eq_some.mp h
  have htenant := not_not.mp htenant
  split at h
  · exact ⟨mem, { mem with status := .deleted }, hfind, htenant, rfl, htenant, (Option.some.inj h).symm⟩
  · exact ⟨mem, { mem with status := .deleted, updatedAt := now }, hfind, htenant, rfl, htenant,
      (Option.some.inj h).symm⟩

theorem delete_ofTenant (b : Backend) (s : MemoryStore) (id : String) (now : Time) :
    b.delete (ofTenant t s) t id now = (b.delete s t id now).map (ofTenant t) := by
  have hrow : ∀ {mem mem' : Memory}, s.find? id = some mem → mem.tenantID = t → mem'.id = mem.id →
      mem'.tenantID = t → (ofTenant t s).upsert mem' = ofTenant t (s.upsert mem') := by
    intro mem mem' hfind hmem hid hmem'
    symm
    refine Table.keep_upsert_of_pos (decide_eq_true hmem') fun r hr hkey => ?_
    obtain ⟨hrow, hid'⟩ := Table.find?_eq_some.mp hfind
    rw [Table.eq_of_key hr hrow (hkey.trans hid)]
    exact decide_eq_true hmem
  unfold Backend.delete
  cases hfind : s.find? id with
  | none =>
    rw [ofTenant, Table.find?_keep, hfind]
    rfl
  | some mem =>
    by_cases hmem : mem.tenantID = t
    · have hpart : (ofTenant t s).find? id = some mem := by
        rw [ofTenant, Table.find?_keep, hfind]
        exact Option.filter_some_pos (decide_eq_true hmem)
      rw [hpart]
      dsimp only
      rw [if_neg (not_not_intro hmem), if_neg (not_not_intro hmem)]
      cases b with
      | memory => exact congrArg some (hrow hfind hmem rfl hmem)
      | postgres ts ilike => exact congrArg some (hrow hfind hmem rfl hmem)
    · have hpart : (ofTenant t s).find? id = none := by
        rw [ofTenant, Table.find?_keep, hfind]
        exact Option.filter_some_neg (by simpa using hmem)
      rw [hpart]
      dsimp only
      rw [if_pos hmem]
      rfl

theorem filter_ofTenant {s : MemoryStore} {clauses : Memory → Bool}
    (h : ∀ m, clauses m = true → m.tenantID = t) : (ofTenant t s).rows.filter clauses = s.rows.filter clauses :=
  filter_filter_of_imp (fun m hm => decide_eq_true (h m hm)) s.rows

theorem tenantID_of_matchesQuery {q : Query} (hq : q.tenantID ≠ "") {m : Memory} (h : matchesQuery m q = true) :
    m.tenantID = q.tenantID := by
  by_contra hne
  simp [matchesQuery, hq, hne] at h

theorem tenantID_of_listClauses {ts : String → Time} {q : Query} (hq : q.tenantID ≠ "") {m : Memory}
    (h : listClauses ts q m = true) : m.tenantID = q.tenantID := by
  simp only [listClauses, Bool.and_eq_true] at h
  simpa [hq] using h.1.1.1.1.1.1

theorem selects_ofTenant {clauses : Memory → Bool} {s : MemoryStore} {q : Query} {out : List Memory}
    (h : ∀ m, clauses m = true → m.tenantID = t) : Selects clauses (ofTenant t s) q out ↔ Selects clauses s q out := by
  unfold Selects
  rw [filter_ofTenant h]

theorem perm_filter_ofTenant {clauses : Memory → Bool} {s : MemoryStore} {out : List Memory}
    (h : ∀ m, clauses m = true → m.tenantID = t) :
    out.Perm ((ofTenant t s).rows.filter clauses) ↔ out.Perm (s.rows.filter clauses) := by
  rw [filter_ofTenant h]

theorem lists_ofTenant {b : Backend} {s : MemoryStore} {q : Query} {out : List Memory} (hq : q.tenantID ≠ "") :
    b.Lists (ofTenant q.tenantID s) q out ↔ b.Lists s q out := by
  cases b with
  | memory => exact perm_filter_ofTenant fun m => tenantID_of_matchesQuery hq
  | postgres ts ilike => exact selects_ofTenant fun m => tenantID_of_listClauses hq

theorem searches_ofTenant {lower : Char → Char} {b : Backend} {s : MemoryStore} {q : Query} {out : List Memory}
    (hq : q.tenantID ≠ "") : b.Searches lower (ofTenant q.tenantID s) q out ↔ b.Searches lower s q out := by
  cases b with
  | memory =>
    refine perm_filter_ofTenant fun m hm => ?_
    simp only [textMatches, Bool.and_eq_true] at hm
    exact tenantID_of_matchesQuery hq hm.1
  | postgres ts ilike =>
    exact selects_ofTenant fun m hm => tenantID_of_listClauses hq (Bool.and_eq_true_iff.mp hm).1

/-! ## Ownership -/

/-- The stores hold, under each id, what belongs to its owner, and no entry of an index stands under an id that could
still be issued. -/
structure World.Owned (owner : String → String) (w : World) : Prop where
  memories : ∀ m ∈ w.memories.rows, owner m.id = m.tenantID
  events : ∀ e ∈ w.events.rows, owner e.id = e.tenantID
  vectors : ∀ v ∈ w.vectors.rows, owner v.id = payloadAt v.payload "tenant_id" ∧ ¬ w.Fresh v.id
  keywords : ∀ k ∈ w.keywords.rows, owner k.id = payloadAt k.payload "tenant_id" ∧ ¬ w.Fresh k.id
  nodes : ∀ n ∈ w.nodes.rows, owner n.id = payloadAt n.payload "tenant_id" ∧ ¬ w.Fresh n.id
  edges : ∀ e ∈ w.edges, ¬ w.Fresh e.fromID

/-- The ids that are held are the tenant's, and taken. -/
def Holding (t : String) (own : Set String) (owner : String → String) (w : World) : Prop :=
  ∀ id ∈ own, owner id = t ∧ ¬ w.Fresh id

open Classical in
/-- The owners after these ids were issued to a call for the tenant. -/
noncomputable def claim (t : String) (ids : Set String) (owner : String → String) (id : String) : String :=
  if id ∈ ids then t else owner id

theorem claim_of_mem {ids : Set String} {owner : String → String} {id : String} (h : id ∈ ids) :
    claim t ids owner id = t := if_pos h

theorem claim_of_taken {w : World} {ids : Set String} {owner : String → String} {id : String}
    (hids : ∀ x ∈ ids, w.Fresh x) (h : ¬ w.Fresh id) : claim t ids owner id = owner id :=
  if_neg fun hmem => h (hids id hmem)

theorem not_fresh_of_memory {w : World} {m : Memory} (h : m ∈ w.memories.rows) : ¬ w.Fresh m.id := fun hfresh =>
  Option.some_ne_none m ((Table.find?_of_mem h).symm.trans hfresh.2.2)

theorem not_fresh_of_event {w : World} {e : Event} (h : e ∈ w.events.rows) : ¬ w.Fresh e.id := fun hfresh =>
  Option.some_ne_none e ((Table.find?_of_mem h).symm.trans hfresh.2.1)

/-- Owners of ids that nobody has taken do not matter. -/
theorem World.Owned.claim {owner : String → String} {w : World} (h : w.Owned owner) {ids : Set String}
    (hids : ∀ x ∈ ids, w.Fresh x) : w.Owned (claim t ids owner) where
  memories := fun m hm => (claim_of_taken hids (not_fresh_of_memory hm)).trans (h.memories m hm)
  events := fun e he => (claim_of_taken hids (not_fresh_of_event he)).trans (h.events e he)
  vectors := fun v hv =>
    ⟨(claim_of_taken hids (h.vectors v hv).2).trans (h.vectors v hv).1, (h.vectors v hv).2⟩
  keywords := fun k hk =>
    ⟨(claim_of_taken hids (h.keywords k hk).2).trans (h.keywords k hk).1, (h.keywords k hk).2⟩
  nodes := fun n hn => ⟨(claim_of_taken hids (h.nodes n hn).2).trans (h.nodes n hn).1, (h.nodes n hn).2⟩
  edges := h.edges

/-- New rows of their owners under ids that are taken. -/
theorem World.Owned.of_rows {owner : String → String} {w w' : World} (h : w.Owned owner)
    (hfresh : ∀ id, w'.Fresh id → w.Fresh id)
    (memories : ∀ m ∈ w'.memories.rows, m ∈ w.memories.rows ∨ owner m.id = m.tenantID)
    (events : ∀ e ∈ w'.events.rows, e ∈ w.events.rows ∨ owner e.id = e.tenantID)
    (vectors : ∀ v ∈ w'.vectors.rows,
      v ∈ w.vectors.rows ∨ (owner v.id = payloadAt v.payload "tenant_id" ∧ ¬ w.Fresh v.id))
    (keywords : ∀ k ∈ w'.keywords.rows,
      k ∈ w.keywords.rows ∨ (owner k.id = payloadAt k.payload "tenant_id" ∧ ¬ w.Fresh k.id))
    (nodes : ∀ n ∈ w'.nodes.rows,
      n ∈ w.nodes.rows ∨ (owner n.id = payloadAt n.payload "tenant_id" ∧ ¬ w.Fresh n.id))
    (edges : ∀ e ∈ w'.edges, e ∈ w.edges ∨ ¬ w.Fresh e.fromID) : w'.Owned owner where
  memories := fun m hm => (memories m hm).elim (h.memories m) id
  events := fun e he => (events e he).elim (h.events e) id
  vectors := fun v hv => ((vectors v hv).elim (h.vectors v) id).imp_right fun hold hnew => hold (hfresh _ hnew)
  keywords := fun k hk => ((keywords k hk).elim (h.keywords k) id).imp_right fun hold hnew => hold (hfresh _ hnew)
  nodes := fun n hn => ((nodes n hn).elim (h.nodes n) id).imp_right fun hold hnew => hold (hfresh _ hnew)
  edges := fun e he hnew => (edges e he).elim (fun hold => h.edges e hold (hfresh _ hnew)) fun hold =>
    hold (hfresh _ hnew)

/-! ## What a step does -/

variable {d : Deployment} {c : Call} {w w' : World} {r : Except Err (Resp c)} {owner : String → String}

/-- The ids that an answer takes. -/
def Call.taken : (c : Call) → Except Err (Resp c) → Set String
  | .newID _, .ok id => {id}
  | .extract _, .ok out => memoryIDs out
  | .appendEvent e, .ok _ => {e.id}
  | .upsert m, .ok _ => {m.id}
  | _, _ => ∅

theorem fresh_iff_of_find? {w w' : World} {id : String} {ids : Set String}
    (hissued : id ∉ w'.issued ↔ id ∉ w.issued ∧ id ∉ ids) (hevents : w'.events = w.events)
    (hmemories : w'.memories = w.memories) : w'.Fresh id ↔ w.Fresh id ∧ id ∉ ids := by
  rw [World.Fresh, World.Fresh, hissued, hevents, hmemories]
  tauto

/-- What is free after a step: what was free before, and was not taken. -/
theorem fresh_iff_of_step (h : step d c w r w') (id : String) : w'.Fresh id ↔ w.Fresh id ∧ id ∉ c.taken r := by
  have hsame : ∀ {w₂ : World} {c₂ : Call} {r₂ : Except Err (Resp c₂)}, w₂.issued = w.issued →
      w₂.events = w.events → w₂.memories = w.memories → c₂.taken r₂ = ∅ →
        (w₂.Fresh id ↔ w.Fresh id ∧ id ∉ c₂.taken r₂) := by
    intro w₂ c₂ r₂ hi he hm htaken
    rw [htaken, World.Fresh, World.Fresh, hi, he, hm]
    simp
  rcases step_cases h with ⟨a, rfl, ha⟩ | ⟨e, rfl, rfl⟩
  swap
  · exact hsame rfl rfl rfl (by cases c <;> rfl)
  cases c with
  | newID _ =>
    obtain ⟨-, rfl⟩ := ha
    exact fresh_iff_of_find? (by simp [Call.taken, and_comm]) rfl rfl
  | extract e =>
    obtain ⟨ids, -, -, hlength, rfl, rfl⟩ := ha
    have hids : id ∈ memoryIDs (withIDs (d.distill e) ids) ↔ id ∈ ids := by
      conv_rhs => rw [← map_id_withIDs hlength]
      exact List.mem_map.symm
    refine fresh_iff_of_find? ?_ rfl rfl
    rw [Call.taken, hids, List.mem_append]
    tauto
  | appendEvent e =>
    obtain rfl := ha
    rw [World.Fresh, World.Fresh, Table.find?_upsert, Call.taken, Set.mem_singleton_iff]
    by_cases hid : e.id = id
    · simp [hid]
    · simp [hid, Ne.symm hid]
  | upsert m =>
    obtain rfl := ha
    rw [World.Fresh, World.Fresh, Backend.find?_upsert, Call.taken, Set.mem_singleton_iff]
    by_cases hid : m.id = id
    · simp [hid]
    · simp [hid, Ne.symm hid]
  | delete tenantID memoryID =>
    obtain ⟨now, s, hdelete, rfl⟩ := ha
    obtain ⟨mem, mem', hfind, -, hmem', -, rfl⟩ := delete_cases hdelete
    rw [World.Fresh, World.Fresh, Table.find?_upsert, hmem']
    by_cases hid : mem.id = id
    · obtain ⟨hmem, hkey⟩ := Table.find?_eq_some.mp hfind
      have hfound : w.memories.find? id = some mem := Table.find?_eq_some.mpr ⟨hmem, hid⟩
      simp [hid, hfound]
    · simp [hid, Call.taken]
  | now => exact hsame (ha.2 ▸ rfl) (ha.2 ▸ rfl) (ha.2 ▸ rfl) rfl
  | list _ => exact hsame (ha.2 ▸ rfl) (ha.2 ▸ rfl) (ha.2 ▸ rfl) rfl
  | get _ _ => exact hsame (ha.2 ▸ rfl) (ha.2 ▸ rfl) (ha.2 ▸ rfl) rfl
  | searchByText _ => exact hsame (ha.2 ▸ rfl) (ha.2 ▸ rfl) (ha.2 ▸ rfl) rfl
  | searchVectors _ => exact hsame (ha.2 ▸ rfl) (ha.2 ▸ rfl) (ha.2 ▸ rfl) rfl
  | searchKeywords _ => exact hsame (ha.2 ▸ rfl) (ha.2 ▸ rfl) (ha.2 ▸ rfl) rfl
  | traverse _ => exact hsame (ha.2 ▸ rfl) (ha.2 ▸ rfl) (ha.2 ▸ rfl) rfl
  | rerank _ _ => exact hsame (ha.2 ▸ rfl) (ha.2 ▸ rfl) (ha.2 ▸ rfl) rfl
  | rangeOver _ => exact hsame (ha.2 ▸ rfl) (ha.2 ▸ rfl) (ha.2 ▸ rfl) rfl
  | _ =>
    subst ha
    exact hsame rfl rfl rfl rfl

theorem fresh_of_step (h : step d c w r w') {id : String} (hid : w'.Fresh id) : w.Fresh id :=
  ((fresh_iff_of_step h id).mp hid).1

theorem issued_subset_taken (c : Call) (r : Except Err (Resp c)) : c.issued r ⊆ c.taken r := by
  cases r <;> cases c <;> first | exact Set.empty_subset _ | exact Set.Subset.rfl

/-- What is issued was free. -/
theorem fresh_of_issued (h : step d c w r w') : ∀ id ∈ c.issued r, w.Fresh id := by
  rcases step_cases h with ⟨a, rfl, ha⟩ | ⟨e, rfl, rfl⟩
  swap
  · exact fun id hid => by cases c <;> exact absurd hid (Set.notMem_empty id)
  intro id hid
  cases c with
  | newID _ =>
    obtain rfl := Set.mem_singleton_iff.mp hid
    exact ha.1
  | extract e =>
    obtain ⟨ids, -, hfresh, -, rfl, -⟩ := ha
    obtain ⟨m, hm, rfl⟩ := hid
    obtain ⟨-, -, hmem, -⟩ := mem_withIDs hm
    exact hfresh m.id hmem
  | _ => exact absurd hid (Set.notMem_empty id)

theorem taken_of_issued (h : step d c w r w') {id : String} (hid : id ∈ c.issued r) : ¬ w'.Fresh id := fun hfresh =>
  ((fresh_iff_of_step h id).mp hfresh).2 (issued_subset_taken c r hid)

theorem tenantID_of_lists {b : Backend} {s : MemoryStore} {q : Query} {out : List Memory} (hq : q.tenantID ≠ "")
    (h : b.Lists s q out) {m : Memory} (hm : m ∈ out) : m.tenantID = q.tenantID :=
  of_decide_eq_true (Table.mem_keep.mp (Backend.mem_rows_of_lists ((lists_ofTenant hq).mpr h) hm)).2

variable (hd : ∀ e, ∀ m ∈ d.distill e, m.tenantID = e.tenantID) (ht : t ≠ "")

include hd ht in
theorem replies_of_step (hmine : c.Mine t own) (h : step d c w r w') : c.Replies t r := by
  rcases step_cases h with ⟨a, rfl, ha⟩ | ⟨e, rfl, rfl⟩
  swap
  · cases c <;> trivial
  cases c with
  | get tenantID memoryID =>
    obtain rfl : tenantID = t := hmine
    exact (Backend.get_eq_some.mp ha.1).2.1
  | list q =>
    obtain rfl : q.tenantID = t := hmine
    exact fun m hm => tenantID_of_lists ht ha.1 hm
  | searchByText q =>
    obtain rfl : q.tenantID = t := hmine
    exact fun m hm => (textScope_of_searches ha.1 hm).2.1 ht
  | extract e =>
    obtain rfl : e.tenantID = t := hmine
    obtain ⟨ids, -, -, -, rfl, -⟩ := ha
    intro m hm
    obtain ⟨mem, hmem, -, heq⟩ := mem_withIDs hm
    rw [heq]
    exact hd e mem hmem
  | rangeOver keys => exact ha.1
  | _ => trivial

/-- What is brought and not new has an owner. -/
theorem owned_of_gained (hw : w.Owned owner) (hmine : c.Mine t own) (hreplies : c.Replies t r) (h : step d c w r w') :
    ∀ id ∈ c.gained r, id ∈ c.issued r ∨ (owner id = t ∧ ¬ w.Fresh id) := by
  have hrow : ∀ m ∈ w.memories.rows, m.tenantID = t → owner m.id = t ∧ ¬ w.Fresh m.id := fun m hm htenant =>
    ⟨(hw.memories m hm).trans htenant, not_fresh_of_memory hm⟩
  rcases step_cases h with ⟨a, rfl, ha⟩ | ⟨e, rfl, rfl⟩
  swap
  · exact fun id hid => by cases c <;> exact absurd hid (Set.notMem_empty id)
  intro id hid
  cases c with
  | newID _ => exact .inl hid
  | extract _ => exact .inl hid
  | get _ _ =>
    obtain rfl := Set.mem_singleton_iff.mp hid
    exact .inr (hrow a (Table.find?_eq_some.mp (Backend.get_eq_some.mp ha.1).1).1 hreplies)
  | list q =>
    obtain ⟨m, hm, rfl⟩ := hid
    exact .inr (hrow m (Backend.mem_rows_of_lists ha.1 hm) (hreplies m hm))
  | searchByText q =>
    obtain ⟨m, hm, rfl⟩ := hid
    exact .inr (hrow m (textScope_of_searches ha.1 hm).1 (hreplies m hm))
  | delete tenantID memoryID =>
    obtain rfl := Set.mem_singleton_iff.mp hid
    obtain rfl : tenantID = t := hmine
    obtain ⟨now, s, hdelete, -⟩ := ha
    obtain ⟨mem, -, hfind, htenant, -⟩ := delete_cases hdelete
    obtain ⟨hmem, hkey⟩ := Table.find?_eq_some.mp hfind
    exact .inr (hkey ▸ hrow mem hmem htenant)
  | _ => exact absurd hid (Set.notMem_empty id)

/-- The holdings of the call, after its step. -/
theorem holds_of_step (hw : w.Owned owner) (hown : Holding t own owner w) (hmine : c.Mine t own)
    (hreplies : c.Replies t r) (h : step d c w r w') :
    Holding t (own ∪ c.gained r) (claim t (c.issued r) owner) w' := by
  have htaken : ∀ id, owner id = t ∧ ¬ w.Fresh id → claim t (c.issued r) owner id = t ∧ ¬ w'.Fresh id :=
    fun id hid => ⟨(claim_of_taken (fresh_of_issued h) hid.2).trans hid.1, fun hnew => hid.2 (fresh_of_step h hnew)⟩
  rintro id (hid | hid)
  · exact htaken id (hown id hid)
  · rcases owned_of_gained hw hmine hreplies h id hid with hissued | hid
    · exact ⟨claim_of_mem hissued, taken_of_issued h hissued⟩
    · exact htaken id hid

/-- The holdings of another call, after the step. -/
theorem holds_other (h : step d c w r w') {t' : String} {own' : Set String} (hown : Holding t' own' owner w) :
    Holding t' own' (claim t (c.issued r) owner) w' := fun id hid =>
  ⟨(claim_of_taken (fresh_of_issued h) (hown id hid).2).trans (hown id hid).1,
    fun hnew => (hown id hid).2 (fresh_of_step h hnew)⟩

theorem owned_of_step (hw : w.Owned owner) (hown : Holding t own owner w) (hmine : c.Mine t own)
    (h : step d c w r w') : w'.Owned (claim t (c.issued r) owner) := by
  have hw' : w.Owned (claim t (c.issued r) owner) := hw.claim (fresh_of_issued h)
  have hheld : ∀ id ∈ own, claim t (c.issued r) owner id = t ∧ ¬ w.Fresh id := fun id hid =>
    ⟨(claim_of_taken (fresh_of_issued h) (hown id hid).2).trans (hown id hid).1, (hown id hid).2⟩
  have hfresh : ∀ id, w'.Fresh id → w.Fresh id := fun _ hid => fresh_of_step h hid
  generalize claim t (c.issued r) owner = owner' at hw' hheld
  have hsame : ∀ {w₂ : World}, w₂.memories = w.memories → w₂.events = w.events → w₂.vectors = w.vectors →
      w₂.keywords = w.keywords → w₂.nodes = w.nodes → w₂.edges = w.edges → (∀ id, w₂.Fresh id → w.Fresh id) →
        w₂.Owned owner' := by
    intro w₂ hm he hv hk hn hg hf
    refine hw'.of_rows hf ?_ ?_ ?_ ?_ ?_ ?_
    · exact fun m hmem => .inl (hm ▸ hmem)
    · exact fun e hmem => .inl (he ▸ hmem)
    · exact fun v hmem => .inl (hv ▸ hmem)
    · exact fun k hmem => .inl (hk ▸ hmem)
    · exact fun n hmem => .inl (hn ▸ hmem)
    · exact fun e hmem => .inl (hg ▸ hmem)
  rcases step_cases h with ⟨a, rfl, ha⟩ | ⟨e, rfl, rfl⟩
  swap
  · exact hw'
  cases c with
  | appendEvent e =>
    obtain rfl := ha
    refine hw'.of_rows hfresh (fun _ => .inl) (fun e' he' => ?_) (fun _ => .inl) (fun _ => .inl) (fun _ => .inl)
      (fun _ => .inl)
    rcases Table.mem_upsert.mp he' with rfl | hold
    · exact .inr ((hheld _ hmine.2).1.trans hmine.1.symm)
    · exact .inl hold.1
  | upsert m =>
    obtain rfl := ha
    refine hw'.of_rows hfresh (fun m' hm' => ?_) (fun _ => .inl) (fun _ => .inl) (fun _ => .inl) (fun _ => .inl)
      (fun _ => .inl)
    rcases (Backend.mem_upsert _).mp hm' with rfl | hold
    · rw [Backend.stored_id, (hheld _ hmine.2).1]
      refine .inr (tenantID_stored _ hmine.1 fun old hold hid => ?_).symm
      rw [← hw'.memories old hold, hid]
      exact (hheld _ hmine.2).1
    · exact .inl hold.1
  | delete tenantID memoryID =>
    obtain rfl : tenantID = t := hmine
    obtain ⟨now, s, hdelete, rfl⟩ := ha
    obtain ⟨mem, mem', hfind, htenant, hid, htenant', rfl⟩ := delete_cases hdelete
    refine hw'.of_rows hfresh (fun m' hm' => ?_) (fun _ => .inl) (fun _ => .inl) (fun _ => .inl) (fun _ => .inl)
      (fun _ => .inl)
    rcases Table.mem_upsert.mp hm' with rfl | hold
    · rw [hid, htenant', ← htenant]
      exact .inr (hw'.memories mem (Table.find?_eq_some.mp hfind).1)
    · exact .inl hold.1
  | upsertVectors items =>
    obtain rfl := ha
    refine hw'.of_rows hfresh (fun _ => .inl) (fun _ => .inl) (fun v hv => ?_) (fun _ => .inl) (fun _ => .inl)
      (fun _ => .inl)
    refine (Table.mem_of_mem_foldl_upsert hv).symm.imp_right fun hitem => ?_
    obtain ⟨hid, htenant⟩ := hmine v hitem
    exact ⟨(hheld _ hid).1.trans htenant.symm, (hheld _ hid).2⟩
  | deleteVectors ids =>
    obtain rfl := ha
    refine hw'.of_rows hfresh (fun _ => .inl) (fun _ => .inl) (fun v hv => ?_) (fun _ => .inl) (fun _ => .inl)
      (fun _ => .inl)
    exact .inl (Table.mem_of_mem_foldl_erase hv)
  | indexKeyword doc =>
    obtain rfl := ha
    refine hw'.of_rows hfresh (fun _ => .inl) (fun _ => .inl) (fun _ => .inl) (fun k hk => ?_) (fun _ => .inl)
      (fun _ => .inl)
    rcases Table.mem_upsert.mp hk with rfl | hold
    · exact .inr ⟨(hheld _ hmine.1).1.trans hmine.2.symm, (hheld _ hmine.1).2⟩
    · exact .inl hold.1
  | upsertNode node =>
    obtain rfl := ha
    refine hw'.of_rows hfresh (fun _ => .inl) (fun _ => .inl) (fun _ => .inl) (fun _ => .inl) (fun n hn => ?_)
      (fun _ => .inl)
    rcases Table.mem_upsert.mp hn with rfl | hold
    · exact .inr ⟨(hheld _ hmine.1).1.trans hmine.2.symm, (hheld _ hmine.1).2⟩
    · exact .inl hold.1
  | upsertEdge edge =>
    obtain rfl := ha
    refine hw'.of_rows hfresh (fun _ => .inl) (fun _ => .inl) (fun _ => .inl) (fun _ => .inl) (fun _ => .inl)
      (fun e he => ?_)
    rcases List.mem_append.mp he with hold | hnew
    · exact .inl hold
    · obtain rfl := List.mem_singleton.mp hnew
      exact .inr (hheld _ hmine).2
  | newID _ =>
    obtain ⟨-, rfl⟩ := ha
    exact hsame rfl rfl rfl rfl rfl rfl hfresh
  | extract _ =>
    obtain ⟨ids, -, -, -, -, rfl⟩ := ha
    exact hsame rfl rfl rfl rfl rfl rfl hfresh
  | now => exact ha.2 ▸ hw'
  | list _ => exact ha.2 ▸ hw'
  | get _ _ => exact ha.2 ▸ hw'
  | searchByText _ => exact ha.2 ▸ hw'
  | searchVectors _ => exact ha.2 ▸ hw'
  | searchKeywords _ => exact ha.2 ▸ hw'
  | traverse _ => exact ha.2 ▸ hw'
  | rerank _ _ => exact ha.2 ▸ hw'
  | rangeOver _ => exact ha.2 ▸ hw'
  | _ =>
    obtain rfl := ha
    exact hsame rfl rfl rfl rfl rfl rfl hfresh

/-! ## A tenant's part -/

/-- What of the stores belongs to a tenant. -/
def World.tenantPart (t : String) (w : World) : World where
  events := w.events.keep fun e => e.tenantID = t
  memories := ofTenant t w.memories
  vectors := w.vectors.keep fun v => payloadAt v.payload "tenant_id" = t
  keywords := w.keywords.keep fun k => payloadAt k.payload "tenant_id" = t
  nodes := w.nodes.keep fun n => payloadAt n.payload "tenant_id" = t
  edges := w.edges.filter fun e => (ofTenant t w.memories).rows.any fun m => m.id = e.fromID
  receipts := w.receipts.filter fun entry => entry.tenantID = t
  issued := []

/-- The same, where edges belong to the owners of the ids that they start from. -/
def World.part (owner : String → String) (t : String) (w : World) : World :=
  { w.tenantPart t with edges := w.edges.filter fun e => owner e.fromID = t }

theorem part_ext {w v : World} (events : (w.part owner t).events = (v.part owner t).events)
    (memories : (w.part owner t).memories = (v.part owner t).memories)
    (vectors : (w.part owner t).vectors = (v.part owner t).vectors)
    (keywords : (w.part owner t).keywords = (v.part owner t).keywords)
    (nodes : (w.part owner t).nodes = (v.part owner t).nodes)
    (edges : (w.part owner t).edges = (v.part owner t).edges)
    (receipts : (w.part owner t).receipts = (v.part owner t).receipts) : w.part owner t = v.part owner t := by
  rw [World.part, World.tenantPart, World.part, World.tenantPart, World.mk.injEq]
  exact ⟨events, memories, vectors, keywords, nodes, edges, receipts, rfl⟩

theorem tenantPart_of_part {w v : World} (hw : w.Owned owner) (hv : v.Owned owner)
    (h : w.part owner t = v.part owner t) : w.tenantPart t = v.tenantPart t := by
  have hedges : ∀ {u : World}, u.Owned owner → (u.tenantPart t).edges =
      (u.part owner t).edges.filter fun e => (ofTenant t u.memories).rows.any fun m => m.id = e.fromID := by
    intro u hu
    refine (filter_filter_of_imp (fun e he => ?_) u.edges).symm
    obtain ⟨m, hm, hid⟩ := List.any_eq_true.mp he
    obtain ⟨hm, htenant⟩ := Table.mem_keep.mp hm
    rw [← of_decide_eq_true hid, hu.memories m hm]
    exact htenant
  have hmemories : ofTenant t w.memories = ofTenant t v.memories := congrArg World.memories h
  have hsame : (w.tenantPart t).edges = (v.tenantPart t).edges := by
    rw [hedges hw, hedges hv, h, hmemories]
  have heta : ∀ u : World, u.tenantPart t = { u.part owner t with edges := (u.tenantPart t).edges } := fun _ => rfl
  rw [heta w, heta v, h, hsame]

theorem part_claim {t' : String} (hw : w.Owned owner) {ids : Set String} (hids : ∀ x ∈ ids, w.Fresh x) :
    w.part (claim t ids owner) t' = w.part owner t' := by
  have hedges :
      (w.edges.filter fun e => claim t ids owner e.fromID = t') = w.edges.filter fun e => owner e.fromID = t' :=
    List.filter_congr fun e he => by rw [claim_of_taken hids (hw.edges e he)]
  rw [World.part, World.part, hedges]

/-- A step for one tenant leaves the part of any other as it is. -/
theorem part_of_step {T : String} (hne : t ≠ T) (hw : w.Owned owner) (hown : Holding t own owner w)
    (hmine : c.Mine t own) (h : step d c w r w') : w'.part (claim t (c.issued r) owner) T = w.part owner T := by
  rw [← part_claim (t := t) hw (fresh_of_issued h)]
  have hw' : w.Owned (claim t (c.issued r) owner) := hw.claim (fresh_of_issued h)
  have hheld : ∀ id ∈ own, claim t (c.issued r) owner id = t := fun id hid =>
    (claim_of_taken (fresh_of_issued h) (hown id hid).2).trans (hown id hid).1
  generalize claim t (c.issued r) owner = owner' at hw' hheld
  have hother : ∀ {tenantID : String}, tenantID = t → decide (tenantID = T) = false := fun heq =>
    decide_eq_false fun h => hne (heq.symm.trans h)
  rcases step_cases h with ⟨a, rfl, ha⟩ | ⟨e, rfl, rfl⟩
  swap
  · rfl
  cases c with
  | appendEvent e =>
    obtain rfl := ha
    refine part_ext (Table.keep_upsert_of_neg (hother hmine.1) fun e' he' hid => ?_) rfl rfl rfl rfl rfl rfl
    exact hother ((hw'.events e' he').symm.trans (hid ▸ hheld _ hmine.2))
  | upsert m =>
    obtain rfl := ha
    refine part_ext rfl (ofTenant_upsert_other _ hne hmine.1 fun old hold hid => ?_) rfl rfl rfl rfl rfl
    exact (hw'.memories old hold).symm.trans (hid ▸ hheld _ hmine.2)
  | delete tenantID memoryID =>
    obtain rfl : tenantID = t := hmine
    obtain ⟨now, s, hdelete, rfl⟩ := ha
    obtain ⟨mem, mem', hfind, htenant, hid, htenant', rfl⟩ := delete_cases hdelete
    obtain ⟨hmem, -⟩ := Table.find?_eq_some.mp hfind
    refine part_ext rfl (Table.keep_upsert_of_neg (hother htenant') fun old hold hkey => ?_) rfl rfl rfl rfl rfl
    rw [Table.eq_of_key hold hmem (hkey.trans hid)]
    exact hother htenant
  | upsertVectors items =>
    obtain rfl := ha
    refine part_ext rfl rfl (Table.keep_foldl_upsert_of_neg (fun item hitem => hother (hmine item hitem).2) ?_) rfl rfl
      rfl rfl
    exact fun item hitem v hv hid => hother ((hw'.vectors v hv).1.symm.trans (hid ▸ hheld _ (hmine item hitem).1))
  | deleteVectors ids =>
    obtain rfl := ha
    refine part_ext rfl rfl (Table.keep_foldl_erase_of_neg fun id hmem v hv hid => ?_) rfl rfl rfl rfl
    exact hother ((hw'.vectors v hv).1.symm.trans (hid ▸ hheld _ (hmine id hmem)))
  | indexKeyword doc =>
    obtain rfl := ha
    refine part_ext rfl rfl rfl (Table.keep_upsert_of_neg (hother hmine.2) fun k hk hid => ?_) rfl rfl rfl
    exact hother ((hw'.keywords k hk).1.symm.trans (hid ▸ hheld _ hmine.1))
  | upsertNode node =>
    obtain rfl := ha
    refine part_ext rfl rfl rfl rfl (Table.keep_upsert_of_neg (hother hmine.2) fun n hn hid => ?_) rfl rfl
    exact hother ((hw'.nodes n hn).1.symm.trans (hid ▸ hheld _ hmine.1))
  | upsertEdge edge =>
    obtain rfl := ha
    refine part_ext rfl rfl rfl rfl rfl ?_ rfl
    change (w.edges ++ [edge]).filter _ = w.edges.filter _
    rw [List.filter_append, List.filter_cons_of_neg (by simp [hheld _ hmine, hne]), List.filter_nil, List.append_nil]
  | appendReceipt entry =>
    obtain rfl := ha
    refine part_ext rfl rfl rfl rfl rfl rfl ?_
    change (w.receipts ++ [entry]).filter _ = w.receipts.filter _
    rw [List.filter_append, List.filter_cons_of_neg (by simpa using hother hmine), List.filter_nil, List.append_nil]
  | newID _ =>
    obtain ⟨-, rfl⟩ := ha
    rfl
  | extract _ =>
    obtain ⟨ids, -, -, -, -, rfl⟩ := ha
    rfl
  | now => rw [ha.2]
  | list _ => rw [ha.2]
  | get _ _ => rw [ha.2]
  | searchByText _ => rw [ha.2]
  | searchVectors _ => rw [ha.2]
  | searchKeywords _ => rw [ha.2]
  | traverse _ => rw [ha.2]
  | rerank _ _ => rw [ha.2]
  | rangeOver _ => rw [ha.2]
  | _ =>
    obtain rfl := ha
    rfl

/-! ## What a call is answered depends on its tenant's part -/

theorem filter_vectorMatches {q : VectorQuery} (hq : q.tenantID ≠ "") (w : World) :
    (w.tenantPart q.tenantID).vectors.rows.filter (vectorMatches q) = w.vectors.rows.filter (vectorMatches q) := by
  refine filter_filter_of_imp (fun v hv => ?_) w.vectors.rows
  simp only [vectorMatches, Bool.and_eq_true] at hv
  simpa [hq] using hv.1.1

theorem filter_keywordMatches {lower : Char → Char} {q : Query} (hq : q.tenantID ≠ "") (w : World) :
    (w.tenantPart q.tenantID).keywords.rows.filter (keywordMatches lower q) =
      w.keywords.rows.filter (keywordMatches lower q) := by
  refine filter_filter_of_imp (fun k hk => ?_) w.keywords.rows
  simp only [keywordMatches, Bool.and_eq_true] at hk
  simpa [hq] using hk.1.1

/-- What a refusal looks at is the tenant's. -/
theorem refuses_of_part {v : World} {e : Err} (hmine : c.Mine t own) (hpart : w.part owner t = v.part owner t)
    (h : Refuses d c w e) : Refuses d c v e := by
  have hmemories : ofTenant t w.memories = ofTenant t v.memories := congrArg World.memories hpart
  cases c with
  | get tenantID memoryID =>
    obtain rfl : tenantID = t := hmine
    exact ⟨by rw [← get_ofTenant, ← hmemories, get_ofTenant, h.1], h.2⟩
  | delete tenantID memoryID =>
    obtain rfl : tenantID = t := hmine
    refine ⟨fun now => ?_, h.2⟩
    rw [← Option.map_eq_none_iff (f := ofTenant tenantID), ← delete_ofTenant, ← hmemories, delete_ofTenant, h.1 now,
      Option.map_none]
  | _ => exact h.elim

include ht in
/-- A step for a tenant can be taken wherever its part is the same, and leaves the same part. -/
theorem answers_of_part {v : World} {a : Resp c} (hw : w.Owned owner) (hv : v.Owned owner)
    (hown : ∀ id ∈ own, owner id = t) (hmine : c.Mine t own) (hpart : w.part owner t = v.part owner t)
    (hfresh : ∀ id, w.Fresh id → v.Fresh id) (ha : Answers d c w a w') :
    ∃ v', Answers d c v a v' ∧ w'.part owner t = v'.part owner t := by
  have hmemories : ofTenant t w.memories = ofTenant t v.memories := congrArg World.memories hpart
  have hevents : (w.part owner t).events = (v.part owner t).events := congrArg World.events hpart
  have hvectors : (w.part owner t).vectors = (v.part owner t).vectors := congrArg World.vectors hpart
  have hkeywords : (w.part owner t).keywords = (v.part owner t).keywords := congrArg World.keywords hpart
  have hnodes : (w.part owner t).nodes = (v.part owner t).nodes := congrArg World.nodes hpart
  have hedges : (w.part owner t).edges = (v.part owner t).edges := congrArg World.edges hpart
  have hreceipts : (w.part owner t).receipts = (v.part owner t).receipts := congrArg World.receipts hpart
  have hmineRow : ∀ {u : World}, u.Owned owner → ∀ id ∈ own, ∀ m ∈ u.memories.rows, m.id = id → m.tenantID = t :=
    fun hu id hid m hm hkey => (hu.memories m hm).symm.trans (hkey ▸ hown id hid)
  cases c with
  | now => exact ⟨v, ⟨ha.1, rfl⟩, by rw [ha.2, hpart]⟩
  | newID _ =>
    obtain ⟨hnew, rfl⟩ := ha
    exact ⟨_, ⟨hfresh a hnew, rfl⟩, hpart⟩
  | appendEvent e =>
    obtain rfl := ha
    have hrow : ∀ {u : World}, u.Owned owner → ∀ e' ∈ u.events.rows, e'.id = e.id → decide (e'.tenantID = t) = true :=
      fun hu e' he' hid => decide_eq_true ((hu.events e' he').symm.trans (hid ▸ hown _ hmine.2))
    refine ⟨_, rfl, part_ext ?_ hmemories hvectors hkeywords hnodes hedges hreceipts⟩
    exact Table.keep_upsert_congr (decide_eq_true hmine.1) (hrow hw) (hrow hv) hevents
  | extract e =>
    obtain ⟨ids, hnodup, hnew, hlength, rfl, rfl⟩ := ha
    exact ⟨_, ⟨ids, hnodup, fun id hid => hfresh id (hnew id hid), hlength, rfl, rfl⟩, hpart⟩
  | list q =>
    obtain rfl : q.tenantID = t := hmine
    exact ⟨v, ⟨(lists_ofTenant ht).mp (hmemories ▸ (lists_ofTenant ht).mpr ha.1), rfl⟩, by rw [ha.2, hpart]⟩
  | get tenantID memoryID =>
    obtain rfl : tenantID = t := hmine
    exact ⟨v, ⟨by rw [← get_ofTenant, ← hmemories, get_ofTenant, ha.1], rfl⟩, by rw [ha.2, hpart]⟩
  | searchByText q =>
    obtain rfl : q.tenantID = t := hmine
    exact ⟨v, ⟨(searches_ofTenant ht).mp (hmemories ▸ (searches_ofTenant ht).mpr ha.1), rfl⟩, by rw [ha.2, hpart]⟩
  | upsert m =>
    obtain rfl := ha
    refine ⟨_, rfl, part_ext hevents ?_ hvectors hkeywords hnodes hedges hreceipts⟩
    refine (ofTenant_upsert _ hmine.1 (hmineRow hw _ hmine.2)).trans ?_
    refine (congrArg (d.backend.upsert · m) hmemories).trans ?_
    exact (ofTenant_upsert _ hmine.1 (hmineRow hv _ hmine.2)).symm
  | delete tenantID memoryID =>
    obtain rfl : tenantID = t := hmine
    obtain ⟨now, s, hdelete, rfl⟩ := ha
    have hv' := delete_ofTenant (t := tenantID) d.backend v.memories memoryID now
    rw [← hmemories, delete_ofTenant, hdelete, Option.map_some] at hv'
    obtain ⟨s', hs', hsame⟩ := Option.map_eq_some_iff.mp hv'.symm
    exact ⟨_, ⟨now, s', hs', rfl⟩, part_ext hevents hsame.symm hvectors hkeywords hnodes hedges hreceipts⟩
  | upsertVectors items =>
    obtain rfl := ha
    have hitems : ∀ item ∈ items, decide (payloadAt item.payload "tenant_id" = t) = true := fun item hitem =>
      decide_eq_true (hmine item hitem).2
    have hrow : ∀ {u : World}, u.Owned owner → ∀ item ∈ items, ∀ r ∈ u.vectors.rows, r.id = item.id →
        decide (payloadAt r.payload "tenant_id" = t) = true := fun hu item hitem r hr hid =>
      decide_eq_true ((hu.vectors r hr).1.symm.trans (hid ▸ hown _ (hmine item hitem).1))
    refine ⟨_, rfl, part_ext hevents hmemories ?_ hkeywords hnodes hedges hreceipts⟩
    exact Table.keep_foldl_upsert_congr hitems (hrow hw) (hrow hv) hvectors
  | deleteVectors ids =>
    obtain rfl := ha
    refine ⟨_, rfl, part_ext hevents hmemories ?_ hkeywords hnodes hedges hreceipts⟩
    refine (Table.keep_foldl_erase ids _ _).trans ?_
    refine (congrArg (ids.foldl Table.erase ·) hvectors).trans ?_
    exact (Table.keep_foldl_erase ids _ _).symm
  | indexKeyword doc =>
    obtain rfl := ha
    have hrow : ∀ {u : World}, u.Owned owner → ∀ k ∈ u.keywords.rows, k.id = doc.id →
        decide (payloadAt k.payload "tenant_id" = t) = true := fun hu k hk hid =>
      decide_eq_true ((hu.keywords k hk).1.symm.trans (hid ▸ hown _ hmine.1))
    refine ⟨_, rfl, part_ext hevents hmemories hvectors ?_ hnodes hedges hreceipts⟩
    exact Table.keep_upsert_congr (decide_eq_true hmine.2) (hrow hw) (hrow hv) hkeywords
  | upsertNode node =>
    obtain rfl := ha
    have hrow : ∀ {u : World}, u.Owned owner → ∀ n ∈ u.nodes.rows, n.id = node.id →
        decide (payloadAt n.payload "tenant_id" = t) = true := fun hu n hn hid =>
      decide_eq_true ((hu.nodes n hn).1.symm.trans (hid ▸ hown _ hmine.1))
    refine ⟨_, rfl, part_ext hevents hmemories hvectors hkeywords ?_ hedges hreceipts⟩
    exact Table.keep_upsert_congr (decide_eq_true hmine.2) (hrow hw) (hrow hv) hnodes
  | upsertEdge edge =>
    obtain rfl := ha
    refine ⟨_, rfl, part_ext hevents hmemories hvectors hkeywords hnodes ?_ hreceipts⟩
    have happend : ∀ u : World, (World.part owner t { u with edges := u.edges ++ [edge] }).edges =
        (u.part owner t).edges ++ [edge].filter fun e => owner e.fromID = t := fun u => List.filter_append _ _
    rw [happend w, happend v, hedges]
  | appendReceipt entry =>
    obtain rfl := ha
    refine ⟨_, rfl, part_ext hevents hmemories hvectors hkeywords hnodes hedges ?_⟩
    have happend : ∀ u : World, (World.part owner t { u with receipts := u.receipts ++ [entry] }).receipts =
        (u.part owner t).receipts ++ [entry].filter fun e => e.tenantID = t := fun u => List.filter_append _ _
    rw [happend w, happend v, hreceipts]
  | searchVectors q =>
    obtain rfl : q.tenantID = t := hmine
    obtain ⟨⟨items, hperm, hout⟩, hsame⟩ := ha
    have hrows : w.vectors.rows.filter (vectorMatches q) = v.vectors.rows.filter (vectorMatches q) := by
      rw [← filter_vectorMatches ht w, ← filter_vectorMatches ht v]
      exact congrArg (fun tbl => tbl.rows.filter (vectorMatches q)) hvectors
    exact ⟨v, ⟨⟨items, hrows ▸ hperm, hout⟩, rfl⟩, by rw [hsame, hpart]⟩
  | searchKeywords q =>
    obtain rfl : q.tenantID = t := hmine
    have hrows : w.keywords.rows.filter (keywordMatches d.lower q) =
        v.keywords.rows.filter (keywordMatches d.lower q) := by
      rw [← filter_keywordMatches ht w, ← filter_keywordMatches ht v]
      exact congrArg (fun tbl => tbl.rows.filter (keywordMatches d.lower q)) hkeywords
    obtain ⟨hperm, hsame⟩ := ha
    exact ⟨v, ⟨hrows ▸ hperm, rfl⟩, by rw [hsame, hpart]⟩
  | traverse q =>
    have hfrom : ∀ u : World, u.edges.filter (·.fromID = q.startID) =
        (u.part owner t).edges.filter (·.fromID = q.startID) := fun u => by
      refine (filter_filter_of_imp (fun e he => ?_) u.edges).symm
      exact decide_eq_true ((congrArg owner (of_decide_eq_true he)).trans (hown _ hmine))
    exact ⟨v, ⟨by rw [ha.1, hfrom w, hfrom v, hedges], rfl⟩, by rw [ha.2, hpart]⟩
  | rerank _ _ => exact ⟨v, ⟨ha.1, rfl⟩, by rw [ha.2, hpart]⟩
  | rangeOver _ => exact ⟨v, ⟨ha.1, rfl⟩, by rw [ha.2, hpart]⟩
  | _ =>
    obtain rfl := ha
    exact ⟨v, rfl, hpart⟩

/-! ## Runs -/

/-- One owner for the rows under each id. -/
def World.Coherent (w : World) : Prop := ∃ owner, w.Owned owner

/-- The stores `w` of all calls beside the stores `v` of one tenant's calls alone. -/
def Beside {ι : Type} (calls : ι → ServiceCall) (t : String) (hold : ι → Set String) (w v : World) : Prop :=
  ∃ owner, w.Owned owner ∧ v.Owned owner ∧ (∀ i, Holding (calls i).tenantID (hold i) owner w) ∧
    (∀ i, (calls i).tenantID = t → Holding (calls i).tenantID (hold i) owner v) ∧ w.part owner t = v.part owner t ∧
      ∀ id, w.Fresh id → v.Fresh id

section Runs

variable {ι : Type} [DecidableEq ι] {calls : ι → ServiceCall} {hold : ι → Set String} {v : World}

/-- The holdings of some calls, after a step of one of them. -/
theorem holding_after {mine : ι → Prop} (hown : ∀ j, mine j → Holding (calls j).tenantID (hold j) owner w) {i : ι}
    (hi : mine i) (hw : w.Owned owner) (hmine : c.Mine (calls i).tenantID (hold i))
    (hreplies : c.Replies (calls i).tenantID r) (h : step d c w r w') (j : ι) (hj : mine j) :
    Holding (calls j).tenantID (holdingsAfter (fun i => custody (calls i).tenantID) hold i c r j)
      (claim (calls i).tenantID (c.issued r) owner) w' := by
  by_cases hji : j = i
  · subst hji
    rw [holdingsAfter, Function.update_self]
    exact holds_of_step hw (hown j hi) hmine hreplies h
  · rw [holdingsAfter, Function.update_of_ne hji]
    exact holds_other h (hown j hj)

include hd in
theorem beside_of_other (hK : Beside calls t hold w v) {i : ι} (hi : (calls i).tenantID ≠ t)
    (ht : (calls i).tenantID ≠ "") (hmine : c.Mine (calls i).tenantID (hold i)) (h : step d c w r w') :
    c.Replies (calls i).tenantID r ∧
      Beside calls t (holdingsAfter (fun i => custody (calls i).tenantID) hold i c r) w' v := by
  obtain ⟨owner, hw, hv, hown, hownv, hpart, hfresh⟩ := hK
  have hall : ∀ j, True → Holding (calls j).tenantID (hold j) owner w := fun j _ => hown j
  have hreplies := replies_of_step hd ht hmine h
  have hissued : ∀ id ∈ c.issued r, v.Fresh id := fun id hid => hfresh id (fresh_of_issued h id hid)
  refine ⟨hreplies, claim (calls i).tenantID (c.issued r) owner, owned_of_step hw (hown i) hmine h,
    hv.claim hissued, fun j => holding_after hall trivial hw hmine hreplies h j trivial,
    fun j hj => ?_, ?_,
    fun id hid => hfresh id (fresh_of_step h hid)⟩
  · have hji : j ≠ i := fun heq => hi (heq ▸ hj)
    rw [holdingsAfter, Function.update_of_ne hji]
    exact fun id hid => ⟨(claim_of_taken hissued (hownv j hj id hid).2).trans (hownv j hj id hid).1,
      (hownv j hj id hid).2⟩
  · rw [part_of_step hi hw (hown i) hmine h, part_claim hv hissued, hpart]

include hd in
theorem beside_of_mine (hK : Beside calls t hold w v) {i : ι} (hi : (calls i).tenantID = t)
    (ht : (calls i).tenantID ≠ "") (hmine : c.Mine (calls i).tenantID (hold i)) (h : step d c w r w') :
    c.Replies (calls i).tenantID r ∧ ∃ v', step d c v r v' ∧
      Beside calls t (holdingsAfter (fun i => custody (calls i).tenantID) hold i c r) w' v' := by
  obtain ⟨owner, hw, hv, hown, hownv, hpart, hfresh⟩ := hK
  have hall : ∀ j, True → Holding (calls j).tenantID (hold j) owner w := fun j _ => hown j
  have hreplies := replies_of_step hd ht hmine h
  refine ⟨hreplies, ?_⟩
  have hissued : ∀ id ∈ c.issued r, v.Fresh id := fun id hid => hfresh id (fresh_of_issued h id hid)
  have hpart : w.part (claim (calls i).tenantID (c.issued r) owner) t =
      v.part (claim (calls i).tenantID (c.issued r) owner) t := by
    rw [part_claim hw (fresh_of_issued h), part_claim hv hissued, hpart]
  have hheld : ∀ id ∈ hold i, claim (calls i).tenantID (c.issued r) owner id = (calls i).tenantID := fun id hid =>
    (claim_of_taken (fresh_of_issued h) (hown i id hid).2).trans (hown i id hid).1
  have hv' : ∃ v', step d c v r v' ∧ w'.part (claim (calls i).tenantID (c.issued r) owner) t =
      v'.part (claim (calls i).tenantID (c.issued r) owner) t := by
    subst hi
    rcases h with ⟨a, rfl, ha⟩ | ⟨e, rfl, rfl, hrefuses⟩
    · obtain ⟨v', hv', hsame⟩ := answers_of_part ht (hw.claim (fresh_of_issued (step_answer ha))) (hv.claim hissued)
        hheld hmine hpart hfresh ha
      exact ⟨v', step_answer hv', hsame⟩
    · exact ⟨v, .inr ⟨e, rfl, rfl, hrefuses.imp_left (refuses_of_part hmine hpart)⟩, hpart⟩
  obtain ⟨v', hstep, hpart'⟩ := hv'
  have hfreshv : ∀ id, w'.Fresh id → v'.Fresh id := fun id hid => by
    obtain ⟨hid, htaken⟩ := (fresh_iff_of_step h id).mp hid
    exact (fresh_iff_of_step hstep id).mpr ⟨hfresh id hid, htaken⟩
  exact ⟨v', hstep, claim (calls i).tenantID (c.issued r) owner, owned_of_step hw (hown i) hmine h,
    owned_of_step hv (hownv i hi) hmine hstep,
    fun j => holding_after hall trivial hw hmine hreplies h j trivial,
    holding_after hownv hi hv hmine hreplies hstep, hpart', hfreshv⟩

omit [DecidableEq ι] in
theorem beside_self (hw : w.Owned owner) : Beside calls t (fun _ => ∅) w w :=
  ⟨owner, hw, hw, fun _ _ hid => absurd hid (Set.notMem_empty _), fun _ _ _ hid => absurd hid (Set.notMem_empty _), rfl,
    fun _ hid => hid⟩

end Runs

theorem coherent_empty : World.empty.Coherent :=
  ⟨fun _ => "", fun _ h => absurd h List.not_mem_nil, fun _ h => absurd h List.not_mem_nil,
    fun _ h => absurd h List.not_mem_nil, fun _ h => absurd h List.not_mem_nil, fun _ h => absurd h List.not_mem_nil,
    fun _ h => absurd h List.not_mem_nil⟩

/-- A tenant creates a specification, and another tenant's memories are compacted. -/
def twoTenants (b : Bool) : ServiceCall := if b then .createSpec tokenSpec else .compaction "u"

/-- The deployment in one process, which distills nothing. -/
abbrev undistilled : Deployment := (Deployment.inProcess 5).distilling fun _ => []

/-- What runs for them. -/
def twoPrograms (b : Bool) : Go Reply := (twoTenants b).program undistilled plainCodec

/-- The specification is created, and the compaction has not begun. -/
def twoTenantsCreated : Pool Call Resp Err World Bool Reply where
  threads := Function.update twoPrograms true (.ret (.spec (newSpec tokenSpec 5 "spec_1")))
  store := worldOfTokenSpec

theorem run_twoTenants :
    Pool.GuardedRun Pool.unguarded (step undistilled)
      ⟨fun b => (twoTenants b).program undistilled plainCodec, World.empty⟩ twoTenantsCreated := by
  have hexec : Exec (step undistilled) (twoPrograms true) World.empty (.ok (.spec (newSpec tokenSpec 5 "spec_1")))
      worldOfTokenSpec := exec_tokenSpec fun _ => []
  exact Pool.GuardedRun.of_exec twoPrograms World.empty (fun _ _ => trivial) rfl hexec

end AgentMemory
