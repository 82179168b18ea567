import AgentMemory.Forgetting.Forget
import AgentMemory.Consolidation.Compaction
import AgentMemory.Ingestion.Ingest

/-!
# Deletion among the other maintenance operations

`Delete` marks the row and returns. `Redact`, the sweep, `Consolidate`, `Ingest` and the
compaction job read a memory and later `Upsert` the changed copy, whose status is the one
that was read; a copy read before the deletion and written after it makes the row active
again. `Clean` says that a program holds no such copy. Every operation is clean before it
starts and stays clean as long as the reads it makes do not return the memory, which they
do not once the row is marked: so a deletion is final exactly from the moment no stale copy
is on its way.
-/

namespace AgentMemory

open Tables Calls

/-- The call writes the row under an id. -/
def Call.Writes (id : String) : Call → Prop
  | .upsert m => m.id = id
  | _ => False

/-- The answer carries no copy of the memory under an id, or it was asked for deleted ones. -/
def Omits (id : String) : (c : Call) → Except Err (Resp c) → Prop
  | .get _ _, .ok m => m.id ≠ id
  | .list q, .ok out => q.filter "status" = "deleted" ∨ ∀ m ∈ out, m.id ≠ id
  | .extract _, .ok out => ∀ m ∈ out, m.id ≠ id
  | _, _ => True

/-- The program never writes the row under an id unless it still gets to read it. -/
abbrev Clean {α : Type} (id : String) (p : Go α) : Prop :=
  p.Avoids (Call.Writes id) (Omits id) fun _ => True

/-- The result of a service that its caller drops. -/
def discard {α : Type} (p : Go α) : Go Unit := do
  let _ ← p
  pure ()

variable {id : String} {α : Type}

/-! ## The maintenance operations start clean -/

theorem clean_discard {p : Go α} (h : Clean id p) : Clean id (discard p) :=
  avoids_bind h fun _ _ => trivial

theorem clean_of_indexes {p : Go α} (h : Indexes p) : Clean id p := by
  induction p with
  | ret a => trivial
  | fail e => trivial
  | call c k ih =>
    refine ⟨?_, fun r _ => ih r (h.2 r trivial)⟩
    have hc := h.1
    cases c <;> simp_all [Call.isIndexing, Call.Writes]

theorem clean_delete (req : DeletionRequest) : Clean id (delete req) := by
  refine avoids_perform_bind nofun fun _ _ => ?_
  refine avoids_bind (avoids_ignore nofun) fun _ _ => ?_
  refine avoids_bind (avoids_ignore nofun) fun _ _ => ?_
  refine avoids_perform_bind nofun fun _ _ => ?_
  refine avoids_perform_bind nofun fun _ _ => ?_
  refine avoids_bind (avoids_ignore nofun) fun _ _ => ?_
  exact avoids_perform_bind nofun fun _ _ => trivial

theorem clean_redact (redactPII : String → String × Bool) (tenantID memoryID reason : String) :
    Clean id (redact redactPII tenantID memoryID reason) := by
  refine avoids_perform_bind nofun fun mem hmem => ?_
  refine avoids_perform_bind nofun fun now _ => ?_
  unfold redactCopy
  dsimp only
  split
  · refine avoids_perform_bind (fun he => hmem he) fun _ _ => ?_
    exact avoids_bind (clean_of_indexes (indexes_indexMemory _)) fun _ _ => trivial
  · trivial

theorem clean_sweepOne (pol : RetentionPolicy) (tenantID : String) (now : Time) {mem : Memory}
    (h : mem.id ≠ id) : Clean id (sweepOne pol tenantID now mem) := by
  unfold sweepOne
  split
  · exact avoids_bind (clean_delete _) fun _ _ => trivial
  · exact avoids_perform (Call.upsert _) fun he => h he

theorem clean_sweepLoop (pol : RetentionPolicy) (tenantID : String) (now : Time) (affected : Nat)
    (mems : List Memory) (h : ∀ m ∈ mems, m.id ≠ id) :
    Clean id (sweepLoop pol tenantID now affected mems) := by
  induction mems generalizing affected with
  | nil => trivial
  | cons mem rest ih =>
    have hrest : ∀ m ∈ rest, m.id ≠ id := fun m hm => h m (List.mem_cons_of_mem _ hm)
    rw [sweepLoop]
    split
    · exact ih _ hrest
    split
    · exact ih _ hrest
    exact avoids_bind (clean_sweepOne pol tenantID now (h mem List.mem_cons_self)) fun _ _ =>
      ih _ hrest

theorem clean_sweep (tenantID : String) (pol : RetentionPolicy) : Clean id (sweep tenantID pol) := by
  refine avoids_perform_bind nofun fun now _ => ?_
  refine avoids_perform_bind nofun fun mems hmems => ?_
  exact clean_sweepLoop _ _ _ _ _ (hmems.resolve_left (by simp [Query.filter, Query.zero]))

theorem clean_linkRelation (d : Deployment) (source target : Memory) (relation : RelationType) :
    Clean id (linkRelation d source target relation) := by
  unfold linkRelation
  split
  · trivial
  · exact avoids_ignore nofun

/-- `Consolidate` writes listed neighbours only, and what it returns is the candidate or one
of them. -/
theorem clean_consolidate (d : Deployment) (candidate : Memory) :
    (consolidate d candidate).Avoids (Call.Writes id) (Omits id)
      fun result => candidate.id ≠ id → result.memory.id ≠ id := by
  refine avoids_perform_bind nofun fun now _ => ?_
  refine avoids_perform_bind nofun fun neighbors hlist => ?_
  have hne : ∀ m ∈ neighbors, m.id ≠ id :=
    hlist.resolve_left (by simp [neighborQuery, Query.filter])
  rw [consolidateLoop_eq]
  split
  · exact fun h => h
  · next n hn =>
    have hid := hne n (List.mem_of_find?_eq_some hn)
    unfold settle
    split
    · exact avoids_perform_bind (fun he => hid he) fun _ _ _ => hid
    split
    · refine avoids_perform_bind nofun fun vid _ => ?_
      refine avoids_perform_bind (fun he => hid he) fun _ _ => ?_
      exact avoids_bind (clean_linkRelation _ _ _ _) fun _ _ h => h
    · exact avoids_bind (clean_linkRelation _ _ _ _) fun _ _ h => h

theorem clean_compactionLoop (d : Deployment) (mems : List Memory) :
    Clean id (compactionLoop d mems) := by
  induction mems with
  | nil => trivial
  | cons mem rest ih =>
    rw [compactionLoop]
    refine avoids_perform_bind not_false fun now _ => ?_
    split
    · exact ih
    · exact avoids_bind (clean_consolidate d mem) fun _ _ => ih

theorem clean_compaction (d : Deployment) (tenant : String) : Clean id (compaction d tenant) :=
  avoids_perform_bind nofun fun _ _ => clean_compactionLoop d _

theorem clean_storeCandidate (d : Deployment) {mem : Memory} (h : mem.id ≠ id) :
    Clean id (storeCandidate d mem) := by
  unfold storeCandidate
  split
  · refine avoids_bind (clean_consolidate d mem) fun result hresult => ?_
    exact avoids_perform_bind (fun he => hresult h he) fun _ _ => trivial
  · exact avoids_perform_bind (fun he => h he) fun _ _ => trivial

theorem clean_indexKeywords (d : Deployment) (mem : Memory) : Clean id (indexKeywords d mem) := by
  unfold indexKeywords
  split
  · exact avoids_ignore nofun
  · trivial

theorem clean_ingestLoop (d : Deployment) (created candidates : List Memory)
    (h : ∀ m ∈ candidates, m.id ≠ id) : Clean id (ingestLoop d created candidates) := by
  induction candidates generalizing created with
  | nil => trivial
  | cons mem rest ih =>
    have hrest : ∀ m ∈ rest, m.id ≠ id := fun m hm => h m (List.mem_cons_of_mem _ hm)
    rw [ingestLoop]
    split
    · exact ih _ hrest
    refine avoids_bind (clean_storeCandidate d (h mem List.mem_cons_self)) fun stored _ => ?_
    exact avoids_bind (clean_indexKeywords d stored) fun _ _ => ih _ hrest

theorem clean_ingest (d : Deployment) (req : IngestRequest) : Clean id (ingest d req) := by
  refine avoids_perform_bind nofun fun now _ => ?_
  refine avoids_perform_bind nofun fun eid _ => ?_
  dsimp only
  split
  · trivial
  refine avoids_perform_bind nofun fun _ _ => ?_
  refine avoids_perform_bind nofun fun candidates hcand => ?_
  refine avoids_bind (clean_ingestLoop d [] candidates hcand) fun created _ => ?_
  exact avoids_bind (clean_of_indexes (indexes_indexCreated d created)) fun _ _ => trivial

/-! ## What is deleted stays deleted -/

/-- The row under an id is marked deleted. -/
def Deleted (id : String) (s : MemoryStore) : Prop :=
  ∃ m, s.find? id = some m ∧ m.status = .deleted

/-- No read returns a deleted memory to a program that does not ask for deleted ones, and no
write to another id makes it visible again. -/
theorem step_deleted {d : Deployment} {c : Call} {w w' : World} {r : Except Err (Resp c)}
    (hc : ¬ c.Writes id) (hdel : Deleted id w.memories) (h : step d c w r w') :
    Omits id c r ∧ Deleted id w'.memories := by
  obtain ⟨m₀, hm₀, hst⟩ := hdel
  rcases step_cases h with ⟨a, rfl, ha⟩ | ⟨e, rfl, rfl⟩
  swap
  · exact ⟨by cases c <;> trivial, m₀, hm₀, hst⟩
  cases c with
  | get tenantID memoryID =>
    obtain ⟨hget, rfl⟩ := ha
    obtain ⟨hf, -, hno⟩ := Backend.get_eq_some.mp hget
    refine ⟨fun he => hno ?_, m₀, hm₀, hst⟩
    have hid : a.id = memoryID := (Table.find?_eq_some.mp hf).2
    rw [← he, hid, hf] at hm₀
    obtain rfl := Option.some.inj hm₀
    exact hst
  | list q =>
    obtain ⟨hl, rfl⟩ := ha
    refine ⟨?_, m₀, hm₀, hst⟩
    by_cases hq : q.filter "status" = "deleted"
    · exact Or.inl hq
    · refine Or.inr fun m hm he => hq (Backend.filter_of_lists_deleted hl hm ?_)
      have hf := Table.find?_of_mem (Backend.mem_rows_of_lists hl hm)
      rw [he, hm₀] at hf
      obtain rfl := Option.some.inj hf
      exact hst
  | extract e =>
    obtain ⟨ids, -, hfresh, -, rfl, rfl⟩ := ha
    refine ⟨fun m hm he => ?_, m₀, hm₀, hst⟩
    obtain ⟨-, -, hid, -⟩ := mem_withIDs hm
    have hnone := (hfresh _ hid).2.2
    rw [he, hm₀] at hnone
    cases hnone
  | upsert m =>
    obtain rfl := ha
    refine ⟨trivial, m₀, ?_, hst⟩
    exact (Backend.find?_upsert _ _ _ _).trans ((if_neg hc).trans hm₀)
  | delete tenantID memoryID =>
    obtain ⟨now, s, hs, rfl⟩ := ha
    obtain ⟨hrow, hother⟩ := Backend.find?_delete hs
    refine ⟨trivial, ?_⟩
    by_cases he : id = memoryID
    · exact he ▸ hrow
    · exact ⟨m₀, (hother id he).trans hm₀, hst⟩
  | searchByText _ => exact ⟨trivial, ha.2 ▸ ⟨m₀, hm₀, hst⟩⟩
  | now => exact ⟨trivial, ha.2 ▸ ⟨m₀, hm₀, hst⟩⟩
  | newID _ => exact ⟨trivial, ha.2 ▸ ⟨m₀, hm₀, hst⟩⟩
  | searchVectors _ => exact ⟨trivial, ha.2 ▸ ⟨m₀, hm₀, hst⟩⟩
  | searchKeywords _ => exact ⟨trivial, ha.2 ▸ ⟨m₀, hm₀, hst⟩⟩
  | traverse _ => exact ⟨trivial, ha.2 ▸ ⟨m₀, hm₀, hst⟩⟩
  | rerank _ _ => exact ⟨trivial, ha.2 ▸ ⟨m₀, hm₀, hst⟩⟩
  | rangeOver _ => exact ⟨trivial, ha.2 ▸ ⟨m₀, hm₀, hst⟩⟩
  | _ => exact ⟨trivial, by subst ha; exact ⟨m₀, hm₀, hst⟩⟩

/-- Operations side by side over one world. -/
abbrev Services (ι : Type) := Pool Call Resp Err World ι Unit

/-- When a thread makes a `Delete` call for a memory, no other thread is about to write a
copy of the memory that it read before. -/
def NoStaleCopy {ι : Type} (memoryID : String) (c : Services ι) (i : ι) : Prop :=
  ∀ tenantID k, c.threads i = .call (.delete tenantID memoryID) k →
    ∀ j, j ≠ i → Clean memoryID (c.threads j)

variable {ι : Type} [DecidableEq ι] {d : Deployment} {c c' : Services ι} {i : ι}
  {req : DeletionRequest}

/-- The row is marked and nobody holds a copy to write. -/
def Settled (id : String) (c : Services ι) : Prop :=
  Deleted id c.store.memories ∧ ∀ j, Clean id (c.threads j)

theorem settled_next {guard : Services ι → ι → Prop} (h : Settled id c)
    (hn : Pool.GuardedNext guard (step d) c c') : Settled id c' := by
  have hstep : ∀ op s r s', ¬ Call.Writes id op → Deleted id s.memories → step d op s r s' →
      Omits id op r ∧ Deleted id s'.memories := fun _ _ _ _ => step_deleted
  exact (hn.avoids hstep h.2 h.1).symm

/-- A pool in which thread `i` deletes: it has not begun, it has failed, or its call has
settled the matter. -/
def DeletingAt (req : DeletionRequest) (i : ι) (c : Services ι) : Prop :=
  c.threads i = discard (delete req) ∨ (∃ e, c.threads i = .fail e) ∨ Settled req.memoryID c

theorem deletingAt_next (h : DeletingAt req i c)
    (hn : Pool.GuardedNext (NoStaleCopy req.memoryID) (step d) c c') : DeletingAt req i c' := by
  rcases h with hi | hi | hsettled
  · obtain ⟨j, op, k, r, hguard, hj, hs, hthreads⟩ := hn
    by_cases hji : j = i
    · subst hji
      have hclean : Clean req.memoryID (discard (delete req)) := clean_discard (clean_delete req)
      rw [← hi, hj] at hclean
      rw [hi] at hj
      obtain rfl : op = .delete req.tenantID req.memoryID := by
        cases hj
        rfl
      have hothers := hguard req.tenantID k (hi.trans hj)
      rcases step_cases hs with ⟨_, rfl, now, s, hd, hw⟩ | ⟨e, rfl, -⟩
      · refine Or.inr (Or.inr ⟨?_, fun l => ?_⟩)
        · rw [hw]
          exact (Backend.find?_delete hd).1
        · rw [hthreads]
          by_cases hl : l = j
          · subst hl
            rw [Function.update_self]
            exact hclean.2 _ trivial
          · rw [Function.update_of_ne hl]
            exact hothers l hl
      · refine Or.inr (Or.inl ⟨e, ?_⟩)
        rw [hthreads, Function.update_self]
        cases hj
        rfl
    · refine Or.inl ?_
      rw [hthreads, Function.update_of_ne (Ne.symm hji), hi]
  · obtain ⟨j, op, k, r, -, hj, -, hthreads⟩ := hn
    obtain ⟨e, he⟩ := hi
    refine Or.inr (Or.inl ⟨e, ?_⟩)
    have hji : i ≠ j := by
      rintro rfl
      rw [he] at hj
      cases hj
    rw [hthreads, Function.update_of_ne hji, he]
  · exact Or.inr (Or.inr (settled_next hsettled hn))

theorem not_returned_of_deleted {b : Backend} {s : MemoryStore} (h : Deleted id s) :
    (∀ tenantID, b.get s tenantID id = none) ∧
      ∀ q out, b.Lists s q out → ∀ m ∈ out, m.id = id → q.filter "status" = "deleted" := by
  obtain ⟨m₀, hm₀, hst⟩ := h
  constructor
  · intro tenantID
    refine Option.eq_none_iff_forall_not_mem.mpr fun m hm => ?_
    obtain ⟨hf, -, hno⟩ := Backend.get_eq_some.mp hm
    obtain rfl := Option.some.inj (hm₀.symm.trans hf)
    exact hno hst
  · rintro q out hl m hm rfl
    have hf := Table.find?_of_mem (Backend.mem_rows_of_lists hl hm)
    obtain rfl := Option.some.inj (hm₀.symm.trans hf)
    exact Backend.filter_of_lists_deleted hl hm hst

theorem exec_discard {p : Go α} {a : α} {w w' : World} (h : Exec (step d) p w (.ok a) w') :
    Exec (step d) (discard p) w (.ok ()) w' :=
  h.bind (.ret () w')

/-- The world after a deletion that was received. -/
def World.forgotten (w : World) (req : DeletionRequest) (s : MemoryStore) (rid : String) : World :=
  { w with
    memories := s
    vectors := w.vectors.erase req.memoryID
    receipts := w.receipts ++ [⟨req.tenantID, "delete", req.memoryID, req.reason⟩]
    issued := rid :: w.issued }

theorem exec_delete {now : Time} {w : World} {s : MemoryStore} {rid : String}
    (hclock : d.clock now)
    (hd : d.backend.delete w.memories req.tenantID req.memoryID now = some s)
    (hrid : World.Fresh { w with memories := s } rid) :
    Exec (step d) (discard (delete req)) w (.ok ()) (w.forgotten req s rid) := by
  have hnow : ∀ w : World, step d .now w (.ok now) w := fun _ => step_answer ⟨hclock, rfl⟩
  suffices h : Exec (step d) (delete req) w
      (.ok ⟨"del_" ++ req.memoryID, req.tenantID, req.memoryID, now, req.reason⟩)
      (w.forgotten req s rid) from exec_discard h
  refine .answer (step_answer (show Answers d (.delete _ _) w () _ from ⟨now, s, hd, rfl⟩)) ?_
  refine .ignored (step_answer (show Answers d (.deleteVectors _) _ () _ from rfl)) ?_
  refine .ignored (step_answer (show Answers d (.deleteTraces _ _) _ () _ from rfl)) ?_
  refine .answer (hnow _) ?_
  refine .answer (step_answer (show Answers d (.newID "rcpt") _ rid _ from ⟨hrid, rfl⟩)) ?_
  refine .ignored (step_answer (show Answers d (.appendReceipt _) _ () _ from rfl)) ?_
  exact .answer (hnow _) (.ret _ _)

/-- The world after a redaction. -/
def World.masked (w : World) (d : Deployment) (m : Memory) : World :=
  { w with
    memories := d.backend.upsert w.memories m
    vectors := w.vectors.upsert (vectorItem m []) }

theorem exec_indexMemory {w : World} {m : Memory} :
    Exec (step d) (indexMemory m) w (.ok ())
      { w with vectors := w.vectors.upsert (vectorItem m []) } := by
  refine .answer (step_answer (show Answers d (.embed _) w [] w from rfl)) ?_
  exact .perform (step_answer (show Answers d (.upsertVectors _) w () _ from rfl))

theorem exec_redactCopy {redactPII : String → String × Bool} {tenantID memoryID reason : String}
    {mem : Memory} {now : Time} (w : World) (hchanged : (redactPII mem.content).2 = true) :
    Exec (step d) (redactCopy redactPII tenantID memoryID reason mem now) w
      (.ok ⟨"redact_" ++ memoryID, tenantID, memoryID, now, if reason = "" then "pii_redaction" else reason⟩)
      (w.masked d (redacted mem (redactPII mem.content).1 (redactPII mem.summary).1 now)) := by
  unfold redactCopy
  dsimp only
  rw [if_pos (by simp [hchanged])]
  refine .answer (step_answer (show Answers d (.upsert _) w () _ from rfl)) ?_
  exact .bind exec_indexMemory (.ret _ _)

/-- A memory that is an address, and what masking it gives. -/
def address : Memory := userFact 1 "m1" "a@b.co"

def maskAddress (text : String) : String × Bool :=
  if text = "a@b.co" then ("[REDACTED:email]", true) else (text, false)

def addressOnly : World := World.holding (Table.empty.upsert address)

def addressDeletion : DeletionRequest := ⟨"t", "u", "m1", "request"⟩

/-- The row the deletion leaves. -/
def addressGone : MemoryStore := addressOnly.memories.upsert { address with status := .deleted }

/-- A deletion (`true`) beside a redaction (`false`). -/
def deletionAndRedaction (b : Bool) : Go Unit :=
  if b then discard (delete addressDeletion) else discard (redact maskAddress "t" "m1" "")

/-- The redaction has read the memory, and the deletion is to begin. -/
def redactionHoldsCopy (b : Bool) : Go Unit :=
  if b then discard (delete addressDeletion)
  else discard (redactCopy maskAddress "t" "m1" "" address 5)

theorem run_deletion {guard : Services Bool → Bool → Prop} (threads : Bool → Go Unit)
    (ht : threads true = discard (delete addressDeletion))
    (hguard : ∀ c : Services Bool, (∀ j, j ≠ true → c.threads j = threads j) → guard c true) :
    Pool.GuardedRun guard (step (.inProcess 5)) ⟨threads, addressOnly⟩
      ⟨Function.update threads true (.ret ()), addressOnly.forgotten addressDeletion addressGone "r1"⟩ :=
  Pool.GuardedRun.of_exec threads addressOnly hguard ht
    (exec_delete rfl (by rfl) ⟨by decide, by decide, by decide⟩)

/-- The redaction makes its two reads. -/
theorem run_reads :
    Pool.GuardedRun Pool.unguarded (step (.inProcess 5)) ⟨deletionAndRedaction, addressOnly⟩
      ⟨redactionHoldsCopy, addressOnly⟩ := by
  have hget : step (.inProcess 5) (.get "t" "m1") addressOnly (.ok address) addressOnly :=
    step_answer ⟨by decide +kernel, rfl⟩
  have hnow : step (.inProcess 5) .now addressOnly (.ok 5) addressOnly := step_answer ⟨rfl, rfl⟩
  have hfirst : Pool.GuardedNext Pool.unguarded (step (.inProcess 5))
      ⟨deletionAndRedaction, addressOnly⟩
      ⟨Function.update deletionAndRedaction false (discard (do
        let now ← ask .now
        redactCopy maskAddress "t" "m1" "" address now)), addressOnly⟩ :=
    ⟨false, .get "t" "m1", _, .ok address, trivial, rfl, hget, rfl⟩
  refine .tail (.single hfirst) ⟨false, .now, _, .ok 5, trivial, rfl, hnow, ?_⟩
  funext b
  cases b <;> rfl

end AgentMemory
