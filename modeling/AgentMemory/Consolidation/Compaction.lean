import AgentMemory.Lib.Succession
import AgentMemory.Consolidation.Consolidate

/-!
# The compaction job

`NewSchedulerApp` (`bootstrap/scheduler.go:97-119`) lists the memories of a tenant once and
passes each of them that is active to `Consolidate`. The candidate is the copy of the
snapshot, so a memory that an earlier call closed still closes others, and the one it
closes may be the one its own successors lead to. `Standing` is the invariant of the pass;
with it the closings of a pass are those of `Succession`, and what one closing does to the
chains of successors is `Succession.ends_close_iff`.
-/

open Relation Succession

namespace AgentMemory

open Tables Calls

/-- A deployment whose clock stands at `now` and whose store calls all succeed. -/
def Deployment.steady (d : Deployment) (now : Time) : Deployment :=
  { d with clock := (· = now), faulty := False }

/-- The same deployment with the memories in Postgres. -/
def Deployment.onPostgres (d : Deployment) (timestamptz : String → Time) (ilike : String → String → Bool) : Deployment :=
  { d with backend := .postgres timestamptz ilike }

/-- The loop of the compaction job over a snapshot (`scheduler.go:107-114`). -/
def compactionLoop (d : Deployment) : List Memory → Go Unit
  | [] => pure ()
  | mem :: rest => do
    let now ← ask .now
    if mem.isActive now = false then compactionLoop d rest
    else do
      let _ ← consolidate d mem
      compactionLoop d rest

/-- The compaction job for one tenant (`scheduler.go:102-115`). -/
def compaction (d : Deployment) (tenant : String) : Go Unit := do
  let memories ← ask (.list { Query.zero with tenantID := tenant, limit := 200 })
  compactionLoop d memories

/-- What compaction should keep: the successors of a memory that was active and is now
superseded lead to one that is active. -/
def KeepsFacts (now : Time) (s s' : MemoryStore) : Prop :=
  ∀ m ∈ s.rows, m.status = .active → ∀ m', s'.find? m.id = some m' → m'.status = .superseded →
    ∃ k ∈ s'.rows, ReflTransGen (SupersededIn s') m.id k.id ∧ k.isActive now = true

/-- A write that closes a memory its closer's own successors lead to. -/
def ClosesRing (c : Made Call World) : Prop :=
  ∃ m id, c.op = .upsert m ∧ m.SupersededBy id ∧
    ReflTransGen (SupersededIn c.before.memories) id m.id

/-! ## What a pass does to a row -/

/-- How a row stands during a pass that found `m₀` in its place: still as active as it was,
or closed by a memory that was active then. -/
inductive Stands (now : Time) (s₀ : MemoryStore) (m₀ m : Memory) : Prop where
  | kept : m.status = m₀.status → m.isActive now = m₀.isActive now → Stands now s₀ m₀ m
  | closed {c : Memory} : m₀.isActive now = true → c ∈ s₀.rows → c.isActive now = true →
      m.SupersededBy c.id → Stands now s₀ m₀ m

/-- Every row of the pass stands. -/
def Standing (now : Time) (s₀ s : MemoryStore) : Prop :=
  ∀ id, Option.Rel (Stands now s₀) (s₀.find? id) (s.find? id)

/-- The id of a memory that was active when the pass began. -/
def WasActive (now : Time) (s₀ : MemoryStore) (id : String) : Prop :=
  ∃ m₀, s₀.find? id = some m₀ ∧ m₀.isActive now = true

/-- The closings of the pass. -/
def Closes (now : Time) (s₀ s : MemoryStore) (a b : String) : Prop :=
  WasActive now s₀ a ∧ SupersededIn s a b

variable {d : Deployment} {now : Time} {s₀ s : MemoryStore} {n m : Memory} {b : Backend}

theorem standing_refl : Standing now s s := by
  intro id
  cases s.find? id with
  | none => exact .none
  | some m => exact .some (.kept rfl rfl)

theorem stands_of_row (h : Standing now s₀ s) (hn : n ∈ s.rows) :
    ∃ m₀, s₀.find? n.id = some m₀ ∧ Stands now s₀ m₀ n := by
  have hid := h n.id
  rw [Table.find?_of_mem hn] at hid
  cases hf : s₀.find? n.id with
  | none =>
    rw [hf] at hid
    cases hid
  | some m₀ =>
    rw [hf] at hid
    cases hid with
    | some hs => exact ⟨m₀, rfl, hs⟩

theorem row_of_before (h : Standing now s₀ s) {id : String} {m₀ : Memory}
    (hm₀ : s₀.find? id = some m₀) : ∃ m, s.find? id = some m ∧ Stands now s₀ m₀ m := by
  have hid := h id
  rw [hm₀] at hid
  cases hf : s.find? id with
  | none =>
    rw [hf] at hid
    cases hid
  | some m =>
    rw [hf] at hid
    cases hid with
    | some hs => exact ⟨m, rfl, hs⟩

theorem wasActive_of_isActive (h : Standing now s₀ s) (hn : n ∈ s.rows)
    (hact : n.isActive now = true) : WasActive now s₀ n.id := by
  obtain ⟨m₀, hm₀, hs⟩ := stands_of_row h hn
  cases hs with
  | kept _ ha => exact ⟨m₀, hm₀, ha ▸ hact⟩
  | closed h₀ => exact ⟨m₀, hm₀, h₀⟩

theorem standing_upsert (h : Standing now s₀ s) (hn : n ∈ s.rows) (hid : m.id = n.id)
    (hm : ∀ m₀, s₀.find? n.id = some m₀ → Stands now s₀ m₀ n →
      Stands now s₀ m₀ (b.stored (s.find? m.id) m)) : Standing now s₀ (b.upsert s m) := by
  intro id
  rw [Backend.find?_upsert]
  split
  · next he =>
    obtain ⟨m₀, hm₀, hs⟩ := stands_of_row h hn
    rw [← he, hid, hm₀]
    rw [← hid]
    exact .some (hm m₀ hm₀ hs)
  · exact h id

/-- A write that keeps an active row active leaves the closings as they are. -/
theorem closes_upsert_kept (hn : n ∈ s.rows) (hact : n.isActive now = true) (hid : m.id = n.id)
    (hm : m.status = .active) : Closes now s₀ (b.upsert s m) = Closes now s₀ s := by
  funext a c
  simp only [Closes, supersededIn_upsert, eq_iff_iff, and_congr_right_iff]
  intro _
  split
  · next he =>
    constructor
    · intro hsup
      exact absurd ((Backend.stored_status b _ m).trans hm) hsup.not_active
    · intro hsup
      rw [← he, hid] at hsup
      exact absurd hsup (not_supersededIn_of_active hn hact)
  · exact Iff.rfl

/-- A write that closes a row is one more closing. -/
theorem closes_upsert_closed (h : Standing now s₀ s) (hn : n ∈ s.rows)
    (hact : n.isActive now = true) (candidate : Memory) (vid : String) :
    Closes now s₀ (b.upsert s (closed n candidate vid now)) =
      close (Closes now s₀ s) n.id candidate.id := by
  have hrow := stored_closed_supersededBy b (s.find? n.id) n candidate vid now
  funext a c
  simp only [Closes, supersededIn_upsert, close, eq_iff_iff]
  change (_ ∧ if n.id = a then _ else _) ↔ _
  by_cases he : n.id = a
  · subst he
    rw [if_pos rfl]
    constructor
    · rintro ⟨-, hc⟩
      exact Or.inr ⟨rfl, hc.unique hrow⟩
    · rintro (⟨-, hc⟩ | ⟨-, rfl⟩)
      · exact absurd hc (not_supersededIn_of_active hn hact)
      · exact ⟨wasActive_of_isActive h hn hact, hrow⟩
  · rw [if_neg he]
    constructor
    · exact Or.inl
    · rintro (hc | ⟨rfl, -⟩)
      · exact hc
      · exact absurd rfl he

theorem closes_functional {a c c' : String} (h : Closes now s₀ s a c) (h' : Closes now s₀ s a c') :
    c = c' := by
  obtain ⟨-, m, hm, hc⟩ := h
  obtain ⟨-, m', hm', hc'⟩ := h'
  obtain rfl := Option.some.inj (hm.symm.trans hm')
  exact hc.unique hc'

/-- Whoever closed a memory of the pass was active when it began. -/
theorem wasActive_of_closes (h : Standing now s₀ s) {a c : String} (hc : Closes now s₀ s a c) :
    WasActive now s₀ c := by
  obtain ⟨⟨m₀, hm₀, hact⟩, m, hm, hsup⟩ := hc
  obtain ⟨m', hm', hs⟩ := row_of_before h hm₀
  obtain rfl := Option.some.inj (hm.symm.trans hm')
  cases hs with
  | kept hst _ =>
    exact absurd (hst.trans (Memory.status_of_isActive hact)) hsup.not_active
  | @closed k _ hk hkact hk' =>
    rw [hsup.unique hk']
    exact ⟨k, Table.find?_of_mem hk, hkact⟩

/-- From a memory that was active, the recorded successors are the closings of the pass. -/
theorem reach_closes_iff (h : Standing now s₀ s) {a c : String} (ha : WasActive now s₀ a) :
    ReflTransGen (SupersededIn s) a c ↔ ReflTransGen (Closes now s₀ s) a c := by
  constructor
  · intro hr
    have : ReflTransGen (Closes now s₀ s) a c ∧ WasActive now s₀ c := by
      induction hr with
      | refl => exact ⟨.refl, ha⟩
      | tail _ hstep ih => exact ⟨ih.1.tail ⟨ih.2, hstep⟩, wasActive_of_closes h ⟨ih.2, hstep⟩⟩
    exact this.1
  · exact ReflTransGen.mono (fun _ _ hc => hc.2) _ _

theorem wasActive_of_reach (h : Standing now s₀ s) {a c : String} (ha : WasActive now s₀ a)
    (hr : ReflTransGen (Closes now s₀ s) a c) : WasActive now s₀ c := by
  induction hr with
  | refl => exact ha
  | tail _ hstep _ => exact wasActive_of_closes h hstep

/-- An active row is open, and an open row of a memory that was active still is. -/
theorem open_iff_active (h : Standing now s₀ s) {a : String} (ha : WasActive now s₀ a) :
    Open (Closes now s₀ s) a ↔ ∃ k ∈ s.rows, k.id = a ∧ k.isActive now = true := by
  obtain ⟨m₀, hm₀, hact⟩ := id ha
  obtain ⟨m, hm, hs⟩ := row_of_before h hm₀
  obtain ⟨hrow, hid⟩ := Table.find?_eq_some.mp hm
  constructor
  · intro hopen
    cases hs with
    | kept _ hk => exact ⟨m, hrow, hid, hk.trans hact⟩
    | @closed k _ _ _ hsup => exact absurd ⟨ha, m, hm, hsup⟩ (hopen k.id)
  · rintro ⟨k, hk, rfl, hkact⟩ c ⟨-, hc⟩
    exact not_supersededIn_of_active hk hkact hc

/-- The pass keeps the facts exactly where every chain of its closings ends. -/
theorem keepsFacts_iff (h : Standing now s₀ s) :
    KeepsFacts now s₀ s ↔ ∀ a, Ends (Closes now s₀ s) a := by
  constructor
  · intro hk a
    by_cases hopen : Open (Closes now s₀ s) a
    · exact hopen.ends
    obtain ⟨c, hc⟩ := not_forall_not.mp hopen
    obtain ⟨⟨m₀, hm₀, hact⟩, m, hm, hsup⟩ := hc
    obtain ⟨hrow₀, rfl⟩ := Table.find?_eq_some.mp hm₀
    obtain ⟨l, hl, hreach, hlact⟩ :=
      hk m₀ hrow₀ (Memory.status_of_isActive hact) m hm hsup.1
    have hwas : WasActive now s₀ m₀.id := ⟨m₀, hm₀, hact⟩
    have hreach' := (reach_closes_iff h hwas).mp hreach
    exact ⟨l.id, hreach', (open_iff_active h (wasActive_of_reach h hwas hreach')).mpr
      ⟨l, hl, rfl, hlact⟩⟩
  · intro hends m hm hact m' hm' hsup
    have hwas : WasActive now s₀ m.id := by
      obtain ⟨m'', hm'', hs⟩ := row_of_before h (Table.find?_of_mem hm)
      obtain rfl := Option.some.inj (hm'.symm.trans hm'')
      cases hs with
      | kept hst _ =>
        rw [hsup, hact] at hst
        cases hst
      | closed h₀ => exact ⟨m, Table.find?_of_mem hm, h₀⟩
    obtain ⟨l, hreach, hopen⟩ := hends m.id
    obtain ⟨k, hk, rfl, hkact⟩ := (open_iff_active h (wasActive_of_reach h hwas hreach)).mp hopen
    exact ⟨k, hk, (reach_closes_iff h hwas).mpr hreach, hkact⟩

/-! ## What one call does to the pass -/

/-- The invariant of a pass over a snapshot of `s₀`. -/
structure PassInv (now : Time) (s₀ : MemoryStore) (t : World × History) : Prop where
  standing : Standing now s₀ t.1.memories
  ends_iff : (∀ a, Ends (Closes now s₀ t.1.memories) a) ↔ ∀ c ∈ t.2, ¬ ClosesRing c

theorem not_closesRing_of_active {w : World} {failed : Bool} (hm : m.status = .active) :
    ¬ ClosesRing ⟨.upsert m, w, failed⟩ := by
  rintro ⟨_, id, he, hsup, -⟩
  cases he
  exact hsup.not_active hm

theorem closesRing_closed (h : Standing now s₀ s) {candidate : Memory} {vid : String} {w : World}
    (hw : w.memories = s) (hc : WasActive now s₀ candidate.id) :
    ClosesRing ⟨.upsert (closed n candidate vid now), w, false⟩ ↔
      ReflTransGen (Closes now s₀ s) candidate.id n.id := by
  subst hw
  rw [← reach_closes_iff h hc]
  constructor
  · rintro ⟨_, id, he, hsup, hr⟩
    cases he
    have hself := stored_closed_supersededBy .memory none n candidate vid now
    exact hsup.unique hself ▸ hr
  · intro hr
    exact ⟨_, candidate.id, rfl, stored_closed_supersededBy .memory none n candidate vid now, hr⟩

theorem forall_mem_snoc {p : Made Call World → Prop} {history : History} {c : Made Call World} :
    (∀ x ∈ history ++ [c], p x) ↔ (∀ x ∈ history, p x) ∧ p c := by
  simp [or_imp, forall_and]

/-- A `Consolidate` call of the pass keeps the invariant. -/
theorem PassInv.outcome {candidate : Memory} {w w' : World} {history writes : History}
    {o : Except Err Result} (h : PassInv now s₀ (w, history)) (hc : candidate ∈ s₀.rows)
    (hact : candidate.isActive now = true)
    (ho : Outcome (d.steady now) candidate w o w' writes) :
    PassInv now s₀ (w', history ++ writes) := by
  have hwas : WasActive now s₀ candidate.id := ⟨candidate, Table.find?_of_mem hc, hact⟩
  cases ho with
  | failed _ _ _ hf => exact hf.elim
  | new =>
    rw [List.append_nil]
    exact h
  | @merged now' neighbors n hnow hl hn _ =>
    obtain rfl : now' = now := hnow
    have hrow := Backend.mem_rows_of_lists hl (List.mem_of_find?_eq_some hn)
    have hnact := (applies_iff.mp (List.find?_some hn)).2.1
    refine ⟨standing_upsert h.standing hrow rfl ?_, ?_⟩
    · intro m₀ _ hs
      cases hs with
      | kept hst ha =>
        exact .kept ((Backend.stored_status _ _ _).trans hst)
          ((Backend.stored_isActive _ _ _ _).trans ha)
      | closed _ _ _ hsup => exact absurd (Memory.status_of_isActive hnact) hsup.not_active
    · have hst : (merge n candidate now').status = .active := Memory.status_of_isActive hnact
      have hcl : Closes now' s₀ ((d.steady now').backend.upsert w.memories (merge n candidate now'))
          = Closes now' s₀ w.memories := closes_upsert_kept hrow hnact rfl hst
      rw [forall_mem_snoc, and_iff_left (not_closesRing_of_active hst), ← h.ends_iff]
      exact iff_of_eq (by rw [hcl])
  | @superseded now' neighbors n vid _ hnow hl hn _ _ _ hlink =>
    obtain rfl : now' = now := hnow
    have hrow := Backend.mem_rows_of_lists hl (List.mem_of_find?_eq_some hn)
    have hnact := (applies_iff.mp (List.find?_some hn)).2.1
    have hmem : w'.memories =
        (d.steady now').backend.upsert w.memories (closed n candidate vid now') := by
      rcases hlink with ⟨-, rfl⟩ | ⟨-, rfl⟩ <;> rfl
    refine ⟨?_, ?_⟩
    · rw [hmem]
      refine standing_upsert h.standing hrow rfl ?_
      intro m₀ _ hs
      have hsup := stored_closed_supersededBy (d.steady now').backend
        (w.memories.find? n.id) n candidate vid now'
      cases hs with
      | kept _ ha => exact .closed (ha ▸ hnact) hc hact hsup
      | closed h₀ => exact .closed h₀ hc hact hsup
    · have hring : ClosesRing ⟨.upsert (closed n candidate vid now'),
          { w with issued := vid :: w.issued }, false⟩ ↔
            ReflTransGen (Closes now' s₀ w.memories) candidate.id n.id :=
        closesRing_closed h.standing rfl hwas
      rw [hmem, closes_upsert_closed h.standing hrow hnact, forall_mem_snoc, hring, ← h.ends_iff]
      refine ends_close_iff (fun c hc' => ?_) fun _ _ _ => closes_functional
      exact not_supersededIn_of_active hrow hnact hc'.2
  | contradicts _ _ _ _ _ _ hlink =>
    have hmem : w'.memories = w.memories := by
      rcases hlink with ⟨-, rfl⟩ | ⟨-, rfl⟩ <;> rfl
    rw [List.append_nil]
    exact ⟨hmem ▸ h.standing, hmem ▸ h.ends_iff⟩

theorem wp_compactionLoop {mems : List Memory} {w : World} {history : History}
    (hmems : ∀ m ∈ mems, m ∈ s₀.rows) (h : PassInv now s₀ (w, history)) :
    wp (watched (d.steady now)) (fun _ t => PassInv now s₀ t)
      (compactionLoop (d.steady now) mems) (w, history) := by
  induction mems generalizing w history with
  | nil => exact h
  | cons mem rest ih =>
    have hrest : ∀ m ∈ rest, m ∈ s₀.rows := fun m hm => hmems m (List.mem_cons_of_mem _ hm)
    rw [compactionLoop, wp_recorded_bind]
    intro r w₁ hs
    obtain ⟨t, rfl, ht, rfl⟩ := step_sure hs rfl
    obtain rfl : now = t := Eq.symm ht
    dsimp only
    split
    · exact ih hrest h
    · next hact =>
      have hact' : mem.isActive now = true := by simpa using hact
      rw [wp_bind]
      apply wp_consolidate
      intro o w' writes ho
      have hinv := h.outcome (hmems mem List.mem_cons_self) hact' ho
      cases o with
      | ok _ => exact ih hrest hinv
      | error _ => exact hinv

theorem wp_compaction {tenant : String} {w : World} :
    wp (watched (d.steady now)) (fun _ t => PassInv now w.memories t)
      (compaction (d.steady now) tenant) (w, []) := by
  have hinit : PassInv now w.memories (w, []) := by
    refine ⟨standing_refl, iff_of_true (fun a => Open.ends ?_) (by simp)⟩
    rintro c ⟨⟨m, hm, hact⟩, hsup⟩
    obtain ⟨hrow, rfl⟩ := Table.find?_eq_some.mp hm
    exact not_supersededIn_of_active hrow hact hsup
  rw [compaction, wp_recorded_bind]
  intro r w₁ hs
  rcases step_store hs rfl with ⟨mems, rfl, hl, rfl⟩ | ⟨_, _, hf, -⟩
  · exact wp_compactionLoop (fun m => Backend.mem_rows_of_lists hl) hinit
  · exact hf.elim

/-- Where a pass keeps the facts, no two memories that were active have superseded each
other. -/
theorem not_mutual {a c : String} (hk : KeepsFacts now s₀ s) (hst : Standing now s₀ s)
    (ha : WasActive now s₀ a) (hac : SupersededIn s a c) : ¬ SupersededIn s c a := by
  intro hca
  have hr : ReflTransGen (Closes now s₀ s) a c := .single ⟨ha, hac⟩
  have hc : Closes now s₀ s c a := ⟨wasActive_of_reach hst ha hr, hca⟩
  have hring : ∀ x, ReflTransGen (Closes now s₀ s) a x → x = a ∨ x = c := by
    intro x hx
    induction hx with
    | refl => exact Or.inl rfl
    | tail _ hstep ih =>
      rcases ih with rfl | rfl
      · exact Or.inr (closes_functional hstep ⟨ha, hac⟩)
      · exact Or.inl (closes_functional hstep hc)
  obtain ⟨k, hak, hopen⟩ := (keepsFacts_iff hst).mp hk a
  rcases hring k hak with rfl | rfl
  · exact hopen c ⟨ha, hac⟩
  · exact hopen a hc

/-- A compaction pass keeps the facts exactly when no write of it closes a memory that the
closer's own successors lead to. -/
theorem compaction_keeps_facts_iff (d : Deployment) (now : Time) (tenant : String) (w w' : World)
    (o : Except Err Unit) (history : History)
    (hrun : Exec (watched (d.steady now)) (compaction (d.steady now) tenant) (w, []) o
      (w', history)) :
    KeepsFacts now w.memories w'.memories ↔ ∀ c ∈ history, ¬ ClosesRing c := by
  have hinv := hrun.post wp_compaction
  exact (keepsFacts_iff hinv.standing).trans hinv.ends_iff

/-! ## A ring of two -/

def bothFacts : World := World.holding ((Table.empty.upsert shortFact).upsert longFact)

/-- The snapshot's first memory closes the second, whose stale copy then closes the first. -/
def longClosed : World :=
  { bothFacts with
    issued := ["v1"]
    memories := Backend.memory.upsert bothFacts.memories (closed longFact shortFact "v1" 5)
    edges := [relationEdge shortFact (closed longFact shortFact "v1" 5) .supersedes] }

def bothClosed : World :=
  { longClosed with
    issued := ["v2", "v1"]
    memories := Backend.memory.upsert longClosed.memories (closed shortFact longFact "v2" 5)
    edges := longClosed.edges ++
      [relationEdge longFact (closed shortFact longFact "v2" 5) .supersedes] }

def ringHistory : History :=
  [⟨.upsert (closed longFact shortFact "v1" 5), { bothFacts with issued := ["v1"] }, false⟩,
    ⟨.upsert (closed shortFact longFact "v2" 5), { longClosed with issued := ["v2", "v1"] }, false⟩]

theorem run_bothFacts :
    Exec (watched ((Deployment.inProcess 5).steady 5)) (compaction ((Deployment.inProcess 5).steady 5)
      "t") (bothFacts, []) (.ok ()) (bothClosed, ringHistory) := by
  have hclock : ∀ w, Answers ((Deployment.inProcess 5).steady 5) .now w 5 w := fun _ => ⟨rfl, rfl⟩
  have hfirst : Backend.memory.Lists bothFacts.memories (neighborQuery shortFact)
      [shortFact, longFact] := List.Perm.refl _
  have hsecond : Backend.memory.Lists longClosed.memories (neighborQuery longFact) [shortFact] :=
    List.Perm.refl _
  have hmatch : [shortFact, longFact].find? (applies Char.toLower 5 shortFact) = some longFact := by
    decide +kernel
  have hmatch' : [shortFact].find? (applies Char.toLower 5 longFact) = some shortFact := by
    decide +kernel
  have hfresh : bothFacts.Fresh "v1" := ⟨by decide, by decide, by decide⟩
  have hfresh' : longClosed.Fresh "v2" := ⟨by decide, by decide, by decide +kernel⟩
  refine exec_answer (show Answers _ (.list _) bothFacts _ bothFacts from
    ⟨(hfirst : Backend.memory.Lists _ { Query.zero with tenantID := "t", limit := 200 } _), rfl⟩) ?_
  rw [compactionLoop]
  refine exec_answer (hclock bothFacts) ?_
  rw [if_neg (by decide +kernel)]
  refine Exec.bind (exec_consolidate_superseded rfl hfirst hmatch (by decide +kernel)
    (by decide +kernel) hfresh rfl) ?_
  rw [compactionLoop]
  refine exec_answer (hclock longClosed) ?_
  rw [if_neg (by decide +kernel)]
  refine Exec.bind (exec_consolidate_superseded rfl hsecond hmatch' (by decide +kernel)
    (by decide +kernel) hfresh' rfl) ?_
  exact .ret _ _

theorem compaction_keeps_facts_iff_bothFacts :
    KeepsFacts 5 bothFacts.memories bothClosed.memories ↔ ∀ c ∈ ringHistory, ¬ ClosesRing c :=
  compaction_keeps_facts_iff (.inProcess 5) 5 "t" bothFacts bothClosed (.ok ()) ringHistory
    run_bothFacts

/-- Both memories were active and are closed, so neither has an active successor. -/
theorem compaction_loses_fact :
    ¬ ∀ o w' history,
      Exec (watched ((Deployment.inProcess 5).steady 5))
        (compaction ((Deployment.inProcess 5).steady 5) "t") (bothFacts, []) o (w', history) →
      KeepsFacts 5 bothFacts.memories w'.memories := by
  intro h
  have hrow : bothClosed.memories.find? "a" = some (closed shortFact longFact "v2" 5) := by
    decide +kernel
  have hnone : ∀ k ∈ bothClosed.memories.rows, k.isActive 5 = false := by decide +kernel
  obtain ⟨k, hk, -, hact⟩ := h _ _ _ run_bothFacts shortFact (by decide +kernel) rfl _ hrow rfl
  rw [hnone k hk] at hact
  cases hact

end AgentMemory
