import AgentMemory.Services.World

/-!
# Indexing memories

The writes by which a memory becomes searchable beyond its row: its vector
(`services/embedding/service.go`), its keyword entry and its graph node. They touch neither
the memories nor the events, and `wp_indexing` is all that the services' proofs use of
them. The embedding cache only saves calls to the embedder, whose answers are left open.
-/

namespace AgentMemory

open Tables Calls

/-- `vectorItem` (`embedding/service.go:92-105`). -/
def vectorItem (mem : Memory) (vec : List ℚ) : VectorItem where
  id := mem.id
  vector := vec
  payload := [("tenant_id", mem.tenantID), ("user_id", mem.userID), ("agent_id", mem.agentID),
    ("project_id", mem.projectID), ("type", mem.type.name), ("scope", mem.scope.name)]

/-- `IndexMemory` (`embedding/service.go:63-69`). -/
def indexMemory (mem : Memory) : Go Unit := do
  let vec ← ask (.embed mem.content)
  ask (.upsertVectors [vectorItem mem vec])

/-- `IndexMemories` (`embedding/service.go:71-90`): memories beyond the vectors that came
back get none. -/
def indexMemories (memories : List Memory) : Go Unit :=
  if memories = [] then pure ()
  else do
    let vectors ← ask (.embedBatch (memories.map Memory.content))
    ask (.upsertVectors (memories.zipWith vectorItem vectors))

/-- `memoryNode` (`ingestion/service.go:126-140`). -/
def memoryNode (mem : Memory) : GraphNode where
  id := mem.id
  labels := ["Memory", mem.type.name]
  payload := [("tenant_id", mem.tenantID), ("user_id", mem.userID), ("agent_id", mem.agentID),
    ("project_id", mem.projectID), ("type", mem.type.name), ("scope", mem.scope.name),
    ("status", mem.status.name)]

/-- The loop that writes a graph node for each memory (`ingestion/service.go:116-120`). -/
def upsertNodes : List Memory → Go Unit
  | [] => pure ()
  | mem :: rest => do
    ask (.upsertNode (memoryNode mem))
    upsertNodes rest

/-- The keyword entry of a memory (`ingestion/service.go:104-108`). -/
def keywordDoc (mem : Memory) : KeywordDoc where
  id := mem.id
  text := mem.content
  payload := [("tenant_id", mem.tenantID), ("user_id", mem.userID), ("type", mem.type.name)]

/-- Index a memory's keywords where a keyword store is wired; a failure is ignored. -/
def indexKeywords (d : Deployment) (mem : Memory) : Go Unit :=
  if d.hasKeywords = true then Prog.ignore (Call.indexKeyword (keywordDoc mem)) else pure ()

/-- The calls that index a memory. -/
def Call.isIndexing : Call → Bool
  | .embed _ | .embedBatch _ | .upsertVectors _ | .indexKeyword _ | .upsertNode _ => true
  | _ => false

/-- A program of such calls. -/
abbrev Indexes {α : Type} (p : Go α) : Prop :=
  p.Avoids (fun c => c.isIndexing = false) (fun _ _ => True) fun _ => True

theorem indexes_indexMemory (mem : Memory) : Indexes (indexMemory mem) :=
  avoids_perform_bind nofun fun _ _ =>
    avoids_perform (Call.upsertVectors _) nofun

theorem indexes_indexMemories (memories : List Memory) : Indexes (indexMemories memories) := by
  unfold indexMemories
  split
  · trivial
  · exact avoids_perform_bind nofun fun _ _ =>
      avoids_perform (Call.upsertVectors _) nofun

theorem indexes_upsertNodes (memories : List Memory) : Indexes (upsertNodes memories) := by
  induction memories with
  | nil => trivial
  | cons mem rest ih => exact avoids_perform_bind nofun fun _ _ => ih

/-- Two worlds with the same memories, events and issued ids. -/
structure SameRows (w w' : World) : Prop where
  memories : w'.memories = w.memories
  events : w'.events = w.events
  issued : w'.issued = w.issued

theorem SameRows.refl (w : World) : SameRows w w := ⟨rfl, rfl, rfl⟩

theorem SameRows.trans {w w' w'' : World} (h : SameRows w w') (h' : SameRows w' w'') :
    SameRows w w'' :=
  ⟨h'.memories.trans h.memories, h'.events.trans h.events, h'.issued.trans h.issued⟩

theorem step_indexing {d : Deployment} {c : Call} {w w' : World} {r : Except Err (Resp c)}
    (h : step d c w r w') (hc : c.isIndexing = true) : SameRows w w' := by
  rcases step_cases h with ⟨_, rfl, ha⟩ | ⟨_, rfl, rfl⟩
  · cases c <;> first | exact absurd hc Bool.false_ne_true | (subst ha; exact ⟨rfl, rfl, rfl⟩)
  · exact .refl _

theorem isWrite_of_isIndexing {c : Call} (hc : c.isIndexing = true) : c.isWrite = false := by
  cases c <;> first | rfl | cases hc

/-- Indexing leaves the rows and the history of writes alone. -/
theorem wp_indexing {d : Deployment} {α : Type} {p : Go α} {w : World} {history : History}
    (hp : Indexes p) :
    wp (watched d) (fun _ t => SameRows w t.1 ∧ t.2 = history) p (w, history) := by
  have hI : SameRows w (w, history).1 ∧ (w, history).2 = history := ⟨.refl w, rfl⟩
  refine wp_mono (fun _ _ h => h.1) _ _ (wp_of_avoids ?_ hp hI)
  rintro c ⟨w₁, h₁⟩ r ⟨w₂, h₂⟩ hc ⟨hsame, rfl⟩ ⟨hs, rfl⟩
  have hc' : c.isIndexing = true := by simpa using hc
  exact ⟨trivial, hsame.trans (step_indexing hs hc'), if_neg (by simp [isWrite_of_isIndexing hc'])⟩

/-- The keyword index never fails a service. -/
theorem wp_indexKeywords {d : Deployment} {mem : Memory} {w : World} {history : History} :
    wp (watched d) (fun o t => o = .ok () ∧ SameRows w t.1 ∧ t.2 = history)
      (indexKeywords d mem) (w, history) := by
  unfold indexKeywords
  split
  · rw [wp_ignore]
    rintro r ⟨w', history'⟩ ⟨hs, rfl⟩
    exact ⟨rfl, step_indexing hs rfl, rfl⟩
  · exact ⟨rfl, .refl w, rfl⟩

end AgentMemory
