import AgentMemory.Engine.VaultState

/-!
# What a raising `remember` leaves

A call of `MemoryVault.remember` writes the log before it checks the envelope's relations and
the facts of its text. `returns_remember` and `returns_rebuildIndexes` reduce the vault to its
first store, and `remember_atomic_iff` says which calls leave the vault as it was where they
raise, and after which histories a rebuild succeeds.
-/

namespace AgentMemory

open Dicts PyText JsonText Tables Commits

/-- A call of `remember` with a valid envelope, and its reading of the clock. -/
structure VaultCall {F : Type} (rt : GraphRuntime F) where
  memory : MemoryEnvelope F
  valid : memory.Valid rt.toPython
  now : F
  pastEpoch : rt.isZero now = false
  boxId : Option Text
  extractFacts : Bool

section Model

variable {F : Type} {rt : GraphRuntime F} (options : StoreOptions)
  (extract : MemoryEnvelope F → List (ExtractedFact F))

namespace VaultCall

variable (c : VaultCall rt)

/-- The call on a vault. -/
def remember : Call (VaultState F) Unit :=
  VaultState.remember rt options extract c.now true c.memory c.boxId c.extractFacts

/-- The numeric columns take the fields of the envelope, so that it is stored and logged. -/
def stores : Bool := (c.memory.original rt.toPython c.now).fitsColumns rt.toPython

/-- The call where it is stored and logged. -/
def logged : Option (RememberCall rt.toPython) :=
  if h : c.stores = true then some ⟨c.memory, c.valid, c.now, c.pastEpoch, h⟩ else none

/-- No store raises: the envelope is stored, its relations are indexed in both graphs and the
ledger takes the facts of its text. -/
def accepted : Bool :=
  c.stores && relationsAccepted rt c.memory.indexedFields &&
    (!c.extractFacts ||
      (extract c.memory).all fun fact => (fact.args c.now).accepted rt.toLedgerRuntime)

/-- Where the call raises it leaves the vault as it was. -/
def Atomic (v : VaultState F) : Prop :=
  returns (c.remember options extract) v = false → after (c.remember options extract) v = v

end VaultCall

namespace VaultState

/-- The vault after calls of `remember`, whether they return or raise. -/
def history (calls : List (VaultCall rt)) : VaultState F :=
  calls.foldl (fun v c => after (c.remember options extract) v) empty

end VaultState

end Model

/-! ## The first store -/

section Facts

variable {F : Type} {rt : GraphRuntime F} {options : StoreOptions}
  {extract : MemoryEnvelope F → List (ExtractedFact F)}

theorem writtenBlobs_of_valid {py : Python F} {items : List (ModalityRef F)}
    (h : ∀ item ∈ items, item.Valid py) :
    writtenBlobs options py items = items.flatMap (ModalityRef.blobs py options) := by
  induction items with
  | nil => rfl
  | cons item items ih =>
    obtain ⟨hitem, hitems⟩ := List.forall_mem_cons.mp h
    rw [writtenBlobs, ModalityRef.externalize_eq hitem, Option.isSome_some, if_pos rfl, ih hitems,
      List.flatMap_cons]

namespace TemporalStore

variable {py : Python F} {now : F} {appendLog : Bool} {m : MemoryEnvelope F}

theorem returns_rememberCall (s : TemporalStore F) :
    returns (rememberCall options py now appendLog m) s =
      (TemporalStore.remember py options now appendLog m s).isSome := by
  unfold returns rememberCall
  cases TemporalStore.remember py options now appendLog m s with
  | some s' => rfl
  | none => cases MemoryEnvelope.fromDict py now m.toDict <;> rfl

theorem after_rememberCall {s s' : TemporalStore F}
    (h : TemporalStore.remember py options now appendLog m s = some s') :
    after (rememberCall options py now appendLog m) s = s' := by
  unfold after rememberCall
  rw [h]

/-- A call with a valid envelope that the columns do not take. -/
theorem remember_of_not_fits (h : m.Valid py)
    (hcreated : (m.original py now).createdAt.isTruthy py = true)
    (hfits : (m.original py now).fitsColumns py = false) (s : TemporalStore F) :
    TemporalStore.remember py options now appendLog m s = none := by
  have horiginal : MemoryEnvelope.fromDict py now m.toDict = some (m.original py now) :=
    MemoryEnvelope.fromDict_toDict h now
  have hstored : ¬ (m.stored py options now).fitsColumns py = true := by
    rw [Bool.not_eq_true]
    exact hfits
  simp only [remember, horiginal, MemoryEnvelope.externalize_eq h hcreated, Option.bind_eq_bind,
    Option.bind_some]
  exact if_neg hstored

end TemporalStore

namespace VaultCall

variable (c : VaultCall rt)

theorem isTruthy_original : (c.memory.original rt.toPython c.now).createdAt.isTruthy rt.toPython = true :=
  isTruthy_orNow c.pastEpoch (some c.memory.createdAt)

theorem returns_store (s : TemporalStore F) :
    returns (TemporalStore.rememberCall options rt.toPython c.now true c.memory) s = c.stores := by
  rw [TemporalStore.returns_rememberCall]
  by_cases hstores : c.stores = true
  · rw [TemporalStore.remember_of_valid c.valid c.isTruthy_original hstores, hstores]
    rfl
  · rw [Bool.not_eq_true] at hstores
    rw [TemporalStore.remember_of_not_fits c.valid c.isTruthy_original hstores, hstores]
    rfl

theorem after_store_of_stores (hstores : c.stores = true) (s : TemporalStore F) :
    after (TemporalStore.rememberCall options rt.toPython c.now true c.memory) s =
      s.write rt.toPython options true (c.memory.original rt.toPython c.now)
        (c.memory.stored rt.toPython options c.now) (c.memory.blobs rt.toPython options) :=
  TemporalStore.after_rememberCall
    (TemporalStore.remember_of_valid c.valid c.isTruthy_original hstores true s)

/-- A call that is not stored leaves its blobs. -/
theorem after_store_of_not_stores (hstores : c.stores = false) (s : TemporalStore F) :
    after (TemporalStore.rememberCall options rt.toPython c.now true c.memory) s =
      { s with blobs := (c.memory.blobs rt.toPython options).foldl Table.putNew s.blobs } := by
  have hnone : TemporalStore.remember rt.toPython options c.now true c.memory s = none :=
    TemporalStore.remember_of_not_fits c.valid c.isTruthy_original hstores s
  have horiginal : MemoryEnvelope.fromDict rt.toPython c.now c.memory.toDict =
      some (c.memory.original rt.toPython c.now) := MemoryEnvelope.fromDict_toDict c.valid c.now
  have hblobs : writtenBlobs options rt.toPython (c.memory.original rt.toPython c.now).modalities =
      c.memory.blobs rt.toPython options := writtenBlobs_of_valid c.valid.modalities
  unfold after TemporalStore.rememberCall
  simp only [hnone, horiginal, hblobs]

end VaultCall

/-! ## What the later stores leave alone -/

namespace VaultState

/-- What does not depend on the graphs and survives an accepted fact survives `add_fact`. -/
theorem preserves_addFact {I : VaultState F → Prop} {c : AddFact F}
    (hgraphs : ∀ graphs v, I v → I { v with graphs := graphs })
    (hfacts : ∀ v, I v → I { v with facts := v.facts.addFact rt.toLedgerRuntime c }) :
    Preserves I (addFact rt c) := by
  unfold addFact addEdge
  refine (preserves_check _).bind ?_
  refine (preserves_on hgraphs _).bind ?_
  apply Preserves.bind
  · intro v hv
    rw [onFacts, after_on, after_commit]
    exact hfacts v hv
  · apply preserves_reading
    intro v
    cases v.facts.facts.find? (c.factId rt.toLedgerRuntime) with
    | none => exact preserves_check false
    | some row => exact preserves_on hgraphs _

variable {now : F} {appendLog : Bool} {m : MemoryEnvelope F} {boxId : Option Text} {extractFacts : Bool}

theorem preserves_later {I : VaultState F → Prop}
    (hgraphs : ∀ graphs v, I v → I { v with graphs := graphs })
    (hboxes : ∀ boxMemories v, I v → I { v with boxMemories := boxMemories })
    (hfacts : extractFacts = true → ∀ fact ∈ extract m, ∀ v, I v →
      I { v with facts := v.facts.addFact rt.toLedgerRuntime (fact.args now) }) :
    Preserves I (do
      onGraphs (Graphs.onRelations (GraphStore.indexMemory rt m.indexedFields))
      onGraphs (Graphs.indexMemory rt m.indexedFields)
      callIf extractFacts (forM (extract m) fun fact => addFact rt (fact.args now))
      forM boxId.toList fun boxId => putInBox boxId m.id) := by
  refine (preserves_on hgraphs _).bind ?_
  refine (preserves_on hgraphs _).bind ?_
  apply Preserves.bind
  · cases hextract : extractFacts with
    | false => exact preserves_pure
    | true =>
      apply preserves_forM
      intro fact hfact
      exact preserves_addFact hgraphs (hfacts hextract fact hfact)
  · apply preserves_forM
    intro boxId _
    unfold putInBox onBoxes
    exact preserves_on hboxes _

/-- The later stores leave the first as it is. -/
theorem store_after_remember (v : VaultState F) :
    (after (remember rt options extract now appendLog m boxId extractFacts) v).store =
      after (TemporalStore.rememberCall options rt.toPython now appendLog m) v.store := by
  rw [remember, after_bind]
  have hkeeps := @preserves_later _ rt extract now m boxId extractFacts
    (fun v' => v'.store = after (TemporalStore.rememberCall options rt.toPython now appendLog m) v.store)
    (fun _ _ h => h) (fun _ _ h => h) (fun _ _ _ _ h => h)
  split
  · exact hkeeps _ (by rw [onStore, after_on])
  · rw [onStore, after_on]

end VaultState

namespace VaultCall

variable (c : VaultCall rt)

/-- A call returns where it is accepted, whatever the vault holds. -/
theorem returns_remember (v : VaultState F) :
    returns (c.remember options extract) v = c.accepted extract := by
  rw [remember, VaultState.remember, returns_bind, VaultState.onStore, returns_on, c.returns_store,
    VaultState.decides_later, accepted, Bool.and_assoc]

/-- A call that is not stored leaves its blobs and nothing else. -/
theorem after_remember_of_not_stores (hstores : c.stores = false) (v : VaultState F) :
    after (c.remember options extract) v =
      { v with store := { v.store with
        blobs := (c.memory.blobs rt.toPython options).foldl Table.putNew v.store.blobs } } := by
  rw [remember, VaultState.remember, after_bind, VaultState.onStore, returns_on, c.returns_store,
    hstores, if_neg (by decide), after_on, c.after_store_of_not_stores hstores]

/-- A call that is stored is logged, whether it returns or raises. -/
theorem log_of_stores (hstores : c.stores = true) (v : VaultState F) :
    (after (c.remember options extract) v).store.log = v.store.log ++
      (stableJson rt.toPython (c.memory.stored rt.toPython options c.now).toDict ++ ['\n']) := by
  rw [remember, VaultState.store_after_remember, c.after_store_of_stores hstores]
  rfl

/-- Exactly the calls that return, and those that are not stored and bring no new blob, leave
a vault as it was where they raise. -/
theorem atomic_iff (v : VaultState F) :
    c.Atomic options extract v ↔ c.accepted extract = true ∨
      c.stores = false ∧ ∀ b ∈ c.memory.blobs rt.toPython options, v.store.blobs.find? b.sha ≠ none := by
  constructor
  · intro hatomic
    by_cases haccepted : c.accepted extract = true
    · exact Or.inl haccepted
    · right
      have hsame := hatomic ((c.returns_remember v).trans (by simpa using haccepted))
      by_cases hstores : c.stores = true
      · exfalso
        have hlog := @VaultCall.log_of_stores _ _ options extract c hstores v
        rw [hsame] at hlog
        have hlength := congrArg List.length hlog
        simp only [List.length_append, List.length_singleton] at hlength
        omega
      · rw [Bool.not_eq_true] at hstores
        rw [c.after_remember_of_not_stores hstores] at hsame
        have hblobs := congrArg (fun v => v.store.blobs) hsame
        exact ⟨hstores, Table.foldl_putNew_eq_self.mp hblobs⟩
  · rintro (haccepted | ⟨hstores, hthere⟩) hraises
    · rw [c.returns_remember, haccepted] at hraises
      cases hraises
    · rw [c.after_remember_of_not_stores hstores, Table.foldl_putNew_eq_self.mpr hthere]

end VaultCall

/-! ## The history and its rebuild -/

/-- The ledger holds facts that are indexed without raising and no supersession, as it does
where all its facts come from texts. -/
structure FactLedger.Extracted (rt : GraphRuntime F) (s : FactLedger F) : Prop where
  rows : ∀ row ∈ s.facts.rows, row.Indexable rt
  conflicts : s.conflicts.rows = []

theorem FactLedger.Extracted.addFact {s : FactLedger F} (hs : s.Extracted rt) (c : AddFact F)
    (hnone : c.supersedes = []) : (s.addFact rt.toLedgerRuntime c).Extracted rt := by
  by_cases hc : c.accepted rt.toLedgerRuntime = true
  swap
  · rw [FactLedger.addFact_of_rejected (by simpa using hc)]
    exact hs
  have hlist : c.supersedesList = [] := by simp [AddFact.supersedesList, hnone]
  rw [FactLedger.addFact, if_pos hc, hlist, List.foldl_nil]
  refine ⟨fun row hrow => ?_, hs.conflicts⟩
  rcases Table.mem_upsert.mp hrow with rfl | ⟨hrow, -⟩
  · exact FactRow.Indexable.of_accepted hc hnone
  · exact hs.rows row hrow

namespace VaultState

/-- The ledger of a vault after calls of `remember`. -/
theorem extracted_history (calls : List (VaultCall rt)) :
    (history options extract calls).facts.Extracted rt := by
  have hrun : ∀ v : VaultState F, v.facts.Extracted rt →
      (calls.foldl (fun v c => after (c.remember options extract) v) v).facts.Extracted rt := by
    induction calls with
    | nil => exact fun _ hv => hv
    | cons c calls ih =>
      intro v hv
      rw [List.foldl_cons]
      apply ih
      have hstep : Preserves (fun v : VaultState F => v.facts.Extracted rt)
          (c.remember options extract) := by
        unfold VaultCall.remember remember onStore
        apply Preserves.bind
        · apply preserves_on
          exact fun _ _ h => h
        · apply preserves_later
          · exact fun _ _ h => h
          · exact fun _ _ h => h
          · exact fun _ fact _ _ h => h.addFact _ rfl
      exact hstep v hv
  apply hrun
  exact ⟨fun row hrow => (by cases hrow), rfl⟩

/-- The log after calls of `remember` is that of those that are stored. -/
theorem log_history (calls : List (VaultCall rt)) :
    (history options extract calls).store.log =
      (MemoryVault.ofRun options (calls.filterMap VaultCall.logged)).log := by
  have hrun : ∀ v : VaultState F,
      (calls.foldl (fun v c => after (c.remember options extract) v) v).store.log = v.store.log ++
        writeLog rt.toFloats ((calls.filterMap VaultCall.logged).map fun c => c.record options) := by
    induction calls with
    | nil => simp [writeLog]
    | cons c calls ih =>
      intro v
      rw [List.foldl_cons, ih]
      by_cases hstores : c.stores = true
      · have hlogged : c.logged = some ⟨c.memory, c.valid, c.now, c.pastEpoch, hstores⟩ := dif_pos hstores
        rw [c.log_of_stores hstores, List.filterMap_cons_some hlogged, List.map_cons, List.append_assoc]
        rfl
      · have hlogged : c.logged = none := dif_neg hstores
        rw [Bool.not_eq_true] at hstores
        rw [c.after_remember_of_not_stores hstores, List.filterMap_cons_none hlogged]
  rw [MemoryVault.log_ofRun, history, hrun]
  exact List.nil_append _

/-- Without box and facts, a call on the vault does to its first store what the call on that
store does. -/
theorem returns_remember (now : F) (appendLog : Bool) (m : MemoryEnvelope F) (v : VaultState F) :
    returns (remember rt options extract now appendLog m none false) v =
      (MemoryVault.remember rt.toPython options (relationsAccepted rt) now appendLog m v.store).any
        VaultResult.returned := by
  rw [remember, returns_bind, decides_later, onStore, returns_on, TemporalStore.returns_rememberCall,
    MemoryVault.remember]
  cases TemporalStore.remember rt.toPython options now appendLog m v.store <;> simp

theorem returns_replay (now : F) (record : Option (Json F)) (v : VaultState F) :
    returns (replay rt options extract now record) v =
      (MemoryVault.replayRecord rt.toPython options (relationsAccepted rt) now v.store record).isSome := by
  unfold replay MemoryVault.replayRecord
  cases record with
  | none => rfl
  | some data =>
    simp only [Option.bind_eq_bind, Option.bind_some]
    cases MemoryEnvelope.fromDict rt.toPython now data with
    | none => rfl
    | some m =>
      simp only [returns_remember, Option.bind_some]
      cases MemoryVault.remember rt.toPython options (relationsAccepted rt) now false m v.store with
      | none => rfl
      | some result => cases hreturned : result.returned <;> simp [hreturned]

/-- A record that is replayed leaves the first store as its replay there does. -/
theorem store_after_replay {now : F} {record : Option (Json F)} {v : VaultState F} {s : TemporalStore F}
    (h : MemoryVault.replayRecord rt.toPython options (relationsAccepted rt) now v.store record = some s) :
    (after (replay rt options extract now record) v).store = s := by
  cases record with
  | none => cases h
  | some data =>
    simp only [MemoryVault.replayRecord, MemoryVault.remember, Option.bind_eq_bind, Option.bind_some,
      Option.bind_eq_some_iff, Option.map_eq_some_iff] at h
    obtain ⟨m, hm, result, ⟨s', hs', rfl⟩, hresult⟩ := h
    have hreplay : replay rt options extract now (some data) =
        remember rt options extract now false m none false := by
      rw [replay, Option.bind_some, hm]
    split at hresult
    · obtain rfl := Option.some.inj hresult
      rw [hreplay, store_after_remember, TemporalStore.after_rememberCall hs']
    · cases hresult

theorem returns_replays (now : F) (records : List (Option (Json F))) (v : VaultState F) :
    returns (forM records (replay rt options extract now)) v =
      (records.foldlM (MemoryVault.replayRecord rt.toPython options (relationsAccepted rt) now)
        v.store).isSome := by
  induction records generalizing v with
  | nil => rfl
  | cons record records ih =>
    rw [List.forM_cons, returns_bind, returns_replay, List.foldlM_cons]
    cases hreplay : MemoryVault.replayRecord rt.toPython options (relationsAccepted rt) now v.store
        record with
    | none => rfl
    | some s =>
      rw [ih, store_after_replay hreplay]
      simp

/-- The facts of such a ledger are indexed. -/
theorem returns_rebuildGraphIndex {v : VaultState F} (hv : v.facts.Extracted rt) :
    returns (rebuildGraphIndex rt) v = true := by
  have hfits : ∀ o : Option F, fitsNullable (o.map Number.float) = true := by
    intro o
    cases o <;> rfl
  have hedges : Decides (forM (v.facts.facts.rows.mergeSort fun row row' => rt.le row.createdAt row'.createdAt)
      fun row => addEdge rt (row.edge (row.validFrom.map .float) (row.validTo.map .float)))
        ((v.facts.facts.rows.mergeSort fun row row' => rt.le row.createdAt row'.createdAt).all
          fun _ => true) := by
    apply decides_forM
    intro row hrow
    have hindexable := hv.rows row (List.mem_mergeSort.mp hrow)
    have hedge := @decides_addEdge _ rt (row.edge (row.validFrom.map .float) (row.validTo.map .float))
    rwa [hindexable.accepted_edge (hfits _) (hfits _)] at hedge
  rw [rebuildGraphIndex, returns_reading, returns_bind, hedges v, hv.conflicts]
  simp

theorem facts_after_rebuildGraphIndex (v : VaultState F) :
    (after (rebuildGraphIndex rt) v).facts = v.facts := by
  have hkeeps : Preserves (fun v' : VaultState F => v'.facts = v.facts) (rebuildGraphIndex rt) := by
    apply preserves_reading
    intro v'
    apply Preserves.bind
    · apply preserves_forM
      intro row _
      apply preserves_on
      exact fun _ _ h => h
    · apply preserves_forM
      intro conflict _
      cases v'.facts.facts.find? conflict.supersedingFactId with
      | none => exact preserves_pure
      | some row =>
        apply preserves_on
        exact fun _ _ h => h
  exact hkeeps v rfl

theorem facts_after_replays (now : F) (records : List (Option (Json F))) (v : VaultState F) :
    (after (forM records (replay rt options extract now)) v).facts = v.facts := by
  have hkeeps : Preserves (fun v' : VaultState F => v'.facts = v.facts)
      (forM records (replay rt options extract now)) := by
    apply preserves_forM
    intro record _
    unfold replay
    cases record.bind (MemoryEnvelope.fromDict rt.toPython now) with
    | none => exact preserves_check false
    | some m =>
      apply Preserves.bind
      · apply preserves_on
        exact fun _ _ h => h
      · apply preserves_later
        · exact fun _ _ h => h
        · exact fun _ _ h => h
        · exact fun hextract => by cases hextract
  exact hkeeps v rfl

/-- The assertions of such a ledger's facts are indexed, in whatever order. -/
theorem returns_indexFacts {v : VaultState F} (hv : v.facts.Extracted rt) (order : List Text) :
    returns (forM (v.facts.rowsOf order) fun row => onGraphs (Graphs.indexFact rt row)) v = true := by
  have hfacts : Decides (forM (v.facts.rowsOf order) fun row => onGraphs (Graphs.indexFact rt row))
      ((v.facts.rowsOf order).all fun _ => true) := by
    apply decides_forM
    intro row hrow
    obtain ⟨id, -, hid⟩ := List.mem_filterMap.mp hrow
    exact (hv.rows row (Table.find?_eq_some.mp hid).1).decides_indexFact.on _ _
  rw [hfacts v]
  simp

/-- A rebuild of such a vault returns where the rebuild of its first store does. -/
theorem returns_rebuildIndexes {v : VaultState F} (hv : v.facts.Extracted rt) (now : F)
    (order : List Text) :
    returns (rebuildIndexes rt options extract now order) v =
      (MemoryVault.rebuildIndexes rt.toPython options (relationsAccepted rt) now v.store).isSome := by
  have hloop := @returns_replays _ rt options extract now
    (readLog rt.toFloats v.store.log) v.clear
  have hfacts := @facts_after_replays _ rt options extract now
    (readLog rt.toFloats v.store.log) v.clear
  have hlog : v.clear.store.log = v.store.log := rfl
  rw [rebuildIndexes, returns_bind, returns_commit, after_commit, Option.isSome_some, Bool.true_and,
    Option.getD_some, returns_reading, returns_callIf, returns_bind, hlog, hloop, returns_bind]
  rw [MemoryVault.rebuildIndexes, show v.clear.store = v.store.clearIndexes from rfl]
  -- The ledger is the same before and after the log is replayed.
  generalize after (forM (readLog rt.toFloats v.store.log) (replay rt options extract now)) v.clear = mid
    at hfacts ⊢
  have hmid : mid.facts.Extracted rt := by rwa [hfacts]
  have hlast : (after (rebuildGraphIndex rt) mid).facts.Extracted rt := by
    rwa [facts_after_rebuildGraphIndex]
  rw [returns_rebuildGraphIndex hmid, returns_reading, returns_indexFacts hlast, Bool.and_true,
    Bool.and_true]
  by_cases hempty : v.store.log = []
  · have hnone : readLog rt.toFloats ([] : Text) = [] := rfl
    simp [hempty, hnone]
  · simp [hempty]

/-- A rebuild after a history succeeds exactly where each record that was logged reads back
and its relations are accepted. -/
theorem rebuild_history_iff (calls : List (VaultCall rt)) (now : F) (order : List Text) :
    returns (rebuildIndexes rt options extract now order) (history options extract calls) = true ↔
      ∀ c ∈ calls, c.stores = true → c.memory.breaksLine rt.toPython options = false ∧
        relationsAccepted rt (c.memory.stored rt.toPython options c.now).indexedFields = true := by
  have hlogged : ∀ P : RememberCall rt.toPython → Prop,
      (∀ c ∈ calls.filterMap VaultCall.logged, P c) ↔
        ∀ c ∈ calls, ∀ h : c.stores = true, P ⟨c.memory, c.valid, c.now, c.pastEpoch, h⟩ := by
    intro P
    simp only [List.mem_filterMap, VaultCall.logged]
    constructor
    · intro h c hc hstores
      exact h _ ⟨c, hc, dif_pos hstores⟩
    · rintro h c' ⟨c, hc, hc'⟩
      split at hc'
      · next hstores =>
        obtain rfl := Option.some.inj hc'
        exact h c hc hstores
      · cases hc'
  rw [returns_rebuildIndexes (extracted_history calls),
    MemoryVault.rebuildIndexes_of_log (log_history calls)]
  constructor
  · intro hsome c hc hstores
    split at hsome
    · next h => exact ⟨(hlogged _).mp h.1 c hc hstores, (hlogged _).mp h.2 c hc hstores⟩
    · cases hsome
  · intro h
    have hreads := (hlogged fun c => c.memory.breaksLine rt.toPython options = false).mpr
      fun c hc hstores => (h c hc hstores).1
    have hindexed := (hlogged fun c => relationsAccepted rt (c.stored options).indexedFields = true).mpr
      fun c hc hstores => (h c hc hstores).2
    rw [if_pos ⟨hreads, hindexed⟩]
    rfl

end VaultState

/-- A call of `remember` that raises leaves the vault as it was exactly where it is not
stored and brings no new blob; and a rebuild after a history of calls succeeds exactly where
each of them that was stored reads back from its line and has relations that both graphs
accept. -/
theorem remember_atomic_iff (rt : GraphRuntime F) (options : StoreOptions)
    (extract : MemoryEnvelope F → List (ExtractedFact F)) :
    (∀ (c : VaultCall rt) (v : VaultState F), c.Atomic options extract v ↔
      c.accepted extract = true ∨
        c.stores = false ∧ ∀ b ∈ c.memory.blobs rt.toPython options, v.store.blobs.find? b.sha ≠ none) ∧
    ∀ (calls : List (VaultCall rt)) (now : F) (order : List Text),
      returns (VaultState.rebuildIndexes rt options extract now order)
          (VaultState.history options extract calls) = true ↔
        ∀ c ∈ calls, c.stores = true → c.memory.breaksLine rt.toPython options = false ∧
          relationsAccepted rt (c.memory.stored rt.toPython options c.now).indexedFields = true :=
  ⟨fun c v => c.atomic_iff v, VaultState.rebuild_history_iff⟩

/-! ## A relation of a graph that does not exist -/

/-- A relation that names a graph of its own. -/
def sampleRelation : Json SampleNumber :=
  dict [("subject", .str "tea".toList), ("predicate", .str "is".toList), ("object", .str "hot".toList),
    ("graph_name", .str "drinks".toList)]

/-- An envelope with this relation. -/
def sampleRelated : MemoryEnvelope SampleNumber :=
  let m := { sampleMemory [] sampleText with relations := [sampleRelation] }
  { m with contentHash := m.computeContentHash samplePython }

theorem valid_sampleRelated : sampleRelated.Valid samplePython :=
  { valid_sampleMemory List.Pairwise.nil valid_sampleText with
    contentHash_ne := MemoryEnvelope.sha256Hex_ne _
    relations := by
      intro j hj
      obtain rfl := List.mem_singleton.mp hj
      exact canonical_dict (by simp [Canonical]) }

/-- A call that remembers it. -/
def relatedCall : VaultCall sampleGraphRuntime :=
  ⟨sampleRelated, valid_sampleRelated, .one, rfl, none, false⟩

/-- The call raises after it has logged the envelope, and no rebuild succeeds after it. -/
theorem VaultState.log_left_by_raise :
    ¬ relatedCall.Atomic .default (fun _ => []) VaultState.empty ∧
      returns (rebuildIndexes sampleGraphRuntime .default (fun _ => []) .one [])
        (history .default (fun _ => []) [relatedCall]) = false := by
  have hstores : relatedCall.stores = true := rfl
  have hrefused : relationsAccepted sampleGraphRuntime relatedCall.memory.indexedFields = false := by
    decide
  have hstored : relationsAccepted sampleGraphRuntime
      (relatedCall.memory.stored samplePython .default .one).indexedFields = false := by
    decide
  constructor
  · rw [VaultCall.atomic_iff, VaultCall.accepted, hrefused, hstores]
    simp
  · rw [← Bool.not_eq_true, rebuild_history_iff]
    intro h
    have hindexed := (h relatedCall List.mem_cons_self hstores).2
    rw [show relatedCall.now = .one from rfl] at hindexed
    exact absurd (hstored.symm.trans hindexed) (by decide)

end Facts

end AgentMemory
