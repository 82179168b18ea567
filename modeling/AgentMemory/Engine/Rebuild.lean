import AgentMemory.Engine.Vault

/-!
# Rebuilt indexes

`rebuild_indexes` of `engines/living_memoryv2/src/living_memoryv2/vault.py` on the tables of
the store: it remembers the logged records again. Remembering a logged envelope stores it
unchanged, so the tables `memories` and `mobius_index` come out as they were; the text in
`memory_fts` was taken from the payload before it was externalised, and the replay takes it
from the reference. `rebuild_indexes_iff` says of which runs the three tables are restored.
-/

namespace AgentMemory

open Dicts PyText JsonText Tables

variable {F : Type}

/-! ## The text of a reference -/

theorem byteLength_le (text : Text) : byteLength text ≤ 4 * text.length := by
  induction text with
  | nil => simp [byteLength, Sha256.utf8]
  | cons c text ih =>
    have hchar : (String.utf8EncodeChar c).length ≤ 4 := by
      rw [String.length_utf8EncodeChar]
      exact Char.utf8Size_le_four c
    simp only [byteLength, Sha256.utf8, List.flatMap_cons, List.length_append, List.length_map,
      List.length_cons] at ih ⊢
    omega

theorem length_of_isSha256Hex {text : Text} (h : isSha256Hex text = true) : text.length ≤ 65 := by
  rw [isSha256Hex, Bool.and_eq_true, decide_eq_true_eq] at h
  have hlength := h.1
  split at hlength
  · rw [List.length_dropLast] at hlength
    omega
  · omega

section Texts

variable {py : Python F} {options : StoreOptions}

/-- The key that externalisation adds is none that the text is taken from. -/
theorem bridgeParts_insert (d : List (Text × Json F)) (format : Json F) :
    textBridgeMetadataKeys.flatMap (bridgePart py (insert blobFormatKey format d)) =
      textBridgeMetadataKeys.flatMap (bridgePart py d) := by
  have hkeys : ∀ key ∈ textBridgeMetadataKeys, key.toList ≠ blobFormatKey := by decide
  apply List.flatMap_congr
  intro key hkey
  rw [bridgePart, valueAt_insert, if_neg (hkeys key hkey), bridgePart]

/-- A shorter list of parts is no longer text. -/
theorem partLength_searchableText (item : ModalityRef F) :
    partLength (item.searchableText py) = partsLength (ModalityRef.contentPart py item.content) +
      partsLength item.uri.toList + partsLength (item.namedParts py) := by
  rw [ModalityRef.searchableText, partLength_joinParts, partsLength_append, partsLength_append,
    Nat.add_assoc]

/-- A content that is not missing is searched by the text it is hashed by. -/
theorem partsLength_contentPart {content : Json F} (h : isNone content = false) :
    (contentBytes py content).length ≤ partsLength (ModalityRef.contentPart py content) := by
  have hpart : ∀ text : Text, text.length ≤ partLength text := by
    intro text
    unfold partLength
    split
    · next hnil => simp [hnil]
    · omega
  cases content <;> first
    | exact absurd h (by decide)
    | exact hpart _

namespace ModalityRef

variable {item : ModalityRef F}

theorem namedParts_reference (item : ModalityRef F) :
    (item.reference py).namedParts py = item.namedParts py := by
  rw [namedParts, namedParts, reference, bridgeParts_insert]

/-- What is left of an externalised payload is shorter than its text. -/
theorem partLength_reference (hext : item.isExternal py .default = true) :
    partLength ((item.reference py).searchableText py) < partLength (item.searchableText py) := by
  rw [isExternal, Bool.and_eq_true, Bool.not_eq_true', decide_eq_true_eq] at hext
  obtain ⟨hcontent, hlarge⟩ := hext
  have hbytes := byteLength_le (contentBytes py item.content)
  have hpart := @partsLength_contentPart _ py _ hcontent
  have hsha := length_of_isSha256Hex (@isSha256Hex_usedSha _ py item)
  have huri : partLength (blobScheme ++ item.usedSha py) ≤ 73 := by
    have hscheme : blobScheme.length = 7 := by decide
    rw [partLength, List.length_append, hscheme]
    split <;> omega
  rw [partLength_searchableText, partLength_searchableText, namedParts_reference]
  have hthreshold : StoreOptions.default.blobThreshold = 65536 := rfl
  have hnone : partsLength (contentPart py (item.reference py).content) = 0 := rfl
  have hreference : partsLength (item.reference py).uri.toList =
      partLength (blobScheme ++ item.usedSha py) := rfl
  omega

theorem partLength_stored_le (item : ModalityRef F) :
    partLength ((item.stored py .default).searchableText py) ≤ partLength (item.searchableText py) := by
  unfold stored
  split
  · next hext => exact (partLength_reference hext).le
  · exact le_rfl

theorem partsLength_stored_le (items : List (ModalityRef F)) :
    partsLength (items.map fun item => (item.stored py .default).searchableText py) ≤
      partsLength (items.map (searchableText py)) := by
  induction items with
  | nil => exact le_rfl
  | cons item items ih =>
    have hitem := @partLength_stored_le _ py item
    simp only [List.map_cons, partsLength]
    omega

theorem partsLength_stored_lt {items : List (ModalityRef F)}
    (h : ∃ item ∈ items, item.isExternal py .default = true) :
    partsLength (items.map fun item => (item.stored py .default).searchableText py) <
      partsLength (items.map (searchableText py)) := by
  obtain ⟨item, hitem, hext⟩ := h
  have hshorter : partLength ((item.stored py .default).searchableText py) <
      partLength (item.searchableText py) := by
    rw [stored, if_pos hext]
    exact partLength_reference hext
  obtain ⟨before, after, rfl⟩ := List.append_of_mem hitem
  have hbefore := @partsLength_stored_le _ py before
  have hafter := @partsLength_stored_le _ py after
  simp only [List.map_append, List.map_cons, partsLength_append, partsLength]
  omega

end ModalityRef

namespace MemoryEnvelope

/-- The text of the logged envelope is the text of the envelope where no payload is
externalised, and a shorter one elsewhere. -/
theorem textContent_stored_iff (m : MemoryEnvelope F) (now : F) :
    (m.stored py .default now).textContent py = m.textContent py ↔
      ∀ item ∈ m.modalities, item.isExternal py .default = false := by
  have hmodalities : (m.stored py .default now).modalities =
      m.modalities.map (ModalityRef.stored py .default) := rfl
  rw [textContent, textContent, hmodalities, List.map_map]
  constructor
  · intro heq
    by_contra hsome
    push Not at hsome
    have hlength := congrArg partLength heq
    rw [partLength_joinParts, partLength_joinParts] at hlength
    have hshorter := @ModalityRef.partsLength_stored_lt _ py m.modalities
      (by simpa using hsome)
    simp only [Function.comp_def] at hlength
    omega
  · intro hnone
    congr 1
    apply List.map_congr_left
    intro item hitem
    rw [Function.comp_apply, ModalityRef.stored, hnone item hitem]
    rfl

end MemoryEnvelope

end Texts

/-! ## A record remembered again -/

section Again

variable {py : Python F} {options : StoreOptions}

theorem ModalityRef.isExternal_stored (item : ModalityRef F) :
    (item.stored py options).isExternal py options = false := by
  by_cases hext : item.isExternal py options = true
  · rw [stored, if_pos hext]
    rfl
  · rw [stored, if_neg hext]
    simpa using hext

theorem ModalityRef.stored_stored (item : ModalityRef F) :
    (item.stored py options).stored py options = item.stored py options := by
  rw [stored, if_neg (by simp [isExternal_stored])]

theorem ModalityRef.blobs_stored (item : ModalityRef F) :
    (item.stored py options).blobs py options = [] := by
  rw [blobs, if_neg (by simp [isExternal_stored])]

theorem ModalityRef.modality_stored (item : ModalityRef F) :
    (item.stored py options).modality = item.modality := by
  unfold stored
  split <;> rfl

theorem addressFor_congr {m m' : MemoryEnvelope F} (index : MobiusIndex) (hscope : m.scope = m'.scope)
    (htype : m.memoryType = m'.memoryType)
    (hmodalities : m.modalities.map ModalityRef.modality = m'.modalities.map ModalityRef.modality)
    (htags : m.tags = m'.tags) (hentities : m.entities = m'.entities)
    (hhash : m.contentHash = m'.contentHash) : index.addressFor py m = index.addressFor py m' := by
  have hnames : (m.modalities.map fun item => (Json.str item.modality : Json F)) =
      m'.modalities.map fun item => .str item.modality := by
    have hstr := congrArg (List.map (Json.str : Text → Json F)) hmodalities
    simpa [List.map_map, Function.comp_def] using hstr
  have hregion : MobiusIndex.regionFor m = MobiusIndex.regionFor m' := by
    rw [MobiusIndex.regionFor, MobiusIndex.regionFor, htype, hmodalities]
  have hmaterial : MobiusIndex.material m = MobiusIndex.material m' := by
    rw [MobiusIndex.material, MobiusIndex.material, hscope, htype, hnames, htags, hentities, hhash]
  rw [MobiusIndex.addressFor, MobiusIndex.addressFor, hregion, hmaterial]

namespace RememberCall

variable (c : RememberCall py)

theorem original_stored (now : F) : (c.stored options).original py now = c.stored options := by
  rw [MemoryEnvelope.original, orNow_of_isTruthy (c.isTruthy_stored options)]

/-- An externalised envelope is externalised already. -/
theorem stored_stored (now : F) : (c.stored options).stored py options now = c.stored options := by
  have hmodalities : (c.stored options).modalities.map (ModalityRef.stored py options) =
      (c.stored options).modalities := by
    show (c.memory.modalities.map _).map _ = c.memory.modalities.map _
    rw [List.map_map]
    exact List.map_congr_left fun item _ => item.stored_stored
  rw [MemoryEnvelope.stored, c.original_stored, hmodalities]

theorem blobs_stored : (c.stored options).blobs py options = [] := by
  have hnone : ∀ item ∈ (c.stored options).modalities, item.blobs py options = [] := by
    intro item hitem
    obtain ⟨item', -, rfl⟩ := List.mem_map.mp hitem
    exact item'.blobs_stored
  exact List.flatMap_eq_nil_iff.mpr hnone

theorem addressFor_stored (index : MobiusIndex) :
    index.addressFor py (c.stored options) = index.addressFor py (c.memory.original py c.now) := by
  refine addressFor_congr index rfl rfl ?_ rfl rfl rfl
  show (c.memory.modalities.map _).map _ = c.memory.modalities.map _
  rw [List.map_map]
  exact List.map_congr_left fun item _ => item.modality_stored

/-- The record reads as the logged envelope. -/
theorem fromDict_record (now : F) :
    MemoryEnvelope.fromDict py now (c.record options) = some (c.stored options) :=
  MemoryEnvelope.fromDict_of_isTruthy (c.valid_stored options) (c.isTruthy_stored options)

/-- What remembering the record of the call does to the store. -/
def again (options : StoreOptions) (s : TemporalStore F) : TemporalStore F :=
  s.write py options false (c.stored options) (c.stored options) []

theorem remember_stored (now : F) (s : TemporalStore F) :
    TemporalStore.remember py options now false (c.stored options) s = some (c.again options s) := by
  have horiginal := @RememberCall.original_stored _ _ options c now
  rw [TemporalStore.remember_of_valid (c.valid_stored options)
    (by rw [horiginal]; exact c.isTruthy_stored options) (by rw [horiginal]; exact c.fitsColumns),
    horiginal, c.stored_stored, c.blobs_stored, again]

end RememberCall

end Again

/-! ## The rebuild -/

section Rebuild

variable (py : Python F) (options : StoreOptions) (indexes : IndexedFields F → Bool)

/-- `clear_indexes` (`store.py:229-232`): the database file is deleted. -/
def TemporalStore.clearIndexes (s : TemporalStore F) : TemporalStore F :=
  { s with memories := Table.empty, fts := [], mobius := Table.empty }

namespace MemoryVault

/-- The body of the loop over the lines of the log (`vault.py:237-238`). -/
def replayRecord (now : F) (s : TemporalStore F) (record : Option (Json F)) :
    Option (TemporalStore F) := do
  let data ← record
  let m ← MemoryEnvelope.fromDict py now data
  let result ← remember py options indexes now false m s
  if result.returned = true then pure result.store else none

/-- `rebuild_indexes` (`vault.py:228-238`) on the store, with a reading of the clock. The
ledger's facts are indexed afterwards, in other databases. -/
def rebuildIndexes (now : F) (s : TemporalStore F) : Option (TemporalStore F) :=
  (readLog py.toFloats s.log).foldlM (replayRecord py options indexes now) s.clearIndexes

variable {py options indexes}

theorem replayRecord_record (c : RememberCall py) (now : F) (s : TemporalStore F) :
    replayRecord py options indexes now s (some (c.record options)) =
      if indexes (c.stored options).indexedFields = true then some (c.again options s) else none := by
  simp only [replayRecord, Option.bind_eq_bind, Option.bind_some, c.fromDict_record, remember,
    c.remember_stored, Option.map_some]
  rfl

/-- Records whose relations are all indexed are remembered one after the other. -/
theorem replay_records {calls : List (RememberCall py)}
    (h : ∀ c ∈ calls, indexes (c.stored options).indexedFields = true) (now : F)
    (s : TemporalStore F) :
    (calls.map fun c => some (c.record options)).foldlM (replayRecord py options indexes now) s =
      some (calls.foldl (fun s c => c.again options s) s) := by
  induction calls generalizing s with
  | nil => rfl
  | cons c calls ih =>
    obtain ⟨hc, hcalls⟩ := List.forall_mem_cons.mp h
    rw [List.map_cons, List.foldlM_cons, replayRecord_record, if_pos hc]
    exact ih hcalls _

/-- A record that raises ends the rebuild. -/
theorem replay_eq_none {records : List (Option (Json F))} {record : Option (Json F)} {now : F}
    (hmem : record ∈ records)
    (hraises : ∀ s, replayRecord py options indexes now s record = none) (s : TemporalStore F) :
    records.foldlM (replayRecord py options indexes now) s = none := by
  induction records generalizing s with
  | nil => cases hmem
  | cons first records ih =>
    rw [List.foldlM_cons]
    rcases List.mem_cons.mp hmem with rfl | hmem
    · rw [hraises]
      rfl
    · cases replayRecord py options indexes now s first with
      | none => rfl
      | some next => exact ih hmem next

/-- The store that a run leaves. -/
def ofRun (options : StoreOptions) (calls : List (RememberCall py)) : TemporalStore F :=
  calls.foldl (fun s c => c.after options true s) TemporalStore.empty

theorem log_ofRun (calls : List (RememberCall py)) :
    (ofRun options calls).log = writeLog py.toFloats (calls.map fun c => c.record options) :=
  (TemporalStore.log_run calls TemporalStore.empty).trans (List.nil_append _)

/-- A log without broken lines reads as its records. -/
theorem readLog_ofRun {calls : List (RememberCall py)}
    (h : ∀ c ∈ calls, c.memory.breaksLine py options = false) :
    readLog py.toFloats (ofRun options calls).log = calls.map fun c => some (c.record options) := by
  have hcanonical : ∀ j ∈ calls.map (fun c => c.record options), Canonical j := by
    intro j hj
    obtain ⟨c, -, rfl⟩ := List.mem_map.mp hj
    exact c.canonical_record options
  have hread := (@readLog_writeLog_iff _ py.toFloats _ hcanonical).mpr
    (by simpa [RememberCall.anyChar_record] using h)
  rw [log_ofRun, hread, List.map_map]
  rfl

/-- A log with a broken line has one that is no JSON. -/
theorem none_mem_readLog_ofRun {calls : List (RememberCall py)} {c : RememberCall py} (hc : c ∈ calls)
    (h : c.memory.breaksLine py options = true) :
    none ∈ readLog py.toFloats (ofRun options calls).log := by
  rw [log_ofRun]
  apply none_mem_readLog (List.mem_map.mpr ⟨c, hc, rfl⟩)
  rw [RememberCall.anyChar_record, h]

/-- A rebuild from the log of a run succeeds exactly where the log reads back and the
relations of all its records are indexed. -/
theorem rebuildIndexes_of_log {calls : List (RememberCall py)} {s : TemporalStore F}
    (hlog : s.log = (ofRun options calls).log) (now : F) :
    rebuildIndexes py options indexes now s =
      if (∀ c ∈ calls, c.memory.breaksLine py options = false) ∧
          ∀ c ∈ calls, indexes (c.stored options).indexedFields = true
      then some (calls.foldl (fun s c => c.again options s) s.clearIndexes)
      else none := by
  rw [rebuildIndexes, hlog]
  by_cases hbroken : ∀ c ∈ calls, c.memory.breaksLine py options = false
  · rw [readLog_ofRun hbroken]
    by_cases hindexed : ∀ c ∈ calls, indexes (c.stored options).indexedFields = true
    · rw [if_pos ⟨hbroken, hindexed⟩]
      exact replay_records hindexed now _
    · rw [if_neg fun h => hindexed h.2]
      push Not at hindexed
      obtain ⟨c, hc, hnot⟩ := hindexed
      apply replay_eq_none (List.mem_map.mpr ⟨c, hc, rfl⟩)
      intro s
      rw [replayRecord_record, if_neg hnot]
  · rw [if_neg fun h => hbroken h.1]
    push Not at hbroken
    obtain ⟨c, hc, hbreaks⟩ := hbroken
    exact replay_eq_none (none_mem_readLog_ofRun hc (by simpa using hbreaks)) (fun s => rfl) _

/-- A rebuild after a run. -/
theorem rebuildIndexes_run (calls : List (RememberCall py)) (now : F) :
    rebuildIndexes py options indexes now (ofRun options calls) =
      if (∀ c ∈ calls, c.memory.breaksLine py options = false) ∧
          ∀ c ∈ calls, indexes (c.stored options).indexedFields = true
      then some (calls.foldl (fun s c => c.again options s) (ofRun options calls).clearIndexes)
      else none :=
  rebuildIndexes_of_log rfl now

end MemoryVault

/-! ## The tables before and after -/

/-- The two stores have the same tables. -/
structure TemporalStore.SameIndexes (s s' : TemporalStore F) : Prop where
  memories : s.memories = s'.memories
  fts : s.fts = s'.fts
  mobius : s.mobius = s'.mobius

/-- Each table has one row for each of these ids and no other. -/
def TemporalStore.OneRowEach (s : TemporalStore F) (ids : List Text) : Prop :=
  ∀ rows ∈ [s.memories.rows.map MemoryRow.id, s.fts.map FtsRow.id, s.mobius.rows.map MobiusRow.memoryID],
    rows.Perm ids.dedup

namespace RememberCall

variable {py}

/-- The calls after which no call has their id. -/
def lastCalls (calls : List (RememberCall py)) : List (RememberCall py) :=
  calls.pwFilter fun c c' => c.memory.id ≠ c'.memory.id

variable (c : RememberCall py)

/-- The row the call writes into `memory_fts`. -/
def ftsRow : FtsRow := ⟨c.memory.id, c.memory.textContent py⟩

/-- The row that remembering its record writes. -/
def ftsRowAgain (options : StoreOptions) : FtsRow :=
  ⟨c.memory.id, (c.stored options).textContent py⟩

end RememberCall

namespace MemoryVault

variable {py options}

theorem foldl_ftsRow (row : RememberCall py → FtsRow) (hid : ∀ c, (row c).id = c.memory.id)
    (calls : List (RememberCall py)) :
    calls.foldl (fun rows c => rows.filter (fun r => r.id ≠ c.memory.id) ++ [row c]) [] =
      (RememberCall.lastCalls calls).map row := by
  have hmap : calls.foldl (fun rows c => rows.filter (fun r => r.id ≠ c.memory.id) ++ [row c]) [] =
      (calls.map row).foldl (fun rows w => rows.filter (fun r => r.id ≠ w.id) ++ [w]) [] := by
    rw [List.foldl_map]
    simp only [hid]
  rw [hmap, Table.foldl_replace, List.filter_nil, List.nil_append, List.pwFilter_map]
  simp only [hid, RememberCall.lastCalls]

theorem fts_ofRun (calls : List (RememberCall py)) :
    (ofRun options calls).fts = (RememberCall.lastCalls calls).map RememberCall.ftsRow := by
  rw [← foldl_ftsRow _ (fun _ => by rfl)]
  exact (List.foldl_hom TemporalStore.fts fun _ _ => rfl).symm

/-- The store that the rebuild leaves. -/
def rebuilt (options : StoreOptions) (calls : List (RememberCall py)) : TemporalStore F :=
  calls.foldl (fun s c => c.again options s) (ofRun options calls).clearIndexes

theorem fts_rebuilt (calls : List (RememberCall py)) : (rebuilt options calls).fts =
    (RememberCall.lastCalls calls).map fun c => c.ftsRowAgain options := by
  rw [← foldl_ftsRow _ (fun _ => by rfl)]
  exact (List.foldl_hom TemporalStore.fts fun _ _ => rfl).symm

theorem memories_ofRun (calls : List (RememberCall py)) : (ofRun options calls).memories =
    (calls.map fun c => memoryRow py (c.stored options)).foldl Table.upsert Table.empty := by
  rw [List.foldl_map]
  exact (List.foldl_hom TemporalStore.memories fun _ _ => rfl).symm

theorem memories_rebuilt (calls : List (RememberCall py)) :
    (rebuilt options calls).memories = (ofRun options calls).memories := by
  rw [memories_ofRun, List.foldl_map]
  exact (List.foldl_hom TemporalStore.memories fun _ _ => rfl).symm

theorem mobius_ofRun (calls : List (RememberCall py)) : (ofRun options calls).mobius =
    (calls.map fun c => (⟨c.memory.id, options.mobiusIndex.addressFor py
      (c.memory.original py c.now)⟩ : MobiusRow)).foldl Table.upsert Table.empty := by
  rw [List.foldl_map]
  exact (List.foldl_hom TemporalStore.mobius fun _ _ => rfl).symm

theorem mobius_rebuilt (calls : List (RememberCall py)) :
    (rebuilt options calls).mobius = (ofRun options calls).mobius := by
  rw [mobius_ofRun, List.foldl_map]
  refine (List.foldl_hom TemporalStore.mobius fun s c => ?_).symm
  rw [← c.addressFor_stored]
  rfl

theorem oneRowEach_ofRun (calls : List (RememberCall py)) :
    (ofRun options calls).OneRowEach (calls.map fun c => c.memory.id) := by
  have hdedup : (calls.map fun c => c.memory.id).dedup =
      (RememberCall.lastCalls calls).map fun c => c.memory.id := List.pwFilter_map _ _
  intro rows hrows
  simp only [List.mem_cons, List.not_mem_nil, or_false] at hrows
  rcases hrows with rfl | rfl | rfl
  · rw [List.perm_ext_iff_of_nodup (ofRun options calls).memories.nodup (List.nodup_dedup _)]
    intro id
    rw [Table.mem_map_key, memories_ofRun, Table.find?_foldl_upsert_ne_none, List.mem_dedup]
    simp [memoryRow, RememberCall.stored, MemoryEnvelope.stored, MemoryEnvelope.original]
  · rw [fts_ofRun, List.map_map, hdedup]
    exact List.Perm.refl _
  · rw [List.perm_ext_iff_of_nodup (ofRun options calls).mobius.nodup (List.nodup_dedup _)]
    intro id
    rw [Table.mem_map_key, mobius_ofRun, Table.find?_foldl_upsert_ne_none, List.mem_dedup]
    simp

/-- The rebuilt tables are the old ones where the last call of each id externalised no
payload. -/
theorem sameIndexes_rebuilt_iff (calls : List (RememberCall py)) :
    (rebuilt .default calls).SameIndexes (ofRun .default calls) ↔
      ∀ c ∈ RememberCall.lastCalls calls, ∀ item ∈ c.memory.modalities,
        item.isExternal py .default = false := by
  have hrow : ∀ c : RememberCall py, c.ftsRowAgain .default = c.ftsRow ↔
      ∀ item ∈ c.memory.modalities, item.isExternal py .default = false := by
    intro c
    rw [← MemoryEnvelope.textContent_stored_iff c.memory c.now]
    simp [RememberCall.ftsRowAgain, RememberCall.ftsRow, RememberCall.stored]
  have hfts : (rebuilt .default calls).fts = (ofRun .default calls).fts ↔
      ∀ c ∈ RememberCall.lastCalls calls, ∀ item ∈ c.memory.modalities,
        item.isExternal py .default = false := by
    rw [fts_rebuilt, fts_ofRun, List.map_inj_left]
    exact forall₂_congr fun c _ => hrow c
  rw [← hfts]
  exact ⟨fun h => h.fts, fun h => ⟨memories_rebuilt calls, h, mobius_rebuilt calls⟩⟩

/-- After a run of `remember` calls the rebuild restores the three tables, with one row for
each memory, exactly where no call logs a line break that JSON does not escape, the relations
of every record are indexed, and no memory was last remembered with an externalised payload. -/
theorem rebuild_indexes_iff (py : Python F) (indexes : IndexedFields F → Bool) (now : F)
    (calls : List (RememberCall py)) :
    ∃ s, rememberAll py .default indexes calls .empty = some s ∧
      ((∃ s', rebuildIndexes py .default indexes now s = some s' ∧ s'.SameIndexes s ∧
          s'.OneRowEach (calls.map fun c => c.memory.id)) ↔
        (∀ c ∈ calls, c.memory.breaksLine py .default = false) ∧
          (∀ c ∈ calls, indexes (c.stored .default).indexedFields = true) ∧
            ∀ c ∈ RememberCall.lastCalls calls, ∀ item ∈ c.memory.modalities,
              item.isExternal py .default = false) := by
  refine ⟨ofRun .default calls, rememberAll_eq calls _, ?_⟩
  rw [rebuildIndexes_run, ← sameIndexes_rebuilt_iff, ← and_assoc]
  constructor
  · rintro ⟨s', hs', hsame, -⟩
    split at hs'
    · next h =>
      obtain rfl := Option.some.inj hs'
      exact ⟨h, hsame⟩
    · cases hs'
  · rintro ⟨h, hsame⟩
    refine ⟨_, if_pos h, hsame, ?_⟩
    have hone := @oneRowEach_ofRun _ _ .default calls
    rw [TemporalStore.OneRowEach] at hone ⊢
    rw [← hsame.memories, ← hsame.fts, ← hsame.mobius] at hone
    exact hone

end MemoryVault

end Rebuild

/-! ## A payload above the threshold -/

theorem length_le_byteLength (text : Text) : text.length ≤ byteLength text := by
  induction text with
  | nil => exact le_rfl
  | cons c text ih =>
    have hchar : 0 < (String.utf8EncodeChar c).length := by
      rw [String.length_utf8EncodeChar]
      exact c.utf8Size_pos
    simp only [byteLength, Sha256.utf8, List.flatMap_cons, List.length_append, List.length_map,
      List.length_cons] at ih ⊢
    omega

/-- A text of more than 64 KiB. -/
def sampleLargeText : ModalityRef SampleNumber :=
  { sampleText with content := .str (List.replicate 65537 'a') }

theorem valid_sampleLargeText : sampleLargeText.Valid samplePython :=
  { valid_sampleText with
    hashed := fun _ => ⟨rfl, rfl⟩
    content := trivial }

theorem isExternal_sampleLargeText : sampleLargeText.isExternal samplePython .default = true := by
  have hlength := length_le_byteLength (List.replicate 65537 'a')
  rw [List.length_replicate] at hlength
  rw [ModalityRef.isExternal, Bool.and_eq_true, decide_eq_true_eq]
  refine ⟨rfl, ?_⟩
  show (65536 : Int) < byteLength (List.replicate 65537 'a')
  omega

/-- A memory with this text. -/
def largeCall : RememberCall samplePython :=
  sampleCall [] pairwise_noTags sampleLargeText valid_sampleLargeText

theorem breaksLine_largeCall : largeCall.memory.breaksLine samplePython .default = false := by
  have hhash : hasWideBreak largeCall.memory.contentHash = false :=
    hasWideBreak_of_isSha256Hex (ModalityRef.isSha256Hex_hexdigest _)
  have hitem : sampleLargeText.breaksLine samplePython .default = false := by
    rw [ModalityRef.breaksLine, isExternal_sampleLargeText]
    decide
  have hmodalities : largeCall.memory.modalities = [sampleLargeText] := rfl
  rw [MemoryEnvelope.breaksLine, hhash, hmodalities, List.any_cons, hitem]
  decide

/-- The rebuild after one such memory: the text it is searched by is lost. -/
theorem MemoryVault.text_lost_by_rebuild : ∃ s s',
    rememberAll samplePython .default (fun _ => true) [largeCall] .empty = some s ∧
      rebuildIndexes samplePython .default (fun _ => true) .one s = some s' ∧ s'.fts ≠ s.fts := by
  refine ⟨_, _, rememberAll_eq _ _, (rebuildIndexes_run [largeCall] _).trans (if_pos ?_), ?_⟩
  · simp [breaksLine_largeCall]
  · intro hfts
    have hsame : (rebuilt .default [largeCall]).SameIndexes (ofRun .default [largeCall]) :=
      ⟨memories_rebuilt _, hfts, mobius_rebuilt _⟩
    have hlast : RememberCall.lastCalls [largeCall] = [largeCall] :=
      List.pwFilter_eq_self.mpr (List.pairwise_singleton _ _)
    have hnone := (sameIndexes_rebuilt_iff [largeCall]).mp hsame largeCall
      (hlast ▸ List.mem_cons_self) sampleLargeText List.mem_cons_self
    simp [isExternal_sampleLargeText] at hnone

end AgentMemory
