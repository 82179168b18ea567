import AgentMemory.Engine.Indexes
import AgentMemory.Lib.Table

/-!
# The temporal store

`engines/living_memoryv2/src/living_memoryv2/store.py`: `remember` writes three tables, a
JSONL log and, for large payloads, blob files named by a digest; `inspect` reads an envelope
back and resolves its blobs. A file written as UTF-8 is represented by its text. A call that
raises returns `none`. `remember_eq` says what a call with a valid envelope does, and
`run_eq` what a run of them leaves.
-/

namespace AgentMemory

open Dicts PyText JsonText Tables

/-- A row of the table `memories`. -/
structure MemoryRow (F : Type) where
  id : Text
  createdAt : Number F
  updatedAt : Option (Number F)
  memoryType : Text
  scopeJson : Text
  tagsJson : Text
  entitiesJson : Text
  importance : F
  confidence : F
  sensitivity : Text
  contentHash : Text
  envelopeJson : Text

/-- A row of the table `memory_fts`, which has no key. -/
structure FtsRow where
  id : Text
  text : Text

/-- A row of the table `mobius_index`. -/
structure MobiusRow where
  memoryID : Text
  address : MobiusAddress

/-- A file under `blobs/`, in the directory and under the name its digest gives it. -/
structure Blob where
  sha : Text
  data : Text

/-- The state of `TemporalStore` on disk; a log that does not exist is empty. -/
structure TemporalStore (F : Type) where
  memories : Table (MemoryRow F) MemoryRow.id
  fts : List FtsRow
  mobius : Table MobiusRow MobiusRow.memoryID
  log : Text
  blobs : Table Blob Blob.sha

/-- A new store. -/
def TemporalStore.empty {F : Type} : TemporalStore F := ⟨Table.empty, [], Table.empty, [], Table.empty⟩

/-- The arguments of `TemporalStore.__init__`. -/
structure StoreOptions where
  blobThreshold : Int
  mobiusIndex : MobiusIndex

/-- `_is_sha256_hex` (`store.py:13-17`). The `$` of the pattern also matches before a
newline at the end. -/
def isSha256Hex (value : Text) : Bool :=
  let digits := if value.getLast? = some '\n' then value.dropLast else value
  digits.length = 64 && digits.all Sha256.isHexDigit

/-- `blob://`. -/
def blobScheme : Text := "blob://".toList

/-- The key of the metadata that says how to read a blob. -/
def blobFormatKey : Text := "blob_format".toList

variable {F : Type} (py : Python F) (options : StoreOptions)

namespace ModalityRef

/-- The digest a payload is stored under (`store.py:289-293`). -/
def usedSha (item : ModalityRef F) : Text :=
  let sha := orText (item.sha256.getD []) (stableJson py item.content)
  if isSha256Hex sha = true then sha else sha256Text (contentBytes py item.content)

/-- Whether a payload is externalised (`store.py:282-288`). -/
def isExternal (item : ModalityRef F) : Bool :=
  !isNone item.content && options.blobThreshold < byteLength (contentBytes py item.content)

/-- `metadata["blob_format"]` (`store.py:299`). -/
def blobFormat (content : Json F) : Text :=
  match content with
  | .str _ => "text".toList
  | _ => "json".toList

/-- The reference to an externalised payload (`store.py:300-310`). -/
def reference (item : ModalityRef F) : ModalityRef F where
  modality := item.modality
  content := .null
  uri := some (blobScheme ++ usedSha py item)
  mimeType := item.mimeType
  sha256 := some (usedSha py item)
  sizeBytes := some (byteLength (contentBytes py item.content))
  metadata := insert blobFormatKey (.str (blobFormat item.content)) item.metadata

/-- The body of the loop of `_externalize_large_payloads`: the new modality and the blob to
write if its file does not exist. -/
def externalize (item : ModalityRef F) : Option (ModalityRef F × List Blob) :=
  if item.isExternal py options = true then
    (postInit py (item.reference py)).map fun new =>
      (new, [⟨usedSha py item, contentBytes py item.content⟩])
  else some (item, [])

end ModalityRef

namespace MemoryEnvelope

/-- `_externalize_large_payloads` (`store.py:279-313`). -/
def externalize (now : F) (m : MemoryEnvelope F) : Option (MemoryEnvelope F × List Blob) := do
  let items ← m.modalities.mapM (ModalityRef.externalize py options)
  -- `data["modalities"]` is set to the new modalities.
  let stored ← fromDict py now { m with modalities := items.map Prod.fst }.toDict
  pure (stored, items.flatMap Prod.snd)

end MemoryEnvelope

/-- The row `remember` writes into `memories` (`store.py:113-126`). -/
def memoryRow (stored : MemoryEnvelope F) : MemoryRow F where
  id := stored.id
  createdAt := stored.createdAt
  updatedAt := stored.updatedAt
  memoryType := stored.memoryType
  scopeJson := stableJson py (.obj stored.scope)
  tagsJson := stableJson py (.arr (stored.tags.map .str))
  entitiesJson := stableJson py (.arr (stored.entities.map .str))
  importance := stored.importance
  confidence := stored.confidence
  sensitivity := stored.sensitivity
  contentHash := stored.contentHash
  envelopeJson := stableJson py stored.toDict

/-- A number that a `NOT NULL` column takes: integers have 64 bits, and NaN is `NULL`. -/
def Number.fitsColumn : Number F → Bool
  | .int n => -2 ^ 63 ≤ n && n < 2 ^ 63
  | .float x => !py.isNan x

/-- The numeric columns take the fields of this envelope. -/
def MemoryEnvelope.fitsColumns (m : MemoryEnvelope F) : Bool :=
  m.createdAt.fitsColumn py && m.updatedAt.any (Number.fitsColumn py) && !py.isNan m.importance &&
    !py.isNan m.confidence

namespace TemporalStore

/-- The writes of `remember` (`store.py:105-140`). -/
def write (appendLog : Bool) (original stored : MemoryEnvelope F) (blobs : List Blob)
    (s : TemporalStore F) : TemporalStore F where
  memories := s.memories.upsert (memoryRow py stored)
  fts := s.fts.filter (fun row => row.id ≠ stored.id) ++ [⟨stored.id, original.textContent py⟩]
  mobius := s.mobius.upsert ⟨stored.id, options.mobiusIndex.addressFor py original⟩
  log := if appendLog = true then s.log ++ (stableJson py stored.toDict ++ ['\n']) else s.log
  blobs := blobs.foldl Table.putNew s.blobs

/-- `remember` (`store.py:99-141`) with this reading of the clock. -/
def remember (now : F) (appendLog : Bool) (m : MemoryEnvelope F) (s : TemporalStore F) :
    Option (TemporalStore F) := do
  let original ← MemoryEnvelope.fromDict py now m.toDict
  let (stored, blobs) ← original.externalize py options now
  if stored.fitsColumns py = true then pure (s.write py options appendLog original stored blobs)
  else none

end TemporalStore

/-! ## What a call does -/

namespace ModalityRef

/-- The modality that is logged. -/
def stored (item : ModalityRef F) : ModalityRef F :=
  if item.isExternal py options = true then item.reference py else item

/-- The blob that is written, if its file does not exist. -/
def blobs (item : ModalityRef F) : List Blob :=
  if item.isExternal py options = true then [⟨usedSha py item, contentBytes py item.content⟩] else []

variable {py options} {item : ModalityRef F}

theorem isSha256Hex_hexdigest (message : List Sha256.Byte) :
    isSha256Hex (Sha256.hexdigest message) = true := by
  have hlast : (Sha256.hexdigest message).getLast? ≠ some '\n' := by
    intro h
    exact absurd (Sha256.isHexDigit_hexdigest (List.mem_of_getLast? h)) (by decide)
  simp [isSha256Hex, hlast, Sha256.length_hexdigest]
  exact fun c hc => Sha256.isHexDigit_hexdigest hc

theorem isSha256Hex_usedSha (item : ModalityRef F) : isSha256Hex (usedSha py item) = true := by
  unfold usedSha
  simp only
  split
  · assumption
  · exact isSha256Hex_hexdigest _

theorem valid_reference (h : item.Valid py) : (item.reference py).Valid py where
  modality_ne := h.modality_ne
  normal := h.normal
  hashed := nofun
  content := trivial
  metadata := canonical_insert h.metadata trivial

theorem valid_stored (h : item.Valid py) : (item.stored py options).Valid py := by
  unfold stored
  split
  · exact valid_reference h
  · exact h

theorem externalize_eq (h : item.Valid py) :
    item.externalize py options = some (item.stored py options, item.blobs py options) := by
  unfold externalize stored blobs
  by_cases hext : item.isExternal py options = true
  · simp [hext, postInit_of_valid (valid_reference h)]
  · simp [hext]

theorem mapM_externalize {items : List (ModalityRef F)} (h : ∀ item ∈ items, item.Valid py) :
    items.mapM (externalize py options) =
      some (items.map fun item => (item.stored py options, item.blobs py options)) :=
  Fallible.mapM_eq_some_map fun item hitem => externalize_eq (h item hitem)

end ModalityRef

namespace MemoryEnvelope

/-- The envelope as `remember` rereads it: with the clock's reading for a creation time of
zero. -/
def original (now : F) (m : MemoryEnvelope F) : MemoryEnvelope F :=
  { m with createdAt := orNow py now (some m.createdAt) }

/-- The envelope that is logged. -/
def stored (now : F) (m : MemoryEnvelope F) : MemoryEnvelope F :=
  { m.original py now with modalities := m.modalities.map (ModalityRef.stored py options) }

/-- The blobs that are written, where their files do not exist. -/
def blobs (m : MemoryEnvelope F) : List Blob := m.modalities.flatMap (ModalityRef.blobs py options)

variable {py options} {m : MemoryEnvelope F} {now : F}

theorem valid_original (h : m.Valid py) : (m.original py now).Valid py := { h with }

theorem valid_stored (h : m.Valid py) : (m.stored py options now).Valid py :=
  { @valid_original _ py m now h with
    modalities := by
      intro item hitem
      obtain ⟨item', hitem', rfl⟩ := List.mem_map.mp hitem
      exact ModalityRef.valid_stored (h.modalities item' hitem') }

/-- An envelope whose creation time is set is read back as it is. -/
theorem fromDict_of_isTruthy (h : m.Valid py) (hcreated : m.createdAt.isTruthy py = true) :
    fromDict py now m.toDict = some m := by
  rw [fromDict_toDict h, orNow_of_isTruthy hcreated]

theorem externalize_eq (h : m.Valid py)
    (hcreated : (m.original py now).createdAt.isTruthy py = true) :
    (m.original py now).externalize py options now =
      some (m.stored py options now, m.blobs py options) := by
  have hmap := @ModalityRef.mapM_externalize _ _ options _ h.modalities
  have hstored := @fromDict_of_isTruthy _ py _ now (@valid_stored _ py options m now h)
    hcreated
  have hmodalities : (m.original py now).modalities = m.modalities := rfl
  simp only [externalize, hmodalities, hmap, Option.bind_eq_bind, Option.bind_some, List.map_map,
    List.flatMap_map, Function.comp_def]
  change (fromDict py now (m.stored py options now).toDict).bind _ = _
  rw [hstored]
  rfl

end MemoryEnvelope

/-- A call of `remember` with a valid envelope, and its reading of the clock, which is past
the epoch. -/
structure RememberCall (py : Python F) where
  memory : MemoryEnvelope F
  valid : memory.Valid py
  now : F
  pastEpoch : py.isZero now = false
  fitsColumns : (memory.original py now).fitsColumns py = true

namespace RememberCall

variable {py} (c : RememberCall py)

/-- The envelope the call logs. -/
def stored : MemoryEnvelope F := c.memory.stored py options c.now

/-- The record the call logs. -/
def record : Json F := (c.stored options).toDict

/-- What the call does to the store. -/
def after (appendLog : Bool) (s : TemporalStore F) : TemporalStore F :=
  s.write py options appendLog (c.memory.original py c.now) (c.stored options)
    (c.memory.blobs py options)

theorem valid_stored : (c.stored options).Valid py := MemoryEnvelope.valid_stored c.valid

theorem isTruthy_stored : (c.stored options).createdAt.isTruthy py = true :=
  isTruthy_orNow c.pastEpoch (some c.memory.createdAt)

theorem canonical_record : Canonical (c.record options) :=
  MemoryEnvelope.canonical_toDict (c.valid_stored options)

end RememberCall

namespace TemporalStore

/-- Calls of `remember` one after the other. -/
def rememberAll (calls : List (RememberCall py)) (s : TemporalStore F) :
    Option (TemporalStore F) :=
  calls.foldlM (fun s c => remember py options c.now true c.memory s) s

variable {py options}

/-- What a call does that does not fail. -/
theorem remember_of_valid {m : MemoryEnvelope F} (h : m.Valid py) {now : F}
    (hcreated : (m.original py now).createdAt.isTruthy py = true)
    (hfits : (m.original py now).fitsColumns py = true) (appendLog : Bool) (s : TemporalStore F) :
    remember py options now appendLog m s =
      some (s.write py options appendLog (m.original py now) (m.stored py options now)
        (m.blobs py options)) := by
  have horiginal : MemoryEnvelope.fromDict py now m.toDict = some (m.original py now) :=
    MemoryEnvelope.fromDict_toDict h now
  have hstored : (m.stored py options now).fitsColumns py = true := hfits
  simp only [remember, horiginal, MemoryEnvelope.externalize_eq h hcreated, Option.bind_eq_bind,
    Option.bind_some]
  exact if_pos hstored

theorem remember_eq (c : RememberCall py) (appendLog : Bool) (s : TemporalStore F) :
    remember py options c.now appendLog c.memory s = some (c.after options appendLog s) :=
  remember_of_valid c.valid (c.isTruthy_stored options) c.fitsColumns appendLog s

/-- Every run of calls with valid envelopes returns. -/
theorem rememberAll_eq (calls : List (RememberCall py)) (s : TemporalStore F) :
    rememberAll py options calls s = some (calls.foldl (fun s c => c.after options true s) s) := by
  induction calls generalizing s with
  | nil => rfl
  | cons c calls ih =>
    simp only [rememberAll, List.foldlM_cons, remember_eq, Option.bind_eq_bind, Option.bind_some,
      List.foldl_cons] at ih ⊢
    exact ih _

/-- The log of a run holds its records in order. -/
theorem log_run (calls : List (RememberCall py)) (s : TemporalStore F) :
    (calls.foldl (fun s c => c.after options true s) s).log =
      s.log ++ writeLog py.toFloats (calls.map fun c => c.record options) := by
  induction calls generalizing s with
  | nil => simp [writeLog]
  | cons c calls ih =>
    rw [List.foldl_cons, ih]
    simp [RememberCall.after, write, writeLog, RememberCall.record, stableJson]

/-- The blobs of a run were put one after the other. -/
theorem blobs_run (calls : List (RememberCall py)) (s : TemporalStore F) :
    (calls.foldl (fun s c => c.after options true s) s).blobs =
      (calls.flatMap fun c => c.memory.blobs py options).foldl Table.putNew s.blobs := by
  induction calls generalizing s with
  | nil => rfl
  | cons c calls ih =>
    rw [List.foldl_cons, ih, List.flatMap_cons, List.foldl_append]
    rfl

/-- A row stays as it is while no call has its id. -/
theorem find?_memories_run {calls : List (RememberCall py)} {id : Text}
    (h : ∀ c ∈ calls, c.memory.id ≠ id) (s : TemporalStore F) :
    (calls.foldl (fun s c => c.after options true s) s).memories.find? id = s.memories.find? id := by
  induction calls generalizing s with
  | nil => rfl
  | cons c calls ih =>
    obtain ⟨hc, hcalls⟩ := List.forall_mem_cons.mp h
    rw [List.foldl_cons, ih hcalls]
    exact Table.find?_upsert_of_ne _ hc

end TemporalStore

end AgentMemory
