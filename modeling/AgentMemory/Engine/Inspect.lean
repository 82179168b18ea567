import AgentMemory.Lib.Fallible
import AgentMemory.Engine.Rebuild

/-!
# Inspecting a memory

`inspect` of `engines/living_memoryv2/src/living_memoryv2/store.py`: the row of a memory is
read back and the blobs of its references are resolved. A reference is recognised by its URI,
a blob is found by the digest the envelope declared, and resolving removes the key that
externalising wrote. `inspect_restores_iff` says which envelopes come back with their
modalities.
-/

namespace AgentMemory

open Dicts PyText JsonText Tables Fallible

variable {F : Type} (py : Python F)

/-- The content of a blob (`store.py:324-328`). -/
def readBlob (format : Option (Json F)) (data : Text) : Option (Json F) :=
  match format with
  | some (.str text) => if text = "json".toList then loads py.toFloats data else some (.str data)
  | _ => some (.str data)

/-- `_blob_path(sha).read_bytes()` (`store.py:322`, `:344-350`): it raises for what is no
digest and for a file that does not exist. -/
def blobAt (blobs : Table Blob Blob.sha) (sha : Text) : Option Blob :=
  if isSha256Hex sha = true then blobs.find? sha else none

namespace ModalityRef

/-- `item.uri and item.uri.startswith("blob://")`. -/
def isReference (item : ModalityRef F) : Bool := item.uri.any blobScheme.isPrefixOf

/-- The body of the loop of `_resolve_blobs` (`store.py:318-339`). -/
def resolve (blobs : Table Blob Blob.sha) (item : ModalityRef F) : Option (ModalityRef F) :=
  if item.isReference = true then do
    let blob ← blobAt blobs ((item.uri.getD []).drop blobScheme.length)
    let content ← readBlob py (valueAt blobFormatKey item.metadata) blob.data
    postInit py { item with content := content, uri := none, metadata := erase blobFormatKey item.metadata }
  else some item

end ModalityRef

/-- `_resolve_blobs` (`store.py:315-342`). -/
def MemoryEnvelope.resolveBlobs (now : F) (blobs : Table Blob Blob.sha) (m : MemoryEnvelope F) :
    Option (MemoryEnvelope F) := do
  let items ← m.modalities.mapM (ModalityRef.resolve py blobs)
  fromDict py now { m with modalities := items }.toDict

/-- `inspect` (`store.py:143-149`). -/
def TemporalStore.inspect (now : F) (id : Text) (s : TemporalStore F) : Option (MemoryEnvelope F) := do
  let row ← s.memories.find? id
  let data ← loads py.toFloats row.envelopeJson
  let m ← MemoryEnvelope.fromDict py now data
  m.resolveBlobs py now s.blobs

/-! ## Resolving what was externalised -/

namespace ModalityRef

variable {py} {options : StoreOptions} {item item' : ModalityRef F}

/-- What `inspect` shows of two modalities is the same. -/
structure SameView (item item' : ModalityRef F) : Prop where
  content : item.content = item'.content
  uri : item.uri = item'.uri
  metadata : item.metadata = item'.metadata

/-- The resolved reference to this item, with this content. -/
def restored (py : Python F) (item : ModalityRef F) (content : Json F) : ModalityRef F :=
  { item.reference py with content := content, uri := none, metadata := erase blobFormatKey item.metadata }

/-- The payload that is found for the item's digest reads as its content, and nothing that
the item had is in the place of what externalising writes. -/
def Restorable (py : Python F) (options : StoreOptions) (payload : Text → Option Text)
    (item : ModalityRef F) : Prop :=
  if item.isExternal py options = true then
    item.uri = none ∧ valueAt blobFormatKey item.metadata = none ∧
      (payload (item.usedSha py)).bind (readBlob py (some (.str (blobFormat item.content)))) =
        some item.content
  else item.isReference = false

theorem postInit_of_hashed (hne : item.modality ≠ []) (hnormal : py.lower (strip item.modality) = item.modality)
    (hsha : item.sha256.isSome = true) (hsize : item.sizeBytes.isSome = true) :
    item.postInit py = some item := by
  obtain ⟨sha, hsha⟩ := Option.isSome_iff_exists.mp hsha
  obtain ⟨size, hsize⟩ := Option.isSome_iff_exists.mp hsize
  unfold postInit
  simp only [hnormal, if_neg hne, hsha, hsize, Option.getD_some, ite_self]
  rw [← hsha, ← hsize]

theorem isReference_reference (item : ModalityRef F) : (item.reference py).isReference = true := by
  simp [isReference, reference]

/-- A reference is resolved with what is stored under its digest. -/
theorem resolve_reference (h : item.Valid py) (blobs : Table Blob Blob.sha) :
    (item.reference py).resolve py blobs =
      ((blobs.find? (item.usedSha py)).map Blob.data).bind fun data =>
        (readBlob py (some (.str (blobFormat item.content))) data).map (item.restored py) := by
  have hsha : ((item.reference py).uri.getD []).drop blobScheme.length = item.usedSha py :=
    List.drop_left
  have hformat : valueAt blobFormatKey (item.reference py).metadata =
      some (.str (blobFormat item.content)) := by
    simp [reference]
  have hmetadata : erase blobFormatKey (item.reference py).metadata = erase blobFormatKey item.metadata :=
    erase_insert _ _ _
  rw [resolve, if_pos (isReference_reference item), hsha, blobAt, if_pos (isSha256Hex_usedSha item),
    hformat, hmetadata]
  cases blobs.find? (item.usedSha py) with
  | none => rfl
  | some blob =>
    simp only [Option.bind_eq_bind, Option.bind_some, Option.map_some]
    cases hread : readBlob py (some (.str (blobFormat item.content))) blob.data with
    | none => rfl
    | some content => exact postInit_of_hashed h.modality_ne h.normal rfl rfl

theorem resolve_of_not_isReference (h : item.isReference = false) (blobs : Table Blob Blob.sha) :
    item.resolve py blobs = some item := by
  rw [resolve, if_neg (by simp [h])]

theorem uri_of_postInit (h : item.postInit py = some item') : item'.uri = item.uri := by
  unfold postInit at h
  simp only at h
  split_ifs at h <;> obtain rfl := Option.some.inj h <;> rfl

/-- Whatever a reference resolves to has no URI. -/
theorem uri_of_resolve {blobs : Table Blob Blob.sha} (href : item.isReference = true)
    (h : item.resolve py blobs = some item') : item'.uri = none := by
  rw [resolve, if_pos href] at h
  simp only [Option.bind_eq_bind, Option.bind_eq_some_iff] at h
  obtain ⟨blob, -, content, -, hpost⟩ := h
  exact uri_of_postInit hpost

theorem canonical_of_readBlob {format : Option (Json F)} {data : Text} {content : Json F}
    (h : readBlob py format data = some content) : Canonical content := by
  unfold readBlob at h
  split at h
  · split at h
    · exact canonical_of_loads h
    · obtain rfl := Option.some.inj h
      trivial
  · obtain rfl := Option.some.inj h
    trivial

theorem valid_of_resolve {blobs : Table Blob Blob.sha} (hitem : item.Valid py)
    (h : item.resolve py blobs = some item') : item'.Valid py := by
  by_cases href : item.isReference = true
  · rw [resolve, if_pos href] at h
    simp only [Option.bind_eq_bind, Option.bind_eq_some_iff] at h
    obtain ⟨blob, -, content, hread, hpost⟩ := h
    exact valid_of_postInit (canonical_of_readBlob hread) (canonical_erase hitem.metadata) hpost
  · rw [resolve, if_neg href] at h
    obtain rfl := Option.some.inj h
    exact hitem

theorem uri_ne_of_isReference (h : item.isReference = true) : item.uri ≠ none := by
  intro hnone
  simp [isReference, hnone] at h

/-- The item lemma: what is logged for a modality resolves to what was remembered exactly
where the item is restorable. -/
theorem resolve_stored_iff (h : item.Valid py) (blobs : Table Blob Blob.sha) :
    (∃ r, (item.stored py options).resolve py blobs = some r ∧ r.SameView item) ↔
      item.Restorable py options fun sha => (blobs.find? sha).map Blob.data := by
  unfold Restorable stored
  by_cases hext : item.isExternal py options = true
  · rw [if_pos hext, if_pos hext, resolve_reference h]
    have hmetadata : erase blobFormatKey item.metadata = item.metadata ↔
        valueAt blobFormatKey item.metadata = none := by
      refine ⟨fun heq => ?_, erase_of_valueAt_eq_none⟩
      rw [← heq, valueAt_erase_self]
    beta_reduce
    cases (blobs.find? (item.usedSha py)).map Blob.data with
    | none => simp
    | some data =>
      simp only [Option.bind_some, Option.map_eq_some_iff]
      constructor
      · rintro ⟨r, ⟨content, hread, rfl⟩, hview⟩
        obtain ⟨hcontent, huri, hmeta⟩ := hview
        exact ⟨huri.symm, hmetadata.mp hmeta, hread.trans (congrArg some hcontent)⟩
      · rintro ⟨huri, hnone, hread⟩
        exact ⟨_, ⟨item.content, hread, rfl⟩, rfl, huri.symm, hmetadata.mpr hnone⟩
  · rw [if_neg hext, if_neg hext]
    by_cases href : item.isReference = true
    · simp only [href, Bool.true_eq_false, iff_false]
      rintro ⟨r, hr, hview⟩
      exact uri_ne_of_isReference href (hview.uri.symm.trans (uri_of_resolve href hr))
    · rw [Bool.not_eq_true] at href
      rw [resolve_of_not_isReference href]
      exact ⟨fun _ => href, fun _ => ⟨item, rfl, rfl, rfl, rfl⟩⟩

end ModalityRef

/-! ## What is read back -/

variable {py} {options : StoreOptions}

namespace RememberCall

variable (c : RememberCall py)

theorem valid_with_modalities {items : List (ModalityRef F)} (hitems : ∀ item ∈ items, item.Valid py) :
    ({ c.stored options with modalities := items }).Valid py :=
  { c.valid_stored options with modalities := hitems }

theorem valid_of_mapM_resolve {blobs : Table Blob Blob.sha} {items : List (ModalityRef F)}
    (h : (c.stored options).modalities.mapM (ModalityRef.resolve py blobs) = some items) :
    ∀ item ∈ items, item.Valid py :=
  forall_mem_of_mapM h fun item hitem _ => ModalityRef.valid_of_resolve ((c.valid_stored options).modalities item hitem)

/-- The logged envelope keeps everything but its modalities when its blobs are resolved. -/
theorem resolveBlobs_stored (now : F) (blobs : Table Blob Blob.sha) :
    (c.stored options).resolveBlobs py now blobs =
      ((c.stored options).modalities.mapM (ModalityRef.resolve py blobs)).map fun items =>
        { c.stored options with modalities := items } := by
  rw [MemoryEnvelope.resolveBlobs]
  cases hitems : (c.stored options).modalities.mapM (ModalityRef.resolve py blobs) with
  | none => rfl
  | some items =>
    have hvalid := @RememberCall.valid_with_modalities _ _ options c _ (c.valid_of_mapM_resolve hitems)
    have hread := @MemoryEnvelope.fromDict_of_isTruthy _ _ _ now hvalid (c.isTruthy_stored options)
    rw [Option.bind_eq_bind, Option.bind_some, hread, Option.map_some]

theorem loads_record : loads py.toFloats (stableJson py (c.record options)) = some (c.record options) :=
  loads_dumps (c.canonical_record options)

end RememberCall

namespace TemporalStore

/-- The payload that the run stored first under a digest. -/
def firstPayload (options : StoreOptions) (calls : List (RememberCall py)) (sha : Text) : Option Text :=
  ((calls.flatMap fun c => c.memory.blobs py options).find? fun blob => blob.sha = sha).map Blob.data

theorem find?_blobs_ofRun (calls : List (RememberCall py)) (sha : Text) :
    ((MemoryVault.ofRun options calls).blobs.find? sha).map Blob.data =
      firstPayload options calls sha := by
  rw [MemoryVault.ofRun, blobs_run, Table.find?_foldl_putNew]
  rfl

theorem find?_memories_last {calls : List (RememberCall py)} {c : RememberCall py}
    (hc : c ∈ RememberCall.lastCalls calls) :
    (MemoryVault.ofRun options calls).memories.find? c.memory.id = some (memoryRow py (c.stored options)) := by
  have hlast : memoryRow py (c.stored options) ∈
      (calls.map fun c => memoryRow py (c.stored options)).pwFilter fun row row' => row.id ≠ row'.id := by
    rw [List.pwFilter_map]
    exact List.mem_map_of_mem hc
  rw [MemoryVault.memories_ofRun]
  exact Table.find?_foldl_upsert_last hlast Table.empty

theorem inspect_last {calls : List (RememberCall py)} {c : RememberCall py}
    (hc : c ∈ RememberCall.lastCalls calls) (now : F) :
    (MemoryVault.ofRun options calls).inspect py now c.memory.id =
      ((c.stored options).modalities.mapM
        (ModalityRef.resolve py (MemoryVault.ofRun options calls).blobs)).map fun items =>
          { c.stored options with modalities := items } := by
  have hloads := @RememberCall.loads_record _ _ options c
  simp only [inspect, find?_memories_last hc, Option.bind_eq_bind, Option.bind_some]
  change (loads py.toFloats (stableJson py (c.record options))).bind _ = _
  rw [hloads, Option.bind_some, c.fromDict_record, Option.bind_some, c.resolveBlobs_stored]

/-- The last envelope of an id comes back exactly where its modalities are restorable. -/
theorem inspect_ofRun_iff {calls : List (RememberCall py)} {c : RememberCall py}
    (hc : c ∈ RememberCall.lastCalls calls) (now : F) :
    (∃ m, (MemoryVault.ofRun options calls).inspect py now c.memory.id = some m ∧
        List.Forall₂ ModalityRef.SameView m.modalities c.memory.modalities ∧
          m.provenance = c.memory.provenance ∧ m.metadata = c.memory.metadata) ↔
      ∀ item ∈ c.memory.modalities, item.Restorable py options (firstPayload options calls) := by
  have hitems : (∃ rs, (c.memory.modalities.map (ModalityRef.stored py options)).mapM
      (ModalityRef.resolve py (MemoryVault.ofRun options calls).blobs) = some rs ∧
        List.Forall₂ ModalityRef.SameView rs c.memory.modalities) ↔
      ∀ item ∈ c.memory.modalities, item.Restorable py options (firstPayload options calls) := by
    rw [mapM_related_iff]
    refine forall₂_congr fun item hitem => ?_
    rw [ModalityRef.resolve_stored_iff (c.valid.modalities item hitem)]
    simp only [find?_blobs_ofRun]
  rw [inspect_last hc, ← hitems]
  constructor
  · rintro ⟨m, hm, hviews, -, -⟩
    obtain ⟨rs, hrs, rfl⟩ := Option.map_eq_some_iff.mp hm
    exact ⟨rs, hrs, hviews⟩
  · rintro ⟨rs, hrs, hviews⟩
    exact ⟨_, Option.map_eq_some_iff.mpr ⟨rs, hrs, rfl⟩, hviews, rfl, rfl⟩

/-- Which memories come back: after a run of `remember` calls, `inspect` returns the last
envelope of an id with its modalities, provenance and metadata exactly where every modality is
restorable from the payloads that the run stored first. -/
theorem inspect_restores_iff (py : Python F) (options : StoreOptions) (now : F)
    (calls : List (RememberCall py)) :
    ∃ s, rememberAll py options calls .empty = some s ∧ ∀ c ∈ RememberCall.lastCalls calls,
      ((∃ m, s.inspect py now c.memory.id = some m ∧
          List.Forall₂ ModalityRef.SameView m.modalities c.memory.modalities ∧
            m.provenance = c.memory.provenance ∧ m.metadata = c.memory.metadata) ↔
        ∀ item ∈ c.memory.modalities, item.Restorable py options (firstPayload options calls)) :=
  ⟨MemoryVault.ofRun options calls, rememberAll_eq calls _, fun _ hc => inspect_ofRun_iff hc now⟩

end TemporalStore

/-! ## A large payload with a URI of its own -/

/-- The large text with the place it came from. -/
def sampleSourcedText : ModalityRef SampleNumber :=
  { sampleLargeText with uri := some "file:tea".toList }

theorem valid_sampleSourcedText : sampleSourcedText.Valid samplePython :=
  { valid_sampleLargeText with hashed := fun _ => ⟨rfl, rfl⟩ }

def sourcedCall : RememberCall samplePython :=
  sampleCall [] pairwise_noTags sampleSourcedText valid_sampleSourcedText

/-- Its URI does not come back. -/
theorem TemporalStore.uri_lost_by_inspect : ∃ s,
    rememberAll samplePython .default [sourcedCall] .empty = some s ∧
      ¬ ∃ m, s.inspect samplePython .one sourcedCall.memory.id = some m ∧
        List.Forall₂ ModalityRef.SameView m.modalities sourcedCall.memory.modalities ∧
          m.provenance = sourcedCall.memory.provenance ∧ m.metadata = sourcedCall.memory.metadata := by
  have hlast : sourcedCall ∈ RememberCall.lastCalls [sourcedCall] := by
    rw [RememberCall.lastCalls, List.pwFilter_eq_self.mpr (List.pairwise_singleton _ _)]
    exact List.mem_cons_self
  refine ⟨MemoryVault.ofRun .default [sourcedCall], rememberAll_eq _ _, fun h => ?_⟩
  have hmodalities : sourcedCall.memory.modalities = [sampleSourcedText] := rfl
  have hitem := (inspect_ofRun_iff hlast SampleNumber.one).mp h
  rw [hmodalities, List.forall_mem_singleton] at hitem
  have hcontent : sampleSourcedText.content = sampleLargeText.content := rfl
  have hexternal : sampleSourcedText.isExternal samplePython .default = true := by
    rw [ModalityRef.isExternal, hcontent, ← ModalityRef.isExternal]
    exact isExternal_sampleLargeText
  rw [ModalityRef.Restorable, if_pos hexternal] at hitem
  cases hitem.1

end AgentMemory
