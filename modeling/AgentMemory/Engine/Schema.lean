import AgentMemory.Lib.Fallible
import AgentMemory.Lib.JsonLines
import AgentMemory.Lib.Sha256
import Mathlib.Data.List.Nodup

/-!
# Memory envelopes

`engines/living_memoryv2/src/living_memoryv2/schema.py`: the dataclasses `ModalityRef` and
`MemoryEnvelope`, what `__post_init__` makes of their arguments, and their dictionaries.
Fields have the types the dataclasses declare, with JSON values where these say `Any`; a
dictionary that holds another type where `from_dict` reads a field is an error here, and no
code of the store writes one. What the runtime contributes is a parameter: its
floating-point numbers and the table behind `str.lower`.
-/

namespace AgentMemory

open Dicts PyText JsonText

/-- The Python runtime: floating-point numbers with their texts and tests, and `str.lower`. -/
structure Python (F : Type) extends Floats F where
  /-- `str(x)`. -/
  str : F → Text
  /-- `float(n)`. -/
  ofInt : Int → F
  /-- `x == 0.0`. -/
  isZero : F → Bool
  /-- `not (x < 0.0 or x > 1.0)`. -/
  inUnit : F → Bool
  /-- `x != x`. -/
  isNan : F → Bool
  lower : Text → Text
  lower_lower : ∀ text, lower (lower text) = lower text
  strip_lower : ∀ text, strip (lower (strip text)) = lower (strip text)

/-- An `int` or a `float`. -/
inductive Number (F : Type) where
  | int (n : Int)
  | float (x : F)

/-- The fields of `ModalityRef` (`schema.py:41-49`); a missing content is `null`. -/
structure ModalityRef (F : Type) where
  modality : Text
  content : Json F
  uri : Option Text
  mimeType : Option Text
  sha256 : Option Text
  sizeBytes : Option Int
  metadata : List (Text × Json F)

/-- The fields of `MemoryEnvelope` (`schema.py:114-130`). -/
structure MemoryEnvelope (F : Type) where
  scope : List (Text × Json F)
  memoryType : Text
  modalities : List (ModalityRef F)
  id : Text
  createdAt : Number F
  updatedAt : Option (Number F)
  tags : List Text
  entities : List Text
  relations : List (Json F)
  importance : F
  confidence : F
  sensitivity : Text
  provenance : List (Text × Json F)
  metadata : List (Text × Json F)
  contentHash : Text

section Json

variable {F : Type}

/-- A dictionary display. -/
def dict (pairs : List (String × Json F)) : Json F :=
  .obj (ofPairs (pairs.map fun kv => (kv.1.toList, kv.2)))

/-- `data.get(key)`. -/
def field (data : Json F) (key : String) : Option (Json F) :=
  match data with
  | .obj d => valueAt key.toList d
  | _ => none

/-- The value a display has under a key. -/
def shown (key : String) : List (String × Json F) → Option (Json F)
  | [] => none
  | (k, j) :: rest => if key = k then some j else shown key rest

theorem valueAt_map_toList (pairs : List (String × Json F)) (key : String) :
    valueAt key.toList (pairs.map fun kv => (kv.1.toList, kv.2)) = shown key pairs := by
  induction pairs with
  | nil => rfl
  | cons kv rest ih => simp [valueAt, shown, ih, String.toList_inj]

theorem nodup_dictKeys {pairs : List (String × Json F)} (h : (pairs.map Prod.fst).Nodup) :
    ((pairs.map fun kv => (kv.1.toList, kv.2)).map Prod.fst).Nodup := by
  have hmap : (pairs.map fun kv => (kv.1.toList, kv.2)).map Prod.fst =
      (pairs.map Prod.fst).map String.toList := by simp
  rw [hmap]
  exact List.Nodup.map (fun _ _ heq => String.toList_inj.mp heq) h

theorem field_dict {pairs : List (String × Json F)} (h : (pairs.map Prod.fst).Nodup) (key : String) :
    field (dict pairs) key = shown key pairs := by
  simp only [field, dict]
  rw [valueAt_ofPairs (nodup_dictKeys h), valueAt_map_toList]

theorem canonical_dict {pairs : List (String × Json F)} (h : ∀ kv ∈ pairs, Canonical kv.2) :
    Canonical (dict pairs) := by
  refine canonical_ofPairs fun kv hkv => ?_
  obtain ⟨kv', hkv', rfl⟩ := List.mem_map.mp hkv
  exact h kv' hkv'

/-- `value is None`. -/
def isNone : Json F → Bool
  | .null => true
  | _ => false

/-- `str | None` as a value. -/
def textValue : Option Text → Json F
  | some s => .str s
  | none => .null

/-- `int | None` as a value. -/
def intValue : Option Int → Json F
  | some n => .int n
  | none => .null

/-- A number as a value. -/
def Number.value : Number F → Json F
  | .int n => .int n
  | .float x => .float x

/-- `float | None` as a value. -/
def numberValue : Option (Number F) → Json F
  | some n => n.value
  | none => .null

/-- A field of type `str | None`. -/
def readText : Option (Json F) → Option (Option Text)
  | none | some .null => some none
  | some (.str s) => some (some s)
  | _ => none

/-- A field of type `int | None`. -/
def readInt : Option (Json F) → Option (Option Int)
  | none | some .null => some none
  | some (.int n) => some (some n)
  | _ => none

/-- A field of type `float | None`. -/
def readNumber : Option (Json F) → Option (Option (Number F))
  | none | some .null => some none
  | some (.int n) => some (some (.int n))
  | some (.float x) => some (some (.float x))
  | _ => none

/-- `data.get(key) or {}`. -/
def readFields : Option (Json F) → Option (List (Text × Json F))
  | none | some .null => some []
  | some (.obj d) => some d
  | _ => none

/-- `data.get(key) or []`. -/
def readItems : Option (Json F) → Option (List (Json F))
  | none | some .null => some []
  | some (.arr items) => some items
  | _ => none

/-- A list of strings. -/
def readTexts : List (Json F) → Option (List Text)
  | [] => some []
  | .str s :: items => (readTexts items).map (s :: ·)
  | _ => none

/-- `float(data.get(key, default))`. -/
def readScore (py : Python F) (default : F) : Option (Json F) → Option F
  | none => some default
  | some (.int n) => some (py.ofInt n)
  | some (.float x) => some x
  | _ => none

theorem readTexts_map_str (texts : List Text) :
    readTexts (texts.map (Json.str : Text → Json F)) = some texts := by
  induction texts with
  | nil => rfl
  | cons s texts ih => simp [readTexts, ih]

@[simp] theorem readText_str (s : Text) : readText (some (.str s : Json F)) = some (some s) := rfl

@[simp] theorem readText_textValue (o : Option Text) :
    readText (some (textValue o : Json F)) = some o := by
  cases o <;> rfl

@[simp] theorem readInt_intValue (o : Option Int) :
    readInt (some (intValue o : Json F)) = some o := by
  cases o <;> rfl

@[simp] theorem readNumber_numberValue (o : Option (Number F)) :
    readNumber (some (numberValue o)) = some o := by
  rcases o with _ | (n | x) <;> rfl

theorem canonical_textValue (o : Option Text) : Canonical (textValue o : Json F) := by
  cases o <;> trivial

theorem canonical_intValue (o : Option Int) : Canonical (intValue o : Json F) := by
  cases o <;> trivial

theorem canonical_numberValue (o : Option (Number F)) : Canonical (numberValue o) := by
  rcases o with _ | (n | x) <;> trivial

theorem canonical_texts (texts : List Text) :
    Canonical (.arr (texts.map (Json.str : Text → Json F))) := by
  refine canonicalItems_iff.mpr fun j hj => ?_
  obtain ⟨s, -, rfl⟩ := List.mem_map.mp hj
  trivial

end Json

variable {F : Type} (py : Python F)

/-- `stable_json` (`schema.py:23-24`). -/
def stableJson (value : Json F) : Text := dumps py.toFloats value

/-- `content_bytes` (`schema.py:27-34`) as the text whose UTF-8 it is. -/
def contentBytes (value : Json F) : Text :=
  match value with
  | .null => []
  | .str s => s
  | value => stableJson py value

/-- `len` of a text's UTF-8 bytes. -/
def byteLength (text : Text) : Nat := (Sha256.utf8 text).length

/-- `sha256_hex` of a text's UTF-8 bytes. -/
def sha256Text (text : Text) : Text := Sha256.hexdigest (Sha256.utf8 text)

/-- No two of these texts have one hash. -/
def HashesApart (texts : List Text) : Prop :=
  ∀ text ∈ texts, ∀ text' ∈ texts, sha256Text text = sha256Text text' → text = text'

/-- `sha256_hex` (`schema.py:37-38`). -/
def sha256Hex (value : Json F) : Text := sha256Text (contentBytes py value)

namespace ModalityRef

/-- `__post_init__` (`schema.py:51-61`). -/
def postInit (item : ModalityRef F) : Option (ModalityRef F) :=
  let modality := py.lower (strip item.modality)
  if modality = [] then none
  else if isNone item.content = true then some { item with modality := modality }
  else some { item with
    modality := modality
    sha256 := some (item.sha256.getD (sha256Hex py item.content))
    sizeBytes := some (item.sizeBytes.getD (byteLength (contentBytes py item.content))) }

/-- `to_dict` (`schema.py:63-72`). -/
def toDict (item : ModalityRef F) : Json F :=
  dict [("modality", .str item.modality), ("content", item.content), ("uri", textValue item.uri),
    ("mime_type", textValue item.mimeType), ("sha256", textValue item.sha256),
    ("size_bytes", intValue item.sizeBytes), ("metadata", .obj item.metadata)]

/-- `from_dict` (`schema.py:74-84`). -/
def fromDict (data : Json F) : Option (ModalityRef F) := do
  let modality ← readText (field data "modality")
  let uri ← readText (field data "uri")
  let mimeType ← readText (field data "mime_type")
  let sha256 ← readText (field data "sha256")
  let sizeBytes ← readInt (field data "size_bytes")
  let metadata ← readFields (field data "metadata")
  postInit py ⟨modality.getD [], (field data "content").getD .null, uri, mimeType, sha256, sizeBytes,
    metadata⟩

/-- What `__post_init__` leaves, with dictionaries in key order. -/
structure Valid (item : ModalityRef F) : Prop where
  modality_ne : item.modality ≠ []
  normal : py.lower (strip item.modality) = item.modality
  hashed : isNone item.content = false → item.sha256.isSome ∧ item.sizeBytes.isSome
  content : Canonical item.content
  metadata : Canonical (.obj item.metadata)

variable {py} {item item' : ModalityRef F}

theorem postInit_of_valid (h : item.Valid py) : item.postInit py = some item := by
  obtain ⟨modality, content, uri, mimeType, sha256, sizeBytes, metadata⟩ := item
  have hnormal := h.normal
  have hne := h.modality_ne
  have hhashed := h.hashed
  simp only at hnormal hne hhashed
  by_cases hnull : isNone content = true
  · simp [postInit, hnormal, hne, hnull]
  · obtain ⟨hsha, hsize⟩ := hhashed (by simpa using hnull)
    obtain ⟨sha, rfl⟩ := Option.isSome_iff_exists.mp hsha
    obtain ⟨size, rfl⟩ := Option.isSome_iff_exists.mp hsize
    simp [postInit, hnormal, hne, hnull]

/-- Whatever the constructor accepts is valid. -/
theorem valid_of_postInit (hcontent : Canonical item.content)
    (hmetadata : Canonical (.obj item.metadata)) (h : item.postInit py = some item') :
    item'.Valid py := by
  have hnormal : py.lower (strip (py.lower (strip item.modality))) = py.lower (strip item.modality) := by
    rw [py.strip_lower, py.lower_lower]
  unfold postInit at h
  simp only at h
  split_ifs at h with hne hnull <;> obtain rfl := Option.some.inj h
  · exact ⟨hne, hnormal, fun hcon => by simp [hnull] at hcon, hcontent, hmetadata⟩
  · exact ⟨hne, hnormal, fun _ => ⟨rfl, rfl⟩, hcontent, hmetadata⟩

theorem canonical_toDict (h : item.Valid py) : Canonical item.toDict := by
  refine canonical_dict ?_
  simp only [List.forall_mem_cons, canonical_textValue, canonical_intValue, h.content, h.metadata,
    List.not_mem_nil, false_imp_iff, implies_true, and_true]
  trivial

theorem fromDict_toDict (h : item.Valid py) : fromDict py item.toDict = some item := by
  have hfield : ∀ key, field item.toDict key = shown key _ := fun key => field_dict (by simp) key
  have hpost := postInit_of_valid h
  simp [fromDict, hfield, shown, readFields, hpost]

end ModalityRef

/-- `sorted({str(item) for item in items})`. -/
def sortedSet (texts : List Text) : List Text := (ofPairs (texts.map fun s => (s, ()))).map Prod.fst

theorem sortedSet_of_sorted {texts : List Text} (h : texts.Pairwise (· < ·)) :
    sortedSet texts = texts := by
  have hord : Ordered (texts.map fun s => (s, ())) := List.pairwise_map.mpr h
  simp [sortedSet, ofPairs_of_ordered hord, Function.comp_def]

theorem sorted_sortedSet (texts : List Text) : (sortedSet texts).Pairwise (· < ·) :=
  List.pairwise_map.mpr (ordered_ofPairs _)

/-- `bool(n)`. -/
def Number.isTruthy : Number F → Bool
  | .int n => n ≠ 0
  | .float x => !py.isZero x

/-- `data.get("created_at") or time.time()`. -/
def orNow (now : F) : Option (Number F) → Number F
  | some n => if n.isTruthy py = true then n else .float now
  | none => .float now

theorem isTruthy_orNow {py : Python F} {now : F} (hnow : py.isZero now = false)
    (o : Option (Number F)) : (orNow py now o).isTruthy py = true := by
  unfold orNow
  split
  · split
    · assumption
    · simp [Number.isTruthy, hnow]
  · simp [Number.isTruthy, hnow]

theorem orNow_of_isTruthy {py : Python F} {n : Number F} (h : n.isTruthy py = true) (now : F) :
    orNow py now (some n) = n := if_pos h

/-- A list field that is iterated as it is. -/
def iterated : Option (Json F) → Option (List (Json F))
  | none => some []
  | some (.arr items) => some items
  | _ => none

/-- `data.get("sensitivity", "normal")`. -/
def readSensitivity : Option (Json F) → Option Text
  | none => some "normal".toList
  | some (.str s) => some s
  | _ => none

/-- `x or default` for a text. -/
def orText (text default : Text) : Text := if text = [] then default else text

namespace MemoryEnvelope

/-- What `compute_content_hash` hashes (`schema.py:302-315`). -/
def material (m : MemoryEnvelope F) : Json F :=
  dict [("scope", .obj m.scope), ("memory_type", .str m.memoryType),
    ("modalities", .arr (m.modalities.map ModalityRef.toDict)), ("tags", .arr (m.tags.map .str)),
    ("entities", .arr (m.entities.map .str)), ("relations", .arr m.relations),
    ("importance", .float m.importance), ("confidence", .float m.confidence),
    ("sensitivity", .str m.sensitivity), ("provenance", .obj m.provenance),
    ("metadata", .obj m.metadata)]

/-- `compute_content_hash` (`schema.py:302-316`). -/
def computeContentHash (m : MemoryEnvelope F) : Text := sha256Hex py m.material

/-- The id of an envelope that was given none (`schema.py:150-156`). -/
def computeID (m : MemoryEnvelope F) : Text :=
  "mem_".toList ++ (sha256Hex py (dict [("content_hash", .str m.contentHash),
    ("created_at", m.createdAt.value), ("scope", .obj m.scope)])).take 24

/-- `__post_init__` (`schema.py:132-156`) on modalities that are constructed. -/
def postInit (m : MemoryEnvelope F) : Option (MemoryEnvelope F) :=
  if (py.inUnit m.importance && py.inUnit m.confidence) = true then
    let m := { m with
      memoryType := orText m.memoryType "episodic".toList
      tags := sortedSet m.tags
      entities := sortedSet m.entities
      updatedAt := some (m.updatedAt.getD m.createdAt) }
    let m := { m with contentHash := orText m.contentHash (m.computeContentHash py) }
    some { m with id := orText m.id (m.computeID py) }
  else none

/-- `to_dict` (`schema.py:329-346`). -/
def toDict (m : MemoryEnvelope F) : Json F :=
  dict [("id", .str m.id), ("created_at", m.createdAt.value),
    ("updated_at", numberValue m.updatedAt), ("scope", .obj m.scope),
    ("memory_type", .str m.memoryType),
    ("modalities", .arr (m.modalities.map ModalityRef.toDict)), ("tags", .arr (m.tags.map .str)),
    ("entities", .arr (m.entities.map .str)), ("relations", .arr m.relations),
    ("importance", .float m.importance), ("confidence", .float m.confidence),
    ("sensitivity", .str m.sensitivity), ("provenance", .obj m.provenance),
    ("metadata", .obj m.metadata), ("content_hash", .str m.contentHash)]

/-- `from_dict` (`schema.py:348-366`) with this reading of the clock. -/
def fromDict (now : F) (data : Json F) : Option (MemoryEnvelope F) := do
  let id ← readText (field data "id")
  let createdAt ← readNumber (field data "created_at")
  let updatedAt ← readNumber (field data "updated_at")
  let scope ← readFields (field data "scope")
  let memoryType ← readText (field data "memory_type")
  let items ← iterated (field data "modalities")
  let modalities ← items.mapM (ModalityRef.fromDict py)
  let tags ← (readItems (field data "tags")).bind readTexts
  let entities ← (readItems (field data "entities")).bind readTexts
  let relations ← readItems (field data "relations")
  let importance ← readScore py (py.ofText "0.5".toList) (field data "importance")
  let confidence ← readScore py (py.ofText "1.0".toList) (field data "confidence")
  let sensitivity ← readSensitivity (field data "sensitivity")
  let provenance ← readFields (field data "provenance")
  let metadata ← readFields (field data "metadata")
  let contentHash ← readText (field data "content_hash")
  postInit py ⟨scope, memoryType.getD [], modalities, id.getD [], orNow py now createdAt, updatedAt,
    tags, entities, relations, importance, confidence, sensitivity, provenance, metadata,
    contentHash.getD []⟩

/-- What `__post_init__` leaves, with dictionaries in key order. -/
structure Valid (m : MemoryEnvelope F) : Prop where
  memoryType_ne : m.memoryType ≠ []
  id_ne : m.id ≠ []
  contentHash_ne : m.contentHash ≠ []
  updated : m.updatedAt.isSome
  tags : m.tags.Pairwise (· < ·)
  entities : m.entities.Pairwise (· < ·)
  importance : py.inUnit m.importance = true
  confidence : py.inUnit m.confidence = true
  modalities : ∀ item ∈ m.modalities, item.Valid py
  scope : Canonical (.obj m.scope)
  relations : ∀ j ∈ m.relations, Canonical j
  provenance : Canonical (.obj m.provenance)
  metadata : Canonical (.obj m.metadata)

variable {py} {m m' : MemoryEnvelope F}

theorem orText_of_ne {text default : Text} (h : text ≠ []) : orText text default = text := if_neg h

theorem orText_ne {text default : Text} (h : default ≠ []) : orText text default ≠ [] := by
  unfold orText
  split
  · exact h
  · assumption

theorem postInit_of_valid (h : m.Valid py) : m.postInit py = some m := by
  obtain ⟨updatedAt, hupdated⟩ := Option.isSome_iff_exists.mp h.updated
  simp only [postInit, h.importance, h.confidence, Bool.and_self, if_true, Option.some.injEq,
    orText_of_ne h.memoryType_ne, sortedSet_of_sorted h.tags, sortedSet_of_sorted h.entities,
    hupdated, Option.getD_some, orText_of_ne h.contentHash_ne, orText_of_ne h.id_ne]
  rw [← hupdated]

theorem length_sha256Hex (j : Json F) : (sha256Hex py j).length = 64 := Sha256.length_hexdigest _

theorem sha256Hex_ne (j : Json F) : sha256Hex py j ≠ [] := fun hnil => by
  have hlength := @length_sha256Hex _ py j
  simp [hnil] at hlength

/-- Whatever the constructor accepts is valid. -/
theorem valid_of_postInit (hmodalities : ∀ item ∈ m.modalities, item.Valid py)
    (hscope : Canonical (.obj m.scope)) (hrelations : ∀ j ∈ m.relations, Canonical j)
    (hprovenance : Canonical (.obj m.provenance)) (hmetadata : Canonical (.obj m.metadata))
    (h : m.postInit py = some m') : m'.Valid py := by
  unfold postInit at h
  split_ifs at h with hscores
  obtain rfl := Option.some.inj h
  rw [Bool.and_eq_true] at hscores
  exact
    { memoryType_ne := orText_ne (by decide)
      id_ne := orText_ne (by simp [computeID])
      contentHash_ne := orText_ne (sha256Hex_ne _)
      updated := rfl
      tags := sorted_sortedSet _
      entities := sorted_sortedSet _
      importance := hscores.1
      confidence := hscores.2
      modalities := hmodalities
      scope := hscope
      relations := hrelations
      provenance := hprovenance
      metadata := hmetadata }

theorem canonical_modalities (h : ∀ item ∈ m.modalities, item.Valid py) :
    Canonical (.arr (m.modalities.map ModalityRef.toDict)) := by
  refine canonicalItems_iff.mpr fun j hj => ?_
  obtain ⟨item, hitem, rfl⟩ := List.mem_map.mp hj
  exact ModalityRef.canonical_toDict (h item hitem)

theorem canonical_toDict (h : m.Valid py) : Canonical m.toDict := by
  have hrelations : Canonical (.arr m.relations) := canonicalItems_iff.mpr h.relations
  have hcreated : Canonical m.createdAt.value := by cases m.createdAt <;> trivial
  refine canonical_dict ?_
  simp only [List.forall_mem_cons, canonical_numberValue, canonical_texts, hcreated, h.scope,
    canonical_modalities h.modalities, hrelations, h.provenance, h.metadata, List.not_mem_nil,
    false_imp_iff, implies_true, and_true]
  trivial

theorem canonical_material (h : m.Valid py) : Canonical m.material := by
  have hrelations : Canonical (.arr m.relations) := canonicalItems_iff.mpr h.relations
  refine canonical_dict ?_
  simp only [List.forall_mem_cons, canonical_texts, h.scope, canonical_modalities h.modalities,
    hrelations, h.provenance, h.metadata, List.not_mem_nil, false_imp_iff, implies_true, and_true]
  trivial

theorem mapM_toDict {items : List (ModalityRef F)} (h : ∀ item ∈ items, item.Valid py) :
    (items.map ModalityRef.toDict).mapM (ModalityRef.fromDict py) = some items :=
  Fallible.mapM_map_eq_self fun item hitem => ModalityRef.fromDict_toDict (h item hitem)

/-- Reading an envelope's own dictionary gives the envelope, with the clock's reading for a
creation time of zero. -/
theorem fromDict_toDict (h : m.Valid py) (now : F) :
    fromDict py now m.toDict = some { m with createdAt := orNow py now (some m.createdAt) } := by
  have hfield : ∀ key, field m.toDict key = shown key _ := fun key => field_dict (by simp) key
  have hvalid : ({ m with createdAt := orNow py now (some m.createdAt) }).Valid py := { h with }
  have hpost := postInit_of_valid hvalid
  have hcreated : readNumber (some m.createdAt.value) = some (some m.createdAt) :=
    readNumber_numberValue (some m.createdAt)
  simp [fromDict, hfield, shown, readFields, readItems, readScore, readSensitivity, iterated,
    readTexts_map_str, mapM_toDict h.modalities, hcreated, hpost]

end MemoryEnvelope

end AgentMemory
