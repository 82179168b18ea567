import AgentMemory.Engine.Schema

/-!
# What an envelope is indexed by

The text an envelope is searched by (`ModalityRef.searchable_text` and
`MemoryEnvelope.text_content` of `schema.py`) and its address in the Möbius index
(`mobius.py`).
-/

namespace AgentMemory

open Dicts PyText JsonText

/-- `TEXT_BRIDGE_METADATA_KEYS` (`schema.py:9-20`). -/
def textBridgeMetadataKeys : List String :=
  ["text", "derived_text", "caption", "alt_text", "ocr_text", "detected_text", "transcript",
    "description", "title", "labels"]

/-- `"\n".join(part for part in parts if part)`. -/
def joinParts (parts : List Text) : Text := ['\n'].intercalate (parts.filter (· ≠ []))

theorem joinParts_cons_nil (parts : List Text) : joinParts ([] :: parts) = joinParts parts := rfl

theorem joinParts_cons {part : Text} (hpart : part ≠ []) (parts : List Text) :
    joinParts (part :: parts) =
      if joinParts parts = [] then part else part ++ '\n' :: joinParts parts := by
  have hne : ∀ q ∈ parts.filter (· ≠ []), q ≠ [] := fun q hq => by
    simpa using (List.mem_filter.mp hq).2
  unfold joinParts
  rw [List.filter_cons_of_pos (by simpa using hpart)]
  cases hparts : parts.filter (· ≠ []) with
  | nil => simp [List.intercalate]
  | cons q rest =>
    have hq : q ≠ [] := hne q (hparts ▸ List.mem_cons_self)
    cases rest <;> simp [List.intercalate, hq]

/-- What a part adds to a joined text: its characters and a newline. -/
def partLength (part : Text) : Nat := if part = [] then 0 else part.length + 1

/-- What parts add to a joined text. -/
def partsLength : List Text → Nat
  | [] => 0
  | part :: parts => partLength part + partsLength parts

theorem partsLength_append (parts parts' : List Text) :
    partsLength (parts ++ parts') = partsLength parts + partsLength parts' := by
  induction parts with
  | nil => simp [partsLength]
  | cons part parts ih =>
    simp only [List.cons_append, partsLength, ih]
    omega

/-- Joined parts add to a text what the parts add. -/
theorem partLength_joinParts (parts : List Text) : partLength (joinParts parts) = partsLength parts := by
  induction parts with
  | nil => rfl
  | cons part parts ih =>
    rw [partsLength, ← ih]
    by_cases hpart : part = []
    · simp [hpart, joinParts_cons_nil, partLength]
    · rw [joinParts_cons hpart]
      by_cases hrest : joinParts parts = []
      · simp [hrest, partLength]
      · simp [hpart, hrest, partLength]
        omega

variable {F : Type} (py : Python F)

/-- `str(value)` of a value that is no container. -/
def pyStr : Json F → Text
  | .null => "None".toList
  | .bool true => "True".toList
  | .bool false => "False".toList
  | .int n => decimal n
  | .float x => py.str x
  | .str s => s
  | j => stableJson py j

/-- What `searchable_text` takes from one key of the metadata. -/
def bridgePart (metadata : List (Text × Json F)) (key : String) : List Text :=
  match valueAt key.toList metadata with
  | none | some .null | some (.str []) => []
  | some (.arr items) => [stableJson py (.arr items)]
  | some (.obj fields) => [stableJson py (.obj fields)]
  | some j => [pyStr py j]

/-- `{"text", "structured"}`. -/
def plainModalities : List Text := ["text".toList, "structured".toList]

namespace ModalityRef

/-- The text of a content. -/
def contentPart (content : Json F) : List Text :=
  match content with
  | .null => []
  | .str s => [s]
  | j => [stableJson py j]

/-- The parts of `searchable_text` after the content and the URI. -/
def namedParts (item : ModalityRef F) : List Text :=
  (if item.modality ∉ plainModalities then [item.modality] else []) ++
  (if item.modality ∉ plainModalities then item.mimeType.toList else []) ++
  textBridgeMetadataKeys.flatMap (bridgePart py item.metadata)

/-- `searchable_text` (`schema.py:86-111`). -/
def searchableText (item : ModalityRef F) : Text :=
  joinParts (contentPart py item.content ++ (item.uri.toList ++ namedParts py item))

end ModalityRef

/-- `text_content` (`schema.py:318-324`). -/
def MemoryEnvelope.textContent (m : MemoryEnvelope F) : Text :=
  joinParts (m.modalities.map (ModalityRef.searchableText py))

/-- `MobiusAddress` (`mobius.py:10-15`). -/
structure MobiusAddress where
  iu : Nat
  iv : Nat
  iw : Nat
  region : Text

/-- `MobiusIndex` (`mobius.py:29-35`). -/
structure MobiusIndex where
  uSize : Nat
  vSize : Nat
  wSize : Nat
  positive : 0 < uSize ∧ 0 < vSize ∧ 0 < wSize

/-- `MobiusIndex()`. -/
def MobiusIndex.default : MobiusIndex := ⟨32, 16, 8, by decide⟩

/-- `int.from_bytes(bytes, "big")`. -/
def fromBytes (bytes : List Sha256.Byte) : Nat := bytes.foldl (fun n b => 256 * n + b.toNat) 0

/-- The memory types that are regions of their own. -/
def ownRegions : List Text :=
  ["decision".toList, "error".toList, "solution".toList, "procedural".toList, "semantic".toList]

namespace MobiusIndex

/-- `_region_for` (`mobius.py:87-93`). -/
def regionFor (m : MemoryEnvelope F) : Text :=
  if m.memoryType ∈ ownRegions then m.memoryType
  else
    let modalities := sortedSet (m.modalities.map ModalityRef.modality)
    if 1 < modalities.length ∨ ¬ modalities.all (· ∈ plainModalities) then "multimodal".toList
    else "episodic".toList

/-- `bands.get(region, 0)` (`mobius.py:96-104`). -/
def band (region : Text) : Nat :=
  (valueAt region (ofPairs [("episodic".toList, 0), ("semantic".toList, 2),
    ("procedural".toList, 4), ("decision".toList, 6), ("error".toList, 8),
    ("solution".toList, 10), ("multimodal".toList, 12)])).getD 0

/-- `_region_band` (`mobius.py:95-107`). -/
def regionBand (index : MobiusIndex) (region : Text) (byte : Nat) : Nat :=
  let start := min (band region) (index.vSize - 1)
  let width := max 1 (index.vSize / 8)
  min (index.vSize - 1) (start + byte % width)

/-- What `address_for` hashes. -/
def material (m : MemoryEnvelope F) : Json F :=
  dict [("scope", .obj m.scope), ("memory_type", .str m.memoryType),
    ("modalities", .arr (m.modalities.map fun item => .str item.modality)),
    ("tags", .arr (m.tags.map .str)), ("entities", .arr (m.entities.map .str)),
    ("content_hash", .str m.contentHash)]

/-- `address_for` (`mobius.py:37-51`). -/
def addressFor (index : MobiusIndex) (m : MemoryEnvelope F) : MobiusAddress :=
  let region := regionFor m
  let digest := Sha256.digest (Sha256.utf8 (stableJson py (material m)))
  { iu := fromBytes (digest.take 4) % index.uSize
    iv := index.regionBand region (digest.getD 4 0).toNat
    iw := fromBytes ((digest.drop 5).take 4) % index.wSize
    region := region }

end MobiusIndex

end AgentMemory
