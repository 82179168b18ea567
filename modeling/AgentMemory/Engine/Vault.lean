import AgentMemory.Engine.Store

/-!
# The vault and its log

`engines/living_memoryv2/src/living_memoryv2/vault.py`: `MemoryVault.remember` writes the
store and then indexes the envelope's relations; `rebuild_indexes` and `verify_integrity`
read the log line by line. `readLog_rememberAll_iff` says of which runs the log reads back
as the records they stored: the reader also breaks a line at U+0085, U+2028 and U+2029,
which `stable_json` writes as they are.
-/

namespace AgentMemory

open Dicts PyText JsonText Tables

variable {F : Type}

/-- What `GraphStore.index_memory` and `KnowledgeGraph.index_memory` read of an envelope. -/
structure IndexedFields (F : Type) where
  id : Text
  createdAt : Number F
  scope : List (Text × Json F)
  relations : List (Json F)
  confidence : F
  provenance : List (Text × Json F)

/-- The fields of an envelope that its relations are indexed with. -/
def MemoryEnvelope.indexedFields (m : MemoryEnvelope F) : IndexedFields F :=
  ⟨m.id, m.createdAt, m.scope, m.relations, m.confidence, m.provenance⟩

/-- `TemporalStore(root)`. -/
def StoreOptions.default : StoreOptions := ⟨64 * 1024, MobiusIndex.default⟩

/-- How a call of the vault ended after it wrote the store. -/
structure VaultResult (F : Type) where
  returned : Bool
  store : TemporalStore F

section Remember

variable (py : Python F) (options : StoreOptions) (indexes : IndexedFields F → Bool)

namespace MemoryVault

/-- `remember` (`vault.py:159-183`) without a box. The relations are indexed in other
databases after the store is written; `indexes` says whether that succeeds. -/
def remember (now : F) (appendLog : Bool) (m : MemoryEnvelope F) (s : TemporalStore F) :
    Option (VaultResult F) :=
  (TemporalStore.remember py options now appendLog m s).map fun s => ⟨indexes m.indexedFields, s⟩

/-- The store after calls of `remember`, whether or not their relations are indexed. -/
def rememberAll (calls : List (RememberCall py)) (s : TemporalStore F) :
    Option (TemporalStore F) :=
  calls.foldlM (fun s c => (remember py options indexes c.now true c.memory s).map VaultResult.store) s

variable {py options indexes}

theorem remember_eq (c : RememberCall py) (appendLog : Bool) (s : TemporalStore F) :
    remember py options indexes c.now appendLog c.memory s =
      some ⟨indexes c.memory.indexedFields, c.after options appendLog s⟩ := by
  rw [remember, TemporalStore.remember_eq, Option.map_some]

/-- A run of the vault does to its store what a run of the store does. -/
theorem rememberAll_eq (calls : List (RememberCall py)) (s : TemporalStore F) :
    rememberAll py options indexes calls s =
      some (calls.foldl (fun s c => c.after options true s) s) := by
  rw [← TemporalStore.rememberAll_eq]
  simp only [rememberAll, TemporalStore.rememberAll, remember, Option.map_map, Function.comp_def,
    Option.map_id']

end MemoryVault

end Remember

/-! ## What the log reads back as -/

variable (py : Python F) (options : StoreOptions)

/-- A string logged for this modality has a line break that JSON does not escape. Content,
URI and digest of an externalised payload are not logged. -/
def ModalityRef.breaksLine (item : ModalityRef F) : Bool :=
  hasWideBreak item.modality || item.mimeType.any hasWideBreak ||
    if item.isExternal py options = true then
      anyCharFields isWideBreak (erase blobFormatKey item.metadata)
    else
      anyChar isWideBreak item.content || item.uri.any hasWideBreak ||
        item.sha256.any hasWideBreak || anyCharFields isWideBreak item.metadata

/-- A string logged for this envelope has such a line break. -/
def MemoryEnvelope.breaksLine (m : MemoryEnvelope F) : Bool :=
  hasWideBreak m.id || anyCharFields isWideBreak m.scope || hasWideBreak m.memoryType ||
    m.modalities.any (ModalityRef.breaksLine py options) || m.tags.any hasWideBreak ||
    m.entities.any hasWideBreak || m.relations.any (anyChar isWideBreak) ||
    hasWideBreak m.sensitivity || anyCharFields isWideBreak m.provenance ||
    anyCharFields isWideBreak m.metadata || hasWideBreak m.contentHash

section AnyChar

/-- A display whose keys differ and hold no line break is searched value by value. -/
theorem anyChar_dict {pairs : List (String × Json F)} (h : (pairs.map Prod.fst).Nodup)
    (hkeys : ∀ kv ∈ pairs, hasWideBreak kv.1.toList = false) :
    anyChar isWideBreak (dict pairs) = pairs.any fun kv => anyChar isWideBreak kv.2 := by
  rw [dict, anyChar, anyCharFields_ofPairs _ (nodup_dictKeys h), anyCharFields_eq_any, List.any_map]
  clear h
  induction pairs with
  | nil => rfl
  | cons kv pairs ih =>
    obtain ⟨hkv, hpairs⟩ := List.forall_mem_cons.mp hkeys
    rw [hasWideBreak] at hkv
    simp [hkv, ih hpairs]

theorem anyChar_str (s : Text) : anyChar isWideBreak (.str s : Json F) = hasWideBreak s := rfl

theorem anyChar_obj (d : List (Text × Json F)) :
    anyChar isWideBreak (.obj d) = anyCharFields isWideBreak d := rfl

theorem anyChar_textValue (o : Option Text) :
    anyChar isWideBreak (textValue o : Json F) = o.any hasWideBreak := by
  cases o <;> rfl

theorem anyChar_intValue (o : Option Int) : anyChar isWideBreak (intValue o : Json F) = false := by
  cases o <;> rfl

theorem anyChar_texts (texts : List Text) :
    anyChar isWideBreak (.arr (texts.map (Json.str : Text → Json F))) = texts.any hasWideBreak := by
  rw [anyChar, anyCharItems_eq_any, List.any_map]
  rfl

theorem anyChar_number (n : Number F) : anyChar isWideBreak n.value = false := by
  cases n <;> rfl

theorem anyChar_numberValue (o : Option (Number F)) :
    anyChar isWideBreak (numberValue o) = false := by
  rcases o with _ | (n | x) <;> rfl

end AnyChar

section Logged

variable {py options}

theorem isWideBreak_of_isHexDigit {c : Char} (h : Sha256.isHexDigit c = true) :
    isWideBreak c = false := by
  have hword : isWordChar c = true := by
    simp [isWordChar, Sha256.isAlphanum_of_isHexDigit h]
  exact (Bool.or_eq_false_iff.mp (isLineBreak_of_isWordChar hword)).2

theorem hasWideBreak_of_isSha256Hex {text : Text} (h : isSha256Hex text = true) :
    hasWideBreak text = false := by
  simp only [isSha256Hex, Bool.and_eq_true, List.all_eq_true] at h
  have hdigits := h.2
  have hbreak : isWideBreak '\n' = false := by decide
  rw [hasWideBreak, List.any_eq_false]
  intro c hc
  by_cases hlast : text.getLast? = some '\n'
  · obtain ⟨before, rfl⟩ := List.getLast?_eq_some_iff.mp hlast
    rw [if_pos hlast, List.dropLast_concat] at hdigits
    rcases List.mem_append.mp hc with hc | hc
    · simp [isWideBreak_of_isHexDigit (hdigits c hc)]
    · simp [List.mem_singleton.mp hc, hbreak]
  · rw [if_neg hlast] at hdigits
    simp [isWideBreak_of_isHexDigit (hdigits c hc)]

theorem hasWideBreak_usedSha (item : ModalityRef F) : hasWideBreak (item.usedSha py) = false :=
  hasWideBreak_of_isSha256Hex (ModalityRef.isSha256Hex_usedSha item)

theorem ModalityRef.anyChar_toDict (item : ModalityRef F) :
    anyChar isWideBreak item.toDict =
      (hasWideBreak item.modality || anyChar isWideBreak item.content ||
        item.uri.any hasWideBreak || item.mimeType.any hasWideBreak ||
        item.sha256.any hasWideBreak || anyCharFields isWideBreak item.metadata) := by
  rw [ModalityRef.toDict, anyChar_dict (by simp) (by simp; decide)]
  simp [anyChar, anyChar_textValue, anyChar_intValue, hasWideBreak, Bool.or_assoc]

theorem hasWideBreak_blobFormat (content : Json F) :
    hasWideBreak (ModalityRef.blobFormat content) = false := by
  unfold ModalityRef.blobFormat
  split <;> decide

theorem hasWideBreak_reference (item : ModalityRef F) :
    hasWideBreak (blobScheme ++ item.usedSha py) = false := by
  have hscheme : hasWideBreak blobScheme = false := by decide
  have hsha := @hasWideBreak_usedSha _ py item
  simp only [hasWideBreak] at hscheme hsha ⊢
  rw [List.any_append, hscheme, hsha, Bool.or_self]

/-- What is logged for a modality breaks a line where the modality says so. -/
theorem ModalityRef.anyChar_stored {item : ModalityRef F} (h : item.Valid py) :
    anyChar isWideBreak (item.stored py options).toDict = item.breaksLine py options := by
  rw [ModalityRef.anyChar_toDict, ModalityRef.stored, ModalityRef.breaksLine]
  by_cases hext : item.isExternal py options = true
  · have hkey : hasWideBreak blobFormatKey = false := by decide
    have hformat := hasWideBreak_blobFormat item.content
    simp only [hasWideBreak] at hkey hformat
    simp [hext, ModalityRef.reference, anyChar, hasWideBreak_reference, hasWideBreak_usedSha,
      anyCharFields_insert _ h.metadata.1, hkey, hformat]
  · simp [hext]
    ac_rfl

theorem ModalityRef.any_anyChar_stored {items : List (ModalityRef F)}
    (h : ∀ item ∈ items, item.Valid py) :
    (items.any fun item => anyChar isWideBreak (item.stored py options).toDict) =
      items.any (ModalityRef.breaksLine py options) := by
  induction items with
  | nil => rfl
  | cons item items ih =>
    obtain ⟨hitem, hitems⟩ := List.forall_mem_cons.mp h
    simp [ModalityRef.anyChar_stored hitem, ih hitems]

/-- What is logged for an envelope breaks a line where the envelope says so. -/
theorem RememberCall.anyChar_record (c : RememberCall py) :
    anyChar isWideBreak (c.record options) = c.memory.breaksLine py options := by
  have hmodalities : anyChar isWideBreak (.arr ((c.stored options).modalities.map ModalityRef.toDict)) =
      c.memory.modalities.any (ModalityRef.breaksLine py options) := by
    rw [anyChar, anyCharItems_eq_any, RememberCall.stored, MemoryEnvelope.stored, List.map_map,
      List.any_map]
    exact ModalityRef.any_anyChar_stored c.valid.modalities
  have hrelations : anyChar isWideBreak (.arr (c.stored options).relations) =
      c.memory.relations.any (anyChar isWideBreak) := anyCharItems_eq_any _ _
  rw [RememberCall.record, MemoryEnvelope.toDict, anyChar_dict (by simp) (by simp; decide),
    MemoryEnvelope.breaksLine]
  simp only [List.any_cons, List.any_nil, hmodalities, hrelations, anyChar_texts, anyChar_number,
    anyChar_numberValue, anyChar_str, anyChar_obj, Bool.or_false, Bool.false_or, Bool.or_assoc]
  rfl

end Logged

namespace MemoryVault

/-- The log of a run of `remember` calls reads back as the records they stored, in their
order, exactly where no call logs a line break that JSON does not escape. -/
theorem log_reads_back_iff (indexes : IndexedFields F → Bool) (calls : List (RememberCall py)) :
    ∃ s, rememberAll py options indexes calls .empty = some s ∧
      (readLog py.toFloats s.log = calls.map (fun c => some (c.record options)) ↔
        ∀ c ∈ calls, c.memory.breaksLine py options = false) := by
  have hcanonical : ∀ j ∈ calls.map (fun c => c.record options), Canonical j := by
    intro j hj
    obtain ⟨c, -, rfl⟩ := List.mem_map.mp hj
    exact c.canonical_record options
  have hread := @readLog_writeLog_iff _ py.toFloats _ hcanonical
  refine ⟨_, rememberAll_eq calls _, ?_⟩
  rw [TemporalStore.log_run, TemporalStore.empty, List.nil_append]
  simpa [RememberCall.anyChar_record, Function.comp_def] using hread

end MemoryVault

/-! A tag with a line separator is enough. -/

/-- Two numbers, to run the model on. -/
inductive SampleNumber where
  | half | one

/-- A runtime that knows two numbers and only lower-case letters. -/
def samplePython : Python SampleNumber where
  repr
    | .half => "0.5".toList
    | .one => "1.0".toList
  ofText text := if text = "1.0".toList then .one else .half
  isFloatText_repr := by rintro (_ | _) <;> decide
  ofText_repr := by rintro (_ | _) <;> rfl
  str
    | .half => "0.5".toList
    | .one => "1.0".toList
  ofInt n := if n = 1 then .one else .half
  isZero _ := false
  inUnit _ := true
  isNan _ := false
  lower text := text
  lower_lower _ := rfl
  strip_lower _ := strip_strip _

/-- A text that is not hashed yet. -/
def sampleText : ModalityRef SampleNumber :=
  ⟨"text".toList, .str "tea".toList, none, some "text/plain".toList, some "d".toList, some 3, []⟩

/-- An envelope with this modality and these tags, under the hash the constructor computes. -/
def sampleMemory (tags : List Text) (item : ModalityRef SampleNumber) : MemoryEnvelope SampleNumber :=
  let m : MemoryEnvelope SampleNumber :=
    ⟨[], "episodic".toList, [item], "m".toList, .float .one, some (.float .one), tags, [], [], .half,
      .one, "normal".toList, [], [], []⟩
  { m with contentHash := m.computeContentHash samplePython }

theorem valid_sampleText : sampleText.Valid samplePython where
  modality_ne := by decide
  normal := by decide
  hashed := fun _ => ⟨rfl, rfl⟩
  content := trivial
  metadata := ⟨List.Pairwise.nil, trivial⟩

theorem valid_sampleMemory {tags : List Text} (htags : tags.Pairwise (· < ·))
    {item : ModalityRef SampleNumber} (hitem : item.Valid samplePython) :
    (sampleMemory tags item).Valid samplePython where
  memoryType_ne := by simp [sampleMemory]
  id_ne := by simp [sampleMemory]
  contentHash_ne := MemoryEnvelope.sha256Hex_ne _
  updated := rfl
  tags := htags
  entities := List.Pairwise.nil
  importance := rfl
  confidence := rfl
  modalities := by simpa [sampleMemory] using hitem
  scope := ⟨List.Pairwise.nil, trivial⟩
  relations := by simp [sampleMemory]
  provenance := ⟨List.Pairwise.nil, trivial⟩
  metadata := ⟨List.Pairwise.nil, trivial⟩

/-- A call at one second past the epoch. -/
def sampleCall (tags : List Text) (htags : tags.Pairwise (· < ·)) (item : ModalityRef SampleNumber)
    (hitem : item.Valid samplePython) : RememberCall samplePython :=
  ⟨sampleMemory tags item, valid_sampleMemory htags hitem, .one, rfl, rfl⟩

theorem pairwise_noTags : ([] : List Text).Pairwise (· < ·) := List.Pairwise.nil

/-- A tag that is a line separator. -/
def separatorCall : RememberCall samplePython :=
  sampleCall [['\u2028']] (List.pairwise_singleton _ _) sampleText valid_sampleText

/-- The log of a call with such a tag has a line that is no JSON. -/
theorem MemoryVault.log_broken_by_tag :
    ∃ s, rememberAll samplePython .default (fun _ => true) [separatorCall] .empty = some s ∧
      none ∈ readLog samplePython.toFloats s.log ∧
      readLog samplePython.toFloats s.log ≠ [some (separatorCall.record .default)] := by
  have hbroken : anyChar isWideBreak (separatorCall.record .default) = true := by
    rw [RememberCall.anyChar_record]
    decide
  have hnone := @none_mem_readLog _ samplePython.toFloats [separatorCall.record .default] _ List.mem_cons_self hbroken
  refine ⟨_, rememberAll_eq _ _, ?_⟩
  rw [TemporalStore.log_run, TemporalStore.empty, List.nil_append]
  refine ⟨hnone, fun heq => ?_⟩
  rw [List.map_singleton] at heq
  rw [heq] at hnone
  simp at hnone

end AgentMemory
