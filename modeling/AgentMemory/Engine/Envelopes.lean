import AgentMemory.Engine.Inspect

/-!
# Envelopes the constructor accepts

`MemoryEnvelope(...)` of `engines/living_memoryv2/src/living_memoryv2/schema.py` on any
arguments, modalities given as dictionaries included, and the round trip through `to_dict` and
`from_dict`. `from_dict` has a default for every missing field and takes it for some fields
also in place of a falsy value. Where the constructor leaves a falsy value in one of these it
is the default itself, but for a creation time of zero: `fromDict_toDict_eq_iff`.
-/

namespace AgentMemory

open Dicts PyText JsonText Fallible

variable {F : Type} (py : Python F)

/-- An item of the argument `modalities`: the arguments of `ModalityRef(...)` or a dictionary. -/
inductive ModalityArg (F : Type) where
  | ref (args : ModalityRef F)
  | dict (data : Json F)

/-- The item constructed (`schema.py:135-138`). -/
def ModalityArg.construct : ModalityArg F → Option (ModalityRef F)
  | .ref args => args.postInit py
  | .dict data => ModalityRef.fromDict py data

/-- The dictionaries of the item are in key order. -/
def ModalityArg.InKeyOrder : ModalityArg F → Prop
  | .ref args => Canonical args.content ∧ Canonical (.obj args.metadata)
  | .dict data => Canonical data

/-- The arguments of `MemoryEnvelope(...)`, with their dictionaries in key order. -/
structure EnvelopeArgs (F : Type) where
  /-- The arguments but for the modalities. -/
  args : MemoryEnvelope F
  items : List (ModalityArg F)
  inKeyOrder : ∀ item ∈ items, item.InKeyOrder
  scope : Canonical (.obj args.scope)
  relations : ∀ j ∈ args.relations, Canonical j
  provenance : Canonical (.obj args.provenance)
  metadata : Canonical (.obj args.metadata)

/-- `MemoryEnvelope(...)` (`schema.py:113-156`). -/
def EnvelopeArgs.construct (a : EnvelopeArgs F) : Option (MemoryEnvelope F) := do
  let modalities ← a.items.mapM (ModalityArg.construct py)
  MemoryEnvelope.postInit py { a.args with modalities := modalities }

variable {py}

theorem mem_of_valueAt {κ α : Type} [LinearOrder κ] {k : κ} {v : α} {d : List (κ × α)}
    (h : valueAt k d = some v) : (k, v) ∈ d := by
  induction d with
  | nil => exact absurd h nofun
  | cons kv d ih =>
    obtain ⟨k', v'⟩ := kv
    rw [valueAt] at h
    split at h
    · next heq =>
      obtain rfl := Option.some.inj h
      rw [heq]
      exact List.mem_cons_self
    · exact List.mem_cons_of_mem _ (ih h)

theorem canonical_field {data j : Json F} {key : String} (h : Canonical data)
    (hj : field data key = some j) : Canonical j := by
  cases data with
  | obj d => exact canonicalFields_iff.mp h.2 _ (mem_of_valueAt hj)
  | _ => exact absurd hj nofun

theorem canonical_of_readFields {data : Json F} {key : String} {fields : List (Text × Json F)}
    (h : Canonical data) (hfields : readFields (field data key) = some fields) :
    Canonical (.obj fields) := by
  have hnil : Canonical (.obj [] : Json F) := ⟨List.Pairwise.nil, trivial⟩
  unfold readFields at hfields
  split at hfields
  · obtain rfl := Option.some.inj hfields
    exact hnil
  · obtain rfl := Option.some.inj hfields
    exact hnil
  · next hfield =>
    obtain rfl := Option.some.inj hfields
    exact canonical_field h hfield
  · exact absurd hfields nofun

theorem ModalityArg.valid_of_construct {arg : ModalityArg F} {item : ModalityRef F}
    (hkeys : arg.InKeyOrder) (h : arg.construct py = some item) : item.Valid py := by
  cases arg with
  | ref args => exact ModalityRef.valid_of_postInit hkeys.1 hkeys.2 h
  | dict data =>
    simp only [construct, ModalityRef.fromDict, Option.bind_eq_bind, Option.bind_eq_some_iff] at h
    obtain ⟨modality, -, uri, -, mimeType, -, sha256, -, sizeBytes, -, metadata, hmetadata, hpost⟩ := h
    have hcontent : Canonical ((field data "content").getD .null) := by
      cases hfield : field data "content" with
      | none => trivial
      | some j => exact canonical_field hkeys hfield
    exact ModalityRef.valid_of_postInit hcontent (canonical_of_readFields hkeys hmetadata) hpost

/-- Whatever the constructor accepts is valid. -/
theorem EnvelopeArgs.valid_of_construct {a : EnvelopeArgs F} {m : MemoryEnvelope F}
    (h : a.construct py = some m) : m.Valid py := by
  rw [construct, Option.bind_eq_bind, Option.bind_eq_some_iff] at h
  obtain ⟨modalities, hmodalities, hpost⟩ := h
  have hitems : ∀ item ∈ modalities, item.Valid py :=
    forall_mem_of_mapM hmodalities fun item hitem _ => ModalityArg.valid_of_construct (a.inKeyOrder item hitem)
  exact @MemoryEnvelope.valid_of_postInit _ py { a.args with modalities := modalities } m hitems a.scope
    a.relations a.provenance a.metadata hpost

/-- An envelope that the constructor accepts is read back from its own dictionary exactly if
its creation time is not zero, or the clock reads just this time. -/
theorem fromDict_toDict_eq_iff {a : EnvelopeArgs F} {m : MemoryEnvelope F}
    (h : a.construct py = some m) (now : F) : MemoryEnvelope.fromDict py now m.toDict = some m ↔
      m.createdAt.isTruthy py = true ∨ m.createdAt = .float now := by
  rw [MemoryEnvelope.fromDict_toDict (a.valid_of_construct h), Option.some.injEq]
  by_cases htruthy : m.createdAt.isTruthy py = true
  · rw [orNow_of_isTruthy htruthy]
    exact iff_of_true rfl (Or.inl htruthy)
  · have hnow : orNow py now (some m.createdAt) = .float now := if_neg htruthy
    rw [hnow, or_iff_right htruthy]
    constructor
    · exact fun heq => (congrArg MemoryEnvelope.createdAt heq).symm
    · intro heq
      rw [← heq]

/-- The arguments of a memory with a text, created at this time. -/
def createdAtArgs (createdAt : Number SampleNumber) : EnvelopeArgs SampleNumber where
  args := { sampleMemory [] sampleText with createdAt := createdAt }
  items := [.ref sampleText]
  inKeyOrder := by
    intro item hitem
    obtain rfl := List.mem_singleton.mp hitem
    exact ⟨trivial, List.Pairwise.nil, trivial⟩
  scope := ⟨List.Pairwise.nil, trivial⟩
  relations := nofun
  provenance := ⟨List.Pairwise.nil, trivial⟩
  metadata := ⟨List.Pairwise.nil, trivial⟩

theorem construct_createdAtArgs (createdAt : Number SampleNumber) :
    (createdAtArgs createdAt).construct samplePython =
      some { sampleMemory [] sampleText with createdAt := createdAt } := by
  have hitem : ModalityArg.construct samplePython (.ref sampleText) = some sampleText :=
    ModalityRef.postInit_of_valid valid_sampleText
  have hvalid : ({ sampleMemory [] sampleText with createdAt := createdAt }).Valid samplePython :=
    { valid_sampleMemory pairwise_noTags valid_sampleText with }
  have hitems : [ModalityArg.ref sampleText].mapM (ModalityArg.construct samplePython) =
      some [sampleText] := by
    rw [List.mapM_cons, hitem]
    rfl
  rw [EnvelopeArgs.construct, createdAtArgs, hitems]
  exact MemoryEnvelope.postInit_of_valid hvalid

theorem fromDict_toDict_eq_iff_one :
    MemoryEnvelope.fromDict samplePython .half
        ({ sampleMemory [] sampleText with createdAt := .float .one } : MemoryEnvelope SampleNumber).toDict =
      some { sampleMemory [] sampleText with createdAt := .float .one } ↔
        (Number.float SampleNumber.one).isTruthy samplePython = true ∨
          Number.float SampleNumber.one = .float .half :=
  fromDict_toDict_eq_iff (construct_createdAtArgs (.float .one)) .half

/-- A memory of the time 0 comes back with the time at which it is read. -/
theorem epoch_memory_changed :
    ¬ ∀ (a : EnvelopeArgs SampleNumber) (m : MemoryEnvelope SampleNumber) (now : SampleNumber),
      a.construct samplePython = some m →
        MemoryEnvelope.fromDict samplePython now m.toDict = some m := by
  intro h
  have hconstruct := construct_createdAtArgs (.int 0)
  have hsame := h _ _ .one hconstruct
  rw [MemoryEnvelope.fromDict_toDict (EnvelopeArgs.valid_of_construct hconstruct),
    Option.some.injEq] at hsame
  exact absurd (congrArg MemoryEnvelope.createdAt hsame) nofun

end AgentMemory
