import AgentMemory.Engine.Inspect

/-!
# Integrity of the log

`verify_integrity` of `engines/living_memoryv2/src/living_memoryv2/vault.py`: every record
of the log is read, its blobs are resolved and its content hash is computed again. The hash
is over the modalities with their digests and sizes, so a record passes exactly where they
all come back as they were; `verify_integrity_iff` is that statement for a run.
-/

namespace AgentMemory

open Dicts PyText JsonText Tables Fallible

variable {F : Type} (py : Python F)

/-- The report of `verify_integrity`. -/
structure IntegrityReport where
  checked : Nat
  tampered : List Text
  invalidLines : List Nat

/-- The report is free of alarms. -/
def IntegrityReport.Quiet (report : IntegrityReport) : Prop :=
  report.tampered = [] ∧ report.invalidLines = []

namespace MemoryVault

/-- The body of the loop over the numbered lines (`vault.py:210-225`). -/
def checkLine (now : F) (blobs : Table Blob Blob.sha) (report : IntegrityReport)
    (numbered : Text × Nat) : IntegrityReport :=
  if isBlank numbered.1 = true then report
  else match (loads py.toFloats numbered.1).bind (MemoryEnvelope.fromDict py now) with
    | none => { report with invalidLines := report.invalidLines ++ [numbered.2] }
    | some m =>
      let report := { report with checked := report.checked + 1 }
      match m.resolveBlobs py now blobs with
      | none => { report with tampered := report.tampered ++ [m.id] }
      | some resolved =>
        if resolved.computeContentHash py ≠ resolved.contentHash then
          { report with tampered := report.tampered ++ [m.id] }
        else report

/-- `verify_integrity` (`vault.py:206-226`). -/
def verifyIntegrity (now : F) (s : TemporalStore F) : IntegrityReport :=
  ((splitlines (universalNewlines s.log)).zipIdx 1).foldl (checkLine py now s.blobs) ⟨0, [], []⟩

/-- A record that is read, resolved and found to have its content hash. -/
def Passes (now : F) (blobs : Table Blob Blob.sha) (record : Option (Json F)) : Prop :=
  ∃ m, record.bind (MemoryEnvelope.fromDict py now) = some m ∧
    ∃ resolved, m.resolveBlobs py now blobs = some resolved ∧
      resolved.computeContentHash py = resolved.contentHash

variable {py} {now : F} {blobs : Table Blob Blob.sha}

theorem quiet_checkLine_iff (report : IntegrityReport) (numbered : Text × Nat) :
    (checkLine py now blobs report numbered).Quiet ↔ report.Quiet ∧
      (isBlank numbered.1 = false → Passes py now blobs (loads py.toFloats numbered.1)) := by
  unfold checkLine Passes
  by_cases hblank : isBlank numbered.1 = true
  · simp [hblank]
  · rw [if_neg hblank]
    rw [Bool.not_eq_true] at hblank
    cases hread : (loads py.toFloats numbered.1).bind (MemoryEnvelope.fromDict py now) with
    | none => simp [IntegrityReport.Quiet, hblank]
    | some m =>
      cases hresolve : m.resolveBlobs py now blobs with
      | none => simp [IntegrityReport.Quiet, hblank, hresolve]
      | some resolved =>
        by_cases hhash : resolved.computeContentHash py = resolved.contentHash <;>
          simp [IntegrityReport.Quiet, hblank, hresolve, hhash]

/-- The report is quiet exactly where every record passes. -/
theorem quiet_verifyIntegrity_iff (now : F) (s : TemporalStore F) :
    (verifyIntegrity py now s).Quiet ↔
      ∀ record ∈ readLog py.toFloats s.log, Passes py now s.blobs record := by
  have hlines : ∀ (lines : List Text) (n : Nat) (report : IntegrityReport),
      ((lines.zipIdx n).foldl (checkLine py now s.blobs) report).Quiet ↔ report.Quiet ∧
        ∀ line ∈ lines, isBlank line = false → Passes py now s.blobs (loads py.toFloats line) := by
    intro lines
    induction lines with
    | nil => simp
    | cons line lines ih =>
      intro n report
      rw [List.zipIdx_cons, List.foldl_cons, ih, quiet_checkLine_iff, List.forall_mem_cons, and_assoc]
  rw [verifyIntegrity, hlines, readLog, List.forall_mem_map]
  simp [IntegrityReport.Quiet]

end MemoryVault

/-! ## Which records pass -/

variable {py} {options : StoreOptions}

namespace ModalityRef

variable {item : ModalityRef F}

/-- The item comes back as it was, with its digest and its size. -/
def Sealed (py : Python F) (options : StoreOptions) (payload : Text → Option Text)
    (item : ModalityRef F) : Prop :=
  item.Restorable py options payload ∧ (item.isExternal py options = true →
    item.sha256 = some (item.usedSha py) ∧
      item.sizeBytes = some (byteLength (contentBytes py item.content) : Int))

theorem restored_eq_iff (content : Json F) : item.restored py content = item ↔
    (item.restored py content).SameView item ∧ item.sha256 = some (item.usedSha py) ∧
      item.sizeBytes = some (byteLength (contentBytes py item.content) : Int) := by
  constructor
  · intro heq
    have hsha := congrArg ModalityRef.sha256 heq
    have hsize := congrArg ModalityRef.sizeBytes heq
    exact ⟨⟨congrArg ModalityRef.content heq, congrArg ModalityRef.uri heq,
      congrArg ModalityRef.metadata heq⟩, hsha.symm, hsize.symm⟩
  · rintro ⟨⟨hcontent, huri, hmetadata⟩, hsha, hsize⟩
    change content = item.content at hcontent
    change none = item.uri at huri
    change erase blobFormatKey item.metadata = item.metadata at hmetadata
    rw [restored, reference, ← hsha, ← hsize, hcontent, huri, hmetadata]

/-- What is logged for a modality resolves to the modality itself exactly where it is
sealed. -/
theorem resolve_stored_eq_iff (h : item.Valid py) (blobs : Table Blob Blob.sha) :
    (item.stored py options).resolve py blobs = some item ↔
      item.Sealed py options fun sha => (blobs.find? sha).map Blob.data := by
  rw [Sealed, ← resolve_stored_iff h]
  by_cases hext : item.isExternal py options = true
  · have hresolve : ∀ r, (item.stored py options).resolve py blobs = some r →
        ∃ content, item.restored py content = r := by
      intro r hr
      rw [stored, if_pos hext, resolve_reference h] at hr
      obtain ⟨data, -, hmap⟩ := Option.bind_eq_some_iff.mp hr
      obtain ⟨content, -, heq⟩ := Option.map_eq_some_iff.mp hmap
      exact ⟨content, heq⟩
    constructor
    · intro hitem
      obtain ⟨content, heq⟩ := hresolve item hitem
      exact ⟨⟨item, hitem, rfl, rfl, rfl⟩, fun _ => ((restored_eq_iff content).mp heq).2⟩
    · rintro ⟨⟨r, hr, hview⟩, hsealed⟩
      obtain ⟨content, rfl⟩ := hresolve r hr
      rw [hr, (restored_eq_iff content).mpr ⟨hview, hsealed hext⟩]
  · rw [stored, if_neg hext]
    constructor
    · exact fun hitem => ⟨⟨item, hitem, rfl, rfl, rfl⟩, fun h => (hext h).elim⟩
    · rintro ⟨⟨r, hr, hview⟩, -⟩
      by_cases href : item.isReference = true
      · have huri := hview.uri.symm.trans (uri_of_resolve href hr)
        exact (uri_ne_of_isReference href huri).elim
      · exact resolve_of_not_isReference (by simpa using href) blobs

end ModalityRef

/-! ## The runs without an alarm -/

namespace MemoryEnvelope

variable {m : MemoryEnvelope F}

/-- The content hash covers the modalities. -/
theorem modalities_of_material {m' : MemoryEnvelope F} (h : m.Valid py) (h' : m'.Valid py)
    (heq : m.material = m'.material) : m.modalities = m'.modalities := by
  have hfield : ∀ (m : MemoryEnvelope F) key, field m.material key = shown key _ := fun m key =>
    field_dict (by simp) key
  have hmodalities := congrArg (fun j => field j "modalities") heq
  simp only [hfield, shown, String.reduceEq, if_true, if_false, Option.some.injEq, Json.arr.injEq]
    at hmodalities
  have hread := mapM_toDict h.modalities
  rw [hmodalities, mapM_toDict h'.modalities] at hread
  exact (Option.some.inj hread).symm

end MemoryEnvelope

namespace MemoryVault

/-- The texts that are hashed in a run and in the check after it: those of the envelopes and
those of their resolved records. -/
def hashedTexts (options : StoreOptions) (now : F) (calls : List (RememberCall py)) : List Text :=
  calls.flatMap fun c => stableJson py c.memory.material ::
    ((c.stored options).resolveBlobs py now (ofRun options calls).blobs).toList.map fun m =>
      stableJson py m.material

/-- A record passes exactly where its modalities are sealed. -/
theorem passes_record_iff {calls : List (RememberCall py)} {c : RememberCall py} {now : F}
    (hc : c ∈ calls) (hhash : c.memory.contentHash = c.memory.computeContentHash py)
    (hfree : HashesApart (hashedTexts options now calls)) :
    Passes py now (ofRun options calls).blobs (some (c.record options)) ↔
      ∀ item ∈ c.memory.modalities,
        item.Sealed py options (TemporalStore.firstPayload options calls) := by
  have hitems : (∃ items, (c.stored options).modalities.mapM
      (ModalityRef.resolve py (ofRun options calls).blobs) = some items ∧ items = c.memory.modalities) ↔
      ∀ item ∈ c.memory.modalities,
        item.Sealed py options (TemporalStore.firstPayload options calls) := by
    have hrelated := mapM_related_iff (f := ModalityRef.resolve py (ofRun options calls).blobs)
      (g := ModalityRef.stored py options) (R := Eq) c.memory.modalities
    simp only [List.forall₂_eq_eq_eq] at hrelated
    refine hrelated.trans (forall₂_congr fun item hitem => ?_)
    have hone := @ModalityRef.resolve_stored_eq_iff _ _ options _
      (c.valid.modalities item hitem) (ofRun options calls).blobs
    simp only [TemporalStore.find?_blobs_ofRun] at hone
    rw [← hone]
    constructor
    · rintro ⟨r, hr, rfl⟩
      exact hr
    · exact fun hr => ⟨item, hr, rfl⟩
  rw [← hitems, Passes, Option.bind_some, c.fromDict_record]
  have hresolve := @RememberCall.resolveBlobs_stored _ _ options c now (ofRun options calls).blobs
  constructor
  · rintro ⟨m, hm, resolved, hresolved, hequal⟩
    obtain rfl := Option.some.inj hm
    rw [hresolve] at hresolved
    obtain ⟨items, hmap, rfl⟩ := Option.map_eq_some_iff.mp hresolved
    refine ⟨items, hmap, ?_⟩
    have hvalid := @RememberCall.valid_with_modalities _ _ options c _ (c.valid_of_mapM_resolve hmap)
    have hsame : sha256Text (stableJson py ({ c.stored options with modalities := items }).material) =
        sha256Text (stableJson py c.memory.material) := hequal.trans hhash
    have htext := hfree _ ?_ _ ?_ hsame
    · exact MemoryEnvelope.modalities_of_material hvalid c.valid
        (dumps_injective (MemoryEnvelope.canonical_material hvalid)
          (MemoryEnvelope.canonical_material c.valid) htext)
    · refine List.mem_flatMap.mpr ⟨c, hc, List.mem_cons_of_mem _ ?_⟩
      rw [hresolve, hmap]
      exact List.mem_cons_self
    · exact List.mem_flatMap.mpr ⟨c, hc, List.mem_cons_self⟩
  · rintro ⟨items, hmap, rfl⟩
    refine ⟨_, rfl, _, hresolve.trans (congrArg _ hmap), ?_⟩
    exact hhash.symm

/-- After a run of `remember` calls with computed content hashes, `verify_integrity` raises
no alarm exactly where no call logs a line break that JSON does not escape and every modality
is sealed; no two of the hashed texts collide. -/
theorem verify_integrity_iff (py : Python F) (indexes : IndexedFields F → Bool) (now : F)
    (calls : List (RememberCall py))
    (hhash : ∀ c ∈ calls, c.memory.contentHash = c.memory.computeContentHash py)
    (hfree : HashesApart (hashedTexts .default now calls)) :
    ∃ s, rememberAll py .default indexes calls .empty = some s ∧
      ((verifyIntegrity py now s).Quiet ↔ ∀ c ∈ calls,
        c.memory.breaksLine py .default = false ∧ ∀ item ∈ c.memory.modalities,
          item.Sealed py .default (TemporalStore.firstPayload .default calls)) := by
  refine ⟨ofRun .default calls, rememberAll_eq calls _, ?_⟩
  rw [quiet_verifyIntegrity_iff]
  by_cases hbroken : ∀ c ∈ calls, c.memory.breaksLine py .default = false
  · rw [readLog_ofRun hbroken, List.forall_mem_map]
    refine forall₂_congr fun c hc => ?_
    rw [passes_record_iff hc (hhash c hc) hfree]
    simp [hbroken c hc]
  · push Not at hbroken
    obtain ⟨c, hc, hbreaks⟩ := hbroken
    constructor
    · intro hpasses
      obtain ⟨m, hm, -⟩ := hpasses none (none_mem_readLog_ofRun hc (by simpa using hbreaks))
      cases hm
    · exact fun h => (hbreaks (h c hc).1).elim

/-! The check after one memory. -/

theorem contentHash_sampleMemory (tags : List Text) (item : ModalityRef SampleNumber) :
    (sampleMemory tags item).contentHash = (sampleMemory tags item).computeContentHash samplePython := by
  have hsame : ∀ (m : MemoryEnvelope SampleNumber) (hash : Text),
      ({ m with contentHash := hash }).computeContentHash samplePython = m.computeContentHash samplePython :=
    fun _ _ => rfl
  rw [sampleMemory, hsame]

/-- A memory with a text and no tags. -/
def plainCall : RememberCall samplePython := sampleCall [] pairwise_noTags sampleText valid_sampleText

theorem sealed_sampleText : sampleText.Sealed samplePython .default
    (TemporalStore.firstPayload .default [plainCall]) := by
  have hinline : sampleText.isExternal samplePython .default = false := by decide +kernel
  rw [ModalityRef.Sealed, ModalityRef.Restorable, hinline]
  refine ⟨rfl, fun hexternal => ?_⟩
  cases hexternal

/-- Both times the same text is hashed. -/
theorem hashesApart_plainCall : HashesApart (hashedTexts .default .one [plainCall]) := by
  have hstored : (plainCall.stored .default).modalities = [sampleText.stored samplePython .default] := rfl
  have hitem : (sampleText.stored samplePython .default).resolve samplePython
      (ofRun .default [plainCall]).blobs = some sampleText := by
    rw [ModalityRef.resolve_stored_eq_iff valid_sampleText]
    simpa only [TemporalStore.find?_blobs_ofRun] using sealed_sampleText
  have hresolve := @RememberCall.resolveBlobs_stored _ _ .default plainCall .one (ofRun .default [plainCall]).blobs
  rw [hstored, List.mapM_cons, hitem] at hresolve
  have htexts : hashedTexts .default .one [plainCall] = [stableJson samplePython plainCall.memory.material,
      stableJson samplePython plainCall.memory.material] := by
    rw [hashedTexts, List.flatMap_singleton, hresolve]
    rfl
  intro text htext text' htext' _
  simp only [htexts, List.mem_cons, List.not_mem_nil, or_false, or_self] at htext htext'
  rw [htext, htext']

theorem quiet_plainCall : ∃ s,
    rememberAll samplePython .default (fun _ => true) [plainCall] .empty = some s ∧
      (verifyIntegrity samplePython .one s).Quiet := by
  have hhash : ∀ c ∈ [plainCall], c.memory.contentHash = c.memory.computeContentHash samplePython := by
    intro c hc
    obtain rfl := List.mem_singleton.mp hc
    exact contentHash_sampleMemory [] sampleText
  have hplain : plainCall.memory.breaksLine samplePython .default = false := by decide +kernel
  have hmodalities : plainCall.memory.modalities = [sampleText] := rfl
  obtain ⟨s, hs, hquiet⟩ := verify_integrity_iff samplePython (fun _ => true) .one [plainCall] hhash
    hashesApart_plainCall
  rw [List.forall_mem_singleton, hmodalities, List.forall_mem_singleton] at hquiet
  exact ⟨s, hs, hquiet.mpr ⟨hplain, sealed_sampleText⟩⟩

/-- A tag with a line separator is reported as invalid lines. -/
theorem alarm_of_separator : ∃ s,
    rememberAll samplePython .default (fun _ => true) [separatorCall] .empty = some s ∧
      separatorCall.memory.contentHash = separatorCall.memory.computeContentHash samplePython ∧
        ¬ (verifyIntegrity samplePython .one s).Quiet := by
  refine ⟨ofRun .default [separatorCall], rememberAll_eq _ _, contentHash_sampleMemory _ _, ?_⟩
  have hbroken : separatorCall.memory.breaksLine samplePython .default = true := by decide +kernel
  rw [quiet_verifyIntegrity_iff]
  intro hpasses
  obtain ⟨m, hm, -⟩ := hpasses none (none_mem_readLog_ofRun List.mem_cons_self hbroken)
  cases hm

end MemoryVault

end AgentMemory
