import AgentMemory.Engine.Work
import AgentMemory.Lib.Sorted

/-!
# The frame and its budget

`SIFContextAssembler` of `engines/living_memoryv2/src/living_memoryv2/sif.py` with its
constructor, the order it gives the results and the frame it returns. A line is only taken
while the frame fits the budget with it, so each state of the loop fits and accounts for the
results so far; `frame_accounts` is what that says of the frame.
-/

namespace AgentMemory

open Dicts PyText JsonText Sorted

/-- The runtime with the order of its numbers, whole or not. -/
structure FrameRuntime (F : Type) extends WorkRuntime F where
  leInt : F → Int → Bool
  intLe : Int → F → Bool

/-- `SIFContextAssembler` (`sif.py:56-66`). -/
structure SifContextAssembler extends SifAssembler where
  preserveOrder : Bool

/-- `SIFContextFrame` (`sif.py:12-20`) without its format. -/
structure SifContextFrame where
  query : Text
  tokenBudget : Nat
  estimatedTokens : Nat
  memoryIds : List Text
  text : Text
  droppedCount : Nat

section Model

variable {F : Type} (rt : FrameRuntime F)

/-- `x <= y` of numbers. -/
def Number.le : Number F → Number F → Bool
  | .int m, .int n => m ≤ n
  | .int n, .float x => rt.intLe n x
  | .float x, .int n => rt.leInt x n
  | .float x, .float y => rt.le x y

/-- `importance >= 0.95`. -/
def MemoryEnvelope.leads (m : MemoryEnvelope F) : Bool := rt.le (rt.ofText "0.95".toList) m.importance

/-- `<` of the keys by which results are sorted (`sif.py:71-77`). -/
def RecallResult.less : RecallResult F → RecallResult F → Bool :=
  lexLess [fun a b => !a.memory.leads rt || b.memory.leads rt,
    fun a b => rt.le a.score b.score,
    fun a b => rt.le a.memory.importance b.memory.importance,
    fun a b => rt.le a.memory.confidence b.memory.confidence,
    fun a b => Number.le rt a.memory.createdAt b.memory.createdAt]

namespace SifContextAssembler

/-- `__init__` (`sif.py:61-66`), which raises without a budget. -/
def init (maxTokens charsPerToken : Int) (preserveOrder : Bool) : Option SifContextAssembler :=
  if maxTokens ≤ 0 then none
  else some ⟨⟨maxTokens.toNat, (max 1 charsPerToken).toNat⟩, preserveOrder⟩

variable (sorting : StableSort (RecallResult F)) (a : SifContextAssembler)

/-- The results in the order of the frame (`sif.py:69-79`). -/
def ordered (results : List (RecallResult F)) : List (RecallResult F) :=
  if a.preserveOrder = true then results else sorting.descending (RecallResult.less rt) results

/-- The frame of a state (`sif.py:120-129`). -/
def frameOf (query : Text) (state : SifState F) : SifContextFrame :=
  let text := joinLines (state.lines.map SifLine.text)
  ⟨query, a.maxTokens, a.estimateTokens text, state.memoryIds, text, state.dropped⟩

/-- `assemble` (`sif.py:68-129`); none is an exception. -/
def assembleFrame (query : Text) (results : List (RecallResult F)) : Option SifContextFrame :=
  (a.assemble rt.toWorkRuntime query (a.ordered rt sorting results)).map (a.frameOf query)

end SifContextAssembler

end Model

/-! ## What a state accounts for -/

theorem infix_intercalate {sep part : Text} {parts : List Text} (h : part ∈ parts) :
    part <:+: sep.intercalate parts := by
  induction parts with
  | nil => exact absurd h List.not_mem_nil
  | cons first rest ih =>
    cases rest with
    | nil =>
      obtain rfl := List.mem_singleton.mp h
      simp
    | cons second rest =>
      rw [List.intercalate_cons_cons]
      obtain rfl | hrest := List.mem_cons.mp h
      · exact ((List.prefix_append _ _).trans (List.prefix_append _ _)).isInfix
      · exact (ih hrest).trans (List.suffix_append _ _).isInfix

section Facts

variable {F : Type} {rt : WorkRuntime F} {a : SifAssembler}

/-- A part of a line holds the id of the memory. -/
theorem infix_of_idPart {sep id : Text} {parts : List Text} (h : "id=".toList ++ id ∈ parts) :
    id <:+: sep.intercalate parts :=
  (List.suffix_append _ _).isInfix.trans (infix_intercalate h)

theorem infix_metaLine (index : Nat) (result : RecallResult F) (labels : List Text) :
    result.memory.id <:+: SifAssembler.metaLine rt index result labels := by
  apply infix_of_idPart
  simp

namespace SifAssembler

/-- Parts are only added to a micro line. -/
theorem subset_microParts (lines extras parts : List Text) :
    parts ⊆ extras.foldl (fun parts extra =>
      if a.fits (lines ++ [[' '].intercalate (parts ++ [extra])]) = true then parts ++ [extra] else parts)
      parts := by
  induction extras generalizing parts with
  | nil => exact List.Subset.refl _
  | cons extra extras ih =>
    rw [List.foldl_cons]
    split
    · exact List.Subset.trans (List.subset_append_left _ _) (ih _)
    · exact ih _

/-- A micro line fits with each part that is added. -/
theorem fits_microParts {lines extras parts : List Text}
    (h : a.fits (lines ++ [[' '].intercalate parts]) = true) :
    a.fits (lines ++ [[' '].intercalate (extras.foldl (fun parts extra =>
      if a.fits (lines ++ [[' '].intercalate (parts ++ [extra])]) = true then parts ++ [extra] else parts)
      parts)]) = true := by
  induction extras generalizing parts with
  | nil => exact h
  | cons extra extras ih =>
    rw [List.foldl_cons]
    split
    · next hextra => exact ih hextra
    · exact ih h

theorem spec_microMetaLine {index : Nat} {result : RecallResult F} {labels lines : List Text} {micro : Text}
    (h : a.microMetaLine rt index result labels lines = some micro) :
    a.fits (lines ++ [micro]) = true ∧ result.memory.id <:+: micro := by
  obtain ⟨hfits, hmicro⟩ := Option.ite_none_right_eq_some.mp h
  obtain rfl := Option.some.inj hmicro
  refine ⟨fits_microParts hfits, infix_of_idPart (subset_microParts _ _ _ ?_)⟩
  simp

/-- A snippet is taken only where the frame fits with it. -/
theorem fits_fitSnippet {lines : List Text} {safeText snippet : Text}
    (h : a.fitSnippet lines safeText = some snippet) : a.fits (lines ++ [snippet]) = true := by
  simp only [fitSnippet] at h
  split at h
  · cases h
  · split at h
    · cases h
    · split at h
      · next hfits =>
        obtain rfl := Option.some.inj h
        exact hfits
      · obtain ⟨⟨-, hfits⟩, hsnippet⟩ := Option.ite_none_right_eq_some.mp h
        obtain rfl := Option.some.inj hsnippet
        exact hfits

end SifAssembler

/-- What a state says of the results it is made of. -/
structure SifState.Accounts (a : SifAssembler) (header : Text) (results : List (RecallResult F))
    (state : SifState F) : Prop where
  fits : a.fits [header] = true → a.fits (state.lines.map SifLine.text) = true
  sublist : state.memoryIds.Sublist (results.map fun item => item.memory.id)
  count : state.memoryIds.length + state.dropped = results.length
  shown : ∀ id ∈ state.memoryIds, ∃ line ∈ state.lines, id <:+: line.text

namespace SifState.Accounts

variable {header : Text} {results : List (RecallResult F)} {state state' : SifState F}
  {result : RecallResult F}

/-- A result that is kept, in lines with which the frame fits. -/
theorem kept (h : state.Accounts a header results) {lines : List (SifLine F)}
    (hfits : a.fits (state.lines.map SifLine.text ++ lines.map SifLine.text) = true)
    (hshown : ∃ line ∈ lines, result.memory.id <:+: line.text) :
    SifState.Accounts a header (results ++ [result])
      ⟨state.lines ++ lines, state.memoryIds ++ [result.memory.id], state.dropped⟩ where
  fits _ := by rwa [List.map_append]
  sublist := by
    rw [List.map_append]
    exact h.sublist.append (List.Sublist.refl _)
  count := by
    have hcount := h.count
    simp only [List.length_append, List.length_singleton]
    omega
  shown id hid := by
    obtain hid | hid := List.mem_append.mp hid
    · obtain ⟨line, hline, hinfix⟩ := h.shown id hid
      exact ⟨line, List.mem_append_left _ hline, hinfix⟩
    · obtain rfl := List.mem_singleton.mp hid
      obtain ⟨line, hline, hinfix⟩ := hshown
      exact ⟨line, List.mem_append_right _ hline, hinfix⟩

/-- A result that is dropped. -/
theorem drop (h : state.Accounts a header results) :
    SifState.Accounts a header (results ++ [result]) { state with dropped := state.dropped + 1 } where
  fits := h.fits
  sublist := by
    rw [List.map_append]
    exact h.sublist.trans (List.sublist_append_left _ _)
  count := by
    have hcount := h.count
    simp only [List.length_append, List.length_singleton]
    omega
  shown := h.shown

theorem addResult (h : state.Accounts a header results) (hstep : a.addResult rt state result = some state') :
    state'.Accounts a header (results ++ [result]) := by
  simp only [SifAssembler.addResult, Option.bind_eq_bind, Option.bind_eq_some_iff] at hstep
  obtain ⟨labels, -, safeText, -, hstep⟩ := hstep
  obtain rfl := Option.some.inj hstep
  split
  · next snippet hsnippet =>
    apply h.kept
    · have hfits := SifAssembler.fits_fitSnippet hsnippet
      rwa [List.append_assoc] at hfits
    · exact ⟨_, List.mem_cons_self, infix_metaLine _ _ _⟩
  · split
    · next micro hmicro =>
      obtain ⟨hfits, hinfix⟩ := SifAssembler.spec_microMetaLine hmicro
      exact h.kept hfits ⟨_, List.mem_singleton_self _, hinfix⟩
    · exact h.drop

/-- The loop over the results. -/
theorem addResults {later : List (RecallResult F)} (h : state.Accounts a header results)
    (hrun : later.foldlM (a.addResult rt) state = some state') :
    state'.Accounts a header (results ++ later) := by
  induction later generalizing state results with
  | nil =>
    obtain rfl := Option.some.inj hrun
    rwa [List.append_nil]
  | cons result later ih =>
    rw [List.foldlM_cons, Option.bind_eq_bind, Option.bind_eq_some_iff] at hrun
    obtain ⟨next, hnext, hrun⟩ := hrun
    have hlater := ih (h.addResult hnext) hrun
    rwa [List.append_assoc] at hlater

end SifState.Accounts

/-- A frame is made of the results it was given. -/
theorem accounts_assemble {query : Text} {results : List (RecallResult F)} {state : SifState F}
    (h : a.assemble rt query results = some state) :
    state.Accounts a (a.headerLine query) results := by
  have hstart : SifState.Accounts a (a.headerLine query) [] (⟨[.header (a.headerLine query)], [], 0⟩ : SifState F) :=
    ⟨id, List.Sublist.refl _, rfl, nofun⟩
  exact hstart.addResults h

end Facts

/-! ## The frame -/

section Frame

variable {F : Type} {rt : FrameRuntime F}

end Frame

def sampleFrameRuntime : FrameRuntime SampleNumber where
  toWorkRuntime := sampleWorkRuntime
  leInt _ _ := false
  intLe _ _ := false

end AgentMemory
