import AgentMemory.Engine.Frames
import AgentMemory.Lib.JsonRead
import AgentMemory.Lib.JsonSize
import AgentMemory.Lib.Loops

/-!
# The second frame and its budget

`SIFContextAssemblerV2` of `engines/living_memoryv2/src/living_memoryv2/sif.py`. Its sections
are a JSON object. Items are dropped from its lists, in an order of lists, until the text of
the sections fits the budget or the lists are empty. The estimate of that text is then written
into the sections, so the text that is returned is a longer one; `fitted_iff` says when the
estimate is nevertheless the same.
-/

namespace AgentMemory

open Dicts PyText JsonText Fallible

/-- A dictionary of JSON values. -/
abbrev PyDict (F : Type) := {d : List (Text × Json F) // Canonical (.obj d)}

/-- The runtime where `dict` of pairs is in key order like its values. -/
structure SectionRuntime (F : Type) extends FacadeRuntime F where
  canonical_dictOfItems : ∀ items d, (∀ j ∈ items, Canonical j) → dictOfItems items = some d →
    Canonical (.obj d)

/-- `SIFContextAssemblerV2` (`sif.py:226-235`). -/
structure SifContextAssemblerV2 extends SifAssembler where
  maxTokens_pos : 0 < maxTokens
  charsPerToken_pos : 0 < charsPerToken

/-- The arguments of `assemble` (`sif.py:237-248`); one that is missing is empty. -/
structure SectionArgs (F : Type) where
  query : Text
  results : List (RecallResult F)
  evidence : List (PyDict F)
  answerability : PyDict F
  graphHints : List (PyDict F)
  subgraphs : List (PyDict F)
  knowledge : PyDict F
  taskState : PyDict F

/-- `SIFContextFrameV2` (`sif.py:35-42`) without its format. -/
structure SifContextFrameV2 (F : Type) where
  query : Text
  tokenBudget : Nat
  estimatedTokens : Nat
  memoryIds : List Text
  sections : List (Text × Json F)
  droppedCount : Nat

/-- A section, or a list of a section that is a dictionary. -/
abbrev SectionPath := String × Option String

/-- `shrink_order` (`sif.py:360-368`). -/
def shrinkOrder : List SectionPath :=
  [("knowledge", some "assertions"),
    ("knowledge", some "entities"),
    ("graph", some "hints"),
    ("graph", some "subgraphs"),
    ("evidence", none),
    ("current_facts", none),
    ("decisions", none)]

section Model

variable {F : Type} (rt : SectionRuntime F)

/-! ## The sections -/

/-- `d.get(key)` as a value. -/
def getValue (d : List (Text × Json F)) (key : String) : Json F := (valueAt key.toList d).getD .null

/-- `value == text`. -/
def isText (value : Json F) (text : String) : Bool :=
  match value with
  | .str s => s = text.toList
  | _ => false

/-- What `get` gives of these keys, as a dictionary. -/
def copyOf (d : List (Text × Json F)) (keys : List String) : List (String × Json F) :=
  keys.map fun key => (key, getValue d key)

/-- `value or []`. -/
def orList (value : Option (Json F)) : Json F := orValue rt.toFacadeRuntime value (.arr [])

/-- The body of the loop of `_current_facts` (`sif.py:294-308`). -/
def currentFact : Json F → Option (Option (Json F))
  | .obj d =>
    some (if isText (getValue d "status") "active" = true then
      some (dict (copyOf d ["assertion_id", "fact_id", "subject", "predicate", "object",
        "source_memory_id", "confidence", "valid_from", "valid_to"]))
    else none)
  | _ => none

/-- `_current_facts` (`sif.py:291-309`). -/
def currentFacts (knowledge : PyDict F) : Option (List (Json F)) := do
  let assertions ← listOr rt.toFacadeRuntime (valueAt "assertions".toList knowledge.1)
  (assertions.mapM currentFact).map fun facts => facts.filterMap id

/-- The body of the loop of `_decisions` (`sif.py:313-324`). -/
def decisionOf (item : PyDict F) : Option (Option (Json F)) :=
  (listOr rt.toFacadeRuntime (valueAt "tags".toList item.1)).map fun tags =>
    if isText (getValue item.1 "memory_type") "decision" = true ∨
        "decision".toList ∈ tags.map fun tag => rt.lower (strOf rt.toGraphRuntime tag) then
      some (dict (copyOf item.1 ["memory_id", "hint", "confidence", "source"]))
    else none

/-- `_decisions` (`sif.py:311-325`). -/
def decisionItems (evidence : List (PyDict F)) : Option (List (Json F)) :=
  (evidence.mapM (decisionOf rt)).map fun decisions => decisions.filterMap id

/-- `_evidence` (`sif.py:327-339`). -/
def evidenceItem (item : PyDict F) : Json F :=
  dict (copyOf item.1 ["memory_id", "memory_type", "score", "confidence"] ++
    [("validated_by", orList rt (valueAt "validated_by".toList item.1)),
      ("why_retrieved", orList rt (valueAt "why_retrieved".toList item.1)),
      ("hint", getValue item.1 "hint")])

/-- The body of the loop of `_governance` (`sif.py:343-354`). -/
def governedItem (item : PyDict F) : Option (Option (Json F)) :=
  (dictOr rt.toFacadeRuntime (valueAt "governance".toList item.1) []).map fun governance =>
    if isText ((valueAt "prompt_policy".toList governance).getD (.str "inline".toList)) "inline" = true then
      none
    else
      some (dict [("memory_id", getValue item.1 "memory_id"),
        ("prompt_policy", getValue governance "prompt_policy"),
        ("risk", getValue governance "risk"),
        ("labels", orList rt (valueAt "labels".toList governance))])

/-- `_governance` (`sif.py:341-355`). -/
def governedItems (evidence : List (PyDict F)) : Option (List (Json F)) :=
  (evidence.mapM (governedItem rt)).map fun governed => governed.filterMap id

/-- `list(dict.fromkeys([item.memory.id for item in results]))`. -/
def SectionArgs.memoryIds (args : SectionArgs F) : List Text :=
  (args.results.map fun item => item.memory.id).eraseDups

/-- A list of dictionaries as a value. -/
def dictItems (items : List (PyDict F)) : Json F := .arr (items.map fun item => .obj item.1)

/-- The value of `token_roi` before the fitting (`sif.py:269-272`). -/
def tokenRoi (maxTokens : Nat) : List (String × Json F) :=
  [("budget", .int maxTokens),
    ("policy", .str "structured evidence only; inspect full memories by id".toList)]

/-- `sections` (`sif.py:249-273`). -/
def sectionsOf (maxTokens : Nat) (args : SectionArgs F) : Option (List (String × Json F)) := do
  let facts ← currentFacts rt args.knowledge
  let decisions ← decisionItems rt args.evidence
  let governed ← governedItems rt args.evidence
  let reasons ← listOr rt.toFacadeRuntime (valueAt "reasons".toList args.answerability.1)
  some [("answerability", .obj args.answerability.1),
    ("current_facts", .arr facts),
    ("decisions", .arr decisions),
    ("task_state", .obj args.taskState.1),
    ("evidence", .arr (args.evidence.map (evidenceItem rt))),
    ("knowledge", .obj args.knowledge.1),
    ("graph", dict [("hints", dictItems args.graphHints), ("subgraphs", dictItems args.subgraphs)]),
    ("governance", .arr governed),
    ("inspectable_ids", .arr (args.memoryIds.eraseDups.map .str)),
    ("abstention", dict [
      ("status", .str (if args.memoryIds = [] then "abstained_no_relevant_memory".toList
        else "not_abstained".toList)),
      ("reasons", .arr reasons)]),
    ("token_roi", dict (tokenRoi maxTokens))]

/-! ## The fitting -/

/-- The list at a path; none counts as empty. -/
def listAt (path : SectionPath) (d : List (Text × Json F)) : List (Json F) :=
  match valueAt path.1.toList d, path.2 with
  | some (.obj target), some nested =>
    match valueAt nested.toList target with
    | some (.arr values) => values
    | _ => []
  | some (.arr values), _ => values
  | _, _ => []

/-- `values.pop()` or `target.pop()`, where there is a list that is not empty
(`sif.py:372-384`). -/
def popAt (d : List (Text × Json F)) (path : SectionPath) : Option (List (Text × Json F)) :=
  match valueAt path.1.toList d, path.2 with
  | some (.obj target), some nested =>
    match valueAt nested.toList target with
    | some (.arr (value :: values)) =>
      some (Dicts.insert path.1.toList
        (.obj (Dicts.insert nested.toList (.arr (value :: values).dropLast) target)) d)
    | _ => none
  | some (.arr (value :: values)), _ =>
    some (Dicts.insert path.1.toList (.arr (value :: values).dropLast) d)
  | _, _ => none

/-- One item fewer, of the first list in the order that has one. -/
def popItem (d : List (Text × Json F)) : Option (List (Text × Json F)) := shrinkOrder.findSome? (popAt d)

/-- How many items the lists have. -/
def itemCount (d : List (Text × Json F)) : Nat := (shrinkOrder.map fun path => (listAt path d).length).sum

namespace SifContextAssemblerV2

/-- `__init__` (`sif.py:231-235`), which raises without a budget. -/
def init (maxTokens charsPerToken : Int) : Option SifContextAssemblerV2 :=
  if h : maxTokens ≤ 0 then none
  else some ⟨⟨maxTokens.toNat, (max 1 charsPerToken).toNat⟩, by
    show 0 < maxTokens.toNat
    omega, by
    show 0 < (max 1 charsPerToken).toNat
    omega⟩

variable (a : SifContextAssemblerV2)

/-- `estimate_tokens(_encode(sections))` (`sif.py:286-289`). -/
def estimate (fl : Floats F) (d : List (Text × Json F)) : Nat := a.estimateTokens (dumps fl (.obj d))

/-- `estimate_tokens(_encode(sections)) <= max_tokens`. -/
def fitsSections (fl : Floats F) (d : List (Text × Json F)) : Bool := a.estimate fl d ≤ a.maxTokens

/-- A round of the loop (`sif.py:369-386`). -/
def shrink (fl : Floats F) : List (Text × Json F) → Option (List (Text × Json F)) :=
  guarded (a.fitsSections fl) popItem

/-- `fitted["token_roi"]["estimated_tokens"] = self.estimate_tokens(self._encode(fitted))`. -/
def report (fl : Floats F) (d : List (Text × Json F)) : Option (List (Text × Json F)) :=
  match valueAt "token_roi".toList d with
  | some (.obj roi) =>
    some (Dicts.insert "token_roi".toList
      (.obj (Dicts.insert "estimated_tokens".toList (.int (a.estimate fl d)) roi)) d)
  | _ => none

/-- `_fit_sections` (`sif.py:357-388`). -/
def fitSections (fl : Floats F) (sections : Json F) : Option (List (Text × Json F) × Nat) :=
  match loads fl (dumps fl sections) with
  | some (.obj fitted) => do
    let (fitted, dropped) ← runLoop (a.shrink fl) (itemCount fitted + 1) fitted
    let fitted ← a.report fl fitted
    some (fitted, dropped)
  | _ => none

/-- `assemble` (`sif.py:237-284`); none is an exception. -/
def assemble (args : SectionArgs F) : Option (SifContextFrameV2 F) := do
  let sections ← sectionsOf rt a.maxTokens args
  let (fitted, dropped) ← a.fitSections rt.toFloats (dict sections)
  some ⟨args.query, a.maxTokens, a.estimate rt.toFloats fitted, args.memoryIds, fitted, dropped⟩

end SifContextAssemblerV2

end Model

/-! ## What the sections hold -/

section Values

variable {F : Type} {rt : SectionRuntime F}

theorem canonical_of_valueAt {d : List (Text × Json F)} {k : Text} {j : Json F} (h : Canonical (.obj d))
    (hj : valueAt k d = some j) : Canonical j :=
  canonicalFields_iff.mp h.2 (k, j) ((perm_of_valueAt h.1 hj).mem_iff.mpr List.mem_cons_self)

theorem canonical_getValue {d : List (Text × Json F)} (h : Canonical (.obj d)) (key : String) :
    Canonical (getValue d key) := by
  unfold getValue
  cases hj : valueAt key.toList d with
  | none => trivial
  | some j => exact canonical_of_valueAt h hj

theorem canonical_copyOf {d : List (Text × Json F)} (h : Canonical (.obj d)) (keys : List String) :
    ∀ kv ∈ copyOf d keys, Canonical kv.2 := by
  intro kv hkv
  obtain ⟨key, -, rfl⟩ := List.mem_map.mp hkv
  exact canonical_getValue h key

theorem canonical_orValue {d : List (Text × Json F)} (h : Canonical (.obj d)) (k : Text) {default : Json F}
    (hdefault : Canonical default) : Canonical (orValue rt.toFacadeRuntime (valueAt k d) default) := by
  unfold orValue
  split
  · next j hj =>
    split
    · exact canonical_of_valueAt h hj
    · exact hdefault
  · exact hdefault

theorem canonical_orList {d : List (Text × Json F)} (h : Canonical (.obj d)) (k : Text) :
    Canonical (orList rt (valueAt k d)) :=
  canonical_orValue h k trivial

theorem canonical_listOr {d : List (Text × Json F)} (h : Canonical (.obj d)) {k : Text} {items : List (Json F)}
    (hitems : listOr rt.toFacadeRuntime (valueAt k d) = some items) : ∀ j ∈ items, Canonical j := by
  have hvalue : Canonical (orList rt (valueAt k d)) := canonical_orList h k
  change listOf (orList rt (valueAt k d)) = some items at hitems
  cases hj : orList rt (valueAt k d) with
  | arr values =>
    rw [hj] at hitems hvalue
    obtain rfl := Option.some.inj hitems
    exact canonicalItems_iff.mp hvalue
  | obj fields =>
    rw [hj] at hitems
    obtain rfl := Option.some.inj hitems
    intro j hmem
    obtain ⟨kv, -, rfl⟩ := List.mem_map.mp hmem
    trivial
  | str text =>
    rw [hj] at hitems
    obtain rfl := Option.some.inj hitems
    intro j hmem
    obtain ⟨c, -, rfl⟩ := List.mem_map.mp hmem
    trivial
  | _ =>
    rw [hj] at hitems
    cases hitems

theorem canonical_dictOr {d governance : List (Text × Json F)} (h : Canonical (.obj d)) {k : Text}
    (hdict : dictOr rt.toFacadeRuntime (valueAt k d) [] = some governance) : Canonical (.obj governance) := by
  have hvalue : Canonical (orValue rt.toFacadeRuntime (valueAt k d) (.obj [])) :=
    canonical_orValue h k ⟨List.Pairwise.nil, trivial⟩
  unfold dictOr at hdict
  cases hj : orValue rt.toFacadeRuntime (valueAt k d) (.obj []) with
  | obj fields =>
    rw [hj] at hdict hvalue
    obtain rfl := Option.some.inj hdict
    exact hvalue
  | arr items =>
    rw [hj] at hdict hvalue
    exact rt.canonical_dictOfItems items _ (canonicalItems_iff.mp hvalue) hdict
  | str text =>
    rw [hj] at hdict
    refine rt.canonical_dictOfItems _ _ (fun j hmem => ?_) hdict
    obtain ⟨c, -, rfl⟩ := List.mem_map.mp hmem
    trivial
  | _ =>
    rw [hj] at hdict
    cases hdict

theorem canonical_currentFacts {knowledge : PyDict F} {facts : List (Json F)}
    (h : currentFacts rt knowledge = some facts) : ∀ j ∈ facts, Canonical j := by
  obtain ⟨assertions, hassertions, hfacts⟩ := Option.bind_eq_some_iff.mp h
  refine forall_mem_of_mapM_filterMap hfacts fun assertion hmem fact hfact => ?_
  have hassertion := canonical_listOr knowledge.2 hassertions assertion hmem
  cases assertion with
  | obj d =>
    obtain ⟨-, heq⟩ := Option.ite_none_right_eq_some.mp (Option.some.inj hfact)
    obtain rfl := Option.some.inj heq
    exact canonical_dict (canonical_copyOf hassertion _)
  | _ => cases hfact

theorem canonical_decisionItems {evidence : List (PyDict F)} {decisions : List (Json F)}
    (h : decisionItems rt evidence = some decisions) : ∀ j ∈ decisions, Canonical j := by
  refine forall_mem_of_mapM_filterMap h fun item _ decision hdecision => ?_
  obtain ⟨tags, -, heq⟩ := Option.map_eq_some_iff.mp hdecision
  obtain ⟨-, heq⟩ := Option.ite_none_right_eq_some.mp heq
  obtain rfl := Option.some.inj heq
  exact canonical_dict (canonical_copyOf item.2 _)

theorem canonical_evidenceItem (item : PyDict F) : Canonical (evidenceItem rt item) := by
  refine canonical_dict fun kv hkv => ?_
  obtain hkv | hkv := List.mem_append.mp hkv
  · exact canonical_copyOf item.2 _ kv hkv
  · simp only [List.mem_cons, List.not_mem_nil, or_false] at hkv
    obtain rfl | rfl | rfl := hkv
    · exact canonical_orList item.2 _
    · exact canonical_orList item.2 _
    · exact canonical_getValue item.2 _

theorem canonical_governedItems {evidence : List (PyDict F)} {governed : List (Json F)}
    (h : governedItems rt evidence = some governed) : ∀ j ∈ governed, Canonical j := by
  refine forall_mem_of_mapM_filterMap h fun item _ entry hentry => ?_
  obtain ⟨governance, hgovernance, heq⟩ := Option.map_eq_some_iff.mp hentry
  obtain ⟨-, heq⟩ := Option.ite_none_left_eq_some.mp heq
  obtain rfl := Option.some.inj heq
  have hgoverned : Canonical (.obj governance) := canonical_dictOr item.2 hgovernance
  refine canonical_dict fun kv hkv => ?_
  simp only [List.mem_cons, List.not_mem_nil, or_false] at hkv
  obtain rfl | rfl | rfl | rfl := hkv
  · exact canonical_getValue item.2 _
  · exact canonical_getValue hgoverned _
  · exact canonical_getValue hgoverned _
  · exact canonical_orList hgoverned _

theorem canonical_dictItems (items : List (PyDict F)) : Canonical (dictItems items) := by
  refine canonicalItems_iff.mpr fun j hj => ?_
  obtain ⟨item, -, rfl⟩ := List.mem_map.mp hj
  exact item.2

theorem canonical_tokenRoi (maxTokens : Nat) : Canonical (dict (tokenRoi maxTokens) : Json F) := by
  refine canonical_dict fun kv hkv => ?_
  simp only [tokenRoi, List.mem_cons, List.not_mem_nil, or_false] at hkv
  obtain rfl | rfl := hkv <;> trivial

theorem canonical_sectionsOf {maxTokens : Nat} {args : SectionArgs F} {sections : List (String × Json F)}
    (h : sectionsOf rt maxTokens args = some sections) : Canonical (dict sections) := by
  simp only [sectionsOf, Option.bind_eq_bind, Option.bind_eq_some_iff] at h
  obtain ⟨facts, hfacts, decisions, hdecisions, governed, hgoverned, reasons, hreasons, heq⟩ := h
  obtain rfl := Option.some.inj heq
  refine canonical_dict fun kv hkv => ?_
  simp only [List.mem_cons, List.not_mem_nil, or_false] at hkv
  obtain rfl | rfl | rfl | rfl | rfl | rfl | rfl | rfl | rfl | rfl | rfl := hkv
  · exact args.answerability.2
  · exact canonicalItems_iff.mpr (canonical_currentFacts hfacts)
  · exact canonicalItems_iff.mpr (canonical_decisionItems hdecisions)
  · exact args.taskState.2
  · refine canonicalItems_iff.mpr fun j hj => ?_
    obtain ⟨item, -, rfl⟩ := List.mem_map.mp hj
    exact canonical_evidenceItem item
  · exact args.knowledge.2
  · refine canonical_dict fun kv hkv => ?_
    simp only [List.mem_cons, List.not_mem_nil, or_false] at hkv
    obtain rfl | rfl := hkv <;> exact canonical_dictItems _
  · exact canonicalItems_iff.mpr (canonical_governedItems hgoverned)
  · refine canonicalItems_iff.mpr fun j hj => ?_
    obtain ⟨id, -, rfl⟩ := List.mem_map.mp hj
    trivial
  · refine canonical_dict fun kv hkv => ?_
    simp only [List.mem_cons, List.not_mem_nil, or_false] at hkv
    obtain rfl | rfl := hkv
    · trivial
    · exact canonicalItems_iff.mpr (canonical_listOr args.answerability.2 hreasons)
  · exact canonical_tokenRoi maxTokens

end Values

/-! ## Dropping an item -/

section Dropping

variable {F : Type} {d d' : List (Text × Json F)} {path other : SectionPath}

/-- The sections have the dictionaries that the order reaches into, and a `token_roi`
without an estimate. -/
structure Shaped (maxTokens : Nat) (d : List (Text × Json F)) : Prop where
  ordered : Ordered d
  nested : ∀ path ∈ shrinkOrder, path.2 ≠ none → ∃ target, valueAt path.1.toList d = some (.obj target)
  roi : valueAt "token_roi".toList d = some (dict (tokenRoi maxTokens))

/-- What a pop writes. -/
theorem popAt_eq_some (h : popAt d path = some d') :
    (∃ target nested value values, valueAt path.1.toList d = some (.obj target) ∧ path.2 = some nested ∧
        valueAt nested.toList target = some (.arr (value :: values)) ∧
        d' = Dicts.insert path.1.toList
          (.obj (Dicts.insert nested.toList (.arr (value :: values).dropLast) target)) d) ∨
      ∃ value values, valueAt path.1.toList d = some (.arr (value :: values)) ∧
        d' = Dicts.insert path.1.toList (.arr (value :: values).dropLast) d := by
  unfold popAt at h
  split at h
  · next target nested htarget hnested =>
    split at h
    · next value values hvalues =>
      exact .inl ⟨target, nested, value, values, htarget, hnested, hvalues, (Option.some.inj h).symm⟩
    · cases h
  · next value values hvalues => exact .inr ⟨value, values, hvalues, (Option.some.inj h).symm⟩
  · cases h

/-- Where nothing is popped there is nothing. -/
theorem listAt_of_popAt_eq_none (h : popAt d path = none) : listAt path d = [] := by
  by_contra hne
  unfold listAt at hne
  split at hne
  · next htarget hnested =>
    split at hne
    · next values hvalues =>
      cases values with
      | nil => exact hne rfl
      | cons value values => simp [popAt, htarget, hnested, hvalues] at h
    · exact hne rfl
  · next values hvalues =>
    cases values with
    | nil => exact hne rfl
    | cons value values => simp [popAt, hvalues] at h
  · exact hne rfl

/-- The last item of the list is dropped. -/
theorem listAt_popAt (h : popAt d path = some d') : (listAt path d).length = (listAt path d').length + 1 := by
  obtain ⟨target, nested, value, values, htarget, hnested, hvalues, rfl⟩ | ⟨value, values, hvalues, rfl⟩ :=
    popAt_eq_some h
  · simp [listAt, htarget, hnested, hvalues]
  · simp [listAt, hvalues]

/-- Two lists of the order are in one section only if both are nested. -/
theorem apart_of_mem_shrinkOrder : ∀ path ∈ shrinkOrder, ∀ other ∈ shrinkOrder, other ≠ path →
    other.1 = path.1 → path.2 ≠ none ∧ other.2 ≠ none ∧ other.2 ≠ path.2 := by
  decide

/-- The other lists stay. -/
theorem listAt_popAt_of_ne {maxTokens : Nat} (hd : Shaped maxTokens d) (hpath : path ∈ shrinkOrder)
    (hother : other ∈ shrinkOrder) (hne : other ≠ path) (h : popAt d path = some d') :
    listAt other d' = listAt other d := by
  by_cases heq : other.1 = path.1
  · obtain ⟨hsome, hkey, hapart⟩ := apart_of_mem_shrinkOrder path hpath other hother hne heq
    obtain ⟨target, htarget⟩ := hd.nested path hpath hsome
    obtain ⟨key, hkey⟩ := Option.ne_none_iff_exists'.mp hkey
    obtain ⟨target', nested', value, values, htarget', hnested', hvalues, rfl⟩ | ⟨value, values, hvalues, rfl⟩ :=
      popAt_eq_some h
    · rw [hkey, hnested', ne_eq, Option.some.injEq] at hapart
      simp [listAt, heq, hkey, htarget', String.toList_inj, hapart]
    · rw [htarget] at hvalues
      cases hvalues
  · obtain ⟨target, nested, value, values, -, -, -, rfl⟩ | ⟨value, values, -, rfl⟩ := popAt_eq_some h
    · simp [listAt, String.toList_inj, heq]
    · simp [listAt, String.toList_inj, heq]

/-- A sum of which one summand falls by one. -/
theorem sum_map_eq_add_one {α : Type} [DecidableEq α] {l : List α} {f g : α → Nat} {x : α} (hl : l.Nodup)
    (hx : x ∈ l) (hfx : f x = g x + 1) (hfg : ∀ y ∈ l, y ≠ x → g y = f y) :
    (l.map f).sum = (l.map g).sum + 1 := by
  have hperm := List.perm_cons_erase hx
  have hrest : (l.erase x).map g = (l.erase x).map f :=
    List.map_congr_left fun y hy => hfg y (List.mem_of_mem_erase hy) ((hl.mem_erase_iff.mp hy).1)
  rw [(hperm.map f).sum_eq, (hperm.map g).sum_eq, List.map_cons, List.map_cons, List.sum_cons, List.sum_cons,
    hrest, hfx]
  omega

/-- The section of a path that is popped is one of the order, and not `token_roi`. -/
theorem section_ne_tokenRoi (h : path ∈ shrinkOrder) : path.1.toList ≠ "token_roi".toList := by
  rw [ne_eq, String.toList_inj]
  revert path
  decide

namespace Shaped

variable {maxTokens : Nat}

theorem popAt (h : Shaped maxTokens d) (hpath : path ∈ shrinkOrder) (hpop : AgentMemory.popAt d path = some d') :
    Shaped maxTokens d' := by
  obtain ⟨target, nested, value, values, -, hnested, -, rfl⟩ | ⟨value, values, hvalues, rfl⟩ := popAt_eq_some hpop
  · refine ⟨ordered_insert _ _ h.ordered, fun other hother hsome => ?_, ?_⟩
    · rw [valueAt_insert]
      split
      · exact ⟨_, rfl⟩
      · exact h.nested other hother hsome
    · rw [valueAt_insert, if_neg (section_ne_tokenRoi hpath).symm]
      exact h.roi
  · refine ⟨ordered_insert _ _ h.ordered, fun other hother hsome => ?_, ?_⟩
    · have hne : other.1.toList ≠ path.1.toList := by
        intro heq
        obtain ⟨target, htarget⟩ := h.nested other hother hsome
        rw [heq, hvalues] at htarget
        cases htarget
      rw [valueAt_insert, if_neg hne]
      exact h.nested other hother hsome
    · rw [valueAt_insert, if_neg (section_ne_tokenRoi hpath).symm]
      exact h.roi

/-- A pop takes one item. -/
theorem itemCount_popItem (h : Shaped maxTokens d) (hpop : popItem d = some d') :
    Shaped maxTokens d' ∧ itemCount d = itemCount d' + 1 := by
  obtain ⟨path, hpath, hpop⟩ := List.exists_of_findSome?_eq_some hpop
  refine ⟨h.popAt hpath hpop, ?_⟩
  exact sum_map_eq_add_one (by decide) hpath (listAt_popAt hpop)
    fun other hother hne => congrArg List.length (listAt_popAt_of_ne h hpath hother hne hpop)

end Shaped

/-- Where no item is left to drop the lists are empty. -/
theorem popItem_eq_none : popItem d = none ↔ itemCount d = 0 := by
  unfold popItem itemCount
  rw [List.findSome?_eq_none_iff, List.sum_eq_zero_iff]
  refine ⟨fun h n hn => ?_, fun h path hpath => ?_⟩
  · obtain ⟨path, hpath, rfl⟩ := List.mem_map.mp hn
    rw [listAt_of_popAt_eq_none (h path hpath), List.length_nil]
  · cases hpop : popAt d path with
    | none => rfl
    | some d' =>
      have hzero := h _ (List.mem_map_of_mem hpath)
      have hlength := listAt_popAt hpop
      omega

end Dropping

/-! ## The frame -/

section Frames

variable {F : Type} {rt : SectionRuntime F} {fl : Floats F} {a : SifContextAssemblerV2}
  {d d' t : List (Text × Json F)}

theorem nested_of_mem_shrinkOrder : ∀ path ∈ shrinkOrder, path.2 ≠ none →
    path.1 = "knowledge" ∨ path.1 = "graph" := by
  decide

/-- The sections as the fitting reads them. -/
theorem shaped_sectionsOf {maxTokens : Nat} {args : SectionArgs F} {sections : List (String × Json F)}
    (h : sectionsOf rt maxTokens args = some sections) (hd : dict sections = .obj d) :
    Shaped maxTokens d := by
  have hcanonical := canonical_sectionsOf h
  simp only [sectionsOf, Option.bind_eq_bind, Option.bind_eq_some_iff] at h
  obtain ⟨facts, -, decisions, -, governed, -, reasons, -, heq⟩ := h
  have hkeys : sections.map Prod.fst = ["answerability", "current_facts", "decisions", "task_state", "evidence",
      "knowledge", "graph", "governance", "inspectable_ids", "abstention", "token_roi"] := by
    rw [← Option.some.inj heq]
    rfl
  have hvalue : ∀ key : String, valueAt key.toList d = shown key sections := by
    intro key
    rw [← field_dict (by rw [hkeys]; decide), hd]
    rfl
  obtain rfl := Option.some.inj heq
  rw [hd] at hcanonical
  refine ⟨hcanonical.1, fun path hpath hsome => ?_, ?_⟩
  · rw [hvalue]
    obtain hknowledge | hgraph := nested_of_mem_shrinkOrder path hpath hsome
    · rw [hknowledge]
      exact ⟨args.knowledge.1, rfl⟩
    · rw [hgraph]
      exact ⟨_, rfl⟩
  · rw [hvalue]
    rfl

/-- The size of the entry with an estimate, and its comma. -/
def reportSize (fl : Floats F) (n : Nat) : Nat := entrySize fl ("estimated_tokens".toList, .int n)

/-- The value under `token_roi.estimated_tokens`. -/
def reportedTokens (d : List (Text × Json F)) : Option (Json F) :=
  (valueAt "token_roi".toList d).bind fun roi => field roi "estimated_tokens"

namespace SifContextAssemblerV2

/-- The last token of the sections' text has room for the entry with their estimate. -/
def HasRoom (a : SifContextAssemblerV2) (fl : Floats F) (d : List (Text × Json F)) : Prop :=
  (dumps fl (.obj d)).length + reportSize fl (a.estimate fl d) ≤ a.estimate fl d * a.charsPerToken

/-- Of the items of the sections the fewest are dropped, in the order of the lists, that make
them fit or leave the lists empty. -/
def FewestDropped (a : SifContextAssemblerV2) (fl : Floats F) (d t : List (Text × Json F)) (n : Nat) : Prop :=
  rounds popItem d n = some t ∧ (a.fitsSections fl t = true ∨ itemCount t = 0) ∧
    ∀ m < n, ∀ u, rounds popItem d m = some u → a.fitsSections fl u = false

/-- What a frame of these sections is to say of them. -/
structure Fitted (a : SifContextAssemblerV2) (fl : Floats F) (d : List (Text × Json F))
    (frame : SifContextFrameV2 F) : Prop where
  budget : frame.estimatedTokens ≤ a.maxTokens ∨ ∀ path ∈ shrinkOrder, listAt path frame.sections = []
  reported : reportedTokens frame.sections = some (.int (a.estimate fl frame.sections))
  dropped : frame.droppedCount + itemCount frame.sections = itemCount d

theorem estimateTokens_le_iff {text : Text} {n : Nat} :
    a.estimateTokens text ≤ n ↔ text.length ≤ n * a.charsPerToken := by
  have hpos := a.charsPerToken_pos
  unfold SifAssembler.estimateTokens
  split
  · next hnil => simp [hnil]
  · next hne =>
    have hlength := List.length_pos_iff.mpr hne
    have hsucc : (n + 1) * a.charsPerToken = n * a.charsPerToken + a.charsPerToken := Nat.succ_mul _ _
    rw [max_le_iff, ← Nat.lt_succ_iff (n := n) (m := _ / _), Nat.div_lt_iff_lt_mul hpos, Nat.succ_eq_add_one,
      hsucc]
    refine ⟨fun h => by omega, fun h => ⟨?_, by omega⟩⟩
    by_contra hzero
    obtain rfl : n = 0 := by omega
    omega

end SifContextAssemblerV2

/-! ### The estimate that is written into the sections -/

theorem valueAt_tokenRoi (maxTokens : Nat) (key : String) :
    field (dict (tokenRoi maxTokens) : Json F) key = shown key (tokenRoi maxTokens) :=
  field_dict (by simp [tokenRoi]) key

/-- What the sections are after their estimate is written into them. -/
structure Reported (a : SifContextAssemblerV2) (fl : Floats F) (d d' : List (Text × Json F)) : Prop where
  length : (dumps fl (.obj d')).length = (dumps fl (.obj d)).length + reportSize fl (a.estimate fl d)
  lists : ∀ path ∈ shrinkOrder, listAt path d' = listAt path d
  value : reportedTokens d' = some (.int (a.estimate fl d))

theorem reported_report {maxTokens : Nat} (h : Shaped maxTokens d) :
    ∃ d', a.report fl d = some d' ∧ Reported a fl d d' := by
  obtain ⟨roi, hroi⟩ : ∃ roi, (dict (tokenRoi maxTokens) : Json F) = .obj roi := ⟨_, rfl⟩
  have hvalue := h.roi
  have hget : ∀ key : String, valueAt key.toList roi = shown key (tokenRoi maxTokens) := by
    intro key
    rw [← valueAt_tokenRoi, hroi]
    rfl
  have hordered : Ordered roi := (show Canonical (.obj roi) from hroi ▸ canonical_tokenRoi maxTokens).1
  have hne : roi ≠ [] := by
    rintro rfl
    exact absurd (hget "budget") nofun
  have habsent : valueAt "estimated_tokens".toList roi = none := hget "estimated_tokens"
  rw [hroi] at hvalue
  refine ⟨_, by rw [SifContextAssemblerV2.report, hvalue], ?_, fun path hpath => ?_, ?_⟩
  · have houter := @length_dumps_insert F fl d h.ordered _ _ hvalue
      (.obj (Dicts.insert "estimated_tokens".toList (.int (a.estimate fl d)) roi))
    have hinner := @length_dumps_insert_new F fl roi hordered hne _ habsent (.int (a.estimate fl d))
    unfold reportSize
    omega
  · unfold listAt
    rw [valueAt_insert, if_neg (section_ne_tokenRoi hpath)]
  · unfold reportedTokens
    rw [valueAt_insert, if_pos rfl, Option.bind_some]
    exact (valueAt_insert _ _ _ _).trans (if_pos rfl)

theorem Reported.itemCount (h : Reported a fl d d') : itemCount d' = itemCount d :=
  congrArg List.sum (List.map_congr_left fun path hpath => congrArg List.length (h.lists path hpath))

theorem Reported.estimate_le (h : Reported a fl d d') : a.estimate fl d ≤ a.estimate fl d' := by
  have hlength := h.length
  have hfits := a.estimateTokens_le_iff.mp (le_refl (a.estimate fl d'))
  exact a.estimateTokens_le_iff.mpr (by omega)

/-- The estimate stays what was written exactly if there was room. -/
theorem Reported.estimate_eq_iff (h : Reported a fl d d') :
    a.estimate fl d' = a.estimate fl d ↔ a.HasRoom fl d := by
  have hle := h.estimate_le
  have hiff : a.estimate fl d' ≤ a.estimate fl d ↔ _ := a.estimateTokens_le_iff
  rw [h.length] at hiff
  refine ⟨fun heq => hiff.mp heq.le, fun hroom => ?_⟩
  exact le_antisymm (hiff.mpr hroom) hle

/-! ### The loop -/

theorem shaped_shrink {maxTokens : Nat} (h : Shaped maxTokens d) (hstep : a.shrink fl d = some d') :
    Shaped maxTokens d' ∧ itemCount d' < itemCount d := by
  obtain ⟨-, hpop⟩ := Option.ite_none_left_eq_some.mp hstep
  obtain ⟨hshaped, hcount⟩ := h.itemCount_popItem hpop
  exact ⟨hshaped, by omega⟩

theorem shrink_eq_none : a.shrink fl t = none ↔ a.fitsSections fl t = true ∨ itemCount t = 0 := by
  unfold SifContextAssemblerV2.shrink guarded
  rw [← popItem_eq_none, ite_eq_left_iff, imp_iff_not_or, not_not]

/-- The state in which the loop ends. -/
theorem fewestDropped_iff {n : Nat} :
    a.FewestDropped fl d t n ↔ rounds (a.shrink fl) d n = some t ∧ a.shrink fl t = none := by
  unfold SifContextAssemblerV2.FewestDropped
  rw [shrink_eq_none, SifContextAssemblerV2.shrink, rounds_guarded]
  refine ⟨fun ⟨hrounds, hend, hgo⟩ => ⟨⟨hrounds, hgo⟩, hend⟩, fun ⟨⟨hrounds, hgo⟩, hend⟩ => ?_⟩
  exact ⟨hrounds, hend, hgo⟩

/-- Each round drops one item. -/
theorem itemCount_rounds {maxTokens n : Nat} (h : Shaped maxTokens d) (hrounds : rounds popItem d n = some t) :
    Shaped maxTokens t ∧ itemCount t + n = itemCount d := by
  induction n generalizing t with
  | zero =>
    obtain rfl := Option.some.inj hrounds
    exact ⟨h, Nat.add_zero _⟩
  | succ n ih =>
    obtain ⟨mid, hmid, hpop⟩ := Option.bind_eq_some_iff.mp hrounds
    obtain ⟨hshaped, hcount⟩ := ih hmid
    obtain ⟨hshaped', hcount'⟩ := hshaped.itemCount_popItem hpop
    exact ⟨hshaped', by omega⟩

/-- Sections that can be built are fitted. -/
theorem fitSections_eq {maxTokens : Nat} (h : Shaped maxTokens d) (hcanonical : Canonical (.obj d)) :
    ∃ t d' n, a.fitSections fl (.obj d) = some (d', n) ∧ a.FewestDropped fl d t n ∧ Reported a fl t d' := by
  have hruns : (runLoop (a.shrink fl) (itemCount d + 1) d).isSome = true :=
    runLoop_isSome (fun s s' hs hstep => shaped_shrink hs hstep) h (Nat.lt_succ_self _)
  obtain ⟨⟨t, n⟩, hloop⟩ := Option.isSome_iff_exists.mp hruns
  have hdropped : a.FewestDropped fl d t n := fewestDropped_iff.mpr (rounds_of_runLoop hloop)
  obtain ⟨hshaped, -⟩ := itemCount_rounds h hdropped.1
  obtain ⟨d', hreport, hreported⟩ := @reported_report F fl a t maxTokens hshaped
  refine ⟨t, d', n, ?_, hdropped, hreported⟩
  unfold SifContextAssemblerV2.fitSections
  rw [loads_dumps hcanonical]
  simp only [hloop, hreport, Option.bind_eq_bind, Option.bind_some]

theorem fewestDropped_unique {n m : Nat} (h : a.FewestDropped fl d t n) (h' : a.FewestDropped fl d d' m) :
    t = d' := by
  obtain ⟨hrounds, hend⟩ := fewestDropped_iff.mp h
  obtain ⟨hrounds', hend'⟩ := fewestDropped_iff.mp h'
  exact rounds_end_unique hrounds hend hrounds' hend'

theorem assemble_eq {args : SectionArgs F} (h : (sectionsOf rt a.maxTokens args).map dict = some (.obj d)) :
    ∃ frame t n, a.assemble rt args = some frame ∧ a.FewestDropped rt.toFloats d t n ∧
      Reported a rt.toFloats t frame.sections ∧ frame.droppedCount = n ∧
      frame.estimatedTokens = a.estimate rt.toFloats frame.sections ∧ Shaped a.maxTokens d := by
  obtain ⟨sections, hsections, hd⟩ := Option.map_eq_some_iff.mp h
  have hshaped := shaped_sectionsOf hsections hd
  have hcanonical : Canonical (.obj d) := hd ▸ canonical_sectionsOf hsections
  obtain ⟨t, d', n, hfit, hdropped, hreported⟩ := @fitSections_eq F rt.toFloats a d _ hshaped hcanonical
  refine ⟨⟨args.query, a.maxTokens, a.estimate rt.toFloats d', args.memoryIds, d', n⟩, t, n, ?_, hdropped,
    hreported, rfl, rfl, hshaped⟩
  simp only [SifContextAssemblerV2.assemble, hsections, hd, hfit, Option.bind_eq_bind, Option.bind_some]

/-- The frame is returned wherever its sections can be built. It says what it is to say of
them exactly if the sections that the loop leaves have room for their own estimate. -/
theorem fitted_iff {args : SectionArgs F} (h : (sectionsOf rt a.maxTokens args).map dict = some (.obj d)) :
    ∃ frame, a.assemble rt args = some frame ∧
      (a.Fitted rt.toFloats d frame ↔
        ∀ t n, a.FewestDropped rt.toFloats d t n → a.HasRoom rt.toFloats t) := by
  obtain ⟨frame, t, n, hassemble, hdropped, hreported, hcount, hestimate, hshaped⟩ := assemble_eq h
  refine ⟨frame, hassemble, fun hfitted t' n' hdropped' => ?_, fun hroom => ?_⟩
  · obtain rfl := fewestDropped_unique hdropped hdropped'
    have hvalue := hfitted.reported
    rw [hreported.value, Option.some.injEq, Json.int.injEq, Int.natCast_inj] at hvalue
    exact hreported.estimate_eq_iff.mp hvalue.symm
  · have hsame := hreported.estimate_eq_iff.mpr (hroom t n hdropped)
    refine ⟨?_, ?_, ?_⟩
    · rw [hestimate, hsame]
      obtain hfits | hempty := hdropped.2.1
      · exact .inl (of_decide_eq_true hfits)
      · refine .inr fun path hpath => ?_
        rw [hreported.lists path hpath]
        have hzero := List.sum_eq_zero_iff.mp hempty _ (List.mem_map_of_mem hpath)
        exact List.length_eq_zero_iff.mp hzero
    · rw [hreported.value, hsame]
    · have hitems := (itemCount_rounds hshaped hdropped.1).2
      rw [hcount, hreported.itemCount]
      omega

/-- Nothing is dropped of sections that fit. -/
theorem fewestDropped_of_fits {n : Nat} (hfits : a.fitsSections fl d = true) (h : a.FewestDropped fl d t n) :
    t = d :=
  fewestDropped_unique h ⟨rfl, .inl hfits, fun m hm => absurd hm (Nat.not_lt_zero m)⟩

theorem le_reportSize (fl : Floats F) (n : Nat) : 21 ≤ reportSize fl n := by
  have hdigits : 0 < (decimal n).length := Nat.length_toDigits_pos
  have hquote : (quote "estimated_tokens".toList).length = 18 := by decide
  unfold reportSize entrySize
  rw [hquote, dumps]
  omega

/-- The entry with an estimate does not fit into what is left of a short token. -/
theorem not_hasRoom (h : a.charsPerToken ≤ 21) : ¬ a.HasRoom fl d := by
  intro hroom
  have hsize := le_reportSize fl (a.estimate fl d)
  unfold SifContextAssemblerV2.HasRoom at hroom
  cases hestimate : a.estimate fl d with
  | zero =>
    rw [hestimate] at hroom hsize
    omega
  | succ k =>
    have hlong : ¬ (dumps fl (.obj d)).length ≤ k * a.charsPerToken := by
      rw [← a.estimateTokens_le_iff]
      show ¬ a.estimate fl d ≤ k
      omega
    have hsucc : (k + 1) * a.charsPerToken = k * a.charsPerToken + a.charsPerToken := Nat.succ_mul _ _
    rw [hestimate] at hroom hsize
    omega

end Frames

/-! ## An estimate that is written too late -/

def sampleSectionRuntime : SectionRuntime SampleNumber where
  toFacadeRuntime := sampleFacadeRuntime
  canonical_dictOfItems _ _ _ h := absurd h nofun

/-- A call with one piece of evidence. -/
def oneEvidence : SectionArgs SampleNumber where
  query := "sesame".toList
  results := []
  evidence := [⟨[("hint".toList, .str "open sesame".toList)],
    ⟨List.pairwise_singleton _ _, trivial, trivial⟩⟩]
  answerability := ⟨[], ⟨List.Pairwise.nil, trivial⟩⟩
  graphHints := []
  subgraphs := []
  knowledge := ⟨[], ⟨List.Pairwise.nil, trivial⟩⟩
  taskState := ⟨[], ⟨List.Pairwise.nil, trivial⟩⟩

/-- The sections of that call. -/
def oneEvidenceSections (maxTokens : Nat) : List (Text × Json SampleNumber) :=
  ofPairs ([("answerability", .obj []),
    ("current_facts", .arr []),
    ("decisions", .arr []),
    ("task_state", .obj []),
    ("evidence", .arr [dict [("memory_id", .null), ("memory_type", .null), ("score", .null),
      ("confidence", .null), ("validated_by", .arr []), ("why_retrieved", .arr []),
      ("hint", .str "open sesame".toList)]]),
    ("knowledge", .obj []),
    ("graph", dict [("hints", .arr []), ("subgraphs", .arr [])]),
    ("governance", .arr []),
    ("inspectable_ids", .arr []),
    ("abstention", dict [("status", .str "abstained_no_relevant_memory".toList), ("reasons", .arr [])]),
    ("token_roi", dict (tokenRoi maxTokens))].map fun kv => (kv.1.toList, kv.2))

theorem sectionsOf_oneEvidence (maxTokens : Nat) :
    (sectionsOf sampleSectionRuntime maxTokens oneEvidence).map dict = some (.obj (oneEvidenceSections maxTokens)) :=
  rfl

theorem length_oneEvidenceSections :
    (dumps sampleSectionRuntime.toFloats (.obj (oneEvidenceSections 118))).length = 458 := by
  decide +kernel

/-- Thirty characters a token. -/
def roomyAssembler : SifContextAssemblerV2 := ⟨⟨700, 30⟩, by decide, by decide⟩

/-- Four characters a token, as by default. -/
def denseAssembler : SifContextAssemblerV2 := ⟨⟨118, 4⟩, by decide, by decide⟩

/-- With tokens of thirty characters the estimate fits into the last one. -/
theorem fitted_iff_oneEvidence : ∃ frame,
    roomyAssembler.assemble sampleSectionRuntime oneEvidence = some frame ∧
      roomyAssembler.Fitted sampleSectionRuntime.toFloats (oneEvidenceSections 700) frame := by
  obtain ⟨frame, hframe, hiff⟩ := @fitted_iff _ sampleSectionRuntime roomyAssembler _ oneEvidence
    (sectionsOf_oneEvidence 700)
  refine ⟨frame, hframe, hiff.mpr fun t n hdropped => ?_⟩
  rw [fewestDropped_of_fits (by decide +kernel) hdropped]
  unfold SifContextAssemblerV2.HasRoom
  decide +kernel

/-- With the tokens of the default the frame is over its budget, has an item to drop and
reports less than it is. -/
theorem estimate_reported_late : SifContextAssemblerV2.init 118 4 = some denseAssembler ∧
    ∃ frame, denseAssembler.assemble sampleSectionRuntime oneEvidence = some frame ∧
      denseAssembler.maxTokens < frame.estimatedTokens ∧ listAt ("evidence", none) frame.sections ≠ [] ∧
      reportedTokens frame.sections ≠ some (.int frame.estimatedTokens) := by
  refine ⟨rfl, ?_⟩
  obtain ⟨frame, t, n, hframe, hdropped, hreported, -, hestimate, -⟩ :=
    @assemble_eq _ sampleSectionRuntime denseAssembler _ oneEvidence (sectionsOf_oneEvidence 118)
  have hbefore : denseAssembler.estimate sampleSectionRuntime.toFloats (oneEvidenceSections 118) ≤ 118 := by
    rw [SifContextAssemblerV2.estimate, denseAssembler.estimateTokens_le_iff, length_oneEvidenceSections]
    decide
  obtain rfl := fewestDropped_of_fits (decide_eq_true hbefore) hdropped
  have hafter : ¬ denseAssembler.estimate sampleSectionRuntime.toFloats frame.sections ≤ 118 := by
    have hsize := le_reportSize sampleSectionRuntime.toFloats
      (denseAssembler.estimate sampleSectionRuntime.toFloats (oneEvidenceSections 118))
    rw [SifContextAssemblerV2.estimate, denseAssembler.estimateTokens_le_iff, hreported.length,
      length_oneEvidenceSections]
    show ¬ 458 + _ ≤ 118 * 4
    omega
  rw [← hestimate] at hafter
  refine ⟨frame, hframe, Nat.not_le.mp hafter, ?_, fun hvalue => ?_⟩
  · rw [hreported.lists _ (by decide)]
    decide +kernel
  · rw [hreported.value, Option.some.injEq, Json.int.injEq, Int.natCast_inj] at hvalue
    omega

end AgentMemory
