import AgentMemory.Engine.Governance
import AgentMemory.Engine.VaultState
import AgentMemory.Lib.Uniques

/-!
# Facts read from texts

`RuleBasedFactExtractor` of `engines/living_memoryv2/src/living_memoryv2/extraction.py`. Where a
pattern has groups, its matches at a place are listed in the order in which the matcher of `re`
tries them, so the first of them is the match. `extract_spec` says what each fact has of its
memory and that no two facts of a memory have one signature.
-/

namespace AgentMemory

open Dicts PyText JsonText Uniques

/-- The runtime with the letters by which `re.IGNORECASE` compares and with
`datetime.fromisoformat(text).timestamp()`. -/
structure ExtractionRuntime (F : Type) extends WorkRuntime F where
  lowerChar : Char → Char
  timestamp : Text → Option F
  inUnit_ofText : ∀ digits : Text, digits.all Char.isDigit = true → inUnit (ofText ("0.".toList ++ digits)) = true

/-- `ExtractedFact` (`extraction.py:10-21`) with its entities. -/
structure DerivedFact (F : Type) extends ExtractedFact F where
  entities : List Text

/-- What tells facts apart: subject, predicate and object in small letters, and the memory. -/
abbrev FactSignature := Text × Text × Text × Text

namespace Pattern

/-- The longest match first, where the shortest is listed first. -/
def greedy (pattern : Pattern) : Pattern := fun place => (pattern place).reverse

/-- `$`. -/
def isEnd (place : Place) : Bool := place.2 = [] || place.2 = ['\n']

/-- The text between two places. -/
def between (start stop : Place) : Text := start.2.take (start.2.length - stop.2.length)

/-- `finditer`: what is found at the places of a text, each after the end of the one before. -/
def occurrences {α : Type} (found : Place → Option (α × Place)) : (skip : Nat) → Option Char → Text → List α
  | _, _, [] => []
  | skip + 1, _, c :: rest => occurrences found skip (some c) rest
  | 0, before, c :: rest =>
    match found (before, c :: rest) with
    | some (a, stop) => a :: occurrences found (rest.length - stop.2.length) (some c) rest
    | none => occurrences found 0 (some c) rest

end Pattern

section Model

variable {F : Type} (rt : ExtractionRuntime F)

/-- The signature of a fact (`extraction.py:107`). -/
def ExtractedFact.signature (fact : ExtractedFact F) : FactSignature :=
  (rt.lower fact.subject, rt.lower fact.predicate, rt.lower fact.object, fact.sourceMemoryId)

/-- `to_dict` (`extraction.py:24-36`). -/
def DerivedFact.toDict (fact : DerivedFact F) : Json F :=
  dict [("subject", .str fact.subject), ("predicate", .str fact.predicate), ("object", .str fact.object),
    ("source_memory_id", .str fact.sourceMemoryId), ("scope", .obj fact.scope),
    ("confidence", .float fact.confidence), ("valid_from", numberValue (fact.validFrom.map .float)),
    ("valid_to", numberValue (fact.validTo.map .float)), ("entities", .arr (fact.entities.map .str)),
    ("reason", .str fact.reason)]

namespace RuleBasedFactExtractor

/-! ## Patterns -/

/-- `\s*` and `\s+`. -/
def spaces (n : Nat) : Pattern := Pattern.greedy (Pattern.atLeast n PyText.isSpace)

/-- The rest of a subject: 1 to 48 word characters, spaces, hyphens and slashes, the shortest first. -/
def nameTail : Pattern := fun place =>
  (Pattern.atLeast 1 (fun c => rt.isWord c || c ∈ [' ', '-', '/']) place).take 48

/-- `.+?`. -/
def anything : Pattern := Pattern.atLeast 1 (· ≠ '\n')

/-- `[A-Za-z]` under `re.IGNORECASE`. -/
def isAnyLetter (c : Char) : Bool := (rt.lowerChar c).isLower || rt.lowerChar c ∈ ['ı', 'ſ']

/-- A small letter under `re.IGNORECASE`. -/
def isLetter (letter c : Char) : Bool :=
  rt.lowerChar c = letter || (letter = 'i' && rt.lowerChar c = 'ı') || (letter = 's' && rt.lowerChar c = 'ſ')

/-- The groups of `KEY_VALUE_RE` (`extraction.py:40`) on a line. -/
def keyValueMatches (line : Text) : List (Text × Text) :=
  (spaces 0 (none, line)).flatMap fun start =>
    (Pattern.sequence [Pattern.oneOf Char.isAlpha, Pattern.greedy (nameTail rt)] start).flatMap fun keyEnd =>
      (Pattern.sequence [spaces 0, Pattern.oneOf (· = ':'), spaces 0] keyEnd).flatMap fun valueStart =>
        ((anything valueStart).filter fun valueEnd => (spaces 0 valueEnd).any Pattern.isEnd).map fun valueEnd =>
          (Pattern.between start keyEnd, Pattern.between valueStart valueEnd)

/-- The groups of `SHOULD_USE_RE` or `IS_RE` (`extraction.py:41-42`) at a place, by the words of
the verb, with the end of the match. -/
def sentenceMatches (verb : List String) (start : Place) : List ((Text × Text) × Place) :=
  let letters (word : String) : Pattern := Pattern.sequence (word.toList.map fun c => Pattern.oneOf (isLetter rt c))
  (Pattern.sequence [Pattern.boundary rt.isWord, Pattern.oneOf (isAnyLetter rt), nameTail rt] start).flatMap
    fun keyEnd =>
      (Pattern.sequence ((verb.flatMap fun word => [spaces 1, letters word]) ++ [spaces 1]) keyEnd).flatMap
        fun valueStart =>
          (anything valueStart).filterMap fun valueEnd =>
            let groups := (Pattern.between start keyEnd, Pattern.between valueStart valueEnd)
            match valueEnd.2 with
            | '.' :: rest => some (groups, (some '.', rest))
            | _ => if Pattern.isEnd valueEnd = true then some (groups, valueEnd) else none

/-- The matches of `ENTITY_RE` (`extraction.py:44`) at a place, with their end. -/
def entityMatches (start : Place) : List (Text × Place) :=
  let isEntityChar (c : Char) : Bool := c.isAlphanum || c ∈ ['_', ':', '-']
  (Pattern.sequence [Pattern.boundary rt.isWord, Pattern.oneOf Char.isUpper,
    Pattern.greedy (Pattern.atLeast 2 isEntityChar), Pattern.boundary rt.isWord] start).map fun stop =>
      (Pattern.between start stop, stop)

/-- The group of `ISO_DATE_RE` (`extraction.py:43`) at a place. -/
def isoDateMatches (start : Place) : List Text :=
  let isBelow (limit c : Char) : Bool := '0' ≤ c && c ≤ limit
  let colonDigits := Pattern.sequence [Pattern.oneOf (· = ':'), Pattern.oneOf (isBelow '5'), Pattern.oneOf rt.isDecimal]
  let time := Pattern.sequence [Pattern.oneOf fun c => c ∈ ['T', ' '], Pattern.oneOf (isBelow '2'),
    Pattern.oneOf rt.isDecimal, colonDigits, Pattern.optional colonDigits]
  ((Pattern.sequence [Pattern.boundary rt.isWord, Pattern.oneOf (· = '2'), Pattern.oneOf (· = '0'),
    Pattern.times 2 rt.isDecimal, Pattern.oneOf (· = '-'), Pattern.times 2 rt.isDecimal, Pattern.oneOf (· = '-'),
    Pattern.times 2 rt.isDecimal] start).filter fun stop =>
      (Pattern.optional time stop).any fun stop => !(Pattern.boundary rt.isWord stop).isEmpty).map
        (Pattern.between start)

/-! ## Facts -/

/-- `_clean_subject` (`extraction.py:91-92`). -/
def cleanSubject (value : Text) : Text :=
  [' '].intercalate (split ((rt.lower (strip value)).map fun c => if c = '_' then ' ' else c))

/-- `_timestamp` (`extraction.py:94-101`). -/
def timestamp (value : Text) : Option F :=
  (((none :: value.map some).zip value.tails).findSome? fun place => (isoDateMatches rt place).head?).bind
    rt.timestamp

/-- `_entities` (`extraction.py:86-89`). -/
def entitiesOf (m : MemoryEnvelope F) (text : Text) : List Text :=
  let found := Pattern.occurrences (fun place => (entityMatches rt place).head?) 0 none text
  (sortedSet (m.entities ++ found)).filter fun item =>
    rt.lower item ∉ ["project".toList, "owner".toList, "status".toList, "policy".toList, "valid".toList]

/-- A fact of the memory (`extraction.py:59-70`, `73-83`). -/
def factOf (m : MemoryEnvelope F) (subject predicate object : Text) (confidence : F) (validFrom : Option F)
    (entities : List Text) : DerivedFact F where
  subject := subject
  predicate := predicate
  object := object
  sourceMemoryId := m.id
  scope := m.scope
  confidence := confidence
  validFrom := validFrom
  validTo := none
  reason := "rule_based_extraction".toList
  entities := entities

/-- The fact of a line (`extraction.py:50-70`). -/
def lineFact (m : MemoryEnvelope F) (entities : List Text) (line : Text) : Option (DerivedFact F) :=
  (keyValueMatches rt line).head?.bind fun groups =>
    let key := cleanSubject rt groups.1
    let value := strip groups.2
    if key = [] ∨ value = [] then none
    else
      let validFrom :=
        if key ∈ ["valid from".toList, "valid_from".toList, "date".toList] then timestamp rt value else none
      some (factOf m (key.map fun c => if c = '_' then ' ' else c) "is".toList value (rt.ofText "0.82".toList)
        validFrom entities)

/-- The facts of sentences with the verb (`extraction.py:72-83`). -/
def sentenceFacts (m : MemoryEnvelope F) (entities : List Text) (text : Text) (verb : List String)
    (predicate : String) : List (DerivedFact F) :=
  (Pattern.occurrences (fun place => (sentenceMatches rt verb place).head?) 0 none text).map fun groups =>
    factOf m (cleanSubject rt groups.1) predicate.toList (strip groups.2) (rt.ofText "0.68".toList) none entities

/-- `extract` (`extraction.py:46-83`) before `_dedupe`. -/
def candidates (m : MemoryEnvelope F) : List (DerivedFact F) :=
  let text := m.textContent rt.toPython
  let entities := entitiesOf rt m text
  (splitlines text).filterMap (lineFact rt m entities) ++
    sentenceFacts rt m entities text ["should", "use"] "should_use" ++ sentenceFacts rt m entities text ["is"] "is"

/-- `extract` (`extraction.py:46-84`), with `_dedupe` (`extraction.py:103-112`). -/
def extract (m : MemoryEnvelope F) : List (DerivedFact F) :=
  firstsBy (fun fact => fact.signature rt) [] (candidates rt m)

end RuleBasedFactExtractor

end Model

/-! ## What a fact has of its memory -/

section Facts

variable {F : Type} {rt : ExtractionRuntime F} {m : MemoryEnvelope F}

/-- What the extractor says of a fact. -/
structure DerivedFact.IsOf (rt : ExtractionRuntime F) (m : MemoryEnvelope F) (fact : DerivedFact F) : Prop where
  source : fact.sourceMemoryId = m.id
  scope : fact.scope = m.scope
  confidence : rt.inUnit fact.confidence = true

namespace RuleBasedFactExtractor

theorem isOf_lineFact {entities : List Text} {line : Text} {fact : DerivedFact F}
    (h : lineFact rt m entities line = some fact) : fact.IsOf rt m := by
  obtain ⟨groups, -, hfact⟩ := Option.bind_eq_some_iff.mp h
  dsimp only at hfact
  split at hfact
  · cases hfact
  · obtain rfl := Option.some.inj hfact
    exact ⟨rfl, rfl, rt.inUnit_ofText "82".toList rfl⟩

theorem isOf_sentenceFacts {entities : List Text} {text : Text} {verb : List String} {predicate : String}
    {fact : DerivedFact F} (h : fact ∈ sentenceFacts rt m entities text verb predicate) : fact.IsOf rt m := by
  obtain ⟨groups, -, rfl⟩ := List.mem_map.mp h
  exact ⟨rfl, rfl, rt.inUnit_ofText "68".toList rfl⟩

/-- Each fact is one of the memory, and no two of them have one signature. -/
theorem extract_spec (rt : ExtractionRuntime F) (m : MemoryEnvelope F) :
    (∀ fact ∈ extract rt m, fact.IsOf rt m) ∧
      ((extract rt m).map fun fact => fact.signature rt).Nodup := by
  refine ⟨fun fact hfact => ?_, nodup_map_firstsBy _ _⟩
  have hcandidate := (firstsBy_sublist _ _).subset hfact
  simp only [candidates, List.mem_append, List.mem_filterMap] at hcandidate
  obtain (⟨line, -, hline⟩ | hsentence) | hsentence := hcandidate
  · exact isOf_lineFact hline
  · exact isOf_sentenceFacts hsentence
  · exact isOf_sentenceFacts hsentence

/-- A line that is a key with its value gives a fact, or one of its signature. -/
theorem exists_fact_of_line {line key value : Text} (hline : line ∈ splitlines (m.textContent rt.toPython))
    (hgroups : (keyValueMatches rt line).head? = some (key, value)) (hkey : cleanSubject rt key ≠ [])
    (hvalue : strip value ≠ []) :
    ∃ fact ∈ extract rt m, fact.signature rt =
      (rt.lower ((cleanSubject rt key).map fun c => if c = '_' then ' ' else c), rt.lower "is".toList,
        rt.lower (strip value), m.id) := by
  obtain ⟨validFrom, hfact⟩ : ∃ validFrom, lineFact rt m (entitiesOf rt m (m.textContent rt.toPython)) line =
      some (factOf m ((cleanSubject rt key).map fun c => if c = '_' then ' ' else c) "is".toList (strip value)
        (rt.ofText "0.82".toList) validFrom (entitiesOf rt m (m.textContent rt.toPython))) := by
    rw [lineFact, hgroups, Option.bind_some]
    exact ⟨_, if_neg (not_or.mpr ⟨hkey, hvalue⟩)⟩
  have hcandidate := List.mem_append_left (sentenceFacts rt m (entitiesOf rt m (m.textContent rt.toPython))
    (m.textContent rt.toPython) ["is"] "is") (List.mem_append_left (sentenceFacts rt m
      (entitiesOf rt m (m.textContent rt.toPython)) (m.textContent rt.toPython) ["should", "use"] "should_use")
        (List.mem_filterMap.mpr ⟨line, hline, hfact⟩))
  have hsignature := mem_map_firstsBy.mpr ⟨List.mem_map_of_mem (f := fun fact : DerivedFact F => fact.signature rt)
    hcandidate, List.not_mem_nil⟩
  obtain ⟨fact, hmem, hsame⟩ := List.mem_map.mp hsignature
  exact ⟨fact, hmem, hsame⟩

end RuleBasedFactExtractor

end Facts

end AgentMemory
