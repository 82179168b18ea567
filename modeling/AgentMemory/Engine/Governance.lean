import AgentMemory.Engine.Capture

/-!
# What a prompt may show of a memory

`governance.py` of `engines/living_memoryv2/src/living_memoryv2`: the safety labels of a
memory, its prompt policy and the notice that stands for a text that is withheld. A pattern
is what it leaves of a text where it matches.
-/

namespace AgentMemory

open Dicts PyText JsonText

/-- The runtime with the classes `\w` and `\d` of `re` and with `f"{x:.2f}"`. -/
structure WorkRuntime (F : Type) extends FacadeRuntime F where
  isWord : Char → Bool
  isDecimal : Char → Bool
  fixed2 : F → Text

/-! ## Patterns -/

/-- A place in a text: the character before it and what follows it. -/
abbrev Place := Option Char × Text

/-- The places where a match that begins at a place can end. -/
abbrev Pattern := Place → List Place

namespace Pattern

def oneOf (p : Char → Bool) : Pattern
  | (_, c :: text) => if p c = true then [(some c, text)] else []
  | (_, []) => []

def andThen (first second : Pattern) : Pattern := fun place => (first place).flatMap second

def sequence (patterns : List Pattern) : Pattern := patterns.foldr andThen fun place => [place]

def optional (pattern : Pattern) : Pattern := fun place => place :: pattern place

def times (n : Nat) (p : Char → Bool) : Pattern := sequence (List.replicate n (oneOf p))

/-- Any number of characters of the class. -/
def star (p : Char → Bool) (before : Option Char) : Text → List Place
  | [] => [(before, [])]
  | c :: text => (before, c :: text) :: if p c = true then star p (some c) text else []

def atLeast (n : Nat) (p : Char → Bool) : Pattern :=
  andThen (times n p) fun place => star p place.1 place.2

/-- `\b`. -/
def boundary (isWord : Char → Bool) : Pattern := fun place =>
  if place.1.any isWord = place.2.head?.any isWord then [] else [place]

/-- `pattern.search(text)`. -/
def found (pattern : Pattern) (text : Text) : Bool :=
  (none :: text.map some).zip text.tails |>.any fun place => !(pattern place).isEmpty

end Pattern

/-! ## Labels -/

/-- `INSPECT_ONLY_LABELS` (`governance.py:10`). -/
def inspectOnlyLabels : List Text :=
  ["credential".toList, "pii".toList, "prompt_attack".toList, "restricted".toList]

/-- `SENSITIVE_LEVELS` (`governance.py:12-18`). -/
def sensitiveLevels : List Text :=
  ["sensitive".toList, "confidential".toList, "restricted".toList, "credential".toList, "pii".toList]

/-- `CREDENTIAL_MARKERS` (`governance.py:20-32`). -/
def credentialMarkers : List Text :=
  ["api key".toList, "apikey".toList, "bearer ".toList, "chave api".toList, "credential".toList,
    "password".toList, "secret".toList, "segredo".toList, "senha".toList, "sk-".toList, "xoxb-".toList]

/-- `PROMPT_ATTACK_MARKERS` (`governance.py:34-42`). -/
def promptAttackMarkers : List Text :=
  ["disregard previous instructions".toList, "exfiltrate".toList, "export the memory vault".toList,
    "ignore all previous instructions".toList, "ignore previous instructions".toList,
    "reveal secrets".toList, "system prompt".toList]

/-- `PROMPT_ATTACK_TAGS` (`governance.py:44-51`). -/
def promptAttackTags : List Text :=
  ["prompt-attack".toList, "prompt-injection".toList, "prompt_attack".toList,
    "prompt_injection".toList, "unsafe-media".toList, "unsafe_media".toList]

/-- A letter of `[A-Z]` under `re.IGNORECASE`. -/
def isCasedLetter (c : Char) : Bool := c.isAlpha || c = 'ı' || c = 'ſ'

/-- The letter under `re.IGNORECASE`, in a text of small letters. -/
def sameLetter (letter c : Char) : Bool := c = letter || (letter = 's' && c = 'ſ')

section Model

variable {F : Type} (rt : WorkRuntime F)

/-- `_EMAIL_RE` (`governance.py:126`). -/
def emailPattern : Pattern :=
  Pattern.sequence [Pattern.boundary rt.isWord,
    Pattern.atLeast 1 fun c => isCasedLetter c || c.isDigit || c ∈ ['.', '_', '%', '+', '-'],
    Pattern.oneOf (· = '@'),
    Pattern.atLeast 1 fun c => isCasedLetter c || c.isDigit || c ∈ ['.', '-'],
    Pattern.oneOf (· = '.'), Pattern.atLeast 2 isCasedLetter, Pattern.boundary rt.isWord]

/-- `_CPF_RE` (`governance.py:127`). -/
def cpfPattern : Pattern :=
  let dot := Pattern.optional (Pattern.oneOf (· = '.'))
  Pattern.sequence [Pattern.boundary rt.isWord, Pattern.times 3 rt.isDecimal, dot,
    Pattern.times 3 rt.isDecimal, dot, Pattern.times 3 rt.isDecimal,
    Pattern.optional (Pattern.oneOf (· = '-')), Pattern.times 2 rt.isDecimal, Pattern.boundary rt.isWord]

/-- `_PHONE_MARKER_RE` (`governance.py:128`). -/
def phoneMarkerPattern : Pattern := fun place =>
  ["cpf", "rg", "telefone", "phone", "ssn"].flatMap fun word =>
    Pattern.sequence ([Pattern.boundary rt.isWord] ++
      word.toList.map (fun letter => Pattern.oneOf (sameLetter letter)) ++
        [Pattern.boundary rt.isWord]) place

/-- `_normalize_label` (`governance.py:122-123`). -/
def normalizeLabel (value : Json F) : Text :=
  (rt.lower (strip (strOr rt.toFacadeRuntime (some value) []))).map fun c =>
    if c = '-' ∨ c = ' ' then '_' else c

/-- `normalized_sensitivity` (`governance.py:117-119`). -/
def normalizedSensitivity (sensitivity : Text) : Text :=
  let text := normalizeLabel rt (.str (if sensitivity = [] then "normal".toList else sensitivity))
  if text = [] then "normal".toList else text

/-- The labels in the metadata (`governance.py:88-92`); what cannot be iterated raises. -/
def metadataLabels (metadata : List (Text × Json F)) : Option (List Text) :=
  let raw := orValue rt.toFacadeRuntime (valueAt "safety_labels".toList metadata)
    (orValue rt.toFacadeRuntime (valueAt "safety".toList metadata) (.arr []))
  let items : Option (List (Json F)) := match raw with
    | .str s => some [.str s]
    | raw => listOf raw
  items.map fun items =>
    (items.filter fun item => strip (strOf rt.toGraphRuntime item) ≠ []).map (normalizeLabel rt)

/-- `safety_labels_for` (`governance.py:86-114`). -/
def safetyLabels (m : MemoryEnvelope F) : Option (List Text) := do
  let labels ← metadataLabels rt m.metadata
  let sensitivity := normalizedSensitivity rt m.sensitivity
  let tags := m.tags.map fun tag => normalizeLabel rt (.str tag)
  let text := rt.lower (m.textContent rt.toPython)
  let contains := fun marker : Text => decide (marker <:+: text)
  let labels := labels ++ (if sensitivity ∈ sensitiveLevels then [sensitivity] else []) ++
    (if tags.any (· ∈ promptAttackTags) then ["prompt_attack".toList] else []) ++
    (if "credential".toList ∈ tags then ["credential".toList] else []) ++
    (if "pii".toList ∈ tags then ["pii".toList] else []) ++
    (if credentialMarkers.any contains then ["credential".toList] else []) ++
    (if (emailPattern rt).found text || (cpfPattern rt).found text || (phoneMarkerPattern rt).found text then
      ["pii".toList] else []) ++
    (if promptAttackMarkers.any contains then ["prompt_attack".toList] else [])
  some (sortedSet (labels.filter (· ≠ [])))

/-- `prompt_policy` of `governance_for` is `inspect_only` (`governance.py:59`). -/
def isInspectOnly (labels : List Text) : Bool := labels.any (· ∈ inspectOnlyLabels)

/-- The notice for a text that is withheld (`governance.py:82-83`). -/
def withheldNotice (labels : List Text) (id : Text) : Text :=
  let shown := [','].intercalate (labels.take 4)
  "[memory withheld: ".toList ++ (if shown = [] then "sensitive".toList else shown) ++
    "; use inspect_memory(".toList ++ id ++ ") with permission]".toList

/-- `prompt_text_for` (`governance.py:76-83`). -/
def promptText (m : MemoryEnvelope F) : Option Text :=
  (safetyLabels rt m).map fun labels =>
    if isInspectOnly labels = true then withheldNotice labels m.id else m.textContent rt.toPython

end Model

/-! ## Truncations -/

/-- The text on one line. -/
def compact (text : Text) : Text := [' '].intercalate (split text)

/-- A beginning of the text on one line, with or without an ellipsis. -/
def IsTruncation (text shown : Text) : Prop :=
  ∃ k, shown = (compact text).take k ∨
    shown = ((compact text).take k).rdropWhile PyText.isSpace ++ "...".toList

theorem isTruncation_compact (text : Text) : IsTruncation text (compact text) :=
  ⟨(compact text).length, Or.inl (List.take_length).symm⟩

theorem isTruncation_nil (text : Text) : IsTruncation text [] := ⟨0, Or.inl rfl⟩

theorem isTruncation_oneLine (text : Text) (maxChars : Nat) : IsTruncation text (oneLine text maxChars) := by
  simp only [oneLine]
  split
  · exact isTruncation_compact text
  · exact ⟨maxChars - 3, Or.inr rfl⟩

end AgentMemory
