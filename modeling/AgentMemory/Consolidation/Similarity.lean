import AgentMemory.Domain.Text
import AgentMemory.Domain.Memory
import Mathlib.Data.List.Dedup
import Mathlib.Data.Rat.Cast.Order
import Mathlib.Tactic.Positivity
import Mathlib.Tactic.NormNum

/-!
# The three tests of consolidation

`internal/services/consolidation`: near-duplicates (`merge.go`), newer statements
(`temporal.go`) and contradictions (`conflict.go`). The Go code divides two small counts as
`float64` and compares with a constant; on counts below 2^47 that comparison agrees with
the exact one used here.
-/

namespace AgentMemory

variable (lower : Char → Char)

/-- The trimmed tokens of a text, in order. -/
def trimmedTokens (text : List Char) : List (List Char) :=
  (fields (toLower lower text)).map fun token => trim token punctuation

/-- `tokenSet` (`merge.go:50-59`). -/
def tokenSet (text : List Char) : List (List Char) :=
  ((trimmedTokens lower text).filter fun token => 2 < len token).dedup

/-- How many tokens two contents share. -/
def sharedTokens (a b : List Char) : Nat :=
  ((tokenSet lower a).filter (· ∈ tokenSet lower b)).length

/-- `Similar` (`merge.go:34-48`): the Jaccard similarity of the token sets. -/
def similar (a b : String) : ℚ :=
  let setA := tokenSet lower a.toList
  let setB := tokenSet lower b.toList
  if setA = [] ∨ setB = [] then 0
  else
    let intersection := sharedTokens lower a.toList b.toList
    let union := setA.length + setB.length - intersection
    (intersection : ℚ) / (union : ℚ)

/-- `mergeThreshold` (`merge.go:12`). -/
def mergeThreshold : ℚ := 41 / 50

/-- `supersedeThreshold` (`temporal.go:11`). -/
def supersedeThreshold : ℚ := 3 / 5

/-- `subjectOverlapThreshold` (`conflict.go:11`). -/
def subjectOverlapThreshold : ℚ := 1 / 2

/-- The types whose memories supersede and contradict one another. -/
def durable (t : MemoryType) : Bool := t = .fact || t = .preference

/-- `ShouldSupersede` (`temporal.go:16-25`). -/
def shouldSupersede (existing incoming : Memory) : Bool :=
  if existing.type ≠ incoming.type then false
  else if existing.type ≠ .fact ∧ existing.type ≠ .preference then false
  else
    let similarity := similar lower existing.content incoming.content
    supersedeThreshold ≤ similarity && similarity < mergeThreshold

/-- `hasNegationToken` (`conflict.go:80-86`). -/
def hasNegationToken (token : List Char) : Bool :=
  token ∈ ["não".toList, "nao".toList, "not".toList, "never".toList, "nunca".toList,
    "jamais".toList]

/-- `leadingTokens` (`conflict.go:51-67`): the first `n` tokens that are long enough and no
negation. -/
def leadingTokens (text : List Char) (n : Nat) : List (List Char) :=
  ((trimmedTokens lower text).filter fun token => 2 < len token && !hasNegationToken token).take n

/-- `subjectOverlap` (`conflict.go:32-49`). -/
def subjectOverlap (a b : String) : ℚ :=
  let headA := leadingTokens lower a.toList 5
  let headB := leadingTokens lower b.toList 5
  if headA = [] ∨ headB = [] then 0
  else ((headA.filter (· ∈ headB)).length : ℚ) / (headA.length : ℚ)

/-- `negationMarkers` (`conflict.go:13-15`). -/
def negationMarkers : List (List Char) :=
  ["não".toList, "nao".toList, "not ".toList, "never".toList, "no longer".toList,
    "stopped".toList, "deixei de".toList, "nunca".toList, "jamais".toList]

/-- `hasNegation` (`conflict.go:69-77`). -/
def hasNegation (text : String) : Bool :=
  let t := ' ' :: toLower lower text.toList ++ [' ']
  negationMarkers.any fun marker => contains t (' ' :: marker)

/-- `Contradicts` (`conflict.go:19-30`). -/
def contradicts (a b : Memory) : Bool :=
  if a.type ≠ b.type then false
  else if a.type ≠ .fact ∧ a.type ≠ .preference then false
  else if subjectOverlap lower a.content b.content < subjectOverlapThreshold then false
  else hasNegation lower a.content != hasNegation lower b.content

variable {lower}

theorem shouldSupersede_iff {existing incoming : Memory} :
    shouldSupersede lower existing incoming = true ↔
      existing.type = incoming.type ∧ durable existing.type = true ∧
        supersedeThreshold ≤ similar lower existing.content incoming.content ∧
        similar lower existing.content incoming.content < mergeThreshold := by
  unfold shouldSupersede durable
  by_cases h1 : existing.type = incoming.type <;>
    by_cases h2 : existing.type = .fact <;> by_cases h3 : existing.type = .preference <;>
    simp_all

/-- Contradicting memories are of one type, a durable one. -/
theorem type_of_contradicts {a b : Memory} (h : contradicts lower a b = true) :
    a.type = b.type ∧ durable a.type = true := by
  unfold contradicts at h
  unfold durable
  by_cases h1 : a.type = b.type <;>
    by_cases h2 : a.type = .fact <;> by_cases h3 : a.type = .preference <;> simp_all

/-- Of two memories of one durable type, similarity from `supersedeThreshold` on always
merges or supersedes. -/
theorem merges_or_supersedes {existing incoming : Memory}
    (htype : existing.type = incoming.type) (hdur : durable existing.type = true) :
    (mergeThreshold ≤ similar lower existing.content incoming.content ∨
        shouldSupersede lower existing incoming = true) ↔
      supersedeThreshold ≤ similar lower existing.content incoming.content := by
  rw [shouldSupersede_iff]
  have hlt : supersedeThreshold < mergeThreshold := by
    norm_num [supersedeThreshold, mergeThreshold]
  constructor
  · rintro (h | ⟨-, -, h, -⟩)
    · exact hlt.le.trans h
    · exact h
  · intro h
    by_cases hm : mergeThreshold ≤ similar lower existing.content incoming.content
    · exact Or.inl hm
    · exact Or.inr ⟨htype, hdur, h, lt_of_not_ge hm⟩

end AgentMemory
