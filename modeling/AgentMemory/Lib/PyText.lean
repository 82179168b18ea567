import Mathlib

/-!
# Python texts and their lines

What the methods of Python's `str` used on lines of a file do: `isspace`, `strip`, the
universal newlines of a file opened as text, and `splitlines`, which also splits at
characters that are no newline.
-/

namespace PyText

/-- A Python `str` as its code points. -/
abbrev Text := List Char

instance : LawfulBEq Text := inferInstanceAs (LawfulBEq (List Char))

/-- The code points of `str.isspace`. -/
def spaceCodes : List Nat :=
  [9, 10, 11, 12, 13, 0x1C, 0x1D, 0x1E, 0x1F, 0x20, 0x85, 0xA0, 0x1680, 0x2000, 0x2001, 0x2002,
    0x2003, 0x2004, 0x2005, 0x2006, 0x2007, 0x2008, 0x2009, 0x200A, 0x2028, 0x2029, 0x202F, 0x205F,
    0x3000]

/-- The line breaks of `str.splitlines` that are control characters of ASCII. -/
def asciiBreakCodes : List Nat := [10, 11, 12, 13, 0x1C, 0x1D, 0x1E]

/-- Its other line breaks. -/
def wideBreakCodes : List Nat := [0x85, 0x2028, 0x2029]

def isSpace (c : Char) : Bool := c.toNat ∈ spaceCodes

/-- A line break that is a control character of ASCII. -/
def isAsciiBreak (c : Char) : Bool := c.toNat ∈ asciiBreakCodes

/-- A line break that is none. -/
def isWideBreak (c : Char) : Bool := c.toNat ∈ wideBreakCodes

def hasWideBreak (text : Text) : Bool := text.any isWideBreak

/-- A character `str.splitlines` splits at. -/
def isLineBreak (c : Char) : Bool := isAsciiBreak c || isWideBreak c

theorem isSpace_of_isLineBreak {c : Char} (h : isLineBreak c = true) : isSpace c = true := by
  have hcodes : ∀ n, n ∈ asciiBreakCodes ∨ n ∈ wideBreakCodes → n ∈ spaceCodes := by
    simp only [← List.mem_append]
    decide
  have hmem : c.toNat ∈ asciiBreakCodes ∨ c.toNat ∈ wideBreakCodes := by
    simpa [isLineBreak, isAsciiBreak, isWideBreak] using h
  simpa [isSpace] using hcodes _ hmem

/-- `str.strip`. -/
def strip (text : Text) : Text := (text.dropWhile isSpace).rdropWhile isSpace

/-- `str.split` at white space. -/
def split (text : Text) : List Text := (text.splitOnP isSpace).filter (· ≠ [])

/-- A file opened as text: every newline sequence reads as `\n`. -/
def universalNewlines : Text → Text
  | [] => []
  | '\r' :: '\n' :: text => '\n' :: universalNewlines text
  | c :: text => (if c = '\r' then '\n' else c) :: universalNewlines text

/-- The lines of a text whose first line has begun with `line`. -/
def splitFrom (line : Text) : Text → List Text
  | [] => if line = [] then [] else [line]
  | '\r' :: '\n' :: text => line :: splitFrom [] text
  | c :: text => if isLineBreak c = true then line :: splitFrom [] text else splitFrom (line ++ [c]) text

/-- `str.splitlines`. -/
def splitlines (text : Text) : List Text := splitFrom [] text

/-- `not line.strip()`. -/
def isBlank (line : Text) : Bool := strip line = []

theorem strip_strip (text : Text) : strip (strip text) = strip text := by
  have hfirst : (strip text).dropWhile isSpace = strip text := by
    rw [List.dropWhile_eq_self_iff]
    intro hlength
    have hinitial : strip text <+: text.dropWhile isSpace := List.rdropWhile_prefix _ _
    have hpos : 0 < (text.dropWhile isSpace).length := lt_of_lt_of_le hlength hinitial.length_le
    rw [hinitial.getElem hlength]
    exact List.dropWhile_get_zero_not _ _ hpos
  rw [strip, hfirst, strip, List.rdropWhile_idempotent]

theorem universalNewlines_of_not_mem {text : Text} (h : '\r' ∉ text) :
    universalNewlines text = text := by
  induction text with
  | nil => rfl
  | cons c text ih =>
    rw [List.mem_cons, not_or] at h
    have hc : c ≠ '\r' := Ne.symm h.1
    rw [universalNewlines]
    · simp [hc, ih h.2]
    · rintro text' rfl
      exact absurd rfl hc

theorem splitFrom_cons {c : Char} (hc : c ≠ '\r') (line text : Text) :
    splitFrom line (c :: text) =
      if isLineBreak c = true then line :: splitFrom [] text else splitFrom (line ++ [c]) text := by
  rw [splitFrom]
  rintro text' rfl
  exact absurd rfl hc

/-- The first line ends at the first line break. -/
theorem splitFrom_break {before : Text} (h : ∀ c ∈ before, isLineBreak c = false) {c : Char}
    (hc : isLineBreak c = true) (hcr : c ≠ '\r') (line rest : Text) :
    splitFrom line (before ++ c :: rest) = (line ++ before) :: splitFrom [] rest := by
  induction before generalizing line with
  | nil => simp [splitFrom_cons hcr, hc]
  | cons c' before ih =>
    obtain ⟨hc', hbefore⟩ := List.forall_mem_cons.mp h
    have hne : c' ≠ '\r' := by
      rintro rfl
      exact absurd hc' (by decide)
    simp [splitFrom_cons hne, hc', ih hbefore]

/-- A newline ends a line, whatever stands before it. -/
theorem splitFrom_newline {text : Text} (h : '\r' ∉ text) (line rest : Text) :
    splitFrom line (text ++ '\n' :: rest) = splitFrom line (text ++ ['\n']) ++ splitFrom [] rest := by
  have hnewline : isLineBreak '\n' = true := by decide
  induction text generalizing line with
  | nil => simp [splitFrom_cons, splitFrom, hnewline]
  | cons c text ih =>
    rw [List.mem_cons, not_or] at h
    by_cases hc : isLineBreak c = true
    · simp [splitFrom_cons (Ne.symm h.1), hc, ih h.2]
    · simp [splitFrom_cons (Ne.symm h.1), hc, ih h.2]

theorem isBlank_cons {c : Char} {line : Text} (h : isSpace c = false) :
    isBlank (c :: line) = false := by
  have hne : strip (c :: line) ≠ [] := by
    rw [strip, List.dropWhile_cons_of_neg (by simp [h]), Ne, List.rdropWhile_eq_nil_iff]
    intro hall
    rw [hall c List.mem_cons_self] at h
    exact absurd h (by decide)
  simp [isBlank, hne]

end PyText
