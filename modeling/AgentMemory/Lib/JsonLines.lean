import AgentMemory.Lib.JsonRead
import AgentMemory.Lib.PyText

/-!
# Logs of JSON values

A log with one value a line, appended with a newline after each value and read back by
`splitlines`. Writer and reader do not agree on what ends a line: `readLog_writeLog_iff`
says that the log reads back exactly where no string in it holds a wide line break.
-/

namespace JsonText

open Dicts PyText

variable {F : Type} {fl : Floats F}

mutual
/-- Some string or key in the value has such a character. -/
def anyChar (p : Char → Bool) : Json F → Bool
  | .str s => s.any p
  | .arr items => anyCharItems p items
  | .obj fields => anyCharFields p fields
  | _ => false
def anyCharItems (p : Char → Bool) : List (Json F) → Bool
  | [] => false
  | j :: items => anyChar p j || anyCharItems p items
def anyCharFields (p : Char → Bool) : List (Text × Json F) → Bool
  | [] => false
  | (k, j) :: fields => k.any p || anyChar p j || anyCharFields p fields
end

theorem anyCharItems_eq_any (p : Char → Bool) (items : List (Json F)) :
    anyCharItems p items = items.any (anyChar p) := by
  induction items with
  | nil => rfl
  | cons j items ih => simp [anyCharItems, ih]

theorem anyCharFields_eq_any (p : Char → Bool) (fields : List (Text × Json F)) :
    anyCharFields p fields = fields.any fun kv => kv.1.any p || anyChar p kv.2 := by
  induction fields with
  | nil => rfl
  | cons kv fields ih => simp [anyCharFields, ih]

/-- A display is searched entry by entry. -/
theorem anyCharFields_ofPairs (p : Char → Bool) {pairs : List (Text × Json F)}
    (h : (pairs.map Prod.fst).Nodup) :
    anyCharFields p (ofPairs pairs) = anyCharFields p pairs := by
  simp only [anyCharFields_eq_any]
  exact (ofPairs_perm h).any_eq

/-- A written entry is searched beside those under other keys. -/
theorem anyCharFields_insert (p : Char → Bool) {d : List (Text × Json F)} (hd : Ordered d)
    (k : Text) (j : Json F) :
    anyCharFields p (insert k j d) = (k.any p || anyChar p j || anyCharFields p (erase k d)) := by
  simp only [anyCharFields_eq_any]
  exact (insert_perm hd k j).any_eq

/-- The log after these values have been appended. -/
def writeLog (fl : Floats F) (values : List (Json F)) : Text :=
  values.flatMap fun j => dumps fl j ++ ['\n']

/-- What each line of a log that is not blank reads as. -/
def readLog (fl : Floats F) (log : Text) : List (Option (Json F)) :=
  ((splitlines (universalNewlines log)).filter fun line => !isBlank line).map (loads fl)

/-! ## Where a line breaks -/

/-- No character of a word is white space. -/
theorem isSpace_of_isWordChar {c : Char} (h : isWordChar c = true) : isSpace c = false := by
  have hcodes : ∀ n ∈ spaceCodes, isWordChar (Char.ofNat n) = false := by decide
  by_contra hspace
  have hmem : c.toNat ∈ spaceCodes := by simpa [isSpace] using hspace
  have hword := hcodes _ hmem
  rw [Char.ofNat_toNat, h] at hword
  exact absurd hword (by decide)

theorem isLineBreak_of_isWordChar {c : Char} (h : isWordChar c = true) : isLineBreak c = false := by
  by_contra hbreak
  have hspace := isSpace_of_isLineBreak (Bool.eq_true_of_not_eq_false hbreak)
  rw [isSpace_of_isWordChar h] at hspace
  exact absurd hspace (by decide)

theorem isWordChar_hexDigit : ∀ n < 16, isWordChar (hexDigit n) = true := by decide

/-- The characters that stand in a text outside its strings, or in escapes, beside words. -/
def marks : Text := ['"', '\\', '{', '}', '[', ']', ',', ':']

/-- A test that finds no character that is always written. -/
structure Inert (p : Char → Bool) : Prop where
  word : ∀ c, isWordChar c = true → p c = false
  mark : ∀ c ∈ marks, p c = false

theorem forall_mem_eq_false {p : Char → Bool} {cs : Text} (h : cs.all (fun c => !p c) = true) :
    ∀ c ∈ cs, p c = false := by
  simpa using h

theorem Inert.any_word {p : Char → Bool} (hp : Inert p) {w : Text}
    (h : ∀ c ∈ w, isWordChar c = true) : w.any p = false := by
  simpa using fun c hc => hp.word c (h c hc)

theorem Inert.any_quote {p : Char → Bool} (hp : Inert p) (s : Text) :
    (quote s).any p = s.any fun c => (escapeChar c).any p := by
  have hmark := hp.mark '"' (by decide)
  simp [quote, hmark, List.any_flatMap]

section AnyDumps

variable {p : Char → Bool} (hp : Inert p)

include hp

mutual
/-- Such a test finds in the text of a value what it finds in the escapes of its strings. -/
theorem any_dumps : ∀ j : Json F,
    (dumps fl j).any p = anyChar (fun c => (escapeChar c).any p) j
  | .null => hp.any_word (w := "null".toList) (List.all_eq_true.mp (by decide))
  | .bool true => hp.any_word (w := "true".toList) (List.all_eq_true.mp (by decide))
  | .bool false => hp.any_word (w := "false".toList) (List.all_eq_true.mp (by decide))
  | .int n => hp.any_word fun _ hc => isWordChar_decimal hc
  | .float x => hp.any_word (isWordChar_of_isFloatText (fl.isFloatText_repr x))
  | .str s => hp.any_quote s
  | .arr items => by
    have hopen := hp.mark '[' (by decide)
    simp [dumps, anyChar, hopen, any_dumpsItems items [] rfl]
  | .obj fields => by
    have hopen := hp.mark '{' (by decide)
    simp [dumps, anyChar, hopen, any_dumpsFields fields [] rfl]
theorem any_dumpsItems : ∀ (items : List (Json F)) (sep : Text), sep.any p = false →
    (dumpsItems fl sep items).any p = anyCharItems (fun c => (escapeChar c).any p) items
  | [], _, _ => by
    have hclose := hp.mark ']' (by decide)
    simp [dumpsItems, anyCharItems, hclose]
  | j :: items, sep, hsep => by
    have hcomma := hp.mark ',' (by decide)
    simp only [dumpsItems, anyCharItems, List.any_append, hsep, Bool.false_or, any_dumps j]
    rw [any_dumpsItems items [','] (by simp [hcomma])]
theorem any_dumpsFields : ∀ (fields : List (Text × Json F)) (sep : Text), sep.any p = false →
    (dumpsFields fl sep fields).any p = anyCharFields (fun c => (escapeChar c).any p) fields
  | [], _, _ => by
    have hclose := hp.mark '}' (by decide)
    simp [dumpsFields, anyCharFields, hclose]
  | (k, j) :: fields, sep, hsep => by
    have hcomma := hp.mark ',' (by decide)
    have hcolon := hp.mark ':' (by decide)
    simp only [dumpsFields, anyCharFields, List.any_append, List.any_cons, hsep, Bool.false_or,
      hcolon, any_dumps j, hp.any_quote]
    rw [any_dumpsFields fields [','] (by simp [hcomma])]
end

end AnyDumps

theorem escapeChar_eq_singleton {c : Char} :
    escapeChar c = [c] ↔ c ≠ '"' ∧ c ≠ '\\' ∧ 32 ≤ c.toNat := by
  have hcodes : '\n'.toNat = 10 ∧ '\r'.toNat = 13 ∧ '\t'.toNat = 9 := by decide
  unfold escapeChar
  split_ifs <;> simp_all

/-- Such a test finds a character in a string if the character is written as itself. -/
theorem Inert.any_escapeChar {p : Char → Bool} (hp : Inert p) (c : Char) :
    (escapeChar c).any p = (decide (escapeChar c = [c]) && p c) := by
  by_cases hself : escapeChar c = [c]
  · simp [hself]
  · have hback := hp.mark '\\' (by decide)
    have hquote := hp.mark '"' (by decide)
    have hn := hp.word 'n' (by decide)
    have hr := hp.word 'r' (by decide)
    have ht := hp.word 't' (by decide)
    have hb := hp.word 'b' (by decide)
    have hf := hp.word 'f' (by decide)
    have hu := hp.word 'u' (by decide)
    have hzero := hp.word '0' (by decide)
    have hhex : ∀ n < 16, p (hexDigit n) = false := fun n hn => hp.word _ (isWordChar_hexDigit n hn)
    have hword : ∀ c' ∈ escapeChar c, p c' = false := by
      rw [escapeChar_eq_singleton] at hself
      unfold escapeChar
      split_ifs with h₁ h₂ h₃ h₄ h₅ h₆ h₇ h₈
      · simp [hback, hquote]
      · simp [hback]
      · simp [hback, hn]
      · simp [hback, hr]
      · simp [hback, ht]
      · simp [hback, hb]
      · simp [hback, hf]
      · simp [hback, hu, hzero, hhex (c.toNat / 16) (by omega), hhex (c.toNat % 16) (by omega)]
      · exact absurd ⟨h₁, h₂, by omega⟩ hself
    simpa [hself] using hword

theorem inert_isLineBreak : Inert isLineBreak where
  word := fun _ hc => isLineBreak_of_isWordChar hc
  mark := forall_mem_eq_false (by decide)

/-- Control characters are escaped, so that only a wide line break is left to break the
line. -/
theorem any_isLineBreak_escapeChar (c : Char) : (escapeChar c).any isLineBreak = isWideBreak c := by
  have hwide : ∀ n ∈ wideBreakCodes, 32 ≤ n ∧ n ≠ '"'.toNat ∧ n ≠ '\\'.toNat := by decide
  have hascii : ∀ n ∈ asciiBreakCodes, n < 32 := by decide
  rw [inert_isLineBreak.any_escapeChar, Bool.eq_iff_iff, Bool.and_eq_true, decide_eq_true_eq,
    escapeChar_eq_singleton]
  constructor
  · rintro ⟨⟨-, -, hle⟩, hbreak⟩
    have hnot : c.toNat ∉ asciiBreakCodes := fun hmem => absurd (hascii _ hmem) (by omega)
    simpa [isLineBreak, isAsciiBreak, hnot] using hbreak
  · intro hc
    obtain ⟨hle, hquote, hback⟩ := hwide c.toNat (by simpa [isWideBreak] using hc)
    refine ⟨⟨?_, ?_, hle⟩, by simp [isLineBreak, hc]⟩
    · exact fun e => hquote (e ▸ rfl)
    · exact fun e => hback (e ▸ rfl)

/-- The text of a value has a line break where a string in it has a wide one. -/
theorem any_isLineBreak_dumps (j : Json F) :
    (dumps fl j).any isLineBreak = anyChar isWideBreak j := by
  rw [any_dumps inert_isLineBreak]
  simp only [any_isLineBreak_escapeChar]

mutual
theorem anyChar_false : ∀ j : Json F, anyChar (fun _ => false) j = false
  | .null | .bool _ | .int _ | .float _ => rfl
  | .str s => by simp [anyChar]
  | .arr items => anyCharItems_false items
  | .obj fields => anyCharFields_false fields
theorem anyCharItems_false : ∀ items : List (Json F), anyCharItems (fun _ => false) items = false
  | [] => rfl
  | j :: items => by simp [anyCharItems, anyChar_false j, anyCharItems_false items]
theorem anyCharFields_false : ∀ fields : List (Text × Json F),
    anyCharFields (fun _ => false) fields = false
  | [] => rfl
  | (k, j) :: fields => by simp [anyCharFields, anyChar_false j, anyCharFields_false fields]
end

/-- Every line break in the text of a value is a wide one. -/
theorem isWideBreak_of_mem_dumps {j : Json F} {c : Char} (hmem : c ∈ dumps fl j)
    (hc : isLineBreak c = true) : isWideBreak c = true := by
  have hascii : ∀ n ∈ asciiBreakCodes, n < 32 := by decide
  have hinert : Inert isAsciiBreak := by
    refine ⟨fun c hc => ?_, forall_mem_eq_false (by decide)⟩
    have hbreak := isLineBreak_of_isWordChar hc
    rw [isLineBreak, Bool.or_eq_false_iff] at hbreak
    exact hbreak.1
  have hescape : ∀ c, (escapeChar c).any isAsciiBreak = false := by
    intro c
    rw [hinert.any_escapeChar, Bool.and_eq_false_iff, decide_eq_false_iff_not,
      escapeChar_eq_singleton]
    by_cases hbreak : isAsciiBreak c = true
    · have hlt := hascii _ (by simpa [isAsciiBreak] using hbreak)
      exact Or.inl fun h => absurd h.2.2 (by omega)
    · exact Or.inr (by simpa using hbreak)
  have hany := @any_dumps _ fl _ hinert j
  simp only [hescape, anyChar_false, List.any_eq_false] at hany
  simpa [isLineBreak, hany c hmem] using hc

theorem not_mem_dumps (j : Json F) : '\r' ∉ dumps fl j := fun hmem =>
  absurd (isWideBreak_of_mem_dumps hmem (by decide)) (by decide)

/-! ## Reading a log -/

/-- The text of a value begins with no white space. -/
theorem exists_cons_dumps (j : Json F) : ∃ c text, dumps fl j = c :: text ∧ isSpace c = false := by
  have hword : ∀ {w : Text}, w ≠ [] → (∀ c ∈ w, isWordChar c = true) →
      ∃ c text, w = c :: text ∧ isSpace c = false := by
    intro w hne hw
    obtain ⟨c, text, rfl⟩ := List.exists_cons_of_ne_nil hne
    exact ⟨c, text, rfl, isSpace_of_isWordChar (hw c List.mem_cons_self)⟩
  cases j with
  | null => exact ⟨_, _, rfl, by decide⟩
  | bool b => cases b <;> exact ⟨_, _, rfl, by decide⟩
  | int n => exact hword (decimal_ne_nil n) fun _ hc => isWordChar_decimal hc
  | float x =>
    have hx := fl.isFloatText_repr x
    exact hword (ne_nil_of_isFloatText hx) (isWordChar_of_isFloatText hx)
  | str s => exact ⟨_, _, rfl, by decide⟩
  | arr items => exact ⟨_, _, rfl, by decide⟩
  | obj fields => exact ⟨_, _, rfl, by decide⟩

theorem onlyInStrings_of_isWideBreak {c : Char} (hc : isWideBreak c = true) : OnlyInStrings c := by
  have hcodes : ∀ n ∈ wideBreakCodes, OnlyInStrings (Char.ofNat n) := by
    simp only [wideBreakCodes, List.forall_mem_cons, List.not_mem_nil, false_imp_iff, implies_true,
      and_true]
    refine ⟨?_, ?_, ?_⟩ <;> exact ⟨⟨by decide, by decide, fun F => rfl⟩, by decide⟩
  have hmem : c.toNat ∈ wideBreakCodes := by simpa [isWideBreak] using hc
  simpa using hcodes _ hmem

/-- What the line or lines of one value read as. -/
def readBack (fl : Floats F) (j : Json F) : List (Option (Json F)) :=
  readLog fl (dumps fl j ++ ['\n'])

theorem not_mem_writeLog (values : List (Json F)) : '\r' ∉ writeLog fl values := by
  simp [writeLog, not_mem_dumps]

theorem readLog_eq {log : Text} (h : '\r' ∉ log) :
    readLog fl log = ((splitFrom [] log).filter fun line => !isBlank line).map (loads fl) := by
  rw [readLog, universalNewlines_of_not_mem h, splitlines]

/-- The values of a log are read one after the other. -/
theorem readLog_writeLog (values : List (Json F)) :
    readLog fl (writeLog fl values) = values.flatMap (readBack fl) := by
  induction values with
  | nil => rfl
  | cons j values ih =>
    have hline : '\r' ∉ dumps fl j ++ ['\n'] := by simp [not_mem_dumps]
    have hlog : writeLog fl (j :: values) = dumps fl j ++ '\n' :: writeLog fl values := by
      simp [writeLog]
    rw [List.flatMap_cons, ← ih, readBack, readLog_eq (not_mem_writeLog _), readLog_eq hline,
      readLog_eq (not_mem_writeLog _), hlog, splitFrom_newline (not_mem_dumps j),
      List.filter_append, List.map_append]

/-- A value without wide line breaks in its strings is read back from its line. -/
theorem readBack_of_unbroken {j : Json F} (hc : Canonical j) (h : anyChar isWideBreak j = false) :
    readBack fl j = [some j] := by
  have hline : '\r' ∉ dumps fl j ++ ['\n'] := by simp [not_mem_dumps]
  have hbefore : ∀ c ∈ dumps fl j, isLineBreak c = false := by
    rw [← @any_isLineBreak_dumps _ fl] at h
    simpa using h
  obtain ⟨c, text, hcons, hspace⟩ := @exists_cons_dumps _ fl j
  have hblank : isBlank (dumps fl j) = false := by
    rw [hcons]
    exact isBlank_cons hspace
  rw [readBack, readLog_eq hline, splitFrom_break hbefore (by decide) (by decide)]
  simp [splitFrom, hblank, loads_dumps hc]

/-- A value with one is broken where it stands, and the line before the break is no JSON. -/
theorem none_mem_readBack {j : Json F} (h : anyChar isWideBreak j = true) :
    none ∈ readBack fl j := by
  have hline : '\r' ∉ dumps fl j ++ ['\n'] := by simp [not_mem_dumps]
  rw [← @any_isLineBreak_dumps _ fl] at h
  obtain ⟨c, hfind⟩ := Option.isSome_iff_exists.mp (List.find?_isSome.mpr (List.any_eq_true.mp h))
  obtain ⟨hbreak, before, rest, hsplit, hbefore⟩ := List.find?_eq_some_iff_append.mp hfind
  have hmem : c ∈ dumps fl j := by simp [hsplit]
  have hwide := isWideBreak_of_mem_dumps hmem hbreak
  have hcr : c ≠ '\r' := by
    rintro rfl
    exact absurd hwide (by decide)
  have hcut : loads fl before = none :=
    loads_of_cut (onlyInStrings_of_isWideBreak hwide) hsplit
  have hblank : isBlank before = false := by
    obtain ⟨c', text, hcons, hspace⟩ := @exists_cons_dumps _ fl j
    cases before with
    | nil =>
      have hc : c = c' := by
        rw [hsplit] at hcons
        exact (List.cons.inj hcons).1
      rw [← hc, isSpace_of_isLineBreak hbreak] at hspace
      exact absurd hspace (by decide)
    | cons c'' before =>
      have hc : c'' = c' := by
        rw [hsplit] at hcons
        exact (List.cons.inj hcons).1
      exact isBlank_cons (hc ▸ hspace)
  have hlines : ∃ lines, splitFrom [] (dumps fl j ++ ['\n']) = before :: lines := by
    refine ⟨splitFrom [] (rest ++ ['\n']), ?_⟩
    rw [hsplit, List.append_assoc, List.cons_append]
    exact splitFrom_break (by simpa using hbefore) hbreak hcr _ _
  obtain ⟨lines, hlines⟩ := hlines
  rw [readBack, readLog_eq hline, hlines]
  simp [hblank, hcut]

/-- A log of canonical values reads back exactly where no string in it has a wide line
break. -/
theorem readLog_writeLog_iff {values : List (Json F)} (hc : ∀ j ∈ values, Canonical j) :
    readLog fl (writeLog fl values) = values.map some ↔
      ∀ j ∈ values, anyChar isWideBreak j = false := by
  rw [readLog_writeLog]
  constructor
  · intro h j hj
    by_contra hbroken
    have hnone : none ∈ values.flatMap (readBack fl) :=
      List.mem_flatMap.mpr ⟨j, hj, none_mem_readBack (by simpa using hbroken)⟩
    rw [h] at hnone
    simp at hnone
  · intro h
    induction values with
    | nil => rfl
    | cons j values ih =>
      obtain ⟨hj, hvalues⟩ := List.forall_mem_cons.mp h
      obtain ⟨hcj, hcvalues⟩ := List.forall_mem_cons.mp hc
      rw [List.flatMap_cons, readBack_of_unbroken hcj hj, ih hcvalues hvalues]
      rfl

/-- A broken value leaves a line that is no JSON. -/
theorem none_mem_readLog {values : List (Json F)} {j : Json F} (hj : j ∈ values)
    (h : anyChar isWideBreak j = true) : none ∈ readLog fl (writeLog fl values) := by
  rw [readLog_writeLog]
  exact List.mem_flatMap.mpr ⟨j, hj, none_mem_readBack h⟩

end JsonText
