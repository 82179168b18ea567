import AgentMemory.Lib.JsonRead

/-!
# JSON in a Python process

`json.loads` and `json.dumps(ensure_ascii=False)` as a running program meets them. A Python
`str` may hold surrogates, which an escape can bring in and which no UTF-8 stream takes;
reading can raise more than `JSONDecodeError`, since nesting is bounded by the recursion limit
and integers by the digit limit. The reader is one pass over the characters that stops at the
first flaw, so which of the two comes first is settled as in the decoder.
-/

namespace PyJson

open PyText JsonText

/-- A code point of a Python `str`; `surrogate n` is U+D800 + n. -/
inductive PyChar where
  | char (c : Char)
  | surrogate (n : Fin 2048)
  deriving DecidableEq

/-- A Python `str`. -/
abbrev Str := List PyChar

/-- A literal of the source. -/
def lit (s : String) : Str := s.toList.map .char

/-- A Python value that JSON can be read as. An object is a dict in insertion order. -/
inductive Value (F : Type) where
  | null
  | bool (b : Bool)
  | int (n : Int)
  | float (x : F)
  | str (s : Str)
  | arr (items : List (Value F))
  | obj (fields : List (Str × Value F))

def PyChar.isAscii : PyChar → Bool
  | .char c => decide (c.toNat < 128)
  | .surrogate _ => false

/-- A value that is this string. -/
def Value.isStr {F : Type} (s : Str) : Value F → Bool
  | .str t => decide (t = s)
  | _ => false

/-- A character of ASCII that is no control character. -/
def PyChar.isPrintable : PyChar → Bool
  | .char c => decide (32 ≤ c.toNat ∧ c.toNat < 127)
  | .surrogate _ => false

/-- What the interpreter brings: its floating-point numbers, its limits, the texts of its
`repr` and of a `JSONDecodeError`, and what `sys.stdout` can encode. -/
structure Runtime (F : Type) where
  floats : Floats F
  isZero : F → Bool
  /-- Nesting at which `json.loads` raises `RecursionError`. -/
  loadDepth : Nat
  /-- Nesting up to which `json.dumps` does not. -/
  dumpDepth : Nat
  /-- A number of digits from which `int` raises `ValueError`. -/
  tooManyDigits : Nat → Bool
  /-- `str` of a value that is no `str`, or the text of what it raised. -/
  repr : Value F → Except Str Str
  decodeMessage : Str → Str
  encodes : PyChar → Bool
  decodeMessage_ascii : ∀ s, ∀ c ∈ decodeMessage s, c.isAscii = true
  encodes_ascii : ∀ c : PyChar, c.isAscii = true → encodes c = true
  dumpDepth_pos : 4 ≤ dumpDepth

variable {F : Type}

/-! ## Reading -/

/-- How reading fails: with a `JSONDecodeError` or with another exception. -/
inductive Flaw where
  | decode
  | raised
  deriving DecidableEq, Repr

/-- The decimal digits a text begins with. -/
def spanDigits : Str → Text × Str
  | .char c :: rest =>
    if c.isDigit = true then
      let (digits, rest') := spanDigits rest
      (c :: digits, rest')
    else ([], .char c :: rest)
  | s => ([], s)

/-- The sign and the integer part of a number. -/
def spanInteger : Str → Option (Text × Str)
  | .char '-' :: rest => (unsignedPart rest).map fun r => ('-' :: r.1, r.2)
  | s => unsignedPart s
where
  /-- `0`, or digits that do not begin with `0`. -/
  unsignedPart : Str → Option (Text × Str)
    | .char '0' :: rest => some (['0'], rest)
    | s => if (spanDigits s).1 = [] then none else some (spanDigits s)

/-- A fraction, if one follows. -/
def spanFraction : Str → Text × Str
  | .char '.' :: rest =>
    if (spanDigits rest).1 = [] then ([], .char '.' :: rest)
    else ('.' :: (spanDigits rest).1, (spanDigits rest).2)
  | s => ([], s)

/-- The sign of an exponent. -/
def spanSign : Str → Text × Str
  | .char '+' :: rest => (['+'], rest)
  | .char '-' :: rest => (['-'], rest)
  | s => ([], s)

/-- An exponent, if one follows. -/
def spanExponent : Str → Text × Str
  | .char e :: rest =>
    let digits := spanDigits (spanSign rest).2
    if (e = 'e' ∨ e = 'E') ∧ digits.1 ≠ [] then (e :: (spanSign rest).1 ++ digits.1, digits.2)
    else ([], .char e :: rest)
  | s => ([], s)

/-- A word outside strings: a constant, or the longest number it begins with. -/
def readWord (rt : Runtime F) (word : Str) : Except Flaw (Value F) :=
  if word = lit "null" then .ok .null
  else if word = lit "true" then .ok (.bool true)
  else if word = lit "false" then .ok (.bool false)
  else if word = lit "NaN" then .ok (.float (rt.floats.ofText "NaN".toList))
  else if word = lit "Infinity" then .ok (.float (rt.floats.ofText "Infinity".toList))
  else if word = lit "-Infinity" then .ok (.float (rt.floats.ofText "-Infinity".toList))
  else match spanInteger word with
    | none => .error .decode
    | some (integer, rest) =>
      let fraction := spanFraction rest
      let exponent := spanExponent fraction.2
      let tail := fraction.1 ++ exponent.1
      -- the number is converted before what follows it is looked at
      if tail = [] ∧ rt.tooManyDigits (unsigned integer).length = true then .error .raised
      else if exponent.2 ≠ [] then .error .decode
      else if tail = [] then .ok (.int (intOf integer))
      else .ok (.float (rt.floats.ofText (integer ++ tail)))

/-- The code point of a number. -/
def codePoint (n : Nat) : PyChar :=
  if 0xD800 ≤ n ∧ n < 0xE000 then .surrogate (Fin.ofNat 2048 (n - 0xD800))
  else .char (Char.ofNat n)

/-- Where the reader is: between strings with the word it is reading, in a string, after a
backslash, or in the digits of an escape. `high` is a high surrogate that an escape has just
brought and that the next escape may complete. -/
inductive Scan where
  | out (word : Str)
  | inStr (acc : Str) (high : Option Nat)
  | esc (acc : Str) (high : Option Nat)
  | hex (acc : Str) (high : Option Nat) (digits : Text)

/-- The string so far, a high surrogate that stays alone included. -/
def alone (acc : Str) : Option Nat → Str
  | none => acc
  | some n => acc ++ [codePoint n]

/-- The end of a `\u` escape. -/
def endEscape (acc : Str) (high : Option Nat) (n : Nat) : Scan :=
  match high with
  | some half =>
    if 0xDC00 ≤ n ∧ n < 0xE000 then
      .inStr (acc ++ [.char (Char.ofNat (0x10000 + (half - 0xD800) * 0x400 + (n - 0xDC00)))]) none
    else if 0xD800 ≤ n ∧ n < 0xDC00 then .inStr (alone acc high) (some n)
    else .inStr (alone acc high ++ [codePoint n]) none
  | none =>
    if 0xD800 ≤ n ∧ n < 0xDC00 then .inStr acc (some n) else .inStr (acc ++ [codePoint n]) none

/-- What an open array or object holds so far, an object with the key being read. -/
inductive Frame (F : Type) where
  | arr (items : List (Value F))
  | obj (fields : List (Str × Value F)) (key : Str)

/-- What the reader expects next. -/
inductive Expect (F : Type) where
  | value
  /-- After `[`: a value or the end. -/
  | first
  /-- After `{`: a key or the end. -/
  | firstKey
  | key (fields : List (Str × Value F))
  | colon (fields : List (Str × Value F)) (key : Str)
  /-- After this value. -/
  | after (v : Value F)

/-- `d[key] = value`: a key that is there keeps its place. -/
def setItem (key : Str) (v : Value F) : List (Str × Value F) → List (Str × Value F)
  | [] => [(key, v)]
  | (k, w) :: rest => if k = key then (key, v) :: rest else (k, w) :: setItem key v rest

/-- A value has ended. -/
def takeValue (v : Value F) : Expect F → List (Frame F) → Except Flaw (Expect F × List (Frame F))
  | .value, stack => .ok (.after v, stack)
  | .first, stack => .ok (.after v, .arr [] :: stack)
  | _, _ => .error .decode

/-- A string has ended. -/
def takeStr (s : Str) : Expect F → List (Frame F) → Except Flaw (Expect F × List (Frame F))
  | .firstKey, stack => .ok (.colon [] s, stack)
  | .key fields, stack => .ok (.colon fields s, stack)
  | e, stack => takeValue (.str s) e stack

/-- A word has ended; nothing is read of it where no value is expected. -/
def takeWord (rt : Runtime F) (word : Str) (e : Expect F) (stack : List (Frame F)) :
    Except Flaw (Expect F × List (Frame F)) :=
  if word = [] then .ok (e, stack)
  else match e with
    | .value | .first => (readWord rt word).bind fun v => takeValue v e stack
    | _ => .error .decode

/-- An opening bracket: `scan_once` enters one recursion deeper. -/
def openValue (rt : Runtime F) (inside : Expect F) :
    Expect F → List (Frame F) → Except Flaw (Expect F × List (Frame F))
  | .value, stack =>
    if rt.loadDepth ≤ stack.length then .error .raised else .ok (inside, stack)
  | .first, stack =>
    if rt.loadDepth ≤ stack.length + 1 then .error .raised else .ok (inside, .arr [] :: stack)
  | _, _ => .error .decode

/-- A punctuation mark. -/
def takeMark (rt : Runtime F) (c : Char) :
    Expect F → List (Frame F) → Except Flaw (Expect F × List (Frame F))
  | e, stack =>
    match c, e, stack with
    | '[', e, stack => openValue rt .first e stack
    | '{', e, stack => openValue rt .firstKey e stack
    | ']', .first, stack => .ok (.after (.arr []), stack)
    | ']', .after v, .arr items :: stack => .ok (.after (.arr (items ++ [v])), stack)
    | '}', .firstKey, stack => .ok (.after (.obj []), stack)
    | '}', .after v, .obj fields k :: stack => .ok (.after (.obj (setItem k v fields)), stack)
    | ':', .colon fields k, stack => .ok (.value, .obj fields k :: stack)
    | ',', .after v, .arr items :: stack => .ok (.value, .arr (items ++ [v]) :: stack)
    | ',', .after v, .obj fields k :: stack => .ok (.key (setItem k v fields), stack)
    | _, _, _ => .error .decode

/-- The reader between two characters. -/
structure Reader (F : Type) where
  scan : Scan
  expect : Expect F
  stack : List (Frame F)

def isMark (c : Char) : Bool := c ∈ ['[', ']', '{', '}', ',', ':']

/-- One character outside strings. -/
def stepOut (rt : Runtime F) (word : Str) (e : Expect F) (stack : List (Frame F)) (c : PyChar) :
    Except Flaw (Reader F) :=
  match c with
  | .char c =>
    if c = '"' then
      (takeWord rt word e stack).map fun r => ⟨.inStr [] none, r.1, r.2⟩
    else if isWs c = true then (takeWord rt word e stack).map fun r => ⟨.out [], r.1, r.2⟩
    else if isMark c = true then
      ((takeWord rt word e stack).bind fun r => takeMark rt c r.1 r.2).map fun r =>
        ⟨.out [], r.1, r.2⟩
    else .ok ⟨.out (word ++ [.char c]), e, stack⟩
  | c => .ok ⟨.out (word ++ [c]), e, stack⟩

/-- One character of `json.loads`. -/
def step (rt : Runtime F) (r : Reader F) (c : PyChar) : Except Flaw (Reader F) :=
  match r.scan with
  | .out word => stepOut rt word r.expect r.stack c
  | .inStr acc high =>
    if c = .char '"' then
      (takeStr (alone acc high) r.expect r.stack).map fun p => ⟨.out [], p.1, p.2⟩
    else if c = .char '\\' then .ok ⟨.esc acc high, r.expect, r.stack⟩
    else match c with
      | .char d =>
        if d.toNat < 32 then .error .decode
        else .ok ⟨.inStr (alone acc high ++ [c]) none, r.expect, r.stack⟩
      | _ => .ok ⟨.inStr (alone acc high ++ [c]) none, r.expect, r.stack⟩
  | .esc acc high =>
    match c with
    | .char d =>
      if d = 'u' then .ok ⟨.hex acc high [], r.expect, r.stack⟩
      else match unescape d with
        | some d' => .ok ⟨.inStr (alone acc high ++ [.char d']) none, r.expect, r.stack⟩
        | none => .error .decode
    | _ => .error .decode
  | .hex acc high digits =>
    match c with
    | .char d =>
      if digits.length < 3 then .ok ⟨.hex acc high (digits ++ [d]), r.expect, r.stack⟩
      else match hexNumber (digits ++ [d]) with
        | some n => .ok ⟨endEscape acc high n, r.expect, r.stack⟩
        | none => .error .decode
    | _ => .error .decode

/-- The end of the text. -/
def finish (rt : Runtime F) (r : Reader F) : Except Flaw (Value F) :=
  match r.scan with
  | .out word => (takeWord rt word r.expect r.stack).bind fun p =>
    match p.1, p.2 with
    | .after v, [] => .ok v
    | _, _ => .error .decode
  | _ => .error .decode

/-- `json.loads`. -/
def loads (rt : Runtime F) (text : Str) : Except Flaw (Value F) :=
  (text.foldlM (step rt) ⟨.out [], .value, []⟩).bind (finish rt)

/-! ## Writing -/

/-- A character inside a string: only those that JSON requires are escaped. -/
def escape : PyChar → Str
  | .char c => (escapeChar c).map .char
  | .surrogate n => [.surrogate n]

/-- A string. -/
def quote (s : Str) : Str := lit "\"" ++ s.flatMap escape ++ lit "\""

/-- The separators of `json.dumps` and whether it sorts keys. -/
structure Style where
  comma : String
  colon : String
  sortKeys : Bool

/-- `separators=(",", ":")`. -/
def compact : Style := ⟨",", ":", false⟩

/-- `sort_keys=True` with the default separators. -/
def sortedStyle : Style := ⟨", ", ": ", true⟩

/-- The number of a code point, which strings are ordered by. -/
def PyChar.code : PyChar → Nat
  | .char c => c.toNat
  | .surrogate n => 0xD800 + n.val

/-- The entries of an object in the order they are written. -/
def Style.order (st : Style) (entries : List (Str × Str)) : List (Str × Str) :=
  if st.sortKeys = true then
    entries.mergeSort fun a b => decide (a.1.map PyChar.code ≤ b.1.map PyChar.code)
  else entries

/-- Texts with a separator between them. -/
def joinWith (sep : Str) : List Str → Str
  | [] => []
  | [t] => t
  | t :: rest => t ++ sep ++ joinWith sep rest

mutual
/-- `json.dumps(value, ensure_ascii=False, ...)`. -/
def dumps (rt : Runtime F) (st : Style) : Value F → Str
  | .null => lit "null"
  | .bool true => lit "true"
  | .bool false => lit "false"
  | .int n => (decimal n).map .char
  | .float x => (rt.floats.repr x).map .char
  | .str s => quote s
  | .arr items => lit "[" ++ joinWith (lit st.comma) (dumpsItems rt st items) ++ lit "]"
  | .obj fields =>
    lit "\x7b" ++ joinWith (lit st.comma) ((st.order (dumpsFields rt st fields)).map fun entry =>
      quote entry.1 ++ lit st.colon ++ entry.2) ++ lit "\x7d"
def dumpsItems (rt : Runtime F) (st : Style) : List (Value F) → List Str
  | [] => []
  | v :: items => dumps rt st v :: dumpsItems rt st items
def dumpsFields (rt : Runtime F) (st : Style) : List (Str × Value F) → List (Str × Str)
  | [] => []
  | (k, v) :: fields => (k, dumps rt st v) :: dumpsFields rt st fields
end

mutual
/-- The nesting of a value. -/
def depth : Value F → Nat
  | .arr items => depthItems items + 1
  | .obj fields => depthFields fields + 1
  | _ => 0
def depthItems : List (Value F) → Nat
  | [] => 0
  | v :: items => max (depth v) (depthItems items)
def depthFields : List (Str × Value F) → Nat
  | [] => 0
  | (_, v) :: fields => max (depth v) (depthFields fields)
end

mutual
/-- The characters of the strings and keys of a value. -/
def chars : Value F → Str
  | .str s => s
  | .arr items => charsItems items
  | .obj fields => charsFields fields
  | _ => []
def charsItems : List (Value F) → Str
  | [] => []
  | v :: items => chars v ++ charsItems items
def charsFields : List (Str × Value F) → Str
  | [] => []
  | (k, v) :: fields => k ++ chars v ++ charsFields fields
end

/-- `sys.stdout.write(json.dumps(value, ensure_ascii=False, separators=(",", ":")) + "\n")`:
the line that is written, `none` where it raises. An integer that was read is short enough to
be written. -/
def writeLine (rt : Runtime F) (v : Value F) : Option Str :=
  if depth v ≤ rt.dumpDepth ∧ (dumps rt compact v).all rt.encodes = true then
    some (dumps rt compact v ++ lit "\n")
  else none

/-! ## What a written text holds -/

theorem isAscii_of_isPrintable {c : PyChar} (h : c.isPrintable = true) : c.isAscii = true := by
  cases c with
  | char c =>
    simp only [PyChar.isPrintable, decide_eq_true_eq] at h
    simp only [PyChar.isAscii, decide_eq_true_eq]
    omega
  | surrogate n => cases h

theorem isPrintable_of_isWordChar {c : Char} (h : isWordChar c = true) :
    (PyChar.char c).isPrintable = true := by
  have hmarks : ∀ d ∈ ['-', '+', '.'], (PyChar.char d).isPrintable = true :=
    List.all_eq_true.mp (by decide)
  rw [isWordChar, Bool.or_eq_true, decide_eq_true_eq] at h
  rcases h with h | h
  · simp only [Char.isAlphanum, Char.isAlpha, Char.isUpper, Char.isLower, Char.isDigit,
      Bool.or_eq_true, Bool.and_eq_true, decide_eq_true_eq, UInt32.le_iff_toNat_le, ge_iff_le] at h
    simp only [PyChar.isPrintable, Char.toNat, decide_eq_true_eq]
    have hvals : 'A'.val.toNat = 65 ∧ 'Z'.val.toNat = 90 ∧ 'a'.val.toNat = 97 ∧
        'z'.val.toNat = 122 ∧ '0'.val.toNat = 48 ∧ '9'.val.toNat = 57 :=
      ⟨rfl, rfl, rfl, rfl, rfl, rfl⟩
    omega
  · exact hmarks c h

/-- A character is written as itself, or it is ASCII and written in printable characters. -/
theorem escape_cases (c : PyChar) :
    escape c = [c] ∨ c.isAscii = true ∧ ∀ d ∈ escape c, d.isPrintable = true := by
  cases c with
  | surrogate n => exact .inl rfl
  | char c =>
    have hhex : ∀ n < 16, (PyChar.char (hexDigit n)).isPrintable = true := by decide
    have hletters : ∀ d ∈ ['\\', '"', 'n', 'r', 't', 'b', 'f', 'u', '0'],
        (PyChar.char d).isPrintable = true := List.all_eq_true.mp (by decide)
    simp only [escape, escapeChar, PyChar.isAscii]
    split_ifs with h₁ h₂ h₃ h₄ h₅ h₆ h₇ h₈
    · subst h₁
      exact .inr (by decide)
    · subst h₂
      exact .inr (by decide)
    · subst h₃
      exact .inr (by decide)
    · subst h₄
      exact .inr (by decide)
    · subst h₅
      exact .inr (by decide)
    · refine .inr ⟨decide_eq_true (by omega), ?_⟩
      simp [hletters]
    · refine .inr ⟨decide_eq_true (by omega), ?_⟩
      simp [hletters]
    · refine .inr ⟨decide_eq_true (by omega), ?_⟩
      simp [hletters, hhex (c.toNat / 16) (by omega), hhex (c.toNat % 16) (by omega)]
    · exact .inl rfl

section Dumps

variable {P : PyChar → Prop} (hP : ∀ c : PyChar, c.isPrintable = true → P c)

include hP

theorem forall_lit {s : String} (h : ∀ c ∈ s.toList, (PyChar.char c).isPrintable = true) :
    ∀ c ∈ lit s, P c := by
  intro c hc
  obtain ⟨d, hd, rfl⟩ := List.mem_map.mp hc
  exact hP _ (h d hd)

theorem forall_quote (s : Str) :
    (∀ c ∈ quote s, P c) ↔ ∀ c ∈ s, ∀ d ∈ escape c, P d := by
  have hmark : ∀ c ∈ lit "\"", P c := forall_lit hP (List.all_eq_true.mp (by decide))
  rw [quote, List.forall_mem_append, List.forall_mem_append]
  constructor
  · rintro ⟨⟨-, h⟩, -⟩ c hc d hd
    exact h d (List.mem_flatMap.mpr ⟨c, hc, hd⟩)
  · intro h
    refine ⟨⟨hmark, ?_⟩, hmark⟩
    intro d hd
    obtain ⟨c, hc, hd⟩ := List.mem_flatMap.mp hd
    exact h c hc d hd

omit hP in
theorem forall_joinWith {sep : Str} (hsep : ∀ c ∈ sep, P c) (texts : List Str) :
    (∀ c ∈ joinWith sep texts, P c) ↔ ∀ t ∈ texts, ∀ c ∈ t, P c := by
  fun_induction joinWith sep texts with
  | case1 => simp
  | case2 t => simp
  | case3 t rest _ ih =>
    rw [List.forall_mem_append, List.forall_mem_append, ih, List.forall_mem_cons]
    constructor
    · rintro ⟨⟨ht, -⟩, hrest⟩
      exact ⟨ht, hrest⟩
    · rintro ⟨ht, hrest⟩
      exact ⟨⟨ht, hsep⟩, hrest⟩

/-- The separators are printable. -/
def Style.IsPrintable (st : Style) : Prop :=
  ∀ c ∈ st.comma.toList ++ st.colon.toList, (PyChar.char c).isPrintable = true

omit hP in
theorem mem_order {st : Style} {entries : List (Str × Str)} {entry : Str × Str} :
    entry ∈ st.order entries ↔ entry ∈ entries := by
  unfold Style.order
  split
  · exact List.mem_mergeSort
  · exact Iff.rfl

variable {rt : Runtime F} {st : Style} (hst : st.IsPrintable)

include hP hst

set_option linter.unusedSectionVars false in
mutual
/-- What holds of printable characters holds of all that a value is written with exactly when it
holds of what its strings are written with. -/
theorem forall_dumps : ∀ v : Value F,
    (∀ c ∈ dumps rt st v, P c) ↔ ∀ c ∈ chars v, ∀ d ∈ escape c, P d
  | .null => by
    simp only [dumps, chars, List.not_mem_nil, false_implies, implies_true, iff_true]
    exact forall_lit hP (List.all_eq_true.mp (by decide))
  | .bool true => by
    simp only [dumps, chars, List.not_mem_nil, false_implies, implies_true, iff_true]
    exact forall_lit hP (List.all_eq_true.mp (by decide))
  | .bool false => by
    simp only [dumps, chars, List.not_mem_nil, false_implies, implies_true, iff_true]
    exact forall_lit hP (List.all_eq_true.mp (by decide))
  | .int n => by
    simp only [dumps, chars, List.not_mem_nil, false_implies, implies_true, iff_true,
      List.forall_mem_map]
    exact fun c hc => hP _ (isPrintable_of_isWordChar (isWordChar_decimal hc))
  | .float x => by
    simp only [dumps, chars, List.not_mem_nil, false_implies, implies_true, iff_true,
      List.forall_mem_map]
    intro c hc
    have hword := isWordChar_of_isFloatText (rt.floats.isFloatText_repr x) c hc
    exact hP _ (isPrintable_of_isWordChar hword)
  | .str s => forall_quote hP s
  | .arr items => by
    have hopen : ∀ c ∈ lit "[", P c := forall_lit hP (List.all_eq_true.mp (by decide))
    have hclose : ∀ c ∈ lit "]", P c := forall_lit hP (List.all_eq_true.mp (by decide))
    have hcomma : ∀ c ∈ lit st.comma, P c :=
      forall_lit hP fun c hc => hst c (List.mem_append_left _ hc)
    rw [dumps, List.forall_mem_append, List.forall_mem_append, forall_joinWith hcomma,
      forall_dumpsItems items, chars]
    exact ⟨fun h => h.1.2, fun h => ⟨⟨hopen, h⟩, hclose⟩⟩
  | .obj fields => by
    have hopen : ∀ c ∈ lit "\x7b", P c := forall_lit hP (List.all_eq_true.mp (by decide))
    have hclose : ∀ c ∈ lit "\x7d", P c := forall_lit hP (List.all_eq_true.mp (by decide))
    have hcomma : ∀ c ∈ lit st.comma, P c :=
      forall_lit hP fun c hc => hst c (List.mem_append_left _ hc)
    have hcolon : ∀ c ∈ lit st.colon, P c :=
      forall_lit hP fun c hc => hst c (List.mem_append_right _ hc)
    rw [dumps, List.forall_mem_append, List.forall_mem_append, forall_joinWith hcomma,
      List.forall_mem_map, chars, ← forall_dumpsFields fields]
    constructor
    · rintro ⟨⟨-, h⟩, -⟩ entry hentry
      have hall := h entry (mem_order.mpr hentry)
      rw [List.forall_mem_append, List.forall_mem_append] at hall
      exact ⟨(forall_quote hP _).mp hall.1.1, hall.2⟩
    · intro h
      refine ⟨⟨hopen, ?_⟩, hclose⟩
      intro entry hentry
      obtain ⟨hkey, hvalue⟩ := h entry (mem_order.mp hentry)
      rw [List.forall_mem_append, List.forall_mem_append]
      exact ⟨⟨(forall_quote hP _).mpr hkey, hcolon⟩, hvalue⟩
theorem forall_dumpsItems : ∀ items : List (Value F),
    (∀ t ∈ dumpsItems rt st items, ∀ c ∈ t, P c) ↔ ∀ c ∈ charsItems items, ∀ d ∈ escape c, P d
  | [] => by simp [dumpsItems, charsItems]
  | v :: items => by
    rw [dumpsItems, charsItems, List.forall_mem_cons, List.forall_mem_append, forall_dumps v,
      forall_dumpsItems items]
theorem forall_dumpsFields : ∀ fields : List (Str × Value F),
    (∀ entry ∈ dumpsFields rt st fields, (∀ c ∈ entry.1, ∀ d ∈ escape c, P d) ∧ ∀ c ∈ entry.2, P c) ↔
      ∀ c ∈ charsFields fields, ∀ d ∈ escape c, P d
  | [] => by simp [dumpsFields, charsFields]
  | (k, v) :: fields => by
    rw [dumpsFields, charsFields, List.forall_mem_cons, List.forall_mem_append,
      List.forall_mem_append, forall_dumps v, forall_dumpsFields fields]
end

end Dumps

theorem isPrintable_compact : compact.IsPrintable := List.all_eq_true.mp (by decide)

theorem isPrintable_sortedStyle : sortedStyle.IsPrintable := List.all_eq_true.mp (by decide)

/-- Every character of the text can be encoded. -/
def Speakable (rt : Runtime F) (s : Str) : Prop := ∀ c ∈ s, rt.encodes c = true

variable {rt : Runtime F}

theorem speakable_of_ascii {s : Str} (h : ∀ c ∈ s, c.isAscii = true) : Speakable rt s :=
  fun c hc => rt.encodes_ascii c (h c hc)

theorem speakable_append {s t : Str} : Speakable rt (s ++ t) ↔ Speakable rt s ∧ Speakable rt t :=
  List.forall_mem_append

/-- A written value can be encoded exactly when its strings can. -/
theorem speakable_dumps {st : Style} (hst : st.IsPrintable) (v : Value F) :
    Speakable rt (dumps rt st v) ↔ Speakable rt (chars v) := by
  have hP (c : PyChar) (h : c.isPrintable = true) : rt.encodes c = true :=
    rt.encodes_ascii c (isAscii_of_isPrintable h)
  have hescape (c : PyChar) : (∀ d ∈ escape c, rt.encodes d = true) ↔ rt.encodes c = true := by
    rcases escape_cases c with hself | ⟨hascii, hall⟩
    · simp [hself]
    · exact iff_of_true (fun d hd => hP d (hall d hd)) (rt.encodes_ascii c hascii)
  rw [Speakable, forall_dumps hP hst]
  exact forall_congr' fun c => imp_congr_right fun _ => hescape c

/-- A written value is one line. -/
theorem newline_notMem_dumps {st : Style} (hst : st.IsPrintable) (v : Value F) :
    PyChar.char '\n' ∉ dumps rt st v := by
  have hP (c : PyChar) (h : c.isPrintable = true) : c ≠ .char '\n' := by
    rintro rfl
    exact absurd h (by decide)
  have hall : ∀ c ∈ dumps rt st v, c ≠ .char '\n' := by
    rw [forall_dumps hP hst]
    intro c _ d hd
    rcases escape_cases c with hself | ⟨-, hprintable⟩
    · rw [hself, List.mem_singleton] at hd
      subst hd
      rintro rfl
      exact absurd hself (by decide)
    · exact hP d (hprintable d hd)
  intro hmem
  exact hall _ hmem rfl

/-- A value that `json.dumps` and the stream take, this many levels down. -/
def Prints (rt : Runtime F) (levels : Nat) (v : Value F) : Prop :=
  depth v + levels ≤ rt.dumpDepth ∧ Speakable rt (chars v)

/-- The value of each entry prints one level further down. -/
theorem prints_obj {levels : Nat} {fields : List (Str × Value F)} :
    Prints rt levels (.obj fields) ↔ levels + 1 ≤ rt.dumpDepth ∧
      ∀ entry ∈ fields, Speakable rt entry.1 ∧ Prints rt (levels + 1) entry.2 := by
  unfold Prints
  rw [depth, chars]
  induction fields with
  | nil =>
    rw [depthFields, charsFields]
    constructor
    · rintro ⟨hdepth, -⟩
      exact ⟨by omega, fun _ hmem => absurd hmem List.not_mem_nil⟩
    · rintro ⟨hdepth, -⟩
      exact ⟨by omega, fun _ hmem => absurd hmem List.not_mem_nil⟩
  | cons entry rest ih =>
    obtain ⟨key, v⟩ := entry
    rw [depthFields, charsFields, speakable_append, speakable_append, List.forall_mem_cons]
    constructor
    · rintro ⟨hdepth, ⟨hkey, hv⟩, hrest⟩
      obtain ⟨hlevels, hall⟩ := ih.mp ⟨by omega, hrest⟩
      refine ⟨hlevels, ⟨hkey, ?_, hv⟩, hall⟩
      simp only
      omega
    · rintro ⟨hlevels, ⟨hkey, hdepth, hv⟩, hall⟩
      obtain ⟨hrest, hchars⟩ := ih.mpr ⟨hlevels, hall⟩
      simp only at hdepth
      exact ⟨by omega, ⟨hkey, hv⟩, hchars⟩

/-- So does each item. -/
theorem prints_arr {levels : Nat} {items : List (Value F)} :
    Prints rt levels (.arr items) ↔
      levels + 1 ≤ rt.dumpDepth ∧ ∀ v ∈ items, Prints rt (levels + 1) v := by
  unfold Prints
  rw [depth, chars]
  induction items with
  | nil =>
    rw [depthItems, charsItems]
    constructor
    · rintro ⟨hdepth, -⟩
      exact ⟨by omega, fun _ hmem => absurd hmem List.not_mem_nil⟩
    · rintro ⟨hdepth, -⟩
      exact ⟨by omega, fun _ hmem => absurd hmem List.not_mem_nil⟩
  | cons v rest ih =>
    rw [depthItems, charsItems, speakable_append, List.forall_mem_cons]
    constructor
    · rintro ⟨hdepth, hv, hrest⟩
      obtain ⟨hlevels, hall⟩ := ih.mp ⟨by omega, hrest⟩
      exact ⟨hlevels, ⟨by omega, hv⟩, hall⟩
    · rintro ⟨hlevels, ⟨hdepth, hv⟩, hall⟩
      obtain ⟨hrest, hchars⟩ := ih.mpr ⟨hlevels, hall⟩
      exact ⟨by omega, hv, hchars⟩

theorem prints_str {levels : Nat} {text : Str} :
    Prints rt levels (.str text) ↔ levels ≤ rt.dumpDepth ∧ Speakable rt text := by
  simp only [Prints, depth, chars, Nat.zero_add]

theorem prints_int {levels : Nat} {n : Int} :
    Prints rt levels (.int n) ↔ levels ≤ rt.dumpDepth := by
  simp only [Prints, depth, chars, Nat.zero_add]
  exact and_iff_left fun c hc => absurd hc List.not_mem_nil

/-- What is written for a value, if it can be. -/
theorem writeLine_eq_some {v : Value F} {line : Str} :
    writeLine rt v = some line ↔ Prints rt 0 v ∧ line = dumps rt compact v ++ lit "\n" := by
  have htext : (dumps rt compact v).all rt.encodes = true ↔ Speakable rt (chars v) :=
    List.all_eq_true.trans (speakable_dumps isPrintable_compact v)
  unfold writeLine Prints
  rw [Nat.add_zero, ← htext]
  split
  · rename_i h
    rw [Option.some.injEq, eq_comm]
    exact (and_iff_right h).symm
  · rename_i h
    constructor
    · intro hline
      cases hline
    · exact fun hline => absurd hline.1 h

end PyJson
