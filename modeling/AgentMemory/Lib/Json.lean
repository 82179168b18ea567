import AgentMemory.Lib.Dicts
import AgentMemory.Lib.PyText

/-!
# Compact JSON texts

JSON as Python's `json` module writes it with `ensure_ascii=False`, `sort_keys=True` and no
spaces (`dumps`), and as it reads it back (`loads`). A value is what Python's `==` sees of
it: an object is a dictionary in key order. The reader is a lexer, one character at a time,
and a pushdown parser over its tokens. `loads_dumps` is the round trip, and
`loads_of_cut` says that a text cut off at a character that JSON only allows inside a
string cannot be read.

A floating-point number is a value of a type `F`; what its text looks like and that reading
the text gives the number back is what `Floats` asks for.
-/

namespace JsonText

open Dicts PyText

/-- A JSON value with string keys. -/
inductive Json (F : Type) where
  | null
  | bool (b : Bool)
  | int (n : Int)
  | float (x : F)
  | str (s : Text)
  | arr (items : List (Json F))
  | obj (fields : List (Text × Json F))

/-! ## Numbers -/

/-- `0` or digits that do not begin with `0`. -/
def isIntPart (digits : Text) : Bool := digits = ['0'] || (digits ≠ [] && digits.head? ≠ some '0')

/-- An exponent, or nothing. -/
def isExponent : Text → Bool
  | [] => true
  | c :: rest =>
    let digits := match rest with
      | '+' :: digits => digits
      | '-' :: digits => digits
      | digits => digits
    (c = 'e' || c = 'E') && digits ≠ [] && digits.all Char.isDigit

/-- A fraction or an exponent or both. -/
def isFractional : Text → Bool
  | [] => false
  | '.' :: rest => rest.takeWhile Char.isDigit ≠ [] && isExponent (rest.dropWhile Char.isDigit)
  | text => isExponent text

/-- A number without its sign. -/
def unsigned : Text → Text
  | '-' :: text => text
  | text => text

/-- The constants that are no JSON but that Python writes and reads. -/
def floatConstants : List Text := ["NaN".toList, "Infinity".toList, "-Infinity".toList]

/-- A text that is read as a floating-point number. -/
def isFloatText (text : Text) : Bool :=
  text ∈ floatConstants ||
    (isIntPart ((unsigned text).takeWhile Char.isDigit) &&
      isFractional ((unsigned text).dropWhile Char.isDigit))

/-- A text that is read as an integer. -/
def isIntText (text : Text) : Bool :=
  isIntPart (unsigned text) && (unsigned text).all Char.isDigit

/-- The floating-point numbers of a runtime with their texts. -/
structure Floats (F : Type) where
  repr : F → Text
  ofText : Text → F
  isFloatText_repr : ∀ x, isFloatText (repr x) = true
  ofText_repr : ∀ x, ofText (repr x) = x

/-- An integer in decimal. -/
def decimal : Int → Text
  | .ofNat n => Nat.toDigits 10 n
  | .negSucc n => '-' :: Nat.toDigits 10 (n + 1)

/-- The integer a text denotes. -/
def intOf (text : Text) : Int :=
  match text with
  | '-' :: digits => -(Nat.ofDigitChars 10 digits 0 : Int)
  | digits => (Nat.ofDigitChars 10 digits 0 : Int)

/-! ## Writing -/

/-- The lower-case digit of a number below 16. -/
def hexDigit (n : Nat) : Char := n.digitChar

/-- A character inside a string. -/
def escapeChar (c : Char) : Text :=
  if c = '"' then ['\\', '"']
  else if c = '\\' then ['\\', '\\']
  else if c = '\n' then ['\\', 'n']
  else if c = '\r' then ['\\', 'r']
  else if c = '\t' then ['\\', 't']
  else if c.toNat = 8 then ['\\', 'b']
  else if c.toNat = 12 then ['\\', 'f']
  else if c.toNat < 32 then ['\\', 'u', '0', '0', hexDigit (c.toNat / 16), hexDigit (c.toNat % 16)]
  else [c]

/-- A string. -/
def quote (s : Text) : Text := '"' :: s.flatMap escapeChar ++ ['"']

variable {F : Type}

mutual
/-- `json.dumps(value, ensure_ascii=False, sort_keys=True, separators=(",", ":"))`. -/
def dumps (fl : Floats F) : Json F → Text
  | .null => "null".toList
  | .bool true => "true".toList
  | .bool false => "false".toList
  | .int n => decimal n
  | .float x => fl.repr x
  | .str s => quote s
  | .arr items => '[' :: dumpsItems fl [] items
  | .obj fields => '{' :: dumpsFields fl [] fields
/-- The items of an array to its end, the first one after `sep`. -/
def dumpsItems (fl : Floats F) (sep : Text) : List (Json F) → Text
  | [] => [']']
  | j :: items => sep ++ dumps fl j ++ dumpsItems fl [','] items
/-- The entries of an object to its end, the first one after `sep`. -/
def dumpsFields (fl : Floats F) (sep : Text) : List (Text × Json F) → Text
  | [] => ['}']
  | (k, j) :: fields => sep ++ quote k ++ ':' :: dumps fl j ++ dumpsFields fl [','] fields
end

mutual
/-- Every object in the value is in key order. -/
def Canonical : Json F → Prop
  | .arr items => CanonicalItems items
  | .obj fields => Ordered fields ∧ CanonicalFields fields
  | _ => True
def CanonicalItems : List (Json F) → Prop
  | [] => True
  | j :: items => Canonical j ∧ CanonicalItems items
def CanonicalFields : List (Text × Json F) → Prop
  | [] => True
  | (_, j) :: fields => Canonical j ∧ CanonicalFields fields
end

theorem canonicalItems_iff {items : List (Json F)} :
    CanonicalItems items ↔ ∀ j ∈ items, Canonical j := by
  induction items with
  | nil => simp [CanonicalItems]
  | cons j items ih => simp [CanonicalItems, ih]

theorem canonicalFields_iff {fields : List (Text × Json F)} :
    CanonicalFields fields ↔ ∀ kv ∈ fields, Canonical kv.2 := by
  induction fields with
  | nil => simp [CanonicalFields]
  | cons kv fields ih => simp [CanonicalFields, ih]

/-- A dictionary display of canonical values is canonical. -/
theorem canonical_ofPairs {pairs : List (Text × Json F)} (h : ∀ kv ∈ pairs, Canonical kv.2) :
    Canonical (.obj (ofPairs pairs)) := by
  refine ⟨ordered_ofPairs pairs, canonicalFields_iff.mpr fun kv hkv => ?_⟩
  exact h kv (mem_of_mem_ofPairs hkv)

theorem canonical_insert {k : Text} {j : Json F} {d : List (Text × Json F)}
    (hd : Canonical (.obj d)) (hj : Canonical j) : Canonical (.obj (insert k j d)) := by
  refine ⟨ordered_insert k j hd.1, canonicalFields_iff.mpr fun kv hkv => ?_⟩
  rcases mem_of_mem_insert hkv with rfl | hkv
  · exact hj
  · exact canonicalFields_iff.mp hd.2 kv hkv

theorem canonical_erase {k : Text} {d : List (Text × Json F)} (hd : Canonical (.obj d)) :
    Canonical (.obj (erase k d)) := by
  refine ⟨hd.1.sublist List.filter_sublist, canonicalFields_iff.mpr fun kv hkv => ?_⟩
  exact canonicalFields_iff.mp hd.2 kv (List.mem_filter.mp hkv).1

/-! ## Reading -/

/-- Tokens of a JSON text. -/
inductive Token (F : Type) where
  | lbrace | rbrace | lbracket | rbracket | comma | colon
  | str (s : Text)
  | scalar (j : Json F)

/-- Where the lexer is: between strings with the word it is reading, in a string, after a
backslash, or in the digits of an escape, with the high half of a surrogate pair where
there is one. -/
inductive LexState where
  | out (word : Text)
  | inStr (acc : Text)
  | esc (acc : Text)
  | hex (acc : Text) (high : Option Nat) (digits : Text)
  | high (acc : Text) (half : Nat)
  | highEsc (acc : Text) (half : Nat)

/-- The token a character is. -/
def punct (F : Type) : Char → Option (Token F)
  | '{' => some .lbrace
  | '}' => some .rbrace
  | '[' => some .lbracket
  | ']' => some .rbracket
  | ',' => some .comma
  | ':' => some .colon
  | _ => none

/-- JSON white space. -/
def isWs (c : Char) : Bool := c = ' ' || c = '\t' || c = '\n' || c = '\r'

/-- The value of a word outside strings. -/
def classify (fl : Floats F) (word : Text) : Option (Json F) :=
  if word = "null".toList then some .null
  else if word = "true".toList then some (.bool true)
  else if word = "false".toList then some (.bool false)
  else if isIntText word = true then some (.int (intOf word))
  else if isFloatText word = true then some (.float (fl.ofText word))
  else none

/-- The token of the word that has just ended, if there is one. -/
def flush (fl : Floats F) (word : Text) : Option (List (Token F)) :=
  if word = [] then some [] else (classify fl word).map fun j => [.scalar j]

/-- The character that a one-letter escape stands for. -/
def unescape : Char → Option Char
  | '"' => some '"'
  | '\\' => some '\\'
  | '/' => some '/'
  | 'b' => some (Char.ofNat 8)
  | 'f' => some (Char.ofNat 12)
  | 'n' => some '\n'
  | 'r' => some '\r'
  | 't' => some '\t'
  | _ => none

/-- The value of a hexadecimal digit. -/
def hexValue (c : Char) : Option Nat :=
  if '0' ≤ c ∧ c ≤ '9' then some (c.toNat - '0'.toNat)
  else if 'a' ≤ c ∧ c ≤ 'f' then some (c.toNat - 'a'.toNat + 10)
  else if 'A' ≤ c ∧ c ≤ 'F' then some (c.toNat - 'A'.toNat + 10)
  else none

/-- The number four hexadecimal digits denote. -/
def hexNumber (digits : Text) : Option Nat :=
  digits.foldlM (fun n c => (hexValue c).map fun d => 16 * n + d) 0

/-- The end of a `\u` escape. A lone surrogate, which is no code point, is rejected. -/
def endEscape (acc : Text) (high : Option Nat) (n : Nat) : Option LexState :=
  match high with
  | none =>
    if 0xD800 ≤ n ∧ n < 0xDC00 then some (.high acc n)
    else if 0xDC00 ≤ n ∧ n < 0xE000 then none
    else some (.inStr (acc ++ [Char.ofNat n]))
  | some half =>
    if 0xDC00 ≤ n ∧ n < 0xE000 then
      some (.inStr (acc ++ [Char.ofNat (0x10000 + (half - 0xD800) * 0x400 + (n - 0xDC00))]))
    else none

/-- One character of the lexer: the tokens it completes and the state after it. -/
def lexStep (fl : Floats F) : LexState → Char → Option (List (Token F) × LexState)
  | .out word, c =>
    if c = '"' then (flush fl word).map fun ts => (ts, .inStr [])
    else if isWs c = true then (flush fl word).map fun ts => (ts, .out [])
    else match punct F c with
      | some t => (flush fl word).map fun ts => (ts ++ [t], .out [])
      | none => some ([], .out (word ++ [c]))
  | .inStr acc, c =>
    if c = '"' then some ([.str acc], .out [])
    else if c = '\\' then some ([], .esc acc)
    else if c.toNat < 32 then none
    else some ([], .inStr (acc ++ [c]))
  | .esc acc, c =>
    if c = 'u' then some ([], .hex acc none [])
    else (unescape c).map fun c' => ([], .inStr (acc ++ [c']))
  | .hex acc high digits, c =>
    if digits.length < 3 then some ([], .hex acc high (digits ++ [c]))
    else ((hexNumber (digits ++ [c])).bind (endEscape acc high)).map fun s => ([], s)
  | .high acc half, c => if c = '\\' then some ([], .highEsc acc half) else none
  | .highEsc acc half, c => if c = 'u' then some ([], .hex acc (some half) []) else none

/-- The tokens of a text from a state on. -/
def lex (fl : Floats F) : LexState → Text → Option (List (Token F))
  | .out word, [] => flush fl word
  | _, [] => none
  | s, c :: text => (lexStep fl s c).bind fun r => (lex fl r.2 text).map fun ts => r.1 ++ ts

/-- What an open array or object holds so far; an object also the key of the value that is
being read. -/
inductive Frame (F : Type) where
  | arr (items : List (Json F))
  | obj (fields : List (Text × Json F)) (key : Text)

/-- What the parser expects next. -/
inductive Expect (F : Type) where
  | value
  /-- After `[`: a value or the end. -/
  | first
  /-- After `{`: a key or the end. -/
  | firstKey
  | key (fields : List (Text × Json F))
  | colon (fields : List (Text × Json F)) (key : Text)
  /-- After this value: a comma, the end of the enclosing value, or the end of the text. -/
  | after (j : Json F)

/-- A token where a value is expected. -/
def parseValue (stack : List (Frame F)) : Token F → Option (Expect F × List (Frame F))
  | .scalar j => some (.after j, stack)
  | .str s => some (.after (.str s), stack)
  | .lbracket => some (.first, stack)
  | .lbrace => some (.firstKey, stack)
  | _ => none

/-- One token of the parser. A key written twice keeps its last value. -/
def parseStep : Expect F → List (Frame F) → Token F → Option (Expect F × List (Frame F))
  | .value, stack, t => parseValue stack t
  | .first, stack, .rbracket => some (.after (.arr []), stack)
  | .first, stack, t => parseValue (.arr [] :: stack) t
  | .firstKey, stack, .rbrace => some (.after (.obj []), stack)
  | .firstKey, stack, .str k => some (.colon [] k, stack)
  | .key fields, stack, .str k => some (.colon fields k, stack)
  | .colon fields k, stack, .colon => some (.value, .obj fields k :: stack)
  | .after j, .arr items :: stack, .comma => some (.value, .arr (items ++ [j]) :: stack)
  | .after j, .arr items :: stack, .rbracket => some (.after (.arr (items ++ [j])), stack)
  | .after j, .obj fields k :: stack, .comma => some (.key (insert k j fields), stack)
  | .after j, .obj fields k :: stack, .rbrace => some (.after (.obj (insert k j fields)), stack)
  | _, _, _ => none

/-- The value that the tokens complete. -/
def parse : Expect F → List (Frame F) → List (Token F) → Option (Json F)
  | .after j, [], [] => some j
  | _, _, [] => none
  | e, stack, t :: ts => (parseStep e stack t).bind fun r => parse r.1 r.2 ts

/-- `json.loads`; `none` is its error. -/
def loads (fl : Floats F) (text : Text) : Option (Json F) :=
  (lex fl (.out []) text).bind (parse .value [])

end JsonText
