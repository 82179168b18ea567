import AgentMemory.Lib.Json

/-!
# Reading back what was written

`loads_dumps`: reading the text of a canonical value gives the value. The lexer's part goes
through the text of the value with what follows it (`Ends`), the parser's part through its
tokens with the frames around it. Then `loads_of_cut`: a text that is cut off where only a
string can go on is no JSON.
-/

namespace JsonText

open Dicts PyText

variable {F : Type} {fl : Floats F}

/-! ## Words -/

/-- A character that goes into a word wherever it stands outside a string. -/
def Plain (c : Char) : Prop := c ≠ '"' ∧ isWs c = false ∧ ∀ F : Type, punct F c = none

/-- A character of a number or of a constant. -/
def isWordChar (c : Char) : Bool := c.isAlphanum || c ∈ ['-', '+', '.']

theorem plain_of_isWordChar {c : Char} (h : isWordChar c = true) : Plain c := by
  refine ⟨?_, ?_, fun F => ?_⟩
  · rintro rfl
    exact absurd h (by decide)
  · by_contra hws
    simp only [isWs, Bool.not_eq_false, Bool.or_eq_true, decide_eq_true_eq] at hws
    rcases hws with ((rfl | rfl) | rfl) | rfl <;> exact absurd h (by decide)
  · unfold punct
    split <;> first | rfl | exact absurd h (by decide)

theorem isWordChar_of_isDigit {c : Char} (h : c.isDigit = true) : isWordChar c = true := by
  simp [isWordChar, Char.isAlphanum, h]

theorem lex_out_append {w : Text} (hw : ∀ c ∈ w, Plain c) (acc rest : Text) :
    lex fl (.out acc) (w ++ rest) = lex fl (.out (acc ++ w)) rest := by
  induction w generalizing acc with
  | nil => simp
  | cons c w ih =>
    obtain ⟨hquote, hws, hpunct⟩ := hw c List.mem_cons_self
    have hrest := ih (fun c' hc' => hw c' (List.mem_cons_of_mem _ hc')) (acc ++ [c])
    simp [lex, lexStep, hquote, hws, hpunct, hrest]

theorem decimal_digits (n : Nat) : isIntPart (Nat.toDigits 10 n) = true := by
  have hhead : n ≠ 0 → (Nat.toDigits 10 n).head? ≠ some '0' := by
    induction n using Nat.strong_induction_on with
    | _ n ih =>
      intro hn
      by_cases hlt : n < 10
      · rw [Nat.toDigits_of_lt_base hlt]
        interval_cases n <;> first | exact absurd rfl hn | decide
      · have hle : 10 ≤ n := by omega
        rw [Nat.toDigits_of_base_le (by decide) hle, List.head?_append_of_ne_nil _ Nat.toDigits_ne_nil]
        exact ih (n / 10) (by omega) (by omega)
  by_cases hn : n = 0
  · subst hn
    decide
  · simp [isIntPart, Nat.toDigits_ne_nil, hhead hn]

theorem isDigit_toDigits {n : Nat} {c : Char} (h : c ∈ Nat.toDigits 10 n) : c.isDigit = true :=
  Nat.isDigit_of_mem_toDigits (by decide) (by decide) h

theorem toDigits_ne_minus (n : Nat) (rest : Text) : Nat.toDigits 10 n ≠ '-' :: rest := by
  intro h
  have hc : '-' ∈ Nat.toDigits 10 n := by simp [h]
  exact absurd (isDigit_toDigits hc) (by decide)

theorem unsigned_toDigits (n : Nat) : unsigned (Nat.toDigits 10 n) = Nat.toDigits 10 n := by
  unfold unsigned
  split
  · next h => exact absurd h (toDigits_ne_minus _ _)
  · rfl

theorem isIntText_decimal (n : Int) : isIntText (decimal n) = true := by
  have hall : ∀ m, (Nat.toDigits 10 m).all Char.isDigit = true := fun m =>
    List.all_eq_true.mpr fun _ hc => isDigit_toDigits hc
  cases n with
  | ofNat m => simp [isIntText, decimal, unsigned_toDigits, decimal_digits, hall]
  | negSucc m => simp [isIntText, decimal, unsigned, decimal_digits, hall]

theorem intOf_decimal (n : Int) : intOf (decimal n) = n := by
  cases n with
  | ofNat m =>
    simp only [decimal, intOf]
    split
    · next h => exact absurd h (toDigits_ne_minus _ _)
    · simp
  | negSucc m =>
    simp only [decimal, intOf, Nat.ofDigitChars_ten_toDigits]
    omega

theorem isWordChar_decimal {n : Int} {c : Char} (h : c ∈ decimal n) : isWordChar c = true := by
  cases n with
  | ofNat m => exact isWordChar_of_isDigit (isDigit_toDigits h)
  | negSucc m =>
    rcases List.mem_cons.mp h with rfl | h
    · decide
    · exact isWordChar_of_isDigit (isDigit_toDigits h)

theorem decimal_ne_nil (n : Int) : decimal n ≠ [] := by
  cases n with
  | ofNat m => exact Nat.toDigits_ne_nil
  | negSucc m => exact List.cons_ne_nil _ _

theorem classify_of_isIntText {w : Text} (h : isIntText w = true) :
    classify fl w = some (.int (intOf w)) := by
  have hne : ∀ word : String, isIntText word.toList = false → w ≠ word.toList := by
    rintro word hword rfl
    rw [hword] at h
    exact absurd h (by decide)
  unfold classify
  rw [if_neg (hne "null" (by decide)), if_neg (hne "true" (by decide)),
    if_neg (hne "false" (by decide)), if_pos h]

theorem not_isIntText_of_isFloatText {w : Text} (h : isFloatText w = true) :
    isIntText w = false := by
  rw [isFloatText, Bool.or_eq_true] at h
  rcases h with h | h
  · simp only [floatConstants, List.mem_cons, List.not_mem_nil, or_false, decide_eq_true_eq] at h
    rcases h with rfl | rfl | rfl <;> decide
  · rw [Bool.eq_false_iff]
    intro hint
    simp only [isIntText, Bool.and_eq_true, List.all_eq_true] at hint
    have hnil : (unsigned w).dropWhile Char.isDigit = [] := List.dropWhile_eq_nil_iff.mpr fun c hc => hint.2 c hc
    rw [hnil] at h
    simp [isFractional] at h

theorem classify_of_isFloatText {w : Text} (h : isFloatText w = true) :
    classify fl w = some (.float (fl.ofText w)) := by
  have hne : ∀ word : String, isFloatText word.toList = false → w ≠ word.toList := by
    rintro word hword rfl
    rw [hword] at h
    exact absurd h (by decide)
  unfold classify
  rw [if_neg (hne "null" (by decide)), if_neg (hne "true" (by decide)),
    if_neg (hne "false" (by decide)), not_isIntText_of_isFloatText h, if_neg (by decide), if_pos h]

theorem isWordChar_of_all {digits : Text} (h : digits.all Char.isDigit = true) :
    ∀ c ∈ digits, isWordChar c = true :=
  fun c hc => isWordChar_of_isDigit (List.all_eq_true.mp h c hc)

theorem isWordChar_exponent {text : Text} (h : isExponent text = true) :
    ∀ c ∈ text, isWordChar c = true := by
  cases text with
  | nil => simp
  | cons e rest =>
    have hsign : isWordChar '+' = true ∧ isWordChar '-' = true := by decide
    unfold isExponent at h
    simp only [Bool.and_eq_true, Bool.or_eq_true, decide_eq_true_eq] at h
    obtain ⟨⟨he, -⟩, hdigits⟩ := h
    refine List.forall_mem_cons.mpr ⟨?_, ?_⟩
    · rcases he with rfl | rfl <;> decide
    · split at hdigits
      · exact List.forall_mem_cons.mpr ⟨hsign.1, isWordChar_of_all hdigits⟩
      · exact List.forall_mem_cons.mpr ⟨hsign.2, isWordChar_of_all hdigits⟩
      · exact isWordChar_of_all hdigits

theorem isWordChar_takeWhile {text : Text} :
    ∀ c ∈ text.takeWhile Char.isDigit, isWordChar c = true :=
  fun _ hc => isWordChar_of_isDigit (List.mem_takeWhile_imp hc)

/-- A text is made of number characters if what follows its leading digits is. -/
theorem isWordChar_of_dropWhile {text : Text}
    (h : ∀ c ∈ text.dropWhile Char.isDigit, isWordChar c = true) :
    ∀ c ∈ text, isWordChar c = true := by
  intro c hc
  rw [← List.takeWhile_append_dropWhile (p := Char.isDigit) (l := text), List.mem_append] at hc
  rcases hc with hc | hc
  · exact isWordChar_takeWhile c hc
  · exact h c hc

theorem isWordChar_fractional {text : Text} (h : isFractional text = true) :
    ∀ c ∈ text, isWordChar c = true := by
  unfold isFractional at h
  split at h
  · simp
  · rw [Bool.and_eq_true] at h
    refine List.forall_mem_cons.mpr ⟨by decide, ?_⟩
    exact isWordChar_of_dropWhile (isWordChar_exponent h.2)
  · exact isWordChar_exponent h

theorem isWordChar_unsigned {w : Text} (h : ∀ c ∈ unsigned w, isWordChar c = true) :
    ∀ c ∈ w, isWordChar c = true := by
  unfold unsigned at h
  split at h
  · exact List.forall_mem_cons.mpr ⟨by decide, h⟩
  · exact h

theorem isWordChar_of_isIntText {w : Text} (h : isIntText w = true) :
    ∀ c ∈ w, isWordChar c = true := by
  rw [isIntText, Bool.and_eq_true] at h
  exact isWordChar_unsigned (isWordChar_of_all h.2)

theorem isWordChar_of_isFloatText {w : Text} (h : isFloatText w = true) :
    ∀ c ∈ w, isWordChar c = true := by
  rw [isFloatText, Bool.or_eq_true] at h
  rcases h with h | h
  · simp only [floatConstants, List.mem_cons, List.not_mem_nil, or_false, decide_eq_true_eq] at h
    rcases h with rfl | rfl | rfl <;> exact List.all_eq_true.mp (by decide)
  · rw [Bool.and_eq_true] at h
    exact isWordChar_unsigned (isWordChar_of_dropWhile (isWordChar_fractional h.2))

theorem ne_nil_of_isFloatText {w : Text} (h : isFloatText w = true) : w ≠ [] := by
  rintro rfl
  exact absurd h (by decide)

/-- The text of a scalar is one word that the lexer classifies as that scalar. -/
structure Word (fl : Floats F) (w : Text) (j : Json F) : Prop where
  ne_nil : w ≠ []
  plain : ∀ c ∈ w, Plain c
  classified : classify fl w = some j

theorem word_constant {w : Text} {j : Json F} (hne : w ≠ [])
    (hword : ∀ c ∈ w, isWordChar c = true) (h : classify fl w = some j) : Word fl w j :=
  ⟨hne, fun c hc => plain_of_isWordChar (hword c hc), h⟩

theorem word_null : Word fl "null".toList .null :=
  word_constant (by decide) (List.all_eq_true.mp (by decide)) (by simp [classify])

theorem word_true : Word fl "true".toList (.bool true) :=
  word_constant (by decide) (List.all_eq_true.mp (by decide)) (by simp [classify])

theorem word_false : Word fl "false".toList (.bool false) :=
  word_constant (by decide) (List.all_eq_true.mp (by decide)) (by simp [classify])

theorem word_decimal (n : Int) : Word fl (decimal n) (.int n) where
  ne_nil := decimal_ne_nil n
  plain := fun _ hc => plain_of_isWordChar (isWordChar_decimal hc)
  classified := by rw [classify_of_isIntText (isIntText_decimal n), intOf_decimal]

theorem word_repr (x : F) : Word fl (fl.repr x) (.float x) where
  ne_nil := ne_nil_of_isFloatText (fl.isFloatText_repr x)
  plain := fun c hc => plain_of_isWordChar (isWordChar_of_isFloatText (fl.isFloatText_repr x) c hc)
  classified := by rw [classify_of_isFloatText (fl.isFloatText_repr x), fl.ofText_repr]

/-! ## Strings -/

theorem hexNumber_escape : ∀ n < 32,
    hexNumber ['0', '0', hexDigit (n / 16), hexDigit (n % 16)] = some n := by
  decide

theorem lex_escapeChar (c : Char) (acc rest : Text) :
    lex fl (.inStr acc) (escapeChar c ++ rest) = lex fl (.inStr (acc ++ [c])) rest := by
  unfold escapeChar
  split_ifs with h₁ h₂ h₃ h₄ h₅ h₆ h₇ h₈
  · subst h₁
    simp [lex, lexStep, unescape, Function.comp_def]
  · subst h₂
    simp [lex, lexStep, unescape, Function.comp_def]
  · subst h₃
    simp [lex, lexStep, unescape, Function.comp_def]
  · subst h₄
    simp [lex, lexStep, unescape, Function.comp_def]
  · subst h₅
    simp [lex, lexStep, unescape, Function.comp_def]
  · have hc : c = Char.ofNat 8 := by rw [← h₆, Char.ofNat_toNat]
    subst hc
    simp [lex, lexStep, unescape, Function.comp_def]
  · have hc : c = Char.ofNat 12 := by rw [← h₇, Char.ofNat_toNat]
    subst hc
    simp [lex, lexStep, unescape, Function.comp_def]
  · have hnumber := hexNumber_escape c.toNat h₈
    have hsmall : ¬ (0xD800 ≤ c.toNat ∧ c.toNat < 0xDC00) ∧
        ¬ (0xDC00 ≤ c.toNat ∧ c.toNat < 0xE000) := by omega
    simp [lex, lexStep, hnumber, endEscape, hsmall, Char.ofNat_toNat, Function.comp_def]
  · simp [lex, lexStep, h₁, h₂, h₈]

theorem lex_quote (s acc rest : Text) :
    lex fl (.inStr acc) (s.flatMap escapeChar ++ '"' :: rest) =
      (lex fl (.out []) rest).map (.str (acc ++ s) :: ·) := by
  induction s generalizing acc with
  | nil => simp [lex, lexStep]
  | cons c s ih =>
    rw [List.flatMap_cons, List.append_assoc, lex_escapeChar, ih]
    simp

/-! ## The tokens of a value -/

mutual
/-- The tokens of the text of a value. -/
def tokens : Json F → List (Token F)
  | .str s => [.str s]
  | .arr items => .lbracket :: tokensItems [] items
  | .obj fields => .lbrace :: tokensFields [] fields
  | j => [.scalar j]
def tokensItems (sep : List (Token F)) : List (Json F) → List (Token F)
  | [] => [.rbracket]
  | j :: items => sep ++ tokens j ++ tokensItems [.comma] items
def tokensFields (sep : List (Token F)) : List (Text × Json F) → List (Token F)
  | [] => [.rbrace]
  | (k, j) :: fields => sep ++ .str k :: .colon :: tokens j ++ tokensFields [.comma] fields
end

/-- What can follow a value: whatever word is still being read ends here, and these are the
tokens after it. -/
def Ends (fl : Floats F) (rest : Text) (ts : List (Token F)) : Prop :=
  ∀ word tw, flush fl word = some tw → lex fl (.out word) rest = some (tw ++ ts)

theorem ends_nil : Ends fl [] [] := fun word tw h => by simpa [lex] using h

theorem Ends.lex {rest : Text} {ts : List (Token F)} (h : Ends fl rest ts) :
    lex fl (.out []) rest = some ts := h [] [] rfl

/-- A punctuation mark ends a word. -/
theorem ends_punct {c : Char} {t : Token F} {rest : Text} {ts : List (Token F)}
    (hquote : c ≠ '"') (hws : isWs c = false) (hc : punct F c = some t)
    (h : lex fl (.out []) rest = some ts) : Ends fl (c :: rest) (t :: ts) := by
  intro word tw hword
  simp [lex, lexStep, hquote, hws, hc, hword, h]

theorem lex_word {w : Text} {j : Json F} (hw : Word fl w j) {rest : Text} {ts : List (Token F)}
    (h : Ends fl rest ts) : lex fl (.out []) (w ++ rest) = some (.scalar j :: ts) := by
  have hflush : flush fl w = some [.scalar j] := by simp [flush, hw.ne_nil, hw.classified]
  rw [lex_out_append hw.plain]
  exact h w _ hflush

theorem lex_string (s : Text) {rest : Text} {ts : List (Token F)}
    (h : lex fl (.out []) rest = some ts) :
    lex fl (.out []) (quote s ++ rest) = some (.str s :: ts) := by
  have hbody := @lex_quote _ fl s [] rest
  simp only [h, Option.map_some, List.nil_append] at hbody
  simp [quote, lex, lexStep, flush, hbody]

mutual
theorem lex_dumps : ∀ (j : Json F) {rest : Text} {ts : List (Token F)}, Ends fl rest ts →
    lex fl (.out []) (dumps fl j ++ rest) = some (tokens j ++ ts)
  | .null, _, _, h => lex_word word_null h
  | .bool true, _, _, h => lex_word word_true h
  | .bool false, _, _, h => lex_word word_false h
  | .int n, _, _, h => lex_word (word_decimal n) h
  | .float x, _, _, h => lex_word (word_repr x) h
  | .str s, _, _, h => lex_string s h.lex
  | .arr items, rest, ts, h => by
    have hitems : lex fl (.out []) (dumpsItems fl [] items ++ rest) =
        some (tokensItems [] items ++ ts) := by
      cases items with
      | nil => exact (ends_items [] h.lex).lex
      | cons j items =>
        have hj := lex_dumps j (ends_items items h.lex)
        simpa [dumpsItems, tokensItems] using hj
    exact (ends_punct (c := '[') (by decide) (by decide) rfl hitems).lex
  | .obj fields, rest, ts, h => by
    have hfields : lex fl (.out []) (dumpsFields fl [] fields ++ rest) =
        some (tokensFields [] fields ++ ts) := by
      cases fields with
      | nil => exact (ends_fields [] h.lex).lex
      | cons kv fields =>
        obtain ⟨k, j⟩ := kv
        have hj := lex_dumps j (ends_fields fields h.lex)
        have hcolon := (ends_punct (c := ':') (by decide) (by decide) rfl hj).lex
        simpa [dumpsFields, tokensFields] using lex_string k hcolon
    exact (ends_punct (c := '{') (by decide) (by decide) rfl hfields).lex
theorem ends_items : ∀ (items : List (Json F)) {rest : Text} {ts : List (Token F)},
    lex fl (.out []) rest = some ts →
    Ends fl (dumpsItems fl [','] items ++ rest) (tokensItems [.comma] items ++ ts)
  | [], _, _, h => ends_punct (by decide) (by decide) rfl h
  | j :: items, _, _, h => by
    have hj := lex_dumps j (ends_items items h)
    have hcomma := ends_punct (c := ',') (by decide) (by decide) rfl hj
    simpa [dumpsItems, tokensItems] using hcomma
theorem ends_fields : ∀ (fields : List (Text × Json F)) {rest : Text} {ts : List (Token F)},
    lex fl (.out []) rest = some ts →
    Ends fl (dumpsFields fl [','] fields ++ rest) (tokensFields [.comma] fields ++ ts)
  | [], _, _, h => ends_punct (by decide) (by decide) rfl h
  | (k, j) :: fields, _, _, h => by
    have hj := lex_dumps j (ends_fields fields h)
    have hcolon := (ends_punct (c := ':') (by decide) (by decide) rfl hj).lex
    have hcomma := ends_punct (c := ',') (by decide) (by decide) rfl (lex_string k hcolon)
    simpa [dumpsFields, tokensFields] using hcomma
end

/-! ## Parsing the tokens -/

theorem parse_first (j : Json F) (stack : List (Frame F)) (ts : List (Token F)) :
    parse .first stack (tokens j ++ ts) = parse .value (.arr [] :: stack) (tokens j ++ ts) := by
  cases j <;> simp [tokens, parse, parseStep]

mutual
theorem parse_tokens : ∀ (j : Json F), Canonical j → ∀ (stack : List (Frame F))
    (ts : List (Token F)), parse .value stack (tokens j ++ ts) = parse (.after j) stack ts
  | .null, _, _, _ => by simp [tokens, parse, parseStep, parseValue]
  | .bool _, _, _, _ => by simp [tokens, parse, parseStep, parseValue]
  | .int _, _, _, _ => by simp [tokens, parse, parseStep, parseValue]
  | .float _, _, _, _ => by simp [tokens, parse, parseStep, parseValue]
  | .str _, _, _, _ => by simp [tokens, parse, parseStep, parseValue]
  | .arr [], _, _, _ => by simp [tokens, tokensItems, parse, parseStep, parseValue]
  | .arr (j :: items), hc, stack, ts => by
    have hj := parse_tokens j hc.1 (.arr [] :: stack) (tokensItems [.comma] items ++ ts)
    have hitems := parse_items items hc.2 j [] stack ts
    simp only [tokens, tokensItems, List.nil_append, List.cons_append, parse, parseStep, parseValue,
      Option.bind_some, List.append_assoc]
    rw [parse_first, hj, hitems, List.nil_append]
  | .obj [], _, _, _ => by simp [tokens, tokensFields, parse, parseStep, parseValue]
  | .obj ((k, j) :: fields), hc, stack, ts => by
    have hj := parse_tokens j hc.2.1 (.obj [] k :: stack) (tokensFields [.comma] fields ++ ts)
    have hfields := parse_fields fields hc.2.2 j [] k hc.1 stack ts
    simp only [tokens, tokensFields, List.nil_append, List.cons_append, parse, parseStep, parseValue,
      Option.bind_some, List.append_assoc]
    rw [hj, hfields, List.nil_append]
theorem parse_items : ∀ (items : List (Json F)), CanonicalItems items → ∀ (j : Json F)
    (done : List (Json F)) (stack : List (Frame F)) (ts : List (Token F)),
    parse (.after j) (.arr done :: stack) (tokensItems [.comma] items ++ ts) =
      parse (.after (.arr (done ++ j :: items))) stack ts
  | [], _, _, _, _, _ => by simp [tokensItems, parse, parseStep]
  | j' :: items, hc, j, done, stack, ts => by
    have hj := parse_tokens j' hc.1 (.arr (done ++ [j]) :: stack) (tokensItems [.comma] items ++ ts)
    have hitems := parse_items items hc.2 j' (done ++ [j]) stack ts
    simp only [tokensItems, List.cons_append, List.nil_append, parse, parseStep, Option.bind_some,
      List.append_assoc]
    rw [hj, hitems]
    simp
theorem parse_fields : ∀ (fields : List (Text × Json F)), CanonicalFields fields →
    ∀ (j : Json F) (done : List (Text × Json F)) (k : Text), Ordered (done ++ (k, j) :: fields) →
    ∀ (stack : List (Frame F)) (ts : List (Token F)),
    parse (.after j) (.obj done k :: stack) (tokensFields [.comma] fields ++ ts) =
      parse (.after (.obj (done ++ (k, j) :: fields))) stack ts
  | [], _, j, done, k, hord, stack, ts => by
    have hinsert : insert k j done = done ++ [(k, j)] := insert_of_forall_lt hord.lt_of_mem
    simp [tokensFields, parse, parseStep, hinsert]
  | (k', j') :: fields, hc, j, done, k, hord, stack, ts => by
    have hinsert : insert k j done = done ++ [(k, j)] := insert_of_forall_lt hord.lt_of_mem
    have hord' : Ordered ((done ++ [(k, j)]) ++ (k', j') :: fields) := by simpa using hord
    have hj := parse_tokens j' hc.1 (.obj (done ++ [(k, j)]) k' :: stack)
      (tokensFields [.comma] fields ++ ts)
    have hfields := parse_fields fields hc.2 j' (done ++ [(k, j)]) k' hord' stack ts
    simp only [tokensFields, List.cons_append, List.nil_append, parse, parseStep, Option.bind_some,
      List.append_assoc, hinsert]
    rw [hj, hfields]
    simp
end

/-- Reading the text of a canonical value gives the value. -/
theorem loads_dumps {j : Json F} (hc : Canonical j) : loads fl (dumps fl j) = some j := by
  have hlex := @lex_dumps _ fl j _ _ ends_nil
  have hparse := parse_tokens j hc [] []
  simp only [List.append_nil] at hlex hparse
  simp [loads, hlex, hparse, parse]

theorem dumps_injective {j j' : Json F} (hc : Canonical j) (hc' : Canonical j')
    (h : dumps fl j = dumps fl j') : j = j' := by
  have hj := @loads_dumps _ fl _ hc
  rw [h, loads_dumps hc'] at hj
  exact (Option.some.inj hj).symm

/-! ## What is read is canonical -/

/-- A token that is a value is a canonical one. -/
def Token.IsCanonical : Token F → Prop
  | .scalar j => Canonical j
  | _ => True

/-- What the parser holds is canonical. -/
def Frame.IsCanonical : Frame F → Prop
  | .arr items => Canonical (.arr items)
  | .obj fields _ => Canonical (.obj fields)

/-- What the parser has read of a value is canonical. -/
def Expect.IsCanonical : Expect F → Prop
  | .key fields | .colon fields _ => Canonical (.obj fields)
  | .after j => Canonical j
  | _ => True

theorem canonical_of_classify {word : Text} {j : Json F} (h : classify fl word = some j) :
    Canonical j := by
  unfold classify at h
  split_ifs at h <;> obtain rfl := Option.some.inj h <;> trivial

theorem canonical_of_flush {word : Text} {ts : List (Token F)} (h : flush fl word = some ts) :
    ∀ t ∈ ts, t.IsCanonical := by
  unfold flush at h
  split_ifs at h
  · obtain rfl := Option.some.inj h
    simp
  · obtain ⟨j, hj, rfl⟩ := Option.map_eq_some_iff.mp h
    simpa [Token.IsCanonical] using canonical_of_classify hj

theorem canonical_of_punct {c : Char} {t : Token F} (h : punct F c = some t) : t.IsCanonical := by
  unfold punct at h
  split at h <;> first
    | (obtain rfl := Option.some.inj h; trivial)
    | cases h

theorem canonical_of_lexStep {s : LexState} {c : Char} {r : List (Token F) × LexState}
    (h : lexStep fl s c = some r) : ∀ t ∈ r.1, t.IsCanonical := by
  cases s with
  | out word =>
    rw [lexStep] at h
    split_ifs at h
    · obtain ⟨ts, hts, rfl⟩ := Option.map_eq_some_iff.mp h
      exact canonical_of_flush hts
    · obtain ⟨ts, hts, rfl⟩ := Option.map_eq_some_iff.mp h
      exact canonical_of_flush hts
    · split at h
      · next t ht =>
        obtain ⟨ts, hts, rfl⟩ := Option.map_eq_some_iff.mp h
        have hpunct := canonical_of_punct ht
        have hflush := canonical_of_flush hts
        simpa [or_imp, forall_and] using ⟨hflush, hpunct⟩
      · obtain rfl := Option.some.inj h
        simp
  | inStr acc =>
    rw [lexStep] at h
    split_ifs at h <;> obtain rfl := Option.some.inj h <;> simp [Token.IsCanonical]
  | esc acc =>
    rw [lexStep] at h
    split_ifs at h
    · obtain rfl := Option.some.inj h
      simp
    · obtain ⟨c', -, rfl⟩ := Option.map_eq_some_iff.mp h
      simp
  | hex acc high digits =>
    rw [lexStep] at h
    split_ifs at h
    · obtain rfl := Option.some.inj h
      simp
    · obtain ⟨s', -, rfl⟩ := Option.map_eq_some_iff.mp h
      simp
  | high acc half =>
    rw [lexStep] at h
    split_ifs at h
    obtain rfl := Option.some.inj h
    simp
  | highEsc acc half =>
    rw [lexStep] at h
    split_ifs at h
    obtain rfl := Option.some.inj h
    simp

theorem canonical_of_lex {text : Text} {s : LexState} {ts : List (Token F)}
    (h : lex fl s text = some ts) : ∀ t ∈ ts, t.IsCanonical := by
  induction text generalizing s ts with
  | nil =>
    cases s <;> first
      | exact canonical_of_flush h
      | cases h
  | cons c text ih =>
    rw [lex] at h
    obtain ⟨r, hr, hmap⟩ := Option.bind_eq_some_iff.mp h
    obtain ⟨rest, hrest, rfl⟩ := Option.map_eq_some_iff.mp hmap
    have hstep := canonical_of_lexStep hr
    have hlater := ih hrest
    simpa [or_imp, forall_and] using ⟨hstep, hlater⟩

theorem canonical_arr_concat {items : List (Json F)} {j : Json F} (h : Canonical (.arr items))
    (hj : Canonical j) : Canonical (.arr (items ++ [j])) := by
  have hitems := canonicalItems_iff.mp h
  refine canonicalItems_iff.mpr fun j' hj' => ?_
  rcases List.mem_append.mp hj' with hj' | hj'
  · exact hitems j' hj'
  · exact List.mem_singleton.mp hj' ▸ hj

theorem canonical_of_parseValue {stack : List (Frame F)} {t : Token F}
    {r : Expect F × List (Frame F)} (ht : t.IsCanonical) (hstack : ∀ f ∈ stack, f.IsCanonical)
    (h : parseValue stack t = some r) : r.1.IsCanonical ∧ ∀ f ∈ r.2, f.IsCanonical := by
  cases t <;> cases h <;> exact ⟨ht, hstack⟩

/-- The parser keeps what it holds canonical. -/
theorem canonical_of_parseStep {e : Expect F} {stack : List (Frame F)} {t : Token F}
    {r : Expect F × List (Frame F)} (he : e.IsCanonical) (hstack : ∀ f ∈ stack, f.IsCanonical)
    (ht : t.IsCanonical) (h : parseStep e stack t = some r) :
    r.1.IsCanonical ∧ ∀ f ∈ r.2, f.IsCanonical := by
  unfold parseStep at h
  split at h
  · exact canonical_of_parseValue ht hstack h
  · cases h
    exact ⟨trivial, hstack⟩
  · have hframe : (Frame.arr ([] : List (Json F))).IsCanonical := trivial
    exact canonical_of_parseValue ht (List.forall_mem_cons.mpr ⟨hframe, hstack⟩) h
  · cases h
    exact ⟨⟨ordered_nil, trivial⟩, hstack⟩
  · cases h
    exact ⟨⟨ordered_nil, trivial⟩, hstack⟩
  · cases h
    exact ⟨he, hstack⟩
  · cases h
    exact ⟨trivial, List.forall_mem_cons.mpr ⟨he, hstack⟩⟩
  · cases h
    obtain ⟨hframe, hstack⟩ := List.forall_mem_cons.mp hstack
    exact ⟨trivial, List.forall_mem_cons.mpr ⟨canonical_arr_concat hframe he, hstack⟩⟩
  · cases h
    obtain ⟨hframe, hstack⟩ := List.forall_mem_cons.mp hstack
    exact ⟨canonical_arr_concat hframe he, hstack⟩
  · cases h
    obtain ⟨hframe, hstack⟩ := List.forall_mem_cons.mp hstack
    exact ⟨canonical_insert hframe he, hstack⟩
  · cases h
    obtain ⟨hframe, hstack⟩ := List.forall_mem_cons.mp hstack
    exact ⟨canonical_insert hframe he, hstack⟩
  · cases h

theorem canonical_of_parse {ts : List (Token F)} {e : Expect F} {stack : List (Frame F)} {j : Json F}
    (he : e.IsCanonical) (hstack : ∀ f ∈ stack, f.IsCanonical) (hts : ∀ t ∈ ts, t.IsCanonical)
    (h : parse e stack ts = some j) : Canonical j := by
  induction ts generalizing e stack with
  | nil =>
    unfold parse at h
    split at h
    · cases h
      exact he
    · cases h
    · next heq => cases heq
  | cons t ts ih =>
    obtain ⟨ht, hts⟩ := List.forall_mem_cons.mp hts
    rw [parse] at h
    obtain ⟨r, hr, hrest⟩ := Option.bind_eq_some_iff.mp h
    obtain ⟨he', hstack'⟩ := canonical_of_parseStep he hstack ht hr
    exact ih he' hstack' hts hrest

theorem canonical_of_loads {text : Text} {j : Json F} (h : loads fl text = some j) : Canonical j := by
  obtain ⟨ts, hts, hparse⟩ := Option.bind_eq_some_iff.mp h
  have hvalue : (Expect.value : Expect F).IsCanonical := trivial
  exact canonical_of_parse hvalue (by simp) (canonical_of_lex hts) hparse

/-! ## Texts that are cut off -/

/-- A character that only a string can hold. -/
def OnlyInStrings (c : Char) : Prop := Plain c ∧ isWordChar c = false

theorem classify_eq_none {w : Text} {c : Char} (hc : isWordChar c = false) (hmem : c ∈ w) :
    classify fl w = none := by
  have hnot : ¬ ∀ c ∈ w, isWordChar c = true := by
    intro hall
    rw [hall c hmem] at hc
    exact absurd hc (by decide)
  unfold classify
  split_ifs with hnull htrue hfalse hint hfloat
  · exact absurd (List.all_eq_true.mp (by rw [hnull]; decide)) hnot
  · exact absurd (List.all_eq_true.mp (by rw [htrue]; decide)) hnot
  · exact absurd (List.all_eq_true.mp (by rw [hfalse]; decide)) hnot
  · exact absurd (isWordChar_of_isIntText hint) hnot
  · exact absurd (isWordChar_of_isFloatText hfloat) hnot
  · rfl

/-- A word with such a character never becomes a token. -/
theorem lex_word_eq_none {c : Char} (hc : isWordChar c = false) {w : Text} (hmem : c ∈ w)
    (text : Text) : lex fl (.out w) text = none := by
  have hflush : ∀ w : Text, c ∈ w → flush fl w = none := by
    intro w hmem
    have hne : w ≠ [] := List.ne_nil_of_mem hmem
    simp [flush, hne, classify_eq_none hc hmem]
  induction text generalizing w with
  | nil => exact hflush w hmem
  | cons c' text ih =>
    have hrest := ih (w := w ++ [c']) (List.mem_append_left _ hmem)
    simp only [lex, lexStep, hflush w hmem, Option.map_none]
    split_ifs
    · rfl
    · rfl
    · cases punct F c' with
      | some t => rfl
      | none => simp [hrest]

/-- Where a text goes on with a character that only a string can hold, the text before it
ends inside a string. -/
theorem lex_of_cut {c : Char} (hc : OnlyInStrings c) (before rest : Text) (s : LexState)
    (h : (lex fl s (before ++ c :: rest)).isSome) : lex fl s before = none := by
  induction before generalizing s with
  | nil =>
    cases s with
    | out w =>
      obtain ⟨⟨hquote, hws, hpunct⟩, hword⟩ := hc
      have hnone := @lex_word_eq_none _ fl _ hword (w ++ [c]) (by simp) rest
      simp [lex, lexStep, hquote, hws, hpunct, hnone] at h
    | _ => rfl
  | cons c' before ih =>
    simp only [List.cons_append, lex] at h ⊢
    cases hstep : lexStep fl s c' with
    | none => rfl
    | some r =>
      simp only [hstep, Option.bind_some, Option.isSome_map] at h ⊢
      simp [ih r.2 h]

/-- A value's text that is cut off at such a character is no JSON. -/
theorem loads_of_cut {c : Char} (hc : OnlyInStrings c) {j : Json F} {before rest : Text}
    (h : dumps fl j = before ++ c :: rest) : loads fl before = none := by
  have hlex := @lex_dumps _ fl j _ _ ends_nil
  rw [List.append_nil, h] at hlex
  have hnone := lex_of_cut hc before rest (.out []) (by rw [hlex]; rfl)
  simp [loads, hnone]

end JsonText
