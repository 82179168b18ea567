import Mathlib

/-!
# Byte strings and UTF-8

A string of bytes is read as characters, with a stray byte wherever no character begins. Encoded texts
are the valid strings; a valid string cut at a byte is valid exactly where the cut is between two
characters, and taking a character off the end of a string does not make it valid or invalid.
-/

namespace Utf8

/-- Any string of bytes. -/
abbrev Bytes := List UInt8

/-- A text in UTF-8. -/
def encode (text : List Char) : Bytes := text.flatMap String.utf8EncodeChar

/-- The bytes of some text. -/
def Valid (bytes : Bytes) : Prop := ∃ text, encode text = bytes

/-- What a reader finds at the start of a string. -/
inductive Rune where
  | char (c : Char)
  | stray (b : UInt8)
  deriving DecidableEq

namespace Rune

def bytes : Rune → Bytes
  | char c => String.utf8EncodeChar c
  | stray b => [b]

/-- The character, or the replacement character in place of a stray byte. -/
def read : Rune → Char
  | char c => c
  | stray _ => Char.ofNat 0xFFFD

/-- A character with a property. -/
def is (p : Char → Bool) : Rune → Bool
  | char c => p c
  | stray _ => false

end Rune

/-- The character at the start of a string. -/
def decodeRune (bytes : Bytes) : Option Char := (bytes.take 4).toByteArray.utf8DecodeChar? 0

/-- The first runes of a string, at most so many. -/
def takeRunes : Nat → Bytes → List Rune
  | 0, _ => []
  | _, [] => []
  | n + 1, b :: rest =>
    match decodeRune (b :: rest) with
    | some c => .char c :: takeRunes n ((b :: rest).drop c.utf8Size)
    | none => .stray b :: takeRunes n rest

/-- A string as runes. -/
def runes (bytes : Bytes) : List Rune := takeRunes bytes.length bytes

/-- A string with every stray byte replaced. -/
def replaceInvalid (bytes : Bytes) : List Char := (runes bytes).map Rune.read

/-- A string without the characters with a property at its ends. -/
def trimWhere (p : Char → Bool) (bytes : Bytes) : Bytes :=
  (((runes bytes).dropWhile (Rune.is p)).rdropWhile (Rune.is p)).flatMap Rune.bytes

variable {text front rest : List Char} {bytes : Bytes} {c d : Char}

@[simp] theorem encode_nil : encode [] = [] := rfl

@[simp] theorem encode_cons (c : Char) (text : List Char) :
    encode (c :: text) = String.utf8EncodeChar c ++ encode text := rfl

@[simp] theorem encode_append (front rest : List Char) : encode (front ++ rest) = encode front ++ encode rest :=
  List.flatMap_append

theorem length_encode (text : List Char) : (encode text).length = (text.map Char.utf8Size).sum := by
  induction text with
  | nil => rfl
  | cons c text ih => rw [encode_cons, List.length_append, String.length_utf8EncodeChar, ih, List.map_cons, List.sum_cons]

theorem utf8EncodeChar_ne_nil (c : Char) : String.utf8EncodeChar c ≠ [] := by
  intro h
  have hlength := String.length_utf8EncodeChar c
  have hpos := c.utf8Size_pos
  rw [h, List.length_nil] at hlength
  omega

/-! ## Reading -/

theorem decodeRune_encodeChar (c : Char) (bytes : Bytes) : decodeRune (String.utf8EncodeChar c ++ bytes) = some c := by
  have hsize : (String.utf8EncodeChar c).length ≤ 4 := (String.length_utf8EncodeChar c).trans_le c.utf8Size_le_four
  unfold decodeRune
  rw [List.take_append, List.take_of_length_le hsize, List.toByteArray_append]
  exact ByteArray.utf8DecodeChar?_utf8EncodeChar_append

theorem decodeRune_eq_some (h : decodeRune bytes = some c) :
    bytes = String.utf8EncodeChar c ++ bytes.drop c.utf8Size := by
  obtain ⟨tail, htail⟩ := ByteArray.exists_of_utf8DecodeChar?_eq_some h
  have hbytes : bytes.take 4 = String.utf8EncodeChar c ++ tail.data.toList := by
    have hdata := congrArg (fun b : ByteArray => b.data.toList) htail
    simpa using hdata
  have hprefix : String.utf8EncodeChar c <+: bytes :=
    (List.prefix_append _ tail.data.toList).trans (hbytes ▸ List.take_prefix 4 bytes)
  obtain ⟨more, rfl⟩ := hprefix
  rw [List.drop_append_of_le_length (String.length_utf8EncodeChar c).ge, ← String.length_utf8EncodeChar c,
    List.drop_length, List.nil_append]

theorem flatMap_takeRunes {n : Nat} (hn : bytes.length ≤ n) : (takeRunes n bytes).flatMap Rune.bytes = bytes := by
  induction n generalizing bytes with
  | zero =>
    obtain rfl := List.eq_nil_of_length_eq_zero (Nat.le_zero.mp hn)
    rfl
  | succ n ih =>
    cases bytes with
    | nil => rfl
    | cons b rest =>
      rw [List.length_cons] at hn
      rw [takeRunes]
      split
      · next c hc =>
        have hdrop : ((b :: rest).drop c.utf8Size).length ≤ n := by
          have hpos := c.utf8Size_pos
          rw [List.length_drop, List.length_cons]
          omega
        rw [List.flatMap_cons, ih hdrop]
        exact (decodeRune_eq_some hc).symm
      · rw [List.flatMap_cons, ih (by omega)]
        rfl

/-- The runes of a string are the string. -/
theorem flatMap_runes (bytes : Bytes) : (runes bytes).flatMap Rune.bytes = bytes := flatMap_takeRunes le_rfl

theorem takeRunes_encode {n : Nat} (hn : (encode text).length ≤ n) : takeRunes n (encode text) = text.map .char := by
  induction text generalizing n with
  | nil => cases n <;> rfl
  | cons c text ih =>
    have hlength : (String.utf8EncodeChar c).length + (encode text).length ≤ n := by
      rwa [encode_cons, List.length_append] at hn
    have hsize := String.length_utf8EncodeChar c
    have hpos := c.utf8Size_pos
    obtain ⟨m, rfl⟩ : ∃ m, n = m + 1 := ⟨n - 1, by omega⟩
    have hdecode := decodeRune_encodeChar c (encode text)
    have hdrop : (String.utf8EncodeChar c ++ encode text).drop c.utf8Size = encode text := by
      rw [← hsize, List.drop_left]
    rw [encode_cons]
    generalize hall : String.utf8EncodeChar c ++ encode text = all at hdecode hdrop
    cases all with
    | nil => exact absurd (List.append_eq_nil_iff.mp hall).1 (utf8EncodeChar_ne_nil c)
    | cons b rest =>
      rw [takeRunes, hdecode]
      dsimp only
      rw [hdrop, ih (by omega), List.map_cons]

/-- A valid string is read as its text. -/
theorem runes_encode (text : List Char) : runes (encode text) = text.map .char := takeRunes_encode le_rfl

theorem replaceInvalid_encode (text : List Char) : replaceInvalid (encode text) = text := by
  rw [replaceInvalid, runes_encode, List.map_map]
  exact List.map_id text

/-- Nothing is replaced in a valid string. -/
theorem encode_replaceInvalid_iff : encode (replaceInvalid bytes) = bytes ↔ Valid bytes := by
  refine ⟨fun h => ⟨_, h⟩, ?_⟩
  rintro ⟨text, rfl⟩
  rw [replaceInvalid_encode]

instance : Decidable (Valid bytes) := decidable_of_iff _ encode_replaceInvalid_iff

/-! ## Cutting -/

theorem Valid.encode (text : List Char) : Valid (encode text) := ⟨text, rfl⟩

theorem Valid.append {bytes' : Bytes} (h : Valid bytes) (h' : Valid bytes') : Valid (bytes ++ bytes') := by
  obtain ⟨text, rfl⟩ := h
  obtain ⟨text', rfl⟩ := h'
  exact ⟨text ++ text', encode_append text text'⟩

/-- No character begins with another one. -/
theorem encodeChar_append_inj {bytes' : Bytes}
    (h : String.utf8EncodeChar c ++ bytes = String.utf8EncodeChar d ++ bytes') : c = d ∧ bytes = bytes' := by
  have hdecode := decodeRune_encodeChar c bytes
  rw [h, decodeRune_encodeChar d bytes'] at hdecode
  obtain rfl := Option.some.inj hdecode
  exact ⟨rfl, List.append_cancel_left h⟩

/-- A part of a valid string is valid exactly where it ends between two characters. -/
theorem valid_take_iff {n : Nat} (hn : n ≤ (encode text).length) :
    Valid ((encode text).take n) ↔ ∃ front rest, text = front ++ rest ∧ (encode front).length = n := by
  constructor
  · rintro ⟨front, hfront⟩
    have hsplit : encode text = encode front ++ (encode text).drop n := by rw [hfront, List.take_append_drop]
    have hlength : (encode front).length = n := by rw [hfront, List.length_take, Nat.min_eq_left hn]
    generalize (encode text).drop n = tail at hsplit
    clear hfront hn
    induction front generalizing text n with
    | nil => exact ⟨[], text, rfl, hlength⟩
    | cons c front ih =>
      cases text with
      | nil =>
        rw [encode_nil, encode_cons, List.append_assoc] at hsplit
        exact absurd (List.append_eq_nil_iff.mp hsplit.symm).1 (utf8EncodeChar_ne_nil c)
      | cons d text =>
        rw [encode_cons, encode_cons, List.append_assoc] at hsplit
        obtain ⟨rfl, hrest⟩ := encodeChar_append_inj hsplit
        obtain ⟨front', rest, rfl, hfront'⟩ := ih rfl hrest
        refine ⟨d :: front', rest, rfl, ?_⟩
        rw [← hlength, encode_cons, encode_cons, List.length_append, List.length_append, hfront']
  · rintro ⟨front, rest, rfl, rfl⟩
    rw [encode_append, List.take_left]
    exact Valid.encode front

/-- The bytes of a character after the first begin no character. -/
theorem eq_nil_of_encodeChar_append {before after more : Bytes}
    (h : String.utf8EncodeChar d = before ++ after) (hafter : after ≠ [])
    (hmore : after ++ more = String.utf8EncodeChar c) : before = [] := by
  obtain ⟨b, after, rfl⟩ := List.exists_cons_of_ne_nil hafter
  have hfirst : (String.utf8EncodeChar c)[0]? = some b := by
    rw [← hmore]
    rfl
  have hlater : (String.utf8EncodeChar d)[before.length]? = some b := by
    rw [h]
    simp
  obtain ⟨hc, hb⟩ := List.getElem?_eq_some_iff.mp hfirst
  obtain ⟨hd, hb'⟩ := List.getElem?_eq_some_iff.mp hlater
  have hbegins : ((String.utf8EncodeChar c)[0]).IsUTF8FirstByte := UInt8.isUTF8FirstByte_getElem_utf8EncodeChar.mpr rfl
  rw [hb, ← hb', UInt8.isUTF8FirstByte_getElem_utf8EncodeChar] at hbegins
  exact List.eq_nil_of_length_eq_zero hbegins

/-- What stands before a character is valid where the whole is. -/
theorem valid_of_append_char (h : Valid (bytes ++ String.utf8EncodeChar c)) : Valid bytes := by
  obtain ⟨text, htext⟩ := h
  induction text generalizing bytes with
  | nil => exact absurd (List.append_eq_nil_iff.mp htext.symm).2 (utf8EncodeChar_ne_nil c)
  | cons d text ih =>
    rw [encode_cons, List.append_eq_append_iff] at htext
    rcases htext with ⟨more, rfl, hrest⟩ | ⟨after, hd, hc⟩
    · have hchar : Valid (String.utf8EncodeChar d) := ⟨[d], by simp⟩
      exact hchar.append (ih hrest)
    · by_cases hnil : after = []
      · subst hnil
        exact ⟨[d], by simpa using hd⟩
      · rw [eq_nil_of_encodeChar_append hd hnil hc.symm]
        exact ⟨[], rfl⟩

/-! ## Trimming -/

theorem flatMap_char (text : List Char) : (text.map Rune.char).flatMap Rune.bytes = encode text := by
  rw [List.flatMap_map]
  rfl

/-- A text is trimmed as its characters are. -/
theorem trimWhere_encode (p : Char → Bool) (text : List Char) :
    trimWhere p (encode text) = encode ((text.dropWhile p).rdropWhile p) := by
  have hdrop : ∀ l : List Char, (l.map Rune.char).dropWhile (Rune.is p) = (l.dropWhile p).map Rune.char := by
    intro l
    rw [List.dropWhile_map]
    rfl
  rw [trimWhere, runes_encode, hdrop, List.rdropWhile, ← List.map_reverse, hdrop, ← List.map_reverse, flatMap_char,
    List.rdropWhile]

theorem valid_of_forall_is {p : Char → Bool} {rs : List Rune} (h : ∀ r ∈ rs, r.is p = true) :
    Valid (rs.flatMap Rune.bytes) := by
  induction rs with
  | nil => exact ⟨[], rfl⟩
  | cons r rs ih =>
    obtain ⟨hr, hrs⟩ := List.forall_mem_cons.mp h
    cases r with
    | stray b => cases hr
    | char c =>
      have hchar : Valid (String.utf8EncodeChar c) := ⟨[c], by simp⟩
      exact hchar.append (ih hrs)

/-- Trimming takes off characters only. -/
theorem exists_trimWhere (p : Char → Bool) (bytes : Bytes) :
    ∃ front rest, Valid front ∧ Valid rest ∧ bytes = front ++ (trimWhere p bytes ++ rest) := by
  have hsplit : ∀ rs : List Rune, rs.rdropWhile (Rune.is p) ++ rs.rtakeWhile (Rune.is p) = rs := by
    intro rs
    rw [List.rdropWhile, List.rtakeWhile, ← List.reverse_append, List.takeWhile_append_dropWhile, List.reverse_reverse]
  have hfront : Valid (((runes bytes).takeWhile (Rune.is p)).flatMap Rune.bytes) :=
    valid_of_forall_is fun _ hr => List.mem_takeWhile_imp hr
  have hrest : Valid ((((runes bytes).dropWhile (Rune.is p)).rtakeWhile (Rune.is p)).flatMap Rune.bytes) :=
    valid_of_forall_is fun _ hr => List.mem_rtakeWhile_imp hr
  refine ⟨_, _, hfront, hrest, ?_⟩
  rw [trimWhere, ← List.flatMap_append, hsplit, ← List.flatMap_append, List.takeWhile_append_dropWhile, flatMap_runes]

/-- What is left of a valid string is valid. -/
theorem Valid.trimWhere {p : Char → Bool} (h : Valid bytes) : Valid (trimWhere p bytes) := by
  obtain ⟨text, rfl⟩ := h
  rw [trimWhere_encode]
  exact Valid.encode _

/-- A string is as valid as what trimming leaves of it. -/
theorem valid_trimWhere_iff (p : Char → Bool) (bytes : Bytes) : Valid (Utf8.trimWhere p bytes) ↔ Valid bytes := by
  refine ⟨fun h => ?_, Valid.trimWhere⟩
  obtain ⟨front, rest, hfront, hrest, heq⟩ := exists_trimWhere p bytes
  rw [heq]
  exact hfront.append (h.append hrest)

end Utf8
