import Mathlib.Data.List.Basic

/-!
# Base64

The standard encoding with padding, written as RFC 4648 has it and read as Go's `encoding/base64`
reads it: line breaks are skipped, and the bits that a last quantum does not use may be anything.
-/

namespace Base64

def alphabet : List Char :=
  "ABCDEFGHIJKLMNOPQRSTUVWXYZabcdefghijklmnopqrstuvwxyz0123456789+/".toList

/-- The digit of a number below 64. -/
def digit (n : Nat) : Char := alphabet.getD n '='

/-- The number of a digit. -/
def value (c : Char) : Option Nat := alphabet.findIdx? (· = c)

/-- The bytes in quanta of four characters. -/
def encode : List UInt8 → List Char
  | [] => []
  | [a] => [digit (a.toNat / 4), digit (a.toNat % 4 * 16), '=', '=']
  | [a, b] =>
    [digit (a.toNat / 4), digit (a.toNat % 4 * 16 + b.toNat / 16), digit (b.toNat % 16 * 4), '=']
  | a :: b :: c :: bytes =>
    digit (a.toNat / 4) :: digit (a.toNat % 4 * 16 + b.toNat / 16) ::
      digit (b.toNat % 16 * 4 + c.toNat / 64) :: digit (c.toNat % 64) :: encode bytes

/-- The first, the second and the third byte of a quantum. -/
def byte₁ (w x : Nat) : UInt8 := UInt8.ofNat (w * 4 + x / 16)

def byte₂ (x y : Nat) : UInt8 := UInt8.ofNat (x % 16 * 16 + y / 4)

def byte₃ (y z : Nat) : UInt8 := UInt8.ofNat (y % 4 * 64 + z)

/-- The bytes of a text without line breaks. -/
def decodeQuanta : List Char → Option (List UInt8)
  | [] => some []
  | [w, x, '=', '='] => do return [byte₁ (← value w) (← value x)]
  | [w, x, y, '='] => do
    let x ← value x
    let y ← value y
    return [byte₁ (← value w) x, byte₂ x y]
  | w :: x :: y :: z :: text => do
    let x ← value x
    let y ← value y
    return byte₁ (← value w) x :: byte₂ x y :: byte₃ y (← value z) :: (← decodeQuanta text)
  | _ => none

/-- The bytes of a text. -/
def decode (text : List Char) : Option (List UInt8) :=
  decodeQuanta (text.filter fun c => c ≠ '\n' && c ≠ '\r')

/-! ## Round trip -/

theorem digit_props : ∀ n < 64, value (digit n) = some n ∧ digit n ≠ '=' ∧ digit n ≠ '\n' ∧
    digit n ≠ '\r' ∧ digit n ≠ '"' := by decide

theorem value_digit {n : Nat} (h : n < 64) : value (digit n) = some n := (digit_props n h).1

theorem digit_ne_pad {n : Nat} (h : n < 64) : digit n ≠ '=' := (digit_props n h).2.1

theorem byte₁_eq (a b : UInt8) : byte₁ (a.toNat / 4) (a.toNat % 4 * 16 + b.toNat / 16) = a := by
  have hb := b.toNat_lt
  have heq : a.toNat / 4 * 4 + (a.toNat % 4 * 16 + b.toNat / 16) / 16 = a.toNat := by omega
  rw [byte₁, heq, UInt8.ofNat_toNat]

theorem byte₂_eq (a b c : UInt8) :
    byte₂ (a.toNat % 4 * 16 + b.toNat / 16) (b.toNat % 16 * 4 + c.toNat / 64) = b := by
  have hb := b.toNat_lt
  have hc := c.toNat_lt
  have heq : (a.toNat % 4 * 16 + b.toNat / 16) % 16 * 16 + (b.toNat % 16 * 4 + c.toNat / 64) / 4 = b.toNat := by
    omega
  rw [byte₂, heq, UInt8.ofNat_toNat]

theorem byte₃_eq (b c : UInt8) : byte₃ (b.toNat % 16 * 4 + c.toNat / 64) (c.toNat % 64) = c := by
  have hc := c.toNat_lt
  have heq : (b.toNat % 16 * 4 + c.toNat / 64) % 4 * 64 + c.toNat % 64 = c.toNat := by omega
  rw [byte₃, heq, UInt8.ofNat_toNat]

theorem decodeQuanta_encode (bytes : List UInt8) : decodeQuanta (encode bytes) = some bytes := by
  induction bytes using encode.induct with
  | case1 => rfl
  | case2 a =>
    have ha := a.toNat_lt
    have hbyte := byte₁_eq a 0
    rw [encode, decodeQuanta, value_digit (by omega), value_digit (by omega)]
    simpa using hbyte
  | case3 a b =>
    have ha := a.toNat_lt
    have hb := b.toNat_lt
    have hbyte := byte₂_eq a b 0
    rw [encode, decodeQuanta, value_digit (by omega), value_digit (by omega), value_digit (by omega)]
    · simpa [byte₁_eq] using hbyte
    · exact fun h => digit_ne_pad (by omega) h
  | case4 a b c bytes ih =>
    have ha := a.toNat_lt
    have hb := b.toNat_lt
    have hc := c.toNat_lt
    rw [encode, decodeQuanta, value_digit (by omega), value_digit (by omega), value_digit (by omega),
      value_digit (by omega), ih]
    · simp [byte₁_eq, byte₂_eq, byte₃_eq]
    · exact fun _ h _ => digit_ne_pad (by omega) h
    · exact fun h _ => digit_ne_pad (by omega) h

/-- The characters of an encoded text are digits and padding. -/
theorem mem_encode {bytes : List UInt8} {c : Char} (h : c ∈ encode bytes) :
    c = '=' ∨ ∃ n < 64, c = digit n := by
  induction bytes using encode.induct with
  | case1 => exact absurd h List.not_mem_nil
  | case2 a =>
    have ha := a.toNat_lt
    simp only [encode, List.mem_cons, List.not_mem_nil, or_false] at h
    obtain rfl | rfl | rfl | rfl := h
    · exact Or.inr ⟨_, by omega, rfl⟩
    · exact Or.inr ⟨_, by omega, rfl⟩
    · exact Or.inl rfl
    · exact Or.inl rfl
  | case3 a b =>
    have ha := a.toNat_lt
    have hb := b.toNat_lt
    simp only [encode, List.mem_cons, List.not_mem_nil, or_false] at h
    obtain rfl | rfl | rfl | rfl := h
    · exact Or.inr ⟨_, by omega, rfl⟩
    · exact Or.inr ⟨_, by omega, rfl⟩
    · exact Or.inr ⟨_, by omega, rfl⟩
    · exact Or.inl rfl
  | case4 a b c' bytes ih =>
    have ha := a.toNat_lt
    have hb := b.toNat_lt
    have hc := c'.toNat_lt
    simp only [encode, List.mem_cons] at h
    obtain rfl | rfl | rfl | rfl | h := h
    · exact Or.inr ⟨_, by omega, rfl⟩
    · exact Or.inr ⟨_, by omega, rfl⟩
    · exact Or.inr ⟨_, by omega, rfl⟩
    · exact Or.inr ⟨_, by omega, rfl⟩
    · exact ih h

theorem plain_of_mem_encode {bytes : List UInt8} {c : Char} (h : c ∈ encode bytes) :
    c ≠ '\n' ∧ c ≠ '\r' ∧ c ≠ '"' := by
  obtain rfl | ⟨n, hn, rfl⟩ := mem_encode h
  · decide
  · exact (digit_props n hn).2.2

theorem decode_encode (bytes : List UInt8) : decode (encode bytes) = some bytes := by
  have hfilter : (encode bytes).filter (fun c => c ≠ '\n' && c ≠ '\r') = encode bytes :=
    List.filter_eq_self.mpr fun c hc => by simp [plain_of_mem_encode hc]
  rw [decode, hfilter, decodeQuanta_encode]

end Base64
