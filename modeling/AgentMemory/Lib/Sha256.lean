import Mathlib.Data.List.Basic


/-!
# SHA-256

`hashlib.sha256` over bytes, as FIPS 180-4 defines it, with the digest in bytes and in
hexadecimal. The proofs use only the shape of a digest; that it has no collisions where it
matters is for a theorem to assume.
-/

namespace Sha256

abbrev Byte := BitVec 8

abbrev Word := BitVec 32

/-- The eight working variables, and the eight words of a hash value. -/
structure State where
  a : Word
  b : Word
  c : Word
  d : Word
  e : Word
  f : Word
  g : Word
  h : Word

/-- The initial hash value. -/
def initial : State :=
  ⟨0x6a09e667, 0xbb67ae85, 0x3c6ef372, 0xa54ff53a, 0x510e527f, 0x9b05688c, 0x1f83d9ab, 0x5be0cd19⟩

/-- The constants of the 64 rounds. -/
def roundConstants : List Word :=
  [0x428a2f98, 0x71374491, 0xb5c0fbcf, 0xe9b5dba5, 0x3956c25b, 0x59f111f1,
    0x923f82a4, 0xab1c5ed5, 0xd807aa98, 0x12835b01, 0x243185be, 0x550c7dc3,
    0x72be5d74, 0x80deb1fe, 0x9bdc06a7, 0xc19bf174, 0xe49b69c1, 0xefbe4786,
    0x0fc19dc6, 0x240ca1cc, 0x2de92c6f, 0x4a7484aa, 0x5cb0a9dc, 0x76f988da,
    0x983e5152, 0xa831c66d, 0xb00327c8, 0xbf597fc7, 0xc6e00bf3, 0xd5a79147,
    0x06ca6351, 0x14292967, 0x27b70a85, 0x2e1b2138, 0x4d2c6dfc, 0x53380d13,
    0x650a7354, 0x766a0abb, 0x81c2c92e, 0x92722c85, 0xa2bfe8a1, 0xa81a664b,
    0xc24b8b70, 0xc76c51a3, 0xd192e819, 0xd6990624, 0xf40e3585, 0x106aa070,
    0x19a4c116, 0x1e376c08, 0x2748774c, 0x34b0bcb5, 0x391c0cb3, 0x4ed8aa4a,
    0x5b9cca4f, 0x682e6ff3, 0x748f82ee, 0x78a5636f, 0x84c87814, 0x8cc70208,
    0x90befffa, 0xa4506ceb, 0xbef9a3f7, 0xc67178f2]

def bigSigma0 (x : Word) : Word := x.rotateRight 2 ^^^ x.rotateRight 13 ^^^ x.rotateRight 22

def bigSigma1 (x : Word) : Word := x.rotateRight 6 ^^^ x.rotateRight 11 ^^^ x.rotateRight 25

def smallSigma0 (x : Word) : Word := x.rotateRight 7 ^^^ x.rotateRight 18 ^^^ (x >>> 3)

def smallSigma1 (x : Word) : Word := x.rotateRight 17 ^^^ x.rotateRight 19 ^^^ (x >>> 10)

/-- One round with the sum of its constant and its schedule word. -/
def round (s : State) (kw : Word) : State :=
  let t₁ := s.h + bigSigma1 s.e + ((s.e &&& s.f) ^^^ (~~~s.e &&& s.g)) + kw
  let t₂ := bigSigma0 s.a + ((s.a &&& s.b) ^^^ (s.a &&& s.c) ^^^ (s.b &&& s.c))
  ⟨t₁ + t₂, s.a, s.b, s.c, s.d + t₁, s.e, s.f, s.g⟩

/-- The schedule words up to the last one, latest first, after `n` more. -/
def extend : Nat → List Word → List Word
  | 0, ws => ws
  | n + 1, ws =>
    extend n ((smallSigma1 (ws.getD 1 0) + ws.getD 6 0 + smallSigma0 (ws.getD 14 0) +
      ws.getD 15 0) :: ws)

/-- The 64 schedule words of a block of 16. -/
def schedule (block : List Word) : List Word := (extend 48 block.reverse).reverse

/-- The hash value after a block. -/
def compress (s : State) (block : List Word) : State :=
  let r := (List.zipWith (· + ·) roundConstants (schedule block)).foldl round s
  ⟨s.a + r.a, s.b + r.b, s.c + r.c, s.d + r.d, s.e + r.e, s.f + r.f, s.g + r.g, s.h + r.h⟩

/-- The message with a one bit, zeros and its length in bits, in whole blocks. -/
def pad (message : List Byte) : List Byte :=
  message ++ 0x80 :: List.replicate ((119 - message.length % 64) % 64) (0 : Byte) ++
    (List.range 8).map fun i => BitVec.ofNat 8 ((8 * message.length) >>> (8 * (7 - i)))

/-- Bytes as big-endian words. -/
def words : List Byte → List Word
  | a :: b :: c :: d :: rest => (a ++ b ++ c ++ d) :: words rest
  | _ => []

/-- The hash value after `n` blocks. -/
def absorb : Nat → State → List Word → State
  | 0, s, _ => s
  | n + 1, s, ws => absorb n (compress s (ws.take 16)) (ws.drop 16)

def wordBytes (w : Word) : List Byte :=
  [w.extractLsb' 24 8, w.extractLsb' 16 8, w.extractLsb' 8 8, w.extractLsb' 0 8]

/-- `hashlib.sha256(message).digest()`. -/
def digest (message : List Byte) : List Byte :=
  let ws := words (pad message)
  let s := absorb (ws.length / 16) initial ws
  [s.a, s.b, s.c, s.d, s.e, s.f, s.g, s.h].flatMap wordBytes

/-- The two hexadecimal digits of a byte. -/
def hexByte (b : Byte) : List Char := [(b.toNat / 16).digitChar, (b.toNat % 16).digitChar]

/-- `hashlib.sha256(message).hexdigest()`. -/
def hexdigest (message : List Byte) : List Char := (digest message).flatMap hexByte

/-- The UTF-8 bytes of a text. -/
def utf8 (text : List Char) : List Byte :=
  text.flatMap fun c => (String.utf8EncodeChar c).map UInt8.toBitVec

/-- A lower-case hexadecimal digit. -/
def isHexDigit (c : Char) : Bool := c ∈ "0123456789abcdef".toList

theorem length_digest (message : List Byte) : (digest message).length = 32 := by
  simp [digest, wordBytes]

theorem isAlphanum_of_isHexDigit {c : Char} (h : isHexDigit c = true) : c.isAlphanum = true := by
  have hdigits : ∀ c ∈ "0123456789abcdef".toList, c.isAlphanum = true :=
    List.all_eq_true.mp (by decide)
  exact hdigits c (by simpa [isHexDigit] using h)

theorem isHexDigit_digitChar : ∀ n < 16, isHexDigit n.digitChar = true := by decide

theorem isHexDigit_hexByte {b : Byte} {c : Char} (h : c ∈ hexByte b) : isHexDigit c = true := by
  have hb : b.toNat < 256 := b.isLt
  simp only [hexByte, List.mem_cons, List.not_mem_nil, or_false] at h
  rcases h with rfl | rfl <;> exact isHexDigit_digitChar _ (by omega)

theorem isHexDigit_hexdigest {message : List Byte} {c : Char} (h : c ∈ hexdigest message) :
    isHexDigit c = true := by
  obtain ⟨b, -, hc⟩ := List.mem_flatMap.mp h
  exact isHexDigit_hexByte hc

theorem length_hexdigest (message : List Byte) : (hexdigest message).length = 64 := by
  have hbytes : ∀ bs : List Byte, (bs.flatMap hexByte).length = 2 * bs.length := by
    intro bs
    induction bs with
    | nil => rfl
    | cons b bs ih =>
      simp only [List.flatMap_cons, List.length_append, ih, hexByte, List.length_cons, List.length_nil]
      omega
  rw [hexdigest, hbytes, length_digest]

example : hexdigest (utf8 "abc".toList) =
    "ba7816bf8f01cfea414140de5dae2223b00361a396177a9cb410ff61f20015ad".toList := by
  decide +kernel

end Sha256
