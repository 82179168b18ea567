import Mathlib.Data.List.Basic
import Mathlib.Data.BitVec

/-!
# Galois/counter mode

GCM over any block cipher of 128-bit blocks, with 96-bit nonces, 128-bit tags and no additional
data. Nothing here depends on what the cipher computes: `openSealed_iff` says that a text opens
exactly if it is the sealed text of what it opens to.
-/

namespace Gcm

abbrev Bytes := List UInt8

abbrev Block := BitVec 128

/-- A block as its bytes, the most significant first. -/
def bytesOf (b : Block) : Bytes :=
  (List.range 16).map fun i => UInt8.ofBitVec ((b >>> (8 * (15 - i))).setWidth 8)

/-- The first 16 bytes as a block, filled up with zeros. -/
def blockOf (bytes : Bytes) : Block :=
  (List.range 16).foldl (fun b i => (b <<< 8) ||| (bytes.getD i 0).toBitVec.setWidth 128) 0

/-- The blocks of the bytes, the last one filled up with zeros. -/
def blocks (bytes : Bytes) : List Block :=
  (List.range ((bytes.length + 15) / 16)).map fun i => blockOf (bytes.drop (16 * i))

/-! ## Counter mode -/

/-- The counter block `n` of a nonce. -/
def counter (nonce : Bytes) (n : Nat) : Block := (blockOf nonce >>> 32 <<< 32) ||| BitVec.ofNat 128 (n % 2 ^ 32)

/-- So many blocks of the key stream, from the counter `n` on. -/
def keystream (cipher : Block → Block) (nonce : Bytes) (n : Nat) : Nat → Bytes
  | 0 => []
  | count + 1 => bytesOf (cipher (counter nonce n)) ++ keystream cipher nonce (n + 1) count

/-- The bytes combined with the key stream. -/
def gctr (cipher : Block → Block) (nonce bytes : Bytes) : Bytes :=
  bytes.zipWith (· ^^^ ·) (keystream cipher nonce 2 ((bytes.length + 15) / 16))

/-! ## Tags -/

/-- The product in the field of `2 ^ 128` elements, whose bits are numbered from the most
significant one. -/
def mul (x y : Block) : Block :=
  ((List.range 128).foldl (fun (zv : Block × Block) i =>
    (if x.getMsbD i then zv.1 ^^^ zv.2 else zv.1,
      if zv.2.getLsbD 0 then (zv.2 >>> 1) ^^^ (0xE1#128 <<< 120) else zv.2 >>> 1)) (0#128, y)).1

def ghash (h : Block) (bs : List Block) : Block := bs.foldl (fun y b => mul (y ^^^ b) h) 0#128

/-- The tag of a ciphertext. -/
def tag (cipher : Block → Block) (nonce ciphertext : Bytes) : Bytes :=
  bytesOf (ghash (cipher 0#128) (blocks ciphertext ++ [BitVec.ofNat 128 (8 * ciphertext.length)]) ^^^
    cipher (counter nonce 1))

/-! ## Sealing -/

/-- The ciphertext with its tag. -/
def sealText (cipher : Block → Block) (nonce plaintext : Bytes) : Bytes :=
  let ciphertext := gctr cipher nonce plaintext
  ciphertext ++ tag cipher nonce ciphertext

/-- The plaintext, where the tag is that of the ciphertext. -/
def openSealed (cipher : Block → Block) (nonce sealedText : Bytes) : Option Bytes :=
  if sealedText.length < 16 then none
  else
    let ciphertext := sealedText.take (sealedText.length - 16)
    if sealedText.drop (sealedText.length - 16) = tag cipher nonce ciphertext then
      some (gctr cipher nonce ciphertext)
    else none

variable (cipher : Block → Block) (nonce : Bytes)

@[simp] theorem length_bytesOf (b : Block) : (bytesOf b).length = 16 := by
  simp [bytesOf]

@[simp] theorem length_keystream (n count : Nat) : (keystream cipher nonce n count).length = 16 * count := by
  induction count generalizing n with
  | zero => rfl
  | succ count ih =>
    rw [keystream, List.length_append, length_bytesOf, ih]
    omega

@[simp] theorem length_tag (ciphertext : Bytes) : (tag cipher nonce ciphertext).length = 16 :=
  length_bytesOf _

@[simp] theorem length_gctr (bytes : Bytes) : (gctr cipher nonce bytes).length = bytes.length := by
  rw [gctr, List.length_zipWith, length_keystream]
  omega

@[simp] theorem length_sealText (plaintext : Bytes) :
    (sealText cipher nonce plaintext).length = plaintext.length + 16 := by
  simp [sealText]

/-- Combining twice with the same stream. -/
theorem zipWith_xor_cancel {bytes stream : Bytes} (h : bytes.length ≤ stream.length) :
    (bytes.zipWith (· ^^^ ·) stream).zipWith (· ^^^ ·) stream = bytes := by
  induction bytes generalizing stream with
  | nil => rfl
  | cons b bytes ih =>
    cases stream with
    | nil => simp at h
    | cons s stream =>
      have hle : bytes.length ≤ stream.length := by simpa using h
      rw [List.zipWith_cons_cons, List.zipWith_cons_cons, ih hle, UInt8.xor_assoc, UInt8.xor_self,
        UInt8.xor_zero]

@[simp] theorem gctr_gctr (bytes : Bytes) : gctr cipher nonce (gctr cipher nonce bytes) = bytes := by
  have hle : bytes.length ≤ (keystream cipher nonce 2 ((bytes.length + 15) / 16)).length := by
    rw [length_keystream]
    omega
  have hlen := length_gctr cipher nonce bytes
  rw [gctr, hlen]
  exact zipWith_xor_cancel hle

theorem openSealed_sealText (plaintext : Bytes) :
    openSealed cipher nonce (sealText cipher nonce plaintext) = some plaintext := by
  have hlen : (sealText cipher nonce plaintext).length - 16 = (gctr cipher nonce plaintext).length := by
    simp
  rw [openSealed, if_neg (by simp), hlen]
  simp [sealText]

/-- What opens is what was sealed. -/
theorem openSealed_iff {sealedText plaintext : Bytes} :
    openSealed cipher nonce sealedText = some plaintext ↔ sealedText = sealText cipher nonce plaintext := by
  constructor
  · intro h
    rw [openSealed, Option.ite_none_left_eq_some] at h
    obtain ⟨-, h⟩ := h
    rw [Option.ite_none_right_eq_some] at h
    obtain ⟨htag, hplain⟩ := h
    obtain rfl := Option.some.inj hplain
    rw [sealText, gctr_gctr, ← htag, List.take_append_drop]
  · rintro rfl
    exact openSealed_sealText cipher nonce plaintext

end Gcm
