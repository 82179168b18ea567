import AgentMemory.Lib.Base64
import AgentMemory.Lib.Gcm
import AgentMemory.Lib.ObjectStores
import AgentMemory.Lib.Utf8

/-!
# Envelope encryption

`internal/security`: an object is sealed with a key of its own, and that key with the key of the
configuration. AES is a parameter, since nothing depends on what the block cipher computes, and
so is what `encoding/json` makes of an envelope, of which only the round trip is used.
`encrypting_store_transparent` says that nobody who reads and writes through
`EncryptingObjectStore` can tell it from the store without encryption, and `foreign_objects` what
`Get` makes of the objects that others have put into the bucket.
-/

namespace AgentMemory.Security

open Gcm ObjectStores

/-- Why a call gives no result. -/
inductive Failure where
  | error (text : String)
  | panic (text : String)
  deriving DecidableEq

/-- `fmt.Errorf("context: %w", err)`; a panic goes through. -/
def Failure.wrap (context : String) : Failure → Failure
  | .error text => .error (context ++ ": " ++ text)
  | .panic text => .panic text

/-! ## `crypto/cipher` -/

/-- The block cipher that `aes.NewCipher` makes of a key. -/
abbrev Aes := Bytes → Block → Block

/-- What GCM seals at most. -/
def maxPlaintext : Nat := (2 ^ 32 - 2) * 16

def nonceLength : Failure := .panic "crypto/cipher: incorrect nonce length given to GCM"

def messageTooLarge : Failure := .panic "crypto/cipher: message too large for GCM"

def errOpen : Failure := .error "cipher: message authentication failed"

/-- `AEAD.Seal`. -/
def aeadSeal (cipher : Block → Block) (nonce plaintext : Bytes) : Except Failure Bytes :=
  if nonce.length ≠ 12 then .error nonceLength
  else if maxPlaintext < plaintext.length then .error messageTooLarge
  else .ok (sealText cipher nonce plaintext)

/-- `AEAD.Open`. -/
def aeadOpen (cipher : Block → Block) (nonce sealedText : Bytes) : Except Failure Bytes :=
  if nonce.length ≠ 12 then .error nonceLength
  else if maxPlaintext + 16 < sealedText.length then .error errOpen
  else
    match openSealed cipher nonce sealedText with
    | some plaintext => .ok plaintext
    | none => .error errOpen

/-- `newAEAD` (`encryption.go:87-93`). -/
def newAEAD (aes : Aes) (key : Bytes) : Except Failure (Block → Block) :=
  if key.length ∈ [16, 24, 32] then .ok (aes key)
  else .error (.error s!"crypto/aes: invalid key size {key.length}")

/-! ## `Encryptor` -/

/-- `Envelope` (`encryption.go:18-23`). -/
structure Envelope where
  wrappedKey : Bytes
  keyNonce : Bytes
  dataNonce : Bytes
  ciphertext : Bytes
  deriving DecidableEq

/-- `Encryptor` (`encryption.go:25-27`). -/
structure Encryptor where
  kek : Block → Block

/-- `NewEncryptor` (`encryption.go:31-44`); the error of `base64` also tells where it stopped. -/
def newEncryptor (aes : Aes) (base64Key : List Char) : Except Failure Encryptor :=
  match Base64.decode base64Key with
  | none => .error (.error "decode encryption key: illegal base64 data")
  | some key =>
    if key.length ≠ 32 then .error (.error "encryption key must be 32 bytes (base64-encoded)")
    else (newAEAD aes key).map Encryptor.mk

/-- What `rand.Reader` gives one call of `Encrypt`. -/
structure Draw where
  dek : Bytes
  dataNonce : Bytes
  keyNonce : Bytes
  length_dek : dek.length = 32
  length_dataNonce : dataNonce.length = 12
  length_keyNonce : keyNonce.length = 12

/-- What `encoding/json` makes of an envelope. -/
structure EnvelopeJson where
  marshal : Envelope → Bytes
  unmarshal : Bytes → Except String Envelope
  unmarshal_marshal : ∀ env, unmarshal (marshal env) = .ok env

/-- The text of an envelope, cut at its quotes. -/
def Envelope.pieces (env : Envelope) : List (List Char) :=
  [['{'], "wrapped_key".toList, [':'], Base64.encode env.wrappedKey,
    [','], "key_nonce".toList, [':'], Base64.encode env.keyNonce,
    [','], "data_nonce".toList, [':'], Base64.encode env.dataNonce,
    [','], "ciphertext".toList, [':'], Base64.encode env.ciphertext, ['}']]

/-- An envelope from such pieces. -/
def envelopeOf : List (List Char) → Option Envelope
  | [_, _, _, wrappedKey, _, _, _, keyNonce, _, _, _, dataNonce, _, _, _, ciphertext, _] => do
    return ⟨← Base64.decode wrappedKey, ← Base64.decode keyNonce, ← Base64.decode dataNonce,
      ← Base64.decode ciphertext⟩
  | _ => none

theorem envelopeOf_pieces (env : Envelope) : envelopeOf env.pieces = some env := by
  simp [envelopeOf, Envelope.pieces, Base64.decode_encode]

theorem not_mem_pieces (env : Envelope) : ∀ piece ∈ env.pieces, '"' ∉ piece := by
  have hencoded : ∀ bytes, '"' ∉ Base64.encode bytes := fun bytes h => (Base64.plain_of_mem_encode h).2.2 rfl
  simp [Envelope.pieces, hencoded]

/-- `json.Marshal` of an envelope. -/
def marshalEnvelope (env : Envelope) : Bytes := Utf8.encode (['"'].intercalate env.pieces)

/-- Reads what `marshalEnvelope` writes, and nothing else. -/
def unmarshalEnvelope (payload : Bytes) : Except String Envelope :=
  match envelopeOf ((Utf8.replaceInvalid payload).splitOn '"') with
  | some env =>
    if (Utf8.replaceInvalid payload).splitOn '"' = env.pieces then .ok env else .error "not an envelope"
  | none => .error "not an envelope"

theorem unmarshalEnvelope_marshalEnvelope (env : Envelope) : unmarshalEnvelope (marshalEnvelope env) = .ok env := by
  have hsplit : (['"'].intercalate env.pieces).splitOn '"' = env.pieces :=
    List.splitOn_intercalate '"' (not_mem_pieces env) (List.cons_ne_nil _ _)
  simp [unmarshalEnvelope, marshalEnvelope, Utf8.replaceInvalid_encode, hsplit, envelopeOf_pieces]

/-- The texts that `json.Marshal` writes, and no others. -/
def strictJson : EnvelopeJson := ⟨marshalEnvelope, unmarshalEnvelope, unmarshalEnvelope_marshalEnvelope⟩

section Model

variable (aes : Aes) (json : EnvelopeJson)

/-- `Encrypt` (`encryption.go:46-70`); `rand.Reader` may fail. -/
def Encryptor.encrypt (e : Encryptor) (draw : Except Failure Draw) (plaintext : Bytes) : Except Failure Envelope := do
  let draw ← draw
  let dataAEAD ← newAEAD aes draw.dek
  let wrappedKey ← aeadSeal e.kek draw.keyNonce draw.dek
  let ciphertext ← aeadSeal dataAEAD draw.dataNonce plaintext
  return ⟨wrappedKey, draw.keyNonce, draw.dataNonce, ciphertext⟩

/-- `Decrypt` (`encryption.go:72-85`). -/
def Encryptor.decrypt (e : Encryptor) (env : Envelope) : Except Failure Bytes :=
  match aeadOpen e.kek env.keyNonce env.wrappedKey with
  | .error err => .error (err.wrap "unwrap data key")
  | .ok dek =>
    match newAEAD aes dek with
    | .error err => .error err
    | .ok dataAEAD =>
      match aeadOpen dataAEAD env.dataNonce env.ciphertext with
      | .error err => .error (err.wrap "decrypt payload")
      | .ok plaintext => .ok plaintext

/-! ## `EncryptingObjectStore` -/

/-- The bucket behind the object store, whose requests fail as the network has it. -/
abbrev bucketStore : Store (Bucket (List Char) Bytes) (Fault Failure) (List Char) Bytes Failure := Bucket.store

variable {σ ω : Type}

/-- `EncryptingObjectStore` (`object_store.go:12-15`). -/
structure EncryptingObjectStore (σ ω : Type) where
  inner : Store σ ω (List Char) Bytes Failure
  enc : Encryptor

namespace EncryptingObjectStore

variable (s : EncryptingObjectStore σ ω)

/-- `Put` (`object_store.go:21-31`). -/
def put (key : List Char) (data : Bytes) (draw : Except Failure Draw) (o : ω) (st : σ) : Reply Bytes Failure × σ :=
  match s.enc.encrypt aes draw data with
  | .error err => (.failed err, st)
  | .ok env => s.inner.perform (.put key (json.marshal env)) o st

/-- `Get` (`object_store.go:33-43`). -/
def get (key : List Char) (o : ω) (st : σ) : Reply Bytes Failure × σ :=
  match s.inner.perform (.get key) o st with
  | (.data payload, st') =>
    match json.unmarshal payload with
    | .error text => (.failed (.error text), st')
    | .ok env =>
      match s.enc.decrypt aes env with
      | .error err => (.failed err, st')
      | .ok data => (.data data, st')
  | (.done, st') => (.done, st')
  | (.missing, st') => (.missing, st')
  | (.failed err, st') => (.failed err, st')

/-- `Delete` (`object_store.go:45-47`). -/
def delete (key : List Char) (o : ω) (st : σ) : Reply Bytes Failure × σ := s.inner.perform (.delete key) o st

/-- The object store that these make. -/
def store : Store σ (Except Failure Draw × ω) (List Char) Bytes Failure where
  perform op o st :=
    match op with
    | .put key data => s.put aes json key data o.1 o.2 st
    | .get key => s.get aes json key o.2 st
    | .delete key => s.delete key o.2 st
  settle := s.inner.settle

end EncryptingObjectStore

end Model

/-! ## What opens -/

section Sealing

variable {cipher : Block → Block} {nonce plaintext sealedText : Bytes}

theorem aeadSeal_eq_ok : aeadSeal cipher nonce plaintext = .ok sealedText ↔
    nonce.length = 12 ∧ plaintext.length ≤ maxPlaintext ∧ sealedText = sealText cipher nonce plaintext := by
  unfold aeadSeal
  split
  · next hnonce => simp [hnonce]
  · next hnonce =>
    split
    · next hlong => simp [hlong]
    · next hlong =>
      rw [Except.ok.injEq, eq_comm]
      simp_all

theorem aeadOpen_eq_ok : aeadOpen cipher nonce sealedText = .ok plaintext ↔
    aeadSeal cipher nonce plaintext = .ok sealedText := by
  rw [aeadSeal_eq_ok]
  unfold aeadOpen
  have hlength : sealedText = sealText cipher nonce plaintext → sealedText.length = plaintext.length + 16 := by
    rintro rfl
    exact length_sealText cipher nonce plaintext
  split
  · next hnonce => simp [hnonce]
  · next hnonce =>
    split
    · next hlong =>
      constructor
      · intro h
        cases h
      · rintro ⟨-, hle, hsealed⟩
        have := hlength hsealed
        omega
    · next hlong =>
      have hopen : openSealed cipher nonce sealedText = some plaintext ↔
          sealedText = sealText cipher nonce plaintext := openSealed_iff cipher nonce
      cases hopened : openSealed cipher nonce sealedText with
      | none =>
        rw [hopened] at hopen
        constructor
        · intro h
          cases h
        · intro h
          cases hopen.mpr h.2.2
      | some opened =>
        rw [hopened, Option.some.injEq] at hopen
        rw [Except.ok.injEq, hopen]
        constructor
        · intro hsealed
          have := hlength hsealed
          exact ⟨by simpa using hnonce, by omega, hsealed⟩
        · exact fun h => h.2.2

/-- An AEAD panics on a nonce of the wrong length, and on nothing else that it opens. -/
theorem aeadOpen_panics : (∃ text, aeadOpen cipher nonce sealedText = .error (.panic text)) ↔ nonce.length ≠ 12 := by
  unfold aeadOpen
  split
  · next hnonce => exact iff_of_true ⟨_, rfl⟩ hnonce
  · next hnonce =>
    refine iff_of_false ?_ hnonce
    rintro ⟨text, h⟩
    split at h
    · cases h
    · split at h <;> cases h

end Sealing

section Opening

variable {aes : Aes} {json : EnvelopeJson} {e : Encryptor} {env : Envelope} {draw : Except Failure Draw}
  {plaintext : Bytes}

theorem newAEAD_eq_ok {key : Bytes} {cipher : Block → Block} :
    newAEAD aes key = .ok cipher ↔ key.length ∈ [16, 24, 32] ∧ cipher = aes key := by
  unfold newAEAD
  split
  · next hkey => simp [hkey, eq_comm]
  · next hkey => simp [hkey]

/-- The envelope holds this data key, sealed with the key of the configuration. -/
def Encryptor.Wraps (e : Encryptor) (env : Envelope) (dek : Bytes) : Prop :=
  aeadSeal e.kek env.keyNonce dek = .ok env.wrappedKey ∧ dek.length ∈ [16, 24, 32]

/-- The envelope holds the plaintext, sealed with a data key that it holds. -/
def Encryptor.Seals (aes : Aes) (e : Encryptor) (env : Envelope) (plaintext : Bytes) : Prop :=
  ∃ dek, e.Wraps env dek ∧ aeadSeal (aes dek) env.dataNonce plaintext = .ok env.ciphertext

theorem Encryptor.Wraps.nonce {dek : Bytes} (h : e.Wraps env dek) : env.keyNonce.length = 12 :=
  (aeadSeal_eq_ok.mp h.1).1

/-- With the data key, what is left is to open the data. -/
theorem decrypt_of_wraps {dek : Bytes} (h : e.Wraps env dek) : e.decrypt aes env =
    (aeadOpen (aes dek) env.dataNonce env.ciphertext).mapError (Failure.wrap "decrypt payload") := by
  have haead : newAEAD aes dek = .ok (aes dek) := newAEAD_eq_ok.mpr ⟨h.2, rfl⟩
  simp only [Encryptor.decrypt, aeadOpen_eq_ok.mpr h.1, haead]
  cases aeadOpen (aes dek) env.dataNonce env.ciphertext <;> rfl

/-- Without a data key there is an error, or a panic about the nonce. -/
theorem decrypt_of_not_wraps (h : ∀ dek, ¬ e.Wraps env dek) : ∃ err, e.decrypt aes env = .error err ∧
    ((∃ text, err = .panic text) ↔ env.keyNonce.length ≠ 12) := by
  have hpanics : (∃ text, aeadOpen e.kek env.keyNonce env.wrappedKey = .error (.panic text)) ↔
      env.keyNonce.length ≠ 12 := aeadOpen_panics
  unfold Encryptor.decrypt
  cases hopen : aeadOpen e.kek env.keyNonce env.wrappedKey with
  | error err =>
    refine ⟨err.wrap "unwrap data key", rfl, ?_⟩
    rw [← hpanics, hopen]
    cases err <;> simp [Failure.wrap]
  | ok dek =>
    have hseal := aeadOpen_eq_ok.mp hopen
    have hkey : dek.length ∉ [16, 24, 32] := fun hkey => h dek ⟨hseal, hkey⟩
    have haead : newAEAD aes dek = .error (.error s!"crypto/aes: invalid key size {dek.length}") := if_neg hkey
    refine ⟨.error s!"crypto/aes: invalid key size {dek.length}", by simp only [haead], iff_of_false ?_ ?_⟩
    · rintro ⟨text, heq⟩
      cases heq
    · exact fun hnonce => hnonce (aeadSeal_eq_ok.mp hseal).1

theorem Encryptor.Wraps.unique {dek dek' : Bytes} (h : e.Wraps env dek) (h' : e.Wraps env dek') : dek = dek' := by
  have hopen := aeadOpen_eq_ok.mpr h.1
  rw [aeadOpen_eq_ok.mpr h'.1, Except.ok.injEq] at hopen
  exact hopen.symm

/-- `Decrypt` accepts the envelopes that hold a plaintext. -/
theorem decrypt_eq_ok : e.decrypt aes env = .ok plaintext ↔ e.Seals aes env plaintext := by
  by_cases hwraps : ∃ dek, e.Wraps env dek
  · obtain ⟨dek, hwraps⟩ := hwraps
    have hopen : aeadOpen (aes dek) env.dataNonce env.ciphertext = .ok plaintext ↔
        aeadSeal (aes dek) env.dataNonce plaintext = .ok env.ciphertext := aeadOpen_eq_ok
    have hseals : e.Seals aes env plaintext ↔ aeadSeal (aes dek) env.dataNonce plaintext = .ok env.ciphertext := by
      constructor
      · rintro ⟨dek', hwraps', hdata⟩
        rwa [hwraps'.unique hwraps] at hdata
      · exact fun hdata => ⟨dek, hwraps, hdata⟩
    rw [decrypt_of_wraps hwraps, hseals, ← hopen]
    cases aeadOpen (aes dek) env.dataNonce env.ciphertext <;> simp [Except.mapError]
  · have hnot : ∀ dek, ¬ e.Wraps env dek := not_exists.mp hwraps
    obtain ⟨err, hdecrypt, -⟩ : ∃ err, e.decrypt aes env = .error err ∧ _ := decrypt_of_not_wraps hnot
    refine iff_of_false (by simp [hdecrypt]) ?_
    rintro ⟨dek, hdek, -⟩
    exact hwraps ⟨dek, hdek⟩

/-- `Decrypt` panics on nonces of the wrong length, on the second only once it has the data key. -/
theorem decrypt_panics : (∃ text, e.decrypt aes env = .error (.panic text)) ↔
    env.keyNonce.length ≠ 12 ∨ ∃ dek, e.Wraps env dek ∧ env.dataNonce.length ≠ 12 := by
  by_cases hwraps : ∃ dek, e.Wraps env dek
  · obtain ⟨dek, hwraps⟩ := hwraps
    have hpanics : (∃ text, aeadOpen (aes dek) env.dataNonce env.ciphertext = .error (.panic text)) ↔
        env.dataNonce.length ≠ 12 := aeadOpen_panics
    have hright : (env.keyNonce.length ≠ 12 ∨ ∃ dek, e.Wraps env dek ∧ env.dataNonce.length ≠ 12) ↔
        env.dataNonce.length ≠ 12 := by
      constructor
      · rintro (hnonce | ⟨-, -, hnonce⟩)
        · exact absurd hwraps.nonce hnonce
        · exact hnonce
      · exact fun hnonce => Or.inr ⟨dek, hwraps, hnonce⟩
    rw [decrypt_of_wraps hwraps, hright, ← hpanics]
    cases aeadOpen (aes dek) env.dataNonce env.ciphertext with
    | error err => cases err <;> simp [Except.mapError, Failure.wrap]
    | ok opened => simp [Except.mapError]
  · have hnot : ∀ dek, ¬ e.Wraps env dek := not_exists.mp hwraps
    obtain ⟨err, hdecrypt, hpanics⟩ : ∃ err, e.decrypt aes env = .error err ∧ _ := decrypt_of_not_wraps hnot
    have hnone : ¬ ∃ dek, e.Wraps env dek ∧ env.dataNonce.length ≠ 12 := by
      rintro ⟨dek, hdek, -⟩
      exact hwraps ⟨dek, hdek⟩
    rw [or_iff_left hnone, ← hpanics, hdecrypt]
    simp

/-- What `Encrypt` returns holds the plaintext. -/
theorem seals_of_encrypt (h : e.encrypt aes draw plaintext = .ok env) : e.Seals aes env plaintext := by
  cases draw with
  | error err => cases h
  | ok d =>
    have hkey : d.dek.length ∈ [16, 24, 32] := by simp [d.length_dek]
    have haead : newAEAD aes d.dek = .ok (aes d.dek) := newAEAD_eq_ok.mpr ⟨hkey, rfl⟩
    have hwrap : aeadSeal e.kek d.keyNonce d.dek = .ok (sealText e.kek d.keyNonce d.dek) :=
      aeadSeal_eq_ok.mpr ⟨d.length_keyNonce, by simp [d.length_dek, maxPlaintext], rfl⟩
    cases hdata : aeadSeal (aes d.dek) d.dataNonce plaintext with
    | error err => simp [Encryptor.encrypt, haead, hwrap, hdata, bind, Except.bind] at h
    | ok ciphertext =>
      simp only [Encryptor.encrypt, haead, hwrap, hdata, bind, Except.bind, pure, Except.pure, Except.ok.injEq] at h
      subst h
      exact ⟨d.dek, ⟨hwrap, hkey⟩, hdata⟩

/-- Why `Encrypt` refuses: `rand.Reader` has failed, or the plaintext is too long for GCM. -/
def refusal (draw : Except Failure Draw) (plaintext : Bytes) : Option Failure :=
  match draw with
  | .error err => some err
  | .ok _ => if maxPlaintext < plaintext.length then some messageTooLarge else none

theorem wraps_draw (d : Draw) (ciphertext : Bytes) :
    e.Wraps ⟨sealText e.kek d.keyNonce d.dek, d.keyNonce, d.dataNonce, ciphertext⟩ d.dek :=
  ⟨aeadSeal_eq_ok.mpr ⟨d.length_keyNonce, by simp [d.length_dek, maxPlaintext], rfl⟩, by simp [d.length_dek]⟩

/-- With a draw, what is left is to seal the data. -/
theorem encrypt_eq (d : Draw) : e.encrypt aes (.ok d) plaintext =
    (aeadSeal (aes d.dek) d.dataNonce plaintext).map fun ciphertext =>
      ⟨sealText e.kek d.keyNonce d.dek, d.keyNonce, d.dataNonce, ciphertext⟩ := by
  have hwraps := wraps_draw (e := e) d []
  have haead : newAEAD aes d.dek = .ok (aes d.dek) := newAEAD_eq_ok.mpr ⟨hwraps.2, rfl⟩
  simp only [Encryptor.encrypt, haead, hwraps.1, bind, Except.bind]
  cases aeadSeal (aes d.dek) d.dataNonce plaintext <;> rfl

theorem encrypt_of_refusal {err : Failure} (h : refusal draw plaintext = some err) :
    e.encrypt aes draw plaintext = .error err := by
  cases draw with
  | error err' =>
    obtain rfl := Option.some.inj h
    rfl
  | ok d =>
    obtain ⟨hlong, herr⟩ := Option.ite_none_right_eq_some.mp h
    rw [encrypt_eq, aeadSeal, if_neg (by simp [d.length_dataNonce]), if_pos hlong, Option.some.inj herr]
    rfl

/-- What `Encrypt` does not refuse it seals. -/
theorem exists_encrypt (h : refusal draw plaintext = none) :
    ∃ env, e.encrypt aes draw plaintext = .ok env ∧ e.Seals aes env plaintext := by
  cases draw with
  | error err => cases h
  | ok d =>
    have hshort : ¬ maxPlaintext < plaintext.length := by
      intro hlong
      rw [refusal, if_pos hlong] at h
      cases h
    have hdata : aeadSeal (aes d.dek) d.dataNonce plaintext = .ok (sealText (aes d.dek) d.dataNonce plaintext) :=
      aeadSeal_eq_ok.mpr ⟨d.length_dataNonce, by omega, rfl⟩
    rw [encrypt_eq, hdata]
    exact ⟨_, rfl, d.dek, wraps_draw d _, hdata⟩

end Opening

/-! ## The store -/

section Store

variable (aes : Aes) (json : EnvelopeJson)

/-- How `Put` codes an object. -/
def Encryptor.encodeObject (e : Encryptor) (draw : Except Failure Draw) (data : Bytes) : Except Failure Bytes :=
  (e.encrypt aes draw data).map json.marshal

/-- How `Get` decodes it. -/
def Encryptor.decodeObject (e : Encryptor) (payload : Bytes) : Except Failure Bytes :=
  match json.unmarshal payload with
  | .error text => .error (.error text)
  | .ok env => e.decrypt aes env

theorem decodeObject_encodeObject {e : Encryptor} {draw : Except Failure Draw} {data payload : Bytes}
    (h : e.encodeObject aes json draw data = .ok payload) : e.decodeObject aes json payload = .ok data := by
  unfold Encryptor.encodeObject at h
  cases hrefusal : refusal draw data with
  | some err => simp [encrypt_of_refusal hrefusal, Except.map] at h
  | none =>
    obtain ⟨env, hencrypt, hseals⟩ : ∃ env, e.encrypt aes draw data = .ok env ∧ e.Seals aes env data :=
      exists_encrypt hrefusal
    simp only [hencrypt, Except.map, Except.ok.injEq] at h
    subst h
    simp [Encryptor.decodeObject, json.unmarshal_marshal, decrypt_eq_ok.mpr hseals]

def Encryptor.code (e : Encryptor) : Code (Except Failure Draw) Bytes Bytes Failure :=
  ⟨e.encodeObject aes json, e.decodeObject aes json, decodeObject_encodeObject aes json⟩

/-- What becomes of a request through the store: a `Put` that `Encrypt` refuses never reaches the
bucket. -/
def faultOf : Op (List Char) Bytes → Except Failure Draw × Fault Failure → Fault Failure
  | .put _ data, o =>
    match refusal o.1 data with
    | some err => .refused err
    | none => o.2
  | _, o => o.2

variable {aes json} {σ ω : Type}

theorem get_eq_reply (s : EncryptingObjectStore σ ω) (key : List Char) (o : ω) (st : σ) : s.get aes json key o st =
    ((s.enc.code aes json).reply (s.inner.perform (.get key) o st).1, (s.inner.perform (.get key) o st).2) := by
  unfold EncryptingObjectStore.get
  cases hread : s.inner.perform (.get key) o st with
  | mk r st' =>
    cases r with
    | data payload =>
      simp only [Code.reply, Encryptor.code, Encryptor.decodeObject]
      cases json.unmarshal payload with
      | error text => rfl
      | ok env => cases hdecrypt : s.enc.decrypt aes env <;> simp only [hdecrypt]
    | done => rfl
    | missing => rfl
    | failed err => rfl

theorem refines_encrypting {s : EncryptingObjectStore σ (Fault Failure)} {R : σ → Bucket (List Char) Bytes → Prop}
    (h : Simulates s.inner (fun _ fault => fault) R) :
    Simulates (s.store aes json) faultOf fun st b => ∃ b', R st b' ∧ (s.enc.code aes json).Coded b' b := by
  constructor
  · rintro st b ⟨b', hst, hcoded⟩ op o
    cases op with
    | put key data =>
      simp only [EncryptingObjectStore.store, EncryptingObjectStore.put, faultOf]
      cases hrefusal : refusal o.1 data with
      | some err =>
        rw [encrypt_of_refusal hrefusal]
        exact ⟨rfl, b', hst, hcoded⟩
      | none =>
        obtain ⟨env, hencrypt, -⟩ : ∃ env, s.enc.encrypt aes o.1 data = .ok env ∧ s.enc.Seals aes env data :=
          exists_encrypt hrefusal
        have hcode : (s.enc.code aes json).encode o.1 data = .ok (json.marshal env) := by
          simp [Encryptor.code, Encryptor.encodeObject, hencrypt, Except.map]
        obtain ⟨hreply, hnext⟩ := h.perform hst (.put key (json.marshal env)) o.2
        rw [hencrypt]
        refine ⟨hreply.trans ?_, _, hnext, hcoded.perform o.2 (.some ⟨rfl, .some ⟨o.1, hcode⟩⟩)⟩
        cases o.2 <;> rfl
    | get key =>
      obtain ⟨hreply, hnext⟩ := (h.coded (s.enc.code aes json)).perform ⟨b', hst, hcoded⟩ (.get key) o
      simp only [EncryptingObjectStore.store, get_eq_reply]
      exact ⟨hreply, hnext⟩
    | delete key =>
      obtain ⟨hreply, hnext⟩ := h.perform hst (.delete key) o.2
      refine ⟨hreply.trans ?_, _, hnext, hcoded.perform o.2 (.some ⟨rfl, .none⟩)⟩
      simp only [faultOf]
      cases o.2 <;> rfl
  · rintro st b ⟨b', hst, hcoded⟩ n
    exact ⟨b'.settle n, h.settle hst n, hcoded.settle n⟩

end Store

/-- The key of the configuration is read back. -/
theorem newEncryptor_encode (aes : Aes) {key : Bytes} (h : key.length = 32) :
    newEncryptor aes (Base64.encode key) = .ok ⟨aes key⟩ := by
  simp [newEncryptor, Base64.decode_encode, newAEAD, h, Except.map]

/-- Whatever fails, is lost, or takes effect late: the encrypting store answers every run as the
bucket itself would, where a `Put` that `Encrypt` refuses never reaches it. -/
theorem encrypting_store_transparent (aes : Aes) (json : EnvelopeJson) (e : Encryptor)
    (acts : List (Act (Except Failure Draw × Fault Failure) (List Char) Bytes)) :
    ((EncryptingObjectStore.mk bucketStore e).store aes json).replies Bucket.empty acts =
      bucketStore.replies Bucket.empty (acts.map (Act.explain faultOf)) :=
  (refines_encrypting refines_store).replies ⟨_, rfl, Code.coded_empty⟩ acts

/-- An object that anybody has put into the bucket is read exactly if it holds sealed data, and makes
`Get` panic exactly if a nonce has the wrong length, where that of the data counts only if the key
opens. -/
theorem foreign_objects (aes : Aes) (json : EnvelopeJson) (e : Encryptor) (b : Bucket (List Char) Bytes)
    (key : List Char) :
    (∀ data, ((EncryptingObjectStore.mk bucketStore e).get aes json key .none b).1 = .data data ↔
        ∃ payload env, b.objects key = some payload ∧ json.unmarshal payload = .ok env ∧ e.Seals aes env data) ∧
      ((∃ text, ((EncryptingObjectStore.mk bucketStore e).get aes json key .none b).1 = .failed (.panic text)) ↔
        ∃ payload env, b.objects key = some payload ∧ json.unmarshal payload = .ok env ∧
          (env.keyNonce.length ≠ 12 ∨ ∃ dek, e.Wraps env dek ∧ env.dataNonce.length ≠ 12)) := by
  have hread : ((EncryptingObjectStore.mk bucketStore e).get aes json key .none b).1 =
      (e.code aes json).reply (b.answer (.get key)) := by
    rw [get_eq_reply]
    rfl
  rw [hread]
  cases hobject : b.objects key with
  | none => simp [Bucket.answer, hobject, Code.reply]
  | some payload =>
    cases henv : json.unmarshal payload with
    | error text => simp [Bucket.answer, hobject, Code.reply, Encryptor.code, Encryptor.decodeObject, henv]
    | ok env =>
      have hdecode : (e.code aes json).decode payload = e.decrypt aes env := by
        simp [Encryptor.code, Encryptor.decodeObject, henv]
      have honly : ∀ P : Envelope → Prop, (∃ payload' env', some payload = some payload' ∧
          json.unmarshal payload' = .ok env' ∧ P env') ↔ P env := by
        simp [henv]
      simp only [Bucket.answer, hobject, Code.reply, hdecode]
      have hpanics : (∃ text, e.decrypt aes env = .error (.panic text)) ↔ _ := decrypt_panics
      rw [honly, ← hpanics]
      simp only [honly, ← decrypt_eq_ok]
      cases e.decrypt aes env <;> simp

end AgentMemory.Security
