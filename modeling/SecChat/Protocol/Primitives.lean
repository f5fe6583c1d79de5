import SecChat.Python.JsonText

/-!
# The primitives of the secure protocol

`Prims` collects what `secure_protocol.py` calls from `cryptography` and `liboqs`.  The random
choices that these libraries make inside a call (a secret key, a nonce, the coins of an
encapsulation) are arguments here.

HKDF-SHA256 with output length `32 * m` is the concatenation of its first `m` blocks, so a caller
that splits 64 octets in the middle gets blocks `0` and `1`, and a caller that asks for 32 octets
gets block `0`.

Two sets of laws are used below.  `Prims.Correct` says that the primitives invert each other on
keys that belong together.  `Prims.Symbolic` adds the symbolic reading of HKDF and AES-GCM: outputs
of different inputs differ, and a ciphertext opens only under its own key and associated data.
-/

namespace SecChat

open Py

/-- 32 random octets, the secret half of an X25519, Ed25519 or KEM key pair. -/
abbrev Seed := {b : Bytes // b.length = 32}

theorem seed_ne_nil (a : Seed) : a.1 ≠ [] := by
  intro h
  have h32 := a.2
  rw [h] at h32
  cases h32

/-- A 96-bit AES-GCM nonce. -/
abbrev Nonce := {b : Bytes // b.length = 12}

/-- What the protocol calls from `cryptography` and `liboqs`. -/
structure Prims where
  /-- The public key of an X25519 secret key. -/
  x25519Public : Bytes → Bytes
  /-- `X25519PrivateKey.exchange`; `none` when a key is malformed or the result is zero. -/
  x25519Exchange : Bytes → Bytes → Option Bytes
  /-- Block `i` of `HKDF(ikm, info, salt)`. -/
  hkdfBlock : (ikm : Bytes) → (info : String) → (salt : Option Bytes) → (i : ℕ) → Bytes
  /-- `AESGCM(key).encrypt(nonce, data, aad)`. -/
  aesgcmEncrypt : (key nonce data aad : Bytes) → Bytes
  /-- `AESGCM(key).decrypt(nonce, data, aad)`; `none` is `InvalidTag`. -/
  aesgcmDecrypt : (key nonce data aad : Bytes) → Option Bytes
  /-- The public key of an Ed25519 secret key. -/
  ed25519Public : Bytes → Bytes
  /-- `Ed25519PrivateKey.sign`. -/
  ed25519Sign : (sk msg : Bytes) → Bytes
  /-- `Ed25519PublicKey.verify`; `false` is a malformed key or `InvalidSignature`. -/
  ed25519Verify : (pk sig msg : Bytes) → Bool
  /-- Whether `import oqs` succeeded. -/
  liboqs : Bool
  /-- `_oqs.get_enabled_kem_mechanisms()`; `none` where that function is missing. -/
  enabledKems : Option (List String)
  /-- The key pair, public and secret, that `KeyEncapsulation(alg)` makes of a seed; `none` when the
  mechanism is not supported. -/
  kemKeypair : (alg : String) → Bytes → Option (Bytes × Bytes)
  /-- `KeyEncapsulation(alg).encap_secret(pk)`: ciphertext and shared secret; `none` when it
  raises. -/
  kemEncap : (alg : String) → (pk coins : Bytes) → Option (Bytes × Bytes)
  /-- `KeyEncapsulation(alg, secret_key=sk).decap_secret(ct)`. -/
  kemDecap : (alg : String) → (sk ct : Bytes) → Option Bytes
  /-- SHA-256. -/
  sha256 : Bytes → Bytes

variable (P : Prims)

/-- The primitives invert each other on keys that belong together. -/
structure Prims.Correct : Prop where
  exchange_comm : ∀ a b : Seed, ∃ z, P.x25519Exchange a (P.x25519Public b) = some z ∧
    P.x25519Exchange b (P.x25519Public a) = some z
  public_ne_nil : ∀ a : Seed, P.x25519Public a ≠ []
  decrypt_encrypt : ∀ key nonce data aad,
    P.aesgcmDecrypt key nonce (P.aesgcmEncrypt key nonce data aad) aad = some data
  verify_sign : ∀ (sk : Seed) (msg : Bytes),
    P.ed25519Verify (P.ed25519Public sk) (P.ed25519Sign sk msg) msg = true
  decap_encap : ∀ {alg : String} {seed : Seed} {pk sk : Bytes},
    P.kemKeypair alg seed = some (pk, sk) → ∀ coins : Seed, ∃ ct ss,
      P.kemEncap alg pk coins = some (ct, ss) ∧ P.kemDecap alg sk ct = some ss
  keypair_ne_nil : ∀ {alg : String} {seed : Seed} {pk sk : Bytes},
    P.kemKeypair alg seed = some (pk, sk) → pk ≠ []

/-- HKDF and AES-GCM as symbolic cryptography has them. -/
structure Prims.Symbolic : Prop extends P.Correct where
  hkdf_injective : ∀ {ikm info salt i ikm' info' salt' i'},
    P.hkdfBlock ikm info salt i = P.hkdfBlock ikm' info' salt' i' →
      ikm = ikm' ∧ info = info' ∧ salt = salt' ∧ i = i'
  opens_only : ∀ {key nonce data aad key' nonce' aad' data'},
    P.aesgcmDecrypt key' nonce' (P.aesgcmEncrypt key nonce data aad) aad' = some data' →
      key' = key ∧ aad' = aad

/-! ### Wire helpers -/

/-- URL-safe base64 without padding. -/
def b64e (raw : Bytes) : String := urlsafeB64encode raw

/-- Decode what `b64e` made, with or without padding. -/
def b64d (text : String) : Except Exn Bytes :=
  match urlsafeB64decode text with
  | some raw => .ok raw
  | none => .error .binasciiError

@[simp] theorem b64d_b64e (raw : Bytes) : b64d (b64e raw) = .ok raw := by
  simp [b64d, b64e]

theorem b64e_injective : Function.Injective b64e := urlsafeB64encode_injective

@[simp] theorem b64e_eq_empty {raw : Bytes} : b64e raw = "" ↔ raw = [] :=
  urlsafeB64encode_eq_empty

/-- `b64d` of a JSON value; only a string can be padded. -/
def b64dJson : Json → Except Exn Bytes
  | .str s => b64d s
  | _ => .error .typeError

@[simp] theorem b64dJson_b64e (raw : Bytes) : b64dJson (.str (b64e raw)) = .ok raw := by
  simp [b64dJson]

/-- A JSON object as one base64 token. -/
def jsonB64 (obj : Json) : String := b64e (dumps obj)

/-- The JSON value of a base64 token. -/
def jsonUnb64 (token : String) : Except Exn Json := do loads (← b64d token)

@[simp] theorem jsonUnb64_jsonB64 {j : Json} (hj : j.Plain) : jsonUnb64 (jsonB64 j) = .ok j := by
  simp [jsonUnb64, jsonB64, loads_dumps hj]

/-- A `bytes` literal. -/
def bytesOf (s : String) : Bytes := encodeUtf8 s

/-- `wire[len(prefix):] if wire.startswith(prefix) else wire`. -/
def dropTag (tag wire : String) : String :=
  if tag.toList <+: wire.toList then String.ofList (wire.toList.drop tag.toList.length) else wire

@[simp] theorem dropTag_append (tag body : String) : dropTag tag (tag ++ body) = body := by
  simp [dropTag, String.toList_append]

theorem startsWith_append (tag body : String) : (tag ++ body).startsWith tag = true := by
  rw [String.startsWith_string_iff, String.toList_append]
  exact List.prefix_append _ _

/-- `sorted([a, b])`. -/
def sorted2 (a b : Bytes) : Bytes × Bytes := if a ≤ b then (a, b) else (b, a)

theorem sorted2_comm (a b : Bytes) : sorted2 a b = sorted2 b a := by
  unfold sorted2
  by_cases hab : a ≤ b <;> by_cases hba : b ≤ a
  · rw [List.le_antisymm hab hba]
  · rw [if_pos hab, if_neg hba]
  · rw [if_neg hab, if_pos hba]
  · exact absurd (List.le_total a b) (by simp [hab, hba])

/-! ### HKDF and AES-GCM -/

/-- `hkdf(ikm, info, salt=salt)` with its default length of 32 octets. -/
def hkdf (ikm : Bytes) (info : String) (salt : Option Bytes := none) : Bytes :=
  P.hkdfBlock ikm info salt 0

/-- `hkdf(..., length=64)`, split in the middle. -/
def hkdf64 (ikm : Bytes) (info : String) (salt : Option Bytes := none) : Bytes × Bytes :=
  (P.hkdfBlock ikm info salt 0, P.hkdfBlock ikm info salt 1)

/-- Encrypt a JSON object: base64 of the nonce and the ciphertext. -/
def aeadEncrypt (key : Bytes) (nonce : Nonce) (obj : Json) (aad : Bytes) : String :=
  b64e (nonce.1 ++ P.aesgcmEncrypt key nonce.1 (dumps obj) aad)

/-- Decrypt a token to a JSON value. -/
def aeadDecrypt (key : Bytes) (token : Json) (aad : Bytes) : Except Exn Json := do
  let raw ← b64dJson token
  match P.aesgcmDecrypt key (raw.take 12) (raw.drop 12) aad with
  | some plain => loads plain
  | none => .error .invalidTag

variable {P}

theorem aeadDecrypt_aeadEncrypt (hP : P.Correct) (key : Bytes) (nonce : Nonce) {obj : Json}
    (h : obj.Plain) (aad : Bytes) :
    aeadDecrypt P key (.str (aeadEncrypt P key nonce obj aad)) aad = .ok obj := by
  have h12 : nonce.1.length = 12 := nonce.2
  simp [aeadDecrypt, aeadEncrypt, ← h12, hP.decrypt_encrypt, loads_dumps h]

/-- A token that opens was made under the same key and the same associated data. -/
theorem aeadDecrypt_eq_ok (hP : P.Symbolic) {key key' : Bytes} {nonce : Nonce} {obj j : Json}
    {aad aad' : Bytes} (h : obj.Plain)
    (ho : aeadDecrypt P key' (.str (aeadEncrypt P key nonce obj aad)) aad' = .ok j) :
    key' = key ∧ aad' = aad ∧ j = obj := by
  have h12 : nonce.1.length = 12 := nonce.2
  cases hd : P.aesgcmDecrypt key' nonce.1 (P.aesgcmEncrypt key nonce.1 (dumps obj) aad) aad' with
  | none => simp [aeadDecrypt, aeadEncrypt, ← h12, hd] at ho
  | some plain =>
    obtain ⟨rfl, rfl⟩ := hP.opens_only hd
    rw [aeadDecrypt_aeadEncrypt hP.toCorrect _ _ h] at ho
    exact ⟨rfl, rfl, (Except.ok.inj ho).symm⟩

/-! ### X25519 -/

variable (P)

/-- `x25519_keygen()` with the random secret key as argument: public and secret key. -/
def x25519Keygen (sk : Seed) : Bytes × Bytes := (P.x25519Public sk, sk)

/-- `x25519_dh(sk, pk)`. -/
def x25519Dh (sk pk : Bytes) : Except Exn Bytes :=
  match P.x25519Exchange sk pk with
  | some z => .ok z
  | none => .error (.valueError "Error computing shared key.")

/-- The secret that two honest key pairs share. -/
def sharedSecret (a b : Seed) : Bytes := (P.x25519Exchange a (P.x25519Public b)).getD []

variable {P}

theorem x25519Dh_public (hP : P.Correct) (a b : Seed) :
    x25519Dh P a (P.x25519Public b) = .ok (sharedSecret P a b) := by
  obtain ⟨z, hz, -⟩ := hP.exchange_comm a b
  simp [x25519Dh, sharedSecret, hz]

theorem sharedSecret_comm (hP : P.Correct) (a b : Seed) :
    sharedSecret P a b = sharedSecret P b a := by
  obtain ⟨z, hz, hz'⟩ := hP.exchange_comm a b
  simp [sharedSecret, hz, hz']

end SecChat
