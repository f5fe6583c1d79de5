import SecChat.Protocol.Primitives

/-!
# The laws of the primitives are consistent

In `termPrims` every output is the JSON text of the call that made it, a public key is its secret
key, and two keys share the sorted pair of them.  All laws of `Prims.Symbolic` hold there
(`termPrims_symbolic`), so what is proved from them is not vacuous.
-/

namespace SecChat

open Py

/-- The text of a call: its arguments in base64. -/
def termOf (args : List Bytes) : Bytes := dumps (.arr (args.map fun a => .str (b64e a)))

theorem termOf_plain (args : List Bytes) : (Json.arr (args.map fun a => .str (b64e a))).Plain := by
  simp only [Json.Plain]
  induction args with
  | nil => simp [Json.PlainItems]
  | cons a as ih => simpa [Json.PlainItems] using ih

theorem termOf_injective : Function.Injective termOf := by
  intro a b h
  have ha := dumps_injective (termOf_plain a) (termOf_plain b) h
  have hl := Json.arr.inj ha
  refine (List.map_injective_iff.mpr fun x y hxy => ?_) hl
  exact b64e_injective (Json.str.inj hxy)

theorem termOf_ne_nil (args : List Bytes) : termOf args ≠ [] := by
  intro h
  have hl := loads_dumps (termOf_plain args)
  rw [← termOf, h] at hl
  cases hl

/-- An optional salt as an argument list. -/
def saltTerm : Option Bytes → Bytes
  | none => []
  | some s => 0 :: s

/-- Read a ciphertext back. -/
def openTerm (key nonce ct aad : Bytes) : Option Bytes :=
  match loads ct with
  | .ok (.arr [.str k, .str n, .str d, .str a]) =>
    if k = b64e key ∧ n = b64e nonce ∧ a = b64e aad then (b64d d).toOption else none
  | _ => none

theorem openTerm_termOf (key nonce key' nonce' data aad aad' : Bytes) :
    openTerm key' nonce' (termOf [key, nonce, data, aad]) aad' =
      if key = key' ∧ nonce = nonce' ∧ aad = aad' then some data else none := by
  unfold openTerm termOf
  rw [loads_dumps (termOf_plain _)]
  simp [b64e_injective.eq_iff, Except.toOption]

/-- The term model. -/
def termPrims : Prims where
  x25519Public sk := sk
  x25519Exchange sk pk := some (termOf [(sorted2 sk pk).1, (sorted2 sk pk).2])
  hkdfBlock ikm info salt i := termOf [ikm, encodeUtf8 info, saltTerm salt, List.replicate i 0]
  aesgcmEncrypt key nonce data aad := termOf [key, nonce, data, aad]
  aesgcmDecrypt := openTerm
  ed25519Public sk := sk
  ed25519Sign sk msg := termOf [sk, msg]
  ed25519Verify pk sig msg := sig = termOf [pk, msg]
  liboqs := true
  enabledKems := none
  kemKeypair _ seed := some (seed, seed)
  kemEncap alg pk coins := some (coins, termOf [encodeUtf8 alg, pk, coins])
  kemDecap alg sk ct := some (termOf [encodeUtf8 alg, sk, ct])
  sha256 msg := msg

theorem encodeUtf8_injective : Function.Injective encodeUtf8 := by
  intro s t h
  have hs := decodeUtf8_encodeUtf8 s
  rw [h, decodeUtf8_encodeUtf8] at hs
  exact (Except.ok.inj hs).symm

theorem saltTerm_injective : Function.Injective saltTerm := by
  intro a b h
  cases a <;> cases b <;> simp_all [saltTerm]

/-- **The term model satisfies every law.** -/
theorem termPrims_symbolic : termPrims.Symbolic where
  exchange_comm a b := by
    refine ⟨_, rfl, ?_⟩
    simp only [termPrims]
    rw [sorted2_comm]
  public_ne_nil := seed_ne_nil
  decrypt_encrypt key nonce data aad := by simp [termPrims, openTerm_termOf]
  verify_sign sk msg := by simp [termPrims]
  decap_encap := by
    intro alg seed pk sk h coins
    simp only [termPrims, Option.some.injEq, Prod.mk.injEq] at h
    obtain ⟨rfl, rfl⟩ := h
    exact ⟨_, _, rfl, rfl⟩
  keypair_ne_nil := by
    intro alg seed pk sk h
    simp only [termPrims, Option.some.injEq, Prod.mk.injEq] at h
    obtain ⟨rfl, rfl⟩ := h
    exact seed_ne_nil seed
  hkdf_injective := by
    intro ikm info salt i ikm' info' salt' i' h
    simp only [termPrims] at h
    have ht := termOf_injective h
    simp only [List.cons.injEq, and_true] at ht
    obtain ⟨rfl, hinfo, hsalt, hi⟩ := ht
    have hlen := congrArg List.length hi
    simp only [List.length_replicate] at hlen
    exact ⟨rfl, encodeUtf8_injective hinfo, saltTerm_injective hsalt, hlen⟩
  opens_only := by
    intro key nonce data aad key' nonce' aad' data' h
    simp only [termPrims, openTerm_termOf] at h
    split at h
    · next hc => exact ⟨hc.1.symm, hc.2.2.symm⟩
    · cases h

/-- A digest of 32 octets that mixes the octets of the message. -/
def mixDigest (msg : Bytes) : Bytes := List.replicate 32 (msg.foldl (fun hash b => 31 * hash + b) 7)

theorem length_mixDigest (msg : Bytes) : (mixDigest msg).length = 32 := List.length_replicate ..

end SecChat
