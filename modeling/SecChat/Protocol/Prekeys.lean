import SecChat.Protocol.Primitives

/-!
# Prekeys

The keys that a user publishes for PQXDH, as `secure_protocol.py` makes and checks them.

* `selectKem`, `kemKeygen`, `kemEncapsulate`, `kemDecapsulate`: the KEM of the local `liboqs`;
* `sigMsg`, `signPrekey`, `verifyPrekey`: prekeys signed by the Ed25519 identity key;
* `generateLocalBundle`: the public `upload` and the secret `local` half of a new bundle;
* `servedBundle`: what `get_pqxdh_bundle` returns for an upload;
* `verifyBundle`: the check of a bundle before it is used.
-/

namespace SecChat

open Py

/-! ### KEM -/

def defaultKem : String := "ML-KEM-1024"

def allowedKems : List String := ["ML-KEM-1024", "Kyber1024", "ML-KEM-768", "Kyber768"]

variable (P : Prims)

/-- `available_kems`. -/
def availableKems : List String :=
  if P.liboqs then allowedKems.filter (· ∈ P.enabledKems.getD allowedKems) else []

/-- `select_kem`. -/
def selectKem (preferred : Option String) : Except Exn String :=
  let enabled := availableKems P
  let wanted := preferred.filter fun p => p ≠ "" ∧ p ∈ allowedKems ∧ (enabled = [] ∨ p ∈ enabled)
  match wanted with
  | some p => .ok p
  | none =>
    if defaultKem ∈ enabled then .ok defaultKem
    else match allowedKems.find? fun name => enabled = [] ∨ name ∈ enabled with
      | some name => .ok name
      | none => .error (.runtimeError "No supported ML-KEM/Kyber mechanism is enabled")

/-- A call into `liboqs`. -/
def oqsCall {α : Type} (result : Option α) : Except Exn α :=
  if P.liboqs then
    match result with
    | some a => .ok a
    | none => .error (.runtimeError "liboqs")
  else .error (.runtimeError "liboqs is not available")

/-- `kem_keygen`: public and secret key. -/
def kemKeygen (alg : String) (seed : Seed) : Except Exn (Bytes × Bytes) :=
  oqsCall P (P.kemKeypair alg seed)

/-- `kem_encapsulate`: ciphertext and shared secret.  A mechanism that is not a string is refused
by `liboqs`. -/
def kemEncapsulate (alg : Json) (publicKey : Bytes) (coins : Seed) : Except Exn (Bytes × Bytes) :=
  match alg with
  | .str alg => oqsCall P (P.kemEncap alg publicKey coins)
  | _ => oqsCall P none

/-- `kem_decapsulate`. -/
def kemDecapsulate (alg : Json) (secretKey ciphertext : Bytes) : Except Exn Bytes :=
  match alg with
  | .str alg => oqsCall P (P.kemDecap alg secretKey ciphertext)
  | _ => oqsCall P none

/-! ### Signatures -/

/-- `text.encode("ascii")` of a value that should be a string. -/
def encodeAscii : Json → Except Exn Bytes
  | .str s => if s.toList.all (·.toNat < 128) then .ok (encodeUtf8 s) else .error .unicodeError
  | _ => .error .attributeError

/-- `_sig_msg`; the kinds are ASCII literals. -/
def sigMsg (kind : String) (keyId : ℤ) (alg : Json) (publicKey : Bytes) : Except Exn Bytes := do
  return bytesOf "SecChatPreKey" ++ [0] ++ bytesOf kind ++ [0] ++ bytesOf (toString keyId) ++ [0] ++
    (← encodeAscii alg) ++ [0] ++ publicKey

/-- `sign_prekey`. -/
def signPrekey (identitySk : Bytes) (kind : String) (keyId : ℤ) (alg : Json) (publicKey : Bytes) :
    Except Exn Bytes := do
  if identitySk.length ≠ 32 then
    throw (.valueError "An Ed25519 private key is 32 bytes long")
  return P.ed25519Sign identitySk (← sigMsg kind keyId alg publicKey)

/-- `verify_prekey`. -/
def verifyPrekey (identityPk : Bytes) (kind : String) (keyId : ℤ) (alg : Json)
    (publicKey sig : Bytes) : Except Exn Unit := do
  let msg ← sigMsg kind keyId alg publicKey
  if P.ed25519Verify identityPk sig msg then return () else throw .invalidSignature

variable {P} in
theorem verifyPrekey_signPrekey (hP : P.Correct) {sk : Seed} {kind : String} {keyId : ℤ} {alg : Json}
    {pk sig : Bytes} (h : signPrekey P sk kind keyId alg pk = .ok sig) :
    verifyPrekey P (P.ed25519Public sk) kind keyId alg pk sig = .ok () := by
  have h32 : ¬ sk.1.length ≠ 32 := not_not.mpr sk.2
  unfold signPrekey at h
  rw [if_neg h32] at h
  obtain ⟨msg, hm, hs⟩ := bind_eq_ok_iff.mp h
  unfold verifyPrekey
  rw [hm, ok_bind, ← Except.ok.inj hs, if_pos (hP.verify_sign sk msg)]
  rfl

/-! ### A new bundle -/

/-- The clock and the key material of one `generate_local_bundle`. -/
structure BundleRand where
  /-- `int(time.time() * 1000)`. -/
  millis : ℕ
  curve : Seed
  pq : Seed
  curveOtk : ℕ → Seed
  pqOtk : ℕ → Seed

/-- `_new_key_id`. -/
def newKeyId (millis : ℕ) : ℕ := millis % 2 ^ 31

/-- One turn of the one-time key loop for X25519: key id, public key, secret key, signature. -/
structure Otk where
  keyId : ℤ
  pk : Bytes
  sk : Bytes
  sig : Bytes

/-- The curve one-time key number `i`. -/
def curveOtk (identitySk : Bytes) (base : ℕ) (r : BundleRand) (i : ℕ) : Except Exn Otk := do
  let kid : ℤ := base + i + 1
  let (pk, sk) := x25519Keygen P (r.curveOtk i)
  return { keyId := kid, pk, sk, sig := ← signPrekey P identitySk "curve-otk" kid (.str "X25519") pk }

/-- The PQ one-time key number `i`. -/
def pqOtk (identitySk : Bytes) (alg : String) (base : ℕ) (r : BundleRand) (i : ℕ) :
    Except Exn Otk := do
  let kid : ℤ := base + i + 1
  let (pk, sk) ← kemKeygen P alg (r.pqOtk i)
  return { keyId := kid, pk, sk, sig := ← signPrekey P identitySk "pq-otk" kid (.str alg) pk }

/-- A bundle before it is written out: signed prekeys and one-time keys. -/
structure BundleKeys where
  identityPk : Bytes
  alg : String
  curve : Otk
  pq : Otk
  curveOtks : List Otk
  pqOtks : List Otk

namespace BundleKeys

/-- An item of `upload["curve_one_time_prekeys"]`. -/
def curveItem (k : Otk) : Json :=
  .obj [("key_id", .int k.keyId), ("public_key", .str (b64e k.pk)),
    ("signature", .str (b64e k.sig))]

/-- An item of `upload["pq_one_time_prekeys"]`. -/
def pqItem (alg : String) (k : Otk) : Json :=
  .obj [("key_id", .int k.keyId), ("alg", .str alg), ("public_key", .str (b64e k.pk)),
    ("signature", .str (b64e k.sig))]

/-- The public half, sent to the server. -/
def upload (b : BundleKeys) : Json :=
  .obj [
    ("type", .str "upload_pqxdh_bundle"),
    ("identity_pk", .str (b64e b.identityPk)),
    ("curve_spk_id", .int b.curve.keyId),
    ("curve_spk", .str (b64e b.curve.pk)),
    ("curve_spk_sig", .str (b64e b.curve.sig)),
    ("pq_spk_id", .int b.pq.keyId),
    ("pq_kem_alg", .str b.alg),
    ("pq_spk", .str (b64e b.pq.pk)),
    ("pq_spk_sig", .str (b64e b.pq.sig)),
    ("curve_one_time_prekeys", .arr (b.curveOtks.map curveItem)),
    ("pq_one_time_prekeys", .arr (b.pqOtks.map (pqItem b.alg)))]

/-- The entry of a curve one-time key in the local store. -/
def curveSecret (k : Otk) : String × Json :=
  (toString k.keyId, .obj [("pk", .str (b64e k.pk)), ("sk", .str (b64e k.sk))])

/-- The entry of a PQ one-time key in the local store. -/
def pqSecret (alg : String) (k : Otk) : String × Json :=
  (toString k.keyId, .obj [("alg", .str alg), ("pk", .str (b64e k.pk)), ("sk", .str (b64e k.sk))])

/-- The secret half, kept on disk under the master key. -/
def localStore (b : BundleKeys) : Json :=
  .obj [
    ("identity_pk", .str (b64e b.identityPk)),
    ("curve_signed", .obj [("key_id", .int b.curve.keyId), ("pk", .str (b64e b.curve.pk)),
      ("sk", .str (b64e b.curve.sk))]),
    ("pq_signed", .obj [("key_id", .int b.pq.keyId), ("alg", .str b.alg),
      ("pk", .str (b64e b.pq.pk)), ("sk", .str (b64e b.pq.sk))]),
    ("curve_one_time", .obj (b.curveOtks.map curveSecret)),
    ("pq_one_time", .obj (b.pqOtks.map (pqSecret b.alg)))]

end BundleKeys

/-- The keys of `generate_local_bundle`.  The loop makes a curve and a PQ key in each turn; the two
families do not read each other. -/
def bundleKeys (identityPk identitySk : Bytes) (kemAlg : Option String) (otkCount : ℕ)
    (r : BundleRand) : Except Exn BundleKeys := do
  let alg ← selectKem P kemAlg
  let base := newKeyId r.millis
  let (curvePk, curveSk) := x25519Keygen P r.curve
  let (pqPk, pqSk) ← kemKeygen P alg r.pq
  let curveSig ← signPrekey P identitySk "curve-signed" base (.str "X25519") curvePk
  let pqSig ← signPrekey P identitySk "pq-signed" base (.str alg) pqPk
  return {
    identityPk, alg
    curve := { keyId := base, pk := curvePk, sk := curveSk, sig := curveSig }
    pq := { keyId := base, pk := pqPk, sk := pqSk, sig := pqSig }
    curveOtks := ← (List.range otkCount).mapM (curveOtk P identitySk base r)
    pqOtks := ← (List.range otkCount).mapM (pqOtk P identitySk alg base r) }

/-- `generate_local_bundle`: upload and local store. -/
def generateLocalBundle (identityPk identitySk : Bytes) (kemAlg : Option String) (otkCount : ℕ)
    (r : BundleRand) : Except Exn (Json × Json) := do
  let b ← bundleKeys P identityPk identitySk kemAlg otkCount r
  return (b.upload, b.localStore)

/-! ### What a new bundle holds -/

section Genuine

variable {P : Prims}

/-- The one-time keys of a list belong together, are signed and have distinct positive ids. -/
structure GenuineOtks (P : Prims) (identityPk : Bytes) (kind : String) (alg : String)
    (IsPair : Bytes → Bytes → Prop) (ks : List Otk) : Prop where
  pos : ∀ k ∈ ks, 0 < k.keyId
  isPair : ∀ k ∈ ks, IsPair k.pk k.sk
  verified : ∀ k ∈ ks, verifyPrekey P identityPk kind k.keyId (.str alg) k.pk k.sig = .ok ()
  nodup : (ks.map Otk.keyId).Nodup

/-- An X25519 key pair. -/
def IsCurvePair (P : Prims) (pk sk : Bytes) : Prop := ∃ s : Seed, pk = P.x25519Public s ∧ sk = s

/-- A key pair of a KEM. -/
def IsKemPair (P : Prims) (alg : String) (pk sk : Bytes) : Prop :=
  ∃ s : Seed, P.kemKeypair alg s = some (pk, sk)

/-- The keys of a bundle belong together and are signed by its identity. -/
structure BundleKeys.Genuine (P : Prims) (b : BundleKeys) : Prop where
  liboqs : P.liboqs = true
  curve : GenuineOtks P b.identityPk "curve-otk" "X25519" (IsCurvePair P) b.curveOtks
  pq : GenuineOtks P b.identityPk "pq-otk" b.alg (IsKemPair P b.alg) b.pqOtks
  curveSigned : IsCurvePair P b.curve.pk b.curve.sk ∧
    verifyPrekey P b.identityPk "curve-signed" b.curve.keyId (.str "X25519") b.curve.pk b.curve.sig =
      .ok ()
  pqSigned : IsKemPair P b.alg b.pq.pk b.pq.sk ∧
    verifyPrekey P b.identityPk "pq-signed" b.pq.keyId (.str b.alg) b.pq.pk b.pq.sig = .ok ()

theorem oqsCall_eq_ok {α : Type} {x : Option α} {a : α} (h : oqsCall P x = .ok a) :
    P.liboqs = true ∧ x = some a := by
  unfold oqsCall at h
  split at h
  · next hl =>
    cases x with
    | none => cases h
    | some y => exact ⟨hl, congrArg some (Except.ok.inj h)⟩
  · cases h

/-- One-time keys made one by one, with ids that count up from a base, are genuine. -/
theorem genuineOtks_of_forall₂ {identityPk : Bytes} {kind alg : String}
    {IsPair : Bytes → Bytes → Prop} {base n : ℕ} {ks : List Otk}
    (h : List.Forall₂ (fun (i : ℕ) (k : Otk) => k.keyId = base + i + 1 ∧ IsPair k.pk k.sk ∧
      verifyPrekey P identityPk kind k.keyId (.str alg) k.pk k.sig = .ok ()) (List.range n) ks) :
    GenuineOtks P identityPk kind alg IsPair ks := by
  have hids : ks.map Otk.keyId = (List.range n).map fun i : ℕ => (base + i + 1 : ℤ) := by
    generalize List.range n = is at h
    induction h with
    | nil => rfl
    | cons hk _ ih => rw [List.map_cons, List.map_cons, hk.1, ih]
  refine ⟨fun k hk => ?_, fun k hk => ?_, fun k hk => ?_, ?_⟩
  · obtain ⟨i, -, hi, -⟩ := forall₂_mem_right h k hk
    omega
  · obtain ⟨i, -, -, hi, -⟩ := forall₂_mem_right h k hk
    exact hi
  · obtain ⟨i, -, -, -, hi⟩ := forall₂_mem_right h k hk
    exact hi
  · rw [hids]
    refine List.Nodup.map (fun i j hij => ?_) List.nodup_range
    have hij' : (base + i + 1 : ℤ) = base + j + 1 := hij
    omega

theorem curveOtk_eq_ok (hP : P.Correct) {idSk : Seed} {base : ℕ} {r : BundleRand} {i : ℕ} {k : Otk}
    (h : curveOtk P idSk base r i = .ok k) :
    k.keyId = base + i + 1 ∧ IsCurvePair P k.pk k.sk ∧
      verifyPrekey P (P.ed25519Public idSk) "curve-otk" k.keyId (.str "X25519") k.pk k.sig =
        .ok () := by
  obtain ⟨sig, hs, h⟩ := bind_eq_ok_iff.mp h
  cases h
  exact ⟨rfl, ⟨r.curveOtk i, rfl, rfl⟩, verifyPrekey_signPrekey hP hs⟩

theorem pqOtk_eq_ok (hP : P.Correct) {idSk : Seed} {alg : String} {base : ℕ} {r : BundleRand} {i : ℕ}
    {k : Otk} (h : pqOtk P idSk alg base r i = .ok k) :
    k.keyId = base + i + 1 ∧ IsKemPair P alg k.pk k.sk ∧
      verifyPrekey P (P.ed25519Public idSk) "pq-otk" k.keyId (.str alg) k.pk k.sig = .ok () := by
  obtain ⟨⟨pk, sk⟩, hk, h⟩ := bind_eq_ok_iff.mp h
  obtain ⟨sig, hs, h⟩ := bind_eq_ok_iff.mp h
  cases h
  exact ⟨rfl, ⟨r.pqOtk i, (oqsCall_eq_ok hk).2⟩, verifyPrekey_signPrekey hP hs⟩

/-- **The keys that `generate_local_bundle` makes are genuine.** -/
theorem bundleKeys_genuine (hP : P.Correct) {idSk : Seed} {kemAlg : Option String} {n : ℕ}
    {r : BundleRand} {b : BundleKeys}
    (h : bundleKeys P (P.ed25519Public idSk) idSk kemAlg n r = .ok b) :
    b.Genuine P ∧ b.identityPk = P.ed25519Public idSk := by
  unfold bundleKeys at h
  obtain ⟨alg, -, h⟩ := bind_eq_ok_iff.mp h
  obtain ⟨⟨pqPk, pqSk⟩, hpq, h⟩ := bind_eq_ok_iff.mp h
  obtain ⟨curveSig, hcs, h⟩ := bind_eq_ok_iff.mp h
  obtain ⟨pqSig, hps, h⟩ := bind_eq_ok_iff.mp h
  obtain ⟨cs, hc, h⟩ := bind_eq_ok_iff.mp h
  obtain ⟨qs, hq, h⟩ := bind_eq_ok_iff.mp h
  cases h
  refine ⟨⟨(oqsCall_eq_ok hpq).1, ?_, ?_, ⟨⟨r.curve, rfl, rfl⟩, verifyPrekey_signPrekey hP hcs⟩,
    ⟨⟨r.pq, (oqsCall_eq_ok hpq).2⟩, verifyPrekey_signPrekey hP hps⟩⟩, rfl⟩
  · exact genuineOtks_of_forall₂ ((mapM_eq_ok hc).imp fun i k hk => curveOtk_eq_ok hP hk)
  · exact genuineOtks_of_forall₂ ((mapM_eq_ok hq).imp fun i k hk => pqOtk_eq_ok hP hk)

end Genuine

/-! ### A served bundle -/

/-- `d.get(key)`, for reading an upload that has the field. -/
def field (j : Json) (key : String) : Json := ((j.getD key .null).toOption).getD .null

/-- The elements of a JSON list. -/
def items : Json → List Json
  | .arr xs => xs
  | _ => []

/-- The answer to `get_pqxdh_bundle`: the signed prekeys of an upload and at most one one-time key
of each kind; `-1` and the empty string stand for none. -/
def servedBundle (upload : Json) (curve pq : Option Json)
    (userId identityVersion curvePool pqPool : ℤ) : Json :=
  .obj [
    ("type", .str "pqxdh_bundle"), ("user_id", .int userId), ("version", .int 2),
    ("identity_version", .int identityVersion),
    ("identity_pk", field upload "identity_pk"),
    ("curve_spk_id", field upload "curve_spk_id"),
    ("curve_spk", field upload "curve_spk"),
    ("curve_spk_sig", field upload "curve_spk_sig"),
    ("pq_spk_id", field upload "pq_spk_id"),
    ("pq_kem_alg", field upload "pq_kem_alg"),
    ("pq_spk", field upload "pq_spk"),
    ("pq_spk_sig", field upload "pq_spk_sig"),
    ("curve_otk_id", (curve.map (field · "key_id")).getD (.int (-1))),
    ("curve_otk", (curve.map (field · "public_key")).getD (.str "")),
    ("curve_otk_sig", (curve.map (field · "signature")).getD (.str "")),
    ("pq_otk_id", (pq.map (field · "key_id")).getD (.int (-1))),
    ("pq_otk_alg", (pq.map (field · "alg")).getD (.str "")),
    ("pq_otk", (pq.map (field · "public_key")).getD (.str "")),
    ("pq_otk_sig", (pq.map (field · "signature")).getD (.str "")),
    ("curve_pool_size", .int curvePool), ("pq_pool_size", .int pqPool)]

/-! ### Checking a bundle -/

/-- `int(bundle.get(key, -1))`. -/
def otkId (bundle : Json) (key : String) : Except Exn ℤ := do
  (← bundle.getD key (.int (-1))).toInt

/-- One `verify_prekey` call on fields of a bundle. -/
def verifyField (identityPk : Bytes) (bundle : Json) (kind : String) (keyId : ℤ) (alg : Json)
    (keyField sigField : String) : Except Exn Unit := do
  verifyPrekey P identityPk kind keyId alg (← b64dJson (← bundle.getItem keyField))
    (← b64dJson (← bundle.getItem sigField))

/-- The check of an optional one-time key: made when its id is positive and its key is there. -/
def verifyOtk (identityPk : Bytes) (bundle : Json) (kind idField : String) (alg : Except Exn Json)
    (keyField sigField : String) : Except Exn Unit := do
  if (← otkId bundle idField) > 0 && (← bundle.getD keyField .null).truthy then
    verifyField P identityPk bundle kind (← otkId bundle idField) (← alg) keyField sigField

/-- `verify_bundle`. -/
def verifyBundle (bundle : Json) : Except Exn Unit := do
  let identityPk ← b64dJson (← bundle.getItem "identity_pk")
  verifyField P identityPk bundle "curve-signed" (← (← bundle.getItem "curve_spk_id").toInt)
    (.str "X25519") "curve_spk" "curve_spk_sig"
  verifyField P identityPk bundle "pq-signed" (← (← bundle.getItem "pq_spk_id").toInt)
    (← bundle.getItem "pq_kem_alg") "pq_spk" "pq_spk_sig"
  verifyOtk P identityPk bundle "curve-otk" "curve_otk_id" (.ok (.str "X25519")) "curve_otk"
    "curve_otk_sig"
  verifyOtk P identityPk bundle "pq-otk" "pq_otk_id" (bundle.getItem "pq_otk_alg") "pq_otk"
    "pq_otk_sig"

end SecChat
