import SecChat.Protocol.Prekeys
import SecChat.Protocol.RatchetSpec

/-!
# PQXDH: the first message of a DM session

`pqxdhInitiate` turns the bundle of the peer into an `S3PQI` wire and a ratchet state;
`pqxdhRespond` opens the wire with the local prekeys and builds the state of the other side.
-/

namespace SecChat

open Py

variable (P : Prims)

/-! ### Safety numbers -/

def hexUpper (b : Bytes) : List Char :=
  b.flatMap fun x => [(Nat.digitChar (x.toNat / 16)).toUpper, (Nat.digitChar (x.toNat % 16)).toUpper]

/-- `safety_fingerprint`: eight groups of four hex digits. -/
def safetyFingerprint (a b : Bytes) : String :=
  let (left, right) := sorted2 a b
  let h := hexUpper (P.sha256 (bytesOf "SecChatSafety" ++ [0] ++ left ++ right))
  " ".intercalate ((List.range 8).map fun i => String.ofList ((h.drop (4 * i)).take 4))

/-- Both sides see the same safety number. -/
theorem safetyFingerprint_comm (a b : Bytes) : safetyFingerprint P a b = safetyFingerprint P b a := by
  unfold safetyFingerprint
  rw [sorted2_comm]

/-! ### The initiator -/

/-- The random choices and the clock reading of one `pqxdh_initiate`. -/
structure InitRand where
  coins : Seed
  eph : Seed
  sid : {b : Bytes // b.length = 16}
  dr : Seed
  nonce : Nonce
  ts : ℤ

/-- The mechanism that `pqxdh_initiate` encapsulates with. -/
def kemAlgOf (bundle : Json) : Except Exn Json := do
  if (← otkId bundle "pq_otk_id") > 0 then bundle.getD "pq_otk_alg" .null
  else bundle.getItem "pq_kem_alg"

/-- The field of the key it encapsulates to: `bundle.get("pq_otk") or bundle["pq_spk"]`. -/
def kemKeyField (bundle : Json) : Except Exn String := do
  return if (← bundle.getD "pq_otk" .null).truthy then "pq_otk" else "pq_spk"

/-- The peer's curve one-time key, empty for none. -/
def curveOtkOf (bundle : Json) : Except Exn Bytes := do
  if (← otkId bundle "curve_otk_id") > 0 then b64dJson (← bundle.getItem "curve_otk")
  else return []

/-- `b"".join(dh_parts)`, the last part only with a one-time key. -/
def dhParts (first second : Except Exn Bytes) (third : Option (Except Exn Bytes)) :
    Except Exn Bytes := do
  let a ← first
  let b ← second
  match third with
  | none => return a ++ b
  | some c => return a ++ b ++ (← c)

/-- `root = hkdf(b"".join(dh_parts) + pq_ss, b"SecChat-PQXDH")`. -/
def pqxdhRoot (dh pqSs : Bytes) : Bytes := hkdf P (dh ++ pqSs) "SecChat-PQXDH"

/-- The fields of an `S3PQI` wire that its ciphertext authenticates. -/
def initPayload (sid : String) (conversationId myUid peerUid : ℤ) (identityPk : Bytes)
    (curveKeyId : ℤ) (curvePk curveSig ephPk : Bytes) (curveSpkId curveOtkId pqSpkId pqOtkId : ℤ)
    (alg : Json) (pqCt drPub : Bytes) (version : Option ℤ) : List (String × Json) :=
  [("v", .int secchatSchema),
    ("sid", .str sid),
    ("conversation_id", .int conversationId),
    ("sender_uid", .int myUid),
    ("recipient_uid", .int peerUid),
    ("identity_pk", .str (b64e identityPk)),
    ("sender_curve_spk_id", .int curveKeyId),
    ("sender_curve_spk", .str (b64e curvePk)),
    ("sender_curve_spk_sig", .str (b64e curveSig)),
    ("eph_curve_pk", .str (b64e ephPk)),
    ("curve_spk_id", .int curveSpkId),
    ("curve_otk_id", .int curveOtkId),
    ("pq_spk_id", .int pqSpkId),
    ("pq_otk_id", .int pqOtkId),
    ("pq_kem_alg", alg),
    ("pq_ct", .str (b64e pqCt)),
    ("dr_pub", .str (b64e drPub))] ++
  match version with
  | some v => [("sender_identity_version", .int v)]
  | none => []

/-- The first message key, and the state after it was taken: the initiator sends under it. -/
def takeSendKey (s : DoubleRatchet) : Bytes × DoubleRatchet :=
  ((kdfCk P s.ckSend).1, { s with ckSend := (kdfCk P s.ckSend).2, nSend := s.nSend + 1 })

/-- The first message key, and the state after it was taken: the responder opens with it. -/
def takeRecvKey (s : DoubleRatchet) : Bytes × DoubleRatchet :=
  ((kdfCk P s.ckRecv).1, { s with ckRecv := (kdfCk P s.ckRecv).2, nRecv := s.nRecv + 1 })

/-- The `S3PQI` wire: the payload, and the text sealed with the payload as associated data. -/
def initWire (payload : List (String × Json)) (msgKey : Bytes) (nonce : Nonce) (ts : ℤ)
    (body : String) : String :=
  prefixPqInit ++ jsonB64 (.obj (payload ++ [("ct", .str (aeadEncrypt P msgKey nonce
    (.obj [("ts", .int ts), ("body", .str body)]) (canonical (.obj payload))))]))

/-- `pqxdh_initiate`: wire, ratchet state and safety number. -/
def pqxdhInitiate (bundle localStore : Json) (identityPk identitySk : Bytes) (myUid peerUid : ℤ)
    (initialBody : String) (version : Option ℤ) (conversationId : ℤ) (r : InitRand) :
    Except Exn (String × DoubleRatchet × String) := do
  verifyBundle P bundle
  let alg ← kemAlgOf bundle
  let pqPk ← b64dJson (← bundle.getItem (← kemKeyField bundle))
  let (pqCt, pqSs) ← kemEncapsulate P alg pqPk r.coins
  let (ephPk, ephSk) := x25519Keygen P r.eph
  let localCurve ← localStore.getItem "curve_signed"
  let localCurvePk ← b64dJson (← localCurve.getItem "pk")
  let localCurveSk ← b64dJson (← localCurve.getItem "sk")
  let peerCurveSpk ← b64dJson (← bundle.getItem "curve_spk")
  let peerCurveOtk ← curveOtkOf bundle
  let dh ← dhParts (x25519Dh P localCurveSk peerCurveSpk) (x25519Dh P ephSk peerCurveSpk)
    (if peerCurveOtk ≠ [] then some (x25519Dh P ephSk peerCurveOtk) else none)
  let sid := b64e r.sid
  let state := (DoubleRatchet.new P (pqxdhRoot P dh pqSs) true [] sid r.dr []).setContext
    conversationId myUid peerUid version
  let (msgKey, state) := takeSendKey P state
  let curveKeyId ← (← localCurve.getItem "key_id").toInt
  let curveSig ← signPrekey P identitySk "curve-signed" curveKeyId (.str "X25519") localCurvePk
  let payload := initPayload sid conversationId myUid peerUid identityPk curveKeyId localCurvePk
    curveSig ephPk (← (← bundle.getItem "curve_spk_id").toInt) (← otkId bundle "curve_otk_id")
    (← (← bundle.getItem "pq_spk_id").toInt) (← otkId bundle "pq_otk_id") alg pqCt state.dhPk version
  let token := initWire P payload msgKey r.nonce r.ts initialBody
  let fingerprint := safetyFingerprint P identityPk (← b64dJson (← bundle.getItem "identity_pk"))
  return (token, state, fingerprint)

/-! ### The responder -/

/-- `d.pop(key, None)` on the items of a dictionary. -/
def popItem (kvs : List (String × Json)) (key : String) : Json × List (String × Json) :=
  ((kvs.lookup key).getD .null, kvs.filter (·.1 ≠ key))

/-- `local_store.get(table, {}).pop(str(kid), None)`: the nested dictionary changes in place. -/
def popOneTime (table : String) (kid : ℤ) : Method Json Json := do
  let store ← Method.get
  match ← Method.ofExcept (store.getD table (.obj [])) with
  | .obj kvs =>
    let (hit, rest) := popItem kvs (toString kid)
    Method.modify fun store => match store with
      | .obj fields => .obj (fields.map fun f => if f.1 = table then (f.1, .obj rest) else f)
      | store => store
    return hit
  | _ => Method.raise .attributeError

/-- The secret key of a consumed curve one-time prekey, empty for none. -/
def takeCurveOtk (kid : ℤ) : Method Json Bytes := do
  if kid > 0 then
    let hit ← popOneTime "curve_one_time" kid
    if hit.truthy then Method.ofExcept (do b64dJson (← hit.getItem "sk")) else return []
  else return []

/-- `b64d(local_store["pq_signed"]["sk"])`. -/
def pqSignedSk (store : Json) : Except Exn Bytes := do
  b64dJson (← (← store.getItem "pq_signed").getItem "sk")

/-- The secret PQ key to decapsulate with: the one-time key if it is still there, else the signed
prekey. -/
def takePqSk (kid : ℤ) : Method Json Bytes := do
  if kid > 0 then
    let hit ← popOneTime "pq_one_time" kid
    if hit.truthy then Method.ofExcept (do b64dJson (← hit.getItem "sk"))
    else Method.ofExcept (pqSignedSk (← Method.get))
  else Method.ofExcept (pqSignedSk (← Method.get))

/-- The random choices of `pqxdh_respond`: the key pair of the new state, and a session id should
the wire have none. -/
structure RespondRand where
  dr : Seed
  sid : {b : Bytes // b.length = 16}

/-- `sender_identity_version=obj.get("sender_identity_version")`, read by `set_context`. -/
def versionOf (obj : Json) : Except Exn (Option ℤ) := do
  match ← obj.getD "sender_identity_version" .null with
  | .null => return none
  | v => return some (← v.toInt)

/-- `dict(obj)` without `ct`. -/
def withoutCt : Json → Json
  | .obj kvs => .obj (kvs.filter (·.1 ≠ "ct"))
  | j => j

/-- What `pqxdh_respond` checks before it touches the store: recipient and sender signature. -/
def respondCheck (obj : Json) (expectedUid : Option ℤ) : Except Exn (ℤ × Bytes × Bytes) := do
  let senderUid ← (← obj.getItem "sender_uid").toInt
  if let some uid := expectedUid then
    if (← (← obj.getItem "recipient_uid").toInt) ≠ uid then
      throw (.valueError "PQXDH recipient mismatch")
  let senderIdentity ← b64dJson (← obj.getItem "identity_pk")
  let senderCurve ← b64dJson (← obj.getItem "sender_curve_spk")
  verifyPrekey P senderIdentity "curve-signed" (← (← obj.getItem "sender_curve_spk_id").toInt)
    (.str "X25519") senderCurve (← b64dJson (← obj.getItem "sender_curve_spk_sig"))
  return (senderUid, senderIdentity, senderCurve)

/-- The part of `pqxdh_respond` after the secret keys were taken: state, text, fingerprint. -/
def respondFinish (obj store : Json) (senderUid : ℤ) (senderIdentity senderCurve curveSk otkSk
    pqSk : Bytes) (alg : Json) (r : RespondRand) :
    Except Exn (String × DoubleRatchet × String × ℤ) := do
  let ephPk ← b64dJson (← obj.getItem "eph_curve_pk")
  let dh ← dhParts (x25519Dh P curveSk senderCurve) (x25519Dh P curveSk ephPk)
    (if otkSk ≠ [] then some (x25519Dh P otkSk ephPk) else none)
  let pqSs ← kemDecapsulate P alg pqSk (← b64dJson (← obj.getItem "pq_ct"))
  let state := DoubleRatchet.new P (pqxdhRoot P dh pqSs) false
    (← b64dJson (← obj.getItem "dr_pub"))
    ((← obj.getD "sid" (.str "")).orElse (.str "")).toStr r.dr r.sid
  let state := state.setContext
    (← ((← obj.getD "conversation_id" (.int 0)).orElse (.int 0)).toInt)
    (← ((← obj.getD "recipient_uid" (.int 0)).orElse (.int 0)).toInt)
    senderUid (← versionOf obj)
  let (msgKey, state) := takeRecvKey P state
  let payload ← aeadDecrypt P msgKey (← obj.getItem "ct") (canonical (withoutCt obj))
  let plain := (← payload.getD "body" (.str "")).toStr
  let fingerprint := safetyFingerprint P (← b64dJson (← store.getItem "identity_pk")) senderIdentity
  return (plain, state, fingerprint, senderUid)

/-- `pqxdh_respond` as a method on the local store: text, state, safety number and sender. -/
def pqxdhRespond (wire : String) (expectedUid : Option ℤ) (r : RespondRand) :
    Method Json (String × DoubleRatchet × String × ℤ) := do
  let obj ← Method.ofExcept (jsonUnb64 (dropTag prefixPqInit wire))
  let (senderUid, senderIdentity, senderCurve) ← Method.ofExcept (respondCheck P obj expectedUid)
  let curveOtkId ← Method.ofExcept (otkId obj "curve_otk_id")
  let pqOtkId ← Method.ofExcept (otkId obj "pq_otk_id")
  let store ← Method.get
  let curveSk ← Method.ofExcept (do b64dJson (← (← store.getItem "curve_signed").getItem "sk"))
  let otkSk ← takeCurveOtk curveOtkId
  let alg ← Method.ofExcept (obj.getItem "pq_kem_alg")
  let pqSk ← takePqSk pqOtkId
  let store ← Method.get
  Method.ofExcept (respondFinish P obj store senderUid senderIdentity senderCurve curveSk otkSk pqSk
    alg r)

end SecChat
