import SecChat.Protocol.Primitives
import Mathlib.Data.List.AList
import Mathlib.Data.Finset.Sort
import Mathlib.Data.String.Basic

/-!
# The Double Ratchet of one DM session

The dataclass `DoubleRatchet` of `secure_protocol.py` with its methods.  A method that changes the
state is a `Py.Method`, so that an exception raised half-way leaves the fields as they were at that
point; the session layer is what rolls them back.

* `encrypt`: turn the sending DH ratchet if one is due, take the next message key, seal the text
  under the canonical header, and seal a copy of the header under the header key;
* `decrypt`: read and check the header (`inspect`, which changes nothing), then open the message
  with a stored key or after ratcheting and skipping (`receive`);
* `toDict`, `fromDict`: the form a state has on disk.
-/

namespace SecChat

open Py

def secchatSchema : ℤ := 3

def prefixPqInit : String := "S3PQI:"
def prefixDr : String := "S3DR:"
def prefixMls : String := "S3MLS:"

def maxSkipKeys : ℕ := 1000

/-- The state of a Double Ratchet session. -/
structure DoubleRatchet where
  /-- The current root secret. -/
  rootKey : Bytes
  /-- The own ratchet key pair; the public half goes into every header. -/
  dhPk : Bytes
  dhSk : Bytes
  /-- The newest ratchet key of the peer, empty when there is none yet. -/
  remoteDh : Bytes := []
  ckSend : Bytes := []
  ckRecv : Bytes := []
  hkSend : Bytes := []
  hkRecv : Bytes := []
  /-- The index of the next message in the sending chain. -/
  nSend : ℕ := 0
  /-- The index expected next in the receiving chain. -/
  nRecv : ℕ := 0
  /-- The length of the previous sending chain. -/
  pn : ℕ := 0
  /-- Message keys of skipped messages, under `"remote_dh:n"`. -/
  skipped : AList (fun _ : String => String) := ∅
  /-- The next message sent has to turn the DH ratchet first. -/
  needsSendRatchet : Bool := false
  sessionId : String := ""
  conversationId : ℤ := 0
  myUid : ℤ := 0
  peerUid : ℤ := 0
  senderIdentityVersion : ℤ := 0
  /-- The ids of the messages already opened. -/
  seen : Finset String := ∅

variable (P : Prims)

/-! ### Key derivation -/

/-- The first sending and receiving chain keys; the two roles take them the other way round. -/
def initialChains (rootKey : Bytes) (initiator : Bool) : Bytes × Bytes :=
  let left := hkdf P rootKey "SecChat-DR-init-left"
  let right := hkdf P rootKey "SecChat-DR-init-right"
  if initiator then (left, right) else (right, left)

/-- The root ratchet: new root key and new chain key. -/
def kdfRk (rootKey dhOut : Bytes) : Bytes × Bytes :=
  hkdf64 P dhOut "SecChat-DR-rk" (some rootKey)

/-- The chain ratchet: message key and next chain key. -/
def kdfCk (chainKey : Bytes) : Bytes × Bytes := hkdf64 P chainKey "SecChat-DR-ck"

def headerKey (rootKey chainKey : Bytes) : Bytes :=
  hkdf P (rootKey ++ chainKey) "SecChat-DR-header-chain"

/-- The key of a skipped message in `skipped`. -/
def skipKey (remote : Bytes) (n : ℤ) : String := b64e remote ++ ":" ++ toString n

/-- `sorted(s)[-k:]` as a set. -/
def lastSorted (k : ℕ) (s : Finset String) : Finset String :=
  ((s.sort (· ≤ ·)).drop (s.card - k)).toFinset

/-- `json.dumps(obj, sort_keys=True, ...)`, the form that is authenticated. -/
def canonical (obj : Json) : Bytes := dumps obj.sortKeys

namespace DoubleRatchet

/-! ### Construction -/

/-- `DoubleRatchet.new`; `sk` and `sidBytes` are the random choices. -/
def new (rootKey : Bytes) (initiator : Bool) (remoteDh : Bytes) (sessionId : String)
    (sk : Seed) (sidBytes : Bytes) : DoubleRatchet :=
  let (ckSend, ckRecv) := initialChains P rootKey initiator
  let hkLeft := hkdf P rootKey "SecChat-DR-header-init-left"
  let hkRight := hkdf P rootKey "SecChat-DR-header-init-right"
  { rootKey := rootKey
    dhPk := P.x25519Public sk
    dhSk := sk
    remoteDh := remoteDh
    ckSend := ckSend
    ckRecv := ckRecv
    hkSend := if initiator then hkLeft else hkRight
    hkRecv := if initiator then hkRight else hkLeft
    needsSendRatchet := !initiator && !remoteDh.isEmpty
    sessionId := if sessionId ≠ "" then sessionId else b64e sidBytes }

/-- `set_context`: a zero id keeps the one that is there. -/
def setContext (s : DoubleRatchet) (conversationId myUid peerUid : ℤ)
    (senderIdentityVersion : Option ℤ) : DoubleRatchet :=
  { s with
    conversationId := if conversationId ≠ 0 then conversationId else s.conversationId
    myUid := if myUid ≠ 0 then myUid else s.myUid
    peerUid := if peerUid ≠ 0 then peerUid else s.peerUid
    senderIdentityVersion := senderIdentityVersion.getD s.senderIdentityVersion }

/-! ### The form on disk -/

/-- `to_dict`. -/
def toDict (s : DoubleRatchet) : Json :=
  .obj [
    ("v", .int secchatSchema),
    ("root_key", .str (b64e s.rootKey)),
    ("dh_pk", .str (b64e s.dhPk)),
    ("dh_sk", .str (b64e s.dhSk)),
    ("remote_dh", .str (if s.remoteDh ≠ [] then b64e s.remoteDh else "")),
    ("ck_send", .str (b64e s.ckSend)),
    ("ck_recv", .str (b64e s.ckRecv)),
    ("hk_send", .str (b64e s.hkSend)),
    ("hk_recv", .str (b64e s.hkRecv)),
    ("n_send", .int s.nSend),
    ("n_recv", .int s.nRecv),
    ("pn", .int s.pn),
    ("skipped", .obj (s.skipped.entries.map fun e => (e.1, .str e.2))),
    ("needs_send_ratchet", .bool s.needsSendRatchet),
    ("session_id", .str s.sessionId),
    ("conversation_id", .int s.conversationId),
    ("my_uid", .int s.myUid),
    ("peer_uid", .int s.peerUid),
    ("sender_identity_version", .int s.senderIdentityVersion),
    ("seen", .arr (((s.seen.sort (· ≤ ·)).drop (s.seen.card - 2048)).map .str))]

/-- `b64d(d[key]) if d.get(key) else b""`. -/
def optBytes (d : Json) (key : String) : Except Exn Bytes := do
  if (← d.getD key .null).truthy then b64dJson (← d.getItem key) else return []

/-- `int(d.get(key, 0) or 0)`. -/
def intOrZero (d : Json) (key : String) : Except Exn ℤ := do
  ((← d.getD key (.int 0)).orElse (.int 0)).toInt

/-- `dict(x)` of a dictionary with string values. -/
def strDict : Json → Except Exn (AList (fun _ : String => String))
  | .obj kvs => do
      let es ← kvs.mapM fun (k, v) => do return (⟨k, ← v.asStr⟩ : (_ : String) × String)
      return es.toAList
  | _ => .error .typeError

/-- `set(str(x) for x in xs if x)`. -/
def strSet : Json → Except Exn (Finset String)
  | .arr xs => .ok ((xs.filter Json.truthy).map Json.toStr).toFinset
  | _ => .error .typeError

/-- `from_dict`. -/
def fromDict (d : Json) : Except Exn DoubleRatchet := do
  return {
    rootKey := ← b64dJson (← d.getItem "root_key")
    dhPk := ← b64dJson (← d.getItem "dh_pk")
    dhSk := ← b64dJson (← d.getItem "dh_sk")
    remoteDh := ← optBytes d "remote_dh"
    ckSend := ← b64dJson (← d.getItem "ck_send")
    ckRecv := ← b64dJson (← d.getItem "ck_recv")
    hkSend := ← optBytes d "hk_send"
    hkRecv := ← optBytes d "hk_recv"
    nSend := (← (← d.getD "n_send" (.int 0)).toInt).toNat
    nRecv := (← (← d.getD "n_recv" (.int 0)).toInt).toNat
    pn := (← (← d.getD "pn" (.int 0)).toInt).toNat
    skipped := ← strDict (← d.getD "skipped" (.obj []))
    needsSendRatchet := (← d.getD "needs_send_ratchet" (.bool false)).truthy
    sessionId := ((← d.getD "session_id" (.str "")).orElse (.str "")).toStr
    conversationId := ← intOrZero d "conversation_id"
    myUid := ← intOrZero d "my_uid"
    peerUid := ← intOrZero d "peer_uid"
    senderIdentityVersion := ← intOrZero d "sender_identity_version"
    seen := ← strSet (← d.getD "seen" (.arr [])) }

/-! ### Sending -/

/-- `_header(n)`: the routing header of message `n` of the sending chain. -/
def header (s : DoubleRatchet) (n : ℕ) : Json :=
  .obj [
    ("v", .int secchatSchema),
    ("sid", .str s.sessionId),
    ("conversation_id", .int s.conversationId),
    ("sender_uid", .int s.myUid),
    ("recipient_uid", .int s.peerUid),
    ("sender_identity_version", .int s.senderIdentityVersion),
    ("dh", .str (b64e s.dhPk)),
    ("pn", .int s.pn),
    ("n", .int n)]

/-- `_message_id(header)`. -/
def messageId (header : Json) : Except Exn String := do
  return (← header.getD "sid" (.str "")).toStr ++ ":" ++ (← header.getD "dh" (.str "")).toStr ++
    ":" ++ toString (← (← header.getD "n" (.int 0)).toInt)

/-- `_remember_seen`. -/
def rememberSeen (messageId : String) (s : DoubleRatchet) : DoubleRatchet :=
  let seen := insert messageId s.seen
  { s with seen := if 4096 < seen.card then lastSorted 2048 seen else seen }

/-- `_maybe_send_ratchet`: open a new sending chain when one is due. -/
def maybeSendRatchet (sk : Seed) : Method DoubleRatchet Unit := do
  let s ← Method.get
  if !s.needsSendRatchet || s.remoteDh.isEmpty then return ()
  Method.modify fun s => { s with pn := s.nSend }
  let (pk, sk) := x25519Keygen P sk
  Method.modify fun s => { s with dhPk := pk, dhSk := sk }
  let s ← Method.get
  let (rootKey, ckSend) := kdfRk P s.rootKey (← Method.ofExcept (x25519Dh P s.dhSk s.remoteDh))
  Method.modify fun s => { s with
    rootKey := rootKey
    ckSend := ckSend
    hkSend := headerKey P rootKey ckSend
    nSend := 0
    needsSendRatchet := false }

/-- The random choices and the clock reading of one `encrypt`. -/
structure SendRand where
  key : Seed
  nonce : Nonce
  headerNonce : Nonce
  ts : ℤ

/-- The associated data of the sealed header copy. -/
def headerAad : Bytes := bytesOf "SecChat-DR-encrypted-header"

/-- The wire of one message: visible header, sealed header copy and sealed text. -/
def wire (sid : String) (header : Json) (msgKey hk : Bytes) (r : SendRand) (plaintext : String) :
    String :=
  prefixDr ++ jsonB64 (.obj [
    ("v", .int secchatSchema),
    ("sid", .str sid),
    ("h", header),
    ("eh", .str (aeadEncrypt P hk r.headerNonce header headerAad)),
    ("ct", .str (aeadEncrypt P msgKey r.nonce (.obj [("ts", .int r.ts), ("body", .str plaintext)])
      (canonical header)))])

/-- `encrypt`. -/
def encrypt (r : SendRand) (plaintext : String) : Method DoubleRatchet String := do
  maybeSendRatchet P r.key
  let s ← Method.get
  let (msgKey, ckSend) := kdfCk P s.ckSend
  Method.modify fun s => { s with ckSend := ckSend, nSend := s.nSend + 1 }
  return wire P s.sessionId (s.header s.nSend) msgKey s.hkSend r plaintext

/-! ### Receiving -/

/-- One turn of the loop of `_skip_until`: put the next message key aside. -/
def skipOne (s : DoubleRatchet) : DoubleRatchet :=
  { s with
    ckRecv := (kdfCk P s.ckRecv).2
    skipped := s.skipped.insert (skipKey s.remoteDh s.nRecv) (b64e (kdfCk P s.ckRecv).1)
    nRecv := s.nRecv + 1 }

/-- `_skip_until`: run the receiving chain up to index `untilN`, keeping the keys on the way. -/
def skipUntil (untilN : ℤ) : Method DoubleRatchet Unit := do
  let s ← Method.get
  let gap := untilN - s.nRecv
  if gap < 0 then return ()
  if gap > maxSkipKeys ∨ s.skipped.entries.length + gap > maxSkipKeys then
    Method.raise (.valueError "Too many skipped message keys")
  Method.modify (skipOne P)^[gap.toNat]

/-- `_dh_ratchet`: a new ratchet key of the peer opens a new receiving chain, and with a fresh own
key a new sending chain. -/
def dhRatchet (sk : Seed) (newRemoteDh : Bytes) : Method DoubleRatchet Unit := do
  Method.modify fun s => { s with
    pn := s.nSend, nSend := 0, nRecv := 0, remoteDh := newRemoteDh }
  let s ← Method.get
  let (rootKey, ckRecv) := kdfRk P s.rootKey (← Method.ofExcept (x25519Dh P s.dhSk s.remoteDh))
  Method.modify fun s => { s with
    rootKey := rootKey, ckRecv := ckRecv, hkRecv := headerKey P rootKey ckRecv }
  let (pk, sk) := x25519Keygen P sk
  Method.modify fun s => { s with dhPk := pk, dhSk := sk }
  let s ← Method.get
  let (rootKey, ckSend) := kdfRk P s.rootKey (← Method.ofExcept (x25519Dh P s.dhSk s.remoteDh))
  Method.modify fun s => { s with
    rootKey := rootKey, ckSend := ckSend, hkSend := headerKey P rootKey ckSend }

/-- The header that `_read_header` builds from a raw object without `h`. -/
def rawHeader (s : DoubleRatchet) (obj : Json) : Except Exn Json := do
  return .obj [
    ("v", .int (← (← obj.getD "v" (.int secchatSchema)).toInt)),
    ("sid", .str ((← obj.getD "sid" (.str s.sessionId)).orElse (.str s.sessionId)).toStr),
    ("conversation_id",
      .int (← ((← obj.getD "conversation_id" (.int s.conversationId)).orElse (.int 0)).toInt)),
    ("sender_uid", .int (← ((← obj.getD "sender_uid" (.int s.peerUid)).orElse (.int 0)).toInt)),
    ("recipient_uid",
      .int (← ((← obj.getD "recipient_uid" (.int s.myUid)).orElse (.int 0)).toInt)),
    ("sender_identity_version",
      .int (← ((← obj.getD "sender_identity_version" (.int 0)).orElse (.int 0)).toInt)),
    ("dh", ← obj.getItem "dh"),
    ("pn", .int (← (← obj.getD "pn" (.int 0)).toInt)),
    ("n", .int (← (← obj.getItem "n").toInt))]

/-- `_read_header`.  A header copy that does not open, or that differs from the visible header,
is ignored when there is a visible one: the `ValueError` of the mismatch is caught in place. -/
def readHeader (s : DoubleRatchet) (obj : Json) : Except Exn Json := do
  let h ← obj.getD "h" .null
  let encrypted ← obj.getD "eh" .null
  let visible := h.isDict && h.truthy
  if encrypted.truthy && !s.hkRecv.isEmpty then
    match aeadDecrypt P s.hkRecv encrypted headerAad with
    | .ok header => if visible && !header.pyEq h then return h else return header
    | .error e => if visible then return h else .error e
  else if visible then return h
  else s.rawHeader obj

/-- What `decrypt` reads off a wire before it changes anything. -/
structure Incoming where
  obj : Json
  messageId : String
  remote : Bytes
  n : ℤ
  aad : Bytes

/-- The first half of `decrypt`: parse the wire, check session, conversation and recipient, and
refuse an id that was seen. -/
def inspect (s : DoubleRatchet) (wire : String) : Except Exn Incoming := do
  let obj ← jsonUnb64 (dropTag prefixDr wire)
  let header ← s.readHeader P obj
  let sid ← header.getD "sid" .null
  if s.sessionId ≠ "" ∧ !sid.pyEq (.str s.sessionId) then
    throw (.valueError "Double Ratchet session mismatch")
  if s.conversationId ≠ 0 then
    if (← intOrZero header "conversation_id") ≠ s.conversationId then
      throw (.valueError "Double Ratchet conversation mismatch")
  if s.myUid ≠ 0 then
    if (← intOrZero header "recipient_uid") ≠ s.myUid then
      throw (.valueError "Double Ratchet recipient mismatch")
  let remote ← b64d (← header.getItem "dh").toStr
  let n ← (← header.getItem "n").toInt
  let messageId ← messageId header
  if messageId ∈ s.seen then
    throw (.valueError "Duplicate/replayed Double Ratchet message")
  return { obj := obj, messageId := messageId, remote := remote, n := n, aad := canonical header }

/-- `str(_aead_decrypt(mk, obj["ct"], aad).get("body", ""))`. -/
def openBody (msgKey : Bytes) (m : Incoming) : Except Exn String := do
  let payload ← aeadDecrypt P msgKey (← m.obj.getItem "ct") m.aad
  return (← payload.getD "body" (.str "")).toStr

/-- The second half of `decrypt`: a stored key if there is one, else ratchet and skip. -/
def receive (sk : Seed) (m : Incoming) : Method DoubleRatchet String := do
  let s ← Method.get
  match s.skipped.lookup (skipKey m.remote m.n) with
  | some token =>
    Method.modify fun s => { s with skipped := s.skipped.erase (skipKey m.remote m.n) }
    let msgKey ← Method.ofExcept (b64d token)
    let plain ← Method.ofExcept (openBody P msgKey m)
    Method.modify (rememberSeen m.messageId)
    return plain
  | none =>
    if s.remoteDh = [] ∨ m.remote ≠ s.remoteDh then dhRatchet P sk m.remote
    skipUntil P m.n
    let s ← Method.get
    let (msgKey, ckRecv) := kdfCk P s.ckRecv
    Method.modify fun s => { s with ckRecv := ckRecv, nRecv := s.nRecv + 1 }
    let plain ← Method.ofExcept (openBody P msgKey m)
    Method.modify (rememberSeen m.messageId)
    return plain

/-- `decrypt`; `sk` is the key that `_dh_ratchet` generates, should it run. -/
def decrypt (sk : Seed) (wire : String) : Method DoubleRatchet String := do
  let s ← Method.get
  let m ← Method.ofExcept (s.inspect P wire)
  receive P sk m

end DoubleRatchet

end SecChat
