import SecChat.Audit.IdentityState
import SecChat.Protocol.Pqxdh
import SecChat.Python.Hex
import SecChat.Session.DmStore

/-!
# Receiving messages

The part of `CryptoSession` that turns what the server delivers into plaintext.

* `Client`: the prekeys, the ratchets of every conversation, the MLS state, what is recorded about the
  peers, and the cache of plaintexts;
* `receiveInit`: an `S3PQI` body; `initiatePqxdhDm`, `encryptForConv`: the sending side;
* `decryptLiveMessage`: a live message;
* `decryptHistoryRow`, `decryptHistoryMessages`: rows of the history.

The transcript checkpoints that `handle_group_integrity_control` records are left out.
-/

namespace SecChat

open Py DoubleRatchet

/-- The call of the MLS bridge that opens an application message. -/
structure MlsApp (G : Type) where
  decryptApplication : G → ℤ → String → Option (String × G)

/-- An entry of the plaintext cache. -/
structure CacheEntry where
  id : ℤ
  sender : ℤ
  body : String
  wireHash : String
  deriving DecidableEq

/-- The part of `CryptoSession` that receives messages. -/
structure Client (G : Type) where
  myUid : ℤ
  identityPk : Bytes
  identitySk : Bytes
  persist : Bool
  pqxdhPrekeys : Option Json
  prekeysFile : Option Json
  dm : ℤ → DmStore
  convPeerUids : ℤ → Option ℤ
  convFingerprints : ℤ → String
  audit : AuditSession
  groupConvIds : ℤ → Bool
  mlsGroupReady : ℤ → Bool
  mls : G
  cacheOn : ℤ → Bool
  cache : ℤ → List CacheEntry

/-- The random choices and the clock of one delivery. -/
structure RecvRand where
  now : ℤ
  ratchet : Seed
  respond : RespondRand

/-- What an accepted `S3PQI` says about its author. -/
structure PeerInfo where
  fingerprint : String
  peerUid : ℤ
  identityPk : String
  identityVersion : Json

/-- The result of `decrypt_live_message`. -/
inductive LiveResult
  | control (peer : Option PeerInfo)
  | pending
  | hidden (body : String)
  | selfEcho
  | message (body : Json) (peer : Option PeerInfo)
  | raised (e : Exn)

/-- What the result says about the author of an `S3PQI`. -/
def LiveResult.peer : LiveResult → Option PeerInfo
  | .control peer => peer
  | .message _ peer => peer
  | _ => none

/-- `_PADDED_PLAINTEXT_MARKER`. -/
def paddedMarker : String := "__secchat_payload_v1__"

/-- `unpack_plaintext`. -/
def unpackPlaintext (body : String) : String :=
  if body.startsWith "\x7b" then
    match loads (encodeUtf8 body) with
    | .ok (.obj fields) =>
        if ((fields.lookup "_type").getD .null).pyEq (.str paddedMarker) then
          ((fields.lookup "body").getD (.str "")).toStr
        else body
    | _ => body
  else body

namespace Client

variable {G : Type} (P : Prims) (A : MlsApp G)

/-- The ratchets of one conversation are replaced. -/
def withDm (c : Client G) (conv : ℤ) (σ : DmStore) : Client G :=
  { c with dm := Function.update c.dm conv σ }

/-- `load_pqxdh_prekeys`; an empty store counts as none. -/
def loadPqxdhPrekeys (c : Client G) : Option Json × Client G :=
  let usable := fun store : Option Json => store.filter Json.truthy
  match usable c.pqxdhPrekeys with
  | some store => (some store, c)
  | none =>
      if c.persist then (usable c.prekeysFile, { c with pqxdhPrekeys := c.prekeysFile })
      else (none, c)

/-- `_respond_pqxdh_with_current_prekey`, on a store that was loaded: a copy of it is used up, and kept
only when the wire is good. -/
def respondPqxdh (c : Client G) (store : Json) (body : String) (r : RespondRand) :
    Except Exn (String × DoubleRatchet × String × ℤ) × Client G :=
  match pqxdhRespond P body (some c.myUid) r store with
  | (.ok result, candidate) =>
      (.ok result, { c with
        pqxdhPrekeys := some candidate
        prekeysFile := if c.persist then some candidate else c.prekeysFile })
  | (.error e, _) => (.error e, c)

/-- What is recorded when an `S3PQI` is accepted. -/
def acceptInit (c : Client G) (conv : ℤ) (meta_ : Json) (state : DoubleRatchet) (fingerprint : String)
    (peerUid now : ℤ) : Except Exn (PeerInfo × Client G) := do
  let identityPk := ((← meta_.getD "identity_pk" (.str "")).orElse (.str "")).toStr
  let rawVersion ← meta_.getD "sender_identity_version" .null
  let version ← versionOf meta_
  let c := { c.withDm conv ((c.dm conv).install state) with
    convPeerUids := Function.update c.convPeerUids conv (some peerUid)
    convFingerprints := Function.update c.convFingerprints conv fingerprint
    audit :=
      if identityPk ≠ "" then
        c.audit.recordIdentitySeenUnverified now peerUid identityPk version fingerprint "pqxdh_initial"
      else c.audit }
  return (⟨fingerprint, peerUid, identityPk, rawVersion⟩, c)

/-- What came of an `S3PQI` body. -/
inductive InitResult
  | known
  | noPrekeys (existing : Bool)
  | accepted (plain : String) (peer : PeerInfo)
  | failed
  | raised (e : Exn)

/-- What the `S3PQI` branch does when the session is not known yet. -/
def openInit (c : Client G) (conv : ℤ) (existing : Bool) (meta_ : Json) (body : String)
    (rand : RecvRand) : InitResult × Client G :=
  match c.loadPqxdhPrekeys with
  | (none, c) => (.noPrekeys existing, c)
  | (some store, c) =>
      match c.respondPqxdh P store body rand.respond with
      | (.error _, c) => (.failed, c)
      | (.ok (plain, state, fingerprint, peerUid), c) =>
          match c.acceptInit conv meta_ state fingerprint peerUid rand.now with
          | .ok (peer, c) => (.accepted plain peer, c)
          | .error _ => (.failed, c)

/-- The `S3PQI` branch of `decrypt_live_message` and `decrypt_history_messages`, for a body of somebody
else. -/
def receiveInit (c : Client G) (conv : ℤ) (body : String) (rand : RecvRand) :
    InitResult × Client G :=
  let (existing, σ) := (c.dm conv).loadDoubleRatchet
  let c := c.withDm conv σ
  let meta_ := ((jsonUnb64 (dropTag prefixPqInit body)).toOption).getD (.obj [])
  match meta_.getD "sid" (.str "") with
  | .error e => (.raised e, c)
  | .ok sid =>
      let sid := (sid.orElse (.str "")).toStr
      if sid = "" then c.openInit P conv existing.isSome meta_ body rand
      else
        let (sessions, σ) := (c.dm conv).loadSessions
        let c := c.withDm conv σ
        if sid ∈ sessions then (.known, c) else c.openInit P conv existing.isSome meta_ body rand

/-- Whether a body is a transcript checkpoint, which `handle_group_integrity_control` takes. -/
def isTranscriptCheckpoint (body : String) : Except Exn Bool :=
  if body.startsWith prefixMls then
    match jsonUnb64 (dropTag prefixMls body) with
    | .error _ => .ok false
    | .ok payload => do
        let event ← payload.getD "event" .null
        let kind ← payload.getD "kind" .null
        return (event.orElse kind).pyEq (.str "transcript_checkpoint")
  else .ok false

/-- `open_mls_application_wire`; `none` is any exception. -/
def openMlsApplicationWire (c : Client G) (conv : ℤ) (wire : String) : Option (String × Client G) := do
  let payload ← (jsonUnb64 (dropTag prefixMls wire)).toOption
  let kind ← (payload.getD "kind" .null).toOption
  if kind.pyEq (.str "application") = false then none
  let field ← (payload.getD "conversation_id" (.int conv)).toOption
  let msgConv ← (field.orElse (.int 0)).toInt.toOption
  if msgConv ≠ 0 ∧ msgConv ≠ conv then none
  if c.mlsGroupReady conv = false then none
  let message ← (payload.getD "message_b64" (.str "")).toOption
  let (plain, mls) ← A.decryptApplication c.mls conv (message.orElse (.str "")).toStr
  return (plain, { c with mls := mls })

/-- `int(msg.get("from_id", 0) or msg.get("sender_id", 0) or 0)`. -/
def senderOf (msg : Json) : Except Exn ℤ := do
  (((← msg.getD "from_id" (.int 0)).orElse (← msg.getD "sender_id" (.int 0))).orElse (.int 0)).toInt

/-- `decrypt_live_message` after the envelope is read. -/
def receiveLive (c : Client G) (conv sender : ℤ) (body : Json) (rand : RecvRand) :
    LiveResult × Client G :=
  match body with
  | .str text =>
      if text.startsWith prefixPqInit then
        if sender = c.myUid then (.control none, c)
        else
          match c.receiveInit P conv text rand with
          | (.known, c) => (.control none, c)
          | (.noPrekeys existing, c) => (if existing then .control none else .pending, c)
          | (.accepted plain peer, c) =>
              (if plain = "__S3_INIT__" then .control (some peer)
                else .message (.str (unpackPlaintext plain)) (some peer), c)
          | (.failed, c) => (.hidden "[Cannot decrypt]", c)
          | (.raised e, c) => (.raised e, c)
      else
        match isTranscriptCheckpoint text with
        | .error e => (.raised e, c)
        | .ok true => (.control none, c)
        | .ok false =>
            if 0 < sender ∧ sender = c.myUid then (.selfEcho, c)
            else if text.startsWith prefixDr then
              match (c.dm conv).decryptWire P rand.ratchet text with
              | (.pending, σ) => (.pending, c.withDm conv σ)
              | (.message plain, σ) => (.message (.str (unpackPlaintext plain)) none, c.withDm conv σ)
              | (.hidden, σ) => (.hidden "[Cannot decrypt]", c.withDm conv σ)
              | (.raised e, σ) => (.raised e, c.withDm conv σ)
            else if text.startsWith prefixMls then
              match c.openMlsApplicationWire A conv text with
              | some (plain, c) => (.message (.str (unpackPlaintext plain)) none, c)
              | none => (.hidden "[Encrypted message - MLS state unavailable]", c)
            else (.message body none, c)
  | _ => if 0 < sender ∧ sender = c.myUid then (.selfEcho, c) else (.message body none, c)

/-- The envelope of a live message: conversation, sender and body. -/
def envelopeOf (msg : Json) : Except Exn (ℤ × ℤ × Json) := do
  let conv ← intOrZero msg "conversation_id"
  let sender ← senderOf msg
  let body ← msg.getD "body" (.str "")
  return (conv, sender, body.orElse (.str ""))

/-- `decrypt_live_message`. -/
def decryptLiveMessage (c : Client G) (msg : Json) (rand : RecvRand) : LiveResult × Client G :=
  match envelopeOf msg with
  | .ok (conv, sender, body) => c.receiveLive P A conv sender body rand
  | .error e => (.raised e, c)

/-! ### History -/

/-- `cache_message`. -/
def cacheMessage (c : Client G) (conv id sender : ℤ) (body : String) : Client G :=
  if c.cacheOn conv = false ∨ id = 0 then c
  else { c with cache := Function.update c.cache conv (c.cache conv ++ [⟨id, sender, body, ""⟩]) }

/-- `load_cached_messages`: the entries that have not expired; a later entry replaces an earlier one
with the same key. -/
def loadCachedMessages (c : Client G) (conv : ℤ) (fresh : CacheEntry → Bool) : List CacheEntry :=
  if c.cacheOn conv then (c.cache conv).filter fresh else []

/-- The entry that the history path uses for a row: by its id, else by the hash of its wire. -/
def cacheHit (cached : List CacheEntry) (id : ℤ) (body : String) : Option CacheEntry :=
  let newest := cached.reverse
  let hash := hexOf (P.sha256 (encodeUtf8 body))
  (if id ≠ 0 then newest.find? fun e => e.id = id else none) <|>
    newest.find? fun e => e.wireHash = hash

/-- What a row of the history becomes; `init` is an `S3PQI` that was accepted. -/
inductive RowResult
  | deleted
  | control
  | init (plain : String) (peer : PeerInfo)
  | text (body : Json)
  | hidden (placeholder : String)

/-- The body that is put into the row. -/
def RowResult.body : RowResult → Json
  | .deleted => .str ""
  | .control => .str "__S2_CONTROL__"
  | .init plain _ =>
      .str (if plain = "__S3_INIT__" then "__S2_CONTROL__" else unpackPlaintext plain)
  | .text body => body
  | .hidden placeholder => .str placeholder

/-- A text that was opened is shown and cached. -/
def showRow (c : Client G) (conv id sender : ℤ) (plain : String) : Except Exn RowResult × Client G :=
  (.ok (.text (.str plain)), c.cacheMessage conv id sender plain)

/-- `decrypt_history_messages` for one row after its fields are read. -/
def receiveRow (c : Client G) (conv : ℤ) (cached : List CacheEntry) (id sender : ℤ) (body : Json)
    (rand : RecvRand) : Except Exn RowResult × Client G :=
  match body with
  | .str text =>
      if text.startsWith prefixPqInit then
        if sender = c.myUid then (.ok .control, c)
        else
          match c.receiveInit P conv text rand with
          | (.known, c) => (.ok .control, c)
          | (.noPrekeys existing, c) =>
              (.ok (if existing then .control else .hidden "[Forward-secret]"), c)
          | (.accepted plain peer, c) => (.ok (.init plain peer), c)
          | (.failed, c) => (.ok (.hidden "[Forward-secret]"), c)
          | (.raised e, c) => (.error e, c)
      else if text.startsWith prefixDr then
        match cacheHit P cached id text with
        | some hit => c.showRow conv id sender (unpackPlaintext hit.body)
        | none =>
            if sender = c.myUid then (.ok (.hidden "[Forward-secret]"), c)
            else
              match (c.dm conv).decryptWire P rand.ratchet text with
              | (.message plain, σ) => (c.withDm conv σ).showRow conv id sender (unpackPlaintext plain)
              | (.raised e, σ) => (.error e, c.withDm conv σ)
              | (_, σ) => (.ok (.hidden "[Forward-secret]"), c.withDm conv σ)
      else if text.startsWith prefixMls then
        match cacheHit P cached id text with
        | some hit => c.showRow conv id sender (unpackPlaintext hit.body)
        | none =>
            if sender = c.myUid then (.ok (.hidden "[Forward-secret]"), c)
            else
              match c.openMlsApplicationWire A conv text with
              | some (plain, c) => c.showRow conv id sender (unpackPlaintext plain)
              | none => (.ok (.hidden "[Encrypted message - MLS state unavailable]"), c)
      else (.ok (.text (.str (unpackPlaintext text))), c)
  | _ => (.ok (.text body), c)

/-- Whether the first loop of `decrypt_history_messages` takes a row. -/
def isControlRow (row : Json) : Except Exn Bool := do
  match (← row.getD "body" (.str "")).orElse (.str "") with
  | .str text => isTranscriptCheckpoint text
  | _ => return false

/-- What a turn of the loop reads off a row: body, `deleted`, id, sender, and whether the first loop
took the row. -/
structure RowFields where
  body : Json
  deleted : Bool
  id : ℤ
  sender : ℤ
  control : Bool

/-- The fields of a row. -/
def rowFields (row : Json) : Except Exn RowFields := do
  let body := (← row.getD "body" (.str "")).orElse (.str "")
  let deleted := (← row.getD "deleted" (.bool false)).truthy
  let id ← intOrZero row "id"
  let sender ← intOrZero row "sender_id"
  return ⟨body, deleted, id, sender, ← isControlRow row⟩

/-- One turn of the second loop of `decrypt_history_messages`. -/
def decryptHistoryRow (c : Client G) (conv : ℤ) (cached : List CacheEntry) (row : Json)
    (rand : RecvRand) : Except Exn RowResult × Client G :=
  match rowFields row with
  | .error e => (.error e, c)
  | .ok f =>
      if f.deleted then (.ok .deleted, c)
      else if f.control then (.ok .control, c)
      else c.receiveRow P A conv cached f.id f.sender f.body rand

/-- The second loop of `decrypt_history_messages`; an exception ends it. -/
def decryptRows (conv : ℤ) (cached : List CacheEntry) :
    Client G → List (Json × RecvRand) → Except Exn (List RowResult) × Client G
  | c, [] => (.ok [], c)
  | c, (row, rand) :: rows =>
      match c.decryptHistoryRow P A conv cached row rand with
      | (.error e, c) => (.error e, c)
      | (.ok result, c) =>
          match decryptRows conv cached c rows with
          | (.ok results, c) => (.ok (result :: results), c)
          | (.error e, c) => (.error e, c)

/-- `decrypt_history_messages`. -/
def decryptHistoryMessages (c : Client G) (conv : ℤ) (fresh : CacheEntry → Bool)
    (rows : List (Json × RecvRand)) : Except Exn (List RowResult) × Client G :=
  match rows.mapM fun row => isControlRow row.1 with
  | .error e => (.error e, c)
  | .ok _ => decryptRows P A conv (c.loadCachedMessages conv fresh) c rows

/-! ### Sending -/

/-- `initiate_pqxdh_dm`; `none` is an exception. -/
def initiatePqxdhDm (c : Client G) (bundle : Json) (conv peerUid : ℤ) (version : Option ℤ)
    (r : InitRand) : Option (String × String) × Client G :=
  let (existing, σ) := (c.dm conv).loadDoubleRatchet
  let c := c.withDm conv σ
  match existing with
  | some _ => (none, c)
  | none =>
      match c.loadPqxdhPrekeys with
      | (none, c) => (none, c)
      | (some store, c) =>
          match pqxdhInitiate P bundle store c.identityPk c.identitySk c.myUid peerUid "__S3_INIT__"
              version conv r with
          | .error _ => (none, c)
          | .ok (token, state, fingerprint) =>
              (some (token, fingerprint), { c.withDm conv ((c.dm conv).start state) with
                convFingerprints := Function.update c.convFingerprints conv fingerprint
                convPeerUids := Function.update c.convPeerUids conv (some peerUid) })

/-- `encrypt_for_conv` for a DM, with the packed text; `none` is an exception. -/
def encryptForConv (c : Client G) (conv : ℤ) (rand : SendRand) (payload : String) :
    Option String × Client G :=
  let (wire, σ) := (c.dm conv).encryptWire P rand payload
  (wire, c.withDm conv σ)

/-- The program ends and starts again. -/
def restart (c : Client G) : Client G :=
  { c with dm := fun conv => (c.dm conv).restart, pqxdhPrekeys := none }

end Client

end SecChat
