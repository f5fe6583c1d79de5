import SecChat.Protocol.Primitives
import SecChat.Python.Dict
import SecChat.Python.Hex
import SecChat.Python.IntText

/-!
# Server consistency

For every conversation the session keeps the digests of the messages it has seen, chained in the order
of their ids, and compares them with what the server sends and with the checkpoints of other members.

* `messageDigest`, `recomputeTranscriptChain`: a digest, and the chain over all of them;
* `recordTranscriptMessage`, `verifyHistoryConsistency`: a live message, and a window of the history;
* `createTranscriptCheckpoint`, `recordTranscriptCheckpoint`: the signed head, and the comparison;
* `Engine`, `Call`, `Engine.step`: the files of all conversations, and the calls on them.

The state is read from a file and written back by every call, encrypted under the master key; the file
is taken as the state itself.  Nothing reads `updated_at`, `seen_at` and the copy of the last own
checkpoint.
-/

namespace SecChat.Consistency

open Py

/-! ### Fields of a dictionary -/

/-- `int(d.get(key, 0) or 0)`. -/
def intField (d : Json) (key : String) : Except Exn ℤ := do
  return ← ((← d.getD key (.int 0)).orElse (.int 0)).toInt

/-- `str(d.get(key, "") or "")`. -/
def strField (d : Json) (key : String) : Except Exn String := do
  return ((← d.getD key (.str "")).orElse (.str "")).toStr

/-- `base64.b64decode(text.encode("ascii"))`. -/
def b64decodeAscii (text : String) : Except Exn Bytes :=
  if text.toList.all (·.toNat < 128) then
    match b64decode text with
    | some raw => .ok raw
    | none => .error .binasciiError
  else .error .unicodeError

/-! ### The chain -/

/-- The transcript of one conversation; a field that is missing reads as its default. -/
structure TranscriptState where
  messages : List (String × Json) := []
  transcriptHead : String := ""
  messageCount : ℤ := 0
  firstMessageId : ℤ := 0
  lastMessageId : ℤ := 0
  headsById : List (String × Json) := []
  lastWindowHash : String := ""
  lastOwnCheckpointHash : String := ""
  peerCheckpoints : List (String × Json) := []

/-- `_is_user_visible_body`. -/
def isUserVisibleBody (body : String) : Bool :=
  body ≠ "__S2_CONTROL__" ∧ body ≠ "__S3_INIT__" ∧ body ≠ "" ∧
    ¬ body.startsWith "[Forward-secret]" ∧ ¬ body.startsWith "[Cannot" ∧
    ¬ body.startsWith "[Encrypted"

variable (P : Prims)

/-- `hashlib.sha256(raw).hexdigest()`. -/
def sha256Hex (raw : Bytes) : String := hexOf (P.sha256 raw)

/-- `_message_digest`.  The keys of the canonical dictionary are in order. -/
def messageDigest (item : Json) : Except Exn String := do
  let body := (← item.getD "body" (.str "")).toStr
  let id ← ((← item.getD "id" (← item.getD "msg_id" (.int 0))).orElse (.int 0)).toInt
  let senderId ← ((← item.getD "sender_id" (← item.getD "from_id" (.int 0))).orElse (.int 0)).toInt
  let editTarget ← intField item "edit_target_message_id"
  let deleted := (← item.getD "deleted" (.bool false)).truthy
  return sha256Hex P (dumps (.obj [("body", .str body), ("deleted", .bool deleted),
    ("edit_target", .int editTarget), ("id", .int id), ("sender_id", .int senderId)]))

/-- The items of `messages` that count: an integer above zero, and a digest. -/
def chainItems (messages : List (String × Json)) : List (ℤ × String) :=
  messages.filterMap fun entry =>
    match Json.intOfStr entry.1, entry.2 with
    | .ok mid, .str digest => if 0 < mid ∧ digest ≠ "" then some (mid, digest) else none
    | _, _ => none

/-- The order of Python's tuples. -/
def tupleLe (a b : ℤ × String) : Prop := a.1 < b.1 ∨ a.1 = b.1 ∧ a.2 ≤ b.2

instance : DecidableRel tupleLe := fun a b =>
  inferInstanceAs (Decidable (a.1 < b.1 ∨ a.1 = b.1 ∧ a.2 ≤ b.2))

/-- `sorted(items)`. -/
def sortedItems (messages : List (String × Json)) : List (ℤ × String) :=
  (chainItems messages).insertionSort tupleLe

/-- The head of no messages. -/
def zeroHead : String := hexOf (List.replicate 32 0)

/-- What is hashed for a message, with its keys in order. -/
def chainRecord (convId : ℤ) (prev : String) (item : ℤ × String) : Json :=
  .obj [("conversation_id", .int convId), ("domain", .str "SecChatTranscript"),
    ("message_digest", .str item.2), ("message_id", .int item.1), ("prev", .str prev)]

/-- The next head. -/
def nextHead (convId : ℤ) (prev : String) (item : ℤ × String) : String :=
  sha256Hex P (dumps (chainRecord convId prev item))

/-- One turn of the loop of `_recompute_transcript_chain`. -/
def chainStep (convId : ℤ) (acc : String × List (String × Json)) (item : ℤ × String) :
    String × List (String × Json) :=
  let head := nextHead P convId acc.1 item
  (head, dictSet acc.2 (toString item.1, .str head))

/-- `_recompute_transcript_chain`. -/
def recomputeTranscriptChain (convId : ℤ) (state : TranscriptState) : TranscriptState :=
  let items := sortedItems state.messages
  let chained := items.foldl (chainStep P convId) (zeroHead, [])
  { state with
    transcriptHead := if items.isEmpty then "" else chained.1
    messageCount := items.length
    firstMessageId := (items.head?.map Prod.fst).getD 0
    lastMessageId := (items.getLast?.map Prod.fst).getD 0
    headsById := chained.2 }

/-! ### Messages -/

/-- The item whose digest is recorded. -/
def recordedItem (msgId senderId : ℤ) (body ts : String) (editTarget : ℤ) (deleted : Bool) : Json :=
  .obj [("id", .int msgId), ("sender_id", .int senderId), ("body", .str body), ("time", .str ts),
    ("edit_target_message_id", .int editTarget), ("deleted", .bool deleted)]

/-- `record_transcript_message` on the state; `none` when nothing is saved. -/
def recordTranscriptMessage (convId msgId senderId : ℤ) (body ts : String) (editTarget : ℤ)
    (deleted : Bool) (state : TranscriptState) : Except Exn (Option TranscriptState) := do
  if msgId = 0 ∨ isUserVisibleBody body = false then return none
  else
    let digest ← messageDigest P (recordedItem msgId senderId body ts editTarget deleted)
    let messages := dictSet state.messages (toString msgId, .str digest)
    return some (recomputeTranscriptChain P convId { state with messages })

/-- The first loop of `verify_history_consistency`: the id of a message that counts. -/
def relevantMessage (msg : Json) : Except Exn (Option (ℤ × Json)) := do
  let mid ← intField msg "id"
  let body := (← msg.getD "body" (.str "")).toStr
  return if 0 < mid ∧ isUserVisibleBody body = true then some (mid, msg) else none

/-- An item of `incoming`. -/
def incomingItem (relevant : ℤ × Json) : Except Exn (String × Json) := do
  return (toString relevant.1, .str (← messageDigest P relevant.2))

/-- `known.items()` with the integers that they are sorted by. -/
def keyedItem (entry : String × Json) : Except Exn (ℤ × String × Json) := do
  return (← Json.intOfStr entry.1, entry)

/-- The warning about one known message. -/
def historyWarning (minId maxId : ℤ) (incoming : List (String × Json))
    (known : ℤ × String × Json) : Option String :=
  match incoming.lookup known.2.1 with
  | none =>
      if minId ≤ known.1 ∧ known.1 ≤ maxId then
        some s!"Previously seen message #{known.1} is missing from server history."
      else none
  | some digest =>
      if digest.pyEq known.2.2 = false then
        some s!"Previously seen message #{known.1} changed in server history."
      else none

/-- `verify_history_consistency` on the state; `none` when nothing is saved. -/
def verifyHistoryConsistency (convId : ℤ) (messages : List Json) (state : TranscriptState) :
    Except Exn (List String × Option TranscriptState) := do
  let relevant := (← messages.mapM relevantMessage).reduceOption
  let ids := relevant.map Prod.fst
  match ids with
  | [] => return ([], none)
  | first :: _ =>
      let incoming := dictOfPairs (← relevant.mapM (incomingItem P))
      let unordered := if ids ≠ ids.insertionSort (· ≤ ·) then
        ["Server returned this history out of message order."] else []
      let known := (← state.messages.mapM keyedItem).insertionSort fun a b => a.1 ≤ b.1
      let warnings := known.filterMap
        (historyWarning (ids.foldl min first) (ids.foldl max first) incoming)
      let window := ids.map fun mid =>
        s!"{mid}:{((incoming.lookup (toString mid)).getD .null).toStr}"
      let state := { state with
        messages := incoming.foldl dictSet state.messages
        lastWindowHash := sha256Hex P (encodeUtf8 ("|".intercalate window)) }
      return ((unordered ++ warnings).take 3, some (recomputeTranscriptChain P convId state))

/-! ### Checkpoints -/

/-- `_canonical_transcript_checkpoint`. -/
def canonicalCheckpoint (payload : Json) : Bytes :=
  match payload with
  | .obj kvs =>
      dumps (Json.obj (kvs.filter fun kv => kv.1 ≠ "sig" ∧ kv.1 ≠ "checkpoint_hash")).sortKeys
  | j => dumps j

/-- `_transcript_checkpoint_hash`. -/
def checkpointHash (payload : Json) : String := sha256Hex P (canonicalCheckpoint payload)

/-- The payload before it is signed. -/
def unsignedCheckpoint (convId myUid now : ℤ) (identityPk : Bytes) (state : TranscriptState) :
    List (String × Json) :=
  [("v", .int 2), ("event", .str "transcript_checkpoint"), ("conversation_id", .int convId),
    ("actor_uid", .int myUid), ("message_count", .int state.messageCount),
    ("first_message_id", .int state.firstMessageId), ("last_message_id", .int state.lastMessageId),
    ("transcript_head", .str state.transcriptHead),
    ("prev_checkpoint_hash", .str state.lastOwnCheckpointHash),
    ("identity_pk", .str (b64encode identityPk)), ("ts", .int now)]

/-- The payload that is sent. -/
def signedCheckpoint (convId myUid now : ℤ) (identity : Seed) (state : TranscriptState) : Json :=
  let payload := unsignedCheckpoint convId myUid now (P.ed25519Public identity) state
  let sig := b64encode (P.ed25519Sign identity (canonicalCheckpoint (.obj payload)))
  let payload := payload ++ [("sig", .str sig)]
  .obj (payload ++ [("checkpoint_hash", .str (checkpointHash P (.obj payload)))])

/-- `create_transcript_checkpoint` on the state: the payload and what is saved, or nothing while there
are no messages. -/
def createTranscriptCheckpoint (convId myUid now : ℤ) (identity : Option Seed)
    (state : TranscriptState) : Except Exn (Option (Json × TranscriptState)) := do
  match identity with
  | none => throw (.runtimeError "Identity key is not loaded.")
  | some identity =>
      let state := recomputeTranscriptChain P convId state
      if state.messageCount ≤ 0 ∨ state.firstMessageId ≤ 0 ∨ state.lastMessageId ≤ 0 ∨
          state.transcriptHead = "" then return none
      else
        let payload := signedCheckpoint P convId myUid now identity state
        return some (payload, { state with lastOwnCheckpointHash := ← strField payload "checkpoint_hash" })

/-- The message that carries a payload. -/
def checkpointWire (payload : Json) : String := "S3MLS:" ++ jsonB64 payload

/-- The payload that `handle_group_integrity_control` takes from a message. -/
def wirePayload (wire : String) : Except Exn Json := jsonUnb64 (dropTag "S3MLS:" wire)

/-- What `record_transcript_checkpoint` reads of a payload. -/
structure CheckpointFields where
  actorUid : ℤ
  firstId : ℤ
  lastId : ℤ
  head : String
  identityPk : String

/-- The assignments of the five fields. -/
def readCheckpoint (payload : Json) : Except Exn CheckpointFields := do
  let actorUid ← intField payload "actor_uid"
  let firstId ← intField payload "first_message_id"
  let lastId ← intField payload "last_message_id"
  let head ← strField payload "transcript_head"
  let identityPk ← strField payload "identity_pk"
  return ⟨actorUid, firstId, lastId, head, identityPk⟩

/-- `if …: warnings.append(…)`. -/
def warnIf (p : Prop) [Decidable p] (warning : String) : Method (List String) Unit := fun warnings =>
  (.ok (), if p then warnings ++ [warning] else warnings)

/-- The check of the signature; `identity_verify` raises a `ValueError`. -/
def verifyCheckpoint (payload : Json) (identityPk : String) : Except Exn Unit := do
  let pk ← b64decodeAscii identityPk
  let sig ← b64decodeAscii (← payload.getD "sig" (.str "")).toStr
  if P.ed25519Verify pk sig (canonicalCheckpoint payload) then return ()
  else throw (.valueError "Identity signature invalid")

/-- The body of the `try`, which leaves the warnings that it added also when it raises. -/
def tryCheckpoint (convId : ℤ) (payload : Json) (verifySignature : Bool) :
    Method (List String) CheckpointFields := do
  let target ← Method.ofExcept (intField payload "conversation_id")
  warnIf (target ≠ convId) "Transcript checkpoint targets a different conversation."
  let event ← Method.ofExcept (strField payload "event")
  warnIf (event ≠ "transcript_checkpoint") "Transcript checkpoint has an invalid event type."
  let actorUid ← Method.ofExcept (intField payload "actor_uid")
  let firstId ← Method.ofExcept (intField payload "first_message_id")
  let lastId ← Method.ofExcept (intField payload "last_message_id")
  let count ← Method.ofExcept (intField payload "message_count")
  let head ← Method.ofExcept (strField payload "transcript_head")
  let identityPk ← Method.ofExcept (strField payload "identity_pk")
  warnIf (actorUid ≤ 0 ∨ firstId ≤ 0 ∨ lastId ≤ 0 ∨ count ≤ 0 ∨ head.length ≠ 64)
    "Transcript checkpoint is missing required fields."
  Method.ofExcept (if verifySignature then verifyCheckpoint P payload identityPk else .ok ())
  return ⟨actorUid, firstId, lastId, head, identityPk⟩

/-- The comparison with the previous checkpoint of the same peer. -/
def peerWarnings (fields : CheckpointFields) (payload : Json) (previous : Option Json) :
    Except Exn (List String) := do
  match previous with
  | some (.obj kvs) =>
      let prevLast ← intField (.obj kvs) "last_message_id"
      let prevHead ← strField (.obj kvs) "transcript_head"
      let prevHash ← strField (.obj kvs) "checkpoint_hash"
      let declared ← strField payload "prev_checkpoint_hash"
      return (if fields.lastId < prevLast then
          ["Transcript checkpoint rolled back a peer view."] else []) ++
        (if fields.lastId = prevLast ∧ prevHead ≠ "" ∧ fields.head ≠ "" ∧ prevHead ≠ fields.head then
          ["Transcript checkpoint changed a peer view at the same message."] else []) ++
        (if declared ≠ "" ∧ prevHash ≠ "" ∧ declared ≠ prevHash then
          ["Transcript checkpoint chain does not continue the previous peer checkpoint."] else [])
  | _ => return []

/-- The warning of a different view. -/
def orderWarning : String := "Transcript checkpoint does not match the local message order."

/-- The comparison with the local transcript. -/
def localWarnings (fields : CheckpointFields) (state : TranscriptState) : List String :=
  if 0 < state.firstMessageId ∧ 0 < fields.firstId ∧ state.firstMessageId = fields.firstId then
    let localHead := (state.headsById.lookup (toString fields.lastId)).getD .null
    if localHead.truthy = true ∧ fields.head ≠ "" ∧ localHead.pyEq (.str fields.head) = false then
      [orderWarning]
    else if state.lastMessageId = fields.lastId ∧ state.transcriptHead ≠ "" ∧ fields.head ≠ "" ∧
        state.transcriptHead ≠ fields.head then [orderWarning]
    else []
  else []

/-- What is kept of a checkpoint. -/
def storedCheckpoint (fields : CheckpointFields) (payload : Json) : Except Exn Json := do
  let count ← intField payload "message_count"
  let prevHash ← strField payload "prev_checkpoint_hash"
  let ts ← intField payload "ts"
  return .obj [("actor_uid", .int fields.actorUid), ("identity_pk", .str fields.identityPk),
    ("message_count", .int count), ("first_message_id", .int fields.firstId),
    ("last_message_id", .int fields.lastId), ("transcript_head", .str fields.head),
    ("prev_checkpoint_hash", .str prevHash), ("checkpoint_hash", .str (checkpointHash P payload)),
    ("ts", .int ts)]

/-- The `try` with its handler: the fields and the warnings so far. -/
def checkedCheckpoint (convId : ℤ) (payload : Json) (verifySignature : Bool) :
    Except Exn (CheckpointFields × List String) :=
  match tryCheckpoint P convId payload verifySignature [] with
  | (.ok fields, warnings) => .ok (fields, warnings)
  | (.error _, warnings) => do
      return (← readCheckpoint payload,
        warnings ++ ["Transcript checkpoint has an invalid signature or encoding."])

/-- `record_transcript_checkpoint` on the state: all warnings, and what is saved. -/
def recordTranscriptCheckpoint (convId : ℤ) (payload : Json) (verifySignature : Bool)
    (state : TranscriptState) : Except Exn (List String × TranscriptState) := do
  let (fields, warnings) ← checkedCheckpoint P convId payload verifySignature
  let state := recomputeTranscriptChain P convId state
  let peerKey := if fields.identityPk = "" then s!"uid:{fields.actorUid}" else fields.identityPk
  let changed ← peerWarnings fields payload (state.peerCheckpoints.lookup peerKey)
  let stored ← storedCheckpoint P fields payload
  return (warnings ++ changed ++ localWarnings fields state,
    { state with peerCheckpoints := dictSet state.peerCheckpoints (peerKey, stored) })

/-! ### The engine -/

/-- The part of `CryptoSession` that keeps transcripts; without a directory or a master key nothing is
read or written. -/
structure Engine where
  loggedIn : Bool
  myUid : ℤ
  identity : Option Seed
  files : ℤ → TranscriptState
  controlWarnings : ℤ → List String

/-- The calls. -/
inductive Call
  | record (convId msgId senderId : ℤ) (body ts : String) (editTarget : ℤ) (deleted : Bool)
  | verify (convId : ℤ) (messages : List Json)
  | createCheckpoint (convId now : ℤ)
  | recordCheckpoint (convId : ℤ) (payload : Json) (verifySignature : Bool)

namespace Engine

/-- `_load_transcript_state`. -/
def load (s : Engine) (convId : ℤ) : TranscriptState := if s.loggedIn then s.files convId else {}

/-- `_save_transcript_state`. -/
def save (s : Engine) (convId : ℤ) (state : TranscriptState) : Engine :=
  if s.loggedIn then { s with files := Function.update s.files convId state } else s

/-- One call; one that raises has saved nothing. -/
def step (s : Engine) : Call → Engine
  | .record convId msgId senderId body ts editTarget deleted =>
      match recordTranscriptMessage P convId msgId senderId body ts editTarget deleted
        (s.load convId) with
      | .ok (some state) => s.save convId state
      | _ => s
  | .verify convId messages =>
      match verifyHistoryConsistency P convId messages (s.load convId) with
      | .ok (_, some state) => s.save convId state
      | _ => s
  | .createCheckpoint convId now =>
      match createTranscriptCheckpoint P convId s.myUid now s.identity (s.load convId) with
      | .ok (some (_, state)) => s.save convId state
      | _ => s
  | .recordCheckpoint convId payload verifySignature =>
      match recordTranscriptCheckpoint P convId payload verifySignature (s.load convId) with
      | .ok (warnings, state) =>
          let s := s.save convId state
          { s with controlWarnings :=
              Function.update s.controlWarnings convId (s.controlWarnings convId ++ warnings) }
      | .error _ => s

/-- A sequence of calls. -/
def run (s : Engine) (calls : List Call) : Engine := calls.foldl (step P) s

/-- No transcripts yet. -/
def Fresh (s : Engine) : Prop := ∀ convId, s.files convId = {}

end Engine

end SecChat.Consistency
