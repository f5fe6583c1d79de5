import SecChat.Protocol.RatchetSpec

/-!
# The ratchets of one conversation

For every DM the session keeps the current Double Ratchet and a map of all sessions it knows, in
memory and in two files.  The maps hold references: the current state and its entry in the map are
usually one object, and `decrypt` changes objects in place.

* `DmStore`: objects, the two maps and the two files;
* `loadDoubleRatchet`, `loadSessions`, `saveSessions`, `saveDoubleRatchet`, `remember`,
  `selectCanonical`, `stateForWire`: the bookkeeping of the session;
* `decryptWire`: what the live and the history path do with an `S3DR` body.
-/

namespace SecChat

open Py DoubleRatchet

/-- A reference to a `DoubleRatchet` object. -/
abbrev Ref := ℕ

/-- What the session keeps for one conversation.  `current` and `sessions` are the entries of
`double_ratchet_states` and `double_ratchet_session_states`; the files hold what `json.loads` gives
after they are decrypted.  Without a directory and a master key nothing is read or written. -/
structure DmStore where
  persist : Bool
  heap : Ref → DoubleRatchet
  next : Ref
  current : Option Ref
  sessions : Option (AList fun _ : String => Ref)
  drFile : Option Json
  sessionsFile : Option (List (String × Json))

namespace DmStore

/-- A new object. -/
def alloc (σ : DmStore) (s : DoubleRatchet) : Ref × DmStore :=
  (σ.next, { σ with heap := Function.update σ.heap σ.next s, next := σ.next + 1 })

/-- An object is changed in place. -/
def mutate (σ : DmStore) (r : Ref) (s : DoubleRatchet) : DmStore :=
  { σ with heap := Function.update σ.heap r s }

/-- `load_double_ratchet`. -/
def loadDoubleRatchet (σ : DmStore) : Option Ref × DmStore :=
  match σ.current with
  | some r => (some r, σ)
  | none =>
      match σ.persist, σ.drFile with
      | true, some item =>
          match fromDict item with
          | .ok s => (some (σ.alloc s).1, { (σ.alloc s).2 with current := some (σ.alloc s).1 })
          | .error _ => (none, σ)
      | _, _ => (none, σ)

/-- `sessions[current.session_id] = current`. -/
def overlay (σ : DmStore) (sessions : AList fun _ : String => Ref) : AList fun _ : String => Ref :=
  match σ.current with
  | some r => if (σ.heap r).sessionId ≠ "" then sessions.insert (σ.heap r).sessionId r else sessions
  | none => sessions

/-- The loop that reads the items of the session file; it ends at the first one that is broken. -/
def readItems (σ : DmStore) (sessions : AList fun _ : String => Ref) :
    List (String × Json) → (AList fun _ : String => Ref) × DmStore
  | [] => (sessions, σ)
  | (sid, item) :: items =>
      if sid ≠ "" ∧ item.isDict then
        match fromDict item with
        | .ok s => readItems (σ.alloc s).2 (sessions.insert sid (σ.alloc s).1) items
        | .error _ => (sessions, σ)
      else readItems σ sessions items

/-- The part of `load_double_ratchet_sessions` that reads the file. -/
def readSessions (σ : DmStore) : (AList fun _ : String => Ref) × DmStore :=
  match σ.sessions with
  | some sessions => (sessions, σ)
  | none =>
      match σ.persist, σ.sessionsFile with
      | true, some items => σ.readItems ∅ items
      | _, _ => (∅, σ)

/-- `load_double_ratchet_sessions`; the map in the store is the one returned. -/
def loadSessions (σ : DmStore) : (AList fun _ : String => Ref) × DmStore :=
  let (sessions, σ) := σ.readSessions
  (σ.overlay sessions, { σ with sessions := some (σ.overlay sessions) })

/-- The items that are written for a map. -/
def items (σ : DmStore) (sessions : AList fun _ : String => Ref) : List (String × Json) :=
  (sessions.entries.filter fun e => e.1 ≠ "").map fun e => (e.1, (σ.heap e.2).toDict)

/-- `save_double_ratchet_sessions`. -/
def saveSessions (σ : DmStore) : DmStore :=
  let sessions := σ.overlay (σ.sessions.getD ∅)
  if σ.persist = false ∨ sessions.entries = [] then σ
  else { σ with sessionsFile := some (σ.items sessions), sessions := some sessions }

/-- `save_double_ratchet`. -/
def saveDoubleRatchet (σ : DmStore) : DmStore :=
  match σ.current with
  | none => σ
  | some r =>
      if σ.persist = false then σ
      else saveSessions { σ with drFile := some (σ.heap r).toDict }

/-- `_remember_double_ratchet_session`. -/
def remember (σ : DmStore) (r : Ref) : DmStore :=
  if (σ.heap r).sessionId = "" then σ
  else
    let (sessions, σ) := σ.loadSessions
    { σ with sessions := some (sessions.insert (σ.heap r).sessionId r) }

/-- `_remember_double_ratchet_session` of a state that may be missing. -/
def remember? (σ : DmStore) : Option Ref → DmStore
  | some r => σ.remember r
  | none => σ

/-- `_select_canonical_double_ratchet_state`. -/
def selectCanonical (σ : DmStore) (candidate : Option Ref) : Option Ref × DmStore :=
  let (current, σ) := σ.loadDoubleRatchet
  let σ := (σ.remember? current).remember? candidate
  let (sessions, σ) := σ.loadSessions
  match sessions.keys.min? with
  | none => (current <|> candidate, σ)
  | some sid =>
      let chosen := sessions.lookup sid
      (chosen, saveDoubleRatchet { σ with current := chosen })

/-- The session id that `_state_for_double_ratchet_wire` reads off a wire. -/
def wireSid (body : String) : String :=
  let sid : Except Exn String := do
    let payload ← jsonUnb64 (dropTag prefixDr body)
    let h ← payload.getD "h" .null
    let header := if h.isDict then h else .obj []
    return (((← header.getD "sid" .null).orElse (← payload.getD "sid" .null)).orElse (.str "")).toStr
  match sid with
  | .ok sid => sid
  | .error _ => ""

/-- `_state_for_double_ratchet_wire`. -/
def stateForWire (σ : DmStore) (body : String) : Option Ref × DmStore :=
  let sid := wireSid body
  let (current, σ) := σ.loadDoubleRatchet
  let mine := current.any fun r => sid = "" ∨ (σ.heap r).sessionId = sid
  if mine then (current, σ)
  else
    let (sessions, σ) := σ.loadSessions
    match if sid ≠ "" then sessions.lookup sid else none with
    | some r => (some r, σ)
    | none => (current, σ)

/-- The snapshot is put where the state was. -/
def restore (σ : DmStore) (r : Ref) (sid : String) (snapshot : DoubleRatchet) : DmStore :=
  let (r', σ) := σ.alloc snapshot
  if σ.current = some r then { σ with current := some r' }
  else if sid ≠ "" then { σ with sessions := some ((σ.sessions.getD ∅).insert sid r') }
  else σ

/-- A state that has changed is written back. -/
def keep (σ : DmStore) (r : Ref) : DmStore :=
  if σ.current = some r then σ.saveDoubleRatchet else (σ.remember r).saveSessions

/-- What came of an `S3DR` body. -/
inductive WireResult
  | pending
  | message (plain : String)
  | hidden
  | raised (e : Exn)
  deriving DecidableEq

variable (P : Prims)

/-- The `S3DR` branch of `decrypt_live_message` and `decrypt_history_messages`. -/
def decryptWire (σ : DmStore) (sk : Seed) (body : String) : WireResult × DmStore :=
  let (state, σ) := σ.stateForWire body
  match state with
  | none => (.pending, σ)
  | some r =>
      let s := σ.heap r
      match fromDict s.toDict with
      | .error e => (.raised e, σ)
      | .ok snapshot =>
          match decrypt P sk body s with
          | (.ok plain, s') => (.message plain, (σ.mutate r s').keep r)
          | (.error _, s') => (.hidden, (σ.mutate r s').restore r s.sessionId snapshot)

/-- The `S3DR` branch of `encrypt_for_conv`, for a packed text; `none` when there is no state or the
ratchet raises. -/
def encryptWire (σ : DmStore) (rand : SendRand) (plaintext : String) : Option String × DmStore :=
  let (state, σ) := σ.loadDoubleRatchet
  match state with
  | none => (none, σ)
  | some r =>
      match encrypt P rand plaintext (σ.heap r) with
      | (.ok wire, s') => (some wire, (σ.mutate r s').saveDoubleRatchet)
      | (.error _, s') => (none, σ.mutate r s')

/-- A new session is installed, as `decrypt_live_message` does for an `S3PQI` body. -/
def install (σ : DmStore) (s : DoubleRatchet) : DmStore :=
  let (r, σ) := σ.alloc s
  ((σ.remember r).selectCanonical (some r)).2.saveDoubleRatchet

/-- A new session is started, as `initiate_pqxdh_dm` does. -/
def start (σ : DmStore) (s : DoubleRatchet) : DmStore :=
  let (r, σ) := σ.alloc s
  let σ := { σ with current := some r }
  (σ.remember r).saveDoubleRatchet

/-- The program ends and starts again: the files are what is left. -/
def restart (σ : DmStore) : DmStore := { σ with current := none, sessions := none }

end DmStore

end SecChat
