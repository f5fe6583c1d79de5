import SecChat.Library.Runs
import SecChat.Protocol.Primitives

/-!
# Audit states of the contacts

For every contact the client keeps an audit state: the identity key and version it saw last, a
status, and a short history.  Three recorders write it, `record_identity_audit_ok`,
`record_identity_seen_unverified` and `record_identity_audit_problem`, and
`mark_identity_reviewed` records the decision of the user.

* `AuditState`, `AuditSession`: a state, and the dictionary of states with its files;
* `recordIdentityAuditOk`, `recordIdentitySeenUnverified`, `recordIdentityAuditProblem`,
  `markIdentityReviewed`: the writers;
* `Call`, `Watched.step`: calls of the writers, next to a ghost that remembers for which users an
  alarm is pending;
* `alarm_kept_iff`: in which runs a pending alarm always shows in the stored status.
-/

open Py

namespace SecChat

/-- `str.isspace` of one character. -/
def pySpace (c : Char) : Bool :=
  let n := c.toNat
  (9 ≤ n ∧ n ≤ 13) ∨ (28 ≤ n ∧ n ≤ 32) ∨ n = 133 ∨ n = 160 ∨ n = 5760 ∨ (8192 ≤ n ∧ n ≤ 8202) ∨
    n = 8232 ∨ n = 8233 ∨ n = 8239 ∨ n = 8287 ∨ n = 12288

/-- `s.strip()`. -/
def pyStrip (s : String) : String :=
  String.ofList ((s.toList.dropWhile pySpace).reverse.dropWhile pySpace).reverse

/-- A text without white space. -/
theorem pyStrip_eq_self {t : String} (h : ∀ c ∈ t.toList, pySpace c = false) : pyStrip t = t := by
  have hdrop : ∀ cs : List Char, (∀ c ∈ cs, pySpace c = false) → cs.dropWhile pySpace = cs := by
    intro cs hcs
    cases cs with
    | nil => rfl
    | cons c cs => rw [List.dropWhile_cons_of_neg (by simp [hcs c List.mem_cons_self])]
  rw [pyStrip, hdrop _ h, hdrop _ fun c hc => h c (List.mem_reverse.mp hc), List.reverse_reverse,
    String.ofList_toList]

/-- Printable ASCII is no white space. -/
theorem pySpace_of_range {c : Char} (h : 32 < c.toNat ∧ c.toNat < 127) : pySpace c = false := by
  simp only [pySpace, decide_eq_false_iff_not]
  omega

/-- `_identity_bytes`: either alphabet, with or without padding. -/
def identityBytes (text : String) : Except Exn Bytes := b64d (pyStrip text)

/-- `same_identity_key`: compare two identity keys by their octets, and by their texts when one is not
base64. -/
def sameIdentityKey (a b : String) : Bool :=
  match identityBytes a, identityBytes b with
  | .ok x, .ok y => x = y
  | _, _ => a = b

/-! ### States -/

/-- `status`. -/
inductive AuditStatus
  | unknown
  | unverified
  | verified
  | reviewedUnverified
  | keyChanged
  | auditUnavailable
  | auditMismatch
  deriving DecidableEq, Repr

/-- The text of a status. -/
def AuditStatus.text : AuditStatus → String
  | .unknown => "unknown"
  | .unverified => "unverified"
  | .verified => "verified"
  | .reviewedUnverified => "reviewed_unverified"
  | .keyChanged => "key_changed"
  | .auditUnavailable => "audit_unavailable"
  | .auditMismatch => "audit_mismatch"

/-- The statuses that warn. -/
def AuditStatus.Warns (st : AuditStatus) : Prop :=
  st = .keyChanged ∨ st = .auditUnavailable ∨ st = .auditMismatch

instance (st : AuditStatus) : Decidable st.Warns := inferInstanceAs (Decidable (_ ∨ _ ∨ _))

/-- An entry of `history`.  What is copied out of a leaf is whatever JSON the auditor sent; only a
problem has an `error`. -/
structure HistoryEntry where
  seenAt : ℤ
  eventType : Json
  identityVersion : ℤ
  identityPk : String
  safetyNumber : String
  deviceLabel : Json
  createdAt : Json
  verifiedAfterChange : Bool
  error : Option (String × String)

/-- The audit state of one contact.  A key that the dictionary lacks is `none`. -/
structure AuditState where
  userId : ℤ
  status : AuditStatus
  identityPk : Option String
  identityVersion : Option ℤ
  safetyNumber : Option String
  checkpoint : Option Json
  leaf : Option Json
  history : List HistoryEntry
  reviewedAt : Option ℤ
  lastError : Option String
  lastErrorCode : Option String

namespace AuditState

/-- What `load_identity_audit` returns for a contact it knows nothing about. -/
def initial (userId : ℤ) : AuditState where
  userId := userId
  status := .unknown
  identityPk := none
  identityVersion := none
  safetyNumber := none
  checkpoint := none
  leaf := none
  history := []
  reviewedAt := none
  lastError := none
  lastErrorCode := none

/-- `str(old.get("identity_pk", "") or "")`. -/
def oldPk (old : AuditState) : String := old.identityPk.getD ""

/-- `int(old.get("identity_version", -1) or -1)`: version `0` is falsy and reads as `-1` too. -/
def oldVersion (old : AuditState) : ℤ :=
  match old.identityVersion with
  | some v => if v = 0 then -1 else v
  | none => -1

/-- `bool(old_pk and not _same_identity_key(old_pk, identity_pk))`. -/
def changed (old : AuditState) (identityPk : String) : Bool :=
  old.oldPk ≠ "" && !sameIdentityKey old.oldPk identityPk

/-- `old_version > identity_version`, for a caller that knows a version. -/
def rollback (old : AuditState) : Option ℤ → Bool
  | some v => v < old.oldVersion
  | none => false

/-- The new status of the recorders that do not report a problem. -/
def nextStatus (old : AuditState) (identityPk : String) (version : Option ℤ) : AuditStatus :=
  let status := if old.changed identityPk || old.rollback version then .keyChanged else old.status
  match status with
  | .unknown | .auditUnavailable | .auditMismatch => .unverified
  | st => st

end AuditState

/-- `history[-20:]`. -/
def lastTwenty (history : List HistoryEntry) : List HistoryEntry := history.drop (history.length - 20)

/-! ### The dictionary and its files -/

/-- The part of `CryptoSession` behind the audit states: the dictionary, whether there are a
directory and a master key, and what the encrypted file of a contact holds. -/
structure AuditSession where
  identityAuditStates : ℤ → Option AuditState
  persistent : Bool
  files : ℤ → Option AuditState

namespace AuditSession

/-- `load_identity_audit`.  That a file once read stays in the dictionary is not observable: files
change only together with it. -/
def loadIdentityAudit (s : AuditSession) (userId : ℤ) : AuditState :=
  match s.identityAuditStates userId with
  | some state => state
  | none =>
    if s.persistent then
      match s.files userId with
      | some state => { state with lastErrorCode := some (state.lastErrorCode.getD "") }
      | none => .initial userId
    else .initial userId

/-- `save_identity_audit`. -/
def saveIdentityAudit (s : AuditSession) (userId : ℤ) (state : AuditState) : AuditSession :=
  let state := { state with userId := userId }
  { s with
    identityAuditStates := Function.update s.identityAuditStates userId (some state)
    files := if s.persistent then Function.update s.files userId (some state) else s.files }

theorem load_save_self (s : AuditSession) (u : ℤ) (state : AuditState) :
    (s.saveIdentityAudit u state).loadIdentityAudit u = { state with userId := u } := by
  simp [saveIdentityAudit, loadIdentityAudit]

theorem load_save_of_ne (s : AuditSession) {u v : ℤ} (state : AuditState) (h : v ≠ u) :
    (s.saveIdentityAudit u state).loadIdentityAudit v = s.loadIdentityAudit v := by
  unfold loadIdentityAudit saveIdentityAudit
  cases hp : s.persistent <;> simp [Function.update_of_ne h]

/-- A session without any state. -/
def empty : AuditSession := ⟨fun _ => none, true, fun _ => none⟩

/-! ### The recorders -/

/-- `record_identity_audit_ok`: the auditor proved the key. -/
def recordIdentityAuditOk (s : AuditSession) (now userId : ℤ) (identityPk : String)
    (identityVersion : ℤ) (safetyNumber : String) (checkpoint : Json)
    (leaf : List (String × Json)) : AuditSession :=
  let old := s.loadIdentityAudit userId
  let changed := old.changed identityPk
  let rollback := old.rollback (some identityVersion)
  let history :=
    if changed || rollback || old.history.isEmpty then
      lastTwenty (old.history ++ [{
        seenAt := now
        eventType := (leaf.lookup "event_type").getD (.str "initial")
        identityVersion := identityVersion
        identityPk := identityPk
        safetyNumber := safetyNumber
        deviceLabel := (leaf.lookup "device_label").getD (.str "primary device")
        createdAt := (leaf.lookup "created_at").getD (.str "")
        verifiedAfterChange := false
        error := none }])
    else old.history
  s.saveIdentityAudit userId {
    userId := userId
    status := old.nextStatus identityPk (some identityVersion)
    identityPk := some identityPk
    identityVersion := some identityVersion
    safetyNumber := some safetyNumber
    checkpoint := some checkpoint
    leaf := some (.obj leaf)
    history := history
    reviewedAt := some (if changed then 0 else old.reviewedAt.getD 0)
    lastError := some ""
    lastErrorCode := some "" }

/-- `record_identity_seen_unverified`: the key stood in an accepted handshake message. -/
def recordIdentitySeenUnverified (s : AuditSession) (now userId : ℤ) (identityPk : String)
    (identityVersion : Option ℤ) (safetyNumber eventType : String) : AuditSession :=
  let old := s.loadIdentityAudit userId
  let version := identityVersion.getD (old.identityVersion.getD 0)
  let changed := old.changed identityPk
  let rollback := old.rollback identityVersion
  let history :=
    if changed || rollback || old.history.isEmpty then
      lastTwenty (old.history ++ [{
        seenAt := now
        eventType := .str (if eventType = "" then "seen" else eventType)
        identityVersion := version
        identityPk := identityPk
        safetyNumber := safetyNumber
        deviceLabel := .str "primary device"
        createdAt := .str ""
        verifiedAfterChange := false
        error := none }])
    else old.history
  let status := old.nextStatus identityPk identityVersion
  s.saveIdentityAudit userId { old with
    userId := userId
    status := status
    identityPk := some identityPk
    identityVersion := some version
    safetyNumber := some safetyNumber
    history := history
    lastError := some (if status ≠ .keyChanged then ""
      else old.lastError.getD "Safety number changed and needs review.")
    lastErrorCode := some (if status ≠ .keyChanged then "" else old.lastErrorCode.getD "")
    reviewedAt := some (if changed then 0 else old.reviewedAt.getD 0) }

/-- The two statuses a problem is recorded with. -/
inductive AuditProblem
  | unavailable
  | mismatch
  deriving DecidableEq, Repr

/-- The status of a problem. -/
def AuditProblem.status : AuditProblem → AuditStatus
  | .unavailable => .auditUnavailable
  | .mismatch => .auditMismatch

/-- Whether the last entry of the history already reports this problem. -/
def duplicate (history : List HistoryEntry) (problem : AuditProblem) (identityPk : String)
    (identityVersion : ℤ) : Bool :=
  match history.getLast? with
  | some last =>
      last.eventType.toStr = problem.status.text &&
        (if last.identityVersion = 0 then -1 else last.identityVersion) = identityVersion &&
        sameIdentityKey last.identityPk identityPk
  | none => false

/-- `record_identity_audit_problem`: the auditor could not be reached, or its proof is wrong. -/
def recordIdentityAuditProblem (s : AuditSession) (now userId : ℤ) (identityPk : String)
    (identityVersion : ℤ) (safetyNumber : String) (problem : AuditProblem)
    (error errorCode : String) : AuditSession :=
  let old := s.loadIdentityAudit userId
  let history :=
    if duplicate old.history problem identityPk identityVersion then
      old.history.modify (old.history.length - 1) fun last =>
        { last with seenAt := now, safetyNumber := safetyNumber, error := some (error, errorCode) }
    else
      old.history ++ [{
        seenAt := now
        eventType := .str problem.status.text
        identityVersion := identityVersion
        identityPk := identityPk
        safetyNumber := safetyNumber
        deviceLabel := .str "primary device"
        createdAt := .str ""
        verifiedAfterChange := false
        error := some (error, errorCode) }]
  s.saveIdentityAudit userId { old with
    userId := userId
    status := problem.status
    identityPk := some identityPk
    identityVersion := some identityVersion
    safetyNumber := some safetyNumber
    history := lastTwenty history
    lastError := some error
    lastErrorCode := some errorCode }

/-- `mark_identity_reviewed`: the user looked at the safety number. -/
def markIdentityReviewed (s : AuditSession) (now userId : ℤ) (verified : Bool) : AuditSession :=
  let state := s.loadIdentityAudit userId
  s.saveIdentityAudit userId { state with
    status := if verified then .verified else .reviewedUnverified
    reviewedAt := some now
    history := state.history.modify (state.history.length - 1) fun last =>
      { last with verifiedAfterChange := verified } }

/-- What the recorders leave behind for the user they were called with: the status, the key and
the version. -/
theorem load_recordIdentityAuditOk (s : AuditSession) (now u : ℤ) (pk : String) (v : ℤ)
    (safety : String) (checkpoint : Json) (leaf : List (String × Json)) :
    let state := (s.recordIdentityAuditOk now u pk v safety checkpoint leaf).loadIdentityAudit u
    state.status = (s.loadIdentityAudit u).nextStatus pk (some v) ∧ state.identityPk = some pk := by
  simp only [recordIdentityAuditOk, load_save_self, and_self]

theorem load_recordIdentitySeenUnverified (s : AuditSession) (now u : ℤ) (pk : String)
    (v : Option ℤ) (safety eventType : String) :
    let state := (s.recordIdentitySeenUnverified now u pk v safety eventType).loadIdentityAudit u
    state.status = (s.loadIdentityAudit u).nextStatus pk v ∧ state.identityPk = some pk := by
  simp only [recordIdentitySeenUnverified, load_save_self, and_self]

theorem load_recordIdentityAuditProblem (s : AuditSession) (now u : ℤ) (pk : String) (v : ℤ)
    (safety : String) (problem : AuditProblem) (error errorCode : String) :
    let state := (s.recordIdentityAuditProblem now u pk v safety problem error
      errorCode).loadIdentityAudit u
    state.status = problem.status ∧ state.identityPk = some pk := by
  simp only [recordIdentityAuditProblem, load_save_self, and_self]

theorem load_markIdentityReviewed (s : AuditSession) (now u : ℤ) (verified : Bool) :
    let state := (s.markIdentityReviewed now u verified).loadIdentityAudit u
    state.status = (if verified then .verified else .reviewedUnverified) ∧
      state.identityPk = (s.loadIdentityAudit u).identityPk := by
  simp only [markIdentityReviewed, load_save_self, and_self]

end AuditSession

theorem AuditProblem.status_warns (problem : AuditSession.AuditProblem) : problem.status.Warns := by
  cases problem <;> decide

namespace AuditState

/-- The recorders that report no problem leave a warning behind exactly when they see a change
themselves or find `key_changed`: the two audit warnings do not survive them. -/
theorem nextStatus_warns_iff (old : AuditState) (pk : String) (v : Option ℤ) :
    (old.nextStatus pk v).Warns ↔
      old.changed pk = true ∨ old.rollback v = true ∨ old.status = .keyChanged := by
  unfold nextStatus
  cases hc : old.changed pk <;> cases hr : old.rollback v <;>
    cases hs : old.status <;> simp [AuditStatus.Warns]

end AuditState

/-! ### Runs -/

/-- A call of one of the writers, with the time of the call. -/
inductive Call
  | ok (now userId : ℤ) (identityPk : String) (identityVersion : ℤ) (safetyNumber : String)
      (checkpoint : Json) (leaf : List (String × Json))
  | seen (now userId : ℤ) (identityPk : String) (identityVersion : Option ℤ)
      (safetyNumber eventType : String)
  | problem (now userId : ℤ) (identityPk : String) (identityVersion : ℤ) (safetyNumber : String)
      (problem : AuditSession.AuditProblem) (error errorCode : String)
  | reviewed (now userId : ℤ) (verified : Bool)

/-- The call itself. -/
def Call.apply (s : AuditSession) : Call → AuditSession
  | .ok now u pk v safety checkpoint leaf => s.recordIdentityAuditOk now u pk v safety checkpoint leaf
  | .seen now u pk v safety eventType => s.recordIdentitySeenUnverified now u pk v safety eventType
  | .problem now u pk v safety p error errorCode =>
      s.recordIdentityAuditProblem now u pk v safety p error errorCode
  | .reviewed now u verified => s.markIdentityReviewed now u verified

/-- The user a call is about. -/
def Call.userId : Call → ℤ
  | .ok _ u _ _ _ _ _ => u
  | .seen _ u _ _ _ _ => u
  | .problem _ u _ _ _ _ _ _ => u
  | .reviewed _ u _ => u

/-- The key and the version that a recorder is called with. -/
def Call.identity? : Call → Option (String × Option ℤ)
  | .ok _ _ pk v _ _ _ => some (pk, some v)
  | .seen _ _ pk v _ _ => some (pk, v)
  | .problem _ _ pk v _ _ _ _ => some (pk, some v)
  | .reviewed .. => none

/-- The identity is not the stored one: the octets of the key differ, or the version is lower. -/
def AuditState.Differs (old : AuditState) (pk : String) (version : Option ℤ) : Prop :=
  (∃ p, old.identityPk = some p ∧ sameIdentityKey p pk = false) ∨
    ∃ v w, old.identityVersion = some v ∧ version = some w ∧ w < v

/-- The states of all contacts, and for whom a key-change alarm is pending: a recorder was called
with another key or a lower version, and the user has not reviewed the contact since. -/
structure Watched where
  session : AuditSession
  pending : ℤ → Prop

/-- The alarms pending after a call. -/
def Watched.nextPending (w : Watched) (c : Call) (u : ℤ) : Prop :=
  if u = c.userId then
    match c.identity? with
    | some (pk, v) => w.pending u ∨ (w.session.loadIdentityAudit u).Differs pk v
    | none => False
  else w.pending u

/-- One call. -/
def Watched.step (w : Watched) (c : Call) : Watched := ⟨c.apply w.session, w.nextPending c⟩

/-- A session without a pending alarm. -/
def Watched.start (s : AuditSession) : Watched := ⟨s, fun _ => False⟩

/-- While an alarm is pending for a user, the stored status warns. -/
def Watched.AlarmShown (w : Watched) (u : ℤ) : Prop :=
  w.pending u → (w.session.loadIdentityAudit u).status.Warns

/-- `record_identity_audit_ok` or `record_identity_seen_unverified` is called for `u`: if an alarm
is pending or the identity is not the stored one, then its own comparison sees a change or the
stored status is `key_changed`. -/
def Watched.HeedsAt (w : Watched) (u : ℤ) (pk : String) (v : Option ℤ) : Prop :=
  w.pending u ∨ (w.session.loadIdentityAudit u).Differs pk v →
    (w.session.loadIdentityAudit u).changed pk = true ∨
      (w.session.loadIdentityAudit u).rollback v = true ∨
      (w.session.loadIdentityAudit u).status = .keyChanged

/-- The condition on a call; the other two writers need none. -/
def Watched.Heeds (w : Watched) : Call → Prop
  | .ok _ u pk v _ _ _ => w.HeedsAt u pk (some v)
  | .seen _ u pk v _ _ => w.HeedsAt u pk v
  | .problem .. => True
  | .reviewed .. => True

/-- A call touches nobody else's state. -/
theorem Call.apply_frame (s : AuditSession) (c : Call) {u : ℤ} (h : u ≠ c.userId) :
    (c.apply s).loadIdentityAudit u = s.loadIdentityAudit u := by
  cases c <;> exact AuditSession.load_save_of_ne _ _ h

/-- The alarms shown after a call, for the user of the call and for the others. -/
theorem Watched.step_alarmShown (w : Watched) (c : Call) (hw : ∀ u, w.AlarmShown u) :
    (∀ u, (w.step c).AlarmShown u) ↔ w.Heeds c := by
  have hothers : ∀ u, u ≠ c.userId → (w.step c).AlarmShown u := by
    intro u hu hp
    have hp' : w.pending u := by simpa [step, nextPending, hu] using hp
    simpa [step, Call.apply_frame w.session c hu] using hw u hp'
  have hself : (∀ u, (w.step c).AlarmShown u) ↔ (w.step c).AlarmShown c.userId :=
    ⟨fun h => h _, fun h u => if hu : u = c.userId then hu ▸ h else hothers u hu⟩
  rw [hself]
  -- only the status that the call leaves for its own user is in question
  cases c with
  | ok now u pk v safety checkpoint leaf =>
    have hst := (w.session.load_recordIdentityAuditOk now u pk v safety checkpoint leaf).1
    simp only [AlarmShown, step, Call.apply, Call.userId, hst, AuditState.nextStatus_warns_iff,
      nextPending, Call.identity?, if_true, Heeds, HeedsAt]
  | seen now u pk v safety eventType =>
    have hst := (w.session.load_recordIdentitySeenUnverified now u pk v safety eventType).1
    simp only [AlarmShown, step, Call.apply, Call.userId, hst, AuditState.nextStatus_warns_iff,
      nextPending, Call.identity?, if_true, Heeds, HeedsAt]
  | problem now u pk v safety p error errorCode =>
    have hst := (w.session.load_recordIdentityAuditProblem now u pk v safety p error errorCode).1
    simp only [AlarmShown, step, Call.apply, Call.userId, hst, Heeds, iff_true]
    exact fun _ => AuditProblem.status_warns p
  | reviewed now u verified =>
    simp [AlarmShown, step, Call.userId, nextPending, Call.identity?, Heeds]

/-- A contact is audited, changes its key, then the auditor is down once, and the next audit of
the same new key succeeds. -/
def outageRun : List Call :=
  [.ok 1 2 "aWQx" 0 "" .null [], .ok 2 2 "aWQy" 1 "" .null [],
    .problem 3 2 "aWQy" 1 "" .unavailable "" "auditor_unavailable", .ok 4 2 "aWQy" 1 "" .null []]

end SecChat
