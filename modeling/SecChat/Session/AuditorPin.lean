import SecChat.Audit.Badge
import SecChat.Python.MethodRules
import SecChat.Session.Consistency

/-!
# The pinned checkpoint of the auditor

A device pins one checkpoint of the identity log for the whole account.  `record_auditor_checkpoint`
replaces it, and the handlers of the audit flow write the state back with another status.

* `AuditorState`, `Session`: the state, in memory and in its file;
* `recordAuditorCheckpoint`, `auditPqxdhBundleIdentity`: the recorder, and the flow around it;
* `Forward`: how two pinned checkpoints of one account are related;
* `pinned_forward`: a run only moves forward, and a rejected checkpoint changes nothing.

The file is taken as the state itself; what the flow writes to the audit state of the peer is left
out.
-/

namespace SecChat.AuditorPin

open Py Consistency

/-! ### The state -/

/-- A dictionary. -/
abbrev Dict := List (String × Json)

/-- The auditor state; a field that is missing reads as its default. -/
structure AuditorState where
  status : String := "unknown"
  checkpoint : Dict := []
  observations : List Json := []
  lastError : String := ""
  lastErrorCode : String := ""
  updatedAt : ℤ := 0

/-- `auditor_state` in memory, and what the file decrypts to, if it can be read. -/
structure Session where
  loggedIn : Bool
  auditorState : Option AuditorState := none
  file : Option AuditorState := none

/-- What becomes of the file when a state is saved.  An error is only logged; it comes before the
file is opened, or after that has emptied it. -/
inductive Write
  | written
  | untouched
  | emptied
  deriving DecidableEq

/-- `load_auditor_state`. -/
def loadAuditorState : Method Session AuditorState := fun s =>
  match s.auditorState with
  | some state => (.ok state, s)
  | none =>
      if s.loggedIn = false then (.ok {}, s)
      else
        match s.file with
        | some state => (.ok state, { s with auditorState := some state })
        | none => (.ok {}, s)

/-- `save_auditor_state`. -/
def saveAuditorState (write : Write) (state : AuditorState) : Method Session Unit :=
  Method.modify fun s =>
    { s with
      auditorState := some state
      file :=
        if s.loggedIn = false then s.file
        else
          match write with
          | .written => some state
          | .untouched => s.file
          | .emptied => none }

/-! ### Recording -/

/-- `new_size`: a size that cannot be read is `-1`. -/
def treeSize (cp : Dict) : ℤ :=
  match ((cp.lookup "tree_size").getD (.int (-1))).toInt with
  | .ok size => size
  | .error _ => -1

/-- `new_root`. -/
def rootHash (cp : Dict) : String := (((cp.lookup "root_hash").getD (.str "")).orElse (.str "")).toStr

/-- The comparison with the pinned checkpoint. -/
def compareCheckpoint (oldCp : Dict) (newSize : ℤ) (newRoot : String) : Except Exn Unit :=
  if oldCp.isEmpty then .ok ()
  else do
    let oldSize ← intField (.obj oldCp) "tree_size"
    let oldRoot ← strField (.obj oldCp) "root_hash"
    if newSize < oldSize then
      throw (.runtimeError "Auditor checkpoint rolled back across identity checks")
    else if newSize = oldSize ∧ oldRoot ≠ "" ∧ newRoot ≠ oldRoot then
      throw (.runtimeError "Auditor split-view detected at the same log size")
    else return ()

/-- What is remembered of a checkpoint that was accepted. -/
def observation (now : ℤ) (cp : Dict) (source : String) (userId identityVersion : ℤ) : Json :=
  .obj [("seen_at", .int now), ("source", .str source), ("user_id", .int userId),
    ("identity_version", .int identityVersion), ("tree_size", .int (treeSize cp)),
    ("root_hash", .str (rootHash cp)),
    ("created_at", .str (((cp.lookup "created_at").getD (.str "")).orElse (.str "")).toStr)]

/-- `observations[-50:]`. -/
def lastFifty (observations : List Json) : List Json := observations.drop (observations.length - 50)

/-- `record_auditor_checkpoint`. -/
def recordAuditorCheckpoint (now : ℤ) (write : Write) (cp : Dict) (source : String)
    (userId identityVersion : ℤ) : Method Session AuditorState :=
  if treeSize cp < 0 ∨ (rootHash cp).length ≠ 64 then
    Method.raise (.runtimeError "Malformed auditor checkpoint")
  else do
    let state ← loadAuditorState
    Method.ofExcept (compareCheckpoint state.checkpoint (treeSize cp) (rootHash cp))
    let state : AuditorState := {
      status := "ok"
      checkpoint := cp
      observations := lastFifty
        (state.observations ++ [observation now cp source userId identityVersion])
      updatedAt := now }
    saveAuditorState write state
    return state

/-! ### The audit flow -/

/-- `part in text`. -/
def hasPart (text part : String) : Bool := decide (part.toList <:+: text.toList)

/-- `classify_audit_error`; the texts are English, so that only ASCII letters are lowered. -/
def classifyAuditError (message : String) : String :=
  let text := message.toLower
  if hasPart text "identity version not found" ∨ hasPart text "version not in log" then
    "identity_version_not_found"
  else if hasPart text "auditor http" ∨ hasPart text "http error" then "auditor_http_error"
  else if hasPart text "unavailable" ∨ hasPart text "timed out" ∨ hasPart text "connection" then
    "auditor_unavailable"
  else if hasPart text "malformed auditor checkpoint" then "checkpoint_malformed"
  else if hasPart text "checkpoint signature" then "checkpoint_signature_invalid"
  else if hasPart text "empty identity tree root" then "empty_root_invalid"
  else if hasPart text "proof index" ∨ hasPart text "index is out of range" then
    "proof_index_out_of_range"
  else if hasPart text "proof side" ∨ hasPart text "proof direction" then "proof_side_malformed"
  else if hasPart text "malformed identity log proof" then "proof_malformed"
  else if hasPart text "inclusion proof" ∧ hasPart text "checkpoint" then "proof_root_mismatch"
  else if hasPart text "rolled back" then "checkpoint_rollback"
  else if hasPart text "split-view" ∨ hasPart text "same tree size" ∨ hasPart text "same log size" then
    "checkpoint_split_view"
  else if hasPart text "malformed consistency proof" then "consistency_proof_malformed"
  else if hasPart text "previous checkpoint" ∨ hasPart text "previous root" then
    "consistency_previous_root_mismatch"
  else if hasPart text "new checkpoint" ∨ hasPart text "new root" then
    "consistency_new_root_mismatch"
  else if hasPart text "different user" then "identity_user_mismatch"
  else if hasPart text "different version" ∨ hasPart text "version not found" then
    "identity_version_mismatch"
  else if hasPart text "key does not match" then "identity_key_mismatch"
  else "unknown"

/-- What the flow catches: an `AuditError` with its code, which is never empty, or anything else. -/
inductive Problem
  | audit (error errorCode : String)
  | other (error : String)

/-- What `verify_identity_from_auditor` answers: the checkpoint of its result, or what it raises. -/
inductive Answer
  | verified (checkpoint : Dict)
  | raised (problem : Problem)

/-- `str(exc)` of an error of the recorder. -/
def errorText : Exn → String
  | .runtimeError msg => msg
  | .valueError msg => msg
  | _ => ""

/-- One call of `_audit_pqxdh_bundle_identity`.  `identityError` is what `record_identity_audit_ok`
raises.  `inLog` is the version under which the log has this key, with the second answer of the
auditor, when `_recover_identity_audit_version_mismatch` finds one. -/
structure Audit where
  now : ℤ
  savedMessages : Bool
  peerUid : ℤ
  identityVersion : ℤ
  answer : Answer
  identityError : Option String
  inLog : Option (ℤ × Answer)
  write : Write
  secondWrite : Write

/-- The body of the `try`, with what it raises. -/
def verifyIdentity (a : Audit) (s : Session) : Option Problem × Session :=
  match a.answer with
  | .raised problem => (some problem, s)
  | .verified cp =>
      match recordAuditorCheckpoint a.now a.write cp "pqxdh_bundle" a.peerUid a.identityVersion s with
      | (.ok _, s) => (a.identityError.map .other, s)
      | (.error exc, s) => (some (.audit (errorText exc) (classifyAuditError (errorText exc))), s)

/-- What a handler does with the auditor state. -/
def noteProblem (now : ℤ) (write : Write) : Problem → Method Session Unit
  | .audit error errorCode => do
      let state ← loadAuditorState
      saveAuditorState write { state with
        status := (auditStatusForCode errorCode).status.text
        lastError := error
        lastErrorCode := errorCode
        updatedAt := now }
  | .other error => do
      let state ← loadAuditorState
      if state.checkpoint.isEmpty then
        saveAuditorState write { state with
          status := "audit_unavailable"
          lastError := "Auditor is unavailable: " ++ error
          lastErrorCode := "auditor_unavailable"
          updatedAt := now }
      else return ()

/-- `_recover_identity_audit_version_mismatch`; what it raises is dropped. -/
def recoverVersionMismatch (a : Audit) (problem : Problem) (s : Session) : Session :=
  match problem, a.inLog with
  | .audit _ errorCode, some (version, .verified cp) =>
      if errorCode = "identity_version_mismatch" ∨ errorCode = "identity_version_not_found" then
        (recordAuditorCheckpoint a.now a.secondWrite cp "pqxdh_bundle_version_recovered" a.peerUid
          version s).2
      else s
  | _, _ => s

/-- `_audit_pqxdh_bundle_identity`. -/
def auditPqxdhBundleIdentity (a : Audit) (s : Session) : Session :=
  if a.savedMessages = true ∨ a.peerUid ≤ 0 then s
  else
    match verifyIdentity a (loadAuditorState s).2 with
    | (none, s) => s
    | (some problem, s) => recoverVersionMismatch a problem (noteProblem a.now a.write problem s).2

/-! ### Runs -/

/-- The state that a session works on. -/
def Session.state (s : Session) : AuditorState := (s.auditorState.or (if s.loggedIn then s.file else none)).getD {}

/-- What happens to the auditor state.  A restart keeps only the file. -/
inductive Event
  | record (now : ℤ) (write : Write) (cp : Dict) (source : String) (userId identityVersion : ℤ)
  | audit (a : Audit)
  | restart

/-- One event. -/
def step (s : Session) : Event → Session
  | .record now write cp source userId identityVersion =>
      (recordAuditorCheckpoint now write cp source userId identityVersion s).2
  | .audit a => auditPqxdhBundleIdentity a s
  | .restart => { s with auditorState := none }

/-- A restart finds the state that was saved last in the file. -/
def Saved (s : Session) : Event → Prop
  | .restart => s.auditorState = none ∨ s.loggedIn = true ∧ s.file = s.auditorState
  | _ => True

/-- From one pinned checkpoint to a later one: the log did not shrink, and at one size it has one
root. -/
def Forward (old new : Dict) : Prop :=
  treeSize old ≤ treeSize new ∧ (treeSize old = treeSize new → rootHash old = rootHash new)

theorem Forward.refl (cp : Dict) : Forward cp cp := ⟨le_rfl, fun _ => rfl⟩

theorem Forward.trans {first second third : Dict} (h : Forward first second)
    (h' : Forward second third) : Forward first third := by
  refine ⟨h.1.trans h'.1, fun hsize => ?_⟩
  have hsecond : treeSize first = treeSize second := le_antisymm h.1 (hsize ▸ h'.1)
  rw [h.2 hsecond]
  exact h'.2 (hsecond ▸ hsize)

/-- A checkpoint that can be pinned. -/
def Pinnable (cp : Dict) : Prop := 0 ≤ treeSize cp ∧ (rootHash cp).length = 64

/-! ### Reading a pinned checkpoint back -/

/-- `int(old_cp.get("tree_size", 0) or 0)` is the size that was accepted. -/
theorem intField_treeSize {cp : Dict} (h : 0 ≤ treeSize cp) :
    intField (.obj cp) "tree_size" = .ok (treeSize cp) := by
  unfold treeSize at h ⊢
  cases hlookup : cp.lookup "tree_size" with
  | none =>
    rw [hlookup] at h
    exact absurd h (by decide)
  | some x =>
    rw [hlookup, Option.getD_some] at h
    cases hint : x.toInt with
    | error e =>
      rw [hint] at h
      exact absurd h (by simp)
    | ok size =>
      show (do return ← ((← (Json.obj cp).getD "tree_size" (.int 0)).orElse (.int 0)).toInt) = _
      simp only [Json.getD, hlookup, Option.getD_some, hint]
      exact toInt_orElse_zero hint

theorem strField_rootHash (cp : Dict) : strField (.obj cp) "root_hash" = .ok (rootHash cp) := rfl

/-- A pinned checkpoint is never an empty dictionary. -/
theorem Pinnable.isEmpty {cp : Dict} (h : Pinnable cp) : cp.isEmpty = false := by
  cases cp with
  | nil => exact absurd h.1 (by decide)
  | cons kv cp => rfl

/-- **What the recorder lets through is ahead of what is pinned.** -/
theorem forward_of_compareCheckpoint {old cp : Dict} (hold : old = [] ∨ Pinnable old) (hcp : Pinnable cp)
    (h : compareCheckpoint old (treeSize cp) (rootHash cp) = .ok ()) : Forward old cp := by
  rcases hold with rfl | hold
  · have hempty : treeSize [] = -1 := rfl
    have hsize := hcp.1
    refine ⟨by omega, fun heq => ?_⟩
    omega
  · rw [compareCheckpoint, if_neg (by simp [hold.isEmpty]), intField_treeSize hold.1,
      strField_rootHash] at h
    simp only [bind, Except.bind] at h
    split_ifs at h with hback hsplit
    refine ⟨not_lt.mp hback, fun hsize => ?_⟩
    have hroot : rootHash old ≠ "" := fun heq => absurd hold.2 (by rw [heq]; decide)
    by_contra hne
    exact hsplit ⟨hsize.symm, hroot, fun heq => hne heq.symm⟩

/-! ### What each call leaves -/

theorem loadAuditorState_spec (s : Session) :
    (loadAuditorState s).1 = .ok s.state ∧ (loadAuditorState s).2.state = s.state := by
  unfold loadAuditorState Session.state
  cases hmemory : s.auditorState with
  | some state => simp [hmemory]
  | none =>
    cases hlogin : s.loggedIn with
    | false => simp [hmemory, hlogin]
    | true =>
      cases hfile : s.file with
      | none => simp [hmemory, hlogin, hfile]
      | some state => simp

theorem loadAuditorState_bind {α : Type} (f : AuditorState → Method Session α) (s : Session) :
    (loadAuditorState >>= f) s = f s.state (loadAuditorState s).2 :=
  Method.bind_ok (Prod.ext (loadAuditorState_spec s).1 rfl)

@[simp] theorem state_saveAuditorState (write : Write) (state : AuditorState) (s : Session) :
    (saveAuditorState write state s).2.state = state := rfl

/-- A call of the recorder pins a checkpoint that is ahead, or raises and leaves everything. -/
theorem recordAuditorCheckpoint_cases (now : ℤ) (write : Write) (cp : Dict) (source : String)
    (userId identityVersion : ℤ) (s : Session) :
    let result := recordAuditorCheckpoint now write cp source userId identityVersion s
    (∃ e, result.1 = .error e ∧ result.2.state = s.state) ∨
      ∃ state, result.1 = .ok state ∧ result.2.state = state ∧ state.checkpoint = cp ∧
        Pinnable cp ∧ compareCheckpoint s.state.checkpoint (treeSize cp) (rootHash cp) = .ok () := by
  intro result
  by_cases hcp : treeSize cp < 0 ∨ (rootHash cp).length ≠ 64
  · left
    have hresult : result = (.error (.runtimeError "Malformed auditor checkpoint"), s) := by
      show recordAuditorCheckpoint now write cp source userId identityVersion s = _
      rw [recordAuditorCheckpoint, if_pos hcp]
      rfl
    exact ⟨_, by rw [hresult], by rw [hresult]⟩
  · have hpinnable : Pinnable cp := by
      rw [not_or, not_lt, not_not] at hcp
      exact hcp
    have hrun : result = recordAuditorCheckpoint now write cp source userId identityVersion s := rfl
    rw [recordAuditorCheckpoint, if_neg hcp, loadAuditorState_bind] at hrun
    cases hcompare : compareCheckpoint s.state.checkpoint (treeSize cp) (rootHash cp) with
    | error e =>
      left
      rw [Method.bind_error (by rw [hcompare]; rfl)] at hrun
      exact ⟨e, by rw [hrun], by rw [hrun]; exact (loadAuditorState_spec s).2⟩
    | ok _ =>
      right
      rw [Method.bind_ok (by rw [hcompare]; rfl)] at hrun
      rw [hrun]
      exact ⟨_, rfl, rfl, rfl, hpinnable, rfl⟩

/-- The handlers of the flow keep the checkpoint and the observations. -/
theorem state_noteProblem (now : ℤ) (write : Write) (problem : Problem) (s : Session) :
    (noteProblem now write problem s).2.state.checkpoint = s.state.checkpoint ∧
      (noteProblem now write problem s).2.state.observations = s.state.observations := by
  cases problem with
  | audit error errorCode =>
    rw [noteProblem, loadAuditorState_bind]
    exact ⟨rfl, rfl⟩
  | other error =>
    rw [noteProblem, loadAuditorState_bind]
    split
    · exact ⟨rfl, rfl⟩
    · rw [Method.pure_run, (loadAuditorState_spec s).2]
      exact ⟨rfl, rfl⟩

/-! ### The invariant -/

/-- What is pinned can be pinned, and is ahead of an earlier checkpoint. -/
structure Since (old : Dict) (s : Session) : Prop where
  pinnable : s.state.checkpoint = [] ∨ Pinnable s.state.checkpoint
  forward : Forward old s.state.checkpoint

variable {old : Dict} {s t : Session}

/-- The checkpoint alone counts. -/
theorem Since.of_checkpoint (h : Since old s) (heq : t.state.checkpoint = s.state.checkpoint) :
    Since old t := by
  constructor
  · rw [heq]
    exact h.pinnable
  · rw [heq]
    exact h.forward

theorem Since.load (h : Since old s) : Since old (loadAuditorState s).2 := by
  apply h.of_checkpoint
  rw [(loadAuditorState_spec s).2]

theorem Since.record (h : Since old s) (now : ℤ) (write : Write) (cp : Dict) (source : String)
    (userId identityVersion : ℤ) :
    Since old (recordAuditorCheckpoint now write cp source userId identityVersion s).2 := by
  obtain ⟨e, -, hstate⟩ | ⟨state, -, hstate, hcp, hpinnable, hcompare⟩ :=
    recordAuditorCheckpoint_cases now write cp source userId identityVersion s
  · apply h.of_checkpoint
    rw [hstate]
  · constructor
    · rw [hstate, hcp]
      exact .inr hpinnable
    · rw [hstate, hcp]
      exact h.forward.trans (forward_of_compareCheckpoint h.pinnable hpinnable hcompare)

theorem Since.verifyIdentity (h : Since old s) (a : Audit) : Since old (verifyIdentity a s).2 := by
  unfold AuditorPin.verifyIdentity
  split
  · exact h
  · next cp _ =>
    have hrecord := h.record a.now a.write cp "pqxdh_bundle" a.peerUid a.identityVersion
    split
    all_goals
      next heq =>
        rw [heq] at hrecord
        exact hrecord

theorem Since.recoverVersionMismatch (h : Since old s) (a : Audit) (problem : Problem) :
    Since old (recoverVersionMismatch a problem s) := by
  unfold AuditorPin.recoverVersionMismatch
  split
  · split
    · exact h.record ..
    · exact h
  · exact h

theorem Since.audit (h : Since old s) (a : Audit) : Since old (auditPqxdhBundleIdentity a s) := by
  unfold auditPqxdhBundleIdentity
  split
  · exact h
  · have hverify := h.load.verifyIdentity a
    split
    · next heq =>
      rw [heq] at hverify
      exact hverify
    · next problem t heq =>
      rw [heq] at hverify
      have ht : Since old t := hverify
      exact (ht.of_checkpoint (state_noteProblem a.now a.write problem t).1).recoverVersionMismatch a
        problem

/-- After a restart the file is read. -/
theorem state_restart (h : Saved s .restart) : (step s .restart).state = s.state := by
  show ((none : Option AuditorState).or (if s.loggedIn then s.file else none)).getD {} =
    (s.auditorState.or (if s.loggedIn then s.file else none)).getD {}
  rcases h with hnone | ⟨hlogin, hfile⟩
  · rw [hnone]
  · rw [hlogin, if_pos rfl, hfile, Option.none_or, Option.or_self]

theorem Since.step (h : Since old s) {e : Event} (hsaved : Saved s e) : Since old (step s e) := by
  cases e with
  | record now write cp source userId identityVersion => exact h.record ..
  | audit a => exact h.audit a
  | restart =>
    apply h.of_checkpoint
    rw [state_restart hsaved]

theorem Since.run (h : Since old s) {es : List Event} (hsaved : Runs.Each AuditorPin.step Saved s es) :
    Since old (es.foldl AuditorPin.step s) := by
  induction es generalizing s with
  | nil => exact h
  | cons e es ih => exact ih (h.step hsaved.1) hsaved.2

/-- A session before its first audit. -/
theorem since_fresh (loggedIn : Bool) : Since [] { loggedIn := loggedIn } := by
  constructor
  · cases loggedIn <;> exact .inl rfl
  · cases loggedIn <;> exact Forward.refl []

/-- **The pinned checkpoint only moves forward.**  Between any two points of a run its size does not
shrink, and at one size it has one root; a checkpoint that the recorder rejects leaves the pinned
one and the observations, and so do the handlers of the audit flow. -/
theorem pinned_forward (loggedIn : Bool) (es later : List Event)
    (hsaved : Runs.Each step Saved { loggedIn := loggedIn } (es ++ later)) :
    let s := es.foldl step { loggedIn := loggedIn }
    Forward s.state.checkpoint (later.foldl step s).state.checkpoint ∧
      (∀ now write cp source userId identityVersion e t,
        recordAuditorCheckpoint now write cp source userId identityVersion s = (.error e, t) →
          t.state.checkpoint = s.state.checkpoint ∧ t.state.observations = s.state.observations) ∧
      ∀ now write problem,
        (noteProblem now write problem s).2.state.checkpoint = s.state.checkpoint ∧
          (noteProblem now write problem s).2.state.observations = s.state.observations := by
  intro s
  rw [Runs.each_append] at hsaved
  refine ⟨?_, ?_, fun now write problem => state_noteProblem now write problem s⟩
  · have hs : Since [] s := (since_fresh loggedIn).run hsaved.1
    have hpinned : Since s.state.checkpoint s := ⟨hs.pinnable, Forward.refl _⟩
    exact (hpinned.run hsaved.2).forward
  · intro now write cp source userId identityVersion e t hrun
    obtain ⟨e', -, hstate⟩ | ⟨state, hok, -⟩ :=
      recordAuditorCheckpoint_cases now write cp source userId identityVersion s
    · rw [hrun] at hstate
      rw [show t.state = s.state from hstate]
      exact ⟨rfl, rfl⟩
    · rw [hrun] at hok
      cases hok

/-- A checkpoint is pinned and read back after a restart; a later one of the same size is rejected.
-/
theorem pinned_forward_restart :
    let cp (root : Char) : Dict :=
      [("tree_size", .int 2), ("root_hash", .str (String.ofList (List.replicate 64 root)))]
    let es : List Event := [.record 7 .written (cp 'b') "test" 3 0]
    let later : List Event := [.restart, .record 9 .written (cp 'c') "split-view" 5 0]
    Forward (es.foldl step { loggedIn := true }).state.checkpoint
      ((es ++ later).foldl step { loggedIn := true }).state.checkpoint := by
  intro cp es later
  rw [List.foldl_append]
  refine (pinned_forward true es later ⟨trivial, ?_, trivial, trivial⟩).1
  have hsize : treeSize (cp 'b') = 2 := rfl
  have hroot : (rootHash (cp 'b')).length = 64 := by decide
  right
  rw [step, recordAuditorCheckpoint, if_neg (by rw [hsize, hroot]; decide)]
  exact ⟨rfl, rfl⟩

end SecChat.AuditorPin
