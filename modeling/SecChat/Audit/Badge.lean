import SecChat.Audit.IdentityState
import SecChat.Protocol.Pqxdh
import SecChat.Protocol.TermModel

/-!
# The verified badge of a conversation

`_security_status_for_conv` combines two pieces of trust: the flag that the user set for a
conversation, and the audit state of the peer.  The events below are the ones that touch either of
them.  The verification dialog is modal but runs its own event loop, so that other events can
happen between the moment it opens and the moment the user decides.

* `App`, `AppEvent`, `App.step`: the controller's state and the events;
* `App.securityStatusForConv`: the badge;
* `badge_truthful_iff`: in which runs a `verified` badge always refers to the reviewed key.
-/

open Py

namespace SecChat

/-! ### Labels -/

/-- `AUDIT_ERROR_LABELS`. -/
def auditErrorLabels : List (String × String) :=
  [("checkpoint_malformed", "malformed checkpoint"),
    ("checkpoint_signature_invalid", "invalid checkpoint signature"),
    ("empty_root_invalid", "invalid empty tree root"),
    ("proof_index_out_of_range", "proof index out of range"),
    ("proof_malformed", "malformed inclusion proof"),
    ("proof_side_malformed", "malformed proof direction"),
    ("proof_root_mismatch", "inclusion proof root mismatch"),
    ("checkpoint_rollback", "checkpoint rollback"),
    ("checkpoint_split_view", "checkpoint split-view"),
    ("consistency_proof_malformed", "malformed consistency proof"),
    ("consistency_previous_root_mismatch", "consistency proof previous root mismatch"),
    ("consistency_new_root_mismatch", "consistency proof new root mismatch"),
    ("identity_user_mismatch", "identity proof user mismatch"),
    ("identity_version_mismatch", "identity proof version mismatch"),
    ("identity_version_not_found", "identity version not in log"),
    ("identity_key_mismatch", "identity proof key mismatch"),
    ("auditor_http_error", "auditor HTTP error"),
    ("auditor_unavailable", "auditor unavailable"),
    ("unknown", "unknown audit error")]

/-- `audit_error_label`. -/
def auditErrorLabel (code : String) : String :=
  (auditErrorLabels.lookup code).getD "unknown audit error"

/-- `audit_error_detail`. -/
def auditErrorDetail (code message : String) : String :=
  let message := message.trimAscii.toString
  if message = "" then auditErrorLabel code else auditErrorLabel code ++ ": " ++ message

/-- `audit_status_for_code`. -/
def auditStatusForCode (code : String) : AuditSession.AuditProblem :=
  if code = "auditor_unavailable" ∨ code = "auditor_http_error" then .unavailable else .mismatch

/-- `_audit_error_badge_label`. -/
def auditErrorBadgeLabel (audit : AuditState) : String :=
  let code := audit.lastErrorCode.getD ""
  if code ≠ "" then "audit " ++ auditErrorLabel code
  else if audit.status = .auditUnavailable then "audit unavailable"
  else "audit warning"

/-- `_audit_error_detail_text`. -/
def auditErrorDetailText (audit : AuditState) : String :=
  let code := audit.lastErrorCode.getD ""
  let message := audit.lastError.getD ""
  if code ≠ "" then auditErrorDetail code message else message

/-! ### The controller -/

/-- The open verification dialog: its conversation, the peer found when it opened, and the
identity key whose safety number it shows. -/
structure Dialog where
  convId : ℤ
  peerUid : ℤ
  shownPk : String

/-- What the controller keeps that the badge depends on.  `dmPeers` is the peer found in the list
of direct conversations, `0` if there is none.  The ghost `shown` is the identity key shown when
the user last marked a conversation verified. -/
structure App where
  myUid : ℤ
  identityPk : Bytes
  session : AuditSession
  convVerified : ℤ → Bool
  convPeerUids : List (ℤ × ℤ)
  convFingerprints : ℤ → String
  dmPeers : ℤ → ℤ
  groupConvIds : ℤ → Bool
  dialog : Option Dialog
  shown : ℤ → String

variable (P : Prims)

namespace App

/-- `_peer_uid_for_conv`. -/
def peerUidForConv (a : App) (convId : ℤ) : ℤ := (a.convPeerUids.lookup convId).getD (a.dmPeers convId)

/-- `load_identity_audit(peer_uid) if peer_uid else {}`. -/
def peerAudit (a : App) (convId : ℤ) : AuditState :=
  let peerUid := a.peerUidForConv convId
  if peerUid ≠ 0 then a.session.loadIdentityAudit peerUid else .initial 0

/-- `protocol_safety_fingerprint(self._identity_pk, protocol_b64d(identity_pk))`. -/
def safetyOf (a : App) (identityPk : String) : Option String :=
  match b64d identityPk with
  | .ok raw => some (safetyFingerprint P a.identityPk raw)
  | .error _ => none

/-- The safety number of the identity key in the audit state of the peer. -/
def auditFingerprint (a : App) (convId : ℤ) : Option String :=
  if 0 < a.peerUidForConv convId ∧ a.identityPk ≠ [] then
    let identityPk := (a.peerAudit convId).oldPk
    if identityPk ≠ "" then a.safetyOf P identityPk else none
  else none

/-- `_safety_fingerprint_for_conv`. -/
def safetyFingerprintForConv (a : App) (convId : ℤ) : String :=
  (a.auditFingerprint P convId).getD (a.convFingerprints convId)

/-- The fingerprint that `_safety_fingerprint_for_conv` leaves in `_conv_fingerprints`, as
`_refresh_security_ui` does for the conversation it redraws. -/
def refreshSecurityUi (a : App) (convId : ℤ) : App :=
  { a with
    convFingerprints :=
      Function.update a.convFingerprints convId (a.safetyFingerprintForConv P convId) }

/-- The controller on another session. -/
def withSession (a : App) (s : AuditSession) : App := { a with session := s }

/-- `_conv_fingerprints[conv_id] = fp`, when there is a new fingerprint. -/
def noteFingerprint (a : App) (convId : ℤ) (fp : Option String) : App :=
  { a with
    convFingerprints :=
      Function.update a.convFingerprints convId (fp.getD (a.convFingerprints convId)) }

/-- `_save_verified(conv_id, verified)`. -/
def saveVerified (a : App) (convId : ℤ) (verified : Bool) : App :=
  { a with convVerified := Function.update a.convVerified convId verified }

/-- The statuses of a badge. -/
inductive BadgeStatus
  | groupMlsPq
  | audit (status : AuditStatus)
  deriving DecidableEq, Repr

/-- What `_security_status_for_conv` returns, next to the audit state itself. -/
structure SecurityStatus where
  status : BadgeStatus
  label : String
  detail : String

/-- `_security_status_for_conv`. -/
def securityStatusForConv (a : App) (convId : ℤ) : SecurityStatus :=
  if a.groupConvIds convId then
    ⟨.groupMlsPq, "MLS PQ", "Group MLS ciphersuite: X-Wing ML-KEM-768 + X25519. " ++
      "PQ confidentiality; Ed25519 classical authentication."⟩
  else
    let audit := a.peerAudit convId
    let hasFingerprint :=
      a.safetyFingerprintForConv P convId ≠ "" ∨ a.convFingerprints convId ≠ ""
    let (status, label) :=
      if audit.status = .keyChanged then (audit.status, "key changed")
      else if audit.status = .auditMismatch then (audit.status, auditErrorBadgeLabel audit)
      else if audit.status = .auditUnavailable then (audit.status, auditErrorBadgeLabel audit)
      else if a.convVerified convId then (.verified, "verified")
      else if audit.status = .reviewedUnverified then (audit.status, "unverified")
      else if hasFingerprint then (.unverified, "verify")
      else (audit.status, "verify")
    ⟨.audit status, label, auditErrorDetailText audit⟩

/-! ### The events -/

/-- How `verify_identity_from_auditor` and `record_auditor_checkpoint` end: with a proof; with an
`AuditError`, possibly repaired by a proof for the version in the log; or with another exception. -/
inductive AuditOutcome
  | ok (checkpoint : Json) (leaf : List (String × Json))
  | auditError (code message : String) (recovered : Option (ℤ × Json × List (String × Json)))
  | unavailable (message : String)

/-- The recorder that `_audit_pqxdh_bundle_identity` ends in. -/
def auditCall (now userId : ℤ) (identityPk : String) (identityVersion : ℤ) (safety : String) :
    AuditOutcome → Call
  | .ok checkpoint leaf => .ok now userId identityPk identityVersion safety checkpoint leaf
  | .auditError code message recovered =>
      match recovered with
      | some (version, checkpoint, leaf) =>
          -- `_recover_identity_audit_version_mismatch` only looks at these two codes
          if code = "identity_version_mismatch" ∨ code = "identity_version_not_found" then
            .ok now userId identityPk version safety checkpoint leaf
          else
            .problem now userId identityPk identityVersion safety (auditStatusForCode code) message code
      | none =>
          .problem now userId identityPk identityVersion safety (auditStatusForCode code) message code
  | .unavailable message =>
      .problem now userId identityPk identityVersion safety .unavailable
        ("Auditor is unavailable: " ++ message) "auditor_unavailable"

/-- The safety number of the key in a bundle. -/
def bundleSafety (a : App) (identityPk : String) : Option String :=
  if a.identityPk ≠ [] ∧ identityPk ≠ "" then a.safetyOf P identityPk else none

/-- `_audit_pqxdh_bundle_identity`. -/
def auditPqxdhBundleIdentity (a : App) (now convId userId : ℤ) (identityPk : String)
    (identityVersion : ℤ) (outcome : AuditOutcome) : App :=
  if userId ≤ 0 then a
  else
    let safety := a.bundleSafety P identityPk
    let call := auditCall now userId identityPk identityVersion (safety.getD "") outcome
    refreshSecurityUi P
      ((a.noteFingerprint convId safety).withSession (call.apply a.session)) convId

/-- The part of an accepted `S3PQI` that says who the peer is. -/
def linkPeer (a : App) (convId peerUid : ℤ) (fingerprint : String) : App :=
  { a with
    convPeerUids := (convId, peerUid) :: a.convPeerUids
    convFingerprints := Function.update a.convFingerprints convId fingerprint }

/-- What `decrypt_live_message` and `decrypt_history_messages` do with an accepted `S3PQI`. -/
def acceptPqInit (a : App) (now convId peerUid : ℤ) (identityPk : String)
    (identityVersion : Option ℤ) (fingerprint : String) : App :=
  let a := a.linkPeer convId peerUid fingerprint
  if identityPk ≠ "" then
    a.withSession (a.session.recordIdentitySeenUnverified now peerUid identityPk identityVersion
      fingerprint "pqxdh_initial")
  else a

/-- `_record_incoming_pq_identity`, for the result of an accepted `S3PQI`. -/
def recordIncomingPqIdentity (a : App) (now convId peerUid : ℤ) (identityPk : String)
    (identityVersion : Option ℤ) (fingerprint : String) (outcome : AuditOutcome) : App :=
  if peerUid ≤ 0 ∨ identityPk = "" then a
  else
    let safety := (a.safetyOf P identityPk).getD fingerprint
    let a := a.noteFingerprint convId (a.safetyOf P identityPk)
    match identityVersion with
    | none =>
        refreshSecurityUi P
          (a.withSession (a.session.recordIdentitySeenUnverified now peerUid identityPk none safety
            "pqxdh_initial")) convId
    | some version =>
        refreshSecurityUi P
          (auditPqxdhBundleIdentity P a now convId peerUid identityPk version outcome) convId

/-- What a change notice does for one of the conversations with the contact. -/
def identityChangedIn (now uid : ℤ) (identityPk : String) (identityVersion : ℤ) (a : App)
    (convId : ℤ) : App :=
  let a := a.saveVerified convId false
  let a :=
    if identityPk = "" then a
    else
      let safety := (a.safetyOf P identityPk).getD ""
      let old := a.session.loadIdentityAudit uid
      a.withSession (a.session.saveIdentityAudit uid { old with
        status := .keyChanged
        identityPk := some identityPk
        identityVersion := some identityVersion
        safetyNumber := some safety
        history := lastTwenty (old.history ++ [{
          seenAt := now
          eventType := .str "rotation"
          identityVersion := identityVersion
          identityPk := identityPk
          safetyNumber := safety
          deviceLabel := .str "primary device"
          createdAt := .str ""
          verifiedAfterChange := false
          error := none }])
        lastError := some "Safety number changed and needs review."
        lastErrorCode := some "" })
  a.refreshSecurityUi P convId

/-- The conversations that `_conv_peer_uids` maps to a user. -/
def convsWith (a : App) (uid : ℤ) : List ℤ :=
  (a.convPeerUids.map Prod.fst).dedup.filter fun c => a.convPeerUids.lookup c = some uid

/-- `_handle_identity_changed`. -/
def handleIdentityChanged (a : App) (now uid : ℤ) (identityPk : String) (identityVersion : ℤ) :
    App :=
  if uid ≤ 0 ∨ uid = a.myUid then a
  else (a.convsWith uid).foldl (identityChangedIn P now uid identityPk identityVersion) a

/-- The first half of `_show_verify_dialog`, up to `dlg.exec_()`. -/
def openVerifyDialog (a : App) (convId : ℤ) : App :=
  if a.dialog.isSome ∨ a.groupConvIds convId ∨ a.safetyFingerprintForConv P convId = "" then a
  else
    { refreshSecurityUi P a convId with
      dialog := some ⟨convId, a.peerUidForConv convId, (a.peerAudit convId).oldPk⟩ }

/-- The user's answers. -/
inductive Choice
  | markVerified
  | continueUnverified
  | cancel
  deriving DecidableEq, Repr

/-- `_save_verified(conv_id, True)`; the ghost remembers which key the dialog showed. -/
def markShown (a : App) (d : Dialog) : App :=
  { a.saveVerified d.convId true with shown := Function.update a.shown d.convId d.shownPk }

/-- The second half of `_show_verify_dialog`. -/
def closeVerifyDialog (a : App) (now : ℤ) (choice : Choice) : App :=
  match a.dialog with
  | none => a
  | some d =>
    let a := { a with dialog := none }
    let reviewed (verified : Bool) :=
      if d.peerUid ≠ 0 then a.session.markIdentityReviewed now d.peerUid verified else a.session
    match choice with
    | .markVerified => refreshSecurityUi P ((a.markShown d).withSession (reviewed true)) d.convId
    | .continueUnverified =>
        refreshSecurityUi P ((a.saveVerified d.convId false).withSession (reviewed false)) d.convId
    | .cancel => a

end App

/-- The events that touch the identity of a contact. -/
inductive AppEvent
  | pqInit (now convId peerUid : ℤ) (identityPk : String) (identityVersion : Option ℤ)
      (fingerprint : String)
  | incoming (now convId peerUid : ℤ) (identityPk : String) (identityVersion : Option ℤ)
      (fingerprint : String) (outcome : App.AuditOutcome)
  | bundle (now convId userId : ℤ) (identityPk : String) (identityVersion : ℤ)
      (outcome : App.AuditOutcome)
  | identityChanged (now userId : ℤ) (identityPk : String) (identityVersion : ℤ)
  | openDialog (convId : ℤ)
  | closeDialog (now : ℤ) (choice : App.Choice)

namespace App

/-- One event. -/
def step (a : App) : AppEvent → App
  | .pqInit now c u pk v fp => a.acceptPqInit now c u pk v fp
  | .incoming now c u pk v fp outcome => a.recordIncomingPqIdentity P now c u pk v fp outcome
  | .bundle now c u pk v outcome => a.auditPqxdhBundleIdentity P now c u pk v outcome
  | .identityChanged now u pk v => a.handleIdentityChanged P now u pk v
  | .openDialog c => a.openVerifyDialog P c
  | .closeDialog now choice => a.closeVerifyDialog P now choice

end App

/-! ### What the badge shows -/

theorem safetyFingerprint_ne_empty (x y : Bytes) : safetyFingerprint P x y ≠ "" := by
  intro h
  have hlen := congrArg String.toList h
  simp [safetyFingerprint, List.range_succ] at hlen

namespace App

/-- `has_fingerprint`. -/
def HasFingerprint (a : App) (c : ℤ) : Prop :=
  a.safetyFingerprintForConv P c ≠ "" ∨ a.convFingerprints c ≠ ""

theorem hasFingerprint_iff (a : App) (c : ℤ) :
    a.HasFingerprint P c ↔ (a.auditFingerprint P c).isSome ∨ a.convFingerprints c ≠ "" := by
  unfold HasFingerprint safetyFingerprintForConv
  cases h : a.auditFingerprint P c with
  | none => simp
  | some fp =>
    have hfp : fp ≠ "" := by
      unfold auditFingerprint safetyOf at h
      split at h
      · simp only [ne_eq, ite_not] at h
        split at h
        · cases h
        · split at h
          · rw [← Option.some.inj h]
            exact safetyFingerprint_ne_empty P _ _
          · cases h
      · cases h
    simp [hfp]

/-- The badge says `verified`. -/
def Shows (a : App) (c : ℤ) : Prop := (a.securityStatusForConv P c).status = .audit .verified

/-- Either the user's flag is set and no warning is stored; or the flag is not set, the audit state
itself says `verified`, and there is no fingerprint. -/
theorem shows_iff (a : App) (c : ℤ) :
    a.Shows P c ↔ a.groupConvIds c = false ∧ ¬ (a.peerAudit c).status.Warns ∧
      (a.convVerified c = true ∨ (a.peerAudit c).status = .verified ∧ ¬ a.HasFingerprint P c) := by
  unfold Shows securityStatusForConv
  by_cases hg : a.groupConvIds c = true
  · simp [hg]
  by_cases hfp : a.HasFingerprint P c
  · have hfp' := hfp
    unfold HasFingerprint at hfp'
    cases hs : (a.peerAudit c).status <;> cases hv : a.convVerified c <;>
      simp [hg, hs, hfp, hfp', AuditStatus.Warns]
  · have hfp' := hfp
    unfold HasFingerprint at hfp'
    cases hs : (a.peerAudit c).status <;> cases hv : a.convVerified c <;>
      simp [hg, hs, hfp, hfp', AuditStatus.Warns]

/-- A `verified` badge stands for the key that was shown to the user. -/
def TruthfulAt (a : App) (c : ℤ) : Prop :=
  a.Shows P c → sameIdentityKey (a.peerAudit c).oldPk (a.shown c) = true

theorem truthfulAt_of_warns {a : App} {c : ℤ} (h : (a.peerAudit c).status.Warns) :
    a.TruthfulAt P c := by
  intro hs
  exact absurd h ((a.shows_iff P c).mp hs).2.1

/-- Another state in which the badge of `c` rests on the same facts, with at least as many
fingerprints. -/
theorem TruthfulAt.congr {a b : App} {c : ℤ} (h : a.TruthfulAt P c)
    (hgroup : b.groupConvIds c = a.groupConvIds c)
    (hflag : b.convVerified c = true → a.convVerified c = true)
    (haudit : b.peerAudit c = a.peerAudit c) (hshown : b.shown c = a.shown c)
    (hfp : a.HasFingerprint P c → b.HasFingerprint P c) : b.TruthfulAt P c := by
  intro hs
  rw [shows_iff, hgroup, haudit] at hs
  rw [haudit, hshown]
  refine h ((a.shows_iff P c).mpr ⟨hs.1, hs.2.1, ?_⟩)
  rcases hs.2.2 with hv | ⟨hv, hno⟩
  · exact .inl (hflag hv)
  · exact .inr ⟨hv, fun hf => hno (hfp hf)⟩

/-- Redrawing does not change what the badge of a conversation rests on. -/
theorem hasFingerprint_refresh (a : App) (c' c : ℤ) :
    (a.refreshSecurityUi P c').HasFingerprint P c ↔ a.HasFingerprint P c := by
  have haudit : (a.refreshSecurityUi P c').auditFingerprint P c = a.auditFingerprint P c := rfl
  rw [hasFingerprint_iff, hasFingerprint_iff, haudit]
  by_cases hc : c = c'
  · subst hc
    simp only [refreshSecurityUi, safetyFingerprintForConv, Function.update_self]
    cases h : a.auditFingerprint P c <;> simp
  · simp [refreshSecurityUi, Function.update_of_ne hc]

theorem truthfulAt_refresh (a : App) (c' c : ℤ) :
    (a.refreshSecurityUi P c').TruthfulAt P c ↔ a.TruthfulAt P c := by
  constructor
  · exact fun h => h.congr P rfl id rfl rfl (hasFingerprint_refresh P a c' c).mp
  · exact fun h => h.congr P rfl id rfl rfl (hasFingerprint_refresh P a c' c).mpr

/-! ### Recording and reviewing -/

/-- No fingerprint can be computed from the key of the user. -/
def Unprintable (a : App) (u : ℤ) (pk : String) : Prop :=
  ¬ (0 < u ∧ a.identityPk ≠ [] ∧ pk ≠ "" ∧ (a.safetyOf P pk).isSome)

/-- The condition on recording the key `pk` for `u` without a problem.  When the comparison of the
recorder sees no change, and the stored status is not `key_changed`, then the key is the one that
was shown for every conversation with `u` that the user marked. -/
def Attends (a : App) (u : ℤ) (pk : String) (v : Option ℤ) : Prop :=
  let old := a.session.loadIdentityAudit u
  ∀ c, a.groupConvIds c = false → a.peerUidForConv c = u →
    old.changed pk = false → old.rollback v = false → old.status ≠ .keyChanged →
    a.convVerified c = true ∨
      old.status = .verified ∧ a.convFingerprints c = "" ∧ a.Unprintable P u pk →
    sameIdentityKey pk (a.shown c) = true

/-- The condition on a call of a recorder. -/
def AttendsCall (a : App) : Call → Prop
  | .ok _ u pk v _ _ _ => a.Attends P u pk (some v)
  | .seen _ u pk v _ _ => a.Attends P u pk v
  | .problem .. => True
  | .reviewed .. => True

theorem hasFingerprint_iff_printable (a : App) (c : ℤ) :
    a.HasFingerprint P c ↔
      ¬ a.Unprintable P (a.peerUidForConv c) (a.peerAudit c).oldPk ∨ a.convFingerprints c ≠ "" := by
  rw [hasFingerprint_iff]
  refine or_congr_left ?_
  unfold auditFingerprint Unprintable
  by_cases hu : 0 < a.peerUidForConv c ∧ a.identityPk ≠ []
  · by_cases hpk : (a.peerAudit c).oldPk = "" <;> simp [hu, hpk, Option.isSome_iff_ne_none]
  · simp only [hu, if_false, Option.isSome_none, Bool.false_eq_true, not_not, false_iff]
    exact fun h => hu ⟨h.1, h.2.1⟩

theorem nextStatus_eq_verified_iff (old : AuditState) (pk : String) (v : Option ℤ) :
    old.nextStatus pk v = .verified ↔
      old.changed pk = false ∧ old.rollback v = false ∧ old.status = .verified := by
  unfold AuditState.nextStatus
  cases hc : old.changed pk <;> cases hr : old.rollback v <;> cases hs : old.status <;> simp

theorem peerAudit_of_ne (a : App) {c : ℤ} (h : a.peerUidForConv c ≠ 0) :
    a.peerAudit c = a.session.loadIdentityAudit (a.peerUidForConv c) := by
  unfold peerAudit
  simp only [ne_eq, h, not_false_eq_true, if_true]

section withSession

variable (a : App) (s : AuditSession) (c : ℤ)

@[simp] theorem withSession_session : (a.withSession s).session = s := rfl
@[simp] theorem withSession_groupConvIds : (a.withSession s).groupConvIds = a.groupConvIds := rfl
@[simp] theorem withSession_convVerified : (a.withSession s).convVerified = a.convVerified := rfl
@[simp] theorem withSession_convFingerprints :
    (a.withSession s).convFingerprints = a.convFingerprints := rfl
@[simp] theorem withSession_shown : (a.withSession s).shown = a.shown := rfl
@[simp] theorem withSession_peerUidForConv :
    (a.withSession s).peerUidForConv c = a.peerUidForConv c := rfl
@[simp] theorem withSession_unprintable :
    (a.withSession s).Unprintable P = a.Unprintable P := rfl

end withSession

/-- A session in which only the state of `u` may have changed leaves the badges of the
conversations with others alone. -/
theorem truthfulAt_session {a : App} {s : AuditSession} {u c : ℤ}
    (hframe : ∀ w, w ≠ u → s.loadIdentityAudit w = a.session.loadIdentityAudit w)
    (hc : a.peerUidForConv c = 0 ∨ a.peerUidForConv c ≠ u) :
    (a.withSession s).TruthfulAt P c ↔ a.TruthfulAt P c := by
  have haudit : (a.withSession s).peerAudit c = a.peerAudit c := by
    rcases hc with hc | hc
    · simp [peerAudit, hc]
    · simp only [peerAudit, withSession_peerUidForConv, withSession_session, hframe _ hc]
  have hfp : (a.withSession s).HasFingerprint P c ↔ a.HasFingerprint P c := by
    simp only [hasFingerprint_iff_printable, haudit, withSession_unprintable,
      withSession_peerUidForConv, withSession_convFingerprints]
  constructor
  · exact fun h => h.congr P rfl id haudit.symm rfl hfp.mp
  · exact fun h => h.congr P rfl id haudit rfl hfp.mpr

/-- The badge of a conversation with `u`, after the key `pk` was recorded for `u`. -/
theorem truthfulAt_recorded {a : App} {s : AuditSession} {u c : ℤ} {pk : String} {v : Option ℤ}
    (hu : u ≠ 0) (hc : a.peerUidForConv c = u)
    (hstatus : (s.loadIdentityAudit u).status = (a.session.loadIdentityAudit u).nextStatus pk v)
    (hpk : (s.loadIdentityAudit u).identityPk = some pk) :
    (a.withSession s).TruthfulAt P c ↔
      (a.groupConvIds c = false →
        (a.session.loadIdentityAudit u).changed pk = false →
        (a.session.loadIdentityAudit u).rollback v = false →
        (a.session.loadIdentityAudit u).status ≠ .keyChanged →
        a.convVerified c = true ∨ (a.session.loadIdentityAudit u).status = .verified ∧
          a.convFingerprints c = "" ∧ a.Unprintable P u pk →
        sameIdentityKey pk (a.shown c) = true) := by
  subst hc
  have haudit : (a.withSession s).peerAudit c = s.loadIdentityAudit (a.peerUidForConv c) :=
    (a.withSession s).peerAudit_of_ne hu
  have hold : (s.loadIdentityAudit (a.peerUidForConv c)).oldPk = pk := congrArg (·.getD "") hpk
  unfold TruthfulAt
  rw [shows_iff, hasFingerprint_iff_printable, haudit, hold, hstatus,
    AuditState.nextStatus_warns_iff, nextStatus_eq_verified_iff]
  simp only [withSession_groupConvIds, withSession_convVerified, withSession_unprintable,
    withSession_peerUidForConv, withSession_convFingerprints, withSession_shown, not_or, not_not,
    Bool.not_eq_true, ne_eq]
  generalize sameIdentityKey pk (a.shown c) = same
  generalize (a.session.loadIdentityAudit (a.peerUidForConv c)).changed pk = changed
  tauto

/-- The badge of a conversation with `u`, after the user reviewed `u`. -/
theorem truthfulAt_reviewed {a : App} {s : AuditSession} {u c : ℤ} {verified : Bool}
    (hu : u ≠ 0) (hc : a.peerUidForConv c = u)
    (hstatus : (s.loadIdentityAudit u).status =
      if verified then .verified else .reviewedUnverified)
    (hpk : (s.loadIdentityAudit u).identityPk = (a.session.loadIdentityAudit u).identityPk) :
    (a.withSession s).TruthfulAt P c ↔
      (a.groupConvIds c = false →
        a.convVerified c = true ∨ verified = true ∧ ¬ a.HasFingerprint P c →
        sameIdentityKey (a.session.loadIdentityAudit u).oldPk (a.shown c) = true) := by
  subst hc
  have haudit : (a.withSession s).peerAudit c = s.loadIdentityAudit (a.peerUidForConv c) :=
    (a.withSession s).peerAudit_of_ne hu
  have hold : (s.loadIdentityAudit (a.peerUidForConv c)).oldPk =
      (a.session.loadIdentityAudit (a.peerUidForConv c)).oldPk := congrArg (·.getD "") hpk
  unfold TruthfulAt
  rw [shows_iff, hasFingerprint_iff_printable, hasFingerprint_iff_printable, haudit,
    a.peerAudit_of_ne hu, hold, hstatus]
  cases verified <;> simp [AuditStatus.Warns]

/-- Recording an identity of `u`: the badges of the conversations with `u` stay truthful exactly
under the condition on the call. -/
theorem truthful_call (a : App) (call : Call) (hu : call.userId ≠ 0)
    (hcall : call.identity?.isSome) :
    (∀ c, (a.withSession (call.apply a.session)).TruthfulAt P c) ↔
      (∀ c, a.peerUidForConv c ≠ call.userId → a.TruthfulAt P c) ∧ a.AttendsCall P call := by
  have hframe : ∀ w, w ≠ call.userId →
      (call.apply a.session).loadIdentityAudit w = a.session.loadIdentityAudit w :=
    fun w hw => call.apply_frame a.session hw
  have hsplit : (∀ c, (a.withSession (call.apply a.session)).TruthfulAt P c) ↔
      (∀ c, a.peerUidForConv c ≠ call.userId → a.TruthfulAt P c) ∧
        ∀ c, a.peerUidForConv c = call.userId →
          (a.withSession (call.apply a.session)).TruthfulAt P c := by
    constructor
    · exact fun h => ⟨fun c hc => (truthfulAt_session P hframe (.inr hc)).mp (h c), fun c _ => h c⟩
    · rintro ⟨hne, heq⟩ c
      by_cases hc : a.peerUidForConv c = call.userId
      · exact heq c hc
      · exact (truthfulAt_session P hframe (.inr hc)).mpr (hne c hc)
  rw [hsplit]
  refine and_congr_right fun _ => ?_
  cases call with
  | ok now u pk v safety checkpoint leaf =>
    have hst := a.session.load_recordIdentityAuditOk now u pk v safety checkpoint leaf
    have hat := fun c (hc : a.peerUidForConv c = u) =>
      truthfulAt_recorded P  hu hc hst.1 hst.2
    exact ⟨fun h c hg hc => (hat c hc).mp (h c hc) hg, fun h c hc => (hat c hc).mpr fun hg => h c hg hc⟩
  | seen now u pk v safety eventType =>
    have hst := a.session.load_recordIdentitySeenUnverified now u pk v safety eventType
    have hat := fun c (hc : a.peerUidForConv c = u) =>
      truthfulAt_recorded P  hu hc hst.1 hst.2
    exact ⟨fun h c hg hc => (hat c hc).mp (h c hc) hg, fun h c hc => (hat c hc).mpr fun hg => h c hg hc⟩
  | problem now u pk v safety p error errorCode =>
    have hst := a.session.load_recordIdentityAuditProblem now u pk v safety p error errorCode
    refine iff_of_true (fun c hc => truthfulAt_of_warns P ?_) trivial
    rw [peerAudit_of_ne _ (by rw [withSession_peerUidForConv, hc]; exact hu)]
    rw [withSession_peerUidForConv, hc, withSession_session]
    exact hst.1 ▸ AuditProblem.status_warns p
  | reviewed now u verified => cases hcall

/-! ### The condition on an event -/

/-- The condition on the end of `_audit_pqxdh_bundle_identity`. -/
def AttendsBundle (a : App) (now c u : ℤ) (pk : String) (v : ℤ) (outcome : AuditOutcome) : Prop :=
  0 < u → (a.noteFingerprint c (a.bundleSafety P pk)).AttendsCall P
    (auditCall now u pk v ((a.bundleSafety P pk).getD "") outcome)

/-- The condition on a review of `u`: the key stored for `u` is the one shown for every conversation
with `u` whose badge the review turns on. -/
def Reviews (a : App) (u : ℤ) (verified : Bool) : Prop :=
  ∀ c, a.groupConvIds c = false → a.peerUidForConv c = u →
    a.convVerified c = true ∨ verified = true ∧ ¬ a.HasFingerprint P c →
    sameIdentityKey (a.session.loadIdentityAudit u).oldPk (a.shown c) = true

/-- The condition on an event. -/
def Attentive (a : App) : AppEvent → Prop
  | .pqInit _ c u pk v fp =>
      if pk ≠ "" ∧ u ≠ 0 then (a.linkPeer c u fp).Attends P u pk v
      else (a.linkPeer c u fp).TruthfulAt P c
  | .incoming now c u pk v _ outcome =>
      0 < u → pk ≠ "" →
        match v with
        | none => (a.noteFingerprint c (a.safetyOf P pk)).Attends P u pk none
        | some v => (a.noteFingerprint c (a.safetyOf P pk)).AttendsBundle P now c u pk v outcome
  | .bundle now c u pk v outcome => a.AttendsBundle P now c u pk v outcome
  | .identityChanged .. => True
  | .openDialog _ => True
  | .closeDialog _ .markVerified =>
      ∀ d, a.dialog = some d →
        ((a.markShown d).peerUidForConv d.convId = 0 ∨
          (a.markShown d).peerUidForConv d.convId ≠ d.peerUid →
            (a.markShown d).TruthfulAt P d.convId) ∧
        (d.peerUid ≠ 0 → (a.markShown d).Reviews P d.peerUid true)
  | .closeDialog _ .continueUnverified =>
      ∀ d, a.dialog = some d → d.peerUid ≠ 0 → (a.saveVerified d.convId false).Reviews P d.peerUid false
  | .closeDialog _ .cancel => True

/-! ### The events, one by one -/

/-- A new fingerprint never takes one away. -/
theorem truthfulAt_noteFingerprint {a : App} {c' c : ℤ} {fp : Option String}
    (hfp : ∀ x, fp = some x → x ≠ "") (h : a.TruthfulAt P c) :
    (a.noteFingerprint c' fp).TruthfulAt P c := by
  refine h.congr P rfl id rfl rfl ?_
  have haudit : (a.noteFingerprint c' fp).auditFingerprint P c = a.auditFingerprint P c := rfl
  rw [hasFingerprint_iff, hasFingerprint_iff, haudit]
  refine Or.imp_right fun hne => ?_
  by_cases hc : c = c'
  · subst hc
    cases fp with
    | none => simpa [noteFingerprint] using hne
    | some x => simpa [noteFingerprint] using hfp x rfl
  · simpa [noteFingerprint, Function.update_of_ne hc] using hne

theorem safetyOf_ne_empty (a : App) (pk x : String) (h : a.safetyOf P pk = some x) : x ≠ "" := by
  unfold safetyOf at h
  split at h
  · rw [← Option.some.inj h]
    exact safetyFingerprint_ne_empty P _ _
  · cases h

theorem bundleSafety_ne_empty (a : App) (pk x : String) (h : a.bundleSafety P pk = some x) :
    x ≠ "" := by
  unfold bundleSafety at h
  split at h
  · exact a.safetyOf_ne_empty P pk x h
  · cases h

theorem auditCall_userId (now u : ℤ) (pk : String) (v : ℤ) (safety : String)
    (outcome : AuditOutcome) :
    (auditCall now u pk v safety outcome).userId = u ∧
      (auditCall now u pk v safety outcome).identity?.isSome := by
  unfold auditCall
  split
  · exact ⟨rfl, rfl⟩
  · split
    · split <;> exact ⟨rfl, rfl⟩
    · exact ⟨rfl, rfl⟩
  · exact ⟨rfl, rfl⟩

theorem truthful_bundle {a : App} (h : ∀ c, a.TruthfulAt P c) (now c' u : ℤ) (pk : String) (v : ℤ)
    (outcome : AuditOutcome) :
    (∀ c, (a.auditPqxdhBundleIdentity P now c' u pk v outcome).TruthfulAt P c) ↔
      a.AttendsBundle P now c' u pk v outcome := by
  unfold auditPqxdhBundleIdentity AttendsBundle
  by_cases hu : u ≤ 0
  · simp only [hu, if_true]
    exact iff_of_true h fun hpos => absurd hpos (by omega)
  · obtain ⟨hid, hcall⟩ := auditCall_userId now u pk v ((a.bundleSafety P pk).getD "") outcome
    simp only [hu, if_false, truthfulAt_refresh]
    have hb := truthful_call P (a.noteFingerprint c' (a.bundleSafety P pk)) _
      (by rw [hid]; omega) hcall
    refine hb.trans ?_
    have hnote : ∀ c, (a.noteFingerprint c' (a.bundleSafety P pk)).TruthfulAt P c :=
      fun c => truthfulAt_noteFingerprint P (a.bundleSafety_ne_empty P pk) (h c)
    exact ⟨fun hc _ => hc.2, fun hc => ⟨fun c _ => hnote c, hc (by omega)⟩⟩

theorem truthful_incoming {a : App} (h : ∀ c, a.TruthfulAt P c) (now c' u : ℤ) (pk : String)
    (v : Option ℤ) (fp : String) (outcome : AuditOutcome) :
    (∀ c, (a.recordIncomingPqIdentity P now c' u pk v fp outcome).TruthfulAt P c) ↔
      a.Attentive P (.incoming now c' u pk v fp outcome) := by
  have hnote : ∀ c, (a.noteFingerprint c' (a.safetyOf P pk)).TruthfulAt P c :=
    fun c => truthfulAt_noteFingerprint P (a.safetyOf_ne_empty P pk) (h c)
  unfold recordIncomingPqIdentity Attentive
  by_cases hu : u ≤ 0 ∨ pk = ""
  · simp only [hu, if_true]
    refine iff_of_true h fun hpos hpk => ?_
    rcases hu with hu | hu
    · omega
    · exact absurd hu hpk
  · have hu' := hu
    rw [not_or] at hu'
    simp only [hu, if_false]
    cases v with
    | none =>
      simp only [truthfulAt_refresh]
      have hcall := truthful_call P (a.noteFingerprint c' (a.safetyOf P pk))
        (.seen now u pk none ((a.safetyOf P pk).getD fp) "pqxdh_initial") (by show u ≠ 0; omega) rfl
      refine hcall.trans ?_
      exact ⟨fun hc _ _ => hc.2, fun hc => ⟨fun c _ => hnote c, hc (by omega) hu'.2⟩⟩
    | some v =>
      simp only [truthfulAt_refresh]
      rw [truthful_bundle P hnote]
      exact ⟨fun hc _ _ => hc, fun hc => hc (by omega) hu'.2⟩

theorem peerUidForConv_linkPeer (a : App) (c' u c : ℤ) (fp : String) :
    (a.linkPeer c' u fp).peerUidForConv c = if c = c' then u else a.peerUidForConv c := by
  unfold peerUidForConv linkPeer
  by_cases hc : c = c'
  · simp [hc]
  · simp [List.lookup_cons, hc, beq_eq_false_iff_ne.mpr hc]

/-- Linking a conversation to a peer leaves the other conversations alone. -/
theorem truthfulAt_linkPeer {a : App} {c' c : ℤ} (u : ℤ) (fp : String) (hc : c ≠ c')
    (h : a.TruthfulAt P c) : (a.linkPeer c' u fp).TruthfulAt P c := by
  have hpeer : (a.linkPeer c' u fp).peerUidForConv c = a.peerUidForConv c := by
    rw [peerUidForConv_linkPeer, if_neg hc]
  have haudit : (a.linkPeer c' u fp).peerAudit c = a.peerAudit c := by
    simp only [peerAudit, hpeer]
    rfl
  refine h.congr P rfl id haudit rfl ?_
  have hun : (a.linkPeer c' u fp).Unprintable P = a.Unprintable P := rfl
  have hφ : (a.linkPeer c' u fp).convFingerprints c = a.convFingerprints c :=
    Function.update_of_ne hc _ _
  rw [hasFingerprint_iff_printable, hasFingerprint_iff_printable, hpeer, haudit, hun, hφ]
  exact id

theorem truthful_pqInit {a : App} (h : ∀ c, a.TruthfulAt P c) (now c' u : ℤ) (pk : String)
    (v : Option ℤ) (fp : String) :
    (∀ c, (a.acceptPqInit now c' u pk v fp).TruthfulAt P c) ↔
      a.Attentive P (.pqInit now c' u pk v fp) := by
  have hothers : ∀ c, c ≠ c' → (a.linkPeer c' u fp).TruthfulAt P c :=
    fun c hc => truthfulAt_linkPeer P u fp hc (h c)
  have hall : (∀ c, (a.linkPeer c' u fp).TruthfulAt P c) ↔ (a.linkPeer c' u fp).TruthfulAt P c' :=
    ⟨fun h => h c', fun h c => if hc : c = c' then hc ▸ h else hothers c hc⟩
  unfold acceptPqInit Attentive
  by_cases hpk : pk = ""
  · simpa [hpk] using hall
  by_cases hu : u = 0
  · -- the state recorded for user `0` is never read
    simp only [hpk, hu, ne_eq, not_true_eq_false, not_false_eq_true, and_false, if_true, if_false]
    rw [hu] at hall
    rw [← hall]
    refine forall_congr' fun c => truthfulAt_session P (u := 0) ?_ (eq_or_ne _ _)
    exact fun w hw => AuditSession.load_save_of_ne _ _ hw
  · simp only [hpk, hu, ne_eq, not_false_eq_true, and_true, if_true]
    refine (truthful_call P (a.linkPeer c' u fp) (.seen now u pk v fp "pqxdh_initial") hu rfl).trans ?_
    refine ⟨fun hc => hc.2, fun hc => ⟨fun c hne => hothers c ?_, hc⟩⟩
    rintro rfl
    exact hne (by rw [peerUidForConv_linkPeer, if_pos rfl]; rfl)

/-- Taking the user's flag away turns no badge on that was off. -/
theorem truthfulAt_unverify {a : App} {c' c : ℤ} (h : a.TruthfulAt P c) :
    (a.saveVerified c' false).TruthfulAt P c := by
  refine h.congr P rfl ?_ rfl rfl id
  intro hv
  by_cases hc : c = c'
  · subst hc
    simp [saveVerified] at hv
  · simpa [saveVerified, Function.update_of_ne hc] using hv

theorem truthful_identityChangedIn {a : App} (h : ∀ c, a.TruthfulAt P c) {u : ℤ} (hu : u ≠ 0)
    (now : ℤ) (pk : String) (v c' : ℤ) :
    ∀ c, (identityChangedIn P now u pk v a c').TruthfulAt P c := by
  intro c
  have hflag : (a.saveVerified c' false).TruthfulAt P c := truthfulAt_unverify P (h c)
  unfold identityChangedIn
  rw [truthfulAt_refresh]
  split
  · exact hflag
  · by_cases hc : a.peerUidForConv c = u
    · -- the stored status is `key_changed` now
      apply truthfulAt_of_warns
      rw [peerAudit_of_ne _ (by rw [withSession_peerUidForConv]; exact hc.trans_ne hu)]
      rw [withSession_peerUidForConv, withSession_session,
        show (a.saveVerified c' false).peerUidForConv c = u from hc, AuditSession.load_save_self]
      exact .inl rfl
    · have hc' : (a.saveVerified c' false).peerUidForConv c ≠ u := hc
      refine (truthfulAt_session P ?_ (.inr hc')).mpr hflag
      exact fun w hw => AuditSession.load_save_of_ne _ _ hw

theorem truthful_identityChanged {a : App} (h : ∀ c, a.TruthfulAt P c) (now u : ℤ) (pk : String)
    (v : ℤ) : ∀ c, (a.handleIdentityChanged P now u pk v).TruthfulAt P c := by
  unfold handleIdentityChanged
  split
  · exact h
  · next hu =>
    have hu0 : u ≠ 0 := by
      rintro rfl
      exact hu (.inl le_rfl)
    -- the notice is handled conversation by conversation
    generalize a.convsWith u = convs
    clear hu
    induction convs generalizing a with
    | nil => exact h
    | cons c' convs ih => exact ih (truthful_identityChangedIn P h hu0 now pk v c')

theorem truthful_openDialog {a : App} (h : ∀ c, a.TruthfulAt P c) (c' : ℤ) :
    ∀ c, (a.openVerifyDialog P c').TruthfulAt P c := by
  intro c
  unfold openVerifyDialog
  split
  · exact h c
  · have hr := (truthfulAt_refresh P a c' c).mpr (h c)
    exact hr.congr P rfl id rfl rfl id

/-- A review of `u`: the badges of the conversations with `u` stay truthful exactly under its
condition. -/
theorem truthful_reviewed (a : App) {u : ℤ} (hu : u ≠ 0) (now : ℤ) (verified : Bool) :
    (∀ c, (a.withSession (a.session.markIdentityReviewed now u verified)).TruthfulAt P c) ↔
      (∀ c, a.peerUidForConv c ≠ u → a.TruthfulAt P c) ∧ a.Reviews P u verified := by
  have hframe : ∀ w, w ≠ u →
      (a.session.markIdentityReviewed now u verified).loadIdentityAudit w =
        a.session.loadIdentityAudit w := fun w hw => AuditSession.load_save_of_ne _ _ hw
  have hst := a.session.load_markIdentityReviewed now u verified
  have hat := fun c (hc : a.peerUidForConv c = u) => truthfulAt_reviewed P hu hc hst.1 hst.2
  constructor
  · intro h
    exact ⟨fun c hc => (truthfulAt_session P hframe (.inr hc)).mp (h c),
      fun c hg hc => (hat c hc).mp (h c) hg⟩
  · rintro ⟨hne, heq⟩ c
    by_cases hc : a.peerUidForConv c = u
    · exact (hat c hc).mpr fun hg => heq c hg hc
    · exact (truthfulAt_session P hframe (.inr hc)).mpr (hne c hc)

theorem truthful_markVerified {a : App} (h : ∀ c, a.TruthfulAt P c) (now : ℤ) :
    (∀ c, (a.closeVerifyDialog P now .markVerified).TruthfulAt P c) ↔
      a.Attentive P (.closeDialog now .markVerified) := by
  unfold closeVerifyDialog Attentive
  cases hd : a.dialog with
  | none => simpa using h
  | some d =>
    have hothers : ∀ c, c ≠ d.convId → (a.markShown d).TruthfulAt P c := by
      intro c hc
      refine (h c).congr P rfl ?_ rfl (Function.update_of_ne hc _ _) id
      exact fun hv => (Function.update_of_ne hc true a.convVerified) ▸ hv
    simp only [truthfulAt_refresh, Option.some.injEq, forall_eq']
    by_cases hu : d.peerUid = 0
    · simp only [hu, ne_eq, not_true_eq_false, if_false, false_implies, and_true]
      constructor
      · exact fun hc _ => hc d.convId
      · intro hc c
        by_cases hcd : c = d.convId
        · exact hcd ▸ hc (eq_or_ne _ _)
        · exact hothers c hcd
    · simp only [hu, ne_eq, not_false_eq_true, if_true, true_implies]
      refine (truthful_reviewed P (a.markShown d) hu now true).trans (and_congr_left fun _ => ?_)
      constructor
      · rintro hc (h0 | hne)
        · exact hc d.convId (h0 ▸ Ne.symm hu)
        · exact hc d.convId hne
      · intro hc c hne
        by_cases hcd : c = d.convId
        · exact hcd ▸ hc (.inr (hcd ▸ hne))
        · exact hothers c hcd

theorem truthful_continueUnverified {a : App} (h : ∀ c, a.TruthfulAt P c) (now : ℤ) :
    (∀ c, (a.closeVerifyDialog P now .continueUnverified).TruthfulAt P c) ↔
      a.Attentive P (.closeDialog now .continueUnverified) := by
  unfold closeVerifyDialog Attentive
  cases hd : a.dialog with
  | none => simpa using h
  | some d =>
    have hall : ∀ c, (a.saveVerified d.convId false).TruthfulAt P c :=
      fun c => truthfulAt_unverify P (h c)
    simp only [truthfulAt_refresh, Option.some.injEq, forall_eq']
    by_cases hu : d.peerUid = 0
    · simp only [hu, ne_eq, not_true_eq_false, if_false, false_implies, iff_true]
      exact hall
    · simp only [hu, ne_eq, not_false_eq_true, if_true, true_implies]
      refine (truthful_reviewed P (a.saveVerified d.convId false) hu now false).trans ?_
      exact ⟨fun hc => hc.2, fun hc => ⟨fun c _ => hall c, hc⟩⟩

/-- All badges are truthful. -/
def BadgesTruthful (a : App) : Prop := ∀ c, a.TruthfulAt P c

/-- One event keeps the badges truthful exactly under its condition. -/
theorem step_badgesTruthful (a : App) (e : AppEvent) (h : a.BadgesTruthful P) :
    (a.step P e).BadgesTruthful P ↔ a.Attentive P e := by
  cases e with
  | pqInit now c u pk v fp => exact truthful_pqInit P h now c u pk v fp
  | incoming now c u pk v fp outcome => exact truthful_incoming P h now c u pk v fp outcome
  | bundle now c u pk v outcome => exact truthful_bundle P h now c u pk v outcome
  | identityChanged now u pk v =>
    exact iff_of_true (truthful_identityChanged P h now u pk v) trivial
  | openDialog c => exact iff_of_true (truthful_openDialog P h c) trivial
  | closeDialog now choice =>
    cases choice with
    | markVerified => exact truthful_markVerified P h now
    | continueUnverified => exact truthful_continueUnverified P h now
    | cancel =>
      refine iff_of_true (fun c => ?_) trivial
      simp only [step, closeVerifyDialog]
      split
      · exact h c
      · exact (h c).congr P rfl id rfl rfl id

/-- A controller right after the first login: nothing audited and nothing marked. -/
def start (myUid : ℤ) (identityPk : Bytes) (dmPeers : ℤ → ℤ) (groupConvIds : ℤ → Bool) : App where
  myUid := myUid
  identityPk := identityPk
  session := .empty
  convVerified := fun _ => false
  convPeerUids := []
  convFingerprints := fun _ => ""
  dmPeers := dmPeers
  groupConvIds := groupConvIds
  dialog := none
  shown := fun _ => ""

theorem badgesTruthful_start (myUid : ℤ) (identityPk : Bytes) (dmPeers : ℤ → ℤ)
    (groupConvIds : ℤ → Bool) : (start myUid identityPk dmPeers groupConvIds).BadgesTruthful P := by
  intro c hs
  obtain ⟨-, -, hv | ⟨hv, -⟩⟩ := (shows_iff P _ c).mp hs
  · cases hv
  · exfalso
    have hstatus : ((start myUid identityPk dmPeers groupConvIds).peerAudit c).status = .unknown := by
      simp only [peerAudit]
      split <;> rfl
    rw [hstatus] at hv
    cases hv

/-- A contact is audited and marked verified; then its bundle brings another key while the auditor
is down, and the next audit of that other key succeeds. -/
def swappedKeyRun : List AppEvent :=
  [.bundle 1 7 2 "aWQx" 0 (.ok .null []), .openDialog 7, .closeDialog 2 .markVerified,
    .bundle 3 7 2 "aWQy" 1 (.unavailable ""), .bundle 4 7 2 "aWQy" 1 (.ok .null [])]

end App

end SecChat
