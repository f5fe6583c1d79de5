import SecChat.Group.Bridge
import SecChat.Server.PendingOps
import Mathlib.Data.Finset.Sort

/-!
# Group changes on the server

A group change has two requests.  `prepare_group_change` checks the policy and stores a pending
operation; `apply_group_change` looks the operation up again, validates the MLS artifacts and writes
the handshake rows, the public state, the membership and the roles, one statement at a time.

* `Db`, `Stmt`, `exec`: the tables, and the statements that write them;
* `PublicMls`, `validateGroupCreate`, `validateGroupCommit`: the validator of the bridge;
* `prepareGroupChange`, `friendRequest`, `friendAccept`, `friendRemove`: requests that only need to
  be taken as a whole;
* `applyPlan`, `applyGroupChange`: what an apply request writes, and the request as a whole.
-/

namespace SecChat.GroupChange

open Py PendingOps

/-! ### Tables -/

/-- A logged-in user; ids come from an `AUTO_INCREMENT` column. -/
structure Caller where
  uid : ℤ
  pos : 0 < uid

/-- A row of `friendships`, without the two users. -/
structure Friendship where
  accepted : Bool
  requesterId : ℤ
  deriving DecidableEq, Repr

/-- What the server reads of `details_json`, the request that was prepared. -/
structure Details where
  name : String
  description : String
  members : List ℤ
  deriving DecidableEq, Repr

/-- A row of `mls_pending_group_ops`. -/
structure OpRow where
  operationId : String
  conversationId : ℤ
  actorId : ℤ
  operation : GroupOp
  targetUserId : ℤ
  role : String
  details : Details
  status : OpStatus
  expiresAt : ℤ
  deriving DecidableEq, Repr

/-- `kind` of a handshake row. -/
inductive HandshakeKind
  | welcome
  | commit
  | groupInfo
  | control
  deriving DecidableEq, Repr

/-- A row of `mls_group_handshake`; the ids are the positions. -/
structure HandshakeRow where
  conversationId : ℤ
  senderId : ℤ
  targetUserId : ℤ
  kind : HandshakeKind
  epoch : ℤ
  operationId : String
  message : String
  deriving DecidableEq, Repr

/-- The tables; `S` is the type of public group states. -/
structure Db (S : Type) where
  now : ℤ
  nextConv : ℤ
  friendships : ℤ × ℤ → Option Friendship
  members : ℤ → List ℤ
  roles : ℤ → ℤ → Option String
  names : ℤ → String
  descriptions : ℤ → String
  disbanded : ℤ → Bool
  ops : List OpRow
  groupState : ℤ → Option S
  handshake : List HandshakeRow

/-! ### The repositories -/

section Repositories

variable {S : Type} (db : Db S)

/-- The canonical order of a friendship row. -/
def pair (a b : ℤ) : ℤ × ℤ := (min a b, max a b)

/-- `friendship_exists_accepted`. -/
def friendshipExistsAccepted (a b : ℤ) : Bool :=
  match db.friendships (pair a b) with
  | some row => row.accepted
  | none => false

/-- `conv_is_member`. -/
def convIsMember (cid uid : ℤ) : Bool := uid ∈ db.members cid

/-- `conv_is_admin`. -/
def convIsAdmin (cid uid : ℤ) : Bool := db.roles cid uid = some "admin"

/-- `domain_validate_role`. -/
def domainValidateRole (role : String) : Bool := role = "admin" ∨ role = "member"

/-- `domain_validate_group_name`, after the check of the buffer's length. -/
def groupNameOk (name : String) : Bool := 1 ≤ name.utf8ByteSize ∧ name.utf8ByteSize ≤ 99

/-- How the database compares operation ids, and what the two statements with the id in their text
do when it holds a quote or a backslash. -/
structure OpLookup where
  key : String → String
  fetchRaw : String → ℤ → ℤ → List OpRow → Option OpRow
  markRaw : String → List OpRow → List OpRow

/-- The id is a literal in the statements (`PendingOps.lex_selectText`). -/
def CleanId (id : String) : Prop := ∀ c ∈ id.toList, c.toNat ≠ 39 ∧ c.toNat ≠ 92

instance (id : String) : Decidable (CleanId id) :=
  List.decidableBAll (fun c : Char => c.toNat ≠ 39 ∧ c.toNat ≠ 92) id.toList

/-- `fetch_pending_op`. -/
def fetchPendingOp (L : OpLookup) (id : String) (uid : ℤ) : Option OpRow :=
  if CleanId id then
    db.ops.find? fun r =>
      L.key r.operationId = L.key id ∧ r.actorId = uid ∧ r.status = .prepared ∧ db.now < r.expiresAt
  else L.fetchRaw id uid db.now db.ops

/-- `mark_pending_applied`. -/
def markPendingApplied (L : OpLookup) (id : String) : List OpRow :=
  if CleanId id then
    db.ops.map fun r => if L.key r.operationId = L.key id then { r with status := .applied } else r
  else L.markRaw id db.ops

end Repositories

/-- The statements that an apply request writes with. -/
inductive Stmt (S : Type)
  | storeHandshake (row : HandshakeRow)
  | upsertState (cid : ℤ) (state : S)
  | addMember (cid uid : ℤ)
  | removeMember (cid uid : ℤ)
  | roleSet (cid uid : ℤ) (role : String)
  | roleDelete (cid uid : ℤ)
  | setName (cid : ℤ) (name : String)
  | setDescription (cid : ℤ) (description : String)
  | markApplied (id : String)

/-- One statement. -/
def exec {S : Type} (L : OpLookup) (db : Db S) : Stmt S → Db S
  | .storeHandshake row => { db with handshake := db.handshake ++ [row] }
  | .upsertState cid state =>
      { db with groupState := Function.update db.groupState cid (some state) }
  | .addMember cid uid =>
      if uid ∈ db.members cid then db
      else { db with members := Function.update db.members cid (db.members cid ++ [uid]) }
  | .removeMember cid uid =>
      { db with members := Function.update db.members cid ((db.members cid).filter (· ≠ uid)) }
  | .roleSet cid uid role =>
      { db with
        roles := Function.update db.roles cid (Function.update (db.roles cid) uid (some role)) }
  | .roleDelete cid uid =>
      { db with roles := Function.update db.roles cid (Function.update (db.roles cid) uid none) }
  | .setName cid name => { db with names := Function.update db.names cid name }
  | .setDescription cid description =>
      { db with descriptions := Function.update db.descriptions cid description }
  | .markApplied id => { db with ops := markPendingApplied db L id }

/-! ### The validator -/

/-- The calls of OpenMLS on public groups. -/
structure PublicMls (S : Type) where
  /-- `PublicGroup::from_external` of a ratchet tree and a group info. -/
  fromExternal : String → String → Option S
  /-- `group.ciphersuite() == DEFAULT_CIPHERSUITE`. -/
  suiteOk : S → Bool
  /-- `group.group_id()`. -/
  groupId : S → String
  /-- `group.group_context().epoch()`. -/
  epoch : S → ℕ
  /-- `group.members()`. -/
  members : S → List Leaf
  /-- `group.process_message` and `merge_commit` of a commit: the credential of its author and the
  next state. -/
  process : S → String → Option (Bytes × S)

/-- A commit leads to the next epoch. -/
structure PublicMls.Lawful {S : Type} (M : PublicMls S) : Prop where
  process_epoch : ∀ {s s' : S} {commit : String} {author : Bytes},
    M.process s commit = some (author, s') → M.epoch s' = M.epoch s + 1

namespace PublicMls

variable {S : Type} (M : PublicMls S)

/-- `group_id_for`. -/
def groupIdFor (cid : ℤ) : String := "secchat-group:" ++ toString cid

/-- `sorted_member_ids`; the sorted list without duplicates is kept as a set. -/
def memberIds (g : S) : Finset ℤ :=
  ((M.members g).filterMap fun leaf => credentialUserId leaf.credential).toFinset

/-- `validate_public_group_common`. -/
def validatePublicGroupCommon (g : S) (cid : ℤ) (expected : Finset ℤ) : Except String Unit := do
  if M.suiteOk g = false then throw "MLS validation failed: unsupported ciphersuite"
  if M.groupId g ≠ groupIdFor cid then throw "MLS validation failed: group id mismatch"
  if expected ≠ ∅ ∧ M.memberIds g ≠ expected then
    throw "MLS validation failed: member set mismatch"

/-- `validate_external_group_info`. -/
def validateExternalGroupInfo (cid : ℤ) (groupInfo ratchetTree : String) (expected : Finset ℤ) :
    Except String S := do
  match M.fromExternal ratchetTree groupInfo with
  | none => throw "MLS validation failed: GroupInfo/RatchetTree invalid"
  | some g =>
      M.validatePublicGroupCommon g cid expected
      return g

/-- `validate_group_create`.  It does not look at the commit. -/
def validateGroupCreate (cid : ℤ) (groupInfo ratchetTree : String) (expected : Finset ℤ) :
    Except String S :=
  M.validateExternalGroupInfo cid groupInfo ratchetTree expected

/-- `validate_group_commit`. -/
def validateGroupCommit (cid actor : ℤ) (g : S) (commit groupInfo ratchetTree : String)
    (expected : Finset ℤ) : Except String S := do
  M.validatePublicGroupCommon g cid ∅
  match M.process g commit with
  | none => throw "MLS validation failed: commit invalid"
  | some (author, g') =>
      if 0 < actor ∧ (credentialUserId author).getD 0 ≠ actor then
        throw "MLS validation failed: actor credential mismatch"
      M.validatePublicGroupCommon g' cid expected
      let external ← M.validateExternalGroupInfo cid groupInfo ratchetTree expected
      if M.epoch external ≠ M.epoch g' then throw "MLS validation failed: GroupInfo epoch mismatch"
      return g'

end PublicMls

/-! ### Requests taken as a whole -/

section Requests

variable {S : Type}

/-- `handle_friend_request`. -/
def friendRequest (db : Db S) (caller : Caller) (target : ℤ) : Db S :=
  if caller.uid = target then db
  else
    match db.friendships (pair caller.uid target) with
    | some _ => db
    | none =>
        { db with
          friendships :=
            Function.update db.friendships (pair caller.uid target) (some ⟨false, caller.uid⟩) }

/-- `handle_friend_accept`. -/
def friendAccept (db : Db S) (caller : Caller) (requester : ℤ) : Db S :=
  match db.friendships (pair caller.uid requester) with
  | some row =>
      if row.accepted = false ∧ row.requesterId = requester then
        { db with
          friendships :=
            Function.update db.friendships (pair caller.uid requester) (some ⟨true, requester⟩) }
      else db
  | none => db

/-- `handle_friend_remove`. -/
def friendRemove (db : Db S) (caller : Caller) (other : ℤ) : Db S :=
  { db with friendships := Function.update db.friendships (pair caller.uid other) none }

/-- `prepare_group_change`. -/
structure PrepareReq where
  operation : GroupOp
  userId : ℤ
  targetUserId : ℤ
  groupId : ℤ
  conversationId : ℤ
  role : String
  details : Details

/-- `target_uid` of the request. -/
def PrepareReq.target (req : PrepareReq) : ℤ :=
  if req.userId ≤ 0 then req.targetUserId else req.userId

/-- `group_id` of the request. -/
def PrepareReq.group (req : PrepareReq) : ℤ :=
  if req.groupId ≤ 0 then req.conversationId else req.groupId

/-- The policy of a change to an existing group, as `handle_prepare_group_change` checks it. -/
def checkPolicy (db : Db S) (uid : ℤ) (req : PrepareReq) (cid target : ℤ) : Except String Unit :=
  match req.operation with
  | .addMember =>
      if target ≤ 0 ∨ friendshipExistsAccepted db uid target = false then
        throw "Can only add friends to a group"
      else if convIsAdmin db cid uid = false then throw "Only admins can add members"
      else pure ()
  | .leaveGroup =>
      if target ≠ uid ∨ convIsMember db cid uid = false then throw "Invalid leave group operation"
      else pure ()
  | .removeMember =>
      if convIsAdmin db cid uid = false ∨ target ≤ 0 ∨ convIsMember db cid target = false ∨
          convIsAdmin db cid target = true then throw "Invalid remove member operation"
      else pure ()
  | .setMemberRole =>
      if convIsAdmin db cid uid = false ∨ target ≤ 0 ∨ convIsMember db cid target = false ∨
          domainValidateRole req.role = false then throw "Invalid role operation"
      else pure ()
  | .updateGroupInfo =>
      if convIsAdmin db cid uid = false then throw "Only admins can update group info" else pure ()
  | .createGroup | .other _ => throw "Unsupported group operation"

/-- `store_pending_op`; the id is the primary key. -/
def storePendingOp (L : OpLookup) (db : Db S) (id : String) (cid uid : ℤ) (req : PrepareReq)
    (target : ℤ) : Db S × Except String String :=
  if db.ops.any fun r => L.key r.operationId = L.key id then
    (db, .error "Failed to prepare group change")
  else
    ({ db with
        ops := db.ops ++ [{
          operationId := id
          conversationId := cid
          actorId := uid
          operation := req.operation
          targetUserId := if 0 < target then target else 0
          role := req.role
          details := req.details
          status := .prepared
          expiresAt := db.now + 600000 }] }, .ok id)

/-- `handle_prepare_group_change`, with the id that `make_operation_id` returns. -/
def prepareGroupChange (L : OpLookup) (db : Db S) (caller : Caller) (req : PrepareReq)
    (id : String) : Db S × Except String String :=
  let uid := caller.uid
  if req.operation = .other "" then (db, .error "Missing group operation")
  else if req.operation = .createGroup then
    let name := if req.details.name = "" then "Unnamed Group" else req.details.name
    let members := req.details.members.take 50
    if groupNameOk name = false then (db, .error "Invalid group name")
    else if members.isEmpty then (db, .error "No members specified")
    else if members.any fun m => friendshipExistsAccepted db uid m = false then
      (db, .error "Can only add friends to a group")
    else
      let cid := db.nextConv
      let db := { db with nextConv := cid + 1, names := Function.update db.names cid name }
      storePendingOp L db id cid uid req req.target
  else
    let cid := req.group
    if cid ≤ 0 then (db, .error "Invalid group_id")
    else if convIsMember db cid uid = false then (db, .error "Not a member of this group")
    else if db.disbanded cid then (db, .error "Group has been disbanded")
    else
      -- leaving without a target means oneself
      let target := if req.operation = .leaveGroup ∧ req.target ≤ 0 then uid else req.target
      match checkPolicy db uid req cid target with
      | .error msg => (db, .error msg)
      | .ok () => storePendingOp L db id cid uid req target

end Requests

/-! ### Applying -/

/-- `apply_group_change`. -/
structure ApplyReq where
  operationId : String
  epoch : ℤ
  commitB64 : String
  groupInfoB64 : String
  groupIdB64 : String
  ratchetTreeB64 : String
  controlB64 : String
  welcomes : List (ℤ × String)
  deriving DecidableEq, Repr

/-- The operations whose artifacts are validated. -/
def isMembershipChange : GroupOp → Bool
  | .createGroup | .addMember | .removeMember | .leaveGroup => true
  | _ => false

/-- The operations that take a member out. -/
def isRemoval : GroupOp → Bool
  | .removeMember | .leaveGroup => true
  | _ => false

/-- The artifacts that must be there. -/
def checkArtifacts (operation : GroupOp) (req : ApplyReq) : Except String Unit :=
  if isMembershipChange operation ∧ (req.commitB64 = "" ∨ req.groupInfoB64 = "" ∨
      req.groupIdB64 = "" ∨ req.ratchetTreeB64 = "") then
    throw "MLS commit, GroupInfo, group_id and RatchetTree are required"
  else if (operation = .setMemberRole ∨ operation = .updateGroupInfo) ∧ req.controlB64 = "" then
    throw "Encrypted MLS control message is required"
  else pure ()

/-- `expected_members_for_operation`, given the members that the database lists. -/
def expectedMembers (row : OpRow) (uid : ℤ) (members : List ℤ) : Finset ℤ :=
  let ids :=
    match row.operation with
    | .createGroup => uid :: row.details.members
    | .addMember => members.take 512 ++ [row.targetUserId]
    | .removeMember | .leaveGroup => (members.take 512).filter (· ≠ row.targetUserId)
    | _ => members.take 512
  (ids.filter (0 < ·)).toFinset

section Apply

variable {S : Type} (M : PublicMls S)

/-- `validate_mls_membership_change` with what it reads from the database. -/
def validateMembershipChange (row : OpRow) (uid : ℤ) (req : ApplyReq) (state : Option S)
    (members : List ℤ) : Except String S :=
  let expected := expectedMembers row uid members
  if row.operation = .createGroup then
    M.validateGroupCreate row.conversationId req.groupInfoB64 req.ratchetTreeB64 expected
  else
    match state with
    | none => throw "missing prior validated MLS public state"
    | some g =>
        M.validateGroupCommit row.conversationId uid g req.commitB64 req.groupInfoB64
          req.ratchetTreeB64 expected

/-- The validation of a membership change, with the check of the client's epoch. -/
def validated (row : OpRow) (uid : ℤ) (req : ApplyReq) (state : Option S) (members : List ℤ) :
    Except String S := do
  let g ← validateMembershipChange M row uid req state members
  if req.epoch ≠ M.epoch g then throw "MLS validation failed: epoch mismatch"
  return g

/-- The rows of `mls_group_handshake` that a request stores. -/
def handshakeRows (cid uid : ℤ) (req : ApplyReq) : List HandshakeRow :=
  let row (target : ℤ) (kind : HandshakeKind) (message : String) : HandshakeRow :=
    ⟨cid, uid, target, kind, req.epoch, req.operationId, message⟩
  (if req.commitB64 = "" then [] else [row 0 .commit req.commitB64]) ++
  (if req.groupInfoB64 = "" then [] else [row 0 .groupInfo req.groupInfoB64]) ++
  (if req.controlB64 = "" then [] else [row 0 .control req.controlB64]) ++
  (req.welcomes.filter fun (target, welcome) => 0 < target ∧ welcome ≠ "").map
    fun (target, welcome) => row target .welcome welcome

/-- The statements on members, roles and group info. -/
def changeStmts (row : OpRow) (uid : ℤ) : List (Stmt S) :=
  let cid := row.conversationId
  match row.operation with
  | .createGroup =>
      [.addMember cid uid, .roleSet cid uid "admin"] ++
        (row.details.members.filter (0 < ·)).flatMap fun m =>
          [.addMember cid m, .roleSet cid m "member"]
  | .addMember =>
      [.addMember cid row.targetUserId, .roleSet cid row.targetUserId "member"]
  | .removeMember | .leaveGroup =>
      [.roleDelete cid row.targetUserId, .removeMember cid row.targetUserId]
  | .setMemberRole => [.roleSet cid row.targetUserId row.role]
  | .updateGroupInfo =>
      (if row.details.name = "" then [] else [.setName cid row.details.name]) ++
      (if row.details.description = "" then [] else [.setDescription cid row.details.description])
  | .other _ => []

/-- Everything that an accepted request writes, in order. -/
def applyStmts (row : OpRow) (uid : ℤ) (req : ApplyReq) (state : Option S) : List (Stmt S) :=
  (handshakeRows row.conversationId uid req).map .storeHandshake ++
  (state.toList.map (.upsertState row.conversationId)) ++
  changeStmts row uid ++ [.markApplied req.operationId]

/-- The decision of `handle_apply_group_change` when nothing else happens meanwhile: the operation
that it finds and the statements that it will execute. -/
def applyPlan (L : OpLookup) (db : Db S) (caller : Caller) (req : ApplyReq) :
    Except String (OpRow × List (Stmt S)) := do
  if req.operationId = "" then throw "Missing operation_id"
  match fetchPendingOp db L req.operationId caller.uid with
  | none => throw "Pending group operation not found"
  | some row =>
      checkArtifacts row.operation req
      if isMembershipChange row.operation then
        let g ← validated M row caller.uid req (db.groupState row.conversationId)
          (db.members row.conversationId)
        return (row, applyStmts row caller.uid req (some g))
      else
        return (row, applyStmts row caller.uid req none)

/-- `handle_apply_group_change` when nothing else happens meanwhile. -/
def applyGroupChange (L : OpLookup) (db : Db S) (caller : Caller) (req : ApplyReq) : Db S :=
  match applyPlan M L db caller req with
  | .ok (_, stmts) => stmts.foldl (exec L) db
  | .error _ => db

end Apply

/-! ### What the validator guarantees -/

section Validator

variable {S : Type} {M : PublicMls S}

theorem memberIds_of_common {g : S} {cid : ℤ} {expected : Finset ℤ}
    (h : M.validatePublicGroupCommon g cid expected = .ok ()) (hne : expected ≠ ∅) :
    M.memberIds g = expected := by
  unfold PublicMls.validatePublicGroupCommon at h
  by_contra hids
  simp only [hne, hids, ne_eq, not_false_eq_true, and_self, if_true, throw, throwThe,
    MonadExceptOf.throw, error_bind, pure_eq_ok] at h
  split at h
  · cases h
  · split at h <;> cases h

/-- A created group has the expected members. -/
theorem memberIds_of_validateGroupCreate {cid : ℤ} {groupInfo ratchetTree : String}
    {expected : Finset ℤ} {g : S}
    (h : M.validateGroupCreate cid groupInfo ratchetTree expected = .ok g) (hne : expected ≠ ∅) :
    M.memberIds g = expected := by
  unfold PublicMls.validateGroupCreate PublicMls.validateExternalGroupInfo at h
  split at h
  · cases h
  · obtain ⟨⟨⟩, hcommon, hret⟩ := bind_eq_ok_iff.mp h
    obtain rfl := Except.ok.inj hret
    exact memberIds_of_common hcommon hne

/-- An accepted commit was processed on the public state, and leads to the expected members. -/
theorem validateGroupCommit_cases {cid actor : ℤ} {g g' : S} {commit groupInfo ratchetTree : String}
    {expected : Finset ℤ}
    (h : M.validateGroupCommit cid actor g commit groupInfo ratchetTree expected = .ok g') :
    (∃ author, M.process g commit = some (author, g')) ∧
      (expected ≠ ∅ → M.memberIds g' = expected) := by
  unfold PublicMls.validateGroupCommit at h
  obtain ⟨-, -, h⟩ := bind_eq_ok_iff.mp h
  split at h
  · cases h
  · next author g₁ hprocess =>
    split at h
    · cases h
    · obtain ⟨⟨⟩, hcommon, h⟩ := bind_eq_ok_iff.mp h
      obtain ⟨external, -, h⟩ := bind_eq_ok_iff.mp h
      split at h
      · cases h
      · obtain rfl := Except.ok.inj h
        exact ⟨⟨author, hprocess⟩, memberIds_of_common hcommon⟩

end Validator

/-! ### What statements leave alone -/

section Frame

variable {S : Type} {L : OpLookup}

/-- The group whose members and roles a statement writes. -/
def Stmt.group : Stmt S → Option ℤ
  | .addMember cid _ | .removeMember cid _ | .roleSet cid _ _ | .roleDelete cid _ => some cid
  | _ => none

@[simp] theorem exec_now (db : Db S) (st : Stmt S) : (exec L db st).now = db.now := by
  cases st <;> simp only [exec]
  split <;> rfl

@[simp] theorem exec_nextConv (db : Db S) (st : Stmt S) :
    (exec L db st).nextConv = db.nextConv := by
  cases st <;> simp only [exec]
  split <;> rfl

@[simp] theorem exec_friendships (db : Db S) (st : Stmt S) :
    (exec L db st).friendships = db.friendships := by
  cases st <;> simp only [exec]
  split <;> rfl

theorem exec_ops (db : Db S) {st : Stmt S} (h : ∀ id, st ≠ .markApplied id) :
    (exec L db st).ops = db.ops := by
  cases st <;> simp only [exec]
  · split <;> rfl
  · exact absurd rfl (h _)

theorem exec_members_of_ne (db : Db S) {st : Stmt S} {c : ℤ} (h : st.group ≠ some c) :
    (exec L db st).members c = db.members c := by
  cases st <;> simp only [exec, Stmt.group, ne_eq, Option.some.injEq] at h ⊢
  · split
    · rfl
    · exact Function.update_of_ne (Ne.symm h) _ _
  · exact Function.update_of_ne (Ne.symm h) _ _

theorem exec_roles_of_ne (db : Db S) {st : Stmt S} {c : ℤ} (h : st.group ≠ some c) :
    (exec L db st).roles c = db.roles c := by
  cases st <;> simp only [exec, Stmt.group, ne_eq, Option.some.injEq] at h ⊢
  · split <;> rfl
  · exact Function.update_of_ne (Ne.symm h) _ _
  · exact Function.update_of_ne (Ne.symm h) _ _

/-- What every statement of a list leaves alone, the list leaves alone. -/
theorem foldl_exec_eq {β : Type} (f : Db S → β) {stmts : List (Stmt S)}
    (h : ∀ st ∈ stmts, ∀ db, f (exec L db st) = f db) (db : Db S) :
    f (stmts.foldl (exec L) db) = f db := by
  induction stmts generalizing db with
  | nil => rfl
  | cons st stmts ih =>
    rw [List.foldl_cons, ih fun st' hst' => h st' (List.mem_cons_of_mem _ hst')]
    exact h st List.mem_cons_self db

theorem changeStmts_group {row : OpRow} {uid : ℤ} {st : Stmt S} (h : st ∈ changeStmts row uid) :
    st.group = some row.conversationId ∨ st.group = none := by
  unfold changeStmts at h
  dsimp only at h
  split at h
  · simp only [List.cons_append, List.nil_append, List.mem_cons, List.mem_flatMap,
      List.not_mem_nil, or_false] at h
    rcases h with rfl | rfl | ⟨m, -, rfl | rfl⟩ <;> exact .inl rfl
  all_goals
    simp only [List.mem_cons, List.not_mem_nil, or_false, List.mem_append,
      List.mem_ite_nil_left] at h
  · rcases h with rfl | rfl <;> exact .inl rfl
  · rcases h with rfl | rfl <;> exact .inl rfl
  · rcases h with rfl | rfl <;> exact .inl rfl
  · subst h
    exact .inl rfl
  · rcases h with ⟨-, rfl⟩ | ⟨-, rfl⟩ <;> exact .inr rfl

theorem changeStmts_ne_markApplied {row : OpRow} {uid : ℤ} {st : Stmt S}
    (h : st ∈ changeStmts row uid) (id : String) : st ≠ .markApplied id := by
  rintro rfl
  unfold changeStmts at h
  dsimp only at h
  split at h <;> simp at h

/-- The part of an accepted request before the statements on the group. -/
def recordStmts (row : OpRow) (uid : ℤ) (req : ApplyReq) (state : Option S) : List (Stmt S) :=
  (handshakeRows row.conversationId uid req).map .storeHandshake ++
    state.toList.map (.upsertState row.conversationId)

theorem foldl_applyStmts (db : Db S) (row : OpRow) (uid : ℤ) (req : ApplyReq) (state : Option S) :
    (applyStmts row uid req state).foldl (exec L) db =
      exec L ((changeStmts row uid).foldl (exec L)
        ((recordStmts row uid req state).foldl (exec L) db)) (.markApplied req.operationId) := by
  simp only [applyStmts, recordStmts, List.foldl_append, List.foldl_cons, List.foldl_nil]

theorem recordStmts_cases {row : OpRow} {uid : ℤ} {req : ApplyReq} {state : Option S} {st : Stmt S}
    (h : st ∈ recordStmts row uid req state) :
    (∃ r, st = .storeHandshake r) ∨ ∃ g, st = .upsertState row.conversationId g := by
  simp only [recordStmts, List.mem_append, List.mem_map] at h
  rcases h with ⟨r, -, rfl⟩ | ⟨g, -, rfl⟩
  · exact .inl ⟨r, rfl⟩
  · exact .inr ⟨g, rfl⟩

/-- Recording a change does not touch the group. -/
theorem foldl_recordStmts (db : Db S) (row : OpRow) (uid : ℤ) (req : ApplyReq) (state : Option S) :
    ((recordStmts row uid req state).foldl (exec L) db).members = db.members ∧
    ((recordStmts row uid req state).foldl (exec L) db).roles = db.roles ∧
    ((recordStmts row uid req state).foldl (exec L) db).ops = db.ops := by
  refine ⟨foldl_exec_eq (·.members) ?_ db, foldl_exec_eq (·.roles) ?_ db,
    foldl_exec_eq (·.ops) ?_ db⟩
  all_goals
    intro st hst db'
    rcases recordStmts_cases hst with ⟨r, rfl⟩ | ⟨g, rfl⟩ <;> rfl

end Frame

end SecChat.GroupChange
