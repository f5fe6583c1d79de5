import SecChat.Group.Bridge
import SecChat.Library.Runs
import SecChat.Protocol.TermModel

/-!
# Adding members on the client

To create a group or to add a member the client asks the server to prepare the change, claims one
key package for each target, lets the bridge make the commit, and sends `apply_group_change`.  The
server answers with whatever it likes.

* `GroupClient`, `ClientEvent`, `GroupClient.step`: the controller's state for group changes, and
  the user's actions and server's messages that it reacts to;
* `Authenticated`: the leaves of a commit are distinct targets with signed key packages;
* `adds_authenticated`: in a run in which every key package that the client uses is the signed one
  of its target, every commit sent is authenticated;
* `stranger_added`: nothing in the client checks it, so any other key package is added as well.
-/

open Py

namespace SecChat

/-! ### Messages -/

/-- The answer to `claim_mls_key_package`.  The client reads `user_id`, `found` and
`key_package_b64` of it; a package is uploaded with the other fields too. -/
structure KeyPackageMsg where
  userId : ℤ
  found : Bool
  keyPackageB64 : String
  keyPackageRef : String
  ciphersuite : String
  secchatSignature : String
  deriving DecidableEq, Repr

/-- `_mls_key_package_sig_msg`. -/
def mlsKeyPackageSigMsg (pkg : KeyPackageMsg) : Bytes :=
  bytesOf "SecChatMLSKeyPackage" ++ [0] ++ encodeUtf8 pkg.keyPackageRef ++ [0] ++
    encodeUtf8 pkg.keyPackageB64 ++ [0] ++ encodeUtf8 pkg.ciphersuite

/-- `secchat_signature` is the signature of the holder of an identity key. -/
def KeyPackageMsg.SignedBy (P : Prims) (identityPk : Bytes) (pkg : KeyPackageMsg) : Prop :=
  ∃ sig, b64d pkg.secchatSignature = .ok sig ∧
    P.ed25519Verify identityPk sig (mlsKeyPackageSigMsg pkg) = true

/-- What the user asked for, while the server prepares it. -/
structure Intent where
  operation : GroupOp
  conversationId : ℤ
  targetUserId : ℤ
  members : List ℤ
  role : String
  name : String
  description : String
  deriving DecidableEq, Repr

/-- A pending operation.  The code keeps only `key_package_b64` of a claimed message. -/
structure OpCtx (C W : Type) where
  operationId : String
  operation : GroupOp
  conversationId : ℤ
  targetUserId : ℤ
  targets : List ℤ
  claimed : List (ℤ × KeyPackageMsg)
  epoch : Option ℤ
  commit : Option C
  welcomes : List (ℤ × W)
  controlB64 : Option String

/-- `apply_group_change`.  The operation and the targets are not on the wire; the server has them
under the operation id. -/
structure ApplyMsg (C W : Type) where
  operationId : String
  operation : GroupOp
  targets : List ℤ
  conversationId : ℤ
  epoch : ℤ
  commit : Option C
  welcomes : List (ℤ × W)
  controlB64 : Option String

/-! ### The controller -/

/-- What the controller and the session keep for group changes, with everything sent and every key
package received so far. -/
structure GroupClient (G C W : Type) where
  myUid : ℤ
  bridge : Bridge G
  mlsGroupReady : ℤ → Bool
  groupEpochs : ℤ → ℤ
  handshakeSeen : List ℕ
  pendingPrepare : List Intent
  pendingOps : String → Option (OpCtx C W)
  pendingClaims : ℤ → List String
  sent : List (ApplyMsg C W)
  received : List KeyPackageMsg

namespace GroupClient

variable {G C W : Type} (M : OpenMls G C W)

/-- Whether a pending intent answers to a prepared operation; `0` matches everything. -/
def Intent.fits (i : Intent) (operation : GroupOp) (conv target : ℤ) : Bool :=
  i.operation = operation &&
    !(conv ≠ 0 && i.conversationId ≠ 0 && i.conversationId ≠ conv) &&
    !(target ≠ 0 && i.targetUserId ≠ 0 && i.targetUserId ≠ target)

/-- `_pop_pending_mls_prepare`. -/
def popPendingMlsPrepare (s : GroupClient G C W) (operation : GroupOp) (conv target : ℤ) :
    Intent × GroupClient G C W :=
  match s.pendingPrepare.find? (Intent.fits · operation conv target) with
  | some i => (i, { s with pendingPrepare := s.pendingPrepare.erase i })
  | none => (⟨operation, conv, target, [], "", "", ""⟩, s)

/-- `_pending_mls_ops[operation_id] = ctx`. -/
def putOp (s : GroupClient G C W) (ctx : OpCtx C W) : GroupClient G C W :=
  { s with pendingOps := Function.update s.pendingOps ctx.operationId (some ctx) }

/-- `_pending_mls_ops.pop(operation_id, None)`. -/
def popOp (s : GroupClient G C W) (operationId : String) : GroupClient G C W :=
  { s with pendingOps := Function.update s.pendingOps operationId none }

/-- `_queue_mls_claim`. -/
def queueMlsClaim (operationId : String) (s : GroupClient G C W) (userId : ℤ) :
    GroupClient G C W :=
  if userId ≤ 0 then s
  else
    { s with
      pendingClaims :=
        Function.update s.pendingClaims userId (s.pendingClaims userId ++ [operationId]) }

/-- `_apply_mls_group_op`. -/
def applyMlsGroupOp (s : GroupClient G C W) (ctx : OpCtx C W) : GroupClient G C W :=
  if ctx.operationId = "" ∨ ctx.conversationId ≤ 0 then s
  else
    { s with
      sent := s.sent ++ [{
        operationId := ctx.operationId
        operation := ctx.operation
        targets := ctx.targets
        conversationId := ctx.conversationId
        epoch := ctx.epoch.getD (s.groupEpochs ctx.conversationId)
        commit := ctx.commit
        welcomes := ctx.welcomes
        controlB64 := ctx.controlB64 }] }

/-- `create_mls_group` of the session. -/
def createMlsGroup (s : GroupClient G C W) (conv : ℤ) : Option (GroupClient G C W) := do
  let (bridge, g) ← s.bridge.createGroup M conv
  return { s with
    bridge := bridge
    mlsGroupReady := Function.update s.mlsGroupReady conv true
    groupEpochs := Function.update s.groupEpochs conv (M.epoch g) }

/-- `add_mls_members` of the session; empty key packages are left out. -/
def addMlsMembers (s : GroupClient G C W) (conv : ℤ) (keyPackages : List String) :
    Option (GroupClient G C W × G × C × W) := do
  let (bridge, g, c, w) ← s.bridge.addMembers M conv (keyPackages.filter (· ≠ ""))
  return ({ s with
    bridge := bridge
    mlsGroupReady := Function.update s.mlsGroupReady conv true
    groupEpochs := Function.update s.groupEpochs conv (M.epoch g) }, g, c, w)

/-- `remove_mls_members` of the session. -/
def removeMlsMembers (s : GroupClient G C W) (conv : ℤ) (userIds : List ℤ) :
    Option (GroupClient G C W × G × C) := do
  let (bridge, g, c) ← s.bridge.removeMembers M conv (userIds.filter (0 < ·))
  return ({ s with
    bridge := bridge
    groupEpochs := Function.update s.groupEpochs conv (M.epoch g) }, g, c)

/-- `mls_control_message_b64` of the session, for an already serialised control. -/
def mlsControlMessage (s : GroupClient G C W) (conv : ℤ) (plain : String) :
    Option (GroupClient G C W × String) := do
  if s.mlsGroupReady conv = false then none
  let (bridge, message) ← s.bridge.encryptApplication M conv plain
  return ({ s with bridge := bridge }, message)

/-- The first positive number, as `a or b or c` picks it. -/
def orElseId (a b : ℤ) : ℤ := if a ≠ 0 then a else b

/-- `_handle_group_change_prepared`; `plain` is the serialised control message of an operation that
needs one. -/
def handleGroupChangePrepared (s : GroupClient G C W) (operationId : String) (operation : GroupOp)
    (conv target : ℤ) (plain : String) : GroupClient G C W :=
  if operationId = "" ∨ operation = .other "" ∨ conv ≤ 0 then s
  else
    let (intent, s) := s.popPendingMlsPrepare operation conv target
    let ctx : OpCtx C W := {
      operationId := operationId
      operation := operation
      conversationId := conv
      targetUserId := target
      targets := []
      claimed := []
      epoch := none
      commit := none
      welcomes := []
      controlB64 := none }
    let s := s.putOp ctx
    match operation with
    | .createGroup =>
        match s.createMlsGroup M conv with
        | none => s.popOp operationId
        | some s =>
            let ctx := { ctx with targets := intent.members.filter (0 < ·) }
            let s := s.putOp ctx
            if ctx.targets.isEmpty then s.applyMlsGroupOp ctx
            else ctx.targets.foldl (queueMlsClaim operationId) s
    | .addMember =>
        let uid := orElseId target intent.targetUserId
        let s := s.putOp { ctx with targets := if 0 < uid then [uid] else [] }
        if 0 < uid then queueMlsClaim operationId s uid else s
    | .removeMember | .leaveGroup =>
        let uid := orElseId target (orElseId intent.targetUserId s.myUid)
        match s.removeMlsMembers M conv [uid] with
        | none => s.popOp operationId
        | some (s, g, c) =>
            let ctx := { ctx with epoch := some (M.epoch g), commit := some c }
            (s.putOp ctx).applyMlsGroupOp ctx
    | .setMemberRole | .updateGroupInfo =>
        match s.mlsControlMessage M conv plain with
        | none => s.popOp operationId
        | some (s, message) =>
            let ctx := { ctx with controlB64 := some message }
            (s.putOp ctx).applyMlsGroupOp ctx
    | .other _ => s

/-- `_finalize_mls_claimed_op`. -/
def finalizeMlsClaimedOp (s : GroupClient G C W) (ctx : OpCtx C W) : GroupClient G C W :=
  let targets := ctx.targets.filter (0 < ·)
  match targets.mapM (ctx.claimed.lookup ·) with
  | none => s
  | some packages =>
      match s.addMlsMembers M ctx.conversationId (packages.map (·.keyPackageB64)) with
      | none => s.popOp ctx.operationId
      | some (s, g, c, w) =>
          let ctx := { ctx with
            epoch := some (M.epoch g)
            commit := some c
            welcomes := targets.map fun uid => (uid, w) }
          (s.putOp ctx).applyMlsGroupOp ctx

/-- `_handle_mls_key_package`. -/
def handleMlsKeyPackage (s : GroupClient G C W) (msg : KeyPackageMsg) : GroupClient G C W :=
  let s := { s with received := s.received ++ [msg] }
  match s.pendingClaims msg.userId with
  | [] => s
  | operationId :: rest =>
      let s := { s with pendingClaims := Function.update s.pendingClaims msg.userId rest }
      match s.pendingOps operationId with
      | none => s
      | some ctx =>
          if msg.found = false then s.popOp operationId
          else
            let ctx := { ctx with claimed := (msg.userId, msg) :: ctx.claimed }
            (s.putOp ctx).finalizeMlsClaimedOp M ctx

end GroupClient

/-- What the controller reacts to. -/
inductive ClientEvent
  | createGroup (name : String) (members : List ℤ)
  | addToGroup (gid uid : ℤ)
  | change (intent : Intent)
  | prepared (operationId : String) (operation : GroupOp) (conv target : ℤ) (plain : String)
  | keyPackage (msg : KeyPackageMsg)
  | applied (operationId : String)

namespace GroupClient

variable {G C W : Type} (M : OpenMls G C W)

/-- One event. -/
def step (s : GroupClient G C W) : ClientEvent → GroupClient G C W
  | .createGroup name members =>
      { s with pendingPrepare := s.pendingPrepare ++ [⟨.createGroup, 0, 0, members, "", name, ""⟩] }
  | .addToGroup gid uid =>
      { s with pendingPrepare := s.pendingPrepare ++ [⟨.addMember, gid, uid, [], "", "", ""⟩] }
  | .change intent => { s with pendingPrepare := s.pendingPrepare ++ [{ intent with members := [] }] }
  | .prepared operationId operation conv target plain =>
      s.handleGroupChangePrepared M operationId operation conv target plain
  | .keyPackage msg => s.handleMlsKeyPackage M msg
  | .applied operationId => if operationId = "" then s else s.popOp operationId

end GroupClient

/-! ### Authenticated commits -/

section Authenticated

variable {G C W : Type} (M : OpenMls G C W) (P : Prims) (known : ℤ → Bytes)

/-- The key package belongs to the user of the message, and the user signed it. -/
def KeyPackageMsg.Authentic (msg : KeyPackageMsg) : Prop :=
  msg.SignedBy P (known msg.userId) ∧ ∀ leaf, M.parseKeyPackage msg.keyPackageB64 = some leaf →
    credentialUserId leaf.credential = some msg.userId

/-- Every leaf that the commit adds names a distinct one of the targets, and came in a key package
signed under the identity key that the client knows for that target. -/
def Authenticated (received : List KeyPackageMsg) (targets : List ℤ) (c : C) : Prop :=
  (∀ leaf ∈ M.added c, ∃ uid ∈ targets, credentialUserId leaf.credential = some uid ∧
    ∃ msg ∈ received, M.parseKeyPackage msg.keyPackageB64 = some leaf ∧ msg.SignedBy P (known uid)) ∧
  ((M.added c).map fun leaf => credentialUserId leaf.credential).Nodup

namespace GroupClient

/-- Every commit sent to create a group or to add a member is authenticated. -/
def SentAuthenticated (s : GroupClient G C W) : Prop :=
  ∀ a ∈ s.sent, a.operation = .createGroup ∨ a.operation = .addMember →
    ∀ c, a.commit = some c → Authenticated M P known s.received a.targets c

/-- The condition on an event: the user names nobody twice, and a key package that answers a claim
of a pending operation is authentic. -/
def Genuine (s : GroupClient G C W) : ClientEvent → Prop
  | .createGroup _ members => members.Nodup
  | .keyPackage msg =>
      ∀ operationId rest ctx, s.pendingClaims msg.userId = operationId :: rest →
        s.pendingOps operationId = some ctx → msg.found = true → msg.Authentic M P known
  | _ => True

/-- What is known of a pending operation. -/
structure CtxOk (received : List KeyPackageMsg) (ctx : OpCtx C W) : Prop where
  targets : ctx.targets.Nodup
  claimed : ∀ uid msg, (uid, msg) ∈ ctx.claimed →
    msg.userId = uid ∧ msg ∈ received ∧ msg.Authentic M P known

/-- The invariant. -/
structure Inv (s : GroupClient G C W) : Prop where
  intents : ∀ i ∈ s.pendingPrepare, i.members.Nodup
  ops : ∀ id ctx, s.pendingOps id = some ctx → CtxOk M P known s.received ctx
  sent : s.SentAuthenticated M P known

variable {M P known} {s : GroupClient G C W}

theorem Inv.popOp (h : s.Inv M P known) (id : String) : (s.popOp id).Inv M P known := by
  refine ⟨h.intents, fun id' ctx hctx => ?_, h.sent⟩
  by_cases hid : id' = id
  · subst hid
    simp [GroupClient.popOp] at hctx
  · simp only [GroupClient.popOp, Function.update_of_ne hid] at hctx
    exact h.ops id' ctx hctx

theorem Inv.putOp (h : s.Inv M P known) {ctx : OpCtx C W} (hctx : CtxOk M P known s.received ctx) :
    (s.putOp ctx).Inv M P known := by
  refine ⟨h.intents, fun id' ctx' hctx' => ?_, h.sent⟩
  by_cases hid : id' = ctx.operationId
  · subst hid
    simp only [GroupClient.putOp, Function.update_self, Option.some.injEq] at hctx'
    exact hctx' ▸ hctx
  · simp only [GroupClient.putOp, Function.update_of_ne hid] at hctx'
    exact h.ops id' ctx' hctx'

/-- Sending keeps the invariant when the commit is authenticated or nothing is added. -/
theorem Inv.apply (h : s.Inv M P known) {ctx : OpCtx C W}
    (hctx : ctx.operation = .createGroup ∨ ctx.operation = .addMember →
      ∀ c, ctx.commit = some c → Authenticated M P known s.received ctx.targets c) :
    (s.applyMlsGroupOp ctx).Inv M P known := by
  unfold applyMlsGroupOp
  split
  · exact h
  · refine ⟨h.intents, h.ops, fun a ha => ?_⟩
    rcases List.mem_append.mp ha with ha | ha
    · exact h.sent a ha
    · obtain rfl := List.mem_singleton.mp ha
      exact hctx

/-- What a state with the same intents, operations, messages and received packages inherits. -/
theorem Inv.congr (h : s.Inv M P known) {s' : GroupClient G C W}
    (hprep : s'.pendingPrepare = s.pendingPrepare) (hops : s'.pendingOps = s.pendingOps)
    (hsent : s'.sent = s.sent) (hrec : s'.received = s.received) : s'.Inv M P known := by
  refine ⟨hprep ▸ h.intents, ?_, ?_⟩
  · rw [hops, hrec]
    exact h.ops
  · unfold SentAuthenticated
    rw [hsent, hrec]
    exact h.sent

theorem Inv.queue (h : s.Inv M P known) (id : String) (uid : ℤ) :
    (queueMlsClaim id s uid).Inv M P known := by
  unfold queueMlsClaim
  split
  · exact h
  · exact h.congr rfl rfl rfl rfl

theorem Inv.queueAll (h : s.Inv M P known) (id : String) (uids : List ℤ) :
    (uids.foldl (queueMlsClaim id) s).Inv M P known := by
  induction uids generalizing s with
  | nil => exact h
  | cons uid uids ih => exact ih (h.queue id uid)

theorem Inv.pop (h : s.Inv M P known) (operation : GroupOp) (conv target : ℤ) :
    (s.popPendingMlsPrepare operation conv target).1.members.Nodup ∧
      (s.popPendingMlsPrepare operation conv target).2.Inv M P known := by
  unfold popPendingMlsPrepare
  split
  · next i hi =>
    have hmem := List.mem_of_find?_eq_some hi
    refine ⟨h.intents i hmem, fun j hj => ?_, h.ops, h.sent⟩
    exact h.intents j (List.mem_of_mem_erase hj)
  · exact ⟨List.nodup_nil, h⟩

/-! ### One event -/

/-- What adding members does to the session. -/
theorem addMlsMembers_spec {conv : ℤ} {kps : List String} {s' : GroupClient G C W} {g' : G} {c : C}
    {w : W} (hadd : s.addMlsMembers M conv kps = some (s', g', c, w)) :
    ∃ g ps, s.bridge conv = some g ∧ (kps.filter (· ≠ "")).mapM M.parseKeyPackage = some ps ∧
      M.addMembers g ps = some (g', c, w) ∧
      s' = { s with
        bridge := Function.update s.bridge conv (some g')
        mlsGroupReady := Function.update s.mlsGroupReady conv true
        groupEpochs := Function.update s.groupEpochs conv (M.epoch g') } := by
  unfold GroupClient.addMlsMembers at hadd
  obtain ⟨⟨b, g₁, c₁, w₁⟩, hb, hret⟩ := Option.bind_eq_some_iff.mp hadd
  simp only [pure, Option.some.injEq, Prod.mk.injEq] at hret
  obtain ⟨rfl, rfl, rfl, rfl⟩ := hret
  unfold Bridge.addMembers at hb
  obtain ⟨packages, hparse, hb⟩ := Option.bind_eq_some_iff.mp hb
  cases packages with
  | nil => simp at hb
  | cons p ps =>
    simp only [List.isEmpty_cons, Bool.false_eq_true, if_false] at hb
    obtain ⟨-, -, hb⟩ := Option.bind_eq_some_iff.mp hb
    obtain ⟨g, hg, hb⟩ := Option.bind_eq_some_iff.mp hb
    obtain ⟨⟨g₂, c₂, w₂⟩, hcall, hb⟩ := Option.bind_eq_some_iff.mp hb
    simp only [pure, Option.some.injEq, Prod.mk.injEq] at hb
    obtain ⟨rfl, rfl, rfl, rfl⟩ := hb
    exact ⟨g, _, hg, hparse, hcall, rfl⟩

/-- The session's call changes the bridge, the readiness and the epochs only. -/
theorem Inv.addMlsMembers (h : s.Inv M P known) {conv : ℤ} {kps : List String}
    {s' : GroupClient G C W} {g : G} {c : C} {w : W}
    (hadd : s.addMlsMembers M conv kps = some (s', g, c, w)) :
    s'.Inv M P known ∧ s'.received = s.received := by
  obtain ⟨_, _, -, -, -, rfl⟩ := addMlsMembers_spec hadd
  exact ⟨h.congr rfl rfl rfl rfl, rfl⟩

/-- The leaves of the commit are the parsed key packages that are not empty. -/
theorem added_of_addMlsMembers (hM : M.Lawful) {conv : ℤ} {kps : List String}
    {s' : GroupClient G C W} {g : G} {c : C} {w : W}
    (hadd : s.addMlsMembers M conv kps = some (s', g, c, w)) :
    (kps.filter (· ≠ "")).mapM M.parseKeyPackage = some (M.added c) := by
  obtain ⟨_, ps, -, hparse, hcall, -⟩ := addMlsMembers_spec hadd
  rw [hM.added_addMembers hcall]
  exact hparse

theorem mapM_some_iff {α β : Type} {f : α → Option β} {l : List α} {l' : List β} :
    l.mapM f = some l' ↔ List.Forall₂ (fun a b => f a = some b) l l' := by
  induction l generalizing l' with
  | nil => simp [eq_comm]
  | cons a l ih =>
    rw [List.mapM_cons, List.forall₂_cons_left_iff]
    constructor
    · intro h
      obtain ⟨b, hb, h⟩ := Option.bind_eq_some_iff.mp h
      obtain ⟨bs, hbs, h⟩ := Option.bind_eq_some_iff.mp h
      exact ⟨b, bs, hb, ih.mp hbs, (Option.some.inj h).symm⟩
    · rintro ⟨b, bs, hb, hbs, rfl⟩
      simp [hb, ih.mpr hbs]

/-- The packages claimed for distinct targets name these targets. -/
theorem claimed_users {received : List KeyPackageMsg} {ctx : OpCtx C W}
    (hctx : CtxOk M P known received ctx) {uids : List ℤ} {packages : List KeyPackageMsg}
    (h : List.Forall₂ (fun uid msg => ctx.claimed.lookup uid = some msg) uids packages) :
    packages.map (·.userId) = uids ∧
      ∀ msg ∈ packages, msg ∈ received ∧ msg.Authentic M P known := by
  induction h with
  | nil => simp
  | @cons uid msg uids packages hlook _ ih =>
    obtain ⟨l, l', hsplit, -⟩ := List.lookup_eq_some_iff.mp hlook
    obtain ⟨hu, hr, ha⟩ := hctx.claimed uid msg (by simp [hsplit])
    refine ⟨by simp [hu, ih.1], fun m hm => ?_⟩
    rcases List.mem_cons.mp hm with rfl | hm
    · exact ⟨hr, ha⟩
    · exact ih.2 m hm

/-- Leaves parsed from authentic packages carry the users of these packages. -/
theorem leaf_users {packages : List KeyPackageMsg} {leaves : List Leaf}
    (h : List.Forall₂ (fun text leaf => M.parseKeyPackage text = some leaf)
      ((packages.map (·.keyPackageB64)).filter (· ≠ "")) leaves)
    (hauth : ∀ msg ∈ packages, msg.Authentic M P known) :
    (leaves.map fun leaf => credentialUserId leaf.credential).Sublist
        (packages.map fun msg => some msg.userId) ∧
      ∀ leaf ∈ leaves, ∃ msg ∈ packages, M.parseKeyPackage msg.keyPackageB64 = some leaf := by
  induction packages generalizing leaves with
  | nil =>
    obtain rfl := List.forall₂_nil_left_iff.mp h
    simp
  | cons msg packages ih =>
    have hrest : ∀ m ∈ packages, m.Authentic M P known :=
      fun m hm => hauth m (List.mem_cons_of_mem _ hm)
    by_cases hempty : msg.keyPackageB64 = ""
    · -- an empty package adds no leaf
      simp only [List.map_cons, hempty, ne_eq, not_true_eq_false, decide_false,
        Bool.false_eq_true, not_false_eq_true, List.filter_cons_of_neg] at h
      obtain ⟨hsub, hfrom⟩ := ih h hrest
      refine ⟨hsub.trans (List.sublist_cons_self _ _), fun leaf hleaf => ?_⟩
      obtain ⟨m, hm, hp⟩ := hfrom leaf hleaf
      exact ⟨m, List.mem_cons_of_mem _ hm, hp⟩
    · simp only [List.map_cons, ne_eq, hempty, not_false_eq_true, decide_true,
        List.filter_cons_of_pos] at h
      obtain ⟨leaf, rest, hleaf, hforall, rfl⟩ := List.forall₂_cons_left_iff.mp h
      obtain ⟨hsub, hfrom⟩ := ih hforall hrest
      constructor
      · rw [List.map_cons, List.map_cons, (hauth msg List.mem_cons_self).2 leaf hleaf]
        exact hsub.cons_cons _
      · intro l hl
        rcases List.mem_cons.mp hl with rfl | hl
        · exact ⟨msg, List.mem_cons_self, hleaf⟩
        · obtain ⟨m, hm, hp⟩ := hfrom l hl
          exact ⟨m, List.mem_cons_of_mem _ hm, hp⟩

/-- The commit made of the packages claimed for an operation is authenticated. -/
theorem authenticated_of_claimed (hM : M.Lawful) {ctx : OpCtx C W}
    (hctx : CtxOk M P known s.received ctx) {packages : List KeyPackageMsg}
    (hclaimed : (ctx.targets.filter (0 < ·)).mapM (ctx.claimed.lookup ·) = some packages)
    {conv : ℤ} {s' : GroupClient G C W} {g : G} {c : C} {w : W}
    (hadd : s.addMlsMembers M conv (packages.map (·.keyPackageB64)) = some (s', g, c, w)) :
    Authenticated M P known s.received ctx.targets c := by
  obtain ⟨husers, hgood⟩ := claimed_users hctx (mapM_some_iff.mp hclaimed)
  obtain ⟨hsub, hfrom⟩ := leaf_users (mapM_some_iff.mp (added_of_addMlsMembers hM hadd))
    fun msg hmsg => (hgood msg hmsg).2
  constructor
  · intro leaf hleaf
    obtain ⟨msg, hmsg, hparse⟩ := hfrom leaf hleaf
    obtain ⟨hrec, hauth⟩ := hgood msg hmsg
    have hmem : msg.userId ∈ ctx.targets.filter (0 < ·) := by
      rw [← husers]
      exact List.mem_map_of_mem hmsg
    exact ⟨msg.userId, (List.mem_filter.mp hmem).1, hauth.2 leaf hparse, msg, hrec, hparse, hauth.1⟩
  · have hnodup : ((packages.map (·.userId)).map some).Nodup := by
      rw [husers]
      exact (hctx.targets.filter _).map (Option.some_injective _)
    rw [List.map_map] at hnodup
    exact hsub.nodup hnodup

theorem Inv.finalize (hM : M.Lawful) (h : s.Inv M P known) {ctx : OpCtx C W}
    (hctx : CtxOk M P known s.received ctx) : (s.finalizeMlsClaimedOp M ctx).Inv M P known := by
  unfold finalizeMlsClaimedOp
  dsimp only
  split
  · exact h
  · next packages hclaimed =>
    split
    · exact h.popOp _
    · next s' g c w hadd =>
      obtain ⟨h', hrec⟩ := h.addMlsMembers hadd
      have hauth := authenticated_of_claimed hM hctx hclaimed hadd
      rw [← hrec] at hctx hauth
      refine (h'.putOp ?_).apply ?_
      · exact ⟨hctx.targets, hctx.claimed⟩
      · intro _ c' hc'
        obtain rfl := Option.some.inj hc'
        exact hauth

/-- What was received before is still there. -/
theorem Inv.receive (h : s.Inv M P known) (msg : KeyPackageMsg) :
    Inv M P known { s with received := s.received ++ [msg] } := by
  refine ⟨h.intents, fun id ctx hctx => ?_, fun a ha hop c hc => ?_⟩
  · obtain ⟨htargets, hclaimed⟩ := h.ops id ctx hctx
    refine ⟨htargets, fun uid m hm => ?_⟩
    obtain ⟨hu, hr, ha⟩ := hclaimed uid m hm
    exact ⟨hu, List.mem_append_left _ hr, ha⟩
  · obtain ⟨hleaves, hnodup⟩ := h.sent a ha hop c hc
    refine ⟨fun leaf hleaf => ?_, hnodup⟩
    obtain ⟨uid, huid, hcred, m, hm, hrest⟩ := hleaves leaf hleaf
    exact ⟨uid, huid, hcred, m, List.mem_append_left _ hm, hrest⟩

theorem Inv.keyPackage (hM : M.Lawful) (h : s.Inv M P known) {msg : KeyPackageMsg}
    (hgen : s.Genuine M P known (.keyPackage msg)) :
    (s.handleMlsKeyPackage M msg).Inv M P known := by
  have hrec := h.receive msg
  unfold handleMlsKeyPackage
  dsimp only
  split
  · exact hrec
  · next operationId rest hclaims =>
    have hs : Inv M P known { s with
        received := s.received ++ [msg]
        pendingClaims := Function.update s.pendingClaims msg.userId rest } :=
      hrec.congr rfl rfl rfl rfl
    split
    · exact hs
    · next ctx hop =>
      split
      · exact hs.popOp _
      · next hfound =>
        have hauth := hgen operationId rest ctx hclaims hop (Bool.eq_true_of_not_eq_false hfound)
        obtain ⟨htargets, hclaimed⟩ := hs.ops operationId ctx hop
        have hctx : CtxOk M P known (s.received ++ [msg])
            { ctx with claimed := (msg.userId, msg) :: ctx.claimed } := by
          refine ⟨htargets, fun uid m hm => ?_⟩
          rcases List.mem_cons.mp hm with heq | hm
          · obtain ⟨rfl, rfl⟩ := Prod.mk.inj heq
            exact ⟨rfl, by simp, hauth⟩
          · exact hclaimed uid m hm
        exact (hs.putOp hctx).finalize hM hctx

/-- The session's other calls do not touch what the invariant speaks of. -/
theorem Inv.createMlsGroup (h : s.Inv M P known) {conv : ℤ} {s' : GroupClient G C W}
    (hcall : s.createMlsGroup M conv = some s') : s'.Inv M P known := by
  unfold GroupClient.createMlsGroup at hcall
  obtain ⟨⟨b, g⟩, -, hret⟩ := Option.bind_eq_some_iff.mp hcall
  obtain rfl := Option.some.inj hret
  exact h.congr rfl rfl rfl rfl

theorem removeMlsMembers_spec {conv : ℤ} {uids : List ℤ} {s' : GroupClient G C W} {g' : G} {c : C}
    (hcall : s.removeMlsMembers M conv uids = some (s', g', c)) :
    ∃ g, s.bridge conv = some g ∧
      M.removeMembers g (Bridge.leavesOf M g (uids.filter (0 < ·))) = some (g', c) ∧
      s' = { s with
        bridge := Function.update s.bridge conv (some g')
        groupEpochs := Function.update s.groupEpochs conv (M.epoch g') } := by
  unfold GroupClient.removeMlsMembers at hcall
  obtain ⟨⟨b, g₁, c₁⟩, hb, hret⟩ := Option.bind_eq_some_iff.mp hcall
  simp only [pure, Option.some.injEq, Prod.mk.injEq] at hret
  obtain ⟨rfl, rfl, rfl⟩ := hret
  unfold Bridge.removeMembers at hb
  split at hb
  · simp at hb
  · obtain ⟨-, -, hb⟩ := Option.bind_eq_some_iff.mp hb
    obtain ⟨g, hg, hb⟩ := Option.bind_eq_some_iff.mp hb
    dsimp only at hb
    split at hb
    · simp at hb
    · obtain ⟨-, -, hb⟩ := Option.bind_eq_some_iff.mp hb
      obtain ⟨⟨g₂, c₂⟩, hremove, hb⟩ := Option.bind_eq_some_iff.mp hb
      simp only [pure, Option.some.injEq, Prod.mk.injEq] at hb
      obtain ⟨rfl, rfl, rfl⟩ := hb
      exact ⟨g, hg, hremove, rfl⟩

theorem Inv.removeMlsMembers (h : s.Inv M P known) {conv : ℤ} {uids : List ℤ}
    {s' : GroupClient G C W} {g : G} {c : C}
    (hcall : s.removeMlsMembers M conv uids = some (s', g, c)) : s'.Inv M P known := by
  obtain ⟨_, -, -, rfl⟩ := removeMlsMembers_spec hcall
  exact h.congr rfl rfl rfl rfl

theorem Inv.mlsControlMessage (h : s.Inv M P known) {conv : ℤ} {plain message : String}
    {s' : GroupClient G C W}
    (hcall : s.mlsControlMessage M conv plain = some (s', message)) : s'.Inv M P known := by
  unfold GroupClient.mlsControlMessage at hcall
  split at hcall
  · simp at hcall
  · obtain ⟨-, -, hcall⟩ := Option.bind_eq_some_iff.mp hcall
    obtain ⟨⟨b, m⟩, -, hret⟩ := Option.bind_eq_some_iff.mp hcall
    obtain ⟨rfl, -⟩ := Prod.mk.inj (Option.some.inj hret)
    exact h.congr rfl rfl rfl rfl

theorem CtxOk.fresh (received : List KeyPackageMsg) {ctx : OpCtx C W}
    (htargets : ctx.targets.Nodup) (hclaimed : ctx.claimed = []) :
    CtxOk M P known received ctx :=
  ⟨htargets, by simp [hclaimed]⟩

theorem Inv.prepared (h : s.Inv M P known) (operationId : String) (operation : GroupOp)
    (conv target : ℤ) (plain : String) :
    (s.handleGroupChangePrepared M operationId operation conv target plain).Inv M P known := by
  unfold handleGroupChangePrepared
  split
  · exact h
  · obtain ⟨hmembers, hpop⟩ := h.pop operation conv target
    dsimp only
    generalize s.popPendingMlsPrepare operation conv target = popped at hmembers hpop
    obtain ⟨intent, s⟩ := popped
    dsimp only at hmembers hpop ⊢
    have hput : ∀ ctx : OpCtx C W, ctx.targets = [] → ctx.claimed = [] →
        (s.putOp ctx).Inv M P known :=
      fun ctx ht hc => hpop.putOp (CtxOk.fresh _ (ht ▸ List.nodup_nil) hc)
    cases operation with
    | createGroup =>
      dsimp only
      split
      · exact (hput _ rfl rfl).popOp _
      · next s' hcall =>
        have hs' := (hput _ rfl rfl).createMlsGroup hcall
        split
        · refine (hs'.putOp (CtxOk.fresh _ (hmembers.filter _) rfl)).apply ?_
          simp
        · exact (hs'.putOp (CtxOk.fresh _ (hmembers.filter _) rfl)).queueAll _ _
    | addMember =>
      dsimp only
      split
      · exact ((hput _ rfl rfl).putOp (CtxOk.fresh _ (List.nodup_singleton _) rfl)).queue _ _
      · exact (hput _ rfl rfl).putOp (CtxOk.fresh _ List.nodup_nil rfl)
    | removeMember | leaveGroup =>
      dsimp only
      split
      · exact (hput _ rfl rfl).popOp _
      · next s' g c hcall =>
        have hs' := (hput _ rfl rfl).removeMlsMembers hcall
        refine (hs'.putOp (CtxOk.fresh _ List.nodup_nil rfl)).apply ?_
        simp
    | setMemberRole | updateGroupInfo =>
      dsimp only
      split
      · exact (hput _ rfl rfl).popOp _
      · next s' message hcall =>
        have hs' := (hput _ rfl rfl).mlsControlMessage hcall
        refine (hs'.putOp (CtxOk.fresh _ List.nodup_nil rfl)).apply ?_
        simp
    | other name => exact hput _ rfl rfl

theorem Inv.intend (h : s.Inv M P known) {intent : Intent} (hmembers : intent.members.Nodup) :
    Inv M P known { s with pendingPrepare := s.pendingPrepare ++ [intent] } := by
  refine ⟨fun i hi => ?_, h.ops, h.sent⟩
  rcases List.mem_append.mp hi with hi | hi
  · exact h.intents i hi
  · obtain rfl := List.mem_singleton.mp hi
    exact hmembers

/-- **One event.**  Under its condition every event keeps the invariant. -/
theorem Inv.step (hM : M.Lawful) (h : s.Inv M P known) {e : ClientEvent}
    (hgen : s.Genuine M P known e) : (s.step M e).Inv M P known := by
  cases e with
  | createGroup name members => exact h.intend hgen
  | addToGroup gid uid => exact h.intend List.nodup_nil
  | change intent => exact h.intend List.nodup_nil
  | prepared operationId operation conv target plain => exact h.prepared _ _ _ _ _
  | keyPackage msg => exact h.keyPackage hM hgen
  | applied operationId =>
    simp only [GroupClient.step]
    split
    · exact h
    · exact h.popOp _

/-- The controller after the login. -/
def start (myUid : ℤ) (bridge : Bridge G) (mlsGroupReady : ℤ → Bool) (groupEpochs : ℤ → ℤ) :
    GroupClient G C W :=
  ⟨myUid, bridge, mlsGroupReady, groupEpochs, [], [], fun _ => none, fun _ => [], [], []⟩

/-- **Adds are authenticated.**  In every run from the login in which nobody is named twice and
every key package that the client takes for a target is the target's own, signed one, all commits
that create a group or add a member are authenticated, whatever else the server sends. -/
theorem adds_authenticated (hM : M.Lawful) (myUid : ℤ) (bridge : Bridge G)
    (mlsGroupReady : ℤ → Bool) (groupEpochs : ℤ → ℤ) (events : List ClientEvent)
    (hgen : Runs.Each (GroupClient.step M) (Genuine M P known)
      (start myUid bridge mlsGroupReady groupEpochs) events) :
    Runs.Always (GroupClient.step M) (SentAuthenticated M P known)
      (start myUid bridge mlsGroupReady groupEpochs) events := by
  have hstart : Inv M P known (start (C := C) (W := W) myUid bridge mlsGroupReady groupEpochs) := by
    refine ⟨?_, ?_, ?_⟩ <;> simp [start, SentAuthenticated]
  have hrun := Runs.always_of_each (P := Inv M P known) (C := Genuine M P known)
    (fun s e hs hC => Inv.step hM hs hC) hstart hgen
  exact hrun.imp fun s hs => hs.sent

end GroupClient

end Authenticated

/-! ### Two runs -/

/-- The answer to a claim for user 2, with the key package of some user. -/
def claimAnswer (owner : ℤ) (secchatSignature : String) : KeyPackageMsg where
  userId := 2
  found := true
  keyPackageB64 := b64e (userCredential owner)
  keyPackageRef := "ref"
  ciphersuite := "suite"
  secchatSignature := secchatSignature

/-- User 1 adds user 2 to group 5, and the server answers with a key package. -/
def addingRun (msg : KeyPackageMsg) : List ClientEvent :=
  [.addToGroup 5 2, .prepared "op" .addMember 5 2 "", .keyPackage msg]

/-- User 1 in a group of its own, whose identity keys for others are their numbers. -/
def adder : GroupClient Transcript (Transcript × Change) Transcript :=
  .start 1 (Function.update (fun _ => none) 5 (some ⟨5, ⟨userCredential 1⟩, []⟩)) (fun _ => true)
    fun _ => 0

/-- The signed answer of user 2. -/
def signedAnswer : KeyPackageMsg :=
  let msg := claimAnswer 2 ""
  { msg with secchatSignature := b64e (termOf [userCredential 2, mlsKeyPackageSigMsg msg]) }

theorem parse_claimAnswer (owner : ℤ) (sig : String) :
    (transcriptMls ⟨userCredential 1⟩).parseKeyPackage (claimAnswer owner sig).keyPackageB64 =
      some ⟨userCredential owner⟩ := by
  simp [transcriptMls, claimAnswer, Except.toOption]

theorem signedAnswer_authentic :
    signedAnswer.Authentic (transcriptMls ⟨userCredential 1⟩) termPrims userCredential := by
  constructor
  · exact ⟨_, b64d_b64e _, by simp [termPrims, signedAnswer, mlsKeyPackageSigMsg, claimAnswer]⟩
  · intro leaf hleaf
    have hparse := parse_claimAnswer 2 ""
    have heq : leaf = ⟨userCredential 2⟩ := Option.some.inj (hleaf.symm.trans hparse)
    rw [heq]
    exact credentialUserId_userCredential (by decide)

/-- What the client has sent after the run: operation, targets and change of each message. -/
def sentChanges (msg : KeyPackageMsg) : List (GroupOp × List ℤ × Option Change) :=
  ((addingRun msg).foldl (GroupClient.step (transcriptMls ⟨userCredential 1⟩)) adder).sent.map
    fun a => (a.operation, a.targets, a.commit.map (·.2))

/-- **An unsigned key package of somebody else is added.**  The client asked for user 2 and sends a
commit that adds user 9. -/
theorem stranger_added :
    sentChanges (claimAnswer 9 "") = [(.addMember, [2], some (.add [⟨userCredential 9⟩]))] ∧
    ¬ Runs.Always (GroupClient.step (transcriptMls ⟨userCredential 1⟩))
      (GroupClient.SentAuthenticated (transcriptMls ⟨userCredential 1⟩) termPrims userCredential)
      adder (addingRun (claimAnswer 9 "")) := by
  have hsent : sentChanges (claimAnswer 9 "") =
      [(.addMember, [2], some (.add [⟨userCredential 9⟩]))] := by decide +kernel
  refine ⟨hsent, fun hall => ?_⟩
  have hend := Runs.always_iff_prefixes.mp hall _ (List.prefix_refl _)
  unfold sentChanges at hsent
  obtain ⟨a, rest, hcons, ha, -⟩ := List.map_eq_cons_iff.mp hsent
  simp only [Prod.mk.injEq, Option.map_eq_some_iff] at ha
  obtain ⟨hop, htargets, c, hc, hchange⟩ := ha
  obtain ⟨hleaves, -⟩ := hend a (by simp [hcons]) (.inr hop) c hc
  obtain ⟨uid, huid, hcred, -⟩ := hleaves ⟨userCredential 9⟩ (by simp [transcriptMls, hchange])
  rw [htargets, List.mem_singleton] at huid
  rw [credentialUserId_userCredential (by decide), huid] at hcred
  simp at hcred

theorem adds_authenticated_of_signedAnswer :
    sentChanges signedAnswer = [(.addMember, [2], some (.add [⟨userCredential 2⟩]))] ∧
    Runs.Always (GroupClient.step (transcriptMls ⟨userCredential 1⟩))
      (GroupClient.SentAuthenticated (transcriptMls ⟨userCredential 1⟩) termPrims userCredential)
      adder (addingRun signedAnswer) := by
  refine ⟨by decide +kernel, GroupClient.adds_authenticated (transcriptMls_lawful _) _ _ _ _ _ ?_⟩
  refine ⟨trivial, trivial, ?_, trivial⟩
  intro operationId rest ctx _ _ _
  exact signedAnswer_authentic

end SecChat
