import SecChat.Group.AddMembers
import SecChat.Library.FirstFit

/-!
# Intents and prepared operations

Every action on a group is saved as an intent and sent to the server with `prepare_group_change`.
The answer `group_change_prepared` carries a new operation id, the operation and its ids, but not
the request it answers: `_pop_pending_mls_prepare` takes the first intent in the list that fits.  An
error answers a request too, and takes no intent out.

* `UserAction`, `prepareMessage`: the actions, with what is saved and what is sent;
* `Controller`: a client with the requests and answers so far, and what each answer was completed
  with;
* `OwnIntents`: every prepared operation was completed with the intent of its own request;
* `own_intents_iff`: that is so just when no earlier request that was refused or is still open fits
  an answer;
* `intent_of_refused_request`: after a refusal the next group gets the wrong members.
-/

open Py

namespace SecChat.PreparedIntents

/-! ### Requests -/

/-- The user's actions on groups. -/
inductive UserAction
  | createGroup (name : String) (members : List ℤ)
  | addMember (gid uid : ℤ)
  | removeMember (gid uid : ℤ)
  | setMemberRole (gid uid : ℤ) (role : String)
  | updateGroupInfo (gid : ℤ) (name description : String)
  | leaveGroup (gid : ℤ)

/-- `_handle_ui_command` saves an intent for a positive group id only. -/
def commandIntent (gid : ℤ) (intent : Intent) : Option Intent :=
  if 0 < gid then some intent else none

namespace UserAction

/-- The intent that is saved. -/
def intent (myUid : ℤ) : UserAction → Option Intent
  | createGroup name members => some ⟨.createGroup, 0, 0, members, "", name, ""⟩
  | addMember gid uid => some ⟨.addMember, gid, uid, [], "", "", ""⟩
  | removeMember gid uid => commandIntent gid ⟨.removeMember, gid, uid, [], "", "", ""⟩
  | setMemberRole gid uid role => commandIntent gid ⟨.setMemberRole, gid, uid, [], role, "", ""⟩
  | updateGroupInfo gid name description =>
      commandIntent gid ⟨.updateGroupInfo, gid, 0, [], "", name, description⟩
  | leaveGroup gid => commandIntent gid ⟨.leaveGroup, gid, myUid, [], "", "", ""⟩

/-- The event of the client. -/
def event (i : Intent) : UserAction → ClientEvent
  | createGroup name members => .createGroup name members
  | addMember gid uid => .addToGroup gid uid
  | _ => .change i

end UserAction

/-- `prepare_group_change`. -/
structure PrepareMessage where
  operation : GroupOp
  conversationId : Option ℤ
  userId : Option ℤ
  role : Option String
  name : Option String
  description : Option String
  members : Option (List ℤ)

/-- What is sent for an intent. -/
def prepareMessage (i : Intent) : PrepareMessage :=
  match i.operation with
  | .createGroup => ⟨.createGroup, none, none, none, some i.name, none, some i.members⟩
  | .addMember => ⟨.addMember, some i.conversationId, some i.targetUserId, none, none, none, none⟩
  | operation =>
      { operation := operation
        conversationId := some i.conversationId
        userId := if 0 < i.targetUserId then some i.targetUserId else none
        role := if i.role ≠ "" then some i.role else none
        name := if operation = .updateGroupInfo then some i.name else none
        description := if operation = .updateGroupInfo then some i.description else none
        members := none }

/-- What goes into MLS besides the ids of the answer: the members of a new group, or the content of
a control message. -/
structure MlsContent where
  members : List ℤ
  role : String
  name : String
  description : String
  deriving DecidableEq

/-- The content that the client takes from an intent. -/
def mlsContent (operation : GroupOp) (i : Intent) : MlsContent :=
  match operation with
  | .createGroup => ⟨i.members.filter (0 < ·), "", "", ""⟩
  | .setMemberRole | .updateGroupInfo => ⟨[], i.role, i.name, i.description⟩
  | _ => ⟨[], "", "", ""⟩

/-- The content of a request, which the server keeps under the operation id. -/
def PrepareMessage.mlsContent (m : PrepareMessage) : MlsContent :=
  match m.operation with
  | .createGroup => ⟨(m.members.getD []).filter (0 < ·), "", "", ""⟩
  | .setMemberRole | .updateGroupInfo =>
      ⟨[], m.role.getD "", m.name.getD "", m.description.getD ""⟩
  | _ => ⟨[], "", "", ""⟩

/-- The client puts into MLS what the request of the intent says. -/
theorem mlsContent_prepareMessage {a : UserAction} {myUid : ℤ} {i : Intent}
    (h : a.intent myUid = some i) :
    (prepareMessage i).mlsContent = mlsContent i.operation i := by
  cases a with
  | createGroup name members =>
    obtain rfl := Option.some.inj h
    rfl
  | addMember gid uid =>
    obtain rfl := Option.some.inj h
    rfl
  | removeMember gid uid =>
    simp only [UserAction.intent, commandIntent, Option.ite_none_right_eq_some] at h
    obtain rfl := Option.some.inj h.2
    rfl
  | setMemberRole gid uid role =>
    simp only [UserAction.intent, commandIntent, Option.ite_none_right_eq_some] at h
    obtain rfl := Option.some.inj h.2
    by_cases hrole : role = "" <;>
      simp [prepareMessage, PrepareMessage.mlsContent, mlsContent, hrole]
  | updateGroupInfo gid name description =>
    simp only [UserAction.intent, commandIntent, Option.ite_none_right_eq_some] at h
    obtain rfl := Option.some.inj h.2
    rfl
  | leaveGroup gid =>
    simp only [UserAction.intent, commandIntent, Option.ite_none_right_eq_some] at h
    obtain rfl := Option.some.inj h.2
    rfl

/-! ### Answers -/

/-- `group_change_prepared` without its operation id. -/
structure PreparedReply where
  operation : GroupOp
  conversationId : ℤ
  targetUserId : ℤ

/-- The answers that the server can give to a request: the operation and the ids of the request,
where a new group gets a new id. -/
def Answers (i : Intent) (r : PreparedReply) : Prop :=
  r.operation = i.operation ∧ 0 < r.conversationId ∧
    (i.conversationId = 0 ∨ r.conversationId = i.conversationId) ∧ r.targetUserId = i.targetUserId

instance (i : Intent) (r : PreparedReply) : Decidable (Answers i r) :=
  inferInstanceAs (Decidable (_ ∧ _))

/-- Whether `_pop_pending_mls_prepare` takes an intent for an answer. -/
def fitsReply (i : Intent) (r : PreparedReply) : Bool :=
  GroupClient.Intent.fits i r.operation r.conversationId r.targetUserId

theorem fitsReply_of_answers (i : Intent) (r : PreparedReply) (h : Answers i r) :
    fitsReply i r = true := by
  obtain ⟨hop, -, hconv, htarget⟩ := h
  unfold fitsReply GroupClient.Intent.fits
  rcases hconv with hconv | hconv
  · simp [hop, hconv, htarget]
  · simp [hop, hconv, htarget]

/-! ### The client and its list -/

section Client

variable {G C W : Type} {M : OpenMls G C W} {s : GroupClient G C W}

/-- Erasing the entry that is found is erasing the first one that fits. -/
theorem erase_eq_eraseP {γ : Type} [DecidableEq γ] {p : γ → Bool} {l : List γ} {x : γ}
    (h : l.find? p = some x) : l.erase x = l.eraseP p := by
  induction l with
  | nil => cases h
  | cons y l ih =>
    rw [List.find?_cons] at h
    cases hp : p y with
    | true =>
      rw [hp] at h
      obtain rfl := Option.some.inj h
      rw [List.erase_cons_head, List.eraseP_cons_of_pos hp]
    | false =>
      rw [hp] at h
      have hx : p x = true := List.find?_some h
      have hne : y ≠ x := by
        rintro rfl
        rw [hp] at hx
        cases hx
      rw [List.erase_cons_tail (by simpa using hne), List.eraseP_cons_of_neg (by simp [hp]), ih h]

/-- What `_pop_pending_mls_prepare` takes out of a numbered list. -/
theorem popPending_eq {ws : List (Intent × ℕ)} (h : s.pendingPrepare = ws.map Prod.fst)
    {r : PreparedReply} {i : Intent} {n : ℕ} (hfind : ws.find? (fitsReply ·.1 r) = some (i, n)) :
    s.popPendingMlsPrepare r.operation r.conversationId r.targetUserId =
      (i, { s with pendingPrepare := (ws.eraseP (fitsReply ·.1 r)).map Prod.fst }) := by
  have hfirst : s.pendingPrepare.find? (fitsReply · r) = some i := by
    rw [h, List.find?_map]
    exact congrArg (Option.map Prod.fst) hfind
  have hrest : s.pendingPrepare.erase i = (ws.eraseP (fitsReply ·.1 r)).map Prod.fst := by
    rw [erase_eq_eraseP hfirst, h, List.eraseP_map]
    rfl
  unfold GroupClient.popPendingMlsPrepare
  have hfirst' : s.pendingPrepare.find? (GroupClient.Intent.fits · r.operation r.conversationId
      r.targetUserId) = some i := hfirst
  rw [hfirst', ← hrest]

theorem pending_queueAll (id : String) (uids : List ℤ) :
    (uids.foldl (GroupClient.queueMlsClaim id) s).pendingPrepare = s.pendingPrepare := by
  induction uids generalizing s with
  | nil => rfl
  | cons uid uids ih =>
    rw [List.foldl_cons, ih]
    unfold GroupClient.queueMlsClaim
    split <;> rfl

theorem pending_apply (ctx : OpCtx C W) :
    (s.applyMlsGroupOp ctx).pendingPrepare = s.pendingPrepare := by
  unfold GroupClient.applyMlsGroupOp
  split <;> rfl

theorem pending_create {conv : ℤ} {s' : GroupClient G C W} (h : s.createMlsGroup M conv = some s') :
    s'.pendingPrepare = s.pendingPrepare := by
  obtain ⟨⟨bridge, g⟩, -, h⟩ := Option.bind_eq_some_iff.mp h
  obtain rfl := Option.some.inj h
  rfl

theorem pending_remove {conv : ℤ} {uids : List ℤ} {s' : GroupClient G C W} {g : G} {c : C}
    (h : s.removeMlsMembers M conv uids = some (s', g, c)) :
    s'.pendingPrepare = s.pendingPrepare := by
  obtain ⟨⟨bridge, g', c'⟩, -, h⟩ := Option.bind_eq_some_iff.mp h
  obtain ⟨rfl, -⟩ := Prod.mk.inj (Option.some.inj h)
  rfl

theorem pending_control {conv : ℤ} {plain message : String} {s' : GroupClient G C W}
    (h : s.mlsControlMessage M conv plain = some (s', message)) :
    s'.pendingPrepare = s.pendingPrepare := by
  unfold GroupClient.mlsControlMessage at h
  split at h
  · cases h
  · obtain ⟨⟨bridge, text⟩, -, h⟩ := Option.bind_eq_some_iff.mp h
    obtain ⟨rfl, -⟩ := Prod.mk.inj (Option.some.inj h)
    rfl

/-- An answer changes the list by what it takes out, and by nothing else. -/
theorem pending_prepared {id plain : String} {r : PreparedReply} (hid : id ≠ "")
    (hop : r.operation ≠ .other "") (hconv : 0 < r.conversationId) :
    (s.handleGroupChangePrepared M id r.operation r.conversationId r.targetUserId
        plain).pendingPrepare =
      (s.popPendingMlsPrepare r.operation r.conversationId r.targetUserId).2.pendingPrepare := by
  unfold GroupClient.handleGroupChangePrepared
  rw [if_neg (by simp [hid, hop, not_le.mpr hconv])]
  generalize s.popPendingMlsPrepare r.operation r.conversationId r.targetUserId = x
  obtain ⟨intent, s₁⟩ := x
  simp only
  split
  · split
    · rfl
    next hcreate =>
      have hkeep := pending_create hcreate
      split
      · exact (pending_apply _).trans hkeep
      · exact (pending_queueAll _ _).trans hkeep
  · split
    · exact pending_queueAll (s := GroupClient.putOp _ _) id [_]
    · rfl
  · split
    · rfl
    next hremove =>
      have hkeep := pending_remove hremove
      exact (pending_apply _).trans hkeep
  · split
    · rfl
    next hremove =>
      have hkeep := pending_remove hremove
      exact (pending_apply _).trans hkeep
  · split
    · rfl
    next hcontrol =>
      have hkeep := pending_control hcontrol
      exact (pending_apply _).trans hkeep
  · split
    · rfl
    next hcontrol =>
      have hkeep := pending_control hcontrol
      exact (pending_apply _).trans hkeep
  · rfl

theorem ops_queueAll (id : String) (uids : List ℤ) :
    (uids.foldl (GroupClient.queueMlsClaim id) s).pendingOps = s.pendingOps := by
  induction uids generalizing s with
  | nil => rfl
  | cons uid uids ih =>
    rw [List.foldl_cons, ih]
    unfold GroupClient.queueMlsClaim
    split <;> rfl

theorem ops_apply (ctx : OpCtx C W) : (s.applyMlsGroupOp ctx).pendingOps = s.pendingOps := by
  unfold GroupClient.applyMlsGroupOp
  split <;> rfl

/-- The members of a new group, whose key packages are claimed, are those of the intent. -/
theorem targets_prepared {id plain : String} {conv target : ℤ} {ctx : OpCtx C W} (hid : id ≠ "")
    (hconv : 0 < conv)
    (h : (s.handleGroupChangePrepared M id .createGroup conv target plain).pendingOps id =
      some ctx) :
    ctx.targets =
      (mlsContent .createGroup (s.popPendingMlsPrepare .createGroup conv target).1).members := by
  unfold GroupClient.handleGroupChangePrepared at h
  rw [if_neg (by simp [hid, not_le.mpr hconv])] at h
  generalize s.popPendingMlsPrepare .createGroup conv target = x at h ⊢
  obtain ⟨intent, s₁⟩ := x
  simp only at h
  split at h
  · simp [GroupClient.popOp] at h
  · split at h
    · rw [ops_apply] at h
      simp only [GroupClient.putOp, Function.update_self, Option.some.injEq] at h
      rw [← h]
      rfl
    · rw [ops_queueAll] at h
      simp only [GroupClient.putOp, Function.update_self, Option.some.injEq] at h
      rw [← h]
      rfl

end Client

/-! ### Runs -/

/-- The text of a control message, as `_handle_group_change_prepared` builds it and
`mls_control_message_b64` serialises it. -/
def controlPlain (actorUid ts : ℤ) (r : PreparedReply) (operation : String) (c : MlsContent) :
    String :=
  String.ofList (chars (.obj [
    ("type", .str "group_control"), ("operation", .str operation),
    ("conversation_id", .int r.conversationId), ("target_user_id", .int r.targetUserId),
    ("role", .str c.role), ("name", .str c.name), ("description", .str c.description),
    ("actor_uid", .int actorUid), ("ts", .int ts)]))

/-- The name of an operation with a control message. -/
def controlName : GroupOp → String
  | .setMemberRole => "set_member_role"
  | .updateGroupInfo => "update_group_info"
  | _ => ""

/-- A prepared operation: the request that the server prepared, the intent that the client took, and
what it put into MLS. -/
structure Completion where
  request : ℕ
  intent : Intent
  mls : MlsContent

/-- The client, the requests and answers so far, and the operations that were prepared. -/
structure Controller (G C W : Type) where
  client : GroupClient G C W
  desk : FirstFit.Desk Intent
  completed : List Completion

/-- The user acts, and the server answers request number `n`.  A request that could not be sent is
one that is never answered. -/
inductive GroupEvent
  | act (a : UserAction)
  | prepared (n : ℕ) (operationId : String) (reply : PreparedReply) (ts : ℤ)
  | refused (n : ℕ)

namespace Controller

variable {G C W : Type} (M : OpenMls G C W)

/-- An answer that the server can give. -/
def Valid (σ : Controller G C W) (n : ℕ) (operationId : String) (reply : PreparedReply) : Prop :=
  operationId ≠ "" ∧ σ.desk.Due Answers n reply

instance (σ : Controller G C W) (n : ℕ) (operationId : String) (reply : PreparedReply) :
    Decidable (σ.Valid n operationId reply) := inferInstanceAs (Decidable (_ ∧ _))

/-- One event. -/
def step (σ : Controller G C W) : GroupEvent → Controller G C W
  | .act a =>
      match a.intent σ.client.myUid with
      | none => σ
      | some i =>
          { σ with
            client := σ.client.step M (a.event i)
            desk := σ.desk.step fitsReply Answers (.ask i) }
  | .prepared n operationId reply ts =>
      if σ.Valid n operationId reply then
        let intent := (σ.client.popPendingMlsPrepare reply.operation reply.conversationId
          reply.targetUserId).1
        let mls := mlsContent reply.operation intent
        let plain := controlPlain σ.client.myUid ts reply (controlName reply.operation) mls
        { client := σ.client.step M (.prepared operationId reply.operation reply.conversationId
            reply.targetUserId plain)
          desk := σ.desk.step fitsReply Answers (.grant n reply)
          completed := σ.completed ++ [⟨n, intent, mls⟩] }
      else σ
  | .refused n => { σ with desk := σ.desk.step fitsReply Answers (.refuse n) }

/-- Every prepared operation took the intent of the request that the server prepared, and what went
into MLS is what that request says. -/
structure OwnIntents (σ : Controller G C W) : Prop where
  own : FirstFit.OwnTaken σ.desk
  content : ∀ c ∈ σ.completed, ∃ i, σ.desk.asked[c.request]? = some i ∧ c.intent = i ∧
    c.mls = (prepareMessage i).mlsContent

/-- No earlier request that was refused or is still open fits an answer. -/
def NoneStale (σ : Controller G C W) : GroupEvent → Prop
  | .prepared n operationId reply _ => σ.Valid n operationId reply →
      ∀ m i, m < n → σ.desk.asked[m]? = some i → m ∉ σ.desk.granted → fitsReply i reply = false
  | _ => True

/-- The invariant: the list of the client is that of the open requests. -/
structure Inv (σ : Controller G C W) : Prop where
  desk : FirstFit.Inv σ.desk
  pending : σ.client.pendingPrepare = σ.desk.waiting.map Prod.fst
  actions : ∀ i ∈ σ.desk.asked, ∃ (a : UserAction) (myUid : ℤ), a.intent myUid = some i
  content : ∀ c ∈ σ.completed, ∃ i, σ.desk.asked[c.request]? = some i ∧ c.intent = i ∧
    c.mls = (prepareMessage i).mlsContent

variable {M} {σ : Controller G C W}

/-- An action saves its intent at the end of the list. -/
theorem pending_act {s : GroupClient G C W} {a : UserAction} {i : Intent} {myUid : ℤ}
    (h : a.intent myUid = some i) :
    (s.step M (a.event i)).pendingPrepare = s.pendingPrepare ++ [i] := by
  cases a with
  | createGroup name members =>
    obtain rfl := Option.some.inj h
    rfl
  | addMember gid uid =>
    obtain rfl := Option.some.inj h
    rfl
  | removeMember gid uid =>
    simp only [UserAction.intent, commandIntent, Option.ite_none_right_eq_some] at h
    obtain rfl := Option.some.inj h.2
    rfl
  | setMemberRole gid uid role =>
    simp only [UserAction.intent, commandIntent, Option.ite_none_right_eq_some] at h
    obtain rfl := Option.some.inj h.2
    rfl
  | updateGroupInfo gid name description =>
    simp only [UserAction.intent, commandIntent, Option.ite_none_right_eq_some] at h
    obtain rfl := Option.some.inj h.2
    rfl
  | leaveGroup gid =>
    simp only [UserAction.intent, commandIntent, Option.ite_none_right_eq_some] at h
    obtain rfl := Option.some.inj h.2
    rfl

theorem operation_ne_other {a : UserAction} {myUid : ℤ} {i : Intent} (h : a.intent myUid = some i)
    (name : String) : i.operation ≠ .other name := by
  cases a <;>
    simp only [UserAction.intent, commandIntent, Option.ite_none_right_eq_some,
      Option.some.injEq] at h
  all_goals first | (subst h; nofun) | (obtain ⟨-, rfl⟩ := h; nofun)

/-- What was prepared keeps its requests when more are made. -/
theorem content_append {completed : List Completion} {asked asked' : List Intent}
    (h : ∀ c ∈ completed, ∃ i, asked[c.request]? = some i ∧ c.intent = i ∧
      c.mls = (prepareMessage i).mlsContent) (hasked : asked <+: asked') :
    ∀ c ∈ completed, ∃ i, asked'[c.request]? = some i ∧ c.intent = i ∧
      c.mls = (prepareMessage i).mlsContent := by
  intro c hc
  obtain ⟨i, hi, hrest⟩ := h c hc
  obtain ⟨rest, rfl⟩ := hasked
  refine ⟨i, ?_, hrest⟩
  rw [List.getElem?_append_left (List.getElem?_eq_some_iff.mp hi).1]
  exact hi

/-- An event keeps the invariant when no stale intent fits. -/
theorem Inv.step (h : Inv σ) {e : GroupEvent} (he : NoneStale σ e) : Inv (σ.step M e) := by
  cases e with
  | act a =>
    simp only [Controller.step]
    split
    · exact h
    next i hi =>
      refine ⟨h.desk.step fitsReply_of_answers (e := .ask i) trivial, ?_, ?_, ?_⟩
      · rw [pending_act hi, h.pending]
        simp [FirstFit.Desk.step]
      · intro j hj
        rcases List.mem_append.mp hj with hj | hj
        · exact h.actions j hj
        · obtain rfl := List.mem_singleton.mp hj
          exact ⟨a, _, hi⟩
      · exact content_append h.content (List.prefix_append _ _)
  | prepared n operationId reply ts =>
    simp only [Controller.step]
    split
    next hvalid =>
      have hnone := he hvalid
      obtain ⟨hid, hdue⟩ := hvalid
      have hdue' := hdue
      obtain ⟨hopen, i, hi, hanswer⟩ := hdue'
      have hfind : σ.desk.waiting.find? (fun x => fitsReply x.1 reply) = some (i, n) :=
        FirstFit.find?_own fitsReply_of_answers h.desk hi hopen hanswer hnone
      have hpop := popPending_eq h.pending hfind
      obtain ⟨a, myUid, ha⟩ := h.actions i (List.mem_of_getElem? hi)
      have hop : reply.operation ≠ .other "" := hanswer.1 ▸ operation_ne_other ha ""
      refine ⟨h.desk.step fitsReply_of_answers (e := .grant n reply) fun _ => hnone, ?_, ?_, ?_⟩
      · show (σ.client.handleGroupChangePrepared M _ _ _ _ _).pendingPrepare = _
        rw [pending_prepared hid hop hanswer.2.1, hpop]
        simp only [FirstFit.Desk.step, if_pos hdue]
      · simpa only [FirstFit.Desk.step, if_pos hdue] using h.actions
      · intro c hc
        simp only [FirstFit.Desk.step, if_pos hdue]
        rcases List.mem_append.mp hc with hc | hc
        · exact h.content c hc
        · obtain rfl := List.mem_singleton.mp hc
          refine ⟨i, hi, ?_, ?_⟩
          · rw [hpop]
          · rw [hpop, mlsContent_prepareMessage ha, hanswer.1]
    · exact h
  | refused n =>
    refine ⟨h.desk.step fitsReply_of_answers (e := .refuse n) trivial, ?_, ?_, ?_⟩
    · rw [Controller.step, h.pending, FirstFit.Desk.step]
      split <;> rfl
    · simp only [Controller.step, FirstFit.Desk.step]
      split <;> exact h.actions
    · simp only [Controller.step, FirstFit.Desk.step]
      split <;> exact h.content

/-- An event after which every intent is the own one met no stale intent. -/
theorem Inv.noneStale (h : Inv σ) {e : GroupEvent} (ho : OwnIntents (σ.step M e)) :
    NoneStale σ e := by
  cases e with
  | act a => trivial
  | refused n => trivial
  | prepared n operationId reply ts =>
    intro hvalid
    have hown := ho.own
    simp only [Controller.step, if_pos hvalid] at hown
    exact h.desk.noneEarlier hown hvalid.2

/-- The client after the login. -/
def start (myUid : ℤ) (bridge : Bridge G) (mlsGroupReady : ℤ → Bool) (groupEpochs : ℤ → ℤ) :
    Controller G C W :=
  ⟨GroupClient.start myUid bridge mlsGroupReady groupEpochs, FirstFit.Desk.empty, []⟩

/-- **Prepared operations and their intents.** In every run of actions and answers from the login,
that every prepared operation is completed with the intent of its own request is the same as that no
answer is met by an earlier request that was refused or is still open. -/
theorem own_intents_iff (M : OpenMls G C W) (myUid : ℤ) (bridge : Bridge G)
    (mlsGroupReady : ℤ → Bool) (groupEpochs : ℤ → ℤ) (es : List GroupEvent) :
    Runs.Always (step M) OwnIntents (start myUid bridge mlsGroupReady groupEpochs) es ↔
      Runs.Each (step M) NoneStale (start myUid bridge mlsGroupReady groupEpochs) es := by
  refine Runs.always_iff_each_of_inv (P := Inv) (fun σ h => ⟨h.desk.own, h.content⟩)
    (fun σ e h he => h.step he) (fun σ e h ho => h.noneStale ho) ?_
  exact ⟨FirstFit.inv_empty, rfl, nofun, nofun⟩

end Controller

/-- Two groups are created, and the server refuses the first one. -/
def refusedRun : List GroupEvent :=
  [.act (.createGroup "a" [2]), .refused 0, .act (.createGroup "b" [3]),
    .prepared 1 "op" ⟨.createGroup, 7, 0⟩ 0]

/-- The second group gets the members of the refused one. -/
theorem intent_of_refused_request :
    ∃ σ : Controller Transcript (Transcript × Change) Transcript,
      refusedRun.foldl (Controller.step (transcriptMls ⟨[]⟩))
        (Controller.start 1 (fun _ => none) (fun _ => false) fun _ => 0) = σ ∧
      (σ.completed.map fun c => (c.request, c.mls.members)) = [(1, [2])] ∧
      (σ.client.pendingOps "op").map (·.targets) = some [2] ∧ ¬ σ.OwnIntents := by
  refine ⟨_, rfl, by decide, by decide, fun h => ?_⟩
  obtain ⟨i, hi, htaken⟩ := h.own (1, _) (List.mem_singleton.mpr rfl)
  have hnumber : _ = some 1 := congrArg (Option.map Prod.snd) htaken
  revert hnumber
  decide

end SecChat.PreparedIntents
