import SecChat.Server.GroupChange
import SecChat.Library.Runs

/-!
# Authority over groups

The policy of a group change is checked when the change is prepared.  `apply_group_change` does not
check it again, so it holds at that time only if nothing has undone it in between.

* `Event`, `step`: whole requests in any order;
* `Permitted`, `Authorised`, `RolesOfMembers`: the policy when a change takes effect, and that every
  role belongs to a member;
* `Tables`: what the pending operations satisfy in every run;
* `Undisturbed`: the request takes nothing away that another pending operation rests on;
* `authority_holds`: runs of undisturbed requests are authorised;
* `removed_member_promoted`: a run in which a pending change outlives its policy.
-/

namespace SecChat.GroupChange

open Py PendingOps

/-- A request of some user, or the passing of time. -/
inductive Event
  | prepare (caller : Caller) (req : PrepareReq) (id : String)
  | apply (caller : Caller) (req : ApplyReq)
  | friendRequest (caller : Caller) (target : ℤ)
  | friendAccept (caller : Caller) (requester : ℤ)
  | friendRemove (caller : Caller) (other : ℤ)
  | tick (ms : ℕ)

section Authority

variable {S : Type} (L : OpLookup) (M : PublicMls S)

/-- One request. -/
def step (db : Db S) : Event → Db S
  | .prepare caller req id => (prepareGroupChange L db caller req id).1
  | .apply caller req => applyGroupChange M L db caller req
  | .friendRequest caller target => friendRequest db caller target
  | .friendAccept caller requester => friendAccept db caller requester
  | .friendRemove caller other => friendRemove db caller other
  | .tick ms => { db with now := db.now + ms }

/-- The operations that only admins may do. -/
def NeedsAdmin : GroupOp → Prop
  | .addMember | .removeMember | .setMemberRole | .updateGroupInfo => True
  | _ => False

/-- The operations whose target must be a member. -/
def NeedsTarget : GroupOp → Prop
  | .removeMember | .setMemberRole => True
  | _ => False

/-- The policy of an operation on an existing group, in the present state. -/
structure Permitted (db : Db S) (uid : ℤ) (row : OpRow) : Prop where
  member : uid ∈ db.members row.conversationId
  admin : NeedsAdmin row.operation → convIsAdmin db row.conversationId uid = true
  target : NeedsTarget row.operation → row.targetUserId ∈ db.members row.conversationId
  notAdmin : row.operation = .removeMember →
    convIsAdmin db row.conversationId row.targetUserId = false
  friend : row.operation = .addMember → friendshipExistsAccepted db uid row.targetUserId = true

/-- When a request changes an existing group, it is permitted at that moment. -/
def Authorised (db : Db S) : Event → Prop
  | .apply caller req => ∀ row stmts, applyPlan M L db caller req = .ok (row, stmts) →
      row.operation ≠ .createGroup → Permitted db caller.uid row
  | _ => True

/-- Every row of `group_roles` belongs to a current member. -/
def RolesOfMembers (db : Db S) : Prop :=
  ∀ cid uid, db.roles cid uid ≠ none → uid ∈ db.members cid

/-- The operation can still be applied. -/
def OpRow.Pending (db : Db S) (p : OpRow) : Prop :=
  p ∈ db.ops ∧ p.status = .prepared ∧ db.now < p.expiresAt

/-- Applying `row` takes nothing away that the policy of `p`, on the same group, rests on. -/
def Compatible (row p : OpRow) : Prop :=
  (isRemoval row.operation = true → p.actorId ≠ row.targetUserId ∧
    (NeedsTarget p.operation → p.targetUserId ≠ row.targetUserId)) ∧
  -- adding somebody makes them an ordinary member, even an admin
  (row.operation = .addMember ∨ row.operation = .setMemberRole ∧ row.role ≠ "admin" →
    NeedsAdmin p.operation → p.actorId ≠ row.targetUserId) ∧
  (row.operation = .setMemberRole → row.role = "admin" →
    p.operation = .removeMember → p.targetUserId ≠ row.targetUserId)

/-- The condition on a request. -/
def Undisturbed (db : Db S) : Event → Prop
  | .apply caller req => CleanId req.operationId ∧
      ∀ row, fetchPendingOp db L req.operationId caller.uid = some row →
        ∀ p : OpRow, p.Pending db → p ≠ row → p.conversationId = row.conversationId →
          Compatible row p
  | .friendRemove caller other => ∀ p : OpRow, p.Pending db → p.operation = .addMember →
      pair p.actorId p.targetUserId ≠ pair caller.uid other
  | _ => True

/-- What the pending operations of every run satisfy, disturbed or not. -/
structure Tables (db : Db S) : Prop where
  keys : (db.ops.map fun r => L.key r.operationId).Nodup
  creating : ∀ p ∈ db.ops, p.status = .prepared → p.operation = .createGroup →
    db.members p.conversationId = [] ∧
      ∀ q ∈ db.ops, q.conversationId = p.conversationId → q = p
  fresh : ∀ cid, db.nextConv ≤ cid →
    db.members cid = [] ∧ ∀ q ∈ db.ops, q.conversationId ≠ cid

/-- The invariant. -/
structure Inv (db : Db S) : Prop where
  keys : (db.ops.map fun r => L.key r.operationId).Nodup
  permitted : ∀ p : OpRow, p.Pending db → p.operation ≠ .createGroup → Permitted db p.actorId p
  -- a group that is not created yet has no members, and no other operation on it
  creating : ∀ p ∈ db.ops, p.status = .prepared → p.operation = .createGroup →
    db.members p.conversationId = [] ∧
      ∀ q ∈ db.ops, q.conversationId = p.conversationId → q = p
  fresh : ∀ cid, db.nextConv ≤ cid →
    db.members cid = [] ∧ ∀ q ∈ db.ops, q.conversationId ≠ cid
  roles : RolesOfMembers db

/-! ### What applying an operation does to its group -/

variable {L M} {db : Db S}

/-- What an accepted request found. -/
theorem applyPlan_cases {caller : Caller} {req : ApplyReq} {row : OpRow} {stmts : List (Stmt S)}
    (h : applyPlan M L db caller req = .ok (row, stmts)) :
    fetchPendingOp db L req.operationId caller.uid = some row ∧
      ∃ state, stmts = applyStmts row caller.uid req state := by
  unfold applyPlan at h
  by_cases hid : req.operationId = ""
  · simp [hid, throw, throwThe, MonadExceptOf.throw] at h
  · rw [if_neg hid] at h
    simp only [pure_eq_ok] at h
    split at h
    · cases h
    · next row' hfetch =>
      obtain ⟨-, -, h⟩ := bind_eq_ok_iff.mp h
      split at h
      · obtain ⟨g, -, h⟩ := bind_eq_ok_iff.mp h
        obtain ⟨rfl, rfl⟩ := Prod.mk.inj (Except.ok.inj h)
        exact ⟨hfetch, some g, rfl⟩
      · obtain ⟨rfl, rfl⟩ := Prod.mk.inj (Except.ok.inj h)
        exact ⟨hfetch, none, rfl⟩

/-- The row that a clean id finds is the caller's and still pending. -/
theorem pending_of_fetch {id : String} {uid : ℤ} {row : OpRow} (hclean : CleanId id)
    (h : fetchPendingOp db L id uid = some row) :
    row.Pending db ∧ L.key row.operationId = L.key id ∧ row.actorId = uid := by
  unfold fetchPendingOp at h
  rw [if_pos hclean] at h
  have hmem := List.mem_of_find?_eq_some h
  have hprop := List.find?_some h
  simp only [decide_eq_true_eq] at hprop
  obtain ⟨hkey, hactor, hstatus, hexp⟩ := hprop
  exact ⟨⟨hmem, hstatus, hexp⟩, hkey, hactor⟩

/-- The statements on the group, as a function of it. -/
def changed (L : OpLookup) (db : Db S) (row : OpRow) (uid : ℤ) : Db S :=
  (changeStmts row uid).foldl (exec L) db

theorem changed_of_ne (db : Db S) (row : OpRow) (uid : ℤ) {c : ℤ} (hc : c ≠ row.conversationId) :
    (changed L db row uid).members c = db.members c ∧
      (changed L db row uid).roles c = db.roles c := by
  have hgroup : ∀ st ∈ changeStmts (S := S) row uid, st.group ≠ some c := by
    intro st hst hg
    rcases changeStmts_group hst with h | h
    · rw [hg] at h
      exact hc (Option.some.inj h)
    · rw [hg] at h
      cases h
  exact ⟨foldl_exec_eq (fun db => db.members c) (fun st hst db => exec_members_of_ne db (hgroup st hst)) db,
    foldl_exec_eq (fun db => db.roles c) (fun st hst db => exec_roles_of_ne db (hgroup st hst)) db⟩

/-- Nobody but the target of a removal stops being a member. -/
theorem mem_changed {row : OpRow} {uid u : ℤ} (hop : row.operation ≠ .createGroup)
    (hu : u ∈ db.members row.conversationId)
    (hkept : isRemoval row.operation = true → u ≠ row.targetUserId) :
    u ∈ (changed L db row uid).members row.conversationId := by
  unfold changed changeStmts
  cases hrow : row.operation with
  | createGroup => exact absurd hrow hop
  | addMember =>
    simp only [List.foldl_cons, List.foldl_nil, exec]
    split
    · exact hu
    · simp [hu]
  | removeMember | leaveGroup =>
    have hne := hkept (by simp [hrow, isRemoval])
    simp [exec, hu, hne]
  | setMemberRole => exact hu
  | updateGroupInfo =>
    simp only
    split <;> split <;> exact hu
  | other name => exact hu

/-- The role of one user after an operation. -/
theorem roles_changed {row : OpRow} {uid u : ℤ} (hop : row.operation ≠ .createGroup) :
    (changed L db row uid).roles row.conversationId u =
      if u = row.targetUserId then
        match row.operation with
        | .addMember => some "member"
        | .removeMember | .leaveGroup => none
        | .setMemberRole => some row.role
        | _ => db.roles row.conversationId u
      else db.roles row.conversationId u := by
  unfold changed changeStmts
  by_cases hu : u = row.targetUserId
  · subst hu
    cases hrow : row.operation with
    | createGroup => exact absurd hrow hop
    | addMember =>
      simp only [List.foldl_cons, List.foldl_nil, exec, if_true]
      split <;> simp
    | removeMember | leaveGroup => simp [exec]
    | setMemberRole => simp [exec]
    | updateGroupInfo =>
      simp only [if_true]
      split <;> split <;> rfl
    | other name => simp
  · rw [if_neg hu]
    cases hrow : row.operation with
    | createGroup => exact absurd hrow hop
    | addMember =>
      simp only [List.foldl_cons, List.foldl_nil, exec]
      split <;> simp [hu]
    | removeMember | leaveGroup => simp [exec, hu]
    | setMemberRole => simp [exec, hu]
    | updateGroupInfo =>
      simp only
      split <;> split <;> rfl
    | other name => rfl

/-- The policy rests on the members and roles of one group and on the friendships. -/
theorem Permitted.congr {db' : Db S} {uid : ℤ} {p : OpRow} (h : Permitted db uid p)
    (hmembers : db'.members p.conversationId = db.members p.conversationId)
    (hroles : db'.roles p.conversationId = db.roles p.conversationId)
    (hfriends : db'.friendships = db.friendships) : Permitted db' uid p := by
  have hadmin : ∀ u, convIsAdmin db' p.conversationId u = convIsAdmin db p.conversationId u := by
    intro u
    simp [convIsAdmin, hroles]
  refine ⟨hmembers ▸ h.member, fun hop => ?_, fun hop => ?_, fun hop => ?_, fun hop => ?_⟩
  · rw [hadmin]
    exact h.admin hop
  · rw [hmembers]
    exact h.target hop
  · rw [hadmin]
    exact h.notAdmin hop
  · simpa [friendshipExistsAccepted, hfriends] using h.friend hop

/-- A compatible operation on the same group keeps the policy. -/
theorem Permitted.changed {row p : OpRow} {uid : ℤ} (h : Permitted db p.actorId p)
    (hop : row.operation ≠ .createGroup) (hconv : p.conversationId = row.conversationId)
    (hcompat : Compatible row p) : Permitted (changed L db row uid) p.actorId p := by
  obtain ⟨hremoval, hdemote, hpromote⟩ := hcompat
  have hfriends : (GroupChange.changed L db row uid).friendships = db.friendships :=
    foldl_exec_eq (·.friendships) (fun st _ db => exec_friendships db st) db
  obtain ⟨hmember, hadmin, htarget, hnot, hfriend⟩ := h
  rw [hconv] at hmember hadmin htarget hnot
  constructor
  · rw [hconv]
    exact mem_changed hop hmember fun hr => (hremoval hr).1
  · intro hneeds
    have hold := hadmin hneeds
    simp only [convIsAdmin, decide_eq_true_eq, hconv] at hold ⊢
    rw [roles_changed hop]
    split
    · next hu =>
      -- the actor is the target of the operation
      cases hrow : row.operation with
      | createGroup => exact absurd hrow hop
      | addMember => exact absurd hu (hdemote (.inl hrow) hneeds)
      | removeMember | leaveGroup => exact absurd hu (hremoval (by simp [hrow, isRemoval])).1
      | setMemberRole =>
        by_cases hrole : row.role = "admin"
        · rw [hrole]
        · exact absurd hu (hdemote (.inr ⟨hrow, hrole⟩) hneeds)
      | updateGroupInfo | other name => exact hold
    · exact hold
  · intro hneeds
    rw [hconv]
    exact mem_changed hop (htarget hneeds) fun hr => (hremoval hr).2 hneeds
  · intro hremove
    have hold := hnot hremove
    simp only [convIsAdmin, decide_eq_false_iff_not, hconv] at hold ⊢
    rw [roles_changed hop]
    split
    · next hu =>
      cases hrow : row.operation with
      | createGroup => exact absurd hrow hop
      | addMember => simp
      | removeMember | leaveGroup => simp
      | setMemberRole =>
        intro heq
        exact hpromote hrow (Option.some.inj heq) hremove hu
      | updateGroupInfo | other name => exact hold
    · exact hold
  · intro hadd
    simpa [friendshipExistsAccepted, hfriends] using hfriend hadd

/-! ### Roles belong to members -/

theorem RolesOfMembers.addMember (h : RolesOfMembers db) (cid u : ℤ) (role : String) :
    RolesOfMembers (exec L (exec L db (.addMember cid u)) (.roleSet cid u role)) := by
  intro c v hv
  simp only [exec] at hv ⊢
  by_cases hc : c = cid
  · subst hc
    by_cases hvu : v = u
    · subst hvu
      split
      · assumption
      · simp
    · split at hv
      · next hmem =>
        simp only [Function.update_self, Function.update_of_ne hvu] at hv
        rw [if_pos hmem]
        exact h c v hv
      · next hmem =>
        simp only [Function.update_self, Function.update_of_ne hvu] at hv
        rw [if_neg hmem]
        simp [h c v hv]
  · split at hv
    · next hmem =>
      simp only [Function.update_of_ne hc] at hv
      rw [if_pos hmem]
      exact h c v hv
    · next hmem =>
      simp only [Function.update_of_ne hc] at hv
      rw [if_neg hmem]
      simpa [Function.update_of_ne hc] using h c v hv

theorem RolesOfMembers.removeMember (h : RolesOfMembers db) (cid u : ℤ) :
    RolesOfMembers (exec L (exec L db (.roleDelete cid u)) (.removeMember cid u)) := by
  intro c v hv
  simp only [exec] at hv ⊢
  by_cases hc : c = cid
  · subst hc
    by_cases hvu : v = u
    · subst hvu
      simp at hv
    · simp only [Function.update_self, Function.update_of_ne hvu] at hv
      simpa [hvu] using h c v hv
  · simp only [Function.update_of_ne hc] at hv ⊢
    exact h c v hv

theorem RolesOfMembers.roleSet (h : RolesOfMembers db) {cid u : ℤ} (hu : u ∈ db.members cid)
    (role : String) : RolesOfMembers (exec L db (.roleSet cid u role)) := by
  intro c v hv
  simp only [exec] at hv ⊢
  by_cases hc : c = cid
  · subst hc
    by_cases hvu : v = u
    · subst hvu
      exact hu
    · simp only [Function.update_self, Function.update_of_ne hvu] at hv
      exact h c v hv
  · simp only [Function.update_of_ne hc] at hv
    exact h c v hv

theorem RolesOfMembers.addMembers (h : RolesOfMembers db) (cid : ℤ) (us : List ℤ) :
    RolesOfMembers ((us.flatMap fun u => [Stmt.addMember cid u, .roleSet cid u "member"]).foldl
      (exec L) db) := by
  induction us generalizing db with
  | nil => exact h
  | cons u us ih => exact ih (h.addMember cid u "member")

/-- Applying an operation keeps the roles with members, if a role is only set for a member. -/
theorem RolesOfMembers.changed {row : OpRow} {uid : ℤ} (h : RolesOfMembers db)
    (htarget : row.operation = .setMemberRole → row.targetUserId ∈ db.members row.conversationId) :
    RolesOfMembers (changed L db row uid) := by
  unfold GroupChange.changed changeStmts
  cases hrow : row.operation with
  | createGroup =>
    simp only [List.foldl_append, List.foldl_cons, List.foldl_nil]
    exact (h.addMember _ uid "admin").addMembers _ _
  | addMember => exact h.addMember _ _ _
  | removeMember | leaveGroup => exact h.removeMember _ _
  | setMemberRole => exact h.roleSet (L := L) (htarget hrow) _
  | updateGroupInfo =>
    simp only
    split <;> split <;> exact h
  | other name => exact h

/-! ### One request -/

/-- An operation that is still prepared after the mark was not marked. -/
theorem mem_of_marked {id : String} {p : OpRow} (hclean : CleanId id)
    (hp : p ∈ markPendingApplied db L id) (hstatus : p.status = .prepared) :
    p ∈ db.ops ∧ L.key p.operationId ≠ L.key id := by
  unfold markPendingApplied at hp
  rw [if_pos hclean] at hp
  obtain ⟨q, hq, rfl⟩ := List.mem_map.mp hp
  by_cases hkey : L.key q.operationId = L.key id
  · rw [if_pos hkey] at hstatus
    cases hstatus
  · rw [if_neg hkey]
    exact ⟨hq, hkey⟩

/-- Every marked row was there before, with the same id and conversation. -/
theorem exists_of_marked {id : String} {p : OpRow} (hclean : CleanId id)
    (hp : p ∈ markPendingApplied db L id) :
    ∃ q ∈ db.ops, q.conversationId = p.conversationId ∧ (L.key q.operationId ≠ L.key id → q = p) := by
  unfold markPendingApplied at hp
  rw [if_pos hclean] at hp
  obtain ⟨q, hq, rfl⟩ := List.mem_map.mp hp
  by_cases hkey : L.key q.operationId = L.key id
  · exact ⟨q, hq, by rw [if_pos hkey], fun h => absurd hkey h⟩
  · exact ⟨q, hq, by rw [if_neg hkey], fun _ => by rw [if_neg hkey]⟩

theorem keys_marked {id : String} (hclean : CleanId id)
    (h : (db.ops.map fun r => L.key r.operationId).Nodup) :
    ((markPendingApplied db L id).map fun r => L.key r.operationId).Nodup := by
  unfold markPendingApplied
  rw [if_pos hclean, List.map_map]
  refine (List.map_congr_left fun r _ => ?_) ▸ h
  simp only [Function.comp_apply]
  split <;> rfl

theorem Inv.tables (h : Inv L db) : Tables L db := ⟨h.keys, h.creating, h.fresh⟩

theorem Tables.congr (h : Tables L db) {db' : Db S} (hops : db'.ops = db.ops)
    (hmembers : db'.members = db.members) (hnext : db'.nextConv = db.nextConv) :
    Tables L db' := by
  refine ⟨hops ▸ h.keys, ?_, ?_⟩
  · rw [hops, hmembers]
    exact h.creating
  · rw [hops, hmembers, hnext]
    exact h.fresh

theorem changed_ops (db : Db S) (row : OpRow) (uid : ℤ) :
    (changed L db row uid).ops = db.ops :=
  foldl_exec_eq (·.ops) (fun _ hst db => exec_ops db (changeStmts_ne_markApplied hst)) db

/-- The mark changes the operations as if the statements on the group had not run. -/
theorem marked_changed (db : Db S) (row : OpRow) (uid : ℤ) (id : String) :
    (exec L (changed L db row uid) (.markApplied id)).ops = markPendingApplied db L id := by
  simp only [exec, markPendingApplied, changed_ops]

/-- The statements on the group, followed by the mark: nobody enters a group that another operation
creates. -/
theorem Tables.changed (h : Tables L db) {id : String} {row : OpRow} {uid : ℤ} (hclean : CleanId id)
    (hpending : row.Pending db) (hkey : L.key row.operationId = L.key id) :
    Tables L (exec L (changed L db row uid) (.markApplied id)) := by
  have hnext : (GroupChange.changed L db row uid).nextConv = db.nextConv :=
    foldl_exec_eq (·.nextConv) (fun st _ db => exec_nextConv db st) db
  have hmark := marked_changed (L := L) db row uid id
  constructor
  · rw [hmark]
    exact keys_marked hclean h.keys
  · intro p hp hstatus hcreate
    rw [hmark] at hp ⊢
    obtain ⟨hp, hne⟩ := mem_of_marked hclean hp hstatus
    obtain ⟨hempty, honly⟩ := h.creating p hp hstatus hcreate
    have hconv : p.conversationId ≠ row.conversationId := by
      intro heq
      exact hne (honly row hpending.1 heq.symm ▸ hkey)
    refine ⟨((changed_of_ne (L := L) db row uid hconv).1).trans hempty, fun q hq hqc => ?_⟩
    obtain ⟨q₀, hq₀, hc, hsame⟩ := exists_of_marked hclean hq
    have hq₀p := honly q₀ hq₀ (hc.trans hqc)
    rw [hq₀p] at hsame
    exact (hsame hne).symm
  · intro cid hcid
    have hfresh := h.fresh cid (hnext ▸ hcid)
    have hconv : cid ≠ row.conversationId := fun heq => hfresh.2 row hpending.1 heq.symm
    refine ⟨((changed_of_ne (L := L) db row uid hconv).1).trans hfresh.1, fun q hq => ?_⟩
    rw [hmark] at hq
    obtain ⟨q₀, hq₀, hc, -⟩ := exists_of_marked hclean hq
    exact hc ▸ hfresh.2 q₀ hq₀

theorem Tables.apply (h : Tables L db) {caller : Caller} {req : ApplyReq}
    (hclean : CleanId req.operationId) : Tables L (applyGroupChange M L db caller req) := by
  unfold applyGroupChange
  split
  · next row stmts hplan =>
    obtain ⟨hfetch, state, rfl⟩ := applyPlan_cases hplan
    obtain ⟨hpending, hkey, -⟩ := pending_of_fetch hclean hfetch
    obtain ⟨hmembers, -, hops⟩ := foldl_recordStmts (L := L) db row caller.uid req state
    have hnow : ((recordStmts row caller.uid req state).foldl (exec L) db).now = db.now :=
      foldl_exec_eq (·.now) (fun st _ db => exec_now db st) db
    have hrec := h.congr hops hmembers
      (foldl_exec_eq (·.nextConv) (fun st _ db => exec_nextConv db st) db)
    rw [foldl_applyStmts]
    refine hrec.changed hclean ?_ hkey
    unfold OpRow.Pending
    rw [hops, hnow]
    exact hpending
  · exact h

theorem Inv.congr (h : Inv L db) {db' : Db S} (hops : db'.ops = db.ops)
    (hmembers : db'.members = db.members) (hroles : db'.roles = db.roles)
    (hfriends : db'.friendships = db.friendships) (hnow : db'.now = db.now)
    (hnext : db'.nextConv = db.nextConv) : Inv L db' := by
  have htables := h.tables.congr hops hmembers hnext
  refine ⟨htables.keys, fun p hp hop => ?_, htables.creating, htables.fresh, ?_⟩
  · unfold OpRow.Pending at hp
    rw [hops, hnow] at hp
    exact (h.permitted p hp hop).congr (by rw [hmembers]) (by rw [hroles]) hfriends
  · unfold RolesOfMembers
    rw [hmembers, hroles]
    exact h.roles

/-- The statements on the group, followed by the mark. -/
theorem Inv.changed (h : Inv L db) {id : String} {row : OpRow} {uid : ℤ} (hclean : CleanId id)
    (hpending : row.Pending db) (hkey : L.key row.operationId = L.key id)
    (hothers : ∀ p : OpRow, p.Pending db → p ≠ row → p.conversationId = row.conversationId →
      Compatible row p) :
    Inv L (exec L (changed L db row uid) (.markApplied id)) := by
  have hnow : (GroupChange.changed L db row uid).now = db.now :=
    foldl_exec_eq (·.now) (fun st _ db => exec_now db st) db
  have hfriends : (GroupChange.changed L db row uid).friendships = db.friendships :=
    foldl_exec_eq (·.friendships) (fun st _ db => exec_friendships db st) db
  have hmark := marked_changed (L := L) db row uid id
  have htables : Tables L (exec L (GroupChange.changed L db row uid) (.markApplied id)) :=
    h.tables.changed hclean hpending hkey
  have hrow : row.operation ≠ .createGroup → Permitted db row.actorId row :=
    h.permitted row hpending
  refine ⟨htables.keys, ?_, htables.creating, htables.fresh, ?_⟩
  · intro p ⟨hp, hstatus, hexp⟩ hop
    rw [hmark] at hp
    obtain ⟨hp, hne⟩ := mem_of_marked hclean hp hstatus
    have hpend : p.Pending db := ⟨hp, hstatus, hnow ▸ hexp⟩
    have hprow : p ≠ row := fun heq => hne (heq ▸ hkey)
    have hold := h.permitted p hpend hop
    by_cases hconv : p.conversationId = row.conversationId
    · by_cases hcreate : row.operation = .createGroup
      · -- there is no other operation on a group that is being created
        obtain ⟨-, honly⟩ := h.creating row hpending.1 hpending.2.1 hcreate
        exact absurd (honly p hp hconv) hprow
      · have hnew : Permitted (GroupChange.changed L db row uid) p.actorId p :=
          hold.changed hcreate hconv (hothers p hpend hprow hconv)
        exact hnew.congr rfl rfl rfl
    · obtain ⟨hm, hr⟩ := changed_of_ne (L := L) db row uid hconv
      exact hold.congr hm hr hfriends
  · have htarget : row.operation = .setMemberRole →
        row.targetUserId ∈ db.members row.conversationId := by
      intro hop
      exact (hrow (by simp [hop])).target (by simp [hop, NeedsTarget])
    exact h.roles.changed (L := L) htarget

theorem Inv.apply (h : Inv L db) {caller : Caller} {req : ApplyReq}
    (hun : Undisturbed L db (.apply caller req)) :
    Inv L (applyGroupChange M L db caller req) := by
  unfold applyGroupChange
  split
  · next row stmts hplan =>
    obtain ⟨hfetch, state, rfl⟩ := applyPlan_cases hplan
    obtain ⟨hclean, hothers⟩ := hun
    obtain ⟨hpending, hkey, -⟩ := pending_of_fetch hclean hfetch
    obtain ⟨hmembers, hroles, hops⟩ := foldl_recordStmts (L := L) db row caller.uid req state
    have hnow : ((recordStmts row caller.uid req state).foldl (exec L) db).now = db.now :=
      foldl_exec_eq (·.now) (fun st _ db => exec_now db st) db
    have hrec := h.congr hops hmembers hroles
      (foldl_exec_eq (·.friendships) (fun st _ db => exec_friendships db st) db) hnow
      (foldl_exec_eq (·.nextConv) (fun st _ db => exec_nextConv db st) db)
    rw [foldl_applyStmts]
    refine hrec.changed hclean ?_ hkey fun p hp => ?_
    · unfold OpRow.Pending
      rw [hops, hnow]
      exact hpending
    · unfold OpRow.Pending at hp
      rw [hops, hnow] at hp
      exact hothers row hfetch p hp
  · exact h

/-- A policy check that passed is the policy. -/
theorem permitted_of_checkPolicy {uid cid target : ℤ} {req : PrepareReq} {row : OpRow}
    (hcheck : checkPolicy db uid req cid target = .ok ()) (hmember : convIsMember db cid uid = true)
    (hop : row.operation = req.operation) (hcid : row.conversationId = cid)
    (htarget : 0 < target → row.targetUserId = target) : Permitted db uid row := by
  simp only [convIsMember, decide_eq_true_eq] at hmember
  subst hcid
  cases hreq : req.operation with
  | addMember =>
    simp only [checkPolicy, hreq] at hcheck
    split at hcheck
    · cases hcheck
    · next hfriend =>
      split at hcheck
      · cases hcheck
      · next hadmin =>
        simp only [not_or, not_le, Bool.not_eq_false] at hfriend hadmin
        rw [hreq] at hop
        exact ⟨hmember, fun _ => hadmin, by simp [hop, NeedsTarget], by simp [hop],
          fun _ => htarget hfriend.1 ▸ hfriend.2⟩
  | leaveGroup =>
    rw [hreq] at hop
    exact ⟨hmember, by simp [hop, NeedsAdmin], by simp [hop, NeedsTarget], by simp [hop],
      by simp [hop]⟩
  | removeMember =>
    simp only [checkPolicy, hreq] at hcheck
    split at hcheck
    · cases hcheck
    · next hall =>
      simp only [not_or, not_le, Bool.not_eq_false, Bool.not_eq_true] at hall
      obtain ⟨hadmin, hpos, hin, hnot⟩ := hall
      simp only [convIsMember, decide_eq_true_eq] at hin
      rw [hreq] at hop
      exact ⟨hmember, fun _ => hadmin, fun _ => htarget hpos ▸ hin, fun _ => htarget hpos ▸ hnot,
        by simp [hop]⟩
  | setMemberRole =>
    simp only [checkPolicy, hreq] at hcheck
    split at hcheck
    · cases hcheck
    · next hall =>
      simp only [not_or, not_le, Bool.not_eq_false] at hall
      obtain ⟨hadmin, hpos, hin, -⟩ := hall
      simp only [convIsMember, decide_eq_true_eq] at hin
      rw [hreq] at hop
      exact ⟨hmember, fun _ => hadmin, fun _ => htarget hpos ▸ hin, by simp [hop], by simp [hop]⟩
  | updateGroupInfo =>
    simp only [checkPolicy, hreq] at hcheck
    split at hcheck
    · cases hcheck
    · next hadmin =>
      simp only [Bool.not_eq_false] at hadmin
      rw [hreq] at hop
      exact ⟨hmember, fun _ => hadmin, by simp [hop, NeedsTarget], by simp [hop], by simp [hop]⟩
  | createGroup | other name =>
    simp only [checkPolicy, hreq] at hcheck
    cases hcheck

/-- Storing an operation on a group that no other operation is creating. -/
theorem Tables.store (h : Tables L db) {id : String} {cid uid target : ℤ} {req : PrepareReq}
    (hcid : cid < db.nextConv)
    (hcreating : req.operation = .createGroup →
      db.members cid = [] ∧ ∀ q ∈ db.ops, q.conversationId ≠ cid)
    (hothers : ∀ p ∈ db.ops, p.status = .prepared → p.operation = .createGroup →
      p.conversationId ≠ cid) :
    Tables L (storePendingOp L db id cid uid req target).1 := by
  unfold storePendingOp
  split
  · exact h
  · next hkey =>
    simp only [List.any_eq_true, decide_eq_true_eq, not_exists, not_and] at hkey
    refine ⟨?_, ?_, ?_⟩
    · simp only [List.map_append, List.map_cons, List.map_nil]
      refine List.nodup_append.mpr ⟨h.keys, List.nodup_singleton _, ?_⟩
      intro k hk k' hk'
      obtain ⟨r, hr, rfl⟩ := List.mem_map.mp hk
      obtain rfl := List.mem_singleton.mp hk'
      exact hkey r hr
    · intro p hp hstatus hcreate
      rcases List.mem_append.mp hp with hp | hp
      · obtain ⟨hempty, honly⟩ := h.creating p hp hstatus hcreate
        refine ⟨hempty, fun q hq hqc => ?_⟩
        rcases List.mem_append.mp hq with hq | hq
        · exact honly q hq hqc
        · obtain rfl := List.mem_singleton.mp hq
          exact absurd hqc.symm (hothers p hp hstatus hcreate)
      · obtain rfl := List.mem_singleton.mp hp
        obtain ⟨hempty, hnone⟩ := hcreating hcreate
        refine ⟨hempty, fun q hq hqc => ?_⟩
        rcases List.mem_append.mp hq with hq | hq
        · exact absurd hqc (hnone q hq)
        · exact List.mem_singleton.mp hq
    · intro c hc
      obtain ⟨hempty, hnone⟩ := h.fresh c hc
      refine ⟨hempty, fun q hq => ?_⟩
      rcases List.mem_append.mp hq with hq | hq
      · exact hnone q hq
      · obtain rfl := List.mem_singleton.mp hq
        exact (lt_of_lt_of_le hcid hc).ne

/-- A new conversation. -/
theorem Tables.next (h : Tables L db) (names : ℤ → String) :
    Tables L { db with nextConv := db.nextConv + 1, names := names } := by
  refine ⟨h.keys, h.creating, fun c hc => ?_⟩
  have hle : db.nextConv + 1 ≤ c := hc
  exact h.fresh c (by omega)

/-- A conversation with members is not being created, and is not fresh. -/
theorem Tables.of_member (h : Tables L db) {cid uid : ℤ} (hmember : convIsMember db cid uid = true) :
    cid < db.nextConv ∧
      ∀ p ∈ db.ops, p.status = .prepared → p.operation = .createGroup → p.conversationId ≠ cid := by
  have hin : uid ∈ db.members cid := by simpa [convIsMember] using hmember
  constructor
  · by_contra hge
    rw [(h.fresh cid (not_lt.mp hge)).1] at hin
    simp at hin
  · intro p hp hstatus hop hpc
    rw [← hpc, (h.creating p hp hstatus hop).1] at hin
    simp at hin

theorem Tables.prepare (h : Tables L db) (caller : Caller) (req : PrepareReq) (id : String) :
    Tables L (prepareGroupChange L db caller req id).1 := by
  unfold prepareGroupChange
  dsimp only
  split
  · exact h
  · split
    · next hcreate =>
      generalize (if req.details.name = "" then "Unnamed Group" else req.details.name) = name
      split
      · exact h
      · split
        · exact h
        · split
          · exact h
          · -- the new conversation has no members and no operations
            have hfresh := h.fresh db.nextConv le_rfl
            exact (h.next _).store (lt_add_one db.nextConv) (fun _ => hfresh)
              fun p hp _ _ => hfresh.2 p hp
    · next hcreate =>
      split
      · exact h
      · split
        · exact h
        · next hmember =>
          split
          · exact h
          · split
            · exact h
            · obtain ⟨hcid, hothers⟩ := h.of_member (by simpa using hmember)
              exact h.store hcid (fun hop => absurd hop hcreate) hothers

/-- **One request.**  Whatever the request, if the id is clean. -/
theorem Tables.step (h : Tables L db) {e : Event}
    (hclean : ∀ caller req, e = .apply caller req → CleanId req.operationId) :
    Tables L (step L M db e) := by
  cases e with
  | prepare caller req id => exact h.prepare caller req id
  | apply caller req => exact h.apply (hclean caller req rfl)
  | friendRequest caller target =>
    simp only [GroupChange.step, GroupChange.friendRequest]
    split
    · exact h
    · split <;> exact h.congr rfl rfl rfl
  | friendAccept caller requester =>
    simp only [GroupChange.step, GroupChange.friendAccept]
    split
    · split
      · exact h.congr rfl rfl rfl
      · exact h
    · exact h
  | friendRemove caller other => exact h.congr rfl rfl rfl
  | tick ms => exact h.congr rfl rfl rfl

/-- Storing an operation whose policy holds, on a group that no other operation is creating. -/
theorem Inv.store (h : Inv L db) {id : String} {cid uid target : ℤ} {req : PrepareReq}
    (hcid : cid < db.nextConv)
    (hexisting : req.operation ≠ .createGroup → ∀ row : OpRow, row.operation = req.operation →
      row.conversationId = cid → (0 < target → row.targetUserId = target) → Permitted db uid row)
    (hcreating : req.operation = .createGroup →
      db.members cid = [] ∧ ∀ q ∈ db.ops, q.conversationId ≠ cid)
    (hothers : ∀ p ∈ db.ops, p.status = .prepared → p.operation = .createGroup →
      p.conversationId ≠ cid) :
    Inv L (storePendingOp L db id cid uid req target).1 := by
  have htables : Tables L (storePendingOp L db id cid uid req target).1 :=
    h.tables.store hcid hcreating hothers
  unfold storePendingOp at htables ⊢
  split at htables
  · next hkey =>
    rw [if_pos hkey]
    exact h
  · next hkey =>
    rw [if_neg hkey]
    refine ⟨htables.keys, ?_, htables.creating, htables.fresh, h.roles⟩
    intro p ⟨hp, hstatus, hexp⟩ hop
    rcases List.mem_append.mp hp with hp | hp
    · exact (h.permitted p ⟨hp, hstatus, hexp⟩ hop).congr rfl rfl rfl
    · obtain rfl := List.mem_singleton.mp hp
      refine (hexisting hop _ rfl rfl fun hpos => ?_).congr rfl rfl rfl
      exact if_pos hpos

theorem Inv.prepare (h : Inv L db) (caller : Caller) (req : PrepareReq) (id : String) :
    Inv L (prepareGroupChange L db caller req id).1 := by
  unfold prepareGroupChange
  dsimp only
  split
  · exact h
  · split
    · next hcreate =>
      generalize (if req.details.name = "" then "Unnamed Group" else req.details.name) = name
      split
      · exact h
      · split
        · exact h
        · split
          · exact h
          · -- the new conversation has no members and no operations
            have hfresh := h.fresh db.nextConv le_rfl
            have hnext : Inv L { db with
                nextConv := db.nextConv + 1
                names := Function.update db.names db.nextConv name } :=
              ⟨h.keys, fun p hp hop => (h.permitted p hp hop).congr rfl rfl rfl, h.creating,
                (h.tables.next _).fresh, h.roles⟩
            refine hnext.store (lt_add_one db.nextConv) (fun hne => absurd hcreate hne)
              (fun _ => hfresh) fun p hp _ _ => hfresh.2 p hp
    · next hcreate =>
      split
      · exact h
      · split
        · exact h
        · next hmember =>
          split
          · exact h
          · split
            · exact h
            · next hcheck =>
              simp only [Bool.not_eq_false] at hmember
              obtain ⟨hcid, hothers⟩ := h.tables.of_member hmember
              exact h.store hcid
                (fun _ row hop hrow htarget =>
                  permitted_of_checkPolicy hcheck hmember hop hrow htarget)
                (fun hop => absurd hop hcreate) hothers

/-- Friendships that still hold for every pending addition keep the invariant. -/
theorem Inv.friends (h : Inv L db) (f : ℤ × ℤ → Option Friendship)
    (hf : ∀ p : OpRow, p.Pending db → p.operation = .addMember →
      friendshipExistsAccepted db p.actorId p.targetUserId = true →
      friendshipExistsAccepted { db with friendships := f } p.actorId p.targetUserId = true) :
    Inv L { db with friendships := f } := by
  refine ⟨h.keys, fun p hp hop => ?_, h.creating, h.fresh, h.roles⟩
  have hold := h.permitted p hp hop
  exact ⟨hold.member, hold.admin, hold.target, hold.notAdmin,
    fun hadd => hf p hp hadd (hold.friend hadd)⟩

/-- **One request.**  Undisturbed requests keep the invariant. -/
theorem Inv.step (h : Inv L db) {e : Event} (hun : Undisturbed L db e) :
    Inv L (step L M db e) := by
  cases e with
  | prepare caller req id => exact h.prepare caller req id
  | apply caller req => exact h.apply hun
  | friendRequest caller target =>
    simp only [GroupChange.step, GroupChange.friendRequest]
    split
    · exact h
    · split
      · exact h
      · next hnone =>
        refine h.friends _ fun p _ _ hacc => ?_
        simp only [friendshipExistsAccepted] at hacc ⊢
        by_cases hpair : pair p.actorId p.targetUserId = pair caller.uid target
        · rw [hpair, hnone] at hacc
          cases hacc
        · rwa [Function.update_of_ne hpair]
  | friendAccept caller requester =>
    simp only [GroupChange.step, GroupChange.friendAccept]
    split
    · split
      · refine h.friends _ fun p _ _ hacc => ?_
        simp only [friendshipExistsAccepted] at hacc ⊢
        by_cases hpair : pair p.actorId p.targetUserId = pair caller.uid requester
        · simp [hpair]
        · rwa [Function.update_of_ne hpair]
      · exact h
    · exact h
  | friendRemove caller other =>
    refine h.friends _ fun p hp hop hacc => ?_
    simp only [friendshipExistsAccepted] at hacc ⊢
    rwa [Function.update_of_ne (hun p hp hop)]
  | tick ms =>
    refine ⟨h.keys, fun p hp hop => ?_, h.creating, h.fresh, h.roles⟩
    obtain ⟨hmem, hstatus, hexp⟩ := hp
    have hlt : db.now + ms < p.expiresAt := hexp
    exact (h.permitted p ⟨hmem, hstatus, by omega⟩ hop).congr rfl rfl rfl

/-- In a state with the invariant, what is applied is permitted. -/
theorem Inv.authorised (h : Inv L db) {e : Event} (hun : Undisturbed L db e) :
    Authorised L M db e := by
  cases e with
  | apply caller req =>
    intro row stmts hplan hop
    obtain ⟨hfetch, -⟩ := applyPlan_cases hplan
    obtain ⟨hpending, -, hactor⟩ := pending_of_fetch hun.1 hfetch
    exact hactor ▸ h.permitted row hpending hop
  | _ => trivial

/-- A database without groups; there may be users, friends and direct conversations. -/
structure Empty (db : Db S) : Prop where
  ops : db.ops = []
  roles : ∀ cid uid, db.roles cid uid = none
  members : ∀ cid, db.nextConv ≤ cid → db.members cid = []

theorem Empty.inv (h : Empty db) : Inv L db where
  keys := by simp [h.ops]
  permitted p hp := by simp [OpRow.Pending, h.ops] at hp
  creating := by simp [h.ops]
  fresh cid hcid := by simp [h.ops, h.members cid hcid]
  roles cid uid hne := absurd (h.roles cid uid) hne

/-- **Authority holds when a change takes effect**, in every run from a database without groups in
which no request takes away what a pending operation rests on. -/
theorem authority_holds (M : PublicMls S) (db : Db S) (hdb : Empty db) (events : List Event)
    (hun : Runs.Each (GroupChange.step L M) (Undisturbed L) db events) :
    Runs.Each (GroupChange.step L M) (Authorised L M) db events ∧
      Runs.Always (GroupChange.step L M) RolesOfMembers db events := by
  have hstep : ∀ (db : Db S) (e : Event), Inv L db → Undisturbed L db e →
      Inv L (GroupChange.step L M db e) := fun db e h he => h.step he
  constructor
  · exact Runs.each_of_each hstep (fun db e h he => h.authorised he) hdb.inv hun
  · have hrun := Runs.always_of_each (C := Undisturbed L) hstep hdb.inv hun
    exact hrun.imp fun db h => h.roles

end Authority

/-! ### Two runs -/

/-- Ids are compared as they are. -/
def plainLookup : OpLookup := ⟨id, fun _ _ _ _ => none, fun _ rows => rows⟩

/-- Public groups of one conversation with the epoch and the members as their state; the only commit
removes user 2. -/
def smallMls : PublicMls (ℕ × List ℤ) where
  fromExternal _ groupInfo :=
    if groupInfo = "epoch 1" then some (1, [1, 2])
    else if groupInfo = "epoch 2" then some (2, [1])
    else none
  suiteOk _ := true
  groupId _ := "secchat-group:1"
  epoch := Prod.fst
  members g := g.2.map fun uid => ⟨userCredential uid⟩
  process g commit :=
    if commit = "remove 2" then some (userCredential 1, (g.1 + 1, g.2.filter (· ≠ 2))) else none

/-- Users 1 and 2 are friends, and there is no conversation yet. -/
def friendsDb : Db (ℕ × List ℤ) where
  now := 0
  nextConv := 1
  friendships := Function.update (fun _ => none) (1, 2) (some ⟨true, 1⟩)
  members _ := []
  roles _ _ := none
  names _ := ""
  descriptions _ := ""
  disbanded _ := false
  ops := []
  groupState _ := none
  handshake := []

/-- User 1. -/
def userOne : Caller := ⟨1, by decide⟩

/-- Prepare an operation on user 2 in group 1. -/
def prepareOn (operation : GroupOp) (role id : String) : Event :=
  .prepare userOne ⟨operation, 2, 0, 1, 0, role, ⟨"", "", [2]⟩⟩ id

/-- Apply an operation. -/
def applyOp (id : String) (epoch : ℤ) (commit groupInfo control : String) : Event :=
  .apply userOne ⟨id, epoch, commit, groupInfo, "group", "tree", control, []⟩

/-- User 1 creates a group with user 2 and prepares to make them an admin and to remove them. -/
def openingEvents : List Event :=
  [prepareOn .createGroup "" "op1", applyOp "op1" 1 "create" "epoch 1" "",
    prepareOn .setMemberRole "admin" "op2", prepareOn .removeMember "" "op3"]

/-- The removal is applied first, the promotion second. -/
def crossedEvents : List Event :=
  openingEvents ++ [applyOp "op3" 2 "remove 2" "epoch 2" "", applyOp "op2" 0 "" "" "control"]

/-- **A pending change outlives its policy.**  User 2 is removed and then made an admin of the group
they have left. -/
theorem removed_member_promoted :
    ((crossedEvents.foldl (step plainLookup smallMls) friendsDb).roles 1 2 = some "admin" ∧
      (crossedEvents.foldl (step plainLookup smallMls) friendsDb).members 1 = [1]) ∧
    ¬ (Runs.Each (step plainLookup smallMls) (Authorised plainLookup smallMls) friendsDb
        crossedEvents ∧
      Runs.Always (step plainLookup smallMls) RolesOfMembers friendsDb crossedEvents) := by
  have hend : (crossedEvents.foldl (step plainLookup smallMls) friendsDb).roles 1 2 = some "admin" ∧
      (crossedEvents.foldl (step plainLookup smallMls) friendsDb).members 1 = [1] := by
    decide +kernel
  refine ⟨hend, fun h => ?_⟩
  have hlast := Runs.always_iff_prefixes.mp h.2 _ (List.prefix_refl _)
  have hmem := hlast 1 2 (by simp [hend.1])
  rw [hend.2] at hmem
  simp at hmem

/-- Applying the only operation that is left disturbs nothing. -/
theorem undisturbed_of_last {S : Type} {L : OpLookup} {db : Db S} {caller : Caller} {req : ApplyReq}
    (hclean : CleanId req.operationId)
    (hlast : (db.ops.filter fun p => p.status = .prepared).length ≤ 1) :
    Undisturbed L db (.apply caller req) := by
  refine ⟨hclean, ?_⟩
  intro row hfetch p hp hne
  obtain ⟨hrow, -, -⟩ := pending_of_fetch hclean hfetch
  have hmem : ∀ q : OpRow, q.Pending db → q ∈ db.ops.filter fun p => p.status = .prepared :=
    fun q hq => List.mem_filter.mpr ⟨hq.1, by simpa using hq.2.1⟩
  have hp' := hmem p hp
  have hrow' := hmem row hrow
  generalize (db.ops.filter fun p => p.status = .prepared) = pending at hlast hp' hrow'
  rcases pending with _ | ⟨q, _ | ⟨q', rest⟩⟩
  · simp at hp'
  · obtain rfl := List.mem_singleton.mp hp'
    exact absurd (List.mem_singleton.mp hrow').symm hne
  · simp at hlast

/-- The creation of the group and the removal, one after the other. -/
def orderedEvents : List Event :=
  [prepareOn .createGroup "" "op1", applyOp "op1" 1 "create" "epoch 1" "",
    prepareOn .removeMember "" "op3", applyOp "op3" 2 "remove 2" "epoch 2" ""]

theorem authority_holds_in_order :
    (orderedEvents.foldl (step plainLookup smallMls) friendsDb).members 1 = [1] ∧
    Runs.Each (step plainLookup smallMls) (Authorised plainLookup smallMls) friendsDb orderedEvents ∧
    Runs.Always (step plainLookup smallMls) RolesOfMembers friendsDb orderedEvents := by
  constructor
  · decide +kernel
  · refine authority_holds smallMls friendsDb ?_ orderedEvents ?_
    · exact ⟨rfl, fun _ _ => rfl, fun _ _ => rfl⟩
    · simp only [orderedEvents, Runs.each_cons, Runs.each_nil, prepareOn, applyOp]
      refine ⟨trivial, ?_, trivial, ?_, trivial⟩
      · apply undisturbed_of_last
        · decide +kernel
        · decide +kernel
      · apply undisturbed_of_last
        · decide +kernel
        · decide +kernel

end SecChat.GroupChange
