import SecChat.Library.Writes
import SecChat.Server.GroupAuthority

/-!
# Failing statements while a group change is applied

`apply_group_change` decides with three `SELECT`s and then writes up to a dozen rows, each with a
statement of its own.  The results of these are ignored, and the reply is the same whatever became of
them.

* `Fault`, `applyFaulty`: the request when one of its statements fails;
* `ChangesMade`, `Stored`, `AllOrNothing`: what should be stored when the change is reported as applied, and
  that nothing is when it is not;
* `Cell`, `cells`, `cells_foldl_exec`: the statements on members, roles and states as writes to cells;
* `Dispensable`: a statement that may fail;
* `all_or_nothing_iff`: a request is all or nothing exactly when the write that fails is dispensable;
* `half_applied`: a member who has been removed from the MLS group, and not from the table.
-/

namespace SecChat.ApplyFaults

open Py PendingOps GroupChange

/-! ### Faults -/

/-- The statement that fails.  `other` stands for those on names, notifications and events in the
timeline. -/
inductive Fault
  | none
  | fetchPendingOp
  | fetchMlsPublicState
  | convGetMembers
  | write (k : ℕ)
  | other
  deriving DecidableEq

section Faulty

variable {S : Type} (M : PublicMls S) (L : OpLookup)

/-- The decision of `handle_apply_group_change`: the operation that it finds, and the public state that
was validated.  A `SELECT` that fails finds nothing. -/
def decision (f : Fault) (db : Db S) (caller : Caller) (req : ApplyReq) :
    Except String (OpRow × Option S) := do
  if req.operationId = "" then throw "Missing operation_id"
  match if f = .fetchPendingOp then none else fetchPendingOp db L req.operationId caller.uid with
  | none => throw "Pending group operation not found"
  | some row =>
      checkArtifacts row.operation req
      if isMembershipChange row.operation then
        let state := if f = .fetchMlsPublicState then none else db.groupState row.conversationId
        let members := if f = .convGetMembers then [] else db.members row.conversationId
        let g ← validated M row caller.uid req state members
        return (row, some g)
      else
        return (row, none)

/-- The second statement of `conv_update_info`. -/
def setsDescription : Stmt S → Bool
  | .setDescription _ _ => true
  | _ => false

/-- The statements that are left when one has failed: `conv_update_info` does not go on to the
description when the name could not be set. -/
def leftAfter : Stmt S → List (Stmt S) → List (Stmt S)
  | .setName _ _, rest => rest.filter fun st => !setsDescription st
  | _, rest => rest

/-- The statements that are executed. -/
def executed (stmts : List (Stmt S)) : Fault → List (Stmt S)
  | .write k =>
      match stmts[k]? with
      | some st => stmts.take k ++ leftAfter st (stmts.drop (k + 1))
      | none => stmts
  | _ => stmts

/-- `handle_apply_group_change` with a statement that fails: the tables afterwards, and whether it answers
`group_change_applied`. -/
def applyFaulty (f : Fault) (db : Db S) (caller : Caller) (req : ApplyReq) :
    Db S × Except String (OpRow × Option S) :=
  match decision M L f db caller req with
  | .ok (row, g) => ((executed (applyStmts row caller.uid req g) f).foldl (exec L) db, .ok (row, g))
  | .error msg => (db, .error msg)

theorem applyPlan_eq (db : Db S) (caller : Caller) (req : ApplyReq) :
    applyPlan M L db caller req = (decision M L .none db caller req).map fun (row, g) =>
      (row, applyStmts row caller.uid req g) := by
  unfold applyPlan decision
  simp only [reduceCtorEq, if_false]
  by_cases hid : req.operationId = ""
  · rw [if_pos hid, if_pos hid]
    rfl
  · rw [if_neg hid, if_neg hid]
    cases fetchPendingOp db L req.operationId caller.uid with
    | none => rfl
    | some row =>
      dsimp only
      cases checkArtifacts row.operation req with
      | error msg => rfl
      | ok =>
        by_cases hchange : isMembershipChange row.operation = true
        · simp only [hchange, if_true]
          cases validated M row caller.uid req (db.groupState row.conversationId)
            (db.members row.conversationId) <;> rfl
        · simp only [hchange]
          rfl

/-- Without a fault this is the request as it is served otherwise. -/
theorem applyFaulty_none (db : Db S) (caller : Caller) (req : ApplyReq) :
    (applyFaulty M L .none db caller req).1 = applyGroupChange M L db caller req := by
  rw [applyGroupChange, applyPlan_eq, applyFaulty]
  cases decision M L .none db caller req <;> rfl

end Faulty

/-! ### What should be stored -/

section Spec

variable {S : Type}

/-- The changes of an operation to members and roles. -/
def ChangesMade (row : OpRow) (uid : ℤ) (db : Db S) : Prop :=
  let cid := row.conversationId
  match row.operation with
  | .createGroup =>
      uid ∈ db.members cid ∧ (uid ∉ row.details.members → db.roles cid uid = some "admin") ∧
        ∀ m ∈ row.details.members, 0 < m → m ∈ db.members cid ∧ db.roles cid m = some "member"
  | .addMember => row.targetUserId ∈ db.members cid ∧ db.roles cid row.targetUserId = some "member"
  | .removeMember | .leaveGroup =>
      row.targetUserId ∉ db.members cid ∧ db.roles cid row.targetUserId = none
  | .setMemberRole => db.roles cid row.targetUserId = some row.role
  | .updateGroupInfo | .other _ => True

/-- Commits and welcomes. -/
def replayed (r : HandshakeRow) : Bool := r.kind = .commit ∨ r.kind = .welcome

/-- The validated state, its commit and welcome rows, and the changes of the operation are stored. -/
structure Stored (row : OpRow) (g : Option S) (uid : ℤ) (req : ApplyReq) (db db' : Db S) : Prop where
  state : ∀ s ∈ g, db'.groupState row.conversationId = some s
  rows : db'.handshake.filter replayed = db.handshake.filter replayed ++
    (handshakeRows row.conversationId uid req).filter replayed
  changes : ChangesMade row uid db'

/-- A change that is reported as applied is stored, and otherwise the tables are as before. -/
structure AllOrNothing (uid : ℤ) (req : ApplyReq) (db : Db S)
    (x : Db S × Except String (OpRow × Option S)) : Prop where
  all : ∀ row g, x.2 = .ok (row, g) → Stored row g uid req db x.1
  nothing : ∀ msg, x.2 = .error msg → x.1 = db

end Spec

/-! ### Statements as writes -/

/-- What a statement on members, roles or states overwrites. -/
inductive Cell
  | member (cid uid : ℤ)
  | role (cid uid : ℤ)
  | state (cid : ℤ)
  deriving DecidableEq

inductive CellValue (S : Type)
  | member (present : Bool)
  | role (role : Option String)
  | state (state : Option S)

section Cells

variable {S : Type} {L : OpLookup}

/-- The tables as cells. -/
def cells (db : Db S) : Cell → CellValue S
  | .member cid uid => .member ((db.members cid).contains uid)
  | .role cid uid => .role (db.roles cid uid)
  | .state cid => .state (db.groupState cid)

/-- The write that a statement is. -/
def writeOf : Stmt S → Option (Cell × CellValue S)
  | .upsertState cid state => some (.state cid, .state (some state))
  | .addMember cid uid => some (.member cid uid, .member true)
  | .removeMember cid uid => some (.member cid uid, .member false)
  | .roleSet cid uid role => some (.role cid uid, .role (some role))
  | .roleDelete cid uid => some (.role cid uid, .role none)
  | .storeHandshake _ | .setName _ _ | .setDescription _ _ | .markApplied _ => none

/-- One statement on the cells. -/
theorem cells_exec (db : Db S) (st : Stmt S) :
    cells (exec L db st) = (writeOf st).elim (cells db) fun w => Function.update (cells db) w.1 w.2 := by
  funext c
  cases st with
  | storeHandshake row => rfl
  | setName cid name => rfl
  | setDescription cid description => rfl
  | markApplied id => rfl
  | upsertState cid state =>
    cases c with
    | state cid' => by_cases h : cid' = cid <;> simp [cells, exec, writeOf, h]
    | member | role => simp [cells, exec, writeOf]
  | addMember cid uid =>
    cases c with
    | member cid' uid' =>
      by_cases h : cid' = cid <;> by_cases h' : uid' = uid <;> by_cases hmem : uid ∈ db.members cid <;>
        simp [cells, exec, writeOf, h, h', hmem]
    | state | role =>
      simp only [cells, exec, writeOf, Option.elim_some, ne_eq, reduceCtorEq, not_false_eq_true,
        Function.update_of_ne]
      split <;> rfl
  | removeMember cid uid =>
    cases c with
    | member cid' uid' =>
      by_cases h : cid' = cid <;> by_cases h' : uid' = uid <;> simp [cells, exec, writeOf, h, h']
    | state | role => simp [cells, exec, writeOf]
  | roleSet cid uid role =>
    cases c with
    | role cid' uid' =>
      by_cases h : cid' = cid <;> by_cases h' : uid' = uid <;> simp [cells, exec, writeOf, h, h']
    | state | member => simp [cells, exec, writeOf]
  | roleDelete cid uid =>
    cases c with
    | role cid' uid' =>
      by_cases h : cid' = cid <;> by_cases h' : uid' = uid <;> simp [cells, exec, writeOf, h, h']
    | state | member => simp [cells, exec, writeOf]

/-- **Statements are writes.** -/
theorem cells_foldl_exec (db : Db S) (stmts : List (Stmt S)) :
    cells (stmts.foldl (exec L) db) = Writes.run (stmts.filterMap writeOf) (cells db) := by
  induction stmts generalizing db with
  | nil => rfl
  | cons st stmts ih =>
    rw [List.foldl_cons, ih, cells_exec]
    cases hw : writeOf st with
    | none => rw [List.filterMap_cons_none hw, Option.elim_none]
    | some w => rw [List.filterMap_cons_some hw, Option.elim_some, Writes.run_cons]

/-- The row that a statement inserts. -/
def rowOf : Stmt S → Option HandshakeRow
  | .storeHandshake row => some row
  | _ => none

theorem handshake_exec (db : Db S) (st : Stmt S) :
    (exec L db st).handshake = db.handshake ++ (rowOf st).toList := by
  cases st with
  | addMember cid uid =>
    simp only [exec, rowOf]
    split <;> simp
  | _ => simp [exec, rowOf]

theorem handshake_foldl_exec (db : Db S) (stmts : List (Stmt S)) :
    (stmts.foldl (exec L) db).handshake = db.handshake ++ stmts.filterMap rowOf := by
  induction stmts generalizing db with
  | nil => simp
  | cons st stmts ih =>
    rw [List.foldl_cons, ih, handshake_exec]
    cases hrow : rowOf st with
    | none => rw [List.filterMap_cons_none hrow, Option.toList_none, List.append_nil]
    | some row => rw [List.filterMap_cons_some hrow, Option.toList_some, List.append_assoc]; rfl

end Cells

/-! ### The specification in terms of cells -/

section Holds

variable {S : Type} {db : Db S}

/-- The statements about the members of a group that is created. -/
def createdStmts (cid : ℤ) (ms : List ℤ) : List (Stmt S) :=
  ms.flatMap fun m => [.addMember cid m, .roleSet cid m "member"]

theorem mem_created {cid : ℤ} {ms : List ℤ} {w : Cell × CellValue S} :
    w ∈ (createdStmts cid ms).filterMap writeOf ↔
      ∃ m ∈ ms, w = (.member cid m, .member true) ∨ w = (.role cid m, .role (some "member")) := by
  simp only [createdStmts, List.mem_filterMap, List.mem_flatMap, List.mem_cons, List.not_mem_nil, or_false]
  constructor
  · rintro ⟨st, ⟨m, hm, rfl | rfl⟩, hw⟩
    · exact ⟨m, hm, .inl (Option.some.inj hw).symm⟩
    · exact ⟨m, hm, .inr (Option.some.inj hw).symm⟩
  · rintro ⟨m, hm, rfl | rfl⟩
    · exact ⟨_, ⟨m, hm, .inl rfl⟩, rfl⟩
    · exact ⟨_, ⟨m, hm, .inr rfl⟩, rfl⟩

theorem member_notMem_created {cid m : ℤ} {ms : List ℤ} (hm : m ∉ ms) :
    ∀ w ∈ (createdStmts cid ms).filterMap (writeOf (S := S)), w.1 ≠ .member cid m := by
  intro w hw
  obtain ⟨m', hm', rfl | rfl⟩ := mem_created.mp hw
  · rintro ⟨⟩
    exact hm hm'
  · simp

theorem role_notMem_created {cid m : ℤ} {ms : List ℤ} (hm : m ∉ ms) :
    ∀ w ∈ (createdStmts cid ms).filterMap (writeOf (S := S)), w.1 ≠ .role cid m := by
  intro w hw
  obtain ⟨m', hm', rfl | rfl⟩ := mem_created.mp hw
  · simp
  · rintro ⟨⟩
    exact hm hm'

theorem holds_created {cid : ℤ} {ms : List ℤ} :
    Writes.Holds ((createdStmts cid ms).filterMap writeOf) (cells db) ↔
      ∀ m ∈ ms, m ∈ db.members cid ∧ db.roles cid m = some "member" := by
  induction ms with
  | nil => simp [createdStmts, Writes.holds_nil]
  | cons m ms ih =>
    have hwrites : (createdStmts cid (m :: ms)).filterMap (writeOf (S := S)) =
        (.member cid m, .member true) :: (.role cid m, .role (some "member")) ::
          (createdStmts cid ms).filterMap writeOf := rfl
    rw [hwrites, List.forall_mem_cons, Writes.holds_cons_iff, Writes.holds_cons_iff, ih]
    constructor
    · rintro ⟨⟨hms, hrole⟩, hmember⟩
      refine ⟨?_, hms⟩
      by_cases hm : m ∈ ms
      · exact hms m hm
      · have hmember' := hmember (List.forall_mem_cons.mpr ⟨by simp, member_notMem_created hm⟩)
        have hrole' := hrole (role_notMem_created hm)
        simpa [cells] using And.intro hmember' hrole'
    · rintro ⟨⟨hmember, hrole⟩, hms⟩
      exact ⟨⟨hms, fun _ => by simp [cells, hrole]⟩, fun _ => by simp [cells, hmember]⟩

/-- **The changes of an operation** are what its statements write. -/
theorem changesMade_iff {row : OpRow} {uid : ℤ} (huid : 0 < uid) :
    ChangesMade row uid db ↔ Writes.Holds ((changeStmts row uid).filterMap writeOf) (cells db) := by
  unfold ChangesMade changeStmts
  cases row.operation with
  | createGroup =>
    set ms := row.details.members.filter (0 < ·)
    have hms (m : ℤ) : m ∈ ms ↔ m ∈ row.details.members ∧ 0 < m := by
      simp [ms]
    have hwrites : ([Stmt.addMember row.conversationId uid, .roleSet row.conversationId uid "admin"] ++
        createdStmts (S := S) row.conversationId ms).filterMap writeOf =
          (.member row.conversationId uid, .member true) :: (.role row.conversationId uid, .role (some "admin")) ::
            (createdStmts row.conversationId ms).filterMap writeOf := rfl
    change _ ↔ Writes.Holds (([Stmt.addMember row.conversationId uid,
      .roleSet row.conversationId uid "admin"] ++ createdStmts (S := S) row.conversationId ms).filterMap
        writeOf) _
    rw [hwrites, Writes.holds_cons_iff, Writes.holds_cons_iff, holds_created]
    constructor
    · rintro ⟨hmember, hadmin, hothers⟩
      refine ⟨⟨fun m hm => hothers m ((hms m).mp hm).1 ((hms m).mp hm).2, fun hnever => ?_⟩,
        fun _ => by simp [cells, hmember]⟩
      have hout : uid ∉ row.details.members := fun hin =>
        hnever _ (mem_created.mpr ⟨uid, (hms uid).mpr ⟨hin, huid⟩, .inr rfl⟩) rfl
      simp [cells, hadmin hout]
    · rintro ⟨⟨hothers, hrole⟩, hmember⟩
      refine ⟨?_, fun hout => ?_, fun m hm hpos => hothers m ((hms m).mpr ⟨hm, hpos⟩)⟩
      · by_cases hin : uid ∈ ms
        · exact (hothers uid hin).1
        · have hvalue := hmember (List.forall_mem_cons.mpr ⟨by simp, member_notMem_created hin⟩)
          simpa [cells] using hvalue
      · have hvalue := hrole (role_notMem_created fun hin => hout ((hms uid).mp hin).1)
        simpa [cells] using hvalue
  | addMember => simp [writeOf, Writes.holds_cons_iff, Writes.holds_nil, cells, and_comm]
  | removeMember => simp [writeOf, Writes.holds_cons_iff, Writes.holds_nil, cells]
  | leaveGroup => simp [writeOf, Writes.holds_cons_iff, Writes.holds_nil, cells]
  | setMemberRole => simp [writeOf, Writes.holds_cons_iff, Writes.holds_nil, cells]
  | updateGroupInfo =>
    dsimp only
    split_ifs <;> exact iff_of_true trivial (Writes.holds_nil _)
  | other name => simp [Writes.holds_nil]

/-- A change of an operation is no handshake row and no state. -/
theorem changeStmts_cases {row : OpRow} {uid : ℤ} {st : Stmt S} (h : st ∈ changeStmts row uid) :
    rowOf st = none ∧ ∀ w ∈ writeOf st, ∀ cid, w.1 ≠ .state cid := by
  unfold changeStmts at h
  dsimp only at h
  split at h
  all_goals
    simp only [List.cons_append, List.nil_append, List.mem_cons, List.mem_flatMap, List.not_mem_nil, or_false,
      List.mem_append, List.mem_ite_nil_left] at h
  · rcases h with rfl | rfl | ⟨m, -, rfl | rfl⟩ <;> simp [rowOf, writeOf]
  · rcases h with rfl | rfl <;> simp [rowOf, writeOf]
  · rcases h with rfl | rfl <;> simp [rowOf, writeOf]
  · rcases h with rfl | rfl <;> simp [rowOf, writeOf]
  · subst h
    simp [rowOf, writeOf]
  · rcases h with ⟨-, rfl⟩ | ⟨-, rfl⟩ <;> simp [rowOf, writeOf]

theorem rows_applyStmts (row : OpRow) (uid : ℤ) (req : ApplyReq) (g : Option S) :
    (applyStmts row uid req g).filterMap rowOf = handshakeRows row.conversationId uid req := by
  have hchanges : (changeStmts (S := S) row uid).filterMap rowOf = [] :=
    List.filterMap_eq_nil_iff.mpr fun st hst => (changeStmts_cases hst).1
  have hrows (rows : List HandshakeRow) : (rows.map (Stmt.storeHandshake (S := S))).filterMap rowOf = rows := by
    simp [List.filterMap_map, Function.comp_def, rowOf]
  have hstate : (g.toList.map (Stmt.upsertState row.conversationId)).filterMap rowOf = [] := by
    cases g <;> rfl
  have hmark : [Stmt.markApplied (S := S) req.operationId].filterMap rowOf = [] := rfl
  simp only [applyStmts, List.filterMap_append, hrows, hstate, hchanges, hmark, List.append_nil]

theorem writes_applyStmts (row : OpRow) (uid : ℤ) (req : ApplyReq) (g : Option S) :
    (applyStmts row uid req g).filterMap writeOf =
      (g.toList.map fun s => (Cell.state row.conversationId, CellValue.state (some s))) ++
        (changeStmts row uid).filterMap writeOf := by
  have hrows (rows : List HandshakeRow) : (rows.map (Stmt.storeHandshake (S := S))).filterMap writeOf = [] := by
    simp [writeOf]
  have hstate : (g.toList.map (Stmt.upsertState row.conversationId)).filterMap writeOf =
      g.toList.map fun s => (Cell.state row.conversationId, CellValue.state (some s)) := by
    cases g <;> rfl
  have hmark : [Stmt.markApplied (S := S) req.operationId].filterMap writeOf = [] := rfl
  simp only [applyStmts, List.filterMap_append, hrows, hstate, hmark, List.append_nil, List.nil_append]

/-- **What should be stored**, in terms of rows and cells. -/
theorem stored_iff {row : OpRow} {g : Option S} {uid : ℤ} {req : ApplyReq} {db' : Db S} (huid : 0 < uid) :
    Stored row g uid req db db' ↔
      db'.handshake.filter replayed = db.handshake.filter replayed ++
          ((applyStmts row uid req g).filterMap rowOf).filter replayed ∧
        Writes.Holds ((applyStmts row uid req g).filterMap writeOf) (cells db') := by
  have hstate : (∀ s ∈ g, db'.groupState row.conversationId = some s) ∧ ChangesMade row uid db' ↔
      Writes.Holds ((applyStmts row uid req g).filterMap writeOf) (cells db') := by
    rw [writes_applyStmts, changesMade_iff huid]
    cases g with
    | none => simp
    | some s =>
      have hnever : ∀ w ∈ (changeStmts row uid).filterMap (writeOf (S := S)),
          w.1 ≠ .state row.conversationId := by
        intro w hw
        obtain ⟨st, hst, hw⟩ := List.mem_filterMap.mp hw
        exact (changeStmts_cases hst).2 w hw _
      have hvalue : cells db' (.state row.conversationId) = .state (some s) ↔
          db'.groupState row.conversationId = some s := by
        simp [cells]
      rw [Option.toList_some, List.map_singleton, List.singleton_append, Writes.holds_cons_iff]
      simp only [Option.mem_def, Option.some.injEq, forall_eq', ← hvalue]
      exact ⟨fun ⟨hs, hchanges⟩ => ⟨hchanges, fun _ => hs⟩, fun ⟨hchanges, hs⟩ => ⟨hs hnever, hchanges⟩⟩
  rw [rows_applyStmts, ← hstate]
  exact ⟨fun h => ⟨h.rows, h.state, h.changes⟩, fun ⟨hrows, hs, hchanges⟩ => ⟨hs, hrows, hchanges⟩⟩

end Holds

/-! ### All or nothing -/

section Main

variable {S : Type} (M : PublicMls S) (L : OpLookup)

/-- A statement that may fail: the row is neither a commit nor a welcome, or nothing is written to members,
roles or states that is not written again later or there already. -/
def Dispensable (db : Db S) (before : List (Stmt S)) (st : Stmt S) (after : List (Stmt S)) : Prop :=
  (∀ r ∈ rowOf st, replayed r = false) ∧
    ∀ w ∈ writeOf st, (∃ w' ∈ after.filterMap writeOf, w'.1 = w.1) ∨
      cells (before.foldl (exec L) db) w.1 = w.2

/-- The write that fails, if any does, is dispensable. -/
def Harmless (f : Fault) (db : Db S) (caller : Caller) (req : ApplyReq) : Prop :=
  ∀ k, f = .write k → ∀ row g, decision M L .none db caller req = .ok (row, g) →
    ∀ st, (applyStmts row caller.uid req g)[k]? = some st →
      Dispensable L db ((applyStmts row caller.uid req g).take k) st
        ((applyStmts row caller.uid req g).drop (k + 1))

/-- The description is neither a row nor a cell. -/
theorem filterMap_leftAfter {β : Type} {f : Stmt S → Option β}
    (hf : ∀ cid description, f (.setDescription cid description) = none) (st : Stmt S) (rest : List (Stmt S)) :
    (leftAfter st rest).filterMap f = rest.filterMap f := by
  have hkept : (rest.filter fun st => !setsDescription st).filterMap f = rest.filterMap f := by
    rw [List.filterMap_filter]
    refine List.filterMap_congr fun st' _ => ?_
    cases st' <;> simp [setsDescription, hf]
  cases st with
  | setName cid name => exact hkept
  | _ => rfl

variable {M L} {db : Db S}

/-- **One statement fails.** -/
theorem skip_iff (before : List (Stmt S)) (st : Stmt S) (after : List (Stmt S)) :
    (((before ++ leftAfter st after).foldl (exec L) db).handshake.filter replayed =
          db.handshake.filter replayed ++ ((before ++ st :: after).filterMap rowOf).filter replayed ∧
        Writes.Holds ((before ++ st :: after).filterMap writeOf)
          (cells ((before ++ leftAfter st after).foldl (exec L) db))) ↔
      Dispensable L db before st after := by
  refine and_congr ?_ ?_
  · rw [handshake_foldl_exec, List.filterMap_append, filterMap_leftAfter fun _ _ => rfl, List.filter_append,
      List.append_cancel_left_eq, List.filter_append, List.filterMap_append, List.filter_append,
      List.append_cancel_left_eq]
    cases hrow : rowOf st with
    | none => simp [List.filterMap_cons_none hrow]
    | some r =>
      rw [List.filterMap_cons_some hrow]
      cases hr : replayed r with
      | false => simp [hr]
      | true => simp [hr]
  · rw [cells_foldl_exec, List.filterMap_append, List.filterMap_append,
      filterMap_leftAfter (f := writeOf) fun _ _ => rfl]
    cases hw : writeOf st with
    | none =>
      rw [List.filterMap_cons_none hw]
      simpa using Writes.holds_run _ (cells db)
    | some w =>
      rw [List.filterMap_cons_some hw, Writes.holds_skip_iff, cells_foldl_exec]
      simp

/-- A request without a failing write stores everything. -/
theorem stored_of_all (row : OpRow) (g : Option S) (caller : Caller) (req : ApplyReq) :
    Stored row g caller.uid req db ((applyStmts row caller.uid req g).foldl (exec L) db) := by
  rw [stored_iff caller.pos, handshake_foldl_exec, cells_foldl_exec, List.filter_append]
  exact ⟨rfl, Writes.holds_run _ _⟩

theorem decision_write (k : ℕ) (caller : Caller) (req : ApplyReq) :
    decision M L (.write k) db caller req = decision M L .none db caller req := by
  unfold decision
  simp only [reduceCtorEq, if_false]

variable (M L db)

theorem allOrNothing_ok {uid : ℤ} {req : ApplyReq} {db' : Db S} {row : OpRow} {g : Option S} :
    AllOrNothing uid req db (db', .ok (row, g)) ↔ Stored row g uid req db db' := by
  refine ⟨fun h => h.all row g rfl, fun h => ⟨?_, by rintro msg ⟨⟩⟩⟩
  rintro row' g' ⟨⟩
  exact h

/-- **A change is all or nothing** exactly when the write that fails is dispensable. -/
theorem all_or_nothing_iff (f : Fault) (caller : Caller) (req : ApplyReq) :
    AllOrNothing caller.uid req db (applyFaulty M L f db caller req) ↔ Harmless M L f db caller req := by
  unfold applyFaulty
  cases hd : decision M L f db caller req with
  | error msg =>
    refine iff_of_true ⟨by rintro row g ⟨⟩, fun _ _ => rfl⟩ ?_
    rintro k rfl row g hok
    rw [decision_write] at hd
    rw [hd] at hok
    cases hok
  | ok x =>
    obtain ⟨row, g⟩ := x
    dsimp only
    rw [allOrNothing_ok]
    cases f with
    | write k =>
      rw [decision_write] at hd
      have hharmless : Harmless M L (.write k) db caller req ↔
          ∀ st, (applyStmts row caller.uid req g)[k]? = some st →
            Dispensable L db ((applyStmts row caller.uid req g).take k) st
              ((applyStmts row caller.uid req g).drop (k + 1)) := by
        constructor
        · exact fun h => h k rfl row g hd
        · rintro h k' ⟨⟩ row' g' hok
          obtain ⟨rfl, rfl⟩ := Prod.mk.inj (Except.ok.inj (hd.symm.trans hok))
          exact h
      rw [hharmless, executed]
      cases hk : (applyStmts row caller.uid req g)[k]? with
      | none => exact iff_of_true (stored_of_all row g caller req) (by simp)
      | some st =>
        have hsplit : (applyStmts row caller.uid req g).take k ++
            st :: (applyStmts row caller.uid req g).drop (k + 1) = applyStmts row caller.uid req g := by
          obtain ⟨hlt, rfl⟩ := List.getElem?_eq_some_iff.mp hk
          simp
        have hskip := @skip_iff S L db ((applyStmts row caller.uid req g).take k) st
          ((applyStmts row caller.uid req g).drop (k + 1))
        rw [hsplit] at hskip
        rw [stored_iff caller.pos, hskip]
        simp
    | none | fetchPendingOp | fetchMlsPublicState | convGetMembers | other =>
      exact iff_of_true (stored_of_all row g caller req) (by rintro k ⟨⟩)

end Main

/-- Users 1 and 2 are in group 1, and user 1 has prepared to remove user 2. -/
def removalDb : Db (ℕ × List ℤ) :=
  { friendsDb with
    nextConv := 2
    members := Function.update (fun _ => []) 1 [1, 2]
    roles := Function.update (fun _ _ => none) 1 fun uid =>
      if uid = 1 then some "admin" else if uid = 2 then some "member" else none
    groupState := Function.update (fun _ => none) 1 (some (1, [1, 2]))
    ops := [⟨"op", 1, 1, .removeMember, 2, "", ⟨"", "", []⟩, .prepared, 600000⟩] }

/-- The removal, with its artifacts. -/
def removal : ApplyReq := ⟨"op", 2, "remove 2", "epoch 2", "group", "tree", "", []⟩

/-- The fifth write of the removal is the one in `conv_remove_member`. -/
def failedRemoval : Db (ℕ × List ℤ) × Except String (OpRow × Option (ℕ × List ℤ)) :=
  applyFaulty smallMls plainLookup (.write 4) removalDb userOne removal

/-- The answer is about the removal of user 2 from group 1. -/
def removesTwo : Except String (OpRow × Option (ℕ × List ℤ)) → Bool
  | .ok (row, _) => row.operation = .removeMember ∧ row.targetUserId = 2 ∧ row.conversationId = 1
  | .error _ => false

/-- **A change that is half applied**: it is reported as applied, user 2 is no longer in the MLS group, and
still in the table. -/
theorem half_applied :
    (removesTwo failedRemoval.2 = true ∧ failedRemoval.1.groupState 1 = some (2, [1]) ∧
        failedRemoval.1.members 1 = [1, 2]) ∧
      ¬ ∀ (f : Fault) (db : Db (ℕ × List ℤ)) (caller : Caller) (req : ApplyReq),
        AllOrNothing caller.uid req db (applyFaulty smallMls plainLookup f db caller req) := by
  have hend : removesTwo failedRemoval.2 = true ∧ failedRemoval.1.groupState 1 = some (2, [1]) ∧
      failedRemoval.1.members 1 = [1, 2] := by
    decide +kernel
  refine ⟨hend, fun h => ?_⟩
  have hall : AllOrNothing userOne.uid removal removalDb failedRemoval := h (.write 4) removalDb userOne removal
  obtain ⟨hremoves, -, hmembers⟩ := hend
  generalize failedRemoval = x at hall hremoves hmembers
  cases hanswer : x.2 with
  | error msg =>
    rw [hanswer] at hremoves
    cases hremoves
  | ok found =>
    obtain ⟨row, g⟩ := found
    rw [hanswer] at hremoves
    simp only [removesTwo, decide_eq_true_eq] at hremoves
    obtain ⟨hoperation, htarget, hcid⟩ := hremoves
    have hchanges := (hall.all row g hanswer).changes
    simp only [ChangesMade, hoperation, htarget, hcid, hmembers] at hchanges
    exact hchanges.1 (by simp)

end SecChat.ApplyFaults
