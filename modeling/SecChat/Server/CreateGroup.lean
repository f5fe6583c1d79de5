import SecChat.Server.GroupAuthority

/-!
# Creating a group

Three functions read the `members` array of a `create_group` request: `prepare_group_change` checks
the friendships of at most 50 numbers, `expected_members_for_operation` hands the validator all of
them, and `apply_group_change` inserts all of them.

* `Item`, `jgetArray`, `expectedOnCreate`, `createStmts`: the array and its three readers;
* `Stored`, `Start`: what a run keeps of a prepared request and of the friendships;
* `created_properly_iff`: a created group has only checked friends, under one admin, exactly when
  the first 50 numbers cover the others;
* `stranger_inserted`: a request with 51 members.
-/

namespace SecChat.GroupChange

open Py PendingOps

/-! ### The array and its readers -/

/-- An element of a JSON array; of a number cJSON keeps `valueint`. -/
inductive Item
  | number (valueint : ℤ)
  | other
  deriving DecidableEq, Repr

/-- `valueint` of a number. -/
def Item.valueint? : Item → Option ℤ
  | .number v => some v
  | .other => none

/-- The numbers of an array, in order. -/
def numbers (items : List Item) : List ℤ := items.filterMap Item.valueint?

/-- `_jget_array_cb`. -/
def jgetArrayLoop (maxlen : ℕ) : List Item → List ℤ → List ℤ
  | [], arr => arr
  | elem :: items, arr =>
      if maxlen ≤ arr.length then arr
      else
        match elem with
        | .number v => jgetArrayLoop maxlen items (arr ++ [v])
        | .other => jgetArrayLoop maxlen items arr

/-- `jget_array`; the value is `none` when the key is missing or no array. -/
def jgetArray (members : Option (List Item)) (maxlen : ℕ) : List ℤ :=
  match members with
  | some items => jgetArrayLoop maxlen items []
  | none => []

/-- `add_unique_member_id`. -/
def addUniqueMemberId (arr : List ℤ) (uid : ℤ) : List ℤ :=
  if uid ≤ 0 then arr else if uid ∈ arr then arr else arr ++ [uid]

/-- The case of `create_group` in `expected_members_for_operation`. -/
def expectedOnCreate (actor : ℤ) (members : Option (List Item)) : List ℤ :=
  (members.getD []).foldl
    (fun arr m =>
      match m with
      | .number v => addUniqueMemberId arr v
      | .other => arr)
    (addUniqueMemberId [] actor)

/-- The loop over the members when a group is applied. -/
def memberStmts {S : Type} (cid : ℤ) : List Item → List (Stmt S)
  | [] => []
  | .other :: items => memberStmts cid items
  | .number v :: items =>
      if v ≤ 0 then memberStmts cid items
      else .addMember cid v :: .roleSet cid v "member" :: memberStmts cid items

/-- The case of `create_group` in `handle_apply_group_change`. -/
def createStmts {S : Type} (cid uid : ℤ) (members : Option (List Item)) : List (Stmt S) :=
  .addMember cid uid :: .roleSet cid uid "admin" :: memberStmts cid (members.getD [])

/-- A `create_group` request. -/
structure CreateReq where
  name : String
  description : String
  members : Option (List Item)
  userId : ℤ
  targetUserId : ℤ
  role : String

/-- All numbers of the request. -/
def CreateReq.numbers (req : CreateReq) : List ℤ := GroupChange.numbers (req.members.getD [])

/-- The request as `prepare_group_change` takes it. -/
def CreateReq.toPrepare (req : CreateReq) : PrepareReq where
  operation := .createGroup
  userId := req.userId
  targetUserId := req.targetUserId
  groupId := 0
  conversationId := 0
  role := req.role
  details := ⟨req.name, req.description, req.numbers⟩

/-- The bounded reader returns the first numbers. -/
theorem jgetArrayLoop_eq {maxlen : ℕ} (items : List Item) {arr : List ℤ} (h : arr.length ≤ maxlen) :
    jgetArrayLoop maxlen items arr = arr ++ (numbers items).take (maxlen - arr.length) := by
  induction items generalizing arr with
  | nil => simp [jgetArrayLoop, numbers]
  | cons elem items ih =>
    unfold jgetArrayLoop
    split
    · next hfull =>
      have hzero : maxlen - arr.length = 0 := by omega
      simp [hzero]
    · next hroom =>
      cases elem with
      | other =>
        simp only [ih h]
        rfl
      | number v =>
        have hlen : (arr ++ [v]).length ≤ maxlen := by
          simp only [List.length_append, List.length_singleton]
          omega
        have hsucc : maxlen - arr.length = (maxlen - (arr ++ [v]).length) + 1 := by
          simp only [List.length_append, List.length_singleton]
          omega
        have hnumbers : numbers (.number v :: items) = v :: numbers items := rfl
        simp only [ih hlen]
        rw [hsucc, hnumbers, List.take_succ_cons, List.append_assoc, List.singleton_append]

theorem jgetArray_eq (req : CreateReq) (maxlen : ℕ) :
    jgetArray req.members maxlen = req.numbers.take maxlen := by
  unfold jgetArray CreateReq.numbers
  cases req.members with
  | none => simp [numbers]
  | some items => simpa using @jgetArrayLoop_eq maxlen items [] (Nat.zero_le maxlen)

theorem mem_addUniqueMemberId {arr : List ℤ} {uid u : ℤ} :
    u ∈ addUniqueMemberId arr uid ↔ u ∈ arr ∨ 0 < u ∧ u = uid := by
  unfold addUniqueMemberId
  split
  · next hneg =>
    constructor
    · exact .inl
    · rintro (h | ⟨hpos, rfl⟩)
      · exact h
      · omega
  · next hpos =>
    split
    · next hmem =>
      constructor
      · exact .inl
      · rintro (h | ⟨-, rfl⟩)
        · exact h
        · exact hmem
    · simp only [List.mem_append, List.mem_singleton]
      constructor
      · rintro (h | rfl)
        · exact .inl h
        · exact .inr ⟨by omega, rfl⟩
      · rintro (h | ⟨-, rfl⟩)
        · exact .inl h
        · exact .inr rfl

/-- The builder of the expected members keeps every positive number. -/
theorem mem_expectedOnCreate {actor u : ℤ} {members : Option (List Item)} :
    u ∈ expectedOnCreate actor members ↔ 0 < u ∧ (u = actor ∨ u ∈ numbers (members.getD [])) := by
  unfold expectedOnCreate
  have hfold : ∀ (items : List Item) (arr : List ℤ),
      u ∈ items.foldl (fun arr m =>
        match m with
        | .number v => addUniqueMemberId arr v
        | .other => arr) arr ↔ u ∈ arr ∨ 0 < u ∧ u ∈ numbers items := by
    intro items
    induction items with
    | nil => simp [numbers]
    | cons m items ih =>
      intro arr
      rw [List.foldl_cons, ih]
      cases m with
      | other => rfl
      | number v =>
        have hnumbers : numbers (.number v :: items) = v :: numbers items := rfl
        simp only [mem_addUniqueMemberId, hnumbers, List.mem_cons]
        tauto
  rw [hfold, mem_addUniqueMemberId]
  simp only [List.not_mem_nil, false_or]
  tauto

/-- The validator gets the members that the details list. -/
theorem expectedMembers_details {row : OpRow} {uid : ℤ} {req : CreateReq} (members : List ℤ)
    (hop : row.operation = .createGroup) (hdetails : row.details.members = req.numbers) :
    expectedMembers row uid members = (expectedOnCreate uid req.members).toFinset := by
  ext u
  simp only [expectedMembers, hop, hdetails, List.mem_toFinset, mem_expectedOnCreate,
    List.mem_filter, List.mem_cons, decide_eq_true_eq, CreateReq.numbers]
  tauto

theorem memberStmts_eq {S : Type} (cid : ℤ) (items : List Item) :
    memberStmts (S := S) cid items =
      ((numbers items).filter (0 < ·)).flatMap fun m =>
        [.addMember cid m, .roleSet cid m "member"] := by
  induction items with
  | nil => rfl
  | cons m items ih =>
    cases m with
    | other => exact ih
    | number v =>
      have hnumbers : numbers (.number v :: items) = v :: numbers items := rfl
      rw [hnumbers]
      unfold memberStmts
      by_cases hv : v ≤ 0
      · rw [if_pos hv, List.filter_cons_of_neg (by simpa using hv), ih]
      · rw [if_neg hv, List.filter_cons_of_pos (by simpa using hv), ih]
        rfl

/-- What is applied is the loop over the whole array. -/
theorem changeStmts_create {S : Type} {row : OpRow} {uid : ℤ} {req : CreateReq}
    (hop : row.operation = .createGroup) (hdetails : row.details.members = req.numbers) :
    changeStmts (S := S) row uid = createStmts row.conversationId uid req.members := by
  simp only [changeStmts, hop, createStmts, hdetails, memberStmts_eq, CreateReq.numbers]
  rfl

/-! ### From prepare to apply -/

section Created

variable {S : Type} {L : OpLookup} {M : PublicMls S} {db : Db S}

/-- The ids in apply requests are clean, as those are that the server makes. -/
def CleanRequest (e : Event) : Prop := ∀ caller req, e = .apply caller req → CleanId req.operationId

/-- A database before the first group, in which nobody is their own friend. -/
structure Start (db : Db S) : Prop extends Empty db where
  noSelf : ∀ u, db.friendships (u, u) = none

/-- A row is there, whatever its status. -/
def Stored (row : OpRow) (db : Db S) : Prop := ∃ status, { row with status := status } ∈ db.ops

/-- The row of a prepared creation. -/
def createdRow (db : Db S) (caller : Caller) (req : CreateReq) (id : String) : OpRow where
  operationId := id
  conversationId := db.nextConv
  actorId := caller.uid
  operation := .createGroup
  targetUserId := if 0 < req.toPrepare.target then req.toPrepare.target else 0
  role := req.role
  details := ⟨req.name, req.description, req.numbers⟩
  status := .prepared
  expiresAt := db.now + 600000

/-- What a creation that was prepared had checked. -/
theorem prepare_create_cases {caller : Caller} {req : CreateReq} {id : String} {db₁ : Db S}
    (h : prepareGroupChange L db caller req.toPrepare id = (db₁, .ok id)) :
    (∀ m ∈ jgetArray req.members 50, friendshipExistsAccepted db caller.uid m = true) ∧
      createdRow db caller req id ∈ db₁.ops := by
  unfold prepareGroupChange at h
  dsimp only at h
  have hother : req.toPrepare.operation ≠ .other "" := by simp [CreateReq.toPrepare]
  have hcreate : req.toPrepare.operation = .createGroup := rfl
  rw [if_neg hother, if_pos hcreate] at h
  generalize (if req.toPrepare.details.name = "" then "Unnamed Group"
    else req.toPrepare.details.name) = name at h
  rw [jgetArray_eq]
  split at h
  · cases h
  · split at h
    · cases h
    · split at h
      · cases h
      · next hfriends =>
        unfold storePendingOp at h
        split at h
        · cases h
        · obtain ⟨rfl, -⟩ := Prod.mk.inj h
          constructor
          · simpa [CreateReq.toPrepare] using hfriends
          · exact List.mem_append_right _ (List.mem_singleton_self _)

/-- What a prepare request can do: nothing, or store one operation. -/
theorem prepare_cases (db : Db S) (caller : Caller) (req : PrepareReq) (id : String) :
    (prepareGroupChange L db caller req id).1 = db ∨
    ∃ next names cid target, (prepareGroupChange L db caller req id).1 =
      (storePendingOp L { db with nextConv := next, names := names } id cid caller.uid req
        target).1 := by
  unfold prepareGroupChange
  dsimp only
  generalize (if req.details.name = "" then "Unnamed Group" else req.details.name) = name
  split
  · exact .inl rfl
  · split
    · split
      · exact .inl rfl
      · split
        · exact .inl rfl
        · split
          · exact .inl rfl
          · exact .inr ⟨db.nextConv + 1, Function.update db.names db.nextConv name, db.nextConv,
              req.target, rfl⟩
    · split
      · exact .inl rfl
      · split
        · exact .inl rfl
        · split
          · exact .inl rfl
          · split
            · exact .inl rfl
            · exact .inr ⟨db.nextConv, db.names, req.group, _, rfl⟩

theorem mem_prepare {caller : Caller} {req : PrepareReq} {id : String} {row : OpRow}
    (h : row ∈ db.ops) : row ∈ (prepareGroupChange L db caller req id).1.ops := by
  rcases prepare_cases (L := L) db caller req id with heq | ⟨next, names, cid, target, heq⟩
  · rwa [heq]
  · rw [heq]
    unfold storePendingOp
    split
    · exact h
    · exact List.mem_append_left _ h

/-- No request deletes an operation. -/
theorem Stored.step {row : OpRow} (h : Stored row db) {e : Event} (hclean : CleanRequest e) :
    Stored row (step L M db e) := by
  obtain ⟨status, h⟩ := h
  cases e with
  | prepare caller req id => exact ⟨status, mem_prepare h⟩
  | apply caller req =>
    simp only [GroupChange.step, applyGroupChange]
    split
    · next found stmts hplan =>
      obtain ⟨-, state, rfl⟩ := applyPlan_cases hplan
      rw [foldl_applyStmts]
      have hops := (foldl_recordStmts (L := L) db found caller.uid req state).2.2
      unfold Stored
      rw [← GroupChange.changed, marked_changed]
      unfold markPendingApplied
      rw [if_pos (hclean caller req rfl), hops]
      by_cases hkey : L.key row.operationId = L.key req.operationId
      · exact ⟨.applied, List.mem_map.mpr ⟨_, h, by simp [hkey]⟩⟩
      · exact ⟨status, List.mem_map.mpr ⟨_, h, by simp [hkey]⟩⟩
    · exact ⟨status, h⟩
  | friendRequest caller target =>
    simp only [GroupChange.step, GroupChange.friendRequest]
    split
    · exact ⟨status, h⟩
    · split <;> exact ⟨status, h⟩
  | friendAccept caller requester =>
    simp only [GroupChange.step, GroupChange.friendAccept]
    split
    · split <;> exact ⟨status, h⟩
    · exact ⟨status, h⟩
  | friendRemove caller other => exact ⟨status, h⟩
  | tick ms => exact ⟨status, h⟩

theorem pair_eq_self {a b u : ℤ} (h : pair a b = (u, u)) : a = b := by
  obtain ⟨hmin, hmax⟩ := Prod.mk.inj h
  omega

theorem prepare_friendships (db : Db S) (caller : Caller) (req : PrepareReq) (id : String) :
    (prepareGroupChange L db caller req id).1.friendships = db.friendships := by
  rcases prepare_cases (L := L) db caller req id with heq | ⟨next, names, cid, target, heq⟩
  · rw [heq]
  · rw [heq]
    unfold storePendingOp
    split <;> rfl

/-- Nobody becomes their own friend. -/
theorem noSelf_step (h : ∀ u, db.friendships (u, u) = none) (e : Event) (u : ℤ) :
    (step L M db e).friendships (u, u) = none := by
  cases e with
  | prepare caller req id =>
    simp only [GroupChange.step, prepare_friendships]
    exact h u
  | apply caller req =>
    simp only [GroupChange.step, applyGroupChange]
    split
    · rw [foldl_exec_eq (·.friendships) (fun _ _ db => exec_friendships db _) db]
      exact h u
    · exact h u
  | friendRequest caller target =>
    simp only [GroupChange.step, GroupChange.friendRequest]
    split
    · exact h u
    · next hne =>
      split
      · exact h u
      · have hpair : (u, u) ≠ pair caller.uid target := fun heq => hne (pair_eq_self heq.symm)
        simpa [Function.update_of_ne hpair] using h u
  | friendAccept caller requester =>
    simp only [GroupChange.step, GroupChange.friendAccept]
    split
    · next row hrow =>
      split
      · have hpair : (u, u) ≠ pair caller.uid requester := by
          intro heq
          rw [← heq, h u] at hrow
          cases hrow
        simpa [Function.update_of_ne hpair] using h u
      · exact h u
    · exact h u
  | friendRemove caller other =>
    simp only [GroupChange.step, GroupChange.friendRemove, Function.update_apply]
    split
    · rfl
    · exact h u
  | tick ms => exact h u

/-! ### What the creation writes -/

/-- The loop over the members: all positive numbers get in, as ordinary members. -/
theorem foldl_memberStmts (cid : ℤ) (items : List Item) (db : Db S) (u : ℤ) :
    (u ∈ ((memberStmts cid items).foldl (exec L) db).members cid ↔
      u ∈ db.members cid ∨ 0 < u ∧ u ∈ numbers items) ∧
    ((memberStmts cid items).foldl (exec L) db).roles cid u =
      if 0 < u ∧ u ∈ numbers items then some "member" else db.roles cid u := by
  induction items generalizing db with
  | nil => simp [memberStmts, numbers]
  | cons m items ih =>
    cases m with
    | other => exact ih db
    | number v =>
      have hnumbers : numbers (.number v :: items) = v :: numbers items := rfl
      unfold memberStmts
      by_cases hv : v ≤ 0
      · have hskip : 0 < u ∧ u ∈ v :: numbers items ↔ 0 < u ∧ u ∈ numbers items := by
          rw [List.mem_cons]
          constructor
          · rintro ⟨hpos, rfl | hmem⟩
            · omega
            · exact ⟨hpos, hmem⟩
          · exact fun ⟨hpos, hmem⟩ => ⟨hpos, .inr hmem⟩
        rw [if_pos hv, hnumbers]
        simpa only [hskip] using ih db
      · obtain ⟨hmembers, hroles⟩ :=
          ih (exec L (exec L db (.addMember cid v)) (.roleSet cid v "member"))
        rw [if_neg hv, hnumbers]
        simp only [List.foldl_cons, hmembers, hroles, List.mem_cons]
        have hin : u ∈ (exec L (exec L db (.addMember cid v)) (.roleSet cid v "member")).members cid
            ↔ u ∈ db.members cid ∨ u = v := by
          simp only [exec]
          split
          · next hmem =>
            constructor
            · exact .inl
            · rintro (h | rfl)
              · exact h
              · exact hmem
          · simp
        have hrole : (exec L (exec L db (.addMember cid v)) (.roleSet cid v "member")).roles cid u =
            if u = v then some "member" else db.roles cid u := by
          simp only [exec]
          split <;> simp [Function.update_apply]
        rw [hin, hrole]
        constructor
        · constructor
          · rintro ((h | rfl) | ⟨hpos, hmem⟩)
            · exact .inl h
            · exact .inr ⟨by omega, .inl rfl⟩
            · exact .inr ⟨hpos, .inr hmem⟩
          · rintro (h | ⟨hpos, rfl | hmem⟩)
            · exact .inl (.inl h)
            · exact .inl (.inr rfl)
            · exact .inr ⟨hpos, hmem⟩
        · by_cases huv : u = v
          · subst huv
            have hpos : 0 < u := by omega
            simp [hpos]
          · simp [huv]

/-- The group after a creation, if it was empty before. -/
theorem applied_creation {caller : Caller} {areq : ApplyReq} {row : OpRow} {stmts : List (Stmt S)}
    {req : CreateReq} (hplan : applyPlan M L db caller areq = .ok (row, stmts))
    (hop : row.operation = .createGroup) (hdetails : row.details.members = req.numbers)
    (hempty : db.members row.conversationId = []) (u : ℤ) :
    (u ∈ (applyGroupChange M L db caller areq).members row.conversationId ↔
      u = caller.uid ∨ 0 < u ∧ u ∈ req.numbers) ∧
    (u = caller.uid ∨ 0 < u ∧ u ∈ req.numbers →
      (applyGroupChange M L db caller areq).roles row.conversationId u =
        if 0 < u ∧ u ∈ req.numbers then some "member" else some "admin") := by
  unfold applyGroupChange
  rw [hplan]
  dsimp only
  obtain ⟨-, state, rfl⟩ := applyPlan_cases hplan
  obtain ⟨hrec, -, -⟩ := foldl_recordStmts (L := L) db row caller.uid areq state
  rw [foldl_applyStmts, changeStmts_create hop hdetails]
  simp only [createStmts, List.foldl_cons]
  simp only [exec]
  generalize hdb : (recordStmts row caller.uid areq state).foldl (exec L) db = db' at hrec ⊢
  have hnone : caller.uid ∉ db'.members row.conversationId := by simp [hrec, hempty]
  rw [if_neg hnone]
  constructor
  · rw [(foldl_memberStmts row.conversationId _ _ u).1]
    simp [hrec, hempty, CreateReq.numbers]
  · intro hu
    rw [(foldl_memberStmts row.conversationId _ _ u).2]
    by_cases hlisted : 0 < u ∧ u ∈ req.numbers
    · rw [if_pos hlisted]
      exact if_pos hlisted
    · rw [if_neg hlisted]
      have hcaller := hu.resolve_right hlisted
      refine (if_neg hlisted).trans ?_
      simp [hcaller]

/-! ### The theorem -/

/-- What creating a group should do, from the state `db` of the request to the state `db'` after it
was applied: all members but the creator were checked to be friends, and the creator is the only
admin. -/
structure CreatedProperly (db db' : Db S) (cid : ℤ) (caller : Caller) (req : CreateReq) : Prop where
  friends : ∀ u ∈ db'.members cid, u ≠ caller.uid →
    u ∈ jgetArray req.members 50 ∧ friendshipExistsAccepted db caller.uid u = true
  admin : db'.roles cid caller.uid = some "admin"
  others : ∀ u ∈ db'.members cid, u ≠ caller.uid → db'.roles cid u = some "member"

/-- The invariant: what was prepared is there, groups under creation are empty. -/
structure Kept (L : OpLookup) (row : OpRow) (db : Db S) : Prop where
  tables : Tables L db
  stored : Stored row db

/-- The row that an apply request with the id finds is the one that was stored. -/
theorem Kept.found {row row' : OpRow} (h : Kept L row db) {id : String} {uid : ℤ}
    (hclean : CleanId id) (hid : row.operationId = id) (hstatus : row.status = .prepared)
    (hfetch : fetchPendingOp db L id uid = some row') : row' = row := by
  obtain ⟨⟨hmem, hprepared, -⟩, hkey, -⟩ := pending_of_fetch hclean hfetch
  obtain ⟨status, hstored⟩ := h.stored
  have hsame : row' = { row with status := status } :=
    List.inj_on_of_nodup_map h.tables.keys hmem hstored (by rw [hkey, hid])
  rw [hsame] at hprepared ⊢
  simp only at hprepared
  rw [hprepared, ← hstatus]

/-- **Only checked friends enter a created group, and the creator is its admin**, if and only if the
first 50 numbers of the request contain all positive numbers after them.  Other requests may come
before the creation is prepared, and between this and its application. -/
theorem created_properly_iff (M : PublicMls S) (L : OpLookup) (db₀ : Db S) (hstart : Start db₀)
    (before between : List Event) (caller : Caller) (req : CreateReq) (areq : ApplyReq)
    (db₁ : Db S) (row : OpRow) (stmts : List (Stmt S))
    (hbefore : ∀ e ∈ before, CleanRequest e) (hbetween : ∀ e ∈ between, CleanRequest e)
    (hclean : CleanId areq.operationId)
    (hprepared : prepareGroupChange L (before.foldl (step L M) db₀) caller req.toPrepare
      areq.operationId = (db₁, .ok areq.operationId))
    (hplan : applyPlan M L (between.foldl (step L M) db₁) caller areq = .ok (row, stmts)) :
    CreatedProperly (before.foldl (step L M) db₀)
        (applyGroupChange M L (between.foldl (step L M) db₁) caller areq)
        row.conversationId caller req ↔
      ∀ m ∈ req.numbers.drop 50, 0 < m → m ∈ req.numbers.take 50 := by
  -- the invariants on the two parts of the run
  have htables : Tables L (before.foldl (step L M) db₀) :=
    Runs.foldl_of_forall (fun db e h he => Tables.step h he) hstart.toEmpty.inv.tables hbefore
  have hself : ∀ u, (before.foldl (step L M) db₀).friendships (u, u) = none :=
    Runs.foldl_of_forall (P := fun db : Db S => ∀ u, db.friendships (u, u) = none)
      (fun db e h _ => noSelf_step h e) hstart.noSelf hbefore
  generalize before.foldl (step L M) db₀ = db at htables hself hprepared ⊢
  obtain ⟨hfriends, hstored⟩ := prepare_create_cases hprepared
  have hkept : Kept L (createdRow db caller req areq.operationId) db₁ := by
    refine ⟨?_, ⟨.prepared, hstored⟩⟩
    have h := htables.prepare caller req.toPrepare areq.operationId
    rwa [hprepared] at h
  have hkept' : Kept L (createdRow db caller req areq.operationId)
      (between.foldl (step L M) db₁) :=
    Runs.foldl_of_forall (fun db e h he => ⟨h.tables.step he, h.stored.step he⟩) hkept hbetween
  generalize between.foldl (step L M) db₁ = db₂ at hkept' hplan ⊢
  obtain ⟨hfetch, -⟩ := applyPlan_cases hplan
  obtain rfl := hkept'.found hclean rfl rfl hfetch
  obtain ⟨hpending, -, -⟩ := pending_of_fetch hclean hfetch
  have hempty := (hkept'.tables.creating _ hpending.1 rfl rfl).1
  have hafter := fun u => applied_creation hplan rfl rfl hempty u
  have hsplit : ∀ m, m ∈ req.numbers ↔ m ∈ req.numbers.take 50 ∨ m ∈ req.numbers.drop 50 := by
    intro m
    conv_lhs => rw [← List.take_append_drop 50 req.numbers]
    exact List.mem_append
  constructor
  · rintro ⟨hchecked, hadmin, -⟩ m hm hpos
    have hlisted : 0 < m ∧ m ∈ req.numbers := ⟨hpos, (hsplit m).mpr (.inr hm)⟩
    by_cases hme : m = caller.uid
    · -- the creator is listed, and becomes an ordinary member
      have hrole := (hafter m).2 (.inr hlisted)
      rw [if_pos hlisted, hme, hadmin] at hrole
      simp at hrole
    · have hmem := (hchecked m ((hafter m).1.mpr (.inr hlisted)) hme).1
      rwa [jgetArray_eq] at hmem
  · intro hcover
    have hfirst : ∀ m, 0 < m ∧ m ∈ req.numbers → m ∈ jgetArray req.members 50 := by
      rintro m ⟨hpos, hm⟩
      rw [jgetArray_eq]
      rcases (hsplit m).mp hm with h | h
      · exact h
      · exact hcover m h hpos
    have hcreator : ¬ (0 < caller.uid ∧ caller.uid ∈ req.numbers) := by
      intro h
      have hacc := hfriends _ (hfirst _ h)
      simp [friendshipExistsAccepted, pair, hself] at hacc
    refine ⟨fun u hu hne => ?_, ?_, fun u hu hne => ?_⟩
    · have hu' := hfirst u (((hafter u).1.mp hu).resolve_left hne)
      exact ⟨hu', hfriends u hu'⟩
    · rw [(hafter caller.uid).2 (.inl rfl), if_neg hcreator]
    · have hlisted := ((hafter u).1.mp hu).resolve_left hne
      rw [(hafter u).2 (.inr hlisted), if_pos hlisted]

end Created

/-! ### Two requests -/

/-- The bridge for a group of three; user 3 is nobody's friend. -/
def threeMls : PublicMls (ℕ × List ℤ) :=
  { smallMls with fromExternal := fun _ _ => some (1, [1, 2, 3]) }

/-- The number 2 fifty times, and then the number 3. -/
def strangerReq : CreateReq :=
  ⟨"group", "", some (List.replicate 50 (.number 2) ++ [.other, .number 3]), 0, 0, ""⟩

/-- The artifacts of a creation. -/
def createArtifacts : ApplyReq := ⟨"op1", 1, "create", "epoch 1", "group", "tree", "", []⟩

/-- The state after a request was prepared and applied. -/
def afterCreation (M : PublicMls (ℕ × List ℤ)) (req : CreateReq) : Db (ℕ × List ℤ) :=
  applyGroupChange M plainLookup
    (prepareGroupChange plainLookup friendsDb userOne req.toPrepare "op1").1 userOne createArtifacts

/-- **A stranger in a created group.**  The 51st number is inserted, and nobody checked it. -/
theorem stranger_inserted :
    ((afterCreation threeMls strangerReq).members 1 = [1, 2, 3] ∧
      friendshipExistsAccepted friendsDb 1 3 = false) ∧
    ¬ CreatedProperly friendsDb (afterCreation threeMls strangerReq) 1 userOne strangerReq := by
  have hend : (afterCreation threeMls strangerReq).members 1 = [1, 2, 3] ∧
      friendshipExistsAccepted friendsDb 1 3 = false := by
    decide +kernel
  refine ⟨hend, fun h => ?_⟩
  have hfriend := (h.friends 3 (by rw [hend.1]; decide) (by decide)).2
  have hstranger : friendshipExistsAccepted friendsDb userOne.uid 3 = false := hend.2
  rw [hstranger] at hfriend
  cases hfriend

/-- User 2 twice, between other values. -/
def friendReq : CreateReq := ⟨"group", "", some [.number 2, .other, .number 2], 0, 0, ""⟩

theorem created_properly_of_friends : ∃ cid,
    CreatedProperly friendsDb (afterCreation smallMls friendReq) cid userOne friendReq := by
  have hok : (applyPlan smallMls plainLookup
      (prepareGroupChange plainLookup friendsDb userOne friendReq.toPrepare "op1").1 userOne
      createArtifacts).isOk = true := by
    decide +kernel
  match hplan : applyPlan smallMls plainLookup
      (prepareGroupChange plainLookup friendsDb userOne friendReq.toPrepare "op1").1 userOne
      createArtifacts with
  | .error _ =>
    rw [hplan] at hok
    cases hok
  | .ok (row, stmts) =>
    refine ⟨row.conversationId, ?_⟩
    refine (created_properly_iff smallMls plainLookup friendsDb ?_ [] [] userOne friendReq
      createArtifacts _ row stmts ?_ ?_ ?_ rfl hplan).mpr ?_
    · refine ⟨⟨rfl, fun _ _ => rfl, fun _ _ => rfl⟩, fun u => ?_⟩
      have hne : ((u, u) : ℤ × ℤ) ≠ (1, 2) := by
        intro heq
        obtain ⟨hone, htwo⟩ := Prod.mk.inj heq
        omega
      simp only [friendsDb, Function.update_of_ne hne]
    · exact fun e he => absurd he List.not_mem_nil
    · exact fun e he => absurd he List.not_mem_nil
    · decide +kernel
    · decide +kernel

end SecChat.GroupChange
