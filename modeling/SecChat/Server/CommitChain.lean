import SecChat.Server.GroupAuthority

/-!
# The commit chain of a group

Apply requests run in threads, and only single statements are atomic.  Between looking up the
pending operation, reading the public state, validating and writing, other threads take their turns.

* `Phase`, `Thread`, `Machine`, `advance`: the threads, one statement at a time;
* `ChainTo`, `EffectOnce`, `Chained`, `MembersMatch`: every operation takes effect once, the stored
  commits of a group were validated one on top of the other, and the members are those of the public
  state;
* `Orderly`: no two threads work on one group at a time, a change without validation brings no
  commit, and the group is neither emptied nor larger than the server reads;
* `chain_kept`: orderly runs keep all three;
* `stray_commit`: a commit that nobody validated is stored.
-/

namespace SecChat.GroupChange

open Py PendingOps

/-! ### Threads -/

/-- Where a thread is: before its first statement, before it reads the public state, before it reads
the members, writing, or finished. -/
inductive Phase (S : Type)
  | start
  | reading (row : OpRow)
  | validating (row : OpRow) (state : S)
  | writing (row : OpRow) (rest : List (Stmt S))
  | done

/-- A thread that serves one `apply_group_change`. -/
structure Thread (S : Type) where
  caller : Caller
  req : ApplyReq
  phase : Phase S

/-- The operation that a thread is working on. -/
def Thread.row? {S : Type} (t : Thread S) : Option OpRow :=
  match t.phase with
  | .reading row | .validating row _ | .writing row _ => some row
  | .start | .done => none

/-- The database, the threads, and the operations that have begun to write. -/
structure Machine (S : Type) where
  db : Db S
  threads : ℕ → Option (Thread S)
  effects : List OpRow

section Machine

variable {S : Type} (L : OpLookup) (M : PublicMls S)

/-- What a thread does after a step that writes nothing: go on, give up, or start to write. -/
def begin (row : OpRow) (uid : ℤ) (req : ApplyReq) : Except String (Option S) → Phase S
  | .ok state => .writing row (applyStmts row uid req state)
  | .error _ => .done

/-- The phase after the next statement of a thread that has not started to write. -/
def nextPhase (db : Db S) (t : Thread S) : Phase S :=
  match t.phase with
  | .start =>
      if t.req.operationId = "" then .done
      else
        match fetchPendingOp db L t.req.operationId t.caller.uid with
        | none => .done
        | some row =>
            match checkArtifacts row.operation t.req with
            | .error _ => .done
            | .ok () =>
                if row.operation = .createGroup then
                  -- the expected members are in the prepared request
                  begin row t.caller.uid t.req
                    (some <$> validated M row t.caller.uid t.req none [])
                else if isMembershipChange row.operation then .reading row
                else begin row t.caller.uid t.req (.ok none)
  | .reading row =>
      match db.groupState row.conversationId with
      | none => .done
      | some state => .validating row state
  | .validating row state =>
      begin row t.caller.uid t.req
        (some <$> validated M row t.caller.uid t.req (some state) (db.members row.conversationId))
  | phase => phase

/-- The operation of a phase that writes. -/
def Phase.begun : Phase S → List OpRow
  | .writing row _ => [row]
  | _ => []

/-- The phase after a statement has been executed. -/
def afterStmt (row : OpRow) : List (Stmt S) → Phase S
  | [] => .done
  | rest => .writing row rest

/-- The next statement of a thread. -/
def advance (m : Machine S) (i : ℕ) : Machine S :=
  match m.threads i with
  | none => m
  | some t =>
      match t.phase with
      | .writing row (st :: rest) =>
          { m with
            db := exec L m.db st
            threads := Function.update m.threads i (some { t with phase := afterStmt row rest }) }
      | .writing _ [] | .done => m
      | _ =>
          let phase := nextPhase L M m.db t
          { m with
            threads := Function.update m.threads i (some { t with phase := phase })
            effects := m.effects ++ phase.begun }

end Machine

/-- A request arrives, for a free thread if it is an apply request, or a thread goes on. -/
inductive Turn
  | incoming (thread : ℕ) (e : Event)
  | advance (thread : ℕ)

section Chain

variable {S : Type} (L : OpLookup) (M : PublicMls S)

/-- One turn. -/
def turn (m : Machine S) : Turn → Machine S
  | .incoming i (.apply caller req) =>
      match m.threads i with
      | none => { m with threads := Function.update m.threads i (some ⟨caller, req, .start⟩) }
      | some _ => m
  | .incoming _ e => { m with db := step L M m.db e }
  | .advance i => advance L M m i

/-! ### The three properties -/

/-- The rows of kind `commit` of a group. -/
def commitRows (db : Db S) (cid : ℤ) : List HandshakeRow :=
  db.handshake.filter fun r => r.kind = .commit ∧ r.conversationId = cid

/-- A sequence of stored commits that leads to a public state: the first belongs to the creation of
the group, and each further one was accepted on the state that the previous one left. -/
inductive ChainTo (cid : ℤ) : List HandshakeRow → S → Prop
  | create {row : HandshakeRow} {g : S} {groupInfo ratchetTree : String} {expected : Finset ℤ}
      (accepted : M.validateGroupCreate cid groupInfo ratchetTree expected = .ok g)
      (epoch : row.epoch = M.epoch g) : ChainTo cid [row] g
  | commit {rows : List HandshakeRow} {row : HandshakeRow} {g g' : S}
      {groupInfo ratchetTree : String} {expected : Finset ℤ} (before : ChainTo cid rows g)
      (accepted : M.validateGroupCommit cid row.senderId g row.message groupInfo ratchetTree
        expected = .ok g')
      (epoch : row.epoch = M.epoch g') : ChainTo cid (rows ++ [row]) g'

/-- Every operation id takes effect at most once. -/
def EffectOnce (m : Machine S) : Prop := (m.effects.map (·.operationId)).Nodup

/-- The stored commits of every group are a chain, with at most one for an epoch. -/
def Chained (m : Machine S) : Prop :=
  ∀ cid, (commitRows m.db cid = [] ∨ ∃ g, ChainTo M cid (commitRows m.db cid) g) ∧
    ((commitRows m.db cid).map (·.epoch)).Nodup

/-- No thread is between its first and its last statement. -/
def Idle (m : Machine S) : Prop := ∀ i t, m.threads i = some t → t.row? = none

/-- The members are those of the stored public state. -/
def MembersMatch (m : Machine S) : Prop :=
  Idle m → ∀ cid g, m.db.groupState cid = some g →
    (m.db.members cid).toFinset = M.memberIds g

/-- The condition on a turn. -/
def Orderly (m : Machine S) : Turn → Prop
  | .incoming _ (.apply _ req) => CleanId req.operationId
  | .incoming _ _ => True
  | .advance i => ∀ t, m.threads i = some t →
      match t.phase with
      | .start => ∀ row, fetchPendingOp m.db L t.req.operationId t.caller.uid = some row →
          (∀ j t' row', m.threads j = some t' → t'.row? = some row' →
            row'.conversationId ≠ row.conversationId) ∧
          (isMembershipChange row.operation = false → t.req.commitB64 = "")
      | .validating row _ =>
          (m.db.members row.conversationId).length ≤ 512 ∧
          (isRemoval row.operation = true →
            ∃ u ∈ m.db.members row.conversationId, u ≠ row.targetUserId)
      | _ => True

/-! ### Chains -/

variable {L M} {cid : ℤ}

theorem ChainTo.epoch_le (hM : M.Lawful) {rows : List HandshakeRow} {g : S}
    (h : ChainTo M cid rows g) :
    (∀ r ∈ rows, r.epoch ≤ M.epoch g) ∧ (rows.map (·.epoch)).Nodup := by
  induction h with
  | create _ hepoch => simp [hepoch]
  | @commit rows row g g' groupInfo ratchetTree expected _ haccepted hepoch ih =>
    have hnext : M.epoch g' = M.epoch g + 1 := by
      obtain ⟨⟨author, hprocess⟩, -⟩ := validateGroupCommit_cases haccepted
      exact hM.process_epoch hprocess
    obtain ⟨hle, hnodup⟩ := ih
    constructor
    · intro r hr
      rcases List.mem_append.mp hr with hr | hr
      · have hler := hle r hr
        omega
      · obtain rfl := List.mem_singleton.mp hr
        exact hepoch.le
    · rw [List.map_append]
      refine List.nodup_append.mpr ⟨hnodup, List.nodup_singleton _, ?_⟩
      intro e he e' he'
      obtain ⟨r, hr, rfl⟩ := List.mem_map.mp he
      obtain rfl := List.mem_singleton.mp he'
      have hler := hle r hr
      show r.epoch ≠ row.epoch
      omega

/-- The beginning of a chain is a chain. -/
theorem ChainTo.prefix_chain {rows pre : List HandshakeRow} {g : S} (h : ChainTo M cid rows g)
    (hpre : pre <+: rows) : pre = [] ∨ ∃ g', ChainTo M cid pre g' := by
  induction h with
  | @create row g groupInfo ratchetTree expected haccepted hepoch =>
    cases pre with
    | nil => exact .inl rfl
    | cons r pre =>
      obtain ⟨rfl, hnil⟩ := List.cons_prefix_cons.mp hpre
      obtain rfl := List.prefix_nil.mp hnil
      exact .inr ⟨g, .create haccepted hepoch⟩
  | commit hbefore haccepted hepoch ih =>
    rcases List.prefix_concat_iff.mp hpre with rfl | hpre
    · exact .inr ⟨_, .commit hbefore haccepted hepoch⟩
    · exact ih hpre

/-! ### The view of one group -/

/-- What the database holds of a group: commits, public state and members. -/
structure View (S : Type) where
  commits : List HandshakeRow
  state : Option S
  members : List ℤ

/-- The view of a group. -/
def view (db : Db S) (cid : ℤ) : View S := ⟨commitRows db cid, db.groupState cid, db.members cid⟩

/-- A statement on a view. -/
def View.exec (cid : ℤ) (v : View S) : Stmt S → View S
  | .storeHandshake row =>
      if row.kind = .commit ∧ row.conversationId = cid then { v with commits := v.commits ++ [row] }
      else v
  | .upsertState c g => if c = cid then { v with state := some g } else v
  | .addMember c u =>
      if c = cid ∧ u ∉ v.members then { v with members := v.members ++ [u] } else v
  | .removeMember c u => if c = cid then { v with members := v.members.filter (· ≠ u) } else v
  | _ => v

/-- The conversation that a statement is about; a mark is about none. -/
def Stmt.On (cid : ℤ) : Stmt S → Prop
  | .storeHandshake row => row.conversationId = cid
  | .upsertState c _ | .addMember c _ | .removeMember c _ | .roleSet c _ _ | .roleDelete c _
  | .setName c _ | .setDescription c _ => c = cid
  | .markApplied _ => True

/-- The view of a group after a statement is a function of its view before. -/
theorem view_exec (db : Db S) (st : Stmt S) :
    view (GroupChange.exec L db st) cid = (view db cid).exec cid st := by
  cases st with
  | storeHandshake row =>
    simp only [view, GroupChange.exec, View.exec, commitRows, List.filter_append]
    split <;> simp_all
  | upsertState c g =>
    simp only [view, GroupChange.exec, View.exec, commitRows]
    by_cases hc : c = cid
    · subst hc
      simp
    · simp [hc, Function.update_of_ne (Ne.symm hc)]
  | addMember c u =>
    simp only [view, GroupChange.exec, View.exec, commitRows]
    by_cases hc : c = cid
    · subst hc
      by_cases hu : u ∈ db.members c <;> simp [hu]
    · by_cases hu : u ∈ db.members c <;> simp [hc, hu, Function.update_of_ne (Ne.symm hc)]
  | removeMember c u =>
    simp only [view, GroupChange.exec, View.exec, commitRows]
    by_cases hc : c = cid
    · subst hc
      simp
    · simp [hc, Function.update_of_ne (Ne.symm hc)]
  | roleSet | roleDelete | setName | setDescription | markApplied => rfl

theorem View.exec_of_ne (v : View S) {st : Stmt S} {c : ℤ} (hst : st.On c) (hc : c ≠ cid) :
    v.exec cid st = v := by
  cases st <;> simp only [Stmt.On, View.exec] at hst ⊢ <;> simp [hst, hc]

/-- Commits are only added. -/
theorem View.commits_exec (v : View S) (st : Stmt S) : v.commits <+: (v.exec cid st).commits := by
  cases st <;> simp only [View.exec] <;> try exact List.prefix_refl _
  all_goals split
  all_goals first | exact List.prefix_append _ _ | exact List.prefix_refl _

theorem View.commits_foldl (stmts : List (Stmt S)) (v : View S) :
    v.commits <+: (stmts.foldl (View.exec cid) v).commits := by
  induction stmts generalizing v with
  | nil => exact List.prefix_refl _
  | cons st stmts ih => exact (v.commits_exec st).trans (ih _)

/-- A group at rest: nothing is stored for it, or its commits lead to its public state, whose members
are the stored ones. -/
def Consistent (M : PublicMls S) (cid : ℤ) (v : View S) : Prop :=
  match v.state with
  | none => v.commits = []
  | some g => ChainTo M cid v.commits g ∧ v.members.toFinset = M.memberIds g ∧
      ∀ u ∈ v.members, 0 < u

theorem changeStmts_on {row : OpRow} {uid : ℤ} {st : Stmt S} (h : st ∈ changeStmts row uid) :
    st.On row.conversationId := by
  unfold changeStmts at h
  dsimp only at h
  split at h
  · simp only [List.cons_append, List.nil_append, List.mem_cons, List.mem_flatMap,
      List.not_mem_nil, or_false] at h
    rcases h with rfl | rfl | ⟨m, -, rfl | rfl⟩ <;> rfl
  all_goals
    simp only [List.mem_cons, List.not_mem_nil, or_false, List.mem_append,
      List.mem_ite_nil_left] at h
  · rcases h with rfl | rfl <;> rfl
  · rcases h with rfl | rfl <;> rfl
  · rcases h with rfl | rfl <;> rfl
  · subst h
    rfl
  · rcases h with ⟨-, rfl⟩ | ⟨-, rfl⟩ <;> rfl

theorem applyStmts_on {row : OpRow} {uid : ℤ} {req : ApplyReq} {state : Option S} {st : Stmt S}
    (h : st ∈ applyStmts row uid req state) : st.On row.conversationId := by
  simp only [applyStmts, List.mem_append, List.mem_map, List.mem_singleton] at h
  rcases h with ((⟨r, hr, rfl⟩ | ⟨g, -, rfl⟩) | h) | rfl
  · simp only [handshakeRows, List.mem_append, List.mem_map, List.mem_ite_nil_left,
      List.mem_singleton] at hr
    rcases hr with ((⟨-, rfl⟩ | ⟨-, rfl⟩) | ⟨-, rfl⟩) | ⟨w, -, rfl⟩ <;> rfl
  · rfl
  · exact changeStmts_on h
  · trivial

/-! ### What an accepted request does to its group -/

theorem foldl_storeHandshake (rows : List HandshakeRow) (v : View S) :
    (rows.map Stmt.storeHandshake).foldl (View.exec cid) v =
      { v with commits := v.commits ++
          rows.filter fun r => r.kind = .commit ∧ r.conversationId = cid } := by
  induction rows generalizing v with
  | nil => simp
  | cons r rows ih =>
    rw [List.map_cons, List.foldl_cons, ih]
    by_cases hr : r.kind = .commit ∧ r.conversationId = cid
    · simp [View.exec, hr]
    · simp only [View.exec, hr, if_false, List.filter_cons, decide_false, Bool.false_eq_true]

theorem filter_handshakeRows (cid uid : ℤ) (req : ApplyReq) :
    (handshakeRows cid uid req).filter (fun r => r.kind = .commit ∧ r.conversationId = cid) =
      if req.commitB64 = "" then []
      else [⟨cid, uid, 0, .commit, req.epoch, req.operationId, req.commitB64⟩] := by
  have hwelcomes : ∀ ws : List (ℤ × String),
      (ws.map fun w => (⟨cid, uid, w.1, .welcome, req.epoch, req.operationId, w.2⟩ :
        HandshakeRow)).filter (fun r => r.kind = .commit ∧ r.conversationId = cid) = [] := by
    intro ws
    induction ws with
    | nil => rfl
    | cons w ws ih => simpa using ih
  unfold handshakeRows
  simp only [List.filter_append]
  rw [hwelcomes]
  by_cases hcommit : req.commitB64 = "" <;> by_cases hinfo : req.groupInfoB64 = "" <;>
    by_cases hcontrol : req.controlB64 = "" <;> simp [hcommit, hinfo, hcontrol]

/-- The members after an operation, as a set. -/
def changedMembers (row : OpRow) (uid : ℤ) (members : List ℤ) : Finset ℤ :=
  match row.operation with
  | .createGroup => members.toFinset ∪ insert uid (row.details.members.filter (0 < ·)).toFinset
  | .addMember => insert row.targetUserId members.toFinset
  | .removeMember | .leaveGroup => members.toFinset.erase row.targetUserId
  | _ => members.toFinset

theorem View.addMember_members (v : View S) (u : ℤ) :
    (v.exec cid (.addMember cid u)).members.toFinset = insert u v.members.toFinset := by
  simp only [View.exec, true_and]
  split
  · rw [List.toFinset_append, Finset.union_comm]
    rfl
  · next hu =>
    rw [not_not] at hu
    rw [Finset.insert_eq_self.mpr (List.mem_toFinset.mpr hu)]

theorem foldl_addMembers (us : List ℤ) (v : View S) :
    ((us.flatMap fun u => [Stmt.addMember cid u, .roleSet cid u "member"]).foldl
      (View.exec cid) v).members.toFinset = v.members.toFinset ∪ us.toFinset := by
  induction us generalizing v with
  | nil => simp
  | cons u us ih =>
    rw [List.flatMap_cons, List.foldl_append]
    refine (ih _).trans ?_
    show (v.exec cid (.addMember cid u)).members.toFinset ∪ us.toFinset = _
    rw [View.addMember_members, List.toFinset_cons, Finset.insert_union, Finset.union_insert]

/-- The statements on the group, seen on its view. -/
theorem members_changeStmts (row : OpRow) (uid : ℤ) (v : View S) :
    ((changeStmts row uid).foldl (View.exec row.conversationId) v).members.toFinset =
      changedMembers row uid v.members := by
  unfold changeStmts changedMembers
  cases row.operation with
  | createGroup =>
    simp only [List.foldl_append, List.foldl_cons, List.foldl_nil]
    rw [foldl_addMembers]
    show (v.exec row.conversationId (.addMember row.conversationId uid)).members.toFinset ∪ _ = _
    rw [View.addMember_members, Finset.insert_union, Finset.union_insert]
  | addMember =>
    show (v.exec row.conversationId
      (.addMember row.conversationId row.targetUserId)).members.toFinset = _
    rw [View.addMember_members]
  | removeMember | leaveGroup =>
    simp only [List.foldl_cons, List.foldl_nil, View.exec, if_true]
    ext u
    simp [and_comm]
  | setMemberRole => rfl
  | updateGroupInfo =>
    simp only
    split <;> split <;> rfl
  | other name => rfl

theorem changeStmts_plain {row : OpRow} {uid : ℤ} {st : Stmt S} (h : st ∈ changeStmts row uid)
    (v : View S) : (v.exec cid st).commits = v.commits ∧ (v.exec cid st).state = v.state := by
  cases st with
  | storeHandshake r =>
    unfold changeStmts at h
    dsimp only at h
    split at h <;> simp at h
  | upsertState c g =>
    unfold changeStmts at h
    dsimp only at h
    split at h <;> simp at h
  | addMember c u | removeMember c u =>
    simp only [View.exec]
    split <;> exact ⟨rfl, rfl⟩
  | _ => exact ⟨rfl, rfl⟩

theorem foldl_plain {stmts : List (Stmt S)} (h : ∀ st ∈ stmts, ∀ v : View S,
      (v.exec cid st).commits = v.commits ∧ (v.exec cid st).state = v.state) (v : View S) :
    (stmts.foldl (View.exec cid) v).commits = v.commits ∧
      (stmts.foldl (View.exec cid) v).state = v.state := by
  induction stmts generalizing v with
  | nil => exact ⟨rfl, rfl⟩
  | cons st stmts ih =>
    obtain ⟨hc, hs⟩ := h st List.mem_cons_self v
    obtain ⟨hc', hs'⟩ := ih (fun st' hst' => h st' (List.mem_cons_of_mem _ hst')) (v.exec cid st)
    exact ⟨hc'.trans hc, hs'.trans hs⟩

/-- The commit row that a request stores. -/
def commitRow (row : OpRow) (uid : ℤ) (req : ApplyReq) : HandshakeRow :=
  ⟨row.conversationId, uid, 0, .commit, req.epoch, req.operationId, req.commitB64⟩

/-- **What an accepted request does to its group.** -/
theorem view_applyStmts (row : OpRow) (uid : ℤ) (req : ApplyReq) (state : Option S) (v : View S) :
    let v' := (applyStmts row uid req state).foldl (View.exec row.conversationId) v
    v'.commits = v.commits ++ (if req.commitB64 = "" then [] else [commitRow row uid req]) ∧
    v'.state = state.or v.state ∧
    v'.members.toFinset = changedMembers row uid v.members := by
  simp only [applyStmts, List.foldl_append, List.foldl_cons, List.foldl_nil]
  rw [foldl_storeHandshake, filter_handshakeRows]
  have hplain : ∀ w : View S,
      ((changeStmts row uid).foldl (View.exec row.conversationId) w).commits = w.commits ∧
      ((changeStmts row uid).foldl (View.exec row.conversationId) w).state = w.state :=
    foldl_plain fun st hst w => changeStmts_plain hst w
  cases state with
  | none =>
    simp only [Option.toList_none, List.map_nil, List.foldl_nil]
    refine ⟨(hplain _).1, (hplain _).2, ?_⟩
    exact members_changeStmts row uid _
  | some g =>
    simp only [Option.toList_some, List.map_cons, List.map_nil, List.foldl_cons, List.foldl_nil]
    refine ⟨((hplain _).1).trans ?_, ((hplain _).2).trans ?_, ?_⟩
    · simp [View.exec, commitRow]
    · simp [View.exec]
    · refine (members_changeStmts row uid _).trans ?_
      simp [View.exec]

/-! ### The expected members -/

theorem expectedMembers_pos {row : OpRow} {uid : ℤ} {members : List ℤ} {u : ℤ}
    (h : u ∈ expectedMembers row uid members) : 0 < u := by
  unfold expectedMembers at h
  simpa using (List.mem_filter.mp (List.mem_toFinset.mp h)).2

theorem expectedMembers_create {row : OpRow} {uid : ℤ} (hop : row.operation = .createGroup)
    (huid : 0 < uid) (members : List ℤ) :
    expectedMembers row uid members = changedMembers row uid [] := by
  ext u
  simp only [expectedMembers, changedMembers, hop, List.mem_toFinset, List.mem_filter,
    List.mem_cons, Finset.mem_union, Finset.mem_insert, decide_eq_true_eq, List.not_mem_nil,
    false_or]
  constructor
  · rintro ⟨rfl | hu, hpos⟩
    · exact .inl rfl
    · exact .inr ⟨hu, hpos⟩
  · rintro (rfl | ⟨hu, hpos⟩)
    · exact ⟨.inl rfl, huid⟩
    · exact ⟨.inr hu, hpos⟩

theorem expectedMembers_change {row : OpRow} {uid : ℤ} {members : List ℤ}
    (hop : isMembershipChange row.operation = true) (hcreate : row.operation ≠ .createGroup)
    (htarget : row.operation = .addMember → 0 < row.targetUserId)
    (hpos : ∀ u ∈ members, 0 < u) (hlen : members.length ≤ 512) :
    expectedMembers row uid members = changedMembers row uid members := by
  have htake : members.take 512 = members := List.take_of_length_le hlen
  ext u
  cases hrow : row.operation with
  | createGroup => exact absurd hrow hcreate
  | addMember =>
    simp only [expectedMembers, changedMembers, hrow, htake, List.mem_toFinset, List.mem_filter,
      List.mem_append, List.mem_singleton, Finset.mem_insert, decide_eq_true_eq]
    constructor
    · rintro ⟨hu | rfl, -⟩
      · exact .inr hu
      · exact .inl rfl
    · rintro (rfl | hu)
      · exact ⟨.inr rfl, htarget hrow⟩
      · exact ⟨.inl hu, hpos u hu⟩
  | removeMember | leaveGroup =>
    simp only [expectedMembers, changedMembers, hrow, htake, List.mem_toFinset, List.mem_filter,
      Finset.mem_erase, decide_eq_true_eq]
    constructor
    · rintro ⟨⟨hu, hne⟩, -⟩
      exact ⟨hne, hu⟩
    · rintro ⟨hne, hu⟩
      exact ⟨⟨hu, hne⟩, hpos u hu⟩
  | setMemberRole | updateGroupInfo | other name => simp [isMembershipChange, hrow] at hop

/-- An operation that leaves somebody leaves a group with members. -/
theorem changedMembers_ne_empty {row : OpRow} {uid : ℤ} {members : List ℤ}
    (hop : isMembershipChange row.operation = true)
    (hrest : isRemoval row.operation = true → ∃ u ∈ members, u ≠ row.targetUserId) :
    changedMembers row uid members ≠ ∅ := by
  unfold changedMembers
  cases hrow : row.operation with
  | createGroup => simp
  | addMember => simp
  | removeMember | leaveGroup =>
    obtain ⟨u, hu, hne⟩ := hrest (by simp [hrow, isRemoval])
    exact Finset.ne_empty_of_mem (Finset.mem_erase.mpr ⟨hne, List.mem_toFinset.mpr hu⟩)
  | setMemberRole | updateGroupInfo | other name => simp [isMembershipChange, hrow] at hop

/-! ### Accepted requests keep a group consistent -/

/-- What the validation of a request has established. -/
theorem validated_cases {row : OpRow} {uid : ℤ} {req : ApplyReq} {state : Option S}
    {members : List ℤ} {g : S} (h : validated M row uid req state members = .ok g) :
    validateMembershipChange M row uid req state members = .ok g ∧ req.epoch = M.epoch g := by
  unfold validated at h
  obtain ⟨g', hval, h⟩ := bind_eq_ok_iff.mp h
  by_cases hepoch : req.epoch = M.epoch g'
  · simp only [hepoch, ne_eq, not_true_eq_false, if_false] at h
    obtain rfl := Except.ok.inj h
    exact ⟨hval, hepoch⟩
  · simp [hepoch, throw, throwThe, MonadExceptOf.throw] at h

/-- Creating a group for which nothing is stored. -/
theorem consistent_create {row : OpRow} {uid : ℤ} {req : ApplyReq} {g : S} {v : View S}
    (hop : row.operation = .createGroup) (huid : 0 < uid) (hcommit : req.commitB64 ≠ "")
    (hval : validated M row uid req none [] = .ok g) (hv : v = ⟨[], none, []⟩) :
    Consistent M row.conversationId
      ((applyStmts row uid req (some g)).foldl (View.exec row.conversationId) v) := by
  obtain ⟨haccept, hepoch⟩ := validated_cases hval
  simp only [validateMembershipChange, hop, if_true] at haccept
  obtain ⟨hcommits, hstate, hmembers⟩ := view_applyStmts row uid req (some g) v
  have hexp := expectedMembers_create hop huid []
  have hne : expectedMembers row uid [] ≠ ∅ := by
    rw [hexp]
    simp [changedMembers, hop]
  have hids := memberIds_of_validateGroupCreate haccept hne
  subst hv
  rw [← hexp, ← hids] at hmembers
  unfold Consistent
  rw [hstate]
  refine ⟨?_, hmembers, fun u hu => ?_⟩
  · rw [hcommits, if_neg hcommit]
    exact .create haccept hepoch
  · rw [← List.mem_toFinset, hmembers, hids] at hu
    exact expectedMembers_pos hu

/-- Changing the members of a group whose public state was read before. -/
theorem consistent_commit {row : OpRow} {uid : ℤ} {req : ApplyReq} {s g : S} {v : View S}
    (hop : isMembershipChange row.operation = true) (hcreate : row.operation ≠ .createGroup)
    (htarget : row.operation = .addMember → 0 < row.targetUserId)
    (hcommit : req.commitB64 ≠ "") (hlen : v.members.length ≤ 512)
    (hrest : isRemoval row.operation = true → ∃ u ∈ v.members, u ≠ row.targetUserId)
    (hval : validated M row uid req (some s) v.members = .ok g) (hstate : v.state = some s)
    (hv : Consistent M row.conversationId v) :
    Consistent M row.conversationId
      ((applyStmts row uid req (some g)).foldl (View.exec row.conversationId) v) := by
  obtain ⟨haccept, hepoch⟩ := validated_cases hval
  simp only [validateMembershipChange, hcreate, if_false] at haccept
  obtain ⟨hcommits, hstate', hmembers⟩ := view_applyStmts row uid req (some g) v
  unfold Consistent at hv
  rw [hstate] at hv
  obtain ⟨hchain, -, hpos⟩ := hv
  have hexp : expectedMembers row uid v.members = changedMembers row uid v.members :=
    expectedMembers_change hop hcreate htarget hpos hlen
  have hne : expectedMembers row uid v.members ≠ ∅ := by
    rw [hexp]
    exact changedMembers_ne_empty hop hrest
  have hids := (validateGroupCommit_cases haccept).2 hne
  rw [← hexp, ← hids] at hmembers
  unfold Consistent
  rw [hstate']
  refine ⟨?_, hmembers, fun u hu => ?_⟩
  · rw [hcommits, if_neg hcommit]
    exact .commit hchain haccept hepoch
  · rw [← List.mem_toFinset, hmembers, hids] at hu
    exact expectedMembers_pos hu

/-- A change that is not validated leaves its group as it is. -/
theorem consistent_control {row : OpRow} {uid : ℤ} {req : ApplyReq} {v : View S}
    (hop : isMembershipChange row.operation = false) (hcommit : req.commitB64 = "")
    (hv : Consistent M row.conversationId v) :
    Consistent M row.conversationId
      ((applyStmts row uid req none).foldl (View.exec row.conversationId) v) := by
  obtain ⟨hcommits, hstate, hmembers⟩ := view_applyStmts row uid req (none : Option S) v
  have hsame : changedMembers row uid v.members = v.members.toFinset := by
    unfold changedMembers
    cases hrow : row.operation <;> simp [isMembershipChange, hrow] at hop ⊢
  rw [hsame] at hmembers
  rw [if_pos hcommit, List.append_nil] at hcommits
  rw [Option.none_or] at hstate
  unfold Consistent at hv ⊢
  rw [hstate, hcommits]
  split
  · next hnone => simpa [hnone] using hv
  · next g hsome =>
    rw [hsome] at hv
    refine ⟨hv.1, hmembers.trans hv.2.1, fun u hu => ?_⟩
    rw [← List.mem_toFinset, hmembers, List.mem_toFinset] at hu
    exact hv.2.2 u hu

/-! ### The invariant -/

/-- The statements that a writing thread still has to execute. -/
structure Rest (M : PublicMls S) (m : Machine S) (t : Thread S) (row : OpRow)
    (rest : List (Stmt S)) : Prop where
  marks : ∃ init, rest = init ++ [.markApplied t.req.operationId] ∧
    ∀ st ∈ init, (∀ id, st ≠ .markApplied id) ∧ st.On row.conversationId
  settles : Consistent M row.conversationId
    (rest.foldl (View.exec row.conversationId) (view m.db row.conversationId))

/-- What is known of a thread. -/
structure ThreadOk (L : OpLookup) (M : PublicMls S) (m : Machine S) (t : Thread S) : Prop where
  clean : CleanId t.req.operationId
  row : ∀ row, t.row? = some row → row ∈ m.db.ops ∧ row.status = .prepared ∧
    L.key row.operationId = L.key t.req.operationId
  before : ∀ row, t.phase = .reading row ∨ (∃ s, t.phase = .validating row s) →
    isMembershipChange row.operation = true ∧ row.operation ≠ .createGroup ∧
      t.req.commitB64 ≠ "" ∧ ∀ e ∈ m.effects, e.operationId ≠ row.operationId
  state : ∀ row s, t.phase = .validating row s → m.db.groupState row.conversationId = some s
  writing : ∀ row rest, t.phase = .writing row rest → Rest M m t row rest

/-- Nobody is writing on a group. -/
def Unwritten (m : Machine S) (cid : ℤ) : Prop :=
  ∀ i t row rest, m.threads i = some t → t.phase = .writing row rest → row.conversationId ≠ cid

/-- Nothing is stored for a group. -/
def NoGroup (db : Db S) (cid : ℤ) : Prop := view db cid = ⟨[], none, []⟩

/-- The invariant. -/
structure ChainInv (L : OpLookup) (M : PublicMls S) (m : Machine S) : Prop where
  keys : (m.db.ops.map fun r => L.key r.operationId).Nodup
  threads : ∀ i t, m.threads i = some t → ThreadOk L M m t
  exclusive : ∀ i j t t' row row', m.threads i = some t → m.threads j = some t' →
    t.row? = some row → t'.row? = some row' → row.conversationId = row'.conversationId → i = j
  quiet : ∀ cid, Unwritten m cid → Consistent M cid (view m.db cid)
  effects : EffectOnce m
  begun : ∀ e ∈ m.effects, (∃ q ∈ m.db.ops, q.operationId = e.operationId ∧ q.status ≠ .prepared) ∨
    ∃ i t rest, m.threads i = some t ∧ t.phase = .writing e rest
  creating : ∀ p ∈ m.db.ops, p.status = .prepared → p.operation = .createGroup →
    (∀ i t rest, m.threads i = some t → t.phase ≠ .writing p rest) →
    NoGroup m.db p.conversationId ∧ ∀ q ∈ m.db.ops, q.conversationId = p.conversationId → q = p
  fresh : ∀ cid, m.db.nextConv ≤ cid → NoGroup m.db cid ∧ ∀ q ∈ m.db.ops, q.conversationId ≠ cid
  targets : ∀ p ∈ m.db.ops, p.operation = .addMember → 0 < p.targetUserId

variable {m : Machine S}

theorem update_some {i j : ℕ} {t t' : Thread S}
    (h : Function.update m.threads i (some t') j = some t) :
    j = i ∧ t = t' ∨ j ≠ i ∧ m.threads j = some t := by
  by_cases hji : j = i
  · subst hji
    rw [Function.update_self] at h
    exact .inl ⟨rfl, (Option.some.inj h).symm⟩
  · rw [Function.update_of_ne hji] at h
    exact .inr ⟨hji, h⟩

/-- Rows with the same id are the same row. -/
theorem ChainInv.row_eq (h : ChainInv L M m) {p q : OpRow} (hp : p ∈ m.db.ops) (hq : q ∈ m.db.ops)
    (hid : L.key p.operationId = L.key q.operationId) : p = q :=
  List.inj_on_of_nodup_map h.keys hp hq hid

/-- The three properties follow from the invariant. -/
theorem ChainInv.chained (hM : M.Lawful) (h : ChainInv L M m) : Chained M m := by
  intro cid
  -- the chain of the group once the thread that writes on it has finished
  have hlater : ∃ stmts : List (Stmt S),
      Consistent M cid (stmts.foldl (View.exec cid) (view m.db cid)) := by
    by_cases hun : Unwritten m cid
    · exact ⟨[], h.quiet cid hun⟩
    · simp only [Unwritten, not_forall, not_not] at hun
      obtain ⟨i, t, row, rest, ht, hphase, rfl⟩ := hun
      exact ⟨rest, ((h.threads i t ht).writing row rest hphase).settles⟩
  obtain ⟨stmts, hcons⟩ := hlater
  have hpre : commitRows m.db cid <+: (stmts.foldl (View.exec cid) (view m.db cid)).commits :=
    View.commits_foldl stmts (view m.db cid)
  unfold Consistent at hcons
  split at hcons
  · rw [hcons] at hpre
    have hnil : commitRows m.db cid = [] := List.prefix_nil.mp hpre
    exact ⟨.inl hnil, by simp [hnil]⟩
  · obtain ⟨hchain, -⟩ := hcons
    refine ⟨hchain.prefix_chain hpre, ?_⟩
    exact (hchain.epoch_le hM).2.sublist (hpre.sublist.map _)

theorem ChainInv.membersMatch (h : ChainInv L M m) : MembersMatch M m := by
  intro hidle cid g hstate
  have hun : Unwritten m cid := by
    intro i t row rest ht hphase
    have hrow := hidle i t ht
    simp [Thread.row?, hphase] at hrow
  have hcons := h.quiet cid hun
  unfold Consistent at hcons
  simp only [view, hstate] at hcons
  exact hcons.2.1

/-! ### Turns that write nothing -/

/-- A thread that is not writing. -/
def Thread.Silent (t : Thread S) : Prop := ∀ row rest, t.phase ≠ .writing row rest

/-- A thread moves on without writing. -/
theorem ChainInv.move (h : ChainInv L M m) {i : ℕ} {t' : Thread S} (hok : ThreadOk L M m t')
    (hsilent : ∀ t, m.threads i = some t → t.Silent) (hsilent' : t'.Silent)
    (hexcl : ∀ row, t'.row? = some row → ∀ j t'' row'', j ≠ i → m.threads j = some t'' →
      t''.row? = some row'' → row''.conversationId ≠ row.conversationId) :
    ChainInv L M { m with threads := Function.update m.threads i (some t') } := by
  have hother : ∀ {j t row rest}, m.threads j = some t → t.phase = .writing row rest → j ≠ i := by
    rintro j t row rest ht hphase rfl
    exact hsilent t ht row rest hphase
  refine ⟨h.keys, fun j t ht => ?_, ?_, ?_, h.effects, ?_, ?_, h.fresh, h.targets⟩
  · rcases update_some ht with ⟨-, rfl⟩ | ⟨-, ht⟩
    · exact ⟨hok.clean, hok.row, hok.before, hok.state, fun row rest hphase =>
        absurd hphase (hsilent' row rest)⟩
    · obtain ⟨hclean, hrow, hbefore, hstate, hwriting⟩ := h.threads j t ht
      exact ⟨hclean, hrow, hbefore, hstate, fun row rest hphase =>
        ⟨(hwriting row rest hphase).marks, (hwriting row rest hphase).settles⟩⟩
  · intro j k t₁ t₂ row₁ row₂ h₁ h₂ hr₁ hr₂ hconv
    rcases update_some h₁ with ⟨rfl, rfl⟩ | ⟨hj, h₁'⟩ <;>
      rcases update_some h₂ with ⟨rfl, rfl⟩ | ⟨hk, h₂'⟩
    · rfl
    · exact absurd hconv.symm (hexcl row₁ hr₁ k t₂ row₂ hk h₂' hr₂)
    · exact absurd hconv (hexcl row₂ hr₂ j t₁ row₁ hj h₁' hr₁)
    · exact h.exclusive j k t₁ t₂ row₁ row₂ h₁' h₂' hr₁ hr₂ hconv
  · intro cid hun
    refine h.quiet cid fun j t row rest ht hphase => ?_
    exact hun j t row rest ((Function.update_of_ne (hother ht hphase) _ _).trans ht) hphase
  · intro e he
    rcases h.begun e he with hdone | ⟨j, t, rest, ht, hphase⟩
    · exact .inl hdone
    · exact .inr ⟨j, t, rest, (Function.update_of_ne (hother ht hphase) _ _).trans ht, hphase⟩
  · intro p hp hstatus hop hnot
    refine h.creating p hp hstatus hop fun j t rest ht hphase => ?_
    exact hnot j t rest ((Function.update_of_ne (hother ht hphase) _ _).trans ht) hphase

/-- A thread starts to write. -/
theorem ChainInv.accept (h : ChainInv L M m) {i : ℕ} {t t' : Thread S} {row : OpRow}
    {rest : List (Stmt S)} (ht : m.threads i = some t) (hsilent : t.Silent)
    (hreq : t'.req = t.req) (hphase : t'.phase = .writing row rest)
    (hrow : row ∈ m.db.ops ∧ row.status = .prepared ∧
      L.key row.operationId = L.key t.req.operationId)
    (hnew : ∀ e ∈ m.effects, e.operationId ≠ row.operationId)
    (hexcl : ∀ j t'' row'', j ≠ i → m.threads j = some t'' → t''.row? = some row'' →
      row''.conversationId ≠ row.conversationId)
    (hrest : Rest M m t' row rest) :
    ChainInv L M { m with
      threads := Function.update m.threads i (some t')
      effects := m.effects ++ [row] } := by
  have hrow' : t'.row? = some row := by simp [Thread.row?, hphase]
  have hother : ∀ {j t row rest}, m.threads j = some t → t.phase = .writing row rest → j ≠ i := by
    rintro j t₁ row₁ rest₁ h₁ hphase₁ rfl
    rw [ht] at h₁
    obtain rfl := Option.some.inj h₁
    exact hsilent row₁ rest₁ hphase₁
  refine ⟨h.keys, fun j t₁ h₁ => ?_, ?_, ?_, ?_, ?_, ?_, h.fresh, h.targets⟩
  · rcases update_some h₁ with ⟨-, rfl⟩ | ⟨hj, h₁'⟩
    · refine ⟨hreq ▸ (h.threads i t ht).clean, ?_, ?_, ?_, ?_⟩
      · intro row₁ hr₁
        obtain rfl := Option.some.inj (hrow'.symm.trans hr₁)
        exact hreq ▸ hrow
      · intro row₁ hr₁
        simp [hphase] at hr₁
      · intro row₁ s hr₁
        simp [hphase] at hr₁
      · intro row₁ rest₁ hr₁
        rw [hphase] at hr₁
        obtain ⟨rfl, rfl⟩ := Phase.writing.inj hr₁
        exact ⟨hrest.marks, hrest.settles⟩
    · obtain ⟨hclean, hrow₁, hbefore, hstate, hwriting⟩ := h.threads j t₁ h₁'
      refine ⟨hclean, hrow₁, fun row₁ hr₁ => ?_, hstate, fun row₁ rest₁ hr₁ =>
        ⟨(hwriting row₁ rest₁ hr₁).marks, (hwriting row₁ rest₁ hr₁).settles⟩⟩
      obtain ⟨hop, hcreate, hcommit, heff⟩ := hbefore row₁ hr₁
      refine ⟨hop, hcreate, hcommit, fun e he => ?_⟩
      rcases List.mem_append.mp he with he | he
      · exact heff e he
      · -- two threads never hold the same row
        obtain rfl := List.mem_singleton.mp he
        intro hid
        have hr : t₁.row? = some row₁ := by
          rcases hr₁ with hr₁ | ⟨s, hr₁⟩ <;> simp [Thread.row?, hr₁]
        have heq := h.row_eq hrow.1 (hrow₁ row₁ hr).1 (congrArg L.key hid)
        exact hexcl j t₁ row₁ hj h₁' hr (heq ▸ rfl)
  · intro j k t₁ t₂ row₁ row₂ h₁ h₂ hr₁ hr₂ hconv
    rcases update_some h₁ with ⟨rfl, rfl⟩ | ⟨hj, h₁'⟩ <;>
      rcases update_some h₂ with ⟨rfl, rfl⟩ | ⟨hk, h₂'⟩
    · rfl
    · obtain rfl := Option.some.inj (hrow'.symm.trans hr₁)
      exact absurd hconv.symm (hexcl k t₂ row₂ hk h₂' hr₂)
    · obtain rfl := Option.some.inj (hrow'.symm.trans hr₂)
      exact absurd hconv (hexcl j t₁ row₁ hj h₁' hr₁)
    · exact h.exclusive j k t₁ t₂ row₁ row₂ h₁' h₂' hr₁ hr₂ hconv
  · intro cid hun
    refine h.quiet cid fun j t₁ row₁ rest₁ h₁ hphase₁ => ?_
    exact hun j t₁ row₁ rest₁ ((Function.update_of_ne (hother h₁ hphase₁) _ _).trans h₁) hphase₁
  · unfold EffectOnce
    rw [List.map_append]
    refine List.nodup_append.mpr ⟨h.effects, List.nodup_singleton _, ?_⟩
    intro a ha b hb
    obtain ⟨e, he, rfl⟩ := List.mem_map.mp ha
    obtain rfl := List.mem_singleton.mp hb
    exact hnew e he
  · intro e he
    rcases List.mem_append.mp he with he | he
    · rcases h.begun e he with hdone | ⟨j, t₁, rest₁, h₁, hphase₁⟩
      · exact .inl hdone
      · exact .inr ⟨j, t₁, rest₁, (Function.update_of_ne (hother h₁ hphase₁) _ _).trans h₁, hphase₁⟩
    · obtain rfl := List.mem_singleton.mp he
      exact .inr ⟨i, t', rest, Function.update_self _ _ _, hphase⟩
  · intro p hp hstatus hop hnot
    refine h.creating p hp hstatus hop fun j t₁ rest₁ h₁ hphase₁ => ?_
    exact hnot j t₁ rest₁ ((Function.update_of_ne (hother h₁ hphase₁) _ _).trans h₁) hphase₁

/-! ### Turns that write -/

theorem marked_cases {db : Db S} {id : String} {p : OpRow} (hclean : CleanId id)
    (hp : p ∈ markPendingApplied db L id) : ∃ q ∈ db.ops,
      L.key q.operationId ≠ L.key id ∧ p = q ∨
      L.key q.operationId = L.key id ∧ p = { q with status := .applied } := by
  unfold markPendingApplied at hp
  rw [if_pos hclean] at hp
  obtain ⟨q, hq, rfl⟩ := List.mem_map.mp hp
  by_cases hkey : L.key q.operationId = L.key id
  · exact ⟨q, hq, .inr ⟨hkey, if_pos hkey⟩⟩
  · exact ⟨q, hq, .inl ⟨hkey, if_neg hkey⟩⟩

theorem mem_marked {db : Db S} {id : String} {q : OpRow} (hclean : CleanId id) (hq : q ∈ db.ops) :
    (if L.key q.operationId = L.key id then { q with status := .applied } else q) ∈
      markPendingApplied db L id := by
  unfold markPendingApplied
  rw [if_pos hclean]
  exact List.mem_map.mpr ⟨q, hq, rfl⟩

theorem view_exec_of_ne {db : Db S} {st : Stmt S} {c : ℤ} (hst : st.On c) (hc : c ≠ cid) :
    view (exec L db st) cid = view db cid :=
  (view_exec db st).trans (View.exec_of_ne _ hst hc)

/-- A thread executes a statement on its group. -/
theorem ChainInv.write (h : ChainInv L M m) {i : ℕ} {t : Thread S} {row : OpRow} {st : Stmt S}
    {rest : List (Stmt S)} (ht : m.threads i = some t) (hphase : t.phase = .writing row (st :: rest))
    (hst : (∀ id, st ≠ .markApplied id) ∧ st.On row.conversationId)
    (hmarks : ∃ init, rest = init ++ [.markApplied t.req.operationId] ∧
      ∀ st ∈ init, (∀ id, st ≠ .markApplied id) ∧ st.On row.conversationId) :
    ChainInv L M { m with
      db := exec L m.db st
      threads := Function.update m.threads i (some { t with phase := .writing row rest }) } := by
  have hrow : t.row? = some row := by simp [Thread.row?, hphase]
  have hops : (exec L m.db st).ops = m.db.ops := exec_ops m.db hst.1
  have hview : ∀ {cid}, row.conversationId ≠ cid → view (exec L m.db st) cid = view m.db cid :=
    fun hc => view_exec_of_ne hst.2 hc
  -- the other threads work on other groups
  have hother : ∀ {j t₁ row₁}, j ≠ i → m.threads j = some t₁ → t₁.row? = some row₁ →
      row.conversationId ≠ row₁.conversationId := fun hj h₁ hr₁ hconv =>
    hj (h.exclusive _ _ _ _ _ _ ht h₁ hrow hr₁ hconv).symm
  refine ⟨hops ▸ h.keys, fun j t₁ h₁ => ?_, ?_, ?_, h.effects, ?_, ?_, ?_, hops ▸ h.targets⟩
  · rcases update_some h₁ with ⟨-, rfl⟩ | ⟨hj, h₁'⟩
    · have hok := h.threads i t ht
      refine ⟨hok.clean, fun row₁ hr₁ => ?_, ?_, ?_, ?_⟩
      · rw [hops]
        exact hok.row row₁ (hrow.trans hr₁)
      · intro row₁ hr₁
        simp at hr₁
      · intro row₁ s hr₁
        simp at hr₁
      · intro row₁ rest₁ hr₁
        obtain ⟨rfl, rfl⟩ := Phase.writing.inj hr₁
        refine ⟨hmarks, ?_⟩
        have hsettles := (hok.writing row (st :: rest) hphase).settles
        rwa [List.foldl_cons, ← view_exec (L := L)] at hsettles
    · obtain ⟨hclean, hrow₁, hbefore, hstate, hwriting⟩ := h.threads j t₁ h₁'
      refine ⟨hclean, hops ▸ hrow₁, hbefore, fun row₁ s hr₁ => ?_, fun row₁ rest₁ hr₁ => ?_⟩
      · have hr : t₁.row? = some row₁ := by simp [Thread.row?, hr₁]
        have hne := hother hj h₁' hr
        exact (congrArg View.state (hview hne)).trans (hstate row₁ s hr₁)
      · have hr : t₁.row? = some row₁ := by simp [Thread.row?, hr₁]
        have hne := hother hj h₁' hr
        refine ⟨(hwriting row₁ rest₁ hr₁).marks, ?_⟩
        rw [hview hne]
        exact (hwriting row₁ rest₁ hr₁).settles
  · intro j k t₁ t₂ row₁ row₂ h₁ h₂ hr₁ hr₂ hconv
    rcases update_some h₁ with ⟨rfl, rfl⟩ | ⟨hj, h₁'⟩ <;>
      rcases update_some h₂ with ⟨rfl, rfl⟩ | ⟨hk, h₂'⟩
    · rfl
    · exact h.exclusive j k t t₂ row₁ row₂ ht h₂' (hrow.trans hr₁) hr₂ hconv
    · exact h.exclusive j k t₁ t row₁ row₂ h₁' ht hr₁ (hrow.trans hr₂) hconv
    · exact h.exclusive j k t₁ t₂ row₁ row₂ h₁' h₂' hr₁ hr₂ hconv
  · intro cid hun
    have hne : row.conversationId ≠ cid := hun i _ row rest (Function.update_self _ _ _) rfl
    rw [hview hne]
    refine h.quiet cid fun j t₁ row₁ rest₁ h₁ hphase₁ => ?_
    by_cases hj : j = i
    · subst hj
      obtain rfl := Option.some.inj (ht.symm.trans h₁)
      obtain ⟨rfl, -⟩ := Phase.writing.inj (hphase.symm.trans hphase₁)
      exact hne
    · exact hun j t₁ row₁ rest₁ ((Function.update_of_ne hj _ _).trans h₁) hphase₁
  · intro e he
    rcases h.begun e he with hdone | ⟨j, t₁, rest₁, h₁, hphase₁⟩
    · exact .inl (hops ▸ hdone)
    · by_cases hj : j = i
      · subst hj
        obtain rfl := Option.some.inj (ht.symm.trans h₁)
        obtain ⟨rfl, -⟩ := Phase.writing.inj (hphase.symm.trans hphase₁)
        exact .inr ⟨j, _, rest, Function.update_self _ _ _, rfl⟩
      · exact .inr ⟨j, t₁, rest₁, (Function.update_of_ne hj _ _).trans h₁, hphase₁⟩
  · intro p hp hstatus hop hnot
    rw [hops] at hp ⊢
    have hprow : row ≠ p := by
      rintro rfl
      exact hnot i _ rest (Function.update_self _ _ _) rfl
    obtain ⟨hno, honly⟩ := h.creating p hp hstatus hop fun j t₁ rest₁ h₁ hphase₁ => by
      by_cases hj : j = i
      · subst hj
        obtain rfl := Option.some.inj (ht.symm.trans h₁)
        exact hprow (Phase.writing.inj (hphase.symm.trans hphase₁)).1
      · exact hnot j t₁ rest₁ ((Function.update_of_ne hj _ _).trans h₁) hphase₁
    have hne : row.conversationId ≠ p.conversationId :=
      fun heq => hprow (honly row ((h.threads i t ht).row row hrow).1 heq)
    exact ⟨(hview hne).trans hno, honly⟩
  · intro cid hcid
    rw [exec_nextConv] at hcid
    obtain ⟨hno, hnone⟩ := h.fresh cid hcid
    have hne := hnone row ((h.threads i t ht).row row hrow).1
    exact ⟨(hview hne).trans hno, hops ▸ hnone⟩

/-- A thread marks its operation and is done. -/
theorem ChainInv.finish (h : ChainInv L M m) {i : ℕ} {t : Thread S} {row : OpRow}
    (ht : m.threads i = some t) (hphase : t.phase = .writing row [.markApplied t.req.operationId]) :
    ChainInv L M { m with
      db := exec L m.db (.markApplied t.req.operationId)
      threads := Function.update m.threads i (some { t with phase := .done }) } := by
  have hrow : t.row? = some row := by simp [Thread.row?, hphase]
  have hok := h.threads i t ht
  obtain ⟨hmem, hprepared, hkey⟩ := hok.row row hrow
  have hclean := hok.clean
  have hops : (exec L m.db (.markApplied t.req.operationId)).ops =
      markPendingApplied m.db L t.req.operationId := rfl
  -- rows other than the thread's own stay as they are
  have hkeep : ∀ {q}, q ∈ m.db.ops → q ≠ row →
      L.key q.operationId ≠ L.key t.req.operationId ∧
      q ∈ markPendingApplied m.db L t.req.operationId := by
    intro q hq hne
    have hk : L.key q.operationId ≠ L.key t.req.operationId :=
      fun heq => hne (h.row_eq hq hmem (heq.trans hkey.symm))
    have hin := mem_marked (L := L) hclean hq
    rw [if_neg hk] at hin
    exact ⟨hk, hin⟩
  have hdone : ∀ {j t₁ row₁}, Function.update m.threads i (some { t with phase := .done }) j =
      some t₁ → t₁.row? = some row₁ → j ≠ i ∧ m.threads j = some t₁ := by
    intro j t₁ row₁ h₁ hr₁
    rcases update_some h₁ with ⟨-, rfl⟩ | h₁'
    · simp [Thread.row?] at hr₁
    · exact h₁'
  refine ⟨keys_marked hclean h.keys, fun j t₁ h₁ => ?_, ?_, ?_, h.effects, ?_, ?_, ?_, ?_⟩
  · rcases update_some h₁ with ⟨-, rfl⟩ | ⟨hj, h₁'⟩
    · refine ⟨hclean, ?_, ?_, ?_, ?_⟩ <;> simp [Thread.row?]
    · obtain ⟨hclean₁, hrow₁, hbefore, hstate, hwriting⟩ := h.threads j t₁ h₁'
      refine ⟨hclean₁, fun row₁ hr₁ => ?_, hbefore, hstate, fun row₁ rest₁ hr₁ =>
        ⟨(hwriting row₁ rest₁ hr₁).marks, (hwriting row₁ rest₁ hr₁).settles⟩⟩
      obtain ⟨hmem₁, hprepared₁, hkey₁⟩ := hrow₁ row₁ hr₁
      have hne : row₁ ≠ row := by
        rintro rfl
        exact hj (h.exclusive j i t₁ t row₁ row₁ h₁' ht hr₁ hrow rfl)
      exact ⟨(hkeep hmem₁ hne).2, hprepared₁, hkey₁⟩
  · intro j k t₁ t₂ row₁ row₂ h₁ h₂ hr₁ hr₂ hconv
    exact h.exclusive j k t₁ t₂ row₁ row₂ (hdone h₁ hr₁).2 (hdone h₂ hr₂).2 hr₁ hr₂ hconv
  · intro cid hun
    by_cases hcid : row.conversationId = cid
    · subst hcid
      exact (hok.writing row _ hphase).settles
    · refine h.quiet cid fun j t₁ row₁ rest₁ h₁ hphase₁ => ?_
      by_cases hj : j = i
      · subst hj
        obtain rfl := Option.some.inj (ht.symm.trans h₁)
        obtain ⟨rfl, -⟩ := Phase.writing.inj (hphase.symm.trans hphase₁)
        exact hcid
      · exact hun j t₁ row₁ rest₁ ((Function.update_of_ne hj _ _).trans h₁) hphase₁
  · intro e he
    rcases h.begun e he with ⟨q, hq, hid, hstatus⟩ | ⟨j, t₁, rest₁, h₁, hphase₁⟩
    · refine .inl ⟨q, (hkeep hq ?_).2, hid, hstatus⟩
      rintro rfl
      exact hstatus hprepared
    · by_cases hj : j = i
      · subst hj
        obtain rfl := Option.some.inj (ht.symm.trans h₁)
        obtain ⟨rfl, -⟩ := Phase.writing.inj (hphase.symm.trans hphase₁)
        have hin := mem_marked (L := L) hclean hmem
        rw [if_pos hkey] at hin
        exact .inl ⟨_, hin, rfl, by simp⟩
      · exact .inr ⟨j, t₁, rest₁, (Function.update_of_ne hj _ _).trans h₁, hphase₁⟩
  · intro p hp hstatus hop hnot
    obtain ⟨hp', hpk⟩ := mem_of_marked hclean hp hstatus
    have hprow : row ≠ p := by
      rintro rfl
      exact hpk hkey
    obtain ⟨hno, honly⟩ := h.creating p hp' hstatus hop fun j t₁ rest₁ h₁ hphase₁ => by
      by_cases hj : j = i
      · subst hj
        obtain rfl := Option.some.inj (ht.symm.trans h₁)
        exact hprow (Phase.writing.inj (hphase.symm.trans hphase₁)).1
      · exact hnot j t₁ rest₁ ((Function.update_of_ne hj _ _).trans h₁) hphase₁
    refine ⟨hno, fun q hq hconv => ?_⟩
    obtain ⟨q', hq', ⟨-, rfl⟩ | ⟨hk, rfl⟩⟩ := marked_cases hclean hq
    · exact honly q hq' hconv
    · exact absurd (honly q' hq' hconv ▸ hk) hpk
  · intro cid hcid
    obtain ⟨hno, hnone⟩ := h.fresh cid hcid
    refine ⟨hno, fun q hq => ?_⟩
    obtain ⟨q', hq', ⟨-, rfl⟩ | ⟨-, rfl⟩⟩ := marked_cases hclean hq
    · exact hnone q hq'
    · exact hnone q' hq'
  · intro p hp hop
    obtain ⟨q, hq, ⟨-, rfl⟩ | ⟨-, rfl⟩⟩ := marked_cases hclean hp
    · exact h.targets p hq hop
    · exact h.targets q hq hop

/-! ### Requests that are taken as a whole -/

/-- What a request other than `apply_group_change` does: it leaves every group alone, and it may
store one new operation. -/
inductive Prepared (L : OpLookup) (db db' : Db S) : Prop
  | same (ops : db'.ops = db.ops) (next : db.nextConv ≤ db'.nextConv)
  | existing (row : OpRow) (ops : db'.ops = db.ops ++ [row]) (next : db'.nextConv = db.nextConv)
      (key : ∀ q ∈ db.ops, L.key q.operationId ≠ L.key row.operationId)
      (target : row.operation = .addMember → 0 < row.targetUserId)
      (op : row.operation ≠ .createGroup) (member : db.members row.conversationId ≠ [])
  | creating (row : OpRow) (ops : db'.ops = db.ops ++ [row]) (next : db'.nextConv = db.nextConv + 1)
      (key : ∀ q ∈ db.ops, L.key q.operationId ≠ L.key row.operationId)
      (op : row.operation = .createGroup) (conv : row.conversationId = db.nextConv)

/-- The policy of an addition asks for a target. -/
theorem target_pos_of_checkPolicy {db : Db S} {uid cid target : ℤ} {req : PrepareReq}
    (hop : req.operation = .addMember) (h : checkPolicy db uid req cid target = .ok ()) :
    0 < target := by
  simp only [checkPolicy, hop] at h
  split at h
  · cases h
  · next hfriend => exact not_le.mp (not_or.mp hfriend).1

theorem prepared_storePendingOp {db db₁ : Db S} {id : String} {cid uid target : ℤ}
    {req : PrepareReq} (hops : db₁.ops = db.ops)
    (hkind : req.operation ≠ .createGroup ∧ db₁.nextConv = db.nextConv ∧ db.members cid ≠ [] ∧
        (req.operation = .addMember → 0 < target) ∨
      req.operation = .createGroup ∧ db₁.nextConv = db.nextConv + 1 ∧ cid = db.nextConv) :
    Prepared L db (storePendingOp L db₁ id cid uid req target).1 := by
  unfold storePendingOp
  split
  · refine .same hops ?_
    rcases hkind with ⟨-, hnext, -⟩ | ⟨-, hnext, -⟩
    · exact hnext.ge
    · rw [hnext]
      exact (lt_add_one _).le
  · next hkey =>
    simp only [List.any_eq_true, decide_eq_true_eq, not_exists, not_and, hops] at hkey
    rcases hkind with ⟨hop, hnext, hin, htarget⟩ | ⟨hop, hnext, rfl⟩
    · refine .existing _ (by rw [← hops]) hnext hkey (fun hadd => ?_) hop hin
      have hpos := htarget hadd
      show 0 < if 0 < target then target else 0
      rw [if_pos hpos]
      exact hpos
    · exact .creating _ (by rw [← hops]) hnext hkey hop rfl

theorem prepared_of_prepare (db : Db S) (caller : Caller) (req : PrepareReq) (id : String) :
    Prepared L db (prepareGroupChange L db caller req id).1 := by
  unfold prepareGroupChange
  dsimp only
  split
  · exact .same rfl le_rfl
  · split
    · next hcreate =>
      generalize (if req.details.name = "" then "Unnamed Group" else req.details.name) = name
      split
      · exact .same rfl le_rfl
      · split
        · exact .same rfl le_rfl
        · split
          · exact .same rfl le_rfl
          · exact prepared_storePendingOp rfl (.inr ⟨hcreate, rfl, rfl⟩)
    · next hcreate =>
      split
      · exact .same rfl le_rfl
      · split
        · exact .same rfl le_rfl
        · next hmember =>
          split
          · exact .same rfl le_rfl
          · split
            · exact .same rfl le_rfl
            · next hcheck =>
              have hin : caller.uid ∈ db.members req.group := by
                simpa [convIsMember] using hmember
              refine prepared_storePendingOp rfl (.inl ⟨hcreate, rfl, ?_, fun hadd => ?_⟩)
              · exact List.ne_nil_of_mem hin
              · exact target_pos_of_checkPolicy hadd hcheck

theorem view_storePendingOp (db : Db S) (id : String) (c uid target : ℤ) (req : PrepareReq) :
    view (storePendingOp L db id c uid req target).1 cid = view db cid := by
  unfold storePendingOp
  split <;> rfl

theorem view_prepare (db : Db S) (caller : Caller) (req : PrepareReq) (id : String) :
    view (prepareGroupChange L db caller req id).1 cid = view db cid := by
  unfold prepareGroupChange
  dsimp only
  split
  · rfl
  · split
    · generalize (if req.details.name = "" then "Unnamed Group" else req.details.name) = name
      split
      · rfl
      · split
        · rfl
        · split
          · rfl
          · exact view_storePendingOp _ _ _ _ _ _
    · split
      · rfl
      · split
        · rfl
        · split
          · rfl
          · split
            · rfl
            · exact view_storePendingOp _ _ _ _ _ _

/-- A request that is not `apply_group_change`. -/
def Event.Whole : Event → Prop
  | .apply _ _ => False
  | _ => True

theorem prepared_of_step (M : PublicMls S) (db : Db S) {e : Event} (he : e.Whole) :
    Prepared L db (step L M db e) ∧ ∀ cid, view (step L M db e) cid = view db cid := by
  cases e with
  | prepare caller req id =>
    exact ⟨prepared_of_prepare db caller req id, fun cid => view_prepare db caller req id⟩
  | apply caller req => cases he
  | friendRequest caller target =>
    simp only [step, friendRequest]
    split
    · exact ⟨.same rfl le_rfl, fun _ => rfl⟩
    · split <;> exact ⟨.same rfl le_rfl, fun _ => rfl⟩
  | friendAccept caller requester =>
    simp only [step, friendAccept]
    split
    · split <;> exact ⟨.same rfl le_rfl, fun _ => rfl⟩
    · exact ⟨.same rfl le_rfl, fun _ => rfl⟩
  | friendRemove caller other => exact ⟨.same rfl le_rfl, fun _ => rfl⟩
  | tick ms => exact ⟨.same rfl le_rfl, fun _ => rfl⟩

/-- A new operation, if there is one, is not one of a group that is being created. -/
theorem ChainInv.request (h : ChainInv L M m) {db' : Db S} (hprep : Prepared L m.db db')
    (hview : ∀ cid, view db' cid = view m.db cid) : ChainInv L M { m with db := db' } := by
  have hmem : ∀ q ∈ m.db.ops, q ∈ db'.ops := by
    intro q hq
    cases hprep with
    | same ops next => rwa [ops]
    | existing row ops | creating row ops =>
      rw [ops]
      exact List.mem_append_left _ hq
  have hnext : m.db.nextConv ≤ db'.nextConv := by
    cases hprep with
    | same ops next => exact next
    | existing row ops next => exact next.ge
    | creating row ops next =>
      rw [next]
      exact (lt_add_one _).le
  have hlive : ∀ {c}, m.db.members c ≠ [] → c < m.db.nextConv := by
    intro c hc
    by_contra hge
    exact hc (congrArg View.members (h.fresh c (not_lt.mp hge)).1)
  refine ⟨?_, fun i t ht => ?_, h.exclusive, fun cid hun => ?_, h.effects, fun e he => ?_, ?_, ?_, ?_⟩
  · cases hprep with
    | same ops next =>
      rw [ops]
      exact h.keys
    | existing row ops next key | creating row ops next key =>
      rw [ops, List.map_append]
      refine List.nodup_append.mpr ⟨h.keys, List.nodup_singleton _, ?_⟩
      intro a ha b hb
      obtain ⟨q, hq, rfl⟩ := List.mem_map.mp ha
      obtain rfl := List.mem_singleton.mp hb
      exact key q hq
  · obtain ⟨hclean, hrow, hbefore, hstate, hwriting⟩ := h.threads i t ht
    refine ⟨hclean, fun row hr => ?_, hbefore, fun row s hr => ?_, fun row rest hr => ?_⟩
    · obtain ⟨hin, hrest⟩ := hrow row hr
      exact ⟨hmem row hin, hrest⟩
    · exact (congrArg View.state (hview _)).trans (hstate row s hr)
    · refine ⟨(hwriting row rest hr).marks, ?_⟩
      rw [hview]
      exact (hwriting row rest hr).settles
  · rw [hview]
    exact h.quiet cid hun
  · rcases h.begun e he with ⟨q, hq, hrest⟩ | hthread
    · exact .inl ⟨q, hmem q hq, hrest⟩
    · exact .inr hthread
  · intro p hp hstatus hop hnot
    unfold NoGroup
    rw [hview]
    cases hprep with
    | same ops next =>
      rw [ops] at hp ⊢
      exact h.creating p hp hstatus hop hnot
    | existing row ops next key target op member =>
      rw [ops] at hp ⊢
      rcases List.mem_append.mp hp with hp | hp
      · obtain ⟨hno, honly⟩ := h.creating p hp hstatus hop hnot
        refine ⟨hno, fun q hq hconv => ?_⟩
        rcases List.mem_append.mp hq with hq | hq
        · exact honly q hq hconv
        · obtain rfl := List.mem_singleton.mp hq
          exact absurd (congrArg View.members hno) (hconv ▸ member)
      · obtain rfl := List.mem_singleton.mp hp
        exact absurd hop op
    | creating row ops next key op conv =>
      rw [ops] at hp ⊢
      obtain ⟨hno', hnone⟩ := h.fresh m.db.nextConv le_rfl
      rcases List.mem_append.mp hp with hp' | hp'
      · obtain ⟨hno, honly⟩ := h.creating p hp' hstatus hop hnot
        refine ⟨hno, fun q hq hconv => ?_⟩
        rcases List.mem_append.mp hq with hq | hq
        · exact honly q hq hconv
        · obtain rfl := List.mem_singleton.mp hq
          exact absurd (hconv.symm.trans conv) (hnone p hp')
      · obtain rfl := List.mem_singleton.mp hp'
        rw [conv]
        refine ⟨hno', fun q hq hconv => ?_⟩
        rcases List.mem_append.mp hq with hq | hq
        · exact absurd hconv (hnone q hq)
        · exact List.mem_singleton.mp hq
  · intro cid hcid
    obtain ⟨hno, hnone⟩ := h.fresh cid (hnext.trans hcid)
    refine ⟨(hview cid).trans hno, fun q hq => ?_⟩
    cases hprep with
    | same ops next => exact hnone q (ops ▸ hq)
    | existing row ops next key target op member =>
      rw [ops] at hq
      rcases List.mem_append.mp hq with hq | hq
      · exact hnone q hq
      · obtain rfl := List.mem_singleton.mp hq
        exact ((hlive member).trans_le (hnext.trans hcid)).ne
    | creating row ops next key op conv =>
      rw [ops] at hq
      rcases List.mem_append.mp hq with hq | hq
      · exact hnone q hq
      · obtain rfl := List.mem_singleton.mp hq
        have hlt : q.conversationId < db'.nextConv := by
          rw [conv, next]
          exact lt_add_one _
        exact (hlt.trans_le hcid).ne
  · intro p hp hop
    cases hprep with
    | same ops next => exact h.targets p (ops ▸ hp) hop
    | existing row ops next key target op member =>
      rw [ops] at hp
      rcases List.mem_append.mp hp with hp | hp
      · exact h.targets p hp hop
      · obtain rfl := List.mem_singleton.mp hp
        exact target hop
    | creating row ops next key op conv =>
      rw [ops] at hp
      rcases List.mem_append.mp hp with hp | hp
      · exact h.targets p hp hop
      · obtain rfl := List.mem_singleton.mp hp
        rw [op] at hop
        cases hop

theorem ChainInv.whole (h : ChainInv L M m) {e : Event} (he : e.Whole) :
    ChainInv L M { m with db := step L M m.db e } := by
  obtain ⟨hprep, hview⟩ := prepared_of_step (L := L) M m.db he
  exact h.request hprep hview

/-! ### The next statement of a thread -/

theorem commit_of_checkArtifacts {operation : GroupOp} {req : ApplyReq}
    (hop : isMembershipChange operation = true) (h : checkArtifacts operation req = .ok ()) :
    req.commitB64 ≠ "" := by
  intro hcommit
  simp [checkArtifacts, hop, hcommit, throw, throwThe, MonadExceptOf.throw] at h

theorem isMembershipChange_createGroup : isMembershipChange .createGroup = true := rfl

/-- What the first statement of a thread leads to. -/
theorem nextPhase_start {t : Thread S} (ht : t.phase = .start) (db : Db S) :
    nextPhase L M db t = .done ∨
    ∃ row, fetchPendingOp db L t.req.operationId t.caller.uid = some row ∧
      (row.operation = .createGroup ∧ t.req.commitB64 ≠ "" ∧
          (∃ g, validated M row t.caller.uid t.req none [] = .ok g ∧
            nextPhase L M db t = .writing row (applyStmts row t.caller.uid t.req (some g))) ∨
        row.operation ≠ .createGroup ∧ isMembershipChange row.operation = true ∧
          t.req.commitB64 ≠ "" ∧ nextPhase L M db t = .reading row ∨
        isMembershipChange row.operation = false ∧
          nextPhase L M db t = .writing row (applyStmts row t.caller.uid t.req none)) := by
  unfold nextPhase
  rw [ht]
  dsimp only
  split
  · exact .inl rfl
  · split
    · exact .inl rfl
    · next row hfetch =>
      split
      · exact .inl rfl
      · next hart =>
        split
        · next hcreate =>
          have hcommit := commit_of_checkArtifacts (hcreate ▸ isMembershipChange_createGroup) hart
          cases hval : validated M row t.caller.uid t.req none [] with
          | error msg => exact .inl rfl
          | ok g => exact .inr ⟨row, hfetch, .inl ⟨hcreate, hcommit, g, hval, rfl⟩⟩
        · next hcreate =>
          split
          · next hop =>
            have hcommit := commit_of_checkArtifacts hop hart
            exact .inr ⟨row, hfetch, .inr (.inl ⟨hcreate, hop, hcommit, rfl⟩)⟩
          · next hop =>
            exact .inr ⟨row, hfetch, .inr (.inr ⟨Bool.eq_false_of_not_eq_true hop, rfl⟩)⟩

/-- The statements of an accepted request end with the mark. -/
theorem applyStmts_marks (row : OpRow) (uid : ℤ) (req : ApplyReq) (state : Option S) :
    ∃ init, applyStmts row uid req state = init ++ [.markApplied req.operationId] ∧
      ∀ st ∈ init, (∀ id, st ≠ .markApplied id) ∧ st.On row.conversationId := by
  refine ⟨recordStmts row uid req state ++ changeStmts row uid, ?_, fun st hst => ⟨?_, ?_⟩⟩
  · simp [applyStmts, recordStmts]
  · rcases List.mem_append.mp hst with hst | hst
    · rcases recordStmts_cases hst with ⟨r, rfl⟩ | ⟨g, rfl⟩ <;> simp
    · exact changeStmts_ne_markApplied hst
  · have hin : st ∈ applyStmts row uid req state := by
      simp only [applyStmts, recordStmts] at hst ⊢
      exact List.mem_append_left _ hst
    exact applyStmts_on hin

/-- A thread gives up. -/
theorem ChainInv.giveUp (h : ChainInv L M m) {i : ℕ} {t : Thread S} (ht : m.threads i = some t)
    (hsilent : t.Silent) :
    ChainInv L M { m with
      threads := Function.update m.threads i (some { t with phase := .done }) } := by
  refine h.move ⟨(h.threads i t ht).clean, ?_, ?_, ?_, ?_⟩ (fun t₁ h₁ => ?_) ?_ ?_
  · simp [Thread.row?]
  · simp
  · simp
  · simp
  · obtain rfl := Option.some.inj (ht.symm.trans h₁)
    exact hsilent
  · simp [Thread.Silent]
  · simp [Thread.row?]

/-- The row that a thread finds has not taken effect. -/
theorem ChainInv.not_begun (h : ChainInv L M m) {row : OpRow} (hrow : row ∈ m.db.ops)
    (hstatus : row.status = .prepared)
    (hfree : ∀ j t' row', m.threads j = some t' → t'.row? = some row' →
      row'.conversationId ≠ row.conversationId) :
    ∀ e ∈ m.effects, e.operationId ≠ row.operationId := by
  intro e he hid
  rcases h.begun e he with ⟨q, hq, hqid, hqs⟩ | ⟨j, t', rest, h', hphase⟩
  · have heq := h.row_eq hq hrow (congrArg L.key (hqid.trans hid))
    exact hqs (heq ▸ hstatus)
  · have hr : t'.row? = some e := by simp [Thread.row?, hphase]
    have heq := h.row_eq ((h.threads j t' h').row e hr).1 hrow (congrArg L.key hid)
    exact hfree j t' e h' hr (heq ▸ rfl)

/-- The first statement of a thread. -/
theorem ChainInv.start (h : ChainInv L M m) {i : ℕ} {t : Thread S} (ht : m.threads i = some t)
    (hphase : t.phase = .start)
    (hord : ∀ row, fetchPendingOp m.db L t.req.operationId t.caller.uid = some row →
      (∀ j t' row', m.threads j = some t' → t'.row? = some row' →
        row'.conversationId ≠ row.conversationId) ∧
      (isMembershipChange row.operation = false → t.req.commitB64 = "")) :
    ChainInv L M { m with
      threads := Function.update m.threads i (some { t with phase := nextPhase L M m.db t })
      effects := m.effects ++ (nextPhase L M m.db t).begun } := by
  have hsilent : t.Silent := by simp [Thread.Silent, hphase]
  have hclean := (h.threads i t ht).clean
  have hfirst := nextPhase_start (L := L) (M := M) hphase
  rcases hfirst m.db with hnext | ⟨row, hfetch, hcases⟩
  · rw [hnext]
    simp only [Phase.begun, List.append_nil]
    exact h.giveUp ht hsilent
  · obtain ⟨hpending, hkey, -⟩ := pending_of_fetch hclean hfetch
    obtain ⟨hfree, hcontrol⟩ := hord row hfetch
    have hrow : row ∈ m.db.ops ∧ row.status = .prepared ∧
        L.key row.operationId = L.key t.req.operationId := ⟨hpending.1, hpending.2.1, hkey⟩
    have hnew := h.not_begun hrow.1 hrow.2.1 hfree
    have hun : Unwritten m row.conversationId := fun j t' row' rest h' hp =>
      hfree j t' row' h' (by simp [Thread.row?, hp])
    rcases hcases with ⟨hcreate, hcommit, g, hval, hnext⟩ | ⟨hcreate, hop, hcommit, hnext⟩ |
      ⟨hop, hnext⟩
    · rw [hnext]
      -- nothing is stored for the group yet
      obtain ⟨hno, -⟩ := h.creating row hrow.1 hrow.2.1 hcreate fun j t' rest h' hp =>
        hfree j t' row h' (by simp [Thread.row?, hp]) rfl
      refine h.accept ht hsilent rfl rfl hrow hnew (fun j t' row' _ => hfree j t' row') ?_
      exact ⟨applyStmts_marks _ _ _ _, consistent_create hcreate t.caller.pos hcommit hval hno⟩
    · rw [hnext]
      simp only [Phase.begun, List.append_nil]
      refine h.move ⟨hclean, ?_, ?_, ?_, ?_⟩ (fun t₁ h₁ => ?_) ?_ ?_
      · intro row' hr
        obtain rfl : row = row' := by simpa [Thread.row?] using hr
        exact hrow
      · intro row' hr
        obtain rfl : row = row' := by simpa using hr
        exact ⟨hop, hcreate, hcommit, hnew⟩
      · simp
      · simp
      · obtain rfl := Option.some.inj (ht.symm.trans h₁)
        exact hsilent
      · simp [Thread.Silent]
      · intro row' hr j t' row'' _ h' hr'
        obtain rfl : row = row' := by simpa [Thread.row?] using hr
        exact hfree j t' row'' h' hr'
    · rw [hnext]
      refine h.accept ht hsilent rfl rfl hrow hnew (fun j t' row' _ => hfree j t' row') ?_
      exact ⟨applyStmts_marks _ _ _ _,
        consistent_control hop (hcontrol hop) (h.quiet _ hun)⟩

/-- A thread reads the public state. -/
theorem ChainInv.reading (h : ChainInv L M m) {i : ℕ} {t : Thread S} {row : OpRow}
    (ht : m.threads i = some t) (hphase : t.phase = .reading row) :
    ChainInv L M { m with
      threads := Function.update m.threads i (some { t with phase := nextPhase L M m.db t })
      effects := m.effects ++ (nextPhase L M m.db t).begun } := by
  have hsilent : t.Silent := by simp [Thread.Silent, hphase]
  have hrow : t.row? = some row := by simp [Thread.row?, hphase]
  have hok := h.threads i t ht
  cases hstate : m.db.groupState row.conversationId with
  | none =>
    have hnext : nextPhase L M m.db t = .done := by simp [nextPhase, hphase, hstate]
    rw [hnext]
    simp only [Phase.begun, List.append_nil]
    exact h.giveUp ht hsilent
  | some s =>
    have hnext : nextPhase L M m.db t = .validating row s := by simp [nextPhase, hphase, hstate]
    rw [hnext]
    simp only [Phase.begun, List.append_nil]
    refine h.move ⟨hok.clean, ?_, ?_, ?_, ?_⟩ (fun t₁ h₁ => ?_) ?_ ?_
    · intro row' hr
      obtain rfl : row = row' := by simpa [Thread.row?] using hr
      exact hok.row row hrow
    · intro row' hr
      obtain rfl : row = row' := by simpa using hr
      exact hok.before row (.inl hphase)
    · intro row' s' hr
      obtain ⟨rfl, rfl⟩ := Phase.validating.inj hr
      exact hstate
    · simp
    · obtain rfl := Option.some.inj (ht.symm.trans h₁)
      exact hsilent
    · simp [Thread.Silent]
    · intro row' hr j t' row'' hj h' hr' hconv
      obtain rfl : row = row' := by simpa [Thread.row?] using hr
      exact hj (h.exclusive j i t' t row'' row h' ht hr' hrow hconv)

/-- A thread reads the members and validates the commit. -/
theorem ChainInv.validating (h : ChainInv L M m) {i : ℕ} {t : Thread S} {row : OpRow} {s : S}
    (ht : m.threads i = some t) (hphase : t.phase = .validating row s)
    (hlen : (m.db.members row.conversationId).length ≤ 512)
    (hrest : isRemoval row.operation = true →
      ∃ u ∈ m.db.members row.conversationId, u ≠ row.targetUserId) :
    ChainInv L M { m with
      threads := Function.update m.threads i (some { t with phase := nextPhase L M m.db t })
      effects := m.effects ++ (nextPhase L M m.db t).begun } := by
  have hsilent : t.Silent := by simp [Thread.Silent, hphase]
  have hrow : t.row? = some row := by simp [Thread.row?, hphase]
  have hok := h.threads i t ht
  obtain ⟨hop, hcreate, hcommit, hnew⟩ := hok.before row (.inr ⟨s, hphase⟩)
  have hfree : ∀ j t' row', j ≠ i → m.threads j = some t' → t'.row? = some row' →
      row'.conversationId ≠ row.conversationId := fun j t' row' hj h' hr' hconv =>
    hj (h.exclusive j i t' t row' row h' ht hr' hrow hconv)
  have hun : Unwritten m row.conversationId := by
    intro j t' row' rest h' hp
    by_cases hj : j = i
    · subst hj
      obtain rfl := Option.some.inj (ht.symm.trans h')
      exact absurd hp (hsilent row' rest)
    · exact hfree j t' row' hj h' (by simp [Thread.row?, hp])
  cases hval : validated M row t.caller.uid t.req (some s) (m.db.members row.conversationId) with
  | error msg =>
    have hnext : nextPhase L M m.db t = .done := by
      simp only [nextPhase, hphase, hval]
      rfl
    rw [hnext]
    simp only [Phase.begun, List.append_nil]
    exact h.giveUp ht hsilent
  | ok g =>
    have hnext : nextPhase L M m.db t =
        .writing row (applyStmts row t.caller.uid t.req (some g)) := by
      simp only [nextPhase, hphase, hval]
      rfl
    rw [hnext]
    refine h.accept ht hsilent rfl rfl (hok.row row hrow) hnew hfree ?_
    refine ⟨applyStmts_marks _ _ _ _, ?_⟩
    have htarget := h.targets row (hok.row row hrow).1
    exact consistent_commit hop hcreate htarget hcommit hlen hrest hval
      (hok.state row s hphase) (h.quiet _ hun)

/-- **The next statement of a thread.** -/
theorem ChainInv.advance (h : ChainInv L M m) {i : ℕ} (hord : Orderly L m (.advance i)) :
    ChainInv L M (advance L M m i) := by
  unfold GroupChange.advance
  cases ht : m.threads i with
  | none => exact h
  | some t =>
    have hturn := hord t ht
    dsimp only
    cases hphase : t.phase with
    | start =>
      rw [hphase] at hturn
      exact h.start ht hphase hturn
    | reading row => exact h.reading ht hphase
    | validating row s =>
      rw [hphase] at hturn
      exact h.validating ht hphase hturn.1 hturn.2
    | writing row rest =>
      cases rest with
      | nil => exact h
      | cons st rest =>
        obtain ⟨init, hinit, hall⟩ := ((h.threads i t ht).writing row _ hphase).marks
        cases init with
        | nil =>
          obtain ⟨rfl, rfl⟩ := List.cons.inj hinit
          exact h.finish ht hphase
        | cons st' init =>
          simp only [List.cons_append, List.cons.injEq] at hinit
          obtain ⟨rfl, rfl⟩ := hinit
          have hafter : afterStmt row (init ++ [.markApplied t.req.operationId]) =
              .writing row (init ++ [.markApplied t.req.operationId]) := by
            cases init <;> rfl
          dsimp only
          rw [hafter]
          exact h.write ht hphase (hall st List.mem_cons_self)
            ⟨init, rfl, fun st' hst' => hall st' (List.mem_cons_of_mem _ hst')⟩
    | done => exact h

/-- **One turn.** -/
theorem ChainInv.turn (h : ChainInv L M m) {e : Turn} (hord : Orderly L m e) :
    ChainInv L M (turn L M m e) := by
  cases e with
  | advance i => exact h.advance hord
  | incoming i e =>
    cases e with
    | apply caller req =>
      simp only [GroupChange.turn]
      split
      · next hfree =>
        refine h.move ⟨hord, ?_, ?_, ?_, ?_⟩ (fun t ht => ?_) ?_ ?_
        · simp [Thread.row?]
        · simp
        · simp
        · simp
        · rw [hfree] at ht
          cases ht
        · simp [Thread.Silent]
        · simp [Thread.row?]
      · exact h
    | prepare caller req id => exact h.whole trivial
    | friendRequest caller target => exact h.whole trivial
    | friendAccept caller requester => exact h.whole trivial
    | friendRemove caller other => exact h.whole trivial
    | tick ms => exact h.whole trivial

/-- No request has come yet: no operations, no groups, and nothing for the conversations that do not
exist. -/
structure Machine.Initial (m : Machine S) : Prop where
  ops : m.db.ops = []
  handshake : m.db.handshake = []
  groupState : ∀ cid, m.db.groupState cid = none
  members : ∀ cid, m.db.nextConv ≤ cid → m.db.members cid = []
  threads : ∀ i, m.threads i = none
  effects : m.effects = []

theorem Machine.Initial.inv (h : m.Initial) : ChainInv L M m where
  keys := by simp [h.ops]
  threads i t ht := by simp [h.threads i] at ht
  exclusive i j t t' row row' ht := by simp [h.threads i] at ht
  quiet cid _ := by simp [Consistent, view, h.groupState cid, commitRows, h.handshake]
  effects := by simp [EffectOnce, h.effects]
  begun := by simp [h.effects]
  creating := by simp [h.ops]
  fresh cid hcid := by
    simp [NoGroup, view, commitRows, h.ops, h.handshake, h.groupState cid, h.members cid hcid]
  targets := by simp [h.ops]

/-- **The server keeps one validated commit chain for each group**, in every orderly run: operations
take effect once, stored commits were validated one on top of the other, and an idle server's members
are those of the public state. -/
theorem chain_kept (hM : M.Lawful) (m : Machine S) (hm : m.Initial) (turns : List Turn)
    (hord : Runs.Each (GroupChange.turn L M) (Orderly L) m turns) :
    Runs.Always (GroupChange.turn L M) (fun m => EffectOnce m ∧ Chained M m ∧ MembersMatch M m) m
      turns := by
  have hrun := Runs.always_of_each (P := ChainInv L M) (C := Orderly L)
    (fun m e h he => h.turn he) hm.inv hord
  exact hrun.imp fun m h => ⟨h.effects, h.chained hM, h.membersMatch⟩

end Chain

/-! ### Two runs -/

theorem smallMls_lawful : smallMls.Lawful where
  process_epoch := by
    intro s s' commit author h
    simp only [smallMls] at h
    split at h
    · obtain ⟨-, rfl⟩ := Prod.mk.inj (Option.some.inj h)
      rfl
    · cases h

/-- The server before the first request. -/
def friendsMachine : Machine (ℕ × List ℤ) := ⟨friendsDb, fun _ => none, []⟩

theorem friendsMachine_initial : friendsMachine.Initial :=
  ⟨rfl, rfl, fun _ => rfl, fun _ _ => rfl, fun _ => rfl, rfl⟩

/-- A thread serves the creation of a group, from its first statement to its last. -/
def createTurns : List Turn :=
  [.incoming 0 (prepareOn .createGroup "" "op1"),
    .incoming 0 (applyOp "op1" 1 "create" "epoch 1" "")] ++ List.replicate 9 (.advance 0)

/-- User 1 renames the group, with a commit that nobody has seen in the request. -/
def strayTurns : List Turn :=
  createTurns ++ [.incoming 1 (.prepare userOne ⟨.updateGroupInfo, 0, 0, 1, 0, "", ⟨"name", "", []⟩⟩
      "op2"),
    .incoming 1 (applyOp "op2" 7 "stray" "" "control")] ++ List.replicate 5 (.advance 1)

/-- **A commit that nobody validated is stored**: a change of the group's name stores whatever is in
its `commit_b64`. -/
theorem stray_commit :
    (commitRows (strayTurns.foldl (turn plainLookup smallMls) friendsMachine).db 1).map
      (fun r => (r.message, r.epoch)) = [("create", 1), ("stray", 7)] ∧
    ¬ Runs.Always (turn plainLookup smallMls)
      (fun m => EffectOnce m ∧ Chained smallMls m ∧ MembersMatch smallMls m) friendsMachine
      strayTurns := by
  have hrows : (commitRows (strayTurns.foldl (turn plainLookup smallMls) friendsMachine).db 1).map
      (fun r => (r.message, r.epoch)) = [("create", 1), ("stray", 7)] := by decide +kernel
  refine ⟨hrows, fun hall => ?_⟩
  have hend := Runs.always_iff_prefixes.mp hall _ (List.prefix_refl _)
  obtain ⟨hchain, -⟩ := hend.2.1 1
  generalize commitRows (strayTurns.foldl (turn plainLookup smallMls) friendsMachine).db 1 = rows
    at hrows hchain
  rcases hchain with rfl | ⟨g, hchain⟩
  · simp at hrows
  · cases hchain with
    | create => simp at hrows
    | @commit rows row g₀ g groupInfo ratchetTree expected hbefore haccepted hepoch =>
      rw [List.map_append] at hrows
      have hlast := congrArg List.getLast? hrows
      simp only [List.map_cons, List.map_nil, List.getLast?_append, List.getLast?_singleton,
        Option.some_or, List.getLast?_cons_cons, Option.some.injEq, Prod.mk.injEq] at hlast
      have hstray : row.message = "stray" := hlast.1
      obtain ⟨⟨author, hprocess⟩, -⟩ := validateGroupCommit_cases haccepted
      rw [hstray] at hprocess
      simp [smallMls] at hprocess

/-- The thread is writing. -/
def isWriting {S : Type} (m : Machine S) (i : ℕ) : Bool :=
  match m.threads i with
  | some t =>
    match t.phase with
    | .writing _ _ | .done => true
    | _ => false
  | none => true

theorem orderly_of_isWriting {S : Type} {L : OpLookup} {m : Machine S} {i : ℕ}
    (h : isWriting m i = true) : Orderly L m (.advance i) := by
  intro t ht
  simp only [isWriting, ht] at h
  cases hphase : t.phase <;> simp_all

/-- The first statement of the only thread, on an operation that is validated. -/
theorem orderly_of_alone {S : Type} {L : OpLookup} {m : Machine S} {i : ℕ} {caller : Caller}
    {req : ApplyReq}
    (hthreads : m.threads = Function.update (fun _ => none) i (some ⟨caller, req, .start⟩))
    (hop : ((fetchPendingOp m.db L req.operationId caller.uid).all
      fun row => isMembershipChange row.operation) = true) : Orderly L m (.advance i) := by
  intro t ht
  rw [hthreads, Function.update_self] at ht
  obtain rfl := Option.some.inj ht
  intro row hfetch
  constructor
  · intro j t' row' h' hr'
    rw [hthreads] at h'
    by_cases hj : j = i
    · subst hj
      rw [Function.update_self] at h'
      obtain rfl := Option.some.inj h'
      simp [Thread.row?] at hr'
    · simp [Function.update_of_ne hj] at h'
  · intro hnot
    rw [hfetch] at hop
    simp [hnot] at hop

theorem chain_kept_creating :
    (createTurns.foldl (turn plainLookup smallMls) friendsMachine).db.groupState 1 =
      some (1, [1, 2]) ∧
    Runs.Always (turn plainLookup smallMls)
      (fun m => EffectOnce m ∧ Chained smallMls m ∧ MembersMatch smallMls m) friendsMachine
      createTurns := by
  constructor
  · decide +kernel
  · refine chain_kept smallMls_lawful friendsMachine friendsMachine_initial createTurns ?_
    simp only [createTurns, List.cons_append, List.nil_append, List.replicate, Runs.each_cons,
      Runs.each_nil, prepareOn, applyOp]
    refine ⟨trivial, ?_, ?_, ?_⟩
    · show CleanId "op1"
      decide +kernel
    · apply orderly_of_alone rfl
      decide +kernel
    · refine ⟨?_, ?_, ?_, ?_, ?_, ?_, ?_, ?_, trivial⟩
      all_goals
        apply orderly_of_isWriting
        decide +kernel

end SecChat.GroupChange
