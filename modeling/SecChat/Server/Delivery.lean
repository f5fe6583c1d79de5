import SecChat.Python.Base64
import SecChat.Library.Runs
import Mathlib.Data.List.Nodup

/-!
# Message events between the live connections and the offline queue

After a message or an edit event is stored, its handler sends the event to the connections of every
member, then asks for each member whether it is online and queues the event if it is not.  A login
gives its slot to the user, detaches the user's other connections, and sends what is queued.  All of
this happens one statement at a time, in any order between the threads.

* `flushForUser`, `markSent`, `notifEnqueue`, `sendToUid`, `isOnline`: the queue and the connections;
* `step`: one statement of a login or of a message handler, and what connections do by themselves;
* `ExactlyOnce`: a member gets each event at most once and unchanged, and has it when it is logged in;
* `StaysUp`: connections stay up while they are sent to;
* `StepOk`: the condition on a statement, in the state before it;
* `delivered_exactly_once`: under both, `ExactlyOnce` holds throughout every run;
* `login_between_lost`: a member logs in between the broadcast and the test.
-/

namespace SecChat.Delivery

open Py

/-! ### The queue -/

/-- A row of `notification_queue`; its id is its position.  `msg` is the message it belongs to, if
it belongs to one; the code does not keep it. -/
structure Row where
  uid : ℕ
  msg : Option ℕ
  payload : Bytes
  isSent : Bool
  deriving DecidableEq, Repr

/-- A `NotifRecord`. -/
structure NotifRecord where
  id : ℕ
  msg : Option ℕ
  payload : Bytes
  deriving DecidableEq, Repr

/-- `notif_enqueue`: a `TEXT` column holds up to 65535 bytes, and the insertion of more fails. -/
def notifEnqueue (queue : List Row) (uid : ℕ) (msg : Option ℕ) (payload : Bytes) : List Row :=
  if payload.length ≤ 65535 then queue ++ [⟨uid, msg, payload, false⟩] else queue

/-- The unsent rows of a user with their ids. -/
def unsentRows (queue : List Row) (uid : ℕ) : List (Row × ℕ) :=
  queue.zipIdx.filter fun p => p.1.uid = uid ∧ p.1.isSent = false

/-- `notif_flush_for_user`: a payload is cut to the field of the record. -/
def flushForUser (queue : List Row) (uid max : ℕ) : List NotifRecord :=
  ((unsentRows queue uid).take max).map fun p => ⟨p.2, p.1.msg, p.1.payload.take 4095⟩

/-- `notif_mark_sent`. -/
def markSent (queue : List Row) (id : ℕ) : List Row :=
  queue.modify id fun row => { row with isSent := true }

/-! ### Connections and messages -/

/-- Where the login on a connection is. -/
inductive Phase
  | idle
  /-- The slot has its user, whose other connections are to be replaced. -/
  | slot
  /-- The queue is to be read. -/
  | replaced
  | flushing (recs : List NotifRecord)
  /-- The record is sent, and its row is to be marked. -/
  | marking (r : NotifRecord) (recs : List NotifRecord)
  deriving DecidableEq, Repr

/-- A connection: the user of its last login, whether its slot still has that user, and whether what
is sent on it arrives. -/
structure Conn where
  uid : ℕ
  attached : Bool
  up : Bool
  phase : Phase
  deriving DecidableEq, Repr

/-- Where the handler of a message is after the insertion. -/
inductive Task
  | broadcasting (uids : List ℕ)
  | checking (uids : List ℕ)
  | enqueueing (uid : ℕ) (uids : List ℕ)
  deriving DecidableEq, Repr

/-- A stored message or edit event.  `live` are the members that were online when the broadcast came
to them; the code does not keep it. -/
structure Msg where
  sender : ℕ
  payload : Bytes
  live : List ℕ
  task : Task
  deriving DecidableEq, Repr

/-- An event that arrived on a connection of a user. -/
structure Receipt where
  uid : ℕ
  msg : Option ℕ
  payload : Bytes
  deriving DecidableEq, Repr

/-- One conversation with the connections and the queue of all users. -/
structure State where
  members : List ℕ
  conns : List Conn
  queue : List Row
  msgs : List Msg
  receipts : List Receipt
  deriving DecidableEq

/-- `clients_is_online`. -/
def isOnline (conns : List Conn) (uid : ℕ) : Bool := conns.any fun c => c.attached && c.uid = uid

/-- What arrives of `clients_send_to_uid`. -/
def sendToUid (conns : List Conn) (uid : ℕ) (msg : Option ℕ) (payload : Bytes) : List Receipt :=
  (conns.filter fun c => c.attached && c.uid = uid && c.up).map fun _ => ⟨uid, msg, payload⟩

/-- `clients_replace_other_sessions`. -/
def replaceOthers (conns : List Conn) (uid keep : ℕ) : List Conn :=
  conns.mapIdx fun j c => if j ≠ keep ∧ c.uid = uid then { c with attached := false } else c

/-- `conv_get_members`: the members are read in the order of the primary key. -/
def convGetMembers (members : List ℕ) (max : ℕ) : List ℕ := members.take max

/-! ### Statements -/

/-- What happens next. -/
inductive Event
  | connect
  /-- The password of a login is accepted, and the slot gets its user. -/
  | login (j uid : ℕ)
  /-- The next statement of the login on a connection. -/
  | conn (j : ℕ)
  /-- `clients_logout_user` or `clients_remove`. -/
  | leave (j : ℕ)
  /-- The connection goes down, which its thread does not know yet. -/
  | drop (j : ℕ)
  /-- A message or an edit event is stored, and its payload is built. -/
  | send (sender : ℕ) (payload : Bytes)
  /-- The next statement of the handler of a message. -/
  | message (i : ℕ)
  /-- Something else is queued for a user: an invitation, or a message of another conversation. -/
  | enqueue (uid : ℕ) (payload : Bytes)
  deriving DecidableEq

/-- The next statement of the login on connection `j`. -/
def connStep (s : State) (j : ℕ) (c : Conn) : State :=
  match c.phase with
  | .idle => s
  | .slot =>
      { s with conns := (replaceOthers s.conns c.uid j).set j { c with phase := .replaced } }
  | .replaced =>
      let recs := flushForUser s.queue c.uid 100
      { s with conns := s.conns.set j { c with phase := .flushing recs } }
  | .flushing [] => { s with conns := s.conns.set j { c with phase := .idle } }
  | .flushing (r :: recs) =>
      { s with
        conns := s.conns.set j { c with phase := .marking r recs }
        receipts := s.receipts ++ if c.up then [⟨c.uid, r.msg, r.payload⟩] else [] }
  | .marking r recs =>
      { s with
        conns := s.conns.set j { c with phase := .flushing recs }
        queue := markSent s.queue r.id }

/-- The next statement of the handler of message `i`. -/
def messageStep (s : State) (i : ℕ) (m : Msg) : State :=
  match m.task with
  | .broadcasting [] =>
      { s with msgs := s.msgs.set i { m with task := .checking (convGetMembers s.members 64) } }
  | .broadcasting (uid :: uids) =>
      let live := if isOnline s.conns uid then uid :: m.live else m.live
      { s with
        msgs := s.msgs.set i { m with live := live, task := .broadcasting uids }
        receipts := s.receipts ++ sendToUid s.conns uid (some i) m.payload }
  | .checking [] => s
  | .checking (uid :: uids) =>
      if uid = m.sender ∨ isOnline s.conns uid then
        { s with msgs := s.msgs.set i { m with task := .checking uids } }
      else { s with msgs := s.msgs.set i { m with task := .enqueueing uid uids } }
  | .enqueueing uid uids =>
      { s with
        msgs := s.msgs.set i { m with task := .checking uids }
        queue := notifEnqueue s.queue uid (some i) m.payload }

/-- One event.  A connection serves one request after another. -/
def step (s : State) : Event → State
  | .connect => { s with conns := s.conns ++ [⟨0, false, true, .idle⟩] }
  | .login j uid =>
      match s.conns[j]? with
      | some ⟨_, _, true, .idle⟩ => { s with conns := s.conns.set j ⟨uid, true, true, .slot⟩ }
      | _ => s
  | .conn j =>
      match s.conns[j]? with
      | some c => connStep s j c
      | none => s
  | .leave j =>
      match s.conns[j]? with
      | some ⟨uid, _, up, .idle⟩ => { s with conns := s.conns.set j ⟨uid, false, up, .idle⟩ }
      | _ => s
  | .drop j =>
      match s.conns[j]? with
      | some c => { s with conns := s.conns.set j { c with up := false } }
      | none => s
  | .send sender payload =>
      let task := .broadcasting (convGetMembers s.members 200)
      { s with msgs := s.msgs ++ [⟨sender, payload, [], task⟩] }
  | .message i =>
      match s.msgs[i]? with
      | some m => messageStep s i m
      | none => s
  | .enqueue uid payload => { s with queue := notifEnqueue s.queue uid none payload }

/-- A conversation in which nothing was sent yet. -/
def quiet (members : List ℕ) : State := ⟨members, [], [], [], []⟩

/-! ### What members receive -/

/-- What a user got of a message. -/
def received (receipts : List Receipt) (i u : ℕ) : List Receipt :=
  receipts.filter fun r => r.uid = u ∧ r.msg = some i

/-- The user has a connection whose login is complete. -/
def LoggedIn (s : State) (u : ℕ) : Prop :=
  ∃ c ∈ s.conns, c.uid = u ∧ c.attached = true ∧ c.phase = .idle

/-- The handler is through. -/
def Msg.Done (m : Msg) : Prop := m.task = .checking []

/-- Every member but the sender gets an event at most once and as it was broadcast, and has it when
the handler is through and the member is logged in. -/
def ExactlyOnce (s : State) : Prop :=
  ∀ i m, s.msgs[i]? = some m → ∀ u ∈ s.members, u ≠ m.sender →
    (received s.receipts i u = [] ∨ received s.receipts i u = [⟨u, some i, m.payload⟩]) ∧
      (m.Done → LoggedIn s u → received s.receipts i u = [⟨u, some i, m.payload⟩])

/-! ### Conditions -/

/-- The login is to send a record. -/
def Phase.sending : Phase → Bool
  | .flushing recs => recs ≠ []
  | .idle | .slot | .replaced | .marking _ _ => false

/-- The user that a handler is to send to. -/
def Task.target : Task → Option ℕ
  | .broadcasting uids => uids.head?
  | .checking _ | .enqueueing _ _ => none

/-- Connections stay up while they are sent to. -/
def StaysUp (s : State) : Event → Prop
  | .conn j => ∀ c ∈ s.conns[j]?, c.phase.sending = true → c.up = true
  | .message i => ∀ m ∈ s.msgs[i]?, ∀ uid ∈ m.task.target,
      ∀ c ∈ s.conns, c.attached = true → c.uid = uid → c.up = true
  | _ => True

/-- The login on the connection has read the queue. -/
def Phase.hasRead : Phase → Bool
  | .slot | .replaced => false
  | .idle | .flushing _ | .marking _ _ => true

/-- What a flush still has to send or to mark. -/
def Conn.todo (c : Conn) : List NotifRecord :=
  match c.phase with
  | .flushing recs => recs
  | .marking r recs => r :: recs
  | .idle | .slot | .replaced => []

/-- The condition on the statement of a login: what is unsent fits into one flush, and no other
flush for the user is under way. -/
def ConnStepOk (s : State) (j : ℕ) (c : Conn) : Prop :=
  c.phase = .replaced → (unsentRows s.queue c.uid).length ≤ 100 ∧
    ∀ c' ∈ s.conns.eraseIdx j, c'.uid = c.uid → c'.todo = []

/-- The condition on the statement of a handler. -/
def TaskStepOk (s : State) (m : Msg) : Task → Prop
  | .broadcasting [] | .checking [] => True
  | .broadcasting (uid :: _) =>
      uid ≠ m.sender →
        (s.conns.filter fun c => c.attached && c.uid = uid).length ≤ 1 ∧
          (isOnline s.conns uid = false → uid ∈ convGetMembers s.members 64)
  | .checking (uid :: _) => uid ≠ m.sender → (isOnline s.conns uid = true ↔ uid ∈ m.live)
  | .enqueueing uid _ =>
      m.payload.length ≤ 4095 ∧
        ∀ c ∈ s.conns, c.uid = uid → c.attached = true → c.phase.hasRead = false

/-- The condition on an event. -/
def StepOk (s : State) : Event → Prop
  | .send _ _ => s.members.length ≤ 200
  | .conn j => ∀ c ∈ s.conns[j]?, ConnStepOk s j c
  | .message i => ∀ m ∈ s.msgs[i]?, TaskStepOk s m m.task
  | _ => True

instance (s : State) : (e : Event) → Decidable (StaysUp s e)
  | .conn j => inferInstanceAs (Decidable (∀ c ∈ s.conns[j]?, _ → _))
  | .message i => inferInstanceAs (Decidable (∀ m ∈ s.msgs[i]?, ∀ uid ∈ m.task.target,
      ∀ c ∈ s.conns, _ → _ → _))
  | .connect | .login _ _ | .leave _ | .drop _ | .send _ _ | .enqueue _ _ => .isTrue trivial

instance (s : State) (m : Msg) : (task : Task) → Decidable (TaskStepOk s m task)
  | .broadcasting [] | .checking [] => .isTrue trivial
  | .broadcasting (_ :: _) => inferInstanceAs (Decidable (_ → _ ≤ _ ∧ (_ → _)))
  | .checking (_ :: _) => inferInstanceAs (Decidable (_ → (_ ↔ _)))
  | .enqueueing _ _ => inferInstanceAs (Decidable (_ ≤ _ ∧ ∀ c ∈ s.conns, _ → _ → _))

instance (s : State) (j : ℕ) (c : Conn) : Decidable (ConnStepOk s j c) :=
  inferInstanceAs (Decidable (_ → _ ≤ _ ∧ ∀ c' ∈ s.conns.eraseIdx j, _ → _))

instance (s : State) : (e : Event) → Decidable (StepOk s e)
  | .send _ _ => inferInstanceAs (Decidable (s.members.length ≤ 200))
  | .conn j => inferInstanceAs (Decidable (∀ c ∈ s.conns[j]?, ConnStepOk s j c))
  | .message i => inferInstanceAs (Decidable (∀ m ∈ s.msgs[i]?, TaskStepOk s m m.task))
  | .connect | .login _ _ | .leave _ | .drop _ | .enqueue _ _ => .isTrue trivial

/-! ### The queue under its statements -/

theorem getElem?_concat_iff {α : Type} {l : List α} {x y : α} {k : ℕ} :
    (l ++ [x])[k]? = some y ↔ l[k]? = some y ∨ k = l.length ∧ y = x := by
  rcases Nat.lt_trichotomy k l.length with hlt | rfl | hgt
  · rw [List.getElem?_append_left hlt]
    constructor
    · exact .inl
    · rintro (h | ⟨rfl, -⟩)
      · exact h
      · exact absurd hlt (Nat.lt_irrefl _)
  · rw [List.getElem?_concat_length, List.getElem?_eq_none (Nat.le_refl _)]
    simp only [Option.some.injEq, reduceCtorEq, false_or, true_and]
    exact eq_comm
  · rw [List.getElem?_eq_none (by simpa using hgt), List.getElem?_eq_none (Nat.le_of_lt hgt)]
    simp only [reduceCtorEq, false_or, false_iff, not_and]
    intro hk
    omega

theorem mem_unsentRows {queue : List Row} {uid k : ℕ} {row : Row} :
    (row, k) ∈ unsentRows queue uid ↔
      queue[k]? = some row ∧ row.uid = uid ∧ row.isSent = false := by
  unfold unsentRows
  rw [List.mem_filter, List.mem_zipIdx_iff_getElem?, decide_eq_true_eq]

/-- A flush that fits reads the unsent rows of its user. -/
theorem mem_flushForUser {queue : List Row} {uid max : ℕ}
    (hlen : (unsentRows queue uid).length ≤ max) {r : NotifRecord} :
    r ∈ flushForUser queue uid max ↔ ∃ row, queue[r.id]? = some row ∧ row.uid = uid ∧
      row.isSent = false ∧ r = ⟨r.id, row.msg, row.payload.take 4095⟩ := by
  unfold flushForUser
  rw [List.take_of_length_le hlen, List.mem_map]
  constructor
  · rintro ⟨⟨row, k⟩, hmem, rfl⟩
    obtain ⟨hrow, huid, hsent⟩ := mem_unsentRows.mp hmem
    exact ⟨row, hrow, huid, hsent, rfl⟩
  · rintro ⟨row, hrow, huid, hsent, hr⟩
    exact ⟨(row, r.id), mem_unsentRows.mpr ⟨hrow, huid, hsent⟩, hr.symm⟩

theorem nodup_flushForUser (queue : List Row) (uid max : ℕ) :
    ((flushForUser queue uid max).map NotifRecord.id).Nodup := by
  unfold flushForUser unsentRows
  rw [List.map_map]
  have hsub := ((List.take_sublist max _).trans
    (List.filter_sublist (p := fun p : Row × ℕ => decide (p.1.uid = uid ∧ p.1.isSent = false))
      (l := queue.zipIdx))).map Prod.snd
  refine hsub.nodup ?_
  rw [List.zipIdx_map_snd]
  exact List.nodup_range'

theorem getElem?_markSent (queue : List Row) (id k : ℕ) :
    (markSent queue id)[k]? =
      queue[k]?.map fun row => if k = id then { row with isSent := true } else row := by
  unfold markSent
  rw [List.getElem?_modify]
  by_cases hk : k = id
  · simp only [hk, if_true]
    rfl
  · simp only [if_neg hk, if_neg (Ne.symm hk)]
    rfl

theorem mem_set_iff {α : Type} {l : List α} {j : ℕ} {a : α} (hj : j < l.length) {x : α} :
    x ∈ l.set j a ↔ x = a ∨ x ∈ l.eraseIdx j := by
  rw [List.mem_iff_getElem?, List.mem_eraseIdx_iff_getElem?]
  constructor
  · rintro ⟨k, hk⟩
    rw [List.getElem?_set] at hk
    split at hk
    · exact .inl (Option.some.inj hk).symm
    · next hne => exact .inr ⟨k, Ne.symm hne, hk⟩
  · rintro (rfl | ⟨k, hne, hk⟩)
    · exact ⟨j, by rw [List.getElem?_set_self hj]⟩
    · exact ⟨k, by rw [List.getElem?_set_ne (Ne.symm hne), hk]⟩

/-- One element and the others. -/
theorem mem_iff_or_eraseIdx {α : Type} {l : List α} {j : ℕ} {a : α} (hj : l[j]? = some a) {x : α} :
    x ∈ l ↔ x = a ∨ x ∈ l.eraseIdx j := by
  obtain ⟨hlt, rfl⟩ := List.getElem?_eq_some_iff.mp hj
  rw [← mem_set_iff hlt, List.set_getElem_self]

/-! ### What a connection knows of the queue -/

/-- The row that is to be marked. -/
def Conn.marked (c : Conn) : Option ℕ :=
  match c.phase with
  | .marking r _ => some r.id
  | .idle | .slot | .replaced | .flushing _ => none

/-- The records of a flush are unsent rows of its user, and when a connection has read the queue, every
unsent message of its user is among them. -/
structure ConnOk (queue : List Row) (c : Conn) : Prop where
  rows : ∀ r ∈ c.todo, ∃ row, queue[r.id]? = some row ∧ row.uid = c.uid ∧ row.isSent = false ∧
    r = ⟨r.id, row.msg, row.payload.take 4095⟩
  ids : (c.todo.map NotifRecord.id).Nodup
  read : c.attached = true → c.phase.hasRead = true → ∀ k row, queue[k]? = some row →
    row.msg ≠ none → row.uid = c.uid → row.isSent = false → k ∈ c.todo.map NotifRecord.id

/-- Some connection is to mark the row. -/
def Marking (conns : List Conn) (k : ℕ) : Prop := ∃ c ∈ conns, c.marked = some k

/-- The row was sent on a connection. -/
def Reached (s : State) (k : ℕ) : Prop :=
  (∃ row, s.queue[k]? = some row ∧ row.isSent = true) ∨ Marking s.conns k

variable {queue : List Row} {c : Conn}

theorem marked_mem_todo {k : ℕ} (h : c.marked = some k) : k ∈ c.todo.map NotifRecord.id := by
  unfold Conn.marked at h
  unfold Conn.todo
  split at h
  · next r recs hphase =>
    rw [hphase]
    cases h
    exact List.mem_cons_self
  · cases h
  · cases h
  · cases h
  · cases h

/-- A connection that has nothing to send and has not read the queue. -/
theorem ConnOk.blank (queue : List Row) {c : Conn} (htodo : c.todo = [])
    (hread : c.attached = true → c.phase.hasRead = true → False) : ConnOk queue c := by
  refine ⟨?_, ?_, fun ha hr => (hread ha hr).elim⟩
  · rw [htodo]
    exact fun r hr => nomatch hr
  · rw [htodo]
    exact List.nodup_nil

/-- What is said of a connection only depends on its user and its records. -/
theorem ConnOk.congr (h : ConnOk queue c) {c' : Conn} (huid : c'.uid = c.uid)
    (htodo : c'.todo = c.todo)
    (hread : c'.attached = true → c'.phase.hasRead = true →
      c.attached = true ∧ c.phase.hasRead = true) : ConnOk queue c' := by
  refine ⟨?_, ?_, ?_⟩
  · rw [htodo, huid]
    exact h.rows
  · rw [htodo]
    exact h.ids
  · intro ha hr
    rw [htodo, huid]
    exact h.read (hread ha hr).1 (hread ha hr).2

/-- Another row of the queue. -/
theorem ConnOk.append (h : ConnOk queue c) {row : Row}
    (hrow : row.msg ≠ none → row.uid = c.uid → c.attached = true → c.phase.hasRead = false) :
    ConnOk (queue ++ [row]) c := by
  refine ⟨fun r hr => ?_, h.ids, fun ha hr k row' hk hmsg huid hsent => ?_⟩
  · obtain ⟨row', hrow', hrest⟩ := h.rows r hr
    exact ⟨row', getElem?_concat_iff.mpr (.inl hrow'), hrest⟩
  · rcases getElem?_concat_iff.mp hk with hk | ⟨-, rfl⟩
    · exact h.read ha hr k row' hk hmsg huid hsent
    · rw [hrow hmsg huid ha] at hr
      cases hr

/-- A row of another flush is marked. -/
theorem ConnOk.markSent (h : ConnOk queue c) {id : ℕ} (hid : id ∉ c.todo.map NotifRecord.id) :
    ConnOk (markSent queue id) c := by
  refine ⟨fun r hr => ?_, h.ids, fun ha hr k row hk hmsg huid hsent => ?_⟩
  · obtain ⟨row, hrow, hrest⟩ := h.rows r hr
    refine ⟨row, ?_, hrest⟩
    have hne : r.id ≠ id := fun heq => hid (heq ▸ List.mem_map_of_mem hr)
    rw [getElem?_markSent, hrow, Option.map_some, if_neg hne]
  · rw [getElem?_markSent] at hk
    obtain ⟨row₀, hrow₀, hmark⟩ := Option.map_eq_some_iff.mp hk
    split at hmark
    · subst hmark
      cases hsent
    · subst hmark
      exact h.read ha hr k row₀ hrow₀ hmsg huid hsent

/-- The flush marks the row that it has sent. -/
theorem ConnOk.marked (h : ConnOk queue c) {r : NotifRecord} {recs : List NotifRecord}
    (hphase : c.phase = .marking r recs) :
    ConnOk (Delivery.markSent queue r.id) { c with phase := .flushing recs } := by
  have htodo : c.todo = r :: recs := by
    unfold Conn.todo
    rw [hphase]
  have hids := h.ids
  rw [htodo, List.map_cons, List.nodup_cons] at hids
  refine ⟨fun r' hr' => ?_, hids.2, fun ha _ k row hk hmsg huid hsent => ?_⟩
  · obtain ⟨row, hrow, hrest⟩ := h.rows r' (htodo ▸ List.mem_cons_of_mem _ hr')
    refine ⟨row, ?_, hrest⟩
    have hne : r'.id ≠ r.id := fun heq => hids.1 (heq ▸ List.mem_map_of_mem hr')
    rw [getElem?_markSent, hrow, Option.map_some, if_neg hne]
  · rw [getElem?_markSent] at hk
    obtain ⟨row₀, hrow₀, hmark⟩ := Option.map_eq_some_iff.mp hk
    split at hmark
    · subst hmark
      cases hsent
    · next hne =>
      subst hmark
      have hread : c.phase.hasRead = true := by
        rw [hphase]
        rfl
      have hmem := h.read ha hread k row₀ hrow₀ hmsg huid hsent
      rw [htodo, List.map_cons, List.mem_cons] at hmem
      exact hmem.resolve_left hne

/-- A flush reads the queue. -/
theorem connOk_flush (queue : List Row) (c : Conn) (hlen : (unsentRows queue c.uid).length ≤ 100) :
    ConnOk queue { c with phase := .flushing (flushForUser queue c.uid 100) } := by
  refine ⟨fun r hr => ?_, nodup_flushForUser queue c.uid 100, fun _ _ k row hk _ huid hsent => ?_⟩
  · exact (mem_flushForUser hlen).mp hr
  · refine List.mem_map.mpr ⟨⟨k, row.msg, row.payload.take 4095⟩, ?_, rfl⟩
    exact (mem_flushForUser hlen).mpr ⟨row, hk, huid, hsent, rfl⟩

/-! ### What becomes of one message for one member -/

/-- The row is one of message `i` for `u`. -/
def RowOf (queue : List Row) (k i u : ℕ) (payload : Bytes) : Prop :=
  ∃ row, queue[k]? = some row ∧ row.uid = u ∧ row.msg = some i ∧ row.payload = payload

/-- The handler will still send the event to the member, or queue it. -/
def Task.Upcoming (members : List ℕ) (u : ℕ) : Task → Prop
  | .broadcasting uids => u ∈ uids ∨ u ∈ convGetMembers members 64
  | .checking uids => u ∈ uids
  | .enqueueing uid uids => u ∈ uid :: uids

/-- The broadcast to the member is over, and the handler is not about to queue the event for it. -/
def Task.Broadcast (u : ℕ) : Task → Prop
  | .broadcasting uids => u ∉ uids
  | .checking _ => True
  | .enqueueing uid _ => u ≠ uid

/-- The test of the member is over. -/
def Task.Passed (u : ℕ) : Task → Prop
  | .broadcasting _ => False
  | .checking uids => u ∉ uids
  | .enqueueing uid uids => u ∉ uid :: uids

/-- No user is listed twice. -/
def Task.Nodup : Task → Prop
  | .broadcasting uids | .checking uids => uids.Nodup
  | .enqueueing uid uids => (uid :: uids).Nodup

/-- What became of message `i` for member `u` up to now. -/
inductive Fate (s : State) (i : ℕ) (m : Msg) (u : ℕ) : Prop
  | upcoming (hgot : received s.receipts i u = []) (hrow : ∀ k p, ¬ RowOf s.queue k i u p)
      (hlive : u ∉ m.live) (htask : m.task.Upcoming s.members u)
  | live (hgot : received s.receipts i u = [⟨u, some i, m.payload⟩])
      (hrow : ∀ k p, ¬ RowOf s.queue k i u p) (hlive : u ∈ m.live) (htask : m.task.Broadcast u)
  | queued (k : ℕ) (hrow : ∀ k' p, RowOf s.queue k' i u p ↔ k' = k ∧ p = m.payload)
      (hlen : m.payload.length ≤ 4095) (htask : m.task.Passed u)
      (hgot : Reached s k → received s.receipts i u = [⟨u, some i, m.payload⟩])
      (hnot : ¬ Reached s k → received s.receipts i u = [])

/-- What became of a message depends on what its member received, on its rows and on whether these
were sent. -/
theorem Fate.congr {s s' : State} {i u : ℕ} {m : Msg} (h : Fate s i m u)
    (hmembers : s'.members = s.members)
    (hreceived : received s'.receipts i u = received s.receipts i u)
    (hrows : ∀ k p, RowOf s'.queue k i u p ↔ RowOf s.queue k i u p)
    (hreached : ∀ k, RowOf s.queue k i u m.payload → (Reached s' k ↔ Reached s k)) :
    Fate s' i m u := by
  cases h with
  | upcoming hgot hrow hlive htask =>
    refine .upcoming (hreceived.trans hgot) (fun k p => ?_) hlive (hmembers ▸ htask)
    rw [hrows]
    exact hrow k p
  | live hgot hrow hlive htask =>
    refine .live (hreceived.trans hgot) (fun k p => ?_) hlive htask
    rw [hrows]
    exact hrow k p
  | queued k hrow hlen htask hgot hnot =>
    have hk : Reached s' k ↔ Reached s k := hreached k ((hrow k m.payload).mpr ⟨rfl, rfl⟩)
    refine .queued k (fun k' p => ?_) hlen htask (fun hr => ?_) fun hr => ?_
    · rw [hrows]
      exact hrow k' p
    · rw [hreceived]
      exact hgot (hk.mp hr)
    · rw [hreceived]
      exact hnot fun hr' => hr (hk.mpr hr')

/-- The invariant. -/
structure Inv (s : State) : Prop where
  members : s.members.Nodup
  tasks : ∀ m ∈ s.msgs, m.task.Nodup
  fate : ∀ i m, s.msgs[i]? = some m → ∀ u ∈ s.members, u ≠ m.sender → Fate s i m u
  conns : ∀ c ∈ s.conns, ConnOk s.queue c
  alone : ∀ (j k : ℕ) (c c' : Conn), s.conns[j]? = some c → s.conns[k]? = some c' → j ≠ k → c.uid = c'.uid →
    c.todo = [] ∨ c'.todo = []
  rows : ∀ row ∈ s.queue, ∀ i ∈ row.msg, i < s.msgs.length
  receipts : ∀ r ∈ s.receipts, ∀ i ∈ r.msg, i < s.msgs.length

/-- What the invariant says to a member. -/
theorem Inv.exactlyOnce {s : State} (h : Inv s) : ExactlyOnce s := by
  intro i m hm u hu hne
  cases h.fate i m hm u hu hne with
  | upcoming hgot hrow hlive htask =>
    refine ⟨.inl hgot, fun hdone _ => ?_⟩
    rw [hdone] at htask
    exact absurd htask List.not_mem_nil
  | live hgot hrow hlive htask => exact ⟨.inr hgot, fun _ _ => hgot⟩
  | queued k hrow hlen htask hgot hnot =>
    by_cases hreached : Reached s k
    · exact ⟨.inr (hgot hreached), fun _ _ => hgot hreached⟩
    · refine ⟨.inl (hnot hreached), ?_⟩
      -- a complete login leaves nothing unsent
      rintro - ⟨c, hc, huid, hattached, hphase⟩
      obtain ⟨row, hk, hrowuid, hrowmsg, -⟩ := (hrow k m.payload).mpr ⟨rfl, rfl⟩
      have hsent : row.isSent = false := by
        by_contra hsent
        exact hreached (.inl ⟨row, hk, by simpa using hsent⟩)
      have hmem := (h.conns c hc).read hattached (by rw [hphase]; rfl) k row hk
        (by rw [hrowmsg]; exact nofun) (hrowuid.trans huid.symm) hsent
      unfold Conn.todo at hmem
      rw [hphase] at hmem
      exact absurd hmem List.not_mem_nil

/-! ### Steps that only change connections -/

variable {s : State}

/-- The condition of the invariant on pairs of connections. -/
theorem Inv.alone_eraseIdx (h : Inv s) {j : ℕ} (hc : s.conns[j]? = some c) (hne : c.todo ≠ []) :
    ∀ c' ∈ s.conns.eraseIdx j, c'.uid = c.uid → c'.todo = [] := by
  intro c' hc' huid
  obtain ⟨k, hkj, hk⟩ := List.mem_eraseIdx_iff_getElem?.mp hc'
  exact (h.alone j k c c' hc hk (Ne.symm hkj) huid.symm).resolve_left hne

theorem Inv.ofConns (h : Inv s) {conns : List Conn} (hok : ∀ c ∈ conns, ConnOk s.queue c)
    (halone : ∀ (j k : ℕ) (c c' : Conn), conns[j]? = some c → conns[k]? = some c' → j ≠ k →
      c.uid = c'.uid → c.todo = [] ∨ c'.todo = [])
    (hmarking : ∀ k, Marking conns k ↔ Marking s.conns k) : Inv { s with conns := conns } := by
  refine ⟨h.members, h.tasks, fun i m hm u hu hne => ?_, hok, halone, h.rows, h.receipts⟩
  refine (h.fate i m hm u hu hne).congr rfl rfl (fun _ _ => Iff.rfl) fun k _ => ?_
  unfold Reached
  rw [hmarking]

/-- Only one connection of a user sends what is queued, also after connection `j` has changed. -/
theorem Inv.alone_set (h : Inv s) {j : ℕ} {c' : Conn} 
    (halone : c'.todo = [] ∨ ∀ c₂ ∈ s.conns.eraseIdx j, c₂.uid = c'.uid → c₂.todo = []) :
    ∀ (k l : ℕ) (a b : Conn), (s.conns.set j c')[k]? = some a → (s.conns.set j c')[l]? = some b →
      k ≠ l → a.uid = b.uid → a.todo = [] ∨ b.todo = [] := by
  have hother : ∀ {k : ℕ} {b : Conn}, j ≠ k → s.conns[k]? = some b → b.uid = c'.uid →
      c'.todo = [] ∨ b.todo = [] := fun hne hb huid =>
    halone.imp_right fun hal => hal _ (List.mem_eraseIdx_iff_getElem?.mpr ⟨_, hne.symm, hb⟩) huid
  intro k l a b ha hb hne huid
  rw [List.getElem?_set] at ha hb
  split at ha
  · next hk =>
    split at ha
    · obtain rfl := Option.some.inj ha
      rw [if_neg (by omega)] at hb
      exact hother (by omega) hb huid.symm
    · cases ha
  · next hk =>
    split at hb
    · split at hb
      · obtain rfl := Option.some.inj hb
        exact (hother hk ha huid).symm
      · cases hb
    · exact h.alone k l a b ha hb hne huid

theorem marking_set {conns : List Conn} {j : ℕ} (hc : conns[j]? = some c) (c' : Conn) (k : ℕ) :
    Marking (conns.set j c') k ↔
      c'.marked = some k ∨ ∃ c₂ ∈ conns.eraseIdx j, c₂.marked = some k := by
  unfold Marking
  obtain ⟨hlt, -⟩ := List.getElem?_eq_some_iff.mp hc
  simp only [mem_set_iff hlt, or_and_right, exists_or, exists_eq_left]

theorem marking_iff {conns : List Conn} {j : ℕ} (hc : conns[j]? = some c) (k : ℕ) :
    Marking conns k ↔ c.marked = some k ∨ ∃ c₂ ∈ conns.eraseIdx j, c₂.marked = some k := by
  unfold Marking
  simp only [mem_iff_or_eraseIdx hc, or_and_right, exists_or, exists_eq_left]

theorem Inv.connOk_set (h : Inv s) {j : ℕ} (hc : s.conns[j]? = some c) {c' : Conn}
    (hok : ConnOk s.queue c') : ∀ c₂ ∈ s.conns.set j c', ConnOk s.queue c₂ := by
  intro c₂ hc₂
  rcases (mem_set_iff (List.getElem?_eq_some_iff.mp hc).1).mp hc₂ with rfl | hc₂
  · exact hok
  · exact h.conns c₂ (List.mem_of_mem_eraseIdx hc₂)

/-- One connection changes, and sends and marks nothing. -/
theorem Inv.setConn (h : Inv s) {j : ℕ} (hc : s.conns[j]? = some c) {c' : Conn}
    (hok : ConnOk s.queue c')
    (halone : c'.todo = [] ∨ ∀ c₂ ∈ s.conns.eraseIdx j, c₂.uid = c'.uid → c₂.todo = [])
    (hmarked : c'.marked = c.marked) : Inv { s with conns := s.conns.set j c' } := by
  refine h.ofConns (h.connOk_set hc hok) (h.alone_set halone) fun k => ?_
  rw [marking_set hc, marking_iff hc, hmarked]

/-- The other connections of a user are detached. -/
theorem Inv.replaceOthers (h : Inv s) (uid keep : ℕ) :
    Inv { s with conns := replaceOthers s.conns uid keep } := by
  have hget : ∀ {j : ℕ} {c' : Conn}, (Delivery.replaceOthers s.conns uid keep)[j]? = some c' →
      ∃ c, s.conns[j]? = some c ∧ c'.uid = c.uid ∧ c'.todo = c.todo ∧ c'.marked = c.marked ∧
        c'.phase = c.phase ∧ (c'.attached = true → c.attached = true) := by
    intro j c' hc'
    unfold Delivery.replaceOthers at hc'
    rw [List.getElem?_mapIdx] at hc'
    obtain ⟨c, hc, rfl⟩ := Option.map_eq_some_iff.mp hc'
    refine ⟨c, hc, ?_⟩
    split
    · exact ⟨rfl, rfl, rfl, rfl, nofun⟩
    · exact ⟨rfl, rfl, rfl, rfl, fun h => h⟩
  refine h.ofConns (fun c' hc' => ?_) (fun j k a b ha hb hne huid => ?_) fun k => ?_
  · obtain ⟨j, hj⟩ := List.mem_iff_getElem?.mp hc'
    obtain ⟨c, hc, huid, htodo, -, hphase, hattached⟩ := hget hj
    exact (h.conns c (List.mem_of_getElem? hc)).congr huid htodo fun ha hr =>
      ⟨hattached ha, hphase ▸ hr⟩
  · obtain ⟨a', ha', hauid, hatodo, -⟩ := hget ha
    obtain ⟨b', hb', hbuid, hbtodo, -⟩ := hget hb
    rw [hatodo, hbtodo]
    exact h.alone j k a' b' ha' hb' hne (by rw [← hauid, ← hbuid, huid])
  · constructor
    · rintro ⟨c', hc', hmarked⟩
      obtain ⟨j, hj⟩ := List.mem_iff_getElem?.mp hc'
      obtain ⟨c, hc, -, -, hsame, -⟩ := hget hj
      exact ⟨c, List.mem_of_getElem? hc, hsame ▸ hmarked⟩
    · rintro ⟨c, hc, hmarked⟩
      obtain ⟨j, hj⟩ := List.mem_iff_getElem?.mp hc
      obtain ⟨c', hj'⟩ : ∃ c', (Delivery.replaceOthers s.conns uid keep)[j]? = some c' := by
        unfold Delivery.replaceOthers
        rw [List.getElem?_mapIdx, hj]
        exact ⟨_, rfl⟩
      obtain ⟨c₀, hc₀, -, -, hsame, -⟩ := hget hj'
      obtain rfl := Option.some.inj (hj.symm.trans hc₀)
      exact ⟨_, List.mem_of_getElem? hj', hsame.trans hmarked⟩

/-! ### What is received -/

theorem received_append (l l' : List Receipt) (i u : ℕ) :
    received (l ++ l') i u = received l i u ++ received l' i u :=
  List.filter_append ..

theorem received_eq_nil {l : List Receipt} {i u : ℕ} (h : ∀ r ∈ l, ¬ (r.uid = u ∧ r.msg = some i)) :
    received l i u = [] :=
  List.filter_eq_nil_iff.mpr fun r hr => by simpa using h r hr

/-- Receipts of another user or message. -/
theorem received_append_of_ne {l l' : List Receipt} {i u : ℕ}
    (h : ∀ r ∈ l', ¬ (r.uid = u ∧ r.msg = some i)) :
    received (l ++ l') i u = received l i u := by
  rw [received_append, received_eq_nil h, List.append_nil]

theorem mem_sendToUid {conns : List Conn} {uid : ℕ} {msg : Option ℕ} {payload : Bytes} {r : Receipt}
    (h : r ∈ sendToUid conns uid msg payload) : r = ⟨uid, msg, payload⟩ := by
  obtain ⟨_, -, rfl⟩ := List.mem_map.mp h
  rfl

theorem isOnline_iff {conns : List Conn} {uid : ℕ} :
    isOnline conns uid = true ↔ ∃ c ∈ conns, c.attached = true ∧ c.uid = uid := by
  unfold isOnline
  simp only [List.any_eq_true, Bool.and_eq_true, decide_eq_true_eq]

/-- The event arrives once when the user has one connection. -/
theorem sendToUid_online {conns : List Conn} {uid : ℕ} {msg : Option ℕ} {payload : Bytes}
    (hone : (conns.filter fun c => c.attached && c.uid = uid).length ≤ 1)
    (hup : ∀ c ∈ conns, c.attached = true → c.uid = uid → c.up = true)
    (honline : isOnline conns uid = true) :
    sendToUid conns uid msg payload = [⟨uid, msg, payload⟩] := by
  have hsame : (conns.filter fun c => c.attached && c.uid = uid && c.up) =
      conns.filter fun c => c.attached && c.uid = uid := by
    refine List.filter_congr fun c hc => ?_
    by_cases h : (c.attached && decide (c.uid = uid)) = true
    · have h' := h
      rw [Bool.and_eq_true, decide_eq_true_eq] at h'
      rw [h, hup c hc h'.1 h'.2]
      rfl
    · rw [Bool.not_eq_true] at h
      rw [h]
      rfl
  obtain ⟨c, hc, hattached, huid⟩ := isOnline_iff.mp honline
  have hmem : c ∈ conns.filter fun c => c.attached && c.uid = uid := by
    rw [List.mem_filter]
    simp [hc, hattached, huid]
  unfold sendToUid
  rw [hsame]
  obtain ⟨c', hc'⟩ := List.length_eq_one_iff.mp
    (Nat.le_antisymm hone (List.length_pos_of_mem hmem))
  rw [hc']
  rfl

theorem sendToUid_offline {conns : List Conn} {uid : ℕ} {msg : Option ℕ} {payload : Bytes}
    (hoffline : isOnline conns uid = false) : sendToUid conns uid msg payload = [] := by
  unfold sendToUid
  rw [List.map_eq_nil_iff, List.filter_eq_nil_iff]
  intro c hc hsend
  simp only [Bool.and_eq_true, decide_eq_true_eq] at hsend
  have honline : isOnline conns uid = true := isOnline_iff.mpr ⟨c, hc, hsend.1.1, hsend.1.2⟩
  rw [hoffline] at honline
  cases honline

/-! ### A flush -/

theorem todo_flushing {recs : List NotifRecord} (h : c.phase = .flushing recs) : c.todo = recs := by
  unfold Conn.todo
  rw [h]

theorem marked_flushing {recs : List NotifRecord} (h : c.phase = .flushing recs) :
    c.marked = none := by
  unfold Conn.marked
  rw [h]

/-- A record that is to be sent was not sent before. -/
theorem Inv.not_reached (h : Inv s) {j : ℕ} (hc : s.conns[j]? = some c) {r : NotifRecord}
    {recs : List NotifRecord} (hphase : c.phase = .flushing (r :: recs)) : ¬ Reached s r.id := by
  have htodo := todo_flushing hphase
  have hmem := List.mem_of_getElem? hc
  obtain ⟨row, hrow, huid, hsent, -⟩ := (h.conns c hmem).rows r (htodo ▸ List.mem_cons_self)
  rintro (⟨row', hrow', hsent'⟩ | hmarking)
  · obtain rfl := Option.some.inj (hrow.symm.trans hrow')
    rw [hsent] at hsent'
    cases hsent'
  · rcases (marking_iff hc _).mp hmarking with hmarked | ⟨c', hc', hmarked⟩
    · rw [marked_flushing hphase] at hmarked
      cases hmarked
    · -- the other connection would be of the same user
      obtain ⟨r', hr', hid⟩ := List.mem_map.mp (marked_mem_todo hmarked)
      obtain ⟨row', hrow', huid', -⟩ :=
        (h.conns c' (List.mem_of_mem_eraseIdx hc')).rows r' hr'
      rw [hid, hrow] at hrow'
      obtain rfl := Option.some.inj hrow'
      have hnil := h.alone_eraseIdx hc (by rw [htodo]; exact List.cons_ne_nil _ _) c' hc'
        (huid'.symm.trans huid)
      rw [hnil] at hr'
      cases hr'

/-- The flush sends a record. -/
theorem Inv.flushSend (h : Inv s) {j : ℕ} (hc : s.conns[j]? = some c) {r : NotifRecord}
    {recs : List NotifRecord} (hphase : c.phase = .flushing (r :: recs)) :
    Inv { s with
      conns := s.conns.set j { c with phase := .marking r recs }
      receipts := s.receipts ++ [⟨c.uid, r.msg, r.payload⟩] } := by
  have htodo := todo_flushing hphase
  have hconn := h.conns c (List.mem_of_getElem? hc)
  obtain ⟨row, hrow, huid, hsent, hr⟩ := hconn.rows r (htodo ▸ List.mem_cons_self)
  have hok : ConnOk s.queue { c with phase := .marking r recs } :=
    hconn.congr rfl htodo.symm fun ha _ => ⟨ha, by rw [hphase]; rfl⟩
  have hnot := h.not_reached hc hphase
  have hothers := h.alone_eraseIdx hc (by rw [htodo]; exact List.cons_ne_nil _ _)
  have hmsg : r.msg = row.msg := by rw [hr]
  have hpayload : r.payload = row.payload.take 4095 := by rw [hr]
  refine ⟨h.members, h.tasks, fun i m hm u hu hne => ?_, h.connOk_set hc hok,
    h.alone_set (.inr hothers), h.rows, fun r' hr' => ?_⟩
  · have hreached : ∀ k, Reached { s with
        conns := s.conns.set j { c with phase := .marking r recs }
        receipts := s.receipts ++ [⟨c.uid, r.msg, r.payload⟩] } k ↔ Reached s k ∨ k = r.id := by
      intro k
      unfold Reached
      have hmarked : Conn.marked { c with phase := .marking r recs } = some r.id := rfl
      rw [marking_set hc, marking_iff hc, marked_flushing hphase, hmarked, Option.some.injEq,
        eq_comm (a := r.id)]
      simp only [reduceCtorEq, false_or]
      exact (or_congr_right or_comm).trans or_assoc.symm
    by_cases hown : c.uid = u ∧ r.msg = some i
    · have hrowOf : RowOf s.queue r.id i u row.payload :=
        ⟨row, hrow, huid.trans hown.1, hmsg.symm.trans hown.2, rfl⟩
      cases h.fate i m hm u hu hne with
      | upcoming hgot hrows hlive htask => exact absurd hrowOf (hrows _ _)
      | live hgot hrows hlive htask => exact absurd hrowOf (hrows _ _)
      | queued k hrows hlen htask hgot hnone =>
        obtain ⟨rfl, hsame⟩ := (hrows _ _).mp hrowOf
        refine .queued r.id hrows hlen htask (fun _ => ?_) fun hr' => ?_
        · rw [hsame, List.take_of_length_le hlen] at hpayload
          rw [received_append, hnone hnot]
          unfold received
          rw [List.filter_singleton, hown.1, hown.2, hpayload]
          simp
        · exact absurd ((hreached _).mpr (.inr rfl)) hr'
    · refine (h.fate i m hm u hu hne).congr rfl ?_ (fun _ _ => Iff.rfl) fun k hk => ?_
      · refine received_append_of_ne fun r' hr' => ?_
        obtain rfl := List.mem_singleton.mp hr'
        exact hown
      · rw [hreached]
        refine or_iff_left ?_
        rintro rfl
        obtain ⟨row', hrow', huid', hmsg', -⟩ := hk
        obtain rfl := Option.some.inj (hrow.symm.trans hrow')
        exact hown ⟨huid.symm.trans huid', hmsg.trans hmsg'⟩
  · rcases List.mem_append.mp hr' with hr' | hr'
    · exact h.receipts r' hr'
    · obtain rfl := List.mem_singleton.mp hr'
      rw [hmsg]
      exact h.rows row (List.mem_of_getElem? hrow)

theorem rowOf_markSent {id k i u : ℕ} {p : Bytes} :
    RowOf (markSent queue id) k i u p ↔ RowOf queue k i u p := by
  unfold RowOf
  rw [getElem?_markSent]
  constructor
  · rintro ⟨row, hrow, hrest⟩
    obtain ⟨row₀, hrow₀, rfl⟩ := Option.map_eq_some_iff.mp hrow
    refine ⟨row₀, hrow₀, ?_⟩
    split at hrest <;> exact hrest
  · rintro ⟨row, hrow, hrest⟩
    rw [hrow]
    refine ⟨_, rfl, ?_⟩
    split <;> exact hrest

/-- The flush marks the row of the record that it has sent. -/
theorem Inv.flushMark (h : Inv s) {j : ℕ} (hc : s.conns[j]? = some c) {r : NotifRecord}
    {recs : List NotifRecord} (hphase : c.phase = .marking r recs) :
    Inv { s with
      conns := s.conns.set j { c with phase := .flushing recs }
      queue := markSent s.queue r.id } := by
  have htodo : c.todo = r :: recs := by
    unfold Conn.todo
    rw [hphase]
  have hmarked : c.marked = some r.id := by
    unfold Conn.marked
    rw [hphase]
  have hothers := h.alone_eraseIdx hc (by rw [htodo]; exact List.cons_ne_nil _ _)
  have hconn := h.conns c (List.mem_of_getElem? hc)
  obtain ⟨row, hrow, huid, hsent, hr⟩ := hconn.rows r (htodo ▸ List.mem_cons_self)
  refine ⟨h.members, h.tasks, fun i m hm u hu hne => ?_, fun c' hc' => ?_,
    h.alone_set (.inr hothers), fun row' hrow' => ?_, h.receipts⟩
  · refine (h.fate i m hm u hu hne).congr rfl rfl (fun k p => rowOf_markSent) fun k _ => ?_
    have hmarked' : Conn.marked { c with phase := .flushing recs } = none := rfl
    unfold Reached
    rw [marking_set hc, marking_iff hc, hmarked, hmarked', getElem?_markSent]
    simp only [reduceCtorEq, false_or, Option.some.injEq]
    constructor
    · rintro (⟨row', hrow', hsent'⟩ | hother)
      · obtain ⟨row₀, hrow₀, hmark⟩ := Option.map_eq_some_iff.mp hrow'
        by_cases hk : k = r.id
        · exact .inr (.inl hk.symm)
        · rw [if_neg hk] at hmark
          exact .inl ⟨row₀, hrow₀, hmark ▸ hsent'⟩
      · exact .inr (.inr hother)
    · rintro (⟨row', hrow', hsent'⟩ | rfl | hother)
      · refine .inl ⟨_, by rw [hrow']; rfl, ?_⟩
        split
        · rfl
        · exact hsent'
      · refine .inl ⟨_, by rw [hrow]; rfl, ?_⟩
        simp only [if_true]
      · exact .inr hother
  · rcases (mem_set_iff (List.getElem?_eq_some_iff.mp hc).1).mp hc' with rfl | hc'
    · exact hconn.marked hphase
    · refine (h.conns c' (List.mem_of_mem_eraseIdx hc')).markSent fun hid => ?_
      obtain ⟨r', hr', hid⟩ := List.mem_map.mp hid
      obtain ⟨row', hrow', huid', -⟩ :=
        (h.conns c' (List.mem_of_mem_eraseIdx hc')).rows r' hr'
      rw [hid, hrow] at hrow'
      obtain rfl := Option.some.inj hrow'
      rw [hothers c' hc' (huid'.symm.trans huid)] at hr'
      cases hr'
  · obtain ⟨k, hk⟩ := List.mem_iff_getElem?.mp hrow'
    rw [getElem?_markSent] at hk
    obtain ⟨row₀, hrow₀, rfl⟩ := Option.map_eq_some_iff.mp hk
    have hlt := h.rows row₀ (List.mem_of_getElem? hrow₀)
    split <;> exact hlt

/-! ### Messages -/

/-- What becomes of a message is not a matter of the other messages. -/
theorem Fate.msgs {i u : ℕ} {m : Msg} (h : Fate s i m u) (msgs : List Msg) :
    Fate { s with msgs := msgs } i m u :=
  h.congr rfl rfl (fun _ _ => Iff.rfl) fun _ _ => Iff.rfl

/-- The handler moves on. -/
theorem Fate.setTask {i u : ℕ} {m : Msg} (h : Fate s i m u) {task : Task}
    (hupcoming : u ∉ m.live → m.task.Upcoming s.members u → task.Upcoming s.members u)
    (hbroadcast : u ∈ m.live → m.task.Broadcast u → task.Broadcast u)
    (hpassed : m.task.Passed u → task.Passed u) : Fate s i { m with task := task } u := by
  cases h with
  | upcoming hgot hrow hlive htask => exact .upcoming hgot hrow hlive (hupcoming hlive htask)
  | live hgot hrow hlive htask => exact .live hgot hrow hlive (hbroadcast hlive htask)
  | queued k hrow hlen htask hgot hnot => exact .queued k hrow hlen (hpassed htask) hgot hnot

theorem rowOf_concat {row : Row} {k i u : ℕ} {p : Bytes} :
    RowOf (queue ++ [row]) k i u p ↔ RowOf queue k i u p ∨
      k = queue.length ∧ row.uid = u ∧ row.msg = some i ∧ row.payload = p := by
  unfold RowOf
  simp only [getElem?_concat_iff, or_and_right, exists_or]
  refine or_congr_right ?_
  constructor
  · rintro ⟨_, ⟨hk, rfl⟩, hrest⟩
    exact ⟨hk, hrest⟩
  · rintro ⟨hk, hrest⟩
    exact ⟨row, ⟨hk, rfl⟩, hrest⟩

theorem RowOf.lt {k i u : ℕ} {p : Bytes} (h : RowOf queue k i u p) : k < queue.length := by
  obtain ⟨row, hk, -⟩ := h
  exact (List.getElem?_eq_some_iff.mp hk).1

/-- A new row does not tell whether an old one was sent. -/
theorem reached_concat {row : Row} {k : ℕ} (hk : k < s.queue.length) :
    Reached { s with queue := s.queue ++ [row] } k ↔ Reached s k := by
  unfold Reached
  refine or_congr_left ?_
  simp only [getElem?_concat_iff]
  constructor
  · rintro ⟨row', hrow' | ⟨rfl, -⟩, hsent⟩
    · exact ⟨row', hrow', hsent⟩
    · exact absurd hk (Nat.lt_irrefl _)
  · rintro ⟨row', hrow', hsent⟩
    exact ⟨row', .inl hrow', hsent⟩

/-- The row of another user or message. -/
theorem Fate.append {i u : ℕ} {m : Msg} (h : Fate s i m u) {row : Row}
    (hrow : ¬ (row.uid = u ∧ row.msg = some i)) :
    Fate { s with queue := s.queue ++ [row] } i m u := by
  refine h.congr rfl rfl (fun k p => ?_) fun k hk => reached_concat hk.lt
  rw [rowOf_concat, or_iff_left]
  rintro ⟨-, huid, hmsg, -⟩
  exact hrow ⟨huid, hmsg⟩

/-- A row that is not written yet was not sent. -/
theorem Inv.not_reached_length (h : Inv s) {row : Row} (hsent : row.isSent = false) :
    ¬ Reached { s with queue := s.queue ++ [row] } s.queue.length := by
  rintro (⟨row', hrow', hsent'⟩ | ⟨c, hc, hmarked⟩)
  · rcases getElem?_concat_iff.mp hrow' with hrow' | ⟨-, rfl⟩
    · rw [List.getElem?_eq_none (Nat.le_refl _)] at hrow'
      cases hrow'
    · rw [hsent] at hsent'
      cases hsent'
  · obtain ⟨r, hr, hid⟩ := List.mem_map.mp (marked_mem_todo hmarked)
    obtain ⟨row', hrow', -⟩ := (h.conns c hc).rows r hr
    rw [hid, List.getElem?_eq_none (Nat.le_refl _)] at hrow'
    cases hrow'

/-- Something that is no message is queued. -/
theorem Inv.enqueueOther (h : Inv s) (uid : ℕ) (payload : Bytes) :
    Inv { s with queue := notifEnqueue s.queue uid none payload } := by
  unfold notifEnqueue
  split
  · refine ⟨h.members, h.tasks, fun i m hm u hu hne => ?_, fun c hc => ?_, h.alone,
      fun row hrow => ?_, h.receipts⟩
    · exact (h.fate i m hm u hu hne).append fun hrow => nomatch hrow.2
    · exact (h.conns c hc).append fun hmsg => absurd rfl hmsg
    · rcases List.mem_append.mp hrow with hrow | hrow
      · exact h.rows row hrow
      · obtain rfl := List.mem_singleton.mp hrow
        exact fun _ hi => nomatch hi
  · exact h

/-- A statement of the handler of message `i`. -/
theorem Inv.setMsg (h : Inv s) {i : ℕ} {m : Msg} (hm : s.msgs[i]? = some m) (m' : Msg)
    (queue : List Row) (receipts : List Receipt) (hnodup : m'.task.Nodup)
    (hsender : m'.sender = m.sender) (hconns : ∀ c ∈ s.conns, ConnOk queue c)
    (hrows : ∀ row ∈ queue, row ∈ s.queue ∨ row.msg = some i)
    (hreceipts : ∀ r ∈ receipts, r ∈ s.receipts ∨ r.msg = some i)
    (hother : ∀ (i' u : ℕ) (m₂ : Msg), i' ≠ i → Fate s i' m₂ u →
      Fate { s with queue := queue, receipts := receipts } i' m₂ u)
    (hown : ∀ u ∈ s.members, u ≠ m.sender → Fate s i m u →
      Fate { s with queue := queue, receipts := receipts } i m' u) :
    Inv { s with msgs := s.msgs.set i m', queue := queue, receipts := receipts } := by
  have hlt := (List.getElem?_eq_some_iff.mp hm).1
  refine ⟨h.members, fun m₂ hm₂ => ?_, fun i' m₂ hm₂ u hu hne => ?_, hconns, h.alone,
    fun row hrow j hj => ?_, fun r hr j hj => ?_⟩
  · rcases List.mem_or_eq_of_mem_set hm₂ with hm₂ | rfl
    · exact h.tasks m₂ hm₂
    · exact hnodup
  · rw [List.getElem?_set] at hm₂
    split at hm₂
    · next heq =>
      subst heq
      obtain rfl := Option.some.inj hm₂
      rw [hsender] at hne
      exact (hown u hu hne (h.fate _ m hm u hu hne)).msgs _
    · next hne' => exact (hother i' u m₂ (Ne.symm hne') (h.fate i' m₂ hm₂ u hu hne)).msgs _
  · rw [List.length_set]
    rcases hrows row hrow with hrow | hmsg
    · exact h.rows row hrow j hj
    · rw [hmsg] at hj
      obtain rfl := Option.some.inj hj
      exact hlt
  · rw [List.length_set]
    rcases hreceipts r hr with hr | hmsg
    · exact h.receipts r hr j hj
    · rw [hmsg] at hj
      obtain rfl := Option.some.inj hj
      exact hlt

/-- The handler moves on, and sends and queues nothing. -/
theorem Inv.setTask (h : Inv s) {i : ℕ} {m : Msg} (hm : s.msgs[i]? = some m) {task : Task}
    (hnodup : task.Nodup)
    (hfate : ∀ u ∈ s.members, u ≠ m.sender →
      (u ∉ m.live → m.task.Upcoming s.members u → task.Upcoming s.members u) ∧
      (u ∈ m.live → m.task.Broadcast u → task.Broadcast u) ∧
      (m.task.Passed u → task.Passed u)) :
    Inv { s with msgs := s.msgs.set i { m with task := task } } := by
  refine h.setMsg hm { m with task := task } s.queue s.receipts hnodup rfl h.conns
    (fun row hrow => .inl hrow) (fun r hr => .inl hr) (fun _ _ _ _ hf => hf) ?_
  intro u hu hne hf
  obtain ⟨hupcoming, hbroadcast, hpassed⟩ := hfate u hu hne
  exact hf.setTask hupcoming hbroadcast hpassed

/-- **The broadcast comes to a member.** -/
theorem Inv.broadcast (h : Inv s) {i : ℕ} {m : Msg} (hm : s.msgs[i]? = some m) {uid : ℕ}
    {uids : List ℕ} (htask : m.task = .broadcasting (uid :: uids))
    (hup : ∀ c ∈ s.conns, c.attached = true → c.uid = uid → c.up = true)
    (hok : uid ≠ m.sender →
      (s.conns.filter fun c => c.attached && c.uid = uid).length ≤ 1 ∧
        (isOnline s.conns uid = false → uid ∈ convGetMembers s.members 64)) :
    Inv { s with
      msgs := s.msgs.set i { m with
        live := if isOnline s.conns uid then uid :: m.live else m.live
        task := .broadcasting uids }
      receipts := s.receipts ++ sendToUid s.conns uid (some i) m.payload } := by
  have hnodup := h.tasks m (List.mem_of_getElem? hm)
  rw [htask] at hnodup
  obtain ⟨hnew, hnodup⟩ := List.nodup_cons.mp hnodup
  have hsent : ∀ r ∈ sendToUid s.conns uid (some i) m.payload, r = ⟨uid, some i, m.payload⟩ :=
    fun r hr => mem_sendToUid hr
  have hothers : ∀ {i' u : ℕ} {m₂ : Msg}, ¬ (uid = u ∧ i = i') → Fate s i' m₂ u →
      Fate { s with receipts := s.receipts ++ sendToUid s.conns uid (some i) m.payload } i' m₂ u := by
    intro i' u m₂ hne hf
    refine hf.congr rfl (received_append_of_ne fun r hr => ?_) (fun _ _ => Iff.rfl)
      fun _ _ => Iff.rfl
    rw [hsent r hr]
    exact fun hr' => hne ⟨hr'.1, Option.some.inj hr'.2⟩
  refine h.setMsg hm _ s.queue _ hnodup rfl h.conns (fun row hrow => .inl hrow) (fun r hr => ?_)
    (fun i' u m₂ hne hf => hothers (fun heq => hne heq.2.symm) hf) fun u hu hne hf => ?_
  · rcases List.mem_append.mp hr with hr | hr
    · exact .inl hr
    · exact .inr (by rw [hsent r hr])
  · by_cases hu : u = uid
    · subst hu
      obtain ⟨hone, hqueue⟩ := hok hne
      cases hf with
      | upcoming hgot hrow hlive _ =>
        by_cases honline : isOnline s.conns u = true
        · refine .live ?_ hrow ?_ hnew
          · rw [received_append, hgot, sendToUid_online hone hup honline, received,
              List.filter_singleton]
            simp
          · simp only [if_pos honline]
            exact List.mem_cons_self
        · rw [Bool.not_eq_true] at honline
          refine .upcoming ?_ hrow ?_ (.inr (hqueue honline))
          · rw [sendToUid_offline honline, List.append_nil]
            exact hgot
          · simp only [honline]
            exact hlive
      | live _ _ _ hbroadcast =>
        rw [htask] at hbroadcast
        exact absurd List.mem_cons_self hbroadcast
      | queued _ _ _ hpassed _ _ =>
        rw [htask] at hpassed
        exact hpassed.elim
    · have hlive : ∀ b : Bool, u ∈ (if b then uid :: m.live else m.live) ↔ u ∈ m.live := by
        intro b
        cases b
        · exact Iff.rfl
        · exact ⟨fun hmem => (List.mem_cons.mp hmem).resolve_left hu, List.mem_cons_of_mem _⟩
      cases hothers (fun heq => hu heq.1.symm) hf with
      | upcoming hgot hrow hnot hupcoming =>
        refine .upcoming hgot hrow (fun hmem => hnot ((hlive _).mp hmem)) ?_
        rw [htask] at hupcoming
        exact hupcoming.imp_left fun hmem => (List.mem_cons.mp hmem).resolve_left hu
      | live hgot hrow hmem hbroadcast =>
        refine .live hgot hrow ((hlive _).mpr hmem) ?_
        rw [htask] at hbroadcast
        exact fun hmem' => hbroadcast (List.mem_cons_of_mem _ hmem')
      | queued _ _ _ hpassed _ _ =>
        rw [htask] at hpassed
        exact hpassed.elim

/-- **The event is queued for a member.** -/
theorem Inv.enqueue (h : Inv s) {i : ℕ} {m : Msg} (hm : s.msgs[i]? = some m) {uid : ℕ}
    {uids : List ℕ} (htask : m.task = .enqueueing uid uids) (hlen : m.payload.length ≤ 4095)
    (hread : ∀ c ∈ s.conns, c.uid = uid → c.attached = true → c.phase.hasRead = false) :
    Inv { s with
      msgs := s.msgs.set i { m with task := .checking uids }
      queue := notifEnqueue s.queue uid (some i) m.payload } := by
  have hnodup := h.tasks m (List.mem_of_getElem? hm)
  rw [htask] at hnodup
  obtain ⟨hnew, hnodup⟩ := List.nodup_cons.mp hnodup
  have hqueue : notifEnqueue s.queue uid (some i) m.payload =
      s.queue ++ [⟨uid, some i, m.payload, false⟩] :=
    if_pos (Nat.le_trans hlen (by decide))
  rw [hqueue]
  refine h.setMsg hm _ _ s.receipts hnodup rfl (fun c hc => ?_) (fun row hrow => ?_)
    (fun r hr => .inl hr) (fun i' u m₂ hne hf => ?_) fun u hu hne hf => ?_
  · exact (h.conns c hc).append fun _ huid ha => hread c hc huid.symm ha
  · rcases List.mem_append.mp hrow with hrow | hrow
    · exact .inl hrow
    · obtain rfl := List.mem_singleton.mp hrow
      exact .inr rfl
  · exact hf.append fun hrow => hne (Option.some.inj hrow.2).symm
  · by_cases hu : u = uid
    · subst hu
      cases hf with
      | upcoming hgot hrow _ _ =>
        refine .queued s.queue.length (fun k p => ?_) hlen hnew
          (fun hr => absurd hr (h.not_reached_length rfl)) fun _ => hgot
        rw [rowOf_concat]
        simp only [hrow k p, false_or, true_and]
        exact and_congr_right fun _ => eq_comm
      | live _ _ _ hbroadcast =>
        rw [htask] at hbroadcast
        exact absurd rfl hbroadcast
      | queued _ _ _ hpassed _ _ =>
        rw [htask] at hpassed
        exact absurd List.mem_cons_self hpassed
    · refine (hf.append fun hrow => hu hrow.1.symm).setTask ?_ (fun _ _ => trivial) ?_
      · intro _ hupcoming
        rw [htask] at hupcoming
        exact (List.mem_cons.mp hupcoming).resolve_left hu
      · intro hpassed
        rw [htask] at hpassed
        exact fun hmem => hpassed (List.mem_cons_of_mem _ hmem)

/-- **A new message.** -/
theorem Inv.send (h : Inv s) (sender : ℕ) (payload : Bytes) (hlen : s.members.length ≤ 200) :
    Inv { s with
      msgs := s.msgs ++ [⟨sender, payload, [], .broadcasting (convGetMembers s.members 200)⟩] } := by
  have hall : convGetMembers s.members 200 = s.members := List.take_of_length_le hlen
  rw [hall]
  refine ⟨h.members, fun m hm => ?_, fun i m hm u hu hne => ?_, h.conns, h.alone,
    fun row hrow i hi => ?_, fun r hr i hi => ?_⟩
  · rcases List.mem_append.mp hm with hm | hm
    · exact h.tasks m hm
    · obtain rfl := List.mem_singleton.mp hm
      exact h.members
  · rcases getElem?_concat_iff.mp hm with hm | ⟨rfl, rfl⟩
    · exact (h.fate i m hm u hu hne).msgs _
    · refine .upcoming (received_eq_nil fun r hr heq => ?_) ?_ List.not_mem_nil (.inl hu)
      · exact absurd (h.receipts r hr _ heq.2) (Nat.lt_irrefl _)
      · rintro k p ⟨row, hrow, -, hmsg, -⟩
        exact absurd (h.rows row (List.mem_of_getElem? hrow) _ hmsg) (Nat.lt_irrefl _)
  · exact Nat.lt_of_lt_of_le (h.rows row hrow i hi) (by simp)
  · exact Nat.lt_of_lt_of_le (h.receipts r hr i hi) (by simp)

/-! ### Every statement -/

/-- The next statement of a login. -/
theorem Inv.conn (h : Inv s) {j : ℕ} (hc : s.conns[j]? = some c)
    (hup : c.phase.sending = true → c.up = true) (hok : ConnStepOk s j c) :
    Inv (connStep s j c) := by
  have hconn := h.conns c (List.mem_of_getElem? hc)
  unfold connStep
  split
  · exact h
  · next hphase =>
    have hc' : (Delivery.replaceOthers s.conns c.uid j)[j]? = some c := by
      unfold Delivery.replaceOthers
      rw [List.getElem?_mapIdx, hc, Option.map_some]
      simp
    refine (h.replaceOthers c.uid j).setConn hc' (ConnOk.blank _ rfl fun _ hr => nomatch hr)
      (.inl rfl) ?_
    unfold Conn.marked
    rw [hphase]
  · next hphase =>
    obtain ⟨hlen, halone⟩ := hok hphase
    refine h.setConn hc (connOk_flush s.queue c hlen) (.inr halone) ?_
    unfold Conn.marked
    rw [hphase]
  · next hphase =>
    have htodo : c.todo = [] := todo_flushing hphase
    refine h.setConn hc (hconn.congr rfl htodo.symm fun ha _ => ⟨ha, ?_⟩) (.inl rfl) ?_
    · rw [hphase]
      rfl
    · rw [marked_flushing hphase]
      rfl
  · next r recs hphase =>
    have hsending : c.phase.sending = true := by
      rw [hphase]
      rfl
    rw [if_pos (hup hsending)]
    exact h.flushSend hc hphase
  · next r recs hphase => exact h.flushMark hc hphase

/-- The next statement of the handler of a message. -/
theorem Inv.message (h : Inv s) {i : ℕ} {m : Msg} (hm : s.msgs[i]? = some m)
    (hup : ∀ uid ∈ m.task.target, ∀ c ∈ s.conns, c.attached = true → c.uid = uid → c.up = true)
    (hok : TaskStepOk s m m.task) : Inv (messageStep s i m) := by
  have hnodup := h.tasks m (List.mem_of_getElem? hm)
  unfold messageStep
  split
  · next htask =>
    refine h.setTask hm ((List.take_sublist 64 s.members).nodup h.members) fun u _ _ => ?_
    rw [htask]
    refine ⟨fun _ hupcoming => ?_, fun _ _ => trivial, False.elim⟩
    exact hupcoming.resolve_left List.not_mem_nil
  · next uid uids htask =>
    rw [htask] at hok hup
    exact h.broadcast hm htask (hup uid rfl) hok
  · exact h
  · next uid uids htask =>
    rw [htask] at hok hnodup
    obtain ⟨hnew, hrest⟩ := List.nodup_cons.mp hnodup
    have hpassed : ∀ {u : ℕ}, u ∉ uid :: uids → u ∉ uids := fun hu hmem =>
      hu (List.mem_cons_of_mem _ hmem)
    split
    · next hskip =>
      refine h.setTask hm hrest fun u _ hne => ?_
      rw [htask]
      refine ⟨fun hlive hupcoming => ?_, fun _ _ => trivial, hpassed⟩
      -- a member that is online now was sent the event
      refine (List.mem_cons.mp hupcoming).resolve_left ?_
      rintro rfl
      exact hlive ((hok hne).mp (hskip.resolve_left hne))
    · next hqueue =>
      rw [not_or, Bool.not_eq_true] at hqueue
      refine h.setTask hm hnodup fun u _ _ => ?_
      rw [htask]
      refine ⟨fun _ h => h, fun hlive _ => ?_, fun h => h⟩
      rintro rfl
      have honline := (hok hqueue.1).mpr hlive
      rw [hqueue.2] at honline
      cases honline
  · next uid uids htask =>
    rw [htask] at hok
    exact h.enqueue hm htask hok.1 hok.2

/-- **One event.** -/
theorem Inv.step (h : Inv s) {e : Event} (hup : StaysUp s e) (hok : StepOk s e) :
    Inv (step s e) := by
  cases e with
  | connect =>
    refine h.ofConns (fun c hc => ?_) (fun j k a b ha hb hne huid => ?_) fun k => ?_
    · rcases List.mem_append.mp hc with hc | hc
      · exact h.conns c hc
      · obtain rfl := List.mem_singleton.mp hc
        exact ConnOk.blank _ rfl fun ha _ => nomatch ha
    · rcases getElem?_concat_iff.mp ha with ha | ⟨-, rfl⟩
      · rcases getElem?_concat_iff.mp hb with hb | ⟨-, rfl⟩
        · exact h.alone j k a b ha hb hne huid
        · exact .inr rfl
      · exact .inl rfl
    · unfold Marking
      simp only [List.mem_append, List.mem_singleton, or_and_right, exists_or, exists_eq_left]
      exact or_iff_left fun hmarked => nomatch hmarked
  | login j uid =>
    dsimp only [Delivery.step]
    split
    · next hc =>
      exact h.setConn hc (ConnOk.blank _ rfl fun _ hr => nomatch hr) (.inl rfl) rfl
    · exact h
  | conn j =>
    dsimp only [Delivery.step]
    split
    · next c hc => exact h.conn hc (hup c hc) (hok c hc)
    · exact h
  | leave j =>
    dsimp only [Delivery.step]
    split
    · next hc =>
      exact h.setConn hc (ConnOk.blank _ rfl fun ha => nomatch ha) (.inl rfl) rfl
    · exact h
  | drop j =>
    dsimp only [Delivery.step]
    split
    · next c hc =>
      refine h.setConn hc ((h.conns c (List.mem_of_getElem? hc)).congr rfl rfl
        fun ha hr => ⟨ha, hr⟩) ?_ rfl
      by_cases htodo : c.todo = []
      · exact .inl htodo
      · have hothers := h.alone_eraseIdx hc htodo
        exact .inr hothers
    · exact h
  | send sender payload => exact h.send sender payload hok
  | message i =>
    dsimp only [Delivery.step]
    split
    · next m hm => exact h.message hm (hup m hm) (hok m hm)
    · exact h
  | enqueue uid payload => exact h.enqueueOther uid payload

theorem Inv.quiet {members : List ℕ} (hmembers : members.Nodup) : Inv (quiet members) :=
  ⟨hmembers, nofun, nofun, nofun, nofun, nofun, nofun⟩

/-! ### Every run -/

/-- A member that is online gets a message live, another one when it logs in. -/
def liveAndQueued : List Event :=
  [.connect, .login 0 2, .conn 0, .conn 0, .conn 0, .send 1 [109], .message 0, .message 0,
    .message 0, .message 0, .message 0, .message 0, .message 0, .message 0, .connect, .login 1 3,
    .conn 1, .conn 1, .conn 1, .conn 1, .conn 1]

/-- A login between the broadcast and the test: the member is not sent the event, and is online when
the handler looks for it. -/
def loginBetween : List Event :=
  [.connect, .send 1 [109], .message 0, .message 0, .message 0, .login 0 2, .conn 0, .conn 0,
    .conn 0, .message 0, .message 0]

end SecChat.Delivery
