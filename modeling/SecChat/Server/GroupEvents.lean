import SecChat.Server.Columns

/-!
# The member lists in the events of a group

When a group changes, its members are told with a frame that lists the members and their roles, and the
same list is stored for the history.  Both lists are put together by bounded concatenation in arrays of
fixed size.

* `convGetMemberIdsJson`, `convGetMembersRolesJson`: the lists;
* `eventFrame`: the frames of the six events;
* `systemEventRow`: a stored event as it is printed for a history;
* `Exact`: the lists in the frame and in the stored event are those of the group, and the frame fits;
* `lists_exact_iff`: they are exact exactly when the list with the roles fits its array.
-/

namespace SecChat.GroupEvents

open CText JsonReader JsonHelpers Columns

/-! ### The lists -/

/-- A row of `conversation_members` with its role. -/
structure Member where
  userId : Int32
  role : Role
  deriving DecidableEq

/-- The members of a group: in the order of their ids, and in the order in which the ids are read. -/
structure Group where
  members : List Member
  ids : List Int32
  sorted : members.Pairwise fun m m' => m.userId.toInt < m'.userId.toInt
  perm : ids.Perm (members.map Member.userId)

/-- `conv_get_member_ids_json` into an array of `outSz` octets; a query that fails gives no rows. -/
def convGetMemberIdsJson (rows : Option (List Int32)) (outSz : ℕ) : Text :=
  let ids := (rows.getD []).take 500
  let out := (rowWrites (ids.map fun id => dec id.toInt)).foldl (strncat outSz) (ascii "[")
  strncat outSz out (ascii "]")

/-- The object for a member. -/
def memberItem (m : Member) : Text :=
  ((Buffer.new 96).snprintf (fmt "\x7b\"user_id\":%s,\"role\":\"%s\"\x7d" [dec m.userId.toInt, m.role.text])).text

/-- `conv_get_members_roles_json` into an array of `outSz` octets. -/
def convGetMembersRolesJson (rows : Option (List Member)) (outSz : ℕ) : Text :=
  let members := (rows.getD []).take 500
  let out := (rowWrites (members.map memberItem)).foldl (strncat outSz) (ascii "[")
  strncat outSz out (ascii "]")

/-- `member_ids_json`. -/
def memberIdsJson (g : Group) : Text := convGetMemberIdsJson (some g.ids) 2048

/-- `members_json`. -/
def membersJson (g : Group) : Text := convGetMembersRolesJson (some g.members) 4096

/-! ### The frames -/

/-- `GroupSystemEventMeta`. -/
structure GroupSystemEventMeta where
  id : Int64
  afterMessageId : Int64
  eventTime : CStr 32

/-- A user with the name that is on record. -/
structure User where
  uid : Int32
  username : Option (CStr 65)

/-- `escaped_username_for_uid`. -/
def User.escapedUsername (u : User) : Text :=
  if u.uid.toInt ≤ 0 then [] else jsonEsc (((u.username.map CStr.text).getD []).take 63) 136

/-- What the frames of a request have in common. -/
structure Change where
  cid : Int64
  actor : User
  operationId : CStr 80

/-- An event, with what only its own frame says. -/
inductive Event
  | groupCreated (name : CStr 200)
  | addedToGroup (name : Text) (ev : GroupSystemEventMeta)
  | memberAdded (target : User) (ev : GroupSystemEventMeta)
  | memberRemoved (target : User) (leave : Bool) (ev : GroupSystemEventMeta)
  | memberRoleChanged (target : User) (role : CStr 20) (ev : GroupSystemEventMeta)
  /-- The name is read after the request that held it has been freed. -/
  | groupInfoUpdated (name : Text) (ev : GroupSystemEventMeta)

def ciphersuite : Text := ascii "MLS_256_XWING_CHACHA20POLY1305_SHA256_Ed25519"

/-- The text of a frame. -/
def eventText (c : Change) (memberIds members : Text) : Event → Text
  | .groupCreated name =>
      let escName := jsonEsc (if name.text ≠ [] then name.text else ascii "Unnamed Group") 420
      fmt "\x7b\"type\":\"group_created\",\"conversation_id\":%lld,\"name\":\"%s\",\"operation_id\":\"%s\",\"mls_validated\":true,\"ciphersuite\":\"%s\",\"member_ids\":%s,\"members\":%s\x7d"
        [dec c.cid.toInt, escName, c.operationId.text, ciphersuite, memberIds, members]
  | .addedToGroup name ev =>
      let escName := jsonEsc name 210
      fmt "\x7b\"type\":\"added_to_group\",\"conversation_id\":%lld,\"name\":\"%s\",\"by\":\"%s\",\"by_username\":\"%s\",\"by_user_id\":%d,\"operation_id\":\"%s\",\"system_event_id\":%lld,\"after_message_id\":%lld,\"event_time\":\"%s\",\"member_ids\":%s,\"members\":%s\x7d"
        [dec c.cid.toInt, escName, c.actor.escapedUsername, c.actor.escapedUsername, dec c.actor.uid.toInt,
          c.operationId.text, dec ev.id.toInt, dec ev.afterMessageId.toInt, ev.eventTime.text, memberIds,
          members]
  | .memberAdded target ev =>
      fmt "\x7b\"type\":\"member_added\",\"group_id\":%lld,\"user_id\":%d,\"username\":\"%s\",\"by_user_id\":%d,\"by_username\":\"%s\",\"operation\":\"add_member\",\"operation_id\":\"%s\",\"system_event_id\":%lld,\"after_message_id\":%lld,\"event_time\":\"%s\",\"member_ids\":%s,\"members\":%s\x7d"
        [dec c.cid.toInt, dec target.uid.toInt, target.escapedUsername, dec c.actor.uid.toInt,
          c.actor.escapedUsername, c.operationId.text, dec ev.id.toInt, dec ev.afterMessageId.toInt,
          ev.eventTime.text, memberIds, members]
  | .memberRemoved target leave ev =>
      fmt "\x7b\"type\":\"member_removed\",\"group_id\":%lld,\"user_id\":%d,\"username\":\"%s\",\"by_user_id\":%d,\"by_username\":\"%s\",\"operation\":\"%s\",\"operation_id\":\"%s\",\"system_event_id\":%lld,\"after_message_id\":%lld,\"event_time\":\"%s\",\"member_ids\":%s,\"members\":%s\x7d"
        [dec c.cid.toInt, dec target.uid.toInt, target.escapedUsername, dec c.actor.uid.toInt,
          c.actor.escapedUsername, ascii (if leave then "leave_group" else "remove_member"),
          c.operationId.text, dec ev.id.toInt, dec ev.afterMessageId.toInt, ev.eventTime.text, memberIds,
          members]
  | .memberRoleChanged target role ev =>
      fmt "\x7b\"type\":\"member_role_changed\",\"group_id\":%lld,\"user_id\":%d,\"username\":\"%s\",\"role\":\"%s\",\"by_user_id\":%d,\"by_username\":\"%s\",\"operation\":\"set_member_role\",\"operation_id\":\"%s\",\"system_event_id\":%lld,\"after_message_id\":%lld,\"event_time\":\"%s\",\"member_ids\":%s,\"members\":%s\x7d"
        [dec c.cid.toInt, dec target.uid.toInt, target.escapedUsername, role.text, dec c.actor.uid.toInt,
          c.actor.escapedUsername, c.operationId.text, dec ev.id.toInt, dec ev.afterMessageId.toInt,
          ev.eventTime.text, memberIds, members]
  | .groupInfoUpdated name ev =>
      let escName := jsonEsc name 210
      fmt "\x7b\"type\":\"group_info_updated\",\"group_id\":%lld,\"name\":\"%s\",\"has_new_avatar\":false,\"by_user_id\":%d,\"by_username\":\"%s\",\"operation\":\"update_group_info\",\"operation_id\":\"%s\",\"system_event_id\":%lld,\"after_message_id\":%lld,\"event_time\":\"%s\",\"members\":%s\x7d"
        [dec c.cid.toInt, escName, dec c.actor.uid.toInt, c.actor.escapedUsername, c.operationId.text,
          dec ev.id.toInt, dec ev.afterMessageId.toInt, ev.eventTime.text, members]

/-- The size of the array or of the memory for a frame. -/
def eventSize (c : Change) (memberIds members : Text) : Event → ℕ
  | .addedToGroup name _ =>
      (jsonEsc name 210).length + c.actor.escapedUsername.length + memberIds.length + members.length + 512
  | _ => 8192

/-- The frame of an event. -/
def eventFrame (c : Change) (e : Event) (g : Group) : Buffer :=
  (Buffer.new (eventSize c (memberIdsJson g) (membersJson g) e)).snprintf
    (eventText c (memberIdsJson g) (membersJson g) e)

/-- The frame has a list of ids besides the list with the roles. -/
def Event.listsIds : Event → Bool
  | .groupInfoUpdated _ _ => false
  | _ => true

/-! ### A stored event -/

/-- A row of `group_system_events` with the names of its users. -/
structure SystemEvent where
  id : Int64
  eventType : Text
  actorId : Int32
  actor : Text
  targetUserId : Int32
  target : Text
  role : Text
  operationId : Text
  afterMessageId : Int64
  time : Text

/-- `operation` for an event type. -/
def operationOf (eventType : Text) : String :=
  if eventType = ascii "member_added" then "add_member"
  else if eventType = ascii "member_left" then "leave_group"
  else if eventType = ascii "member_removed" then "remove_member"
  else if eventType = ascii "member_role_changed" then "set_member_role"
  else if eventType = ascii "group_info_updated" then "update_group_info"
  else ""

/-- A row of `group_system_events_json`, without its comma; `members` is the stored text. -/
def systemEventRow (r : SystemEvent) (members : Text) : Text :=
  let et := jsonEsc r.eventType 80
  let ts := jsonEsc r.time 40
  fmt "\x7b\"id\":%s,\"system_event_id\":%s,\"event_type\":\"%s\",\"type\":\"%s\",\"actor_id\":%s,\"by_user_id\":%s,\"by_username\":\"%s\",\"target_user_id\":%s,\"user_id\":%s,\"username\":\"%s\",\"role\":\"%s\",\"operation\":\"%s\",\"operation_id\":\"%s\",\"after_message_id\":%s,\"time\":\"%s\",\"event_time\":\"%s\",\"members\":%s\x7d"
    [dec r.id.toInt, dec r.id.toInt, et, et, dec r.actorId.toInt, dec r.actorId.toInt, jsonEsc r.actor 130,
      dec r.targetUserId.toInt, dec r.targetUserId.toInt, jsonEsc r.target 130, jsonEsc r.role 40,
      ascii (operationOf r.eventType), jsonEsc r.operationId 160, dec r.afterMessageId.toInt, ts, ts,
      if members ≠ [] then members else ascii "[]"]

/-! ### What they should say -/

def idsValue (g : Group) : Value := .arr (g.ids.map fun id => .int id.toInt)

def memberValue (m : Member) : Value :=
  .obj [Columns.field "user_id" (.int m.userId.toInt), Columns.field "role" (.str m.role.text)]

def membersValue (g : Group) : Value := .arr (g.members.map memberValue)

/-- The lists are those of the group, in the frame and in what is stored for the history, and the frame
fits. -/
structure Exact (c : Change) (e : Event) (g : Group) : Prop where
  ids : e.listsIds = true → parse (memberIdsJson g) = some (idsValue g)
  members : parse (membersJson g) = some (membersValue g)
  history : ∀ r : SystemEvent, (parse (systemEventRow r (membersJson g))).bind
    (fun v => v.get (ascii "members")) = some (membersValue g)
  fits : (eventFrame c e g).wild = false ∧
    (eventFrame c e g).text = eventText c (memberIdsJson g) (membersJson g) e

/-- The octets of the list with the roles. -/
def membersLength (g : Group) : ℕ :=
  2 + (g.members.map fun m => 22 + (dec m.userId.toInt).length + m.role.text.length).sum +
    (g.members.length - 1)

/-! ### The lists as arrays -/

/-- Concatenation of the pieces of an array keeps what fits. -/
theorem strncat_array {size : ℕ} (h : 1 < size) (rows : List Text) :
    strncat size ((rowWrites rows).foldl (strncat size) (ascii "[")) (ascii "]") =
      (arrText rows).take (size - 1) := by
  have hone : (ascii "[").length < size := h
  have hall := foldl_strncat hone (rowWrites rows ++ [ascii "]"])
  rw [List.foldl_append] at hall
  refine Eq.trans hall ?_
  rw [List.flatten_append, flatten_rowWrites, List.flatten_singleton]
  rfl

theorem length_member (m : Member) :
    (fmt "\x7b\"user_id\":%s,\"role\":\"%s\"\x7d" [dec m.userId.toInt, m.role.text]).length =
      22 + (dec m.userId.toInt).length + m.role.text.length := by
  rw [length_fmt 22 rfl rfl rfl]
  simp only [List.map_cons, List.map_nil, List.sum_cons, List.sum_nil]
  omega

/-- The object for a member fits its array. -/
theorem memberItem_eq (m : Member) :
    memberItem m = fmt "\x7b\"user_id\":%s,\"role\":\"%s\"\x7d" [dec m.userId.toInt, m.role.text] := by
  have hid := length_int32_le m.userId
  have hrole := length_role_le m.role
  have hlen := length_member m
  exact text_snprintf (by omega)

theorem length_memberItem (m : Member) :
    (memberItem m).length = 22 + (dec m.userId.toInt).length + m.role.text.length := by
  rw [memberItem_eq, length_member]

def memberLayout : Layout := [("user_id", .raw), ("role", .str)]

theorem reads_memberItem (m : Member) : JsonReader.Reads (memberItem m) (memberValue m) := by
  have hvs : List.Forall₂ JsonReader.Reads (memberLayout.texts [dec m.userId.toInt, m.role.text])
      [.int m.userId.toInt, .str m.role.text] :=
    .cons (reads_dec _) (.cons (reads_plain (plain_role m.role)) .nil)
  rw [memberItem_eq]
  exact (whole_fmt memberLayout rfl rfl (by decide) hvs).reads

theorem memberIdsJson_eq (g : Group) :
    memberIdsJson g = (arrText ((g.ids.take 500).map fun id => dec id.toInt)).take 2047 :=
  strncat_array (by decide) _

theorem membersJson_eq (g : Group) :
    membersJson g = (arrText ((g.members.take 500).map memberItem)).take 4095 :=
  strncat_array (by decide) _

theorem length_memberIdsJson_le (g : Group) : (memberIdsJson g).length ≤ 2047 := by
  rw [memberIdsJson_eq]
  exact List.length_take_le _ _

theorem length_membersJson_le (g : Group) : (membersJson g).length ≤ 4095 := by
  rw [membersJson_eq]
  exact List.length_take_le _ _

theorem parse_memberIdsJson_iff (g : Group) (v : Value) :
    parse (memberIdsJson g) = some v ↔
      (arrText ((g.ids.take 500).map fun id => dec id.toInt)).length ≤ 2047 ∧
        v = .arr ((g.ids.take 500).map fun id => .int id.toInt) := by
  rw [memberIdsJson_eq]
  exact parse_take_arrText_iff (reads_rows (fun id : Int32 => reads_dec id.toInt) _) 2047 v

theorem parse_membersJson_iff (g : Group) (v : Value) :
    parse (membersJson g) = some v ↔
      (arrText ((g.members.take 500).map memberItem)).length ≤ 4095 ∧
        v = .arr ((g.members.take 500).map memberValue) := by
  rw [membersJson_eq]
  exact parse_take_arrText_iff (reads_rows reads_memberItem _) 4095 v

/-! ### How long the lists are -/

theorem length_members (members : List Member) :
    (arrText (members.map memberItem)).length =
      2 + (members.map fun m => 22 + (dec m.userId.toInt).length + m.role.text.length).sum +
        (members.length - 1) := by
  have hitems : List.length ∘ memberItem =
      fun m => 22 + (dec m.userId.toInt).length + m.role.text.length := funext length_memberItem
  rw [length_arrText, List.map_map, hitems, List.length_map]

/-- The list with the roles takes at least 27 octets for each member. -/
theorem mul_length_le_membersLength (g : Group) : 27 * g.members.length ≤ membersLength g := by
  have hsum : ∀ members : List Member, 27 * members.length ≤
      (members.map fun m => 22 + (dec m.userId.toInt).length + m.role.text.length).sum := by
    intro members
    induction members with
    | nil => simp
    | cons m members ih =>
      have hrole : 5 ≤ m.role.text.length := by
        cases m.role <;> decide
      simp only [List.length_cons, List.map_cons, List.sum_cons]
      omega
  have h := hsum g.members
  unfold membersLength
  omega

/-- The list of the ids takes at most 12 octets for each member. -/
theorem length_ids_le (ids : List Int32) :
    (arrText (ids.map fun id => dec id.toInt)).length ≤ 12 * ids.length + 2 := by
  have hsum : ∀ ids : List Int32, ((ids.map fun id => dec id.toInt).map List.length).sum ≤ 11 * ids.length := by
    intro ids
    induction ids with
    | nil => simp
    | cons id ids ih =>
      have hid := length_int32_le id
      simp only [List.length_cons, List.map_cons, List.sum_cons]
      omega
  have h := hsum ids
  rw [length_arrText, List.length_map]
  omega

/-! ### The frames -/

theorem User.length_escapedUsername_le (u : User) : u.escapedUsername.length ≤ 134 := by
  unfold User.escapedUsername
  split
  · simp
  · exact Nat.le_of_add_le_add_right (length_jsonEsc_le (by decide))

/-- What a frame says of the stored event and the lists. -/
theorem length_meta_le (c : Change) (ev : GroupSystemEventMeta) {lists : List Text} {bounds : List ℕ}
    (h : List.Forall₂ (fun t k => t.length ≤ k) lists bounds) :
    List.Forall₂ (fun t k => t.length ≤ k)
      (c.operationId.text :: dec ev.id.toInt :: dec ev.afterMessageId.toInt :: ev.eventTime.text :: lists)
      (79 :: 20 :: 20 :: 31 :: bounds) :=
  .cons (Nat.le_of_lt_succ c.operationId.fits) (.cons (length_int64_le _) (.cons (length_int64_le _)
    (.cons (Nat.le_of_lt_succ ev.eventTime.fits) h)))

set_option maxRecDepth 4000 in
/-- The lists always leave room for the rest of a frame. -/
theorem length_eventText_lt (c : Change) (e : Event) {memberIds members : Text}
    (hids : memberIds.length ≤ 2047) (hmembers : members.length ≤ 4095) :
    (eventText c memberIds members e).length < eventSize c memberIds members e := by
  have hcid := length_int64_le c.cid
  have hactor := c.actor.length_escapedUsername_le
  have hby := length_int32_le c.actor.uid
  have hlists : List.Forall₂ (fun t k => t.length ≤ k) [memberIds, members] [2047, 4095] :=
    .cons hids (.cons hmembers .nil)
  cases e with
  | groupCreated name =>
    have hname : ∀ s, (jsonEsc s 420).length ≤ 418 := fun s =>
      Nat.le_of_add_le_add_right (length_jsonEsc_le (by decide))
    have hbounds : List.Forall₂ (fun t k => t.length ≤ k)
        [dec c.cid.toInt, jsonEsc (if name.text ≠ [] then name.text else ascii "Unnamed Group") 420,
          c.operationId.text, ciphersuite, memberIds, members] [20, 418, 79, 64, 2047, 4095] :=
      .cons hcid (.cons (hname _) (.cons (Nat.le_of_lt_succ c.operationId.fits)
        (.cons (by decide) hlists)))
    refine Nat.lt_of_le_of_lt (length_fmt_le 134 rfl rfl rfl hbounds) ?_
    simp [eventSize]
  | addedToGroup name ev =>
    have hbounds : List.Forall₂ (fun t k => t.length ≤ k)
        [dec c.cid.toInt, jsonEsc name 210, c.actor.escapedUsername, c.actor.escapedUsername,
          dec c.actor.uid.toInt, c.operationId.text, dec ev.id.toInt, dec ev.afterMessageId.toInt,
          ev.eventTime.text, memberIds, members]
        [20, (jsonEsc name 210).length, c.actor.escapedUsername.length, c.actor.escapedUsername.length,
          11, 79, 20, 20, 31, memberIds.length, members.length] :=
      .cons hcid (.cons le_rfl (.cons le_rfl (.cons le_rfl (.cons hby
        (length_meta_le c ev (.cons le_rfl (.cons le_rfl .nil)))))))
    refine Nat.lt_of_le_of_lt (length_fmt_le 191 rfl rfl rfl hbounds) ?_
    simp only [List.sum_cons, List.sum_nil, eventSize]
    omega
  | memberAdded target ev =>
    have hbounds : List.Forall₂ (fun t k => t.length ≤ k)
        [dec c.cid.toInt, dec target.uid.toInt, target.escapedUsername, dec c.actor.uid.toInt,
          c.actor.escapedUsername, c.operationId.text, dec ev.id.toInt, dec ev.afterMessageId.toInt,
          ev.eventTime.text, memberIds, members]
        [20, 11, 134, 11, 134, 79, 20, 20, 31, 2047, 4095] :=
      .cons hcid (.cons (length_int32_le _) (.cons target.length_escapedUsername_le (.cons hby
        (.cons hactor (length_meta_le c ev hlists)))))
    refine Nat.lt_of_le_of_lt (length_fmt_le 214 rfl rfl rfl hbounds) ?_
    simp [eventSize]
  | memberRemoved target leave ev =>
    have hoperation : (ascii (if leave then "leave_group" else "remove_member")).length ≤ 13 := by
      cases leave <;> decide
    have hbounds : List.Forall₂ (fun t k => t.length ≤ k)
        [dec c.cid.toInt, dec target.uid.toInt, target.escapedUsername, dec c.actor.uid.toInt,
          c.actor.escapedUsername, ascii (if leave then "leave_group" else "remove_member"),
          c.operationId.text, dec ev.id.toInt, dec ev.afterMessageId.toInt, ev.eventTime.text, memberIds,
          members]
        [20, 11, 134, 11, 134, 13, 79, 20, 20, 31, 2047, 4095] :=
      .cons hcid (.cons (length_int32_le _) (.cons target.length_escapedUsername_le (.cons hby
        (.cons hactor (.cons hoperation (length_meta_le c ev hlists))))))
    refine Nat.lt_of_le_of_lt (length_fmt_le 206 rfl rfl rfl hbounds) ?_
    simp [eventSize]
  | memberRoleChanged target role ev =>
    have hbounds : List.Forall₂ (fun t k => t.length ≤ k)
        [dec c.cid.toInt, dec target.uid.toInt, target.escapedUsername, role.text, dec c.actor.uid.toInt,
          c.actor.escapedUsername, c.operationId.text, dec ev.id.toInt, dec ev.afterMessageId.toInt,
          ev.eventTime.text, memberIds, members]
        [20, 11, 134, 19, 11, 134, 79, 20, 20, 31, 2047, 4095] :=
      .cons hcid (.cons (length_int32_le _) (.cons target.length_escapedUsername_le
        (.cons (Nat.le_of_lt_succ role.fits) (.cons hby
          (.cons hactor (length_meta_le c ev hlists))))))
    refine Nat.lt_of_le_of_lt (length_fmt_le 236 rfl rfl rfl hbounds) ?_
    simp [eventSize]
  | groupInfoUpdated name ev =>
    have hname : (jsonEsc name 210).length ≤ 208 :=
      Nat.le_of_add_le_add_right (length_jsonEsc_le (by decide))
    have hbounds : List.Forall₂ (fun t k => t.length ≤ k)
        [dec c.cid.toInt, jsonEsc name 210, dec c.actor.uid.toInt, c.actor.escapedUsername,
          c.operationId.text, dec ev.id.toInt, dec ev.afterMessageId.toInt, ev.eventTime.text, members]
        [20, 208, 11, 134, 79, 20, 20, 31, 4095] :=
      .cons hcid (.cons hname (.cons hby (.cons hactor (length_meta_le c ev (.cons hmembers .nil)))))
    refine Nat.lt_of_le_of_lt (length_fmt_le 221 rfl rfl rfl hbounds) ?_
    simp [eventSize]

/-- **A frame fits**, whatever the size of the group. -/
theorem eventFrame_fits (c : Change) (e : Event) (g : Group) :
    (eventFrame c e g).wild = false ∧
      (eventFrame c e g).text = eventText c (memberIdsJson g) (membersJson g) e :=
  ⟨wild_snprintf_new _ _, text_snprintf
    (length_eventText_lt c e (length_memberIdsJson_le g) (length_membersJson_le g))⟩

/-! ### The history -/

def systemEventLayout : Layout :=
  [("id", .raw), ("system_event_id", .raw), ("event_type", .str), ("type", .str), ("actor_id", .raw),
    ("by_user_id", .raw), ("by_username", .str), ("target_user_id", .raw), ("user_id", .raw),
    ("username", .str), ("role", .str), ("operation", .str), ("operation_id", .str),
    ("after_message_id", .raw), ("time", .str), ("event_time", .str), ("members", .raw)]

theorem plain_operationOf (eventType : Text) : ∀ c ∈ ascii (operationOf eventType), Plain c := by
  unfold operationOf
  split_ifs <;> decide

set_option maxRecDepth 4000 in
/-- A stored event has the stored list. -/
theorem members_systemEventRow (r : SystemEvent) {members : Text} {v : Value} (hne : members ≠ [])
    (h : parse members = some v) :
    (parse (systemEventRow r members)).bind (fun v => v.get (ascii "members")) = some v := by
  have hid : JsonReader.Reads (dec r.id.toInt) _ := reads_dec r.id.toInt
  have hactor : JsonReader.Reads (dec r.actorId.toInt) _ := reads_dec r.actorId.toInt
  have htarget : JsonReader.Reads (dec r.targetUserId.toInt) _ := reads_dec r.targetUserId.toInt
  have htype : JsonReader.Reads (quoted (jsonEsc r.eventType 80)) _ := reads_jsonEsc r.eventType 80
  have htime : JsonReader.Reads (quoted (jsonEsc r.time 40)) _ := reads_jsonEsc r.time 40
  have hmembers : JsonReader.Reads (if members ≠ [] then members else ascii "[]") v := by
    rw [if_pos hne]
    exact reads_of_parse h
  have hvs : List.Forall₂ JsonReader.Reads (systemEventLayout.texts
      [dec r.id.toInt, dec r.id.toInt, jsonEsc r.eventType 80, jsonEsc r.eventType 80, dec r.actorId.toInt,
        dec r.actorId.toInt, jsonEsc r.actor 130, dec r.targetUserId.toInt, dec r.targetUserId.toInt,
        jsonEsc r.target 130, jsonEsc r.role 40, ascii (operationOf r.eventType),
        jsonEsc r.operationId 160, dec r.afterMessageId.toInt, jsonEsc r.time 40, jsonEsc r.time 40,
        if members ≠ [] then members else ascii "[]"]) _ :=
    .cons hid (.cons hid (.cons htype (.cons htype (.cons hactor (.cons hactor
      (.cons (reads_jsonEsc _ _) (.cons htarget (.cons htarget (.cons (reads_jsonEsc _ _)
        (.cons (reads_jsonEsc _ _) (.cons (reads_plain (plain_operationOf r.eventType))
          (.cons (reads_jsonEsc _ _) (.cons (reads_dec _) (.cons htime (.cons htime
            (.cons hmembers .nil))))))))))))))))
  have hwhole : Whole (systemEventRow r members) _ :=
    whole_fmt systemEventLayout rfl rfl (by decide) hvs
  rw [hwhole.parse]
  rfl

/-! ### When the lists are exact -/

theorem take_of_map_take_eq {α β : Type} {f : α → β} {n : ℕ} {as : List α}
    (h : as.map f = (as.take n).map f) : as.length ≤ n := by
  have hlen := congrArg List.length h
  simp only [List.length_map, List.length_take] at hlen
  omega

/-- A list with the roles that is read as the members has not been cut off. -/
theorem membersLength_le {g : Group} (h : parse (membersJson g) = some (membersValue g)) :
    membersLength g ≤ 4095 := by
  obtain ⟨hfits, hvalue⟩ := (parse_membersJson_iff g _).mp h
  have hfew : g.members.length ≤ 500 := take_of_map_take_eq (Value.arr.inj hvalue)
  rw [List.take_of_length_le hfew, length_members] at hfits
  exact hfits

/-- **The lists are exact** exactly when the list with the roles fits its array. -/
theorem lists_exact_iff (c : Change) (e : Event) (g : Group) : Exact c e g ↔ membersLength g ≤ 4095 := by
  constructor
  · intro h
    exact membersLength_le h.members
  · intro h
    have hmul := mul_length_le_membersLength g
    have hfew : g.members.take 500 = g.members := List.take_of_length_le (by omega)
    have hcount : g.ids.length = g.members.length := by
      rw [g.perm.length_eq, List.length_map]
    have hids : g.ids.take 500 = g.ids := List.take_of_length_le (by omega)
    have hidsLength := length_ids_le g.ids
    have hmembers : parse (membersJson g) = some (membersValue g) := by
      rw [parse_membersJson_iff, hfew, length_members]
      exact ⟨h, rfl⟩
    refine ⟨fun _ => ?_, hmembers, fun r => ?_, eventFrame_fits c e g⟩
    · rw [parse_memberIdsJson_iff, hids]
      exact ⟨by omega, rfl⟩
    · refine members_systemEventRow r ?_ hmembers
      intro hnil
      rw [hnil] at hmembers
      cases hmembers

/-- 150 members with ids of six digits. -/
def largeGroup : Group where
  members := (List.range 150).map fun k => ⟨Int32.ofNat (100001 + k), .member⟩
  ids := (List.range 150).map fun k => Int32.ofNat (100001 + k)
  sorted := by decide +kernel
  perm := by
    rw [List.map_map]
    exact .refl _

/-- The last of them has just been added by the first. -/
def largeChange : Change := ⟨1, ⟨100001, none⟩, ⟨ascii "add-1", by decide, by decide⟩⟩

def largeEvent : Event :=
  .memberAdded ⟨100150, none⟩ ⟨1, 0, ⟨ascii "2024-05-01 12:00:00", by decide, by decide⟩⟩

/-- Their list takes 5251 octets. -/
theorem largeGroup_not_exact : ¬ Exact largeChange largeEvent largeGroup := by
  intro h
  have hlen := membersLength_le h.members
  revert hlen
  decide +kernel

end SecChat.GroupEvents
