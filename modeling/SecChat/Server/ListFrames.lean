import SecChat.Server.Columns

/-!
# Lists sent to a client

The friends of a user, the open requests, the result of a search and the members of a group are printed
row by row into a buffer whose size is an estimate for each row.  The offset is advanced by what each
row would have taken, whether it fitted or not.

* `handleGetFriends`, `handleGetRequests`, `handleSearchUser`, `handleGetGroupInfo`: the builders;
* `friendLength`, `requestLength`, `foundLength`, `memberLength`: the octets that a row takes;
* `Frame.Lists`: no write left the buffer, and the frame is a JSON text that lists the rows;
* `lists_iff_fits`: the builders are sound exactly when the rows, the commas and the ends fit.
-/

namespace SecChat.ListFrames

open CText JsonReader JsonHelpers Columns

/-! ### Rows -/

/-- `FriendRecord`. -/
structure FriendRecord where
  id : ℤ
  username : CStr 65
  displayName : CStr 101
  status : Status
  lastSeen : Stamp 24

/-- `FriendRequestRecord`. -/
structure FriendRequestRecord where
  requestId : ℤ
  userId : ℤ
  username : CStr 65
  displayName : CStr 101
  requestedAt : Stamp 24

/-- `UserRecord`, as far as a search fills it. -/
structure UserRecord where
  id : ℤ
  username : CStr 65
  displayName : CStr 101
  status : Status

/-- The columns of `conversations` that are read for a group. -/
structure GroupRow where
  name : Option Text
  description : Option Text
  creatorId : ℤ
  isDisbanded : ℤ

/-- A member with its role. -/
structure MemberRow where
  userId : ℤ
  username : Option Text
  role : Role

/-! ### The builders -/

/-- What is sent: a fixed text, or what was built in a buffer. -/
inductive Frame
  | fixed (text : Text)
  | built (b : Buffer)

def Frame.text : Frame → Text
  | .fixed text => text
  | .built b => b.text

/-- Some write left the buffer. -/
def Frame.wild : Frame → Bool
  | .fixed _ => false
  | .built b => b.wild

/-- The rows that `friendship_list_for_user`, `friendship_list_pending` and `user_repo_search` copy. -/
def fetched {α : Type} (rows : List α) (max : ℕ) : List α := rows.take max

def friendRow (f : FriendRecord) : Text :=
  let eu := jsonEsc f.username.text 130
  let ed := jsonEsc f.displayName.text 210
  fmt "\x7b\"id\":%d,\"username\":\"%s\",\"display_name\":\"%s\",\"status\":\"%s\",\"last_seen\":\"%s\"\x7d"
    [dec f.id, eu, ed, f.status.text, f.lastSeen.text]

/-- `handle_get_friends`. -/
def handleGetFriends (rows : List FriendRecord) : Frame :=
  let friends := fetched rows 200
  let bufSz := 64 + friends.length * 192
  .built ((Buffer.new bufSz).writes
    (listWrites (fmt "\x7b\"type\":\"friends_list\",\"friends\":[" []) (friends.map friendRow) (ascii "]\x7d")))

def requestRow (r : FriendRequestRecord) : Text :=
  let eu := jsonEsc r.username.text 130
  let ed := jsonEsc r.displayName.text 210
  fmt "\x7b\"request_id\":%lld,\"user_id\":%d,\"username\":\"%s\",\"display_name\":\"%s\",\"requested_at\":\"%s\"\x7d"
    [dec r.requestId, dec r.userId, eu, ed, r.requestedAt.text]

/-- `handle_get_requests`. -/
def handleGetRequests (rows : List FriendRequestRecord) : Frame :=
  let reqs := fetched rows 100
  let bufSz := 64 + reqs.length * 160
  .built ((Buffer.new bufSz).writes
    (listWrites (fmt "\x7b\"type\":\"friend_requests\",\"requests\":[" []) (reqs.map requestRow)
      (ascii "]\x7d")))

def foundRow (u : UserRecord) : Text :=
  let eu := jsonEsc u.username.text 130
  let ed := jsonEsc u.displayName.text 215
  fmt "\x7b\"id\":%d,\"username\":\"%s\",\"display_name\":\"%s\",\"status\":\"%s\"\x7d"
    [dec u.id, eu, ed, u.status.text]

/-- `user_repo_search`, with the rows that match. -/
def userRepoSearch (query : Text) (rows : List UserRecord) (max : ℕ) : List UserRecord :=
  if query.length < 2 then [] else fetched rows max

/-- `handle_search_user`; `allowed` is the answer of `clients_check_search_rate`. -/
def handleSearchUser (query : Text) (allowed : Bool) (rows : List UserRecord) : Frame :=
  if query = [] ∨ allowed = false then .fixed (ascii "\x7b\"type\":\"search_result\",\"users\":[]\x7d")
  else
    let results := userRepoSearch query rows 20
    let bufSz := 64 + results.length * 128
    .built ((Buffer.new bufSz).writes
      (listWrites (fmt "\x7b\"type\":\"search_result\",\"users\":[" []) (results.map foundRow)
        (ascii "]\x7d")))

def memberRow (m : MemberRow) : Text :=
  let eu := jsonEsc (m.username.getD []) 130
  fmt "\x7b\"user_id\":%s,\"username\":\"%s\",\"role\":\"%s\"\x7d" [dec m.userId, eu, m.role.text]

def groupHead (convId : ℤ) (g : GroupRow) : Text :=
  let escName := jsonEsc (g.name.getD []) 210
  let escDesc := jsonEsc (g.description.getD []) 4100
  fmt "\x7b\"type\":\"group_info\",\"group_id\":%lld,\"name\":\"%s\",\"description\":\"%s\",\"creator_id\":%d,\"is_disbanded\":%s,\"members\":["
    [dec convId, escName, escDesc, dec g.creatorId, flag (g.isDisbanded ≠ 0)]

/-- `conv_get_group_info_json`; a query that fails gives no rows. -/
def convGetGroupInfoJson (convId : ℤ) (group : Option GroupRow) (members : Option (List MemberRow))
    (outSz : ℕ) : Option Buffer :=
  match group, members with
  | some g, some ms =>
      some ((Buffer.new outSz).writes (listWrites (groupHead convId g) (ms.map memberRow) (ascii "]\x7d")))
  | _, _ => none

/-- `handle_get_group_info`. -/
def handleGetGroupInfo (groupId : ℤ) (isMember : Bool) (group : Option GroupRow)
    (members : Option (List MemberRow)) : Frame :=
  if groupId ≤ 0 then .fixed (ascii "\x7b\"type\":\"error\",\"msg\":\"Invalid group_id\"\x7d")
  else if isMember = false then .fixed (ascii "\x7b\"type\":\"error\",\"msg\":\"Not a member\"\x7d")
  else
    match convGetGroupInfoJson groupId group members (4096 + 200 * 128) with
    | none => .fixed (ascii "\x7b\"type\":\"error\",\"msg\":\"Group not found\"\x7d")
    | some b => .built b

/-! ### What a frame should say -/

/-- No write left the buffer, and the frame is a JSON text for a value. -/
def Frame.Lists (f : Frame) (v : Value) : Prop := f.wild = false ∧ parse f.text = some v

def friendValue (f : FriendRecord) : Value :=
  .obj [Columns.field "id" (.int f.id), Columns.field "username" (.str (kept f.username.text 130)),
    Columns.field "display_name" (.str (kept f.displayName.text 210)),
    Columns.field "status" (.str f.status.text), Columns.field "last_seen" (.str f.lastSeen.text)]

def friendsValue (friends : List FriendRecord) : Value :=
  .obj [Columns.field "type" (.str (ascii "friends_list")),
    Columns.field "friends" (.arr (friends.map friendValue))]

def requestValue (r : FriendRequestRecord) : Value :=
  .obj [Columns.field "request_id" (.int r.requestId), Columns.field "user_id" (.int r.userId),
    Columns.field "username" (.str (kept r.username.text 130)),
    Columns.field "display_name" (.str (kept r.displayName.text 210)),
    Columns.field "requested_at" (.str r.requestedAt.text)]

def requestsValue (reqs : List FriendRequestRecord) : Value :=
  .obj [Columns.field "type" (.str (ascii "friend_requests")),
    Columns.field "requests" (.arr (reqs.map requestValue))]

def foundValue (u : UserRecord) : Value :=
  .obj [Columns.field "id" (.int u.id), Columns.field "username" (.str (kept u.username.text 130)),
    Columns.field "display_name" (.str (kept u.displayName.text 215)),
    Columns.field "status" (.str u.status.text)]

def searchValue (results : List UserRecord) : Value :=
  .obj [Columns.field "type" (.str (ascii "search_result")),
    Columns.field "users" (.arr (results.map foundValue))]

def memberValue (m : MemberRow) : Value :=
  .obj [Columns.field "user_id" (.int m.userId),
    Columns.field "username" (.str (kept (m.username.getD []) 130)), Columns.field "role" (.str m.role.text)]

/-- The rows that a search lists. -/
def searchRows (query : Text) (allowed : Bool) (rows : List UserRecord) : List UserRecord :=
  if query = [] ∨ allowed = false then [] else userRepoSearch query rows 20

def groupValue (convId : ℤ) (g : GroupRow) (ms : List MemberRow) : Value :=
  .obj [Columns.field "type" (.str (ascii "group_info")), Columns.field "group_id" (.int convId),
    Columns.field "name" (.str (kept (g.name.getD []) 210)),
    Columns.field "description" (.str (kept (g.description.getD []) 4100)),
    Columns.field "creator_id" (.int g.creatorId),
    Columns.field "is_disbanded" (.bool (decide (g.isDisbanded ≠ 0))),
    Columns.field "members" (.arr (ms.map memberValue))]

def errorValue (msg : String) : Value :=
  .obj [Columns.field "type" (.str (ascii "error")), Columns.field "msg" (.str (ascii msg))]

/-- The answer to a request for a group. -/
def groupAnswer (groupId : ℤ) (isMember : Bool) (group : Option GroupRow)
    (members : Option (List MemberRow)) : Value :=
  if groupId ≤ 0 then errorValue "Invalid group_id"
  else if isMember = false then errorValue "Not a member"
  else
    match group, members with
    | some g, some ms => groupValue groupId g ms
    | _, _ => errorValue "Group not found"

/-! ### How long the rows are -/

def friendLength (f : FriendRecord) : ℕ :=
  66 + (dec f.id).length + (jsonEsc f.username.text 130).length +
    (jsonEsc f.displayName.text 210).length + f.status.text.length + f.lastSeen.text.length

def requestLength (r : FriendRequestRecord) : ℕ :=
  76 + (dec r.requestId).length + (dec r.userId).length + (jsonEsc r.username.text 130).length +
    (jsonEsc r.displayName.text 210).length + r.requestedAt.text.length

def foundLength (u : UserRecord) : ℕ :=
  51 + (dec u.id).length + (jsonEsc u.username.text 130).length +
    (jsonEsc u.displayName.text 215).length + u.status.text.length

def memberLength (m : MemberRow) : ℕ :=
  36 + (dec m.userId).length + (jsonEsc (m.username.getD []) 130).length + m.role.text.length

def groupHeadLength (convId : ℤ) (g : GroupRow) : ℕ :=
  101 + (dec convId).length + (jsonEsc (g.name.getD []) 210).length +
    (jsonEsc (g.description.getD []) 4100).length + (dec g.creatorId).length +
    if g.isDisbanded ≠ 0 then 4 else 5

/-- A head and rows of these lengths, the commas between the rows, the end of the list and a zero. -/
def Fits (head : ℕ) (rows : List ℕ) (size : ℕ) : Prop := head + rows.sum + (rows.length - 1) + 3 ≤ size

instance (head : ℕ) (rows : List ℕ) (size : ℕ) : Decidable (Fits head rows size) :=
  inferInstanceAs (Decidable (_ ≤ _))

/-! ### What the rows are read as -/

/-- The members of `friendRow`. -/
def friendLayout : Layout :=
  [("id", .raw), ("username", .str), ("display_name", .str), ("status", .str), ("last_seen", .str)]

theorem reads_friendRow (f : FriendRecord) : JsonReader.Reads (friendRow f) (friendValue f) := by
  have hvs : List.Forall₂ JsonReader.Reads
      (friendLayout.texts [dec f.id, jsonEsc f.username.text 130, jsonEsc f.displayName.text 210, f.status.text,
        f.lastSeen.text])
      [.int f.id, .str (kept f.username.text 130), .str (kept f.displayName.text 210),
        .str f.status.text, .str f.lastSeen.text] :=
    .cons (reads_dec _) (.cons (reads_jsonEsc _ _) (.cons (reads_jsonEsc _ _)
      (.cons (reads_plain (plain_status _)) (.cons (reads_plain f.lastSeen.plain) .nil))))
  exact (whole_fmt friendLayout rfl rfl (by decide) hvs).reads

/-- The members of `requestRow`. -/
def requestLayout : Layout :=
  [("request_id", .raw), ("user_id", .raw), ("username", .str), ("display_name", .str),
    ("requested_at", .str)]

theorem reads_requestRow (r : FriendRequestRecord) : JsonReader.Reads (requestRow r) (requestValue r) := by
  have hvs : List.Forall₂ JsonReader.Reads
      (requestLayout.texts [dec r.requestId, dec r.userId, jsonEsc r.username.text 130,
        jsonEsc r.displayName.text 210, r.requestedAt.text])
      [.int r.requestId, .int r.userId, .str (kept r.username.text 130),
        .str (kept r.displayName.text 210), .str r.requestedAt.text] :=
    .cons (reads_dec _) (.cons (reads_dec _) (.cons (reads_jsonEsc _ _) (.cons (reads_jsonEsc _ _)
      (.cons (reads_plain r.requestedAt.plain) .nil))))
  exact (whole_fmt requestLayout rfl rfl (by decide) hvs).reads

/-- The members of `foundRow`. -/
def foundLayout : Layout :=
  [("id", .raw), ("username", .str), ("display_name", .str), ("status", .str)]

theorem reads_foundRow (u : UserRecord) : JsonReader.Reads (foundRow u) (foundValue u) := by
  have hvs : List.Forall₂ JsonReader.Reads
      (foundLayout.texts [dec u.id, jsonEsc u.username.text 130, jsonEsc u.displayName.text 215, u.status.text])
      [.int u.id, .str (kept u.username.text 130), .str (kept u.displayName.text 215),
        .str u.status.text] :=
    .cons (reads_dec _) (.cons (reads_jsonEsc _ _) (.cons (reads_jsonEsc _ _)
      (.cons (reads_plain (plain_status _)) .nil)))
  exact (whole_fmt foundLayout rfl rfl (by decide) hvs).reads

/-- The members of `memberRow`. -/
def memberLayout : Layout :=
  [("user_id", .raw), ("username", .str), ("role", .str)]

theorem reads_memberRow (m : MemberRow) : JsonReader.Reads (memberRow m) (memberValue m) := by
  have hvs : List.Forall₂ JsonReader.Reads
      (memberLayout.texts [dec m.userId, jsonEsc (m.username.getD []) 130, m.role.text])
      [.int m.userId, .str (kept (m.username.getD []) 130), .str m.role.text] :=
    .cons (reads_dec _) (.cons (reads_jsonEsc _ _) (.cons (reads_plain (plain_role _)) .nil))
  exact (whole_fmt memberLayout rfl rfl (by decide) hvs).reads

/-! ### How long the texts are -/

theorem length_friendRow (f : FriendRecord) : (friendRow f).length = friendLength f := by
  rw [friendRow, length_fmt 66 rfl rfl rfl, friendLength]
  simp
  omega

theorem length_requestRow (r : FriendRequestRecord) : (requestRow r).length = requestLength r := by
  rw [requestRow, length_fmt 76 rfl rfl rfl, requestLength]
  simp
  omega

theorem length_foundRow (u : UserRecord) : (foundRow u).length = foundLength u := by
  rw [foundRow, length_fmt 51 rfl rfl rfl, foundLength]
  simp
  omega

theorem length_memberRow (m : MemberRow) : (memberRow m).length = memberLength m := by
  rw [memberRow, length_fmt 36 rfl rfl rfl, memberLength]
  simp
  omega

theorem length_groupHead (convId : ℤ) (g : GroupRow) :
    (groupHead convId g).length = groupHeadLength convId g := by
  rw [groupHead, length_fmt 101 rfl rfl rfl, groupHeadLength]
  simp [length_flag]
  omega

/-- A list of rows is sound exactly when it fits. -/
theorem lists_iff {α : Type} {row : α → Text} {value : α → Value} {length : α → ℕ} {head : Text}
    (members : List (Text × Value)) {key : Text} {size n : ℕ} (as : List α)
    (hlen : ∀ a, (row a).length = length a) (hhead : head.length = n)
    (hv : Whole (listText head (as.map row) (ascii "]\x7d")) (.obj (members ++ [(key, .arr (as.map value))]))) :
    (Frame.built ((Buffer.new size).writes (listWrites head (as.map row) (ascii "]\x7d")))).Lists
        (.obj (members ++ [(key, .arr (as.map value))])) ↔
      Fits n (as.map length) size := by
  have hmap : (as.map row).map List.length = as.map length := by simp [hlen]
  rw [← closeText_nil] at hv ⊢
  rw [Frame.Lists, Frame.wild, Frame.text, parse_listWrites_iff hv, hmap, hhead, Fits]
  simp [closeText, restText]
  omega

/-- The friends that are sent. -/
theorem friends_iff (rows : List FriendRecord) :
    (handleGetFriends rows).Lists (friendsValue (fetched rows 200)) ↔
      Fits 34 ((fetched rows 200).map friendLength) (64 + (fetched rows 200).length * 192) := by
  refine lists_iff [Columns.field "type" (.str (ascii "friends_list"))] _ length_friendRow
    (length_fmt 34 rfl rfl rfl) ?_
  exact whole_list_end [("type", .fixed "\"friends_list\"")] rfl rfl (by decide) (by decide)
    (.cons (reads_of_parse rfl) .nil) (reads_rows reads_friendRow _)

/-- The open requests that are sent. -/
theorem requests_iff (rows : List FriendRequestRecord) :
    (handleGetRequests rows).Lists (requestsValue (fetched rows 100)) ↔
      Fits 38 ((fetched rows 100).map requestLength) (64 + (fetched rows 100).length * 160) := by
  refine lists_iff [Columns.field "type" (.str (ascii "friend_requests"))] _ length_requestRow
    (length_fmt 38 rfl rfl rfl) ?_
  exact whole_list_end [("type", .fixed "\"friend_requests\"")] rfl rfl (by decide) (by decide)
    (.cons (reads_of_parse rfl) .nil) (reads_rows reads_requestRow _)

/-- The result of a search. -/
theorem search_iff (query : Text) (allowed : Bool) (rows : List UserRecord) :
    (handleSearchUser query allowed rows).Lists (searchValue (searchRows query allowed rows)) ↔
      Fits 33 ((searchRows query allowed rows).map foundLength)
        (64 + (searchRows query allowed rows).length * 128) := by
  unfold handleSearchUser searchRows
  split
  · exact ⟨fun _ => by decide, fun _ => ⟨rfl, rfl⟩⟩
  · refine lists_iff [Columns.field "type" (.str (ascii "search_result"))] _ length_foundRow
      (length_fmt 33 rfl rfl rfl) ?_
    exact whole_list_end [("type", .fixed "\"search_result\"")] rfl rfl (by decide) (by decide)
      (.cons (reads_of_parse rfl) .nil) (reads_rows reads_foundRow _)

/-- The members of the head of a group. -/
def groupLayout : Layout :=
  [("type", .fixed "\"group_info\""), ("group_id", .raw), ("name", .str), ("description", .str),
    ("creator_id", .raw), ("is_disbanded", .raw)]

/-- What they are read as. -/
def groupMembers (convId : ℤ) (g : GroupRow) : List (Text × Value) :=
  [Columns.field "type" (.str (ascii "group_info")), Columns.field "group_id" (.int convId),
    Columns.field "name" (.str (kept (g.name.getD []) 210)),
    Columns.field "description" (.str (kept (g.description.getD []) 4100)),
    Columns.field "creator_id" (.int g.creatorId),
    Columns.field "is_disbanded" (.bool (decide (g.isDisbanded ≠ 0)))]

theorem whole_group (convId : ℤ) (g : GroupRow) (ms : List MemberRow) :
    Whole (listText (groupHead convId g) (ms.map memberRow) (ascii "]\x7d")) (groupValue convId g ms) := by
  have hvs : List.Forall₂ JsonReader.Reads
      (groupLayout.texts [dec convId, jsonEsc (g.name.getD []) 210, jsonEsc (g.description.getD []) 4100,
        dec g.creatorId, flag (g.isDisbanded ≠ 0)])
      [.str (ascii "group_info"), .int convId, .str (kept (g.name.getD []) 210),
        .str (kept (g.description.getD []) 4100), .int g.creatorId, .bool (decide (g.isDisbanded ≠ 0))] :=
    .cons (reads_of_parse rfl) (.cons (reads_dec _) (.cons (reads_jsonEsc _ _)
      (.cons (reads_jsonEsc _ _) (.cons (reads_dec _) (.cons (reads_flag _) .nil)))))
  exact whole_list_end groupLayout rfl rfl (by decide) (by decide) hvs (reads_rows reads_memberRow ms)

/-- The members of a group. -/
theorem groupInfo_iff (groupId : ℤ) (isMember : Bool) (group : Option GroupRow)
    (members : Option (List MemberRow)) :
    (handleGetGroupInfo groupId isMember group members).Lists
        (groupAnswer groupId isMember group members) ↔
      ∀ g ms, 0 < groupId → isMember = true → group = some g → members = some ms →
        Fits (groupHeadLength groupId g) (ms.map memberLength) (4096 + 200 * 128) := by
  unfold handleGetGroupInfo groupAnswer
  split
  · next hid => exact ⟨fun _ g ms hpos => absurd hpos (not_lt.mpr hid), fun _ => ⟨rfl, rfl⟩⟩
  · next hid =>
    split
    · next hmember => exact ⟨fun _ g ms _ htrue => absurd (hmember ▸ htrue) (by decide), fun _ => ⟨rfl, rfl⟩⟩
    · next hmember =>
      cases group with
      | none => exact ⟨fun _ g ms _ _ hg => (nomatch hg), fun _ => ⟨rfl, rfl⟩⟩
      | some g =>
        cases members with
        | none => exact ⟨fun _ g ms _ _ _ hms => (nomatch hms), fun _ => ⟨rfl, rfl⟩⟩
        | some ms =>
          have hlists : (Frame.built ((Buffer.new (4096 + 200 * 128)).writes
              (listWrites (groupHead groupId g) (ms.map memberRow) (ascii "]\x7d")))).Lists (groupValue groupId g ms) ↔
                Fits (groupHeadLength groupId g) (ms.map memberLength) (4096 + 200 * 128) :=
            lists_iff (groupMembers groupId g) ms length_memberRow
              (length_groupHead groupId g) (whole_group groupId g ms)
          refine hlists.trans ⟨?_, fun h => h g ms (by omega) (by simpa using hmember) rfl rfl⟩
          rintro h g' ms' - - hg hms
          obtain rfl := Option.some.inj hg
          obtain rfl := Option.some.inj hms
          exact h

/-- **A list is sent whole exactly when it fits** into the estimate for its rows. -/
theorem lists_iff_fits (friends : List FriendRecord) (reqs : List FriendRequestRecord) (query : Text)
    (allowed : Bool) (results : List UserRecord) (groupId : ℤ) (isMember : Bool)
    (group : Option GroupRow) (members : Option (List MemberRow)) :
    ((handleGetFriends friends).Lists (friendsValue (fetched friends 200)) ↔
      Fits 34 ((fetched friends 200).map friendLength) (64 + (fetched friends 200).length * 192)) ∧
    ((handleGetRequests reqs).Lists (requestsValue (fetched reqs 100)) ↔
      Fits 38 ((fetched reqs 100).map requestLength) (64 + (fetched reqs 100).length * 160)) ∧
    ((handleSearchUser query allowed results).Lists
        (searchValue (searchRows query allowed results)) ↔
      Fits 33 ((searchRows query allowed results).map foundLength)
        (64 + (searchRows query allowed results).length * 128)) ∧
    ((handleGetGroupInfo groupId isMember group members).Lists
        (groupAnswer groupId isMember group members) ↔
      ∀ g ms, 0 < groupId → isMember = true → group = some g → members = some ms →
        Fits (groupHeadLength groupId g) (ms.map memberLength) (4096 + 200 * 128)) :=
  ⟨friends_iff friends, requests_iff reqs, search_iff query allowed results,
    groupInfo_iff groupId isMember group members⟩

/-- A user whose display name is 64 quotes. -/
def quotedUser : UserRecord :=
  { id := 7
    username := ⟨ascii "bob", by decide, by decide⟩
    displayName := ⟨List.replicate 64 quote, by decide, by decide⟩
    status := .online }

/-- A search that finds one such user writes past its 192 octets, and what is sent is no list. -/
theorem search_leaves_buffer :
    (handleSearchUser (ascii "bob") true [quotedUser]).wild = true ∧
      ¬ (handleSearchUser (ascii "bob") true [quotedUser]).Lists
        (searchValue (searchRows (ascii "bob") true [quotedUser])) := by
  have hwild : (handleSearchUser (ascii "bob") true [quotedUser]).wild = true := by decide +kernel
  refine ⟨hwild, fun h => ?_⟩
  rw [h.1] at hwild
  cases hwild

end SecChat.ListFrames
