import SecChat.Server.Columns

/-!
# History and inbox

The history of a conversation is printed into a buffer whose size is computed from the bodies, with an
allowance for everything else in a row; the inbox into a buffer of fixed size, with a test before each
row.  Both loops leave rows out: the history those for which there is no memory, the inbox those that are
neither a group nor a conversation with somebody else.

* `handleGetHistory`, `handleGetInbox`: the builders, from the result of the query on;
* `Complete`: every write starts inside the buffer, and the frame is a JSON text for a value;
* `length_historyRow_le`, `length_inboxRow_le`: what a row takes at most;
* `history_complete`, `inbox_complete`: both frames are complete.
-/

namespace SecChat.HistoryFrame

open CText JsonReader JsonHelpers Columns

/-- `MAX_ENCRYPTED_MESSAGE_BODY`. -/
def maxEncryptedMessageBody : ℕ := 3 * 1024 * 1024

/-- A string that is spliced into a frame as it is: a JSON text. -/
structure JsonText where
  text : Text
  value : Value
  parses : parse text = some value

/-- A frame or a part of it is built: every write starts inside the buffer, and what is in it is a JSON
text for a value. -/
def Complete (b : Buffer) (v : Value) : Prop := b.reach < b.size ∧ parse b.text = some v

/-! ### History -/

/-- A row of the query for a history. -/
structure HistoryRow where
  id : Int64
  senderId : Int32
  username : Username
  body : Option (CStr (maxEncryptedMessageBody + 1))
  sentAt : Stamp 24
  edited : Bool
  deleted : Bool
  replyToMessageId : Option Int64
  editTargetMessageId : Option Int64
  forwardedFromId : Option Int64

/-- What happens while a row is printed: whether there is memory for its body, its reactions if there is
memory for them, and whether it is pinned. -/
structure Looked where
  allocated : Bool
  reactions : Option {r : JsonText // r.text.length ≤ 4095}
  pinned : Bool

def bodyToUse (r : HistoryRow) : Text :=
  if r.deleted then [] else (r.body.map CStr.text).getD []

/-- The text of the reactions. -/
def Looked.reactionsText (l : Looked) : Text :=
  match l.reactions with
  | some r => r.1.text
  | none => ascii "[]"

/-- The first piece of a row. -/
def historyHead (r : HistoryRow) (l : Looked) : Text :=
  let ebSize := (bodyToUse r).length * 2 + 16
  let eb := jsonEsc (bodyToUse r) ebSize
  let eu := jsonEsc r.username.text 130
  let isEdited := r.edited ∧ r.deleted = false
  fmt "\x7b\"id\":%s,\"sender_id\":%s,\"sender\":\"%s\",\"body\":\"%s\",\"time\":\"%s\",\"edited\":%s,\"deleted\":%s,\"pinned\":%s,\"reactions\":%s"
    [dec r.id.toInt, dec r.senderId.toInt, eu, eb, r.sentAt.text, flag isEdited, flag r.deleted,
      flag l.pinned, l.reactionsText]

/-- A piece that is written when a column is set. -/
def optional (format : String) (n : Option Int64) : List Text :=
  match n with
  | some n => [fmt format [dec n.toInt]]
  | none => []

/-- The pieces of a row. -/
def historyPieces (r : HistoryRow) (l : Looked) : List Text :=
  historyHead r l ::
    (optional ",\"reply_to_message_id\":%s" r.replyToMessageId ++
      (optional ",\"edit_target_message_id\":%s" r.editTargetMessageId ++
        (optional ",\"forwarded_from_id\":%s" r.forwardedFromId ++ [ascii "\x7d"])))

/-- The loop over the rows. -/
def historyLoop (first : Bool) (b : Buffer) : List (HistoryRow × Looked) → Buffer
  | [] => b
  | (r, l) :: rows =>
      if l.allocated = false then historyLoop first b rows
      else
        let b := if first then b else b.snprintf (ascii ",")
        historyLoop false (b.writes (historyPieces r l)) rows

/-- The size of the buffer. -/
def historyTotal (rows : List (HistoryRow × Looked)) (systemEvents : Option JsonText) : ℕ :=
  128 + (rows.map fun r => (bodyToUse r.1).length * 2 + 4600).sum +
    match systemEvents with
    | some e => e.text.length + 64
    | none => 64

/-- The text of the system events. -/
def eventsText (systemEvents : Option JsonText) : Text :=
  match systemEvents with
  | some e => e.text
  | none => ascii "[]"

/-- What is printed before the rows. -/
def historyOpen (cid : Int32) : Text :=
  fmt "\x7b\"type\":\"history\",\"conversation_id\":%lld,\"messages\":[" [dec cid.toInt]

/-- What is printed after them. -/
def historyClose (systemEvents : Option JsonText) : Text :=
  fmt "],\"system_events\":%s\x7d" [eventsText systemEvents]

/-- `handle_get_history` from the result of its query on; the rows come newest first. -/
def handleGetHistory (cid : Int32) (rows : List (HistoryRow × Looked)) (systemEvents : Option JsonText) :
    Buffer :=
  let out := Buffer.new (historyTotal rows systemEvents)
  (historyLoop true (out.snprintf (historyOpen cid)) rows.reverse).snprintf (historyClose systemEvents)

/-! ### Inbox -/

/-- `conversations.type`. -/
inductive ConvType
  | direct
  | group
  deriving DecidableEq

/-- A row of the query for an inbox. -/
structure InboxRow where
  id : Int64
  type : ConvType
  name : Option Text
  lastMessageAt : Option (Stamp 24)
  /-- Id and name of the peer. -/
  peer : Option (Int32 × Username)
  status : Option Status
  lastSeen : Option (Stamp 24)
  lastMsg : Option Text
  lastMsgId : Option Int64
  lastSenderId : Option Int32
  creatorId : Option Int32
  isDisbanded : Option ℤ
  unreadCount : Option ℤ
  muted : Bool
  archived : Bool
  convPinned : Bool
  forceUnread : Option ℤ
  disappearAfterSecs : Option Int32

/-- `INBOX_JSON_CAP`. -/
def inboxJsonCap : ℕ := 256 * 1024

/-- `MAX_INBOX_WIRE_PREVIEW`. -/
def maxInboxWirePreview : ℕ := 2048

/-- The text of a column, or another one when it is null. -/
def orElse {α : Type} (text : α → Text) (other : Text) (column : Option α) : Text :=
  match column with
  | some a => text a
  | none => other

def stampText : Option (Stamp 24) → Text := orElse (·.text) []
def disappearText : Option Int32 → Text := orElse (dec ·.toInt) (ascii "null")
def unreadText (r : InboxRow) : Text :=
  if 0 < r.unreadCount.getD 0 ∨ 0 < r.forceUnread.getD 0 then ascii "1" else ascii "0"

def groupText (r : InboxRow) : Text :=
  let escMsg := jsonEsc (r.lastMsg.getD []) (maxInboxWirePreview * 2 + 16)
  let escName := jsonEsc (r.name.getD (ascii "Unnamed Group")) 210
  fmt "\x7b\"conversation_id\":%s,\"type\":\"group\",\"name\":\"%s\",\"last_message\":\"%s\",\"last_message_at\":\"%s\",\"last_message_id\":%s,\"last_sender_id\":%s,\"creator_id\":%s,\"is_disbanded\":%s,\"unread_count\":%s,\"muted\":%s,\"archived\":%s,\"pinned_conversation\":%s,\"force_unread\":%s,\"disappear_after_secs\":%s,\"is_group\":true\x7d"
    [dec r.id.toInt, escName, escMsg, stampText r.lastMessageAt, orElse (dec ·.toInt) (ascii "0") r.lastMsgId,
      orElse (dec ·.toInt) (ascii "0") r.lastSenderId, orElse (dec ·.toInt) (ascii "null") r.creatorId,
      flag (r.isDisbanded.getD 0 ≠ 0), unreadText r, flag r.muted, flag r.archived, flag r.convPinned,
      flag (0 < r.forceUnread.getD 0), disappearText r.disappearAfterSecs]

def directText (r : InboxRow) (peer : Int32 × Username) : Text :=
  let escMsg := jsonEsc (r.lastMsg.getD []) (maxInboxWirePreview * 2 + 16)
  fmt "\x7b\"conversation_id\":%s,\"type\":\"direct\",\"other_id\":%s,\"username\":\"%s\",\"status\":\"%s\",\"last_seen\":\"%s\",\"last_message\":\"%s\",\"last_message_at\":\"%s\",\"last_message_id\":%s,\"last_sender_id\":%s,\"unread_count\":%s,\"muted\":%s,\"archived\":%s,\"pinned_conversation\":%s,\"force_unread\":%s,\"disappear_after_secs\":%s,\"is_group\":false\x7d"
    [dec r.id.toInt, dec peer.1.toInt, peer.2.text, orElse Status.text (ascii "offline") r.status,
      stampText r.lastSeen, escMsg, stampText r.lastMessageAt, orElse (dec ·.toInt) (ascii "0") r.lastMsgId,
      orElse (dec ·.toInt) (ascii "0") r.lastSenderId, unreadText r, flag r.muted, flag r.archived,
      flag r.convPinned, flag (0 < r.forceUnread.getD 0), disappearText r.disappearAfterSecs]

/-- What is printed for a row. -/
def inboxText (r : InboxRow) : Option Text :=
  match r.type, r.peer with
  | .group, _ => some (groupText r)
  | .direct, some peer => some (directText r peer)
  | .direct, none => none

/-- The loop over the rows. -/
def inboxLoop (first : Bool) (b : Buffer) : List InboxRow → Buffer
  | [] => b
  | r :: rows =>
      if inboxJsonCap ≤ b.pos + (maxInboxWirePreview * 2 + 1024) then b
      else
        match inboxText r with
        | some t => inboxLoop false (b.snprintf ((if first then [] else ascii ",") ++ t)) rows
        | none => inboxLoop first b rows

/-- `handle_get_inbox` from the result of its query on, which has at most 50 rows. -/
def handleGetInbox (rows : List InboxRow) : Buffer :=
  let out := (Buffer.new inboxJsonCap).snprintf (fmt "\x7b\"type\":\"inbox\",\"conversations\":[" [])
  (inboxLoop true out (rows.take 50)).snprintf (ascii "]\x7d")

/-! ### What the frames should say -/

/-- A member for a column that is set. -/
def optionalField (key : String) (n : Option Int64) : List (Text × Value) :=
  match n with
  | some n => [Columns.field key (.int n.toInt)]
  | none => []

def Looked.reactionsValue (l : Looked) : Value :=
  match l.reactions with
  | some r => r.1.value
  | none => .arr []

def historyValue (r : HistoryRow) (l : Looked) : Value :=
  .obj ([Columns.field "id" (.int r.id.toInt), Columns.field "sender_id" (.int r.senderId.toInt),
      Columns.field "sender" (.str (kept r.username.text 130)),
      Columns.field "body" (.str (kept (bodyToUse r) ((bodyToUse r).length * 2 + 16))),
      Columns.field "time" (.str r.sentAt.text),
      Columns.field "edited" (.bool (decide (r.edited ∧ r.deleted = false))),
      Columns.field "deleted" (.bool r.deleted), Columns.field "pinned" (.bool l.pinned),
      Columns.field "reactions" l.reactionsValue] ++
    (optionalField "reply_to_message_id" r.replyToMessageId ++
      (optionalField "edit_target_message_id" r.editTargetMessageId ++
        optionalField "forwarded_from_id" r.forwardedFromId)))

def eventsValue (systemEvents : Option JsonText) : Value :=
  match systemEvents with
  | some e => e.value
  | none => .arr []

/-- The rows that are printed, oldest first. -/
def printed (rows : List (HistoryRow × Looked)) : List (HistoryRow × Looked) :=
  rows.reverse.filter fun r => r.2.allocated

def historyFrameValue (cid : Int32) (rows : List (HistoryRow × Looked)) (systemEvents : Option JsonText) :
    Value :=
  .obj [Columns.field "type" (.str (ascii "history")), Columns.field "conversation_id" (.int cid.toInt),
    Columns.field "messages" (.arr ((printed rows).map fun r => historyValue r.1 r.2)),
    Columns.field "system_events" (eventsValue systemEvents)]

/-! ### A row of a history -/

/-- The text of a member for a column that is set. -/
def optionalMember (key : String) (n : Option Int64) : List (Text × Text) :=
  match n with
  | some n => [(ascii key, dec n.toInt)]
  | none => []

theorem restText_append (ms ms' : List (Text × Text)) :
    restText (ms ++ ms') = restText ms ++ restText ms' := by
  simp [restText]

theorem flatten_optional {format key : String} {cs : List Char} (n : Option Int64)
    (hcs : format = String.ofList cs) (h : directives cs = restDirectives [(key, .raw)]) :
    (optional format n).flatten = restText (optionalMember key n) := by
  cases n with
  | none => rfl
  | some n =>
    rw [optional, List.flatten_singleton, fmt_rest [(key, .raw)] [dec n.toInt] hcs h]
    rfl

theorem length_optional_le {format : String} {cs : List Char} (n : Option Int64) (k : ℕ)
    (hcs : format = String.ofList cs) (hargs : (directives cs).countP Option.isNone = 1)
    (hk : (directives cs).countP Option.isSome = k) : (optional format n).flatten.length ≤ k + 20 := by
  cases n with
  | none => simp [optional]
  | some n =>
    have hlen := length_int64_le n
    have hfmt : (fmt format [dec n.toInt]).length = k + ([dec n.toInt].map List.length).sum :=
      length_fmt k hcs hargs hk
    rw [optional, List.flatten_singleton, hfmt]
    simpa using hlen

theorem memberReads_optional {key : String} (n : Option Int64) (h : ∀ c ∈ ascii key, Plain c) :
    List.Forall₂ MemberReads (optionalMember key n) (optionalField key n) := by
  cases n with
  | none => exact .nil
  | some n => exact .cons ⟨content_of_plain h, reads_dec _⟩ .nil

theorem reads_reactions (l : Looked) : JsonReader.Reads l.reactionsText l.reactionsValue := by
  unfold Looked.reactionsText Looked.reactionsValue
  cases l.reactions with
  | none => exact reads_of_parse rfl
  | some r => exact reads_of_parse r.1.parses

theorem length_reactionsText_le (l : Looked) : l.reactionsText.length ≤ 4095 := by
  unfold Looked.reactionsText
  cases l.reactions with
  | none => decide
  | some r => exact r.2

/-- The text of a row that is printed. -/
def historyText (r : HistoryRow × Looked) : Text := (historyPieces r.1 r.2).flatten

/-- The members of the first piece of a row. -/
def historyLayout : Layout :=
  [("id", .raw), ("sender_id", .raw), ("sender", .str), ("body", .str), ("time", .str), ("edited", .raw),
    ("deleted", .raw), ("pinned", .raw), ("reactions", .raw)]

/-- Its arguments. -/
def historyArgs (r : HistoryRow) (l : Looked) : List Text :=
  [dec r.id.toInt, dec r.senderId.toInt, jsonEsc r.username.text 130,
    jsonEsc (bodyToUse r) ((bodyToUse r).length * 2 + 16), r.sentAt.text,
    flag (r.edited ∧ r.deleted = false), flag r.deleted, flag l.pinned, l.reactionsText]

/-- The members of the other pieces. -/
def historyOptional (r : HistoryRow) : List (Text × Text) :=
  optionalMember "reply_to_message_id" r.replyToMessageId ++
    (optionalMember "edit_target_message_id" r.editTargetMessageId ++
      optionalMember "forwarded_from_id" r.forwardedFromId)

theorem flatten_historyPieces (r : HistoryRow) (l : Looked) :
    (historyPieces r l).flatten =
      objText (historyLayout.members (historyArgs r l) ++ historyOptional r) := by
  have hend : ascii "\x7d" = [rbrace] := rfl
  have hhead : ∀ ms, historyHead r l ++ (restText ms ++ [rbrace]) =
      objText (historyLayout.members (historyArgs r l) ++ ms) := fun ms =>
    fmt_body historyLayout (historyArgs r l) ms (by decide) rfl rfl
  have hreply : (optional ",\"reply_to_message_id\":%s" r.replyToMessageId).flatten =
      restText (optionalMember "reply_to_message_id" r.replyToMessageId) := flatten_optional _ rfl rfl
  have hedit : (optional ",\"edit_target_message_id\":%s" r.editTargetMessageId).flatten =
      restText (optionalMember "edit_target_message_id" r.editTargetMessageId) :=
    flatten_optional _ rfl rfl
  have hforward : (optional ",\"forwarded_from_id\":%s" r.forwardedFromId).flatten =
      restText (optionalMember "forwarded_from_id" r.forwardedFromId) := flatten_optional _ rfl rfl
  rw [← hhead, historyOptional, historyPieces, List.flatten_cons, List.flatten_append,
    List.flatten_append, List.flatten_append, hreply, hedit, hforward, restText_append, restText_append,
    hend]
  simp

theorem whole_historyPieces (r : HistoryRow) (l : Looked) :
    Whole (historyPieces r l).flatten (historyValue r l) := by
  have hvs : List.Forall₂ JsonReader.Reads (historyLayout.texts (historyArgs r l))
      [.int r.id.toInt, .int r.senderId.toInt, .str (kept r.username.text 130),
        .str (kept (bodyToUse r) ((bodyToUse r).length * 2 + 16)), .str r.sentAt.text,
        .bool (decide (r.edited ∧ r.deleted = false)), .bool (decide (r.deleted = true)),
        .bool (decide (l.pinned = true)), l.reactionsValue] :=
    .cons (reads_dec _) (.cons (reads_dec _) (.cons (reads_jsonEsc _ _) (.cons (reads_jsonEsc _ _)
      (.cons (reads_plain r.sentAt.plain) (.cons (reads_flag _) (.cons (reads_flag _)
        (.cons (reads_flag _) (.cons (reads_reactions l) .nil))))))))
  rw [Bool.decide_eq_true, Bool.decide_eq_true] at hvs
  rw [flatten_historyPieces]
  refine whole_objText (List.rel_append (memberReads_zip (by decide) hvs) ?_)
  exact List.rel_append (memberReads_optional _ (by decide))
    (List.rel_append (memberReads_optional _ (by decide)) (memberReads_optional _ (by decide)))

theorem reads_historyText (r : HistoryRow × Looked) :
    JsonReader.Reads (historyText r) (historyValue r.1 r.2) := (whole_historyPieces r.1 r.2).reads

/-- **A row takes less than its allowance**, with a comma. -/
theorem length_historyPieces_le (r : HistoryRow) (l : Looked) :
    (historyPieces r l).flatten.length + 1 ≤ (bodyToUse r).length * 2 + 4600 := by
  have hid := length_int64_le r.id
  have hsender := length_int32_le r.senderId
  have hname := length_username_le r.username
  have hbody : (jsonEsc (bodyToUse r) ((bodyToUse r).length * 2 + 16)).length + 2 ≤
      (bodyToUse r).length * 2 + 16 := length_jsonEsc_le (by omega)
  have htime := r.sentAt.fits
  have hreactions := length_reactionsText_le l
  have hedited := length_flag_le (r.edited ∧ r.deleted = false)
  have hdeleted := length_flag_le (r.deleted = true)
  have hpinned := length_flag_le (l.pinned = true)
  have hhead : (historyHead r l).length ≤ (bodyToUse r).length * 2 + 4336 := by
    have hfmt : (historyHead r l).length = 95 + ([dec r.id.toInt, dec r.senderId.toInt,
        jsonEsc r.username.text 130, jsonEsc (bodyToUse r) ((bodyToUse r).length * 2 + 16),
        r.sentAt.text, flag (r.edited ∧ r.deleted = false), flag r.deleted, flag l.pinned,
        l.reactionsText].map List.length).sum := length_fmt 95 rfl rfl rfl
    rw [hfmt]
    simp only [List.map_cons, List.map_nil, List.sum_cons, List.sum_nil]
    omega
  have hreply : (optional ",\"reply_to_message_id\":%s" r.replyToMessageId).flatten.length ≤ 43 :=
    length_optional_le _ 23 rfl rfl rfl
  have hedit : (optional ",\"edit_target_message_id\":%s" r.editTargetMessageId).flatten.length ≤ 46 :=
    length_optional_le _ 26 rfl rfl rfl
  have hforward : (optional ",\"forwarded_from_id\":%s" r.forwardedFromId).flatten.length ≤ 41 :=
    length_optional_le _ 21 rfl rfl rfl
  have hend : (ascii "\x7d").length = 1 := rfl
  simp only [historyPieces, List.flatten_cons, List.flatten_append, List.flatten_nil,
    List.length_append, List.append_nil, hend]
  omega

theorem length_historyText_le (r : HistoryRow × Looked) :
    (historyText r).length + 1 ≤ (bodyToUse r.1).length * 2 + 4600 := length_historyPieces_le r.1 r.2

/-! ### The history -/

/-- The loop writes the rows for which there is memory. -/
theorem historyLoop_eq (first : Bool) (b : Buffer) (rows : List (HistoryRow × Looked)) :
    historyLoop first b rows = b.writes (rowParts first
      ((rows.filter fun r => r.2.allocated).map fun r => historyPieces r.1 r.2)) := by
  induction rows generalizing first b with
  | nil => rfl
  | cons row rows ih =>
    obtain ⟨r, l⟩ := row
    unfold historyLoop
    cases hl : l.allocated with
    | false =>
      rw [if_pos rfl, ih, List.filter_cons_of_neg (by simp [hl])]
    | true =>
      rw [if_neg (by simp), ih, List.filter_cons_of_pos (by simpa using hl), List.map_cons, rowParts,
        writes_append, writes_append]
      cases first <;> rfl

/-- Pieces that fit, and together are a JSON text, make a complete frame. -/
theorem complete_writes {size : ℕ} {ts : List Text} {last : Text} {v : Value}
    (hv : parse (ts ++ [last]).flatten = some v) (hsize : (ts ++ [last]).flatten.length < size) :
    Complete ((Buffer.new size).writes (ts ++ [last])) v := by
  obtain ⟨-, htext⟩ := text_writes hsize
  have hsz : ((Buffer.new size).writes (ts ++ [last])).size = size := size_writes _ _
  refine ⟨?_, by rw [htext, hv]⟩
  rw [hsz, reach_writes_concat]
  rw [List.flatten_append, List.length_append] at hsize
  omega

theorem reads_events (systemEvents : Option JsonText) :
    JsonReader.Reads (eventsText systemEvents) (eventsValue systemEvents) := by
  cases systemEvents with
  | none => exact reads_of_parse rfl
  | some e => exact reads_of_parse e.parses

theorem historyClose_eq (systemEvents : Option JsonText) :
    historyClose systemEvents = closeText [(ascii "system_events", eventsText systemEvents)] := by
  have hdirectives : directives "],\"system_events\":%s\x7d".toList =
      (rbracket :: comma :: (quoted (ascii "system_events") ++ [colon])).map some ++
        ([none] ++ [rbrace].map some) := by decide +kernel
  rw [historyClose, fmt, hdirectives, fill_append, fill_map_some, countP_map_some, List.drop_zero,
    fill_append]
  simp [fill, closeText, restText, memberText]

/-- The rows with their commas take what was reckoned for them. -/
theorem length_join_le {α : Type} {text : α → Text} {allowance : α → ℕ}
    (h : ∀ a, (text a).length + 1 ≤ allowance a) (as : List α) :
    (join (as.map text)).length ≤ (as.map allowance).sum := by
  have hsum : (as.map fun a => (text a).length).sum + as.length ≤ (as.map allowance).sum := by
    induction as with
    | nil => simp
    | cons a as ih =>
      have := h a
      simp only [List.map_cons, List.sum_cons, List.length_cons]
      omega
  rw [length_join, List.map_map, List.length_map]
  have hcomp : (List.length ∘ text) = fun a => (text a).length := rfl
  rw [hcomp]
  omega

/-- The rows that are left out make the sum no larger. -/
theorem sum_filter_reverse_le {α : Type} (f : α → ℕ) (p : α → Bool) (as : List α) :
    ((as.reverse.filter p).map f).sum ≤ (as.map f).sum := by
  have hsub : ((as.reverse.filter p).map f).Sublist (as.reverse.map f) := List.filter_sublist.map f
  have hle := hsub.sum_le_sum fun _ _ => Nat.zero_le _
  rwa [List.map_reverse, List.sum_reverse] at hle

/-- A frame that is written between an opening and a closing text. -/
theorem writes_frame (b : Buffer) (head last : Text) (ts : List Text) :
    ((b.snprintf head).writes ts).snprintf last = b.writes (head :: ts ++ [last]) := by
  rw [writes_append]
  rfl

theorem whole_history (cid : Int32) (rows : List (HistoryRow × Looked))
    (systemEvents : Option JsonText) :
    Whole (listText (historyOpen cid) ((printed rows).map historyText)
        (closeText [(ascii "system_events", eventsText systemEvents)]))
      (historyFrameValue cid rows systemEvents) := by
  have hvs : List.Forall₂ JsonReader.Reads
      (Layout.texts [("type", .fixed "\"history\""), ("conversation_id", .raw)] [dec cid.toInt])
      [.str (ascii "history"), .int cid.toInt] :=
    .cons (reads_of_parse rfl) (.cons (reads_dec _) .nil)
  have hrows : List.Forall₂ JsonReader.Reads ((printed rows).map historyText)
      ((printed rows).map fun r => historyValue r.1 r.2) :=
    reads_rows reads_historyText _
  have hrest : List.Forall₂ MemberReads [(ascii "system_events", eventsText systemEvents)]
      [Columns.field "system_events" (eventsValue systemEvents)] :=
    .cons ⟨content_of_plain (show ∀ c ∈ ascii "system_events", Plain c by decide),
      reads_events systemEvents⟩ .nil
  exact whole_list [("type", .fixed "\"history\""), ("conversation_id", .raw)] rfl rfl (by decide)
    (by decide) hvs hrows hrest

/-- What a history takes is less than its buffer. -/
theorem length_history_lt (cid : Int32) (rows : List (HistoryRow × Looked))
    (systemEvents : Option JsonText) :
    (historyOpen cid).length +
        ((join ((printed rows).map historyText)).length +
          (historyClose systemEvents).length) < historyTotal rows systemEvents := by
  have hopen : (historyOpen cid).length ≤ 60 := by
    have hfmt : (historyOpen cid).length = 49 + ([dec cid.toInt].map List.length).sum :=
      length_fmt 49 rfl rfl rfl
    have hcid := length_int32_le cid
    rw [hfmt, List.map_singleton, List.sum_singleton]
    omega
  have hclose : (historyClose systemEvents).length = 19 + (eventsText systemEvents).length := by
    have hfmt : (historyClose systemEvents).length =
        19 + ([eventsText systemEvents].map List.length).sum := length_fmt 19 rfl rfl rfl
    rw [hfmt, List.map_singleton, List.sum_singleton]
  have hrows := length_join_le length_historyText_le (printed rows)
  have hsum := sum_filter_reverse_le
    (fun r : HistoryRow × Looked => (bodyToUse r.1).length * 2 + 4600) (fun r => r.2.allocated) rows
  rw [← printed] at hsum
  rw [hclose]
  unfold historyTotal
  cases systemEvents with
  | none =>
    have hevents : (eventsText none).length = 2 := rfl
    simp only [hevents]
    omega
  | some e =>
    simp only [eventsText]
    omega

theorem flatten_historyParts (rows : List (HistoryRow × Looked)) :
    (rowParts true (rows.map fun r => historyPieces r.1 r.2)).flatten = join (rows.map historyText) := by
  rw [flatten_rowParts, List.map_map]
  exact congrArg join (List.map_congr_left fun r _ => rfl)

/-- The writes of a history. -/
theorem handleGetHistory_eq (cid : Int32) (rows : List (HistoryRow × Looked))
    (systemEvents : Option JsonText) :
    ∃ ts, handleGetHistory cid rows systemEvents =
        (Buffer.new (historyTotal rows systemEvents)).writes (ts ++ [historyClose systemEvents]) ∧
      (ts ++ [historyClose systemEvents]).flatten =
        listText (historyOpen cid) ((printed rows).map historyText) (historyClose systemEvents) := by
  refine ⟨historyOpen cid :: rowParts true ((printed rows).map fun r => historyPieces r.1 r.2), ?_, ?_⟩
  · rw [handleGetHistory, historyLoop_eq, writes_frame, ← printed]
  · rw [List.flatten_append, List.flatten_cons, flatten_historyParts, List.flatten_singleton, listText,
      List.append_assoc]

theorem length_historyText_lt (cid : Int32) (rows : List (HistoryRow × Looked))
    (systemEvents : Option JsonText) :
    (listText (historyOpen cid) ((printed rows).map historyText) (historyClose systemEvents)).length <
      historyTotal rows systemEvents := by
  rw [listText, List.length_append, List.length_append]
  exact length_history_lt cid rows systemEvents

/-- The text of a history. -/
theorem text_handleGetHistory (cid : Int32) (rows : List (HistoryRow × Looked))
    (systemEvents : Option JsonText) :
    (handleGetHistory cid rows systemEvents).text =
      listText (historyOpen cid) ((printed rows).map historyText) (historyClose systemEvents) := by
  obtain ⟨ts, heq, hflat⟩ := handleGetHistory_eq cid rows systemEvents
  have hlen := length_historyText_lt cid rows systemEvents
  rw [← hflat] at hlen ⊢
  rw [heq, (text_writes hlen).2]

/-- **A history is sent whole**, and lists the rows for which there was memory. -/
theorem history_complete (cid : Int32) (rows : List (HistoryRow × Looked))
    (systemEvents : Option JsonText) :
    Complete (handleGetHistory cid rows systemEvents) (historyFrameValue cid rows systemEvents) := by
  obtain ⟨ts, heq, hflat⟩ := handleGetHistory_eq cid rows systemEvents
  rw [heq]
  refine complete_writes ?_ ?_
  · rw [hflat, historyClose_eq]
    exact (whole_history cid rows systemEvents).parse
  · rw [hflat]
    exact length_historyText_lt cid rows systemEvents

/-! ### The inbox -/

theorem plain_stampText (s : Option (Stamp 24)) : ∀ c ∈ stampText s, Plain c := by
  cases s with
  | none => simp [stampText, orElse]
  | some s => exact s.plain

theorem length_stampText_le (s : Option (Stamp 24)) : (stampText s).length ≤ 23 := by
  cases s with
  | none => simp [stampText, orElse]
  | some s => exact Nat.le_of_lt_succ s.fits

/-- The value of a number that may be missing. -/
def orNumber {α : Type} (toInt : α → ℤ) (other : Value) (n : Option α) : Value :=
  match n with
  | some n => .int (toInt n)
  | none => other

theorem reads_orNumber {α : Type} {toInt : α → ℤ} {other : Text} {v : Value} (h : JsonReader.Reads other v)
    (n : Option α) : JsonReader.Reads (orElse (fun a => dec (toInt a)) other n) (orNumber toInt v n) := by
  cases n with
  | none => exact h
  | some n => exact reads_dec _

theorem length_orNumber_le {α : Type} {toInt : α → ℤ} {other : Text} {k : ℕ}
    (h : ∀ a, (dec (toInt a)).length ≤ k) (ho : other.length ≤ k) (n : Option α) :
    (orElse (fun a => dec (toInt a)) other n).length ≤ k := by
  cases n with
  | none => exact ho
  | some n => exact h n

/-- The value of `unreadText`. -/
def unreadValue (r : InboxRow) : Value :=
  .int (if 0 < r.unreadCount.getD 0 ∨ 0 < r.forceUnread.getD 0 then 1 else 0)

theorem reads_unreadText (r : InboxRow) : JsonReader.Reads (unreadText r) (unreadValue r) := by
  unfold unreadText unreadValue
  split
  · exact reads_dec 1
  · exact reads_dec 0

theorem length_unreadText (r : InboxRow) : (unreadText r).length = 1 := by
  unfold unreadText
  split <;> rfl

theorem plain_status_or (s : Option Status) : ∀ c ∈ orElse Status.text (ascii "offline") s, Plain c := by
  cases s with
  | none => decide
  | some s => exact plain_status s

theorem length_status_or_le (s : Option Status) : (orElse Status.text (ascii "offline") s).length ≤ 7 := by
  cases s with
  | none => decide
  | some s => exact length_status_le s

/-- The members of a group. -/
def groupLayout : Layout :=
  [("conversation_id", .raw), ("type", .fixed "\"group\""), ("name", .str), ("last_message", .str),
    ("last_message_at", .str), ("last_message_id", .raw), ("last_sender_id", .raw), ("creator_id", .raw),
    ("is_disbanded", .raw), ("unread_count", .raw), ("muted", .raw), ("archived", .raw),
    ("pinned_conversation", .raw), ("force_unread", .raw), ("disappear_after_secs", .raw),
    ("is_group", .fixed "true")]

def groupValue (r : InboxRow) : Value :=
  .obj [Columns.field "conversation_id" (.int r.id.toInt), Columns.field "type" (.str (ascii "group")),
    Columns.field "name" (.str (kept (r.name.getD (ascii "Unnamed Group")) 210)),
    Columns.field "last_message" (.str (kept (r.lastMsg.getD []) 4112)),
    Columns.field "last_message_at" (.str (stampText r.lastMessageAt)),
    Columns.field "last_message_id" (orNumber Int64.toInt (.int 0) r.lastMsgId),
    Columns.field "last_sender_id" (orNumber Int32.toInt (.int 0) r.lastSenderId),
    Columns.field "creator_id" (orNumber Int32.toInt .null r.creatorId),
    Columns.field "is_disbanded" (.bool (decide (r.isDisbanded.getD 0 ≠ 0))),
    Columns.field "unread_count" (unreadValue r),
    Columns.field "muted" (.bool r.muted), Columns.field "archived" (.bool r.archived),
    Columns.field "pinned_conversation" (.bool r.convPinned),
    Columns.field "force_unread" (.bool (decide (0 < r.forceUnread.getD 0))),
    Columns.field "disappear_after_secs" (orNumber Int32.toInt .null r.disappearAfterSecs),
    Columns.field "is_group" (.bool true)]

set_option maxRecDepth 2000 in
theorem reads_groupText (r : InboxRow) : JsonReader.Reads (groupText r) (groupValue r) := by
  have hvs : List.Forall₂ JsonReader.Reads
      (groupLayout.texts [dec r.id.toInt, jsonEsc (r.name.getD (ascii "Unnamed Group")) 210,
        jsonEsc (r.lastMsg.getD []) (maxInboxWirePreview * 2 + 16), stampText r.lastMessageAt,
        orElse (dec ·.toInt) (ascii "0") r.lastMsgId, orElse (dec ·.toInt) (ascii "0") r.lastSenderId,
        orElse (dec ·.toInt) (ascii "null") r.creatorId, flag (r.isDisbanded.getD 0 ≠ 0), unreadText r,
        flag r.muted, flag r.archived, flag r.convPinned, flag (0 < r.forceUnread.getD 0),
        disappearText r.disappearAfterSecs])
      [.int r.id.toInt, .str (ascii "group"), .str (kept (r.name.getD (ascii "Unnamed Group")) 210),
        .str (kept (r.lastMsg.getD []) 4112), .str (stampText r.lastMessageAt),
        orNumber Int64.toInt (.int 0) r.lastMsgId, orNumber Int32.toInt (.int 0) r.lastSenderId,
        orNumber Int32.toInt .null r.creatorId, .bool (decide (r.isDisbanded.getD 0 ≠ 0)), unreadValue r,
        .bool (decide (r.muted = true)), .bool (decide (r.archived = true)),
        .bool (decide (r.convPinned = true)), .bool (decide (0 < r.forceUnread.getD 0)),
        orNumber Int32.toInt .null r.disappearAfterSecs, .bool true] :=
    .cons (reads_dec _) (.cons (reads_of_parse rfl) (.cons (reads_jsonEsc _ _) (.cons (reads_jsonEsc _ _)
      (.cons (reads_plain (plain_stampText _)) (.cons (reads_orNumber (reads_dec 0) _)
      (.cons (reads_orNumber (reads_dec 0) _) (.cons (reads_orNumber reads_null _)
      (.cons (reads_flag _) (.cons (reads_unreadText r) (.cons (reads_flag _) (.cons (reads_flag _)
      (.cons (reads_flag _) (.cons (reads_flag _) (.cons (reads_orNumber reads_null _)
      (.cons reads_true .nil)))))))))))))))
  simp only [Bool.decide_eq_true] at hvs
  exact (whole_fmt groupLayout rfl (by decide +kernel) (by decide) hvs).reads

/-- The members of a conversation with somebody else. -/
def directLayout : Layout :=
  [("conversation_id", .raw), ("type", .fixed "\"direct\""), ("other_id", .raw), ("username", .str),
    ("status", .str), ("last_seen", .str), ("last_message", .str), ("last_message_at", .str),
    ("last_message_id", .raw), ("last_sender_id", .raw), ("unread_count", .raw), ("muted", .raw),
    ("archived", .raw), ("pinned_conversation", .raw), ("force_unread", .raw),
    ("disappear_after_secs", .raw), ("is_group", .fixed "false")]

def directValue (r : InboxRow) (peer : Int32 × Username) : Value :=
  .obj [Columns.field "conversation_id" (.int r.id.toInt), Columns.field "type" (.str (ascii "direct")),
    Columns.field "other_id" (.int peer.1.toInt), Columns.field "username" (.str peer.2.text),
    Columns.field "status" (.str (orElse Status.text (ascii "offline") r.status)),
    Columns.field "last_seen" (.str (stampText r.lastSeen)),
    Columns.field "last_message" (.str (kept (r.lastMsg.getD []) 4112)),
    Columns.field "last_message_at" (.str (stampText r.lastMessageAt)),
    Columns.field "last_message_id" (orNumber Int64.toInt (.int 0) r.lastMsgId),
    Columns.field "last_sender_id" (orNumber Int32.toInt (.int 0) r.lastSenderId),
    Columns.field "unread_count" (unreadValue r), Columns.field "muted" (.bool r.muted),
    Columns.field "archived" (.bool r.archived), Columns.field "pinned_conversation" (.bool r.convPinned),
    Columns.field "force_unread" (.bool (decide (0 < r.forceUnread.getD 0))),
    Columns.field "disappear_after_secs" (orNumber Int32.toInt .null r.disappearAfterSecs),
    Columns.field "is_group" (.bool false)]

set_option maxRecDepth 2000 in
theorem reads_directText (r : InboxRow) (peer : Int32 × Username) :
    JsonReader.Reads (directText r peer) (directValue r peer) := by
  have hvs : List.Forall₂ JsonReader.Reads
      (directLayout.texts [dec r.id.toInt, dec peer.1.toInt, peer.2.text,
        orElse Status.text (ascii "offline") r.status, stampText r.lastSeen,
        jsonEsc (r.lastMsg.getD []) (maxInboxWirePreview * 2 + 16), stampText r.lastMessageAt,
        orElse (dec ·.toInt) (ascii "0") r.lastMsgId, orElse (dec ·.toInt) (ascii "0") r.lastSenderId,
        unreadText r, flag r.muted, flag r.archived, flag r.convPinned, flag (0 < r.forceUnread.getD 0),
        disappearText r.disappearAfterSecs])
      [.int r.id.toInt, .str (ascii "direct"), .int peer.1.toInt, .str peer.2.text,
        .str (orElse Status.text (ascii "offline") r.status), .str (stampText r.lastSeen),
        .str (kept (r.lastMsg.getD []) 4112), .str (stampText r.lastMessageAt),
        orNumber Int64.toInt (.int 0) r.lastMsgId, orNumber Int32.toInt (.int 0) r.lastSenderId,
        unreadValue r, .bool (decide (r.muted = true)), .bool (decide (r.archived = true)),
        .bool (decide (r.convPinned = true)), .bool (decide (0 < r.forceUnread.getD 0)),
        orNumber Int32.toInt .null r.disappearAfterSecs, .bool false] :=
    .cons (reads_dec _) (.cons (reads_of_parse rfl) (.cons (reads_dec _) (.cons (reads_plain peer.2.plain)
      (.cons (reads_plain (plain_status_or _)) (.cons (reads_plain (plain_stampText _))
      (.cons (reads_jsonEsc _ _) (.cons (reads_plain (plain_stampText _))
      (.cons (reads_orNumber (reads_dec 0) _) (.cons (reads_orNumber (reads_dec 0) _)
      (.cons (reads_unreadText r) (.cons (reads_flag _) (.cons (reads_flag _) (.cons (reads_flag _)
      (.cons (reads_flag _) (.cons (reads_orNumber reads_null _)
      (.cons reads_false .nil))))))))))))))))
  simp only [Bool.decide_eq_true] at hvs
  exact (whole_fmt directLayout rfl (by decide +kernel) (by decide) hvs).reads

/-- The value of a row that is printed. -/
def inboxValue (r : InboxRow) : Option Value :=
  match r.type, r.peer with
  | .group, _ => some (groupValue r)
  | .direct, some peer => some (directValue r peer)
  | .direct, none => none

def inboxFrameValue (rows : List InboxRow) : Value :=
  .obj [Columns.field "type" (.str (ascii "inbox")),
    Columns.field "conversations" (.arr ((rows.take 50).filterMap inboxValue))]

set_option maxRecDepth 4000 in
theorem length_groupText_le (r : InboxRow) : (groupText r).length ≤ 4800 := by
  have hname : (jsonEsc (r.name.getD (ascii "Unnamed Group")) 210).length ≤ 208 :=
    Nat.le_of_add_le_add_right (length_jsonEsc_le (by decide))
  have hmsg : (jsonEsc (r.lastMsg.getD []) (maxInboxWirePreview * 2 + 16)).length ≤ 4110 :=
    Nat.le_of_add_le_add_right (length_jsonEsc_le (by decide))
  have hbounds : List.Forall₂ (fun t k => t.length ≤ k)
      [dec r.id.toInt, jsonEsc (r.name.getD (ascii "Unnamed Group")) 210,
        jsonEsc (r.lastMsg.getD []) (maxInboxWirePreview * 2 + 16), stampText r.lastMessageAt,
        orElse (dec ·.toInt) (ascii "0") r.lastMsgId, orElse (dec ·.toInt) (ascii "0") r.lastSenderId,
        orElse (dec ·.toInt) (ascii "null") r.creatorId, flag (r.isDisbanded.getD 0 ≠ 0), unreadText r,
        flag r.muted, flag r.archived, flag r.convPinned, flag (0 < r.forceUnread.getD 0),
        disappearText r.disappearAfterSecs]
      [20, 208, 4110, 23, 20, 11, 11, 5, 1, 5, 5, 5, 5, 11] :=
    .cons (length_int64_le _) (.cons hname (.cons hmsg (.cons (length_stampText_le _)
      (.cons (length_orNumber_le length_int64_le (by decide) _)
      (.cons (length_orNumber_le length_int32_le (by decide) _)
      (.cons (length_orNumber_le length_int32_le (by decide) _) (.cons (length_flag_le _)
      (.cons (length_unreadText r).le (.cons (length_flag_le _) (.cons (length_flag_le _)
      (.cons (length_flag_le _) (.cons (length_flag_le _)
      (.cons (length_orNumber_le length_int32_le (by decide) _) .nil)))))))))))))
  have hlen : (groupText r).length ≤ 267 + _ := length_fmt_le 267 rfl rfl rfl hbounds
  exact hlen.trans (by decide)

set_option maxRecDepth 4000 in
theorem length_directText_le (r : InboxRow) (peer : Int32 × Username) :
    (directText r peer).length ≤ 4800 := by
  have hmsg : (jsonEsc (r.lastMsg.getD []) (maxInboxWirePreview * 2 + 16)).length ≤ 4110 :=
    Nat.le_of_add_le_add_right (length_jsonEsc_le (by decide))
  have hbounds : List.Forall₂ (fun t k => t.length ≤ k)
      [dec r.id.toInt, dec peer.1.toInt, peer.2.text, orElse Status.text (ascii "offline") r.status,
        stampText r.lastSeen, jsonEsc (r.lastMsg.getD []) (maxInboxWirePreview * 2 + 16),
        stampText r.lastMessageAt, orElse (dec ·.toInt) (ascii "0") r.lastMsgId,
        orElse (dec ·.toInt) (ascii "0") r.lastSenderId, unreadText r, flag r.muted, flag r.archived,
        flag r.convPinned, flag (0 < r.forceUnread.getD 0), disappearText r.disappearAfterSecs]
      [20, 11, 63, 7, 23, 4110, 23, 20, 11, 1, 5, 5, 5, 5, 11] :=
    .cons (length_int64_le _) (.cons (length_int32_le _) (.cons peer.2.length_le
      (.cons (length_status_or_le _) (.cons (length_stampText_le _) (.cons hmsg
      (.cons (length_stampText_le _) (.cons (length_orNumber_le length_int64_le (by decide) _)
      (.cons (length_orNumber_le length_int32_le (by decide) _) (.cons (length_unreadText r).le
      (.cons (length_flag_le _) (.cons (length_flag_le _) (.cons (length_flag_le _)
      (.cons (length_flag_le _)
      (.cons (length_orNumber_le length_int32_le (by decide) _) .nil))))))))))))))
  have hlen : (directText r peer).length ≤ 282 + _ := length_fmt_le 282 rfl rfl rfl hbounds
  exact hlen.trans (by decide)

/-- A row is printed as what it should say, or not at all. -/
theorem inboxText_cases (r : InboxRow) :
    (inboxText r = none ∧ inboxValue r = none) ∨
      ∃ t v, inboxText r = some t ∧ inboxValue r = some v ∧ JsonReader.Reads t v ∧ t.length ≤ 4800 := by
  cases htype : r.type with
  | group =>
    refine .inr ⟨groupText r, groupValue r, ?_, ?_, reads_groupText r, length_groupText_le r⟩
    · simp only [inboxText, htype]
    · simp only [inboxValue, htype]
  | direct =>
    cases hpeer : r.peer with
    | none =>
      refine .inl ⟨?_, ?_⟩
      · simp only [inboxText, htype, hpeer]
      · simp only [inboxValue, htype, hpeer]
    | some peer =>
      refine .inr ⟨directText r peer, directValue r peer, ?_, ?_, reads_directText r peer,
        length_directText_le r peer⟩
      · simp only [inboxText, htype, hpeer]
      · simp only [inboxValue, htype, hpeer]

theorem reads_inboxRows (rows : List InboxRow) :
    List.Forall₂ JsonReader.Reads (rows.filterMap inboxText) (rows.filterMap inboxValue) := by
  induction rows with
  | nil => exact .nil
  | cons r rows ih =>
    rcases inboxText_cases r with ⟨ht, hv⟩ | ⟨t, v, ht, hv, hreads, -⟩
    · rwa [List.filterMap_cons_none ht, List.filterMap_cons_none hv]
    · rw [List.filterMap_cons_some ht, List.filterMap_cons_some hv]
      exact .cons hreads ih

/-- **A row of the inbox takes less than what the test before it leaves.** -/
theorem length_inboxText_le {r : InboxRow} {t : Text} (h : inboxText r = some t) : t.length ≤ 4800 := by
  rcases inboxText_cases r with ⟨hnone, -⟩ | ⟨t', v, ht', -, -, hlen⟩
  · rw [hnone] at h
    cases h
  · rw [ht'] at h
    obtain rfl := Option.some.inj h
    exact hlen

/-- The loop does not stop early as long as there is room for as many rows as are left. -/
theorem inboxLoop_eq (first : Bool) (b : Buffer) (rows : List InboxRow)
    (h : b.pos + 4801 * rows.length + 5120 < 262144) :
    ∃ ts, inboxLoop first b rows = b.writes ts ∧
      ts.flatten.length ≤ 4801 * rows.length ∧
      ts.flatten = if first then join (rows.filterMap inboxText)
        else (rows.filterMap inboxText).flatMap (comma :: ·) := by
  induction rows generalizing first b with
  | nil => exact ⟨[], rfl, by simp, by cases first <;> rfl⟩
  | cons r rows ih =>
    rw [List.length_cons] at h
    have hroom : b.pos + 4801 * rows.length + 5120 < 262144 := by omega
    have hgoes : ¬ inboxJsonCap ≤ b.pos + (maxInboxWirePreview * 2 + 1024) := by
      show ¬ 262144 ≤ b.pos + 5120
      omega
    have hmore : 4801 * rows.length ≤ 4801 * (r :: rows).length :=
      Nat.mul_le_mul_left _ (Nat.le_succ _)
    unfold inboxLoop
    rw [if_neg hgoes]
    cases ht : inboxText r with
    | none =>
      obtain ⟨ts, heq, hlen, hflat⟩ := ih first b hroom
      refine ⟨ts, heq, hlen.trans hmore, ?_⟩
      rw [hflat, List.filterMap_cons_none ht]
    | some t =>
      have htlen := length_inboxText_le ht
      have hpos : (b.snprintf ((if first then [] else ascii ",") ++ t)).pos ≤ b.pos + 4801 := by
        rw [pos_snprintf, List.length_append]
        cases first
        · have hcomma : (ascii ",").length = 1 := rfl
          simp only [Bool.false_eq_true, if_false, hcomma]
          omega
        · simp
          omega
      obtain ⟨ts, heq, hlen, hflat⟩ := ih false (b.snprintf ((if first then [] else ascii ",") ++ t))
        (by omega)
      refine ⟨((if first then [] else ascii ",") ++ t) :: ts, heq, ?_, ?_⟩
      · rw [pos_snprintf] at hpos
        rw [List.flatten_cons, List.length_append, List.length_cons]
        omega
      · rw [List.flatten_cons, hflat, List.filterMap_cons_some ht]
        cases first
        · rfl
        · rfl

theorem whole_inbox (rows : List InboxRow) :
    Whole (listText (fmt "\x7b\"type\":\"inbox\",\"conversations\":[" [])
      ((rows.take 50).filterMap inboxText) (ascii "]\x7d")) (inboxFrameValue rows) := by
  have hvs : List.Forall₂ JsonReader.Reads (Layout.texts [("type", .fixed "\"inbox\"")] [])
      [.str (ascii "inbox")] := .cons (reads_of_parse rfl) .nil
  exact whole_list_end [("type", .fixed "\"inbox\"")] rfl rfl (by decide) (by decide) hvs
    (reads_inboxRows (rows.take 50))

/-- The writes of an inbox. -/
theorem handleGetInbox_eq (rows : List InboxRow) :
    ∃ ts, handleGetInbox rows = (Buffer.new inboxJsonCap).writes (ts ++ [ascii "]\x7d"]) ∧
      (ts ++ [ascii "]\x7d"]).flatten = listText (fmt "\x7b\"type\":\"inbox\",\"conversations\":[" [])
        ((rows.take 50).filterMap inboxText) (ascii "]\x7d") ∧
      (ts ++ [ascii "]\x7d"]).flatten.length < inboxJsonCap := by
  have hopen : (fmt "\x7b\"type\":\"inbox\",\"conversations\":[" []).length = 33 := length_fmt 33 rfl rfl rfl
  have hrows : (rows.take 50).length ≤ 50 := List.length_take_le _ _
  obtain ⟨ts, heq, hlen, hflat⟩ := inboxLoop_eq true
    ((Buffer.new inboxJsonCap).snprintf (fmt "\x7b\"type\":\"inbox\",\"conversations\":[" []))
    (rows.take 50) (by
      rw [pos_snprintf, hopen]
      simp only [Buffer.new]
      omega)
  rw [if_pos rfl] at hflat
  refine ⟨fmt "\x7b\"type\":\"inbox\",\"conversations\":[" [] :: ts, ?_, ?_, ?_⟩
  · rw [handleGetInbox, heq, writes_frame]
  · rw [List.flatten_append, List.flatten_cons, hflat, List.flatten_singleton, listText,
      List.append_assoc]
  · have hend : (ascii "]\x7d").length = 2 := rfl
    show _ < 262144
    rw [List.flatten_append, List.flatten_cons, List.flatten_singleton, List.length_append,
      List.length_append, hopen, hend]
    omega

/-- The text of an inbox. -/
theorem text_handleGetInbox (rows : List InboxRow) :
    (handleGetInbox rows).text = listText (fmt "\x7b\"type\":\"inbox\",\"conversations\":[" [])
      ((rows.take 50).filterMap inboxText) (ascii "]\x7d") := by
  obtain ⟨ts, heq, hflat, hlen⟩ := handleGetInbox_eq rows
  rw [heq, (text_writes hlen).2, hflat]

/-- **An inbox is sent whole**, and lists all its rows. -/
theorem inbox_complete (rows : List InboxRow) : Complete (handleGetInbox rows) (inboxFrameValue rows) := by
  obtain ⟨ts, heq, hflat, hlen⟩ := handleGetInbox_eq rows
  rw [heq]
  refine complete_writes ?_ hlen
  rw [hflat]
  exact (whole_inbox rows).parse

/-- **Neither frame overflows or is truncated.** -/
theorem frames_complete :
    (∀ cid rows systemEvents,
      Complete (handleGetHistory cid rows systemEvents) (historyFrameValue cid rows systemEvents)) ∧
    ∀ rows, Complete (handleGetInbox rows) (inboxFrameValue rows) :=
  ⟨history_complete, inbox_complete⟩

end SecChat.HistoryFrame
