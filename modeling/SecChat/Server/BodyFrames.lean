import SecChat.Server.HistoryFrame

/-!
# The body of a message on its three paths

A body reaches a client in the frame that is broadcast when it is sent, in the frame of an edit and in a
row of a history.  Each path escapes it into an array that is reckoned at two octets for one, with 4
octets to spare on the first two paths and 16 on the third.

* `Body`: what the validation accepts;
* `messageFrame`, `editFrame`, `storedRow`: the three paths;
* `bodyOf`: the body that a client reads;
* `bodies_agree_iff`: all three are the stored body exactly when the escapes are short enough;
* `short_of_no_controls`: they are when the body has no control characters but white space.
-/

namespace SecChat.BodyFrames

open CText JsonReader JsonHelpers Columns HistoryFrame

/-- `domain_validate_message_body`. -/
def domainValidateMessageBody (body : Text) (maxLen : ℕ) : Bool := body ≠ [] ∧ body.length ≤ maxLen

/-- `domain_validate_e2e_prefix`. -/
def domainValidateE2ePrefix (body : Text) : Bool :=
  (ascii "S3PQI:").isPrefixOf body || (ascii "S3DR:").isPrefixOf body ||
    (ascii "S3MLS:").isPrefixOf body

/-- A body that was accepted. -/
structure Body where
  text : Text
  noNul : 0 ∉ text
  valid : domainValidateMessageBody text maxEncryptedMessageBody = true
  wire : domainValidateE2ePrefix text = true

/-- What a frame says besides the body. -/
structure Sent where
  id : Int64
  conversationId : Int32
  fromId : Int32
  username : Username
  time : Stamp 24

def messageText (s : Sent) (escBody : Text) : Text :=
  fmt "\x7b\"type\":\"message\",\"id\":%lld,\"conversation_id\":%lld,\"from_id\":%d,\"from\":\"%s\",\"body\":\"%s\",\"time\":\"%s\"\x7d"
    [dec s.id.toInt, dec s.conversationId.toInt, dec s.fromId.toInt, s.username.text, escBody, s.time.text]

def replyText (s : Sent) (escBody : Text) (replyTo : Int32) : Text :=
  fmt "\x7b\"type\":\"message\",\"id\":%lld,\"conversation_id\":%lld,\"from_id\":%d,\"from\":\"%s\",\"body\":\"%s\",\"reply_to_message_id\":%d,\"time\":\"%s\"\x7d"
    [dec s.id.toInt, dec s.conversationId.toInt, dec s.fromId.toInt, s.username.text, escBody,
      dec replyTo.toInt, s.time.text]

def editText (s : Sent) (escBody : Text) (msgId : Int32) : Text :=
  fmt "\x7b\"type\":\"message\",\"id\":%lld,\"conversation_id\":%lld,\"from_id\":%d,\"from\":\"%s\",\"body\":\"%s\",\"edit_target_message_id\":%lld,\"time\":\"%s\"\x7d"
    [dec s.id.toInt, dec s.conversationId.toInt, dec s.fromId.toInt, s.username.text, escBody,
      dec msgId.toInt, s.time.text]

/-- The frame of `handle_send_message`. -/
def messageFrame (s : Sent) (replyTo : Int32) (body : Text) : Buffer :=
  let escSz := body.length * 2 + 4
  let escBody := jsonEsc body escSz
  let msgSz := escBody.length + 512
  (Buffer.new msgSz).snprintf
    (if 0 < replyTo.toInt then replyText s escBody replyTo else messageText s escBody)

/-- The frame of `handle_edit_message`. -/
def editFrame (s : Sent) (msgId : Int32) (newBody : Text) : Buffer :=
  let escSz := newBody.length * 2 + 4
  let escBody := jsonEsc newBody escSz
  let notifSz := escSz + 384
  (Buffer.new notifSz).snprintf (editText s escBody msgId)

theorem Body.length_le (b : Body) : b.text.length < maxEncryptedMessageBody + 1 := by
  have h := b.valid
  simp only [domainValidateMessageBody, decide_eq_true_eq] at h
  exact Nat.lt_succ_of_le h.2

/-- A row of a history with a body that was stored and not deleted. -/
def storedRow (row : HistoryRow) (b : Body) : HistoryRow :=
  { row with body := some ⟨b.text, b.noNul, b.length_le⟩, deleted := false }

/-- The body that a client reads in a frame or a row. -/
def bodyOf (t : Text) : Option Value := (parse t).bind fun v => v.get (ascii "body")

/-! ### What the frames say -/

theorem length_sent_le (s : Sent) :
    List.Forall₂ (fun t k => t.length ≤ k)
      [dec s.id.toInt, dec s.conversationId.toInt, dec s.fromId.toInt, s.username.text] [20, 11, 11, 63] :=
  .cons (length_int64_le _) (.cons (length_int32_le _) (.cons (length_int32_le _)
    (.cons s.username.length_le .nil)))

theorem length_messageText_le (s : Sent) (escBody : Text) :
    (messageText s escBody).length ≤ escBody.length + 212 := by
  have hbounds : List.Forall₂ (fun t k => t.length ≤ k)
      [dec s.id.toInt, dec s.conversationId.toInt, dec s.fromId.toInt, s.username.text, escBody, s.time.text]
      [20, 11, 11, 63, escBody.length, 23] :=
    List.rel_append (length_sent_le s)
      (.cons (le_refl escBody.length) (.cons (Nat.le_of_lt_succ s.time.fits) .nil))
  have hlen : (messageText s escBody).length ≤ 84 + _ := length_fmt_le 84 rfl rfl rfl hbounds
  refine hlen.trans ?_
  simp only [List.sum_cons, List.sum_nil]
  omega

set_option maxRecDepth 2000 in
theorem length_replyText_le (s : Sent) (escBody : Text) (replyTo : Int32) :
    (replyText s escBody replyTo).length ≤ escBody.length + 246 := by
  have hbounds : List.Forall₂ (fun t k => t.length ≤ k)
      [dec s.id.toInt, dec s.conversationId.toInt, dec s.fromId.toInt, s.username.text, escBody, dec replyTo.toInt, s.time.text]
      [20, 11, 11, 63, escBody.length, 11, 23] :=
    List.rel_append (length_sent_le s) (.cons (le_refl escBody.length)
      (.cons (length_int32_le replyTo) (.cons (Nat.le_of_lt_succ s.time.fits) .nil)))
  have hlen : (replyText s escBody replyTo).length ≤ 107 + _ := length_fmt_le 107 rfl rfl rfl hbounds
  refine hlen.trans ?_
  simp only [List.sum_cons, List.sum_nil]
  omega

set_option maxRecDepth 2000 in
theorem length_editText_le (s : Sent) (escBody : Text) (msgId : Int32) :
    (editText s escBody msgId).length ≤ escBody.length + 249 := by
  have hbounds : List.Forall₂ (fun t k => t.length ≤ k)
      [dec s.id.toInt, dec s.conversationId.toInt, dec s.fromId.toInt, s.username.text, escBody, dec msgId.toInt, s.time.text]
      [20, 11, 11, 63, escBody.length, 11, 23] :=
    List.rel_append (length_sent_le s) (.cons (le_refl escBody.length)
      (.cons (length_int32_le msgId) (.cons (Nat.le_of_lt_succ s.time.fits) .nil)))
  have hlen : (editText s escBody msgId).length ≤ 110 + _ := length_fmt_le 110 rfl rfl rfl hbounds
  refine hlen.trans ?_
  simp only [List.sum_cons, List.sum_nil]
  omega

/-- The members up to the body, and the others. -/
def sentLayout (rest : Layout) : Layout :=
  [("type", .fixed "\"message\""), ("id", .raw), ("conversation_id", .raw), ("from_id", .raw),
    ("from", .str), ("body", .str)] ++ rest

/-- Their values. -/
def sentValues (s : Sent) (body : Text) (rest : List Value) : List Value :=
  [.str (ascii "message"), .int s.id.toInt, .int s.conversationId.toInt, .int s.fromId.toInt,
    .str s.username.text, .str body] ++ rest

theorem reads_sent (s : Sent) {escBody body : Text} (h : Content escBody body) {ts : List Text}
    {rest : Layout} {vs : List Value} (hrest : List.Forall₂ JsonReader.Reads (rest.texts ts) vs) :
    List.Forall₂ JsonReader.Reads ((sentLayout rest).texts
        (dec s.id.toInt :: dec s.conversationId.toInt :: dec s.fromId.toInt :: s.username.text ::
          escBody :: ts))
      (sentValues s body vs) :=
  .cons (reads_of_parse rfl) (.cons (reads_dec _) (.cons (reads_dec _) (.cons (reads_dec _)
    (.cons (reads_plain s.username.plain) (.cons (reads_quoted h) hrest)))))

theorem bodyOf_messageText (s : Sent) {escBody body : Text} (h : Content escBody body) :
    bodyOf (messageText s escBody) = some (.str body) := by
  have hrest : List.Forall₂ JsonReader.Reads (Layout.texts [("time", .str)] [s.time.text])
      [.str s.time.text] :=
    .cons (reads_plain s.time.plain) .nil
  have hwhole : Whole (messageText s escBody) _ :=
    whole_fmt (sentLayout [("time", .str)]) rfl rfl (by decide) (reads_sent s h hrest)
  rw [bodyOf, hwhole.parse]
  rfl

set_option maxRecDepth 2000 in
theorem bodyOf_replyText (s : Sent) {escBody body : Text} (h : Content escBody body) (replyTo : Int32) :
    bodyOf (replyText s escBody replyTo) = some (.str body) := by
  have hrest : List.Forall₂ JsonReader.Reads
      (Layout.texts [("reply_to_message_id", .raw), ("time", .str)] [dec replyTo.toInt, s.time.text])
      [.int replyTo.toInt, .str s.time.text] := .cons (reads_dec _) (.cons (reads_plain s.time.plain) .nil)
  have hwhole : Whole (replyText s escBody replyTo) _ :=
    whole_fmt (sentLayout [("reply_to_message_id", .raw), ("time", .str)]) rfl rfl (by decide)
      (reads_sent s h hrest)
  rw [bodyOf, hwhole.parse]
  rfl

set_option maxRecDepth 2000 in
theorem bodyOf_editText (s : Sent) {escBody body : Text} (h : Content escBody body) (msgId : Int32) :
    bodyOf (editText s escBody msgId) = some (.str body) := by
  have hrest : List.Forall₂ JsonReader.Reads
      (Layout.texts [("edit_target_message_id", .raw), ("time", .str)] [dec msgId.toInt, s.time.text])
      [.int msgId.toInt, .str s.time.text] := .cons (reads_dec _) (.cons (reads_plain s.time.plain) .nil)
  have hwhole : Whole (editText s escBody msgId) _ :=
    whole_fmt (sentLayout [("edit_target_message_id", .raw), ("time", .str)]) rfl rfl (by decide)
      (reads_sent s h hrest)
  rw [bodyOf, hwhole.parse]
  rfl

/-- **A message that is broadcast** has the part of the body that was escaped. -/
theorem bodyOf_messageFrame (s : Sent) (replyTo : Int32) (body : Text) :
    bodyOf (messageFrame s replyTo body).text = some (.str (kept body (body.length * 2 + 4))) := by
  have hcontent := content_jsonEsc body (body.length * 2 + 4)
  have hmessage := length_messageText_le s (jsonEsc body (body.length * 2 + 4))
  have hreply := length_replyText_le s (jsonEsc body (body.length * 2 + 4)) replyTo
  unfold messageFrame
  dsimp only
  split
  · rw [text_snprintf (by omega)]
    exact bodyOf_replyText s hcontent replyTo
  · rw [text_snprintf (by omega)]
    exact bodyOf_messageText s hcontent

/-- **An edit** has the part of the body that was escaped. -/
theorem bodyOf_editFrame (s : Sent) (msgId : Int32) (body : Text) :
    bodyOf (editFrame s msgId body).text = some (.str (kept body (body.length * 2 + 4))) := by
  have hcontent := content_jsonEsc body (body.length * 2 + 4)
  have hedit := length_editText_le s (jsonEsc body (body.length * 2 + 4)) msgId
  have hesc : (jsonEsc body (body.length * 2 + 4)).length + 2 ≤ body.length * 2 + 4 :=
    length_jsonEsc_le (by omega)
  unfold editFrame
  dsimp only
  rw [text_snprintf (by omega)]
  exact bodyOf_editText s hcontent msgId

theorem optionalField_ne {key : String} (h : ascii key ≠ ascii "body") (n : Option Int64) :
    ∀ m ∈ optionalField key n, m.1 ≠ ascii "body" := by
  cases n with
  | none => simp [optionalField]
  | some n => simpa [optionalField, Columns.field] using h

/-- **A row of a history** has the part of the body that was escaped. -/
theorem bodyOf_storedRow (row : HistoryRow) (l : Looked) (b : Body) :
    bodyOf (historyText (storedRow row b, l)) = some (.str (kept b.text (b.text.length * 2 + 16))) := by
  have hwhole : Whole (historyText (storedRow row b, l)) (historyValue (storedRow row b) l) :=
    whole_historyPieces (storedRow row b) l
  rw [bodyOf, hwhole.parse, Option.bind_some, historyValue, get_obj_append]
  · rfl
  · simp only [List.mem_append]
    rintro m (hm | hm | hm)
    · exact optionalField_ne (by decide) _ m hm
    · exact optionalField_ne (by decide) _ m hm
    · exact optionalField_ne (by decide) _ m hm

/-! ### When they agree -/

/-- **The three bodies are the stored one** exactly when the escape of all but its last octet leaves room
in the array of the first two paths. -/
theorem bodies_agree_iff (b : Body) (sent edited : Sent) (replyTo msgId : Int32) (row : HistoryRow)
    (l : Looked) :
    (bodyOf (messageFrame sent replyTo b.text).text = some (.str b.text) ∧
        bodyOf (editFrame edited msgId b.text).text = some (.str b.text) ∧
        bodyOf (historyText (storedRow row b, l)) = some (.str b.text)) ↔
      (escText b.text.dropLast).length + 3 < 2 * b.text.length := by
  have hne : b.text ≠ [] := by
    have h := b.valid
    simp only [domainValidateMessageBody, decide_eq_true_eq] at h
    exact h.1
  have hkept : ∀ n, kept b.text n = b.text ↔ (escText b.text.dropLast).length + 7 < n := by
    intro n
    rw [kept_eq_self_iff]
    simp [hne]
  rw [bodyOf_messageFrame, bodyOf_editFrame, bodyOf_storedRow]
  simp only [Option.some.injEq, Value.str.injEq, hkept]
  omega

/-- The first two octets of a body need no escape, and they are not all of it. -/
theorem Body.exists_cons (b : Body) : ∃ rest, rest ≠ [] ∧ b.text = octet 'S' :: octet '3' :: rest := by
  have h := b.wire
  simp only [domainValidateE2ePrefix, Bool.or_eq_true, List.isPrefixOf_iff_prefix] at h
  rcases h with (⟨t, ht⟩ | ⟨t, ht⟩) | ⟨t, ht⟩
  · exact ⟨ascii "PQI:" ++ t, by simp [ascii], ht.symm⟩
  · exact ⟨ascii "DR:" ++ t, by simp [ascii], ht.symm⟩
  · exact ⟨ascii "MLS:" ++ t, by simp [ascii], ht.symm⟩

/-- They agree on a body without control characters other than white space. -/
theorem short_of_no_controls {b : Body}
    (h : ∀ c ∈ b.text, ¬ c < 0x20 ∨ c = 0x09 ∨ c = 0x0a ∨ c = 0x0d) :
    (escText b.text.dropLast).length + 3 < 2 * b.text.length := by
  obtain ⟨rest, hrest, htext⟩ := b.exists_cons
  rw [htext] at h ⊢
  have hlen := @length_escText_le_two rest.dropLast fun c hc =>
    h c (by simp [List.dropLast_subset rest hc])
  have hpos := List.length_pos_iff.mpr hrest
  have hdrop : (octet 'S' :: octet '3' :: rest).dropLast = octet 'S' :: octet '3' :: rest.dropLast := by
    rw [List.dropLast_cons_of_ne_nil (by simp), List.dropLast_cons_of_ne_nil hrest]
  have hS : escByte (octet 'S') = [octet 'S'] := rfl
  have h3 : escByte (octet '3') = [octet '3'] := rfl
  rw [hdrop, escText_cons, escText_cons, hS, h3]
  rw [List.length_dropLast] at hlen
  simp only [List.length_append, List.length_cons, List.length_nil]
  omega

/-- A body with two control characters after its prefix. -/
def controlBody : Body where
  text := ascii "S3DR:" ++ [0x01, 0x01]
  noNul := by decide
  valid := by decide
  wire := by decide

theorem noNul_sentAt : 0 ∉ ascii "2024-05-01 12:00:00" := by decide

/-- It is sent by user 7 in conversation 1. -/
def controlSent : Sent :=
  { id := 1
    conversationId := 1
    fromId := 7
    username := ⟨ascii "bob", by decide⟩
    time := ⟨⟨ascii "2024-05-01 12:00:00", noNul_sentAt, by decide⟩, by decide⟩ }

/-- The second one is lost when the message is broadcast. -/
theorem control_body_cut :
    bodyOf (messageFrame controlSent 0 controlBody.text).text = some (.str (ascii "S3DR:" ++ [0x01])) ∧
      bodyOf (messageFrame controlSent 0 controlBody.text).text ≠ some (.str controlBody.text) := by
  have hread : bodyOf (messageFrame controlSent 0 controlBody.text).text =
      some (.str (ascii "S3DR:" ++ [0x01])) := by
    rw [bodyOf_messageFrame]
    rfl
  refine ⟨hread, fun h => ?_⟩
  rw [hread] at h
  exact absurd (Value.str.inj (Option.some.inj h)) (by decide)

end SecChat.BodyFrames
