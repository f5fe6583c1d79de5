import SecChat.Library.Utf8Text
import SecChat.Server.GroupEvents
import SecChat.Server.HistoryFrame
import SecChat.Server.ListFrames

/-!
# Frames in UTF-8

The names, descriptions and bodies that are stored are characters; the database counts characters and
`json_esc` counts octets.  A frame that holds one of them is valid UTF-8 exactly when `json_esc` does not
stop inside a character.

* `RoomAtEnds`: no character straddles the end of the room in the array;
* `valid_kept_iff`: what `json_esc` keeps of characters is valid exactly then;
* `StoredConversation`, `StoredMessage`, `StoredGroup`: the rows, with their texts as characters;
* `frames_valid_iff`: when the frames are valid.
-/

namespace SecChat.Utf8Frames

open CText JsonReader JsonHelpers Columns Utf8Text

/-! ### Escapes -/

theorem ascii_escByte {c : UInt8} (hc : c < 0x80) : Ascii (escByte c) := by
  have hhex : ∀ n < 16, hexChar n < 0x80 := by decide
  have hlt := UInt8.lt_iff_toNat_lt.mp hc
  unfold escByte
  split_ifs
  · decide
  · decide
  · decide
  · decide
  · decide
  · have hhigh : c.toNat / 16 < 16 := by
      have h : c.toNat < 128 := hlt
      omega
    have hlow : c.toNat % 16 < 16 := Nat.mod_lt _ (by decide)
    simp only [Ascii, List.forall_mem_cons]
    exact ⟨by decide, by decide, by decide, by decide, hhex _ hhigh, hhex _ hlow, by simp⟩
  · simpa [Ascii] using hc

/-- An octet of a longer character stands for itself. -/
theorem plain_of_not_ascii {c : UInt8} (hc : ¬ c < 0x80) : Plain c := by
  have hne : ∀ d : UInt8, d < 0x80 → c ≠ d := by
    rintro d hd rfl
    exact hc hd
  refine ⟨hne _ (by decide), hne _ (by decide), fun h => hc ?_⟩
  rw [UInt8.lt_iff_toNat_lt] at h ⊢
  exact Nat.lt_trans h (by decide)

theorem valid_append_escText (t s : Text) : Valid (t ++ escText s) ↔ Valid (t ++ s) := by
  induction s generalizing t with
  | nil => rfl
  | cons c s ih =>
    rw [escText_cons]
    by_cases hc : c < 0x80
    · have hne : escByte c ≠ [] := List.length_pos_iff.mp (length_escByte_pos c)
      have hrest := ih []
      rw [List.nil_append, List.nil_append] at hrest
      rw [valid_append_ascii_append (ascii_escByte hc) hne, hrest, valid_append_ascii hc]
    · have hnext := ih (t ++ [c])
      rw [List.append_assoc, List.append_assoc] at hnext
      rw [escByte_of_plain (plain_of_not_ascii hc)]
      exact hnext

/-- An escape is valid exactly when the text is. -/
theorem valid_escText (s : Text) : Valid (escText s) ↔ Valid s := by
  simpa using valid_append_escText [] s

theorem valid_jsonEsc (s : Text) (maxout : ℕ) : Valid (jsonEsc s maxout) ↔ Valid (kept s maxout) := by
  rw [jsonEsc_eq, valid_escText]

/-! ### What is kept of characters -/

/-- No character straddles the end of what `json_esc` has room for: when there is room for an octet after
the characters before it, there is room for all of its octets. -/
def RoomAtEnds (cs : List Char) (maxout : ℕ) : Prop :=
  ∀ u c v, cs = u ++ c :: v → (escText (encode u)).length + 7 < maxout →
    (escText (encode u)).length + c.utf8Size + 6 < maxout

/-- The same after `j` octets of output. -/
def RoomFrom (j : ℕ) (cs : List Char) (maxout : ℕ) : Prop :=
  ∀ u c v, cs = u ++ c :: v → j + (escText (encode u)).length + 7 < maxout →
    j + (escText (encode u)).length + c.utf8Size + 6 < maxout

theorem roomFrom_cons {j : ℕ} {c : Char} {cs : List Char} {maxout : ℕ} :
    RoomFrom j (c :: cs) maxout ↔
      (j + 7 < maxout → j + c.utf8Size + 6 < maxout) ∧
        RoomFrom (j + (escText (String.utf8EncodeChar c)).length) cs maxout := by
  constructor
  · intro h
    refine ⟨?_, fun u d v heq => ?_⟩
    · simpa using h [] c cs rfl
    · have hnext := h (c :: u) d v (by rw [heq]; rfl)
      rwa [encode_cons, escText_append, List.length_append, ← Nat.add_assoc] at hnext
  · rintro ⟨hfirst, hrest⟩ u d v heq
    cases u with
    | nil =>
      obtain ⟨rfl, -⟩ := List.cons.inj heq
      simpa using hfirst
    | cons c' u =>
      obtain ⟨rfl, rfl⟩ := List.cons.inj heq
      rw [encode_cons, escText_append, List.length_append, ← Nat.add_assoc]
      exact hrest u d v rfl

theorem keptFrom_of_full {maxout j : ℕ} (h : ¬ j + 7 < maxout) (s : Text) : keptFrom maxout j s = [] := by
  cases s with
  | nil => rfl
  | cons c s => rw [keptFrom, if_neg h]

/-- Octets that stand for themselves are kept as long as there is room. -/
theorem keptFrom_append_plain {p : Text} (hp : ∀ c ∈ p, Plain c) (maxout j : ℕ) (s : Text) :
    keptFrom maxout j (p ++ s) =
      if j + p.length + 6 < maxout then p ++ keptFrom maxout (j + p.length) s
      else p.take (maxout - 7 - j) := by
  induction p generalizing j with
  | nil =>
    rw [List.nil_append, List.length_nil, List.take_nil]
    split_ifs with h
    · rfl
    · exact keptFrom_of_full (by omega) s
  | cons c p ih =>
    have hc : escByte c = [c] := escByte_of_plain (hp c (by simp))
    rw [List.cons_append, keptFrom, ih (fun d hd => hp d (by simp [hd])), hc]
    simp only [List.length_cons, List.length_nil, Nat.zero_add]
    have hcount : j + 1 + p.length = j + (p.length + 1) := by omega
    rw [hcount]
    by_cases hfits : j + (p.length + 1) + 6 < maxout
    · rw [if_pos (by omega), if_pos hfits, if_pos hfits]
      rfl
    · rw [if_neg hfits, if_neg hfits]
      split_ifs with hroom
      · have hmore : maxout - 7 - j = maxout - 7 - (j + 1) + 1 := by omega
        rw [hmore, List.take_succ_cons]
      · have hnone : maxout - 7 - j = 0 := by omega
        rw [hnone, List.take_zero]

theorem valid_keptFrom_iff (maxout j : ℕ) (cs : List Char) :
    Valid (keptFrom maxout j (encode cs)) ↔ RoomFrom j cs maxout := by
  induction cs generalizing j with
  | nil => simp [keptFrom, RoomFrom]
  | cons c cs ih =>
    have hvalid : Valid (String.utf8EncodeChar c) := ⟨[c], by simp⟩
    have hlen := String.length_utf8EncodeChar c
    rw [roomFrom_cons, ← ih, encode_cons]
    by_cases hone : c.utf8Size = 1
    · -- one octet, which may be escaped
      obtain ⟨b, hb⟩ := List.length_eq_one_iff.mp (hlen.trans hone)
      have hesc : escText (String.utf8EncodeChar c) = escByte b := by simp [hb]
      have hpos := length_escByte_pos b
      rw [hb] at hvalid
      rw [hesc, hb, List.singleton_append, keptFrom, hone]
      split_ifs with hroom
      · rw [← List.singleton_append, valid_append_of_valid hvalid]
        simp only [iff_and_self]
        omega
      · rw [keptFrom_of_full (by omega)]
        simp [hroom]
    · -- longer characters stand for themselves
      have hplain : ∀ b ∈ String.utf8EncodeChar c, Plain b := by
        intro b hmem
        refine plain_of_not_ascii fun hb => hone ?_
        rw [← hlen, ascii_octet hmem hb]
        rfl
      have hpos := c.utf8Size_pos
      rw [escText_of_plain hplain, keptFrom_append_plain hplain, hlen]
      split_ifs with hfits
      · rw [valid_append_of_valid hvalid]
        simp only [iff_and_self]
        omega
      · by_cases hroom : j + 7 < maxout
        · have hcut : ¬ Valid ((String.utf8EncodeChar c).take (maxout - 7 - j)) :=
            not_valid_take (by omega) (by omega)
          simp [hcut, hroom, hfits]
        · have hnone : maxout - 7 - j = 0 := by omega
          rw [hnone, keptFrom_of_full (by omega)]
          simp [hroom]

/-- **What `json_esc` keeps of characters** is valid exactly when it does not stop inside one. -/
theorem valid_kept_iff (cs : List Char) (maxout : ℕ) : Valid (kept (encode cs) maxout) ↔ RoomAtEnds cs maxout := by
  rw [kept, valid_keptFrom_iff]
  simp only [RoomFrom, RoomAtEnds, Nat.zero_add]

/-- The octets up to where `json_esc` has no more room are those of some characters. -/
def ReadsAsCharacters (t : Text) (maxout : ℕ) : Prop :=
  ∃ cs u, t = encode cs ++ u ∧
    (∀ v w, encode cs = v ++ w → w ≠ [] → (escText v).length + 7 < maxout) ∧
    (u = [] ∨ ¬ (escText (encode cs)).length + 7 < maxout)

/-- What `json_esc` keeps of any octets. -/
theorem valid_kept_iff_reads (t : Text) (maxout : ℕ) : Valid (kept t maxout) ↔ ReadsAsCharacters t maxout := by
  constructor
  · rintro ⟨cs, hcs⟩
    obtain ⟨u, hu⟩ := kept_isPrefix t maxout
    have hkept : kept (encode cs ++ u) maxout = encode cs := by rw [hcs, hu]
    exact ⟨cs, u, by rw [hcs, hu], kept_eq_iff.mp hkept⟩
  · rintro ⟨cs, u, rfl, h⟩
    rw [kept_eq_iff.mpr h]
    exact valid_encode cs

/-! ### The rows -/

/-- A conversation as it is stored, for an inbox: its name, and the body of its last message. -/
structure StoredConversation where
  row : HistoryFrame.InboxRow
  timeAscii : Ascii (HistoryFrame.stampText row.lastMessageAt)
  seenAscii : Ascii (HistoryFrame.stampText row.lastSeen)
  name : Option (List Char)
  body : Option (List Char)

/-- `LEFT(body, 2048)`. -/
def StoredConversation.preview (r : StoredConversation) : Option (List Char) :=
  r.body.map fun cs => cs.take HistoryFrame.maxInboxWirePreview

/-- The row that the query returns. -/
def StoredConversation.inboxRow (r : StoredConversation) : HistoryFrame.InboxRow :=
  { r.row with
    name := r.name.map encode
    lastMsg := r.preview.map encode }

/-- A message as it is stored, for a history; the characters are those that are used as its body. -/
structure StoredMessage where
  row : HistoryFrame.HistoryRow
  looked : HistoryFrame.Looked
  timeAscii : Ascii row.sentAt.text
  body : List Char
  body_eq : HistoryFrame.bodyToUse row = encode body

def StoredMessage.historyRow (m : StoredMessage) : HistoryFrame.HistoryRow × HistoryFrame.Looked :=
  (m.row, m.looked)

/-- A group as it is stored. -/
structure StoredGroup where
  name : Option (List Char)
  description : Option (List Char)
  creatorId : Int32
  isDisbanded : Int32

def StoredGroup.groupRow (g : StoredGroup) : ListFrames.GroupRow where
  name := g.name.map encode
  description := g.description.map encode
  creatorId := g.creatorId.toInt
  isDisbanded := g.isDisbanded.toInt

/-- A member of a group. -/
structure StoredMember where
  userId : Int32
  username : Username
  role : Role

def StoredMember.memberRow (m : StoredMember) : ListFrames.MemberRow where
  userId := m.userId.toInt
  username := some m.username.text
  role := m.role

/-! ### Columns -/

theorem valid_kept_map (column : Option (List Char)) (maxout : ℕ) :
    Valid (kept ((column.map encode).getD []) maxout) ↔ RoomAtEnds (column.getD []) maxout := by
  cases column with
  | none => exact valid_kept_iff [] maxout
  | some cs => exact valid_kept_iff cs maxout

theorem ascii_flag (p : Prop) [Decidable p] : Ascii (flag p) := by
  unfold flag
  split <;> decide

theorem ascii_status_or (s : Option Status) :
    Ascii (HistoryFrame.orElse Status.text (CText.ascii "offline") s) := by
  cases s with
  | none => decide
  | some s => cases s <;> decide

theorem ascii_role (r : Role) : Ascii r.text := by
  cases r <;> decide

theorem ascii_orNumber {α : Type} {toInt : α → ℤ} {other : Text} (h : Ascii other) (n : Option α) :
    Ascii (HistoryFrame.orElse (dec <| toInt ·) other n) := by
  cases n with
  | none => exact h
  | some n => exact ascii_dec _

theorem ascii_unreadText (r : HistoryFrame.InboxRow) : Ascii (HistoryFrame.unreadText r) := by
  unfold HistoryFrame.unreadText
  split <;> decide

theorem ascii_username (u : Username) : Ascii u.text := by
  have h := u.valid
  simp only [domainValidateUsername, decide_eq_true_eq, List.all_eq_true] at h
  intro c hc
  have hword := h.2.2 c hc
  simp only [wordOctet, isDigit, decide_eq_true_eq, UInt8.le_iff_toNat_le] at hword
  rw [UInt8.lt_iff_toNat_lt]
  rcases hword with h | h | h | rfl <;> simp at * <;> omega

/-- An accepted name is not changed by its escape. -/
theorem jsonEsc_username (u : Username) : jsonEsc u.text 130 = u.text :=
  jsonEsc_of_plain u.plain (by have := u.length_le; omega)

/-! ### The inbox -/

section Inbox

open HistoryFrame

/-- There is room for the characters of a row. -/
def StoredConversation.Fits (r : StoredConversation) : Prop :=
  RoomAtEnds (r.preview.getD []) (maxInboxWirePreview * 2 + 16) ∧
    (r.row.type = .group → ∀ name, r.name = some name → RoomAtEnds name 210)

/-- A row is printed. -/
def StoredConversation.Shown (r : StoredConversation) : Prop := r.row.type = .group ∨ r.row.peer ≠ none

theorem valid_name_or (name : Option (List Char)) :
    Valid (kept ((name.map encode).getD (CText.ascii "Unnamed Group")) 210) ↔
      ∀ cs, name = some cs → RoomAtEnds cs 210 := by
  cases name with
  | none =>
    have hvalid : Valid (kept (CText.ascii "Unnamed Group") 210) := Ascii.valid (by decide)
    simpa using hvalid
  | some cs => simpa using valid_kept_iff cs 210

set_option maxRecDepth 2000 in
theorem valid_groupText (r : StoredConversation) :
    Valid (groupText r.inboxRow) ↔
      RoomAtEnds (r.preview.getD []) (maxInboxWirePreview * 2 + 16) ∧
        ∀ name, r.name = some name → RoomAtEnds name 210 := by
  refine (valid_fmt HistoryFrame.groupLayout rfl (by decide +kernel) (by decide) rfl).trans ?_
  rw [← valid_kept_map, ← valid_name_or, ← valid_jsonEsc, ← valid_jsonEsc]
  simp only [List.forall_mem_cons]
  constructor
  · rintro ⟨-, hname, hmsg, -⟩
    exact ⟨hmsg, hname⟩
  · rintro ⟨hmsg, hname⟩
    exact ⟨(ascii_dec _).valid, hname, hmsg, r.timeAscii.valid, (ascii_orNumber (by decide) _).valid,
      (ascii_orNumber (by decide) _).valid, (ascii_orNumber (by decide) _).valid, (ascii_flag _).valid,
      (ascii_unreadText _).valid, (ascii_flag _).valid, (ascii_flag _).valid, (ascii_flag _).valid,
      (ascii_flag _).valid, (ascii_orNumber (by decide) _).valid, by simp⟩

set_option maxRecDepth 2000 in
theorem valid_directText (r : StoredConversation) (peer : Int32 × Username) :
    Valid (directText r.inboxRow peer) ↔
      RoomAtEnds (r.preview.getD []) (maxInboxWirePreview * 2 + 16) := by
  refine (valid_fmt directLayout rfl (by decide +kernel) (by decide) rfl).trans ?_
  rw [← valid_kept_map, ← valid_jsonEsc]
  simp only [List.forall_mem_cons]
  constructor
  · rintro ⟨-, -, -, -, -, hmsg, -⟩
    exact hmsg
  · intro hmsg
    exact ⟨(ascii_dec _).valid, (ascii_dec _).valid, (ascii_username _).valid, (ascii_status_or _).valid,
      r.seenAscii.valid, hmsg, r.timeAscii.valid, (ascii_orNumber (by decide) _).valid,
      (ascii_orNumber (by decide) _).valid, (ascii_unreadText _).valid, (ascii_flag _).valid,
      (ascii_flag _).valid, (ascii_flag _).valid, (ascii_flag _).valid,
      (ascii_orNumber (by decide) _).valid, by simp⟩

/-- A row is valid exactly when there is room for its characters, if it is printed. -/
theorem valid_inboxText (r : StoredConversation) :
    (∀ t, inboxText r.inboxRow = some t → Valid t) ↔ (r.Shown → r.Fits) := by
  have htype : r.inboxRow.type = r.row.type := rfl
  have hpeer : r.inboxRow.peer = r.row.peer := rfl
  unfold inboxText StoredConversation.Shown StoredConversation.Fits
  rw [htype, hpeer]
  cases r.row.type with
  | group =>
    have h := valid_groupText r
    simp [h]
  | direct =>
    cases r.row.peer with
    | none => simp
    | some peer =>
      have h := valid_directText r peer
      simp [h]

theorem valid_inbox (rows : List StoredConversation) :
    Valid (handleGetInbox (rows.map StoredConversation.inboxRow)).text ↔
      ∀ r ∈ rows.take 50, r.Shown → r.Fits := by
  rw [text_handleGetInbox, ← closeText_nil, ← List.map_take]
  refine (@valid_list _ "conversations" _ _ _ _ [("type", .fixed "\"inbox\"")] rfl rfl (by decide) rfl
    (by decide)).trans ?_
  have hrows : (∀ t ∈ ((rows.take 50).map StoredConversation.inboxRow).filterMap inboxText, Valid t) ↔
      ∀ r ∈ rows.take 50, ∀ t, inboxText r.inboxRow = some t → Valid t := by
    simp only [List.mem_filterMap, List.mem_map]
    grind
  rw [hrows]
  simp only [valid_inboxText]
  simp

end Inbox

/-! ### A history -/

section History

open HistoryFrame

/-- There is room for the characters of a message, and its reactions are valid. -/
def StoredMessage.Fits (m : StoredMessage) : Prop :=
  RoomAtEnds m.body ((encode m.body).length * 2 + 16) ∧ Valid m.looked.reactionsText

theorem valid_optionalMember {key : String} (hkey : Ascii (CText.ascii key)) (n : Option Int64) :
    ∀ m ∈ optionalMember key n, Valid m.1 ∧ Valid m.2 := by
  cases n with
  | none => simp [optionalMember]
  | some n => simpa [optionalMember] using ⟨hkey.valid, (ascii_dec n.toInt).valid⟩

theorem valid_historyOptional (r : HistoryRow) : ∀ m ∈ historyOptional r, Valid m.1 ∧ Valid m.2 := by
  simp only [historyOptional, List.forall_mem_append]
  exact ⟨valid_optionalMember (by decide) _, valid_optionalMember (by decide) _,
    valid_optionalMember (by decide) _⟩

theorem valid_historyText (m : StoredMessage) : Valid (historyText m.historyRow) ↔ m.Fits := by
  rw [historyText, StoredMessage.historyRow, flatten_historyPieces, valid_objText, List.forall_mem_append,
    valid_members (by decide) _ rfl, and_iff_left (valid_historyOptional m.row), StoredMessage.Fits,
    ← valid_kept_iff, ← valid_jsonEsc]
  simp only [historyArgs, List.forall_mem_cons, jsonEsc_username, m.body_eq]
  constructor
  · rintro ⟨-, -, -, hbody, -, -, -, -, hreactions, -⟩
    exact ⟨hbody, hreactions⟩
  · rintro ⟨hbody, hreactions⟩
    exact ⟨(ascii_dec _).valid, (ascii_dec _).valid, (ascii_username _).valid, hbody, m.timeAscii.valid,
      (ascii_flag _).valid, (ascii_flag _).valid, (ascii_flag _).valid, hreactions, by simp⟩

theorem valid_history (cid : Int32) (rows : List StoredMessage) (systemEvents : Option JsonText) :
    Valid (handleGetHistory cid (rows.map StoredMessage.historyRow) systemEvents).text ↔
      (∀ m ∈ rows, m.looked.allocated = true → m.Fits) ∧ Valid (eventsText systemEvents) := by
  rw [text_handleGetHistory, historyClose_eq]
  refine (@valid_list _ "messages" _ _ _ _ [("type", .fixed "\"history\""), ("conversation_id", .raw)]
    rfl rfl (by decide) rfl (by decide)).trans ?_
  have hrows : (∀ t ∈ (printed (rows.map StoredMessage.historyRow)).map historyText, Valid t) ↔
      ∀ m ∈ rows, m.looked.allocated = true → Valid (historyText m.historyRow) := by
    simp only [printed, ← List.map_reverse, List.mem_filter, List.mem_map,
      List.mem_reverse]
    grind [StoredMessage.historyRow]
  have hcid : ∀ a ∈ [dec cid.toInt], Valid a := by simpa using (ascii_dec cid.toInt).valid
  have hkey : Valid (CText.ascii "system_events") := Ascii.valid (by decide)
  rw [hrows, and_iff_right hcid]
  simp only [valid_historyText]
  simp [hkey]

end History

/-! ### The description of a group -/

section GroupInfo

open ListFrames

/-- There is room for the characters of a group. -/
def StoredGroup.Fits (g : StoredGroup) : Prop :=
  RoomAtEnds (g.name.getD []) 210 ∧ RoomAtEnds (g.description.getD []) 4100

theorem ascii_memberRow (m : StoredMember) : Ascii (memberRow m.memberRow) := by
  refine ascii_fmt rfl (by decide) ?_
  simp only [StoredMember.memberRow, Option.getD_some, jsonEsc_username, List.forall_mem_cons]
  exact ⟨ascii_dec _, ascii_username _, ascii_role _, by simp⟩

theorem length_groupHead_le (groupId : Int32) (g : StoredGroup) :
    (groupHead groupId.toInt g.groupRow).length ≤ 4500 := by
  have hname : (jsonEsc (g.groupRow.name.getD []) 210).length ≤ 208 :=
    Nat.le_of_add_le_add_right (length_jsonEsc_le (by decide))
  have hdescription : (jsonEsc (g.groupRow.description.getD []) 4100).length ≤ 4098 :=
    Nat.le_of_add_le_add_right (length_jsonEsc_le (by decide))
  have hid := length_int32_le groupId
  have hcreator : (dec g.groupRow.creatorId).length ≤ 11 := length_int32_le g.creatorId
  rw [length_groupHead, groupHeadLength]
  split <;> omega

theorem valid_groupHead (groupId : Int32) (g : StoredGroup) (ms : List StoredMember) :
    Valid (listText (groupHead groupId.toInt g.groupRow) ((ms.map StoredMember.memberRow).map memberRow)
        (CText.ascii "]\x7d")) ↔ g.Fits := by
  have hrows : ∀ row ∈ (ms.map StoredMember.memberRow).map memberRow, Valid row := by
    simp only [List.forall_mem_map]
    exact fun m _ => (ascii_memberRow m).valid
  rw [← closeText_nil]
  refine (@valid_list _ "members" _ _ _ _ ListFrames.groupLayout rfl rfl (by decide) rfl
    (by decide)).trans ?_
  rw [StoredGroup.Fits, ← valid_kept_map, ← valid_kept_map, ← valid_jsonEsc, ← valid_jsonEsc]
  simp only [List.forall_mem_cons]
  constructor
  · rintro ⟨⟨-, hname, hdescription, -⟩, -⟩
    exact ⟨hname, hdescription⟩
  · rintro ⟨hname, hdescription⟩
    exact ⟨⟨(ascii_dec _).valid, hname, hdescription, (ascii_dec _).valid, (ascii_flag _).valid, by simp⟩,
      hrows, by simp⟩

/-- The members may be cut off, but they are ASCII. -/
theorem valid_groupInfo (groupId : Int32) (isMember : Bool) (group : Option StoredGroup)
    (members : Option (List StoredMember)) :
    Valid (handleGetGroupInfo groupId.toInt isMember (group.map StoredGroup.groupRow)
        (members.map fun ms => ms.map StoredMember.memberRow)).text ↔
      (0 < groupId.toInt → isMember = true → members ≠ none → ∀ g, group = some g → g.Fits) := by
  unfold handleGetGroupInfo convGetGroupInfoJson
  split
  · next hid =>
    refine ⟨fun _ hpos => absurd hpos (not_lt.mpr hid), fun _ => Ascii.valid (by decide)⟩
  · next hid =>
    split
    · next hmember =>
      refine ⟨fun _ _ htrue => absurd (hmember ▸ htrue) (by decide), fun _ => Ascii.valid (by decide)⟩
    · next hmember =>
      have hpos : 0 < groupId.toInt := by omega
      have hnotFound : Valid (CText.ascii "\x7b\"type\":\"error\",\"msg\":\"Group not found\"\x7d") :=
        Ascii.valid (by decide)
      cases group with
      | none => exact ⟨fun _ _ _ _ g hg => (nomatch hg), fun _ => hnotFound⟩
      | some g =>
        cases members with
        | none => exact ⟨fun _ _ _ hne => absurd rfl hne, fun _ => hnotFound⟩
        | some ms =>
          have hrows : ∀ row ∈ (ms.map StoredMember.memberRow).map memberRow, Ascii row := by
            simp only [List.forall_mem_map]
            exact fun m _ => ascii_memberRow m
          have hhead := length_groupHead_le groupId g
          simp only [Option.map_some, Frame.text]
          rw [(written_writes _ _).text_eq, flatten_listWrites,
            valid_take_listText (by omega) hrows (by decide), valid_groupHead]
          simp [hpos, hmember]

end GroupInfo

/-! ### The event of an update -/

section Updated

open GroupEvents

/-- The texts of a request that are spliced as they are. -/
def PlainTexts (c : GroupEvents.Change) (ev : GroupSystemEventMeta) : Prop :=
  Valid c.actor.escapedUsername ∧ Valid c.operationId.text ∧ Valid ev.eventTime.text

def updatedLayout : Layout :=
  [("type", .fixed "\"group_info_updated\""), ("group_id", .raw), ("name", .str),
    ("has_new_avatar", .fixed "false"), ("by_user_id", .raw), ("by_username", .str),
    ("operation", .fixed "\"update_group_info\""), ("operation_id", .str), ("system_event_id", .raw),
    ("after_message_id", .raw), ("event_time", .str), ("members", .raw)]

theorem ascii_membersJson (g : Group) : Ascii (membersJson g) := by
  have hitem : ∀ m, Ascii (memberItem m) := by
    intro m
    rw [memberItem_eq]
    refine ascii_fmt rfl (by decide) ?_
    simp only [List.forall_mem_cons]
    exact ⟨ascii_dec _, ascii_role _, by simp⟩
  have hjoin : Ascii (join ((g.members.take 500).map memberItem)) :=
    ascii_join (by simp only [List.forall_mem_map]; exact fun m _ => hitem m)
  rw [membersJson_eq]
  intro c hc
  have hmem := List.take_subset _ _ hc
  simp only [arrText, List.mem_cons, List.mem_append, List.not_mem_nil, or_false] at hmem
  rcases hmem with rfl | h | rfl
  · decide
  · exact hjoin c h
  · decide

set_option maxRecDepth 4000 in
/-- The frame is valid exactly when what is found at the address of the name is. -/
theorem valid_groupInfoUpdated (c : GroupEvents.Change) (found : Text) (ev : GroupSystemEventMeta) (g : Group) :
    Valid (eventFrame c (.groupInfoUpdated found ev) g).text ↔
      ReadsAsCharacters found 210 ∧ PlainTexts c ev := by
  rw [(eventFrame_fits c (.groupInfoUpdated found ev) g).2]
  refine (valid_fmt updatedLayout rfl (by decide +kernel) (by decide) rfl).trans ?_
  rw [← valid_kept_iff_reads, ← valid_jsonEsc, PlainTexts]
  simp only [List.forall_mem_cons]
  constructor
  · rintro ⟨-, hname, -, hactor, hop, -, -, htime, -⟩
    exact ⟨hname, hactor, hop, htime⟩
  · rintro ⟨hname, hactor, hop, htime⟩
    exact ⟨(ascii_dec _).valid, hname, (ascii_dec _).valid, hactor, hop, (ascii_dec _).valid,
      (ascii_dec _).valid, htime, (ascii_membersJson g).valid, by simp⟩

end Updated

/-! ### All four -/

/-- **The frames are valid** exactly when `json_esc` stops inside no character that is shown. -/
theorem frames_valid_iff (rows : List StoredConversation) (cid : Int32) (msgs : List StoredMessage)
    (systemEvents : Option HistoryFrame.JsonText) (groupId : Int32) (isMember : Bool)
    (group : Option StoredGroup) (members : Option (List StoredMember)) (c : GroupEvents.Change)
    (found : Text) (ev : GroupEvents.GroupSystemEventMeta) (g : GroupEvents.Group) :
    (Valid (HistoryFrame.handleGetInbox (rows.map StoredConversation.inboxRow)).text ↔
      ∀ r ∈ rows.take 50, r.Shown → r.Fits) ∧
    (Valid (HistoryFrame.handleGetHistory cid (msgs.map StoredMessage.historyRow) systemEvents).text ↔
      (∀ m ∈ msgs, m.looked.allocated = true → m.Fits) ∧
        Valid (HistoryFrame.eventsText systemEvents)) ∧
    (Valid (ListFrames.handleGetGroupInfo groupId.toInt isMember (group.map StoredGroup.groupRow)
        (members.map fun ms => ms.map StoredMember.memberRow)).text ↔
      (0 < groupId.toInt → isMember = true → members ≠ none → ∀ g, group = some g → g.Fits)) ∧
    (Valid (GroupEvents.eventFrame c (.groupInfoUpdated found ev) g).text ↔
      ReadsAsCharacters found 210 ∧ PlainTexts c ev) :=
  ⟨valid_inbox rows, valid_history cid msgs systemEvents, valid_groupInfo groupId isMember group members,
    valid_groupInfoUpdated c found ev g⟩

/-- A group whose name is 68 characters of three octets each. -/
def longName : StoredConversation where
  row :=
    { id := 1
      type := .group
      name := none
      lastMessageAt := none
      peer := none
      status := none
      lastSeen := none
      lastMsg := none
      lastMsgId := none
      lastSenderId := none
      creatorId := none
      isDisbanded := none
      unreadCount := none
      muted := false
      archived := false
      convPinned := false
      forceUnread := none
      disappearAfterSecs := none }
  timeAscii := by decide
  seenAscii := by decide
  name := some (List.replicate 68 '安')
  body := none

/-- `json_esc` stops inside the last character, and the inbox is not valid. -/
theorem inbox_not_valid : ¬ Valid (HistoryFrame.handleGetInbox ([longName].map StoredConversation.inboxRow)).text := by
  rw [valid_inbox]
  intro h
  have hroom := (h longName (by simp) (.inl rfl)).2 rfl _ rfl (List.replicate 67 '安') '安' [] (by decide)
  revert hroom
  decide +kernel

end SecChat.Utf8Frames
