import Mathlib.Data.List.Infix
import Mathlib.Data.List.Sort
import Mathlib.Data.Prod.Lex
import Mathlib.Tactic
import SecChat.Library.Runs

/-!
# The messages of a conversation on the page (`chat_page.py`)

The page keeps one list for a conversation: the messages, the own ones that are not confirmed, and lines
about the group. Messages, edits and deletions come one by one in any order, and now and then a history
comes, whose rows are merged into the list.

* `Entry`, `Page`: the list, and the edits whose messages are not there yet;
* `updateMessage`, `applyEditEvent`, `applyPendingEditEvents`, `addMsg`, `addSystemEvent`, `loadHistory`:
  the code;
* `World`, `State`, `step`: what the ids stand for, the page, and what it has been told;
* `Agree`: every message has the newest text that the page was told;
* `StepOk`: the condition on an event, in the state before it;
* `agree_of_run`: under the condition the page is right after every event of every run;
* `timeline_of_load`: what a history does to the list;
* `deleted_after_load_iff`: when a deleted message is shown as deleted.
-/

namespace SecChat.ChatPage

open Runs

/-! ### Entries -/

/-- What a line about the group is known by, without the conversation. -/
abbrev Key := List String

/-- An entry of `hist`, without what is only shown: that is `rest`. -/
structure Entry (M : Type) where
  msgId : ℤ
  body : String
  edited : Bool := false
  deleted : Bool := false
  hidden : Bool := false
  sending : Bool := false
  retryBody : String := ""
  system : Bool := false
  eventKeys : List Key := []
  systemEventId : ℤ := 0
  afterMessageId : ℤ := 0
  rest : M
  deriving DecidableEq

/-- An edit of a message. -/
structure Edit where
  target : ℤ
  body : String
  pos : 0 < target
  deriving DecidableEq

/-- The page, for one conversation. -/
structure Page (M : Type) where
  hist : List (Entry M)
  pendingEdits : List Edit
  systemEventKeys : List Key
  failedSendCounter : ℕ

variable {M : Type}

/-- `_is_unavailable_history_body`. -/
def isUnavailableHistoryBody (body : String) : Bool :=
  "Forward-secret".toList <:+: body.toList || "Cannot decrypt".toList <:+: body.toList ||
    "[Cannot".toList.isPrefixOf body.toList || "[Encrypted".toList.isPrefixOf body.toList

/-- The bodies of rows that only carry keys. -/
def controlBodies : List String := ["__KEM_INIT__", "__S2_CONTROL__", "__S3_INIT__"]

def systemPrefix : String := "__SYSTEM__:"

def isSystem (m : Entry M) : Bool := m.system || systemPrefix.toList.isPrefixOf m.body.toList

/-- `_system_event_keys_for`. -/
def systemEventKeysFor (systemEventId : ℤ) (eventKey : Option Key) : List Key :=
  (if 0 < systemEventId then [["system_event_id", toString systemEventId]] else []) ++ eventKey.toList

/-- `_system_event_anchor_from_entry`. -/
def anchorFromEntry (m : Entry M) (fallback : ℤ) : ℤ :=
  if 0 < m.afterMessageId then m.afterMessageId else fallback

/-! ### Single events -/

/-- `update_message`; `none` if there is no such message. -/
def updateMessage (msgId : ℤ) (newBody : String) (edited deleted : Bool) :
    List (Entry M) → Option (List (Entry M))
  | [] => none
  | m :: ms =>
      if m.msgId = msgId then some ({ m with body := newBody, edited := edited, deleted := deleted } :: ms)
      else (updateMessage msgId newBody edited deleted ms).map (m :: ·)

/-- `apply_edit_event`. -/
def applyEditEvent (p : Page M) (e : Edit) : Page M :=
  match updateMessage e.target e.body true false p.hist with
  | some hist => { p with hist := hist }
  | none => { p with pendingEdits := p.pendingEdits ++ [e] }

/-- `_apply_pending_edit_events`: an edit whose message is still not there stays. -/
def applyPendingEditEvents (p : Page M) : Page M :=
  p.pendingEdits.foldl applyEditEvent { p with pendingEdits := [] }

/-- `add_msg`. -/
def addMsg (p : Page M) (msgId : ℤ) (body : String) (rest : M) : Page M :=
  applyPendingEditEvents { p with hist := p.hist ++ [{ msgId := msgId, body := body, rest := rest }] }

/-- `_visible_message_ids`. -/
def visibleMessageIds (p : Page M) : List ℤ :=
  (p.hist.filter fun m => 0 < m.msgId ∧ ¬ m.deleted ∧ ¬ m.hidden).map Entry.msgId

/-- `add_system_event`. -/
def addSystemEvent (p : Page M) (text : String) (eventKey : Option Key) (systemEventId : ℤ)
    (afterMessageId : Option ℤ) (rest : M) : Page M :=
  if text = "" then p
  else
    let keys := systemEventKeysFor systemEventId eventKey
    if keys.any (· ∈ p.systemEventKeys) then p
    else
      let counter := p.failedSendCounter + 1
      { p with
        systemEventKeys := p.systemEventKeys ++ keys
        failedSendCounter := counter
        hist := p.hist ++ [{
          msgId := if 0 < systemEventId then -(1000000000 + systemEventId) else -counter
          body := systemPrefix ++ text
          system := true
          eventKeys := keys
          systemEventId := systemEventId
          afterMessageId := afterMessageId.getD ((visibleMessageIds p).foldl max 0)
          rest := rest }] }

/-- `show_send_pending` and `show_send_failed`. -/
def showBubble (p : Page M) (sending : Bool) (body : String) (rest : M) : Page M :=
  let counter := p.failedSendCounter + 1
  { p with
    failedSendCounter := counter
    hist := p.hist ++ [{
      msgId := -counter, body := body, sending := sending, retryBody := body, rest := rest }] }

/-- `remove_pending_send`. -/
def removePendingSend (p : Page M) (body : String) (pendingId : ℤ) : Page M :=
  { p with
    hist := p.hist.eraseP fun m =>
      m.sending ∧ (pendingId ≠ 0 ∧ m.msgId = pendingId ∨
        pendingId = 0 ∧ body ≠ "" ∧ m.retryBody = body) }

/-- `mark_pending_sends_failed`. -/
def markPendingSendsFailed (p : Page M) : Page M :=
  { p with hist := p.hist.map fun m => { m with sending := false } }

/-- `_remove_failed_message`. -/
def removeFailedMessage (p : Page M) (msgId : ℤ) : Page M :=
  { p with hist := p.hist.filter fun m => m.msgId ≠ msgId }

/-! ### A history -/

/-- A message of a history, after `decrypt_history_messages`. -/
structure HistoryRow (M : Type) where
  id : ℤ
  body : String
  edited : Bool
  deleted : Bool
  hidden : Bool
  editTarget : ℤ
  rest : M

/-- A line about the group, as the history has it. -/
structure SystemEvent (M : Type) where
  text : String
  systemEventId : ℤ
  afterMessageId : ℤ
  eventKey : Option Key
  rest : M

/-- What the loop over the old list has found. -/
structure Old (M : Type) where
  previousPositiveId : ℤ
  systemEvents : List (Entry M)
  transient : List (Entry M)

def Old.read (old : Old M) (m : Entry M) : Old M :=
  if 0 < m.msgId then { old with previousPositiveId := m.msgId }
  else if isSystem m then
    { old with
      systemEvents := old.systemEvents ++
        [{ m with afterMessageId := anchorFromEntry m old.previousPositiveId }] }
  else { old with transient := old.transient ++ [m] }

/-- What becomes of a row. -/
inductive Read (M : Type)
  | skip
  | edit (e : Edit)
  | message (m : Entry M)

def Read.edit? : Read M → Option Edit
  | .edit e => some e
  | _ => none

def Read.message? : Read M → Option (Entry M)
  | .message m => some m
  | _ => none

/-- The last entry with an id, as in a dict that is filled from a list. -/
def lastOf (ms : List (Entry M)) (msgId : ℤ) : Option (Entry M) := ms.reverse.find? fun m => m.msgId = msgId

/-- The loop over the rows. A text that cannot be read is taken from what was there before. -/
def readRow (existing : List (Entry M)) (r : HistoryRow M) : Read M :=
  if r.body ∈ controlBodies ∧ ¬ r.deleted then .skip
  else if h : 0 < r.editTarget then
    if isUnavailableHistoryBody r.body then .skip else .edit ⟨r.editTarget, r.body, h⟩
  else if 0 < r.id then
    let entry : Entry M :=
      { msgId := r.id, body := r.body, edited := r.edited, deleted := r.deleted, hidden := r.hidden,
        rest := r.rest }
    match lastOf existing r.id with
    | none => .message entry
    | some previous =>
        if isUnavailableHistoryBody r.body ∧ ¬ isUnavailableHistoryBody previous.body then
          .message { entry with
            body := previous.body, edited := entry.edited || previous.edited, hidden := false }
        else .message entry
  else .skip

/-- The values of a dict that is filled from a list: of each id the last entry. -/
def keepLast : List (Entry M) → List (Entry M)
  | [] => []
  | m :: ms => if ms.any fun m' => m'.msgId = m.msgId then keepLast ms else m :: keepLast ms

/-- The messages of before, with those of the rows, in the order of their ids. -/
def mergedMessages (existing incoming : List (Entry M)) : List (Entry M) :=
  ((keepLast (existing ++ incoming)).insertionSort fun m m' => m.msgId ≤ m'.msgId).filter fun m =>
    ¬ (m.body ∈ controlBodies ∧ ¬ m.deleted)

/-- What the loop over the lines about the group has made. -/
structure Persisted (M : Type) where
  events : List (Entry M)
  keys : List Key
  failedSendCounter : ℕ

/-- The text of a line, without the mark of the page. -/
def plainText (text : String) : String :=
  if systemPrefix.toList.isPrefixOf text.toList then
    String.ofList (text.toList.drop systemPrefix.toList.length)
  else text

def Persisted.read (acc : Persisted M) (ev : SystemEvent M) : Persisted M :=
  if plainText ev.text = "" then acc
  else
    let keys := systemEventKeysFor ev.systemEventId ev.eventKey
    if keys.any (· ∈ acc.keys) then acc
    else
      let counter := if 0 < ev.systemEventId then acc.failedSendCounter else acc.failedSendCounter + 1
      { events := acc.events ++ [{
          msgId := if 0 < ev.systemEventId then -(1000000000 + ev.systemEventId) else -counter
          body := systemPrefix ++ plainText ev.text
          system := true
          eventKeys := keys
          systemEventId := ev.systemEventId
          afterMessageId := ev.afterMessageId
          rest := ev.rest }]
        keys := acc.keys ++ keys
        failedSendCounter := counter }

/-- An entry with what `timeline` is sorted by. -/
structure Slot (M : Type) where
  anchor : ℤ
  kind : ℤ
  order : ℤ
  entry : Entry M

def Slot.key (s : Slot M) : ℤ ×ₗ ℤ ×ₗ ℤ := toLex (s.anchor, toLex (s.kind, s.order))

def messageSlot (m : Entry M) : Slot M := ⟨m.msgId, 0, m.msgId, m⟩

def eventSlot (seq : ℕ) (m : Entry M) : Slot M :=
  ⟨anchorFromEntry m 0, 1, if 0 < m.systemEventId then m.systemEventId else 100000000 + seq, m⟩

/-- The list after the merge, before the edits are applied to it. -/
def mergeHistory (p : Page M) (rows : List (HistoryRow M)) (events : List (SystemEvent M)) : Page M :=
  let old := p.hist.foldl Old.read ⟨0, [], []⟩
  let existing := p.hist.filter fun m => 0 < m.msgId
  let incoming := (rows.map (readRow existing)).filterMap Read.message?
  let persisted := events.foldl Persisted.read ⟨[], [], p.failedSendCounter⟩
  let kept := old.systemEvents.filter fun m => ¬ m.eventKeys.any (· ∈ persisted.keys)
  let slots := (mergedMessages existing incoming).map messageSlot ++
    (persisted.events ++ kept).mapIdx eventSlot
  { hist := (slots.insertionSort fun s s' => s.key ≤ s'.key).map Slot.entry ++ old.transient
    pendingEdits := p.pendingEdits
    systemEventKeys := p.systemEventKeys ++ persisted.keys ++ kept.flatMap Entry.eventKeys
    failedSendCounter := persisted.failedSendCounter }

/-- `load_history`. -/
def loadHistory (p : Page M) (rows : List (HistoryRow M)) (events : List (SystemEvent M)) : Page M :=
  let edits := (rows.map (readRow (p.hist.filter fun m => 0 < m.msgId))).filterMap Read.edit?
  applyPendingEditEvents (edits.foldl applyEditEvent (mergeHistory p rows events))

end SecChat.ChatPage
