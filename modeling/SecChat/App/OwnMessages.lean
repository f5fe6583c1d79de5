import SecChat.Library.Runs
import SecChat.Python.JsonText
import Mathlib.Data.List.Infix

/-!
# The client's own messages

The client cannot decrypt what it has sent, so it keeps the plaintexts of its own wires in one queue of
a conversation and the ids of their pending bubbles in another.  An echo of the server takes the head
of both.  An edit is only put into the first one, and neither queue hears of a wire that is rejected or
lost.

* `sendMessage`, `editMessage`, `handleEcho`, `removePendingSend`: what the client does;
* `step`: the client, its connection, and the server that answers its wires in order;
* `OwnText`: an echo shows the plaintext of its own wire, and removes no other bubble;
* `StepOk`: the condition on a step, in the state before it;
* `own_text_kept`: under the condition every echo of every run shows its own text;
* `rejected_text_shown`: the text of a rejected message is shown as the next one.
-/

namespace SecChat.OwnMessages

open Py

/-! ### Texts -/

/-- `_PADDED_PLAINTEXT_MARKER`. -/
def paddedPlaintextMarker : String := "__secchat_payload_v1__"

/-- `unpack_plaintext`. -/
def unpackPlaintext (body : String) : String :=
  if body.toList.head? = some '\x7b' then
    match loads (encodeUtf8 body) with
    | .ok obj =>
        match obj.getD "_type" .null, obj.getD "body" (.str "") with
        | .ok (.str kind), .ok inner => if kind = paddedPlaintextMarker then inner.toStr else body
        | _, _ => body
    | .error _ => body
  else body

/-- What `_handle_decrypted_message` takes for a text and not for a placeholder. -/
def isPlain (body : String) : Bool :=
  body ≠ "[message sent]" && !"[\u00f0\u0178\u201d\u0090".toList.isPrefixOf body.toList &&
    !"[Cannot".toList.isPrefixOf body.toList && !"[Encrypted".toList.isPrefixOf body.toList

/-- The errors of a send. -/
def sendErrorFragments : List String :=
  ["Cannot send message", "Not a member of this conversation", "Group has been disbanded",
    "Rate limit exceeded", "Message body is empty or too large",
    "Unsupported or unsupported encrypted message"]

/-! ### The client, its connection and the server -/

/-- A bubble of a message without an id of the server. -/
structure Bubble where
  id : ℤ
  retryBody : String
  sending : Bool
  deriving DecidableEq, Repr

/-- An encrypted message: the plaintext in it, the bubble it was sent with, and the message it
edits.  Of these only the last one is visible to the server. -/
structure Wire where
  text : String
  bubble : Option ℤ
  editTarget : ℕ
  deriving DecidableEq, Repr

/-- What the server sends. -/
inductive Reply
  | echo (id : ℕ) (w : Wire)
  | error (text : String)
  deriving DecidableEq, Repr

/-- What is shown, recorded in the transcript, and put into the cache if it is a text, for a message
of the server. -/
structure Shown where
  id : ℕ
  editTarget : ℕ
  body : String
  cached : Bool
  deriving DecidableEq, Repr

/-- One conversation of a client. -/
structure State where
  online : Bool
  /-- `_self_pending_plaintexts` -/
  texts : List String
  /-- `_self_pending_ids` -/
  ids : List ℤ
  /-- `_failed_send_counter` -/
  counter : ℕ
  bubbles : List Bubble
  uplink : List Wire
  downlink : List Reply
  nextId : ℕ
  shown : List Shown
  deriving DecidableEq

/-- `remove_pending_send`. -/
def removePendingSend (bubbles : List Bubble) (body : String) (pendingId : ℤ) : List Bubble :=
  bubbles.eraseP fun b =>
    b.sending && if pendingId = 0 then body ≠ "" && b.retryBody = body else b.id = pendingId

/-- `mark_pending_sends_failed`. -/
def markPendingSendsFailed (bubbles : List Bubble) : List Bubble :=
  bubbles.map fun b => { b with sending := false }

/-- `_send_message` and `_send_file` after the encryption; `sends` says whether the socket takes the
wire. -/
def sendMessage (s : State) (body : String) (sends : Bool) : State :=
  let id : ℤ := -(s.counter + 1)
  let pending : State :=
    { s with
      counter := s.counter + 1
      bubbles := s.bubbles ++ [⟨id, body, true⟩]
      texts := s.texts ++ [body]
      ids := s.ids ++ [id] }
  if s.online ∧ sends then { pending with uplink := s.uplink ++ [⟨body, some id, 0⟩] }
  else
    { pending with
      counter := s.counter + 2
      bubbles := removePendingSend pending.bubbles "" id ++ [⟨-(s.counter + 2), body, false⟩]
      texts := pending.texts.dropLast
      ids := pending.ids.dropLast }

/-- `_edit_message` after the encryption. -/
def editMessage (s : State) (target : ℕ) (body : String) (sends : Bool) : State :=
  { s with
    texts := s.texts ++ [body]
    uplink := if s.online ∧ sends then s.uplink ++ [⟨body, none, target⟩] else s.uplink }

/-- `_handle_message` for an own echo, and `_handle_decrypted_message`. -/
def handleEcho (s : State) (id : ℕ) (w : Wire) : State :=
  let body := s.texts.head?.getD "[message sent]"
  let pendingId := s.ids.head?.getD 0
  { s with
    texts := s.texts.tail
    ids := s.ids.tail
    bubbles := removePendingSend s.bubbles body pendingId
    shown := s.shown ++
      [⟨id, w.editTarget, unpackPlaintext body, isPlain (unpackPlaintext body)⟩] }

/-- `_handle_error` on the chat page. -/
def handleError (s : State) (text : String) : State :=
  if sendErrorFragments.any fun fragment => fragment.toList <:+: text.toList then
    { s with bubbles := markPendingSendsFailed s.bubbles }
  else s

/-- What happens next. -/
inductive Event
  | send (body : String) (sends : Bool)
  | edit (target : ℕ) (body : String) (sends : Bool)
  /-- The server stores the next wire and echoes it. -/
  | accept
  /-- The server answers the next wire with an error. -/
  | reject (text : String)
  /-- The next wire does not come to the server, or the server drops it. -/
  | lose
  /-- The server answers another request with an error. -/
  | error (text : String)
  /-- The next answer comes to the client. -/
  | deliver
  | drop
  | reconnect
  /-- A bubble is dismissed, before its text is sent again perhaps. -/
  | dismiss (id : ℤ)
  deriving DecidableEq

/-- One event.  Message ids of the server are new, so none of them was seen before. -/
def step (s : State) : Event → State
  | .send body sends => sendMessage s body sends
  | .edit target body sends => editMessage s target body sends
  | .accept =>
      match s.uplink with
      | w :: uplink =>
          { s with
            uplink := uplink
            nextId := s.nextId + 1
            downlink := if s.online then s.downlink ++ [.echo s.nextId w] else s.downlink }
      | [] => s
  | .reject text =>
      match s.uplink with
      | _ :: uplink =>
          { s with
            uplink := uplink
            downlink := if s.online then s.downlink ++ [.error text] else s.downlink }
      | [] => s
  | .lose => { s with uplink := s.uplink.tail }
  | .error text => { s with downlink := if s.online then s.downlink ++ [.error text] else s.downlink }
  | .deliver =>
      match s.downlink with
      | .echo id w :: downlink => handleEcho { s with downlink := downlink } id w
      | .error text :: downlink => handleError { s with downlink := downlink } text
      | [] => s
  | .drop => { s with online := false, downlink := [], bubbles := markPendingSendsFailed s.bubbles }
  | .reconnect => { s with online := true }
  | .dismiss id => { s with bubbles := s.bubbles.filter (·.id ≠ id) }

/-- A conversation of a client that has just logged in. -/
def opened : State := ⟨true, [], [], 0, [], [], [], 1, []⟩

/-! ### What is claimed -/

/-- The echo at the head of the connection. -/
def State.nextEcho (s : State) : Option (ℕ × Wire) :=
  match s.downlink with
  | .echo id w :: _ => some (id, w)
  | _ => none

/-- An echo shows the plaintext that was encrypted into its wire, and the bubble that it removes is the
one of its message. -/
def OwnText (s : State) : Event → Prop
  | .deliver => ∀ e ∈ s.nextEcho,
      (step s .deliver).shown = s.shown ++ [⟨e.1, e.2.editTarget, e.2.text, isPlain e.2.text⟩] ∧
        ∀ b ∈ s.bubbles, b ∈ (step s .deliver).bubbles ∨ e.2.bubble = some b.id
  | _ => True

instance (s : State) : (e : Event) → Decidable (OwnText s e)
  | .deliver => inferInstanceAs (Decidable (∀ e ∈ s.nextEcho, _ = _ ∧ ∀ b ∈ s.bubbles, _ ∨ _))
  | .send _ _ | .edit _ _ _ | .accept | .reject _ | .lose | .error _ | .drop | .reconnect
  | .dismiss _ => .isTrue trivial

/-! ### The condition -/

/-- The wire of an echo. -/
def Reply.wire : Reply → Option Wire
  | .echo _ w => some w
  | .error _ => none

/-- The wires whose echo is still to come, in the order of their echoes. -/
def State.outstanding (s : State) : List Wire := s.downlink.filterMap Reply.wire ++ s.uplink

/-- The condition on a step: no wire goes unanswered, a text does not look like a padded one, and when
the echo of an edit comes, no message is pending that could be taken for it. -/
def StepOk (s : State) : Event → Prop
  | .send body sends => s.online = true → sends = true → unpackPlaintext body = body
  | .edit _ body sends => unpackPlaintext body = body ∧ s.online = true ∧ sends = true
  | .accept => s.uplink = [] ∨ s.online = true
  | .reject _ | .lose => s.uplink = []
  | .drop => s.downlink.filterMap Reply.wire = []
  | .deliver => ∀ e ∈ s.nextEcho, e.2.bubble = none → s.ids = [] ∧
      (e.2.text ≠ "" → ∀ b ∈ s.bubbles, b.sending = true → b.retryBody ≠ e.2.text)
  | .error _ | .reconnect | .dismiss _ => True

instance (s : State) : (e : Event) → Decidable (StepOk s e)
  | .send _ _ => inferInstanceAs (Decidable (_ → _ → _))
  | .edit _ _ _ => inferInstanceAs (Decidable (_ ∧ _))
  | .accept => inferInstanceAs (Decidable (_ ∨ _))
  | .reject _ | .lose => inferInstanceAs (Decidable (s.uplink = []))
  | .drop => inferInstanceAs (Decidable (_ = _))
  | .deliver => inferInstanceAs (Decidable (∀ e ∈ s.nextEcho, _ → _ ∧
      (_ → ∀ b ∈ s.bubbles, _ → _)))
  | .error _ | .reconnect | .dismiss _ => .isTrue trivial

/-! ### The queues -/

/-- The queues are those of the outstanding wires. -/
structure Aligned (s : State) : Prop where
  texts : s.texts = s.outstanding.map Wire.text
  ids : s.ids = s.outstanding.filterMap Wire.bubble
  negative : ∀ id ∈ s.ids, id < 0
  unpacked : ∀ w ∈ s.outstanding, unpackPlaintext w.text = w.text

variable {s : State}

/-- What a step leaves alone. -/
theorem Aligned.congr (h : Aligned s) {s' : State} (htexts : s'.texts = s.texts)
    (hids : s'.ids = s.ids) (hout : s'.outstanding = s.outstanding) : Aligned s' := by
  refine ⟨?_, ?_, ?_, ?_⟩
  · rw [htexts, hout, h.texts]
  · rw [hids, hout, h.ids]
  · rw [hids]
    exact h.negative
  · rw [hout]
    exact h.unpacked

/-- The wire of another message. -/
theorem Aligned.push (h : Aligned s) {s' : State} {w : Wire} (htexts : s'.texts = s.texts ++ [w.text])
    (hids : s'.ids = s.ids ++ w.bubble.toList) (hout : s'.outstanding = s.outstanding ++ [w])
    (hneg : ∀ id ∈ w.bubble, id < 0) (hw : unpackPlaintext w.text = w.text) : Aligned s' := by
  refine ⟨?_, ?_, ?_, ?_⟩
  · rw [htexts, hout, h.texts, List.map_append, List.map_singleton]
  · rw [hids, hout, h.ids, List.filterMap_append]
    cases hb : w.bubble with
    | none => simp [hb]
    | some id => simp [hb]
  · intro id hid
    rw [hids] at hid
    rcases List.mem_append.mp hid with hid | hid
    · exact h.negative id hid
    · exact hneg id (Option.mem_toList.mp hid)
  · intro w' hw'
    rw [hout] at hw'
    rcases List.mem_append.mp hw' with hw' | hw'
    · exact h.unpacked w' hw'
    · obtain rfl := List.mem_singleton.mp hw'
      exact hw

/-! ### One step -/

theorem mem_removePendingSend {bubbles : List Bubble} {body : String} {pendingId : ℤ} {b : Bubble}
    (hb : b ∈ bubbles) (hne : b.sending = true → pendingId ≠ 0 → b.id ≠ pendingId)
    (hbody : b.sending = true → pendingId = 0 → body ≠ "" → b.retryBody ≠ body) :
    b ∈ removePendingSend bubbles body pendingId := by
  refine (List.mem_eraseP_of_neg ?_).mpr hb
  intro hmatch
  rw [Bool.and_eq_true] at hmatch
  obtain ⟨hsending, hmatch⟩ := hmatch
  split at hmatch
  · next hzero =>
    simp only [ne_eq, Bool.and_eq_true, decide_eq_true_eq] at hmatch
    exact hbody hsending hzero hmatch.1 hmatch.2
  · next hzero => exact hne hsending hzero (by simpa using hmatch)

/-- The next echo is the one of the first outstanding wire. -/
theorem outstanding_of_nextEcho {e : ℕ × Wire} (h : s.nextEcho = some e) :
    ∃ downlink, s.downlink = .echo e.1 e.2 :: downlink ∧
      s.outstanding = e.2 :: (downlink.filterMap Reply.wire ++ s.uplink) := by
  unfold State.nextEcho at h
  split at h
  · next id w downlink hdown =>
    obtain rfl := Option.some.inj h
    refine ⟨downlink, hdown, ?_⟩
    unfold State.outstanding
    rw [hdown]
    rfl
  · cases h

/-- **The echo at the head takes its own text and its own bubble.** -/
theorem Aligned.ownText (h : Aligned s) {e : Event} (hok : StepOk s e) : OwnText s e := by
  cases e with
  | deliver =>
    intro e he
    obtain ⟨downlink, hdown, hout⟩ := outstanding_of_nextEcho he
    have htext : s.texts.head?.getD "[message sent]" = e.2.text := by
      rw [h.texts, hout]
      rfl
    have hplain : unpackPlaintext e.2.text = e.2.text :=
      h.unpacked e.2 (hout ▸ List.mem_cons_self)
    have hstep : step s .deliver = handleEcho { s with downlink := downlink } e.1 e.2 := by
      unfold step
      rw [hdown]
    rw [hstep]
    unfold handleEcho
    dsimp only
    rw [htext, hplain]
    refine ⟨rfl, fun b hb => ?_⟩
    cases hbubble : e.2.bubble with
    | none =>
      obtain ⟨hids, hbodies⟩ := hok e he hbubble
      refine .inl (mem_removePendingSend hb (fun _ hne => ?_) fun hsending _ hne => ?_)
      · rw [hids] at hne
        exact absurd rfl hne
      · exact hbodies hne b hb hsending
    | some id =>
      have hids : s.ids.head? = some id := by
        rw [h.ids, hout, List.filterMap_cons_some hbubble, List.head?_cons]
      have hneg : id < 0 := h.negative id (List.mem_of_mem_head? hids)
      rw [hids]
      dsimp only [Option.getD_some]
      by_cases hid : b.id = id
      · exact .inr (by rw [hid])
      · refine .inl (mem_removePendingSend hb (fun _ _ => hid) fun _ hzero => ?_)
        omega
  | send _ _ | edit _ _ _ | accept | reject _ | lose | error _ | drop | reconnect | dismiss _ =>
    trivial

theorem Aligned.sendMessage (h : Aligned s) {body : String} {sends : Bool}
    (hok : s.online = true → sends = true → unpackPlaintext body = body) :
    Aligned (sendMessage s body sends) := by
  unfold OwnMessages.sendMessage
  dsimp only
  split
  · next hsent =>
    refine h.push (w := ⟨body, some (-(s.counter + 1)), 0⟩) rfl rfl ?_ (fun id hid => ?_)
      (hok hsent.1 hsent.2)
    · unfold State.outstanding
      rw [List.append_assoc]
    · obtain rfl := Option.some.inj hid
      omega
  · refine h.congr ?_ ?_ rfl
    · exact List.dropLast_concat
    · exact List.dropLast_concat

theorem Aligned.editMessage (h : Aligned s) (target : ℕ) {body : String} {sends : Bool}
    (hbody : unpackPlaintext body = body) (honline : s.online = true) (hsends : sends = true) :
    Aligned (editMessage s target body sends) := by
  unfold OwnMessages.editMessage
  rw [if_pos ⟨honline, hsends⟩]
  refine h.push (w := ⟨body, none, target⟩) rfl (List.append_nil _).symm ?_ nofun hbody
  unfold State.outstanding
  rw [List.append_assoc]

theorem Aligned.handleEcho (h : Aligned s) {id : ℕ} {w : Wire} {downlink : List Reply}
    (hdown : s.downlink = .echo id w :: downlink) (hids : w.bubble = none → s.ids = []) :
    Aligned (handleEcho { s with downlink := downlink } id w) := by
  have hout : s.outstanding = w :: (downlink.filterMap Reply.wire ++ s.uplink) := by
    unfold State.outstanding
    rw [hdown]
    rfl
  refine ⟨?_, ?_, ?_, ?_⟩
  · show s.texts.tail = _
    rw [h.texts, hout]
    rfl
  · show s.ids.tail = _
    cases hbubble : w.bubble with
    | none =>
      have hnil := hids hbubble
      rw [hnil]
      rw [h.ids, hout, List.filterMap_cons_none hbubble] at hnil
      exact hnil.symm
    | some id =>
      rw [h.ids, hout, List.filterMap_cons_some hbubble]
      rfl
  · exact fun id hid => h.negative id (List.mem_of_mem_tail hid)
  · exact fun w' hw' => h.unpacked w' (hout ▸ List.mem_cons_of_mem _ hw')

theorem filterMap_wire_append_error (l : List Reply) (text : String) :
    (l ++ [Reply.error text]).filterMap Reply.wire = l.filterMap Reply.wire := by
  rw [List.filterMap_append]
  exact List.append_nil _

/-- **One step** that meets the condition keeps the queues aligned. -/
theorem Aligned.step (h : Aligned s) {e : Event} (hok : StepOk s e) : Aligned (step s e) := by
  cases e with
  | send body sends => exact h.sendMessage hok
  | edit target body sends => exact h.editMessage target hok.1 hok.2.1 hok.2.2
  | accept =>
    dsimp only [OwnMessages.step]
    split
    · next w uplink hup =>
      have honline : s.online = true := by
        rcases hok with hnil | honline
        · rw [hup] at hnil
          cases hnil
        · exact honline
      refine h.congr rfl rfl ?_
      unfold State.outstanding
      dsimp only
      rw [if_pos honline, hup, List.filterMap_append, List.append_assoc]
      rfl
    · exact h
  | reject text =>
    dsimp only [OwnMessages.step]
    split
    · next w uplink hup =>
      rw [show s.uplink = [] from hok] at hup
      cases hup
    · exact h
  | lose =>
    refine h.congr rfl rfl ?_
    unfold State.outstanding
    show _ ++ s.uplink.tail = _
    rw [show s.uplink = [] from hok]
    rfl
  | error text =>
    refine h.congr rfl rfl ?_
    unfold State.outstanding
    dsimp only [OwnMessages.step]
    split
    · rw [filterMap_wire_append_error]
    · rfl
  | deliver =>
    dsimp only [OwnMessages.step]
    split
    · next id w downlink hdown =>
      have hecho : s.nextEcho = some (id, w) := by
        unfold State.nextEcho
        rw [hdown]
      exact h.handleEcho hdown fun hbubble => (hok (id, w) hecho hbubble).1
    · next text downlink hdown =>
      have hcongr : Aligned { s with downlink := downlink } := by
        refine h.congr rfl rfl ?_
        unfold State.outstanding
        rw [hdown]
        rfl
      unfold handleError
      split
      · exact hcongr.congr rfl rfl rfl
      · exact hcongr
    · exact h
  | drop =>
    refine h.congr rfl rfl ?_
    unfold State.outstanding
    rw [show s.downlink.filterMap Reply.wire = [] from hok]
    rfl
  | reconnect => exact h.congr rfl rfl rfl
  | dismiss id => exact h.congr rfl rfl rfl

/-! ### Every run -/

theorem aligned_opened : Aligned opened := ⟨rfl, rfl, nofun, nofun⟩

/-- **Own messages keep their own text** in every run whose steps meet the condition. -/
theorem own_text_kept (es : List Event) (hok : Runs.Each step StepOk opened es) :
    Runs.Each step OwnText opened es :=
  Runs.each_of_each (fun _ _ hs he => Aligned.step hs he) (fun _ _ hs he => Aligned.ownText hs he)
    aligned_opened hok

/-- Two messages, a reconnect with nothing on the way, and an edit of the first one. -/
def twoMessages : List Event :=
  [.send "a" true, .send "b" true, .accept, .deliver, .accept, .deliver, .drop, .send "c" true,
    .reconnect, .edit 1 "d" true, .accept, .deliver]

theorem own_text_kept_twoMessages : Runs.Each step OwnText opened twoMessages := by
  refine own_text_kept twoMessages ?_
  simp only [twoMessages, Runs.each_cons, Runs.each_nil, and_true]
  refine ⟨?_, ?_, ?_, ?_, ?_, ?_, ?_, ?_, ?_, ?_, ?_, ?_⟩
  all_goals decide +kernel

/-- The first message is over the rate limit, the second one is stored. -/
def rateLimited : List Event :=
  [.send "a" true, .reject "Rate limit exceeded", .deliver, .send "b" true, .accept, .deliver]

/-- The second message is shown with the text of the first one. -/
theorem rejected_text_shown : ¬ ∀ es : List Event, Runs.Each step OwnText opened es := by
  intro hall
  have hrun := hall rateLimited
  simp only [rateLimited, Runs.each_cons, Runs.each_nil, and_true] at hrun
  obtain ⟨-, -, -, -, -, hlast⟩ := hrun
  revert hlast
  decide +kernel

end SecChat.OwnMessages
