import SecChat.Python.IntText
import SecChat.Session.PendingAnswers

/-!
# The queue of messages that wait for keys

`_handle_message` puts a message that is answered `pending` into a list, and `_flush_pending` hands
the messages of one conversation to `_handle_message` again, which may flush again before it
returns.  The loop runs over the list object that the queue was when it began, appends go to the
object that the queue is at that time, and the last assignment wins.

* `App`: the client, the list objects, and what was processed;
* `handleMessage`, `flushLoop`, `flushPending`: the code, as far as it decides what becomes of the
  queue; `flushPending` stops at a bound on its depth;
* `FlushKeeps`: the flush ends, and what it was to retry is processed or still queued;
* `Flushable`: nothing in the queue still waits, and nothing asks for a flush again and again;
* `Starved`: everything in the queue still waits;
* `flush_keeps`: the first suffices, and under the second the queue is lost.
-/

namespace SecChat.PendingQueue

open Py DoubleRatchet

/-! ### Messages -/

/-- `int(m.get("conversation_id", 0))`, as `_flush_pending` reads it. -/
def flushConv (m : Json) : Except Exn ℤ := do (← m.getD "conversation_id" (.int 0)).toInt

/-- Whether `_flush_pending` takes a message. -/
def isOf (conv : ℤ) (m : Json) : Bool :=
  match flushConv m with
  | .ok conv' => conv' = conv
  | .error _ => false

/-- What `_handle_message` reads off a message, with the body as `decrypt_live_message` reads it. -/
structure Fields where
  conv : ℤ
  sender : ℤ
  id : ℤ
  body : Json

/-- The fields of a message. -/
def fieldsOf (m : Json) : Except Exn Fields := do
  let (conv, sender, body) ← Client.envelopeOf m
  let id ← intOrZero m "id"
  return ⟨conv, sender, id, body⟩

/-- Whether some message of the queue has the id: `any(int(p.get("id", 0) or 0) == msg_id and
msg_id > 0 for p in self._pending_messages)`. -/
def idQueued (id : ℤ) : List Json → Except Exn Bool
  | [] => .ok false
  | p :: ps => do
      if (← intOrZero p "id") = id ∧ 0 < id then return true
      else idQueued id ps

/-- What is read off a message to show it; a text is needed for the body. -/
def readShown (m body : Json) : Except Exn Unit := do
  match ← m.getD "time" (.str "") with
  | .str _ => pure ()
  | time => if time.truthy then throw .attributeError
  let editTarget ← intOrZero m "edit_target_message_id"
  match body with
  | .str _ => pure ()
  | _ => throw .attributeError
  if editTarget ≤ 0 then
    let _ ← intOrZero m "forwarded_from_id"
    let _ ← intOrZero m "reply_to_message_id"

/-- `result.get("ready")` of a control: an `S3PQI` that was accepted, or a transcript checkpoint. -/
def isReady (body : Json) : Option PeerInfo → Bool
  | some _ => true
  | none =>
      match body with
      | .str text => !text.startsWith prefixPqInit &&
          match Client.isTranscriptCheckpoint text with
          | .ok checkpoint => checkpoint
          | .error _ => false
      | _ => false

/-! ### The app -/

/-- The random choices: of every delivery, and of `set.pop`. -/
structure Env where
  rand : ℕ → RecvRand
  pop : ℕ → Finset ℤ → ℤ
  pop_mem : ∀ n s, s.Nonempty → pop n s ∈ s

/-- The part of the app that handles messages.  `pending` is the list object that
`_pending_messages` refers to, `seen` is `_seen_msg_ids`, and `turn` counts the deliveries.
`handled` holds the messages that were answered with a status other than `pending` or whose id had
been seen. -/
structure App (G : Type) where
  client : Client G
  lists : ℕ → List Json
  next : ℕ
  pending : ℕ
  pending_lt : pending < next
  seen : ℤ → Finset ℤ
  turn : ℕ
  handled : List Json

variable {G : Type} (P : Prims) (A : MlsApp G) (env : Env)

namespace App

/-- `self._pending_messages`. -/
def queue (σ : App G) : List Json := σ.lists σ.pending

/-- A delivery has changed the client. -/
def delivered (σ : App G) (c : Client G) : App G := { σ with client := c, turn := σ.turn + 1 }

/-- The message is processed. -/
def done (σ : App G) (m : Json) : App G := { σ with handled := σ.handled ++ [m] }

/-- `mark_seen`. -/
def markSeen (σ : App G) (conv id : ℤ) : App G :=
  if id = 0 then σ
  else
    let seen := insert id (σ.seen conv)
    let seen :=
      if 10000 < seen.card then (fun s => s.erase (env.pop σ.turn s))^[seen.card - 9000] seen
      else seen
    { σ with seen := Function.update σ.seen conv seen }

/-- A message that waits is appended, unless its id is in the queue. -/
def requeue (σ : App G) (m : Json) (id : ℤ) : Option Exn × App G :=
  match idQueued id σ.queue with
  | .error e => (some e, σ)
  | .ok true => (none, σ)
  | .ok false => (none, { σ with lists := Function.update σ.lists σ.pending (σ.queue ++ [m]) })

/-- `self._pending_messages = remaining`. -/
def assign (σ : App G) (remaining : List Json) : App G :=
  { σ with
    lists := Function.update σ.lists σ.next remaining
    next := σ.next + 1
    pending := σ.next
    pending_lt := Nat.lt_succ_self σ.next }

end App

/-- How a call ends: with an exception or without, or not within the bound. -/
abbrev Run (G : Type) := Option (Option Exn × App G)

/-- `_handle_message`, with the `_flush_pending` that it calls. -/
def handleMessage (flush : ℤ → App G → Run G) (m : Json) (σ : App G) : Run G :=
  match fieldsOf m with
  | .error e => some (some e, σ)
  | .ok f =>
      if f.id ≠ 0 ∧ f.id ∈ σ.seen f.conv then some (none, σ.done m)
      else
        match σ.client.decryptLiveMessage P A m (env.rand σ.turn) with
        | (.raised e, c) => some (some e, σ.delivered c)
        | (.pending, c) => some ((σ.delivered c).requeue m f.id)
        | (.hidden _, c) => some (none, ((σ.delivered c).markSeen env f.conv f.id).done m)
        | (.control peer, c) =>
            let σ := ((σ.delivered c).markSeen env f.conv f.id).done m
            if isReady f.body peer then flush f.conv σ else some (none, σ)
        | (.selfEcho, c) =>
            let σ := ((σ.delivered c).markSeen env f.conv f.id).done m
            match readShown m (.str "") with
            | .ok () => some (none, σ)
            | .error e => some (some e, σ)
        | (.message body _, c) =>
            let σ := ((σ.delivered c).markSeen env f.conv f.id).done m
            match readShown m body with
            | .ok () => some (none, σ)
            | .error e => some (some e, σ)

/-- The loop of `_flush_pending` over the list object `q`, from index `i` on. -/
def flushLoop (handle : Json → App G → Run G) (conv : ℤ) (q : ℕ) :
    ℕ → ℕ → List Json → App G → Run G
  | 0, _, _, _ => none
  | fuel + 1, i, remaining, σ =>
      match (σ.lists q)[i]? with
      | none => some (none, σ.assign remaining)
      | some m =>
          match flushConv m with
          | .error e => some (some e, σ)
          | .ok conv' =>
              if conv' = conv then
                match handle m σ with
                | none => none
                | some (some e, σ) => some (some e, σ)
                | some (none, σ) => flushLoop handle conv q fuel (i + 1) remaining σ
              else flushLoop handle conv q fuel (i + 1) (remaining ++ [m]) σ

/-- `_flush_pending`, at most `fuel` calls deep. -/
def flushPending : ℕ → ℤ → App G → Run G
  | 0, _, _ => none
  | fuel + 1, conv, σ =>
      flushLoop (handleMessage P A env (flushPending fuel)) conv σ.pending fuel 0 [] σ

/-! ### The conditions -/

open Classical in
/-- `_flush_pending` ends, every message of another conversation is queued as before, and every
message of this one was processed or is in the queue as often as before; where the flush returns,
what it processed has left the queue. -/
def FlushKeeps (σ : App G) (conv : ℤ) : Prop :=
  ∃ enough, ∀ fuel ≥ enough, ∃ e σ',
    flushPending P A env fuel conv { σ with handled := [] } = some (e, σ') ∧
    σ'.queue.filter (fun m => !isOf conv m) = σ.queue.filter (fun m => !isOf conv m) ∧
    ∀ m ∈ σ.queue, isOf conv m →
      (m ∈ σ'.handled ∧ (e = none → m ∉ σ'.queue)) ∨ σ'.queue.count m = σ.queue.count m

/-- A message that asks for a flush whenever it is handled: a transcript checkpoint, or an `S3PQI`
of somebody else that names no session. -/
def Restless (uid : ℤ) (f : Fields) : Prop :=
  match f.body with
  | .str text =>
      if text.startsWith prefixPqInit then f.sender ≠ uid ∧ Client.initSid text = .ok ""
      else Client.isTranscriptCheckpoint text = .ok true
  | _ => False

/-- The ids of the messages of a conversation. -/
def idsOf (conv : ℤ) (l : List Json) : Finset ℤ :=
  ((l.filter (isOf conv)).filterMap fun m => (intOrZero m "id").toOption).toFinset

/-- No id of the conversation is forgotten while the list is handled. -/
def Room (conv : ℤ) (l : List Json) (σ : App G) : Prop :=
  (σ.seen conv ∪ idsOf conv l).card ≤ 10000

/-- No message of the conversation still waits, unless its id was seen, and a message that asks for
a flush whenever it is handled has an id to be told by. -/
structure Flushable (conv : ℤ) (l : List Json) (σ : App G) : Prop where
  opens : ∀ m ∈ l, isOf conv m → ∀ f, fieldsOf m = .ok f →
    σ.client.WouldPend conv f.sender f.body → f.id ≠ 0 ∧ f.id ∈ σ.seen conv ∧ Room conv l σ
  told : ∀ m ∈ l, isOf conv m → ∀ f, fieldsOf m = .ok f →
    Restless σ.client.myUid f → f.id ≠ 0 ∧ Room conv l σ

/-- Some message of the conversation is queued, all of them still wait, and their ids are good and
not seen. -/
structure Starved (conv : ℤ) (σ : App G) : Prop where
  queued : ∃ m ∈ σ.queue, isOf conv m
  readable : ∀ m ∈ σ.queue, (∃ conv', flushConv m = .ok conv') ∧ ∃ id, intOrZero m "id" = .ok id
  waits : ∀ m ∈ σ.queue, isOf conv m → ∃ f, fieldsOf m = .ok f ∧ 0 < f.id ∧
    f.id ∉ σ.seen conv ∧ σ.client.WouldPend conv f.sender f.body

/-! ### What is read -/

theorem isOf_iff {conv : ℤ} {m : Json} : isOf conv m = true ↔ flushConv m = .ok conv := by
  unfold isOf
  cases flushConv m with
  | error e => simp
  | ok conv' => simp

/-- Both readers of a conversation agree where the loop takes the message. -/
theorem fieldsOf_conv {conv : ℤ} {m : Json} {f : Fields} (hof : isOf conv m = true)
    (h : fieldsOf m = .ok f) : f.conv = conv := by
  obtain ⟨x, hx, hconv⟩ := bind_eq_ok_iff.mp (isOf_iff.mp hof)
  obtain ⟨⟨c, sender, body⟩, henv, h⟩ := bind_eq_ok_iff.mp h
  obtain ⟨id, -, h⟩ := bind_eq_ok_iff.mp h
  obtain rfl := Except.ok.inj h
  obtain ⟨c', hc', henv⟩ := bind_eq_ok_iff.mp henv
  obtain ⟨_, -, henv⟩ := bind_eq_ok_iff.mp henv
  obtain ⟨_, -, henv⟩ := bind_eq_ok_iff.mp henv
  obtain ⟨rfl, -⟩ := Prod.mk.inj (Except.ok.inj henv)
  have hread : intOrZero m "conversation_id" = .ok conv :=
    bind_eq_ok_iff.mpr ⟨x, hx, toInt_orElse_zero hconv⟩
  exact Except.ok.inj (hc'.symm.trans hread)

theorem fieldsOf_id {m : Json} {f : Fields} (h : fieldsOf m = .ok f) :
    intOrZero m "id" = .ok f.id := by
  obtain ⟨_, -, h⟩ := bind_eq_ok_iff.mp h
  obtain ⟨id, hid, h⟩ := bind_eq_ok_iff.mp h
  obtain rfl := Except.ok.inj h
  exact hid

/-- `decrypt_live_message` reads the same fields. -/
theorem decryptLiveMessage_eq {c : Client G} {m : Json} {f : Fields} {r : RecvRand}
    (h : fieldsOf m = .ok f) :
    c.decryptLiveMessage P A m r = c.receiveLive P A f.conv f.sender f.body r := by
  obtain ⟨⟨conv, sender, body⟩, henv, h⟩ := bind_eq_ok_iff.mp h
  obtain ⟨_, -, h⟩ := bind_eq_ok_iff.mp h
  obtain rfl := Except.ok.inj h
  unfold Client.decryptLiveMessage
  rw [henv]

theorem mem_idsOf {conv : ℤ} {l : List Json} {m : Json} {f : Fields} (hm : m ∈ l)
    (hof : isOf conv m = true) (h : fieldsOf m = .ok f) : f.id ∈ idsOf conv l := by
  refine List.mem_toFinset.mpr (List.mem_filterMap.mpr ⟨m, List.mem_filter.mpr ⟨hm, hof⟩, ?_⟩)
  rw [fieldsOf_id h]
  rfl

/-! ### One message -/

namespace App

/-- Marking a message as seen changes nothing but the ids. -/
theorem markSeen_frame (σ : App G) (conv id : ℤ) :
    ∃ seen, σ.markSeen env conv id = { σ with seen := seen } := by
  unfold markSeen
  split
  · exact ⟨σ.seen, rfl⟩
  · exact ⟨_, rfl⟩

/-- Where there is room, the id is seen from now on and no other is forgotten. -/
theorem markSeen_seen {env : Env} {σ : App G} {conv id : ℤ} (hid : id ≠ 0)
    (hroom : (insert id (σ.seen conv)).card ≤ 10000) :
    (σ.markSeen env conv id).seen conv = insert id (σ.seen conv) := by
  unfold markSeen
  rw [if_neg hid]
  simp only [if_neg (Nat.not_lt.mpr hroom), Function.update_self]

end App

/-- What is left of a message after it was answered with a status other than `pending`. -/
def processed (σ : App G) (c : Client G) (f : Fields) (m : Json) : App G :=
  ((σ.delivered c).markSeen env f.conv f.id).done m

theorem processed_frame (σ : App G) (c : Client G) (f : Fields) (m : Json) :
    ∃ seen, processed env σ c f m = { σ with
      client := c, turn := σ.turn + 1, seen := seen, handled := σ.handled ++ [m] } := by
  obtain ⟨seen, h⟩ := App.markSeen_frame env (σ.delivered c) f.conv f.id
  refine ⟨seen, ?_⟩
  rw [processed, h]
  rfl

/-- What the handling of messages of a conversation leaves: the client forgets no session, the lists
that were there stay what they are, and where there is room no id is forgotten. -/
structure Later (conv : ℤ) (l : List Json) (σ σ' : App G) : Prop where
  client : σ.client.Advances σ'.client conv
  seen : Room conv l σ → Room conv l σ' ∧ σ.seen conv ⊆ σ'.seen conv
  next : σ.next ≤ σ'.next
  lists : ∀ q < σ.next, σ'.lists q = σ.lists q
  handled : σ.handled ⊆ σ'.handled

section Later

variable {conv : ℤ} {l : List Json}

theorem Later.refl (σ : App G) : Later conv l σ σ :=
  ⟨.refl _ conv, fun h => ⟨h, fun _ => id⟩, le_rfl, fun _ _ => rfl, fun _ => id⟩

theorem Later.trans {σ₁ σ₂ σ₃ : App G} (h : Later conv l σ₁ σ₂) (h' : Later conv l σ₂ σ₃) :
    Later conv l σ₁ σ₃ where
  client := h.client.trans h'.client
  seen hroom := by
    obtain ⟨hroom₂, hseen₂⟩ := h.seen hroom
    obtain ⟨hroom₃, hseen₃⟩ := h'.seen hroom₂
    exact ⟨hroom₃, fun i hi => hseen₃ (hseen₂ hi)⟩
  next := h.next.trans h'.next
  lists q hq := (h'.lists q (hq.trans_le h.next)).trans (h.lists q hq)
  handled m hm := h'.handled (h.handled hm)

/-- A message is only delivered. -/
theorem Later.delivered {σ : App G} {c : Client G} (h : σ.client.Advances c conv) :
    Later conv l σ (σ.delivered c) :=
  ⟨h, fun hroom => ⟨hroom, fun _ => id⟩, le_rfl, fun _ _ => rfl, fun _ => id⟩

theorem Later.done (σ : App G) (m : Json) : Later conv l σ (σ.done m) :=
  ⟨.refl _ conv, fun hroom => ⟨hroom, fun _ => id⟩, le_rfl, fun _ _ => rfl,
    List.subset_append_left _ _⟩

/-- The ids seen and those still to come are the same set before and after. -/
theorem processed_seen {σ : App G} (c : Client G) {f : Fields} {m : Json} (hm : m ∈ l)
    (hof : isOf conv m = true) (hf : fieldsOf m = .ok f) (hroom : Room conv l σ) :
    (processed env σ c f m).seen conv =
      if f.id = 0 then σ.seen conv else insert f.id (σ.seen conv) := by
  obtain rfl := fieldsOf_conv hof hf
  by_cases hid : f.id = 0
  · rw [if_pos hid, processed, App.markSeen, if_pos hid]
    rfl
  · rw [if_neg hid]
    show ((σ.delivered c).markSeen env f.conv f.id).seen f.conv =
      insert f.id ((σ.delivered c).seen f.conv)
    apply App.markSeen_seen hid
    refine (Finset.card_le_card ?_).trans hroom
    intro i hi
    rcases Finset.mem_insert.mp hi with rfl | hi
    · exact Finset.mem_union_right _ (mem_idsOf hm hof hf)
    · exact Finset.mem_union_left _ hi

theorem processed_later {σ : App G} {c : Client G} {f : Fields} {m : Json} (hm : m ∈ l)
    (hof : isOf conv m = true) (hf : fieldsOf m = .ok f) (hc : σ.client.Advances c conv) :
    Later conv l σ (processed env σ c f m) := by
  obtain ⟨seen, hframe⟩ := processed_frame env σ c f m
  refine ⟨?_, fun hroom => ?_, ?_, ?_, ?_⟩
  · rw [hframe]
    exact hc
  · have hseen := processed_seen env c hm hof hf hroom
    have hmem := mem_idsOf hm hof hf
    unfold Room
    rw [hseen]
    split
    · exact ⟨hroom, fun _ => id⟩
    · refine ⟨?_, Finset.subset_insert _ _⟩
      rw [Finset.insert_union, Finset.insert_eq_of_mem (Finset.mem_union_right _ hmem)]
      exact hroom
  · rw [hframe]
  · rw [hframe]
    exact fun _ _ => rfl
  · rw [hframe]
    exact List.subset_append_left _ _

/-- The condition on the queue stays. -/
theorem Flushable.later {σ σ' : App G} (h : Flushable conv l σ) (hlater : Later conv l σ σ') :
    Flushable conv l σ' where
  opens m hm hof f hf hpend := by
    obtain ⟨hid, hseen, hroom⟩ := h.opens m hm hof f hf (hlater.client.wouldPend hpend)
    obtain ⟨hroom', hsub⟩ := hlater.seen hroom
    exact ⟨hid, hsub hseen, hroom'⟩
  told m hm hof f hf hrestless := by
    obtain ⟨hid, hroom⟩ := h.told m hm hof f hf (hlater.client.uid ▸ hrestless)
    exact ⟨hid, (hlater.seen hroom).1⟩

/-- The messages of the other conversations. -/
def rest (conv : ℤ) (l : List Json) : List Json := l.filter fun m => !isOf conv m

/-- The messages of the conversation are processed. -/
def AllDone (conv : ℤ) (l : List Json) (σ : App G) : Prop :=
  ∀ m ∈ l, isOf conv m = true → m ∈ σ.handled

theorem AllDone.later {σ σ' : App G} (h : AllDone conv l σ) (hlater : Later conv l σ σ') :
    AllDone conv l σ' := fun m hm hof => hlater.handled (h m hm hof)

/-- What holds whenever a flush of the conversation begins: its messages are all in the queue, or
all processed. -/
structure Inv (conv : ℤ) (l : List Json) (σ : App G) : Prop where
  flushable : Flushable conv l σ
  intact : σ.queue = l ∨ (σ.queue = rest conv l ∧ AllDone conv l σ)

theorem Inv.later {σ σ' : App G} (h : Inv conv l σ) (hlater : Later conv l σ σ')
    (hqueue : σ'.queue = σ.queue) : Inv conv l σ' where
  flushable := h.flushable.later hlater
  intact := by
    rw [hqueue]
    exact h.intact.imp_right fun ⟨hrest, hdone⟩ => ⟨hrest, hdone.later hlater⟩

/-! ### How often a flush is asked for -/

/-- Handling the message may ask for a flush: it is an `S3PQI` of a session that is not in the map,
or one that can only be told by its id and was not seen. -/
def MayAsk (conv : ℤ) (σ : App G) (f : Fields) : Prop :=
  match f.body with
  | .str text =>
      if text.startsWith prefixPqInit then
        f.sender ≠ σ.client.myUid ∧ ∃ sid, Client.initSid text = .ok sid ∧
          if sid = "" then f.id ∉ σ.seen conv else ¬ (σ.client.dm conv).Loaded sid
      else Client.isTranscriptCheckpoint text = .ok true ∧ f.id ∉ σ.seen conv
  | _ => False

/-- The messages of the list that may ask for a flush. -/
def askers (conv : ℤ) (l : List Json) (σ : App G) : Set Json :=
  {m | m ∈ l ∧ isOf conv m = true ∧ ∃ f, fieldsOf m = .ok f ∧ MayAsk conv σ f}

/-- How many there are. -/
noncomputable def asking (conv : ℤ) (l : List Json) (σ : App G) : ℕ := (askers conv l σ).ncard

theorem finite_askers (σ : App G) : (askers conv l σ).Finite :=
  l.finite_toSet.subset fun _ h => h.1

/-- A message that does not ask will not ask later. -/
theorem MayAsk.of_later {σ σ' : App G} {f : Fields} {m : Json} (h : MayAsk conv σ' f)
    (hflush : Flushable conv l σ) (hm : m ∈ l) (hof : isOf conv m = true) (hf : fieldsOf m = .ok f)
    (hlater : Later conv l σ σ') : MayAsk conv σ f := by
  have hseen : Restless σ.client.myUid f → f.id ∉ σ'.seen conv → f.id ∉ σ.seen conv :=
    fun hrestless hnot hold =>
      hnot ((hlater.seen (hflush.told m hm hof f hf hrestless).2).2 hold)
  unfold MayAsk at h ⊢
  cases hbody : f.body with
  | str text =>
    simp only [hbody] at h ⊢
    split
    next htag =>
      rw [if_pos htag] at h
      obtain ⟨hself, sid, hsid, h⟩ := h
      rw [hlater.client.uid] at hself
      refine ⟨hself, sid, hsid, ?_⟩
      split
      next hempty =>
        rw [if_pos hempty] at h
        refine hseen ?_ h
        simp only [Restless, hbody, if_pos htag]
        exact ⟨hself, hempty ▸ hsid⟩
      next hempty =>
        rw [if_neg hempty] at h
        exact fun hold => h (hlater.client.sessions.loaded sid hold)
    next htag =>
      rw [if_neg htag] at h
      refine ⟨h.1, hseen ?_ h.2⟩
      simp only [Restless, hbody, if_neg htag]
      exact h.1
  | _ =>
    rw [hbody] at h
    exact h

theorem askers_later {σ σ' : App G} (hflush : Flushable conv l σ) (hlater : Later conv l σ σ') :
    askers conv l σ' ⊆ askers conv l σ := by
  rintro m ⟨hm, hof, f, hf, hask⟩
  exact ⟨hm, hof, f, hf, hask.of_later hflush hm hof hf hlater⟩

theorem asking_le {σ σ' : App G} (hflush : Flushable conv l σ) (hlater : Later conv l σ σ') :
    asking conv l σ' ≤ asking conv l σ :=
  Set.ncard_le_ncard (askers_later hflush hlater) (finite_askers σ)

theorem asking_lt {σ σ' : App G} {m : Json} {f : Fields} (hflush : Flushable conv l σ)
    (hlater : Later conv l σ σ') (hm : m ∈ l) (hof : isOf conv m = true) (hf : fieldsOf m = .ok f)
    (hask : MayAsk conv σ f) (hnot : ¬ MayAsk conv σ' f) : asking conv l σ' < asking conv l σ := by
  apply Set.ncard_lt_ncard _ (finite_askers σ)
  refine ⟨askers_later hflush hlater, fun hsub => ?_⟩
  obtain ⟨-, -, f', hf', hask'⟩ := hsub ⟨hm, hof, f, hf, hask⟩
  obtain rfl := Except.ok.inj (hf.symm.trans hf')
  exact hnot hask'

/-- A message that asks for a flush might have, and will not again. -/
theorem ready_asks {σ : App G} {m : Json} {f : Fields} {r : RecvRand} {c : Client G}
    {peer : Option PeerInfo} (hflush : Flushable conv l σ) (hm : m ∈ l) (hof : isOf conv m = true)
    (hf : fieldsOf m = .ok f) (hnew : ¬ (f.id ≠ 0 ∧ f.id ∈ σ.seen conv))
    (hlive : σ.client.receiveLive P A conv f.sender f.body r = (.control peer, c))
    (hready : isReady f.body peer = true) :
    MayAsk conv σ f ∧ ¬ MayAsk conv (processed env σ c f m) f := by
  obtain ⟨seen, hframe⟩ := processed_frame env σ c f m
  have hclient : (processed env σ c f m).client = c := by rw [hframe]
  have hseen : Restless σ.client.myUid f →
      f.id ∉ σ.seen conv ∧ f.id ∈ (processed env σ c f m).seen conv := by
    intro hrestless
    obtain ⟨hid, hroom⟩ := hflush.told m hm hof f hf hrestless
    refine ⟨fun hmem => hnew ⟨hid, hmem⟩, ?_⟩
    rw [processed_seen env c hm hof hf hroom, if_neg hid]
    exact Finset.mem_insert_self _ _
  cases hbody : f.body with
  | str text =>
    rw [hbody] at hlive hready
    by_cases htag : text.startsWith prefixPqInit = true
    · obtain ⟨p, rfl⟩ : ∃ p, peer = some p := by
        cases peer with
        | some p => exact ⟨p, rfl⟩
        | none => simp [isReady, htag] at hready
      obtain ⟨plain, hinit⟩ := Client.receiveLive_peer rfl hlive
      have hself : f.sender ≠ σ.client.myUid := by
        intro hself
        simp only [Client.receiveLive, if_pos htag, if_pos hself] at hlive
        cases hlive
      obtain ⟨sid, hsid⟩ := Client.initSid_of_accepted hinit
      by_cases hempty : sid = ""
      · obtain ⟨hold, hnow⟩ := hseen (by
          simp only [Restless, hbody, if_pos htag]
          exact ⟨hself, hempty ▸ hsid⟩)
        simp only [MayAsk, hbody, if_pos htag]
        refine ⟨⟨hself, sid, hsid, by rwa [if_pos hempty]⟩, ?_⟩
        rintro ⟨-, sid', hsid', hask⟩
        obtain rfl := Except.ok.inj (hsid.symm.trans hsid')
        rw [if_pos hempty] at hask
        exact hask hnow
      · simp only [MayAsk, hbody, if_pos htag]
        refine ⟨⟨hself, sid, hsid, ?_⟩, ?_⟩
        · rw [if_neg hempty]
          intro hloaded
          have hknown : (σ.client.receiveInit P conv text r).1 = .known :=
            Client.receiveInit_known hsid hempty hloaded
          rw [hinit] at hknown
          cases hknown
        · rintro ⟨-, sid', hsid', hask⟩
          obtain rfl := Except.ok.inj (hsid.symm.trans hsid')
          rw [if_neg hempty, hclient] at hask
          exact hask (Client.receiveInit_loaded hsid hempty hinit)
    · have htag' : text.startsWith prefixPqInit = false := Bool.eq_false_of_not_eq_true htag
      have hnone : (LiveResult.control peer).peer = none := by
        have hother : (σ.client.receiveLive P A conv f.sender (.str text) r).1.peer = none :=
          Client.receiveLive_other htag'
        rwa [hlive] at hother
      obtain rfl : peer = none := hnone
      have hcheck : Client.isTranscriptCheckpoint text = .ok true := by
        simp only [isReady, htag', Bool.not_false, Bool.true_and] at hready
        split at hready
        next checkpoint hread => rw [hread, hready]
        next => cases hready
      obtain ⟨hold, hnow⟩ := hseen (by
        simp only [Restless, hbody, if_neg htag]
        exact hcheck)
      simp only [MayAsk, hbody, if_neg htag]
      exact ⟨⟨hcheck, hold⟩, fun hask => hask.2 hnow⟩
  | _ =>
    rw [hbody] at hlive
    simp only [Client.receiveLive] at hlive
    split at hlive <;> cases hlive

/-! ### The flush -/

theorem processed_queue (σ : App G) (c : Client G) (f : Fields) (m : Json) :
    (processed env σ c f m).queue = σ.queue := by
  obtain ⟨seen, hframe⟩ := processed_frame env σ c f m
  rw [hframe]
  rfl

theorem mem_processed (σ : App G) (c : Client G) (f : Fields) (m : Json) :
    m ∈ (processed env σ c f m).handled := by
  obtain ⟨seen, hframe⟩ := processed_frame env σ c f m
  rw [hframe]
  exact List.mem_append_right _ List.mem_cons_self

/-- A call ends, leaves the queue in order, and where it returns a message is processed. -/
def Ends (conv : ℤ) (l : List Json) (σ : App G) (done : App G → Prop) (run : Run G) : Prop :=
  ∃ e σ', run = some (e, σ') ∧ Inv conv l σ' ∧ Later conv l σ σ' ∧ (e = none → done σ')

/-- **One message.** If the flushes that it may ask for end, so does the handling of a message, and
afterwards it is processed. -/
theorem handleMessage_ends {flush : ℤ → App G → Run G} {n : ℕ}
    (hflush : ∀ σ, Inv conv l σ → asking conv l σ < n →
      Ends conv l σ (fun _ => True) (flush conv σ))
    {σ : App G} {m : Json} (hinv : Inv conv l σ) (hm : m ∈ l) (hof : isOf conv m = true)
    (hn : asking conv l σ ≤ n) :
    Ends conv l σ (fun σ' => m ∈ σ'.handled) (handleMessage P A env flush m σ) := by
  unfold handleMessage
  cases hf : fieldsOf m with
  | error e => exact ⟨some e, σ, rfl, hinv, .refl σ, nofun⟩
  | ok f =>
    simp only
    have hconv := fieldsOf_conv hof hf
    split
    next hseen =>
      refine ⟨none, σ.done m, rfl, hinv.later (.done σ m) rfl, .done σ m, fun _ => ?_⟩
      exact List.mem_append_right _ List.mem_cons_self
    next hnew =>
      rw [hconv] at hnew
      have hadv := σ.client.receiveLive_advances (P := P) (A := A) conv f.sender f.body
        (env.rand σ.turn)
      rw [decryptLiveMessage_eq P A hf, hconv]
      rcases hlive : σ.client.receiveLive P A conv f.sender f.body (env.rand σ.turn) with ⟨result, c⟩
      rw [hlive] at hadv
      have hlater : Later conv l σ (processed env σ c f m) := processed_later env hm hof hf hadv
      have hkept := hinv.later hlater (processed_queue env σ c f m)
      have hdone := mem_processed env σ c f m
      rw [processed, hconv] at hlater hkept hdone
      cases result with
      | raised e =>
        have hraised : Later conv l σ (σ.delivered c) := .delivered hadv
        exact ⟨some e, σ.delivered c, rfl, hinv.later hraised rfl, hraised, nofun⟩
      | pending =>
        have hpend := Client.receiveLive_eq_pending_iff.mp (congrArg Prod.fst hlive)
        obtain ⟨hid, hmem, -⟩ := hinv.flushable.opens m hm hof f hf hpend
        exact absurd ⟨hid, hmem⟩ hnew
      | hidden body => exact ⟨none, _, rfl, hkept, hlater, fun _ => hdone⟩
      | control peer =>
        simp only
        split
        next hready =>
          obtain ⟨hask, hnot⟩ := ready_asks P A env hinv.flushable hm hof hf hnew hlive hready
          have hlt := asking_lt hinv.flushable (processed_later env hm hof hf hadv) hm hof hf hask hnot
          rw [processed, hconv] at hlt
          obtain ⟨e, σ', hrun, hinv', hlater', -⟩ := hflush _ hkept (hlt.trans_le hn)
          exact ⟨e, σ', hrun, hinv', hlater.trans hlater', fun _ => hlater'.handled hdone⟩
        next => exact ⟨none, _, rfl, hkept, hlater, fun _ => hdone⟩
      | selfEcho =>
        simp only
        split
        · exact ⟨none, _, rfl, hkept, hlater, fun _ => hdone⟩
        next e _ => exact ⟨some e, _, rfl, hkept, hlater, nofun⟩
      | message body peer =>
        simp only
        split
        · exact ⟨none, _, rfl, hkept, hlater, fun _ => hdone⟩
        next e _ => exact ⟨some e, _, rfl, hkept, hlater, nofun⟩

/-- The end of the loop. -/
theorem assign_ends {σ : App G} (hinv : Inv conv l σ) (hdone : AllDone conv l σ) :
    Ends conv l σ (fun σ' => σ'.queue = rest conv l ∧ AllDone conv l σ')
      (some (none, σ.assign (rest conv l))) := by
  have hlater : Later conv l σ (σ.assign (rest conv l)) := by
    refine ⟨.refl _ conv, fun hroom => ⟨hroom, fun _ => id⟩, Nat.le_succ σ.next, ?_, fun _ => id⟩
    intro q hq
    exact Function.update_of_ne (Nat.ne_of_lt hq) _ _
  have hqueue : (σ.assign (rest conv l)).queue = rest conv l := Function.update_self ..
  have hdone' : AllDone conv l (σ.assign (rest conv l)) := hdone.later hlater
  exact ⟨none, _, rfl, ⟨hinv.flushable.later hlater, .inr ⟨hqueue, hdone'⟩⟩, hlater,
    fun _ => ⟨hqueue, hdone'⟩⟩

/-- **The loop.** The object that it runs over is `xs`, of which the first `i` messages were
handled. -/
theorem flushLoop_ends {handle : Json → App G → Run G} {n q : ℕ} {xs : List Json}
    (hhandle : ∀ σ m, Inv conv l σ → m ∈ l → isOf conv m = true → asking conv l σ ≤ n →
      Ends conv l σ (fun σ' => m ∈ σ'.handled) (handle m σ))
    (hsub : xs ⊆ l) (hrest : rest conv xs = rest conv l) (fuel : ℕ) :
    ∀ (i : ℕ) (σ : App G), i ≤ xs.length → xs.length < fuel + i → σ.lists q = xs → q < σ.next →
      Inv conv l σ → asking conv l σ ≤ n →
      (∀ m ∈ l, isOf conv m = true → m ∈ xs.drop i ∨ m ∈ σ.handled) →
      Ends conv l σ (fun σ' => σ'.queue = rest conv l ∧ AllDone conv l σ')
        (flushLoop handle conv q fuel i (rest conv (xs.take i)) σ) := by
  induction fuel with
  | zero =>
    intro i σ hi hfuel
    omega
  | succ fuel ih =>
    intro i σ hi hfuel hq hlt hinv hn hdone
    rw [flushLoop, hq]
    cases hget : xs[i]? with
    | none =>
      have hend : xs.length ≤ i := List.getElem?_eq_none_iff.mp hget
      rw [List.drop_of_length_le hend] at hdone
      simp only
      rw [List.take_of_length_le hend, hrest]
      exact assign_ends hinv fun m hm hof => (hdone m hm hof).resolve_left (List.not_mem_nil)
    | some m =>
      obtain ⟨hi', hget'⟩ := List.getElem?_eq_some_iff.mp hget
      have hm : m ∈ l := hsub (hget' ▸ List.getElem_mem hi')
      have htake : xs.take (i + 1) = xs.take i ++ [m] := by rw [List.take_add_one, hget]; rfl
      have hdrop : xs.drop i = m :: xs.drop (i + 1) := by
        rw [List.drop_eq_getElem_cons hi', hget']
      simp only
      cases hconv : flushConv m with
      | error e => exact ⟨some e, σ, rfl, hinv, .refl σ, nofun⟩
      | ok conv' =>
        simp only
        by_cases heq : conv' = conv
        · -- the message is handled, and the loop goes on in what that leaves
          have hof : isOf conv m = true := isOf_iff.mpr (heq ▸ hconv)
          obtain ⟨e, σ₁, hrun, hinv₁, hlater, hhandled⟩ := hhandle σ m hinv hm hof hn
          rw [if_pos heq, hrun]
          cases e with
          | some e => exact ⟨some e, σ₁, rfl, hinv₁, hlater, nofun⟩
          | none =>
            have hsame : rest conv (xs.take i) = rest conv (xs.take (i + 1)) := by
              simp [rest, htake, hof]
            simp only
            rw [hsame]
            obtain ⟨e, σ₂, hrun₂, hinv₂, hlater₂, hend⟩ := ih (i + 1) σ₁ hi' (by omega)
              ((hlater.lists q hlt).trans hq) (hlt.trans_le hlater.next) hinv₁
              ((asking_le hinv.flushable hlater).trans hn) (by
                intro m' hm' hof'
                rcases hdone m' hm' hof' with hmem | hmem
                · rw [hdrop] at hmem
                  rcases List.mem_cons.mp hmem with rfl | hmem
                  · exact .inr (hhandled rfl)
                  · exact .inl hmem
                · exact .inr (hlater.handled hmem))
            exact ⟨e, σ₂, hrun₂, hinv₂, hlater.trans hlater₂, hend⟩
        · -- the message is of another conversation and stays
          have hof : isOf conv m = false := by
            rw [← Bool.not_eq_true, isOf_iff, hconv]
            exact fun h => heq (Except.ok.inj h)
          have hkept : rest conv (xs.take i) ++ [m] = rest conv (xs.take (i + 1)) := by
            simp [rest, htake, hof]
          rw [if_neg heq, hkept]
          apply ih (i + 1) σ hi' (by omega) hq hlt hinv hn
          intro m' hm' hof'
          rcases hdone m' hm' hof' with hmem | hmem
          · rw [hdrop] at hmem
            rcases List.mem_cons.mp hmem with rfl | hmem
            · rw [hof] at hof'
              cases hof'
            · exact .inl hmem
          · exact .inr hmem

theorem rest_rest (conv : ℤ) (l : List Json) : rest conv (rest conv l) = rest conv l := by
  simp [rest]

/-- **The flush.** It ends within a depth that grows with the number of messages that may ask for
another one. -/
theorem flushPending_ends (n : ℕ) : ∀ (fuel : ℕ) (σ : App G), Inv conv l σ → asking conv l σ < n →
    n + l.length + 1 ≤ fuel →
    Ends conv l σ (fun σ' => σ'.queue = rest conv l ∧ AllDone conv l σ')
      (flushPending P A env fuel conv σ) := by
  induction n with
  | zero =>
    intro fuel σ hinv hn
    omega
  | succ n ih =>
    intro fuel σ hinv hn hfuel
    obtain ⟨fuel, rfl⟩ : ∃ k, fuel = k + 1 := ⟨fuel - 1, by omega⟩
    have hhandle : ∀ σ m, Inv conv l σ → m ∈ l → isOf conv m = true → asking conv l σ ≤ n →
        Ends conv l σ (fun σ' => m ∈ σ'.handled)
          (handleMessage P A env (flushPending P A env fuel) m σ) := by
      intro σ m hinv hm hof hn
      apply handleMessage_ends P A env _ hinv hm hof hn
      intro σ' hinv' hn'
      obtain ⟨e, σ'', hrun, hinv'', hlater, -⟩ := ih fuel σ' hinv' hn' (by omega)
      exact ⟨e, σ'', hrun, hinv'', hlater, fun _ => trivial⟩
    rw [flushPending]
    rcases hinv.intact with hqueue | ⟨hqueue, hdone⟩
    · exact flushLoop_ends hhandle (fun _ => id) rfl fuel 0 σ (Nat.zero_le _) (by omega) hqueue
        σ.pending_lt hinv (Nat.le_of_lt_succ hn) fun m hm _ => .inl hm
    · -- an outer flush goes on with the list of an inner one: nothing is left to do
      have hsub : rest conv l ⊆ l := List.filter_subset_self l
      have hlen : (rest conv l).length ≤ l.length := List.length_filter_le _ l
      exact flushLoop_ends hhandle hsub (rest_rest conv l) fuel 0 σ (Nat.zero_le _)
        (by omega) hqueue σ.pending_lt hinv (Nat.le_of_lt_succ hn) fun m hm hof => .inr (hdone m hm hof)

end Later

/-! ### A queue that still waits -/

theorem idQueued_of_mem {id : ℤ} {l : List Json} {m : Json} (hpos : 0 < id)
    (hread : ∀ p ∈ l, ∃ i, intOrZero p "id" = .ok i) (hm : m ∈ l) (hid : intOrZero m "id" = .ok id) :
    idQueued id l = .ok true := by
  induction l with
  | nil => cases hm
  | cons p ps ih =>
    obtain ⟨i, hi⟩ := hread p List.mem_cons_self
    rw [idQueued, hi, ok_bind]
    by_cases heq : i = id ∧ 0 < id
    · rw [if_pos heq]
      rfl
    · rw [if_neg heq]
      apply ih (fun p' hp' => hread p' (List.mem_cons_of_mem p hp'))
      rcases List.mem_cons.mp hm with rfl | hm
      · obtain rfl := Except.ok.inj (hi.symm.trans hid)
        exact absurd ⟨rfl, hpos⟩ heq
      · exact hm

theorem Starved.delivered {conv : ℤ} {σ : App G} {c : Client G} (h : Starved conv σ)
    (hsame : σ.client.SameKeys c conv) : Starved conv (σ.delivered c) where
  queued := h.queued
  readable := h.readable
  waits m hm hof := by
    obtain ⟨f, hf, hpos, hnew, hpend⟩ := h.waits m hm hof
    exact ⟨f, hf, hpos, hnew, hsame.wouldPend hpend⟩

/-- A message that still waits finds itself in the queue and is not put there. -/
theorem Starved.handleMessage (flush : ℤ → App G → Run G) {conv : ℤ} {σ : App G} {m : Json}
    (h : Starved conv σ) (hm : m ∈ σ.queue) (hof : isOf conv m = true) :
    ∃ c, PendingQueue.handleMessage P A env flush m σ = some (none, σ.delivered c) ∧
      Starved conv (σ.delivered c) := by
  obtain ⟨f, hf, hpos, hnew, hpend⟩ := h.waits m hm hof
  obtain rfl := fieldsOf_conv hof hf
  have hanswer : (σ.client.receiveLive P A f.conv f.sender f.body (env.rand σ.turn)).1 = .pending :=
    Client.receiveLive_eq_pending_iff.mpr hpend
  have hsame : σ.client.SameKeys
      (σ.client.receiveLive P A f.conv f.sender f.body (env.rand σ.turn)).2 f.conv :=
    Client.receiveLive_sameKeys hpend
  rcases hlive : σ.client.receiveLive P A f.conv f.sender f.body (env.rand σ.turn) with ⟨result, c⟩
  rw [hlive] at hanswer hsame
  subst hanswer
  have hqueued : idQueued f.id (σ.delivered c).queue = .ok true :=
    idQueued_of_mem hpos (fun p hp => (h.readable p hp).2) hm (fieldsOf_id hf)
  refine ⟨c, ?_, h.delivered hsame⟩
  unfold PendingQueue.handleMessage
  rw [hf]
  simp only [hnew, and_false, if_false, decryptLiveMessage_eq P A hf, hlive, App.requeue, hqueued]

/-- Nothing that still waits is kept. -/
theorem Starved.flushLoop (flush : ℤ → App G → Run G) {conv : ℤ} (fuel : ℕ) :
    ∀ (i : ℕ) (σ : App G), i ≤ σ.queue.length → σ.queue.length < fuel + i → Starved conv σ →
      ∃ σ', PendingQueue.flushLoop (PendingQueue.handleMessage P A env flush) conv σ.pending fuel i
          (rest conv (σ.queue.take i)) σ = some (none, σ') ∧
        σ'.queue = rest conv σ.queue ∧ σ'.handled = σ.handled := by
  induction fuel with
  | zero =>
    intro i σ hi hfuel
    omega
  | succ fuel ih =>
    intro i σ hi hfuel h
    rw [PendingQueue.flushLoop]
    cases hget : σ.queue[i]? with
    | none =>
      have hend : σ.queue.length ≤ i := List.getElem?_eq_none_iff.mp hget
      have hget' : (σ.lists σ.pending)[i]? = none := hget
      rw [hget', List.take_of_length_le hend]
      exact ⟨_, rfl, Function.update_self .., rfl⟩
    | some m =>
      obtain ⟨hi', hm⟩ := List.getElem?_eq_some_iff.mp hget
      have hm : m ∈ σ.queue := hm ▸ List.getElem_mem hi'
      have htake : σ.queue.take (i + 1) = σ.queue.take i ++ [m] := by
        rw [List.take_add_one, hget]
        rfl
      have hget' : (σ.lists σ.pending)[i]? = some m := hget
      obtain ⟨conv', hconv⟩ := (h.readable m hm).1
      rw [hget']
      simp only [hconv]
      by_cases heq : conv' = conv
      · have hof : isOf conv m = true := isOf_iff.mpr (heq ▸ hconv)
        obtain ⟨c, hrun, hstarved⟩ := h.handleMessage P A env flush hm hof
        have hsame : rest conv (σ.queue.take i) = rest conv (σ.queue.take (i + 1)) := by
          simp [rest, htake, hof]
        rw [if_pos heq, hrun, hsame]
        exact ih (i + 1) (σ.delivered c) hi' (by show σ.queue.length < _; omega) hstarved
      · have hof : isOf conv m = false := by
          rw [← Bool.not_eq_true, isOf_iff, hconv]
          exact fun h => heq (Except.ok.inj h)
        have hkept : rest conv (σ.queue.take i) ++ [m] = rest conv (σ.queue.take (i + 1)) := by
          simp [rest, htake, hof]
        rw [if_neg heq, hkept]
        exact ih (i + 1) σ hi' (by omega) h

theorem not_mem_rest {conv : ℤ} {l : List Json} {m : Json} (hof : isOf conv m = true) :
    m ∉ rest conv l := by
  intro hmem
  have hnot := (List.mem_filter.mp hmem).2
  rw [hof] at hnot
  cases hnot

theorem Flushable.keeps {σ : App G} {conv : ℤ} (h : Flushable conv σ.queue σ) :
    FlushKeeps P A env σ conv := by
  have hinv : Inv conv σ.queue { σ with handled := [] } := ⟨⟨h.opens, h.told⟩, .inl rfl⟩
  refine ⟨asking conv σ.queue { σ with handled := [] } + 1 + σ.queue.length + 1, ?_⟩
  intro fuel hfuel
  obtain ⟨e, σ', hrun, hinv', -, hend⟩ :=
    flushPending_ends P A env _ fuel _ hinv (Nat.lt_succ_self _) hfuel
  refine ⟨e, σ', hrun, ?_, fun m hm hof => ?_⟩
  · show rest conv σ'.queue = rest conv σ.queue
    rcases hinv'.intact with hqueue | ⟨hqueue, -⟩
    · rw [hqueue]
    · rw [hqueue, rest_rest]
  · rcases hinv'.intact with hqueue | ⟨hqueue, hdone⟩
    · cases e with
      | some e => exact .inr (by rw [hqueue])
      | none =>
        obtain ⟨hqueue, hdone⟩ := hend rfl
        exact .inl ⟨hdone m hm hof, fun _ => hqueue ▸ not_mem_rest hof⟩
    · exact .inl ⟨hdone m hm hof, fun _ => hqueue ▸ not_mem_rest hof⟩

open Classical in
theorem Starved.not_keeps {σ : App G} {conv : ℤ} (h : Starved conv σ) :
    ¬ FlushKeeps P A env σ conv := by
  rintro ⟨enough, hkeeps⟩
  obtain ⟨m, hm, hof⟩ := h.queued
  obtain ⟨e, σ', hrun, -, hsettled⟩ := hkeeps (enough + σ.queue.length + 2) (by omega)
  have hstarved : Starved conv { σ with handled := [] } := ⟨h.queued, h.readable, h.waits⟩
  obtain ⟨σ'', hrun', hqueue, hhandled⟩ := hstarved.flushLoop P A env
    (flushPending P A env (enough + σ.queue.length + 1)) (enough + σ.queue.length + 1) 0 _
    (Nat.zero_le _) (by show σ.queue.length < _; omega)
  obtain ⟨-, rfl⟩ := Prod.mk.inj (Option.some.inj (hrun.symm.trans hrun'))
  have hgone : m ∉ σ'.queue := hqueue ▸ not_mem_rest hof
  rcases hsettled m hm hof with ⟨hmem, -⟩ | hcount
  · rw [hhandled] at hmem
    cases hmem
  · rw [List.count_eq_zero_of_not_mem hgone] at hcount
    exact List.count_eq_zero.mp hcount.symm hm

/-- An `S3DR` body of user 2, in the only message of the queue. -/
def strange : Json :=
  .obj [("conversation_id", .int 1), ("from_id", .int 2), ("id", .int 7),
    ("body", .str (prefixDr ++ ""))]

/-- The app of user 1, with that message in the queue, and with or without a current session. -/
def waitingApp (current : Option Ref) : App Unit where
  client := (Client.fresh 1 .null).withDm 1
    { (Client.fresh 1 .null).dm 1 with current := current }
  lists _ := [strange]
  next := 1
  pending := 0
  pending_lt := Nat.zero_lt_one
  seen _ := ∅
  turn := 0
  handled := []

/-- The smallest id is popped. -/
def smallestEnv : Env where
  rand _ := ⟨0, testSeed 0, ⟨testSeed 0, testInitRand.sid⟩⟩
  pop _ s := if h : s.Nonempty then s.min' h else 0
  pop_mem _ s h := by
    rw [dif_pos h]
    exact s.min'_mem h

theorem strange_fields : fieldsOf strange = .ok ⟨1, 2, 7, .str (prefixDr ++ "")⟩ := by rfl

theorem strange_tag : (prefixDr ++ "").startsWith prefixDr = true := startsWith_append _ _

theorem starved_waitingApp : Starved 1 (waitingApp none) where
  queued := ⟨strange, List.mem_singleton.mpr rfl, by decide⟩
  readable m hm := by
    obtain rfl := List.mem_singleton.mp hm
    exact ⟨⟨1, rfl⟩, 7, rfl⟩
  waits m hm _ := by
    obtain rfl := List.mem_singleton.mp hm
    refine ⟨_, strange_fields, by decide, Finset.notMem_empty _, ?_⟩
    have hdm : (waitingApp none).client.dm 1 =
        { (Client.fresh 1 .null).dm 1 with current := none } := Client.withDm_dm_self ..
    simp only [Client.WouldPend, Client.not_pqInit_of_dr strange_tag, Bool.false_eq_true, if_false]
    rw [Client.WirePends, hdm]
    exact ⟨strange_tag, by decide, Bool.false_ne_true, .inr (AList.notMem_empty _)⟩

end SecChat.PendingQueue
