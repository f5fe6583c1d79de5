import SecChat.Library.Runs
import Mathlib.Data.List.Induction
import Mathlib.Tactic.Linarith

/-!
# Disappearing messages

A conversation has a timer and the time at which it was enabled.  A thread wakes up every minute and
marks as deleted the messages that are older than the timer, and not older than the mark
`disappear_enabled_at`.

The clock is in milliseconds.  `messages.sent_at` is a `DATETIME(3)` and keeps them;
`conversations.disappear_enabled_at` is a `DATETIME`, where `NOW(3)` is rounded to a whole second;
the sweep reads `NOW()`, which is cut to a whole second.

* `handleSetDisappearing`, `sweep`: the two statements;
* `OldStay`, `Disappear`: what is expected of a run, for the messages that were sent without a timer
  and for those that were sent under one;
* `Meets`: when a step does not break this;
* `disappearing_messages`: what is expected holds of every run of such steps, and a step after
  which nothing can break it is one;
* `old_deleted_and_new_kept`: both expectations fail.
-/

namespace SecChat.Disappearing

/-! ### Times -/

/-- `NOW()`. -/
def wholeSecond (now : ℤ) : ℤ := now / 1000 * 1000

/-- What a `DATETIME` column keeps of `NOW(3)`: MySQL rounds to the nearest second. -/
def storedSecond (now : ℤ) : ℤ := (now + 500) / 1000 * 1000

/-- `TIMESTAMPDIFF(SECOND, a, b)`. -/
def timestampdiff (a b : ℤ) : ℤ := (b - a).tdiv 1000

theorem lt_timestampdiff_iff {k a b : ℤ} (hk : 0 ≤ k) :
    k < timestampdiff a b ↔ a + 1000 * (k + 1) ≤ b := by
  rcases le_total 0 (b - a) with h | h
  · rw [timestampdiff, Int.tdiv_eq_ediv_of_nonneg h]
    omega
  · have hneg : timestampdiff a b ≤ 0 := by
      rw [timestampdiff, ← neg_neg (b - a), Int.neg_tdiv, Int.tdiv_eq_ediv_of_nonneg (by omega)]
      omega
    constructor <;> intro <;> omega

/-! ### The source -/

/-- A row of `messages`. -/
structure Message where
  sentAt : ℤ
  deletedAt : Option ℤ
  deriving DecidableEq, Repr

/-- A row of `conversations`, with the messages that belong to it in the order of their ids. -/
structure Conversation where
  id : ℤ
  disappearAfterSecs : Option ℤ
  disappearEnabledAt : Option ℤ
  messages : List Message
  deriving DecidableEq, Repr

/-- A conversation as it is created. -/
def start (id : ℤ) : Conversation where
  id := id
  disappearAfterSecs := none
  disappearEnabledAt := none
  messages := []

/-- What becomes of a statement: there is no connection, `mysql_query` fails, or it is executed. -/
inductive Outcome
  | noConnection
  | failed
  | done
  deriving DecidableEq, Repr

/-- A `set_disappearing`, with the answer of `conv_is_member` and the outcome of the update. -/
structure Request where
  myUid : ℤ
  conversationId : ℤ
  disappearAfterSecs : ℤ
  isMember : Bool
  outcome : Outcome
  deriving DecidableEq, Repr

/-- What is sent: an error to the caller, or `disappearing_updated` to the conversation. -/
inductive Notice
  | error (msg : String)
  | disappearingUpdated (conversationId : ℤ) (disappearAfterSecs : Option ℤ) (setBy : ℤ)
  deriving DecidableEq, Repr

/-- The two `UPDATE`s. -/
def setTimer (c : Conversation) (now secs : ℤ) : Conversation :=
  if 0 < secs then
    { c with disappearAfterSecs := some secs, disappearEnabledAt := some (storedSecond now) }
  else { c with disappearAfterSecs := none, disappearEnabledAt := none }

/-- `handle_set_disappearing`. -/
def handleSetDisappearing (c : Conversation) (now : ℤ) (r : Request) :
    Conversation × Option Notice :=
  if r.conversationId ≤ 0 then (c, some (.error "Invalid conversation_id"))
  else if ¬ r.isMember then (c, some (.error "Not a member"))
  else
    match r.outcome with
    | .noConnection => (c, none)
    | .failed => (c, some (.error "Failed to set disappearing timer"))
    | .done =>
      -- `WHERE id=%lld`
      (if r.conversationId = c.id then setTimer c now r.disappearAfterSecs else c,
        some (.disappearingUpdated r.conversationId
          (if 0 < r.disappearAfterSecs then some r.disappearAfterSecs else none) r.myUid))

/-- The `WHERE` of the sweep. -/
def expired (c : Conversation) (now : ℤ) (m : Message) : Bool :=
  match c.disappearAfterSecs, c.disappearEnabledAt with
  | some secs, some mark =>
    m.deletedAt = none ∧ mark ≤ m.sentAt ∧ secs < timestampdiff m.sentAt (wholeSecond now)
  | _, _ => false

/-- The `UPDATE` of `disappear_thread`. -/
def sweep (c : Conversation) (now : ℤ) : Conversation :=
  { c with
    messages := c.messages.map fun m =>
      if expired c now m then { m with deletedAt := some (wholeSecond now) } else m }

/-- What happens to a conversation. -/
inductive Event
  | set (now : ℤ) (r : Request)
  | send (now : ℤ)
  | sweep (now : ℤ) (outcome : Outcome)
  deriving DecidableEq, Repr

/-- One event. -/
def step (c : Conversation) : Event → Conversation
  | .set now r => (handleSetDisappearing c now r).1
  | .send now => { c with messages := c.messages ++ [⟨now, none⟩] }
  | .sweep now outcome => if outcome = .done then sweep c now else c

/-- The conversation after a run. -/
def after (id : ℤ) (run : List Event) : Conversation := run.foldl step (start id)

/-- The clock at an event. -/
def Event.now : Event → ℤ
  | .set now _ => now
  | .send now => now
  | .sweep now _ => now

/-- The clock does not go back. -/
def Chronological (run : List Event) : Prop := run.Pairwise fun e f => e.now ≤ f.now

/-- The time and the seconds of a request that sets the timer. -/
def Event.sets (id : ℤ) : Event → Option (ℤ × ℤ)
  | .set now r =>
    if 0 < r.conversationId ∧ r.isMember ∧ r.outcome = .done ∧ r.conversationId = id then
      some (now, r.disappearAfterSecs)
    else none
  | _ => none

/-! ### One step -/

/-- A request that sets the timer does nothing else. -/
theorem step_set (c : Conversation) (now : ℤ) (r : Request) :
    step c (.set now r) =
      match (Event.set now r).sets c.id with
      | some (a, secs) => setTimer c a secs
      | none => c := by
  simp only [step, handleSetDisappearing, Event.sets]
  by_cases hid : r.conversationId ≤ 0
  · simp [hid, not_lt.mpr hid]
  · have hpos : 0 < r.conversationId := not_le.mp hid
    by_cases hm : r.isMember
    · cases ho : r.outcome with
      | noConnection => simp [hid, hm]
      | failed => simp [hid, hm]
      | done =>
        by_cases hc : r.conversationId = c.id
        · rw [hc] at hid hpos
          simp [hid, hpos, hm, hc]
        · simp [hid, hm, hc]
    · simp [hid, hm]

/-- The two columns of the timer. -/
def Conversation.timer (c : Conversation) : Option ℤ × Option ℤ :=
  (c.disappearAfterSecs, c.disappearEnabledAt)

theorem timer_setTimer (c : Conversation) (now secs : ℤ) :
    (setTimer c now secs).timer =
      if 0 < secs then (some secs, some (storedSecond now)) else (none, none) := by
  simp only [setTimer]
  split_ifs <;> rfl

/-- Nothing but a request touches the timer. -/
theorem timer_step (c : Conversation) (e : Event) :
    (step c e).timer =
      match e.sets c.id with
      | some (a, secs) => if 0 < secs then (some secs, some (storedSecond a)) else (none, none)
      | none => c.timer := by
  cases e with
  | set now r =>
    rw [step_set]
    cases (Event.set now r).sets c.id with
    | none => rfl
    | some p => exact timer_setTimer c p.1 p.2
  | send now => rfl
  | sweep now outcome =>
    simp only [step]
    split_ifs <;> rfl

/-- What an event does to one message. -/
def touch (c : Conversation) (m : Message) : Event → Message
  | .sweep now .done =>
    if expired c now m then { m with deletedAt := some (wholeSecond now) } else m
  | _ => m

@[simp] theorem step_id (c : Conversation) (e : Event) : (step c e).id = c.id := by
  cases e with
  | set now r =>
    rw [step_set]
    cases (Event.set now r).sets c.id with
    | none => rfl
    | some p =>
      simp only [setTimer]
      split_ifs <;> rfl
  | send now => rfl
  | sweep now outcome =>
    simp only [step]
    split_ifs <;> rfl

theorem getElem?_step {c : Conversation} {i : ℕ} {m : Message} (h : c.messages[i]? = some m)
    (e : Event) : (step c e).messages[i]? = some (touch c m e) := by
  cases e with
  | set now r =>
    rw [step_set]
    cases (Event.set now r).sets c.id with
    | none => exact h
    | some p =>
      have hsame : (setTimer c p.1 p.2).messages = c.messages := by
        simp only [setTimer]
        split_ifs <;> rfl
      show (setTimer c p.1 p.2).messages[i]? = some m
      rw [hsame, h]
  | send now =>
    obtain ⟨hi, -⟩ := List.getElem?_eq_some_iff.mp h
    show (c.messages ++ [_])[i]? = some m
    rw [List.getElem?_append_left hi, h]
  | sweep now outcome =>
    cases outcome with
    | done => simp [step, sweep, touch, h]
    | noConnection => exact h
    | failed => exact h

@[simp] theorem sentAt_touch (c : Conversation) (m : Message) (e : Event) :
    (touch c m e).sentAt = m.sentAt := by
  simp only [touch]
  split <;> first | rfl | (split_ifs <;> rfl)

/-! ### Runs -/

variable (id : ℤ)

@[simp] theorem after_concat (run : List Event) (e : Event) :
    after id (run ++ [e]) = step (after id run) e := by
  rw [after, List.foldl_append]
  rfl

@[simp] theorem after_id (run : List Event) : (after id run).id = id := by
  induction run using List.reverseRecOn with
  | nil => rfl
  | append_singleton run e ih => rw [after_concat, step_id, ih]

theorem timer_after_concat (run : List Event) (e : Event) :
    (after id (run ++ [e])).timer =
      match e.sets id with
      | some (a, secs) => if 0 < secs then (some secs, some (storedSecond a)) else (none, none)
      | none => (after id run).timer := by
  rw [after_concat, timer_step, after_id]

/-- A timer is positive and has a mark, or there is neither. -/
theorem timer_after (run : List Event) :
    (after id run).timer = (none, none) ∨
      ∃ secs mark, 0 < secs ∧ (after id run).timer = (some secs, some mark) := by
  induction run using List.reverseRecOn with
  | nil => exact Or.inl rfl
  | append_singleton run e ih =>
    rw [timer_after_concat]
    cases he : e.sets id with
    | none => exact ih
    | some p =>
      by_cases hp : 0 < p.2
      · exact Or.inr ⟨p.2, storedSecond p.1, hp, by simp [hp]⟩
      · exact Or.inl (by simp [hp])

/-- The message that is sent at `t` after `past`, when `later` has happened since. -/
def message (past : List Event) (t : ℤ) (later : List Event) : Option Message :=
  (after id (past ++ .send t :: later)).messages[(after id past).messages.length]?

/-- It is marked as deleted. -/
def Deleted (past : List Event) (t : ℤ) (later : List Event) : Prop :=
  ∃ m, message id past t later = some m ∧ m.deletedAt ≠ none

/-- An event marks a message that was sent at `t`. -/
def Hits (c : Conversation) (t : ℤ) (e : Event) : Prop :=
  ∃ now secs mark, e = .sweep now .done ∧ c.timer = (some secs, some mark) ∧ mark ≤ t ∧
    secs < timestampdiff t (wholeSecond now)

theorem message_nil (past : List Event) (t : ℤ) : message id past t [] = some ⟨t, none⟩ := by
  rw [message, after_concat]
  simp [step]

theorem message_concat {past later : List Event} {t : ℤ} {m : Message}
    (h : message id past t later = some m) (e : Event) :
    message id past t (later ++ [e]) = some (touch (after id (past ++ .send t :: later)) m e) := by
  rw [message, ← List.cons_append, ← List.append_assoc, after_concat]
  exact getElem?_step h e

theorem exists_message (past : List Event) (t : ℤ) (later : List Event) :
    ∃ m, message id past t later = some m ∧ m.sentAt = t := by
  induction later using List.reverseRecOn with
  | nil => exact ⟨_, message_nil id past t, rfl⟩
  | append_singleton later e ih =>
    obtain ⟨m, hm, ht⟩ := ih
    exact ⟨_, message_concat id hm e, by rw [sentAt_touch, ht]⟩

theorem not_deleted_nil (past : List Event) (t : ℤ) : ¬ Deleted id past t [] := by
  rintro ⟨m, hm, hd⟩
  rw [message_nil] at hm
  exact hd (by cases hm; rfl)

theorem hits_sweep {c : Conversation} {t now : ℤ} :
    Hits c t (.sweep now .done) ↔
      ∃ secs mark, c.timer = (some secs, some mark) ∧ mark ≤ t ∧
        secs < timestampdiff t (wholeSecond now) := by
  constructor
  · rintro ⟨_, secs, mark, h, hrest⟩
    cases h
    exact ⟨secs, mark, hrest⟩
  · rintro ⟨secs, mark, hrest⟩
    exact ⟨now, secs, mark, rfl, hrest⟩

/-- The `WHERE` finds the messages that are not marked and are hit. -/
theorem expired_iff {c : Conversation} {now : ℤ} {m : Message} :
    expired c now m = true ↔ m.deletedAt = none ∧ Hits c m.sentAt (.sweep now .done) := by
  rw [hits_sweep]
  obtain ⟨id, secs, mark, messages⟩ := c
  cases secs <;> cases mark <;> simp [expired, Conversation.timer]

theorem deletedAt_touch (c : Conversation) (m : Message) (e : Event) :
    (touch c m e).deletedAt ≠ none ↔ m.deletedAt ≠ none ∨ Hits c m.sentAt e := by
  by_cases he : ∃ now, e = .sweep now .done
  · obtain ⟨now, rfl⟩ := he
    simp only [touch]
    split_ifs with hexp
    · simp [(expired_iff.mp hexp).2]
    · rw [expired_iff, not_and'] at hexp
      by_cases hh : Hits c m.sentAt (.sweep now .done)
      · simpa [hh] using hexp hh
      · simp [hh]
  · have hh : ¬ Hits c m.sentAt e := fun ⟨now, _, _, h, _⟩ => he ⟨now, h⟩
    have htouch : touch c m e = m := by
      simp only [touch]
      split
      · exact absurd ⟨_, rfl⟩ he
      · rfl
    simp [htouch, hh]

/-- A message is marked by the events that hit it. -/
theorem deleted_concat (past : List Event) (t : ℤ) (later : List Event) (e : Event) :
    Deleted id past t (later ++ [e]) ↔
      Deleted id past t later ∨ Hits (after id (past ++ .send t :: later)) t e := by
  obtain ⟨m, hm, ht⟩ := exists_message id past t later
  have hd := deletedAt_touch (after id (past ++ .send t :: later)) m e
  rw [ht] at hd
  simp only [Deleted, hm, message_concat id hm e, Option.some_inj, exists_eq_left', hd]

/-! ### What is expected -/

/-- Sent without a timer, and before the timer was enabled again. -/
def Untimed (past : List Event) (t : ℤ) (later : List Event) : Prop :=
  (after id past).disappearAfterSecs = none ∧
    ∀ e ∈ later, ∀ a secs, e.sets id = some (a, secs) → 0 < secs → t < a

/-- Sent under a timer that has only been changed between positive values of at most `s`. -/
def Covered (past : List Event) (later : List Event) (s : ℤ) : Prop :=
  (∃ secs, (after id past).disappearAfterSecs = some secs ∧ secs ≤ s) ∧
    ∀ e ∈ later, ∀ a secs, e.sets id = some (a, secs) → 0 < secs ∧ secs ≤ s

/-- A message that was sent without a timer is not deleted. -/
def OldStay (run : List Event) : Prop :=
  ∀ past t later, past ++ .send t :: later <+: run → Untimed id past t later →
    ¬ Deleted id past t later

/-- A message that was sent under a timer of at most `s` is deleted after a sweep that comes more
than `s + 1` seconds later. -/
def Disappear (run : List Event) : Prop :=
  ∀ past t later w s, past ++ .send t :: (later ++ [.sweep w .done]) <+: run →
    Covered id past later s → t + 1000 * (s + 1) < w →
      Deleted id past t (later ++ [.sweep w .done])

/-- The conditions on a step. -/
structure Meets (past : List Event) (e : Event) : Prop where
  /-- The mark of a timer that is enabled is after what was sent before without one. -/
  enable : ∀ a secs, e.sets id = some (a, secs) → 0 < secs →
    ∀ pre t post, past = pre ++ .send t :: post → Untimed id pre t post → t < a →
      t < storedSecond a
  /-- A message under a timer is sent at or after the mark. -/
  send : ∀ t secs mark, e = .send t → (after id past).timer = (some secs, some mark) → mark ≤ t
  /-- A timer is not changed while a message under it, from before the new mark, is to be deleted. -/
  change : ∀ a secs, e.sets id = some (a, secs) → 0 < secs →
    ∀ pre t post s, past = pre ++ .send t :: post → Covered id pre post s →
      ¬ Deleted id pre t post → storedSecond a ≤ t
  /-- A sweep that is to delete a message comes late enough on the clock without fractions. -/
  sweep : ∀ w, e = .sweep w .done →
    ∀ pre t post s, past = pre ++ .send t :: post → Covered id pre post s →
      ¬ Deleted id pre t post → t + 1000 * (s + 1) < w →
        ∀ secs, (after id past).disappearAfterSecs = some secs →
          t + 1000 * (secs + 1) ≤ wholeSecond w

/-- Every step of a run meets the conditions. -/
def EveryStep (run : List Event) : Prop := ∀ past e, past ++ [e] <+: run → Meets id past e

variable {id : ℤ}

theorem EveryStep.of_prefix {past run : List Event} (h : EveryStep id run) (hp : past <+: run) :
    EveryStep id past :=
  fun before e he => h before e (he.trans hp)

theorem EveryStep.last {past : List Event} {e : Event} (h : EveryStep id (past ++ [e])) :
    Meets id past e :=
  h past e List.prefix_rfl

theorem Untimed.of_concat {past later : List Event} {t : ℤ} {e : Event}
    (h : Untimed id past t (later ++ [e])) : Untimed id past t later :=
  ⟨h.1, fun f hf => h.2 f (List.mem_append_left _ hf)⟩

theorem Untimed.concat {past later : List Event} {t : ℤ} {e : Event} (h : Untimed id past t later)
    (he : ∀ a secs, e.sets id = some (a, secs) → 0 < secs → t < a) :
    Untimed id past t (later ++ [e]) := by
  refine ⟨h.1, fun f hf => ?_⟩
  rcases List.mem_append.mp hf with hf | hf
  · exact h.2 f hf
  · rw [List.mem_singleton.mp hf]
    exact he

theorem Covered.of_concat {past later : List Event} {s : ℤ} {e : Event}
    (h : Covered id past (later ++ [e]) s) : Covered id past later s :=
  ⟨h.1, fun f hf => h.2 f (List.mem_append_left _ hf)⟩

theorem timer_send (past : List Event) (t : ℤ) :
    (after id (past ++ [.send t])).timer = (after id past).timer := by
  rw [timer_after_concat]
  rfl

/-- A timer that is on is positive. -/
theorem pos_of_timer {past : List Event} {secs mark : ℤ}
    (h : (after id past).timer = (some secs, some mark)) : 0 < secs := by
  rcases timer_after id past with hnone | ⟨secs', mark', hpos, htimer⟩
  · rw [h] at hnone
    cases hnone
  · rw [h] at htimer
    cases htimer
    exact hpos

theorem split_concat (past later : List Event) (t : ℤ) (e : Event) :
    past ++ .send t :: (later ++ [e]) = (past ++ .send t :: later) ++ [e] := by
  simp

/-! ### The steps that meet the conditions -/

/-- A message that was sent without a timer is before the mark of every later one. -/
theorem before_mark {past : List Event} {t : ℤ} {later : List Event}
    (h : EveryStep id (past ++ .send t :: later)) (hu : Untimed id past t later) :
    ∀ secs mark, (after id (past ++ .send t :: later)).timer = (some secs, some mark) →
      t < mark := by
  induction later using List.reverseRecOn with
  | nil =>
    intro secs mark htimer
    rw [timer_send] at htimer
    have hnone := hu.1
    simp only [Conversation.timer, hnone] at htimer
    cases htimer
  | append_singleton later e ih =>
    intro secs mark htimer
    rw [split_concat] at h htimer
    rw [timer_after_concat] at htimer
    cases he : e.sets id with
    | none =>
      rw [he] at htimer
      exact ih (h.of_prefix (List.prefix_append _ _)) hu.of_concat secs mark htimer
    | some p =>
      rw [he] at htimer
      by_cases hp : 0 < p.2
      · have hmark : storedSecond p.1 = mark := by
          simp only [hp, if_true, Prod.mk.injEq, Option.some_inj] at htimer
          exact htimer.2
        have hafter := hu.2 e (by simp) p.1 p.2 he hp
        rw [← hmark]
        exact h.last.enable p.1 p.2 he hp past t later rfl hu.of_concat hafter
      · simp [hp] at htimer

theorem oldStay_of_everyStep {run : List Event} (h : EveryStep id run) : OldStay id run := by
  intro past t later hp hu
  have hmeets := h.of_prefix hp
  clear hp h
  induction later using List.reverseRecOn with
  | nil => exact not_deleted_nil id past t
  | append_singleton later e ih =>
    rw [split_concat] at hmeets
    have hprefix := hmeets.of_prefix (List.prefix_append _ _)
    rw [deleted_concat]
    rintro (hd | ⟨now, secs, mark, -, htimer, hle, -⟩)
    · exact ih hu.of_concat hprefix hd
    · exact absurd (before_mark hprefix hu.of_concat secs mark htimer) (not_lt.mpr hle)

/-- The mark stays at or before a message under the timer, until that is deleted. -/
theorem mark_le {past : List Event} {t : ℤ} {later : List Event} {s : ℤ}
    (h : EveryStep id (past ++ .send t :: later)) (hc : Covered id past later s) :
    Deleted id past t later ∨
      ∃ secs mark, (after id (past ++ .send t :: later)).timer = (some secs, some mark) ∧
        0 < secs ∧ secs ≤ s ∧ mark ≤ t := by
  induction later using List.reverseRecOn with
  | nil =>
    obtain ⟨⟨secs, hsecs, hle⟩, -⟩ := hc
    rcases timer_after id past with hnone | ⟨secs', mark, hpos, htimer⟩
    · rw [Conversation.timer, hsecs] at hnone
      cases hnone
    · have hfirst : (after id past).disappearAfterSecs = some secs' := congrArg Prod.fst htimer
      obtain rfl := Option.some.inj (hfirst.symm.trans hsecs)
      exact Or.inr ⟨secs', mark, by rw [timer_send, htimer], hpos, hle,
        h.last.send t secs' mark rfl htimer⟩
  | append_singleton later e ih =>
    rw [split_concat] at h
    by_cases hd : Deleted id past t later
    · exact Or.inl ((deleted_concat id past t later e).mpr (Or.inl hd))
    refine Or.inr ?_
    rw [split_concat, timer_after_concat]
    cases he : e.sets id with
    | none =>
      exact (ih (h.of_prefix (List.prefix_append _ _)) hc.of_concat).resolve_left hd
    | some p =>
      obtain ⟨hp, hle⟩ := hc.2 e (by simp) p.1 p.2 he
      exact ⟨p.2, storedSecond p.1, by simp [hp], hp, hle,
        h.last.change p.1 p.2 he hp past t later s rfl hc.of_concat hd⟩

theorem disappear_of_everyStep {run : List Event} (h : EveryStep id run) : Disappear id run := by
  intro past t later w s hp hc hw
  have hmeets := h.of_prefix hp
  rw [split_concat] at hmeets
  rw [deleted_concat]
  by_cases hd : Deleted id past t later
  · exact Or.inl hd
  obtain ⟨secs, mark, htimer, hpos, -, hmark⟩ :=
    (mark_le (hmeets.of_prefix (List.prefix_append _ _)) hc).resolve_left hd
  have hsecs : (after id (past ++ .send t :: later)).disappearAfterSecs = some secs :=
    congrArg Prod.fst htimer
  have hlate := hmeets.last.sweep w rfl past t later s rfl hc hd hw secs hsecs
  exact Or.inr (hits_sweep.mpr ⟨secs, mark, htimer, hmark, (lt_timestampdiff_iff hpos.le).mpr hlate⟩)

/-! ### The conditions are exact -/

theorem Chronological.concat {run : List Event} {e : Event} {w : ℤ}
    (h : Chronological (run ++ [e])) (hw : e.now ≤ w) :
    Chronological (run ++ [e, .sweep w .done]) := by
  have hlast : ∀ f ∈ run ++ [e], f.now ≤ w := by
    intro f hf
    rcases List.mem_append.mp hf with hf | hf
    · exact ((List.pairwise_append.mp h).2.2 f hf e (by simp)).trans hw
    · rw [List.mem_singleton.mp hf]
      exact hw
  have hrun : run ++ [e, Event.sweep w .done] = (run ++ [e]) ++ [.sweep w .done] := by simp
  rw [hrun, Chronological, List.pairwise_append]
  exact ⟨h, List.pairwise_singleton _ _, fun f hf g hg => by
    rw [List.mem_singleton.mp hg]
    exact hlast f hf⟩

theorem now_of_sets {e : Event} {a secs : ℤ} (h : e.sets id = some (a, secs)) : e.now = a := by
  cases e with
  | set now r =>
    simp only [Event.sets] at h
    split_ifs at h
    cases h
    rfl
  | send now => cases h
  | sweep now outcome => cases h

theorem not_hits_of_sets {c : Conversation} {t : ℤ} {e : Event} {p : ℤ × ℤ}
    (h : e.sets id = some p) : ¬ Hits c t e := by
  rintro ⟨now, _, _, rfl, -⟩
  cases h

/-- The timer after a request that enables it. -/
theorem timer_of_sets {past : List Event} {e : Event} {a secs : ℤ}
    (h : e.sets id = some (a, secs)) (hpos : 0 < secs) :
    (after id (past ++ [e])).timer = (some secs, some (storedSecond a)) := by
  rw [timer_after_concat, h]
  simp [hpos]

theorem covered_concat {past later : List Event} {e : Event} {a secs s : ℤ}
    (hc : Covered id past later s) (he : e.sets id = some (a, secs)) (hpos : 0 < secs) :
    Covered id past (later ++ [e]) (max secs s) := by
  obtain ⟨⟨secs', htimer, hle⟩, hall⟩ := hc
  refine ⟨⟨secs', htimer, hle.trans (le_max_right _ _)⟩, fun f hf b k hb => ?_⟩
  rcases List.mem_append.mp hf with hf | hf
  · exact ⟨(hall f hf b k hb).1, (hall f hf b k hb).2.trans (le_max_right _ _)⟩
  · rw [List.mem_singleton.mp hf, he] at hb
    cases hb
    exact ⟨hpos, le_max_left _ _⟩

/-- A step after which nothing can break what is expected meets the conditions. -/
theorem meets_of_safe {past : List Event} {e : Event} (hclock : Chronological (past ++ [e]))
    (hsafe : ∀ rest, Chronological (past ++ e :: rest) →
      OldStay id (past ++ e :: rest) ∧ Disappear id (past ++ e :: rest)) :
    Meets id past e where
  enable := by
    rintro a secs he hpos pre t post rfl hu hta
    by_contra hmark
    -- the sweep that deletes the message
    have hchron := hclock.concat (w := a + 1000 * (secs + 2)) (by rw [now_of_sets he]; omega)
    have huntimed : Untimed id pre t
        ((post ++ [e]) ++ [.sweep (a + 1000 * (secs + 2)) .done]) := by
      refine (hu.concat fun b k hb _ => ?_).concat fun b k hb _ => by cases hb
      rw [he] at hb
      cases hb
      exact hta
    have hold := (hsafe _ hchron).1 pre t _ (by simp) huntimed
    rw [deleted_concat, not_or, split_concat, hits_sweep, timer_of_sets he hpos] at hold
    refine hold.2 ⟨secs, storedSecond a, rfl, not_lt.mp hmark, ?_⟩
    rw [lt_timestampdiff_iff hpos.le, wholeSecond]
    omega
  send := by
    rintro t secs mark rfl htimer
    by_contra hmark
    have hpos := pos_of_timer htimer
    have hchron := hclock.concat (w := t + 1000 * (secs + 1) + 1)
      (by show t ≤ _; omega)
    have hsecs : (after id past).disappearAfterSecs = some secs := congrArg Prod.fst htimer
    have hdel := (hsafe _ hchron).2 past t [] (t + 1000 * (secs + 1) + 1) secs
      (by simp) ⟨⟨secs, hsecs, le_rfl⟩, by simp⟩ (by omega)
    rw [deleted_concat, hits_sweep, timer_send, htimer] at hdel
    rcases hdel with hdel | ⟨secs', mark', h, hle, -⟩
    · exact not_deleted_nil id past t hdel
    · cases h
      exact hmark hle
  change := by
    rintro a secs he hpos pre t post s rfl hc hd
    by_contra hmark
    have hchron := hclock.concat (w := max a (t + 1000 * (max secs s + 1) + 1))
      (by rw [now_of_sets he]; exact le_max_left _ _)
    have hdel := (hsafe _ hchron).2 pre t (post ++ [e])
      (max a (t + 1000 * (max secs s + 1) + 1)) (max secs s) (by simp)
      (covered_concat hc he hpos) (lt_of_lt_of_le (by omega) (le_max_right _ _))
    rw [deleted_concat, deleted_concat, hits_sweep, split_concat, timer_of_sets he hpos] at hdel
    rcases hdel with (hdel | hdel) | ⟨secs', mark', h, hle, -⟩
    · exact hd hdel
    · exact not_hits_of_sets he hdel
    · cases h
      exact hmark hle
  sweep := by
    rintro w rfl pre t post s rfl hc hd hw secs hsecs
    have hdel := (hsafe [] hclock).2 pre t post w s (by simp) hc hw
    rw [deleted_concat, hits_sweep] at hdel
    obtain ⟨secs', mark, htimer, -, hlate⟩ := hdel.resolve_left hd
    have hfirst : (after id (pre ++ .send t :: post)).disappearAfterSecs = some secs' :=
      congrArg Prod.fst htimer
    obtain rfl := Option.some.inj (hfirst.symm.trans hsecs)
    exact (lt_timestampdiff_iff (pos_of_timer htimer).le).mp hlate

/-- Old messages stay and new ones disappear in every run of steps that meet the conditions, and these
are exact: a step that does not meet them can be followed by a sweep that breaks what is expected. -/
theorem disappearing_messages (id : ℤ) :
    (∀ run, EveryStep id run → OldStay id run ∧ Disappear id run) ∧
    ∀ past e, Chronological (past ++ [e]) →
      (∀ rest, Chronological (past ++ e :: rest) →
        OldStay id (past ++ e :: rest) ∧ Disappear id (past ++ e :: rest)) → Meets id past e :=
  ⟨fun _ h => ⟨oldStay_of_everyStep h, disappear_of_everyStep h⟩, fun _ _ => meets_of_safe⟩

/-! ### Two runs -/

/-- `set_disappearing` by user 1 in conversation 7. -/
def timerRequest (secs : ℤ) : Request where
  myUid := 1
  conversationId := 7
  disappearAfterSecs := secs
  isMember := true
  outcome := .done

/-- A message, and a timer that is enabled 300 ms later in the same second. -/
def oldRun : List Event :=
  [.send 1700000000100, .set 1700000000400 (timerRequest 60), .sweep 1700000062000 .done]

/-- A message under a timer of an hour that is shortened ten seconds later. -/
def shortenedRun : List Event :=
  [.set 1700000000000 (timerRequest 3600), .send 1700000010000,
    .set 1700000020000 (timerRequest 60), .sweep 1700009000000 .done]

/-- The first run deletes a message that is older than the timer, and the second one never deletes a
message that was sent under one. -/
theorem old_deleted_and_new_kept :
    (Chronological oldRun ∧ ¬ OldStay 7 oldRun) ∧
      Chronological shortenedRun ∧ ¬ Disappear 7 shortenedRun := by
  refine ⟨⟨?_, ?_⟩, ?_, ?_⟩
  · simp [Chronological, oldRun, Event.now]
  · intro h
    refine h [] 1700000000100 _ List.prefix_rfl ⟨rfl, ?_⟩
      ⟨⟨1700000000100, some 1700000062000⟩, by decide, by decide⟩
    simp [Event.sets, timerRequest]
  · simp [Chronological, shortenedRun, Event.now]
  · intro h
    obtain ⟨m, hm, hd⟩ := h [.set 1700000000000 (timerRequest 3600)] 1700000010000
      [.set 1700000020000 (timerRequest 60)] 1700009000000 3600 List.prefix_rfl
      ⟨⟨3600, by decide, le_rfl⟩, by simp [Event.sets, timerRequest]⟩ (by decide)
    have hkept : message 7 [.set 1700000000000 (timerRequest 3600)] 1700000010000
        ([.set 1700000020000 (timerRequest 60)] ++ [.sweep 1700009000000 .done]) =
          some ⟨1700000010000, none⟩ := by decide
    rw [hkept] at hm
    cases hm
    exact hd rfl

end SecChat.Disappearing
