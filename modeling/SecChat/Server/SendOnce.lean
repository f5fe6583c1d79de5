import SecChat.Server.SendPolicy
import Mathlib.Data.List.Induction

/-!
# What the sender learns about its message

The insertion of a message is tried again when the connection to the database is lost.  Whether the
server had written the row by then is not known: the first attempt may have stored it already.

* `answer`, `told`: what the sender of a request is told;
* `added`, `stored`: the ids of the rows that the accesses of a request add;
* `StoredOnce`: a success stands for one new row, which has the id that is broadcast, and an error for
  no new row;
* `CommitKnown`: the condition on an access, that no insertion is written whose answer is lost;
* `stored_once_iff`: whoever is told anything is told the truth exactly if this was met;
* `second_attempt_duplicates`: an answer that is lost, a second attempt, and two rows.
-/

namespace SecChat.SendOnce

open SendPolicy Runs

/-! ### What a request is told and what it stores -/

/-- The message is broadcast under its id, or the sender gets an error. -/
inductive Answer
  | success (id : ℕ)
  | error
  deriving DecidableEq, Repr

/-- What the sender is told after an access.  A request that goes on is told nothing yet. -/
def answer (T : Tables) (o : SendPolicy.Outcome) (r : Request) : List Answer :=
  if r.phase = .finished ∨ (advance T o r).2.phase ≠ .finished then []
  else
    match r.phase with
    -- `mysql_stmt_insert_id` after a statement that was executed, and -1 otherwise
    | .insert _ => if o = .done then [.success T.msgs.length] else [.error]
    | _ => [.error]

/-- The ids of the rows that an access adds to `messages`. -/
def added (T : Tables) (o : SendPolicy.Outcome) (r : Request) : List ℕ :=
  List.range' T.msgs.length ((advance T o r).1.msgs.length - T.msgs.length)

/-- What an event tells the sender of a request. -/
def told (i : ℕ) (s : State) : SendPolicy.Event → List Answer
  | .exec j o => if j = i then (s.requests[i]?.map (answer s.tables o)).getD [] else []
  | _ => []

/-- The rows that an event adds for a request. -/
def stored (i : ℕ) (s : State) : SendPolicy.Event → List ℕ
  | .exec j o => if j = i then (s.requests[i]?.map (added s.tables o)).getD [] else []
  | _ => []

/-- An answer that fits the rows that were added. -/
def Truthful (ids : List ℕ) : Answer → Prop
  | .success id => ids = [id]
  | .error => ids = []

instance (ids : List ℕ) : DecidablePred (Truthful ids)
  | .success id => inferInstanceAs (Decidable (ids = [id]))
  | .error => inferInstanceAs (Decidable (ids = []))

/-- In a run that starts without requests, whatever request `i` is told is true. -/
def StoredOnce (i : ℕ) (T : Tables) (es : List SendPolicy.Event) : Prop :=
  ∀ a ∈ collect SendPolicy.step (told i) (serving T) es,
    Truthful (collect SendPolicy.step (stored i) (serving T) es) a

instance (i : ℕ) (T : Tables) (es : List SendPolicy.Event) : Decidable (StoredOnce i T es) :=
  inferInstanceAs (Decidable (∀ a ∈ _, Truthful _ a))

/-- When an insertion is written, its reply arrives. -/
def ReplyArrives (o : SendPolicy.Outcome) (r : Request) : Prop :=
  ∀ again, r.phase = .insert again → o ≠ .lost true

/-- The reply arrives if the event is an access of request `i`. -/
def CommitKnown (i : ℕ) (s : State) : SendPolicy.Event → Prop
  | .exec j o => j = i → ∀ r ∈ s.requests[i]?, ReplyArrives o r
  | _ => True

/-! ### One access -/

variable {T : Tables} {o : SendPolicy.Outcome} {r : Request}

/-- Before its insertion a request stores nothing. -/
theorem added_of_not_insert (h : ∀ again, r.phase ≠ .insert again) : added T o r = [] := by
  rcases (advance_tables T o r).2.2 with hmsgs | ⟨⟨again, hphase⟩, -⟩
  · rw [added, hmsgs, Nat.sub_self, List.range'_zero]
  · exact absurd hphase (h again)

theorem added_insert {again : Bool} (h : r.phase = .insert again) :
    added T o r = if o.writes then [T.msgs.length] else [] := by
  have htables : (advance T o r).1 = T.insert o r.row := by
    unfold advance
    rw [h]
  rw [added, htables, Tables.insert]
  split
  · simp
  · simp

theorem phase_insert {again : Bool} (h : r.phase = .insert again) :
    (advance T o r).2.phase = if again ∧ o.isLost then .insert false else .finished := by
  unfold advance
  rw [h]

theorem answer_of_finished (h : r.phase = .finished) : answer T o r = [] := if_pos (.inl h)

theorem answer_of_open (h : (advance T o r).2.phase ≠ .finished) : answer T o r = [] := if_pos (.inr h)

theorem answer_of_not_insert (h : ∀ again, r.phase ≠ .insert again) (hopen : r.phase ≠ .finished)
    (hend : (advance T o r).2.phase = .finished) : answer T o r = [.error] := by
  unfold answer
  rw [if_neg (by simp [hopen, hend])]
  split
  · next again hphase => exact absurd hphase (h again)
  · rfl

theorem answer_insert {again : Bool} (h : r.phase = .insert again)
    (hend : (advance T o r).2.phase = .finished) :
    answer T o r = if o = .done then [.success T.msgs.length] else [.error] := by
  unfold answer
  rw [if_neg (by simp [h, hend])]
  rw [h]

/-! ### The run -/

/-- How far a request is, with what was told and stored for it.  `ok` says that every commit so far is
known. -/
inductive Progress (ok : Prop) : Option Phase → List Answer → List ℕ → Prop
  | absent (h : ok) : Progress ok none [] []
  | waiting {phase : Phase} (h : ok) (hphase : phase ≠ .finished) : Progress ok (some phase) [] []
  /-- The first attempt was written and its reply lost. -/
  | again (h : ¬ ok) (id : ℕ) : Progress ok (some (.insert false)) [] [id]
  | answered {a : Answer} {ids : List ℕ} (h : Truthful ids a ↔ ok) :
      Progress ok (some .finished) [a] ids

/-- The insertion of a request that has stored nothing. -/
theorem progress_insert {ok : Prop} {again : Bool} (h : r.phase = .insert again) (hok : ok) :
    Progress (ok ∧ ReplyArrives o r) (some (advance T o r).2.phase) (answer T o r) (added T o r) := by
  have hknown : (ok ∧ ReplyArrives o r) ↔ o ≠ .lost true :=
    ⟨fun hk => hk.2 again h, fun hne => ⟨hok, fun _ _ => hne⟩⟩
  rw [added_insert h]
  by_cases hretry : again = true ∧ o.isLost = true
  · have hphase : (advance T o r).2.phase = .insert false := by rw [phase_insert h, if_pos hretry]
    rw [answer_of_open (by rw [hphase]; exact nofun), hphase]
    cases o with
    | done => cases hretry.2
    | failed => cases hretry.2
    | lost written =>
      cases written with
      | true => exact .again (by rw [hknown]; simp) _
      | false => exact .waiting (hknown.mpr (by simp)) nofun
  · have hphase : (advance T o r).2.phase = .finished := by rw [phase_insert h, if_neg hretry]
    rw [answer_insert h hphase, hphase]
    cases o with
    | done => exact .answered (by rw [hknown]; simp [Truthful, SendPolicy.Outcome.writes])
    | failed => exact .answered (by rw [hknown]; simp [Truthful, SendPolicy.Outcome.writes])
    | lost written =>
      cases written with
      | true => exact .answered (by rw [hknown]; simp [Truthful, SendPolicy.Outcome.writes])
      | false => exact .answered (by rw [hknown]; simp [Truthful, SendPolicy.Outcome.writes])

/-- The second attempt after a row that nobody knows of: whatever is told is wrong. -/
theorem progress_second {ok : Prop} (h : r.phase = .insert false) (hok : ¬ ok) (id : ℕ) :
    Progress (ok ∧ ReplyArrives o r) (some (advance T o r).2.phase) (answer T o r) ([id] ++ added T o r) := by
  have hphase : (advance T o r).2.phase = .finished := by
    rw [phase_insert h]
    exact if_neg nofun
  have hnot : ¬ (ok ∧ ReplyArrives o r) := fun hk => hok hk.1
  rw [answer_insert h hphase, hphase, added_insert h]
  cases o with
  | done => exact .answered (iff_of_false (by simp [Truthful, SendPolicy.Outcome.writes]) hnot)
  | failed => exact .answered (iff_of_false (by simp [Truthful, SendPolicy.Outcome.writes]) hnot)
  | lost written => exact .answered (iff_of_false (by simp [Truthful]) hnot)

/-- **One access.** -/
theorem Progress.advance {ok : Prop} {as : List Answer} {ids : List ℕ}
    (h : Progress ok (some r.phase) as ids) :
    Progress (ok ∧ ReplyArrives o r) (some (advance T o r).2.phase) (as ++ answer T o r)
      (ids ++ added T o r) := by
  generalize hphase : r.phase = phase at h
  cases h with
  | waiting hok hopen =>
    by_cases hins : ∃ again, phase = .insert again
    · obtain ⟨again, rfl⟩ := hins
      exact progress_insert hphase hok
    · have hne : ∀ again, r.phase ≠ .insert again :=
        fun again h => hins ⟨again, hphase.symm.trans h⟩
      have hknown : ReplyArrives o r := fun again h => absurd h (hne again)
      rw [added_of_not_insert hne]
      by_cases hend : (SendPolicy.advance T o r).2.phase = .finished
      · rw [answer_of_not_insert hne (by rwa [hphase]) hend, hend]
        exact .answered (iff_of_true rfl ⟨hok, hknown⟩)
      · rw [answer_of_open hend]
        exact .waiting ⟨hok, hknown⟩ hend
  | again hnot id => exact progress_second hphase hnot id
  | answered hiff =>
    have hne : ∀ again, r.phase ≠ .insert again := by
      intro again h
      rw [hphase] at h
      cases h
    have hsame : (SendPolicy.advance T o r).2.phase = .finished := by
      unfold SendPolicy.advance
      rw [hphase]
      exact hphase
    rw [answer_of_finished hphase, added_of_not_insert hne, hsame, List.append_nil, List.append_nil]
    exact .answered (hiff.trans (iff_self_and.mpr fun _ again h => absurd h (hne again)))

/-- How far request `i` is. -/
def phaseAt (i : ℕ) (s : State) : Option Phase := s.requests[i]?.map Request.phase

theorem phaseAt_eq_some {i : ℕ} {s : State} {r : Request} (h : s.requests[i]? = some r) :
    phaseAt i s = some r.phase := by
  rw [phaseAt, h]
  rfl

theorem step_exec_some {s : State} {j : ℕ} (h : s.requests[j]? = some r) :
    SendPolicy.step s (.exec j o) =
      ⟨(advance s.tables o r).1, s.requests.set j (advance s.tables o r).2⟩ := by
  unfold SendPolicy.step
  dsimp only
  rw [h]

theorem step_exec_none {s : State} {j : ℕ} (h : s.requests[j]? = none) :
    SendPolicy.step s (.exec j o) = s := by
  unfold SendPolicy.step
  dsimp only
  rw [h]

/-- A new request comes last. -/
theorem progress_new {ok : Prop} {i : ℕ} {s : State} {new : Request} {as : List Answer} {ids : List ℕ}
    (h : Progress ok (phaseAt i s) as ids) (hnew : new.phase ≠ .finished) :
    Progress ok (phaseAt i { s with requests := s.requests ++ [new] }) as ids := by
  unfold phaseAt at h ⊢
  rcases lt_trichotomy i s.requests.length with hlt | heq | hgt
  · rwa [show (s.requests ++ [new])[i]? = s.requests[i]? from List.getElem?_append_left hlt]
  · have hnone : s.requests[i]? = none := List.getElem?_eq_none heq.ge
    rw [hnone] at h
    cases h with
    | absent hok =>
      rw [show (s.requests ++ [new])[i]? = some new by simp [heq]]
      exact .waiting hok hnew
  · rw [show (s.requests ++ [new])[i]? = none from List.getElem?_eq_none (by simp; omega)]
    rwa [show s.requests[i]? = none from List.getElem?_eq_none (by omega)] at h

/-- An access of the request itself. -/
theorem Progress.exec {ok : Prop} {i : ℕ} {s : State} {as : List Answer} {ids : List ℕ}
    (h : Progress ok (phaseAt i s) as ids) (o : SendPolicy.Outcome) :
    Progress (ok ∧ CommitKnown i s (.exec i o)) (phaseAt i (SendPolicy.step s (.exec i o)))
      (as ++ told i s (.exec i o)) (ids ++ stored i s (.exec i o)) := by
  unfold told stored CommitKnown
  simp only [if_true, true_imp_iff]
  cases hr : s.requests[i]? with
  | none =>
    rw [step_exec_none hr]
    simpa using h
  | some r =>
    have hlt := (List.getElem?_eq_some_iff.mp hr).1
    rw [phaseAt_eq_some hr] at h
    rw [step_exec_some hr, phaseAt_eq_some (List.getElem?_set_self hlt)]
    simpa using h.advance (T := s.tables) (o := o)

/-- **One event.** -/
theorem Progress.step {ok : Prop} {i : ℕ} {s : State} {as : List Answer} {ids : List ℕ}
    (h : Progress ok (phaseAt i s) as ids) (e : SendPolicy.Event) :
    Progress (ok ∧ CommitKnown i s e) (phaseAt i (SendPolicy.step s e)) (as ++ told i s e)
      (ids ++ stored i s e) := by
  have hother : CommitKnown i s e → told i s e = [] → stored i s e = [] →
      Progress ok (phaseAt i (SendPolicy.step s e)) as ids →
      Progress (ok ∧ CommitKnown i s e) (phaseAt i (SendPolicy.step s e)) (as ++ told i s e)
        (ids ++ stored i s e) := by
    intro hknown htold hstored hnext
    rwa [htold, hstored, List.append_nil, List.append_nil, and_iff_left hknown]
  cases e with
  | exec j o =>
    by_cases hj : j = i
    · subst hj
      exact h.exec o
    · refine hother (fun h => absurd h hj) (if_neg hj) (if_neg hj) ?_
      cases hr : s.requests[j]? with
      | none => rwa [step_exec_none hr]
      | some r =>
        rw [step_exec_some hr]
        simpa [phaseAt, hj] using h
  | send uid conv body replyTo => exact hother trivial rfl rfl (progress_new h nofun)
  | edit uid id body => exact hother trivial rfl rfl (progress_new h nofun)
  | createConv direct members => exact hother trivial rfl rfl h
  | addMember c uid => exact hother trivial rfl rfl h
  | removeMember c uid => exact hother trivial rfl rfl h
  | block u v => exact hother trivial rfl rfl h
  | unblock u v => exact hother trivial rfl rfl h
  | delete id uid => exact hother trivial rfl rfl h
  | time now => exact hother trivial rfl rfl h

/-- **A run.** -/
theorem progress_run (i : ℕ) (T : Tables) (es : List SendPolicy.Event) :
    Progress (Each SendPolicy.step (CommitKnown i) (serving T) es)
      (phaseAt i (es.foldl SendPolicy.step (serving T)))
      (collect SendPolicy.step (told i) (serving T) es)
      (collect SendPolicy.step (stored i) (serving T) es) := by
  induction es using List.reverseRecOn with
  | nil => exact .absent trivial
  | append_singleton es e ih =>
    rw [List.foldl_append, collect_concat, collect_concat, propext each_concat]
    exact ih.step e

/-- What was told is true if and only if every commit is known. -/
theorem Progress.truthful_iff {ok : Prop} {phase : Option Phase} {as : List Answer} {ids : List ℕ}
    (h : Progress ok phase as ids) : (∀ a ∈ as, Truthful ids a) ↔ (as ≠ [] → ok) := by
  cases h with
  | absent hok => simp
  | waiting hok hphase => simp
  | again hok id => simp
  | answered hiff => simpa using hiff

/-- **A send stores one message**, or none when it is answered by an error, exactly if no attempt of it
was written without the reply coming back. -/
theorem stored_once_iff (i : ℕ) (T : Tables) (es : List SendPolicy.Event) :
    StoredOnce i T es ↔
      (collect SendPolicy.step (told i) (serving T) es ≠ [] →
        Each SendPolicy.step (CommitKnown i) (serving T) es) :=
  (progress_run i T es).truthful_iff

/-- A message to a group: the row of the first attempt is written, and the reply lost. -/
def lostReply : List SendPolicy.Event :=
  [.createConv false [1], .send 1 0 "S3DR:x" none, .exec 0 .done, .exec 0 .done, .exec 0 .done,
    .exec 0 .done, .exec 0 (.lost true), .exec 0 .done]

theorem told_lostReply :
    collect SendPolicy.step (told 0) (serving ⟨[], [], [], [], 0⟩) lostReply = [.success 1] ∧
      collect SendPolicy.step (stored 0) (serving ⟨[], [], [], [], 0⟩) lostReply = [0, 1] := by
  decide +kernel

/-- The second attempt stores the message again. -/
theorem second_attempt_duplicates :
    ¬ ∀ (i : ℕ) (T : Tables) (es : List SendPolicy.Event), StoredOnce i T es := by
  intro h
  have htruth := h 0 ⟨[], [], [], [], 0⟩ lostReply (.success 1) (by rw [told_lostReply.1]; simp)
  rw [told_lostReply.2] at htruth
  cases htruth

end SecChat.SendOnce
