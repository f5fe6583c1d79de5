import SecChat.Library.Runs
import Mathlib.Data.Sym.Sym2
import Mathlib.Data.List.Nodup
import Mathlib.Order.MinMax
import Mathlib.Data.Int.Order.Basic

/-!
# Friendships

A request looks the pair up and then inserts a row, in two statements; the other user accepts the row
with one conditional update, and either of them deletes it.  Requests of all users run between each
other, and every statement may fail.

* `friendshipGetStatus`, `friendshipCreatePending`, `friendshipAccept`, `friendshipDelete`,
  `friendshipExistsAccepted`: the statements on `friendships`;
* `Message`, `friendsDispatch`, `step`: the handlers, one statement at a time;
* `Creates`, `Agreed`: an event that creates the row of a pair, and what both sides did since the last;
* `rows_step`: what one event does to a row;
* `friendship_needs_both`: in every run a friendship has been asked for and accepted.
-/

namespace SecChat.Friends

/-! ### The table -/

/-- The `status` of a row. -/
inductive Status
  | pending
  | accepted
  | blocked
  deriving DecidableEq, Repr

/-- A row of `friendships`. -/
structure Row where
  id : ℕ
  userId : ℤ
  friendId : ℤ
  status : Status
  requesterId : ℤ
  deriving DecidableEq, Repr

/-- The condition on a pair, in either order of the columns. -/
def Row.ofPair (a b : ℤ) (r : Row) : Prop :=
  r.userId = a ∧ r.friendId = b ∨ r.userId = b ∧ r.friendId = a

instance (a b : ℤ) : DecidablePred (Row.ofPair a b) := fun r =>
  inferInstanceAs (Decidable (r.userId = a ∧ r.friendId = b ∨ r.userId = b ∧ r.friendId = a))

/-- `friendship_create_pending`; the unique key rejects a row that is there already. -/
def friendshipCreatePending (rows : List Row) (id : ℕ) (userId friendId requesterId : ℤ) :
    Option (List Row) :=
  let u1 := min userId friendId
  let u2 := max userId friendId
  if rows.any fun r => r.userId = u1 ∧ r.friendId = u2 then none
  else some (rows ++ [⟨id, u1, u2, .pending, requesterId⟩])

/-- The rows that `friendship_accept` updates. -/
def Row.acceptable (myUid requesterUid : ℤ) (r : Row) : Prop :=
  r.ofPair myUid requesterUid ∧ r.requesterId = requesterUid ∧ r.status = .pending

instance (myUid requesterUid : ℤ) : DecidablePred (Row.acceptable myUid requesterUid) := fun r =>
  inferInstanceAs (Decidable
    (r.ofPair myUid requesterUid ∧ r.requesterId = requesterUid ∧ r.status = .pending))

/-- The rows after `friendship_accept`. -/
def friendshipAccept (rows : List Row) (myUid requesterUid : ℤ) : List Row :=
  rows.map fun r => if r.acceptable myUid requesterUid then { r with status := .accepted } else r

/-- `friendship_delete`. -/
def friendshipDelete (rows : List Row) (a b : ℤ) : List Row := rows.filter fun r => ¬ r.ofPair a b

/-- `friendship_exists_accepted`. -/
def friendshipExistsAccepted (rows : List Row) (a b : ℤ) : Bool :=
  rows.any fun r => r.ofPair a b ∧ r.status = .accepted

/-- `friendship_get_status`. -/
def friendshipGetStatus (rows : List Row) (a b : ℤ) : Option (Status × ℤ) :=
  (rows.find? fun r => r.userId = min a b ∧ r.friendId = max a b).map fun r =>
    (r.status, r.requesterId)

/-! ### The handlers -/

/-- The table, and the requests so far: whose row is still to be inserted, with its target. -/
structure State where
  rows : List Row
  nextId : ℕ
  inserting : List (Option (ℤ × ℤ))
  deriving DecidableEq, Repr

/-- A message with the integer of its field, if there is one. -/
inductive Message
  | friendRequest (targetId : Option ℤ)
  | friendAccept (requesterId : Option ℤ)
  | friendReject (otherId : Option ℤ)
  | unfriend (otherId : Option ℤ)
  deriving DecidableEq, Repr

/-- `handle_friend_request` up to its lookup, which may fail; there is no answer before the insertion. -/
def handleFriendRequest (s : State) (myUid targetId : ℤ) (ok : Bool) : State × Option String :=
  if myUid = targetId then (s, some "Cannot friend yourself")
  else
    match if ok then friendshipGetStatus s.rows myUid targetId else none with
    | some (.accepted, _) => (s, some "Already friends")
    | some (.pending, _) => (s, some "Friend request sent")
    | some (.blocked, _) => (s, some "Friend request is not available")
    | none => ({ s with inserting := s.inserting ++ [some (myUid, targetId)] }, none)

/-- The insertion of `handle_friend_request`. -/
def insertRequest (s : State) (i : ℕ) (ok : Bool) : State × Option String :=
  match s.inserting[i]? with
  | some (some (myUid, targetId)) =>
      let s := { s with inserting := s.inserting.set i none }
      match if ok then friendshipCreatePending s.rows s.nextId myUid targetId myUid else none with
      | some rows => ({ s with rows, nextId := s.nextId + 1 }, some "Friend request sent")
      | none => (s, some "Failed to send request")
  | _ => (s, none)

/-- `handle_friend_accept`. -/
def handleFriendAccept (s : State) (myUid requesterUid : ℤ) (ok : Bool) : State × Option String :=
  if ok ∧ s.rows.any fun r => r.acceptable myUid requesterUid then
    ({ s with rows := friendshipAccept s.rows myUid requesterUid }, some "Friend request accepted")
  else (s, some "Failed to accept")

/-- `handle_friend_remove`. -/
def handleFriendRemove (s : State) (myUid otherId : ℤ) (ok : Bool) : State × Option String :=
  (if ok then { s with rows := friendshipDelete s.rows myUid otherId } else s, some "Removed")

/-- `jget_int` with the check of the value. -/
def withId (id : Option ℤ) (invalid : String) (s : State) (handle : ℤ → State × Option String) :
    State × Option String :=
  match id with
  | some id => if id ≤ 0 then (s, some invalid) else handle id
  | none => (s, some invalid)

/-- `friends_dispatch`. -/
def friendsDispatch (s : State) (myUid : ℤ) (ok : Bool) : Message → State × Option String
  | .friendRequest id => withId id "Invalid target_id" s fun id => handleFriendRequest s myUid id ok
  | .friendAccept id => withId id "Invalid requester_id" s fun id => handleFriendAccept s myUid id ok
  | .friendReject id => withId id "Invalid other_id" s fun id => handleFriendRemove s myUid id ok
  | .unfriend id => withId id "Invalid other_id" s fun id => handleFriendRemove s myUid id ok

/-- A message with the first statement of its handler, or the insertion of a request; `ok` says whether
the statement succeeds. -/
inductive Event
  | message (myUid : ℤ) (m : Message) (ok : Bool)
  | insert (i : ℕ) (ok : Bool)
  deriving DecidableEq, Repr

/-- The state after an event, and what is answered. -/
def respond (s : State) : Event → State × Option String
  | .message myUid m ok => friendsDispatch s myUid ok m
  | .insert i ok => insertRequest s i ok

/-- One event. -/
def step (s : State) (e : Event) : State := (respond s e).1

/-- No rows and no requests. -/
def noFriends : State := ⟨[], 1, []⟩

/-- The state after a run. -/
def run (es : List Event) : State := es.foldl step noFriends

/-! ### Both sides -/

/-- The pair of a row. -/
def Row.pair (r : Row) : Sym2 ℤ := s(r.userId, r.friendId)

/-- The pairs that have a row. -/
def State.pairs (s : State) : List (Sym2 ℤ) := s.rows.map Row.pair

/-- The event creates the row of a pair. -/
def Creates (p : Sym2 ℤ) (s : State) (e : Event) : Prop := p ∉ s.pairs ∧ p ∈ (step s e).pairs

/-- The row of `x` and `y` was last created by an insertion between `pre` and `post`, for a request that
`x` had sent to `y`. -/
structure Requested (es pre : List Event) (i : ℕ) (post : List Event) (x y : ℤ) : Prop where
  split : es = pre ++ .insert i true :: post
  waiting : (run pre).inserting[i]? = some (some (x, y))
  sent : ∃ ok, Event.message x (.friendRequest (some y)) ok ∈ pre
  creates : Creates s(x, y) (run pre) (.insert i true)
  last : Runs.Each step (fun s e => ¬ Creates s(x, y) s e) (run (pre ++ [.insert i true])) post

/-- Since the row of `x` and `y` was last created, for a request of `x`, `y` has sent an acceptance. -/
def Agreed (es : List Event) (x y : ℤ) : Prop :=
  ∃ pre i post, Requested es pre i post x y ∧ Event.message y (.friendAccept (some x)) true ∈ post

/-! ### Pairs -/

theorem ofPair_iff {a b : ℤ} {r : Row} : r.ofPair a b ↔ r.pair = s(a, b) := by
  rw [Row.pair, Sym2.eq_iff]
  rfl

theorem pair_min_max (a b : ℤ) : s(min a b, max a b) = s(a, b) := by
  rcases le_total a b with h | h
  · rw [min_eq_left h, max_eq_right h]
  · rw [min_eq_right h, max_eq_left h, Sym2.eq_swap]

/-- A row whose ids are in order is found by the pair in order. -/
theorem key_iff {a b : ℤ} {r : Row} (h : r.userId < r.friendId) :
    r.userId = min a b ∧ r.friendId = max a b ↔ r.pair = s(a, b) := by
  rw [← pair_min_max a b, Row.pair, Sym2.eq_iff]
  constructor
  · exact .inl
  · rintro (h' | ⟨h1, h2⟩)
    · exact h'
    · exact absurd (h1 ▸ h2 ▸ h) (min_le_max (a := a) (b := b)).not_gt

theorem run_concat (es : List Event) (e : Event) : run (es ++ [e]) = step (run es) e := by
  rw [run, run, List.foldl_append]
  rfl

/-! ### One event -/

/-- What is inserted for a request. -/
def newRow (id : ℕ) (x y : ℤ) : Row := ⟨id, min x y, max x y, .pending, x⟩

theorem rows_handleFriendRequest (s : State) (myUid targetId : ℤ) (ok : Bool) :
    (handleFriendRequest s myUid targetId ok).1.rows = s.rows := by
  unfold handleFriendRequest
  split
  · rfl
  · split <;> rfl

theorem rows_withId {id : Option ℤ} {invalid : String} {s : State}
    {handle : ℤ → State × Option String} {Q : List Row → Prop} (h : Q s.rows)
    (hid : ∀ i, id = some i → 0 < i → Q (handle i).1.rows) :
    Q (withId id invalid s handle).1.rows := by
  unfold withId
  split
  · next i =>
    split
    · exact h
    · next hpos => exact hid i rfl (by omega)
  · exact h

/-- What an event does to the table: nothing, an acceptance, a deletion or an insertion. -/
inductive RowsStep (s : State) : Event → List Row → Prop
  | same (e : Event) : RowsStep s e s.rows
  | accepted (myUid requesterUid : ℤ) :
      RowsStep s (.message myUid (.friendAccept (some requesterUid)) true)
        (friendshipAccept s.rows myUid requesterUid)
  | deleted (e : Event) (a b : ℤ) : RowsStep s e (friendshipDelete s.rows a b)
  | inserted (i : ℕ) (x y : ℤ) (hwaiting : s.inserting[i]? = some (some (x, y)))
      (hnew : ∀ r ∈ s.rows, ¬ (r.userId = min x y ∧ r.friendId = max x y)) :
      RowsStep s (.insert i true) (s.rows ++ [newRow s.nextId x y])

theorem rows_remove (s : State) (e : Event) (myUid otherId : ℤ) (ok : Bool) :
    RowsStep s e (handleFriendRemove s myUid otherId ok).1.rows := by
  unfold handleFriendRemove
  split
  · exact .deleted e myUid otherId
  · exact .same e

theorem rows_step (s : State) (e : Event) : RowsStep s e (step s e).rows := by
  cases e with
  | message myUid m ok =>
    cases m with
    | friendRequest id =>
      refine rows_withId (.same _) fun i _ _ => ?_
      rw [rows_handleFriendRequest]
      exact .same _
    | friendAccept id =>
      refine rows_withId (.same _) fun i hid _ => ?_
      subst hid
      unfold handleFriendAccept
      split
      · next h =>
        rw [h.1]
        exact .accepted myUid i
      · exact .same _
    | friendReject id => exact rows_withId (.same _) fun i _ _ => rows_remove s _ myUid i ok
    | unfriend id => exact rows_withId (.same _) fun i _ _ => rows_remove s _ myUid i ok
  | insert i ok =>
    show RowsStep s _ (insertRequest s i ok).1.rows
    unfold insertRequest
    split
    · next x y hwaiting =>
      dsimp only
      cases ok with
      | false => exact .same _
      | true =>
        unfold friendshipCreatePending
        dsimp only
        split
        · next rows hrows =>
          rw [if_pos rfl] at hrows
          split at hrows
          · cases hrows
          · next hnew =>
            obtain rfl := Option.some.inj hrows
            refine .inserted i x y hwaiting fun r hr hkey => hnew ?_
            exact List.any_eq_true.mpr ⟨r, hr, decide_eq_true hkey⟩
        · exact .same _
    · exact .same _

/-- What an event does to the requests: nothing, a new one, or the end of one. -/
inductive InsertingStep (s : State) : Event → List (Option (ℤ × ℤ)) → Prop
  | same (e : Event) : InsertingStep s e s.inserting
  | asked (x y : ℤ) (ok : Bool) (hne : x ≠ y) :
      InsertingStep s (.message x (.friendRequest (some y)) ok) (s.inserting ++ [some (x, y)])
  | ended (e : Event) (i : ℕ) : InsertingStep s e (s.inserting.set i none)

theorem inserting_withId {id : Option ℤ} {invalid : String} {s : State}
    {handle : ℤ → State × Option String} {Q : List (Option (ℤ × ℤ)) → Prop} (h : Q s.inserting)
    (hid : ∀ i, id = some i → Q (handle i).1.inserting) :
    Q (withId id invalid s handle).1.inserting := by
  unfold withId
  split
  · next i =>
    split
    · exact h
    · exact hid i rfl
  · exact h

theorem inserting_remove (s : State) (myUid otherId : ℤ) (ok : Bool) :
    (handleFriendRemove s myUid otherId ok).1.inserting = s.inserting := by
  unfold handleFriendRemove
  split <;> rfl

theorem inserting_accept (s : State) (myUid requesterUid : ℤ) (ok : Bool) :
    (handleFriendAccept s myUid requesterUid ok).1.inserting = s.inserting := by
  unfold handleFriendAccept
  split <;> rfl

theorem inserting_step (s : State) (e : Event) : InsertingStep s e (step s e).inserting := by
  cases e with
  | message myUid m ok =>
    cases m with
    | friendRequest id =>
      refine inserting_withId (.same _) fun i hid => ?_
      subst hid
      unfold handleFriendRequest
      split
      · exact .same _
      · next hne =>
        split
        · exact .same _
        · exact .same _
        · exact .same _
        · exact .asked myUid i ok hne
    | friendAccept id =>
      exact inserting_withId (.same _) fun i _ => by rw [inserting_accept]; exact .same _
    | friendReject id =>
      exact inserting_withId (.same _) fun i _ => by rw [inserting_remove]; exact .same _
    | unfriend id =>
      exact inserting_withId (.same _) fun i _ => by rw [inserting_remove]; exact .same _
  | insert i ok =>
    show InsertingStep s _ (insertRequest s i ok).1.inserting
    unfold insertRequest
    split
    · dsimp only
      split <;> exact .ended _ i
    · exact .same _

/-! ### Every run -/

/-- The origin of a row: a request, and an acceptance if it is accepted. -/
def HasOrigin (es : List Event) (r : Row) : Prop :=
  ∃ y pre i post, r.pair = s(r.requesterId, y) ∧ Requested es pre i post r.requesterId y ∧
    (r.status = .accepted → Event.message y (.friendAccept (some r.requesterId)) true ∈ post)

/-- What holds after every run. -/
structure Inv (es : List Event) : Prop where
  ordered : ∀ r ∈ (run es).rows, r.userId < r.friendId
  nodup : (run es).pairs.Nodup
  asked : ∀ x y, some (x, y) ∈ (run es).inserting →
    x ≠ y ∧ ∃ ok, Event.message x (.friendRequest (some y)) ok ∈ es
  origin : ∀ r ∈ (run es).rows, HasOrigin es r

theorem inv_nil : Inv [] where
  ordered _ hr := absurd hr List.not_mem_nil
  nodup := List.nodup_nil
  asked _ _ h := absurd h List.not_mem_nil
  origin _ hr := absurd hr List.not_mem_nil

theorem Inv.asked_step {es : List Event} (h : Inv es) (e : Event) :
    ∀ x y, some (x, y) ∈ (run (es ++ [e])).inserting →
      x ≠ y ∧ ∃ ok, Event.message x (.friendRequest (some y)) ok ∈ es ++ [e] := by
  have hold : ∀ x y, some (x, y) ∈ (run es).inserting →
      x ≠ y ∧ ∃ ok, Event.message x (.friendRequest (some y)) ok ∈ es ++ [e] := by
    intro x y hmem
    obtain ⟨hne, ok, hsent⟩ := h.asked x y hmem
    exact ⟨hne, ok, List.mem_append_left _ hsent⟩
  intro x y hmem
  rw [run_concat] at hmem
  have hstep := inserting_step (run es) e
  generalize (step (run es) e).inserting = inserting at hstep hmem
  cases hstep with
  | same => exact hold x y hmem
  | asked x' y' ok hne =>
    rcases List.mem_append.mp hmem with hmem | hmem
    · exact hold x y hmem
    · obtain ⟨rfl, rfl⟩ := Prod.mk.inj (Option.some.inj (List.mem_singleton.mp hmem))
      exact ⟨hne, ok, List.mem_append_right _ (List.mem_singleton_self _)⟩
  | ended _ i =>
    rcases List.mem_or_eq_of_mem_set hmem with hmem | hmem
    · exact hold x y hmem
    · cases hmem

/-- While the row of a pair is there, it is not created again. -/
theorem Requested.grow {es pre post : List Event} {i : ℕ} {x y : ℤ}
    (h : Requested es pre i post x y) (hpair : s(x, y) ∈ (run es).pairs) (e : Event) :
    Requested (es ++ [e]) pre i (post ++ [e]) x y := by
  have hrun : post.foldl step (run (pre ++ [.insert i true])) = run es := by
    rw [h.split, run, run, ← List.foldl_append, List.append_assoc, List.singleton_append]
  constructor
  · rw [h.split, List.append_assoc, List.cons_append]
  · exact h.waiting
  · exact h.sent
  · exact h.creates
  · rw [Runs.each_concat, hrun]
    exact ⟨h.last, fun hcreates => hcreates.1 hpair⟩

theorem HasOrigin.grow {es : List Event} {r : Row} (h : HasOrigin es r) (hr : r ∈ (run es).rows)
    (e : Event) : HasOrigin (es ++ [e]) r := by
  obtain ⟨y, pre, i, post, hpair, hrequested, haccepted⟩ := h
  have hmem : s(r.requesterId, y) ∈ (run es).pairs := hpair ▸ List.mem_map_of_mem hr
  exact ⟨y, pre, i, post ++ [e], hpair, hrequested.grow hmem e,
    fun h => List.mem_append_left _ (haccepted h)⟩

theorem Inv.origin_step {es : List Event} (h : Inv es) (e : Event) :
    ∀ r ∈ (run (es ++ [e])).rows, r.userId < r.friendId ∧ HasOrigin (es ++ [e]) r := by
  have hold : ∀ r ∈ (run es).rows, r.userId < r.friendId ∧ HasOrigin (es ++ [e]) r :=
    fun r hr => ⟨h.ordered r hr, (h.origin r hr).grow hr e⟩
  have hcreated : (run (es ++ [e])).rows = (step (run es) e).rows := by rw [run_concat]
  have hstep := rows_step (run es) e
  intro r hr
  rw [hcreated] at hr
  generalize hrows : (step (run es) e).rows = rows at hstep hr
  cases hstep with
  | same => exact hold r hr
  | deleted _ a b => exact hold r (List.mem_of_mem_filter hr)
  | accepted myUid requesterUid =>
    obtain ⟨r, hrow, rfl⟩ := List.mem_map.mp hr
    split
    · next hacceptable =>
      obtain ⟨hpair, hrequester, -⟩ := hacceptable
      obtain ⟨y, pre, i, post, hother, hrequested, -⟩ := h.origin r hrow
      -- the other user of the row is the one who accepts
      have hy : y = myUid := by
        rw [ofPair_iff, hother, hrequester, Sym2.eq_swap, Sym2.eq_iff] at hpair
        rcases hpair with ⟨hy, -⟩ | ⟨hy, hx⟩
        · exact hy
        · exact hy.trans hx
      have hmem : s(r.requesterId, y) ∈ (run es).pairs := hother ▸ List.mem_map_of_mem hrow
      refine ⟨h.ordered r hrow, y, pre, i, post ++ [_], hother, hrequested.grow hmem _, fun _ => ?_⟩
      rw [hy, hrequester]
      exact List.mem_append_right _ (List.mem_singleton_self _)
    · exact hold r hrow
  | inserted i x y hwaiting hnew =>
    rcases List.mem_append.mp hr with hr | hr
    · exact hold r hr
    · obtain rfl := List.mem_singleton.mp hr
      obtain ⟨hne, hsent⟩ := h.asked x y (List.mem_of_getElem? hwaiting)
      refine ⟨min_lt_max.mpr hne, y, es, i, [], pair_min_max x y, ⟨rfl, hwaiting, hsent, ?_, ?_⟩, ?_⟩
      · refine ⟨fun hmem => ?_, ?_⟩
        · obtain ⟨r, hr, hpair⟩ := List.mem_map.mp hmem
          exact hnew r hr ((key_iff (h.ordered r hr)).mpr hpair)
        · rw [State.pairs, hrows, List.map_append]
          exact List.mem_append_right _ (List.mem_singleton.mpr (pair_min_max x y).symm)
      · trivial
      · intro haccepted
        cases haccepted

theorem Inv.nodup_step {es : List Event} (h : Inv es) (e : Event) :
    (run (es ++ [e])).pairs.Nodup := by
  rw [run_concat, State.pairs]
  have hstep := rows_step (run es) e
  generalize (step (run es) e).rows = rows at hstep
  cases hstep with
  | same => exact h.nodup
  | deleted _ a b => exact h.nodup.sublist (List.filter_sublist.map _)
  | accepted myUid requesterUid =>
    have hpairs : (friendshipAccept (run es).rows myUid requesterUid).map Row.pair =
        (run es).pairs := by
      rw [friendshipAccept, List.map_map, State.pairs]
      refine List.map_congr_left fun r _ => ?_
      show Row.pair (if _ then _ else r) = r.pair
      split <;> rfl
    rw [hpairs]
    exact h.nodup
  | inserted i x y hwaiting hnew =>
    rw [List.map_append, List.map_singleton]
    refine List.nodup_append.mpr ⟨h.nodup, List.nodup_singleton _, ?_⟩
    rintro p hp q hq rfl
    obtain ⟨r, hr, hpair⟩ := List.mem_map.mp hp
    rw [List.mem_singleton.mp hq] at hpair
    exact hnew r hr ((key_iff (h.ordered r hr)).mpr (hpair.trans (pair_min_max x y)))

theorem inv_run (es : List Event) : Inv es := by
  induction es using List.reverseRecOn with
  | nil => exact inv_nil
  | append_singleton es e ih =>
    exact ⟨fun r hr => (ih.origin_step e r hr).1, ih.nodup_step e, ih.asked_step e,
      fun r hr => (ih.origin_step e r hr).2⟩

/-! ### The claim over runs -/

theorem exists_of_existsAccepted {rows : List Row} {a b : ℤ}
    (h : friendshipExistsAccepted rows a b = true) :
    ∃ r ∈ rows, r.pair = s(a, b) ∧ r.status = .accepted := by
  obtain ⟨r, hr, hfound⟩ := List.any_eq_true.mp h
  obtain ⟨hpair, hstatus⟩ := of_decide_eq_true hfound
  exact ⟨r, hr, ofPair_iff.mp hpair, hstatus⟩

theorem existsAccepted_comm (rows : List Row) (a b : ℤ) :
    friendshipExistsAccepted rows a b = friendshipExistsAccepted rows b a := by
  unfold friendshipExistsAccepted
  congr 1
  funext r
  rw [decide_eq_decide, ofPair_iff, ofPair_iff, Sym2.eq_swap]

/-- **Friendship needs both sides.**  After any events of any users: a row has the smaller id first, and
no two rows are of the same pair; where a friendship holds, one of the two had sent the other a request
for which the row was last created, and the other one has sent an acceptance since; friendship is
symmetric, and nobody is a friend of themselves. -/
theorem friendship_needs_both (es : List Event) :
    (∀ r ∈ (run es).rows, r.userId < r.friendId) ∧
    (run es).rows.Pairwise (fun r r' => r.pair ≠ r'.pair) ∧
    (∀ a b, friendshipExistsAccepted (run es).rows a b = true → Agreed es a b ∨ Agreed es b a) ∧
    (∀ a b, friendshipExistsAccepted (run es).rows a b =
      friendshipExistsAccepted (run es).rows b a) ∧
    ∀ a, friendshipExistsAccepted (run es).rows a a = false := by
  have hinv := inv_run es
  refine ⟨hinv.ordered, List.pairwise_map.mp hinv.nodup, fun a b h => ?_, existsAccepted_comm _,
    fun a => ?_⟩
  · obtain ⟨r, hr, hpair, hstatus⟩ := exists_of_existsAccepted h
    obtain ⟨y, pre, i, post, hother, hrequested, haccepted⟩ := hinv.origin r hr
    have hagreed : Agreed es r.requesterId y := ⟨pre, i, post, hrequested, haccepted hstatus⟩
    rw [hother, Sym2.eq_iff] at hpair
    rcases hpair with ⟨rfl, rfl⟩ | ⟨rfl, rfl⟩
    · exact .inl hagreed
    · exact .inr hagreed
  · rw [Bool.eq_false_iff]
    intro h
    obtain ⟨r, hr, hpair, -⟩ := exists_of_existsAccepted h
    have hordered := hinv.ordered r hr
    rw [Row.pair, Sym2.eq_iff, or_self] at hpair
    exact absurd (hpair.1.trans hpair.2.symm) hordered.ne

/-- Two requests that cross leave one row. -/
example :
    run [.message 1 (.friendRequest (some 2)) true, .message 2 (.friendRequest (some 1)) true,
      .insert 1 true, .insert 0 true, .message 1 (.friendAccept (some 2)) true] =
      ⟨[⟨1, 1, 2, .accepted, 2⟩], 2, [none, none]⟩ := by
  decide

end SecChat.Friends
