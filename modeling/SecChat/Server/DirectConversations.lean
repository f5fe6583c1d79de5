import SecChat.Library.Runs
import Mathlib.Data.Finset.Card
import Mathlib.Data.Sym.Sym2
import Mathlib.Data.Int.Order.Basic
import Mathlib.Data.List.Nodup

/-!
# Direct conversations

`start_dm` looks for a direct conversation of the two users, and where it finds none inserts a
conversation and then its members.  These are three statements without a transaction, a lookup that
fails counts as one that finds nothing, and a failed insertion of the members is only logged.

* `matching`, `lookup`, `createConversation`, `addMembers`: the statements of `conv_find_or_create_dm`;
* `Event`, `step`: the handlers of all users, one statement at a time;
* `OnePerPair`: one conversation for a pair, with its two members, and in all answers;
* `StepOk`: the condition on a statement, in the state before it;
* `one_conversation_iff`: a run keeps `OnePerPair` exactly when all its statements meet the condition;
* `both_start_split`: both users start the conversation at the same time.
-/

namespace SecChat.DirectConversations

/-! ### The tables -/

/-- The `type` of a conversation. -/
inductive Kind
  | direct
  | group
  deriving DecidableEq, Repr

/-- A row of `conversations`. -/
structure Conversation where
  id : ℕ
  kind : Kind
  deriving DecidableEq, Repr

/-- A row of `conversation_members`. -/
structure Member where
  conversationId : ℕ
  userId : ℤ
  deriving DecidableEq, Repr

/-- Where a handler is, after the checks of `handle_start_dm`. -/
inductive Task
  | looking (myUid otherUid : ℤ)
  | creating (myUid otherUid : ℤ)
  | adding (myUid otherUid : ℤ) (conversationId : ℕ)
  | done
  deriving DecidableEq, Repr

/-- What is answered to a user. -/
inductive Reply
  | error (myUid : ℤ) (msg : String)
  | dmReady (myUid otherUid : ℤ) (conversationId : ℕ)
  deriving DecidableEq, Repr

/-- The tables, all handlers, and all answers so far. -/
structure State where
  nextId : ℕ
  conversations : List Conversation
  members : List Member
  tasks : List Task
  replies : List Reply
  deriving DecidableEq, Repr

/-- The join of the lookup: the direct conversations that have both users. -/
def matching (s : State) (user1 user2 : ℤ) : List ℕ :=
  (s.conversations.filter fun c => c.kind = .direct ∧ ⟨c.id, user1⟩ ∈ s.members ∧
    ⟨c.id, user2⟩ ∈ s.members).map (·.id)

/-! ### The statements -/

/-- How a lookup goes; `pick` chooses the row that `LIMIT 1` leaves. -/
inductive Lookup
  | noConnection
  | failed
  | answered (pick : ℕ)
  deriving DecidableEq, Repr

/-- The handler `i` answers that it failed. -/
def fail (s : State) (i : ℕ) (myUid : ℤ) : State :=
  { s with
    tasks := s.tasks.set i .done
    replies := s.replies ++ [.error myUid "Failed to create DM"] }

/-- The handler `i` answers with a conversation. -/
def ready (s : State) (i : ℕ) (myUid otherUid : ℤ) (id : ℕ) : State :=
  { s with
    tasks := s.tasks.set i .done
    replies := s.replies ++ [.dmReady myUid otherUid id] }

/-- The lookup of `conv_find_or_create_dm`. -/
def lookup (s : State) (i : ℕ) (myUid otherUid : ℤ) : Lookup → State
  | .noConnection => fail s i myUid
  | .failed => { s with tasks := s.tasks.set i (.creating myUid otherUid) }
  | .answered pick =>
      let found := matching s myUid otherUid
      match found[pick % found.length]? with
      | some id =>
          if 0 < id then ready s i myUid otherUid id
          else { s with tasks := s.tasks.set i (.creating myUid otherUid) }
      | none => { s with tasks := s.tasks.set i (.creating myUid otherUid) }

/-- The insertion of the conversation. -/
def createConversation (s : State) (i : ℕ) (myUid otherUid : ℤ) (ok : Bool) : State :=
  if ok then
    { s with
      nextId := s.nextId + 1
      conversations := s.conversations ++ [⟨s.nextId, .direct⟩]
      tasks := s.tasks.set i (.adding myUid otherUid s.nextId) }
  else fail s i myUid

/-- The insertion of the members, whose failure goes unnoticed. -/
def addMembers (s : State) (i : ℕ) (myUid otherUid : ℤ) (id : ℕ) (ok : Bool) : State :=
  let new : List Member :=
    if myUid = otherUid then [⟨id, myUid⟩] else [⟨id, myUid⟩, ⟨id, otherUid⟩]
  -- the pair of conversation and user is a unique key
  let s := if ok ∧ ∀ m ∈ new, m ∉ s.members then { s with members := s.members ++ new } else s
  ready s i myUid otherUid id

/-- `handle_start_dm` up to the lookup; the checks of the friendship and of the blocks may find
anything. -/
def handleStartDm (s : State) (myUid otherUid : ℤ) (friends blocked : Bool) : State :=
  if otherUid ≤ 0 ∨ otherUid = myUid then
    { s with replies := s.replies ++ [.error myUid "Saved Messages is no longer supported"] }
  else if friends = false then
    { s with replies := s.replies ++ [.error myUid "Can only DM friends"] }
  else if blocked then
    { s with replies := s.replies ++ [.error myUid "Cannot start conversation (blocked)"] }
  else { s with tasks := s.tasks ++ [.looking myUid otherUid] }

/-- A request, or the next statement of handler `i`. -/
inductive Event
  | startDm (myUid otherUid : ℤ) (friends blocked : Bool)
  | lookup (i : ℕ) (how : Lookup)
  | create (i : ℕ) (ok : Bool)
  | addMembers (i : ℕ) (ok : Bool)
  deriving DecidableEq, Repr

/-- One event. -/
def step (s : State) : Event → State
  | .startDm myUid otherUid friends blocked => handleStartDm s myUid otherUid friends blocked
  | .lookup i how =>
      match s.tasks[i]? with
      | some (.looking myUid otherUid) => lookup s i myUid otherUid how
      | _ => s
  | .create i ok =>
      match s.tasks[i]? with
      | some (.creating myUid otherUid) => createConversation s i myUid otherUid ok
      | _ => s
  | .addMembers i ok =>
      match s.tasks[i]? with
      | some (.adding myUid otherUid id) => addMembers s i myUid otherUid id ok
      | _ => s

/-! ### One conversation for a pair -/

/-- The members of a conversation. -/
def membersOf (s : State) (id : ℕ) : Finset ℤ :=
  ((s.members.filter fun m => m.conversationId = id).map (·.userId)).toFinset

/-- The ids of the direct conversations. -/
def directIds (s : State) : List ℕ :=
  (s.conversations.filter fun c => c.kind = .direct).map (·.id)

/-- The conversation whose members a handler is to insert. -/
def Task.adds : Task → Option ℕ
  | .adding _ _ id => some id
  | .looking _ _ | .creating _ _ | .done => none

/-- The same for handler `i`. -/
def addsAt (s : State) (i : ℕ) : Option ℕ := s.tasks[i]?.bind Task.adds

/-- The members of the conversation are still to be inserted. -/
def UnderWay (s : State) (id : ℕ) : Prop := ∃ i, addsAt s i = some id

/-- No two direct conversations have the same two members, a direct conversation has exactly two unless
they are still to be inserted, and all answers for a pair carry the same conversation. -/
structure OnePerPair (s : State) : Prop where
  unique : ∀ id ∈ directIds s, ∀ id' ∈ directIds s, (membersOf s id).card = 2 →
    membersOf s id = membersOf s id' → id = id'
  two : ∀ id ∈ directIds s, ¬ UnderWay s id → (membersOf s id).card = 2
  answers : ∀ a b id a' b' id', .dmReady a b id ∈ s.replies → .dmReady a' b' id' ∈ s.replies →
    s(a, b) = s(a', b') → id = id'

/-- The condition: when the members are inserted, the insertion does not fail, and there is still no
direct conversation of the two. -/
def StepOk (s : State) : Event → Prop
  | .addMembers i ok =>
      match s.tasks[i]? with
      | some (.adding myUid otherUid _) => ok = true ∧ matching s myUid otherUid = []
      | _ => True
  | _ => True

/-- No handlers and no answers yet. -/
structure Start (s : State) : Prop where
  tasks : s.tasks = []
  replies : s.replies = []
  next : 0 < s.nextId
  below : ∀ c ∈ s.conversations, 0 < c.id ∧ c.id < s.nextId
  members : ∀ m ∈ s.members, m.conversationId < s.nextId
  onePerPair : OnePerPair s

/-! ### Members -/

theorem mem_membersOf {s : State} {id : ℕ} {u : ℤ} : u ∈ membersOf s id ↔ ⟨id, u⟩ ∈ s.members := by
  rw [membersOf, List.mem_toFinset, List.mem_map]
  constructor
  · rintro ⟨⟨c, v⟩, hm, rfl⟩
    obtain ⟨hmem, hid⟩ := List.mem_filter.mp hm
    obtain rfl : c = id := of_decide_eq_true hid
    exact hmem
  · exact fun hm => ⟨⟨id, u⟩, List.mem_filter.mpr ⟨hm, decide_eq_true rfl⟩, rfl⟩

theorem mem_directIds {s : State} {id : ℕ} : id ∈ directIds s ↔ ⟨id, .direct⟩ ∈ s.conversations := by
  rw [directIds, List.mem_map]
  constructor
  · rintro ⟨⟨i, kind⟩, hc, rfl⟩
    obtain ⟨hmem, hkind⟩ := List.mem_filter.mp hc
    obtain rfl : kind = .direct := of_decide_eq_true hkind
    exact hmem
  · exact fun hc => ⟨⟨id, .direct⟩, List.mem_filter.mpr ⟨hc, decide_eq_true rfl⟩, rfl⟩

theorem mem_matching {s : State} {a b : ℤ} {id : ℕ} :
    id ∈ matching s a b ↔ id ∈ directIds s ∧ a ∈ membersOf s id ∧ b ∈ membersOf s id := by
  rw [mem_directIds, mem_membersOf, mem_membersOf, matching, List.mem_map]
  constructor
  · rintro ⟨⟨i, kind⟩, hc, rfl⟩
    obtain ⟨hmem, hmatch⟩ := List.mem_filter.mp hc
    obtain ⟨hkind, hmembers⟩ := of_decide_eq_true hmatch
    obtain rfl : kind = .direct := hkind
    exact ⟨hmem, hmembers⟩
  · rintro ⟨hc, hmembers⟩
    exact ⟨⟨id, .direct⟩, List.mem_filter.mpr ⟨hc, decide_eq_true ⟨rfl, hmembers⟩⟩, rfl⟩

/-! ### The invariant -/

/-- The two users of a handler that is not through. -/
def Task.users : Task → Option (ℤ × ℤ)
  | .looking a b | .creating a b | .adding a b _ => some (a, b)
  | .done => none

/-- What holds in every run under the condition. -/
structure Inv (s : State) : Prop where
  next : 0 < s.nextId
  below : ∀ c ∈ s.conversations, 0 < c.id ∧ c.id < s.nextId
  members : ∀ m ∈ s.members, m.conversationId < s.nextId
  differ : ∀ t ∈ s.tasks, ∀ p ∈ t.users, p.1 ≠ p.2
  adds : ∀ i id, addsAt s i = some id → id ∈ directIds s ∧ membersOf s id = ∅
  apart : ∀ i j id, addsAt s i = some id → addsAt s j = some id → i = j
  unique : ∀ id ∈ directIds s, ∀ id' ∈ directIds s, (membersOf s id).card = 2 →
    membersOf s id = membersOf s id' → id = id'
  two : ∀ id ∈ directIds s, ¬ UnderWay s id → (membersOf s id).card = 2
  answered : ∀ a b id, .dmReady a b id ∈ s.replies →
    a ≠ b ∧ id ∈ directIds s ∧ membersOf s id = {a, b}

theorem Inv.onePerPair {s : State} (h : Inv s) : OnePerPair s where
  unique := h.unique
  two := h.two
  answers a b id a' b' id' hr hr' hpair := by
    obtain ⟨hne, hid, hmembers⟩ := h.answered a b id hr
    obtain ⟨-, hid', hmembers'⟩ := h.answered a' b' id' hr'
    have hsame : ({a, b} : Finset ℤ) = {a', b'} := by
      rcases Sym2.eq_iff.mp hpair with ⟨rfl, rfl⟩ | ⟨rfl, rfl⟩
      · rfl
      · exact Finset.pair_comm a b
    refine h.unique id hid id' hid' ?_ (by rw [hmembers, hmembers', hsame])
    rw [hmembers]
    exact Finset.card_pair hne

theorem addsAt_of_nil {s : State} (h : s.tasks = []) (i : ℕ) : addsAt s i = none := by
  rw [addsAt, h]
  rfl

theorem Start.inv {s : State} (h : Start s) : Inv s where
  next := h.next
  below := h.below
  members := h.members
  differ t ht := by rw [h.tasks] at ht; cases ht
  adds i id hadds := by rw [addsAt_of_nil h.tasks] at hadds; cases hadds
  apart i j id hadds := by rw [addsAt_of_nil h.tasks] at hadds; cases hadds
  unique := h.onePerPair.unique
  two := h.onePerPair.two
  answered a b id hr := by rw [h.replies] at hr; cases hr

/-- The lookup finds the conversations of exactly the two users. -/
theorem Inv.mem_matching_iff {s : State} (h : Inv s) {a b : ℤ} (hab : a ≠ b) {id : ℕ} :
    id ∈ matching s a b ↔ id ∈ directIds s ∧ membersOf s id = {a, b} := by
  rw [mem_matching]
  refine and_congr_right fun hid => ⟨fun ⟨ha, hb⟩ => ?_, fun heq => by simp [heq]⟩
  have hcard : (membersOf s id).card = 2 := by
    refine h.two id hid fun ⟨i, hadds⟩ => ?_
    rw [(h.adds i id hadds).2] at ha
    exact Finset.notMem_empty a ha
  have hsub : {a, b} ⊆ membersOf s id :=
    Finset.insert_subset ha (Finset.singleton_subset_iff.mpr hb)
  exact (Finset.eq_of_subset_of_card_le hsub (by rw [hcard, Finset.card_pair hab])).symm

/-! ### Handlers -/

theorem addsAt_set {s : State} {i : ℕ} {t t' : Task} (ht : s.tasks[i]? = some t) (j : ℕ) :
    addsAt { s with tasks := s.tasks.set i t' } j = if j = i then t'.adds else addsAt s j := by
  unfold addsAt
  dsimp only
  obtain ⟨hi, -⟩ := List.getElem?_eq_some_iff.mp ht
  by_cases hji : j = i
  · subst hji
    rw [List.getElem?_set_self hi, if_pos rfl]
    rfl
  · rw [List.getElem?_set_ne (Ne.symm hji), if_neg hji]

theorem addsAt_eq {s : State} {i : ℕ} {t : Task} (ht : s.tasks[i]? = some t) :
    addsAt s i = t.adds := by
  rw [addsAt, ht]
  rfl

theorem differ_set {s : State} (h : ∀ t ∈ s.tasks, ∀ p ∈ t.users, p.1 ≠ p.2) {i : ℕ} {t' : Task}
    (hdiffer : ∀ p ∈ t'.users, p.1 ≠ p.2) : ∀ t ∈ s.tasks.set i t', ∀ p ∈ t.users, p.1 ≠ p.2 := by
  intro t ht
  rcases List.mem_or_eq_of_mem_set ht with ht | rfl
  · exact h t ht
  · exact hdiffer

/-- A handler goes on without touching the tables. -/
theorem Inv.setTask {s : State} (h : Inv s) {i : ℕ} {t t' : Task} (ht : s.tasks[i]? = some t)
    (hadds : t.adds = none) (hadds' : t'.adds = none) (hdiffer : ∀ p ∈ t'.users, p.1 ≠ p.2) :
    Inv { s with tasks := s.tasks.set i t' } := by
  have hsame : ∀ j, addsAt { s with tasks := s.tasks.set i t' } j = addsAt s j := by
    intro j
    rw [addsAt_set ht]
    split
    · next hji => rw [hji, addsAt_eq ht, hadds, hadds']
    · rfl
  refine ⟨h.next, h.below, h.members, differ_set h.differ hdiffer, fun j id hj => ?_,
    fun j k id hj hk => ?_, h.unique, fun id hid hnot => ?_, h.answered⟩
  · rw [hsame] at hj
    exact h.adds j id hj
  · rw [hsame] at hj hk
    exact h.apart j k id hj hk
  · exact h.two id hid fun ⟨j, hj⟩ => hnot ⟨j, (hsame j).trans hj⟩

/-- Another error is answered. -/
theorem Inv.error {s : State} (h : Inv s) (myUid : ℤ) (msg : String) :
    Inv { s with replies := s.replies ++ [.error myUid msg] } := by
  refine ⟨h.next, h.below, h.members, h.differ, h.adds, h.apart, h.unique, h.two, fun a b id hr => ?_⟩
  rcases List.mem_append.mp hr with hr | hr
  · exact h.answered a b id hr
  · cases List.mem_singleton.mp hr

theorem Inv.fail {s : State} (h : Inv s) {i : ℕ} {t : Task} (ht : s.tasks[i]? = some t)
    (hadds : t.adds = none) (myUid : ℤ) : Inv (fail s i myUid) :=
  (h.setTask ht hadds rfl fun _ hp => by cases hp).error myUid _

/-- A conversation of the two users is answered. -/
theorem Inv.answer {s : State} (h : Inv s) {a b : ℤ} {id : ℕ} (hab : a ≠ b)
    (hid : id ∈ directIds s) (hmembers : membersOf s id = {a, b}) :
    Inv { s with replies := s.replies ++ [.dmReady a b id] } := by
  refine ⟨h.next, h.below, h.members, h.differ, h.adds, h.apart, h.unique, h.two,
    fun a' b' id' hr => ?_⟩
  rcases List.mem_append.mp hr with hr | hr
  · exact h.answered a' b' id' hr
  · obtain ⟨rfl, rfl, rfl⟩ := Reply.dmReady.inj (List.mem_singleton.mp hr)
    exact ⟨hab, hid, hmembers⟩

theorem Inv.startDm {s : State} (h : Inv s) (myUid otherUid : ℤ) (friends blocked : Bool) :
    Inv (handleStartDm s myUid otherUid friends blocked) := by
  unfold handleStartDm
  split
  · exact h.error _ _
  · next hother =>
    split
    · exact h.error _ _
    · split
      · exact h.error _ _
      · have hsame : ∀ j, addsAt { s with tasks := s.tasks ++ [.looking myUid otherUid] } j =
            addsAt s j := by
          intro j
          unfold addsAt
          dsimp only
          rw [List.getElem?_append]
          split
          · rfl
          · next hj =>
            rw [List.getElem?_eq_none (Nat.le_of_not_lt hj)]
            cases j - s.tasks.length <;> rfl
        refine ⟨h.next, h.below, h.members, fun t ht => ?_, fun j id hj => ?_,
          fun j k id hj hk => ?_, h.unique, fun id hid hnot => ?_, h.answered⟩
        · rcases List.mem_append.mp ht with ht | ht
          · exact h.differ t ht
          · intro p hp
            rw [List.mem_singleton.mp ht] at hp
            obtain rfl := Option.some.inj hp
            exact fun heq => hother (.inr heq.symm)
        · rw [hsame] at hj
          exact h.adds j id hj
        · rw [hsame] at hj hk
          exact h.apart j k id hj hk
        · exact h.two id hid fun ⟨j, hj⟩ => hnot ⟨j, (hsame j).trans hj⟩

theorem Inv.lookup {s : State} (h : Inv s) {i : ℕ} {a b : ℤ}
    (ht : s.tasks[i]? = some (.looking a b)) (how : Lookup) : Inv (lookup s i a b how) := by
  have hab : a ≠ b := h.differ _ (List.mem_of_getElem? ht) (a, b) rfl
  have hcreating : Inv { s with tasks := s.tasks.set i (.creating a b) } :=
    h.setTask ht rfl rfl fun p hp => by
      obtain rfl := Option.some.inj hp
      exact hab
  unfold DirectConversations.lookup
  cases how with
  | noConnection => exact h.fail ht rfl a
  | failed => exact hcreating
  | answered pick =>
    dsimp only
    split
    · next id hfound =>
      split
      · obtain ⟨hid, hmembers⟩ := (h.mem_matching_iff hab).mp (List.mem_of_getElem? hfound)
        have hdone : Inv { s with tasks := s.tasks.set i .done } :=
          h.setTask ht rfl rfl fun _ hp => by cases hp
        exact hdone.answer hab hid hmembers
      · exact hcreating
    · exact hcreating

theorem mem_directIds_concat {s : State} {id new : ℕ} (tasks : List Task) (next : ℕ) :
    id ∈ directIds { s with
        nextId := next, conversations := s.conversations ++ [⟨new, .direct⟩], tasks := tasks } ↔
      id ∈ directIds s ∨ id = new := by
  rw [mem_directIds, mem_directIds, List.mem_append, List.mem_singleton, Conversation.mk.injEq,
    and_iff_left rfl]

/-- A new conversation has no members. -/
theorem Inv.membersOf_next {s : State} (h : Inv s) : membersOf s s.nextId = ∅ := by
  rw [Finset.eq_empty_iff_forall_notMem]
  intro u hu
  exact (h.members _ (mem_membersOf.mp hu)).false

theorem Inv.lt_next {s : State} (h : Inv s) {id : ℕ} (hid : id ∈ directIds s) : id < s.nextId :=
  (h.below _ (mem_directIds.mp hid)).2

theorem Inv.create {s : State} (h : Inv s) {i : ℕ} {a b : ℤ}
    (ht : s.tasks[i]? = some (.creating a b)) (ok : Bool) :
    Inv (createConversation s i a b ok) := by
  have hab : a ≠ b := h.differ _ (List.mem_of_getElem? ht) (a, b) rfl
  unfold createConversation
  cases ok with
  | false => exact h.fail ht rfl a
  | true =>
    rw [if_pos rfl]
    have hadds : ∀ j, addsAt { s with
        nextId := s.nextId + 1, conversations := s.conversations ++ [⟨s.nextId, .direct⟩],
        tasks := s.tasks.set i (.adding a b s.nextId) } j =
        if j = i then some s.nextId else addsAt s j := fun j => addsAt_set ht j
    have hold : ∀ j, addsAt s j ≠ some s.nextId :=
      fun j hj => (h.lt_next (h.adds j _ hj).1).false
    refine ⟨Nat.succ_pos _, fun c hc => ?_, fun m hm => (h.members m hm).trans (Nat.lt_succ_self _),
      differ_set h.differ fun p hp => ?_, fun j id hj => ?_, fun j k id hj hk => ?_,
      fun id hid id' hid' hcard hsame => ?_, fun id hid hnot => ?_, fun x y id hr => ?_⟩
    · rcases List.mem_append.mp hc with hc | hc
      · exact ⟨(h.below c hc).1, (h.below c hc).2.trans (Nat.lt_succ_self _)⟩
      · rw [List.mem_singleton.mp hc]
        exact ⟨h.next, Nat.lt_succ_self _⟩
    · obtain rfl := Option.some.inj hp
      exact hab
    · rw [hadds] at hj
      rw [mem_directIds_concat]
      split at hj
      · obtain rfl := Option.some.inj hj
        exact ⟨.inr rfl, h.membersOf_next⟩
      · exact ⟨.inl (h.adds j id hj).1, (h.adds j id hj).2⟩
    · rw [hadds] at hj hk
      split at hj <;> split at hk
      · next hji hki => rw [hji, hki]
      · exact absurd (hk.trans hj.symm) (hold k)
      · exact absurd (hj.trans hk.symm) (hold j)
      · exact h.apart j k id hj hk
    · have hcard' : (membersOf s id).card = 2 := hcard
      have hsame' : membersOf s id = membersOf s id' := hsame
      -- the new conversation has no members
      have hnew : (membersOf s s.nextId).card ≠ 2 := by
        rw [h.membersOf_next]
        decide
      rw [mem_directIds_concat] at hid hid'
      rcases hid with hid | rfl
      · rcases hid' with hid' | rfl
        · exact h.unique id hid id' hid' hcard' hsame'
        · exact absurd (hsame' ▸ hcard') hnew
      · exact absurd hcard' hnew
    · rw [mem_directIds_concat] at hid
      have hne : id ≠ s.nextId := by
        rintro rfl
        exact hnot ⟨i, by rw [hadds, if_pos rfl]⟩
      refine h.two id (hid.resolve_right hne) fun ⟨j, hj⟩ => hnot ⟨j, ?_⟩
      rw [hadds]
      split
      · next hji =>
        rw [hji, addsAt_eq ht] at hj
        cases hj
      · exact hj
    · obtain ⟨hne, hid, hmembers⟩ := h.answered x y id hr
      exact ⟨hne, (mem_directIds_concat _ _).mpr (.inl hid), hmembers⟩

/-! ### The members -/

/-- The rows that are inserted for a new conversation. -/
theorem addMembers_true {s : State} (h : Inv s) {i : ℕ} {a b : ℤ} {id : ℕ}
    (ht : s.tasks[i]? = some (.adding a b id)) :
    addMembers s i a b id true = ready
      { s with members := s.members ++ [⟨id, a⟩, ⟨id, b⟩] } i a b id := by
  have hab : a ≠ b := h.differ _ (List.mem_of_getElem? ht) (a, b) rfl
  have hempty : membersOf s id = ∅ := (h.adds i id (addsAt_eq ht)).2
  have hfree : ∀ m ∈ [Member.mk id a, Member.mk id b], m ∉ s.members := by
    intro m hm hmem
    have hid : m.conversationId = id := by
      rcases List.mem_pair.mp hm with rfl | rfl <;> rfl
    have hu : m.userId ∈ membersOf s id := mem_membersOf.mpr (hid ▸ hmem)
    rw [hempty] at hu
    exact Finset.notMem_empty _ hu
  unfold addMembers
  rw [if_neg hab]
  dsimp only
  rw [if_pos ⟨rfl, hfree⟩]

theorem membersOf_append {s : State} {id : ℕ} {a b : ℤ} (tasks : List Task) (replies : List Reply)
    (hempty : membersOf s id = ∅) (id' : ℕ) :
    membersOf { s with
        members := s.members ++ [⟨id, a⟩, ⟨id, b⟩], tasks := tasks, replies := replies } id' =
      if id' = id then {a, b} else membersOf s id' := by
  ext u
  have hno : ⟨id, u⟩ ∉ s.members := by
    rw [← mem_membersOf, hempty]
    exact Finset.notMem_empty u
  split
  · next heq =>
    subst heq
    simp [mem_membersOf, hno]
  · next hne => simp [mem_membersOf, hne]

/-- The members of a conversation are inserted while there is none of the two users. -/
theorem Inv.addMembers {s : State} (h : Inv s) {i : ℕ} {a b : ℤ} {id : ℕ}
    (ht : s.tasks[i]? = some (.adding a b id)) (hnone : matching s a b = []) :
    Inv (addMembers s i a b id true) := by
  have hab : a ≠ b := h.differ _ (List.mem_of_getElem? ht) (a, b) rfl
  obtain ⟨hid, hempty⟩ := h.adds i id (addsAt_eq ht)
  have hother : ∀ id' ∈ directIds s, membersOf s id' ≠ {a, b} := by
    intro id' hid' hmembers
    have hmem : id' ∈ matching s a b := (h.mem_matching_iff hab).mpr ⟨hid', hmembers⟩
    rw [hnone] at hmem
    cases hmem
  rw [addMembers_true h ht]
  unfold ready
  have hmembers := membersOf_append (a := a) (b := b) (s.tasks.set i .done)
    (s.replies ++ [.dmReady a b id]) hempty
  have hadds : ∀ j, addsAt { s with tasks := s.tasks.set i .done } j =
      if j = i then none else addsAt s j := fun j => addsAt_set ht j
  refine ⟨h.next, h.below, fun m hm => ?_, differ_set h.differ fun _ hp => (by cases hp),
    fun j id' hj => ?_, fun j k id' hj hk => ?_, fun id₁ hid₁ id₂ hid₂ hcard hsame => ?_,
    fun id' hid' hnot => ?_, fun x y id' hr => ?_⟩
  · rcases List.mem_append.mp hm with hm | hm
    · exact h.members m hm
    · have hmid : m.conversationId = id := by
        rcases List.mem_pair.mp hm with rfl | rfl <;> rfl
      rw [hmid]
      exact h.lt_next hid
  · have hj' : (if j = i then none else addsAt s j) = some id' := (hadds j).symm.trans hj
    split at hj'
    · cases hj'
    · next hji =>
      have hne : id' ≠ id := by
        rintro rfl
        exact hji (h.apart j i id' hj' (addsAt_eq ht))
      rw [hmembers, if_neg hne]
      exact h.adds j id' hj'
  · have hj' : (if j = i then none else addsAt s j) = some id' := (hadds j).symm.trans hj
    have hk' : (if k = i then none else addsAt s k) = some id' := (hadds k).symm.trans hk
    split at hj'
    · cases hj'
    · split at hk'
      · cases hk'
      · exact h.apart j k id' hj' hk'
  · rw [hmembers, hmembers] at hsame
    rw [hmembers] at hcard
    split at hsame <;> split at hsame
    · next h1 h2 => rw [h1, h2]
    · exact absurd hsame.symm (hother id₂ hid₂)
    · exact absurd hsame (hother id₁ hid₁)
    · next h1 h2 =>
      rw [if_neg h1] at hcard
      exact h.unique id₁ hid₁ id₂ hid₂ hcard hsame
  · rw [hmembers]
    split
    · exact Finset.card_pair hab
    · next hne =>
      refine h.two id' hid' fun ⟨j, hj⟩ => hnot ⟨j, (hadds j).trans ?_⟩
      rw [if_neg, hj]
      rintro rfl
      rw [addsAt_eq ht] at hj
      exact hne (Option.some.inj hj).symm
  · rcases List.mem_append.mp hr with hr | hr
    · obtain ⟨hne, hid', hmembers'⟩ := h.answered x y id' hr
      refine ⟨hne, hid', ?_⟩
      rw [hmembers, if_neg, hmembers']
      rintro rfl
      rw [hempty] at hmembers'
      exact Finset.notMem_empty x (hmembers' ▸ Finset.mem_insert_self x {y})
    · obtain ⟨rfl, rfl, rfl⟩ := Reply.dmReady.inj (List.mem_singleton.mp hr)
      exact ⟨hab, hid, by rw [hmembers, if_pos rfl]⟩

/-- **One event.**  Under the condition it keeps the invariant. -/
theorem Inv.step {s : State} (h : Inv s) {e : Event} (hok : StepOk s e) : Inv (step s e) := by
  unfold DirectConversations.step
  cases e with
  | startDm myUid otherUid friends blocked => exact h.startDm myUid otherUid friends blocked
  | lookup i how =>
    dsimp only
    split
    · next ht => exact h.lookup ht how
    · exact h
  | create i ok =>
    dsimp only
    split
    · next ht => exact h.create ht ok
    · exact h
  | addMembers i ok =>
    dsimp only
    split
    · next ht =>
      unfold StepOk at hok
      dsimp only at hok
      rw [ht] at hok
      obtain ⟨rfl, hnone⟩ := hok
      exact h.addMembers ht hnone
    · exact h

/-- A failed insertion of the members leaves a conversation without any. -/
theorem addMembers_ok {s : State} (h : Inv s) {i : ℕ} {a b : ℤ} {id : ℕ} {ok : Bool}
    (ht : s.tasks[i]? = some (.adding a b id))
    (hafter : OnePerPair (addMembers s i a b id ok)) : ok = true := by
  obtain ⟨hid, hempty⟩ := h.adds i id (addsAt_eq ht)
  cases ok with
  | true => rfl
  | false =>
    have hsame : addMembers s i a b id false = ready s i a b id := by simp [addMembers]
    rw [hsame] at hafter
    have hcard : (membersOf s id).card = 2 := by
      refine hafter.two id hid fun ⟨j, hj⟩ => ?_
      have hj' : (if j = i then none else addsAt s j) = some id :=
        (addsAt_set ht j).symm.trans hj
      split at hj'
      · cases hj'
      · next hji => exact hji (h.apart j i id hj' (addsAt_eq ht))
    rw [hempty] at hcard
    cases hcard

/-- The members of a second conversation of the two users are not to be inserted. -/
theorem matching_eq_nil {s : State} (h : Inv s) {i : ℕ} {a b : ℤ} {id : ℕ}
    (ht : s.tasks[i]? = some (.adding a b id))
    (hafter : OnePerPair (addMembers s i a b id true)) : matching s a b = [] := by
  have hab : a ≠ b := h.differ _ (List.mem_of_getElem? ht) (a, b) rfl
  obtain ⟨hid, hempty⟩ := h.adds i id (addsAt_eq ht)
  rw [List.eq_nil_iff_forall_not_mem]
  intro id' hmem
  obtain ⟨hid', hpair⟩ := (h.mem_matching_iff hab).mp hmem
  have hne : id' ≠ id := by
    rintro rfl
    rw [hempty] at hpair
    exact Finset.notMem_empty a (hpair ▸ Finset.mem_insert_self a {b})
  rw [addMembers_true h ht] at hafter
  have hmembers := membersOf_append (a := a) (b := b) (s.tasks.set i .done)
    (s.replies ++ [.dmReady a b id]) hempty
  refine hne (hafter.unique id' hid' id hid ?_ ?_)
  · exact ((congrArg Finset.card ((hmembers id').trans (if_neg hne))).trans
      (congrArg Finset.card hpair)).trans (Finset.card_pair hab)
  · exact ((hmembers id').trans (if_neg hne)).trans (hpair.trans ((hmembers id).trans (if_pos rfl)).symm)

theorem stepOk_of_onePerPair {s : State} (h : Inv s) {e : Event} (hafter : OnePerPair (step s e)) :
    StepOk s e := by
  cases e with
  | startDm | lookup | create => trivial
  | addMembers i ok =>
    unfold StepOk
    dsimp only
    split
    · next ht =>
      unfold step at hafter
      dsimp only at hafter
      rw [ht] at hafter
      obtain rfl := addMembers_ok h ht hafter
      exact ⟨rfl, matching_eq_nil h ht hafter⟩
    · trivial

/-- **When there is one conversation for a pair.**  Requests of any users run in any order, and any
statement may fail: after every event there is one direct conversation for a pair, with its two members
and in all answers, exactly when every insertion of members succeeds and comes while there is no direct
conversation of the two. -/
theorem one_conversation_iff {s : State} (hs : Start s) (es : List Event) :
    Runs.Always step OnePerPair s es ↔ Runs.Each step StepOk s es :=
  Runs.always_iff_each_of_inv (fun _ h => h.onePerPair) (fun _ _ h hok => h.step hok)
    (fun _ _ h hafter => stepOk_of_onePerPair h hafter) hs.inv

/-! ### Two runs -/

/-- Empty tables. -/
def noConversations : State := ⟨1, [], [], [], []⟩

theorem start_noConversations : Start noConversations where
  tasks := rfl
  replies := rfl
  next := Nat.one_pos
  below _ hc := absurd hc List.not_mem_nil
  members _ hm := absurd hm List.not_mem_nil
  onePerPair :=
    { unique := fun _ hid => absurd hid List.not_mem_nil
      two := fun _ hid => absurd hid List.not_mem_nil
      answers := fun _ _ _ _ _ _ hr => absurd hr List.not_mem_nil }

/-- The second user starts the conversation when the first one has it. -/
def orderedRun : List Event :=
  [.startDm 1 2 true false, .lookup 0 (.answered 0), .create 0 true, .addMembers 0 true,
    .startDm 2 1 true false, .lookup 1 (.answered 0)]

theorem one_conversation_iff_ordered : Runs.Always step OnePerPair noConversations orderedRun :=
  (one_conversation_iff start_noConversations orderedRun).mpr
    ⟨trivial, trivial, trivial, ⟨rfl, rfl⟩, trivial, trivial, trivial⟩

/-- Both users start the conversation at the same time, and no statement fails. -/
def crossedRun : List Event :=
  [.startDm 1 2 true false, .startDm 2 1 true false, .lookup 0 (.answered 0),
    .lookup 1 (.answered 0), .create 0 true, .create 1 true, .addMembers 0 true, .addMembers 1 true]

/-- They are told different conversations. -/
theorem both_start_split : ¬ Runs.Always step OnePerPair noConversations crossedRun := by
  intro h
  have hlast := Runs.always_iff_prefixes.mp h crossedRun (List.prefix_refl _)
  have hids : (1 : ℕ) = 2 :=
    hlast.answers 1 2 1 2 1 2 (by decide) (by decide) (Sym2.eq_swap)
  exact absurd hids (by decide)

end SecChat.DirectConversations
