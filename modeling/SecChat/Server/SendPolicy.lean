import SecChat.Library.Runs
import Mathlib.Data.Int.Basic
import Mathlib.Data.List.Basic
import Mathlib.Order.Basic

/-!
# Who may store a message

A plain message or a reply passes several checks before it is stored: membership, the group not being
disbanded, the sender's rate limit, and in a direct conversation the blocks of both sides.  An edit
only passes the test that its target is an own message.  Every check but the rate limit is a database
access of its own; it can fail, and other requests change the tables between two of them.

* `ratelimitCheck`: the token buckets, and `ratelimitCheck_charged`: what a charge takes;
* `advance`: one database access of a request;
* `Obeys`: whatever is stored meets the policy at that time;
* `StepOk`: the condition on a step, in the state before it;
* `stored_messages_obey`: under the condition, every row of every run meets the policy;
* `edit_of_former_member_stored`: a user edits a message in a group that it has left.
-/

namespace SecChat.SendPolicy

/-! ### The rate limit -/

/-- A bucket of a user. -/
structure Bucket where
  uid : ℤ
  tokens : ℤ
  lastRefill : ℤ
  deriving DecidableEq, Repr

/-- `CAPACITY`. -/
def capacity : ℤ := 10

/-- `RL_BUCKETS`. -/
def rlBuckets : ℕ := 4096

/-- `rl_slot` with the new entry that is made in an empty slot.  The table is searched from a hash of
the user on, and nothing is ever removed, so a slot is only missing when all are taken by others. -/
def rlSlot (buckets : List Bucket) (now uid : ℤ) : Option Bucket :=
  match buckets.find? (·.uid = uid) with
  | some b => some b
  | none => if buckets.length < rlBuckets then some ⟨uid, capacity, now⟩ else none

/-- The refill: one token for a second. -/
def Bucket.refill (b : Bucket) (now : ℤ) : Bucket :=
  if 1 ≤ now - b.lastRefill then
    { b with tokens := min capacity (b.tokens + (now - b.lastRefill)), lastRefill := now }
  else b

/-- The bucket in its slot. -/
def putBucket (buckets : List Bucket) (b : Bucket) : List Bucket :=
  if buckets.any (·.uid = b.uid) then buckets.map fun b' => if b'.uid = b.uid then b else b'
  else buckets ++ [b]

/-- What the rate limit says; the caller does not tell the first two apart. -/
inductive Verdict
  | uncharged
  | charged
  | refused
  deriving DecidableEq, Repr

/-- `ratelimit_check`: without a slot it lets everything pass. -/
def ratelimitCheck (buckets : List Bucket) (now uid : ℤ) : Verdict × List Bucket :=
  if uid ≤ 0 then (.uncharged, buckets)
  else
    match rlSlot buckets now uid with
    | none => (.uncharged, buckets)
    | some b =>
        let b := b.refill now
        if 0 < b.tokens then (.charged, putBucket buckets { b with tokens := b.tokens - 1 })
        else (.refused, putBucket buckets b)

/-! ### Tables and requests -/

/-- A row of `conversations` with its members. -/
structure Conv where
  direct : Bool
  isDisbanded : Bool
  members : List ℤ
  deriving DecidableEq, Repr

/-- A row of `messages`. -/
structure Message where
  conv : ℕ
  sender : ℤ
  body : String
  replyTo : Option ℕ
  editTarget : Option ℕ
  deleted : Bool
  deriving DecidableEq, Repr

/-- The tables, where ids are positions, with the buckets and the time. -/
structure Tables where
  convs : List Conv
  blocks : List (ℤ × ℤ)
  msgs : List Message
  buckets : List Bucket
  now : ℤ
  deriving DecidableEq

namespace Tables

/-- `conv_is_member`. -/
def isMember (T : Tables) (c : ℕ) (uid : ℤ) : Bool :=
  T.convs[c]?.any fun conv => conv.members.contains uid

/-- `conv_is_disbanded`. -/
def isDisbanded (T : Tables) (c : ℕ) : Bool := T.convs[c]?.any Conv.isDisbanded

/-- The conversation has the type `direct`. -/
def isDirect (T : Tables) (c : ℕ) : Bool := T.convs[c]?.any Conv.direct

/-- `conv_get_members`. -/
def getMembers (T : Tables) (c max : ℕ) : List ℤ :=
  match T.convs[c]? with
  | some conv => conv.members.take max
  | none => []

/-- `msg_get_editable_conv_id`. -/
def getEditableConvId (T : Tables) (id : ℕ) (uid : ℤ) : Option ℕ :=
  match T.msgs[id]? with
  | some m =>
      if m.sender = uid ∧ m.deleted = false ∧ m.editTarget = none then some m.conv else none
  | none => none

/-- `msg_soft_delete`. -/
def softDelete (T : Tables) (id : ℕ) (uid : ℤ) : Tables :=
  { T with msgs := T.msgs.modify id fun m => if m.sender = uid then { m with deleted := true } else m }

end Tables

/-- Where a request is: the database access that it makes next. -/
inductive Phase
  | member
  | disbanded
  | ratelimit
  | convType
  | convMembers
  /-- The pairs that are still to be looked up in `user_blocks`. -/
  | blocks (pairs : List (ℤ × ℤ))
  /-- The first attempt of an insertion that is repeated when the connection is lost, or the last. -/
  | insert (again : Bool)
  | editable
  | finished
  deriving DecidableEq, Repr

/-- A `send_message` or an `edit_message`, with the message it refers to.  `charged` records that a
token was taken for it; the code does not keep it. -/
structure Request where
  uid : ℤ
  conv : ℕ
  body : String
  ref : Option ℕ
  isEdit : Bool
  charged : Bool
  phase : Phase
  deriving DecidableEq, Repr

/-- The row of a request. -/
def Request.row (r : Request) : Message :=
  ⟨r.conv, r.uid, r.body, if r.isEdit then none else r.ref, if r.isEdit then r.ref else none, false⟩

/-- What becomes of a database access.  When the connection is lost, the row may be written. -/
inductive Outcome
  | done
  | failed
  | lost (written : Bool)
  deriving DecidableEq, Repr

/-- A row is written. -/
def Outcome.writes : Outcome → Bool
  | .done => true
  | .failed => false
  | .lost written => written

/-- The connection is lost. -/
def Outcome.isLost : Outcome → Bool
  | .lost _ => true
  | .done | .failed => false

/-- An insertion into `messages`. -/
def Tables.insert (T : Tables) (o : Outcome) (row : Message) : Tables :=
  if o.writes then { T with msgs := T.msgs ++ [row] } else T

/-- What `block_either` looks up for the members of a direct conversation, in this order. -/
def blockPairs (uid : ℤ) (members : List ℤ) : List (ℤ × ℤ) :=
  (members.filter (· ≠ uid)).flatMap fun v => [(uid, v), (v, uid)]

/-- One access of a request, and the request after it. -/
def advance (T : Tables) (o : Outcome) (r : Request) : Tables × Request :=
  match r.phase with
  -- `handle_send_message`
  | .member =>
      (T, { r with phase := if o = .done ∧ T.isMember r.conv r.uid then .disbanded else .finished })
  | .disbanded =>
      (T, { r with phase := if o = .done ∧ T.isDisbanded r.conv then .finished else .ratelimit })
  | .ratelimit =>
      match ratelimitCheck T.buckets T.now r.uid with
      | (.uncharged, buckets) => ({ T with buckets := buckets }, { r with phase := .convType })
      | (.charged, buckets) =>
          ({ T with buckets := buckets }, { r with charged := true, phase := .convType })
      | (.refused, buckets) => ({ T with buckets := buckets }, { r with phase := .finished })
  | .convType =>
      (T, { r with
        phase := if o = .done ∧ T.isDirect r.conv then .convMembers else .insert r.ref.isNone })
  | .convMembers =>
      let members := if o = .done then T.getMembers r.conv 2 else []
      (T, { r with phase := .blocks (blockPairs r.uid members) })
  | .blocks [] => (T, { r with phase := .insert r.ref.isNone })
  | .blocks (p :: pairs) =>
      (T, { r with phase := if o = .done ∧ p ∈ T.blocks then .finished else .blocks pairs })
  -- `handle_edit_message`
  | .editable =>
      match if o = .done then r.ref.bind fun id => T.getEditableConvId id r.uid else none with
      | some c => (T, { r with conv := c, phase := .insert true })
      | none => (T, { r with phase := .finished })
  -- `msg_insert`, `msg_insert_edit_event` and the insertion of a reply
  | .insert again =>
      (T.insert o r.row,
        { r with phase := if again ∧ o.isLost then .insert false else .finished })
  | .finished => (T, r)

/-- The tables and all requests so far. -/
structure State where
  tables : Tables
  requests : List Request
  deriving DecidableEq

/-- What happens next: requests, their accesses, and what other requests do to the tables. -/
inductive Event
  | send (uid : ℤ) (conv : ℕ) (body : String) (replyTo : Option ℕ)
  | edit (uid : ℤ) (id : ℕ) (body : String)
  | exec (i : ℕ) (o : Outcome)
  | createConv (direct : Bool) (members : List ℤ)
  | addMember (c : ℕ) (uid : ℤ)
  | removeMember (c : ℕ) (uid : ℤ)
  | block (blocker blocked : ℤ)
  | unblock (blocker blocked : ℤ)
  | delete (id : ℕ) (uid : ℤ)
  | time (now : ℤ)
  deriving DecidableEq

/-- `conv_add_member`: a member that is there already is ignored. -/
def Conv.addMember (conv : Conv) (uid : ℤ) : Conv :=
  if uid ∈ conv.members then conv else { conv with members := conv.members ++ [uid] }

/-- `conv_remove_member`. -/
def Conv.removeMember (conv : Conv) (uid : ℤ) : Conv :=
  { conv with members := conv.members.filter (· ≠ uid) }

/-- The tables after what other requests do. -/
def Tables.change (T : Tables) : Event → Tables
  | .createConv direct members => { T with convs := T.convs ++ [⟨direct, false, members⟩] }
  | .addMember c uid => { T with convs := T.convs.modify c fun conv => conv.addMember uid }
  | .removeMember c uid => { T with convs := T.convs.modify c fun conv => conv.removeMember uid }
  | .block u v => { T with blocks := (u, v) :: T.blocks }
  | .unblock u v => { T with blocks := T.blocks.filter (· ≠ (u, v)) }
  | .delete id uid => T.softDelete id uid
  | .time now => { T with now := now }
  | .send _ _ _ _ | .edit _ _ _ | .exec _ _ => T

/-- One event. -/
def step (s : State) (e : Event) : State :=
  match e with
  | .send uid conv body replyTo =>
      { s with requests := s.requests ++ [⟨uid, conv, body, replyTo, false, false, .member⟩] }
  | .edit uid id body =>
      { s with requests := s.requests ++ [⟨uid, 0, body, some id, true, false, .editable⟩] }
  | .exec i o =>
      match s.requests[i]? with
      | some r => ⟨(advance s.tables o r).1, s.requests.set i (advance s.tables o r).2⟩
      | none => s
  | _ => { s with tables := s.tables.change e }

/-! ### The policy -/

/-- Whichever pair of the sender and another member of a direct conversation is blocked, it is one of
`pairs`. -/
def BlockedOnly (T : Tables) (r : Request) (pairs : List (ℤ × ℤ)) : Prop :=
  ∀ conv ∈ T.convs[r.conv]?, conv.direct = true →
    ∀ p ∈ blockPairs r.uid conv.members, p ∈ T.blocks → p ∈ pairs

/-- The message that is referred to belongs to the conversation. -/
def RefOk (T : Tables) (conv : ℕ) (ref : Option ℕ) : Prop :=
  ∀ id ∈ ref, ∃ m ∈ T.msgs[id]?, m.conv = conv

/-- What holds when a row is stored: the sender is a member, the conversation is not disbanded, in a
direct conversation nobody blocks the other, a token was taken, and the message that is referred to
belongs to the conversation. -/
structure Policy (T : Tables) (r : Request) : Prop where
  member : T.isMember r.conv r.uid = true
  notDisbanded : T.isDisbanded r.conv = false
  blocks : BlockedOnly T r []
  charged : r.charged = true
  ref : RefOk T r.conv r.ref

/-- What is stored meets the policy. -/
def Obeys (s : State) : Event → Prop
  | .exec i o => ∀ r ∈ s.requests[i]?, (advance s.tables o r).1.msgs ≠ s.tables.msgs →
      Policy s.tables r
  | _ => True

/-! ### The condition -/

/-- The sender was found to be a member. -/
def Phase.pastMember : Phase → Bool
  | .disbanded | .ratelimit | .convType | .convMembers | .blocks _ | .insert _ => true
  | .member | .editable | .finished => false

/-- The conversation was not found disbanded. -/
def Phase.pastDisbanded : Phase → Bool
  | .ratelimit | .convType | .convMembers | .blocks _ | .insert _ => true
  | .member | .disbanded | .editable | .finished => false

/-- The rate limit let the request pass. -/
def Phase.pastRatelimit : Phase → Bool
  | .convType | .convMembers | .blocks _ | .insert _ => true
  | .member | .disbanded | .ratelimit | .editable | .finished => false

/-- The pairs that are still to be looked up, once the members are read. -/
def Phase.pending : Phase → Option (List (ℤ × ℤ))
  | .blocks pairs => some pairs
  | .insert _ => some []
  | .member | .disbanded | .ratelimit | .convType | .convMembers | .editable | .finished => none

/-- The condition on the next access of a request: a failed read hides nothing, there is a bucket for
the sender, and nothing is edited. -/
def PhaseOk (T : Tables) (o : Outcome) (r : Request) : Phase → Prop
  | .disbanded => o ≠ .done → T.isDisbanded r.conv = false
  | .ratelimit => 0 < r.uid ∧ rlSlot T.buckets T.now r.uid ≠ none
  | .convType => o ≠ .done → BlockedOnly T r []
  | .convMembers =>
      (o ≠ .done → BlockedOnly T r []) ∧
        ∀ conv ∈ T.convs[r.conv]?, conv.direct = true →
          ∀ p ∈ blockPairs r.uid (conv.members.drop 2), p ∉ T.blocks
  | .blocks (p :: _) => o ≠ .done → p ∉ T.blocks
  | .editable => o = .done → ∀ id ∈ r.ref, T.getEditableConvId id r.uid = none
  | .member | .blocks [] | .insert _ | .finished => True

/-- The condition on an event: a reply refers to a message of its conversation, and between a check and
the insertion the sender stays a member and no block comes up that was looked for already. -/
def StepOk (s : State) : Event → Prop
  | .send _ conv _ replyTo => RefOk s.tables conv replyTo
  | .exec i o => ∀ r ∈ s.requests[i]?, PhaseOk s.tables o r r.phase
  | .addMember c v => ∀ conv ∈ s.tables.convs[c]?, conv.direct = true → ∀ r ∈ s.requests,
      r.conv = c → r.phase.pending ≠ none → ∀ p ∈ blockPairs r.uid [v], p ∉ s.tables.blocks
  | .removeMember c u => ∀ r ∈ s.requests, r.conv = c → r.uid = u → r.phase.pastMember = false
  | .block u v => ∀ r ∈ s.requests, ∀ pairs ∈ r.phase.pending, ∀ conv ∈ s.tables.convs[r.conv]?,
      conv.direct = true → (u, v) ∈ blockPairs r.uid conv.members → (u, v) ∈ pairs
  | _ => True

/-- Tables of a running server, without requests. -/
def serving (T : Tables) : State := ⟨T, []⟩

/-! ### Evaluation -/

instance (T : Tables) (r : Request) (pairs : List (ℤ × ℤ)) : Decidable (BlockedOnly T r pairs) :=
  inferInstanceAs (Decidable (∀ conv ∈ T.convs[r.conv]?, _ →
    ∀ p ∈ blockPairs r.uid conv.members, _ → _))

instance (T : Tables) (conv : ℕ) (ref : Option ℕ) : Decidable (RefOk T conv ref) :=
  inferInstanceAs (Decidable (∀ id ∈ ref, ∃ m ∈ T.msgs[id]?, m.conv = conv))

theorem policy_iff {T : Tables} {r : Request} : Policy T r ↔ T.isMember r.conv r.uid = true ∧
    T.isDisbanded r.conv = false ∧ BlockedOnly T r [] ∧ r.charged = true ∧ RefOk T r.conv r.ref :=
  ⟨fun h => ⟨h.member, h.notDisbanded, h.blocks, h.charged, h.ref⟩,
    fun ⟨hm, hd, hb, hc, hr⟩ => ⟨hm, hd, hb, hc, hr⟩⟩

instance (T : Tables) (r : Request) : Decidable (Policy T r) := decidable_of_iff _ policy_iff.symm

instance (s : State) : (e : Event) → Decidable (Obeys s e)
  | .exec i _ => inferInstanceAs (Decidable (∀ r ∈ s.requests[i]?, _ → Policy s.tables r))
  | .send _ _ _ _ | .edit _ _ _ | .createConv _ _ | .addMember _ _ | .removeMember _ _ | .block _ _
  | .unblock _ _ | .delete _ _ | .time _ => .isTrue trivial

instance (T : Tables) (o : Outcome) (r : Request) : (phase : Phase) → Decidable (PhaseOk T o r phase)
  | .disbanded => inferInstanceAs (Decidable (_ → _))
  | .ratelimit => inferInstanceAs (Decidable (_ ∧ _))
  | .convType => inferInstanceAs (Decidable (_ → BlockedOnly T r []))
  | .convMembers => inferInstanceAs (Decidable ((_ → BlockedOnly T r []) ∧
      ∀ conv ∈ T.convs[r.conv]?, _ → ∀ p ∈ blockPairs r.uid (conv.members.drop 2), p ∉ T.blocks))
  | .blocks (_ :: _) => inferInstanceAs (Decidable (_ → _))
  | .editable => inferInstanceAs (Decidable (_ → ∀ id ∈ r.ref, _ = none))
  | .member | .blocks [] | .insert _ | .finished => .isTrue trivial

instance (s : State) : (e : Event) → Decidable (StepOk s e)
  | .send _ conv _ replyTo => inferInstanceAs (Decidable (RefOk s.tables conv replyTo))
  | .exec i o => inferInstanceAs (Decidable (∀ r ∈ s.requests[i]?, PhaseOk s.tables o r r.phase))
  | .addMember c v => inferInstanceAs (Decidable (∀ conv ∈ s.tables.convs[c]?, _ →
      ∀ r ∈ s.requests, _ → _ → ∀ p ∈ blockPairs r.uid [v], p ∉ s.tables.blocks))
  | .removeMember _ _ => inferInstanceAs (Decidable (∀ r ∈ s.requests, _ → _ → _))
  | .block u v => inferInstanceAs (Decidable (∀ r ∈ s.requests, ∀ pairs ∈ r.phase.pending,
      ∀ conv ∈ s.tables.convs[r.conv]?, _ → _ → (u, v) ∈ pairs))
  | .edit _ _ _ | .createConv _ _ | .unblock _ _ | .delete _ _ | .time _ => .isTrue trivial

/-! ### The buckets -/

section Buckets

variable {buckets : List Bucket} {now uid : ℤ} {b : Bucket}

/-- What a user can still send. -/
def tokensOf (buckets : List Bucket) (now uid : ℤ) : ℤ :=
  match rlSlot buckets now uid with
  | some b => (b.refill now).tokens
  | none => 0

theorem rlSlot_uid (h : rlSlot buckets now uid = some b) : b.uid = uid := by
  unfold rlSlot at h
  split at h
  · next hfind =>
    obtain rfl := Option.some.inj h
    simpa using List.find?_some hfind
  · split at h
    · obtain rfl := Option.some.inj h
      rfl
    · cases h

theorem refill_uid (b : Bucket) (now : ℤ) : (b.refill now).uid = b.uid := by
  unfold Bucket.refill
  split <;> rfl

/-- A bucket is found where it was put. -/
theorem rlSlot_putBucket (buckets : List Bucket) (b : Bucket) (now : ℤ) :
    rlSlot (putBucket buckets b) now b.uid = some b := by
  have hfind : (putBucket buckets b).find? (·.uid = b.uid) = some b := by
    unfold putBucket
    split
    · next hany =>
      induction buckets with
      | nil => simp at hany
      | cons b' buckets ih =>
        rw [List.map_cons]
        by_cases hb : b'.uid = b.uid
        · rw [if_pos hb, List.find?_cons_of_pos (by simp)]
        · rw [if_neg hb, List.find?_cons_of_neg (by simpa using hb)]
          refine ih ?_
          simpa [hb] using hany
    · next hany =>
      rw [List.find?_append, List.find?_eq_none.mpr (by simpa using hany)]
      simp
  unfold rlSlot
  rw [hfind]

/-- A refill just made changes nothing. -/
theorem refill_of_lt {b : Bucket} {now : ℤ} (h : ¬ 1 ≤ now - b.lastRefill) : b.refill now = b :=
  if_neg h

theorem refill_lastRefill (b : Bucket) (now : ℤ) : ¬ 1 ≤ now - (b.refill now).lastRefill := by
  unfold Bucket.refill
  split
  · simp
  · assumption

/-- **A charge** takes one of the tokens that the user has. -/
theorem ratelimitCheck_charged {buckets' : List Bucket}
    (h : ratelimitCheck buckets now uid = (.charged, buckets')) :
    0 < tokensOf buckets now uid ∧ tokensOf buckets' now uid = tokensOf buckets now uid - 1 := by
  unfold ratelimitCheck at h
  split at h
  · cases h
  · split at h
    · cases h
    · next b hslot =>
      have huid : (b.refill now).uid = uid := (refill_uid b now).trans (rlSlot_uid hslot)
      have htokens : tokensOf buckets now uid = (b.refill now).tokens := by
        unfold tokensOf
        rw [hslot]
      dsimp only at h
      split at h
      · next hpos =>
        obtain ⟨-, rfl⟩ := Prod.mk.inj h
        rw [htokens]
        refine ⟨hpos, ?_⟩
        set spent : Bucket := { b.refill now with tokens := (b.refill now).tokens - 1 }
        have hput : rlSlot (putBucket buckets spent) now uid = some spent := by
          have hput := rlSlot_putBucket buckets spent now
          rwa [show spent.uid = uid from huid] at hput
        unfold tokensOf
        rw [hput]
        have hspent : spent.refill now = spent := refill_of_lt (refill_lastRefill b now)
        dsimp only
        rw [hspent]
      · cases h

/-- With a slot for the user, whoever is let pass is charged. -/
theorem ratelimitCheck_ne_uncharged (hpos : 0 < uid) (hslot : rlSlot buckets now uid ≠ none) :
    (ratelimitCheck buckets now uid).1 ≠ .uncharged := by
  unfold ratelimitCheck
  rw [if_neg (by omega)]
  split
  · next hnone => exact absurd hnone hslot
  · dsimp only
    split <;> exact nofun

end Buckets

/-! ### What a request knows -/

/-- What the checks of a request have found out still holds. -/
structure Known (T : Tables) (r : Request) : Prop where
  member : r.phase.pastMember = true → T.isMember r.conv r.uid = true
  notDisbanded : r.phase.pastDisbanded = true → T.isDisbanded r.conv = false
  charged : r.phase.pastRatelimit = true → r.charged = true
  blocks : ∀ pairs ∈ r.phase.pending, BlockedOnly T r pairs
  ref : r.isEdit = false → RefOk T r.conv r.ref
  edit : r.isEdit = true → r.phase = .editable ∨ r.phase = .finished

variable {T T' : Tables} {r : Request}

/-- The tables change, and what is known stays true. -/
theorem Known.change (h : Known T r)
    (hmember : r.phase.pastMember = true → T.isMember r.conv r.uid = true →
      T'.isMember r.conv r.uid = true)
    (hdisbanded : r.phase.pastMember = true → T'.isDisbanded r.conv = T.isDisbanded r.conv)
    (hblocks : ∀ pairs ∈ r.phase.pending, BlockedOnly T r pairs → BlockedOnly T' r pairs)
    (href : RefOk T r.conv r.ref → RefOk T' r.conv r.ref) : Known T' r := by
  refine ⟨fun hp => hmember hp (h.member hp), fun hp => ?_, h.charged,
    fun pairs hp => hblocks pairs hp (h.blocks pairs hp), fun hedit => href (h.ref hedit), h.edit⟩
  have hpast : r.phase.pastMember = true := by
    revert hp
    cases r.phase <;> exact fun hp => by first | rfl | cases hp
  exact (hdisbanded hpast).trans (h.notDisbanded hp)

/-- A message keeps its conversation. -/
theorem RefOk.mono {conv : ℕ} {ref : Option ℕ} (h : RefOk T conv ref)
    (hmsgs : ∀ (id : ℕ) (m : Message), T.msgs[id]? = some m →
      ∃ m', T'.msgs[id]? = some m' ∧ m'.conv = m.conv) : RefOk T' conv ref := by
  intro id hid
  obtain ⟨m, hm, hconv⟩ := h id hid
  obtain ⟨m', hm', hsame⟩ := hmsgs id m hm
  exact ⟨m', hm', hsame.trans hconv⟩

/-- An access of another request stores a message at most. -/
theorem Known.later (h : Known T r) (hconvs : T'.convs = T.convs) (hblocks : T'.blocks = T.blocks)
    (hmsgs : ∀ (id : ℕ) (m : Message), T.msgs[id]? = some m → T'.msgs[id]? = some m) :
    Known T' r := by
  refine h.change (fun _ hm => ?_) (fun _ => ?_) (fun pairs _ hb => ?_) fun href => ?_
  · unfold Tables.isMember at hm ⊢
    rw [hconvs]
    exact hm
  · unfold Tables.isDisbanded
    rw [hconvs]
  · unfold BlockedOnly at hb ⊢
    rw [hconvs, hblocks]
    exact hb
  · exact href.mono fun id m hm => ⟨m, hmsgs id m hm, rfl⟩

/-! ### One access -/

/-- An access stores the row of its request, or no message. -/
theorem advance_tables (T : Tables) (o : Outcome) (r : Request) :
    (advance T o r).1.convs = T.convs ∧ (advance T o r).1.blocks = T.blocks ∧
      ((advance T o r).1.msgs = T.msgs ∨
        (∃ again, r.phase = .insert again) ∧ (advance T o r).1.msgs = T.msgs ++ [r.row]) := by
  unfold advance
  split
  · exact ⟨rfl, rfl, .inl rfl⟩
  · exact ⟨rfl, rfl, .inl rfl⟩
  · split <;> exact ⟨rfl, rfl, .inl rfl⟩
  · exact ⟨rfl, rfl, .inl rfl⟩
  · exact ⟨rfl, rfl, .inl rfl⟩
  · exact ⟨rfl, rfl, .inl rfl⟩
  · exact ⟨rfl, rfl, .inl rfl⟩
  · split <;> exact ⟨rfl, rfl, .inl rfl⟩
  · next again hphase =>
    dsimp only
    unfold Tables.insert
    split
    · exact ⟨rfl, rfl, .inr ⟨⟨again, hphase⟩, rfl⟩⟩
    · exact ⟨rfl, rfl, .inl rfl⟩
  · exact ⟨rfl, rfl, .inl rfl⟩

/-- Messages stay where they are. -/
theorem advance_msgs (T : Tables) (o : Outcome) (r : Request) (id : ℕ) (m : Message)
    (hm : T.msgs[id]? = some m) : (advance T o r).1.msgs[id]? = some m := by
  rcases (advance_tables T o r).2.2 with h | ⟨-, h⟩
  · rw [h, hm]
  · have hlt := (List.getElem?_eq_some_iff.mp hm).1
    rw [h, List.getElem?_append_left hlt, hm]

/-- What is stored meets the policy, when the checks still hold. -/
theorem Known.policy (h : Known T r) {again : Bool} (hphase : r.phase = .insert again) :
    Policy T r := by
  have hedit : r.isEdit = false := by
    by_contra hedit
    rcases h.edit (by simpa using hedit) with hp | hp <;> rw [hphase] at hp <;> cases hp
  exact ⟨h.member (by rw [hphase]; rfl), h.notDisbanded (by rw [hphase]; rfl),
    h.blocks [] (by rw [hphase]; rfl), h.charged (by rw [hphase]; rfl), h.ref hedit⟩

theorem pastMember_of_pastRatelimit {phase : Phase} (h : phase.pastRatelimit = true) :
    phase.pastMember = true ∧ phase.pastDisbanded = true := by
  cases phase <;> first | exact ⟨rfl, rfl⟩ | cases h

/-- A request that has passed a check is no edit. -/
theorem Known.send (h : Known T r) (hne : r.phase ≠ .editable) (hne' : r.phase ≠ .finished) :
    r.isEdit = false := by
  by_contra hedit
  exact (h.edit (by simpa using hedit)).elim hne hne'

theorem Known.finish (h : Known T r) : Known T { r with phase := .finished } :=
  ⟨nofun, nofun, nofun, nofun, h.ref, fun _ => .inr rfl⟩

/-- A request that the rate limit has let pass moves on. -/
theorem Known.passed (h : Known T r) (hrate : r.phase.pastRatelimit = true) {phase : Phase}
    (hblocks : ∀ pairs ∈ phase.pending, BlockedOnly T r pairs) :
    Known T { r with phase := phase } := by
  obtain ⟨hpast, hpast'⟩ := pastMember_of_pastRatelimit hrate
  have hsend : r.isEdit = false := by
    refine h.send ?_ ?_ <;> intro hphase <;> rw [hphase] at hrate <;> cases hrate
  refine ⟨fun _ => h.member hpast, fun _ => h.notDisbanded hpast', fun _ => h.charged hrate,
    hblocks, h.ref, fun hedit => ?_⟩
  rw [show r.isEdit = true from hedit] at hsend
  cases hsend

theorem blockPairs_append (uid : ℤ) (l l' : List ℤ) :
    blockPairs uid (l ++ l') = blockPairs uid l ++ blockPairs uid l' := by
  unfold blockPairs
  rw [List.filter_append, List.flatMap_append]

/-- What the type of the conversation says of its blocks. -/
theorem blockedOnly_of_not_direct (h : T.isDirect r.conv = false) (pairs : List (ℤ × ℤ)) :
    BlockedOnly T r pairs := by
  intro conv hconv hdirect
  unfold Tables.isDirect at h
  rw [Option.mem_def.mp hconv, Option.any_some, hdirect] at h
  cases h

/-- The first two members give all pairs that are blocked. -/
theorem blockedOnly_getMembers
    (h : ∀ conv ∈ T.convs[r.conv]?, conv.direct = true →
      ∀ p ∈ blockPairs r.uid (conv.members.drop 2), p ∉ T.blocks) :
    BlockedOnly T r (blockPairs r.uid (T.getMembers r.conv 2)) := by
  intro conv hconv hdirect p hp hblocked
  have hmembers : T.getMembers r.conv 2 = conv.members.take 2 := by
    unfold Tables.getMembers
    rw [Option.mem_def.mp hconv]
  rw [hmembers]
  rw [← List.take_append_drop 2 conv.members, blockPairs_append, List.mem_append] at hp
  exact hp.resolve_right fun hrest => h conv hconv hdirect p hrest hblocked

/-- A pair that is not blocked need not be looked up. -/
theorem BlockedOnly.tail {p : ℤ × ℤ} {pairs : List (ℤ × ℤ)} (h : BlockedOnly T r (p :: pairs))
    (hp : p ∉ T.blocks) : BlockedOnly T r pairs := by
  intro conv hconv hdirect q hq hblocked
  refine (List.mem_cons.mp (h conv hconv hdirect q hq hblocked)).resolve_left ?_
  rintro rfl
  exact hp hblocked

theorem BlockedOnly.of_nil (h : BlockedOnly T r []) (pairs : List (ℤ × ℤ)) :
    BlockedOnly T r pairs :=
  fun conv hconv hdirect p hp hblocked =>
    absurd (h conv hconv hdirect p hp hblocked) List.not_mem_nil

/-- **One access** that meets the condition: what the request knows is true. -/
theorem Known.advance (h : Known T r) {o : Outcome} (hok : PhaseOk T o r r.phase) :
    Known (advance T o r).1 (advance T o r).2 := by
  unfold SendPolicy.advance
  split
  · next hphase =>
    have hsend := h.send (by rw [hphase]; exact nofun) (by rw [hphase]; exact nofun)
    split
    · next hcond =>
      refine ⟨fun _ => hcond.2, nofun, nofun, nofun, h.ref, fun hedit => ?_⟩
      rw [show r.isEdit = true from hedit] at hsend
      cases hsend
    · exact h.finish
  · next hphase =>
    have hsend := h.send (by rw [hphase]; exact nofun) (by rw [hphase]; exact nofun)
    rw [hphase] at hok
    split
    · exact h.finish
    · next hcond =>
      have hdisbanded : T.isDisbanded r.conv = false := by
        by_cases hdone : o = .done
        · simpa [hdone] using hcond
        · exact hok hdone
      refine ⟨fun _ => h.member (by rw [hphase]; rfl), fun _ => hdisbanded, nofun, nofun, h.ref,
        fun hedit => ?_⟩
      rw [show r.isEdit = true from hedit] at hsend
      cases hsend
  · next hphase =>
    have hsend := h.send (by rw [hphase]; exact nofun) (by rw [hphase]; exact nofun)
    rw [hphase] at hok
    have hverdict := ratelimitCheck_ne_uncharged hok.1 hok.2
    split
    · next hcheck => exact absurd (by rw [hcheck]) hverdict
    · refine ⟨fun _ => h.member (by rw [hphase]; rfl), fun _ => h.notDisbanded (by rw [hphase]; rfl),
        fun _ => rfl, nofun, h.ref, fun hedit => ?_⟩
      rw [show r.isEdit = true from hedit] at hsend
      cases hsend
    · refine Known.finish ?_
      exact h.later rfl rfl fun _ _ hm => hm
  · next hphase =>
    rw [hphase] at hok
    refine h.passed (by rw [hphase]; rfl) fun pairs hp => ?_
    split at hp
    · cases hp
    · next hcond =>
      obtain rfl := Option.some.inj hp
      by_cases hdone : o = .done
      · exact blockedOnly_of_not_direct (by simpa [hdone] using hcond) []
      · exact hok hdone
  · next hphase =>
    rw [hphase] at hok
    refine h.passed (by rw [hphase]; rfl) fun pairs hp => ?_
    obtain rfl := Option.some.inj hp
    split
    · exact blockedOnly_getMembers hok.2
    · next hdone => exact (hok.1 hdone).of_nil _
  · next hphase =>
    exact h.passed (by rw [hphase]; rfl) fun pairs hp => h.blocks pairs (by rw [hphase]; exact hp)
  · next p pairs hphase =>
    have hblocks := h.blocks (p :: pairs) (by rw [hphase]; rfl)
    rw [hphase] at hok
    refine h.passed (by rw [hphase]; rfl) fun pairs' hp => ?_
    split at hp
    · cases hp
    · next hcond =>
      obtain rfl := Option.some.inj hp
      refine hblocks.tail ?_
      by_cases hdone : o = .done
      · exact fun hmem => hcond ⟨hdone, hmem⟩
      · exact hok hdone
  · next hphase =>
    rw [hphase] at hok
    split
    · next c hc =>
      -- nothing editable is found
      split at hc
      · next hdone =>
        obtain ⟨id, hid, hconv⟩ := Option.bind_eq_some_iff.mp hc
        rw [hok hdone id hid] at hconv
        cases hconv
      · cases hc
    · exact h.finish
  · next again hphase =>
    have hlater : Known (T.insert o r.row) r := by
      unfold Tables.insert
      split
      · refine h.later rfl rfl fun id m hm => ?_
        rw [List.getElem?_append_left (List.getElem?_eq_some_iff.mp hm).1, hm]
      · exact h
    have hrate : r.phase.pastRatelimit = true := by
      rw [hphase]
      rfl
    have hblocks := hlater.blocks [] (by rw [hphase]; rfl)
    refine hlater.passed hrate fun pairs hp => ?_
    split at hp
    · obtain rfl := Option.some.inj hp
      exact hblocks
    · cases hp
  · exact h

/-! ### What other requests do -/

theorem isMember_iff {c : ℕ} {uid : ℤ} :
    T.isMember c uid = true ↔ ∃ conv, T.convs[c]? = some conv ∧ uid ∈ conv.members := by
  unfold Tables.isMember
  simp only [Option.any_eq_true, List.contains_iff_mem]

theorem mem_blockPairs {uid : ℤ} {members : List ℤ} {p : ℤ × ℤ} :
    p ∈ blockPairs uid members ↔ ∃ v ∈ members, v ≠ uid ∧ (p = (uid, v) ∨ p = (v, uid)) := by
  unfold blockPairs
  simp only [List.mem_flatMap, List.mem_filter, decide_eq_true_eq, List.mem_cons,
    List.not_mem_nil, or_false, and_assoc]

/-- A conversation changes its members. -/
theorem Known.modifyConv (h : Known T r) {c : ℕ} {f : Conv → Conv}
    (hdirect : ∀ conv, (f conv).direct = conv.direct)
    (hdisbanded : ∀ conv, (f conv).isDisbanded = conv.isDisbanded)
    (hmember : r.conv = c → r.phase.pastMember = true → ∀ conv, r.uid ∈ conv.members →
      r.uid ∈ (f conv).members)
    (hblocks : r.conv = c → r.phase.pending ≠ none → ∀ conv ∈ T.convs[c]?, conv.direct = true →
      ∀ p ∈ blockPairs r.uid (f conv).members, p ∈ T.blocks →
        p ∈ blockPairs r.uid conv.members) :
    Known { T with convs := T.convs.modify c f } r := by
  by_cases hc : r.conv = c
  · refine h.change (fun hp hm => ?_) (fun _ => ?_) (fun pairs hp hb => ?_) fun href => href
    · obtain ⟨conv, hconv, hmem⟩ := isMember_iff.mp hm
      refine isMember_iff.mpr ⟨f conv, ?_, hmember hc hp conv hmem⟩
      rw [hc, List.getElem?_modify_eq, ← hc, hconv]
      rfl
    · unfold Tables.isDisbanded
      rw [hc, List.getElem?_modify_eq]
      cases T.convs[c]? with
      | none => rfl
      | some conv => exact hdisbanded conv
    · intro conv' hconv' hdir p hp' hblocked
      rw [hc, Option.mem_def, List.getElem?_modify_eq] at hconv'
      obtain ⟨conv, hconv, rfl⟩ := Option.map_eq_some_iff.mp hconv'
      rw [hdirect] at hdir
      refine hb conv (hc ▸ hconv) hdir p ?_ hblocked
      exact hblocks hc (by rw [Option.mem_def.mp hp]; exact nofun) conv hconv hdir p hp' hblocked
  · have hsame : (T.convs.modify c f)[r.conv]? = T.convs[r.conv]? :=
      List.getElem?_modify_ne f T.convs (Ne.symm hc)
    refine h.change (fun _ hm => ?_) (fun _ => ?_) (fun pairs _ hb => ?_) fun href => href
    · unfold Tables.isMember at hm ⊢
      dsimp only
      rw [hsame]
      exact hm
    · unfold Tables.isDisbanded
      dsimp only
      rw [hsame]
    · unfold BlockedOnly at hb ⊢
      dsimp only
      rw [hsame]
      exact hb

/-- **A change by another request** that meets the condition. -/
theorem Known.other (h : Known T r) {requests : List Request} (hr : r ∈ requests) {e : Event}
    (hok : StepOk ⟨T, requests⟩ e) : Known (T.change e) r := by
  cases e with
  | send _ _ _ _ | edit _ _ _ | exec _ _ => exact h
  | createConv direct members =>
    have hconv : r.phase.pastMember = true →
        (T.convs ++ [⟨direct, false, members⟩])[r.conv]? = T.convs[r.conv]? := by
      intro hp
      obtain ⟨conv, hconv, -⟩ := isMember_iff.mp (h.member hp)
      exact List.getElem?_append_left (List.getElem?_eq_some_iff.mp hconv).1
    have hpast : ∀ {pairs}, pairs ∈ r.phase.pending → r.phase.pastMember = true := by
      intro pairs
      cases r.phase <;> exact fun hp => by first | rfl | cases hp
    refine h.change (fun hp hm => ?_) (fun hp => ?_) (fun pairs hp hb => ?_) fun href => href
    · unfold Tables.isMember at hm ⊢
      rw [← hconv hp] at hm
      exact hm
    · unfold Tables.isDisbanded
      rw [← hconv hp]
      rfl
    · unfold BlockedOnly at hb ⊢
      rw [← hconv (hpast hp)] at hb
      exact hb
  | addMember c v =>
    refine h.modifyConv (fun conv => ?_) (fun conv => ?_) (fun _ _ conv hmem => ?_)
      fun hc hp conv hconv hdir p hp' hblocked => ?_
    · unfold Conv.addMember
      split <;> rfl
    · unfold Conv.addMember
      split <;> rfl
    · unfold Conv.addMember
      split
      · exact hmem
      · exact List.mem_append_left _ hmem
    · unfold Conv.addMember at hp'
      split at hp'
      · exact hp'
      · rw [blockPairs_append, List.mem_append] at hp'
        refine hp'.resolve_right fun hnew => ?_
        exact hok conv hconv hdir r hr hc hp p hnew hblocked
  | removeMember c u =>
    refine h.modifyConv (fun _ => rfl) (fun _ => rfl) (fun hc hp conv hmem => ?_)
      fun _ _ conv _ _ p hp' _ => ?_
    · refine List.mem_filter.mpr ⟨hmem, ?_⟩
      rw [decide_eq_true_eq]
      intro hu
      have hnot := hok r hr hc hu
      rw [hp] at hnot
      cases hnot
    · obtain ⟨v, hv, hrest⟩ := mem_blockPairs.mp hp'
      exact mem_blockPairs.mpr ⟨v, (List.mem_filter.mp hv).1, hrest⟩
  | block u v =>
    refine h.change (fun _ hm => hm) (fun _ => rfl) (fun pairs hp hb => ?_) fun href => href
    intro conv hconv hdir p hp' hblocked
    rcases List.mem_cons.mp hblocked with rfl | hblocked
    · exact hok r hr pairs hp conv hconv hdir hp'
    · exact hb conv hconv hdir p hp' hblocked
  | unblock u v =>
    refine h.change (fun _ hm => hm) (fun _ => rfl) (fun pairs _ hb => ?_) fun href => href
    exact fun conv hconv hdir p hp' hblocked =>
      hb conv hconv hdir p hp' (List.mem_filter.mp hblocked).1
  | delete id uid =>
    refine h.change (fun _ hm => hm) (fun _ => rfl) (fun _ _ hb => hb) fun href => ?_
    refine href.mono fun k m hm => ?_
    refine ⟨_, (List.getElem?_modify _ id T.msgs k).trans (by rw [hm]; rfl), ?_⟩
    dsimp only
    repeat' split
    all_goals rfl
  | time now => exact h.later rfl rfl fun _ _ hm => hm

/-! ### Every run -/

/-- What all requests know is true. -/
def Sound (s : State) : Prop := ∀ r ∈ s.requests, Known s.tables r

theorem Sound.step {s : State} (h : Sound s) {e : Event} (hok : StepOk s e) :
    Sound (step s e) := by
  cases e with
  | send uid conv body replyTo =>
    intro r hr
    rcases List.mem_append.mp hr with hr | hr
    · exact h r hr
    · obtain rfl := List.mem_singleton.mp hr
      exact ⟨nofun, nofun, nofun, nofun, fun _ => hok, nofun⟩
  | edit uid id body =>
    intro r hr
    rcases List.mem_append.mp hr with hr | hr
    · exact h r hr
    · obtain rfl := List.mem_singleton.mp hr
      exact ⟨nofun, nofun, nofun, nofun, nofun, fun _ => .inl rfl⟩
  | exec i o =>
    dsimp only [SendPolicy.step]
    split
    · next r₀ hr₀ =>
      intro r hr
      rcases List.mem_or_eq_of_mem_set hr with hr | rfl
      · obtain ⟨hconvs, hblocks, -⟩ := advance_tables s.tables o r₀
        exact (h r hr).later hconvs hblocks (advance_msgs s.tables o r₀)
      · exact (h r₀ (List.mem_of_getElem? hr₀)).advance (hok r₀ hr₀)
    · exact h
  | createConv _ _ | addMember _ _ | removeMember _ _ | block _ _ | unblock _ _ | delete _ _
  | time _ => exact fun r hr => (h r hr).other hr hok

theorem Sound.obeys {s : State} (h : Sound s) (e : Event) : Obeys s e := by
  cases e with
  | exec i o =>
    intro r hr hmsgs
    obtain ⟨again, hphase⟩ := ((advance_tables s.tables o r).2.2.resolve_left hmsgs).1
    exact (h r (List.mem_of_getElem? hr)).policy hphase
  | send _ _ _ _ | edit _ _ _ | createConv _ _ | addMember _ _ | removeMember _ _ | block _ _
  | unblock _ _ | delete _ _ | time _ => trivial

/-- **Whatever is stored meets the policy** in every run, from any tables, whose steps meet the
condition. -/
theorem stored_messages_obey (T : Tables) (es : List Event)
    (hok : Runs.Each step StepOk (serving T) es) : Runs.Each step Obeys (serving T) es :=
  Runs.each_of_each (fun _ _ hs he => Sound.step hs he) (fun _ e hs _ => hs.obeys e)
    (fun _ hr => nomatch hr) hok

/-- A direct conversation with a message of 2. -/
def directTables : Tables := ⟨[⟨true, false, [1, 2]⟩], [], [⟨0, 2, "S3DR:a", none, none, false⟩], [], 0⟩

/-- 1 replies to 2, while 2 blocks a third user. -/
def replyRun : List Event :=
  [.send 1 0 "S3DR:b" (some 0), .exec 0 .done, .exec 0 .done, .exec 0 .done, .exec 0 .done,
    .exec 0 .done, .block 2 3, .exec 0 .done, .exec 0 .done, .exec 0 .done, .exec 0 .done]

theorem stored_messages_obey_replyRun : Runs.Each step Obeys (serving directTables) replyRun := by
  refine stored_messages_obey directTables replyRun ?_
  simp only [replyRun, Runs.each_cons, Runs.each_nil, and_true]
  refine ⟨?_, ?_, ?_, ?_, ?_, ?_, ?_, ?_, ?_, ?_, ?_⟩
  all_goals decide +kernel

/-- A group of 1 and 2. -/
def groupTables : Tables := ⟨[⟨false, false, [1, 2]⟩], [], [], [], 0⟩

/-- 1 sends a message, leaves the group, and edits the message. -/
def leaveAndEdit : List Event :=
  [.send 1 0 "S3MLS:a" none, .exec 0 .done, .exec 0 .done, .exec 0 .done, .exec 0 .done, .exec 0 .done,
    .removeMember 0 1, .edit 1 0 "S3MLS:b", .exec 1 .done, .exec 1 .done]

/-- The edit of a former member is stored, and nothing is charged for it. -/
theorem edit_of_former_member_stored :
    ¬ ∀ (T : Tables) (es : List Event), Runs.Each step Obeys (serving T) es := by
  intro hall
  have hrun := hall groupTables leaveAndEdit
  simp only [leaveAndEdit, Runs.each_cons, Runs.each_nil, and_true] at hrun
  obtain ⟨-, -, -, -, -, -, -, -, -, hlast⟩ := hrun
  revert hlast
  decide +kernel

end SecChat.SendPolicy
