import SecChat.Library.CText
import SecChat.Library.Runs

/-!
# What a member has not read (`services/conv_pref_service.c`, `handle_get_inbox`)

Of each member a conversation keeps one number, `last_read_message_id`, and the inbox counts the messages of
others beyond it. `mark_read` asks for the newest visible message up to the one it is given, and then moves
the number there; other requests come in between.

* `visible`, `maxVisibleMessageId`, `unreadCount`: the conditions of the statements;
* `State`, `step`: a conversation and one of its users, with a flag for each message: it arrived, and no
  `mark_read` has covered it yet;
* `Agree`, `unreadCount_eq_of_agree`: the number says what the flags say;
* `agree_iff`: in a run this holds exactly as long as no message comes late;
* `agree_of_ordered`: it holds if messages come in the order of their ids.

Whether a body counts (`body LIKE 'S3DR:%' OR ...`) is a parameter, as the collation decides it.
-/

namespace SecChat.ReadMarks

open CText Runs

/-- A row of `messages`. -/
structure Message where
  id : ℕ
  sender : ℤ
  sentAt : ℤ
  body : Text
  deleted : Bool
  deriving DecidableEq

/-- The row of the user in `conversation_members`. -/
structure Member where
  joinedAt : ℤ
  lastReadMessageId : ℕ
  forceUnread : Bool
  deriving DecidableEq

/-- A `mark_read` between its two statements: what it will write, and the messages it covers. -/
structure Mark where
  readId : ℕ
  covered : List ℕ
  deriving DecidableEq

/-- The messages, the user's row, the requests under way on the connections `K`, and the messages that
arrived and were not covered yet. -/
structure State (K : Type) where
  rows : List Message
  member : Option Member
  marks : K → Option Mark
  flags : ℕ → Bool

/-- `insert`: a message is committed; `delete`: it is marked as deleted, by its sender or by the sweep;
`select` and `update`: the statements of a `mark_read` up to a message, or of all for `0`; `leave` and
`join`: the row of the user is deleted and inserted. The flags tell whether the database answered. -/
inductive Event (K : Type)
  | insert (row : Message)
  | delete (id : ℕ)
  | markUnread
  | select (k : K) (requested : ℕ) (answered : Bool)
  | update (k : K) (executed : Bool)
  | leave
  | join (now : ℤ)

variable (counts : Text → Bool) (isGroup : Bool) (me : ℤ)

/-- `deleted_at IS NULL AND (c.type!='group' OR sent_at >= joined_at) AND (body LIKE ...)`. -/
def visible (joinedAt : ℤ) (r : Message) : Bool :=
  r.deleted = false ∧ (isGroup = false ∨ joinedAt ≤ r.sentAt) ∧ counts r.body = true

/-- The messages that `max_visible_message_id` looks at. -/
def covered (joinedAt : ℤ) (upperBound : ℕ) (rows : List Message) : List ℕ :=
  (rows.filter fun r => visible counts isGroup joinedAt r ∧ (upperBound = 0 ∨ r.id ≤ upperBound)).map
    Message.id

/-- `max_visible_message_id`: `COALESCE(MAX(m.id),0)`. -/
def maxVisibleMessageId (joinedAt : ℤ) (upperBound : ℕ) (rows : List Message) : ℕ :=
  (covered counts isGroup joinedAt upperBound rows).foldr max 0

/-- A visible message of somebody else. -/
def Concerns (joinedAt : ℤ) (r : Message) : Prop :=
  visible counts isGroup joinedAt r = true ∧ r.sender ≠ me

instance (joinedAt : ℤ) : DecidablePred (Concerns counts isGroup me joinedAt) := fun r =>
  inferInstanceAs (Decidable (visible counts isGroup joinedAt r = true ∧ r.sender ≠ me))

/-- `unread_count` of the inbox. -/
def unreadCount (m : Member) (rows : List Message) : ℕ :=
  (rows.filter fun r => Concerns counts isGroup me m.joinedAt r ∧ m.lastReadMessageId < r.id).length

/-- What `handle_mark_read` writes. -/
def markRead (m : Member) (readId : ℕ) : Member :=
  { m with
    lastReadMessageId := if 0 < readId then max m.lastReadMessageId readId else m.lastReadMessageId
    forceUnread := false }

variable {K : Type} [DecidableEq K]

/-- One event. What cannot happen leaves the state. -/
def step (σ : State K) : Event K → State K
  | .insert row =>
      if row.id = 0 ∨ row.id ∈ σ.rows.map Message.id then σ
      else
        { σ with
          rows := σ.rows ++ [row]
          flags := Function.update σ.flags row.id
            (σ.member.any fun m => Concerns counts isGroup me m.joinedAt row) }
  | .delete id => { σ with rows := σ.rows.map fun r => if r.id = id then { r with deleted := true } else r }
  | .markUnread => { σ with member := σ.member.map fun m => { m with forceUnread := true } }
  | .select k requested answered =>
      match σ.member with
      | none => σ
      | some m =>
          { σ with
            marks := Function.update σ.marks k (some
              (if answered then
                ⟨maxVisibleMessageId counts isGroup m.joinedAt requested σ.rows,
                  covered counts isGroup m.joinedAt requested σ.rows⟩
              else ⟨0, []⟩)) }
  | .update k executed =>
      match σ.marks k with
      | none => σ
      | some mark =>
          if executed then
            { σ with
              marks := Function.update σ.marks k none
              member := σ.member.map fun m => markRead m mark.readId
              flags := fun i => σ.flags i ∧ i ∉ mark.covered }
          else { σ with marks := Function.update σ.marks k none }
  | .leave => { σ with member := none }
  | .join now =>
      match σ.member with
      | some _ => σ
      | none =>
          { σ with
            member := some ⟨now / 1000 * 1000, 0, false⟩
            flags := fun i => σ.rows.any fun r => r.id = i ∧ Concerns counts isGroup me (now / 1000 * 1000) r }

/-- An empty conversation that the user is in since `joinedAt`. -/
def start (K : Type) (joinedAt : ℤ) : State K := ⟨[], some ⟨joinedAt, 0, false⟩, fun _ => none, fun _ => false⟩

/-- The number says of each visible message of somebody else what its flag says. -/
def Agree (σ : State K) : Prop :=
  ∀ m, σ.member = some m → ∀ r ∈ σ.rows, Concerns counts isGroup me m.joinedAt r →
    (m.lastReadMessageId < r.id ↔ σ.flags r.id = true)

/-- A message comes late: below the number already, or below the one that a `mark_read` writes which did
not see it. -/
def Late (σ : State K) : Event K → Prop
  | .insert row => 0 < row.id ∧ row.id ∉ σ.rows.map Message.id ∧
      ∃ m, σ.member = some m ∧ Concerns counts isGroup me m.joinedAt row ∧ row.id ≤ m.lastReadMessageId
  | .update k executed => executed = true ∧ ∃ m mark, σ.member = some m ∧ σ.marks k = some mark ∧
      ∃ r ∈ σ.rows, Concerns counts isGroup me m.joinedAt r ∧ m.lastReadMessageId < r.id ∧
        r.id ≤ mark.readId ∧ r.id ∉ mark.covered
  | _ => False

variable {counts isGroup me} {σ : State K}

omit [DecidableEq K] in
/-- Under agreement the inbox counts the flags. -/
theorem unreadCount_eq_of_agree (h : Agree counts isGroup me σ) {m : Member} (hm : σ.member = some m) :
    unreadCount counts isGroup me m σ.rows =
      (σ.rows.filter fun r => Concerns counts isGroup me m.joinedAt r ∧ σ.flags r.id = true).length := by
  rw [unreadCount]
  refine congrArg List.length (List.filter_congr fun r hr => ?_)
  rw [decide_eq_decide]
  exact and_congr_right fun hr' => h m hm r hr hr'

/-! ### Steps -/

/-- Ids are positive, and what a request covers is not beyond what it writes. -/
structure Inv (σ : State K) : Prop where
  positive : ∀ r ∈ σ.rows, 0 < r.id
  marks : ∀ k mark, σ.marks k = some mark → ∀ i ∈ mark.covered, i ≤ mark.readId

theorem le_maxVisibleMessageId {joinedAt : ℤ} {upper i : ℕ} {rows : List Message}
    (h : i ∈ covered counts isGroup joinedAt upper rows) :
    i ≤ maxVisibleMessageId counts isGroup joinedAt upper rows :=
  List.le_max_of_le h le_rfl

theorem lastReadMessageId_markRead (m : Member) (readId : ℕ) :
    (markRead m readId).lastReadMessageId = max m.lastReadMessageId readId := by
  rw [markRead]
  split
  next => rfl
  next hzero => rw [Nat.eq_zero_of_not_pos hzero, Nat.max_zero]

theorem step_inv (σ : State K) (e : Event K) (h : Inv σ) : Inv (step counts isGroup me σ e) := by
  cases e with
  | insert row =>
    rw [step]
    split
    next => exact h
    next hnew =>
      refine ⟨fun r hr => ?_, h.marks⟩
      rcases List.mem_append.mp hr with hr | hr
      · exact h.positive r hr
      · obtain rfl := List.mem_singleton.mp hr
        exact Nat.pos_of_ne_zero fun hzero => hnew (Or.inl hzero)
  | delete id =>
    refine ⟨fun r' hr' => ?_, h.marks⟩
    obtain ⟨r, hr, rfl⟩ := List.mem_map.mp hr'
    split <;> exact h.positive r hr
  | markUnread => exact ⟨h.positive, h.marks⟩
  | select k requested answered =>
    cases hm : σ.member with
    | none =>
      simp only [step, hm]
      exact h
    | some m =>
      simp only [step, hm]
      refine ⟨h.positive, fun j mark hj i hi => ?_⟩
      replace hj : Function.update σ.marks k (some
        (if answered then
          ⟨maxVisibleMessageId counts isGroup m.joinedAt requested σ.rows,
            covered counts isGroup m.joinedAt requested σ.rows⟩
        else ⟨0, []⟩)) j = some mark := hj
      by_cases hjk : j = k
      · subst hjk
        rw [Function.update_self] at hj
        obtain rfl := Option.some.inj hj
        cases answered with
        | false => cases hi
        | true => exact le_maxVisibleMessageId hi
      · rw [Function.update_of_ne hjk] at hj
        exact h.marks j mark hj i hi
  | update k executed =>
    cases hk : σ.marks k with
    | none =>
      simp only [step, hk]
      exact h
    | some mark =>
      have hmarks : ∀ j mark, Function.update σ.marks k none j = some mark →
          ∀ i ∈ mark.covered, i ≤ mark.readId := by
        intro j mark hj
        by_cases hjk : j = k
        · subst hjk
          rw [Function.update_self] at hj
          cases hj
        · rw [Function.update_of_ne hjk] at hj
          exact h.marks j mark hj
      simp only [step, hk]
      split <;> exact ⟨h.positive, hmarks⟩
  | leave => exact ⟨h.positive, h.marks⟩
  | join now =>
    cases hm : σ.member <;> simp only [step, hm]
    case none => exact ⟨h.positive, h.marks⟩
    case some => exact h

/-- A message that is committed agrees unless it comes late. -/
theorem agree_insert_iff {row : Message} (h : Agree counts isGroup me σ) :
    Agree counts isGroup me (step counts isGroup me σ (.insert row)) ↔
      ¬ Late counts isGroup me σ (.insert row) := by
  by_cases hnew : row.id = 0 ∨ row.id ∈ σ.rows.map Message.id
  · rw [step, if_pos hnew]
    refine iff_of_true h ?_
    rintro ⟨hpos, hfresh, -⟩
    exact hnew.elim hpos.ne' hfresh
  · rw [step, if_neg hnew]
    obtain ⟨hzero, hfresh⟩ := not_or.mp hnew
    constructor
    · rintro hagree ⟨-, -, m, hm, hconcerns, hle⟩
      have hrow := hagree m hm row (by simp) hconcerns
      refine hle.not_gt (hrow.mpr ?_)
      show Function.update σ.flags row.id _ row.id = true
      rw [Function.update_self, hm]
      simpa using hconcerns
    · intro hlate m hm r hr hconcerns
      replace hm : σ.member = some m := hm
      show m.lastReadMessageId < r.id ↔ Function.update σ.flags row.id _ r.id = true
      rcases List.mem_append.mp hr with hr | hr
      · have hne : r.id ≠ row.id := fun heq => hfresh (heq ▸ List.mem_map_of_mem hr)
        rw [Function.update_of_ne hne]
        exact h m hm r hr hconcerns
      · obtain rfl := List.mem_singleton.mp hr
        rw [Function.update_self, hm]
        refine iff_of_true ?_ (by simpa using hconcerns)
        exact Nat.lt_of_not_le fun hle =>
          hlate ⟨Nat.pos_of_ne_zero hzero, hfresh, m, hm, hconcerns, hle⟩

/-- A `mark_read` agrees unless it writes beyond a message that it did not see. -/
theorem agree_update_iff {k : K} {executed : Bool} (h : Agree counts isGroup me σ) (hinv : Inv σ) :
    Agree counts isGroup me (step counts isGroup me σ (.update k executed)) ↔
      ¬ Late counts isGroup me σ (.update k executed) := by
  cases hk : σ.marks k with
  | none =>
    simp only [step, hk]
    refine iff_of_true h ?_
    rintro ⟨-, m, mark, -, hmark, -⟩
    rw [hk] at hmark
    cases hmark
  | some mark =>
    cases executed with
    | false =>
      simp only [step, hk]
      exact iff_of_true h fun hlate => by simpa using hlate.1
    | true =>
      simp only [step, hk]
      constructor
      · rintro hagree ⟨-, m, mark', hm, hmark, r, hr, hconcerns, hlast, hread, huncovered⟩
        obtain rfl : mark = mark' := Option.some.inj (hk.symm.trans hmark)
        have hrow := hagree (markRead m mark.readId) (by simp [hm]) r hr hconcerns
        rw [lastReadMessageId_markRead] at hrow
        have hflag : σ.flags r.id = true := (h m hm r hr hconcerns).mp hlast
        have hlt := hrow.mpr (by simp [hflag, huncovered])
        exact hread.not_gt ((le_max_right ..).trans_lt hlt)
      · intro hlate m' hm' r hr hconcerns
        obtain ⟨m, hm, rfl⟩ := Option.map_eq_some_iff.mp hm'
        have hold := h m hm r hr hconcerns
        rw [lastReadMessageId_markRead, max_lt_iff, hold]
        show _ ↔ decide (σ.flags r.id = true ∧ r.id ∉ mark.covered) = true
        rw [decide_eq_true_iff]
        refine and_congr_right fun hflag => ?_
        constructor
        · exact fun hread hcovered => (hinv.marks k mark hk r.id hcovered).not_gt hread
        · exact fun huncovered => Nat.lt_of_not_le fun hread =>
            hlate ⟨rfl, m, mark, hm, hk, r, hr, hconcerns, hold.mpr hflag, hread, huncovered⟩

theorem agree_step_iff (σ : State K) (e : Event K) (h : Agree counts isGroup me σ) (hinv : Inv σ) :
    Agree counts isGroup me (step counts isGroup me σ e) ↔ ¬ Late counts isGroup me σ e := by
  cases e with
  | insert row => exact agree_insert_iff h
  | delete id =>
    refine iff_of_true ?_ fun hlate => hlate
    intro m hm r' hr' hconcerns
    obtain ⟨r, hr, rfl⟩ := List.mem_map.mp hr'
    by_cases hid : r.id = id
    · rw [if_pos hid] at hconcerns
      exact absurd hconcerns.1 (by simp [visible])
    · rw [if_neg hid] at hconcerns ⊢
      exact h m hm r hr hconcerns
  | markUnread =>
    refine iff_of_true ?_ fun hlate => hlate
    intro m' hm' r hr hconcerns
    obtain ⟨m, hm, rfl⟩ := Option.map_eq_some_iff.mp hm'
    exact h m hm r hr hconcerns
  | select k requested answered =>
    refine iff_of_true ?_ fun hlate => hlate
    cases hm : σ.member <;> simp only [step, hm]
    case none => exact h
    case some => exact fun m' hm' r hr hconcerns => h m' (hm.trans hm') r hr hconcerns
  | update k executed => exact agree_update_iff h hinv
  | leave => exact iff_of_true (fun m hm => by cases hm) fun hlate => hlate
  | join now =>
    refine iff_of_true ?_ fun hlate => hlate
    cases hm : σ.member <;> simp only [step, hm]
    case some => exact h
    case none =>
      intro m' hm' r hr hconcerns
      obtain rfl := Option.some.inj hm'
      refine iff_of_true (hinv.positive r hr) (List.any_eq_true.mpr ⟨r, hr, ?_⟩)
      exact decide_eq_true ⟨rfl, hconcerns⟩

/-! ### Runs -/

omit [DecidableEq K] in
theorem inv_start (joinedAt : ℤ) : Inv (start K joinedAt) :=
  ⟨fun r hr => (by cases hr), fun k mark hk => (by cases hk)⟩

omit [DecidableEq K] in
theorem agree_start (joinedAt : ℤ) : Agree counts isGroup me (start K joinedAt) :=
  fun m _ r hr => by cases hr

/-- **One number for all messages.** In every run the number says of each visible message of somebody else
whether it is unread, exactly as long as no message comes late. -/
theorem agree_iff (counts : Text → Bool) (isGroup : Bool) (me : ℤ) (joinedAt : ℤ) (es : List (Event K)) :
    Always (step counts isGroup me) (Agree counts isGroup me) (start K joinedAt) es ↔
      Each (step counts isGroup me) (fun σ e => ¬ Late counts isGroup me σ e) (start K joinedAt) es :=
  always_iff_each_of_inv (P := fun σ => Agree counts isGroup me σ ∧ Inv σ) (fun _ h => h.1)
    (fun σ e h hlate => ⟨(agree_step_iff σ e h.1 h.2).mpr hlate, step_inv σ e h.2⟩)
    (fun σ e h hagree => (agree_step_iff σ e h.1 h.2).mp hagree) ⟨agree_start joinedAt, inv_start joinedAt⟩

/-- Messages are committed in the order of their ids, and the user does not come back while a `mark_read` is
under way. -/
def Ordered (σ : State K) : Event K → Prop
  | .insert row => ∀ r ∈ σ.rows, r.id < row.id
  | .join _ => ∀ k, σ.marks k = none
  | _ => True

/-- The number and what requests will write are not beyond the messages there are, and a request covers all
that it will write over. -/
structure Tracked (counts : Text → Bool) (isGroup : Bool) (σ : State K) : Prop where
  last : ∀ m, σ.member = some m → 0 < m.lastReadMessageId → ∃ r ∈ σ.rows, m.lastReadMessageId ≤ r.id
  mark : ∀ k mark, σ.marks k = some mark → 0 < mark.readId → ∃ r ∈ σ.rows, mark.readId ≤ r.id
  covers : ∀ k mark, σ.marks k = some mark → ∀ m, σ.member = some m → ∀ r ∈ σ.rows,
    visible counts isGroup m.joinedAt r = true → r.id ≤ mark.readId → r.id ∈ mark.covered

omit [DecidableEq K] in
theorem tracked_start (joinedAt : ℤ) : Tracked counts isGroup (start K joinedAt) := by
  refine ⟨fun m hm hpos => ?_, fun k mark hk => (by cases hk), fun k mark hk => (by cases hk)⟩
  obtain rfl := Option.some.inj hm
  exact absurd hpos (lt_irrefl 0)

/-- The greatest of some numbers is one of them. -/
theorem foldr_max_mem {l : List ℕ} (h : 0 < l.foldr max 0) : l.foldr max 0 ∈ l := by
  induction l with
  | nil => exact absurd h (lt_irrefl 0)
  | cons i l ih =>
    rw [List.foldr_cons] at h ⊢
    rcases le_total i (l.foldr max 0) with hle | hle
    · rw [max_eq_right hle] at h ⊢
      exact List.mem_cons_of_mem _ (ih h)
    · rw [max_eq_left hle]
      exact List.mem_cons_self

theorem mem_covered {joinedAt : ℤ} {upper i : ℕ} {rows : List Message} :
    i ∈ covered counts isGroup joinedAt upper rows ↔
      ∃ r ∈ rows, visible counts isGroup joinedAt r = true ∧ (upper = 0 ∨ r.id ≤ upper) ∧ r.id = i := by
  rw [covered, List.mem_map]
  constructor
  · rintro ⟨r, hr, rfl⟩
    obtain ⟨hmem, hcond⟩ := List.mem_filter.mp hr
    rw [decide_eq_true_iff] at hcond
    exact ⟨r, hmem, hcond.1, hcond.2, rfl⟩
  · rintro ⟨r, hmem, hvisible, hupper, rfl⟩
    exact ⟨r, List.mem_filter.mpr ⟨hmem, decide_eq_true ⟨hvisible, hupper⟩⟩, rfl⟩

/-- What `SELECT MAX` finds is a visible message, and below it nothing visible is left out. -/
theorem maxVisible_covers {joinedAt : ℤ} {upper : ℕ} {rows : List Message} :
    (0 < maxVisibleMessageId counts isGroup joinedAt upper rows →
      ∃ r ∈ rows, maxVisibleMessageId counts isGroup joinedAt upper rows ≤ r.id) ∧
    ∀ r ∈ rows, 0 < r.id → visible counts isGroup joinedAt r = true →
      r.id ≤ maxVisibleMessageId counts isGroup joinedAt upper rows →
        r.id ∈ covered counts isGroup joinedAt upper rows := by
  have hmem : 0 < maxVisibleMessageId counts isGroup joinedAt upper rows →
      ∃ r ∈ rows, visible counts isGroup joinedAt r = true ∧ (upper = 0 ∨ r.id ≤ upper) ∧
        r.id = maxVisibleMessageId counts isGroup joinedAt upper rows :=
    fun h => mem_covered.mp (foldr_max_mem h)
  constructor
  · intro h
    obtain ⟨r, hr, -, -, hid⟩ := hmem h
    exact ⟨r, hr, hid.ge⟩
  · intro r hr hpos hvisible hle
    obtain ⟨top, -, -, hupper, htop⟩ := hmem (hpos.trans_le hle)
    exact mem_covered.mpr ⟨r, hr, hvisible, hupper.imp id fun h => (hle.trans htop.ge).trans h, rfl⟩

/-- A pending request is another one, or the one that is new. -/
theorem marks_update {marks : K → Option Mark} {k j : K} {new : Option Mark} {mark : Mark}
    (h : Function.update marks k new j = some mark) : marks j = some mark ∨ new = some mark := by
  by_cases hjk : j = k
  · subst hjk
    rw [Function.update_self] at h
    exact Or.inr h
  · rw [Function.update_of_ne hjk] at h
    exact Or.inl h

omit [DecidableEq K] in
theorem Tracked.insert {row : Message} (h : Tracked counts isGroup σ) (hrow : 0 < row.id)
    (hordered : ∀ r ∈ σ.rows, r.id < row.id) (flags : ℕ → Bool) :
    Tracked counts isGroup { σ with rows := σ.rows ++ [row], flags := flags } where
  last m hm hpos := by
    obtain ⟨r, hr, hle⟩ := h.last m hm hpos
    exact ⟨r, List.mem_append_left _ hr, hle⟩
  mark k mark hk hpos := by
    obtain ⟨r, hr, hle⟩ := h.mark k mark hk hpos
    exact ⟨r, List.mem_append_left _ hr, hle⟩
  covers k mark hk m hm r hr hvisible hle := by
    rcases List.mem_append.mp hr with hr | hr
    · exact h.covers k mark hk m hm r hr hvisible hle
    · -- the new message is beyond all that the request could see
      obtain rfl := List.mem_singleton.mp hr
      obtain ⟨top, htop, htople⟩ := h.mark k mark hk (hrow.trans_le hle)
      exact absurd (hordered top htop) (hle.trans htople).not_gt

omit [DecidableEq K] in
theorem Tracked.delete (h : Tracked counts isGroup σ) (id : ℕ) :
    Tracked counts isGroup { σ with
      rows := σ.rows.map fun r => if r.id = id then { r with deleted := true } else r } := by
  have hid : ∀ r : Message, (if r.id = id then { r with deleted := true } else r).id = r.id := by
    intro r
    split <;> rfl
  have hkept : ∀ n, (∃ r ∈ σ.rows, n ≤ r.id) →
      ∃ r ∈ σ.rows.map fun r => if r.id = id then { r with deleted := true } else r, n ≤ r.id := by
    rintro n ⟨r, hr, hle⟩
    exact ⟨_, List.mem_map_of_mem hr, by rwa [hid]⟩
  refine ⟨fun m hm hpos => hkept _ (h.last m hm hpos), fun k mark hk hpos => hkept _ (h.mark k mark hk hpos),
    fun k mark hk m hm r' hr' hvisible hle => ?_⟩
  obtain ⟨r, hr, rfl⟩ := List.mem_map.mp hr'
  rw [hid] at hle ⊢
  refine h.covers k mark hk m hm r hr ?_ hle
  split at hvisible
  · simp [visible] at hvisible
  · exact hvisible

theorem Tracked.select {m : Member} (h : Tracked counts isGroup σ) (hinv : Inv σ) (hm : σ.member = some m)
    (k : K) (requested : ℕ) (answered : Bool) :
    Tracked counts isGroup (step counts isGroup me σ (.select k requested answered)) := by
  simp only [step, hm]
  constructor
  case last => exact fun m' hm' => h.last m' (hm.trans hm')
  case mark =>
    intro j mark hj hpos
    rcases marks_update hj with hold | hnew
    · exact h.mark j mark hold hpos
    · obtain rfl := Option.some.inj hnew
      cases answered with
      | false => exact absurd hpos (lt_irrefl 0)
      | true => exact maxVisible_covers.1 hpos
  case covers =>
    intro j mark hj m' hm' r hr hvisible hle
    obtain rfl : m = m' := Option.some.inj hm'
    rcases marks_update hj with hold | hnew
    · exact h.covers j mark hold m hm r hr hvisible hle
    · obtain rfl := Option.some.inj hnew
      have hpos : 0 < r.id := hinv.positive r hr
      cases answered with
      | false => exact absurd hle hpos.not_ge
      | true => exact maxVisible_covers.2 r hr hpos hvisible hle

theorem Tracked.update {mark : Mark} (h : Tracked counts isGroup σ) {k : K} (hk : σ.marks k = some mark)
    (flags : ℕ → Bool) :
    Tracked counts isGroup { σ with
      marks := Function.update σ.marks k none
      member := σ.member.map fun m => markRead m mark.readId
      flags := flags } := by
  have hleft : ∀ j mark', Function.update σ.marks k none j = some mark' → σ.marks j = some mark' :=
    fun j mark' hj => (marks_update hj).resolve_right (by simp)
  constructor
  case last =>
    intro m' hm' hpos
    obtain ⟨m, hm, rfl⟩ := Option.map_eq_some_iff.mp hm'
    rw [lastReadMessageId_markRead] at hpos ⊢
    rcases le_total m.lastReadMessageId mark.readId with hle | hle
    · rw [max_eq_right hle] at hpos ⊢
      exact h.mark k mark hk hpos
    · rw [max_eq_left hle] at hpos ⊢
      exact h.last m hm hpos
  case mark => exact fun j mark' hj => h.mark j mark' (hleft j mark' hj)
  case covers =>
    intro j mark' hj m' hm' r hr hvisible hle
    obtain ⟨m, hm, rfl⟩ := Option.map_eq_some_iff.mp hm'
    exact h.covers j mark' (hleft j mark' hj) m hm r hr hvisible hle

theorem tracked_step (σ : State K) (e : Event K) (h : Tracked counts isGroup σ) (hinv : Inv σ)
    (hordered : Ordered σ e) : Tracked counts isGroup (step counts isGroup me σ e) := by
  cases e with
  | insert row =>
    rw [step]
    split
    next => exact h
    next hnew => exact h.insert (Nat.pos_of_ne_zero fun hzero => hnew (Or.inl hzero)) hordered _
  | delete id => exact h.delete id
  | markUnread =>
    refine ⟨fun m' hm' hpos => ?_, h.mark, fun k mark hk m' hm' r hr => ?_⟩
    · obtain ⟨m, hm, rfl⟩ := Option.map_eq_some_iff.mp hm'
      exact h.last m hm hpos
    · obtain ⟨m, hm, rfl⟩ := Option.map_eq_some_iff.mp hm'
      exact h.covers k mark hk m hm r hr
  | select k requested answered =>
    cases hm : σ.member with
    | none =>
      simp only [step, hm]
      exact h
    | some m => exact h.select hinv hm k requested answered
  | update k executed =>
    cases hk : σ.marks k with
    | none =>
      simp only [step, hk]
      exact h
    | some mark =>
      have hleft : ∀ j mark', Function.update σ.marks k none j = some mark' → σ.marks j = some mark' :=
        fun j mark' hj => (marks_update hj).resolve_right (by simp)
      simp only [step, hk]
      split
      next => exact h.update hk _
      next =>
        exact ⟨h.last, fun j mark' hj => h.mark j mark' (hleft j mark' hj),
          fun j mark' hj => h.covers j mark' (hleft j mark' hj)⟩
  | leave => exact ⟨fun m hm => (by cases hm), h.mark, fun k mark hk m hm => (by cases hm)⟩
  | join now =>
    cases hm : σ.member <;> simp only [step, hm]
    case some => exact h
    case none =>
      refine ⟨fun m hm hpos => ?_, h.mark, fun k mark hk => ?_⟩
      · obtain rfl := Option.some.inj hm
        exact absurd hpos (lt_irrefl 0)
      · rw [hordered k] at hk
        cases hk

omit [DecidableEq K] in
/-- In order, nothing comes late. -/
theorem Tracked.not_late (h : Tracked counts isGroup σ) {e : Event K} (hordered : Ordered σ e) :
    ¬ Late counts isGroup me σ e := by
  cases e with
  | insert row =>
    rintro ⟨hpos, -, m, hm, -, hle⟩
    obtain ⟨r, hr, hler⟩ := h.last m hm (hpos.trans_le hle)
    exact (hordered r hr).not_ge (hle.trans hler)
  | update k executed =>
    rintro ⟨-, m, mark, hm, hk, r, hr, hconcerns, -, hread, huncovered⟩
    exact huncovered (h.covers k mark hk m hm r hr hconcerns.1 hread)
  | _ => exact fun hlate => hlate

/-- **In order the number is enough.** In every run in which messages are committed in the order of their
ids, and the user does not leave and come back in the middle of a `mark_read`, the number says of each
visible message of somebody else whether it is unread. -/
theorem agree_of_ordered (counts : Text → Bool) (isGroup : Bool) (me : ℤ) (joinedAt : ℤ) (es : List (Event K))
    (hes : Each (step counts isGroup me) Ordered (start K joinedAt) es) :
    Always (step counts isGroup me) (Agree counts isGroup me) (start K joinedAt) es := by
  have hstep : ∀ (σ : State K) (e : Event K),
      Agree counts isGroup me σ ∧ Inv σ ∧ Tracked counts isGroup σ → Ordered σ e →
        Agree counts isGroup me (step counts isGroup me σ e) ∧ Inv (step counts isGroup me σ e) ∧
          Tracked counts isGroup (step counts isGroup me σ e) := by
    rintro σ e ⟨hagree, hinv, htracked⟩ hordered
    exact ⟨(agree_step_iff σ e hagree hinv).mpr (htracked.not_late hordered), step_inv σ e hinv,
      tracked_step σ e htracked hinv hordered⟩
  have hall := always_of_each hstep ⟨agree_start joinedAt, inv_start joinedAt, tracked_start joinedAt⟩ hes
  exact hall.imp fun _ h => h.1

/-- A message that counts, for examples. -/
def message (id : ℕ) (sender : ℤ) : Message := ⟨id, sender, 0, ascii "S3DR:", false⟩

/-- A message comes in the middle of a `mark_read`, and is unread after it. -/
theorem agree_of_ordered_between :
    Always (step (fun _ => true) false 7) (Agree (fun _ => true) false 7) (start Unit 0)
      [.insert (message 1 8), .select () 0 true, .insert (message 2 8), .update () true] := by
  refine agree_of_ordered (fun _ => true) false 7 0 _ ⟨?_, trivial, ?_, trivial, trivial⟩
  · exact fun r hr => (by cases hr)
  · intro r hr
    obtain rfl : r = message 1 8 := List.mem_singleton.mp hr
    decide

/-- Message 1 is committed after message 2 was read, and never counts. -/
example :
    let σ := [Event.insert (message 2 8), .select () 0 true, .update () true, .insert (message 1 8)].foldl
      (step (fun _ => true) false 7) (start Unit 0)
    (σ.member.map fun m => unreadCount (fun _ => true) false 7 m σ.rows) = some 0 ∧ σ.flags 1 = true := by
  decide

end SecChat.ReadMarks
