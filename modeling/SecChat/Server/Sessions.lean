import SecChat.Library.Runs
import Mathlib.Data.Fintype.Basic
import Mathlib.Data.Int.Order.Basic
import Mathlib.Data.List.FinRange
import Mathlib.Logic.Function.Basic

/-!
# Connections and the users they are logged in as

Every connection has a slot in a table of fixed size.  A login writes the stored status of its user, then
the user of its own slot, and then takes the user away from all other slots; leaving a slot clears it
under the lock, and writes the status afterwards.

* `clientsReplaceOtherSessions`, `otherActive`: the searches through the table;
* `Phase`, `Event`, `step`: the handlers of all connections, one access at a time;
* `Logins`: logins of one user, in any order of their steps;
* `SingleSession`: one slot has the user, and all others that had it were told;
* `single_session_iff`: this holds exactly when some login has the last word;
* `crossed_logins_lost`: two logins take the user away from each other.
-/

namespace SecChat.Sessions

/-! ### The table of slots -/

/-- A `Client`. -/
structure Slot where
  active : Bool
  wsReady : Bool
  ssl : Bool
  userId : ℤ
  username : String
  deriving DecidableEq, Repr

/-- A slot whose messages arrive. -/
def Slot.Ready (c : Slot) : Prop := c.active = true ∧ c.wsReady = true ∧ c.ssl = true

instance : DecidablePred Slot.Ready := fun c =>
  inferInstanceAs (Decidable (c.active = true ∧ c.wsReady = true ∧ c.ssl = true))

/-- `status` of a user. -/
inductive Status
  | online
  | offline
  | away
  deriving DecidableEq, Repr

/-- Where the handler of a connection is. -/
inductive Phase
  | idle
  /-- The password is accepted and the status written, and the slot is to be written. -/
  | authed (uid : ℤ) (username : String)
  /-- The other sessions are to be replaced. -/
  | stored (uid : ℤ)
  /-- The slot is cleared, and the status is to be written. -/
  | leaving (uid : ℤ)
  deriving DecidableEq, Repr

variable {n : ℕ}

/-- The slots and what their handlers do, the stored status of every user, the users whose status is
still to be written for a connection that is gone, and the slots that were sent `session_replaced`. -/
structure State (n : ℕ) where
  slots : Fin n → Slot
  phases : Fin n → Phase
  status : ℤ → Status
  departed : List ℤ
  notices : List (Fin n)

/-- A slot that `clients_replace_other_sessions` clears. -/
def replaceable (slots : Fin n → Slot) (uid : ℤ) (keep i : Fin n) : Prop :=
  i ≠ keep ∧ (slots i).Ready ∧ (slots i).userId = uid

instance (slots : Fin n → Slot) (uid : ℤ) (keep : Fin n) :
    DecidablePred (replaceable slots uid keep) := fun i =>
  inferInstanceAs (Decidable (i ≠ keep ∧ (slots i).Ready ∧ (slots i).userId = uid))

/-- `clients_replace_other_sessions`: the slots, and those that are told. -/
def clientsReplaceOtherSessions (slots : Fin n → Slot) (uid : ℤ) (keep : Fin n) :
    (Fin n → Slot) × List (Fin n) :=
  if uid ≤ 0 then (slots, [])
  else
    (fun i =>
      if replaceable slots uid keep i then { slots i with userId := -1, username := "" }
      else slots i,
    (List.finRange n).filter fun i => replaceable slots uid keep i)

/-- `still_active`. -/
def otherActive (slots : Fin n → Slot) (uid : ℤ) (i : Fin n) : Prop :=
  ∃ j, j ≠ i ∧ (slots j).active = true ∧ (slots j).userId = uid

instance (slots : Fin n → Slot) (uid : ℤ) : DecidablePred (otherActive slots uid) := fun i =>
  inferInstanceAs (Decidable (∃ j, j ≠ i ∧ (slots j).active = true ∧ (slots j).userId = uid))

/-! ### Handlers -/

/-- What happens next. -/
inductive Event (n : ℕ)
  /-- `clients_add`. -/
  | connect
  /-- The handshakes of a connection are over. -/
  | ready (i : Fin n)
  /-- `handle_auth` has accepted the password, and writes the status. -/
  | auth (i : Fin n) (uid : ℤ) (username : String)
  /-- It writes its slot. -/
  | store (i : Fin n)
  /-- `clients_replace_other_sessions`. -/
  | replace (i : Fin n)
  /-- `clients_logout_user` up to the end of the lock. -/
  | logout (i : Fin n)
  /-- `clients_remove` up to the end of the lock. -/
  | remove (i : Fin n)
  /-- The status is written for a logout. -/
  | writeOffline (i : Fin n)
  /-- The status is written for a connection that is gone. -/
  | writeDeparted (k : ℕ)
  deriving DecidableEq

/-- The connection reads its next message. -/
def Listening (s : State n) (i : Fin n) : Prop := (s.slots i).Ready ∧ s.phases i = .idle

instance (s : State n) : DecidablePred (Listening s) := fun i =>
  inferInstanceAs (Decidable ((s.slots i).Ready ∧ s.phases i = .idle))

/-- Whose status is to be written after the slot is cleared. -/
def leftUser (slots : Fin n → Slot) (i : Fin n) : Option ℤ :=
  let uid := (slots i).userId
  if 0 < uid ∧ ¬ otherActive slots uid i then some uid else none

/-- One event.  The ids of users begin at 1. -/
def step (s : State n) : Event n → State n
  | .connect =>
      match (List.finRange n).find? fun i => (s.slots i).active = false with
      | some i => { s with slots := Function.update s.slots i ⟨true, false, false, -1, ""⟩ }
      | none => s
  | .ready i =>
      if (s.slots i).active = true then
        { s with slots := Function.update s.slots i { s.slots i with ssl := true, wsReady := true } }
      else s
  | .auth i uid username =>
      if Listening s i ∧ 0 < uid then
        { s with
          status := Function.update s.status uid .online
          phases := Function.update s.phases i (.authed uid username) }
      else s
  | .store i =>
      match s.phases i with
      | .authed uid username =>
          { s with
            slots := Function.update s.slots i
              { s.slots i with userId := uid, username := username }
            phases := Function.update s.phases i (.stored uid) }
      | _ => s
  | .replace i =>
      match s.phases i with
      | .stored uid =>
          let (slots, told) := clientsReplaceOtherSessions s.slots uid i
          { s with
            slots := slots
            phases := Function.update s.phases i .idle
            notices := s.notices ++ told }
      | _ => s
  | .logout i =>
      if Listening s i then
        { s with
          slots := Function.update s.slots i { s.slots i with userId := -1, username := "" }
          phases := Function.update s.phases i
            (match leftUser s.slots i with
            | some uid => .leaving uid
            | none => .idle) }
      else s
  | .remove i =>
      if (s.slots i).active = true ∧ s.phases i = .idle then
        { s with
          slots := Function.update s.slots i ⟨false, false, false, -1, ""⟩
          departed := s.departed ++ (leftUser s.slots i).toList }
      else s
  | .writeOffline i =>
      match s.phases i with
      | .leaving uid =>
          { s with
            status := Function.update s.status uid .offline
            phases := Function.update s.phases i .idle }
      | _ => s
  | .writeDeparted k =>
      match s.departed[k]? with
      | some uid =>
          { s with
            status := Function.update s.status uid .offline
            departed := s.departed.eraseIdx k }
      | none => s

/-! ### Logins of one user -/

/-- The slot has the user. -/
def Holds (s : State n) (i : Fin n) (u : ℤ) : Prop :=
  (s.slots i).active = true ∧ (s.slots i).userId = u

/-- A step of a login of the user. -/
def LoginOf (u : ℤ) : Event n → Prop
  | .auth _ uid _ => uid = u
  | .store _ | .replace _ => True
  | _ => False

/-- The handler is there for the step. -/
def Enabled (s : State n) : Event n → Prop
  | .auth i _ _ => s.phases i = .idle
  | .store i => ∃ uid username, s.phases i = .authed uid username
  | .replace i => ∃ uid, s.phases i = .stored uid
  | _ => True

/-- Logins of a user on connections that stay up, in any order of their steps and all through at the
end. -/
structure Logins (u : ℤ) (s : State n) (es : List (Event n)) : Prop where
  positive : 0 < u
  ready : ∀ i, (s.slots i).Ready
  idle : ∀ i, s.phases i = .idle
  quiet : s.notices = []
  only : ∀ e ∈ es, LoginOf u e
  enabled : Runs.Each step Enabled s es
  some : ∃ i username, .auth i u username ∈ es
  finished : ∀ i, (es.foldl step s).phases i = .idle

/-- In the end exactly one slot has the user, and every other slot that had it was told so. -/
def SingleSession (u : ℤ) (s : State n) (es : List (Event n)) : Prop :=
  (∃! i, Holds (es.foldl step s) i u) ∧
    ∀ i, ¬ Holds (es.foldl step s) i u → (∃ pre, pre <+: es ∧ Holds (pre.foldl step s) i u) →
      i ∈ (es.foldl step s).notices

/-- After some login has written its slot, no other login replaces sessions. -/
def LastWord (es : List (Event n)) : Prop :=
  ∃ i pre post, es = pre ++ .store i :: post ∧ ∀ j, j ≠ i → .replace j ∉ post

/-! ### The steps of a login -/

variable {u : ℤ} {s : State n} {es : List (Event n)}

/-- Every connection is up, and does nothing but log the user in. -/
structure Going (u : ℤ) (s : State n) : Prop where
  positive : 0 < u
  ready : ∀ i, (s.slots i).Ready
  phases : ∀ i, s.phases i = .idle ∨ (∃ username, s.phases i = .authed u username) ∨
    s.phases i = .stored u

theorem Going.authed (h : Going u s) {i : Fin n} {uid : ℤ} {username : String}
    (hi : s.phases i = .authed uid username) : uid = u := by
  rcases h.phases i with hphase | ⟨name, hphase⟩ | hphase <;> rw [hi] at hphase <;> cases hphase
  rfl

theorem Going.stored (h : Going u s) {i : Fin n} {uid : ℤ} (hi : s.phases i = .stored uid) :
    uid = u := by
  rcases h.phases i with hphase | ⟨name, hphase⟩ | hphase <;> rw [hi] at hphase <;> cases hphase
  rfl

theorem Going.step_auth (h : Going u s) {i : Fin n} (hi : s.phases i = .idle) (username : String) :
    step s (.auth i u username) = { s with
      status := Function.update s.status u .online
      phases := Function.update s.phases i (.authed u username) } :=
  if_pos ⟨⟨h.ready i, hi⟩, h.positive⟩

theorem step_store {i : Fin n} {uid : ℤ} {username : String}
    (hi : s.phases i = .authed uid username) :
    step s (.store i) = { s with
      slots := Function.update s.slots i { s.slots i with userId := uid, username := username }
      phases := Function.update s.phases i (.stored uid) } := by
  simp only [step, hi]

theorem step_replace {i : Fin n} {uid : ℤ} (hi : s.phases i = .stored uid) :
    step s (.replace i) = { s with
      slots := (clientsReplaceOtherSessions s.slots uid i).1
      phases := Function.update s.phases i .idle
      notices := s.notices ++ (clientsReplaceOtherSessions s.slots uid i).2 } := by
  simp only [step, hi]

theorem slots_replace (slots : Fin n → Slot) {uid : ℤ} (hu : 0 < uid) (keep i : Fin n) :
    (clientsReplaceOtherSessions slots uid keep).1 i =
      if replaceable slots uid keep i then { slots i with userId := -1, username := "" }
      else slots i := by
  rw [clientsReplaceOtherSessions, if_neg hu.not_ge]

theorem mem_told {slots : Fin n → Slot} {uid : ℤ} (hu : 0 < uid) {keep i : Fin n} :
    i ∈ (clientsReplaceOtherSessions slots uid keep).2 ↔ replaceable slots uid keep i := by
  rw [clientsReplaceOtherSessions, if_neg hu.not_ge]
  simp

theorem ready_replace {slots : Fin n → Slot} {uid : ℤ} {keep i : Fin n} (h : (slots i).Ready) :
    ((clientsReplaceOtherSessions slots uid keep).1 i).Ready := by
  unfold clientsReplaceOtherSessions
  split
  · exact h
  · dsimp only
    split <;> exact h

/-- Who has the user after a step, and what a handler does next. -/
theorem Going.step (h : Going u s) {e : Event n} (he : LoginOf u e) (hen : Enabled s e) :
    Going u (step s e) := by
  refine ⟨h.positive, ?_, ?_⟩
  · cases e with
    | auth i uid username =>
      obtain rfl : uid = u := he
      rw [h.step_auth hen]
      exact h.ready
    | store i =>
      obtain ⟨uid, username, hi⟩ := hen
      rw [step_store hi]
      intro j
      show (Function.update s.slots i _ j).Ready
      by_cases hj : j = i
      · subst hj
        rw [Function.update_self]
        exact h.ready j
      · rw [Function.update_of_ne hj]
        exact h.ready j
    | replace i =>
      obtain ⟨uid, hi⟩ := hen
      rw [step_replace hi]
      exact fun j => ready_replace (h.ready j)
    | connect | ready | logout | remove | writeOffline | writeDeparted => exact he.elim
  · have hupdate : ∀ (i : Fin n) (phase : Phase), (phase = .idle ∨
        (∃ username, phase = .authed u username) ∨ phase = .stored u) →
        ∀ j, Function.update s.phases i phase j = .idle ∨
          (∃ username, Function.update s.phases i phase j = .authed u username) ∨
          Function.update s.phases i phase j = .stored u := by
      intro i phase hphase j
      by_cases hj : j = i
      · subst hj
        rw [Function.update_self]
        exact hphase
      · rw [Function.update_of_ne hj]
        exact h.phases j
    cases e with
    | auth i uid username =>
      obtain rfl : uid = u := he
      rw [h.step_auth hen]
      exact hupdate i _ (.inr (.inl ⟨username, rfl⟩))
    | store i =>
      obtain ⟨uid, username, hi⟩ := hen
      rw [step_store hi, h.authed hi]
      exact hupdate i _ (.inr (.inr rfl))
    | replace i =>
      obtain ⟨uid, hi⟩ := hen
      rw [step_replace hi]
      exact hupdate i _ (.inl rfl)
    | connect | ready | logout | remove | writeOffline | writeDeparted => exact he.elim

theorem Going.holds_auth (h : Going u s) {i : Fin n} {username : String}
    (hen : Enabled s (.auth i u username)) (j : Fin n) :
    Holds (Sessions.step s (.auth i u username)) j u ↔ Holds s j u := by
  rw [h.step_auth hen]
  rfl

theorem Going.holds_store (h : Going u s) {i : Fin n} (hen : Enabled s (.store i)) (j : Fin n) :
    Holds (Sessions.step s (.store i)) j u ↔ j = i ∨ Holds s j u := by
  obtain ⟨uid, username, hi⟩ := hen
  rw [step_store hi, h.authed hi]
  unfold Holds
  dsimp only
  by_cases hj : j = i
  · subst hj
    rw [Function.update_self]
    exact iff_of_true ⟨(h.ready j).1, rfl⟩ (.inl rfl)
  · rw [Function.update_of_ne hj, or_iff_right hj]

theorem Going.holds_replace (h : Going u s) {i : Fin n} (hen : Enabled s (.replace i)) (j : Fin n) :
    Holds (Sessions.step s (.replace i)) j u ↔ j = i ∧ Holds s j u := by
  obtain ⟨uid, hi⟩ := hen
  obtain rfl := h.stored hi
  rw [step_replace hi]
  unfold Holds
  dsimp only
  rw [slots_replace _ h.positive]
  split
  · next hrep =>
    refine iff_of_false (fun hholds => ?_) fun hholds => hrep.1 hholds.1
    have huid : (-1 : ℤ) = uid := hholds.2
    have := h.positive
    omega
  · next hnot =>
    refine ⟨fun hholds => ⟨?_, hholds⟩, And.right⟩
    by_contra hj
    exact hnot ⟨hj, h.ready j, hholds.2⟩

/-- A slot that loses the user is told so. -/
theorem Going.noticed (h : Going u s) {e : Event n} (he : LoginOf u e) (hen : Enabled s e) {i : Fin n}
    (hi : Holds s i u ∨ i ∈ s.notices) :
    Holds (Sessions.step s e) i u ∨ i ∈ (Sessions.step s e).notices := by
  cases e with
  | auth j uid username =>
    obtain rfl : uid = u := he
    rw [h.holds_auth hen, h.step_auth hen]
    exact hi
  | store j =>
    rw [h.holds_store hen]
    obtain ⟨uid, username, hj⟩ := hen
    rw [step_store hj]
    exact hi.imp_left .inr
  | replace j =>
    rw [h.holds_replace hen]
    obtain ⟨uid, hj⟩ := hen
    obtain rfl := h.stored hj
    rw [step_replace hj]
    rcases hi with hi | hi
    · by_cases hij : i = j
      · exact .inl ⟨hij, hi⟩
      · exact .inr (List.mem_append_right _
          ((mem_told h.positive).mpr ⟨hij, h.ready i, hi.2⟩))
    · exact .inr (List.mem_append_left _ hi)
  | connect | ready | logout | remove | writeOffline | writeDeparted => exact he.elim

/-! ### Runs of logins -/

/-- A run of logins, from any point. -/
structure LoginRun (u : ℤ) (s : State n) (es : List (Event n)) : Prop where
  going : Going u s
  only : ∀ e ∈ es, LoginOf u e
  enabled : Runs.Each step Enabled s es

theorem LoginRun.tail {e : Event n} (h : LoginRun u s (e :: es)) : LoginRun u (step s e) es where
  going := h.going.step (h.only e List.mem_cons_self) h.enabled.1
  only e' he' := h.only e' (List.mem_cons_of_mem _ he')
  enabled := h.enabled.2

theorem LoginRun.drop {es es' : List (Event n)} (h : LoginRun u s (es ++ es')) :
    LoginRun u (es.foldl step s) es' := by
  induction es generalizing s with
  | nil => exact h
  | cons e es ih => exact ih h.tail

theorem Logins.loginRun (h : Logins u s es) : LoginRun u s es where
  going := ⟨h.positive, h.ready, fun i => .inl (h.idle i)⟩
  only := h.only
  enabled := h.enabled

/-- A slot keeps the user while no other login replaces sessions. -/
theorem LoginRun.holds (h : LoginRun u s es) {i : Fin n} (hi : Holds s i u)
    (hnone : ∀ j, j ≠ i → .replace j ∉ es) : Holds (es.foldl step s) i u := by
  induction es generalizing s with
  | nil => exact hi
  | cons e es ih =>
    refine ih h.tail ?_ fun j hj hmem => hnone j hj (List.mem_cons_of_mem _ hmem)
    have hen : Enabled s e := h.enabled.1
    cases e with
    | auth j uid username =>
      obtain rfl : uid = u := h.only _ List.mem_cons_self
      exact (h.going.holds_auth hen i).mpr hi
    | store j => exact (h.going.holds_store hen i).mpr (.inr hi)
    | replace j =>
      have hj : i = j := by
        by_contra hne
        exact hnone j (Ne.symm hne) List.mem_cons_self
      exact (h.going.holds_replace hen i).mpr ⟨hj, hi⟩
    | connect | ready | logout | remove | writeOffline | writeDeparted =>
      exact (h.only _ List.mem_cons_self).elim

/-- A slot that does not write the user does not get it. -/
theorem LoginRun.not_holds (h : LoginRun u s es) {i : Fin n} (hi : ¬ Holds s i u)
    (hnone : .store i ∉ es) : ¬ Holds (es.foldl step s) i u := by
  induction es generalizing s with
  | nil => exact hi
  | cons e es ih =>
    refine ih h.tail ?_ fun hmem => hnone (List.mem_cons_of_mem _ hmem)
    have hen : Enabled s e := h.enabled.1
    cases e with
    | auth j uid username =>
      obtain rfl : uid = u := h.only _ List.mem_cons_self
      exact fun hholds => hi ((h.going.holds_auth hen i).mp hholds)
    | store j =>
      intro hholds
      rcases (h.going.holds_store hen i).mp hholds with rfl | hholds
      · exact hnone List.mem_cons_self
      · exact hi hholds
    | replace j => exact fun hholds => hi ((h.going.holds_replace hen i).mp hholds).2
    | connect | ready | logout | remove | writeOffline | writeDeparted =>
      exact (h.only _ List.mem_cons_self).elim

/-- What a step does to the handlers of the other slots. -/
theorem LoginRun.phases_of_ne {e : Event n} (h : LoginRun u s (e :: es)) {i : Fin n}
    (hauth : ∀ username, e ≠ .auth i u username) (hstore : e ≠ .store i) (hreplace : e ≠ .replace i) :
    (step s e).phases i = s.phases i := by
  have hen : Enabled s e := h.enabled.1
  cases e with
  | auth j uid username =>
    obtain rfl : uid = u := h.only _ List.mem_cons_self
    rw [h.going.step_auth hen]
    exact Function.update_of_ne (by rintro rfl; exact hauth username rfl) _ _
  | store j =>
    obtain ⟨uid, username, hj⟩ := hen
    rw [step_store hj]
    exact Function.update_of_ne (by rintro rfl; exact hstore rfl) _ _
  | replace j =>
    obtain ⟨uid, hj⟩ := hen
    rw [step_replace hj]
    exact Function.update_of_ne (by rintro rfl; exact hreplace rfl) _ _
  | connect | ready | logout | remove | writeOffline | writeDeparted =>
    exact (h.only _ List.mem_cons_self).elim

/-- A login that is under way goes on to replace the other sessions. -/
theorem LoginRun.replace_mem (h : LoginRun u s es) {i : Fin n} (hi : s.phases i ≠ .idle)
    (hend : (es.foldl step s).phases i = .idle) : .replace i ∈ es := by
  induction es generalizing s with
  | nil => exact absurd hend hi
  | cons e es ih =>
    by_cases hreplace : e = .replace i
    · rw [hreplace]
      exact List.mem_cons_self
    · refine List.mem_cons_of_mem _ (ih h.tail ?_ hend)
      by_cases hstore : e = .store i
      · subst hstore
        obtain ⟨uid, username, hj⟩ := h.enabled.1
        rw [step_store hj]
        show Function.update s.phases i _ i ≠ _
        rw [Function.update_self]
        exact fun heq => by cases heq
      · rw [h.phases_of_ne (fun username heq => ?_) hstore hreplace]
        · exact hi
        · subst heq
          exact hi h.enabled.1

/-- Only a slot that is written replaces other sessions. -/
theorem LoginRun.replace_not_mem (h : LoginRun u s es) {i : Fin n}
    (hi : ∀ uid, s.phases i ≠ .stored uid) (hnone : .store i ∉ es) : .replace i ∉ es := by
  induction es generalizing s with
  | nil => exact List.not_mem_nil
  | cons e es ih =>
    have hreplace : e ≠ .replace i := by
      rintro rfl
      obtain ⟨uid, hstored⟩ := h.enabled.1
      exact hi uid hstored
    have hstore : e ≠ .store i := by
      rintro rfl
      exact hnone List.mem_cons_self
    refine List.not_mem_cons_of_ne_of_not_mem hreplace.symm
      (ih h.tail ?_ fun hmem => hnone (List.mem_cons_of_mem _ hmem))
    by_cases hauth : ∃ username, e = .auth i u username
    · obtain ⟨username, rfl⟩ := hauth
      rw [h.going.step_auth h.enabled.1]
      intro uid
      show Function.update s.phases i _ i ≠ _
      rw [Function.update_self]
      exact fun heq => by cases heq
    · rw [h.phases_of_ne (fun username heq => hauth ⟨username, heq⟩) hstore hreplace]
      exact hi

/-- After another login has replaced sessions, only a slot that is written again has the user. -/
theorem LoginRun.store_mem (h : LoginRun u s es) {i j : Fin n} (hij : i ≠ j)
    {pre post : List (Event n)} (hes : es = pre ++ .replace j :: post)
    (hend : Holds (es.foldl step s) i u) : .store i ∈ post := by
  subst hes
  by_contra hnone
  have hrun : LoginRun u (pre.foldl step s) (.replace j :: post) := h.drop
  rw [List.foldl_append, List.foldl_cons] at hend
  refine hrun.tail.not_holds (fun hholds => hij ?_) hnone hend
  exact ((hrun.going.holds_replace hrun.enabled.1 i).mp hholds).1

/-- After a slot is written, its login replaces the other sessions. -/
theorem LoginRun.replace_after (h : LoginRun u s es) {i : Fin n} {pre post : List (Event n)}
    (hes : es = pre ++ .store i :: post) (hend : (es.foldl step s).phases i = .idle) :
    .replace i ∈ post := by
  subst hes
  have hrun : LoginRun u (pre.foldl step s) (.store i :: post) := h.drop
  rw [List.foldl_append, List.foldl_cons] at hend
  refine hrun.tail.replace_mem ?_ hend
  obtain ⟨uid, username, hi⟩ := hrun.enabled.1
  rw [step_store hi]
  show Function.update _ i _ i ≠ _
  rw [Function.update_self]
  exact fun heq => by cases heq

/-- The last time that an event occurs. -/
theorem exists_last_of_mem {α : Type} {l : List α} {a : α} (h : a ∈ l) :
    ∃ pre post, l = pre ++ a :: post ∧ a ∉ post := by
  obtain ⟨post, pre, hrev, hnot⟩ := List.eq_append_cons_of_mem (List.mem_reverse.mpr h)
  refine ⟨pre.reverse, post.reverse, ?_, fun hmem => hnot (List.mem_reverse.mp hmem)⟩
  rw [← List.reverse_reverse l, hrev, List.reverse_append, List.reverse_cons, List.append_assoc,
    List.singleton_append]

/-- Some login replaces the other sessions. -/
theorem Logins.exists_replace (h : Logins u s es) : ∃ i, .replace i ∈ es := by
  obtain ⟨i, username, hmem⟩ := h.some
  obtain ⟨pre, post, rfl⟩ := List.append_of_mem hmem
  have hrun : LoginRun u (pre.foldl step s) (.auth i u username :: post) := h.loginRun.drop
  have hend := h.finished i
  rw [List.foldl_append, List.foldl_cons] at hend
  refine ⟨i, List.mem_append_right _ (List.mem_cons_of_mem _ (hrun.tail.replace_mem ?_ hend))⟩
  rw [hrun.going.step_auth hrun.enabled.1]
  show Function.update _ i _ i ≠ _
  rw [Function.update_self]
  exact fun heq => by cases heq

/-- Whoever has the user in the end has had the last word. -/
theorem Logins.lastWord_of_holds (h : Logins u s es) {i : Fin n}
    (hend : Holds (es.foldl step s) i u) : LastWord es := by
  have hstore : .store i ∈ es := by
    by_contra hnone
    obtain ⟨j, hj⟩ := h.exists_replace
    have hij : i ≠ j := by
      rintro rfl
      refine h.loginRun.replace_not_mem (fun uid hstored => ?_) hnone hj
      rw [h.idle i] at hstored
      cases hstored
    obtain ⟨pre, post, hes⟩ := List.append_of_mem hj
    refine hnone ?_
    rw [hes]
    exact List.mem_append_right _ (List.mem_cons_of_mem _ (h.loginRun.store_mem hij hes hend))
  obtain ⟨pre, post, hes, hlast⟩ := exists_last_of_mem hstore
  refine ⟨i, pre, post, hes, fun j hj hmem => hlast ?_⟩
  obtain ⟨mid, rest, rfl⟩ := List.append_of_mem hmem
  have hes' : es = (pre ++ .store i :: mid) ++ .replace j :: rest := by
    rw [hes, List.append_assoc, List.cons_append]
  exact List.mem_append_right _
    (List.mem_cons_of_mem _ (h.loginRun.store_mem (Ne.symm hj) hes' hend))

/-- Whoever has the last word has the user in the end, and nobody else has. -/
theorem Logins.holds_of_lastWord (h : Logins u s es) {i : Fin n} {pre post : List (Event n)}
    (hes : es = pre ++ .store i :: post) (hnone : ∀ j, j ≠ i → .replace j ∉ post) :
    Holds (es.foldl step s) i u ∧ ∀ j, Holds (es.foldl step s) j u → j = i := by
  constructor
  · have hrun : LoginRun u (pre.foldl step s) (.store i :: post) := by
      have hall := h.loginRun
      rw [hes] at hall
      exact hall.drop
    rw [hes, List.foldl_append, List.foldl_cons]
    exact hrun.tail.holds ((hrun.going.holds_store hrun.enabled.1 i).mpr (.inl rfl)) hnone
  · intro j hj
    by_contra hne
    -- the login of `i` replaces sessions, then `j` writes its slot, and replaces sessions too
    obtain ⟨mid, rest, hpost⟩ :=
      List.append_of_mem (h.loginRun.replace_after hes (h.finished i))
    have hes' : es = (pre ++ .store i :: mid) ++ .replace i :: rest := by
      rw [hes, hpost, List.append_assoc, List.cons_append]
    obtain ⟨mid', rest', hrest⟩ := List.append_of_mem (h.loginRun.store_mem hne hes' hj)
    have hes'' : es = ((pre ++ .store i :: mid) ++ .replace i :: mid') ++ .store j :: rest' := by
      rw [hes', hrest]
      simp only [List.append_assoc, List.cons_append]
    have hmem : .replace j ∈ rest' := h.loginRun.replace_after hes'' (h.finished j)
    refine hnone j hne ?_
    rw [hpost, hrest]
    exact List.mem_append_right _ (List.mem_cons_of_mem _ (List.mem_append_right _
      (List.mem_cons_of_mem _ hmem)))

theorem LoginRun.noticed (h : LoginRun u s es) {i : Fin n} (hi : Holds s i u ∨ i ∈ s.notices) :
    Holds (es.foldl step s) i u ∨ i ∈ (es.foldl step s).notices := by
  induction es generalizing s with
  | nil => exact hi
  | cons e es ih =>
    exact ih h.tail (h.going.noticed (h.only e List.mem_cons_self) h.enabled.1 hi)

/-- **When one session is left.**  Any number of logins of one user run on connections that stay up, in
any order of their steps.  When all are through, exactly one slot has the user, and every other slot that
had it was told so, exactly when after some login has written its slot no other one replaces
sessions. -/
theorem single_session_iff (h : Logins u s es) : SingleSession u s es ↔ LastWord es := by
  constructor
  · rintro ⟨⟨i, hi, -⟩, -⟩
    exact h.lastWord_of_holds hi
  · rintro ⟨i, pre, post, hes, hnone⟩
    obtain ⟨hholds, honly⟩ := h.holds_of_lastWord hes hnone
    refine ⟨⟨i, hholds, honly⟩, fun j hj => ?_⟩
    rintro ⟨pre', ⟨post', hpre'⟩, hbefore⟩
    have hall := h.loginRun
    rw [← hpre'] at hall
    have hlater := hall.drop.noticed (.inl hbefore)
    rw [← List.foldl_append, hpre'] at hlater
    exact hlater.resolve_left hj

/-! ### Two logins -/

/-- Two connections without a user. -/
def twoReady : State 2 where
  slots := fun _ => ⟨true, true, true, -1, ""⟩
  phases := fun _ => .idle
  status := fun _ => .offline
  departed := []
  notices := []

theorem logins_twoReady {es : List (Event 2)} (only : ∀ e ∈ es, LoginOf 7 e)
    (enabled : Runs.Each step Enabled twoReady es) (some : .auth 0 7 "alice" ∈ es)
    (finished : ∀ i, (es.foldl step twoReady).phases i = .idle) : Logins 7 twoReady es where
  positive := by decide
  ready := by decide
  idle _ := rfl
  quiet := rfl
  only := only
  enabled := enabled
  some := ⟨0, "alice", some⟩
  finished := finished

/-- The first slot. -/
def firstSlot : Fin 2 := 0

/-- One login after the other. -/
def orderedLogins : List (Event 2) :=
  [.auth 0 7 "alice", .store 0, .replace 0, .auth 1 7 "alice", .store 1, .replace 1]

theorem logins_orderedLogins : Logins 7 twoReady orderedLogins :=
  logins_twoReady (by simp [orderedLogins, LoginOf])
    ⟨rfl, ⟨7, "alice", rfl⟩, ⟨7, rfl⟩, rfl, ⟨7, "alice", rfl⟩, ⟨7, rfl⟩, trivial⟩
    (by decide) (by decide)

theorem single_session_iff_ordered : SingleSession 7 twoReady orderedLogins :=
  (single_session_iff logins_orderedLogins).mpr
    ⟨1, [.auth 0 7 "alice", .store 0, .replace 0, .auth 1 7 "alice"], [.replace 1], rfl,
      fun _ hj hmem => hj (Event.replace.inj (List.mem_singleton.mp hmem))⟩

/-- Both write their slots before either replaces the other sessions. -/
def crossedLogins : List (Event 2) :=
  [.auth 0 7 "alice", .auth 1 7 "alice", .store 0, .store 1, .replace 0, .replace 1]

/-- Neither slot has the user in the end. -/
theorem crossed_logins_lost :
    ¬ ∀ es : List (Event 2), Logins 7 twoReady es → SingleSession 7 twoReady es := by
  intro hall
  have hlogins : Logins 7 twoReady crossedLogins :=
    logins_twoReady (by simp [crossedLogins, LoginOf])
      ⟨rfl, rfl, ⟨7, "alice", rfl⟩, ⟨7, "alice", rfl⟩, ⟨7, rfl⟩, ⟨7, rfl⟩, trivial⟩
      (by decide) (by decide)
  obtain ⟨⟨i, hi, -⟩, -⟩ := hall crossedLogins hlogins
  have hlost : ∀ i, ((crossedLogins.foldl step twoReady).slots i).userId ≠ 7 := by decide
  exact hlost i hi.2

end SecChat.Sessions
