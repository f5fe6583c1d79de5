import SecChat.Library.Counting
import SecChat.Library.Runs

/-!
# The pool of database connections (`infra/db_pool.c`)

* `PoolSlot`, `Pool`, `init`: the slots and what `db_pool_init` leaves in them;
* `scan`, `acquire`: the loop of `db_pool_acquire` over the slots;
* `free`: the loop of `db_pool_release`;
* `Machine`, `step`: the request threads around the pool, each idle, asleep on `g_pool_cond`, woken or
  holding a connection; an event is one stretch of a thread under `g_pool_mtx`;
* `Inv`, `step_inv`: the slots in use and the threads that hold a connection go together;
* `holders_of_run`: no run gives one connection to two threads;
* `asleep_iff`: when a thread sleeps beside a free slot that nobody is on the way to.

A thread holds at most one connection: no handler borrows a second one before it gives the first back.
-/

namespace SecChat.ConnectionPool

open Counting Runs

/-- A `MYSQL *`. -/
abbrev Handle := ℕ

/-- `POOL_SIZE`. -/
def poolSize : ℕ := 8

@[ext]
structure PoolSlot where
  conn : Option Handle
  inUse : Bool
  deriving DecidableEq

/-- `g_slots`. -/
abbrev Slots := Fin poolSize → PoolSlot

/-- `g_slots`, `g_pool_ready` and `g_db_health_ok`. -/
structure Pool where
  slots : Slots
  ready : Bool
  healthOk : Bool

/-- What the database answers at a slot: `connect_one` when the slot has no connection, the ping, and
`connect_one` after a failed ping. -/
structure Answers where
  connect : Option Handle
  ping : Bool
  reconnect : Option Handle

/-- `db_pool_init`: all connections, or none and a pool that is not ready. -/
def init (connect : Fin poolSize → Option Handle) : Pool :=
  if ∀ i, (connect i).isSome then ⟨fun i => ⟨connect i, false⟩, true, true⟩
  else ⟨fun _ => ⟨none, false⟩, false, false⟩

/-- How one pass of `db_pool_acquire` ends: with a connection, with `NULL`, or in
`pthread_cond_wait`. -/
inductive Outcome
  | acquired (c : Handle)
  | null
  | wait
  deriving DecidableEq

/-- The loop over the slots. The first one not in use ends it. -/
def scan (env : Fin poolSize → Answers) : List (Fin poolSize) → ℕ → Slots → Outcome × Slots
  | [], busy, s => (if 0 < busy then .wait else .null, s)
  | i :: rest, busy, s =>
      if (s i).inUse then scan env rest (busy + 1) s
      else
        match (s i).conn.or (env i).connect with
        | none => (.null, s)
        | some c =>
            if (env i).ping then (.acquired c, Function.update s i ⟨some c, true⟩)
            else
              match (env i).reconnect with
              | none => (.null, Function.update s i ⟨none, false⟩)
              | some c' => (.acquired c', Function.update s i ⟨some c', true⟩)

/-- One pass of `db_pool_acquire`. -/
def acquire (env : Fin poolSize → Answers) (p : Pool) : Outcome × Pool :=
  if p.ready then
    let r := scan env (List.finRange poolSize) 0 p.slots
    (r.1, ⟨r.2, p.ready, match r.1 with
      | .acquired _ => true
      | .null => false
      | .wait => p.healthOk⟩)
  else (.null, p)

/-- The slot `db_pool_release` finds: the first with this connection. -/
def slotOf (s : Slots) (c : Handle) : Option (Fin poolSize) :=
  (List.finRange poolSize).find? fun i => (s i).conn = some c

/-- `db_pool_release`, up to the signal. -/
def free (s : Slots) (c : Handle) : Slots :=
  match slotOf s c with
  | none => s
  | some i => Function.update s i { s i with inUse := false }

/-- What a request thread is doing. -/
inductive Thread
  | idle
  | waiting
  | signalled
  | holding (c : Handle)
  deriving DecidableEq

/-- The pool and the threads `T` around it. -/
structure Machine (T : Type) where
  pool : Pool
  threads : T → Thread

/-- `acquire t`: thread `t` makes a pass of `db_pool_acquire`, as its first or after it was woken;
`wake t`: a spurious wake-up; `release t u`: `t` gives its connection back, and if anyone sleeps the
signal reaches `u`; `health`: a round of the health thread. -/
inductive Event (T : Type)
  | acquire (t : T) (env : Fin poolSize → Answers)
  | wake (t : T)
  | release (t u : T)
  | health (ok : Bool)

variable {T : Type} [Fintype T] [DecidableEq T]

/-- What a pass leaves its thread as. -/
def Outcome.thread : Outcome → Thread
  | .acquired c => .holding c
  | .null => .idle
  | .wait => .waiting

/-- One pass by thread `t`. -/
def Machine.pass (σ : Machine T) (t : T) (env : Fin poolSize → Answers) : Machine T :=
  let r := SecChat.ConnectionPool.acquire env σ.pool
  ⟨r.2, Function.update σ.threads t r.1.thread⟩

/-- A thread is woken, if it sleeps. -/
def signal (threads : T → Thread) (u : T) : T → Thread :=
  if threads u = .waiting then Function.update threads u .signalled else threads

/-- `pthread_cond_signal` reaches a sleeper when there is one. -/
def Reaches (threads : T → Thread) (u : T) : Prop :=
  (∃ v, threads v = .waiting) → threads u = .waiting

instance (threads : T → Thread) (u : T) : Decidable (Reaches threads u) :=
  inferInstanceAs (Decidable ((∃ v, threads v = .waiting) → threads u = .waiting))

/-- The events, one thread at a time under the mutex. What cannot happen leaves the state. -/
def step (σ : Machine T) : Event T → Machine T
  | .acquire t env =>
      match σ.threads t with
      | .idle => σ.pass t env
      | .signalled => σ.pass t env
      | _ => σ
  | .wake t => { σ with threads := signal σ.threads t }
  | .release t u =>
      match σ.threads t with
      | .holding c =>
          if Reaches σ.threads u then
            ⟨{ σ.pool with slots := free σ.pool.slots c },
              signal (Function.update σ.threads t .idle) u⟩
          else σ
      | _ => σ
  | .health ok => { σ with pool := { σ.pool with healthOk := ok } }

/-- After `db_pool_init`, with no thread at work. -/
def start (connect : Fin poolSize → Option Handle) : Machine T := ⟨init connect, fun _ => .idle⟩

/-! ### What a pass does -/

/-- A pass waits when every slot is in use. Otherwise one slot decides: it gives its connection, which it
had or has just opened, or it is left without one. A pool that is not ready has none to give. -/
inductive Passed (env : Fin poolSize → Answers) (s : Slots) : Outcome × Slots → Prop
  | wait (hbusy : ∀ i, (s i).inUse = true) : Passed env s (.wait, s)
  | closed : Passed env s (.null, s)
  | null (i : Fin poolSize) (hfree : (s i).inUse = false) :
      Passed env s (.null, Function.update s i ⟨none, false⟩)
  | acquired (i : Fin poolSize) (c : Handle) (hfree : (s i).inUse = false)
      (hconn : (s i).conn = some c ∨ (env i).connect = some c ∨ (env i).reconnect = some c) :
      Passed env s (.acquired c, Function.update s i ⟨some c, true⟩)

theorem passed_scan (env : Fin poolSize → Answers) (s : Slots) (l : List (Fin poolSize)) (busy : ℕ)
    (hbusy : 0 < busy ∨ l ≠ []) (hskipped : ∀ i, i ∉ l → (s i).inUse = true) :
    Passed env s (scan env l busy s) := by
  induction l generalizing busy with
  | nil =>
    rw [scan, if_pos (hbusy.resolve_right (fun h => h rfl))]
    exact .wait fun i => hskipped i List.not_mem_nil
  | cons i rest ih =>
    rw [scan]
    by_cases huse : (s i).inUse = true
    · rw [if_pos huse]
      refine ih (busy + 1) (Or.inl busy.succ_pos) fun j hj => ?_
      by_cases hji : j = i
      · exact hji ▸ huse
      · exact hskipped j fun h => (List.mem_cons.mp h).elim hji hj
    · rw [if_neg huse]
      have hfree : (s i).inUse = false := Bool.eq_false_iff.mpr huse
      cases hor : (s i).conn.or (env i).connect with
      | none =>
        have hslot : s i = ⟨none, false⟩ := by
          obtain ⟨hconn, -⟩ := Option.or_eq_none_iff.mp hor
          exact PoolSlot.ext_iff.mpr ⟨hconn, hfree⟩
        have hsame : Passed env s (.null, Function.update s i ⟨none, false⟩) := .null i hfree
        rwa [← hslot, Function.update_eq_self] at hsame
      | some c =>
        have hconn : (s i).conn = some c ∨ (env i).connect = some c := by
          cases hslot : (s i).conn with
          | none => exact Or.inr (by rwa [hslot, Option.none_or] at hor)
          | some c' => exact Or.inl (by rwa [hslot, Option.some_or] at hor)
        by_cases hping : (env i).ping = true
        · simp only [hping, if_true]
          exact .acquired i c hfree (hconn.imp id Or.inl)
        · simp only [hping]
          cases hre : (env i).reconnect with
          | none => exact .null i hfree
          | some c' => exact .acquired i c' hfree (Or.inr (Or.inr hre))

theorem passed (env : Fin poolSize → Answers) (p : Pool) :
    Passed env p.slots ((acquire env p).1, (acquire env p).2.slots) := by
  by_cases hready : p.ready = true
  · rw [acquire, if_pos hready]
    exact passed_scan env p.slots _ 0 (Or.inr (by decide)) fun i hi => absurd (List.mem_finRange i) hi
  · rw [acquire, if_neg hready]
    exact .closed

/-! ### Who holds what -/

/-- The threads that hold a connection and the slots in use go together. -/
structure Inv (s : Slots) (threads : T → Thread) : Prop where
  held : ∀ t c, threads t = .holding c → ∃ i, s i = ⟨some c, true⟩
  owned : ∀ i, (s i).inUse = true → ∃ t c, (s i).conn = some c ∧ threads t = .holding c
  distinct : ∀ i j c, (s i).conn = some c → (s j).conn = some c → i = j
  exclusive : ∀ t u c, threads t = .holding c → threads u = .holding c → t = u

variable {s : Slots} {threads : T → Thread} {t u : T} {c : Handle} {i : Fin poolSize}

omit [Fintype T] [DecidableEq T] in
theorem Inv.congr {threads' : T → Thread} (h : Inv s threads)
    (hsame : ∀ u c, threads' u = .holding c ↔ threads u = .holding c) : Inv s threads' where
  held t c ht := h.held t c ((hsame t c).mp ht)
  owned i hi := by
    obtain ⟨t, c, hc, ht⟩ := h.owned i hi
    exact ⟨t, c, hc, (hsame t c).mpr ht⟩
  distinct := h.distinct
  exclusive t u c ht hu := h.exclusive t u c ((hsame t c).mp ht) ((hsame u c).mp hu)

omit [Fintype T] in
/-- A thread that holds nothing before and after. -/
theorem holding_update {v : Thread} (ht : ∀ c, threads t ≠ .holding c) (hv : ∀ c, v ≠ .holding c) (u : T)
    (c : Handle) : Function.update threads t v u = .holding c ↔ threads u = .holding c := by
  by_cases hu : u = t
  · subst hu
    rw [Function.update_self]
    exact iff_of_false (hv c) (ht c)
  · rw [Function.update_of_ne hu]

omit [Fintype T] in
theorem holding_signal (u : T) (c : Handle) : signal threads t u = .holding c ↔ threads u = .holding c := by
  rw [signal]
  split
  next hwait => exact holding_update (fun c => by simp [hwait]) (fun c => by simp) u c
  next => exact Iff.rfl

omit [Fintype T] [DecidableEq T] in
/-- A slot that nobody uses is left without a connection. -/
theorem Inv.drop (h : Inv s threads) (hfree : (s i).inUse = false) :
    Inv (Function.update s i ⟨none, false⟩) threads where
  held t c ht := by
    obtain ⟨j, hj⟩ := h.held t c ht
    have hji : j ≠ i := by
      rintro rfl
      rw [hj] at hfree
      exact absurd hfree (by simp)
    exact ⟨j, by rw [Function.update_of_ne hji, hj]⟩
  owned j hj := by
    have hji : j ≠ i := by
      rintro rfl
      rw [Function.update_self] at hj
      exact absurd hj (by simp)
    rw [Function.update_of_ne hji] at hj ⊢
    exact h.owned j hj
  distinct j k c hj hk := by
    have hkept : ∀ j, (Function.update s i ⟨none, false⟩ j).conn = some c → (s j).conn = some c := by
      intro j hj
      by_cases hji : j = i
      · subst hji
        rw [Function.update_self] at hj
        exact absurd hj (by simp)
      · rwa [Function.update_of_ne hji] at hj
    exact h.distinct j k c (hkept j hj) (hkept k hk)
  exclusive := h.exclusive

omit [Fintype T] in
/-- A thread that holds nothing takes a slot that nobody uses. -/
theorem Inv.take (h : Inv s threads) (hfree : (s i).inUse = false) (ht : ∀ c, threads t ≠ .holding c)
    (hfresh : ∀ j, j ≠ i → (s j).conn ≠ some c) :
    Inv (Function.update s i ⟨some c, true⟩) (Function.update threads t (.holding c)) := by
  -- what a thread holds is in a slot in use, so it is another connection
  have hother : ∀ u, threads u ≠ .holding c := by
    intro u hu
    obtain ⟨j, hj⟩ := h.held u c hu
    refine hfresh j ?_ (by rw [hj])
    rintro rfl
    rw [hj] at hfree
    exact absurd hfree (by simp)
  constructor
  case held =>
    intro u c' hu
    by_cases hut : u = t
    · subst hut
      rw [Function.update_self] at hu
      cases hu
      exact ⟨i, Function.update_self ..⟩
    · rw [Function.update_of_ne hut] at hu
      obtain ⟨j, hj⟩ := h.held u c' hu
      have hji : j ≠ i := by
        rintro rfl
        rw [hj] at hfree
        exact absurd hfree (by simp)
      exact ⟨j, by rw [Function.update_of_ne hji, hj]⟩
  case owned =>
    intro j hj
    by_cases hji : j = i
    · subst hji
      exact ⟨t, c, by rw [Function.update_self], Function.update_self ..⟩
    · rw [Function.update_of_ne hji] at hj ⊢
      obtain ⟨u, c', hc', hu⟩ := h.owned j hj
      have hut : u ≠ t := by
        rintro rfl
        exact ht c' hu
      exact ⟨u, c', hc', by rw [Function.update_of_ne hut, hu]⟩
  case distinct =>
    intro j k c' hj hk
    by_cases hji : j = i <;> by_cases hki : k = i
    · exact hji.trans hki.symm
    · subst hji
      rw [Function.update_self] at hj
      rw [Function.update_of_ne hki] at hk
      cases hj
      exact absurd hk (hfresh k hki)
    · subst hki
      rw [Function.update_self] at hk
      rw [Function.update_of_ne hji] at hj
      cases hk
      exact absurd hj (hfresh j hji)
    · rw [Function.update_of_ne hji] at hj
      rw [Function.update_of_ne hki] at hk
      exact h.distinct j k c' hj hk
  case exclusive =>
    intro u v c' hu hv
    by_cases hut : u = t <;> by_cases hvt : v = t
    · exact hut.trans hvt.symm
    · subst hut
      rw [Function.update_self] at hu
      rw [Function.update_of_ne hvt] at hv
      cases hu
      exact absurd hv (hother v)
    · subst hvt
      rw [Function.update_self] at hv
      rw [Function.update_of_ne hut] at hu
      cases hv
      exact absurd hu (hother u)
    · rw [Function.update_of_ne hut] at hu
      rw [Function.update_of_ne hvt] at hv
      exact h.exclusive u v c' hu hv

omit [Fintype T] [DecidableEq T] in
/-- `db_pool_release` finds the slot of the connection. -/
theorem Inv.free_eq (h : Inv s threads) (hi : s i = ⟨some c, true⟩) :
    free s c = Function.update s i ⟨some c, false⟩ := by
  have hslot : slotOf s c = some i := by
    cases hfind : slotOf s c with
    | none =>
      have hnone := List.find?_eq_none.mp hfind i (List.mem_finRange i)
      rw [hi] at hnone
      exact absurd rfl (of_decide_eq_false (Bool.eq_false_iff.mpr hnone))
    | some j =>
      have hj := List.find?_some hfind
      exact congrArg some (h.distinct j i c (of_decide_eq_true hj) (by rw [hi]))
  rw [free, hslot]
  simp only [hi]

omit [Fintype T] in
theorem Inv.give (h : Inv s threads) (ht : threads t = .holding c) :
    Inv (free s c) (Function.update threads t .idle) := by
  obtain ⟨i, hi⟩ := h.held t c ht
  rw [h.free_eq hi]
  have hleft : ∀ u c', Function.update threads t .idle u = .holding c' → u ≠ t ∧ threads u = .holding c' := by
    intro u c' hu
    by_cases hut : u = t
    · subst hut
      rw [Function.update_self] at hu
      exact absurd hu (by simp)
    · rw [Function.update_of_ne hut] at hu
      exact ⟨hut, hu⟩
  have hconn : ∀ j, (Function.update s i ⟨some c, false⟩ j).conn = (s j).conn := by
    intro j
    by_cases hji : j = i
    · subst hji
      rw [Function.update_self, hi]
    · rw [Function.update_of_ne hji]
  constructor
  case held =>
    intro u c' hu
    obtain ⟨hut, hu⟩ := hleft u c' hu
    obtain ⟨j, hj⟩ := h.held u c' hu
    have hji : j ≠ i := by
      rintro rfl
      rw [hi] at hj
      cases hj
      exact hut (h.exclusive u t c hu ht)
    exact ⟨j, by rw [Function.update_of_ne hji, hj]⟩
  case owned =>
    intro j hj
    have hji : j ≠ i := by
      rintro rfl
      rw [Function.update_self] at hj
      exact absurd hj (by simp)
    rw [Function.update_of_ne hji] at hj ⊢
    obtain ⟨u, c', hc', hu⟩ := h.owned j hj
    have hut : u ≠ t := by
      rintro rfl
      rw [ht] at hu
      cases hu
      exact hji (h.distinct j i c hc' (by rw [hi]))
    exact ⟨u, c', hc', by rw [Function.update_of_ne hut, hu]⟩
  case distinct =>
    intro j k c' hj hk
    rw [hconn] at hj hk
    exact h.distinct j k c' hj hk
  case exclusive =>
    intro u v c' hu hv
    exact h.exclusive u v c' (hleft u c' hu).2 (hleft v c' hv).2

/-- `mysql_init` gives no connection that another slot has open. -/
def Fresh (σ : Machine T) : Event T → Prop
  | .acquire _ env => ∀ i c, (env i).connect = some c ∨ (env i).reconnect = some c →
      ∀ j, j ≠ i → (σ.pool.slots j).conn ≠ some c
  | _ => True

omit [Fintype T] in
theorem Inv.pass {σ : Machine T} {env : Fin poolSize → Answers} (h : Inv σ.pool.slots σ.threads)
    (ht : ∀ c, σ.threads t ≠ .holding c) (hfresh : Fresh σ (.acquire t env)) :
    Inv (σ.pass t env).pool.slots (σ.pass t env).threads := by
  show Inv (acquire env σ.pool).2.slots (Function.update σ.threads t (acquire env σ.pool).1.thread)
  have hpass := passed env σ.pool
  generalize (acquire env σ.pool).1 = o, (acquire env σ.pool).2.slots = s' at hpass
  cases hpass with
  | wait => exact h.congr (holding_update ht (by simp [Outcome.thread]))
  | closed => exact h.congr (holding_update ht (by simp [Outcome.thread]))
  | null i hfree => exact (h.drop hfree).congr (holding_update ht (by simp [Outcome.thread]))
  | acquired i c hfree hconn =>
    refine h.take hfree ht fun j hji hj => ?_
    rcases hconn with hold | hnew
    · exact hji (h.distinct j i c hj hold)
    · exact hfresh i c hnew j hji hj

theorem step_inv (σ : Machine T) (e : Event T) (h : Inv σ.pool.slots σ.threads) (hfresh : Fresh σ e) :
    Inv (step σ e).pool.slots (step σ e).threads := by
  cases e with
  | acquire t env =>
    cases ht : σ.threads t <;> simp only [step, ht]
    case idle => exact h.pass (by simp [ht]) hfresh
    case signalled => exact h.pass (by simp [ht]) hfresh
    all_goals exact h
  | wake t => exact h.congr holding_signal
  | release t u =>
    cases ht : σ.threads t <;> simp only [step, ht]
    case holding c =>
      by_cases hu : Reaches σ.threads u
      · rw [if_pos hu]
        exact (h.give ht).congr holding_signal
      · rw [if_neg hu]
        exact h
    all_goals exact h
  | health ok => exact h

omit [DecidableEq T] [Fintype T] in
theorem inv_start {connect : Fin poolSize → Option Handle}
    (hconnect : ∀ i j c, connect i = some c → connect j = some c → i = j) :
    Inv (start (T := T) connect).pool.slots (start (T := T) connect).threads := by
  have hslot : ∀ i, ((init connect).slots i).inUse = false ∧
      (((init connect).slots i).conn = connect i ∨ ((init connect).slots i).conn = none) := by
    intro i
    rw [init]
    split
    · exact ⟨rfl, Or.inl rfl⟩
    · exact ⟨rfl, Or.inr rfl⟩
  constructor
  case held => exact fun t c ht => absurd ht (by simp [start])
  case owned => exact fun i hi => absurd hi (Bool.eq_false_iff.mp (hslot i).1)
  case distinct =>
    intro i j c hi hj
    have hback : ∀ i, ((init connect).slots i).conn = some c → connect i = some c := by
      intro i hi
      rcases (hslot i).2 with h | h
      · rwa [← h]
      · rw [h] at hi
        exact absurd hi (by simp)
    exact hconnect i j c (hback i hi) (hback j hj)
  case exclusive => exact fun t u c ht => absurd ht (by simp [start])

/-! ### Counting -/

/-- Whether the thread holds a connection. -/
def Thread.holds : Thread → Bool
  | .holding _ => true
  | _ => false

theorem Thread.holds_iff {th : Thread} : th.holds = true ↔ ∃ c, th = .holding c := by
  cases th <;> simp [Thread.holds]

omit [DecidableEq T] in
theorem Inv.count_holding (h : Inv s threads) :
    count (fun th : Thread => th.holds = true) threads = count (fun slot => slot.inUse = true) s := by
  refine count_eq_of_match (R := fun t i => ∃ c, threads t = .holding c ∧ (s i).conn = some c) ?_ ?_ ?_ ?_
  · intro t ht
    obtain ⟨c, hc⟩ := Thread.holds_iff.mp ht
    obtain ⟨i, hi⟩ := h.held t c hc
    exact ⟨i, by rw [hi], c, hc, by rw [hi]⟩
  · intro i hi
    obtain ⟨t, c, hconn, ht⟩ := h.owned i hi
    exact ⟨t, by rw [ht]; rfl, c, ht, hconn⟩
  · rintro t u i ⟨c, ht, hc⟩ ⟨c', hu, hc'⟩
    rw [hc] at hc'
    cases hc'
    exact h.exclusive t u c ht hu
  · rintro t i j ⟨c, ht, hc⟩ ⟨c', ht', hc'⟩
    rw [ht] at ht'
    cases ht'
    exact h.distinct i j c hc hc'

/-- **One holder for each connection.** Whatever the order of the threads and whatever the database
answers, no two threads hold one connection, what a thread holds is open in a slot in use, and as many
threads hold one as slots are in use. -/
theorem holders_of_run (connect : Fin poolSize → Option Handle)
    (hconnect : ∀ i j c, connect i = some c → connect j = some c → i = j) (es : List (Event T))
    (hfresh : Each step Fresh (start connect) es) :
    let σ := es.foldl step (start connect)
    (∀ t u c, σ.threads t = .holding c → σ.threads u = .holding c → t = u) ∧
      (∀ t c, σ.threads t = .holding c → ∃ i, σ.pool.slots i = ⟨some c, true⟩) ∧
      count (fun th : Thread => th.holds = true) σ.threads =
        count (fun slot => slot.inUse = true) σ.pool.slots ∧
      count (fun th : Thread => th.holds = true) σ.threads ≤ poolSize := by
  intro σ
  have halways : Always step (fun σ => Inv σ.pool.slots σ.threads) (start connect) es :=
    always_of_each step_inv (inv_start hconnect) hfresh
  have h : Inv σ.pool.slots σ.threads := always_iff_prefixes.mp halways es (List.prefix_refl es)
  refine ⟨h.exclusive, h.held, h.count_holding, ?_⟩
  rw [h.count_holding]
  exact count_le _

/-- Two threads, each with the connection of a slot. -/
theorem holders_of_two :
    let env : Fin poolSize → Answers := fun i => ⟨some (10 + i), true, none⟩
    let σ := [Event.acquire false env, .acquire true env].foldl step (start fun i => some i)
    σ.threads false = .holding 0 ∧ σ.threads true = .holding 1 ∧
      ∀ t u c, σ.threads t = .holding c → σ.threads u = .holding c → t = u := by
  refine ⟨by decide, by decide, (holders_of_run (fun i => some i) ?_ _ ?_).1⟩
  · intro i j c hi hj
    exact Fin.ext (Option.some.inj (hi.trans hj.symm))
  · refine ⟨?_, ?_, trivial⟩ <;> intro i c hc <;> revert c <;> revert i <;> simp <;> decide

/-! ### Who sleeps -/

/-- How many connections are in no use. -/
def freeSlots (σ : Machine T) : ℕ := count (fun slot => slot.inUse = false) σ.pool.slots

/-- How many threads are woken and have not looked yet. -/
def woken (σ : Machine T) : ℕ := count (fun th => th = .signalled) σ.threads

/-- A thread sleeps only while each free connection has a woken thread on its way to it. -/
def Served (σ : Machine T) : Prop := (∃ t, σ.threads t = .waiting) → freeSlots σ ≤ woken σ

/-- A woken thread gets `NULL` while another sleeps and no other woken thread is to spare. The signal it
was sent is used up, and it sends none. -/
def Strands (σ : Machine T) : Event T → Prop
  | .acquire t env => σ.threads t = .signalled ∧ (acquire env σ.pool).1 = .null ∧
      (∃ u, u ≠ t ∧ σ.threads u = .waiting) ∧ woken σ ≤ freeSlots σ
  | _ => False

omit [Fintype T] in
theorem waiting_of_update {v : Thread} (hv : v ≠ .waiting) (h : Function.update threads t v u = .waiting) :
    u ≠ t ∧ threads u = .waiting := by
  by_cases hut : u = t
  · subst hut
    rw [Function.update_self] at h
    exact absurd h hv
  · rw [Function.update_of_ne hut] at h
    exact ⟨hut, h⟩

omit [Fintype T] in
theorem waiting_of_signal (h : signal threads t u = .waiting) : threads u = .waiting := by
  rw [signal] at h
  split at h
  · exact (waiting_of_update (by simp) h).2
  · exact h

/-- A thread that is not woken after the change. -/
theorem count_update_signalled (threads : T → Thread) (t : T) {v : Thread} (hv : v ≠ .signalled) :
    count (fun th => th = .signalled) (Function.update threads t v) +
        (if threads t = .signalled then 1 else 0) =
      count (fun th => th = .signalled) threads := by
  have hcount := count_update (P := fun th => th = .signalled) threads t v
  rwa [if_neg hv, Nat.add_zero] at hcount

/-- A sleeper that is woken counts. -/
theorem count_signal (t : T) :
    count (fun th => th = .signalled) (signal threads t) =
      count (fun th => th = .signalled) threads + if threads t = .waiting then 1 else 0 := by
  rw [signal]
  split
  next hwait =>
    have hcount := count_update (P := fun th => th = .signalled) threads t .signalled
    rw [if_neg (by rw [hwait]; simp), if_pos rfl] at hcount
    exact hcount
  next => rfl

theorem count_update_inUse (s : Slots) (i : Fin poolSize) (slot : PoolSlot) :
    count (fun slot => slot.inUse = false) (Function.update s i slot) +
        (if (s i).inUse = false then 1 else 0) =
      count (fun slot => slot.inUse = false) s + if slot.inUse = false then 1 else 0 :=
  count_update s i slot

theorem count_free_le (s : Slots) (c : Handle) :
    count (fun slot => slot.inUse = false) (free s c) ≤ count (fun slot => slot.inUse = false) s + 1 := by
  rw [free]
  cases slotOf s c with
  | none => exact Nat.le_succ _
  | some i =>
    have hcount := count_update_inUse s i { s i with inUse := false }
    rw [if_pos rfl] at hcount
    exact Nat.le.intro hcount

/-- A pass that ends in `NULL` leaves the free connections to one woken thread less. -/
theorem served_null_iff (s : Slots) (h : (∃ u, threads u = .waiting) →
      count (fun slot => slot.inUse = false) s ≤ count (fun th => th = .signalled) threads)
    (ht : threads t = .idle ∨ threads t = .signalled) :
    ((∃ u, Function.update threads t .idle u = .waiting) → count (fun slot => slot.inUse = false) s ≤
        count (fun th => th = .signalled) (Function.update threads t .idle)) ↔
      ¬ (threads t = .signalled ∧ (∃ u, u ≠ t ∧ threads u = .waiting) ∧
        count (fun th => th = .signalled) threads ≤ count (fun slot => slot.inUse = false) s) := by
  have hwoken := count_update_signalled threads t (v := .idle) (by simp)
  constructor
  · rintro hserved ⟨hsig, ⟨u, hut, hu⟩, hle⟩
    rw [if_pos hsig] at hwoken
    have hleft := hserved ⟨u, by rw [Function.update_of_ne hut, hu]⟩
    omega
  · rintro hnot ⟨u, hu⟩
    obtain ⟨hut, hu⟩ := waiting_of_update (by simp) hu
    rcases ht with hidle | hsig
    · rw [if_neg (by simp [hidle])] at hwoken
      have hserved := h ⟨u, hu⟩
      omega
    · rw [if_pos hsig] at hwoken
      have hlt := Nat.lt_of_not_le fun hle => hnot ⟨hsig, ⟨u, hut, hu⟩, hle⟩
      omega

/-- A pass keeps every free connection served, unless it strands a sleeper. -/
theorem served_pass_iff {σ : Machine T} {env : Fin poolSize → Answers} (h : Served σ)
    (ht : σ.threads t = .idle ∨ σ.threads t = .signalled) :
    Served (σ.pass t env) ↔ ¬ Strands σ (.acquire t env) := by
  show ((∃ u, Function.update σ.threads t (acquire env σ.pool).1.thread u = .waiting) →
      count (fun slot => slot.inUse = false) (acquire env σ.pool).2.slots ≤
        count (fun th => th = .signalled)
          (Function.update σ.threads t (acquire env σ.pool).1.thread)) ↔
    ¬ (σ.threads t = .signalled ∧ (acquire env σ.pool).1 = .null ∧
      (∃ u, u ≠ t ∧ σ.threads u = .waiting) ∧ woken σ ≤ freeSlots σ)
  have hpass := passed env σ.pool
  generalize (acquire env σ.pool).1 = o, (acquire env σ.pool).2.slots = s' at hpass
  cases hpass with
  | wait hbusy =>
    have hnone : count (fun slot => slot.inUse = false) σ.pool.slots = 0 :=
      count_eq_zero.mpr fun i hi => by simp [hbusy i] at hi
    exact iff_of_true (fun _ => hnone ▸ Nat.zero_le _) fun hs => by simp at hs
  | closed =>
    simp only [true_and]
    exact served_null_iff σ.pool.slots h ht
  | null i hfree =>
    have hsame := count_update_inUse σ.pool.slots i ⟨none, false⟩
    rw [if_pos hfree, if_pos rfl] at hsame
    rw [Nat.add_right_cancel hsame]
    simp only [true_and]
    exact served_null_iff σ.pool.slots h ht
  | acquired i c hfree hconn =>
    refine iff_of_true ?_ fun hs => by simp at hs
    rintro ⟨u, hu⟩
    obtain ⟨-, hu⟩ := waiting_of_update (by simp [Outcome.thread]) hu
    have hserved : freeSlots σ ≤ woken σ := h ⟨u, hu⟩
    have hslots := count_update_inUse σ.pool.slots i ⟨some c, true⟩
    have hwoken := count_update_signalled σ.threads t (v := .holding c) (by simp)
    rw [if_pos hfree, if_neg (by simp)] at hslots
    -- the free connection it takes goes with at most one woken thread, itself
    have hself : (if σ.threads t = .signalled then 1 else 0) ≤ 1 := by split <;> omega
    simp only [freeSlots, woken, Outcome.thread] at *
    omega

theorem served_step_iff (σ : Machine T) (e : Event T) (h : Served σ) :
    Served (step σ e) ↔ ¬ Strands σ e := by
  cases e with
  | acquire t env =>
    cases ht : σ.threads t <;> simp only [step, ht]
    case idle => exact served_pass_iff h (Or.inl ht)
    case signalled => exact served_pass_iff h (Or.inr ht)
    all_goals exact iff_of_true h fun hs => by simp [Strands, ht] at hs
  | wake t =>
    refine iff_of_true ?_ id
    rintro ⟨u, hu⟩
    have hserved : freeSlots σ ≤ woken σ := h ⟨u, waiting_of_signal hu⟩
    exact hserved.trans (by rw [woken, woken, step, count_signal]; exact Nat.le_add_right _ _)
  | release t u =>
    refine iff_of_true ?_ id
    cases ht : σ.threads t <;> simp only [step, ht]
    case holding c =>
      by_cases hreach : Reaches σ.threads u
      · rw [if_pos hreach]
        rintro ⟨v, hv⟩
        obtain ⟨-, hv⟩ := waiting_of_update (by simp) (waiting_of_signal hv)
        have hserved : freeSlots σ ≤ woken σ := h ⟨v, hv⟩
        -- somebody sleeps, so the signal reaches a sleeper
        have hu : σ.threads u = .waiting := hreach ⟨v, hv⟩
        have hut : u ≠ t := by
          rintro rfl
          simp [ht] at hu
        have hfree := count_free_le σ.pool.slots c
        have hidle := count_update_signalled σ.threads t (v := .idle) (by simp)
        rw [if_neg (by simp [ht])] at hidle
        have hsignal := @count_signal _ _ _ (Function.update σ.threads t .idle) u
        rw [Function.update_of_ne hut, if_pos hu] at hsignal
        simp only [freeSlots, woken] at *
        omega
      · rw [if_neg hreach]
        exact h
    all_goals exact h
  | health ok => exact iff_of_true h id

/-- **Who is left asleep.** In every run, threads sleep only while each free connection has a woken
thread on the way to it, exactly as long as no woken thread gets `NULL` while another sleeps and no
further one is to spare. -/
theorem asleep_iff (connect : Fin poolSize → Option Handle) (es : List (Event T)) :
    Always step Served (start connect) es ↔ Each step (fun σ e => ¬ Strands σ e) (start connect) es :=
  always_iff_each served_step_iff fun ⟨_, ht⟩ => absurd ht (by simp [start])

/-- Ten threads, eight of them with a connection and two asleep. One gives its connection back while the
database is away: the thread it wakes gets `NULL`, and the other sleeps on. -/
example :
    let up : Fin poolSize → Answers := fun _ => ⟨none, true, none⟩
    let down : Fin poolSize → Answers := fun _ => ⟨none, false, none⟩
    let es : List (Event (Fin 10)) :=
      (List.finRange 10).map (fun t => .acquire t up) ++ [.release 0 8, .acquire 8 down]
    let σ := es.foldl step (start fun i => some i)
    σ.threads 9 = .waiting ∧ freeSlots σ = 1 ∧ woken σ = 0 := by
  decide

end SecChat.ConnectionPool
