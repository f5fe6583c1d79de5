import SecChat.Server.RateLimiter
import SecChat.Library.Runs

/-!
# Lockout

What the table of failed logins is for: five failures within a window lock a key out, whatever is
asked for other keys.

* `Window`, `Window.note`: the failures of a key as counted from the calls, without any table;
* `State`, `step`: the code, together with the windows;
* `Timed`, `RecordedFifth`: the clock, and the calls that lock a key out;
* `Matches`, `Tracks`: the bucket of a key agrees with its window, and is there while it is needed;
* `lockout_survives`: who is locked out is refused, and nobody else, unless the table is full.
-/

namespace SecChat.RateLimiter

open Py OpenAddressing

/-! ### Windows -/

/-- The failures of a key: how many were counted since the first one, and the last of them. -/
structure Window where
  count : ℕ
  first : ℤ
  last : ℤ
  deriving DecidableEq, Repr

/-- A failure is counted in the window that is open, or in a new one. -/
def Window.note (now : ℤ) (w : Window) : Window :=
  if w.count = 0 ∨ rateWindowSecs < now - w.first then ⟨1, now, now⟩
  else ⟨w.count + 1, w.first, now⟩

/-- The fifth failure is not long ago. -/
def Window.Locked (now : ℤ) (w : Window) : Prop :=
  rateMaxFailures ≤ w.count ∧ now < w.last + rateLockoutSecs

/-- The table, its load, and the windows. -/
structure State where
  table : Table
  load : ℕ
  windows : String → Window

/-- The start of the server. -/
def State.init : State := ⟨fun _ => zeroBucket, 0, fun _ => ⟨0, 0, 0⟩⟩

/-- The key of a call. -/
def Call.key (sha256 : Bytes → Bytes) (c : Call) : String := rateMakeKey sha256 c.login c.ip

/-- What a call returns. -/
def allows (sha256 : Bytes → Bytes) (s : State) (c : Call) : Bool :=
  (rateCheck sha256 c s.table s.load).2

/-- A call.  A failure counts if the call was allowed. -/
def step (sha256 : Bytes → Bytes) (s : State) (c : Call) : State where
  table := (rateCheck sha256 c s.table s.load).1.1
  load := (rateCheck sha256 c s.table s.load).1.2
  windows :=
    if c.record = true ∧ allows sha256 s c = true then
      Function.update s.windows (c.key sha256) ((s.windows (c.key sha256)).note c.now)
    else s.windows

/-- The calls one after the other. -/
def run (sha256 : Bytes → Bytes) (cs : List Call) : State := cs.foldl (step sha256) .init

/-- The clock counts seconds since the Epoch and does not go back. -/
structure Timed (cs : List Call) : Prop where
  positive : ∀ c ∈ cs, 0 < c.now
  ordered : cs.Pairwise fun c c' => c.now ≤ c'.now

/-- The call recorded the fifth failure of a window, after the calls before it. -/
def RecordedFifth (sha256 : Bytes → Bytes) (before : List Call) (d : Call) : Prop :=
  d.record = true ∧ allows sha256 (run sha256 before) d = true ∧
    ((run sha256 (before ++ [d])).windows (d.key sha256)).count = rateMaxFailures

/-- The key of the call is locked out: some earlier call recorded its fifth failure, less than the
time of a lockout ago. -/
def LockedOut (sha256 : Bytes → Bytes) (cs : List Call) (c : Call) : Prop :=
  ∃ before d after, cs = before ++ d :: after ∧ d.key sha256 = c.key sha256 ∧
    RecordedFifth sha256 before d ∧ c.now < d.now + rateLockoutSecs

/-! ### A bucket and its window -/

/-- A window that code under the clock can have. -/
structure Window.Ok (now : ℤ) (w : Window) : Prop where
  first_pos : 0 < w.first
  first_le : w.first ≤ w.last
  last_le : w.last ≤ now
  narrow : w.last ≤ w.first + rateWindowSecs
  bounded : w.count ≤ rateMaxFailures

/-- The bucket of a window: it has what was counted, or it has forgotten a window that is over. -/
inductive Matches (now : ℤ) (w : Window) (b : RateBucket) : Prop
  | counted (failures : b.failures = w.count) (first : b.firstFail = w.first)
      (lockout : b.lockedUntil = if rateMaxFailures ≤ w.count then w.last + rateLockoutSecs else 0)
  | forgotten (failures : b.failures = 0) (first : b.firstFail = 0) (lockout : b.lockedUntil = 0)
      (ended : rateWindowSecs < now - w.first) (unlocked : ¬ w.Locked now)

/-- The bucket of a key agrees with its window, and is there while the last failure is not too old.
-/
structure Tracks (now : ℤ) (w : Window) (t : Table) (k : String) : Prop where
  entry : ∀ b, Holds t k b → w.count ≠ 0 ∧ b.lastUpdate = w.last ∧ Matches now w b
  present : w.count ≠ 0 → now - w.last ≤ rateTtlSecs → ∃ b, Holds t k b
  ok : w.count ≠ 0 → w.Ok now

variable {now : ℤ} {w : Window} {b : RateBucket} {t t' : Table} {k : String}

theorem Window.not_locked_mono {now' : ℤ} (hle : now ≤ now') (h : ¬ w.Locked now) :
    ¬ w.Locked now' := fun hlocked => h ⟨hlocked.1, hle.trans_lt hlocked.2⟩

theorem Window.Ok.mono {now' : ℤ} (h : w.Ok now) (hle : now ≤ now') : w.Ok now' :=
  { h with last_le := h.last_le.trans hle }

/-- A failure is counted while the key is not locked out. -/
theorem Window.Ok.note (hnow : 0 < now) (h : w.count ≠ 0 → w.Ok now) (hunlocked : ¬ w.Locked now) :
    (w.note now).Ok now ∧ (w.note now).count ≠ 0 ∧ (w.note now).last = now := by
  unfold Window.note
  split
  · refine ⟨⟨hnow, le_rfl, le_rfl, ?_, ?_⟩, one_ne_zero, rfl⟩
    · show now ≤ now + rateWindowSecs
      unfold rateWindowSecs
      omega
    · show 1 ≤ rateMaxFailures
      decide
  · next hopen =>
    obtain ⟨hcount, hin⟩ := not_or.mp hopen
    have hok := h hcount
    have hle := hok.first_le
    have hlast := hok.last_le
    -- a fifth failure would have locked the key out for longer than its window
    have hroom : ¬ rateMaxFailures ≤ w.count := by
      intro hfive
      apply hunlocked
      refine ⟨hfive, ?_⟩
      unfold rateLockoutSecs
      unfold rateWindowSecs at hin
      omega
    refine ⟨⟨hok.first_pos, hle.trans hlast, le_rfl, ?_, ?_⟩, Nat.succ_ne_zero _, rfl⟩
    · show now ≤ w.first + rateWindowSecs
      omega
    · show w.count + 1 ≤ rateMaxFailures
      omega

theorem Matches.mono {now' : ℤ} (h : Matches now w b) (hle : now ≤ now') : Matches now' w b := by
  cases h with
  | counted failures first lockout => exact .counted failures first lockout
  | forgotten failures first lockout ended unlocked =>
    exact .forgotten failures first lockout (by omega) (Window.not_locked_mono hle unlocked)

/-- The bucket is locked exactly while the window is. -/
theorem Matches.locked_iff (h : Matches now w b) (hnow : 0 < now) :
    now < b.lockedUntil ↔ w.Locked now := by
  cases h with
  | counted failures first lockout =>
    rw [lockout]
    unfold Window.Locked
    split
    · next hfive => exact (and_iff_right hfive).symm
    · next hfive => exact iff_of_false (not_lt.mpr hnow.le) fun h => hfive h.1
  | forgotten failures first lockout ended unlocked =>
    rw [lockout]
    exact iff_of_false (not_lt.mpr hnow.le) unlocked

theorem Matches.expireWindow (h : Matches now w b) (hunlocked : ¬ w.Locked now) :
    Matches now w (expireWindow now b) := by
  unfold RateLimiter.expireWindow
  split
  · next hold =>
    cases h with
    | counted failures first lockout =>
      rw [first] at hold
      exact .forgotten rfl rfl rfl hold.2 hunlocked
    | forgotten failures first lockout ended unlocked =>
      rw [first] at hold
      exact absurd hold.1 (lt_irrefl 0)
  · exact h

theorem recordFailure_of_eq (h : b.failures = 0) : recordFailure now b =
    { b with failures := 1, firstFail := now, lastUpdate := now } := by
  have hone : ¬ rateMaxFailures ≤ 0 + 1 := by decide
  simp only [recordFailure, h, if_true, if_neg hone]

theorem recordFailure_of_ne (h : b.failures ≠ 0) : recordFailure now b =
    { b with
      failures := b.failures + 1
      lastUpdate := now
      lockedUntil :=
        if rateMaxFailures ≤ b.failures + 1 then now + rateLockoutSecs else b.lockedUntil } := by
  simp only [recordFailure, if_neg h]
  split <;> rfl

/-- A failure is recorded in the bucket as it is counted in the window. -/
theorem Matches.recordFailure (h : Matches now w b) (hcount : w.count ≠ 0) (hok : w.Ok now)
    (hunlocked : ¬ w.Locked now) :
    Matches now (w.note now) (recordFailure now (RateLimiter.expireWindow now b)) := by
  cases h with
  | counted failures first lockout =>
    by_cases hold : rateWindowSecs < now - w.first
    · -- the window is over: the bucket starts again
      have hexpire : RateLimiter.expireWindow now b =
          { b with failures := 0, firstFail := 0, lockedUntil := 0 } := by
        unfold RateLimiter.expireWindow
        rw [if_pos ⟨by rw [first]; exact hok.first_pos, by rw [first]; exact hold⟩]
      have hnote : w.note now = ⟨1, now, now⟩ := if_pos (.inr hold)
      rw [hexpire, recordFailure_of_eq rfl, hnote]
      exact .counted rfl rfl rfl
    · have hexpire : RateLimiter.expireWindow now b = b := by
        unfold RateLimiter.expireWindow
        rw [if_neg]
        rw [first]
        exact fun h => hold h.2
      have hnote : w.note now = ⟨w.count + 1, w.first, now⟩ :=
        if_neg (not_or.mpr ⟨hcount, hold⟩)
      have hroom : ¬ rateMaxFailures ≤ w.count := by
        intro hfive
        have := (Window.Ok.note (hok.first_pos.trans_le (hok.first_le.trans hok.last_le))
          (fun _ => hok) hunlocked).1.bounded
        rw [hnote] at this
        exact absurd (Nat.le_trans this hfive) (Nat.not_succ_le_self _)
      rw [if_neg hroom] at lockout
      rw [hexpire, hnote]
      rw [recordFailure_of_ne (by rw [failures]; exact hcount), failures, lockout]
      exact .counted rfl first rfl
  | forgotten failures first lockout ended unlocked =>
    have hexpire : RateLimiter.expireWindow now b = b := by
      unfold RateLimiter.expireWindow
      rw [if_neg]
      rw [first]
      exact fun h => absurd h.1 (lt_irrefl 0)
    have hnote : w.note now = ⟨1, now, now⟩ := if_pos (.inr ended)
    rw [hexpire, hnote]
    rw [recordFailure_of_eq failures]
    exact .counted rfl rfl lockout

theorem lastUpdate_expireWindow (now : ℤ) (b : RateBucket) :
    (expireWindow now b).lastUpdate = b.lastUpdate := by
  unfold expireWindow
  split <;> rfl

theorem lastUpdate_recordFailure (now : ℤ) (b : RateBucket) :
    (recordFailure now b).lastUpdate = now := by
  by_cases h : b.failures = 0
  · rw [recordFailure_of_eq h]
  · rw [recordFailure_of_ne h]

/-! ### What calls do to the bucket of a key -/

theorem Tracks.mono {now' : ℤ} (h : Tracks now w t k) (hle : now ≤ now') : Tracks now' w t k where
  entry b hb := ⟨(h.entry b hb).1, (h.entry b hb).2.1, (h.entry b hb).2.2.mono hle⟩
  present hcount hrecent := h.present hcount (by omega)
  ok hcount := (h.ok hcount).mono hle

theorem Tracks.pruned (h : Tracks now w t k) (hp : Pruned now t t') : Tracks now w t' k where
  entry b hb := h.entry b (hp.old k b hb)
  present hcount hrecent := by
    obtain ⟨b, hb⟩ := h.present hcount hrecent
    refine ⟨b, hp.kept k b hb ?_⟩
    unfold Expired
    rw [(h.entry b hb).2.1]
    omega
  ok := h.ok

theorem Tracks.congr (h : Tracks now w t k) (heq : ∀ b, Holds t' k b ↔ Holds t k b) :
    Tracks now w t' k where
  entry b hb := h.entry b ((heq b).mp hb)
  present hcount hrecent := (h.present hcount hrecent).imp fun b hb => (heq b).mpr hb
  ok := h.ok

/-- A call for a key leaves the buckets of the others as they are needed. -/
theorem Outcome.others {record : Bool} {key : String} {allowed : Bool}
    (ho : Outcome now record key t t' allowed) (hne : k ≠ key) (h : Tracks now w t k) :
    Tracks now w t' k := by
  cases ho with
  | full pruned active => exact h.pruned pruned
  | unknown pruned absent asked => exact h.pruned pruned
  | fresh pruned absent recorded written others => exact (h.pruned pruned).congr (others k hne)
  | locked pruned found lockout => exact h.pruned pruned
  | allowed pruned found recent unlocked written others =>
    exact (h.pruned pruned).congr (others k hne)

/-- The bucket that was written is the one of the key. -/
theorem Tracks.of_written (hsound : scheme.Sound t) (hb : Holds t k b) (hcount : w.count ≠ 0)
    (hlast : b.lastUpdate = w.last) (hm : Matches now w b) (hok : w.Ok now) : Tracks now w t k where
  entry b' hb' := by
    obtain rfl := Holds.eq hsound hb hb'
    exact ⟨hcount, hlast, hm⟩
  present _ _ := ⟨b, hb⟩
  ok _ := hok

/-- **A call for a key.** It is refused if the key is locked out, and otherwise only if the table is
full; a failure that it records is counted. -/
theorem Outcome.tracks {record : Bool} {allowed : Bool} (ho : Outcome now record k t t' allowed)
    (hsound : scheme.Sound t') (hnow : 0 < now) (h : Tracks now w t k) :
    Tracks now (if record = true ∧ allowed = true then w.note now else w) t' k ∧
      (w.Locked now → allowed = false) ∧
      (allowed = false → w.Locked now ∨ ∀ s, (t' s).state = .active) := by
  -- a key without a bucket has no window that matters
  have hidle : ∀ {t₁ : Table}, Tracks now w t₁ k → (∀ b, ¬ Holds t₁ k b) →
      w.count ≠ 0 → rateTtlSecs < now - w.last := by
    intro t₁ h₁ habsent hcount
    by_contra hrecent
    obtain ⟨b, hb⟩ := h₁.present hcount (not_lt.mp hrecent)
    exact habsent b hb
  have hfree : ∀ {t₁ : Table}, Tracks now w t₁ k → (∀ b, ¬ Holds t₁ k b) → ¬ w.Locked now := by
    rintro t₁ h₁ habsent ⟨hfive, hrecent⟩
    have hold := hidle h₁ habsent (by
      intro hzero
      rw [hzero] at hfive
      exact absurd hfive (by decide))
    unfold rateTtlSecs at hold
    unfold rateLockoutSecs at hrecent
    omega
  cases ho with
  | full pruned active =>
    rw [if_neg fun h => Bool.false_ne_true h.2]
    exact ⟨h.pruned pruned, fun _ => rfl, fun _ => .inr active⟩
  | unknown pruned absent asked =>
    rw [if_neg fun h => Bool.false_ne_true (asked.symm.trans h.1)]
    exact ⟨h.pruned pruned, fun hlocked => absurd hlocked (hfree (h.pruned pruned) absent),
      fun hrefused => by cases hrefused⟩
  | fresh pruned absent recorded written others =>
    rw [if_pos ⟨recorded, rfl⟩]
    have hunlocked := hfree (h.pruned pruned) absent
    obtain ⟨hok, hcount, hlast⟩ := Window.Ok.note hnow h.ok hunlocked
    have hnote : w.note now = ⟨1, now, now⟩ := by
      refine if_pos (or_iff_not_imp_left.mpr fun hcount => ?_)
      have hold := hidle (h.pruned pruned) absent hcount
      have hle := (h.ok hcount).first_le
      unfold rateTtlSecs at hold
      unfold rateWindowSecs
      omega
    refine ⟨.of_written hsound written hcount hlast.symm ?_ hok,
      fun hlocked => absurd hlocked hunlocked, fun hrefused => by cases hrefused⟩
    rw [hnote]
    exact .counted rfl rfl rfl
  | locked pruned found lockout =>
    rw [if_neg fun h => Bool.false_ne_true h.2]
    have hm := ((h.pruned pruned).entry _ found).2.2
    exact ⟨h.pruned pruned, fun _ => rfl, fun _ => .inl ((hm.locked_iff hnow).mp lockout)⟩
  | @allowed t₁ t₂ b pruned found recent unlocked written others =>
    obtain ⟨hcount, hlast, hm⟩ := (h.pruned pruned).entry _ found
    have hok := h.ok hcount
    have hunlocked : ¬ w.Locked now := fun hlocked =>
      absurd ((hm.locked_iff hnow).mpr hlocked) (not_lt.mpr unlocked)
    refine ⟨?_, fun hlocked => absurd hlocked hunlocked, fun hrefused => by cases hrefused⟩
    cases record with
    | false =>
      rw [if_neg fun h => Bool.false_ne_true h.1]
      exact .of_written hsound written hcount
        ((lastUpdate_expireWindow now b).trans hlast) (hm.expireWindow hunlocked) hok
    | true =>
      rw [if_pos ⟨rfl, rfl⟩]
      obtain ⟨hok', hcount', hlast'⟩ := Window.Ok.note hnow h.ok hunlocked
      exact .of_written hsound written hcount'
        ((lastUpdate_recordFailure now _).trans hlast'.symm)
        (hm.recordFailure hcount hok hunlocked) hok'

/-! ### Runs -/

variable {sha256 : Bytes → Bytes} {s : State} {cs : List Call} {c : Call}

/-- The table is in order, and every key has the bucket of its window. -/
structure Inv (now : ℤ) (s : State) : Prop where
  fit : Fit s.table s.load
  tracks : ∀ k, Tracks now (s.windows k) s.table k

theorem Inv.mono {now' : ℤ} (h : Inv now s) (hle : now ≤ now') : Inv now' s where
  fit := h.fit
  tracks k := (h.tracks k).mono hle

theorem inv_init (now : ℤ) : Inv now .init where
  fit := fit_empty
  tracks k := by
    refine ⟨?_, fun hcount => absurd rfl hcount, fun hcount => absurd rfl hcount⟩
    rintro b ⟨s, rfl, hactive, -⟩
    cases hactive

theorem windows_step_of_refused (h : ¬ (c.record = true ∧ allows sha256 s c = true)) :
    (step sha256 s c).windows = s.windows := if_neg h

theorem windows_step_of_ne (h : k ≠ c.key sha256) :
    (step sha256 s c).windows k = s.windows k := by
  unfold step
  dsimp only
  split
  · exact Function.update_of_ne h ..
  · rfl

theorem windows_step_self : (step sha256 s c).windows (c.key sha256) =
    if c.record = true ∧ allows sha256 s c = true then (s.windows (c.key sha256)).note c.now
    else s.windows (c.key sha256) := by
  unfold step
  dsimp only
  split
  · exact Function.update_self ..
  · rfl

/-- **A step.** The invariant is kept, and who is refused is locked out, without an address, or
facing a full table. -/
theorem Inv.step (h : Inv c.now s) (hnow : 0 < c.now) :
    Inv c.now (step sha256 s c) ∧
      ((s.windows (c.key sha256)).Locked c.now → allows sha256 s c = false) ∧
      (allows sha256 s c = false → c.ip = [] ∨ (s.windows (c.key sha256)).Locked c.now ∨
        ∀ i, ((RateLimiter.step sha256 s c).table i).state = .active) := by
  by_cases hip : c.ip = []
  · have hcheck : rateCheck sha256 c s.table s.load = ((s.table, s.load), false) := if_pos hip
    have hrefused : allows sha256 s c = false := by rw [allows, hcheck]
    have hwindows : (RateLimiter.step sha256 s c).windows = s.windows :=
      windows_step_of_refused fun h => Bool.false_ne_true (hrefused.symm.trans h.2)
    refine ⟨⟨?_, fun k => ?_⟩, fun _ => hrefused, fun _ => .inl hip⟩
    · simp only [RateLimiter.step, hcheck]
      exact h.fit
    · rw [hwindows]
      simp only [RateLimiter.step, hcheck]
      exact h.tracks k
  · have hcheck : rateCheck sha256 c s.table s.load =
        checkKey c.now c.record (c.key sha256) s.table s.load := if_neg hip
    obtain ⟨hfit, hout⟩ := checkKey_outcome h.fit hnow.le c.record (c.key sha256)
    rw [← hcheck] at hfit hout
    obtain ⟨htracks, hlocked, hrefused⟩ := hout.tracks hfit.sound hnow (h.tracks _)
    refine ⟨⟨hfit, fun k => ?_⟩, hlocked, fun hfalse => .inr (hrefused hfalse)⟩
    by_cases hk : k = c.key sha256
    · subst hk
      rw [windows_step_self]
      exact htracks
    · rw [windows_step_of_ne hk]
      exact hout.others hk (h.tracks k)

theorem run_concat (cs : List Call) (c : Call) :
    run sha256 (cs ++ [c]) = step sha256 (run sha256 cs) c := by
  rw [run, List.foldl_concat, run]

theorem Timed.of_append {cs' : List Call} (h : Timed (cs ++ cs')) : Timed cs where
  positive c hc := h.positive c (List.mem_append_left _ hc)
  ordered := (List.pairwise_append.mp h.ordered).1

theorem Timed.le (h : Timed (cs ++ [c])) : ∀ d ∈ cs, d.now ≤ c.now := fun d hd =>
  (List.pairwise_append.mp h.ordered).2.2 d hd c (List.mem_singleton_self c)

theorem Timed.last (h : Timed (cs ++ [c])) : 0 < c.now :=
  h.positive c (List.mem_append_right _ (List.mem_singleton_self c))

/-- **The invariant of runs.**  The induction is on the calls, the last one first. -/
theorem run_inv (h : Timed cs) : ∀ now, (∀ d ∈ cs, d.now ≤ now) → Inv now (run sha256 cs) := by
  induction cs using List.reverseRecOn with
  | nil => exact fun now _ => inv_init now
  | append_singleton cs c ih =>
    intro now hle
    rw [run_concat]
    have hinv := ih h.of_append c.now h.le
    exact (hinv.step h.last).1.mono
      (hle c (List.mem_append_right _ (List.mem_singleton_self c)))

/-- A window with five failures comes from the call that recorded the fifth. -/
theorem exists_recordedFifth (h : Timed cs)
    (hfive : rateMaxFailures ≤ ((run sha256 cs).windows k).count) :
    ∃ before d after, cs = before ++ d :: after ∧ d.key sha256 = k ∧
      RecordedFifth sha256 before d ∧ ((run sha256 cs).windows k).last = d.now := by
  induction cs using List.reverseRecOn with
  | nil => exact absurd hfive (show ¬ rateMaxFailures ≤ 0 by decide)
  | append_singleton cs c ih =>
    have hinv : Inv c.now (run sha256 cs) := run_inv h.of_append c.now h.le
    by_cases hcounted : k = c.key sha256 ∧ c.record = true ∧ allows sha256 (run sha256 cs) c = true
    · -- the last call counted a failure of the key
      obtain ⟨rfl, hrecord, hallowed⟩ := hcounted
      have hnote : (run sha256 (cs ++ [c])).windows (c.key sha256) =
          ((run sha256 cs).windows (c.key sha256)).note c.now := by
        rw [run_concat, windows_step_self, if_pos ⟨hrecord, hallowed⟩]
      have hunlocked : ¬ ((run sha256 cs).windows (c.key sha256)).Locked c.now := by
        intro hlocked
        rw [(hinv.step h.last).2.1 hlocked] at hallowed
        cases hallowed
      obtain ⟨hok, -, hlast⟩ := Window.Ok.note h.last (hinv.tracks _).ok hunlocked
      rw [hnote] at hfive
      refine ⟨cs, c, [], rfl, rfl, ⟨hrecord, hallowed, ?_⟩, ?_⟩
      · rw [hnote]
        exact le_antisymm hok.bounded hfive
      · rw [hnote, hlast]
    · have hsame : (run sha256 (cs ++ [c])).windows k = (run sha256 cs).windows k := by
        rw [run_concat]
        by_cases hk : k = c.key sha256
        · rw [windows_step_of_refused fun h => hcounted ⟨hk, h⟩]
        · exact windows_step_of_ne hk
      rw [hsame] at hfive ⊢
      obtain ⟨before, d, after, rfl, hd⟩ := ih h.of_append hfive
      exact ⟨before, d, after ++ [c], by rw [List.append_assoc, List.cons_append], hd⟩

/-- As long as the lockout lasts, the window stays as the fifth failure left it. -/
theorem windows_of_recordedFifth {before after : List Call} {d : Call}
    (h : Timed (before ++ [d] ++ after)) (hfifth : RecordedFifth sha256 before d)
    (hrecent : ∀ c ∈ after, c.now < d.now + rateLockoutSecs) :
    ((run sha256 (before ++ [d] ++ after)).windows (d.key sha256)).count = rateMaxFailures ∧
      ((run sha256 (before ++ [d] ++ after)).windows (d.key sha256)).last = d.now := by
  obtain ⟨hrecord, hallowed, hcount⟩ := hfifth
  induction after using List.reverseRecOn with
  | nil =>
    rw [List.append_nil] at h ⊢
    refine ⟨hcount, ?_⟩
    have hinv : Inv d.now (run sha256 before) := run_inv h.of_append d.now h.le
    have hunlocked : ¬ ((run sha256 before).windows (d.key sha256)).Locked d.now := by
      intro hlocked
      rw [(hinv.step h.last).2.1 hlocked] at hallowed
      cases hallowed
    rw [run_concat, windows_step_self, if_pos ⟨hrecord, hallowed⟩]
    exact (Window.Ok.note h.last (hinv.tracks _).ok hunlocked).2.2
  | append_singleton after c ih =>
    rw [← List.append_assoc] at h ⊢
    obtain ⟨hfive, hlast⟩ := ih h.of_append fun c hc => hrecent c (List.mem_append_left _ hc)
    have hinv : Inv c.now (run sha256 (before ++ [d] ++ after)) :=
      run_inv h.of_append c.now h.le
    have hlocked : ((run sha256 (before ++ [d] ++ after)).windows (d.key sha256)).Locked c.now := by
      refine ⟨hfive.ge, ?_⟩
      rw [hlast]
      exact hrecent c (List.mem_append_right _ (List.mem_singleton_self c))
    have hsame : (run sha256 (before ++ [d] ++ after ++ [c])).windows (d.key sha256) =
        (run sha256 (before ++ [d] ++ after)).windows (d.key sha256) := by
      rw [run_concat]
      by_cases hk : d.key sha256 = c.key sha256
      · rw [hk] at hlocked
        rw [windows_step_of_refused]
        rintro ⟨-, hallow⟩
        rw [(hinv.step h.last).2.1 hlocked] at hallow
        cases hallow
      · exact windows_step_of_ne hk
    rw [hsame]
    exact ⟨hfive, hlast⟩

/-- The windows say who is locked out. -/
theorem lockedOut_iff (h : Timed (cs ++ [c])) :
    LockedOut sha256 cs c ↔ ((run sha256 cs).windows (c.key sha256)).Locked c.now := by
  constructor
  · rintro ⟨before, d, after, rfl, hkey, hfifth, hrecent⟩
    have hsplit : before ++ d :: after = before ++ [d] ++ after := by
      rw [List.append_assoc, List.singleton_append]
    rw [hsplit] at h ⊢
    have hwindow := windows_of_recordedFifth h.of_append hfifth fun c' hc' =>
      (h.le c' (List.mem_append_right _ hc')).trans_lt hrecent
    rw [← hkey]
    exact ⟨hwindow.1.ge, by rw [hwindow.2]; exact hrecent⟩
  · rintro ⟨hfive, hrecent⟩
    obtain ⟨before, d, after, hcs, hkey, hfifth, hlast⟩ := exists_recordedFifth h.of_append hfive
    rw [hlast] at hrecent
    exact ⟨before, d, after, hcs, hkey, hfifth, hrecent⟩

/-- **Lockout survives.** After any calls the table has every key at most once and on its way.  A
key that is locked out is refused, and a call is refused only for a key that is locked out, without
an address, or when all buckets are occupied. -/
theorem lockout_survives (sha256 : Bytes → Bytes) (cs : List Call) (c : Call)
    (h : Timed (cs ++ [c])) :
    scheme.Sound (run sha256 cs).table ∧ scheme.Sound (run sha256 (cs ++ [c])).table ∧
      (LockedOut sha256 cs c → allows sha256 (run sha256 cs) c = false) ∧
      (allows sha256 (run sha256 cs) c = false → c.ip = [] ∨ LockedOut sha256 cs c ∨
        ∀ i, ((run sha256 (cs ++ [c])).table i).state = .active) := by
  have hinv : Inv c.now (run sha256 cs) := run_inv h.of_append c.now h.le
  obtain ⟨hinv', hlocked, hrefused⟩ := hinv.step h.last
  rw [lockedOut_iff h, run_concat]
  exact ⟨hinv.fit.sound, hinv'.fit.sound, hlocked, hrefused⟩

/-- A failed login of one account at a time. -/
def failedLogin (now : ℤ) : Call := ⟨[0x61], [0x31], true, now⟩

/-- Five failures within four seconds, and a login four minutes later. -/
theorem lockout_survives_five :
    Timed ([10, 11, 12, 13, 14].map failedLogin ++ [⟨[0x61], [0x31], false, 250⟩]) ∧
      allows (fun d => List.replicate 32 (d.getD 0 0))
        (run (fun d => List.replicate 32 (d.getD 0 0)) ([10, 11, 12, 13, 14].map failedLogin))
        ⟨[0x61], [0x31], false, 250⟩ = false := by
  have htimed : Timed ([10, 11, 12, 13, 14].map failedLogin ++ [⟨[0x61], [0x31], false, 250⟩]) :=
    ⟨by decide, by decide⟩
  refine ⟨htimed, (lockout_survives _ _ _ htimed).2.2.1 ?_⟩
  exact ⟨[10, 11, 12, 13].map failedLogin, failedLogin 14, [], rfl, rfl,
    ⟨rfl, by decide +kernel, by decide +kernel⟩, by decide⟩

end SecChat.RateLimiter
