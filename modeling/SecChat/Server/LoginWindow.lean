import SecChat.Server.Lockout

/-!
# The window of the login limiter

`handle_auth` asks the limiter before it verifies a password, and records a failure after that.
Other attempts for the same login and address can come between, and a window of the limiter starts
with its first failure and does not slide.

* `Server`, `Event`, `step`: the limiter, and the attempts that are between their check and their end;
* `Sliding`: no interval of the length of a window has more failures than a window may have;
* `Counted`: a failure that the limiter counts, in a window that leaves no recent failure behind;
* `sliding_of_counted`: a run of counted failures is sliding.

A failure is noted at the time of its record step.
-/

namespace SecChat.RateLimiter

open Py OpenAddressing

/-! ### A search that finds nothing -/

/-- A slot that ends a search for the key, or can be used again. -/
def Usable (now : ℤ) (key : String) (b : RateBucket) : Prop :=
  b.state ≠ .active ∨ Expired now b ∨ b.key = key

variable {now : ℤ} {key : String} {t : Table} {load : ℕ}

/-- A live bucket of the key is found.  The induction is on the slots that are still to be seen;
what is buried on the way is expired. -/
theorem search_ne_nothing {slots : List (Fin rateBuckets)} {tomb : Option (Fin rateBuckets)}
    {s : Fin rateBuckets} (hs : s ∈ slots) (hactive : (t s).state = .active)
    (hrecent : ¬ Expired now (t s)) (hkey : (t s).key = key) :
    (search now key slots t tomb).2.2 ≠ .nothing := by
  induction slots generalizing t tomb with
  | nil => exact absurd hs List.not_mem_nil
  | cons first slots ih =>
    by_cases hfirst : s = first
    · subst hfirst
      simp [search, hactive, hrecent, hkey]
    · have hrest := List.mem_of_ne_of_mem hfirst hs
      unfold search
      split
      · simp
      · exact ih hrest hactive hrecent hkey
      · split
        · -- the slot that is buried is another one
          have hsame : Function.update t first { t first with state := .tomb } s = t s :=
            Function.update_of_ne hfirst ..
          exact ih hrest (by rwa [hsame]) (by rwa [hsame]) (by rwa [hsame])
        · split
          · simp
          · exact ih hrest hactive hrecent hkey

/-- With all slots taken after the rebuild, all were taken before it, and by the same buckets. -/
theorem exists_slot_of_pruned {t' : Table} (hsound : scheme.Sound t') (hpruned : Pruned now t t')
    (hactive : ∀ s, (t' s).state = .active) (s : Fin rateBuckets) : ∃ s', t s = t' s' := by
  have hsame : ∀ s, ∃ s', t s' = t' s := by
    intro s
    obtain ⟨s', heq, -⟩ := hpruned.old _ _ ⟨s, rfl, hactive s, rfl⟩
    exact ⟨s', heq⟩
  choose slot hslot using hsame
  have hinjective : Function.Injective slot := by
    intro s₁ s₂ heq
    have hbucket : t' s₁ = t' s₂ := by rw [← hslot s₁, heq, hslot s₂]
    refine hsound.unique s₁ s₂ (t' s₁).key (keyOf_eq_some.mpr ⟨hactive s₁, rfl⟩) ?_
    exact keyOf_eq_some.mpr ⟨hactive s₂, by rw [hbucket]⟩
  obtain ⟨s', rfl⟩ := (Finite.injective_iff_surjective.mp hinjective) s
  exact ⟨s', hslot s'⟩

/-- **Who is refused.**  A key whose bucket is locked, or one that has no usable slot. -/
theorem not_usable_of_refused (hfit : Fit t load) {record : Bool}
    (h : (checkKey now record key t load).2 = false)
    (hunlocked : ∀ b, Holds t key b → b.lockedUntil ≤ now) (hnow : 0 ≤ now) (s : Fin rateBuckets) :
    ¬ Usable now key (t s) := by
  unfold checkKey at h
  cases hr : (if rateCompactAt ≤ load then rateCompact now t else (t, load)) with
  | mk t₁ load₁ =>
    obtain ⟨hfit₁, hpruned, hfull⟩ := compacted hfit now hr
    have hsearched : Searched now key t₁ (search now key (probes key) t₁ none) :=
      search_searched (probes key) [] t₁ none (List.nil_append _).symm
        (fun s hs => absurd hs List.not_mem_nil) fun a ha => by cases ha
    have hfound : ∀ s, (t₁ s).state = .active → ¬ Expired now (t₁ s) → (t₁ s).key = key →
        (search now key (probes key) t₁ none).2.2 ≠ .nothing := fun s =>
      search_ne_nothing (mem_probes key s)
    rw [hr] at h
    dsimp only at h
    generalize search now key (probes key) t₁ none = r at hsearched hfound h
    cases hsearched with
    | @vacant t₂ tomb v pre post buried order empty seen free =>
      dsimp only at h
      split at h
      · cases h
      · rw [finish_eq, if_neg (by rw [Function.update_self]; exact not_lt.mpr hnow)] at h
        cases h
    | @bucket t₂ tomb slot buried active found recent =>
      dsimp only at h
      have hholds : Holds t key (t₂ slot) :=
        (hpruned.trans buried.pruned).old _ _ ⟨slot, rfl, active, found⟩
      rw [finish_eq, if_neg (not_lt.mpr (hunlocked _ hholds))] at h
      cases h
    | @nothing t₂ tomb buried full =>
      have hlive := hfull full
      obtain ⟨s', heq⟩ := exists_slot_of_pruned hfit₁.sound hpruned (fun s => (hlive s).1) s
      rw [heq]
      rintro (hstate | hexpired | hkey)
      · exact hstate (hlive s').1
      · exact (hlive s').2 hexpired
      · exact hfound s' (hlive s').1 (hlive s').2 hkey rfl

/-! ### Attempts -/

namespace Attempts

/-- A verification that failed. -/
structure Failure where
  login : Bytes
  ip : Bytes
  time : ℤ
  deriving DecidableEq

/-- The limiter, the attempts of the connections that were allowed and have not ended, and the
clock. `failures` is a ghost. -/
structure Server where
  limiter : State
  inFlight : ℕ → Option (Bytes × Bytes)
  clock : ℤ
  failures : List Failure

/-- The start of the server. -/
def Server.init (start : ℤ) : Server := ⟨.init, fun _ => none, start, []⟩

/-- The two steps of `handle_auth` for a connection, each so many seconds after the step before. -/
inductive Event
  | check (conn : ℕ) (login ip : Bytes) (wait : ℕ)
  | finish (conn : ℕ) (verified : Bool) (wait : ℕ)

variable (sha256 : Bytes → Bytes)

/-- One step.  A connection handles one message at a time. -/
def step (s : Server) : Event → Server
  | .check conn login ip wait =>
      let now := s.clock + wait
      match s.inFlight conn with
      | some _ => { s with clock := now }
      | none =>
          let call : Call := ⟨login, ip, false, now⟩
          { s with
            limiter := RateLimiter.step sha256 s.limiter call
            inFlight :=
              if allows sha256 s.limiter call then Function.update s.inFlight conn (some (login, ip))
              else s.inFlight
            clock := now }
  | .finish conn verified wait =>
      let now := s.clock + wait
      match s.inFlight conn with
      | none => { s with clock := now }
      | some (login, ip) =>
          let s := { s with inFlight := Function.update s.inFlight conn none, clock := now }
          if verified then s
          else
            { s with
              limiter := RateLimiter.step sha256 s.limiter ⟨login, ip, true, now⟩
              failures := s.failures ++ [⟨login, ip, now⟩] }

/-- The failures of a login and an address in the seconds from `a` on. -/
def inWindow (failures : List Failure) (login ip : Bytes) (a : ℤ) : List Failure :=
  failures.filter fun f => f.login = login ∧ f.ip = ip ∧ a ≤ f.time ∧ f.time ≤ a + rateWindowSecs

/-- No window, wherever it is placed, has more failures than it may have. -/
def Sliding (s : Server) : Prop :=
  ∀ login ip a, (inWindow s.failures login ip a).length ≤ rateMaxFailures

/-- The failures of a key. -/
def timesOf (key : String) (failures : List Failure) : List ℤ :=
  (failures.filter fun f => rateMakeKey sha256 f.login f.ip = key).map Failure.time

/-- A failure that is counted.  The key was not locked out while its password was verified, it has a
bucket or there is room for one, and a window that begins with it leaves no failure behind that is
as recent as a window is long. -/
structure Counted (s : Server) (now : ℤ) (key : String) : Prop where
  unlocked : ¬ (s.limiter.windows key).Locked now
  room : ∃ slot, Usable now key (s.limiter.table slot)
  late : (s.limiter.windows key).count = 0 ∨ rateWindowSecs < now - (s.limiter.windows key).first →
    ∀ time ∈ timesOf sha256 key s.failures, rateWindowSecs < now - time

/-- A step is fine unless it records a failure that is not counted. -/
def StepOk (s : Server) : Event → Prop
  | .finish conn false wait => ∀ login ip, s.inFlight conn = some (login, ip) →
      Counted sha256 s (s.clock + wait) (rateMakeKey sha256 login ip)
  | _ => True

/-! ### Windows that do not slide -/

/-- The failures of a key: the last of them are those in its window, and the others are older than
the window by its length. -/
structure Slides (w : Window) (times : List ℤ) : Prop where
  split : ∃ older current, times = older ++ current ∧ current.length = w.count ∧
    ∀ time ∈ older, time + rateWindowSecs < w.first
  bounded : ∀ a, times.countP (fun time => a ≤ time ∧ time ≤ a + rateWindowSecs) ≤ rateMaxFailures

variable {sha256} {w : Window} {times : List ℤ} {now : ℤ}

theorem slides_nil : Slides ⟨0, 0, 0⟩ [] where
  split := ⟨[], [], rfl, rfl, fun _ h => absurd h List.not_mem_nil⟩
  bounded _ := Nat.zero_le _

/-- **A failure that is counted.**  An interval with the new failure has no failure from before the
window. -/
theorem Slides.note (h : Slides w times) (hok : (w.note now).Ok now)
    (hlate : w.count = 0 ∨ rateWindowSecs < now - w.first → ∀ time ∈ times, rateWindowSecs < now - time) :
    Slides (w.note now) (times ++ [now]) := by
  have hsplit : ∃ older current, times ++ [now] = older ++ current ∧
      current.length = (w.note now).count ∧ ∀ time ∈ older, time + rateWindowSecs < (w.note now).first := by
    unfold Window.note
    split
    · next hnew =>
      refine ⟨times, [now], rfl, rfl, fun time htime => ?_⟩
      show time + rateWindowSecs < now
      have hafter := hlate hnew time htime
      omega
    · obtain ⟨older, current, rfl, hcount, holder⟩ := h.split
      refine ⟨older, current ++ [now], List.append_assoc .., ?_, holder⟩
      rw [List.length_append, List.length_singleton, hcount]
  refine ⟨hsplit, fun a => ?_⟩
  by_cases hin : a ≤ now ∧ now ≤ a + rateWindowSecs
  · obtain ⟨older, current, heq, hcount, holder⟩ := hsplit
    have hfirst : (w.note now).first ≤ now := hok.first_le.trans hok.last_le
    have hnone : older.countP (fun time => a ≤ time ∧ time ≤ a + rateWindowSecs) = 0 := by
      rw [List.countP_eq_zero]
      intro time htime
      have hbefore := holder time htime
      have hstart := hin.2
      simp only [decide_eq_true_eq, not_and, not_le]
      intro hle
      omega
    rw [heq, List.countP_append, hnone, zero_add]
    exact List.countP_le_length.trans (hcount.le.trans hok.bounded)
  · rw [List.countP_append, List.countP_singleton, if_neg (by simpa using hin), add_zero]
    exact h.bounded a

/-! ### Runs -/

/-- The limiter is in order, every attempt in flight has an address, and the windows slide. -/
structure Inv (sha256 : Bytes → Bytes) (s : Server) : Prop where
  clock : 0 < s.clock
  limiter : RateLimiter.Inv s.clock s.limiter
  address : ∀ conn login ip, s.inFlight conn = some (login, ip) → ip ≠ []
  slides : ∀ key, Slides (s.limiter.windows key) (timesOf sha256 key s.failures)

variable {s : Server} {e : Event}

theorem inv_init {start : ℤ} (hstart : 0 < start) : Inv sha256 (.init start) where
  clock := hstart
  limiter := RateLimiter.inv_init start
  address _ _ _ h := by cases h
  slides _ := slides_nil

theorem Inv.wait (h : Inv sha256 s) (wait : ℕ) : Inv sha256 { s with clock := s.clock + wait } where
  clock := add_pos_of_pos_of_nonneg h.clock (Int.natCast_nonneg wait)
  limiter := h.limiter.mono (le_add_of_nonneg_right (Int.natCast_nonneg wait))
  address := h.address
  slides := h.slides

theorem Inv.limiter_step (h : Inv sha256 s) (login ip : Bytes) (record : Bool) (wait : ℕ) :
    RateLimiter.Inv (s.clock + wait)
      (RateLimiter.step sha256 s.limiter ⟨login, ip, record, s.clock + wait⟩) := by
  have hwait := h.wait wait
  have hcall : RateLimiter.Inv (⟨login, ip, record, s.clock + wait⟩ : Call).now s.limiter :=
    hwait.limiter
  exact (hcall.step hwait.clock).1

/-- A check counts nothing. -/
theorem windows_check (l : State) (login ip : Bytes) (now : ℤ) :
    (RateLimiter.step sha256 l ⟨login, ip, false, now⟩).windows = l.windows :=
  windows_step_of_refused fun h => Bool.false_ne_true h.1

theorem not_allows_nil (l : State) (login : Bytes) (record : Bool) (now : ℤ) :
    allows sha256 l ⟨login, [], record, now⟩ = false := rfl

theorem Inv.check (h : Inv sha256 s) (conn : ℕ) (login ip : Bytes) (wait : ℕ) :
    Inv sha256 (step sha256 s (.check conn login ip wait)) := by
  have hwait := h.wait wait
  unfold step
  dsimp only
  split
  · exact hwait
  · refine ⟨hwait.clock, h.limiter_step login ip false wait, ?_, ?_⟩
    · dsimp only
      split
      · next hallowed =>
        intro conn' login' ip' hflight
        by_cases hconn : conn' = conn
        · rw [hconn, Function.update_self] at hflight
          obtain ⟨rfl, rfl⟩ := Prod.mk.inj (Option.some.inj hflight)
          rintro rfl
          rw [not_allows_nil] at hallowed
          exact Bool.false_ne_true hallowed
        · rw [Function.update_of_ne hconn] at hflight
          exact h.address conn' login' ip' hflight
      · exact h.address
    · dsimp only
      rw [windows_check]
      exact h.slides

/-- A failure that is counted is allowed. -/
theorem allows_of_counted (h : Inv sha256 s) {login ip : Bytes} (hip : ip ≠ []) {wait : ℕ}
    (hcounted : Counted sha256 s (s.clock + wait) (rateMakeKey sha256 login ip)) :
    allows sha256 s.limiter ⟨login, ip, true, s.clock + wait⟩ = true := by
  have hwait := h.wait wait
  by_contra hrefused
  have hcheck : (checkKey (s.clock + wait) true (rateMakeKey sha256 login ip) s.limiter.table
      s.limiter.load).2 = false := by
    rw [Bool.not_eq_true, allows, rateCheck, if_neg hip] at hrefused
    exact hrefused
  obtain ⟨slot, husable⟩ := hcounted.room
  refine not_usable_of_refused hwait.limiter.fit hcheck (fun b hb => ?_) hwait.clock.le slot husable
  obtain ⟨-, -, hmatches⟩ := (hwait.limiter.tracks _).entry b hb
  rw [← not_lt, hmatches.locked_iff hwait.clock]
  exact hcounted.unlocked

theorem timesOf_concat (key : String) (failures : List Failure) (f : Failure) :
    timesOf sha256 key (failures ++ [f]) =
      timesOf sha256 key failures ++ if rateMakeKey sha256 f.login f.ip = key then [f.time] else [] := by
  rw [timesOf, List.filter_append, List.map_append]
  congr 1
  by_cases hkey : rateMakeKey sha256 f.login f.ip = key
  · simp [hkey]
  · simp [hkey]

/-- **A failure.** -/
theorem Inv.fail (h : Inv sha256 s) {login ip : Bytes} (hip : ip ≠ []) {wait : ℕ}
    (hcounted : Counted sha256 s (s.clock + wait) (rateMakeKey sha256 login ip)) :
    Inv sha256 { s with
      limiter := RateLimiter.step sha256 s.limiter ⟨login, ip, true, s.clock + wait⟩
      clock := s.clock + wait
      failures := s.failures ++ [⟨login, ip, s.clock + wait⟩] } := by
  have hwait := h.wait wait
  have hallowed := allows_of_counted h hip hcounted
  refine ⟨hwait.clock, h.limiter_step login ip true wait, h.address, fun key => ?_⟩
  dsimp only
  rw [timesOf_concat]
  by_cases hkey : key = rateMakeKey sha256 login ip
  · subst hkey
    have hnote : (RateLimiter.step sha256 s.limiter ⟨login, ip, true, s.clock + wait⟩).windows
        (rateMakeKey sha256 login ip) =
          (s.limiter.windows (rateMakeKey sha256 login ip)).note (s.clock + wait) :=
      windows_step_self.trans (if_pos ⟨rfl, hallowed⟩)
    rw [if_pos rfl, hnote]
    apply (h.slides _).note
    · exact (Window.Ok.note hwait.clock (hwait.limiter.tracks _).ok hcounted.unlocked).1
    · exact hcounted.late
  · rw [if_neg fun heq => hkey heq.symm, List.append_nil, windows_step_of_ne hkey]
    exact h.slides key

theorem Inv.step (h : Inv sha256 s) (hok : StepOk sha256 s e) : Inv sha256 (step sha256 s e) := by
  cases e with
  | check conn login ip wait => exact h.check conn login ip wait
  | finish conn verified wait =>
    unfold Attempts.step
    dsimp only
    split
    · exact h.wait wait
    · next login ip hflight =>
      have haddress : ∀ conn' login' ip',
          Function.update s.inFlight conn none conn' = some (login', ip') → ip' ≠ [] := by
        intro conn' login' ip' hrest
        by_cases hconn : conn' = conn
        · rw [hconn, Function.update_self] at hrest
          cases hrest
        · rw [Function.update_of_ne hconn] at hrest
          exact h.address conn' login' ip' hrest
      cases verified with
      | true => exact { h.wait wait with address := haddress }
      | false =>
        have hfail := h.fail (h.address conn login ip hflight) (hok login ip hflight)
        exact { hfail with address := haddress }

/-- The failures of a login and an address are among those of their key. -/
theorem Inv.sliding (h : Inv sha256 s) : Sliding s := by
  intro login ip a
  refine le_trans ?_ ((h.slides (rateMakeKey sha256 login ip)).bounded a)
  rw [timesOf, List.countP_map, List.countP_filter, inWindow, ← List.countP_eq_length_filter]
  apply List.countP_mono_left
  intro f _ hf
  obtain ⟨rfl, rfl, hfrom, hto⟩ := of_decide_eq_true hf
  simp [hfrom, hto]

/-- One attempt after the other for one account, so many seconds apart. -/
def failedLogins (waits : List ℕ) : List Event :=
  waits.flatMap fun wait => [.check 0 [0x61] [0x31] wait, .finish 0 false 0]

/-- Three failures at the end of a window are forgotten when the next one begins a second later, and
three more are let through at once. -/
theorem not_sliding :
    ¬ ∀ (sha256 : Bytes → Bytes) (start : ℤ), 0 < start → ∀ es : List Event,
      Runs.Always (step sha256) Sliding (.init start) es := by
  intro hall
  have hrun := hall (fun d => List.replicate 32 (d.getD 0 0)) 1 one_pos
    (failedLogins [0, 28, 1, 1, 1, 0, 0])
  rw [Runs.always_iff_prefixes] at hrun
  have hfour := hrun _ (List.prefix_refl _) [0x61] [0x31] 2
  revert hfour
  decide +kernel

theorem stepOk_finish {conn wait : ℕ} (login ip : Bytes) (hflight : s.inFlight conn = some (login, ip))
    (hcounted : Counted sha256 s (s.clock + wait) (rateMakeKey sha256 login ip)) :
    StepOk sha256 s (.finish conn false wait) := by
  intro login' ip' hflight'
  obtain ⟨rfl, rfl⟩ := Prod.mk.inj (Option.some.inj (hflight.symm.trans hflight'))
  exact hcounted

/-- **Runs of counted failures slide.** -/
theorem sliding_of_counted (sha256 : Bytes → Bytes) {start : ℤ} (hstart : 0 < start)
    (es : List Event) (hes : Runs.Each (step sha256) (StepOk sha256) (.init start) es) :
    Runs.Always (step sha256) Sliding (.init start) es := by
  have hinv : Runs.Always (step sha256) (Inv sha256) (.init start) es :=
    Runs.always_of_each (fun s e hs he => hs.step he) (inv_init hstart) hes
  exact hinv.imp fun s hs => hs.sliding

/-- Two failures in one window. -/
theorem sliding_of_counted_two :
    let sha256 : Bytes → Bytes := fun d => List.replicate 32 (d.getD 0 0)
    Runs.Always (step sha256) Sliding (.init 1) (failedLogins [0, 10]) := by
  intro sha256
  refine sliding_of_counted sha256 one_pos _ ?_
  refine ⟨trivial, stepOk_finish [0x61] [0x31] ?_ ?_, trivial,
    stepOk_finish [0x61] [0x31] ?_ ?_, trivial⟩
  · decide +kernel
  · refine ⟨?_, ⟨0, .inl (by decide +kernel)⟩, by decide +kernel⟩
    rintro ⟨hfive, -⟩
    revert hfive
    decide +kernel
  · decide +kernel
  · refine ⟨?_, ⟨0, .inl (by decide +kernel)⟩, by decide +kernel⟩
    rintro ⟨hfive, -⟩
    revert hfive
    decide +kernel

end Attempts

end SecChat.RateLimiter
