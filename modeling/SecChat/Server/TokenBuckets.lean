import SecChat.Library.OpenAddressing
import SecChat.Library.Runs
import SecChat.Library.TokenBucket
import Mathlib.Data.Finset.Card
import Mathlib.Data.Fintype.Card

/-!
# The rate limit of messages

Every user has a bucket of tokens in a table with open addressing.  A bucket is made, full, at the first
call of its user, and no bucket is ever removed.

* `rlSlot`, `ratelimitCheck`: the code;
* `CallFits`: the refill of a call is not cut by the width of an `int`;
* `Matches`: the table as a map from users to buckets, and `Matches.step`;
* `results_eq`: what the calls return, when all refills fit;
* `results_ne`: a refill that does not fit shows within ten calls;
* `token_bucket_per_user`: all of this, with the bound for one user, for every order of calls.
-/

namespace SecChat.TokenBuckets

open OpenAddressing Runs

/-! ### The code -/

/-- `RL_BUCKETS`. -/
def rlBuckets : ℕ := 4096

/-- `CAPACITY`. -/
def capacity : ℕ := 10

/-- `REFILL_SECS`. -/
def refillSecs : ℤ := 1

instance : NeZero rlBuckets := ⟨by decide⟩

/-- `RLBucket`. -/
structure RLBucket where
  uid : ℤ
  tokens : ℤ
  lastRefill : ℤ
  deriving DecidableEq, Repr

/-- `g_rl`. -/
abbrev Table := Fin rlBuckets → RLBucket

/-- `ratelimit_init`. -/
def initTable : Table := fun _ => ⟨0, 0, 0⟩

/-- A number as an `int`. -/
def asInt (n : ℤ) : ℤ := Int.bmod n (2 ^ 32)

/-- The hash of `rl_slot`, which is computed in `unsigned int`. -/
def rlHash (uid : ℤ) : ℕ := (uid * 2654435761 % 2 ^ 32 % rlBuckets).toNat

/-- The slots in the order in which a user is searched. -/
def probes (uid : ℤ) : List (Fin rlBuckets) :=
  (List.range rlBuckets).map fun i => Fin.ofNat rlBuckets (rlHash uid + i)

/-- `rl_slot`. -/
def rlSlot (t : Table) (uid : ℤ) : Option (Fin rlBuckets) :=
  (probes uid).find? fun s => (t s).uid = 0 ∨ (t s).uid = uid

/-- A new entry: a full bucket. -/
def newEntry (uid now : ℤ) : RLBucket := ⟨uid, capacity, now⟩

/-- The refill: the seconds since the last one, as an `int`, are added before the capacity is looked at. -/
def refill (now : ℤ) (b : RLBucket) : RLBucket :=
  let elapsed := now - b.lastRefill
  if refillSecs ≤ elapsed then
    let add := asInt (elapsed / refillSecs)
    { b with tokens := min (capacity : ℤ) (asInt (b.tokens + add)), lastRefill := now }
  else b

/-- A token is taken if there is one. -/
def spend (b : RLBucket) : RLBucket × Bool :=
  if 0 < b.tokens then ({ b with tokens := b.tokens - 1 }, true) else (b, false)

/-- A call of `ratelimit_check` and the time at which it is made. -/
structure Call where
  uid : ℤ
  now : ℤ
  deriving DecidableEq, Repr

/-- `ratelimit_check`: the table, and whether the message may be sent.  Without a slot it may. -/
def ratelimitCheck (t : Table) (c : Call) : Table × Bool :=
  if c.uid ≤ 0 then (t, true)
  else
    match rlSlot t c.uid with
    -- all slots have other users
    | none => (t, true)
    | some s =>
        let b := if (t s).uid = 0 then newEntry c.uid c.now else t s
        let r := spend (refill c.now b)
        (Function.update t s r.1, r.2)

/-- The table after a call. -/
def step (t : Table) (c : Call) : Table := (ratelimitCheck t c).1

/-- What the calls return, one after the other. -/
def results (calls : List Call) : List Bool :=
  collect step (fun t c => [(ratelimitCheck t c).2]) initTable calls

/-- The calls of one user among them: their times and what they return. -/
def logOf (uid : ℤ) (calls : List Call) : List (ℤ × Bool) :=
  collect step (fun t c => if c.uid = uid then [(c.now, (ratelimitCheck t c).2)] else []) initTable calls

/-! ### What it should be -/

/-- A call, for the bucket of its user. -/
def idealStep (b : Option TokenBucket.Bucket) (c : Call) : Option TokenBucket.Bucket :=
  some (TokenBucket.take capacity b c.now).1

/-- What independent token buckets return, one for each user. -/
def idealResults (calls : List Call) : List Bool :=
  collect (keyed Call.uid idealStep) (fun m c => [(TokenBucket.take capacity (m c.uid) c.now).2])
    (fun _ => none) calls

/-- The tokens and the seconds since the last refill fit into an `int`, or fill the bucket all the
same. -/
def RefillFits (b : RLBucket) (now : ℤ) : Prop :=
  b.tokens + (now - b.lastRefill) < 2 ^ 31 ∨ capacity ≤ asInt (b.tokens + (now - b.lastRefill))

instance (b : RLBucket) (now : ℤ) : Decidable (RefillFits b now) := inferInstanceAs (Decidable (_ ∨ _))

/-- The refill for a call fits. -/
def CallFits (t : Table) (c : Call) : Prop := ∀ s, (t s).uid = c.uid → RefillFits (t s) c.now

/-! ### One bucket -/

/-- A call for a bucket, which is made when there is none. -/
def useBucket (b : Option RLBucket) (c : Call) : RLBucket × Bool :=
  spend (refill c.now (b.getD (newEntry c.uid c.now)))

/-- The bucket after a call. -/
def stepBucket (b : Option RLBucket) (c : Call) : Option RLBucket := some (useBucket b c).1

theorem refill_uid (now : ℤ) (b : RLBucket) : (refill now b).uid = b.uid := by
  unfold refill
  dsimp only
  split <;> rfl

theorem spend_uid (b : RLBucket) : (spend b).1.uid = b.uid := by
  unfold spend
  split <;> rfl

theorem useBucket_uid {b : Option RLBucket} {c : Call} (h : ∀ b' ∈ b, b'.uid = c.uid) :
    (useBucket b c).1.uid = c.uid := by
  rw [useBucket, spend_uid, refill_uid]
  cases b with
  | none => rfl
  | some b => exact h b rfl

theorem asInt_of_lt {n : ℤ} (hlo : -2 ^ 31 ≤ n) (hhi : n < 2 ^ 31) : asInt n = n := by
  rw [asInt, Int.bmod_def]
  split <;> omega

theorem asInt_add_asInt (n m : ℤ) : asInt (n + asInt m) = asInt (n + m) := Int.add_bmod_bmod

/-- The number of tokens after a refill. -/
theorem refill_tokens (now : ℤ) (b : RLBucket) :
    (refill now b).tokens =
      if 1 ≤ now - b.lastRefill then min (capacity : ℤ) (asInt (b.tokens + (now - b.lastRefill)))
      else b.tokens := by
  unfold refill
  dsimp only
  rw [refillSecs, Int.ediv_one, asInt_add_asInt]
  split <;> rfl

theorem refill_lastRefill (now : ℤ) (b : RLBucket) :
    (refill now b).lastRefill = max b.lastRefill now := by
  unfold refill
  dsimp only
  rw [refillSecs]
  split
  · show now = _
    omega
  · omega

/-- A second refill at the same time adds nothing. -/
theorem refill_refill (now : ℤ) (b : RLBucket) : refill now (refill now b) = refill now b := by
  have hlast := refill_lastRefill now b
  generalize refill now b = b' at hlast
  unfold refill
  dsimp only
  rw [if_neg]
  rw [refillSecs]
  omega

/-! ### One bucket beside a token bucket -/

/-- A bucket of the table that is the ideal one. -/
inductive Agree : Option RLBucket → Option TokenBucket.Bucket → Prop
  | none : Agree none none
  | some {b : RLBucket} {b' : TokenBucket.Bucket} (tokens : b.tokens = b'.tokens)
      (last : b.lastRefill = b'.last) (le : b'.tokens ≤ capacity) : Agree (some b) (some b')

/-- Buckets that agree are full at the same time. -/
theorem Agree.getD {b : Option RLBucket} {b' : Option TokenBucket.Bucket} (h : Agree b b') (c : Call) :
    Agree (.some (b.getD (newEntry c.uid c.now)))
      (.some (b'.getD (TokenBucket.full capacity c.now))) := by
  cases h with
  | none => exact .some rfl rfl le_rfl
  | some tokens last le => exact .some tokens last le

/-- A refill that fits. -/
theorem Agree.refill {b : RLBucket} {b' : TokenBucket.Bucket} (h : Agree (.some b) (.some b'))
    {now : ℤ} (hfits : RefillFits b now) :
    Agree (.some (refill now b)) (.some (b'.refill capacity now)) := by
  cases h with
  | some tokens last le =>
    refine .some ?_ ?_ (Nat.min_le_left _ _)
    · rw [refill_tokens]
      show _ = ((min capacity (b'.tokens + (now - b'.last).toNat) : ℕ) : ℤ)
      unfold RefillFits at hfits
      split
      · next hlater =>
        rcases hfits with hlt | hfull
        · rw [asInt_of_lt (by omega) hlt]
          omega
        · rw [min_eq_left hfull]
          unfold capacity at *
          by_cases hlt : b.tokens + (now - b.lastRefill) < 2 ^ 31
          · rw [asInt_of_lt (by omega) hlt] at hfull
            omega
          · omega
      · omega
    · rw [refill_lastRefill, last]
      rfl

/-- **A call whose refill fits** returns what the ideal bucket does. -/
theorem Agree.use {b : Option RLBucket} {b' : Option TokenBucket.Bucket} (h : Agree b b') {c : Call}
    (hfits : ∀ x ∈ b, RefillFits x c.now) :
    (useBucket b c).2 = (TokenBucket.take capacity b' c.now).2 ∧
      Agree (stepBucket b c) (idealStep b' c) := by
  have hfits' : RefillFits (b.getD (newEntry c.uid c.now)) c.now := by
    cases b with
    | none => exact .inl (by simp [newEntry, capacity])
    | some x => exact hfits x rfl
  have hrefill := (h.getD c).refill hfits'
  unfold stepBucket idealStep useBucket TokenBucket.take
  dsimp only
  generalize TokenBuckets.refill c.now (b.getD (newEntry c.uid c.now)) = x at hrefill
  generalize (b'.getD (TokenBucket.full capacity c.now)).refill capacity c.now = y at hrefill
  cases hrefill with
  | some tokens last le =>
    unfold spend
    by_cases hpos : 0 < y.tokens
    · rw [if_pos (show 0 < x.tokens by omega), if_pos hpos]
      refine ⟨rfl, .some ?_ last (by show y.tokens - 1 ≤ _; omega)⟩
      show x.tokens - 1 = ((y.tokens - 1 : ℕ) : ℤ)
      omega
    · rw [if_neg (show ¬ 0 < x.tokens by omega), if_neg hpos]
      exact ⟨rfl, .some tokens last le⟩

/-! ### The table as a map -/

theorem mem_probes (uid : ℤ) (s : Fin rlBuckets) : s ∈ probes uid := by
  have hs := s.isLt
  generalize hstart : rlHash uid = start
  rw [probes, List.mem_map]
  refine ⟨(s + (rlBuckets - start % rlBuckets)) % rlBuckets,
    List.mem_range.mpr (Nat.mod_lt _ (by decide)), Fin.ext ?_⟩
  rw [hstart]
  show (start + (s + (rlBuckets - start % rlBuckets)) % rlBuckets) % rlBuckets = s
  unfold rlBuckets at *
  omega

/-- The table as one with open addressing. -/
def scheme : Scheme (Fin rlBuckets) RLBucket ℤ where
  isEmpty b := b.uid = 0
  keyOf b := if b.uid = 0 then none else some b.uid
  order := probes
  keyOf_of_isEmpty _ hb := if_pos (of_decide_eq_true hb)
  mem_order := mem_probes

theorem order_eq (uid : ℤ) : scheme.order uid = probes uid := by
  rw [scheme]

theorem keyOf_eq_some {b : RLBucket} {uid : ℤ} :
    scheme.keyOf b = some uid ↔ b.uid = uid ∧ uid ≠ 0 := by
  show (if b.uid = 0 then none else some b.uid) = some uid ↔ _
  split
  · next h => exact iff_of_false nofun fun hk => hk.2 (hk.1 ▸ h)
  · next h =>
    rw [Option.some.injEq]
    exact ⟨fun hk => ⟨hk, hk ▸ h⟩, And.left⟩

theorem isEmpty_eq_true {b : RLBucket} : scheme.isEmpty b = true ↔ b.uid = 0 := decide_eq_true_iff

theorem isEmpty_eq_false {b : RLBucket} : scheme.isEmpty b = false ↔ b.uid ≠ 0 :=
  decide_eq_false_iff_not

/-- The table stands for a map from users to buckets, and only users of `U` have one. -/
structure Matches (U : Finset ℤ) (t : Table) (m : ℤ → Option RLBucket) : Prop where
  sound : scheme.Sound t
  users : ∀ s, (t s).uid ≠ 0 → (t s).uid ∈ U
  buckets : ∀ uid b, m uid = some b ↔ scheme.Holds t uid b

theorem matches_initTable (U : Finset ℤ) : Matches U initTable fun _ => none where
  sound := Scheme.sound_of_empty fun _ => rfl
  users _ h := absurd rfl h
  buckets _ _ := by
    refine iff_of_false nofun ?_
    rintro ⟨s, rfl, hk⟩
    exact (keyOf_eq_some.mp hk).2 (keyOf_eq_some.mp hk).1.symm

variable {U : Finset ℤ} {t : Table} {m : ℤ → Option RLBucket} {c : Call}

/-- A user without a bucket finds an empty slot: the others have at most one each. -/
theorem Matches.exists_empty (h : Matches U t m) (hU : U.card ≤ rlBuckets) {uid : ℤ} (hu : uid ∈ U)
    (habsent : ∀ s, (t s).uid ≠ uid) : ∃ s, (t s).uid = 0 := by
  by_contra hnone
  push Not at hnone
  -- otherwise every slot has a user of its own other than this one
  have hinj : Set.InjOn (fun s => (t s).uid) (Finset.univ : Finset (Fin rlBuckets)) := by
    intro s _ s' _ hss
    have hss : (t s).uid = (t s').uid := hss
    exact h.sound.unique s s' (t s).uid (keyOf_eq_some.mpr ⟨rfl, hnone s⟩)
      (keyOf_eq_some.mpr ⟨hss.symm, hnone s⟩)
  have hmaps : Set.MapsTo (fun s => (t s).uid) (Finset.univ : Finset (Fin rlBuckets))
      (U.erase uid) :=
    fun s _ => Finset.mem_erase.mpr ⟨habsent s, h.users s (hnone s)⟩
  have hcard := Finset.card_le_card_of_injOn _ hmaps hinj
  have hpos : 0 < U.card := Finset.card_pos.mpr ⟨uid, hu⟩
  rw [Finset.card_univ, Fintype.card_fin, Finset.card_erase_of_mem hu] at hcard
  omega

/-- What is known of the slot in which a search for a user ends: it has the bucket of the user, or it is
the first empty one on the way. -/
structure SlotOf (t : Table) (uid : ℤ) (s : Fin rlBuckets) : Prop where
  order : ∃ pre post, probes uid = pre ++ s :: post ∧ ∀ s' ∈ pre, (t s').uid ≠ 0
  own : (t s).uid = uid ∨ (t s).uid = 0 ∧ ∀ s', (t s').uid ≠ uid

/-- **A search** ends in a slot for the user. -/
theorem Matches.rlSlot (h : Matches U t m) (hU : U.card ≤ rlBuckets) {uid : ℤ} (hu : uid ∈ U)
    (hpos : 0 < uid) : ∃ s, rlSlot t uid = some s ∧ SlotOf t uid s := by
  have hsome : ((probes uid).find? fun s => (t s).uid = 0 ∨ (t s).uid = uid).isSome = true := by
    rw [List.find?_isSome]
    by_cases hfound : ∃ s, (t s).uid = uid
    · obtain ⟨s, hs⟩ := hfound
      exact ⟨s, mem_probes uid s, by simp [hs]⟩
    · obtain ⟨s, hs⟩ := h.exists_empty hU hu fun s hs => hfound ⟨s, hs⟩
      exact ⟨s, mem_probes uid s, by simp [hs]⟩
  obtain ⟨s, hs⟩ := Option.isSome_iff_exists.mp hsome
  obtain ⟨hhit, pre, post, horder, hpre⟩ := List.find?_eq_some_iff_append.mp hs
  have hpre' : ∀ s' ∈ pre, (t s').uid ≠ 0 ∧ (t s').uid ≠ uid := fun s' hs' => by
    simpa [not_or] using hpre s' hs'
  refine ⟨s, hs, ⟨pre, post, horder, fun s' hs' => (hpre' s' hs').1⟩, ?_⟩
  rcases of_decide_eq_true hhit with hown | hempty
  · refine .inr ⟨hown, fun s' hs' => ?_⟩
    have habsent := h.sound.absent (k := uid) ((order_eq uid).trans horder)
      (isEmpty_eq_true.mpr hown) fun s'' hs'' hk => (hpre' s'' hs'').2 (keyOf_eq_some.mp hk).1
    exact habsent s' (keyOf_eq_some.mpr ⟨hs', by omega⟩)
  · exact .inl hempty

/-- The bucket in the slot of a user is the one of the map. -/
theorem Matches.bucket_of_slot (h : Matches U t m) {s : Fin rlBuckets} {uid : ℤ} (hpos : 0 < uid)
    (hs : SlotOf t uid s) : m uid = if (t s).uid = 0 then none else some (t s) := by
  rcases hs.own with hown | ⟨hempty, habsent⟩
  · rw [if_neg (by omega), h.buckets]
    exact ⟨s, rfl, keyOf_eq_some.mpr ⟨hown, by omega⟩⟩
  · rw [if_pos hempty, Option.eq_none_iff_forall_ne_some]
    intro b hb
    obtain ⟨s', rfl, hk⟩ := (h.buckets uid b).mp hb
    exact habsent s' (keyOf_eq_some.mp hk).1

/-- A bucket is written into the slot of its user. -/
theorem Matches.write (h : Matches U t m) {s : Fin rlBuckets} {b : RLBucket} (hpos : 0 < b.uid)
    (hu : b.uid ∈ U) (hs : SlotOf t b.uid s) :
    Matches U (Function.update t s b) (Function.update m b.uid (some b)) := by
  have hkey : scheme.keyOf b = some b.uid := keyOf_eq_some.mpr ⟨rfl, by omega⟩
  -- no other slot has the user, and the slot has nobody else
  have honly : ∀ s', scheme.keyOf (t s') = some b.uid → s' = s := by
    intro s' hk
    rcases hs.own with hown | ⟨-, habsent⟩
    · exact h.sound.unique s' s b.uid hk (keyOf_eq_some.mpr ⟨hown, by omega⟩)
    · exact absurd (keyOf_eq_some.mp hk).1 (habsent s')
  have hfree : ∀ k, scheme.keyOf (t s) = some k → k = b.uid := by
    intro k hk
    obtain ⟨hk, hk0⟩ := keyOf_eq_some.mp hk
    rcases hs.own with hown | ⟨hempty, -⟩
    · exact hk.symm.trans hown
    · exact absurd (hk.symm.trans hempty) hk0
  constructor
  · rcases hs.own with hown | ⟨hempty, habsent⟩
    · refine h.sound.rewrite (Scheme.not_isEmpty_of_keyOf hkey) fun k hk => ?_
      rw [hkey] at hk
      obtain rfl := Option.some.inj hk
      exact keyOf_eq_some.mpr ⟨hown, by omega⟩
    · obtain ⟨pre, post, horder, hpre⟩ := hs.order
      exact h.sound.insert ((order_eq _).trans horder)
        (fun s' hs' => isEmpty_eq_false.mpr (hpre s' hs')) (.inr rfl)
        (scheme.keyOf_of_isEmpty _ (isEmpty_eq_true.mpr hempty)) hkey
        fun s' hk => habsent s' (keyOf_eq_some.mp hk).1
  · intro s' hs'
    by_cases heq : s' = s
    · rwa [heq, Function.update_self]
    · rw [Function.update_of_ne heq] at hs' ⊢
      exact h.users s' hs'
  · intro uid b'
    by_cases huid : uid = b.uid
    · rw [huid, Function.update_self, Scheme.holds_update_self hkey honly, Option.some.injEq]
      exact eq_comm
    · rw [Function.update_of_ne huid, Scheme.holds_update_of_ne hkey hfree huid]
      exact h.buckets uid b'

/-- **A call** uses the bucket of its user and puts it where a search finds it. -/
theorem Matches.check (h : Matches U t m) (hU : U.card ≤ rlBuckets) (hu : c.uid ∈ U)
    (hpos : 0 < c.uid) :
    (ratelimitCheck t c).2 = (useBucket (m c.uid) c).2 ∧
      Matches U (step t c) (keyed Call.uid stepBucket m c) := by
  obtain ⟨s, hslot, hs⟩ := h.rlSlot hU hu hpos
  have hbucket := h.bucket_of_slot hpos hs
  have huid : (useBucket (m c.uid) c).1.uid = c.uid := by
    refine useBucket_uid fun b' hb' => ?_
    obtain ⟨s', rfl, hk⟩ := (h.buckets c.uid b').mp hb'
    exact (keyOf_eq_some.mp hk).1
  have hcheck : ratelimitCheck t c =
      (Function.update t s (useBucket (m c.uid) c).1, (useBucket (m c.uid) c).2) := by
    unfold ratelimitCheck
    rw [if_neg (by omega), hslot, hbucket]
    dsimp only
    unfold useBucket
    split <;> rfl
  have hwrite := h.write (s := s) (b := (useBucket (m c.uid) c).1) (by rwa [huid]) (by rwa [huid])
    (by rwa [huid])
  rw [huid] at hwrite
  rw [step, hcheck]
  exact ⟨rfl, hwrite⟩

/-- The condition on a call is about the bucket of its user. -/
theorem Matches.callFits_iff (h : Matches U t m) (hpos : 0 < c.uid) :
    CallFits t c ↔ ∀ b ∈ m c.uid, RefillFits b c.now := by
  constructor
  · intro hfits b hb
    obtain ⟨s, rfl, hk⟩ := (h.buckets c.uid b).mp hb
    exact hfits s (keyOf_eq_some.mp hk).1
  · intro hfits s hs
    exact hfits (t s) ((h.buckets c.uid (t s)).mpr ⟨s, rfl, keyOf_eq_some.mpr ⟨hs, by omega⟩⟩)

/-! ### All calls -/

variable {calls : List Call}

/-- What calls need that are answered from the buckets of at most 4096 users. -/
def Known (U : Finset ℤ) (c : Call) : Prop := 0 < c.uid ∧ c.uid ∈ U

theorem each_known (hpos : ∀ c ∈ calls, 0 < c.uid) :
    Each step (fun _ c => Known (calls.map Call.uid).toFinset c) initTable calls :=
  each_of_forall fun c hc =>
    ⟨hpos c hc, List.mem_toFinset.mpr (List.mem_map_of_mem hc)⟩

/-- One bucket for each user, in place of the table. -/
def stepAll (m : ℤ → Option RLBucket) (c : Call) : ℤ → Option RLBucket :=
  keyed Call.uid stepBucket m c

section Family

variable (hpos : ∀ c ∈ calls, 0 < c.uid) (husers : (calls.map Call.uid).toFinset.card ≤ rlBuckets)

include hpos husers

/-- Whatever is recorded of the calls and their results is the same for the map. -/
theorem collect_table {α : Type} (g : Call → Bool → List α) :
    collect step (fun t c => g c (ratelimitCheck t c).2) initTable calls =
      collect stepAll (fun m c => g c (useBucket (m c.uid) c).2) (fun _ => none) calls :=
  collect_eq_of_simulation
    (fun _ _ c h hc => by rw [(h.check husers hc.2 hc.1).1])
    (fun _ _ _ h hc => (h.check husers hc.2 hc.1).2)
    (matches_initTable _) (each_known hpos)

theorem matches_foldl :
    Matches (calls.map Call.uid).toFinset (calls.foldl step initTable)
      (calls.foldl stepAll fun _ => none) :=
  foldl_of_simulation (fun _ _ _ h hc => (h.check husers hc.2 hc.1).2)
    (matches_initTable _) (each_known hpos)

theorem each_callFits_iff :
    Each step CallFits initTable calls ↔
      Each stepAll (fun m c => ∀ b ∈ m c.uid, RefillFits b c.now) (fun _ => none) calls :=
  each_iff_of_simulation (fun _ _ _ h hc => h.callFits_iff hc.1)
    (fun _ _ _ h hc => (h.check husers hc.2 hc.1).2) (matches_initTable _) (each_known hpos)

end Family

/-! ### The results -/

/-- All buckets are the ideal ones. -/
def AllAgree (m : ℤ → Option RLBucket) (m' : ℤ → Option TokenBucket.Bucket) : Prop :=
  ∀ uid, Agree (m uid) (m' uid)

theorem AllAgree.step {m' : ℤ → Option TokenBucket.Bucket} (h : AllAgree m m')
    (hfits : ∀ b ∈ m c.uid, RefillFits b c.now) :
    AllAgree (stepAll m c) (keyed Call.uid idealStep m' c) := by
  intro uid
  unfold stepAll keyed
  by_cases huid : uid = c.uid
  · rw [huid, Function.update_self, Function.update_self]
    exact ((h c.uid).use hfits).2
  · rw [Function.update_of_ne huid, Function.update_of_ne huid]
    exact h uid

/-- **The results** are those of independent token buckets. -/
theorem results_eq (hpos : ∀ c ∈ calls, 0 < c.uid)
    (husers : (calls.map Call.uid).toFinset.card ≤ rlBuckets)
    (hfits : Each step CallFits initTable calls) : results calls = idealResults calls := by
  rw [results, collect_table hpos husers fun _ r => [r]]
  refine collect_eq_of_simulation (R := AllAgree) (fun m m' c h hc => ?_)
    (fun m m' c h hc => h.step hc) (fun _ => .none) ((each_callFits_iff hpos husers).mp hfits)
  rw [((h c.uid).use hc).1]

/-- What the calls of one user return, when they use one bucket. -/
def returns (b : Option RLBucket) (calls : List Call) : List (ℤ × Bool) :=
  collect stepBucket (fun b c => [(c.now, (useBucket b c).2)]) b calls

/-- **The calls of a user** return what they would return without the calls of others. -/
theorem logOf_eq (hpos : ∀ c ∈ calls, 0 < c.uid)
    (husers : (calls.map Call.uid).toFinset.card ≤ rlBuckets) (uid : ℤ) :
    logOf uid calls = returns none (calls.filter fun c => c.uid = uid) := by
  rw [logOf, collect_table hpos husers fun c r => if c.uid = uid then [(c.now, r)] else [], returns,
    ← collect_keyed Call.uid (fun b c => [(c.now, (useBucket b c).2)]) uid fun _ => none]
  congr 1
  funext m c
  split
  · next h => rw [h]
  · rfl

theorem logOf_filter (hpos : ∀ c ∈ calls, 0 < c.uid)
    (husers : (calls.map Call.uid).toFinset.card ≤ rlBuckets) (uid : ℤ) :
    logOf uid calls = logOf uid (calls.filter fun c => c.uid = uid) := by
  have hsub : ((calls.filter fun c => c.uid = uid).map Call.uid).toFinset ⊆
      (calls.map Call.uid).toFinset := by
    intro u hu
    rw [List.mem_toFinset] at hu ⊢
    exact (List.filter_sublist.map Call.uid).mem hu
  rw [logOf_eq hpos husers, logOf_eq (fun c hc => hpos c (List.mem_of_mem_filter hc))
    ((Finset.card_le_card hsub).trans husers), List.filter_filter]
  simp

/-! ### The bound -/

theorem refill_of_le {now : ℤ} {b : RLBucket} (h : now ≤ b.lastRefill) : refill now b = b := by
  unfold refill
  dsimp only
  rw [if_neg]
  rw [refillSecs]
  omega

/-- A refill adds no more than the time, and fills no more than the bucket. -/
theorem refill_funded {b : RLBucket} {now : ℤ} (hlo : -2 ^ 31 ≤ b.tokens) (hle : b.tokens ≤ capacity)
    (hlast : b.lastRefill ≤ now) :
    -2 ^ 31 ≤ (refill now b).tokens ∧ (refill now b).tokens ≤ capacity ∧
      (refill now b).tokens.toNat ≤
        min capacity (b.tokens.toNat + (now - b.lastRefill).toNat) := by
  rw [refill_tokens]
  unfold capacity at *
  split
  · have hbmod : -2 ^ 31 ≤ asInt (b.tokens + (now - b.lastRefill)) ∧
        asInt (b.tokens + (now - b.lastRefill)) ≤ b.tokens + (now - b.lastRefill) := by
      rw [asInt, Int.bmod_def]
      split <;> omega
    omega
  · omega

/-- A call leaves at least one token less when it is allowed. -/
theorem spend_tokens (b : RLBucket) :
    (spend b).1.tokens.toNat + (spend b).2.toNat = b.tokens.toNat ∧
      (spend b).1.lastRefill = b.lastRefill := by
  unfold spend
  split
  · refine ⟨?_, rfl⟩
    show (b.tokens - 1).toNat + 1 = b.tokens.toNat
    omega
  · exact ⟨rfl, rfl⟩

theorem spend_bounds {b : RLBucket} (hlo : -2 ^ 31 ≤ b.tokens) (hle : b.tokens ≤ capacity) :
    -2 ^ 31 ≤ (spend b).1.tokens ∧ (spend b).1.tokens ≤ capacity := by
  unfold spend
  split
  · next hpos =>
    show -2 ^ 31 ≤ b.tokens - 1 ∧ b.tokens - 1 ≤ _
    omega
  · exact ⟨hlo, hle⟩

/-- The calls of a bucket spend what it has and what comes in. -/
theorem spends_returns {b : RLBucket} (hlo : -2 ^ 31 ≤ b.tokens) (hle : b.tokens ≤ capacity)
    (hlast : ∀ c ∈ calls, b.lastRefill ≤ c.now)
    (hclock : calls.Pairwise fun c c' => c.now ≤ c'.now) :
    TokenBucket.Spends capacity b.tokens.toNat b.lastRefill (returns (some b) calls) := by
  induction calls generalizing b with
  | nil => exact .nil
  | cons c calls ih =>
    obtain ⟨hnow, hclock⟩ := List.pairwise_cons.mp hclock
    have hstart := hlast c List.mem_cons_self
    obtain ⟨hlo', hle', hfunded⟩ := refill_funded hlo hle hstart
    obtain ⟨hspent, hkept⟩ := spend_tokens (refill c.now b)
    obtain ⟨hlo'', hle''⟩ := spend_bounds hlo' hle'
    have hat : (spend (refill c.now b)).1.lastRefill = c.now := by
      rw [hkept, refill_lastRefill, max_eq_right hstart]
    have hrest := ih hlo'' hle'' (fun c' hc' => hat.le.trans (hnow c' hc')) hclock
    rw [hat] at hrest
    exact .cons (hspent.le.trans hfunded) hrest

theorem returns_none (c : Call) (calls : List Call) :
    returns none (c :: calls) = returns (some (newEntry c.uid c.now)) (c :: calls) := rfl

theorem map_fst_returns (b : Option RLBucket) (calls : List Call) :
    (returns b calls).map Prod.fst = calls.map Call.now := by
  induction calls generalizing b with
  | nil => rfl
  | cons c calls ih => exact congrArg (c.now :: ·) (ih _)

/-- **The bound** for the calls of a user. -/
theorem allowedIn_returns_le (hclock : calls.Pairwise fun c c' => c.now ≤ c'.now) {a b : ℤ}
    (hab : a ≤ b) : (TokenBucket.allowedIn a b (returns none calls) : ℤ) ≤ capacity + (b - a) := by
  cases calls with
  | nil =>
    show ((0 : ℕ) : ℤ) ≤ _
    omega
  | cons c calls =>
    have hnow := (List.pairwise_cons.mp hclock).1
    have hsorted : (returns none (c :: calls)).Pairwise fun call call' => call.1 ≤ call'.1 := by
      have hmap := List.pairwise_map.mpr hclock
      rw [← map_fst_returns none] at hmap
      exact List.pairwise_map.mp hmap
    have hspends : TokenBucket.Spends capacity capacity c.now (returns none (c :: calls)) := by
      rw [returns_none]
      refine spends_returns (b := newEntry c.uid c.now) ?_ le_rfl (fun c' hc' => ?_) hclock
      · show -2 ^ 31 ≤ (capacity : ℤ)
        omega
      · rcases List.mem_cons.mp hc' with rfl | hc'
        · exact le_rfl
        · exact hnow c' hc'
    exact hspends.count_le hab hsorted

/-! ### A refill that does not fit -/

/-- Nobody is allowed more calls at one time than there are tokens. -/
theorem le_of_all_allowed {b : RLBucket} (hlast : c.now ≤ b.lastRefill) (n : ℕ)
    (h : ∀ r ∈ returns (some b) (List.replicate n c), r.2 = true) : (n : ℤ) ≤ max 0 b.tokens := by
  induction n generalizing b with
  | zero => exact le_max_left _ _
  | succ n ih =>
    obtain ⟨hfirst, hrest⟩ := List.forall_mem_cons.mp h
    have hfirst : (spend (refill c.now b)).2 = true := hfirst
    have hrest : ∀ r ∈ returns (some (spend (refill c.now b)).1) (List.replicate n c),
        r.2 = true := hrest
    rw [refill_of_le hlast] at hfirst hrest
    obtain ⟨hspent, hkept⟩ := spend_tokens b
    have hle := ih (hkept ▸ hlast) hrest
    rw [hfirst, Bool.toNat_true] at hspent
    omega

/-- What the calls of one user return from an ideal bucket. -/
def idealReturns (b : Option TokenBucket.Bucket) (calls : List Call) : List (ℤ × Bool) :=
  collect idealStep (fun b c => [(c.now, (TokenBucket.take capacity b c.now).2)]) b calls

/-- Tokens allow as many calls at one time. -/
theorem all_allowed {b : TokenBucket.Bucket} (hlast : c.now ≤ b.last) (hle : b.tokens ≤ capacity) (n : ℕ)
    (hn : n ≤ b.tokens) : ∀ r ∈ idealReturns (some b) (List.replicate n c), r.2 = true := by
  induction n generalizing b with
  | zero => exact fun r hr => absurd hr List.not_mem_nil
  | succ n ih =>
    have hsame : b.refill capacity c.now = b := by
      unfold TokenBucket.Bucket.refill
      rw [max_eq_left hlast, Int.toNat_of_nonpos (by omega), Nat.add_zero, min_eq_right hle]
    have htake : TokenBucket.take capacity (some b) c.now =
        ({ b with tokens := b.tokens - 1 }, true) := by
      unfold TokenBucket.take
      rw [Option.getD_some, hsame]
      exact if_pos (by omega)
    have hstep : idealStep (some b) c = some { b with tokens := b.tokens - 1 } := by
      rw [idealStep, htake]
    refine List.forall_mem_cons.mpr ⟨by rw [htake], ?_⟩
    show ∀ r ∈ idealReturns (idealStep (some b) c) (List.replicate n c), r.2 = true
    rw [hstep]
    exact ih hlast (by show b.tokens - 1 ≤ _; omega) (by show n ≤ b.tokens - 1; omega)

/-- **A bucket whose refill does not fit** is refused one of the ten calls that it should allow. -/
theorem returns_ne {b : RLBucket} {b' : TokenBucket.Bucket} (h : Agree (some b) (some b'))
    (hnot : ¬ RefillFits b c.now) :
    (returns (some b) (List.replicate capacity c)).map Prod.snd ≠
      (idealReturns (some b') (List.replicate capacity c)).map Prod.snd := by
  cases h with
  | some tokens last le =>
    obtain ⟨hbig, hfew⟩ := not_or.mp hnot
    -- both refill before the first call, and never after it
    have hcode : returns (some b) (List.replicate capacity c) =
        returns (some (refill c.now b)) (List.replicate capacity c) := by
      show (c.now, (spend (refill c.now b)).2) :: returns (some (spend (refill c.now b)).1) _ =
        (c.now, (spend (refill c.now (refill c.now b))).2) ::
          returns (some (spend (refill c.now (refill c.now b))).1) _
      rw [refill_refill]
    have hideal : TokenBucket.take capacity (some b') c.now =
        (⟨9, c.now⟩, true) := by
      have hrefill : b'.refill capacity c.now = ⟨10, c.now⟩ := by
        unfold TokenBucket.Bucket.refill capacity at *
        rw [min_eq_left (by omega), max_eq_right (by omega)]
      unfold TokenBucket.take
      rw [Option.getD_some, hrefill]
      rfl
    have hall : ∀ r ∈ idealReturns (some b') (List.replicate capacity c), r.2 = true := by
      refine List.forall_mem_cons.mpr ⟨by rw [hideal], ?_⟩
      show ∀ r ∈ idealReturns (some (TokenBucket.take capacity (some b') c.now).1)
        (List.replicate 9 c), r.2 = true
      rw [hideal]
      exact all_allowed le_rfl (by show 9 ≤ 10; omega) 9 le_rfl
    intro heq
    have hall' : ∀ r ∈ returns (some (refill c.now b)) (List.replicate capacity c), r.2 = true := by
      intro r hr
      have hmem := List.mem_map_of_mem (f := Prod.snd) hr
      rw [← hcode, heq] at hmem
      obtain ⟨r', hr', hsame⟩ := List.mem_map.mp hmem
      exact hsame.symm.trans (hall r' hr')
    have hle := le_of_all_allowed (by rw [refill_lastRefill]; exact le_max_right _ _) capacity hall'
    rw [refill_tokens] at hle
    unfold capacity at *
    rw [if_pos (by omega)] at hle
    omega

/-- The results of calls of one user, all in the map. -/
theorem collect_replicate (m : ℤ → Option RLBucket) (c : Call) (n : ℕ) :
    (collect stepAll (fun m c => [(useBucket (m c.uid) c).2]) m (List.replicate n c)) =
      (returns (m c.uid) (List.replicate n c)).map Prod.snd := by
  rw [returns, map_collect]
  exact collect_keyed_of_forall Call.uid (fun b c => [(useBucket b c).2]) m
    fun _ he => congrArg Call.uid (List.eq_of_mem_replicate he)

theorem collect_replicate_ideal (m : ℤ → Option TokenBucket.Bucket) (c : Call) (n : ℕ) :
    (collect (keyed Call.uid idealStep) (fun m c => [(TokenBucket.take capacity (m c.uid) c.now).2]) m
      (List.replicate n c)) = (idealReturns (m c.uid) (List.replicate n c)).map Prod.snd := by
  rw [idealReturns, map_collect]
  exact collect_keyed_of_forall Call.uid (fun b c => [(TokenBucket.take capacity b c.now).2]) m
    fun _ he => congrArg Call.uid (List.eq_of_mem_replicate he)

/-- **A refill that does not fit** shows when its call is made ten times at once. -/
theorem results_ne {pre : List Call} (hpos : ∀ x ∈ pre ++ [c], 0 < x.uid)
    (husers : ((pre ++ [c]).map Call.uid).toFinset.card ≤ rlBuckets)
    (hfits : Each step CallFits initTable pre) (hnot : ¬ CallFits (pre.foldl step initTable) c) :
    results (pre ++ List.replicate capacity c) ≠ idealResults (pre ++ List.replicate capacity c) := by
  have hcpos : 0 < c.uid := hpos c (List.mem_append_right _ (List.mem_singleton_self c))
  have hsame : ((pre ++ List.replicate capacity c).map Call.uid).toFinset =
      ((pre ++ [c]).map Call.uid).toFinset := by
    simp [capacity]
  have hpos' : ∀ x ∈ pre ++ List.replicate capacity c, 0 < x.uid := by
    intro x hx
    rcases List.mem_append.mp hx with hx | hx
    · exact hpos x (List.mem_append_left _ hx)
    · rwa [(List.mem_replicate.mp hx).2]
  have husers' : (pre.map Call.uid).toFinset.card ≤ rlBuckets := by
    refine (Finset.card_le_card fun u hu => ?_).trans husers
    rw [List.mem_toFinset] at hu ⊢
    rw [List.map_append]
    exact List.mem_append_left _ hu
  have hpre : ∀ x ∈ pre, 0 < x.uid := fun x hx => hpos x (List.mem_append_left _ hx)
  -- the maps after the calls before
  have hmatch := matches_foldl hpre husers'
  have hagree : AllAgree (pre.foldl stepAll fun _ => none)
      (pre.foldl (keyed Call.uid idealStep) fun _ => none) :=
    foldl_of_simulation (R := AllAgree) (fun _ _ _ h hc => h.step hc) (fun _ => .none)
      ((each_callFits_iff hpre husers').mp hfits)
  rw [hmatch.callFits_iff hcpos] at hnot
  push Not at hnot
  obtain ⟨b, hb, hnot⟩ := hnot
  have hbuckets := hagree c.uid
  rw [Option.mem_def.mp hb] at hbuckets
  intro heq
  have hfront := results_eq hpre husers' hfits
  rw [results, collect_table hpre husers' fun _ r => [r], idealResults] at hfront
  rw [results, collect_table hpos' (hsame ▸ husers) fun _ r => [r], idealResults, collect_append,
    collect_append, hfront, List.append_cancel_left_eq, collect_replicate, collect_replicate_ideal,
    Option.mem_def.mp hb] at heq
  generalize pre.foldl (keyed Call.uid idealStep) (fun _ => none) c.uid = b' at hbuckets heq
  cases hbuckets with
  | some tokens last le => exact returns_ne (.some tokens last le) hnot heq

/-- **One token bucket for each user.** For all calls of at most 4096 users at times that do not
decrease: the results are those of independent token buckets when every refill fits into an `int`, and
a first refill that does not fit makes them differ when its call is repeated.  In any case the calls of
a user between two times are bounded and do not depend on the calls of others. -/
theorem token_bucket_per_user (calls : List Call) (hpos : ∀ c ∈ calls, 0 < c.uid)
    (husers : (calls.map Call.uid).toFinset.card ≤ rlBuckets)
    (hclock : calls.Pairwise fun c c' => c.now ≤ c'.now) :
    (Each step CallFits initTable calls → results calls = idealResults calls) ∧
      (∀ pre c, pre ++ [c] <+: calls → Each step CallFits initTable pre →
        ¬ CallFits (pre.foldl step initTable) c →
        results (pre ++ List.replicate capacity c) ≠
          idealResults (pre ++ List.replicate capacity c)) ∧
      (∀ uid a b, a ≤ b →
        (TokenBucket.allowedIn a b (logOf uid calls) : ℤ) ≤ capacity + (b - a)) ∧
      ∀ uid, logOf uid calls = logOf uid (calls.filter fun c => c.uid = uid) := by
  refine ⟨results_eq hpos husers, fun pre c hpre hfits hnot => ?_, fun uid a b hab => ?_,
    logOf_filter hpos husers⟩
  · have hsub : ((pre ++ [c]).map Call.uid).toFinset ⊆ (calls.map Call.uid).toFinset := by
      intro u hu
      rw [List.mem_toFinset] at hu ⊢
      exact (hpre.sublist.map Call.uid).mem hu
    exact results_ne (fun x hx => hpos x (hpre.subset hx))
      ((Finset.card_le_card hsub).trans husers) hfits hnot
  · rw [logOf_eq hpos husers]
    exact allowedIn_returns_le (hclock.filter _) hab

/-- Two users, one of them again after three seconds. -/
def twoUsers : List Call := [⟨1, 100⟩, ⟨2, 100⟩, ⟨1, 103⟩]

theorem each_callFits_twoUsers : Each step CallFits initTable twoUsers := by
  refine (each_callFits_iff (by decide) (by decide)).mpr ⟨?_, ?_, ?_, trivial⟩
  · decide
  · decide
  · decide

theorem token_bucket_per_user_twoUsers : results twoUsers = idealResults twoUsers :=
  (token_bucket_per_user twoUsers (by decide) (by decide) (by decide)).1 each_callFits_twoUsers

/-- A clock that is set after the first call: the user has waited for 68 years. -/
def longWait : List Call := [⟨1, 0⟩, ⟨1, 2147483648⟩]

theorem results_longWait : results longWait = [true, false] ∧ idealResults longWait = [true, true] := by
  decide +kernel

/-- The seconds since the last call, as an `int`, are negative, and the user is refused. -/
theorem long_wait_refused :
    ¬ ∀ calls : List Call, (∀ c ∈ calls, 0 < c.uid) →
      (calls.map Call.uid).toFinset.card ≤ rlBuckets →
      (calls.Pairwise fun c c' => c.now ≤ c'.now) → results calls = idealResults calls := by
  intro h
  have heq := h longWait (by decide) (by decide) (by decide)
  rw [results_longWait.1, results_longWait.2] at heq
  cases heq

end SecChat.TokenBuckets
