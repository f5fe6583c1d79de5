import SecChat.Library.OpenAddressing
import SecChat.Python.Hex
import Mathlib.Data.Fintype.Card
import Mathlib.Data.List.FinRange
import Mathlib.Data.List.Nodup
import Mathlib.Tactic.IntervalCases

/-!
# The table of failed logins

Failed logins are counted for every pair of login and address in a table of fixed size with open
addressing.  Old buckets are buried where they are met, and from a certain load on the table is
rebuilt before it is searched.

* `RateBucket`, `Table`, `probes`: the buckets, and where a key is searched;
* `rateCompact`, `search`, `finish`, `rateCheck`: the code;
* `Holds`: the bucket of a key;
* `rateCompact_pruned`, `search_searched`: what a rebuild and a search do to the table;
* `rateCheck_outcome`: all that a call does.
-/

namespace SecChat.RateLimiter

open Py OpenAddressing

/-! ### Buckets -/

def rateBuckets : ℕ := 1024

def rateMaxFailures : ℕ := 5

def rateWindowSecs : ℤ := 30

def rateLockoutSecs : ℤ := 300

def rateTtlSecs : ℤ := 3600

def rateCompactAt : ℕ := 768

instance : NeZero rateBuckets := ⟨by decide⟩

/-- `RateState`. -/
inductive RateState
  | empty
  | active
  | tomb
  deriving DecidableEq, Repr

/-- `RateBucket`. -/
structure RateBucket where
  key : String
  state : RateState
  failures : ℕ
  firstFail : ℤ
  lockedUntil : ℤ
  lastUpdate : ℤ
  deriving DecidableEq, Repr

/-- A bucket of zeros. -/
def zeroBucket : RateBucket := ⟨"", .empty, 0, 0, 0, 0⟩

/-- `g_rate`. -/
abbrev Table := Fin rateBuckets → RateBucket

/-- What is hashed for a login and an address: `snprintf` into 320 octets. -/
def rateSource (login ip : Bytes) : Bytes := (login ++ 0x3a :: ip).take 319

/-- `rate_make_key`. -/
def rateMakeKey (sha256 : Bytes → Bytes) (login ip : Bytes) : String :=
  hexOf (sha256 (rateSource login ip))

/-- The value of a hex digit. -/
def digitValue (c : Char) : ℕ :=
  if 'a'.toNat ≤ c.toNat then c.toNat - 'a'.toNat + 10 else c.toNat - '0'.toNat

/-- `rate_bucket`. -/
def rateBucket (key : String) : ℕ :=
  (key.toList.take 4).foldl (fun h c => (h <<< 4) ||| digitValue c) 0 % rateBuckets

/-- The slots of a key, in the order in which they are searched. -/
def probes (key : String) : List (Fin rateBuckets) :=
  (List.range rateBuckets).map fun i => Fin.ofNat rateBuckets (rateBucket key + i)

/-- The bucket was last written too long ago. -/
def Expired (now : ℤ) (b : RateBucket) : Prop := rateTtlSecs < now - b.lastUpdate

instance (now : ℤ) : DecidablePred (Expired now) := fun b =>
  inferInstanceAs (Decidable (rateTtlSecs < now - b.lastUpdate))

/-! ### The code -/

/-- The entries that `rate_compact` keeps. -/
def liveBuckets (now : ℤ) (t : Table) : List RateBucket :=
  ((List.finRange rateBuckets).filter fun i => (t i).state = .active ∧ ¬ Expired now (t i)).map t

/-- One turn of the second loop of `rate_compact`, with the load. -/
def reinsert (acc : Table × ℕ) (b : RateBucket) : Table × ℕ :=
  match (probes b.key).find? fun s => (acc.1 s).state = .empty with
  | some s => (Function.update acc.1 s b, acc.2 + 1)
  | none => acc

/-- `rate_compact`: the table and its load. -/
def rateCompact (now : ℤ) (t : Table) : Table × ℕ :=
  (liveBuckets now t).foldl reinsert (fun _ => zeroBucket, 0)

/-- How a search ends. -/
inductive Found
  /-- An empty slot. -/
  | vacant (slot : Fin rateBuckets)
  /-- The bucket of the key. -/
  | bucket (slot : Fin rateBuckets)
  /-- All slots were seen. -/
  | nothing
  deriving DecidableEq, Repr

/-- The loop of `rate_check` up to its allocation: it buries what is expired, and remembers the
first slot that can be used again. -/
def search (now : ℤ) (key : String) :
    List (Fin rateBuckets) → Table → Option (Fin rateBuckets) →
      Table × Option (Fin rateBuckets) × Found
  | [], t, tomb => (t, tomb, .nothing)
  | s :: slots, t, tomb =>
      match (t s).state with
      | .empty => (t, tomb, .vacant s)
      | .tomb => search now key slots t (tomb.or (some s))
      | .active =>
          if Expired now (t s) then
            search now key slots (Function.update t s { t s with state := .tomb })
              (tomb.or (some s))
          else if (t s).key = key then (t, tomb, .bucket s)
          else search now key slots t tomb

/-- The window of a bucket that is over is forgotten. -/
def expireWindow (now : ℤ) (b : RateBucket) : RateBucket :=
  if 0 < b.firstFail ∧ rateWindowSecs < now - b.firstFail then
    { b with failures := 0, firstFail := 0, lockedUntil := 0 }
  else b

/-- A failure is counted. -/
def recordFailure (now : ℤ) (b : RateBucket) : RateBucket :=
  let b := if b.failures = 0 then { b with firstFail := now } else b
  let b := { b with failures := b.failures + 1, lastUpdate := now }
  if rateMaxFailures ≤ b.failures then { b with lockedUntil := now + rateLockoutSecs } else b

/-- The rest of `rate_check` for the bucket in a slot. -/
def finish (now : ℤ) (record : Bool) (t : Table) (load : ℕ) (slot : Fin rateBuckets) :
    (Table × ℕ) × Bool :=
  if now < (t slot).lockedUntil then ((t, load), false)
  else
    let b := expireWindow now (t slot)
    let b := if record then recordFailure now b else b
    ((Function.update t slot b, load), true)

/-- `rate_check` for a key, with the address present. -/
def checkKey (now : ℤ) (record : Bool) (key : String) (t : Table) (load : ℕ) :
    (Table × ℕ) × Bool :=
  let (t, load) := if rateCompactAt ≤ load then rateCompact now t else (t, load)
  match search now key (probes key) t none with
  | (t, tomb, .vacant slot) =>
      if record = false then ((t, load), true)
      else
        let alloc := tomb.getD slot
        let load := if (t alloc).state = .empty then load + 1 else load
        let fresh := { zeroBucket with key := key, state := .active, lastUpdate := now }
        finish now record (Function.update t alloc fresh) load alloc
  | (t, _, .bucket slot) => finish now record t load slot
  | (t, _, .nothing) => ((t, load), false)

/-- A call of `rate_check` at a time. -/
structure Call where
  login : Bytes
  ip : Bytes
  record : Bool
  now : ℤ
  deriving DecidableEq

/-- `rate_check`: the table, its load, and whether the attempt is allowed. -/
def rateCheck (sha256 : Bytes → Bytes) (c : Call) (t : Table) (load : ℕ) : (Table × ℕ) × Bool :=
  if c.ip = [] then ((t, load), false)
  else checkKey c.now c.record (rateMakeKey sha256 c.login c.ip) t load

/-! ### The table as a map -/

theorem mem_probes (key : String) (s : Fin rateBuckets) : s ∈ probes key := by
  have hs := s.isLt
  have hstart : rateBucket key < rateBuckets := Nat.mod_lt _ (by decide)
  generalize hst : rateBucket key = start at hstart
  rw [probes, List.mem_map]
  refine ⟨(s + (rateBuckets - start)) % rateBuckets,
    List.mem_range.mpr (Nat.mod_lt _ (by decide)), Fin.ext ?_⟩
  rw [hst]
  show (start + (s + (rateBuckets - start)) % rateBuckets) % rateBuckets = s
  unfold rateBuckets at *
  omega

/-- The table as one with open addressing. -/
def scheme : Scheme (Fin rateBuckets) RateBucket String where
  isEmpty b := b.state = .empty
  keyOf b := if b.state = .active then some b.key else none
  order := probes
  keyOf_of_isEmpty b hb := by
    rw [if_neg]
    rw [of_decide_eq_true hb]
    exact fun h => by cases h
  mem_order := mem_probes

theorem order_eq (k : String) : scheme.order k = probes k := by
  rw [scheme]

theorem isEmpty_eq (b : RateBucket) : scheme.isEmpty b = decide (b.state = .empty) := rfl

theorem keyOf_eq_some {b : RateBucket} {k : String} :
    scheme.keyOf b = some k ↔ b.state = .active ∧ b.key = k := by
  show (if b.state = .active then some b.key else none) = some k ↔ _
  split
  · next h => rw [Option.some.injEq, and_iff_right h]
  · next h => exact iff_of_false (fun hk => by cases hk) fun hk => h hk.1

theorem isEmpty_eq_false {b : RateBucket} : scheme.isEmpty b = false ↔ b.state ≠ .empty :=
  decide_eq_false_iff_not

theorem isEmpty_eq_true {b : RateBucket} : scheme.isEmpty b = true ↔ b.state = .empty :=
  decide_eq_true_iff

/-- The bucket of a key. -/
def Holds (t : Table) (k : String) (b : RateBucket) : Prop :=
  ∃ s, t s = b ∧ b.state = .active ∧ b.key = k

/-- Some buckets that are expired are gone. -/
structure Pruned (now : ℤ) (t t' : Table) : Prop where
  old : ∀ k b, Holds t' k b → Holds t k b
  kept : ∀ k b, Holds t k b → ¬ Expired now b → Holds t' k b

theorem Pruned.refl (now : ℤ) (t : Table) : Pruned now t t where
  old _ _ h := h
  kept _ _ h _ := h

theorem Pruned.trans {now : ℤ} {t t' t'' : Table} (h : Pruned now t t') (h' : Pruned now t' t'') :
    Pruned now t t'' where
  old k b hb := h.old k b (h'.old k b hb)
  kept k b hb hnew := h'.kept k b (h.kept k b hb hnew) hnew

theorem not_holds_of_keyOf {t : Table} {k : String} (h : ∀ s, scheme.keyOf (t s) ≠ some k)
    (b : RateBucket) : ¬ Holds t k b := by
  rintro ⟨s, rfl, hactive, hkey⟩
  exact h s (keyOf_eq_some.mpr ⟨hactive, hkey⟩)

/-- The table has one bucket for a key. -/
theorem Holds.eq {t : Table} (hsound : scheme.Sound t) {k : String} {b b' : RateBucket}
    (h : Holds t k b) (h' : Holds t k b') : b = b' := by
  obtain ⟨s, rfl, hactive, hkey⟩ := h
  obtain ⟨s', rfl, hactive', hkey'⟩ := h'
  rw [hsound.unique s s' k (keyOf_eq_some.mpr ⟨hactive, hkey⟩)
    (keyOf_eq_some.mpr ⟨hactive', hkey'⟩)]

/-! ### The rebuild -/

theorem mem_liveBuckets {now : ℤ} {t : Table} {b : RateBucket} :
    b ∈ liveBuckets now t ↔ (∃ s, t s = b) ∧ b.state = .active ∧ ¬ Expired now b := by
  rw [liveBuckets, List.mem_map]
  constructor
  · rintro ⟨s, hs, rfl⟩
    exact ⟨⟨s, rfl⟩, of_decide_eq_true (List.mem_filter.mp hs).2⟩
  · rintro ⟨⟨s, rfl⟩, hlive⟩
    exact ⟨s, List.mem_filter.mpr ⟨List.mem_finRange s, decide_eq_true hlive⟩, rfl⟩

theorem length_liveBuckets (now : ℤ) (t : Table) :
    (liveBuckets now t).length ≤ Fintype.card (Fin rateBuckets) := by
  rw [liveBuckets, List.length_map, Fintype.card_fin]
  exact (List.length_filter_le _ _).trans (List.length_finRange).le

/-- The keys of the entries that are kept differ. -/
theorem nodup_liveBuckets {t : Table} (h : scheme.Sound t) (now : ℤ) :
    ((liveBuckets now t).map RateBucket.key).Nodup := by
  rw [liveBuckets, List.map_map]
  refine List.Nodup.map_on ?_ ((List.nodup_finRange rateBuckets).filter _)
  intro s hs s' hs' hkey
  have hlive := (of_decide_eq_true (List.mem_filter.mp hs).2).1
  have hlive' := (of_decide_eq_true (List.mem_filter.mp hs').2).1
  exact h.unique s s' (t s).key (keyOf_eq_some.mpr ⟨hlive, rfl⟩)
    (keyOf_eq_some.mpr ⟨hlive', hkey.symm⟩)

theorem reinsert_fst (acc : Table × ℕ) (b : RateBucket) :
    (reinsert acc b).1 = scheme.place acc.1 b.key b := by
  unfold reinsert Scheme.place
  simp only [order_eq, isEmpty_eq]
  cases (probes b.key).find? fun s => decide ((acc.1 s).state = .empty) with
  | some s => rfl
  | none => rfl

/-- Only entries are put back, so that the load counts the slots that are taken. -/
theorem reinsert_snd {acc : Table × ℕ} {b : RateBucket} (hb : b.state ≠ .empty)
    (h : acc.2 = scheme.occupied acc.1) :
    (reinsert acc b).2 = scheme.occupied (reinsert acc b).1 := by
  unfold reinsert
  split
  · next s hs =>
    have hempty : scheme.isEmpty (acc.1 s) = true :=
      isEmpty_eq_true.mpr (by simpa using List.find?_some hs)
    rw [Scheme.occupied_update (isEmpty_eq_false.mpr hb), if_pos hempty, ← h]
  · exact h

theorem foldl_reinsert (bs : List RateBucket) (hbs : ∀ b ∈ bs, b.state ≠ .empty) (acc : Table × ℕ)
    (h : acc.2 = scheme.occupied acc.1) :
    (bs.foldl reinsert acc).1 = scheme.rebuild RateBucket.key acc.1 bs ∧
      (bs.foldl reinsert acc).2 = scheme.occupied (bs.foldl reinsert acc).1 := by
  induction bs generalizing acc with
  | nil => exact ⟨(Scheme.rebuild_nil _ _).symm, h⟩
  | cons b bs ih =>
    have hrest := ih (fun b' hb' => hbs b' (List.mem_cons_of_mem _ hb')) (reinsert acc b)
      (reinsert_snd (hbs b List.mem_cons_self) h)
    rw [List.foldl_cons]
    refine ⟨?_, hrest.2⟩
    rw [hrest.1, reinsert_fst, Scheme.rebuild_cons]

/-- A rebuild keeps exactly the entries that are not expired. -/
theorem rateCompact_rebuilt {t : Table} (h : scheme.Sound t) (now : ℤ) :
    Rebuilt scheme (rateCompact now t).1 (liveBuckets now t) ∧
      (rateCompact now t).2 = scheme.occupied (rateCompact now t).1 := by
  have hactive : ∀ b ∈ liveBuckets now t, b.state = .active :=
    fun b hb => (mem_liveBuckets.mp hb).2.1
  have hzero : scheme.isEmpty zeroBucket = true := rfl
  obtain ⟨htable, hload⟩ := foldl_reinsert (liveBuckets now t)
    (fun b hb => by rw [hactive b hb]; exact fun h => by cases h) (fun _ => zeroBucket, 0)
    (Scheme.occupied_of_empty fun _ => hzero).symm
  refine ⟨?_, hload⟩
  rw [rateCompact, htable]
  exact Scheme.rebuilt hzero (fun b hb => keyOf_eq_some.mpr ⟨hactive b hb, rfl⟩)
    (nodup_liveBuckets h now) (length_liveBuckets now t)

theorem holds_rebuilt {now : ℤ} {t t' : Table} (h : Rebuilt scheme t' (liveBuckets now t))
    {k : String} {b : RateBucket} : Holds t' k b ↔ Holds t k b ∧ ¬ Expired now b := by
  constructor
  · rintro ⟨s, rfl, hactive, hkey⟩
    have hmem := (h.only s).resolve_left fun hempty => by
      rw [isEmpty_eq_true, hactive] at hempty
      cases hempty
    obtain ⟨⟨s', hs'⟩, -, hnew⟩ := mem_liveBuckets.mp hmem
    exact ⟨⟨s', hs', hactive, hkey⟩, hnew⟩
  · rintro ⟨⟨s, hs, hactive, hkey⟩, hnew⟩
    obtain ⟨s', hs'⟩ := h.all b (mem_liveBuckets.mpr ⟨⟨s, hs⟩, hactive, hnew⟩)
    exact ⟨s', hs', hactive, hkey⟩

theorem rateCompact_pruned {t : Table} (h : scheme.Sound t) (now : ℤ) :
    Pruned now t (rateCompact now t).1 where
  old _ _ hb := ((holds_rebuilt (rateCompact_rebuilt h now).1).mp hb).1
  kept _ _ hb hnew := (holds_rebuilt (rateCompact_rebuilt h now).1).mpr ⟨hb, hnew⟩

/-! ### The search -/

/-- Some entries that are expired are buried. -/
def Buried (now : ℤ) (t t' : Table) : Prop :=
  ∀ s, t' s = t s ∨
    (t s).state = .active ∧ Expired now (t s) ∧ t' s = { t s with state := .tomb }

theorem Buried.refl (now : ℤ) (t : Table) : Buried now t t := fun _ => .inl rfl

/-- One entry is buried, and then others. -/
theorem Buried.of_update {now : ℤ} {t t' : Table} {s : Fin rateBuckets}
    (hactive : (t s).state = .active) (hold : Expired now (t s))
    (h : Buried now (Function.update t s { t s with state := .tomb }) t') : Buried now t t' := by
  intro s'
  have hs' := h s'
  by_cases heq : s' = s
  · subst heq
    rw [Function.update_self] at hs'
    rcases hs' with hs' | ⟨htomb, -⟩
    · exact .inr ⟨hactive, hold, hs'⟩
    · cases htomb
  · rwa [Function.update_of_ne heq] at hs'

theorem Buried.isEmpty {now : ℤ} {t t' : Table} (h : Buried now t t') (s : Fin rateBuckets) :
    scheme.isEmpty (t' s) = scheme.isEmpty (t s) := by
  rcases h s with hs | ⟨hactive, -, hs⟩
  · rw [hs]
  · have hfull : scheme.isEmpty (t s) = false := isEmpty_eq_false.mpr (by
      rw [hactive]
      exact fun h => by cases h)
    rw [hs, hfull]
    rfl

theorem Buried.sound {now : ℤ} {t t' : Table} (h : Buried now t t') (hsound : scheme.Sound t) :
    scheme.Sound t' := by
  refine hsound.mono (fun s k hk => ?_) fun s hs => (h.isEmpty s).trans hs
  rcases h s with hs | ⟨-, -, hs⟩
  · rwa [hs] at hk
  · rw [hs, keyOf_eq_some] at hk
    cases hk.1

theorem Buried.occupied {now : ℤ} {t t' : Table} (h : Buried now t t') :
    scheme.occupied t' = scheme.occupied t := by
  unfold Scheme.occupied
  simp only [h.isEmpty]

theorem Buried.pruned {now : ℤ} {t t' : Table} (h : Buried now t t') : Pruned now t t' where
  old := by
    rintro k b ⟨s, rfl, hactive, hkey⟩
    rcases h s with hs | ⟨-, -, hs⟩
    · exact ⟨s, hs.symm, hactive, hkey⟩
    · rw [hs] at hactive
      cases hactive
  kept := by
    rintro k b ⟨s, rfl, hactive, hkey⟩ hnew
    rcases h s with hs | ⟨-, hold, -⟩
    · exact ⟨s, hs, hactive, hkey⟩
    · exact absurd hold hnew

/-- How a search for a key ends.  The slots that it has seen are not empty and do not have the key,
and the slot that can be used again is among them. -/
inductive Searched (now : ℤ) (key : String) (t : Table) :
    Table × Option (Fin rateBuckets) × Found → Prop
  | vacant {t' : Table} {tomb : Option (Fin rateBuckets)} {v : Fin rateBuckets}
      {pre post : List (Fin rateBuckets)} (buried : Buried now t t')
      (order : probes key = pre ++ v :: post) (empty : (t' v).state = .empty)
      (seen : ∀ s ∈ pre, (t' s).state ≠ .empty ∧ scheme.keyOf (t' s) ≠ some key)
      (free : ∀ a ∈ tomb, a ∈ pre ∧ scheme.keyOf (t' a) = none) :
      Searched now key t (t', tomb, .vacant v)
  | bucket {t' : Table} {tomb : Option (Fin rateBuckets)} {s : Fin rateBuckets}
      (buried : Buried now t t') (active : (t' s).state = .active) (found : (t' s).key = key)
      (recent : ¬ Expired now (t' s)) : Searched now key t (t', tomb, .bucket s)
  | nothing {t' : Table} {tomb : Option (Fin rateBuckets)} (buried : Buried now t t')
      (full : ∀ s, (t s).state ≠ .empty) : Searched now key t (t', tomb, .nothing)

/-- An entry is buried before the search goes on. -/
theorem Searched.of_update {now : ℤ} {key : String} {t : Table} {s : Fin rateBuckets}
    (hactive : (t s).state = .active) (hold : Expired now (t s))
    {r : Table × Option (Fin rateBuckets) × Found}
    (h : Searched now key (Function.update t s { t s with state := .tomb }) r) :
    Searched now key t r := by
  cases h with
  | vacant buried order empty seen free =>
    exact .vacant (buried.of_update hactive hold) order empty seen free
  | bucket buried active found recent =>
    exact .bucket (buried.of_update hactive hold) active found recent
  | nothing buried full =>
    refine .nothing (buried.of_update hactive hold) fun s' => ?_
    have hburied : Buried now t (Function.update t s { t s with state := .tomb }) :=
      Buried.of_update hactive hold (.refl now _)
    rw [← isEmpty_eq_false, ← hburied.isEmpty s', isEmpty_eq_false]
    exact full s'

/-- **The search.**  The induction is on the slots that are still to be seen. -/
theorem search_searched {now : ℤ} {key : String} (slots : List (Fin rateBuckets)) :
    ∀ (seen : List (Fin rateBuckets)) (t : Table) (tomb : Option (Fin rateBuckets)),
      probes key = seen ++ slots →
      (∀ s ∈ seen, (t s).state ≠ .empty ∧ scheme.keyOf (t s) ≠ some key) →
      (∀ a ∈ tomb, a ∈ seen ∧ scheme.keyOf (t a) = none) →
      Searched now key t (search now key slots t tomb) := by
  induction slots with
  | nil =>
    intro seen t tomb horder hseen htomb
    rw [List.append_nil] at horder
    exact .nothing (.refl now t) fun s => (hseen s (horder ▸ mem_probes key s)).1
  | cons s slots ih =>
    intro seen t tomb horder hseen htomb
    have horder' : probes key = (seen ++ [s]) ++ slots := by
      rw [horder, List.append_assoc, List.singleton_append]
    have hor : ∀ {t' : Table}, scheme.keyOf (t' s) = none →
        (∀ a ∈ tomb, a ∈ seen ∧ scheme.keyOf (t' a) = none) →
        ∀ a ∈ tomb.or (some s), a ∈ seen ++ [s] ∧ scheme.keyOf (t' a) = none := by
      intro t' hs hall a ha
      cases tomb with
      | none =>
        obtain rfl := Option.some.inj ha
        exact ⟨List.mem_append_right _ (List.mem_singleton_self s), hs⟩
      | some a' =>
        obtain ⟨hmem, hfree⟩ := hall a ha
        exact ⟨List.mem_append_left _ hmem, hfree⟩
    have hsnoc : ∀ {t' : Table}, (t' s).state ≠ .empty → scheme.keyOf (t' s) ≠ some key →
        (∀ s' ∈ seen, (t' s').state ≠ .empty ∧ scheme.keyOf (t' s') ≠ some key) →
        ∀ s' ∈ seen ++ [s], (t' s').state ≠ .empty ∧ scheme.keyOf (t' s') ≠ some key := by
      intro t' hs hkey hall s' hs'
      rcases List.mem_append.mp hs' with hs' | hs'
      · exact hall s' hs'
      · rw [List.mem_singleton.mp hs']
        exact ⟨hs, hkey⟩
    unfold search
    cases hstate : (t s).state with
    | empty => exact .vacant (.refl now t) horder hstate hseen htomb
    | tomb =>
      have hkey : scheme.keyOf (t s) = none := by
        show (if (t s).state = .active then some (t s).key else none) = none
        rw [hstate]
        rfl
      have hfull : (t s).state ≠ .empty := by
        rw [hstate]
        exact fun h => by cases h
      exact ih (seen ++ [s]) t _ horder'
        (hsnoc hfull (by rw [hkey]; exact fun h => by cases h) hseen) (hor hkey htomb)
    | active =>
      have hfull : (t s).state ≠ .empty := by
        rw [hstate]
        exact fun h => by cases h
      dsimp only
      split
      · next hold =>
        -- the bucket is out of its window and is buried on the way
        have hburied : Buried now t (Function.update t s { t s with state := .tomb }) :=
          Buried.of_update hstate hold (.refl now _)
        have hkey : scheme.keyOf (Function.update t s { t s with state := .tomb } s) = none := by
          rw [Function.update_self]
          rfl
        have hkeys : ∀ s' k,
            scheme.keyOf (Function.update t s { t s with state := .tomb } s') = some k →
              scheme.keyOf (t s') = some k := by
          intro s' k hk
          by_cases heq : s' = s
          · rw [heq, hkey] at hk
            cases hk
          · rwa [Function.update_of_ne heq] at hk
        have hnext := ih (seen ++ [s]) (Function.update t s { t s with state := .tomb })
          (tomb.or (some s)) horder'
          (hsnoc (by rw [Function.update_self]; exact fun h => by cases h)
            (by rw [hkey]; exact fun h => by cases h)
            fun s' hs' => ⟨?_, fun hk => (hseen s' hs').2 (hkeys s' key hk)⟩)
          (hor hkey fun a ha => ⟨(htomb a ha).1, ?_⟩)
        · exact hnext.of_update hstate hold
        · rw [← isEmpty_eq_false, hburied.isEmpty s', isEmpty_eq_false]
          exact (hseen s' hs').1
        · cases hk : scheme.keyOf (Function.update t s { t s with state := .tomb } a) with
          | none => rfl
          | some k =>
            have hk' := hkeys a k hk
            rw [(htomb a ha).2] at hk'
            cases hk'
      · next hnew =>
        split
        · next hfound => exact .bucket (.refl now t) hstate hfound hnew
        · next hother =>
          refine ih (seen ++ [s]) t tomb horder' (hsnoc hfull ?_ hseen) fun a ha =>
            ⟨List.mem_append_left _ (htomb a ha).1, (htomb a ha).2⟩
          rw [ne_eq, keyOf_eq_some]
          exact fun hk => hother hk.2

/-! ### A call -/

/-- The table can be searched, and its load is the number of slots that are taken. -/
structure Fit (t : Table) (load : ℕ) : Prop where
  sound : scheme.Sound t
  load : load = scheme.occupied t

/-- The table before its first call. -/
theorem fit_empty : Fit (fun _ => zeroBucket) 0 where
  sound := Scheme.sound_of_empty fun _ => rfl
  load := (Scheme.occupied_of_empty fun _ => rfl).symm

/-- What a search starts from.  Slots that are all taken are all active then, as a table with many
buried ones was rebuilt. -/
theorem compacted {t : Table} {load : ℕ} (h : Fit t load) (now : ℤ) {t' : Table} {load' : ℕ}
    (hr : (if rateCompactAt ≤ load then rateCompact now t else (t, load)) = (t', load')) :
    Fit t' load' ∧ Pruned now t t' ∧
      ((∀ s, (t' s).state ≠ .empty) → ∀ s, (t' s).state = .active ∧ ¬ Expired now (t' s)) := by
  split at hr
  · obtain ⟨hrebuilt, hload⟩ := rateCompact_rebuilt h.sound now
    have hpruned := rateCompact_pruned h.sound now
    rw [hr] at hrebuilt hload hpruned
    refine ⟨⟨hrebuilt.sound, hload⟩, hpruned, fun hfull s => ?_⟩
    have hmem := (hrebuilt.only s).resolve_left fun hempty => hfull s (isEmpty_eq_true.mp hempty)
    exact (mem_liveBuckets.mp hmem).2
  · next hload =>
    obtain ⟨rfl, rfl⟩ := Prod.mk.inj hr
    refine ⟨h, .refl now t, fun hfull => ?_⟩
    have hroom : scheme.occupied t < Fintype.card (Fin rateBuckets) := by
      rw [← h.load, Fintype.card_fin]
      exact (Nat.lt_of_not_le hload).trans (by decide)
    obtain ⟨s, hs⟩ := Scheme.exists_isEmpty hroom
    exact absurd (isEmpty_eq_true.mp hs) (hfull s)

/-- The bucket of a key after a call that was allowed. -/
def used (now : ℤ) (record : Bool) (b : RateBucket) : RateBucket :=
  if record then recordFailure now (expireWindow now b) else expireWindow now b

theorem finish_eq (now : ℤ) (record : Bool) (t : Table) (load : ℕ) (s : Fin rateBuckets) :
    finish now record t load s =
      if now < (t s).lockedUntil then ((t, load), false)
      else ((Function.update t s (used now record (t s)), load), true) := rfl

theorem keyOf_used (now : ℤ) (record : Bool) (b : RateBucket) :
    scheme.keyOf (used now record b) = scheme.keyOf b := by
  have hexpire : (expireWindow now b).state = b.state ∧ (expireWindow now b).key = b.key := by
    unfold expireWindow
    split <;> exact ⟨rfl, rfl⟩
  have hrecord : ∀ b : RateBucket,
      (recordFailure now b).state = b.state ∧ (recordFailure now b).key = b.key := by
    intro b
    unfold recordFailure
    dsimp only
    split <;> split <;> exact ⟨rfl, rfl⟩
  have hused : (used now record b).state = b.state ∧ (used now record b).key = b.key := by
    cases record with
    | false => exact hexpire
    | true => exact ⟨(hrecord _).1.trans hexpire.1, (hrecord _).2.trans hexpire.2⟩
  apply Option.ext
  intro k
  show scheme.keyOf _ = some k ↔ scheme.keyOf _ = some k
  rw [keyOf_eq_some, keyOf_eq_some, hused.1, hused.2]

/-- A key that gets a bucket starts a window. -/
theorem used_fresh (now : ℤ) (key : String) :
    used now true { zeroBucket with key := key, state := .active, lastUpdate := now } =
      ⟨key, .active, 1, now, 0, now⟩ := rfl

theorem holds_iff {t : Table} {key : String} {b : RateBucket} :
    Holds t key b ↔ scheme.Holds t key b :=
  exists_congr fun _ => and_congr_right fun _ => keyOf_eq_some.symm

/-- A slot without another key is written. -/
theorem holds_update {t : Table} {s : Fin rateBuckets} {b : RateBucket} {key : String}
    (hb : scheme.keyOf b = some key) (hs : ∀ k, scheme.keyOf (t s) = some k → k = key) :
    Holds (Function.update t s b) key b ∧
      ∀ k, k ≠ key → ∀ b', Holds (Function.update t s b) k b' ↔ Holds t k b' := by
  refine ⟨⟨s, Function.update_self .., keyOf_eq_some.mp hb⟩, fun k hne b' => ?_⟩
  rw [holds_iff, holds_iff]
  exact Scheme.holds_update_of_ne hb hs hne

/-- All that a call does to the buckets, and what it returns. -/
inductive Outcome (now : ℤ) (record : Bool) (key : String) (t : Table) : Table → Bool → Prop
  | full {t' : Table} (pruned : Pruned now t t') (active : ∀ s, (t' s).state = .active) :
      Outcome now record key t t' false
  | unknown {t' : Table} (pruned : Pruned now t t') (absent : ∀ b, ¬ Holds t' key b)
      (asked : record = false) : Outcome now record key t t' true
  | fresh {t' t'' : Table} (pruned : Pruned now t t') (absent : ∀ b, ¬ Holds t' key b)
      (recorded : record = true) (written : Holds t'' key ⟨key, .active, 1, now, 0, now⟩)
      (others : ∀ k, k ≠ key → ∀ b, Holds t'' k b ↔ Holds t' k b) :
      Outcome now record key t t'' true
  | locked {t' : Table} {b : RateBucket} (pruned : Pruned now t t') (found : Holds t' key b)
      (lockout : now < b.lockedUntil) : Outcome now record key t t' false
  | allowed {t' t'' : Table} {b : RateBucket} (pruned : Pruned now t t') (found : Holds t' key b)
      (recent : ¬ Expired now b) (unlocked : b.lockedUntil ≤ now)
      (written : Holds t'' key (used now record b))
      (others : ∀ k, k ≠ key → ∀ b, Holds t'' k b ↔ Holds t' k b) :
      Outcome now record key t t'' true

/-- **A call.**  It keeps the table in order, and does one of five things. -/
theorem checkKey_outcome {t : Table} {load : ℕ} (h : Fit t load) {now : ℤ} (hnow : 0 ≤ now)
    (record : Bool) (key : String) :
    Fit (checkKey now record key t load).1.1 (checkKey now record key t load).1.2 ∧
      Outcome now record key t (checkKey now record key t load).1.1
        (checkKey now record key t load).2 := by
  unfold checkKey
  cases hr : (if rateCompactAt ≤ load then rateCompact now t else (t, load)) with
  | mk t₁ load₁ =>
    obtain ⟨hfit, hpruned, hfull⟩ := compacted h now hr
    have hsearched : Searched now key t₁ (search now key (probes key) t₁ none) :=
      search_searched (probes key) [] t₁ none (List.nil_append _).symm
        (fun s hs => absurd hs List.not_mem_nil) fun a ha => by cases ha
    dsimp only
    generalize search now key (probes key) t₁ none = r at hsearched
    cases hsearched with
    | @vacant t₂ tomb v pre post buried order empty seen free =>
      have hsound := buried.sound hfit.sound
      have hload : load₁ = scheme.occupied t₂ := hfit.load.trans buried.occupied.symm
      have hv : scheme.isEmpty (t₂ v) = true := isEmpty_eq_true.mpr empty
      have horder : scheme.order key = pre ++ v :: post := (order_eq key).trans order
      have habsent := hsound.absent horder hv fun s hs => (seen s hs).2
      have hnone := not_holds_of_keyOf habsent
      dsimp only
      split
      · next hrecord =>
        exact ⟨⟨hsound, hload⟩, .unknown (hpruned.trans buried.pruned) hnone hrecord⟩
      · next hrecord =>
        obtain rfl : record = true := by simpa using hrecord
        have halloc : tomb.getD v ∈ pre ∨ tomb.getD v = v := by
          cases tomb with
          | none => exact .inr rfl
          | some a => exact .inl (free a rfl).1
        have hfree : scheme.keyOf (t₂ (tomb.getD v)) = none := by
          cases tomb with
          | none => exact scheme.keyOf_of_isEmpty _ hv
          | some a => exact (free a rfl).2
        generalize tomb.getD v = a at halloc hfree
        have hkey : scheme.keyOf ⟨key, .active, 1, now, 0, now⟩ = some key :=
          keyOf_eq_some.mpr ⟨rfl, rfl⟩
        have hunlocked : ¬ now < (Function.update t₂ a
            { zeroBucket with key := key, state := .active, lastUpdate := now } a).lockedUntil := by
          rw [Function.update_self]
          exact not_lt.mpr hnow
        rw [finish_eq, if_neg hunlocked, Function.update_self, used_fresh, Function.update_idem]
        obtain ⟨hwritten, hothers⟩ := holds_update (t := t₂) (s := a) hkey (by
          rw [hfree]
          exact fun k hk => by cases hk)
        refine ⟨⟨hsound.insert horder (fun s hs => isEmpty_eq_false.mpr (seen s hs).1) halloc hfree
          hkey habsent, ?_⟩, .fresh (hpruned.trans buried.pruned) hnone rfl hwritten hothers⟩
        rw [Scheme.occupied_update (Scheme.not_isEmpty_of_keyOf hkey), hload]
        simp only [isEmpty_eq_true]
    | @bucket t₂ tomb s buried active found recent =>
      have hsound := buried.sound hfit.sound
      have hload : load₁ = scheme.occupied t₂ := hfit.load.trans buried.occupied.symm
      have hkey : scheme.keyOf (t₂ s) = some key := keyOf_eq_some.mpr ⟨active, found⟩
      have hholds : Holds t₂ key (t₂ s) := ⟨s, rfl, active, found⟩
      dsimp only
      rw [finish_eq]
      split
      · next hlocked =>
        exact ⟨⟨hsound, hload⟩, .locked (hpruned.trans buried.pruned) hholds hlocked⟩
      · next hunlocked =>
        have hkey' : scheme.keyOf (used now record (t₂ s)) = some key :=
          (keyOf_used now record _).trans hkey
        have hfull' := Scheme.not_isEmpty_of_keyOf hkey'
        obtain ⟨hwritten, hothers⟩ := holds_update (t := t₂) (s := s) hkey' (by
          rw [hkey]
          exact fun k hk => (Option.some.inj hk).symm)
        refine ⟨⟨hsound.rewrite hfull' fun k hk => by rwa [keyOf_used] at hk, ?_⟩,
          .allowed (hpruned.trans buried.pruned) hholds recent (not_lt.mp hunlocked) hwritten
            hothers⟩
        rw [Scheme.occupied_update hfull', if_neg, hload]
        rw [Scheme.not_isEmpty_of_keyOf hkey]
        exact Bool.false_ne_true
    | @nothing t₂ tomb buried full =>
      have hactive := hfull full
      dsimp only
      refine ⟨⟨buried.sound hfit.sound, hfit.load.trans buried.occupied.symm⟩,
        .full (hpruned.trans buried.pruned) fun s => ?_⟩
      rcases buried s with hs | ⟨-, hold, -⟩
      · rw [hs]
        exact (hactive s).1
      · exact absurd hold (hactive s).2

end SecChat.RateLimiter
