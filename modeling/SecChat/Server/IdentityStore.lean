import SecChat.Python.Base64
import SecChat.Library.Runs

/-!
# Identities of one user on the server

A user's identity key stands in three tables: `user_keys` with its version, `pqxdh_bundles`, and the
log `identity_key_log`.  The requests write and read them one statement at a time, most results are
ignored, and a reply takes its key and its version from two statements.

* `Tables`, `Phase`, `advance`: the tables, where a request is, and its next statement;
* `step`, `reply`: requests of one user in any order, every statement of which may fail;
* `Logged`, `KeepsKey`: what is served is in the log, and a key only changes with its version;
* `StepOk`: the condition on a statement, in the state before it;
* `served_identities_logged`: under the condition both hold in every run;
* `rotation_served_unlogged`: a rotation without any failure.
-/

namespace SecChat.IdentityStore

open Py

/-! ### Texts of keys -/

/-- `canonical_identity_b64`, without the bound of its buffer. -/
def canonicalIdentity (text : Bytes) : Bytes :=
  text.filterMap fun ch =>
    if ch = 45 then some 43
    else if ch = 95 then some 47
    else if ch = 61 ∨ ch = 13 ∨ ch = 10 ∨ ch = 32 ∨ ch = 9 then none
    else some ch

/-- Two texts denote the same key. -/
def SameKey (a b : Bytes) : Prop := canonicalIdentity a = canonicalIdentity b

instance (a b : Bytes) : Decidable (SameKey a b) :=
  inferInstanceAs (Decidable (_ = _))

/-- `identity_b64_equal`. -/
def identityB64Equal (a b : Bytes) : Bool :=
  let ca := (canonicalIdentity a).take 511
  let cb := (canonicalIdentity b).take 511
  ca ≠ [] ∧ cb ≠ [] ∧ ca = cb

/-- A copy into a buffer of 256 bytes. -/
def cut (text : Bytes) : Bytes := text.take 255

/-! ### Tables and statements -/

/-- What the tables hold about the user: `user_keys` with the version, the log with the versions, and
the key in `pqxdh_bundles`. -/
structure Tables where
  key : Option (Bytes × ℕ)
  log : List (ℕ × Bytes)
  bundle : Option Bytes
  deriving DecidableEq

namespace Tables

/-- `key_upload_user`. -/
def uploadUser (T : Tables) (pk : Bytes) : Tables :=
  { T with key := some (pk, (T.key.map Prod.snd).getD 0) }

/-- The update in `key_bump_identity_version`. -/
def bumpIdentityVersion (T : Tables) : Tables :=
  { T with key := T.key.map fun (pk, version) => (pk, version + 1) }

/-- The versions that are logged. -/
def versions (T : Tables) : List ℕ := T.log.map Prod.fst

/-- `key_append_identity_log`: a version that is there already is ignored. -/
def appendIdentityLog (T : Tables) (version : ℕ) (pk : Bytes) : Tables :=
  if version ∈ T.versions then T else { T with log := T.log ++ [(version, pk)] }

/-- `key_pqxdh_upload_bundle`. -/
def uploadBundle (T : Tables) (pk : Bytes) : Tables := { T with bundle := some pk }

/-- `key_get_identity_version`, where its callers take a failure for 0. -/
def identityVersion (T : Tables) : ℕ := (T.key.map Prod.snd).getD 0

/-- A text is stored somewhere. -/
def Stored (T : Tables) (pk : Bytes) : Prop :=
  (∃ version, T.key = some (pk, version)) ∨ (∃ version, (version, pk) ∈ T.log) ∨
    T.bundle = some pk

end Tables

/-- What becomes of a statement; `lost` takes effect, but the server sees an error. -/
inductive Outcome
  | done
  | failed
  | lost
  deriving DecidableEq, Repr

/-- The tables after a statement. -/
def Outcome.tables (o : Outcome) (T T' : Tables) : Tables := if o = .failed then T else T'

/-- Where a request is: the statement that it executes next, with what it has read.  `fresh` records
that the request created the row of `user_keys`; the code does not look at it. -/
inductive Phase
  | uploadCheck (pk : Bytes)
  | uploadWrite (pk : Bytes)
  | uploadVersion (pk : Bytes) (fresh : Bool)
  | uploadLog (pk : Bytes) (version : ℕ) (fresh : Bool)
  | rotateWrite (pk : Bytes)
  | rotateBump (pk : Bytes) (fresh : Bool)
  | rotateRead (pk : Bytes)
  | rotateLog (pk : Bytes) (version : ℕ)
  | bundleCheck (pk : Bytes)
  | bundleLog (pk : Bytes)
  | bundleWrite (pk : Bytes)
  | getBundle
  | getBundleVersion (pk : Bytes)
  | myKeys
  | myKeysVersion (pk : Bytes)
  | finished
  deriving DecidableEq

/-- The requests. -/
inductive Request
  | uploadKeys (pk : Bytes)
  | rotateIdentity (pk : Bytes)
  | uploadPqxdhBundle (pk : Bytes)
  | getPqxdhBundle
  | getMyKeys
  deriving DecidableEq

/-- The first statement of a request. -/
def Request.entry : Request → Phase
  | .uploadKeys pk => if cut pk = [] then .finished else .uploadCheck (cut pk)
  | .rotateIdentity pk => if cut pk = [] then .finished else .rotateWrite (cut pk)
  | .uploadPqxdhBundle pk => if pk = [] then .finished else .bundleCheck pk
  | .getPqxdhBundle => .getBundle
  | .getMyKeys => .myKeys

/-- One statement of a request, and where the request is after it. -/
def advance (T : Tables) (o : Outcome) : Phase → Tables × Phase
  -- `handle_upload_keys`
  | .uploadCheck pk =>
      match T.key with
      | some (current, _) =>
          if o = .done ∧ identityB64Equal (cut current) pk = false then (T, .finished)
          else (T, .uploadWrite pk)
      | none => (T, .uploadWrite pk)
  | .uploadWrite pk =>
      (o.tables T (T.uploadUser pk),
        if o = .done then .uploadVersion pk (T.key = none) else .finished)
  | .uploadVersion pk fresh => (T, .uploadLog pk (if o = .done then T.identityVersion else 0) fresh)
  | .uploadLog pk version _ => (o.tables T (T.appendIdentityLog version pk), .finished)
  -- `handle_rotate_identity`
  | .rotateWrite pk =>
      (o.tables T (T.uploadUser pk),
        if o = .done then .rotateBump pk (T.key = none) else .finished)
  | .rotateBump pk _ =>
      (o.tables T T.bumpIdentityVersion,
        if o = .done ∧ T.key ≠ none then .rotateRead pk else .finished)
  | .rotateRead pk =>
      (T, if o = .done ∧ T.key ≠ none then .rotateLog pk T.identityVersion else .finished)
  | .rotateLog pk version => (o.tables T (T.appendIdentityLog version pk), .finished)
  -- `handle_upload_pqxdh_bundle`
  | .bundleCheck pk =>
      match T.key with
      | some (current, _) =>
          if o = .done then
            if identityB64Equal (cut current) pk = false then (T, .finished)
            else (T, .bundleWrite pk)
          else (T, .bundleLog pk)
      | none => (T, .bundleLog pk)
  | .bundleLog pk => (o.tables T (T.appendIdentityLog 0 pk), .bundleWrite pk)
  | .bundleWrite pk => (o.tables T (T.uploadBundle pk), .finished)
  -- `handle_get_pqxdh_bundle` and `handle_get_my_keys`
  | .getBundle =>
      match T.bundle with
      | some pk => (T, if o = .done then .getBundleVersion (cut pk) else .finished)
      | none => (T, .finished)
  | .myKeys =>
      match T.key with
      | some (pk, _) => (T, if o = .done then .myKeysVersion (cut pk) else .finished)
      | none => (T, .finished)
  | .getBundleVersion _ | .myKeysVersion _ | .finished => (T, .finished)

/-- The tables and all requests so far. -/
structure State where
  tables : Tables
  requests : List Phase
  deriving DecidableEq

/-- A request starts, or the `i`-th request executes a statement. -/
inductive Event
  | start (req : Request)
  | exec (i : ℕ) (o : Outcome)
  deriving DecidableEq

/-- One event. -/
def step (s : State) : Event → State
  | .start req => { s with requests := s.requests ++ [req.entry] }
  | .exec i o =>
      match s.requests[i]? with
      | some phase =>
          ⟨(advance s.tables o phase).1, s.requests.set i (advance s.tables o phase).2⟩
      | none => s

/-- The identity key and the version that a reply carries. -/
def reply (s : State) : Event → Option (Bytes × ℕ)
  | .start _ => none
  | .exec i o =>
      match s.requests[i]? with
      | some (.getBundleVersion pk) | some (.myKeysVersion pk) =>
          some (pk, if o = .done then s.tables.identityVersion else 0)
      | _ => none

/-- A new user. -/
def newUser : State := ⟨⟨none, [], none⟩, []⟩

/-! ### What is claimed -/

/-- What is served is in the log. -/
def Logged (s : State) (e : Event) : Prop :=
  ∀ pk version, reply s e = some (pk, version) →
    ∃ row ∈ s.tables.log, row.1 = version ∧ SameKey row.2 pk

/-- The key only changes with its version. -/
def KeepsKey (s : State) (e : Event) : Prop :=
  ∀ pk version pk' version', s.tables.key = some (pk, version) →
    (step s e).tables.key = some (pk', version') → ¬ SameKey pk pk' → version < version'

/-! ### The condition -/

/-- The text names the same key as all texts that are stored. -/
def Agrees (T : Tables) (pk : Bytes) : Prop := ∀ q, T.Stored q → SameKey q pk

theorem agrees_iff {T : Tables} {pk : Bytes} : Agrees T pk ↔
    (∀ row ∈ T.key, SameKey row.1 pk) ∧ (∀ row ∈ T.log, SameKey row.2 pk) ∧
      ∀ q ∈ T.bundle, SameKey q pk := by
  constructor
  · intro h
    exact ⟨fun row hrow => h row.1 (.inl ⟨row.2, hrow⟩),
      fun row hrow => h row.2 (.inr (.inl ⟨row.1, hrow⟩)), fun q hq => h q (.inr (.inr hq))⟩
  · rintro ⟨hkey, hlog, hbundle⟩ q (⟨version, hq⟩ | ⟨version, hq⟩ | hq)
    · exact hkey (q, version) hq
    · exact hlog (version, q) hq
    · exact hbundle q hq

instance (T : Tables) (pk : Bytes) : Decidable (Agrees T pk) :=
  decidable_of_iff _ agrees_iff.symm

/-- A request created the identity or raised its version, and has not logged it yet. -/
def Phase.unlogged : Phase → Bool
  | .uploadVersion _ fresh | .uploadLog _ _ fresh | .rotateBump _ fresh => fresh
  | .rotateRead _ | .rotateLog _ _ => true
  | _ => false

/-- The condition on the next statement of a request. -/
def PhaseOk (s : State) (o : Outcome) : Phase → Prop
  -- the first identity must be logged afterwards, so the server must see that it was written
  | .uploadWrite pk | .rotateWrite pk =>
      (o ≠ .failed → Agrees s.tables pk) ∧ (s.tables.key = none → o ≠ .lost)
  | .uploadLog _ _ fresh => fresh = true → o ≠ .failed
  | .rotateBump _ fresh => o ≠ .lost ∧ (fresh = true → o ≠ .failed)
  | .rotateRead _ => o = .done
  | .rotateLog _ _ => o ≠ .failed
  | .bundleLog pk =>
      (o ≠ .failed → 0 ∈ s.tables.versions ∨ Agrees s.tables pk) ∧
      (o = .failed → s.tables.key ≠ none ∨ 0 ∈ s.tables.versions)
  | .bundleWrite pk => o ≠ .failed → Agrees s.tables pk ∧ SameKey (cut pk) pk
  | .getBundleVersion _ | .myKeysVersion _ =>
      (o = .done → ∀ phase ∈ s.requests, phase.unlogged = false) ∧
      (o ≠ .done → 0 ∈ s.tables.versions)
  | _ => True

instance (s : State) (o : Outcome) : (phase : Phase) → Decidable (PhaseOk s o phase)
  | .uploadWrite _ | .rotateWrite _ => inferInstanceAs (Decidable ((_ → _) ∧ (_ → _)))
  | .uploadLog _ _ _ => inferInstanceAs (Decidable (_ → _))
  | .rotateBump _ _ => inferInstanceAs (Decidable (_ ∧ (_ → _)))
  | .rotateRead _ => inferInstanceAs (Decidable (_ = _))
  | .rotateLog _ _ => inferInstanceAs (Decidable (_ ≠ _))
  | .bundleLog _ => inferInstanceAs (Decidable ((_ → _ ∨ _) ∧ (_ → _ ∨ _)))
  | .bundleWrite _ => inferInstanceAs (Decidable (_ → _ ∧ _))
  | .getBundleVersion _ | .myKeysVersion _ =>
      inferInstanceAs (Decidable ((_ → ∀ phase ∈ s.requests, phase.unlogged = false) ∧ (_ → _)))
  | .uploadCheck _ | .uploadVersion _ _ | .bundleCheck _ | .getBundle | .myKeys | .finished =>
      .isTrue trivial

/-- The condition on an event. -/
def StepOk (s : State) : Event → Prop
  | .start _ => True
  | .exec i o => ∀ phase, s.requests[i]? = some phase → PhaseOk s o phase

instance (s : State) (e : Event) : Decidable (StepOk s e) :=
  match e with
  | .start _ => .isTrue trivial
  | .exec i o => inferInstanceAs (Decidable (∀ phase ∈ s.requests[i]?, PhaseOk s o phase))

/-! ### What statements keep -/

/-- What holds of the tables in every run that meets the condition. -/
structure Sound (T : Tables) : Prop where
  same : ∀ p q, T.Stored p → T.Stored q → SameKey p q
  keyLength : ∀ pk version, T.key = some (pk, version) → pk.length ≤ 255
  bundleCut : ∀ pk, T.bundle = some pk → SameKey (cut pk) pk
  bundleLogged : T.key = none → T.bundle ≠ none → 0 ∈ T.versions

/-- Statements delete nothing: rows stay, perhaps with another text of the same key. -/
structure Grows (T T' : Tables) : Prop where
  key : T.key ≠ none → T'.key ≠ none
  bundle : T.bundle ≠ none → T'.bundle ≠ none
  versions : ∀ v ∈ T.versions, v ∈ T'.versions
  stored : ∀ p, T.Stored p → ∃ q, T'.Stored q ∧ SameKey q p

theorem Grows.refl (T : Tables) : Grows T T :=
  ⟨id, id, fun _ h => h, fun p h => ⟨p, h, rfl⟩⟩

section Statements

variable {T : Tables} {pk : Bytes}

theorem mem_versions {v : ℕ} : v ∈ T.versions ↔ ∃ p, (v, p) ∈ T.log := by
  simp [Tables.versions]

/-- A text of the same key takes its place among the stored ones. -/
theorem same_of_agrees {T' : Tables} (h : Sound T) (hagrees : Agrees T pk)
    (hnew : ∀ q, T'.Stored q → q = pk ∨ T.Stored q) (p q : Bytes) (hp : T'.Stored p)
    (hq : T'.Stored q) : SameKey p q := by
  rcases hnew p hp with rfl | hp
  · rcases hnew q hq with rfl | hq
    · rfl
    · exact (hagrees q hq).symm
  · rcases hnew q hq with rfl | hq
    · exact hagrees p hp
    · exact h.same p q hp hq

theorem Sound.uploadUser (h : Sound T) (hagrees : Agrees T pk) (hlen : pk.length ≤ 255) :
    Sound (T.uploadUser pk) := by
  refine ⟨same_of_agrees h hagrees ?_, ?_, h.bundleCut, fun hnone => ?_⟩
  · rintro q (⟨version, hq⟩ | hq | hq)
    · exact .inl (congrArg Prod.fst (Option.some.inj hq)).symm
    · exact .inr (.inr (.inl hq))
    · exact .inr (.inr (.inr hq))
  · intro p version hp
    obtain ⟨rfl, -⟩ := Prod.mk.inj (Option.some.inj hp)
    exact hlen
  · cases hnone

theorem Grows.uploadUser (hagrees : Agrees T pk) : Grows T (T.uploadUser pk) := by
  have hpk : (T.uploadUser pk).Stored pk := .inl ⟨_, rfl⟩
  refine ⟨fun _ => Option.some_ne_none _, id, fun _ h => h, ?_⟩
  rintro p (⟨version, hp⟩ | hp | hp)
  · exact ⟨pk, hpk, (hagrees p (.inl ⟨version, hp⟩)).symm⟩
  · exact ⟨p, .inr (.inl hp), rfl⟩
  · exact ⟨p, .inr (.inr hp), rfl⟩

theorem stored_bump {p : Bytes} : T.bumpIdentityVersion.Stored p ↔ T.Stored p := by
  have hkey : (∃ version, T.bumpIdentityVersion.key = some (p, version)) ↔
      ∃ version, T.key = some (p, version) := by
    unfold Tables.bumpIdentityVersion
    cases T.key with
    | none => simp
    | some row =>
      obtain ⟨current, version⟩ := row
      simp
  unfold Tables.Stored
  rw [hkey]
  rfl

theorem Sound.bump (h : Sound T) : Sound T.bumpIdentityVersion := by
  refine ⟨fun p q hp hq => h.same p q (stored_bump.mp hp) (stored_bump.mp hq), ?_, h.bundleCut, ?_⟩
  · intro p version hp
    obtain ⟨version', hp'⟩ | hrest := stored_bump.mp (.inl ⟨version, hp⟩)
    · exact h.keyLength p version' hp'
    · simp only [Tables.bumpIdentityVersion, Option.map_eq_some_iff, Prod.mk.injEq] at hp
      obtain ⟨row, hrow, rfl, -⟩ := hp
      exact h.keyLength row.1 row.2 hrow
  · intro hnone
    exact h.bundleLogged (Option.map_eq_none_iff.mp hnone)

theorem Grows.bump (T : Tables) : Grows T T.bumpIdentityVersion := by
  refine ⟨fun hkey hnone => hkey (Option.map_eq_none_iff.mp hnone), id, fun _ h => h, ?_⟩
  exact fun p hp => ⟨p, stored_bump.mpr hp, rfl⟩

theorem mem_versions_append (T : Tables) (v : ℕ) (pk : Bytes) :
    v ∈ (T.appendIdentityLog v pk).versions := by
  unfold Tables.appendIdentityLog
  split
  · assumption
  · simp [Tables.versions]

theorem Sound.append {v : ℕ} (h : Sound T) (hagrees : v ∈ T.versions ∨ Agrees T pk) :
    Sound (T.appendIdentityLog v pk) := by
  unfold Tables.appendIdentityLog
  split
  · exact h
  · next hnew =>
    refine ⟨same_of_agrees h (hagrees.resolve_left hnew) ?_, h.keyLength, h.bundleCut, ?_⟩
    · rintro q (hq | ⟨version, hq⟩ | hq)
      · exact .inr (.inl hq)
      · rcases List.mem_append.mp hq with hq | hq
        · exact .inr (.inr (.inl ⟨version, hq⟩))
        · exact .inl (congrArg Prod.snd (List.mem_singleton.mp hq))
      · exact .inr (.inr (.inr hq))
    · intro hkey hbundle
      have hzero := h.bundleLogged hkey hbundle
      simp only [Tables.versions, List.map_append, List.mem_append]
      exact .inl hzero

theorem Grows.append (T : Tables) (v : ℕ) (pk : Bytes) : Grows T (T.appendIdentityLog v pk) := by
  unfold Tables.appendIdentityLog
  split
  · exact Grows.refl T
  · refine ⟨id, id, fun w hw => ?_, ?_⟩
    · simp only [Tables.versions, List.map_append, List.mem_append]
      exact .inl hw
    · rintro p (hp | ⟨version, hp⟩ | hp)
      · exact ⟨p, .inl hp, rfl⟩
      · exact ⟨p, .inr (.inl ⟨version, List.mem_append_left _ hp⟩), rfl⟩
      · exact ⟨p, .inr (.inr hp), rfl⟩

theorem Sound.uploadBundle (h : Sound T) (hagrees : Agrees T pk) (hcut : SameKey (cut pk) pk)
    (hlogged : T.key ≠ none ∨ 0 ∈ T.versions) : Sound (T.uploadBundle pk) := by
  refine ⟨same_of_agrees h hagrees ?_, h.keyLength, ?_, fun hnone _ => ?_⟩
  · rintro q (hq | hq | hq)
    · exact .inr (.inl hq)
    · exact .inr (.inr (.inl hq))
    · exact .inl (Option.some.inj hq).symm
  · intro p hp
    obtain rfl := Option.some.inj hp
    exact hcut
  · exact hlogged.resolve_left fun hkey => hkey hnone

theorem Grows.uploadBundle (hagrees : Agrees T pk) : Grows T (T.uploadBundle pk) := by
  have hpk : (T.uploadBundle pk).Stored pk := .inr (.inr rfl)
  refine ⟨id, fun _ => Option.some_ne_none _, fun _ h => h, ?_⟩
  rintro p (hp | hp | hp)
  · exact ⟨p, .inl hp, rfl⟩
  · exact ⟨p, .inr (.inl hp), rfl⟩
  · exact ⟨pk, hpk, (hagrees p (.inr (.inr hp))).symm⟩

end Statements

/-! ### Where requests are -/

/-- A text that a request carries names a stored key. -/
def Names (T : Tables) (pk : Bytes) : Prop := ∃ q, T.Stored q ∧ SameKey q pk

/-- What a request knows of the tables. -/
def Known (T : Tables) : Phase → Prop
  | .uploadCheck pk | .uploadWrite pk | .rotateWrite pk => pk.length ≤ 255
  | .uploadVersion pk _ | .uploadLog pk _ _ | .rotateBump pk _ | .rotateRead pk | .rotateLog pk _ |
    .myKeysVersion pk => T.key ≠ none ∧ Names T pk
  | .bundleWrite _ => T.key ≠ none ∨ 0 ∈ T.versions
  | .getBundleVersion pk => T.bundle ≠ none ∧ Names T pk
  | _ => True

theorem Names.mono {T T' : Tables} {pk : Bytes} (hgrows : Grows T T') (h : Names T pk) :
    Names T' pk := by
  obtain ⟨q, hq, hsame⟩ := h
  obtain ⟨q', hq', hsame'⟩ := hgrows.stored q hq
  exact ⟨q', hq', hsame'.trans hsame⟩

theorem Known.mono {T T' : Tables} {phase : Phase} (hgrows : Grows T T') (h : Known T phase) :
    Known T' phase := by
  cases phase with
  | uploadCheck pk | uploadWrite pk | rotateWrite pk => exact h
  | uploadVersion pk _ | uploadLog pk _ _ | rotateBump pk _ | rotateRead pk | rotateLog pk _
  | myKeysVersion pk => exact ⟨hgrows.key h.1, h.2.mono hgrows⟩
  | bundleWrite pk => exact h.imp hgrows.key (hgrows.versions 0)
  | getBundleVersion pk => exact ⟨hgrows.bundle h.1, h.2.mono hgrows⟩
  | _ => trivial

/-- The request will log the version `w`. -/
def Covers (w : ℕ) : Phase → Prop
  | .uploadVersion _ fresh | .rotateBump _ fresh => fresh = true ∧ w = 0
  | .uploadLog _ version fresh => fresh = true ∧ version = w
  | .rotateRead _ => True
  | .rotateLog _ version => version = w
  | _ => False

theorem Covers.unlogged {w : ℕ} {phase : Phase} (h : Covers w phase) : phase.unlogged = true := by
  cases phase with
  | uploadVersion _ _ | rotateBump _ _ | uploadLog _ _ _ => exact h.1
  | rotateRead _ | rotateLog _ _ => rfl
  | _ => exact h.elim

/-- The invariant. -/
structure Inv (s : State) : Prop where
  sound : Sound s.tables
  known : ∀ phase ∈ s.requests, Known s.tables phase
  covered : ∀ pk w, s.tables.key = some (pk, w) →
    w ∈ s.tables.versions ∨ ∃ phase ∈ s.requests, Covers w phase

/-! ### One statement -/

/-- What a statement of a request does to the invariant: the tables stay sound and grow, the request
knows what it needs next, and the version of the key is covered by the request itself, unless it is
an old version that the request did not cover. -/
structure Advanced (T : Tables) (phase : Phase) (T' : Tables) (phase' : Phase) : Prop where
  sound : Sound T'
  grows : Grows T T'
  known : Known T' phase'
  covered : ∀ pk w, T'.key = some (pk, w) →
    (w ∈ T'.versions ∨ Covers w phase') ∨ (∃ p, T.key = some (p, w)) ∧ ¬ Covers w phase

/-- A statement that only reads. -/
theorem Advanced.read {T : Tables} {phase phase' : Phase} (h : Sound T) (hknown : Known T phase')
    (hcovers : ∀ pk w, T.key = some (pk, w) → Covers w phase → Covers w phase') :
    Advanced T phase T phase' := by
  refine ⟨h, Grows.refl T, hknown, fun pk w hkey => ?_⟩
  by_cases hw : Covers w phase
  · exact .inl (.inr (hcovers pk w hkey hw))
  · exact .inr ⟨⟨pk, hkey⟩, hw⟩

theorem identityVersion_eq {T : Tables} {pk : Bytes} {w : ℕ} (h : T.key = some (pk, w)) :
    T.identityVersion = w := by
  simp [Tables.identityVersion, h]

/-- The write to `user_keys`, by either request. -/
theorem advanced_uploadUser {T : Tables} {pk : Bytes} {phase : Phase} {o : Outcome}
    (next : Bool → Phase) (h : Sound T) (hlen : pk.length ≤ 255)
    (hagrees : o ≠ .failed → Agrees T pk) (hlost : T.key = none → o ≠ .lost)
    (hphase : ∀ w, ¬ Covers w phase)
    (hknown : ∀ T' fresh, T'.key ≠ none ∧ Names T' pk → Known T' (next fresh))
    (hcovers : Covers 0 (next true)) :
    Advanced T phase (o.tables T (T.uploadUser pk))
      (if o = .done then next (T.key = none) else .finished) := by
  by_cases hfailed : o = .failed
  · subst hfailed
    exact Advanced.read h trivial fun _ w _ hw => absurd hw (hphase w)
  · have htables : o.tables T (T.uploadUser pk) = T.uploadUser pk := if_neg hfailed
    rw [htables]
    refine ⟨h.uploadUser (hagrees hfailed) hlen, Grows.uploadUser (hagrees hfailed), ?_, ?_⟩
    · split
      · exact hknown _ _ ⟨Option.some_ne_none _, pk, .inl ⟨_, rfl⟩, rfl⟩
      · trivial
    · intro p w hp
      obtain ⟨-, rfl⟩ := Prod.mk.inj (Option.some.inj hp)
      cases hkey : T.key with
      | some row => exact .inr ⟨⟨row.1, by simp⟩, hphase _⟩
      | none =>
        -- the row was created, and the request goes on
        have hdone : o = .done := by
          cases o with
          | done => rfl
          | failed => exact absurd rfl hfailed
          | lost => exact absurd rfl (hlost hkey)
        refine .inl (.inr ?_)
        simpa [hdone] using hcovers

/-- The insertion into the log. -/
theorem advanced_append {T : Tables} {pk : Bytes} {phase phase' : Phase} {o : Outcome} {v : ℕ}
    (h : Sound T) (hagrees : o ≠ .failed → v ∈ T.versions ∨ Agrees T pk)
    (hknown : ∀ T', Grows T T' → (o ≠ .failed → v ∈ T'.versions) → Known T' phase')
    (hcovers : ∀ w, Covers w phase → v = w ∧ o ≠ .failed) :
    Advanced T phase (o.tables T (T.appendIdentityLog v pk)) phase' := by
  by_cases hfailed : o = .failed
  · subst hfailed
    refine Advanced.read h (hknown T (Grows.refl T) fun hne => absurd rfl hne) ?_
    exact fun _ w _ hw => absurd rfl (hcovers w hw).2
  · have htables : o.tables T (T.appendIdentityLog v pk) = T.appendIdentityLog v pk :=
      if_neg hfailed
    have hlogged := mem_versions_append T v pk
    rw [htables]
    refine ⟨h.append (hagrees hfailed), Grows.append T v pk,
      hknown _ (Grows.append T v pk) fun _ => hlogged, fun p w hp => ?_⟩
    by_cases hw : Covers w phase
    · exact .inl (.inl ((hcovers w hw).1 ▸ hlogged))
    · refine .inr ⟨⟨p, ?_⟩, hw⟩
      unfold Tables.appendIdentityLog at hp
      split at hp <;> exact hp

/-- **One statement** of a request that meets the condition. -/
theorem advanced_of_ok {s : State} {phase : Phase} {o : Outcome} (h : Sound s.tables)
    (hknown : Known s.tables phase) (hok : PhaseOk s o phase) :
    Advanced s.tables phase (advance s.tables o phase).1 (advance s.tables o phase).2 := by
  have hnames : ∀ {pk}, Names s.tables pk → Agrees s.tables pk := by
    rintro pk ⟨q, hq, hsame⟩ p hp
    exact (h.same p q hp hq).trans hsame
  have hnone : ∀ {phase' : Phase}, (∀ w, ¬ Covers w phase) → Known s.tables phase' →
      Advanced s.tables phase s.tables phase' := fun hphase hphase' =>
    Advanced.read h hphase' fun _ w _ hw => absurd hw (hphase w)
  cases phase with
  | uploadCheck pk =>
    simp only [advance]
    split
    · split
      · exact hnone (fun _ => id) trivial
      · exact hnone (fun _ => id) hknown
    · exact hnone (fun _ => id) hknown
  | uploadWrite pk =>
    exact advanced_uploadUser (.uploadVersion pk) h hknown hok.1 hok.2 (fun _ => id)
      (fun _ _ => id) ⟨rfl, rfl⟩
  | uploadVersion pk fresh =>
    refine Advanced.read h hknown fun p w hkey hw => ⟨hw.1, ?_⟩
    split
    · exact identityVersion_eq hkey
    · exact hw.2.symm
  | uploadLog pk version fresh =>
    exact advanced_append h (fun _ => .inr (hnames hknown.2)) (fun _ _ _ => trivial)
      fun w hw => ⟨hw.2, hok hw.1⟩
  | rotateWrite pk =>
    exact advanced_uploadUser (.rotateBump pk) h hknown hok.1 hok.2 (fun _ => id)
      (fun _ _ => id) ⟨rfl, rfl⟩
  | rotateBump pk fresh =>
    obtain ⟨hlost, hfresh⟩ := hok
    cases o with
    | lost => exact absurd rfl hlost
    | failed =>
      -- no row of the log would follow: the condition allows it only for a key that is not fresh
      refine Advanced.read h trivial fun _ w _ hw => ?_
      exact absurd rfl (hfresh hw.1)
    | done =>
      refine ⟨h.bump, Grows.bump _, ?_, fun p w _ => .inl (.inr ?_)⟩
      · rw [advance, if_pos ⟨rfl, hknown.1⟩]
        have hread : Known s.tables (.rotateRead pk) := hknown
        exact hread.mono (Grows.bump _)
      · rw [advance, if_pos ⟨rfl, hknown.1⟩]
        trivial
  | rotateRead pk =>
    subst hok
    rw [advance, if_pos ⟨rfl, hknown.1⟩]
    exact Advanced.read h hknown fun p w hkey _ => identityVersion_eq hkey
  | rotateLog pk version =>
    exact advanced_append h (fun _ => .inr (hnames hknown.2)) (fun _ _ _ => trivial)
      fun w hw => ⟨hw, hok⟩
  | bundleCheck pk =>
    simp only [advance]
    split
    · next current version hkey =>
      split
      · split
        · exact hnone (fun _ => id) trivial
        · exact hnone (fun _ => id) (.inl (by simp [hkey]))
      · exact hnone (fun _ => id) trivial
    · exact hnone (fun _ => id) trivial
  | bundleLog pk =>
    refine advanced_append h hok.1 (fun T' hgrows hlogged => ?_) fun _ hw => hw.elim
    by_cases hfailed : o = .failed
    · exact (hok.2 hfailed).imp hgrows.key (hgrows.versions 0)
    · exact .inr (hlogged hfailed)
  | bundleWrite pk =>
    simp only [advance]
    by_cases hfailed : o = .failed
    · subst hfailed
      exact hnone (fun _ => id) trivial
    · obtain ⟨hagrees, hcut⟩ := hok hfailed
      have htables : o.tables s.tables (s.tables.uploadBundle pk) = s.tables.uploadBundle pk :=
        if_neg hfailed
      rw [htables]
      exact ⟨h.uploadBundle hagrees hcut hknown, Grows.uploadBundle hagrees, trivial,
        fun p w hp => .inr ⟨⟨p, hp⟩, id⟩⟩
  | getBundle =>
    simp only [advance]
    split
    · next pk hbundle =>
      refine hnone (fun _ => id) ?_
      split
      · exact ⟨by simp [hbundle], pk, .inr (.inr hbundle), (h.bundleCut pk hbundle).symm⟩
      · trivial
    · exact hnone (fun _ => id) trivial
  | myKeys =>
    simp only [advance]
    split
    · next pk version hkey =>
      refine hnone (fun _ => id) ?_
      split
      · have hcut : cut pk = pk := List.take_of_length_le (h.keyLength pk version hkey)
        exact ⟨by simp [hkey], pk, .inl ⟨version, hkey⟩, by rw [hcut]; rfl⟩
      · trivial
    · exact hnone (fun _ => id) trivial
  | getBundleVersion pk | myKeysVersion pk => exact hnone (fun _ => id) trivial
  | finished => exact hnone (fun _ => id) trivial

/-! ### Runs -/

theorem known_entry (T : Tables) (req : Request) : Known T req.entry := by
  have hcut : ∀ pk : Bytes, (cut pk).length ≤ 255 := fun pk => List.length_take_le _ _
  cases req with
  | uploadKeys pk | rotateIdentity pk =>
    simp only [Request.entry]
    split
    · trivial
    · exact hcut pk
  | uploadPqxdhBundle pk =>
    simp only [Request.entry]
    split <;> trivial
  | _ => trivial

theorem Inv.step {s : State} {e : Event} (h : Inv s) (hok : StepOk s e) : Inv (step s e) := by
  cases e with
  | start req =>
    refine ⟨h.sound, fun phase hphase => ?_, fun pk w hkey => ?_⟩
    · rcases List.mem_append.mp hphase with hphase | hphase
      · exact h.known phase hphase
      · obtain rfl := List.mem_singleton.mp hphase
        exact known_entry _ req
    · refine (h.covered pk w hkey).imp id ?_
      rintro ⟨phase, hphase, hw⟩
      exact ⟨phase, List.mem_append_left _ hphase, hw⟩
  | exec i o =>
    simp only [IdentityStore.step]
    cases hi : s.requests[i]? with
    | none => exact h
    | some phase =>
      obtain ⟨hlt, hget⟩ := List.getElem?_eq_some_iff.mp hi
      have hadv := advanced_of_ok h.sound (h.known phase (hget ▸ List.getElem_mem hlt))
        (hok phase hi)
      refine ⟨hadv.sound, fun phase' hphase' => ?_, fun pk w hkey => ?_⟩
      · rcases List.mem_or_eq_of_mem_set hphase' with hmem | rfl
        · exact (h.known phase' hmem).mono hadv.grows
        · exact hadv.known
      · rcases hadv.covered pk w hkey with (hlogged | hcovers) | ⟨⟨p, hold⟩, hnot⟩
        · exact .inl hlogged
        · exact .inr ⟨_, List.mem_set hlt _, hcovers⟩
        · rcases h.covered p w hold with hlogged | ⟨phase', hphase', hcovers⟩
          · exact .inl (hadv.grows.versions w hlogged)
          · -- another request covers the version
            refine .inr ⟨phase', ?_, hcovers⟩
            obtain ⟨j, hj, rfl⟩ := List.getElem_of_mem hphase'
            have hne : i ≠ j := by
              rintro rfl
              exact hnot (hget ▸ hcovers)
            rw [← List.getElem_set_ne hne (by simpa using hj)]
            exact List.getElem_mem _

/-- What is served is logged. -/
theorem Inv.logged {s : State} {e : Event} (h : Inv s) (hok : StepOk s e) : Logged s e := by
  have hlogged : ∀ {v : ℕ} {pk : Bytes}, v ∈ s.tables.versions → Names s.tables pk →
      ∃ row ∈ s.tables.log, row.1 = v ∧ SameKey row.2 pk := by
    rintro v pk hv ⟨q, hq, hsame⟩
    obtain ⟨p, hp⟩ := mem_versions.mp hv
    exact ⟨(v, p), hp, rfl, (h.sound.same p q (.inr (.inl ⟨v, hp⟩)) hq).trans hsame⟩
  have hsettled : ∀ {pk w}, s.tables.key = some (pk, w) →
      (∀ phase ∈ s.requests, phase.unlogged = false) → w ∈ s.tables.versions := by
    intro pk w hkey hall
    rcases h.covered pk w hkey with hv | ⟨phase, hphase, hcovers⟩
    · exact hv
    · have := hall phase hphase
      rw [hcovers.unlogged] at this
      cases this
  intro pk version hreply
  cases e with
  | start req => cases hreply
  | exec i o =>
    simp only [reply] at hreply
    split at hreply
    · next p hi =>
      obtain ⟨rfl, rfl⟩ := Prod.mk.inj (Option.some.inj hreply)
      obtain ⟨hall, hzero⟩ := hok _ hi
      obtain ⟨hbundle, hnames⟩ := h.known _ (List.mem_of_getElem? hi)
      refine hlogged ?_ hnames
      split
      · next hdone =>
        cases hkey : s.tables.key with
        | none =>
          have hv : s.tables.identityVersion = 0 := by simp [Tables.identityVersion, hkey]
          rw [hv]
          exact h.sound.bundleLogged hkey hbundle
        | some row =>
          rw [identityVersion_eq hkey]
          exact hsettled hkey (hall hdone)
      · next hne => exact hzero hne
    · next p hi =>
      obtain ⟨rfl, rfl⟩ := Prod.mk.inj (Option.some.inj hreply)
      obtain ⟨hall, hzero⟩ := hok _ hi
      obtain ⟨hkeyne, hnames⟩ := h.known _ (List.mem_of_getElem? hi)
      refine hlogged ?_ hnames
      split
      · next hdone =>
        obtain ⟨row, hkey⟩ := Option.ne_none_iff_exists'.mp hkeyne
        rw [identityVersion_eq hkey]
        exact hsettled hkey (hall hdone)
      · next hne => exact hzero hne
    · cases hreply

/-- The key stays the same. -/
theorem Inv.keepsKey {s : State} {e : Event} (h : Inv s) (hok : StepOk s e) : KeepsKey s e := by
  intro pk version pk' version' hkey hkey' hne
  refine absurd ?_ hne
  have hnext := h.step hok
  have hgrows : Grows s.tables (IdentityStore.step s e).tables := by
    cases e with
    | start req => exact Grows.refl _
    | exec i o =>
      simp only [IdentityStore.step]
      cases hi : s.requests[i]? with
      | none => exact Grows.refl _
      | some phase =>
        exact (advanced_of_ok h.sound (h.known phase (List.mem_of_getElem? hi)) (hok phase hi)).grows
  obtain ⟨q, hq, hsame⟩ := hgrows.stored pk (.inl ⟨version, hkey⟩)
  exact hsame.symm.trans (hnext.sound.same q pk' hq (.inl ⟨version', hkey'⟩))

theorem inv_newUser : Inv newUser := by
  refine ⟨⟨?_, ?_, ?_, ?_⟩, ?_, ?_⟩
  · rintro p q (⟨version, hp⟩ | ⟨version, hp⟩ | hp)
    · cases hp
    · cases hp
    · cases hp
  · intro pk version hkey
    cases hkey
  · intro pk hbundle
    cases hbundle
  · intro _ hbundle
    exact absurd rfl hbundle
  · intro phase hphase
    cases hphase
  · intro pk w hkey
    cases hkey

/-- **Served identities are in the log, and keys only change with their versions**, in every run of
requests of a user, in any order and with any failures, whose statements meet the condition. -/
theorem served_identities_logged (es : List Event) (h : Runs.Each step StepOk newUser es) :
    Runs.Each step (fun s e => Logged s e ∧ KeepsKey s e) newUser es :=
  Runs.each_of_each (fun _ _ hinv hok => hinv.step hok)
    (fun _ _ hinv hok => ⟨hinv.logged hok, hinv.keepsKey hok⟩) inv_newUser h

/-! ### Two runs -/

/-- A request whose statements all succeed, as the `i`-th request. -/
def whole (i : ℕ) (req : Request) (statements : ℕ) : List Event :=
  .start req :: List.replicate statements (.exec i .done)

/-- The first key of the user. -/
def oldKey : Bytes := [65, 65, 65, 65]

/-- The key that the user rotates to. -/
def newKey : Bytes := [66, 66, 66, 66]

/-- The key is uploaded; a rotation has written the new key, when the user asks for their keys. -/
def rotationRun : List Event :=
  whole 0 (.uploadKeys oldKey) 4 ++ whole 1 (.rotateIdentity newKey) 1 ++ whole 2 .getMyKeys 2

/-- **A rotation without any failure.**  The new key is served with the version of the old one, which
the log has for the old key. -/
theorem rotation_served_unlogged :
    ¬ Runs.Each step (fun s e => Logged s e ∧ KeepsKey s e) newUser rotationRun := by
  have hrun : rotationRun = [.start (.uploadKeys oldKey), .exec 0 .done, .exec 0 .done,
      .exec 0 .done, .exec 0 .done, .start (.rotateIdentity newKey), .exec 1 .done,
      .start .getMyKeys, .exec 2 .done, .exec 2 .done] := rfl
  rw [hrun]
  rintro ⟨-, -, -, -, -, -, -, -, -, ⟨hlogged, -⟩, -⟩
  obtain ⟨row, hrow, hversion, hsame⟩ := hlogged newKey 0 (by decide +kernel)
  revert row
  decide +kernel

/-- The key and a bundle are uploaded, the key is rotated to another text of itself, and both are
served. -/
def servedRun : List Event :=
  whole 0 (.uploadKeys oldKey) 4 ++ whole 1 (.uploadPqxdhBundle oldKey) 2 ++
    whole 2 (.rotateIdentity (oldKey ++ [61])) 4 ++ whole 3 .getPqxdhBundle 2 ++
    whole 4 .getMyKeys 2

theorem served_identities_logged_run :
    Runs.Each step (fun s e => Logged s e ∧ KeepsKey s e) newUser servedRun := by
  refine served_identities_logged servedRun ?_
  simp only [servedRun, whole, List.replicate, List.cons_append, List.nil_append, Runs.each_cons,
    Runs.each_nil, and_true]
  refine ⟨?_, ?_, ?_, ?_, ?_, ?_, ?_, ?_, ?_, ?_, ?_, ?_, ?_, ?_, ?_, ?_, ?_, ?_, ?_⟩
  all_goals decide +kernel

end SecChat.IdentityStore
