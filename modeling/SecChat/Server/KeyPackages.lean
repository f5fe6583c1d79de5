import SecChat.Library.Runs
import Mathlib.Data.List.Nodup
import Mathlib.Order.Basic

/-!
# MLS key packages of one user

The owner uploads packages: a statement deletes those that nobody has claimed yet, and one statement
for each new package inserts it, or overwrites the row that has its reference already and makes it
unclaimed again.  Whoever adds the owner to a group claims the oldest unclaimed package in a
transaction, and answers with it whatever becomes of the `COMMIT`.

* `Row`, `insertKeyPackage`, `discardUnclaimed`: the table `mls_key_packages` of the owner;
* `step`, `reply`: uploads and claims, one statement or transaction at a time;
* `SingleUse`, `Fresh`: no reference is answered twice, and no package from before a completed upload;
* `StepOk`: the condition on a statement, in the state before it;
* `packages_given_once`: under the condition both hold in every run;
* `claimed_package_reuploaded`: a package is uploaded a second time.
-/

namespace SecChat.KeyPackages

/-! ### The table -/

/-- A key package of an upload that passed the checks of the cipher suite and the signature. -/
structure Package where
  keyPackageRef : String
  keyPackage : String
  deriving DecidableEq, Repr

/-- A row of `mls_key_packages`.  `writtenAt` is the time of its last upload; the code does not keep
it. -/
structure Row where
  id : ℕ
  keyPackageRef : String
  keyPackage : String
  claimed : Bool
  writtenAt : ℕ
  deriving DecidableEq, Repr

/-- `mls_discard_unclaimed_key_packages`. -/
def discardUnclaimed (rows : List Row) : List Row := rows.filter (·.claimed)

/-- `mls_insert_key_package`: the reference is a unique key, in the collation of the column. -/
def insertKeyPackage (refKey : String → String) (rows : List Row) (id now : ℕ) (p : Package) :
    List Row :=
  if rows.any fun row => refKey row.keyPackageRef = refKey p.keyPackageRef then
    rows.map fun row =>
      if refKey row.keyPackageRef = refKey p.keyPackageRef then
        { row with keyPackage := p.keyPackage, claimed := false, writtenAt := now }
      else row
  else rows ++ [⟨id, p.keyPackageRef, p.keyPackage, false, now⟩]

/-- The oldest unclaimed package. -/
def oldestUnclaimed (rows : List Row) : Option Row := rows.find? fun row => row.claimed = false

/-- The update of a claim, which only touches an unclaimed row. -/
def markClaimed (rows : List Row) (id : ℕ) : List Row :=
  rows.map fun row => if row.id = id then { row with claimed := true } else row

/-! ### Requests -/

/-- An upload: when it started, whether it has discarded, and what it still has to insert. -/
structure Upload where
  startedAt : ℕ
  discarded : Bool
  rest : List Package
  deriving DecidableEq, Repr

/-- The upload is over. -/
def Upload.Completed (u : Upload) : Prop := u.discarded = true ∧ u.rest = []

/-- What a claim answers. -/
structure Given where
  keyPackageRef : String
  keyPackage : String
  writtenAt : ℕ
  deriving DecidableEq, Repr

/-- A claim without a transaction that has selected a row, whose update is to come. -/
structure Chosen where
  id : ℕ
  given : Given
  deriving DecidableEq, Repr

/-- The table, all uploads so far, claims between two statements, and all answers so far. -/
structure State where
  now : ℕ
  nextId : ℕ
  rows : List Row
  uploads : List Upload
  chosen : List (Option Chosen)
  given : List Given
  deriving DecidableEq

/-- How a claim in a transaction ends. -/
inductive ClaimEnd
  /-- The select or the update fails. -/
  | failed
  /-- The `COMMIT` fails, and the transaction is rolled back. -/
  | rolledBack
  | committed
  deriving DecidableEq, Repr

/-- A statement or a transaction of some request. -/
inductive Event
  | upload (packages : List Package)
  | discard (i : ℕ) (ok : Bool)
  | insert (i : ℕ) (ok : Bool)
  | claim (how : ClaimEnd)
  /-- The select of a claim whose `START TRANSACTION` has failed. -/
  | select
  | update (i : ℕ) (ok : Bool)
  deriving DecidableEq

/-- What is answered of a row. -/
def Row.given (row : Row) : Given := ⟨row.keyPackageRef, row.keyPackage, row.writtenAt⟩

section Runs

variable (refKey : String → String)

/-- The package that a claim answers with. -/
def reply (s : State) : Event → Option Given
  | .claim how => if how = .failed then none else (oldestUnclaimed s.rows).map Row.given
  | .update i ok =>
      match s.chosen[i]? with
      | some (some c) =>
          if ok = true ∧ s.rows.any fun row => row.id = c.id ∧ row.claimed = false then some c.given
          else none
      | _ => none
  | _ => none

/-- The tables and requests after an event. -/
def effect (s : State) : Event → State
  | .upload packages => { s with uploads := s.uploads ++ [⟨s.now, false, packages⟩] }
  | .discard i ok =>
      match s.uploads[i]? with
      | some u =>
          if u.discarded then s
          else
            { s with
              rows := if ok then discardUnclaimed s.rows else s.rows
              uploads := s.uploads.set i { u with discarded := true } }
      | none => s
  | .insert i ok =>
      match s.uploads[i]? with
      | some ⟨startedAt, true, p :: rest⟩ =>
          { s with
            nextId := s.nextId + 1
            rows := if ok then insertKeyPackage refKey s.rows s.nextId s.now p else s.rows
            uploads := s.uploads.set i ⟨startedAt, true, rest⟩ }
      | _ => s
  | .claim how =>
      match oldestUnclaimed s.rows with
      | some row => if how = .committed then { s with rows := markClaimed s.rows row.id } else s
      | none => s
  | .select =>
      { s with
        chosen := s.chosen ++ [(oldestUnclaimed s.rows).map fun row => ⟨row.id, row.given⟩] }
  | .update i ok =>
      match s.chosen[i]? with
      | some (some c) =>
          { s with
            rows := if ok then markClaimed s.rows c.id else s.rows
            chosen := s.chosen.set i none }
      | _ => s

/-- One event. -/
def step (s : State) (e : Event) : State :=
  { effect refKey s e with now := s.now + 1, given := s.given ++ (reply s e).toList }

/-- A user without packages. -/
def noPackages : State := ⟨0, 1, [], [], [], []⟩

/-! ### What is claimed -/

/-- The reference was not answered before. -/
def SingleUse (s : State) (e : Event) : Prop :=
  ∀ g, reply s e = some g → g.keyPackageRef ∉ s.given.map Given.keyPackageRef

/-- The package was not uploaded before a completed upload. -/
def Fresh (s : State) (e : Event) : Prop :=
  ∀ g, reply s e = some g → ∀ u ∈ s.uploads, u.Completed → u.startedAt ≤ g.writtenAt

/-! ### The condition -/

/-- All packages are claimed. -/
def AllClaimed (rows : List Row) : Prop := ∀ row ∈ rows, row.claimed = true

instance (rows : List Row) : Decidable (AllClaimed rows) :=
  inferInstanceAs (Decidable (∀ row ∈ rows, row.claimed = true))

/-- The condition on an event. -/
def StepOk (s : State) : Event → Prop
  | .discard i ok => ok = false → ∀ u ∈ s.uploads[i]?, u.discarded = false → AllClaimed s.rows
  | .insert i ok => ok = true → ∀ u ∈ s.uploads[i]?, u.discarded = true → ∀ p ∈ u.rest.head?,
      ∀ row ∈ s.rows, refKey row.keyPackageRef = refKey p.keyPackageRef → row.claimed = false
  | .claim how => how = .rolledBack → AllClaimed s.rows
  | _ => True

instance (s : State) : (e : Event) → Decidable (StepOk refKey s e)
  | .discard i _ =>
      inferInstanceAs (Decidable (_ → ∀ u ∈ s.uploads[i]?, u.discarded = false → _))
  | .insert i _ =>
      inferInstanceAs (Decidable (_ → ∀ u ∈ s.uploads[i]?, u.discarded = true →
        ∀ p ∈ u.rest.head?, ∀ row ∈ s.rows, _ = _ → row.claimed = false))
  | .claim _ => inferInstanceAs (Decidable (_ → _))
  | .upload _ | .select | .update _ _ => .isTrue trivial

/-! ### The table under its statements -/

/-- References and ids are unique, and ids are smaller than the next one. -/
structure Table (nextId : ℕ) (rows : List Row) : Prop where
  keys : (rows.map fun row => refKey row.keyPackageRef).Nodup
  ids : (rows.map Row.id).Nodup
  bound : ∀ row ∈ rows, row.id < nextId

/-- Where the rows come from: a row is an old one, and unclaimed only if it was, or it is new. -/
def Evolves (nextId now : ℕ) (rows rows' : List Row) : Prop :=
  ∀ row' ∈ rows', (∃ row ∈ rows, row'.id = row.id ∧ row'.keyPackageRef = row.keyPackageRef ∧
    (row'.claimed = false → row.claimed = false ∧
      (row'.writtenAt = row.writtenAt ∨ row'.writtenAt = now))) ∨
    row'.id = nextId ∧ row'.writtenAt = now

/-- Claimed rows stay claimed. -/
def KeepsClaimed (rows rows' : List Row) : Prop :=
  ∀ row ∈ rows, row.claimed = true →
    ∃ row' ∈ rows', row'.claimed = true ∧ row'.keyPackageRef = row.keyPackageRef

variable {refKey} {nextId now : ℕ} {rows : List Row}

theorem Evolves.refl (rows : List Row) : Evolves nextId now rows rows :=
  fun row hrow => .inl ⟨row, hrow, rfl, rfl, fun h => ⟨h, .inl rfl⟩⟩

theorem KeepsClaimed.refl (rows : List Row) : KeepsClaimed rows rows :=
  fun row hrow h => ⟨row, hrow, h, rfl⟩

theorem eq_of_same_key (h : Table refKey nextId rows) {row row' : Row} (hrow : row ∈ rows)
    (hrow' : row' ∈ rows) (hkey : refKey row.keyPackageRef = refKey row'.keyPackageRef) :
    row = row' :=
  List.inj_on_of_nodup_map h.keys hrow hrow' hkey

theorem eq_of_same_id (h : Table refKey nextId rows) {row row' : Row} (hrow : row ∈ rows)
    (hrow' : row' ∈ rows) (hid : row.id = row'.id) : row = row' :=
  List.inj_on_of_nodup_map h.ids hrow hrow' hid

/-! Deleting the unclaimed rows. -/

theorem mem_discard {row : Row} : row ∈ discardUnclaimed rows ↔ row ∈ rows ∧ row.claimed = true :=
  List.mem_filter

theorem Table.discard (h : Table refKey nextId rows) :
    Table refKey nextId (discardUnclaimed rows) := by
  have hsub := List.filter_sublist (p := fun row : Row => row.claimed) (l := rows)
  exact ⟨(hsub.map _).nodup h.keys, (hsub.map _).nodup h.ids,
    fun row hrow => h.bound row (mem_discard.mp hrow).1⟩

theorem evolves_discard : Evolves nextId now rows (discardUnclaimed rows) :=
  fun row hrow => Evolves.refl rows row (mem_discard.mp hrow).1

theorem keepsClaimed_discard : KeepsClaimed rows (discardUnclaimed rows) :=
  fun row hrow h => ⟨row, mem_discard.mpr ⟨hrow, h⟩, h, rfl⟩

/-! Claiming a row. -/

theorem Table.mark (h : Table refKey nextId rows) (id : ℕ) :
    Table refKey nextId (markClaimed rows id) := by
  refine ⟨?_, ?_, ?_⟩
  · unfold markClaimed
    rw [List.map_map]
    refine (List.map_congr_left fun row _ => ?_) ▸ h.keys
    simp only [Function.comp_apply]
    split <;> rfl
  · unfold markClaimed
    rw [List.map_map]
    refine (List.map_congr_left fun row _ => ?_) ▸ h.ids
    simp only [Function.comp_apply]
    split <;> rfl
  · intro row' hrow'
    obtain ⟨row, hrow, rfl⟩ := List.mem_map.mp hrow'
    have hlt := h.bound row hrow
    split <;> exact hlt

theorem evolves_mark (id : ℕ) : Evolves nextId now rows (markClaimed rows id) := by
  intro row' hrow'
  obtain ⟨row, hrow, rfl⟩ := List.mem_map.mp hrow'
  refine .inl ⟨row, hrow, ?_⟩
  split
  · exact ⟨rfl, rfl, fun h => by cases h⟩
  · exact ⟨rfl, rfl, fun h => ⟨h, .inl rfl⟩⟩

theorem keepsClaimed_mark (id : ℕ) : KeepsClaimed rows (markClaimed rows id) := by
  intro row hrow h
  refine ⟨_, List.mem_map.mpr ⟨row, hrow, rfl⟩, ?_⟩
  split
  · exact ⟨rfl, rfl⟩
  · exact ⟨h, rfl⟩

theorem claimed_mark {row : Row} (hrow : row ∈ rows) :
    { row with claimed := true } ∈ markClaimed rows row.id :=
  List.mem_map.mpr ⟨row, hrow, if_pos rfl⟩

/-! Uploading a package. -/

theorem Table.insert (h : Table refKey nextId rows) (p : Package) :
    Table refKey (nextId + 1) (insertKeyPackage refKey rows nextId now p) := by
  unfold insertKeyPackage
  split
  · refine ⟨?_, ?_, ?_⟩
    · rw [List.map_map]
      refine (List.map_congr_left fun row _ => ?_) ▸ h.keys
      simp only [Function.comp_apply]
      split <;> rfl
    · rw [List.map_map]
      refine (List.map_congr_left fun row _ => ?_) ▸ h.ids
      simp only [Function.comp_apply]
      split <;> rfl
    · intro row' hrow'
      obtain ⟨row, hrow, rfl⟩ := List.mem_map.mp hrow'
      have hlt := h.bound row hrow
      split
      · exact Nat.lt_succ_of_lt hlt
      · exact Nat.lt_succ_of_lt hlt
  · next hnew =>
    simp only [List.any_eq_true, decide_eq_true_eq, not_exists, not_and] at hnew
    refine ⟨?_, ?_, ?_⟩
    · simp only [List.map_append, List.map_cons, List.map_nil]
      refine List.nodup_append.mpr ⟨h.keys, List.nodup_singleton _, ?_⟩
      rintro k hk k' hk' heq
      obtain ⟨row, hrow, rfl⟩ := List.mem_map.mp hk
      exact hnew row hrow (heq.trans (List.mem_singleton.mp hk'))
    · simp only [List.map_append, List.map_cons, List.map_nil]
      refine List.nodup_append.mpr ⟨h.ids, List.nodup_singleton _, ?_⟩
      rintro k hk k' hk' heq
      obtain ⟨row, hrow, rfl⟩ := List.mem_map.mp hk
      have hlt := h.bound row hrow
      have hid : row.id = nextId := heq.trans (List.mem_singleton.mp hk')
      omega
    · intro row hrow
      rcases List.mem_append.mp hrow with hrow | hrow
      · exact Nat.lt_succ_of_lt (h.bound row hrow)
      · obtain rfl := List.mem_singleton.mp hrow
        exact Nat.lt_succ_self _

/-- Rows with the reference of an uploaded package are unclaimed. -/
theorem evolves_insert {p : Package} (hunclaimed : ∀ row ∈ rows,
    refKey row.keyPackageRef = refKey p.keyPackageRef → row.claimed = false) :
    Evolves nextId now rows (insertKeyPackage refKey rows nextId now p) := by
  intro row' hrow'
  unfold insertKeyPackage at hrow'
  split at hrow'
  · obtain ⟨row, hrow, rfl⟩ := List.mem_map.mp hrow'
    refine .inl ⟨row, hrow, ?_⟩
    split
    · next hkey => exact ⟨rfl, rfl, fun _ => ⟨hunclaimed row hrow hkey, .inr rfl⟩⟩
    · exact ⟨rfl, rfl, fun h => ⟨h, .inl rfl⟩⟩
  · rcases List.mem_append.mp hrow' with hrow' | hrow'
    · exact Evolves.refl rows row' hrow'
    · obtain rfl := List.mem_singleton.mp hrow'
      exact .inr ⟨rfl, rfl⟩

theorem keepsClaimed_insert {p : Package} (hunclaimed : ∀ row ∈ rows,
    refKey row.keyPackageRef = refKey p.keyPackageRef → row.claimed = false) :
    KeepsClaimed rows (insertKeyPackage refKey rows nextId now p) := by
  intro row hrow h
  unfold insertKeyPackage
  split
  · have hkey : refKey row.keyPackageRef ≠ refKey p.keyPackageRef := by
      intro heq
      rw [hunclaimed row hrow heq] at h
      cases h
    exact ⟨row, List.mem_map.mpr ⟨row, hrow, if_neg hkey⟩, h, rfl⟩
  · exact ⟨row, List.mem_append_left _ hrow, h, rfl⟩

theorem oldestUnclaimed_some {row : Row} (h : oldestUnclaimed rows = some row) :
    row ∈ rows ∧ row.claimed = false :=
  ⟨List.mem_of_find?_eq_some h, by simpa using List.find?_some h⟩

/-! ### The invariant -/

variable (refKey) in
/-- What holds in every run that meets the condition. -/
structure Inv (s : State) : Prop where
  table : Table refKey s.nextId s.rows
  given : ∀ g ∈ s.given, ∃ row ∈ s.rows, row.claimed = true ∧ row.keyPackageRef = g.keyPackageRef
  started : ∀ u ∈ s.uploads, u.startedAt ≤ s.now
  fresh : ∀ u ∈ s.uploads, u.discarded = true → ∀ row ∈ s.rows, row.claimed = false →
    u.startedAt ≤ row.writtenAt
  -- a row that was selected is the same row as long as it is there
  chosen : ∀ c, some c ∈ s.chosen → c.id < s.nextId ∧ ∀ row ∈ s.rows, row.id = c.id →
    row.keyPackageRef = c.given.keyPackageRef ∧
    (row.claimed = false → ∀ u ∈ s.uploads, u.discarded = true → u.startedAt ≤ c.given.writtenAt)

variable {s : State}

/-- A statement on the table, and nothing else. -/
theorem Inv.setRows (h : Inv refKey s) {rows' : List Row} {nextId' : ℕ} (hle : s.nextId ≤ nextId')
    (htable : Table refKey nextId' rows') (hevolves : Evolves s.nextId s.now s.rows rows')
    (hkeeps : KeepsClaimed s.rows rows') :
    Inv refKey { s with rows := rows', nextId := nextId' } := by
  refine ⟨htable, fun g hg => ?_, h.started, fun u hu hd row' hrow' hfree => ?_, fun c hc => ?_⟩
  · obtain ⟨row, hrow, hclaimed, href⟩ := h.given g hg
    obtain ⟨row', hrow', hclaimed', href'⟩ := hkeeps row hrow hclaimed
    exact ⟨row', hrow', hclaimed', href'.trans href⟩
  · rcases hevolves row' hrow' with ⟨row, hrow, -, -, hold⟩ | ⟨-, hnow⟩
    · obtain ⟨hfree', hsame | hnow⟩ := hold hfree
      · exact hsame ▸ h.fresh u hu hd row hrow hfree'
      · exact hnow ▸ h.started u hu
    · exact hnow ▸ h.started u hu
  · obtain ⟨hlt, hrows⟩ := h.chosen c hc
    refine ⟨Nat.lt_of_lt_of_le hlt hle, fun row' hrow' hid => ?_⟩
    rcases hevolves row' hrow' with ⟨row, hrow, hid', href, hold⟩ | ⟨hid', -⟩
    · obtain ⟨hrefc, hfresh⟩ := hrows row hrow (hid'.symm.trans hid)
      exact ⟨href.trans hrefc, fun hfree => hfresh (hold hfree).1⟩
    · exact absurd (hid.symm.trans hid') (Nat.ne_of_lt hlt)

/-- An upload whose time and phase are those of an old one. -/
theorem Inv.setUploads (h : Inv refKey s) {uploads : List Upload}
    (hsame : ∀ u' ∈ uploads, ∃ u ∈ s.uploads, u'.startedAt = u.startedAt ∧
      (u'.discarded = true → u.discarded = true ∨ AllClaimed s.rows)) :
    Inv refKey { s with uploads := uploads } := by
  refine ⟨h.table, h.given, fun u' hu' => ?_, fun u' hu' hd row hrow hfree => ?_, fun c hc => ?_⟩
  · obtain ⟨u, hu, htime, -⟩ := hsame u' hu'
    exact htime ▸ h.started u hu
  · obtain ⟨u, hu, htime, hphase⟩ := hsame u' hu'
    rcases hphase hd with hd' | hall
    · exact htime ▸ h.fresh u hu hd' row hrow hfree
    · rw [hall row hrow] at hfree
      cases hfree
  · obtain ⟨hlt, hrows⟩ := h.chosen c hc
    refine ⟨hlt, fun row hrow hid => ?_⟩
    obtain ⟨href, hfresh⟩ := hrows row hrow hid
    refine ⟨href, fun hfree u' hu' hd => ?_⟩
    obtain ⟨u, hu, htime, hphase⟩ := hsame u' hu'
    rcases hphase hd with hd' | hall
    · exact htime ▸ hfresh hfree u hu hd'
    · rw [hall row hrow] at hfree
      cases hfree

/-- Time passes, and an answer is recorded whose row is claimed. -/
theorem Inv.tick (h : Inv refKey s) {gs : List Given}
    (hgs : ∀ g ∈ gs, ∃ row ∈ s.rows, row.claimed = true ∧ row.keyPackageRef = g.keyPackageRef) :
    Inv refKey { s with now := s.now + 1, given := s.given ++ gs } := by
  refine ⟨h.table, fun g hg => ?_, fun u hu => Nat.le_succ_of_le (h.started u hu), h.fresh,
    h.chosen⟩
  rcases List.mem_append.mp hg with hg | hg
  · exact h.given g hg
  · exact hgs g hg

/-- Selecting a row, or forgetting the one that was selected. -/
theorem Inv.setChosen (h : Inv refKey s) {chosen : List (Option Chosen)}
    (hsame : ∀ c, some c ∈ chosen → some c ∈ s.chosen ∨
      ∃ row ∈ s.rows, row.claimed = false ∧ c = ⟨row.id, row.given⟩) :
    Inv refKey { s with chosen := chosen } := by
  refine ⟨h.table, h.given, h.started, h.fresh, fun c hc => ?_⟩
  rcases hsame c hc with hc | ⟨row, hrow, hfree, rfl⟩
  · exact h.chosen c hc
  · refine ⟨h.table.bound row hrow, fun row' hrow' hid => ?_⟩
    obtain rfl := eq_of_same_id h.table hrow' hrow hid
    exact ⟨rfl, fun _ u hu hd => h.fresh u hu hd row' hrow hfree⟩

/-- The effect of an event, and that the row of its answer is claimed. -/
theorem Inv.effect (h : Inv refKey s) {e : Event} (hok : StepOk refKey s e) :
    Inv refKey (effect refKey s e) ∧ ∀ g, reply s e = some g →
      ∃ row ∈ (KeyPackages.effect refKey s e).rows,
        row.claimed = true ∧ row.keyPackageRef = g.keyPackageRef := by
  cases e with
  | upload packages =>
    refine ⟨?_, fun g hg => by cases hg⟩
    have hnew : ∀ u' ∈ s.uploads ++ [⟨s.now, false, packages⟩], u'.startedAt ≤ s.now ∧
        (u'.discarded = true → u' ∈ s.uploads) := by
      intro u' hu'
      rcases List.mem_append.mp hu' with hu' | hu'
      · exact ⟨h.started u' hu', fun _ => hu'⟩
      · obtain rfl := List.mem_singleton.mp hu'
        exact ⟨Nat.le_refl _, fun hd => by cases hd⟩
    refine ⟨h.table, h.given, fun u' hu' => (hnew u' hu').1,
      fun u' hu' hd => h.fresh u' ((hnew u' hu').2 hd) hd, fun c hc => ?_⟩
    obtain ⟨hlt, hrows⟩ := h.chosen c hc
    refine ⟨hlt, fun row hrow hid => ⟨(hrows row hrow hid).1, fun hfree u' hu' hd => ?_⟩⟩
    exact (hrows row hrow hid).2 hfree u' ((hnew u' hu').2 hd) hd
  | discard i ok =>
    refine ⟨?_, fun g hg => by cases hg⟩
    simp only [KeyPackages.effect]
    split
    · next u hu =>
      split
      · exact h
      · next hnot =>
        -- after the statement all rows are claimed
        have hrows : Inv refKey { s with rows := if ok then discardUnclaimed s.rows else s.rows } ∧
            AllClaimed (if ok then discardUnclaimed s.rows else s.rows) := by
          cases ok with
          | true =>
            exact ⟨h.setRows (Nat.le_refl _) h.table.discard evolves_discard keepsClaimed_discard,
              fun row hrow => (mem_discard.mp hrow).2⟩
          | false => exact ⟨h, hok rfl u hu (by simpa using hnot)⟩
        refine hrows.1.setUploads fun u' hu' => ?_
        rcases List.mem_or_eq_of_mem_set hu' with hmem | rfl
        · exact ⟨u', hmem, rfl, .inl⟩
        · exact ⟨u, List.mem_of_getElem? hu, rfl, fun _ => .inr hrows.2⟩
    · exact h
  | insert i ok =>
    refine ⟨?_, fun g hg => by cases hg⟩
    simp only [KeyPackages.effect]
    split
    · next startedAt p rest hu =>
      have hrows : Inv refKey { s with
          nextId := s.nextId + 1
          rows := if ok then insertKeyPackage refKey s.rows s.nextId s.now p else s.rows } := by
        cases ok with
        | true =>
          have hfree := hok rfl _ hu rfl p rfl
          exact h.setRows (Nat.le_succ _) (h.table.insert p) (evolves_insert hfree)
            (keepsClaimed_insert hfree)
        | false =>
          refine h.setRows (Nat.le_succ _) ?_ (Evolves.refl _) (KeepsClaimed.refl _)
          exact ⟨h.table.keys, h.table.ids, fun row hrow =>
            Nat.lt_succ_of_lt (h.table.bound row hrow)⟩
      refine hrows.setUploads fun u' hu' => ?_
      rcases List.mem_or_eq_of_mem_set hu' with hmem | rfl
      · exact ⟨u', hmem, rfl, .inl⟩
      · exact ⟨_, List.mem_of_getElem? hu, rfl, fun _ => .inl rfl⟩
    · exact h
  | claim how =>
    simp only [KeyPackages.effect, reply]
    cases hfound : oldestUnclaimed s.rows with
    | none => exact ⟨h, fun g hg => by simp at hg⟩
    | some row =>
      obtain ⟨hrow, hfree⟩ := oldestUnclaimed_some hfound
      cases how with
      | failed => exact ⟨h, fun g hg => by simp at hg⟩
      | rolledBack =>
        have hall := hok rfl row hrow
        rw [hfree] at hall
        cases hall
      | committed =>
        refine ⟨h.setRows (Nat.le_refl _) (h.table.mark row.id) (evolves_mark row.id)
          (keepsClaimed_mark row.id), fun g hg => ?_⟩
        simp only [reduceCtorEq, if_false, Option.map_some, Option.some.injEq] at hg
        subst hg
        exact ⟨_, claimed_mark hrow, rfl, rfl⟩
  | select =>
    refine ⟨h.setChosen fun c hc => ?_, fun g hg => by cases hg⟩
    rcases List.mem_append.mp hc with hc | hc
    · exact .inl hc
    · obtain ⟨row, hfound, rfl⟩ := Option.map_eq_some_iff.mp (List.mem_singleton.mp hc).symm
      obtain ⟨hrow, hfree⟩ := oldestUnclaimed_some hfound
      exact .inr ⟨row, hrow, hfree, rfl⟩
  | update i ok =>
    simp only [KeyPackages.effect, reply]
    split
    · next c hc =>
      have hrows : Inv refKey { s with rows := if ok then markClaimed s.rows c.id else s.rows } := by
        cases ok with
        | true =>
          exact h.setRows (Nat.le_refl _) (h.table.mark c.id) (evolves_mark c.id)
            (keepsClaimed_mark c.id)
        | false => exact h
      refine ⟨hrows.setChosen fun c' hc' => ?_, fun g hg => ?_⟩
      · rcases List.mem_or_eq_of_mem_set hc' with hmem | heq
        · exact .inl hmem
        · cases heq
      · split at hg
        · next hfound =>
          obtain ⟨rfl, hany⟩ := hfound
          obtain ⟨row, hrow, hprop⟩ := List.any_eq_true.mp hany
          simp only [decide_eq_true_eq] at hprop
          obtain rfl := Option.some.inj hg
          have href := ((h.chosen c (List.mem_of_getElem? hc)).2 row hrow hprop.1).1
          refine ⟨{ row with claimed := true }, ?_, rfl, href⟩
          rw [← hprop.1]
          exact claimed_mark hrow
        · cases hg
    · exact ⟨h, fun g hg => by cases hg⟩

theorem Inv.step (h : Inv refKey s) {e : Event} (hok : StepOk refKey s e) :
    Inv refKey (step refKey s e) := by
  obtain ⟨heffect, hgiven⟩ := h.effect hok
  have hsame : (KeyPackages.effect refKey s e).now = s.now ∧
      (KeyPackages.effect refKey s e).given = s.given := by
    cases e <;> dsimp only [KeyPackages.effect]
    all_goals repeat' split
    all_goals exact ⟨rfl, rfl⟩
  have hreplies : ∀ g ∈ (reply s e).toList, _ := fun g hg => hgiven g (Option.mem_toList.mp hg)
  have htick := heffect.tick hreplies
  rw [hsame.1, hsame.2] at htick
  exact htick

/-- The row that an answer is made of: it is unclaimed, and no newer than the answer says. -/
theorem Inv.reply_row (h : Inv refKey s) {e : Event} {g : Given} (hreply : reply s e = some g) :
    ∃ row ∈ s.rows, row.claimed = false ∧ row.keyPackageRef = g.keyPackageRef ∧
      ∀ u ∈ s.uploads, u.discarded = true → u.startedAt ≤ g.writtenAt := by
  cases e with
  | claim how =>
    simp only [reply] at hreply
    split at hreply
    · cases hreply
    · obtain ⟨row, hfound, rfl⟩ := Option.map_eq_some_iff.mp hreply
      obtain ⟨hrow, hfree⟩ := oldestUnclaimed_some hfound
      exact ⟨row, hrow, hfree, rfl, fun u hu hd => h.fresh u hu hd row hrow hfree⟩
  | update i ok =>
    simp only [reply] at hreply
    split at hreply
    · next c hc =>
      split at hreply
      · next hfound =>
        obtain ⟨row, hrow, hprop⟩ := List.any_eq_true.mp hfound.2
        simp only [decide_eq_true_eq] at hprop
        obtain rfl := Option.some.inj hreply
        obtain ⟨href, hfresh⟩ := (h.chosen c (List.mem_of_getElem? hc)).2 row hrow hprop.1
        exact ⟨row, hrow, hprop.2, href, hfresh hprop.2⟩
      · cases hreply
    · cases hreply
  | _ => cases hreply

theorem Inv.singleUse (h : Inv refKey s) (e : Event) : SingleUse s e := by
  intro g hreply hold
  obtain ⟨row, hrow, hfree, href, -⟩ := h.reply_row hreply
  obtain ⟨g', hg', href'⟩ := List.mem_map.mp hold
  obtain ⟨row', hrow', hclaimed, href''⟩ := h.given g' hg'
  have hsame := eq_of_same_key h.table hrow hrow' (by rw [href, href'', href'])
  rw [hsame, hclaimed] at hfree
  cases hfree

theorem Inv.freshReply (h : Inv refKey s) (e : Event) : Fresh s e := by
  intro g hreply u hu hdone
  obtain ⟨row, hrow, hfree, -, hfresh⟩ := h.reply_row hreply
  exact hfresh u hu hdone.1

theorem inv_noPackages : Inv refKey noPackages := by
  refine ⟨⟨List.nodup_nil, List.nodup_nil, fun row h => ?_⟩, fun g h => ?_, fun u h => ?_,
    fun u h => ?_, fun c h => ?_⟩
  all_goals cases h

variable (refKey) in
/-- **No package is given out twice, and none from before a completed upload**, in every run of
uploads and claims, in any order and with any failures, whose statements meet the condition. -/
theorem packages_given_once (es : List Event)
    (h : Runs.Each (step refKey) (StepOk refKey) noPackages es) :
    Runs.Each (step refKey) (fun s e => SingleUse s e ∧ Fresh s e) noPackages es :=
  Runs.each_of_each (fun _ _ hinv hok => hinv.step hok)
    (fun _ e hinv _ => ⟨hinv.singleUse e, hinv.freshReply e⟩) inv_noPackages h

end Runs

/-! ### Two runs -/

/-- Two packages. -/
def firstPackage : Package := ⟨"ref 1", "package 1"⟩

/-- The second one. -/
def secondPackage : Package := ⟨"ref 2", "package 2"⟩

/-- A package is uploaded and claimed, and then uploaded and claimed again. -/
def reuploadRun : List Event :=
  [.upload [firstPackage], .discard 0 true, .insert 0 true, .claim .committed,
    .upload [firstPackage], .discard 1 true, .insert 1 true, .claim .committed]

/-- **A claimed package is uploaded again.**  It is unclaimed by that, and given out a second time. -/
theorem claimed_package_reuploaded :
    ¬ Runs.Each (step id) (fun s e => SingleUse s e ∧ Fresh s e) noPackages reuploadRun := by
  rintro ⟨-, -, -, -, -, -, -, ⟨hsingle, -⟩, -⟩
  exact hsingle ⟨"ref 1", "package 1", 6⟩ (by decide +kernel) (by decide +kernel)

/-- Two uploads with a claim after each. -/
def twoUploadsRun : List Event :=
  [.upload [firstPackage], .discard 0 true, .insert 0 true, .claim .committed,
    .upload [secondPackage], .discard 1 true, .insert 1 true, .claim .committed]

theorem packages_given_once_run :
    Runs.Each (step id) (fun s e => SingleUse s e ∧ Fresh s e) noPackages twoUploadsRun := by
  refine packages_given_once id twoUploadsRun ?_
  simp only [twoUploadsRun, Runs.each_cons, Runs.each_nil, and_true]
  refine ⟨?_, ?_, ?_, ?_, ?_, ?_, ?_, ?_⟩
  all_goals decide +kernel

end SecChat.KeyPackages
