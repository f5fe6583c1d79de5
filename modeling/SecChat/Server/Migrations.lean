import SecChat.Library.Prefixes
import SecChat.Library.Runs
import SecChat.Library.SqlLex
import SecChat.Library.Utf8Text

/-!
# Schema migrations

When the server starts it runs the files of the migrations directory that the table
`schema_migrations` does not have yet, in the order of their names, and enters each into the table.

The `SELECT` and the `INSERT IGNORE` on the table are printed with the version as a literal, and a
collation decides which versions are equal: `key` maps a version to its sort key.  What the statements
of the files do is not modelled, but for their outcome and what they do to the table.

* `statements`: how a file is cut at its semicolons;
* `migrateRun`: one start of the server;
* `Plain`: names that are kept apart and recorded as they are;
* `Meets`: the condition on a start;
* `migrations_iff`: in every sequence of starts, the recorded versions are a prefix and a start that
  reports success has recorded everything exactly if all starts meet the condition;
* `later_recorded_and_lost`: a start that records a version after one that fails, and a start that
  reports success without a record.
-/

namespace SecChat.Migrations

open SqlLex Runs

/-! ### Cutting a file -/

/-- The white space that is skipped. -/
def isBlank (c : UInt8) : Bool := c = 0x20 ∨ c = 0x09 ∨ c = 0x0d ∨ c = 0x0a

/-- `p[0] == '-' && p[1] == '-'` -/
def isDashes : Text → Bool
  | 0x2d :: 0x2d :: _ => true
  | _ => false

/-- The statement at the start of a text, up to a semicolon that is not in a line comment, and what is
left.  `comment` says that the scan is inside a comment. -/
def scan (comment : Bool) : Text → Text × Text
  | [] => ([], [])
  | c :: cs =>
    if comment then
      let (stmt, rest) := scan (c ≠ 0x0a) cs
      (c :: stmt, rest)
    else if c = 0x3b then ([], c :: cs)
    else
      let (stmt, rest) := scan (isDashes (c :: cs)) cs
      (c :: stmt, rest)

/-- Trim trailing white space. -/
def trimEnd (stmt : Text) : Text := (stmt.reverse.dropWhile isBlank).reverse

theorem length_scan (comment : Bool) (text : Text) : (scan comment text).2.length ≤ text.length := by
  induction text generalizing comment with
  | nil => simp [scan]
  | cons c cs ih =>
    simp only [scan, List.length_cons]
    have hrest := fun b => ih b
    split_ifs
    · exact (hrest _).trans (Nat.le_succ _)
    · exact le_rfl
    · exact (hrest _).trans (Nat.le_succ _)

theorem length_dropWhile_le (p : UInt8 → Bool) (text : Text) :
    (text.dropWhile p).length ≤ text.length :=
  (List.dropWhile_sublist p).length_le

/-- The loop of `exec_sql_file`: the statements that it executes, in order. -/
def statements (buf : Text) : List Text :=
  match _h : buf.dropWhile isBlank with
  | [] => []
  | c :: cs =>
    if isDashes (c :: cs) then statements (cs.dropWhile (· ≠ 0x0a))
    else
      let stmt := trimEnd (scan false (c :: cs)).1
      let rest := statements ((scan false (c :: cs)).2.drop 1)
      if stmt = [] then rest else stmt :: rest
termination_by buf.length
decreasing_by
  all_goals
    have hbuf := length_dropWhile_le isBlank buf
    rw [_h, List.length_cons] at hbuf
  · have hrest := length_dropWhile_le (· ≠ 0x0a) cs
    omega
  · have hrest := length_scan false (c :: cs)
    rw [List.length_cons] at hrest
    rw [List.length_drop]
    omega

/-! ### File names -/

/-- ASCII letters to lower case. -/
def toLower (c : UInt8) : UInt8 := if 0x41 ≤ c ∧ c ≤ 0x5a then c + 0x20 else c

/-- `has_sql_suffix`. -/
def hasSqlSuffix (name : Text) : Bool :=
  4 < name.length ∧ (name.drop (name.length - 4)).map toLower = ascii ".sql"

/-- `strcmp(a, b) <= 0`. -/
def strcmpLe (a b : Text) : Prop := a.map UInt8.toNat ≤ b.map UInt8.toNat

instance : DecidableRel strcmpLe := fun _ _ => inferInstanceAs (Decidable (_ ≤ _))

/-- The names that a listing of the directory gives, sorted; there is room for 255. -/
def sortedNames (listing : List Text) : List Text :=
  ((listing.filter hasSqlSuffix).take 255).insertionSort strcmpLe

/-- The migrations of a directory in the order of their names. -/
def files (dir : List Text) : List Text := (dir.filter hasSqlSuffix).insertionSort strcmpLe

/-- The name without `.sql`, cut to 83 octets. -/
def version (fname : Text) : Text := (fname.take (fname.length - 4)).take 83

/-! ### The table -/

def selectStart : Text := ascii "SELECT 1 FROM schema_migrations WHERE version="

def selectEnd : Text := ascii " LIMIT 1"

def insertStart : Text := ascii "INSERT IGNORE INTO schema_migrations(version) VALUES("

def insertEnd : Text := ascii ")"

/-- The buffers `chk` and `ins` have 256 octets. -/
def selectText (v : Text) : Text :=
  (selectStart ++ (apostrophe :: v ++ apostrophe :: selectEnd)).take 255

def insertText (v : Text) : Text :=
  (insertStart ++ (apostrophe :: v ++ apostrophe :: insertEnd)).take 255

/-- The tokens of the two statements as they are meant. -/
def selectShape (v : Text) : List Token :=
  (SqlLex.run .between selectStart).1 ++ .quoted apostrophe v :: (SqlLex.run .between selectEnd).1 ++
    [.word (ascii "1")]

def insertShape (v : Text) : List Token :=
  (SqlLex.run .between insertStart).1 ++
    .quoted apostrophe v :: (SqlLex.run .between insertEnd).1

/-- A value of `VARCHAR(80)` in `utf8mb4`. -/
def Storable (v : Text) : Prop := ∃ cs : List Char, cs.length ≤ 80 ∧ Utf8Text.encode cs = v

/-- The table has the version, as the collation sees it. -/
def Present (key : Text → Text) (v : Text) (rows : List Text) : Prop := ∃ r ∈ rows, key r = key v

instance (key : Text → Text) (v : Text) (rows : List Text) : Decidable (Present key v rows) :=
  inferInstanceAs (Decidable (∃ r ∈ rows, _))

/-- The database: whether a `SELECT` finds a row of `schema_migrations`, the rows after an `INSERT`, and
the rows after a statement of a migration. -/
structure Engine where
  select : List Token → List Text → Bool
  insert : List Token → List Text → List Text
  effect : Text → List Text → List Text

/-- What the two statements mean when the version is a literal in them. -/
structure Engine.Lawful (key : Text → Text) (E : Engine) : Prop where
  select_shape : ∀ v rows, Storable v → E.select (selectShape v) rows = decide (Present key v rows)
  insert_shape : ∀ v rows, Storable v →
    E.insert (insertShape v) rows = if Present key v rows then rows else rows ++ [v]

/-! ### One start -/

/-- What becomes of the `SELECT`: `mysql_query` fails, `mysql_store_result` returns `NULL`, or there is
a result. -/
inductive Check
  | failed
  | noResult
  | done
  deriving DecidableEq, Repr

/-- The world at one start of the server.  The names are those of the files, and an error number of 0
is success.  The buffer of the path has room for the directory and every name. -/
structure Start where
  create : ℕ
  listing : Option (List Text)
  contents : Text → Option Text
  check : Text → Check
  errno : Text → ℕ → ℕ
  record : Text → Bool

/-- `exec_one`: the error numbers with which it returns 1. -/
def tolerated (err : ℕ) : Bool := err = 0 ∨ err = 1050 ∨ err = 1060

/-- `read_file`; an empty file is an error. -/
def readFile (contents : Option Text) : Option Text := contents.filter (· ≠ [])

variable (E : Engine)

/-- `exec_sql_file`.  It goes on after a statement that fails. -/
def execSqlFile (errno : ℕ → ℕ) (buf : Text) (rows : List Text) : List Text × Bool :=
  (statements buf).zipIdx.foldl
    (fun state stmt =>
      (if errno stmt.2 = 0 then E.effect stmt.1 state.1 else state.1,
        state.2 && tolerated (errno stmt.2)))
    (rows, true)

/-- The check whether a version is applied already. -/
def isApplied (check : Check) (v : Text) (rows : List Text) : Bool :=
  match check, lex (selectText v) with
  | .done, some tokens => E.select tokens rows
  | _, _ => false

/-- The recording statement, whose result is ignored. -/
def recordVersion (done : Bool) (v : Text) (rows : List Text) : List Text :=
  match done, lex (insertText v) with
  | true, some tokens => E.insert tokens rows
  | _, _ => rows

/-- The body of the loop: the rows and `all_ok`. -/
def applyFile (s : Start) (state : List Text × Bool) (fname : Text) : List Text × Bool :=
  if isApplied E (s.check fname) (version fname) state.1 then state
  else
    match readFile (s.contents fname) with
    | none => (state.1, false)
    | some buf =>
      let result := execSqlFile E (s.errno fname) buf state.1
      if ¬ result.2 then (result.1, false)
      else (recordVersion E (s.record fname) (version fname) result.1, state.2)

/-- `migrate_run`: the rows of `schema_migrations` afterwards, and whether it returns 1. -/
def migrateRun (rows : List Text) (s : Start) : List Text × Bool :=
  if ¬ tolerated s.create then (rows, false)
  else
    match s.listing with
    | none => (rows, true)
    | some listing => (sortedNames listing).foldl (applyFile E s) (rows, true)

/-- The rows after a start. -/
def step (rows : List Text) (s : Start) : List Text := (migrateRun E rows s).1

/-! ### What is expected -/

/-- The recorded versions are those of the first files. -/
def Ordered (names : List Text) (rows : List Text) : Prop :=
  (∀ v ∈ rows, ∃ f ∈ names, version f = v) ∧
    ∃ done, done <+: names ∧ ∀ f ∈ names, version f ∈ rows ↔ f ∈ done

/-- The file can be read, and all its statements succeed, or fail with one of the two errors. -/
def Passes (s : Start) (fname : Text) : Prop :=
  ∃ buf, readFile (s.contents fname) = some buf ∧
    ∀ i < (statements buf).length, tolerated (s.errno fname i)

/-- A start that records a version has run its file, one that returns 1 has recorded every file. -/
structure Faithful (names : List Text) (rows : List Text) (s : Start) : Prop where
  passed : ∀ v ∈ step E rows s, v ∉ rows → ∃ f ∈ names, version f = v ∧ Passes s f
  complete : (migrateRun E rows s).2 = true → s.listing ≠ none →
    ∀ f ∈ names, version f ∈ step E rows s

/-! ### The conditions -/

/-- At most 255 migrations, with versions that fit the column, that are literals of the two statements,
and that the collation does not confuse. -/
structure Plain (key : Text → Text) (names : List Text) : Prop where
  few : names.length ≤ 255
  storable : ∀ f ∈ names, Storable (version f)
  noQuote : ∀ f ∈ names, apostrophe ∉ version f
  noBackslash : ∀ f ∈ names, backslash ∉ version f
  distinct : (names.map fun f => key (version f)).Nodup

/-- The directory, in whatever order, and migrations that leave `schema_migrations` alone. -/
structure Fits (dir : List Text) (s : Start) : Prop where
  listing : ∀ listing, s.listing = some listing → listing.Perm dir
  alone : ∀ f buf, s.contents f = some buf → ∀ stmt ∈ statements buf, ∀ rows,
    E.effect stmt rows = rows

/-- The file is run and the statement that records it is executed. -/
def Records (s : Start) (fname : Text) : Prop := Passes s fname ∧ s.record fname = true

/-- The loop over the files is reached. -/
def Start.Runs (s : Start) : Prop := tolerated s.create = true ∧ s.listing ≠ none

/-- The condition on a start. -/
structure Meets (names : List Text) (rows : List Text) (s : Start) : Prop where
  /-- Nothing is run and recorded after a new file that is not. -/
  order : s.Runs → ∀ f g, [f, g].Sublist names → version f ∉ rows → Records s g → Records s f
  /-- If all files run that are not known to be applied, then the new ones are recorded. -/
  record : s.Runs →
    (∀ f ∈ names, version f ∈ rows ∧ s.check f = .done ∨ Passes s f) →
      ∀ f ∈ names, version f ∉ rows → s.record f = true

/-! ### The statements on the table -/

theorem length_version_le (fname : Text) : (version fname).length ≤ 83 := by
  rw [version, List.length_take]
  omega

theorem lex_selectText {v : Text} (hlen : v.length ≤ 83) (hq : apostrophe ∉ v)
    (hb : backslash ∉ v) : lex (selectText v) = some (selectShape v) := by
  have hfits : selectText v = selectStart ++ (apostrophe :: v ++ apostrophe :: selectEnd) := by
    refine List.take_of_length_le ?_
    have hstart : selectStart.length = 46 := by decide +kernel
    have hend : selectEnd.length = 8 := by decide
    simp only [List.length_append, List.length_cons, hstart, hend]
    omega
  have hend : lex selectEnd = some ((SqlLex.run .between selectEnd).1 ++ [.word (ascii "1")]) := by
    decide
  rw [hfits, lex_literal (by decide +kernel) hq hb (by decide), hend, Option.map_some, selectShape]
  simp

theorem lex_insertText {v : Text} (hlen : v.length ≤ 83) (hq : apostrophe ∉ v)
    (hb : backslash ∉ v) : lex (insertText v) = some (insertShape v) := by
  have hfits : insertText v = insertStart ++ (apostrophe :: v ++ apostrophe :: insertEnd) := by
    refine List.take_of_length_le ?_
    have hstart : insertStart.length = 53 := by decide +kernel
    have hend : insertEnd.length = 1 := by decide
    simp only [List.length_append, List.length_cons, hstart, hend]
    omega
  have hend : lex insertEnd = some (SqlLex.run .between insertEnd).1 := by decide
  rw [hfits, lex_literal (by decide +kernel) hq hb (by decide), hend, Option.map_some, insertShape]

/-! ### One file -/

variable {E} {key : Text → Text} {names : List Text}

/-- Only versions of files are recorded. -/
def Known (names : List Text) (rows : List Text) : Prop := ∀ v ∈ rows, ∃ f ∈ names, version f = v

/-- Statements that leave the table alone count only by their outcome. -/
theorem foldl_exec_of_alone (errno : ℕ → ℕ) (rows : List Text) (ok : Bool) {l : List (Text × ℕ)}
    (h : ∀ stmt ∈ l, ∀ rows, E.effect stmt.1 rows = rows) :
    l.foldl
      (fun state stmt =>
        (if errno stmt.2 = 0 then E.effect stmt.1 state.1 else state.1,
          state.2 && tolerated (errno stmt.2)))
      (rows, ok) = (rows, ok && l.all fun stmt => tolerated (errno stmt.2)) := by
  induction l generalizing ok with
  | nil => simp
  | cons stmt l ih =>
    rw [List.foldl_cons, h stmt List.mem_cons_self, ite_self,
      ih _ fun s hs => h s (List.mem_cons_of_mem _ hs), List.all_cons, Bool.and_assoc]

theorem execSqlFile_of_alone (errno : ℕ → ℕ) {buf : Text} (rows : List Text)
    (h : ∀ stmt ∈ statements buf, ∀ rows, E.effect stmt rows = rows) :
    (execSqlFile E errno buf rows).1 = rows ∧
      ((execSqlFile E errno buf rows).2 = true ↔
        ∀ i < (statements buf).length, tolerated (errno i) = true) := by
  have halone : ∀ stmt ∈ (statements buf).zipIdx, ∀ rows, E.effect stmt.1 rows = rows :=
    fun stmt hs => h stmt.1 (List.fst_mem_of_mem_zipIdx hs)
  rw [execSqlFile, foldl_exec_of_alone errno rows true halone]
  refine ⟨rfl, ?_⟩
  simp only [Bool.true_and, List.all_eq_true]
  constructor
  · intro hall i hi
    exact hall (_, i) (List.mk_mem_zipIdx_iff_getElem?.mpr (List.getElem?_eq_getElem hi))
  · intro hall stmt hs
    obtain ⟨hi, -⟩ := List.getElem?_eq_some_iff.mp (List.mk_mem_zipIdx_iff_getElem?.mp hs)
    exact hall stmt.2 hi

/-- The collation finds exactly the versions that are recorded. -/
theorem Plain.present_iff (h : Plain key names) {rows : List Text} (hrows : Known names rows)
    {f : Text} (hf : f ∈ names) : Present key (version f) rows ↔ version f ∈ rows := by
  constructor
  · rintro ⟨r, hr, hkey⟩
    obtain ⟨g, hg, rfl⟩ := hrows r hr
    rwa [← List.inj_on_of_nodup_map h.distinct hg hf hkey]
  · exact fun hv => ⟨_, hv, rfl⟩

theorem Plain.isApplied_iff (h : Plain key names) (hE : E.Lawful key) {rows : List Text}
    (hrows : Known names rows) {f : Text} (hf : f ∈ names) (check : Check) :
    isApplied E check (version f) rows = true ↔ version f ∈ rows ∧ check = .done := by
  unfold isApplied
  rw [lex_selectText (length_version_le f) (h.noQuote f hf) (h.noBackslash f hf)]
  cases check with
  | done =>
    show E.select (selectShape (version f)) rows = true ↔ _
    rw [hE.select_shape _ _ (h.storable f hf), decide_eq_true_iff, h.present_iff hrows hf]
    simp
  | failed => simp
  | noResult => simp

theorem Plain.mem_recordVersion (h : Plain key names) (hE : E.Lawful key) {rows : List Text}
    (hrows : Known names rows) {f : Text} (hf : f ∈ names) (done : Bool) (v : Text) :
    v ∈ recordVersion E done (version f) rows ↔ v ∈ rows ∨ v = version f ∧ done = true := by
  unfold recordVersion
  rw [lex_insertText (length_version_le f) (h.noQuote f hf) (h.noBackslash f hf)]
  cases done with
  | false => simp
  | true =>
    show v ∈ E.insert (insertShape (version f)) rows ↔ _
    rw [hE.insert_shape _ _ (h.storable f hf)]
    by_cases hpresent : Present key (version f) rows
    · have hmem := (h.present_iff hrows hf).mp hpresent
      rw [if_pos hpresent]
      refine ⟨Or.inl, ?_⟩
      rintro (hv | ⟨rfl, -⟩)
      · exact hv
      · exact hmem
    · rw [if_neg hpresent]
      simp

/-- What one file does to the rows and to `all_ok`. -/
theorem Plain.applyFile_spec (h : Plain key names) (hE : E.Lawful key) {s : Start}
    (halone : ∀ f buf, s.contents f = some buf → ∀ stmt ∈ statements buf, ∀ rows,
      E.effect stmt rows = rows)
    {rows : List Text} (hrows : Known names rows) {f : Text} (hf : f ∈ names) (ok : Bool) :
    (∀ v, v ∈ (applyFile E s (rows, ok) f).1 ↔ v ∈ rows ∨ v = version f ∧ Records s f) ∧
      ((applyFile E s (rows, ok) f).2 = true ↔
        ok = true ∧ (version f ∈ rows ∧ s.check f = .done ∨ Passes s f)) := by
  rw [applyFile]
  by_cases happlied : isApplied E (s.check f) (version f) rows = true
  · rw [if_pos happlied]
    have hskip := (h.isApplied_iff hE hrows hf _).mp happlied
    refine ⟨fun v => ⟨Or.inl, ?_⟩, by simp [hskip]⟩
    rintro (hv | ⟨rfl, -⟩)
    · exact hv
    · exact hskip.1
  · rw [if_neg happlied]
    have hskip := mt (h.isApplied_iff hE hrows hf (s.check f)).mpr happlied
    cases hread : readFile (s.contents f) with
    | none =>
      have hpass : ¬ Passes s f := by
        rintro ⟨buf, hbuf, -⟩
        rw [hread] at hbuf
        cases hbuf
      simp [Records, hpass, hskip]
    | some buf =>
      have hcontents : s.contents f = some buf := (Option.filter_eq_some_iff.mp hread).1
      obtain ⟨hsame, hok⟩ := execSqlFile_of_alone (s.errno f) rows (halone f buf hcontents)
      have hpass : Passes s f ↔ (execSqlFile E (s.errno f) buf rows).2 = true := by
        rw [hok]
        constructor
        · rintro ⟨buf', hbuf', hall⟩
          rw [hread] at hbuf'
          cases hbuf'
          exact hall
        · exact fun hall => ⟨buf, hread, hall⟩
      simp only [hsame]
      by_cases hgood : (execSqlFile E (s.errno f) buf rows).2 = true
      · have hrecords : Records s f ↔ s.record f = true := and_iff_right (hpass.mpr hgood)
        rw [if_neg (not_not.mpr hgood)]
        refine ⟨fun v => ?_, by simp [hpass.mpr hgood]⟩
        rw [h.mem_recordVersion hE hrows hf, hrecords]
      · rw [if_pos hgood]
        have hnot := mt hpass.mp hgood
        simp [Records, hnot, hskip]

/-! ### One start -/

theorem Known.applyFile (h : Plain key names) (hE : E.Lawful key) {s : Start}
    (halone : ∀ f buf, s.contents f = some buf → ∀ stmt ∈ statements buf, ∀ rows,
      E.effect stmt rows = rows)
    {rows : List Text} (hrows : Known names rows) {f : Text} (hf : f ∈ names) (ok : Bool) :
    Known names (applyFile E s (rows, ok) f).1 := by
  intro v hv
  rcases ((h.applyFile_spec hE halone hrows hf ok).1 v).mp hv with hv | ⟨rfl, -⟩
  · exact hrows v hv
  · exact ⟨f, hf, rfl⟩

/-- What the loop does to the rows and to `all_ok`. -/
theorem Plain.foldl_applyFile (h : Plain key names) (hE : E.Lawful key) {s : Start}
    (halone : ∀ f buf, s.contents f = some buf → ∀ stmt ∈ statements buf, ∀ rows,
      E.effect stmt rows = rows)
    {l : List Text} (hl : ∀ f ∈ l, f ∈ names) (hnodup : (l.map version).Nodup) {rows : List Text}
    (hrows : Known names rows) (ok : Bool) :
    (∀ v, v ∈ (l.foldl (applyFile E s) (rows, ok)).1 ↔
        v ∈ rows ∨ ∃ f ∈ l, v = version f ∧ Records s f) ∧
      ((l.foldl (applyFile E s) (rows, ok)).2 = true ↔
        ok = true ∧ ∀ f ∈ l, version f ∈ rows ∧ s.check f = .done ∨ Passes s f) := by
  induction l generalizing rows ok with
  | nil => simp
  | cons f l ih =>
    obtain ⟨hnew, hnodup⟩ := List.nodup_cons.mp hnodup
    have hf := hl f List.mem_cons_self
    obtain ⟨hmem, hok⟩ := h.applyFile_spec hE halone hrows hf ok
    obtain ⟨hmem', hok'⟩ := ih (fun g hg => hl g (List.mem_cons_of_mem _ hg)) hnodup
      (hrows.applyFile h hE halone hf ok) (applyFile E s (rows, ok) f).2
    rw [List.foldl_cons]
    refine ⟨fun v => ?_, ?_⟩
    · rw [hmem', hmem]
      simp [or_assoc]
    · rw [hok', hok, and_assoc, List.forall_mem_cons]
      -- the file does not change what is recorded of the later ones
      have hlater : ∀ g ∈ l, version g ∈ (applyFile E s (rows, ok) f).1 ↔ version g ∈ rows := by
        intro g hg
        have hne : version g ≠ version f := fun heq => hnew (heq ▸ List.mem_map_of_mem hg)
        rw [hmem]
        simp [hne]
      refine and_congr_right fun _ => and_congr_right fun _ => ?_
      exact forall₂_congr fun g hg => by rw [hlater g hg]

theorem strcmpLe_antisymm {a b : Text} (hab : strcmpLe a b) (hba : strcmpLe b a) : a = b := by
  have hinj : Function.Injective UInt8.toNat := fun _ _ => UInt8.toNat_inj.mp
  exact hinj.list_map (le_antisymm hab hba)

instance : Std.Total strcmpLe := ⟨fun a b => le_total (a.map UInt8.toNat) (b.map UInt8.toNat)⟩

instance : IsTrans Text strcmpLe := ⟨fun _ _ _ => le_trans⟩

/-- The order in which the directory is listed does not matter. -/
theorem sortedNames_eq {listing dir : List Text} (hperm : listing.Perm dir)
    (hfew : (files dir).length ≤ 255) : sortedNames listing = files dir := by
  have hfilter := hperm.filter hasSqlSuffix
  have hlen : (listing.filter hasSqlSuffix).length ≤ 255 := by
    rwa [hfilter.length_eq, ← (List.perm_insertionSort strcmpLe _).length_eq]
  rw [sortedNames, List.take_of_length_le hlen, files]
  refine List.Perm.eq_of_pairwise (fun a b _ _ => strcmpLe_antisymm)
    (List.pairwise_insertionSort strcmpLe _) (List.pairwise_insertionSort strcmpLe _) ?_
  exact ((List.perm_insertionSort strcmpLe _).trans hfilter).trans
    (List.perm_insertionSort strcmpLe _).symm

theorem Plain.nodup_version (h : Plain key names) : (names.map version).Nodup := by
  have hmap : names.map (fun f => key (version f)) = (names.map version).map key := by
    rw [List.map_map]
    rfl
  have hdistinct := h.distinct
  rw [hmap] at hdistinct
  exact hdistinct.of_map

theorem step_of_not_runs {s : Start} (hs : ¬ s.Runs) (rows : List Text) : step E rows s = rows := by
  rw [step, migrateRun]
  by_cases hc : tolerated s.create = true
  · have hlisting : s.listing = none := by
      by_contra hne
      exact hs ⟨hc, hne⟩
    simp [hc, hlisting]
  · simp [hc]

/-- What a start records and reports. -/
theorem Plain.migrateRun_spec {dir : List Text} (h : Plain key (files dir)) (hE : E.Lawful key)
    {s : Start} (hfit : Fits E dir s) {rows : List Text} (hrows : Known (files dir) rows)
    (hs : s.Runs) :
    (∀ v, v ∈ step E rows s ↔ v ∈ rows ∨ ∃ f ∈ files dir, v = version f ∧ Records s f) ∧
      ((migrateRun E rows s).2 = true ↔
        ∀ f ∈ files dir, version f ∈ rows ∧ s.check f = .done ∨ Passes s f) := by
  obtain ⟨hcreate, hlisting⟩ := hs
  obtain ⟨listing, hlist⟩ := Option.ne_none_iff_exists'.mp hlisting
  have hrun : migrateRun E rows s = (files dir).foldl (applyFile E s) (rows, true) := by
    rw [migrateRun, if_neg (not_not.mpr hcreate), hlist]
    show (sortedNames listing).foldl _ _ = _
    rw [sortedNames_eq (hfit.listing listing hlist) h.few]
  obtain ⟨hmem, hok⟩ := h.foldl_applyFile hE hfit.alone (fun _ hf => hf) h.nodup_version hrows true
  rw [step, hrun]
  exact ⟨hmem, hok.trans (and_iff_right rfl)⟩

theorem Plain.mem_step {dir : List Text} (h : Plain key (files dir)) (hE : E.Lawful key)
    {s : Start} (hfit : Fits E dir s) {rows : List Text} (hrows : Known (files dir) rows)
    (hs : s.Runs) {f : Text} (hf : f ∈ files dir) :
    version f ∈ step E rows s ↔ version f ∈ rows ∨ Records s f := by
  rw [(h.migrateRun_spec hE hfit hrows hs).1]
  refine or_congr_right ⟨?_, fun hr => ⟨f, hf, rfl, hr⟩⟩
  rintro ⟨g, hg, heq, hr⟩
  rwa [List.inj_on_of_nodup_map h.nodup_version hf hg heq]

theorem ordered_iff (hnodup : names.Nodup) {rows : List Text} :
    Ordered names rows ↔
      Known names rows ∧ Prefixes.Closed names {f | version f ∈ rows} := by
  rw [Ordered, ← Prefixes.exists_prefix_iff hnodup]
  rfl

/-! ### The condition is exact -/

/-- What is recorded stays that of the first files. -/
theorem Plain.closed_step_iff {dir : List Text} (h : Plain key (files dir)) (hE : E.Lawful key)
    {s : Start} (hfit : Fits E dir s) {rows : List Text} (hrows : Known (files dir) rows)
    (hclosed : Prefixes.Closed (files dir) {f | version f ∈ rows}) (hs : s.Runs) :
    Prefixes.Closed (files dir) {f | version f ∈ step E rows s} ↔
      ∀ f g, [f, g].Sublist (files dir) → version f ∉ rows → Records s g → Records s f := by
  have hstep : ∀ {f}, f ∈ files dir → (version f ∈ step E rows s ↔ version f ∈ rows ∨ Records s f) :=
    fun hf => h.mem_step hE hfit hrows hs hf
  constructor
  · intro hclosed' f g hfg hnew hr
    have hg : g ∈ files dir := hfg.subset (by simp)
    have hf : f ∈ files dir := hfg.subset (by simp)
    exact ((hstep hf).mp (hclosed' f g hfg ((hstep hg).mpr (Or.inr hr)))).resolve_left hnew
  · intro horder f g hfg hg
    have hg' := (hstep (hfg.subset (by simp))).mp hg
    refine (hstep (hfg.subset (by simp))).mpr ?_
    by_cases hnew : version f ∈ rows
    · exact Or.inl hnew
    · have hgnew : version g ∉ rows := fun hgold => hnew (hclosed f g hfg hgold)
      exact Or.inr (horder f g hfg hnew (hg'.resolve_left hgnew))

/-- A start that reports success has recorded every file. -/
theorem Plain.complete_iff {dir : List Text} (h : Plain key (files dir)) (hE : E.Lawful key)
    {s : Start} (hfit : Fits E dir s) {rows : List Text} (hrows : Known (files dir) rows)
    (hs : s.Runs) :
    ((migrateRun E rows s).2 = true → ∀ f ∈ files dir, version f ∈ step E rows s) ↔
      ((∀ f ∈ files dir, version f ∈ rows ∧ s.check f = .done ∨ Passes s f) →
        ∀ f ∈ files dir, version f ∉ rows → s.record f = true) := by
  rw [(h.migrateRun_spec hE hfit hrows hs).2]
  refine forall_congr' fun hall => forall₂_congr fun f hf => ?_
  rw [h.mem_step hE hfit hrows hs hf]
  constructor
  · exact fun hrecorded hnew => (hrecorded.resolve_left hnew).2
  · intro hrecord
    by_cases hnew : version f ∈ rows
    · exact Or.inl hnew
    · have hpass : Passes s f := (hall f hf).resolve_left fun hskip => hnew hskip.1
      exact Or.inr ⟨hpass, hrecord hnew⟩

theorem Plain.step_iff {dir : List Text} (h : Plain key (files dir)) (hE : E.Lawful key)
    {rows : List Text} (hrows : Ordered (files dir) rows) {s : Start} (hfit : Fits E dir s) :
    Ordered (files dir) (step E rows s) ∧ Faithful E (files dir) rows s ↔
      Meets (files dir) rows s := by
  have hnodup : (files dir).Nodup := h.nodup_version.of_map
  obtain ⟨hknown, hclosed⟩ := (ordered_iff hnodup).mp hrows
  by_cases hs : s.Runs
  swap
  · -- nothing is run, and nothing is reported of a directory that was read
    have hsame := step_of_not_runs (E := E) hs rows
    refine iff_of_true ⟨by rwa [hsame], ?_, ?_⟩ ⟨fun hr => absurd hr hs, fun hr => absurd hr hs⟩
    · rw [hsame]
      exact fun v hv hnew => absurd hv hnew
    · intro hret hlisting
      have hc : ¬ tolerated s.create = true := fun hc => hs ⟨hc, hlisting⟩
      simp [migrateRun, hc] at hret
  have hmem := (h.migrateRun_spec hE hfit hknown hs).1
  have hknown' : Known (files dir) (step E rows s) := by
    intro v hv
    rcases (hmem v).mp hv with hv | ⟨f, hf, rfl, -⟩
    · exact hknown v hv
    · exact ⟨f, hf, rfl⟩
  have hpassed : ∀ v ∈ step E rows s, v ∉ rows → ∃ f ∈ files dir, version f = v ∧ Passes s f := by
    intro v hv hnew
    obtain ⟨f, hf, rfl, hr⟩ := ((hmem v).mp hv).resolve_left hnew
    exact ⟨f, hf, rfl, hr.1⟩
  rw [ordered_iff hnodup, and_iff_right hknown', h.closed_step_iff hE hfit hknown hclosed hs]
  have hcomplete := h.complete_iff hE hfit hknown hs
  constructor
  · rintro ⟨horder, hfaithful⟩
    exact ⟨fun _ => horder, fun _ => hcomplete.mp fun hret => hfaithful.complete hret hs.2⟩
  · intro hmeets
    exact ⟨hmeets.order hs, hpassed, fun hret _ => hcomplete.mpr (hmeets.record hs) hret⟩

/-- **Migrations are recorded in order, and a reported success is one, exactly if every start meets the
condition.** -/
theorem migrations_iff {dir : List Text} (hE : E.Lawful key) (h : Plain key (files dir))
    {rows : List Text} (hrows : Ordered (files dir) rows) {starts : List Start}
    (hfit : ∀ s ∈ starts, Fits E dir s) :
    Always (step E) (Ordered (files dir)) rows starts ∧
        Each (step E) (Faithful E (files dir)) rows starts ↔
      Each (step E) (Meets (files dir)) rows starts :=
  always_and_each_iff (fun _ _ hrows hfit => h.step_iff hE hrows hfit) hrows hfit

/-! ### Two starts -/

/-- A database that knows the two statements. -/
def reference (key : Text → Text) : Engine where
  select tokens rows :=
    match tokens.drop (SqlLex.run .between selectStart).1.length with
    | .quoted _ v :: _ => decide (Present key v rows)
    | _ => false
  insert tokens rows :=
    match tokens.drop (SqlLex.run .between insertStart).1.length with
    | .quoted _ v :: _ => if Present key v rows then rows else rows ++ [v]
    | _ => rows
  effect _ rows := rows

theorem reference_lawful (key : Text → Text) : (reference key).Lawful key where
  select_shape v rows _ := by
    simp only [reference, selectShape, List.append_assoc, List.cons_append, List.drop_left]
  insert_shape v rows _ := by
    simp only [reference, insertShape, List.drop_left]

/-- A collation that does not see the case of a letter. -/
def caseFold (v : Text) : Text := v.map toLower

def first : Text := ascii "0001_a.sql"

def second : Text := ascii "0002_b.sql"

/-- Two migrations, as the directory lists them. -/
def twoFiles : List Text := [ascii ".", second, first, ascii ".."]

/-- A start without errors. -/
def clean : Start where
  create := 0
  listing := some twoFiles
  contents := fun _ => some (ascii "SELECT 1;")
  check := fun _ => .done
  errno := fun _ _ => 0
  record := fun _ => true

/-- The first file cannot be read. -/
def unreadable : Start :=
  { clean with contents := fun f => if f = first then none else some (ascii "SELECT 1;") }

/-- The statement that records the second file fails. -/
def unrecorded : Start := { clean with record := fun f => f = first }

theorem files_twoFiles : files twoFiles = [first, second] := by decide

theorem plain_twoFiles : Plain caseFold (files twoFiles) := by
  rw [files_twoFiles]
  constructor
  · decide
  · intro f hf
    simp only [List.mem_cons, List.not_mem_nil, or_false] at hf
    rcases hf with rfl | rfl
    · exact ⟨"0001_a".toList, by decide, by decide⟩
    · exact ⟨"0002_b".toList, by decide, by decide⟩
  · decide
  · decide
  · decide

theorem fits_of_listing {s : Start} (h : s.listing = some twoFiles) :
    Fits (reference caseFold) twoFiles s where
  listing := by
    rintro listing hl
    rw [h] at hl
    cases hl
    exact List.Perm.rfl
  alone := fun _ _ _ _ _ _ => rfl

theorem passes_of_contents {s : Start} {f : Text} (h : s.contents f = some (ascii "SELECT 1;"))
    (herr : ∀ i, s.errno f i = 0) : Passes s f := by
  refine ⟨ascii "SELECT 1;", ?_, fun i _ => by rw [herr]; rfl⟩
  rw [h]
  decide

/-- After a file that cannot be read the next one is run and recorded; and a start reports success although
the second file is not recorded. -/
theorem later_recorded_and_lost :
    ¬ Ordered (files twoFiles) (step (reference caseFold) [] unreadable) ∧
      (migrateRun (reference caseFold) [] unrecorded).2 = true ∧
      version second ∉ step (reference caseFold) [] unrecorded := by
  have hE := reference_lawful caseFold
  have hknown : Known (files twoFiles) [] := fun _ hv => absurd hv List.not_mem_nil
  have hfirst : first ∈ files twoFiles := by decide
  have hsecond : second ∈ files twoFiles := by decide
  refine ⟨?_, ?_⟩
  · have hruns : unreadable.Runs := ⟨by decide, by decide⟩
    have hmem := fun {f} (hf : f ∈ files twoFiles) =>
      plain_twoFiles.mem_step hE (fits_of_listing rfl) hknown hruns hf
    intro hordered
    have hclosed := ((ordered_iff (by decide)).mp hordered).2
    have hpass : Passes unreadable second := passes_of_contents (by decide) fun _ => rfl
    have hrecorded := hclosed first second (by decide) ((hmem hsecond).mpr (Or.inr ⟨hpass, rfl⟩))
    rcases (hmem hfirst).mp hrecorded with hnil | ⟨⟨buf, hbuf, -⟩, -⟩
    · exact absurd hnil List.not_mem_nil
    · exact absurd hbuf (by simp [unreadable, readFile])
  · have hruns : unrecorded.Runs := ⟨by decide, by decide⟩
    have hspec := plain_twoFiles.migrateRun_spec hE (fits_of_listing rfl) hknown hruns
    have hmem := plain_twoFiles.mem_step hE (fits_of_listing (s := unrecorded) rfl) hknown hruns
      hsecond
    refine ⟨hspec.2.mpr fun f _ => Or.inr (passes_of_contents rfl fun _ => rfl), ?_⟩
    rw [hmem]
    rintro (hnil | ⟨-, hrecord⟩)
    · exact absurd hnil List.not_mem_nil
    · exact absurd hrecord (by decide)

/-- The case of a start without errors. -/
theorem migrations_iff_clean :
    Always (step (reference caseFold)) (Ordered (files twoFiles)) [] [clean] ∧
      Each (step (reference caseFold)) (Faithful (reference caseFold) (files twoFiles)) [] [clean] := by
  have hordered : Ordered (files twoFiles) [] :=
    ⟨fun _ hv => absurd hv List.not_mem_nil, [], List.nil_prefix, fun _ _ => by simp⟩
  have hfit : ∀ s ∈ [clean], Fits (reference caseFold) twoFiles s := by
    intro s hs
    obtain rfl := List.mem_singleton.mp hs
    exact fits_of_listing rfl
  refine (migrations_iff (reference_lawful caseFold) plain_twoFiles hordered hfit).mpr ⟨?_, trivial⟩
  exact ⟨fun _ _ _ _ _ _ => ⟨passes_of_contents rfl fun _ => rfl, rfl⟩, fun _ _ _ _ _ => rfl⟩

end SecChat.Migrations
