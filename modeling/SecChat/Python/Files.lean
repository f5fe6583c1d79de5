import Mathlib.Data.List.AList
import Mathlib.Data.List.DropRight
import Mathlib.Data.List.TakeWhile
import SecChat.Python.Method

/-!
# Text files

Files as `open(path, encoding="utf-8")` reads and writes them, and what the modelled code uses of
`os.path`, `fnmatch` and `glob`.  Paths are those of POSIX.  A text is what `read` returns, after
the translation of newlines.

* `splitlines`, `basename`, `pathJoin`, `fnmatchcase`;
* `Disk`: the text of every file; no path has a NUL in it, because `open` refuses such a path;
* `splitlines_join`: lines that were written with a newline after each are read back.
-/

namespace Py

/-! ### Lines -/

/-- The line boundaries of `str.splitlines`. -/
def isLineBreak (c : Char) : Bool :=
  let n := c.toNat
  (10 ≤ n ∧ n ≤ 13) ∨ (28 ≤ n ∧ n ≤ 30) ∨ n = 133 ∨ n = 8232 ∨ n = 8233

/-- The loop of `splitlines`: what is left, the current line backwards, and whether a carriage
return was just read, whose line feed is part of the same boundary. -/
def splitlinesAux : List Char → List Char → Bool → List (List Char)
  | [], cur, _ => if cur = [] then [] else [cur.reverse]
  | c :: cs, cur, cr =>
      if cr ∧ c = '\n' then splitlinesAux cs [] false
      else if isLineBreak c then cur.reverse :: splitlinesAux cs [] (c = '\r')
      else splitlinesAux cs (c :: cur) false

/-- `text.splitlines()`. -/
def splitlines (text : String) : List String :=
  (splitlinesAux text.toList [] false).map String.ofList

theorem splitlinesAux_line {cs : List Char} (h : ∀ c ∈ cs, isLineBreak c = false)
    (rest cur : List Char) :
    splitlinesAux (cs ++ '\n' :: rest) cur false =
      (cur.reverse ++ cs) :: splitlinesAux rest [] false := by
  induction cs generalizing cur with
  | nil => simp [splitlinesAux, isLineBreak]
  | cons c cs ih =>
    have hc := h c List.mem_cons_self
    have hcs := fun d hd => h d (List.mem_cons_of_mem _ hd)
    simp [splitlinesAux, hc, ih hcs]

/-- The text of a file that gets a newline after every line. -/
def joinLines (lines : List String) : String :=
  if lines = [] then "" else String.intercalate "\n" lines ++ "\n"

theorem toList_joinLines (lines : List String) :
    (joinLines lines).toList = lines.flatMap fun l => l.toList ++ ['\n'] := by
  induction lines with
  | nil => rfl
  | cons l lines ih =>
    cases lines with
    | nil => simp [joinLines, String.toList_append]
    | cons m lines =>
      rw [joinLines, if_neg (by simp)] at ih
      rw [joinLines, if_neg (by simp), String.intercalate_cons_cons, List.flatMap_cons, ← ih]
      simp [String.toList_append]

/-- **Lines that were written are read back.** -/
theorem splitlines_join {lines : List String}
    (h : ∀ l ∈ lines, ∀ c ∈ l.toList, isLineBreak c = false) :
    splitlines (joinLines lines) = lines := by
  rw [splitlines, toList_joinLines]
  induction lines with
  | nil => rfl
  | cons l lines ih =>
    have hl := h l List.mem_cons_self
    have hrest := ih fun m hm => h m (List.mem_cons_of_mem _ hm)
    rw [List.flatMap_cons, List.append_assoc, List.singleton_append, splitlinesAux_line hl,
      List.map_cons, hrest]
    simp

/-! ### Paths -/

/-- `os.path.basename(path)`. -/
def basename (path : String) : String :=
  String.ofList (path.toList.rtakeWhile (· ≠ '/'))

/-- What `os.path.join` puts in front of a relative path. -/
def dirPrefix (dir : String) : List Char :=
  if dir.toList = [] ∨ dir.toList.getLast? = some '/' then dir.toList else dir.toList ++ ['/']

/-- `os.path.join(dir, name)`. -/
def pathJoin (dir name : String) : String :=
  if name.toList.head? = some '/' then name else String.ofList (dirPrefix dir ++ name.toList)

/-- A single component of a path that does not lead out of its directory. -/
def IsComponent (name : String) : Prop := '/' ∉ name.toList ∧ name ≠ "" ∧ name ≠ "." ∧ name ≠ ".."

theorem toList_pathJoin {name : String} (h : '/' ∉ name.toList) (dir : String) :
    (pathJoin dir name).toList = dirPrefix dir ++ name.toList := by
  have hhead : name.toList.head? ≠ some '/' := fun h' => h (List.mem_of_head? h')
  rw [pathJoin, if_neg hhead, String.toList_ofList]

theorem pathJoin_injective {dir a b : String} (ha : '/' ∉ a.toList) (hb : '/' ∉ b.toList)
    (h : pathJoin dir a = pathJoin dir b) : a = b := by
  have hl := congrArg String.toList h
  rw [toList_pathJoin ha, toList_pathJoin hb] at hl
  exact String.toList_inj.mp (List.append_cancel_left hl)

theorem slash_notMem_basename (path : String) : '/' ∉ (basename path).toList := by
  intro h
  rw [basename, String.toList_ofList] at h
  simpa using List.mem_rtakeWhile_imp h

theorem rtakeWhile_name {cs : List Char} (h : '/' ∉ cs) : cs.rtakeWhile (· ≠ '/') = cs := by
  rw [List.rtakeWhile_eq_self_iff]
  intro c hc
  have hne : c ≠ '/' := fun heq => h (heq ▸ hc)
  simpa using hne

theorem basename_of_slash_notMem {name : String} (h : '/' ∉ name.toList) : basename name = name := by
  rw [basename, rtakeWhile_name h, String.ofList_toList]

theorem dirPrefix_eq (dir : String) : dirPrefix dir = [] ∨ ∃ cs, dirPrefix dir = cs ++ ['/'] := by
  unfold dirPrefix
  split_ifs with h
  · rcases h with h | h
    · exact .inl h
    · obtain ⟨cs, hcs⟩ := List.getLast?_eq_some_iff.mp h
      exact .inr ⟨cs, hcs⟩
  · exact .inr ⟨_, rfl⟩

@[simp] theorem basename_pathJoin {name : String} (h : '/' ∉ name.toList) (dir : String) :
    basename (pathJoin dir name) = name := by
  have hname := rtakeWhile_name h
  rw [basename, toList_pathJoin h]
  rcases dirPrefix_eq dir with hdir | ⟨cs, hdir⟩
  · rw [hdir, List.nil_append, hname, String.ofList_toList]
  · have hall : ∀ c ∈ name.toList.reverse, decide (c ≠ '/') = true := by
      intro c hc
      have hne : c ≠ '/' := fun heq => h (heq ▸ List.mem_reverse.mp hc)
      simpa using hne
    have htake : (name.toList.reverse ++ '/' :: cs.reverse).takeWhile (· ≠ '/') =
        name.toList.reverse := by
      rw [List.takeWhile_append_of_pos hall, List.takeWhile_cons_of_neg (by simp), List.append_nil]
    rw [hdir, List.rtakeWhile, List.reverse_append, List.reverse_append, List.reverse_singleton,
      List.singleton_append, htake, List.reverse_reverse, String.ofList_toList]

theorem nul_notMem_pathJoin {dir name : String} (hd : '\x00' ∉ dir.toList)
    (hn : '\x00' ∉ name.toList) : '\x00' ∉ (pathJoin dir name).toList := by
  unfold pathJoin
  split_ifs with h
  · exact hn
  · rw [String.toList_ofList, List.mem_append, not_or]
    refine ⟨?_, hn⟩
    unfold dirPrefix
    split_ifs <;> simp [hd]

/-! ### Patterns -/

/-- The matcher of `fnmatch`, for patterns whose only wildcard is `*`. -/
def wildMatch : List Char → List Char → Bool
  | [], cs => cs.isEmpty
  | p :: ps, cs =>
      if p = '*' then cs.tails.any (wildMatch ps)
      else
        match cs with
        | [] => false
        | c :: cs => c = p && wildMatch ps cs

/-- `fnmatch.fnmatchcase(name, pattern)`. -/
def fnmatchcase (name pattern : String) : Bool := wildMatch pattern.toList name.toList

theorem wildMatch_literal {ps cs : List Char} (hp : '*' ∉ ps) (h : wildMatch ps cs = true) :
    cs = ps := by
  induction ps generalizing cs with
  | nil => simpa [wildMatch] using h
  | cons p ps ih =>
    obtain ⟨hne, hps⟩ : '*' ≠ p ∧ '*' ∉ ps := by simpa using hp
    cases cs with
    | nil => simp [wildMatch, hne.symm] at h
    | cons c cs =>
      rw [wildMatch, if_neg hne.symm] at h
      obtain ⟨rfl, hmatch⟩ : c = p ∧ wildMatch ps cs = true := by simpa using h
      rw [ih hps hmatch]

/-- What matches a pattern ends in the literal text that the pattern ends in. -/
theorem suffix_of_wildMatch {ps lit cs : List Char} (hl : '*' ∉ lit)
    (h : wildMatch (ps ++ lit) cs = true) : lit <:+ cs := by
  induction ps generalizing cs with
  | nil =>
    rw [wildMatch_literal hl h]
  | cons p ps ih =>
    rw [List.cons_append, wildMatch.eq_def] at h
    dsimp only at h
    split_ifs at h with hp
    · obtain ⟨tail, htail, hmatch⟩ := List.any_eq_true.mp h
      exact (ih hmatch).trans ((List.mem_tails _ _).mp htail)
    · cases cs with
      | nil => cases h
      | cons c cs =>
        obtain ⟨-, hmatch⟩ : c = p ∧ wildMatch (ps ++ lit) cs = true := by simpa using h
        exact (ih hmatch).trans (List.suffix_cons c cs)

/-! ### The disk -/

/-- The files by path. -/
structure Disk where
  files : AList fun _ : String => String
  noNul : ∀ p ∈ files, '\x00' ∉ p.toList

namespace Disk

/-- The text of a file, if it exists. -/
def lookup (d : Disk) (path : String) : Option String := d.files.lookup path

/-- `os.path.exists(path)`. -/
def exist (d : Disk) (path : String) : Bool := (d.lookup path).isSome

/-- No files. -/
def empty : Disk := ⟨∅, fun p hp => absurd hp (AList.notMem_empty p)⟩

/-- The file gets a new text, and is created when it does not exist. -/
def put (d : Disk) (path text : String) (h : '\x00' ∉ path.toList) : Disk where
  files := d.files.insert path text
  noNul q hq := by
    rcases (AList.mem_insert _).mp hq with rfl | hq
    · exact h
    · exact d.noNul q hq

/-- `open(path, "w")`, a `write` of the whole text, and `close`. -/
def write (d : Disk) (path text : String) : Except Exn Disk :=
  if h : '\x00' ∈ path.toList then .error (.valueError "embedded null byte")
  else .ok (d.put path text h)

/-- `os.remove(path)` of a file that exists. -/
def remove (d : Disk) (path : String) : Disk where
  files := d.files.erase path
  noNul q hq := d.noNul q (AList.mem_erase.mp hq).2

/-- `os.replace(src, dst)`. -/
def replace (d : Disk) (src dst : String) : Except Exn Disk :=
  match d.lookup src with
  | none => .error (.fileNotFound src)
  | some text => (d.remove src).write dst text

/-- `glob.glob(os.path.join(dir, pattern))`, for a directory whose own path has no wildcard and a
pattern that does not match names with a dot in front. -/
def globDir (d : Disk) (dir pattern : String) : List String :=
  d.files.keys.filter fun p =>
    pathJoin dir (basename p) = p ∧ fnmatchcase (basename p) pattern

variable {d d' : Disk} {path text : String}

theorem nul_notMem (h : d.lookup path = some text) : '\x00' ∉ path.toList := by
  apply d.noNul path
  rw [← AList.lookup_isSome]
  exact Option.isSome_iff_exists.mpr ⟨text, h⟩

@[simp] theorem lookup_empty (p : String) : empty.lookup p = none := AList.lookup_empty p

@[simp] theorem lookup_put (h : '\x00' ∉ path.toList) (q : String) :
    (d.put path text h).lookup q = if q = path then some text else d.lookup q := by
  by_cases hq : q = path
  · subst hq
    rw [if_pos rfl]
    exact AList.lookup_insert _
  · rw [if_neg hq]
    exact AList.lookup_insert_ne hq

theorem write_ok (h : '\x00' ∉ path.toList) (d : Disk) (text : String) :
    ∃ d', d.write path text = .ok d' := ⟨_, dif_neg h⟩

theorem lookup_write (h : d.write path text = .ok d') (q : String) :
    d'.lookup q = if q = path then some text else d.lookup q := by
  unfold write at h
  split_ifs at h
  cases h
  exact lookup_put _ q

theorem lookup_remove (d : Disk) (path q : String) :
    (d.remove path).lookup q = if q = path then none else d.lookup q := by
  by_cases hq : q = path
  · subst hq
    rw [if_pos rfl]
    exact AList.lookup_erase _ _
  · rw [if_neg hq]
    exact AList.lookup_erase_ne hq

theorem mem_globDir {dir pattern p : String} :
    p ∈ d.globDir dir pattern ↔
      (∃ text, d.lookup p = some text) ∧ pathJoin dir (basename p) = p ∧
        fnmatchcase (basename p) pattern = true := by
  rw [globDir, List.mem_filter, ← AList.mem_keys, ← AList.lookup_isSome,
    Option.isSome_iff_exists]
  simp [lookup]

end Disk

end Py
