import Mathlib.Tactic

/-!
# The lexical rules of MySQL

A statement is a string of octets.  The lexer cuts it into words, literals and single characters,
and drops white space and comments.  It follows MySQL with its default `sql_mode`: both kinds of
quotes open a string, a doubled quote or a backslash escape stands for a character, `-- `, `#` and
`/* */` are comments, and a literal or comment that is never closed is an error.  What stands
behind `/*!` is code; the lexer leaves a mark there.

The lexer is a machine with one step for each octet, so that the text of a statement can be cut
anywhere:

* `run_append`, `lex_append`: a text in pieces;
* `run_literal`, `lex_literal`: octets other than the quote and the backslash stay inside their
  literal.
-/

namespace SqlLex

/-- An octet string. -/
abbrev Text := List UInt8

/-- The octets of an ASCII text. -/
def ascii (s : String) : Text := s.toList.map fun c => UInt8.ofNat c.toNat

/-- A token: a word (identifier, keyword or number), a quoted literal with its quote, a single
character, or the start of an executable comment. -/
inductive Token
  | word (text : Text)
  | quoted (quote : UInt8) (value : Text)
  | char (c : UInt8)
  | hint
  deriving DecidableEq, Repr

/-- Where the lexer is. -/
inductive Mode
  | between
  | word (text : Text)
  | literal (quote : UInt8) (value : Text)
  | escape (quote : UInt8) (value : Text)
  | closing (quote : UInt8) (value : Text)
  | dash
  | dashes
  | slash
  | opening
  | comment
  | star
  | line
  deriving DecidableEq, Repr

def apostrophe : UInt8 := 0x27
def backslash : UInt8 := 0x5c

/-- White space. -/
def isSpace (c : UInt8) : Bool := c = 0x20 ∨ 0x09 ≤ c ∧ c ≤ 0x0d

/-- The octets of identifiers and numbers. -/
def isWord (c : UInt8) : Bool :=
  0x30 ≤ c ∧ c ≤ 0x39 ∨ 0x41 ≤ c ∧ c ≤ 0x5a ∨ 0x61 ≤ c ∧ c ≤ 0x7a ∨ c = 0x5f ∨ c = 0x24 ∨ 0x80 ≤ c

/-- What a backslash and an octet stand for. -/
def unescape (c : UInt8) : Text :=
  if c = 0x30 then [0x00]
  else if c = 0x62 then [0x08]
  else if c = 0x74 then [0x09]
  else if c = 0x6e then [0x0a]
  else if c = 0x72 then [0x0d]
  else if c = 0x5a then [0x1a]
  else if c = 0x25 ∨ c = 0x5f then [backslash, c]
  else [c]

/-- The first octet of a token. -/
def first (c : UInt8) : List Token × Mode :=
  if isSpace c then ([], .between)
  else if c = apostrophe ∨ c = 0x22 ∨ c = 0x60 then ([], .literal c [])
  else if c = 0x23 then ([], .line)
  else if c = 0x2d then ([], .dash)
  else if c = 0x2f then ([], .slash)
  else if isWord c then ([], .word [c])
  else ([.char c], .between)

/-- Finish some tokens and go on with `c`. -/
def after (done : List Token) (c : UInt8) : List Token × Mode := (done ++ (first c).1, (first c).2)

/-- One octet: the tokens it finishes, and the next mode. -/
def next (m : Mode) (c : UInt8) : List Token × Mode :=
  match m with
  | .between => first c
  | .word text => if isWord c then ([], .word (text ++ [c])) else after [.word text] c
  | .literal q value =>
      if c = q then ([], .closing q value)
      -- a backslash is an ordinary character between backticks
      else if c = backslash ∧ q ≠ 0x60 then ([], .escape q value)
      else ([], .literal q (value ++ [c]))
  | .escape q value => ([], .literal q (value ++ unescape c))
  | .closing q value =>
      if c = q then ([], .literal q (value ++ [c])) else after [.quoted q value] c
  | .dash => if c = 0x2d then ([], .dashes) else after [.char 0x2d] c
  | .dashes =>
      if c = 0x0a then ([], .between)
      else if c ≤ 0x20 ∨ c = 0x7f then ([], .line)
      else after [.char 0x2d, .char 0x2d] c
  | .slash => if c = 0x2a then ([], .opening) else after [.char 0x2f] c
  | .opening =>
      if c = 0x21 then ([.hint], .between) else if c = 0x2a then ([], .star) else ([], .comment)
  | .comment => if c = 0x2a then ([], .star) else ([], .comment)
  | .star =>
      if c = 0x2f then ([], .between) else if c = 0x2a then ([], .star) else ([], .comment)
  | .line => if c = 0x0a then ([], .between) else ([], .line)

/-- The tokens that the end of the text finishes; `none` is a literal or comment left open. -/
def finish : Mode → Option (List Token)
  | .between => some []
  | .word text => some [.word text]
  | .literal .. => none
  | .escape .. => none
  | .closing q value => some [.quoted q value]
  | .dash => some [.char 0x2d]
  | .dashes => some []
  | .slash => some [.char 0x2f]
  | .opening => none
  | .comment => none
  | .star => none
  | .line => some []

/-- The tokens of a text read in a mode, and the mode at its end. -/
def run : Mode → Text → List Token × Mode
  | m, [] => ([], m)
  | m, c :: text => ((next m c).1 ++ (run (next m c).2 text).1, (run (next m c).2 text).2)

/-- The tokens of a statement. -/
def lex (text : Text) : Option (List Token) :=
  (finish (run .between text).2).map fun last => (run .between text).1 ++ last

theorem run_append (m : Mode) (s t : Text) :
    run m (s ++ t) = ((run m s).1 ++ (run (run m s).2 t).1, (run (run m s).2 t).2) := by
  induction s generalizing m with
  | nil => rfl
  | cons c s ih => simp [run, ih, List.append_assoc]

/-- The rest of a statement, after a part that ends between two tokens. -/
theorem lex_append {s t : Text} (h : (run .between s).2 = .between) :
    lex (s ++ t) = (lex t).map fun toks => (run .between s).1 ++ toks := by
  unfold lex
  rw [run_append, h]
  cases finish (run .between t).2 <;> simp

/-- Octets other than the quote and the backslash stay inside their literal. -/
theorem run_literal {q : UInt8} {value text : Text} (hq : q ∉ text) (hb : backslash ∉ text) :
    run (.literal q value) text = ([], .literal q (value ++ text)) := by
  induction text generalizing value with
  | nil => simp [run]
  | cons c text ih =>
    obtain ⟨hcq, hq⟩ := not_or.mp (List.mem_cons.not.mp hq)
    obtain ⟨hcb, hb⟩ := not_or.mp (List.mem_cons.not.mp hb)
    have hnext : next (.literal q value) c = ([], .literal q (value ++ [c])) := by
      simp [next, Ne.symm hcq, Ne.symm hcb]
    simp only [run, hnext, ih hq hb]
    simp

/-- Octets of a word stay in it. -/
theorem run_word {word text : Text} (h : ∀ c ∈ text, isWord c = true) :
    run (.word word) text = ([], .word (word ++ text)) := by
  induction text generalizing word with
  | nil => simp [run]
  | cons c text ih =>
    have hnext : next (.word word) c = ([], .word (word ++ [c])) := by
      simp [next, h c List.mem_cons_self]
    simp only [run, hnext, ih fun d hd => h d (List.mem_cons_of_mem _ hd)]
    simp

/-- A literal in the middle of a statement: a part that ends between two tokens, the literal, and a
rest that does not begin with the quote. -/
theorem lex_literal {s t value : Text} (hs : (run .between s).2 = .between)
    (hq : apostrophe ∉ value) (hb : backslash ∉ value) (ht : t.head? ≠ some apostrophe) :
    lex (s ++ (apostrophe :: value ++ apostrophe :: t)) =
      (lex t).map fun toks => (run .between s).1 ++ .quoted apostrophe value :: toks := by
  rw [lex_append hs]
  -- the literal itself, up to the closing quote
  have hlit : run .between (apostrophe :: value ++ [apostrophe]) =
      ([], .closing apostrophe value) := by
    have hopen : next .between apostrophe = ([], .literal apostrophe []) := by decide
    have hbody : run (.literal apostrophe []) (value ++ [apostrophe]) =
        ([], .closing apostrophe value) := by
      rw [run_append, run_literal hq hb]
      simp [run, next]
    simp only [List.cons_append, run, hopen, hbody]
    simp
  have hsplit : apostrophe :: value ++ apostrophe :: t = (apostrophe :: value ++ [apostrophe]) ++ t :=
    by simp
  have hrest : lex (apostrophe :: value ++ apostrophe :: t) =
      (lex t).map (.quoted apostrophe value :: ·) := by
    rw [hsplit]
    unfold lex
    rw [run_append, hlit]
    cases t with
    | nil => rfl
    | cons c t =>
      have hc : c ≠ apostrophe := by simpa using ht
      have hnext : next (.closing apostrophe value) c =
          (.quoted apostrophe value :: (next .between c).1, (next .between c).2) := by
        simp [next, hc, after]
      simp only [run, hnext, List.nil_append]
      cases finish (run (next .between c).2 t).2 <;> simp
  rw [hrest]
  cases lex t <;> simp

end SqlLex
