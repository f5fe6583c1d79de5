import Mathlib.Data.List.Infix
import Mathlib.Tactic

/-!
# Patterns with wildcards

A pattern is a text with a sign for any characters, one for any single character, and one that takes the
meaning from the sign behind it, as in `LIKE` of SQL.

* `Signs`, `items`: the signs, and what a pattern is made of;
* `like`: whether a text fits a pattern, for any comparison of characters;
* `escaped`, `items_escaped_append`: a text in which each sign has lost its meaning;
* `contains`: whether a text has another one in it;
* `like_escaped`: what fits an escaped text between two signs for any characters.
-/

namespace Like

variable {α : Type} [DecidableEq α]

/-- The signs for any characters and for any single one, and the sign that makes a sign a character. -/
structure Signs (α : Type) where
  many : α
  one : α
  escape : α
  escape_ne_many : escape ≠ many

/-- A part of a pattern. -/
inductive Item (α : Type)
  | many
  | one
  | char (c : α)
  deriving DecidableEq

/-- What a sign or a character stands for when nothing precedes it. -/
def Signs.item (s : Signs α) (c : α) : Item α :=
  if c = s.many then .many else if c = s.one then .one else .char c

/-- The parts of a pattern; a sign of escape at the end stands for itself. -/
def Signs.items (s : Signs α) : List α → List (Item α)
  | [] => []
  | [c] => [s.item c]
  | c :: d :: cs => if c = s.escape then .char d :: s.items cs else s.item c :: s.items (d :: cs)

/-- Whether a text fits a pattern. -/
def like (same : α → α → Bool) : List (Item α) → List α → Bool
  | [], t => t.isEmpty
  | .many :: p, t => t.tails.any (like same p)
  | .one :: _, [] => false
  | .one :: p, _ :: t => like same p t
  | .char _ :: _, [] => false
  | .char d :: p, c :: t => same c d && like same p t

/-- A text with each sign made a character. -/
def Signs.escaped (s : Signs α) (q : List α) : List α :=
  q.flatMap fun c => if c = s.many ∨ c = s.one ∨ c = s.escape then [s.escape, c] else [c]

/-- Whether a text begins with another one. -/
def startsWith (same : α → α → Bool) : List α → List α → Bool
  | [], _ => true
  | _ :: _, [] => false
  | d :: q, c :: t => same c d && startsWith same q t

/-- Whether a text has another one in it. -/
def contains (same : α → α → Bool) (q t : List α) : Bool := t.tails.any (startsWith same q)

variable {s : Signs α} {same : α → α → Bool}

theorem items_many (cs : List α) : s.items (s.many :: cs) = .many :: s.items cs := by
  have hmany : s.item s.many = .many := if_pos rfl
  cases cs with
  | nil => exact congrArg (fun i => [i]) hmany
  | cons d cs => rw [Signs.items, if_neg s.escape_ne_many.symm, hmany]

theorem items_cons_of_plain {c : α} (h : ¬ (c = s.many ∨ c = s.one ∨ c = s.escape)) (cs : List α) :
    s.items (c :: cs) = .char c :: s.items cs := by
  rw [not_or, not_or] at h
  have hchar : s.item c = .char c := by rw [Signs.item, if_neg h.1, if_neg h.2.1]
  cases cs with
  | nil => exact congrArg (fun i => [i]) hchar
  | cons d cs => rw [Signs.items, if_neg h.2.2, hchar]

/-- An escaped text stands for its characters. -/
theorem items_escaped_append (q cs : List α) :
    s.items (s.escaped q ++ cs) = q.map .char ++ s.items cs := by
  induction q with
  | nil => rfl
  | cons c q ih =>
    rw [Signs.escaped, List.flatMap_cons, ← Signs.escaped, List.append_assoc, List.map_cons, List.cons_append,
      ← ih]
    split_ifs with hc
    · rw [List.cons_append, List.singleton_append, Signs.items, if_pos rfl]
    · rw [List.singleton_append, items_cons_of_plain hc]

omit [DecidableEq α] in
theorem like_many_iff (p : List (Item α)) (t : List α) :
    like same (.many :: p) t = true ↔ ∃ a b, t = a ++ b ∧ like same p b = true := by
  rw [like, List.any_eq_true]
  constructor
  · rintro ⟨b, hb, hp⟩
    obtain ⟨a, rfl⟩ := (List.mem_tails _ _).mp hb
    exact ⟨a, b, rfl, hp⟩
  · rintro ⟨a, b, rfl, hp⟩
    exact ⟨b, (List.mem_tails _ _).mpr (List.suffix_append a b), hp⟩

omit [DecidableEq α] in
theorem like_map_char_append_many (q t : List α) :
    like same (q.map .char ++ [.many]) t = startsWith same q t := by
  induction q generalizing t with
  | nil =>
    rw [startsWith, List.map_nil, List.nil_append, like_many_iff]
    exact ⟨t, [], (List.append_nil t).symm, rfl⟩
  | cons d q ih =>
    cases t with
    | nil => rfl
    | cons c t => rw [List.map_cons, List.cons_append, like, startsWith, ih]

/-- **Escaping.** What fits an escaped text between two signs for any characters is what has the text
in it. -/
theorem like_escaped (q t : List α) :
    like same (s.items (s.many :: (s.escaped q ++ [s.many]))) t = contains same q t := by
  have hend : s.items [s.many] = [.many] := items_many []
  rw [items_many, items_escaped_append, hend, like, contains]
  exact congrArg t.tails.any (funext fun b => like_map_char_append_many q b)

end Like
