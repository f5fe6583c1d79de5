import Mathlib.Tactic

/-!
# Reading a connection

A connection hands over its octets in pieces of its own; a read that wants a number of octets goes on
until it has them or the connection ends.  What a program that reads in this way computes depends on the
octets only, not on the pieces.

* `Stream`, `readFull`: a connection, and a read of so many octets;
* `Reader`, `Reader.run`: a program that reads, on a connection;
* `Reader.runOn`: the same on the octets alone;
* `run_eq_runOn`: they agree.
-/

namespace ByteReader

/-- The pieces in which a connection hands over its octets; it ends after them. -/
abbrev Stream := List {t : List UInt8 // t ≠ []}

/-- The octets of a connection. -/
def Stream.octets (s : Stream) : List UInt8 := (s.map Subtype.val).flatten

/-- Read until there are `n` octets.  A single read returns what is left of the piece, as far as it was
asked for. -/
def readFull : Stream → ℕ → Option (List UInt8) × Stream
  | s, 0 => (some [], s)
  | [], _ + 1 => (none, [])
  | c :: s, n + 1 =>
      if h : n + 1 < c.val.length then
        (some (c.val.take (n + 1)), ⟨c.val.drop (n + 1), by simpa using h⟩ :: s)
      else
        let (t, s) := readFull s (n + 1 - c.val.length)
        (t.map (c.val ++ ·), s)

/-- A program that reads: it goes on with what it read, or ends when the connection does. -/
inductive Reader (α : Type)
  | done (a : α)
  | read (n : ℕ) (next : List UInt8 → Reader α) (short : α)

variable {α : Type}

/-- The result, and what is left of the connection. -/
def Reader.run : Reader α → Stream → α × Stream
  | .done a, s => (a, s)
  | .read n next short, s =>
      match readFull s n with
      | (some t, s) => (next t).run s
      | (none, s) => (short, s)

/-- The result, and what is left of the octets. -/
def Reader.runOn : Reader α → List UInt8 → α × List UInt8
  | .done a, t => (a, t)
  | .read n next short, t =>
      if n ≤ t.length then (next (t.take n)).runOn (t.drop n) else (short, [])

theorem octets_cons (c : {t : List UInt8 // t ≠ []}) (s : Stream) :
    Stream.octets (c :: s) = c.val ++ Stream.octets s := rfl

/-- A read of no more octets than there are. -/
theorem readFull_of_le {s : Stream} {n : ℕ} (h : n ≤ s.octets.length) :
    (readFull s n).1 = some (s.octets.take n) ∧ (readFull s n).2.octets = s.octets.drop n := by
  induction s generalizing n with
  | nil =>
    have hzero : n = 0 := by simpa [Stream.octets] using h
    simp [hzero, readFull]
  | cons c s ih =>
    rw [octets_cons, List.length_append] at h
    cases n with
    | zero => simp [readFull]
    | succ n =>
      rw [octets_cons, readFull]
      split_ifs with hlt
      · refine ⟨?_, ?_⟩
        · rw [List.take_append_of_le_length (by omega)]
        · rw [octets_cons, List.drop_append_of_le_length (by omega)]
      · obtain ⟨hread, hleft⟩ := ih (n := n + 1 - c.val.length) (by omega)
        refine ⟨?_, ?_⟩
        · simp only [hread, Option.map_some]
          rw [List.take_append, List.take_of_length_le (show c.val.length ≤ n + 1 by omega)]
        · rw [hleft, List.drop_append, List.drop_of_length_le (show c.val.length ≤ n + 1 by omega),
            List.nil_append]

/-- A read of more octets than there are takes all of them. -/
theorem readFull_of_lt {s : Stream} {n : ℕ} (h : s.octets.length < n) : readFull s n = (none, []) := by
  induction s generalizing n with
  | nil =>
    cases n with
    | zero => simp [Stream.octets] at h
    | succ n => rfl
  | cons c s ih =>
    rw [octets_cons, List.length_append] at h
    cases n with
    | zero => omega
    | succ n =>
      rw [readFull, dif_neg (by omega), ih (by omega)]
      rfl

/-- **What a reader does depends on the octets only.** -/
theorem run_eq_runOn (r : Reader α) (s : Stream) :
    (r.run s).1 = (r.runOn s.octets).1 ∧ (r.run s).2.octets = (r.runOn s.octets).2 := by
  induction r generalizing s with
  | done a => exact ⟨rfl, rfl⟩
  | read n next short ih =>
    unfold Reader.run Reader.runOn
    by_cases h : n ≤ s.octets.length
    · obtain ⟨hread, hleft⟩ := readFull_of_le h
      rw [if_pos h]
      split
      · next t s' heq =>
        rw [heq] at hread hleft
        obtain rfl := Option.some.inj hread
        rw [← hleft]
        exact ih _ s'
      · next s' heq =>
        rw [heq] at hread
        cases hread
    · rw [if_neg h, readFull_of_lt (by omega)]
      exact ⟨rfl, rfl⟩

/-- A read of the first octets. -/
theorem runOn_read {n : ℕ} {t u : List UInt8} (h : t.length = n) (next : List UInt8 → Reader α) (short : α) :
    (Reader.read n next short).runOn (t ++ u) = (next t).runOn u := by
  rw [Reader.runOn, if_pos (by simp [← h]), ← h, List.take_left, List.drop_left]

/-- A read of more octets than there are. -/
theorem runOn_read_of_lt {n : ℕ} {t : List UInt8} (h : t.length < n) (next : List UInt8 → Reader α)
    (short : α) : (Reader.read n next short).runOn t = (short, []) := by
  rw [Reader.runOn, if_neg (by omega)]

end ByteReader
