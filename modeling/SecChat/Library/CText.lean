import Mathlib.Tactic

/-!
# Text in C

A C string is kept as its octets before the terminating zero.  `snprintf` writes at an offset that the
caller advances by the length the whole text would have had, so after a text that did not fit the
offset is past the end of the buffer, and `size - offset`, which is unsigned, wraps around.

* `fmt`: the text that a format string and its arguments stand for, and `length_fmt`;
* `dec`, `dec_injective`, `range_of_mem_dec`: the text of a number;
* `Buffer`, `Buffer.snprintf`: a buffer with the offset of the next write, and how far the writes went;
* `written_writes`, `reach_writes_concat`, `wild_writes_concat`: what a buffer holds after some writes,
  and when one of them starts past its end;
* `text_snprintf_new`, `text_snprintf`: a text that is written at once;
* `strncat`, `foldl_strncat`: a text built by bounded concatenation.
-/

namespace CText

/-- An octet string. -/
abbrev Text := List UInt8

/-- The octet of an ASCII character. -/
def octet (c : Char) : UInt8 := UInt8.ofNat c.toNat

/-- The octets of an ASCII text. -/
def ascii (s : String) : Text := s.toList.map octet

/-- An array of `size` characters that holds a C string. -/
structure CStr (size : ℕ) where
  text : Text
  noNul : 0 ∉ text
  fits : text.length < size
  deriving DecidableEq

/-! ### Formats -/

/-- The digits of a number. -/
def digits (n : ℕ) : Text := (Nat.toDigits 10 n).map octet

/-- `%d` and `%lld`. -/
def dec : ℤ → Text
  | .ofNat n => digits n
  | .negSucc n => octet '-' :: digits (n + 1)

/-- A format string as its characters, with `none` for each directive. -/
def directives : List Char → List (Option UInt8)
  | '%' :: 'l' :: 'l' :: 'd' :: cs => none :: directives cs
  | '%' :: 'd' :: cs => none :: directives cs
  | '%' :: 's' :: cs => none :: directives cs
  | c :: cs => some (octet c) :: directives cs
  | [] => []

/-- The directives are replaced by the texts of the arguments. -/
def fill : List (Option UInt8) → List Text → Text
  | none :: ds, a :: args => a ++ fill ds args
  | none :: ds, [] => fill ds []
  | some c :: ds, args => c :: fill ds args
  | [], _ => []

/-- What a format and its arguments stand for. -/
def fmt (format : String) (args : List Text) : Text := fill (directives format.toList) args

theorem length_fill {ds : List (Option UInt8)} {args : List Text}
    (h : ds.countP Option.isNone = args.length) :
    (fill ds args).length = ds.countP Option.isSome + (args.map List.length).sum := by
  induction ds generalizing args with
  | nil =>
    have hargs : args = [] := by simpa using h.symm
    simp [fill, hargs]
  | cons d ds ih =>
    cases d with
    | none =>
      cases args with
      | nil => simp at h
      | cons a args =>
        have hrest : ds.countP Option.isNone = args.length := by simpa using h
        simp only [fill, List.length_append, ih hrest, List.map_cons, List.sum_cons]
        simp
        omega
    | some c =>
      have hrest : ds.countP Option.isNone = args.length := by simpa using h
      simp only [fill, List.length_cons, ih hrest]
      simp
      omega

/-- A format string, as its characters. -/
theorem fmt_ofList {format : String} {cs : List Char} (hcs : format = String.ofList cs)
    (args : List Text) : fmt format args = fill (directives cs) args := by
  rw [fmt, hcs, String.toList_ofList]

/-- The length of a formatted text: `n` characters besides its arguments. -/
theorem length_fmt {format : String} {cs : List Char} {args : List Text} (n : ℕ)
    (hcs : format = String.ofList cs) (hargs : (directives cs).countP Option.isNone = args.length)
    (hn : (directives cs).countP Option.isSome = n) :
    (fmt format args).length = n + (args.map List.length).sum := by
  rw [fmt_ofList hcs, ← hn]
  exact length_fill hargs

/-- A bound for each argument bounds the formatted text. -/
theorem length_fmt_le {format : String} {cs : List Char} {args : List Text} {bounds : List ℕ} (n : ℕ)
    (hcs : format = String.ofList cs) (hargs : (directives cs).countP Option.isNone = bounds.length)
    (hn : (directives cs).countP Option.isSome = n)
    (h : List.Forall₂ (fun t k => t.length ≤ k) args bounds) :
    (fmt format args).length ≤ n + bounds.sum := by
  have hsum : (args.map List.length).sum ≤ bounds.sum := by
    clear hargs
    induction h with
    | nil => exact le_rfl
    | cons hle _ ih =>
      simp only [List.map_cons, List.sum_cons]
      omega
  rw [length_fmt n hcs (hargs.trans h.length_eq.symm) hn]
  omega

theorem length_digits (n : ℕ) : (digits n).length = (Nat.toDigits 10 n).length := by
  simp [digits]

/-- A number below `10 ^ k` has at most `k` digits. -/
theorem length_digits_le {n k : ℕ} (hk : 0 < k) (h : n < 10 ^ k) : (digits n).length ≤ k := by
  rw [length_digits]
  exact (Nat.length_toDigits_le_iff (by norm_num) hk).mpr h

/-- A number between `- 10 ^ k` and `10 ^ (k + 1)` takes at most `k + 1` characters. -/
theorem length_dec_le {n : ℤ} {k : ℕ} (hk : 0 < k) (hlo : -10 ^ k < n) (hhi : n < 10 ^ (k + 1)) :
    (dec n).length ≤ k + 1 := by
  cases n with
  | ofNat n =>
    have hn : (n : ℤ) < 10 ^ (k + 1) := hhi
    exact length_digits_le (by omega) (by exact_mod_cast hn)
  | negSucc n =>
    have hn : n + 1 < 10 ^ k := by
      rw [Int.negSucc_eq] at hlo
      have h : ((n : ℤ) + 1) < 10 ^ k := by linarith
      exact_mod_cast h
    have hlen := length_digits_le hk hn
    simpa [dec] using hlen

/-- The octets of digits. -/
theorem range_of_mem_digits {n : ℕ} {c : UInt8} (h : c ∈ digits n) : 48 ≤ c.toNat ∧ c.toNat ≤ 57 := by
  obtain ⟨d, hd, rfl⟩ := List.mem_map.mp h
  have hdigit := Nat.isDigit_of_mem_toDigits (by decide) (by decide) hd
  simp only [Char.isDigit, Bool.and_eq_true, decide_eq_true_eq] at hdigit
  have hlo : 48 ≤ d.toNat := hdigit.1
  have hhi : d.toNat ≤ 57 := hdigit.2
  rw [octet, UInt8.toNat_ofNat', Nat.mod_eq_of_lt (by omega)]
  exact ⟨hlo, hhi⟩

/-- The characters of a number are digits, or the sign in front. -/
theorem range_of_mem_dec {n : ℤ} {c : UInt8} (h : c ∈ dec n) :
    c = octet '-' ∨ 48 ≤ c.toNat ∧ c.toNat ≤ 57 := by
  cases n with
  | ofNat n => exact .inr (range_of_mem_digits h)
  | negSucc n =>
    rcases List.mem_cons.mp h with h | h
    · exact .inl h
    · exact .inr (range_of_mem_digits h)

theorem digits_injective : Function.Injective digits := by
  intro n m h
  have hchars : ∀ k, (digits k).map (fun c => Char.ofNat c.toNat) = Nat.toDigits 10 k := by
    intro k
    rw [digits, List.map_map]
    refine (List.map_congr_left fun d hd => ?_).trans (List.map_id _)
    have hrange := range_of_mem_digits (List.mem_map_of_mem (f := octet) hd)
    have hdigit := Nat.isDigit_of_mem_toDigits (by decide) (by decide) hd
    simp only [Char.isDigit, Bool.and_eq_true, decide_eq_true_eq] at hdigit
    have hhi : d.toNat ≤ 57 := hdigit.2
    show Char.ofNat (octet d).toNat = d
    rw [octet, UInt8.toNat_ofNat', Nat.mod_eq_of_lt (by omega), Char.ofNat_toNat]
  have hval := Nat.ofDigitChars_toDigits (b := 10) (n := n) (by decide) (by decide)
  rw [← hchars n, h, hchars m, Nat.ofDigitChars_toDigits (by decide) (by decide)] at hval
  exact hval.symm

/-- **A number** can be read off its text. -/
theorem dec_injective : Function.Injective dec := by
  have hsign : ∀ n, octet '-' ∉ digits n := fun n h => by
    have hrange := range_of_mem_digits h
    exact absurd hrange.1 (by decide)
  intro n m h
  cases n with
  | ofNat n =>
    cases m with
    | ofNat m => exact congrArg Int.ofNat (digits_injective h)
    | negSucc m =>
      have hcons : digits n = octet '-' :: digits (m + 1) := h
      exact absurd (hcons ▸ List.mem_cons_self) (hsign n)
  | negSucc n =>
    cases m with
    | ofNat m =>
      have hcons : octet '-' :: digits (n + 1) = digits m := h
      exact absurd (hcons ▸ List.mem_cons_self) (hsign m)
    | negSucc m =>
      have hsame := digits_injective (List.cons.inj h).2
      rw [show n = m by omega]

/-! ### Writing at an offset -/

/-- A buffer of `size` characters: the C string in it, the offset of the next write, and the largest
offset that a write has had. -/
structure Buffer where
  size : ℕ
  text : Text
  pos : ℕ
  reach : ℕ
  deriving DecidableEq

/-- A fresh buffer. -/
def Buffer.new (size : ℕ) : Buffer := ⟨size, [], 0, 0⟩

/-- `pos += snprintf(out + pos, size - pos, ...)`. -/
def Buffer.snprintf (b : Buffer) (t : Text) : Buffer :=
  let b := { b with reach := max b.reach b.pos }
  if b.size ≤ b.pos then
    -- nothing is left, or `size - pos` has wrapped around
    { b with pos := b.pos + t.length }
  else
    { b with
      text := b.text.take b.pos ++ t.take (b.size - b.pos - 1)
      pos := b.pos + t.length }

/-- One write after the other. -/
def Buffer.writes (b : Buffer) (ts : List Text) : Buffer := ts.foldl Buffer.snprintf b

/-- A write started past the end. -/
def Buffer.wild (b : Buffer) : Bool := decide (b.size < b.reach)

/-- What a buffer of `size` characters holds when `done` has been written to it. -/
structure Written (size : ℕ) (done : Text) (b : Buffer) : Prop where
  size_eq : b.size = size
  pos_eq : b.pos = done.length
  text_eq : b.text = done.take (size - 1)

theorem Written.new (size : ℕ) : Written size [] (Buffer.new size) := ⟨rfl, rfl, by simp [Buffer.new]⟩

/-- A write, which leaves the buffer as it is when it starts past the end. -/
theorem Written.snprintf {size : ℕ} {done : Text} {b : Buffer} (h : Written size done b) (t : Text) :
    Written size (done ++ t) (b.snprintf t) := by
  obtain ⟨hsize, hp, htext⟩ := h
  unfold Buffer.snprintf
  simp only [hsize, hp]
  split
  · next heq =>
    refine ⟨rfl, by simp, ?_⟩
    show b.text = _
    rw [htext, List.take_append_of_le_length (by omega)]
  · next hne =>
    refine ⟨rfl, by simp, ?_⟩
    show b.text.take done.length ++ _ = _
    rw [htext, List.take_take, List.take_append, Nat.min_eq_left (by omega), List.take_length,
      List.take_of_length_le (show done.length ≤ size - 1 by omega)]
    congr 2
    omega

theorem reach_snprintf (b : Buffer) (t : Text) : (b.snprintf t).reach = max b.reach b.pos := by
  unfold Buffer.snprintf
  dsimp only
  split <;> rfl

theorem size_snprintf (b : Buffer) (t : Text) : (b.snprintf t).size = b.size := by
  unfold Buffer.snprintf
  dsimp only
  split <;> rfl

theorem pos_snprintf (b : Buffer) (t : Text) : (b.snprintf t).pos = b.pos + t.length := by
  unfold Buffer.snprintf
  dsimp only
  split <;> rfl

theorem writes_append (b : Buffer) (ts us : List Text) :
    b.writes (ts ++ us) = (b.writes ts).writes us := List.foldl_append

theorem size_writes (b : Buffer) (ts : List Text) : (b.writes ts).size = b.size := by
  induction ts generalizing b with
  | nil => rfl
  | cons t ts ih => exact (ih _).trans (size_snprintf b t)

theorem pos_writes (b : Buffer) (ts : List Text) :
    (b.writes ts).pos = b.pos + ts.flatten.length := by
  induction ts generalizing b with
  | nil => rfl
  | cons t ts ih =>
    show ((b.snprintf t).writes ts).pos = _
    rw [ih, pos_snprintf, List.flatten_cons, List.length_append]
    omega

theorem reach_le_pos {b : Buffer} (h : b.reach ≤ b.pos) (ts : List Text) :
    (b.writes ts).reach ≤ (b.writes ts).pos := by
  induction ts generalizing b with
  | nil => exact h
  | cons t ts ih =>
    refine ih ?_
    rw [reach_snprintf, pos_snprintf]
    omega

/-- The last write has the largest offset: it starts after everything else. -/
theorem reach_writes_concat (size : ℕ) (ts : List Text) (t : Text) :
    ((Buffer.new size).writes (ts ++ [t])).reach = ts.flatten.length := by
  have hle := reach_le_pos (show (Buffer.new size).reach ≤ (Buffer.new size).pos from le_rfl) ts
  have hpos := pos_writes (Buffer.new size) ts
  rw [writes_append]
  show (((Buffer.new size).writes ts).snprintf t).reach = _
  rw [reach_snprintf, max_eq_right hle, hpos]
  simp [Buffer.new]

theorem Written.writes {size : ℕ} {done : Text} {b : Buffer} (h : Written size done b) (ts : List Text) :
    Written size (done ++ ts.flatten) (b.writes ts) := by
  induction ts generalizing b done with
  | nil => simpa [Buffer.writes] using h
  | cons t ts ih =>
    have hnext := ih (h.snprintf t)
    rwa [List.append_assoc] at hnext

/-- **What a fresh buffer holds** after some writes. -/
theorem written_writes (size : ℕ) (ts : List Text) :
    Written size ts.flatten ((Buffer.new size).writes ts) := by
  simpa using (Written.new size).writes ts

/-- No write starts past the end when all but the last stay inside. -/
theorem wild_writes_concat (size : ℕ) (ts : List Text) (t : Text) :
    ((Buffer.new size).writes (ts ++ [t])).wild = decide (size < ts.flatten.length) := by
  have hsize := size_writes (Buffer.new size) (ts ++ [t])
  rw [Buffer.wild, hsize, reach_writes_concat]
  rfl

/-- One text in a fresh buffer. -/
theorem text_snprintf_new (size : ℕ) (t : Text) : ((Buffer.new size).snprintf t).text = t.take (size - 1) := by
  have h := ((Written.new size).snprintf t).text_eq
  simpa using h

theorem text_snprintf {size : ℕ} {t : Text} (h : t.length < size) :
    ((Buffer.new size).snprintf t).text = t := by
  rw [text_snprintf_new, List.take_of_length_le (by omega)]

theorem wild_snprintf_new (size : ℕ) (t : Text) : ((Buffer.new size).snprintf t).wild = false := by
  simp [Buffer.wild, reach_snprintf, Buffer.new]

/-! ### Bounded concatenation -/

/-- `strncat(out, t, size - strlen(out) - 1)`. -/
def strncat (size : ℕ) (out t : Text) : Text := out ++ t.take (size - out.length - 1)

/-- Concatenation keeps what fits. -/
theorem foldl_strncat {size : ℕ} {out : Text} (h : out.length < size) (ts : List Text) :
    ts.foldl (strncat size) out = (out ++ ts.flatten).take (size - 1) := by
  induction ts generalizing out with
  | nil => simp [List.take_of_length_le (show out.length ≤ size - 1 by omega)]
  | cons t ts ih =>
    have hlt : (strncat size out t).length < size := by
      simp only [strncat, List.length_append, List.length_take]
      omega
    rw [List.foldl_cons, ih hlt, List.flatten_cons, ← List.append_assoc]
    have hcat : strncat size out t = (out ++ t).take (size - 1) := by
      rw [strncat, List.take_append, List.take_of_length_le (show out.length ≤ size - 1 by omega)]
      congr 2
      omega
    have hrest : (out ++ t ++ ts.flatten).take (size - 1) =
        (out ++ t).take (size - 1) ++ ts.flatten.take (size - 1 - (out ++ t).length) :=
      List.take_append
    rw [hcat, List.take_append, List.take_take, Nat.min_self, hrest]
    congr 1
    by_cases hfit : (out ++ t).length ≤ size - 1
    · rw [List.take_of_length_le hfit]
    · have hfull : ((out ++ t).take (size - 1)).length = size - 1 := by
        rw [List.length_take]
        omega
      rw [hfull]
      have hzero : size - 1 - (out ++ t).length = 0 := by omega
      rw [hzero]
      simp

end CText
