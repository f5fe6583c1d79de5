import SecChat.Library.CText

/-!
# Reading JSON octet by octet

A JSON text is read by a machine that takes one octet at a time and keeps the arrays and objects that
are open on a stack, so that a text can be cut anywhere.  Strings are octet strings: an octet from 0x80
on stands for itself, and an escape for the UTF-8 octets of its character; the escape of a lone
surrogate is refused.  A number keeps its literal.  Repeated keys are kept; `Value.get` takes the last
one.

* `parse`: the value of a whole text;
* `run_append`, `run_below`: a text in pieces, and a text read inside another one;
* `Content`, `Reads`, `Whole`: what stands between quotes for a string, where a value is expected for a
  value, and what does so without looking further;
* `reads_quoted`, `reads_dec`, `reads_of_parse`, `whole_arrText`, `whole_objText`: how texts are put
  together;
* `parse_cut`: a text that was cut short is no JSON text.
-/

namespace JsonReader

open CText

/-! ### Values -/

/-- A JSON value. -/
inductive Value
  | null
  | bool (b : Bool)
  | num (literal : Text)
  | str (s : Text)
  | arr (items : List Value)
  | obj (members : List (Text × Value))

/-- A whole number. -/
def Value.int (n : ℤ) : Value := .num (dec n)

/-- The member of an object with a key; the last one wins. -/
def Value.get (v : Value) (key : Text) : Option Value :=
  match v with
  | .obj members => (members.reverse.find? (·.1 = key)).map Prod.snd
  | _ => none

/-- Members with other keys make no difference. -/
theorem get_obj_append {ms rest : List (Text × Value)} {key : Text} (h : ∀ m ∈ rest, m.1 ≠ key) :
    (Value.obj (ms ++ rest)).get key = (Value.obj ms).get key := by
  have hnone : rest.reverse.find? (·.1 = key) = none := by
    simpa [List.find?_eq_none] using h
  simp [Value.get, List.find?_append, hnone]

/-! ### The machine -/

def quote : UInt8 := 0x22
def backslash : UInt8 := 0x5c
def comma : UInt8 := 0x2c
def colon : UInt8 := 0x3a
def lbracket : UInt8 := 0x5b
def rbracket : UInt8 := 0x5d
def lbrace : UInt8 := 0x7b
def rbrace : UInt8 := 0x7d

/-- White space. -/
def isSpace (c : UInt8) : Bool := c = 0x20 ∨ c = 0x09 ∨ c = 0x0a ∨ c = 0x0d

def isDigit (c : UInt8) : Bool := 0x30 ≤ c ∧ c ≤ 0x39

/-- How far a number has been read. -/
inductive Phase
  | minus
  | zero
  | int
  | point
  | frac
  | exp
  | sign
  | power
  deriving DecidableEq

/-- The next octet of a number. -/
def Phase.next (p : Phase) (c : UInt8) : Option Phase :=
  match p with
  | .minus => if c = 0x30 then some .zero else if isDigit c then some .int else none
  | .zero => if c = 0x2e then some .point else if c = 0x65 ∨ c = 0x45 then some .exp else none
  | .int =>
      if isDigit c then some .int
      else if c = 0x2e then some .point else if c = 0x65 ∨ c = 0x45 then some .exp else none
  | .point => if isDigit c then some .frac else none
  | .frac => if isDigit c then some .frac else if c = 0x65 ∨ c = 0x45 then some .exp else none
  | .exp => if c = 0x2b ∨ c = 0x2d then some .sign else if isDigit c then some .power else none
  | .sign | .power => if isDigit c then some .power else none

/-- A number may end here. -/
def Phase.final : Phase → Bool
  | .zero | .int | .frac | .power => true
  | .minus | .point | .exp | .sign => false

/-- An array or object that is open: what it holds so far, and the key of the member being read. -/
inductive Ctx
  | arr (items : List Value)
  | obj (members : List (Text × Value)) (key : Text)

/-- What a string is: a value, or the next key of an object. -/
inductive Target
  | value
  | key (members : List (Text × Value))

/-- Where the reader is. -/
inductive Mode
  | value
  /-- After an opening bracket. -/
  | item
  /-- After an opening brace, or after a comma in an object. -/
  | member
  | key (members : List (Text × Value))
  | colon (members : List (Text × Value)) (key : Text)
  | string (t : Target) (s : Text)
  | escape (t : Target) (s : Text)
  /-- In an escape with four digits, after the first half of a surrogate pair if there is one. -/
  | unicode (t : Target) (s : Text) (high : Option ℕ) (digits : List ℕ)
  | half (t : Target) (s : Text) (high : ℕ)
  | halfEscape (t : Target) (s : Text) (high : ℕ)
  | number (literal : Text) (p : Phase)
  | word (rest : Text) (v : Value)
  | after (v : Value)

/-- The open arrays and objects, the innermost first, and the mode. -/
structure State where
  stack : List Ctx
  mode : Mode

/-- What a backslash and an octet stand for. -/
def unescape (c : UInt8) : Option UInt8 :=
  if c = quote ∨ c = backslash ∨ c = 0x2f then some c
  else if c = 0x62 then some 0x08
  else if c = 0x66 then some 0x0c
  else if c = 0x6e then some 0x0a
  else if c = 0x72 then some 0x0d
  else if c = 0x74 then some 0x09
  else none

/-- The value of a hexadecimal digit. -/
def hexDigit (c : UInt8) : Option ℕ :=
  if isDigit c then some (c.toNat - 48)
  else if 0x61 ≤ c ∧ c ≤ 0x66 then some (c.toNat - 87)
  else if 0x41 ≤ c ∧ c ≤ 0x46 then some (c.toNat - 55)
  else none

/-- The UTF-8 octets of a character. -/
def utf8 (n : ℕ) : Text :=
  if n < 0x80 then [UInt8.ofNat n]
  else if n < 0x800 then [UInt8.ofNat (0xc0 + n / 0x40), UInt8.ofNat (0x80 + n % 0x40)]
  else if n < 0x10000 then
    [UInt8.ofNat (0xe0 + n / 0x1000), UInt8.ofNat (0x80 + n / 0x40 % 0x40),
      UInt8.ofNat (0x80 + n % 0x40)]
  else
    [UInt8.ofNat (0xf0 + n / 0x40000), UInt8.ofNat (0x80 + n / 0x1000 % 0x40),
      UInt8.ofNat (0x80 + n / 0x40 % 0x40), UInt8.ofNat (0x80 + n % 0x40)]

/-- The end of an escape with four digits. -/
def endUnicode (t : Target) (s : Text) (high : Option ℕ) (n : ℕ) : Option Mode :=
  match high with
  | none =>
      if 0xd800 ≤ n ∧ n < 0xdc00 then some (.half t s n)
      else if 0xdc00 ≤ n ∧ n < 0xe000 then none
      else some (.string t (s ++ utf8 n))
  | some h =>
      if 0xdc00 ≤ n ∧ n < 0xe000 then
        some (.string t (s ++ utf8 (0x10000 + (h - 0xd800) * 0x400 + (n - 0xdc00))))
      else none

/-- The first octet of a value: what it opens, and the mode. -/
def first (c : UInt8) : Option (List Ctx × Mode) :=
  if c = quote then some ([], .string .value [])
  else if c = lbracket then some ([.arr []], .item)
  else if c = lbrace then some ([], .member)
  else if c = 0x2d then some ([], .number [c] .minus)
  else if c = 0x30 then some ([], .number [c] .zero)
  else if isDigit c then some ([], .number [c] .int)
  else if c = 0x6e then some ([], .word (ascii "ull") .null)
  else if c = 0x74 then some ([], .word (ascii "rue") (.bool true))
  else if c = 0x66 then some ([], .word (ascii "alse") (.bool false))
  else if isSpace c then some ([], .value)
  else none

/-- An octet where a value is expected. -/
def enter (stack : List Ctx) (c : UInt8) : Option State :=
  (first c).map fun (opened, mode) => ⟨opened ++ stack, mode⟩

/-- An octet after a value. -/
def close (stack : List Ctx) (v : Value) (c : UInt8) : Option State :=
  if isSpace c then some ⟨stack, .after v⟩
  else
    match stack with
    | .arr items :: stack =>
        if c = comma then some ⟨.arr (items ++ [v]) :: stack, .value⟩
        else if c = rbracket then some ⟨stack, .after (.arr (items ++ [v]))⟩
        else none
    | .obj members key :: stack =>
        if c = comma then some ⟨stack, .key (members ++ [(key, v)])⟩
        else if c = rbrace then some ⟨stack, .after (.obj (members ++ [(key, v)]))⟩
        else none
    | [] => none

/-- The end of a string. -/
def endString (t : Target) (s : Text) : Mode :=
  match t with
  | .value => .after (.str s)
  | .key members => .colon members s

/-- One octet. -/
def step (st : State) (c : UInt8) : Option State :=
  match st.mode with
  | .value => enter st.stack c
  | .item =>
      match st.stack with
      | .arr _ :: stack =>
          if c = rbracket then some ⟨stack, .after (.arr [])⟩
          else if isSpace c then some st
          else enter st.stack c
      | _ => none
  | .member =>
      if c = rbrace then some ⟨st.stack, .after (.obj [])⟩
      else if c = quote then some ⟨st.stack, .string (.key []) []⟩
      else if isSpace c then some st
      else none
  | .key members =>
      if c = quote then some ⟨st.stack, .string (.key members) []⟩
      else if isSpace c then some st
      else none
  | .colon members key =>
      if c = colon then some ⟨.obj members key :: st.stack, .value⟩
      else if isSpace c then some st
      else none
  | .string t s =>
      if c = quote then some ⟨st.stack, endString t s⟩
      else if c = backslash then some ⟨st.stack, .escape t s⟩
      else if c < 0x20 then none
      else some ⟨st.stack, .string t (s ++ [c])⟩
  | .escape t s =>
      if c = 0x75 then some ⟨st.stack, .unicode t s none []⟩
      else (unescape c).map fun d => ⟨st.stack, .string t (s ++ [d])⟩
  | .unicode t s high digits =>
      (hexDigit c).bind fun d =>
        match digits with
        | [x, y, z] =>
            (endUnicode t s high (((x * 16 + y) * 16 + z) * 16 + d)).map fun m => ⟨st.stack, m⟩
        | _ => some ⟨st.stack, .unicode t s high (digits ++ [d])⟩
  | .half t s high => if c = backslash then some ⟨st.stack, .halfEscape t s high⟩ else none
  | .halfEscape t s high => if c = 0x75 then some ⟨st.stack, .unicode t s (some high) []⟩ else none
  | .number literal p =>
      match p.next c with
      | some p => some ⟨st.stack, .number (literal ++ [c]) p⟩
      | none => if p.final then close st.stack (.num literal) c else none
  | .word [] v => close st.stack v c
  | .word (d :: rest) v => if c = d then some ⟨st.stack, .word rest v⟩ else none
  | .after v => close st.stack v c

/-- All octets of a text. -/
def run (st : State) : Text → Option State
  | [] => some st
  | c :: text => (step st c).bind fun st => run st text

/-- The value that has been read, when nothing is open. -/
def State.result (st : State) : Option Value :=
  match st.stack, st.mode with
  | [], .after v => some v
  | [], .number literal p => if p.final then some (.num literal) else none
  | [], .word [] v => some v
  | _, _ => none

/-- The value of a JSON text. -/
def parse (text : Text) : Option Value := (run ⟨[], .value⟩ text).bind State.result

/-! ### Texts in pieces -/

theorem run_append (st : State) (s t : Text) :
    run st (s ++ t) = (run st s).bind fun st => run st t := by
  induction s generalizing st with
  | nil => rfl
  | cons c s ih => simp only [List.cons_append, run, ih, Option.bind_assoc]

/-- The state with more open arrays and objects around it. -/
def State.below (st : State) (outer : List Ctx) : State := ⟨st.stack ++ outer, st.mode⟩

theorem enter_below {stack outer : List Ctx} {c : UInt8} {st : State}
    (h : enter stack c = some st) : enter (stack ++ outer) c = some (st.below outer) := by
  obtain ⟨⟨opened, mode⟩, hfirst, rfl⟩ := Option.map_eq_some_iff.mp h
  simp [enter, hfirst, State.below]

theorem close_below {stack outer : List Ctx} {v : Value} {c : UInt8} {st : State}
    (h : close stack v c = some st) : close (stack ++ outer) v c = some (st.below outer) := by
  unfold close at h ⊢
  by_cases hs : isSpace c = true
  · rw [if_pos hs] at h ⊢
    obtain rfl := Option.some.inj h
    rfl
  · rw [if_neg hs] at h ⊢
    cases stack with
    | nil => cases h
    | cons ctx stack =>
      cases ctx with
      | arr items =>
        simp only [List.cons_append] at h ⊢
        split_ifs at h ⊢ with h₁ h₂ <;> obtain rfl := Option.some.inj h <;> rfl
      | obj members key =>
        simp only [List.cons_append] at h ⊢
        split_ifs at h ⊢ with h₁ h₂ <;> obtain rfl := Option.some.inj h <;> rfl

theorem step_below {st st' : State} {outer : List Ctx} {c : UInt8} (h : step st c = some st') :
    step (st.below outer) c = some (st'.below outer) := by
  obtain ⟨stack, mode⟩ := st
  cases mode with
  | value => exact enter_below h
  | item =>
    cases stack with
    | nil => cases h
    | cons ctx stack =>
      cases ctx with
      | arr items =>
        simp only [step, State.below, List.cons_append] at h ⊢
        by_cases hr : c = rbracket
        · rw [if_pos hr] at h ⊢
          obtain rfl := Option.some.inj h
          rfl
        · rw [if_neg hr] at h ⊢
          by_cases hs : isSpace c = true
          · rw [if_pos hs] at h ⊢
            obtain rfl := Option.some.inj h
            rfl
          · rw [if_neg hs] at h ⊢
            exact enter_below h
      | obj members key => cases h
  | member | key members | colon members key | string t s | half t s high | halfEscape t s high =>
    simp only [step, State.below] at h ⊢
    split_ifs at h ⊢ <;> obtain rfl := Option.some.inj h <;> rfl
  | escape t s =>
    simp only [step, State.below] at h ⊢
    by_cases hu : c = 0x75
    · rw [if_pos hu] at h ⊢
      obtain rfl := Option.some.inj h
      rfl
    · rw [if_neg hu] at h ⊢
      obtain ⟨d, hd, rfl⟩ := Option.map_eq_some_iff.mp h
      rw [hd]
      rfl
  | unicode t s high digits =>
    simp only [step, State.below] at h ⊢
    obtain ⟨d, hd, h⟩ := Option.bind_eq_some_iff.mp h
    rw [hd, Option.bind_some]
    split at h
    · obtain ⟨m, hm, rfl⟩ := Option.map_eq_some_iff.mp h
      simp [hm]
    · next hdigits =>
      obtain rfl := Option.some.inj h
      rfl
  | number literal p =>
    simp only [step, State.below] at h ⊢
    cases hp : p.next c with
    | some q =>
      rw [hp] at h
      obtain rfl := Option.some.inj h
      rfl
    | none =>
      rw [hp] at h
      simp only at h ⊢
      by_cases hf : p.final = true
      · rw [if_pos hf] at h ⊢
        exact close_below h
      · rw [if_neg hf] at h
        cases h
  | word rest v =>
    cases rest with
    | nil => exact close_below h
    | cons d rest =>
      simp only [step, State.below] at h ⊢
      split_ifs at h ⊢
      obtain rfl := Option.some.inj h
      rfl
  | after v => exact close_below h

/-- What is read inside other arrays and objects is read there in the same way. -/
theorem run_below {st st' : State} {outer : List Ctx} {text : Text} (h : run st text = some st') :
    run (st.below outer) text = some (st'.below outer) := by
  induction text generalizing st with
  | nil =>
    obtain rfl := Option.some.inj h
    rfl
  | cons c text ih =>
    obtain ⟨mid, hstep, hrest⟩ := Option.bind_eq_some_iff.mp h
    rw [run, step_below hstep, Option.bind_some]
    exact ih hrest

/-! ### Strings -/

/-- Between quotes, `t` stands for the string `s`. -/
def Content (t s : Text) : Prop :=
  ∀ stack target acc, run ⟨stack, .string target acc⟩ t = some ⟨stack, .string target (acc ++ s)⟩

theorem Content.nil : Content [] [] := by
  intro stack target acc
  simp [run]

theorem Content.append {t t' s s' : Text} (h : Content t s) (h' : Content t' s') :
    Content (t ++ t') (s ++ s') := by
  intro stack target acc
  rw [run_append, h, Option.bind_some, h', List.append_assoc]

/-- An octet that stands for itself between quotes. -/
def Plain (c : UInt8) : Prop := c ≠ quote ∧ c ≠ backslash ∧ ¬ c < 0x20

instance (c : UInt8) : Decidable (Plain c) := inferInstanceAs (Decidable (_ ∧ _ ∧ _))

instance (t : Text) : Decidable (∀ c ∈ t, Plain c) := List.decidableBAll Plain t

theorem content_single {c : UInt8} (h : Plain c) : Content [c] [c] := by
  intro stack target acc
  obtain ⟨hquote, hback, hctl⟩ := h
  simp [run, step, hquote, hback, hctl]

theorem content_of_plain {t : Text} (h : ∀ c ∈ t, Plain c) : Content t t := by
  induction t with
  | nil => exact Content.nil
  | cons c t ih =>
    have hc := content_single (h c List.mem_cons_self)
    exact hc.append (ih fun d hd => h d (List.mem_cons_of_mem c hd))

/-- A string with its quotes. -/
def quoted (t : Text) : Text := quote :: t ++ [quote]

/-! ### Values inside other values -/

/-- Where a value is expected, `t` is read as `v` when something that ends a value follows. -/
def Reads (t : Text) (v : Value) : Prop :=
  ∀ stack c, c = comma ∨ c = rbracket ∨ c = rbrace →
    run ⟨stack, .value⟩ (t ++ [c]) = close stack v c

/-- `t` is read as `v` whatever follows. -/
def Whole (t : Text) (v : Value) : Prop :=
  ∀ stack, run ⟨stack, .value⟩ t = some ⟨stack, .after v⟩

theorem Whole.reads {t : Text} {v : Value} (h : Whole t v) : Reads t v := by
  intro stack c _
  rw [run_append, h, Option.bind_some]
  simp [run, step]

theorem Whole.parse {t : Text} {v : Value} (h : Whole t v) : parse t = some v := by
  rw [JsonReader.parse, h, Option.bind_some]
  rfl

theorem whole_quoted {t s : Text} (h : Content t s) : Whole (quoted t) (.str s) := by
  intro stack
  have hopen : run ⟨stack, .value⟩ [quote] = some ⟨stack, .string .value []⟩ := rfl
  rw [quoted, ← List.singleton_append, List.append_assoc, run_append, hopen, Option.bind_some,
    run_append, h, Option.bind_some, List.nil_append]
  rfl

theorem reads_quoted {t s : Text} (h : Content t s) : Reads (quoted t) (.str s) :=
  (whole_quoted h).reads

theorem Phase.next_of_end {p : Phase} {c : UInt8} (hc : c = comma ∨ c = rbracket ∨ c = rbrace) :
    p.next c = none := by
  rcases hc with rfl | rfl | rfl <;> cases p <;> rfl

theorem step_number_of_end {stack : List Ctx} {literal : Text} {p : Phase} {c : UInt8}
    (hp : p.final = true) (hc : c = comma ∨ c = rbracket ∨ c = rbrace) :
    step ⟨stack, .number literal p⟩ c = close stack (.num literal) c := by
  simp [step, Phase.next_of_end hc, hp]

/-- What a text stands for, it stands for inside other texts. -/
theorem reads_of_parse {t : Text} {v : Value} (h : parse t = some v) : Reads t v := by
  intro stack c hc
  obtain ⟨st, hrun, hres⟩ := Option.bind_eq_some_iff.mp h
  have hbelow := @run_below _ _ stack _ hrun
  simp only [State.below, List.nil_append] at hbelow
  rw [run_append, hbelow, Option.bind_some]
  obtain ⟨inner, mode⟩ := st
  unfold State.result at hres
  split at hres
  · next hstack hmode =>
    obtain rfl := Option.some.inj hres
    simp only at hstack hmode
    simp [hstack, hmode, run, step]
  · next literal p hstack hmode =>
    simp only at hstack hmode
    split at hres
    · next hp =>
      obtain rfl := Option.some.inj hres
      simp [hstack, hmode, run, step_number_of_end hp hc]
    · cases hres
  · next hstack hmode =>
    obtain rfl := Option.some.inj hres
    simp only at hstack hmode
    simp [hstack, hmode, run, step]
  · cases hres

theorem reads_true : Reads (ascii "true") (.bool true) := reads_of_parse rfl
theorem reads_false : Reads (ascii "false") (.bool false) := reads_of_parse rfl
theorem reads_null : Reads (ascii "null") .null := reads_of_parse rfl

/-! ### Numbers -/

theorem digits_of_lt {n : ℕ} (h : n < 10) : digits n = [octet n.digitChar] := by
  simp [digits, Nat.toDigits_of_lt_base h]

theorem digits_of_le {n : ℕ} (h : 10 ≤ n) : digits n = digits (n / 10) ++ digits (n % 10) := by
  rw [digits_of_lt (Nat.mod_lt n (by omega)), digits, Nat.toDigits_of_base_le (by omega) h]
  simp [digits]

/-- The digits of a positive number, from a state that takes a first digit. -/
theorem run_digits {stack : List Ctx} {st : State} {literal : Text}
    (hst : ∀ d, 0 < d → d < 10 →
      step st (octet d.digitChar) = some ⟨stack, .number (literal ++ [octet d.digitChar]) .int⟩)
    {n : ℕ} (hn : 0 < n) : run st (digits n) = some ⟨stack, .number (literal ++ digits n) .int⟩ := by
  induction n using Nat.strong_induction_on with
  | _ n ih =>
    by_cases h : n < 10
    · rw [digits_of_lt h, run, hst n hn h]
      rfl
    · have hdigit : ∀ (d : ℕ) (l : Text), d < 10 →
          step ⟨stack, .number l .int⟩ (octet d.digitChar) =
            some ⟨stack, .number (l ++ [octet d.digitChar]) .int⟩ := by
        intro d l hd
        interval_cases d <;> rfl
      rw [digits_of_le (by omega), run_append, ih (n / 10) (by omega) (by omega), Option.bind_some,
        digits_of_lt (Nat.mod_lt n (by omega)), run, hdigit _ _ (Nat.mod_lt n (by omega))]
      simp [run]

/-- Where a value is expected, a printed number is read as a number that may end. -/
theorem run_dec (stack : List Ctx) (n : ℤ) :
    ∃ p : Phase, p.final = true ∧ run ⟨stack, .value⟩ (dec n) = some ⟨stack, .number (dec n) p⟩ := by
  cases n with
  | ofNat n =>
    rcases Nat.eq_zero_or_pos n with rfl | hn
    · exact ⟨.zero, rfl, rfl⟩
    · refine ⟨.int, rfl, ?_⟩
      have hst : ∀ d, 0 < d → d < 10 → step ⟨stack, .value⟩ (octet d.digitChar) =
          some ⟨stack, .number ([] ++ [octet d.digitChar]) .int⟩ := by
        intro d hpos hd
        interval_cases d <;> rfl
      exact run_digits hst hn
  | negSucc n =>
    refine ⟨.int, rfl, ?_⟩
    have hst : ∀ d, 0 < d → d < 10 → step ⟨stack, .number [octet '-'] .minus⟩ (octet d.digitChar) =
        some ⟨stack, .number ([octet '-'] ++ [octet d.digitChar]) .int⟩ := by
      intro d hpos hd
      interval_cases d <;> rfl
    exact run_digits hst (Nat.succ_pos n)

theorem reads_dec (n : ℤ) : Reads (dec n) (.int n) := by
  intro stack c hc
  obtain ⟨p, hp, hrun⟩ := run_dec stack n
  simp [run_append, hrun, run, step_number_of_end hp hc, Value.int]

/-! ### Arrays and objects -/

/-- Texts with commas between them. -/
def join : List Text → Text
  | [] => []
  | t :: ts => t ++ ts.flatMap (comma :: ·)

/-- An array of texts. -/
def arrText (items : List Text) : Text := lbracket :: (join items ++ [rbracket])

/-- A member of an object. -/
def memberText (key t : Text) : Text := quoted key ++ colon :: t

/-- An object of texts. -/
def objText (members : List (Text × Text)) : Text :=
  lbrace :: (join (members.map fun (key, t) => memberText key t) ++ [rbrace])

/-- The items of an array that is open, up to its end. -/
theorem run_items {stack : List Ctx} {items vs : List Value} {v : Value} {t : Text} {ts : List Text}
    (h : Reads t v) (hs : List.Forall₂ Reads ts vs) :
    run ⟨.arr items :: stack, .value⟩ (t ++ (ts.flatMap (comma :: ·) ++ [rbracket])) =
      some ⟨stack, .after (.arr (items ++ v :: vs))⟩ := by
  induction hs generalizing t v items with
  | nil =>
    rw [List.flatMap_nil, List.nil_append, h _ _ (by simp)]
    rfl
  | @cons t' v' ts vs h' hs ih =>
    have hsplit : t ++ ((t' :: ts).flatMap (comma :: ·) ++ [rbracket]) =
        (t ++ [comma]) ++ (t' ++ (ts.flatMap (comma :: ·) ++ [rbracket])) := by simp
    have hclose : close (.arr items :: stack) v comma =
        some ⟨.arr (items ++ [v]) :: stack, .value⟩ := rfl
    rw [hsplit, run_append, h _ _ (by simp), hclose, Option.bind_some, ih h']
    simp

/-- After an opening bracket a first item is read as anywhere else. -/
theorem run_item {stack stack' : List Ctx} {t : Text} {v : Value}
    (h : run ⟨.arr [] :: stack, .value⟩ t = some ⟨stack', .after v⟩) :
    run ⟨.arr [] :: stack, .item⟩ t = some ⟨stack', .after v⟩ := by
  induction t with
  | nil => simp [run] at h
  | cons c t ih =>
    obtain ⟨mid, hstep, hrest⟩ := Option.bind_eq_some_iff.mp h
    have hr : c ≠ rbracket := by
      rintro rfl
      cases hstep
    by_cases hs : isSpace c = true
    · have hmid : mid = ⟨.arr [] :: stack, .value⟩ := by
        have hfirst : first c = some ([], .value) := by
          rcases (by simpa [isSpace] using hs) with rfl | rfl | rfl | rfl <;> rfl
        simp only [step, enter, hfirst, Option.map_some, Option.some.injEq] at hstep
        exact hstep.symm
      have hitem : step ⟨.arr [] :: stack, .item⟩ c = some ⟨.arr [] :: stack, .item⟩ := by
        simp [step, hr, hs]
      rw [run, hitem, Option.bind_some]
      exact ih (hmid ▸ hrest)
    · have hitem : step ⟨.arr [] :: stack, .item⟩ c = step ⟨.arr [] :: stack, .value⟩ c := by
        simp [step, hr, hs]
      rw [run, hitem, hstep, Option.bind_some]
      exact hrest

theorem whole_arrText {ts : List Text} {vs : List Value} (h : List.Forall₂ Reads ts vs) :
    Whole (arrText ts) (.arr vs) := by
  intro stack
  have hopen : step ⟨stack, .value⟩ lbracket = some ⟨.arr [] :: stack, .item⟩ := rfl
  rw [arrText, run, hopen, Option.bind_some]
  cases h with
  | nil => rfl
  | cons ht hts =>
    rw [join, List.append_assoc]
    exact run_item (run_items ht hts)

/-- A member, up to its value. -/
theorem run_key {stack : List Ctx} {members : List (Text × Value)} {key k : Text}
    (hkey : Content key k) :
    run ⟨stack, .key members⟩ (quoted key ++ [colon]) = some ⟨.obj members k :: stack, .value⟩ := by
  have hopen : run ⟨stack, .key members⟩ [quote] = some ⟨stack, .string (.key members) []⟩ := rfl
  rw [quoted, ← List.singleton_append, List.append_assoc, List.append_assoc, run_append, hopen,
    Option.bind_some, run_append, hkey, Option.bind_some, List.nil_append]
  rfl

/-- The text of a member stands for a key and a value. -/
def MemberReads (m : Text × Text) (kv : Text × Value) : Prop := Content m.1 kv.1 ∧ Reads m.2 kv.2

theorem run_member {stack : List Ctx} {members : List (Text × Value)} {m : Text × Text}
    {kv : Text × Value} {c : UInt8} (h : MemberReads m kv) (hc : c = comma ∨ c = rbracket ∨ c = rbrace) :
    run ⟨stack, .key members⟩ (memberText m.1 m.2 ++ [c]) = close (.obj members kv.1 :: stack) kv.2 c := by
  have hsplit : memberText m.1 m.2 ++ [c] = (quoted m.1 ++ [colon]) ++ (m.2 ++ [c]) := by
    simp [memberText]
  rw [hsplit, run_append, run_key h.1, Option.bind_some, h.2 _ _ hc]

/-- The members of an object that is open, up to its end. -/
theorem run_members {stack : List Ctx} {members kvs : List (Text × Value)} {kv : Text × Value}
    {m : Text × Text} {ms : List (Text × Text)} (h : MemberReads m kv)
    (hs : List.Forall₂ MemberReads ms kvs) :
    run ⟨stack, .key members⟩ (memberText m.1 m.2 ++
        ((ms.map fun (key, t) => memberText key t).flatMap (comma :: ·) ++ [rbrace])) =
      some ⟨stack, .after (.obj (members ++ kv :: kvs))⟩ := by
  induction hs generalizing m kv members with
  | nil =>
    rw [List.map_nil, List.flatMap_nil, List.nil_append, run_member h (by simp)]
    rfl
  | @cons m' kv' ms kvs h' hs ih =>
    have hsplit : memberText m.1 m.2 ++
        (((m' :: ms).map fun (key, t) => memberText key t).flatMap (comma :: ·) ++ [rbrace]) =
        (memberText m.1 m.2 ++ [comma]) ++ (memberText m'.1 m'.2 ++
          ((ms.map fun (key, t) => memberText key t).flatMap (comma :: ·) ++ [rbrace])) := by simp
    have hclose : close (.obj members kv.1 :: stack) kv.2 comma =
        some ⟨stack, .key (members ++ [kv])⟩ := rfl
    rw [hsplit, run_append, run_member h (by simp), hclose, Option.bind_some, ih h']
    simp

theorem whole_objText {ms : List (Text × Text)} {kvs : List (Text × Value)}
    (h : List.Forall₂ MemberReads ms kvs) : Whole (objText ms) (.obj kvs) := by
  intro stack
  have hopen : step ⟨stack, .value⟩ lbrace = some ⟨stack, .member⟩ := rfl
  rw [objText, run, hopen, Option.bind_some]
  cases h with
  | nil => rfl
  | @cons m kv ms kvs hm hms =>
    have hrun := @run_members stack [] kvs kv m ms hm hms
    rw [List.map_cons, join, List.append_assoc]
    -- the first key is read from the opening brace on
    have hfirst : ∀ rest, run ⟨stack, .member⟩ (memberText m.1 m.2 ++ rest) =
        run ⟨stack, .key []⟩ (memberText m.1 m.2 ++ rest) := fun rest => rfl
    rw [hfirst, hrun]
    simp

/-! ### Texts that were cut short -/

/-- Nothing is open, and a value has been read. -/
def State.Idle (st : State) : Prop :=
  st.stack = [] ∧ ((∃ v, st.mode = .after v) ∨ (∃ literal p, st.mode = .number literal p) ∨
    ∃ v, st.mode = .word [] v)

theorem idle_of_result {st : State} {v : Value} (h : st.result = some v) : st.Idle := by
  unfold State.result at h
  split at h
  · next hstack hmode => exact ⟨hstack, .inl ⟨_, hmode⟩⟩
  · next hstack hmode => exact ⟨hstack, .inr (.inl ⟨_, _, hmode⟩)⟩
  · next hstack hmode => exact ⟨hstack, .inr (.inr ⟨_, hmode⟩)⟩
  · cases h

/-- Nothing that closes an array or an object follows. -/
theorem State.Idle.step {st st' : State} {c : UInt8} (h : st.Idle) (hstep : step st c = some st') :
    st'.Idle ∧ c ≠ rbracket ∧ c ≠ rbrace := by
  obtain ⟨stack, mode⟩ := st
  obtain ⟨rfl, hmode⟩ := h
  have hclose : ∀ v, close [] v c = some st' → st'.Idle ∧ c ≠ rbracket ∧ c ≠ rbrace := by
    intro v hv
    unfold close at hv
    split at hv
    · next hs =>
      obtain rfl := Option.some.inj hv
      refine ⟨⟨rfl, .inl ⟨v, rfl⟩⟩, ?_, ?_⟩ <;> rintro rfl <;> cases hs
    · cases hv
  rcases hmode with ⟨v, rfl⟩ | ⟨literal, p, rfl⟩ | ⟨v, rfl⟩
  · exact hclose v hstep
  · simp only [JsonReader.step] at hstep
    cases hp : p.next c with
    | some q =>
      rw [hp] at hstep
      obtain rfl := Option.some.inj hstep
      refine ⟨⟨rfl, .inr (.inl ⟨_, _, rfl⟩)⟩, ?_, ?_⟩ <;> rintro rfl <;>
        rw [Phase.next_of_end (by simp)] at hp <;> cases hp
    | none =>
      rw [hp] at hstep
      simp only at hstep
      split at hstep
      · exact hclose _ hstep
      · cases hstep
  · exact hclose v hstep

theorem State.Idle.run {st st' : State} {t : Text} (h : st.Idle) (hrun : run st t = some st') :
    rbracket ∉ t ∧ rbrace ∉ t := by
  induction t generalizing st with
  | nil => simp
  | cons c t ih =>
    obtain ⟨mid, hstep, hrest⟩ := Option.bind_eq_some_iff.mp hrun
    obtain ⟨hmid, hr, hb⟩ := h.step hstep
    obtain ⟨hr', hb'⟩ := ih hmid hrest
    simp [hr.symm, hb.symm, hr', hb']

/-- **A JSON text that is cut before its last bracket or brace is no JSON text.** -/
theorem parse_cut {s t : Text} {v : Value} (h : parse (s ++ t) = some v)
    (ht : rbracket ∈ t ∨ rbrace ∈ t) : parse s = none := by
  rw [← Option.not_isSome_iff_eq_none, Option.isSome_iff_exists]
  rintro ⟨w, hw⟩
  obtain ⟨st, hrun, hres⟩ := Option.bind_eq_some_iff.mp hw
  obtain ⟨st', hrun', -⟩ := Option.bind_eq_some_iff.mp h
  rw [run_append, hrun, Option.bind_some] at hrun'
  obtain ⟨hr, hb⟩ := (idle_of_result hres).run hrun'
  rcases ht with ht | ht
  · exact hr ht
  · exact hb ht

end JsonReader
