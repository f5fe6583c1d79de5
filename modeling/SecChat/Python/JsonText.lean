import SecChat.Python.Json

/-!
# JSON text

`dumps` is `json.dumps(x, separators=(",", ":"), ensure_ascii=False)` and `loads` is `json.loads`,
both over UTF-8 octets, since every text here is encoded before it is used.  The parser runs on
fuel, one unit for each nested value; a text needs no more fuel than it has characters.  A `\u`
escape of a lone surrogate is refused, because Lean's strings hold scalar values only.

* `loads_dumps`: a plain value survives the round trip.
-/

namespace Py

open Json

/-! ### Printing -/

/-- How one character stands in a JSON string. -/
def escChar (c : Char) : List Char :=
  if c = '"' then ['\\', '"']
  else if c = '\\' then ['\\', '\\']
  else if c = '\n' then ['\\', 'n']
  else if c = '\r' then ['\\', 'r']
  else if c = '\t' then ['\\', 't']
  else if c = '\x08' then ['\\', 'b']
  else if c = '\x0c' then ['\\', 'f']
  else if c.toNat < 32 then
    ['\\', 'u', '0', '0', (c.toNat / 16).digitChar, (c.toNat % 16).digitChar]
  else [c]

/-- A JSON string with its closing quote. -/
def strTail (cs : List Char) : List Char := cs.flatMap escChar ++ ['"']

mutual
/-- The text of a value. -/
def chars : Json → List Char
  | .null => ['n', 'u', 'l', 'l']
  | .bool true => ['t', 'r', 'u', 'e']
  | .bool false => ['f', 'a', 'l', 's', 'e']
  | .int (.ofNat n) => Nat.toDigits 10 n
  | .int (.negSucc n) => '-' :: Nat.toDigits 10 (n + 1)
  | .float lit => lit.toList
  | .str s => '"' :: strTail s.toList
  | .arr [] => ['[', ']']
  | .arr (x :: xs) => '[' :: (chars x ++ itemsTail xs)
  | .obj [] => ['\x7b', '\x7d']
  | .obj ((k, v) :: kvs) =>
      '\x7b' :: '"' :: (strTail k.toList ++ ':' :: (chars v ++ membersTail kvs))
/-- The elements after the first one, and the closing bracket. -/
def itemsTail : List Json → List Char
  | [] => [']']
  | x :: xs => ',' :: (chars x ++ itemsTail xs)
/-- The items after the first one, and the closing brace. -/
def membersTail : List (String × Json) → List Char
  | [] => ['\x7d']
  | (k, v) :: kvs => ',' :: '"' :: (strTail k.toList ++ ':' :: (chars v ++ membersTail kvs))
end

/-- The octets of a text. -/
def encodeUtf8 (s : String) : Bytes := s.toUTF8.data.toList

/-- `b.decode("utf-8")`. -/
def decodeUtf8 (b : Bytes) : Except Exn String :=
  match String.fromUTF8? ⟨b.toArray⟩ with
  | some s => .ok s
  | none => .error .unicodeError

/-- `json.dumps(x, separators=(",", ":"), ensure_ascii=False).encode("utf-8")`. -/
def dumps (j : Json) : Bytes := encodeUtf8 (String.ofList (chars j))

/-! ### Parsing -/

/-- Skip JSON whitespace. -/
def skipWs (cs : List Char) : List Char :=
  cs.dropWhile fun c => c = ' ' ∨ c = '\t' ∨ c = '\n' ∨ c = '\r'

/-- The value of a hexadecimal digit. -/
def hexVal (c : Char) : Option ℕ :=
  if c.isDigit then some (c.toNat - 48)
  else if 'a' ≤ c ∧ c ≤ 'f' then some (c.toNat - 87)
  else if 'A' ≤ c ∧ c ≤ 'F' then some (c.toNat - 55)
  else none

/-- Four hexadecimal digits. -/
def hex4 (a b c d : Char) : Option ℕ := do
  return (((← hexVal a) * 16 + (← hexVal b)) * 16 + (← hexVal c)) * 16 + (← hexVal d)

/-- The character that a two-character escape stands for. -/
def unescape (c : Char) : Option Char :=
  if c = '"' then some '"'
  else if c = '\\' then some '\\'
  else if c = '/' then some '/'
  else if c = 'b' then some '\x08'
  else if c = 'f' then some '\x0c'
  else if c = 'n' then some '\n'
  else if c = 'r' then some '\r'
  else if c = 't' then some '\t'
  else none

/-- The code units of a string after its opening quote, and what follows the closing one. -/
def parseUnits : List Char → Option (List ℕ × List Char)
  | [] => none
  | c :: rest =>
    if c = '"' then some ([], rest)
    else if c = '\\' then
      match rest with
      | 'u' :: a :: b :: c :: d :: rest => do
          let n ← hex4 a b c d
          let (ns, rest) ← parseUnits rest
          return (n :: ns, rest)
      | c :: rest => do
          let c ← unescape c
          let (ns, rest) ← parseUnits rest
          return (c.toNat :: ns, rest)
      | [] => none
    else if c.toNat < 32 then none
    else do
      let (ns, rest) ← parseUnits rest
      return (c.toNat :: ns, rest)

/-- Whether a code unit is half of a surrogate pair. -/
def isSurrogate (n : ℕ) : Bool := 0xD800 ≤ n && n < 0xE000

/-- Join surrogate pairs; a lone surrogate is no character. -/
def joinUnits : List ℕ → Option (List Char)
  | [] => some []
  | [n] => if isSurrogate n then none else some [Char.ofNat n]
  | n :: m :: rest =>
      if isSurrogate n then
        if n < 0xDC00 ∧ 0xDC00 ≤ m ∧ m < 0xE000 then
          (joinUnits rest).map
            (Char.ofNat (0x10000 + (n - 0xD800) * 0x400 + (m - 0xDC00)) :: ·)
        else none
      else (joinUnits (m :: rest)).map (Char.ofNat n :: ·)

/-- A string after its opening quote, and what follows the closing one. -/
def parseStr (cs : List Char) : Option (String × List Char) := do
  let (ns, rest) ← parseUnits cs
  let cs ← joinUnits ns
  return (String.ofList cs, rest)

/-- The fraction and the exponent of a number, if it has any, and what follows. -/
def parseFraction (cs : List Char) : List Char × List Char :=
  let (frac, cs) : List Char × List Char :=
    match cs with
    | '.' :: d :: rest =>
        if d.isDigit then
          ('.' :: d :: rest.takeWhile Char.isDigit, rest.dropWhile Char.isDigit)
        else ([], cs)
    | _ => ([], cs)
  match cs with
  | e :: rest =>
      if e = 'e' ∨ e = 'E' then
        let (sign, ds) : List Char × List Char :=
          match rest with
          | '+' :: ds => (['+'], ds)
          | '-' :: ds => (['-'], ds)
          | ds => ([], ds)
        if (ds.takeWhile Char.isDigit).isEmpty then (frac, cs)
        else (frac ++ e :: sign ++ ds.takeWhile Char.isDigit, ds.dropWhile Char.isDigit)
      else (frac, cs)
  | [] => (frac, cs)

/-- The digits in front of a number: `0`, or digits that do not start with `0`. -/
def leadDigits : List Char → List Char × List Char
  | '0' :: rest => (['0'], rest)
  | cs => (cs.takeWhile Char.isDigit, cs.dropWhile Char.isDigit)

/-- A number without its sign: leading digits, fraction and exponent. -/
def parseNumber (neg : Bool) (cs : List Char) : Option (Json × List Char) :=
  let (ds, rest) := leadDigits cs
  if ds.isEmpty then none
  else
    let (tail, rest') := parseFraction rest
    if tail.isEmpty then
      let n : ℤ := Nat.ofDigitChars 10 ds 0
      some (.int (if neg then -n else n), rest)
    else
      some (.float (String.ofList ((if neg then ['-'] else []) ++ ds ++ tail)), rest')

/-- `dict(pairs)`: a repeated key keeps its first place and its last value. -/
def dictSet (kvs : List (String × Json)) (kv : String × Json) : List (String × Json) :=
  if kv.1 ∈ kvs.map Prod.fst then kvs.map fun p => if p.1 = kv.1 then kv else p
  else kvs ++ [kv]

/-- The dictionary of a list of pairs. -/
def dictOfPairs (kvs : List (String × Json)) : List (String × Json) := kvs.foldl dictSet []

mutual
/-- A value, and what follows it. -/
def parseValue : ℕ → List Char → Option (Json × List Char)
  | 0, _ => none
  | n + 1, cs =>
    match cs with
    | '"' :: rest => (parseStr rest).map fun p => (.str p.1, p.2)
    | '[' :: rest =>
      match skipWs rest with
      | ']' :: rest => some (.arr [], rest)
      | rest => do
          let (x, rest) ← parseValue n rest
          let (xs, rest) ← parseItems n (skipWs rest)
          return (.arr (x :: xs), rest)
    | '\x7b' :: rest =>
      match skipWs rest with
      | '\x7d' :: rest => some (.obj [], rest)
      | '"' :: rest => do
          let (kv, rest) ← parseMember n rest
          let (kvs, rest) ← parseMembers n (skipWs rest)
          return (.obj (dictOfPairs (kv :: kvs)), rest)
      | _ => none
    | 'n' :: 'u' :: 'l' :: 'l' :: rest => some (.null, rest)
    | 't' :: 'r' :: 'u' :: 'e' :: rest => some (.bool true, rest)
    | 'f' :: 'a' :: 'l' :: 's' :: 'e' :: rest => some (.bool false, rest)
    | 'N' :: 'a' :: 'N' :: rest => some (.float "NaN", rest)
    | 'I' :: 'n' :: 'f' :: 'i' :: 'n' :: 'i' :: 't' :: 'y' :: rest =>
        some (.float "Infinity", rest)
    | '-' :: 'I' :: 'n' :: 'f' :: 'i' :: 'n' :: 'i' :: 't' :: 'y' :: rest =>
        some (.float "-Infinity", rest)
    | '-' :: rest => parseNumber true rest
    | cs => parseNumber false cs
/-- The elements after the first one, up to the closing bracket. -/
def parseItems : ℕ → List Char → Option (List Json × List Char)
  | 0, _ => none
  | n + 1, cs =>
    match cs with
    | ']' :: rest => some ([], rest)
    | ',' :: rest => do
        let (x, rest) ← parseValue n (skipWs rest)
        let (xs, rest) ← parseItems n (skipWs rest)
        return (x :: xs, rest)
    | _ => none
/-- A key after its opening quote, the colon and the value. -/
def parseMember : ℕ → List Char → Option ((String × Json) × List Char)
  | 0, _ => none
  | n + 1, cs => do
      let (k, rest) ← parseStr cs
      match skipWs rest with
      | ':' :: rest => do
          let (v, rest) ← parseValue n (skipWs rest)
          return ((k, v), rest)
      | _ => none
/-- The items after the first one, up to the closing brace. -/
def parseMembers : ℕ → List Char → Option (List (String × Json) × List Char)
  | 0, _ => none
  | n + 1, cs =>
    match cs with
    | '\x7d' :: rest => some ([], rest)
    | ',' :: rest =>
      match skipWs rest with
      | '"' :: rest => do
          let (kv, rest) ← parseMember n rest
          let (kvs, rest) ← parseMembers n (skipWs rest)
          return (kv :: kvs, rest)
      | _ => none
    | _ => none
end

/-- `json.loads(raw.decode("utf-8"))`. -/
def loads (raw : Bytes) : Except Exn Json := do
  let text ← decodeUtf8 raw
  match parseValue (text.toList.length + 1) (skipWs text.toList) with
  | some (j, rest) => if (skipWs rest).isEmpty then .ok j else .error .jsonDecodeError
  | none => .error .jsonDecodeError

/-! ### The round trip -/

theorem hexVal_digitChar {n : ℕ} (h : n < 16) : hexVal n.digitChar = some n := by
  revert n; decide

@[simp] theorem parseUnits_quote (rest : List Char) :
    parseUnits ('"' :: rest) = some ([], rest) := by
  rw [parseUnits.eq_def]
  simp

theorem parseUnits_of_plain {c : Char} (h1 : c ≠ '"') (h2 : c ≠ '\\') (h3 : ¬ c.toNat < 32)
    (rest : List Char) :
    parseUnits (c :: rest) = (parseUnits rest).map fun p => (c.toNat :: p.1, p.2) := by
  rw [parseUnits.eq_def]
  cases h : parseUnits rest <;> simp [h1, h2, h3, h]

theorem parseUnits_escChar (c : Char) (rest : List Char) :
    parseUnits (escChar c ++ rest) = (parseUnits rest).map fun p => (c.toNat :: p.1, p.2) := by
  unfold escChar
  split_ifs with h1 h2 h3 h4 h5 h6 h7 h8
  · subst h1; cases h : parseUnits rest <;> simp [parseUnits, unescape, h]
  · subst h2; cases h : parseUnits rest <;> simp [parseUnits, unescape, h]
  · subst h3; cases h : parseUnits rest <;> simp [parseUnits, unescape, h]
  · subst h4; cases h : parseUnits rest <;> simp [parseUnits, unescape, h]
  · subst h5; cases h : parseUnits rest <;> simp [parseUnits, unescape, h]
  · subst h6; cases h : parseUnits rest <;> simp [parseUnits, unescape, h]
  · subst h7; cases h : parseUnits rest <;> simp [parseUnits, unescape, h]
  · have h0 : hexVal '0' = some 0 := by decide
    have hd := hexVal_digitChar (n := c.toNat / 16) (by omega)
    have hm := hexVal_digitChar (n := c.toNat % 16) (by omega)
    have hc : c.toNat / 16 * 16 + c.toNat % 16 = c.toNat := by omega
    cases h : parseUnits rest <;> simp [parseUnits, hex4, h0, hd, hm, hc, h]
  · exact parseUnits_of_plain h1 h2 h8 rest

theorem parseUnits_strTail (cs rest : List Char) :
    parseUnits (strTail cs ++ rest) = some (cs.map Char.toNat, rest) := by
  induction cs with
  | nil => simp [strTail]
  | cons c cs ih =>
    rw [strTail] at ih ⊢
    rw [List.flatMap_cons, List.append_assoc, List.append_assoc, parseUnits_escChar,
      ← List.append_assoc, ih]
    rfl

theorem isSurrogate_toNat (c : Char) : isSurrogate c.toNat = false := by
  have h : c.toNat.isValidChar := c.valid
  simp only [isSurrogate, Bool.and_eq_false_iff, decide_eq_false_iff_not, not_le, not_lt]
  rcases h with h | h <;> omega

theorem joinUnits_map_toNat (cs : List Char) : joinUnits (cs.map Char.toNat) = some cs := by
  induction cs with
  | nil => rfl
  | cons c cs ih =>
    cases cs with
    | nil => simp [joinUnits, isSurrogate_toNat]
    | cons d cs =>
      rw [List.map_cons, List.map_cons, joinUnits, isSurrogate_toNat, if_neg (by simp)]
      rw [List.map_cons] at ih
      rw [ih]
      simp

@[simp] theorem parseStr_strTail (s : String) (rest : List Char) :
    parseStr (strTail s.toList ++ rest) = some (s, rest) := by
  simp [parseStr, parseUnits_strTail, joinUnits_map_toNat]

/-- What may follow a value inside a text: its end, a comma or a closing bracket. -/
def Stop (rest : List Char) : Prop :=
  rest = [] ∨ ∃ c cs, rest = c :: cs ∧ (c = ',' ∨ c = ']' ∨ c = '\x7d')

theorem stop_itemsTail (xs : List Json) (rest : List Char) : Stop (itemsTail xs ++ rest) := by
  cases xs <;> simp [itemsTail, Stop]

theorem stop_membersTail (kvs : List (String × Json)) (rest : List Char) :
    Stop (membersTail kvs ++ rest) := by
  rcases kvs with _ | ⟨⟨k, v⟩, kvs⟩ <;> simp [membersTail, Stop]

theorem skipWs_of_stop {rest : List Char} (h : Stop rest) : skipWs rest = rest := by
  rcases h with rfl | ⟨c, cs, rfl, rfl | rfl | rfl⟩ <;> simp [skipWs]

theorem parseFraction_of_stop {rest : List Char} (h : Stop rest) :
    parseFraction rest = ([], rest) := by
  rcases h with rfl | ⟨c, cs, rfl, rfl | rfl | rfl⟩ <;> simp [parseFraction]

/-! #### Numbers -/

theorem eq_of_isDigit {c : Char} (h : c.isDigit = true) :
    ∃ d < 10, c = Nat.digitChar d := by
  simp only [Char.isDigit, Bool.and_eq_true, decide_eq_true_eq] at h
  have h1 : 48 ≤ c.toNat := by simpa using UInt32.le_iff_toNat_le.mp h.1
  have h2 : c.toNat ≤ 57 := by simpa using UInt32.le_iff_toNat_le.mp h.2
  refine ⟨c.toNat - 48, by omega, ?_⟩
  have hc := Char.ofNat_toNat c
  have : ∀ n < 58, 48 ≤ n → Char.ofNat n = Nat.digitChar (n - 48) := by decide
  rw [← this c.toNat (by omega) h1, hc]

theorem takeWhile_digits {ds rest : List Char} (hd : ∀ c ∈ ds, c.isDigit = true) (h : Stop rest) :
    (ds ++ rest).takeWhile Char.isDigit = ds ∧ (ds ++ rest).dropWhile Char.isDigit = rest := by
  induction ds with
  | nil => rcases h with rfl | ⟨c, cs, rfl, rfl | rfl | rfl⟩ <;> simp
  | cons d ds ih =>
    have h1 := hd d (by simp)
    have h2 := ih fun c hc => hd c (by simp [hc])
    simp [h1, h2.1, h2.2]

theorem head_toDigits {n : ℕ} (hn : n ≠ 0) : (Nat.toDigits 10 n).head? ≠ some '0' := by
  induction n using Nat.strong_induction_on with
  | _ n ih =>
    by_cases h : n < 10
    · rw [Nat.toDigits_of_lt_base h]
      simpa using hn
    · rw [Nat.toDigits_of_base_le (by omega) (by omega)]
      have := ih (n / 10) (by omega) (by omega)
      have hne : Nat.toDigits 10 (n / 10) ≠ [] := Nat.toDigits_ne_nil
      rwa [List.head?_append_of_ne_nil _ hne]

theorem leadDigits_toDigits (n : ℕ) {rest : List Char} (h : Stop rest) :
    leadDigits (Nat.toDigits 10 n ++ rest) = (Nat.toDigits 10 n, rest) := by
  by_cases hn : n = 0
  · subst hn
    rw [Nat.toDigits_zero]
    rfl
  · have hd : ∀ c ∈ Nat.toDigits 10 n, c.isDigit = true := fun c hc =>
      Nat.isDigit_of_mem_toDigits (by omega) (by omega) hc
    obtain ⟨h1, h2⟩ := takeWhile_digits hd h
    have hhead := head_toDigits hn
    unfold leadDigits
    split
    · next r hr =>
      obtain ⟨d, ds, hds⟩ := List.exists_cons_of_ne_nil (Nat.toDigits_ne_nil (b := 10) (n := n))
      rw [hds, List.cons_append] at hr
      rw [hds, (List.cons.inj hr).1] at hhead
      exact absurd rfl hhead
    · rw [h1, h2]

theorem parseNumber_toDigits (neg : Bool) (n : ℕ) {rest : List Char} (h : Stop rest) :
    parseNumber neg (Nat.toDigits 10 n ++ rest) =
      some (.int (if neg then -(n : ℤ) else n), rest) := by
  have hne : Nat.toDigits 10 n ≠ [] := Nat.toDigits_ne_nil
  simp [parseNumber, leadDigits_toDigits n h, parseFraction_of_stop h, hne]

theorem parseValue_digit {d : ℕ} (hd : d < 10) (n : ℕ) (cs : List Char) :
    parseValue (n + 1) (d.digitChar :: cs) = parseNumber false (d.digitChar :: cs) := by
  interval_cases d <;> rfl

theorem parseValue_neg_digit {d : ℕ} (hd : d < 10) (n : ℕ) (cs : List Char) :
    parseValue (n + 1) ('-' :: d.digitChar :: cs) = parseNumber true (d.digitChar :: cs) := by
  interval_cases d <;> rfl

theorem exists_toDigits_eq_cons (n : ℕ) :
    ∃ d < 10, ∃ cs, Nat.toDigits 10 n = d.digitChar :: cs := by
  obtain ⟨c, cs, h⟩ := List.exists_cons_of_ne_nil (Nat.toDigits_ne_nil (b := 10) (n := n))
  have hc : c ∈ Nat.toDigits 10 n := by simp [h]
  obtain ⟨d, hd, rfl⟩ := eq_of_isDigit (Nat.isDigit_of_mem_toDigits (by omega) (by omega) hc)
  exact ⟨d, hd, cs, h⟩

/-! #### Values -/

theorem skipWs_of_head {c : Char} {cs rest : List Char} (h : skipWs (c :: cs) = c :: cs) :
    skipWs (c :: rest) = c :: rest := by
  by_cases hw : c = ' ' ∨ c = '\t' ∨ c = '\n' ∨ c = '\r'
  · have hle := (List.dropWhile_suffix (l := cs)
      (fun c => decide (c = ' ' ∨ c = '\t' ∨ c = '\n' ∨ c = '\r'))).length_le
    have hlen := congrArg List.length h
    rw [skipWs, List.dropWhile_cons, if_pos (by simpa using hw), List.length_cons] at hlen
    omega
  · rw [skipWs, List.dropWhile_cons, if_neg (by simpa using hw)]

/-- The text of a value starts with neither whitespace nor a closing bracket. -/
theorem chars_head {j : Json} (h : j.Plain) :
    ∃ c cs, chars j = c :: cs ∧ skipWs (c :: cs) = c :: cs ∧ c ≠ ']' ∧ c ≠ '\x7d' := by
  match j with
  | .null => exact ⟨_, _, rfl, by simp [skipWs]⟩
  | .bool true => exact ⟨_, _, rfl, by simp [skipWs]⟩
  | .bool false => exact ⟨_, _, rfl, by simp [skipWs]⟩
  | .int (.ofNat n) =>
    obtain ⟨d, hd, cs, hcs⟩ := exists_toDigits_eq_cons n
    refine ⟨_, cs, hcs, ?_⟩
    interval_cases d <;> simp [skipWs, Nat.digitChar]
  | .int (.negSucc n) => exact ⟨_, _, rfl, by simp [skipWs]⟩
  | .float _ => simp [Plain] at h
  | .str s => exact ⟨_, _, rfl, by simp [skipWs]⟩
  | .arr [] => exact ⟨_, _, rfl, by simp [skipWs]⟩
  | .arr (_ :: _) => exact ⟨_, _, rfl, by simp [skipWs]⟩
  | .obj [] => exact ⟨_, _, rfl, by simp [skipWs]⟩
  | .obj (_ :: _) => exact ⟨_, _, rfl, by simp [skipWs]⟩

theorem skipWs_chars {j : Json} (h : j.Plain) (rest : List Char) :
    skipWs (chars j ++ rest) = chars j ++ rest := by
  obtain ⟨c, cs, hc, hs, -⟩ := chars_head h
  rw [hc, List.cons_append, skipWs_of_head hs]

theorem dictOfPairs_of_nodup {kvs : List (String × Json)} (h : (kvs.map Prod.fst).Nodup) :
    dictOfPairs kvs = kvs := by
  have key : ∀ acc : List (String × Json), ((acc ++ kvs).map Prod.fst).Nodup →
      kvs.foldl dictSet acc = acc ++ kvs := by
    induction kvs with
    | nil => simp
    | cons kv kvs ih =>
      intro acc hacc
      have hnot : kv.1 ∉ acc.map Prod.fst := by
        rw [List.map_append, List.map_cons, List.nodup_append] at hacc
        intro hmem
        exact hacc.2.2 _ hmem _ (by simp) rfl
      rw [List.foldl_cons, dictSet, if_neg hnot, ih (List.Nodup.of_cons h)]
      · simp
      · simpa using hacc
  exact key [] (by simpa using h)

theorem parseMember_chars {k : String} {v : Json} {n : ℕ} {rest : List Char} (hv : v.Plain)
    (h : parseValue n (chars v ++ rest) = some (v, rest)) :
    parseMember (n + 1) (strTail k.toList ++ ':' :: (chars v ++ rest)) = some ((k, v), rest) := by
  have hc : skipWs (':' :: (chars v ++ rest)) = ':' :: (chars v ++ rest) := by simp [skipWs]
  simp only [parseMember, parseStr_strTail, Option.bind_eq_bind, Option.bind_some, hc,
    skipWs_chars hv, h]
  rfl

-- Fuel `n` is enough for a text of at most `n` characters; the cases follow the printer's.
mutual
theorem parseValue_chars : ∀ (j : Json) (n : ℕ) (rest : List Char), j.Plain → Stop rest →
    (chars j).length ≤ n → parseValue n (chars j ++ rest) = some (j, rest)
  | j, 0, _, hj, _, hn => by
    obtain ⟨c, cs, hc, -⟩ := chars_head hj
    simp [hc] at hn
  | .null, n + 1, _, _, _, _ => rfl
  | .bool true, n + 1, _, _, _, _ => rfl
  | .bool false, n + 1, _, _, _, _ => rfl
  | .int (.ofNat m), n + 1, rest, _, hs, _ => by
    obtain ⟨d, hd, cs, hcs⟩ := exists_toDigits_eq_cons m
    have h := parseNumber_toDigits false m hs
    rw [chars, hcs, List.cons_append, parseValue_digit hd, ← List.cons_append, ← hcs, h]
    simp
  | .int (.negSucc m), n + 1, rest, _, hs, _ => by
    obtain ⟨d, hd, cs, hcs⟩ := exists_toDigits_eq_cons (m + 1)
    have h := parseNumber_toDigits true (m + 1) hs
    rw [chars, hcs, List.cons_append, List.cons_append, parseValue_neg_digit hd,
      ← List.cons_append, ← hcs, h]
    simp [Int.negSucc_eq]
  | .float _, n + 1, _, hj, _, _ => by simp [Plain] at hj
  | .str s, n + 1, rest, _, _, _ => by
    rw [chars, List.cons_append]
    show (parseStr (strTail s.toList ++ rest)).map _ = _
    simp
  | .arr [], n + 1, _, _, _, _ => rfl
  | .arr (x :: xs), n + 1, rest, hj, hs, hn => by
    obtain ⟨hx, hxs⟩ : x.Plain ∧ PlainItems xs := by simpa [Plain, PlainItems] using hj
    simp only [chars, List.length_cons, List.length_append] at hn
    have h1 := parseValue_chars x n (itemsTail xs ++ rest) hx (stop_itemsTail xs rest) (by omega)
    have h2 := parseItems_chars xs n rest hxs (by omega)
    obtain ⟨c, cs, hc, -, hne, -⟩ := chars_head hx
    rw [chars, List.cons_append, List.append_assoc]
    simp only [parseValue, skipWs_chars hx]
    rw [hc] at h1 ⊢
    rw [List.cons_append] at h1 ⊢
    split
    · next h => exact absurd (List.cons.inj h).1 hne
    · simp [h1, skipWs_of_stop (stop_itemsTail xs rest), h2]
  | .obj [], n + 1, _, _, _, _ => rfl
  | .obj ((k, v) :: kvs), n + 1, rest, hj, hs, hn => by
    obtain ⟨hnd, hv, hkvs⟩ : (((k, v) :: kvs).map Prod.fst).Nodup ∧ v.Plain ∧ PlainMembers kvs := by
      simpa [Plain, PlainMembers] using hj
    simp only [chars, List.length_cons, List.length_append] at hn
    obtain ⟨n, rfl⟩ : ∃ m, n = m + 1 := ⟨n - 1, by omega⟩
    have h1 := parseValue_chars v n (membersTail kvs ++ rest) hv (stop_membersTail kvs rest)
      (by omega)
    have h2 := parseMembers_chars kvs (n + 1) rest hkvs (by omega)
    have h3 := parseMember_chars (k := k) hv h1
    have hq : ∀ cs, skipWs ('"' :: cs) = '"' :: cs := fun cs => by simp [skipWs]
    simp only [chars, List.cons_append, List.append_assoc, parseValue, hq, h3,
      Option.bind_eq_bind, Option.bind_some, skipWs_of_stop (stop_membersTail kvs rest), h2,
      dictOfPairs_of_nodup hnd]
    rfl
theorem parseItems_chars : ∀ (xs : List Json) (n : ℕ) (rest : List Char), PlainItems xs →
    (itemsTail xs).length ≤ n → parseItems n (itemsTail xs ++ rest) = some (xs, rest)
  | [], 0, _, _, hn => by simp [itemsTail] at hn
  | [], n + 1, _, _, _ => rfl
  | x :: xs, 0, _, _, hn => by simp [itemsTail] at hn
  | x :: xs, n + 1, rest, hj, hn => by
    obtain ⟨hx, hxs⟩ : x.Plain ∧ PlainItems xs := by simpa [PlainItems] using hj
    simp only [itemsTail, List.length_cons, List.length_append] at hn
    have h1 := parseValue_chars x n (itemsTail xs ++ rest) hx (stop_itemsTail xs rest) (by omega)
    have h2 := parseItems_chars xs n rest hxs (by omega)
    simp [itemsTail, parseItems, skipWs_chars hx, h1, skipWs_of_stop (stop_itemsTail xs rest), h2]
theorem parseMembers_chars : ∀ (kvs : List (String × Json)) (n : ℕ) (rest : List Char),
    PlainMembers kvs → (membersTail kvs).length ≤ n →
      parseMembers n (membersTail kvs ++ rest) = some (kvs, rest)
  | [], 0, _, _, hn => by simp [membersTail] at hn
  | [], n + 1, _, _, _ => rfl
  | (k, v) :: kvs, 0, _, _, hn => by simp [membersTail] at hn
  | (k, v) :: kvs, n + 1, rest, hj, hn => by
    obtain ⟨hv, hkvs⟩ : v.Plain ∧ PlainMembers kvs := by simpa [PlainMembers] using hj
    simp only [membersTail, List.length_cons, List.length_append] at hn
    obtain ⟨n, rfl⟩ : ∃ m, n = m + 1 := ⟨n - 1, by omega⟩
    have h1 := parseValue_chars v n (membersTail kvs ++ rest) hv (stop_membersTail kvs rest)
      (by omega)
    have h2 := parseMembers_chars kvs (n + 1) rest hkvs (by omega)
    have h3 := parseMember_chars (k := k) hv h1
    have hq : ∀ cs, skipWs ('"' :: cs) = '"' :: cs := fun cs => by simp [skipWs]
    rw [membersTail, List.cons_append, List.cons_append, List.append_assoc, List.cons_append,
      List.append_assoc]
    rw [parseMembers]
    simp only [hq, h3, Option.bind_eq_bind, Option.bind_some,
      skipWs_of_stop (stop_membersTail kvs rest), h2]
    rfl
end

/-! ### Octets -/

@[simp] theorem decodeUtf8_encodeUtf8 (s : String) : decodeUtf8 (encodeUtf8 s) = .ok s := by
  simp [decodeUtf8, encodeUtf8, String.fromUTF8?, s.isValidUTF8]
  rfl

/-- **A plain value survives the round trip through text.** -/
theorem loads_dumps {j : Json} (hj : j.Plain) : loads (dumps j) = .ok j := by
  have h := parseValue_chars j ((chars j).length + 1) [] hj (.inl rfl) (by omega)
  rw [List.append_nil] at h
  have hs := skipWs_chars hj []
  rw [List.append_nil] at hs
  simp only [loads, dumps, decodeUtf8_encodeUtf8, ok_bind, String.toList_ofList, hs, h]
  rfl

/-! ### Integers as text -/

/-- `str(i)` is the JSON text of `i`. -/
theorem toList_toString_int (i : ℤ) : (toString i).toList = chars (.int i) := by
  cases i with
  | ofNat n =>
    show (Nat.repr n).toList = _
    rw [Nat.repr, String.toList_ofList, chars]
  | negSucc n =>
    show ("-" ++ Nat.repr (n + 1)).toList = _
    simp [Nat.repr, String.toList_append, chars]

theorem dumps_injective {j k : Json} (hj : j.Plain) (hk : k.Plain) (h : dumps j = dumps k) :
    j = k := by
  have hl := loads_dumps hj
  rw [h, loads_dumps hk] at hl
  exact (Except.ok.inj hl).symm

theorem toString_int_injective : Function.Injective (toString : ℤ → String) := by
  intro i j h
  have hd : dumps (.int i) = dumps (.int j) := by
    rw [dumps, dumps, ← toList_toString_int, ← toList_toString_int, h]
  exact Json.int.inj (dumps_injective (Json.plain_int i) (Json.plain_int j) hd)

theorem colon_notMem_toString_int (i : ℤ) : ':' ∉ (toString i).toList := by
  rw [toList_toString_int]
  cases i with
  | ofNat n =>
    rw [chars]
    exact fun h => by simpa using Nat.isDigit_of_mem_toDigits (by omega) (by omega) h
  | negSucc n =>
    rw [chars, List.mem_cons]
    rintro (h | h)
    · cases h
    · simpa using Nat.isDigit_of_mem_toDigits (by omega) (by omega) h

end Py
