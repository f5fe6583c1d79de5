import SecChat.Library.CText
import SecChat.Library.CrlfLines
import SecChat.Python.Base64

/-!
# The WebSocket handshake

`ws_build_accept` reads an HTTP request line by line.  The text of a request is kept without its
terminating zero.

* `Header`: the four headers that it looks for, and what it asks of their values;
* `headerLine`, `parseHeaders`, `wsBuildAccept`: the parser;
* `sha1B64`: the loop that writes base64, `sha1B64_eq`;
* `Upgrades`: the requests that ask for an upgrade, with their key, as a grammar;
* `headers_spec`: what the lines before the end of the headers leave in the parser;
* `wsBuildAccept_iff`: the parser accepts exactly these requests, and answers their key.
-/

namespace SecChat.WsHandshake

open CText
open CrlfLines hiding Text

/-! ### Text without its case -/

/-- `tolower` in the C locale. -/
def toLower (c : UInt8) : UInt8 := if 0x41 ≤ c ∧ c ≤ 0x5a then c + 0x20 else c

/-- `strcasecmp(a, b) == 0` -/
def strcaseeq (a b : Text) : Bool := a.map toLower = b.map toLower

/-- `str_icontains`. -/
def strIcontains : Text → Text → Bool
  | [], _ => false
  -- `strncasecmp(hay, needle, nlen) == 0`
  | c :: cs, needle => strcaseeq ((c :: cs).take needle.length) needle || strIcontains cs needle

theorem strIcontains_iff {hay needle : Text} (h : needle ≠ []) :
    strIcontains hay needle = true ↔ needle.map toLower <:+: hay.map toLower := by
  induction hay with
  | nil => simp [strIcontains, h]
  | cons c cs ih =>
    rw [strIcontains, Bool.or_eq_true, ih, List.map_cons, List.infix_cons_iff]
    refine or_congr_left ?_
    rw [strcaseeq, decide_eq_true_iff, List.prefix_iff_eq_take, List.length_map, ← List.map_cons,
      List.map_take, eq_comm]

/-! ### The headers -/

/-- The headers that the parser looks for. -/
inductive Header
  | upgrade
  | connection
  | version
  | key
  deriving DecidableEq, Repr

namespace Header

/-- The name of a header. -/
def name : Header → Text
  | .upgrade => ascii "Upgrade"
  | .connection => ascii "Connection"
  | .version => ascii "Sec-WebSocket-Version"
  | .key => ascii "Sec-WebSocket-Key"

/-- The header with a name: the chain of `strcasecmp`s. -/
def ofName (n : Text) : Option Header :=
  if strcaseeq n (name .upgrade) then some .upgrade
  else if strcaseeq n (name .connection) then some .connection
  else if strcaseeq n (name .version) then some .version
  else if strcaseeq n (name .key) then some .key
  else none

/-- The check of a value, as it stands in the buffer, and of its length. -/
def check (val : Text) (vlen : ℕ) : Header → Bool
  | .upgrade => strcaseeq val (ascii "websocket")
  | .connection => strIcontains val (ascii "Upgrade")
  | .version => val = ascii "13"
  | .key => ¬ (vlen = 0 ∨ 127 < vlen)

theorem ofName_eq_some_iff {n : Text} {h : Header} : ofName n = some h ↔ strcaseeq n h.name = true := by
  constructor
  · intro heq
    rw [ofName] at heq
    split_ifs at heq with h1 h2 h3 h4 <;> cases heq <;> assumption
  · intro hn
    have hdistinct : ∀ g h : Header, (name g).map toLower = (name h).map toLower → g = h := by
      intro g h
      cases g <;> cases h <;> decide
    have hne : ∀ g, g ≠ h → ¬ strcaseeq n g.name = true := by
      intro g hg heq
      exact hg (hdistinct g h ((decide_eq_true_iff.mp heq).symm.trans (decide_eq_true_iff.mp hn)))
    rw [ofName]
    cases h with
    | upgrade => rw [if_pos hn]
    | connection => rw [if_neg (hne .upgrade (by decide)), if_pos hn]
    | version =>
      rw [if_neg (hne .upgrade (by decide)), if_neg (hne .connection (by decide)), if_pos hn]
    | key =>
      rw [if_neg (hne .upgrade (by decide)), if_neg (hne .connection (by decide)),
        if_neg (hne .version (by decide)), if_pos hn]

end Header

/-! ### The parser -/

/-- The spaces around a value. -/
def isBlank (c : UInt8) : Bool := c = 0x20 ∨ c = 0x09

/-- The value between `vs` and `ve`.  Neither pointer leaves the line, since CR is not blank. -/
def trim (text : Text) : Text := ((text.dropWhile isBlank).reverse.dropWhile isBlank).reverse

/-- `memchr(pos, ':', nl - pos)`: the name before the first colon, and what follows it. -/
def splitColon (line : Text) : Option (Text × Text) :=
  match line.dropWhile (· ≠ 0x3a) with
  | [] => none
  | _ :: after => some (line.takeWhile (· ≠ 0x3a), after)

/-- The variables of the loop: which headers have been seen, and the key. -/
structure Seen where
  seen : Header → Bool
  wsKey : Text

/-- Before the first header. -/
def Seen.start : Seen where
  seen := fun _ => false
  wsKey := []

/-- The body of the loop, for a line with a name of 1 to 63 characters and a value; `none` is
`return 0`. -/
def headerField (s : Seen) (name value : Text) : Option Seen :=
  let vlen := min value.length 255
  let val := value.take 255
  match Header.ofName name with
  | none => some s
  | some h =>
    if s.seen h then none
    else if ¬ h.check val vlen then none
    else
      some
        { seen := Function.update s.seen h true
          wsKey := if h = .key then val.take vlen else s.wsKey }

/-- The body of the loop. -/
def headerLine (s : Seen) (line : Text) : Option Seen :=
  match splitColon line with
  | none => some s
  | some (name, after) =>
    if name.length = 0 ∨ 63 < name.length then some s else headerField s name (trim after)

/-- `WS_MAX_HEADERS`. -/
def wsMaxHeaders : ℕ := 64

/-- The loop over the lines, with `room` for that many more. -/
def parseHeaders (room : ℕ) (s : Seen) (text : Text) : Option Seen :=
  match cut text with
  -- also at the end of the text
  | none => some s
  | some ([], _) => some s
  | some (c :: line, rest) =>
    match room with
    | 0 => none
    | room + 1 =>
      match headerLine s (c :: line) with
      | none => none
      | some s => parseHeaders room s rest

/-- `WS_GUID`. -/
def wsGuid : Text := ascii "258EAFA5-E914-47DA-95CA-C5AB0DC85B11"

/-- `T`. -/
def table : Text := ascii "ABCDEFGHIJKLMNOPQRSTUVWXYZabcdefghijklmnopqrstuvwxyz0123456789+/"

/-- The loop of `sha1_b64`. -/
def b64Loop : Text → Text
  | [] => []
  | [a] =>
    [table.getD (a.toNat >>> 2) 0, table.getD (((a.toNat &&& 3) <<< 4) ||| (0 >>> 4)) 0, 0x3d, 0x3d]
  | [a, b] =>
    [table.getD (a.toNat >>> 2) 0, table.getD (((a.toNat &&& 3) <<< 4) ||| (b.toNat >>> 4)) 0,
      table.getD (((b.toNat &&& 0xf) <<< 2) ||| (0 >>> 6)) 0, 0x3d]
  | a :: b :: c :: rest =>
    table.getD (a.toNat >>> 2) 0 :: table.getD (((a.toNat &&& 3) <<< 4) ||| (b.toNat >>> 4)) 0 ::
      table.getD (((b.toNat &&& 0xf) <<< 2) ||| (c.toNat >>> 6)) 0 ::
      table.getD (c.toNat &&& 0x3f) 0 :: b64Loop rest

/-- `sha1_b64`; `evpSha1` is the digest that OpenSSL computes, or `none` if one of its functions
fails. -/
def sha1B64 (evpSha1 : Text → Option Text) (input : Text) : Text :=
  match evpSha1 input with
  | none => []
  | some d => b64Loop d

/-- `ws_build_accept`: the accept value, or `none` for `return 0`. -/
def wsBuildAccept (evpSha1 : Text → Option Text) (req : Text) (acceptLen : ℕ) : Option Text :=
  if acceptLen < 29 then none
  else if req.take 4 ≠ ascii "GET " then none
  else
    match cut req with
    | none => none
    | some (requestLine, rest) =>
      let http11 := ascii " HTTP/1.1"
      if requestLine.length < http11.length then none
      else if requestLine.drop (requestLine.length - http11.length) ≠ http11 then none
      else
        match parseHeaders wsMaxHeaders .start rest with
        | none => none
        | some s =>
          if ¬ (s.seen .upgrade ∧ s.seen .connection ∧ s.seen .version ∧ s.seen .key) then none
          -- `char combined[256]`
          else some (sha1B64 evpSha1 ((s.wsKey ++ wsGuid).take 255))

/-! ### The accept value -/

theorem table_getD {n : ℕ} (h : n < 64) : table.getD n 0 = octet (Py.stdChar n) := by
  revert n
  decide +kernel

theorem shiftLeft_or {x y k : ℕ} (h : y < 2 ^ k) : x <<< k ||| y = x * 2 ^ k + y := by
  rw [← Nat.shiftLeft_add_eq_or_of_lt h, Nat.shiftLeft_eq]

/-- The loop writes base64. -/
theorem b64Loop_eq (d : Text) : b64Loop d = (Py.b64encode d).toList.map octet := by
  have hfirst : ∀ a : UInt8, table.getD (a.toNat >>> 2) 0 = octet (Py.stdChar (a.toNat / 4)) := by
    intro a
    have ha := a.toNat_lt
    rw [Nat.shiftRight_eq_div_pow, table_getD (by omega)]
  have hsecond : ∀ (a : UInt8) (b : ℕ), b < 256 →
      table.getD (((a.toNat &&& 3) <<< 4) ||| (b >>> 4)) 0 =
        octet (Py.stdChar (a.toNat % 4 * 16 + b / 16)) := by
    intro a b hb
    have hmask : a.toNat &&& 3 = a.toNat % 4 := Nat.and_two_pow_sub_one_eq_mod a.toNat 2
    rw [hmask, Nat.shiftRight_eq_div_pow, shiftLeft_or (by omega), table_getD (by omega)]
    rfl
  have hthird : ∀ (b : UInt8) (c : ℕ), c < 256 →
      table.getD (((b.toNat &&& 0xf) <<< 2) ||| (c >>> 6)) 0 =
        octet (Py.stdChar (b.toNat % 16 * 4 + c / 64)) := by
    intro b c hc
    have hmask : b.toNat &&& 0xf = b.toNat % 16 := Nat.and_two_pow_sub_one_eq_mod b.toNat 4
    rw [hmask, Nat.shiftRight_eq_div_pow, shiftLeft_or (by omega), table_getD (by omega)]
    rfl
  have hfourth : ∀ c : UInt8, table.getD (c.toNat &&& 0x3f) 0 = octet (Py.stdChar (c.toNat % 64)) := by
    intro c
    have hmask : c.toNat &&& 0x3f = c.toNat % 64 := Nat.and_two_pow_sub_one_eq_mod c.toNat 6
    rw [hmask, table_getD (by omega)]
  rw [Py.b64encode, String.toList_ofList]
  induction d using b64Loop.induct with
  | case1 => rfl
  | case2 a =>
    rw [b64Loop, hfirst, hsecond a 0 (by omega)]
    simp [Py.sextets, Py.b64Pads, octet]
  | case3 a b =>
    rw [b64Loop, hfirst, hsecond a b.toNat b.toNat_lt, hthird b 0 (by omega)]
    simp [Py.sextets, Py.b64Pads, octet]
  | case4 a b c rest ih =>
    have hpads : Py.b64Pads (Py.sextets (a :: b :: c :: rest)).length =
        Py.b64Pads (Py.sextets rest).length := by
      simp only [Py.b64Pads, Py.sextets, List.length_cons]
      congr 2
      omega
    rw [b64Loop, hfirst, hsecond a b.toNat b.toNat_lt, hthird b c.toNat c.toNat_lt, hfourth, ih, hpads,
      Py.sextets]
    rfl

/-! ### The grammar -/

/-- A header line: a name of 1 to 63 characters before the first colon, and the trimmed value. -/
def field (line : Text) : Option (Text × Text) :=
  (splitColon line).bind fun p =>
    if 1 ≤ p.1.length ∧ p.1.length ≤ 63 then some (p.1, trim p.2) else none

/-- The values that some lines give to a header. -/
def values (h : Header) (lines : List Text) : List Text :=
  lines.filterMap fun line =>
    (field line).bind fun p =>
      if p.1.map toLower = h.name.map toLower then some p.2 else none

/-- What the value of a header is to be. -/
def Header.Ok (value : Text) : Header → Prop
  | .upgrade => value.map toLower = ascii "websocket"
  | .connection => ascii "upgrade" <:+: (value.take 255).map toLower
  | .version => value = ascii "13"
  | .key => 1 ≤ value.length ∧ value.length ≤ 127

/-- At most 64 header lines, in which each of the four headers occurs once and as it should. -/
structure HeadersOk (headers : List Text) (key : Text) : Prop where
  few : headers.length ≤ 64
  once : ∀ h, ∃ v, values h headers = [v] ∧ h.Ok v
  wsKey : values .key headers = [key]

/-- A request for an upgrade with a key: lines that end in CR LF, the first of which is the request line;
the headers are the lines up to the first empty one. -/
def Upgrades (req key : Text) : Prop :=
  ∃ requestLine later tail,
    req = (requestLine :: later).flatMap (· ++ crlf) ++ tail ∧
      (∀ line ∈ requestLine :: later, IsLine line) ∧ ¬ crlf <:+: tail ∧
      ascii "GET " <+: requestLine ∧ ascii " HTTP/1.1" <:+ requestLine ∧
      HeadersOk (later.takeWhile (· ≠ [])) key

/-! ### The loop -/

theorem headerLine_eq (s : Seen) (line : Text) :
    headerLine s line =
      match field line with
      | none => some s
      | some p => headerField s p.1 p.2 := by
  rw [headerLine, field]
  cases splitColon line with
  | none => rfl
  | some p =>
    obtain ⟨name, after⟩ := p
    by_cases hname : name.length = 0 ∨ 63 < name.length
    · have hnot : ¬ (1 ≤ name.length ∧ name.length ≤ 63) := by omega
      simp only [if_pos hname, Option.bind_some, if_neg hnot]
    · have hok : 1 ≤ name.length ∧ name.length ≤ 63 := by omega
      simp only [if_neg hname, Option.bind_some, if_pos hok]

/-- A text that is shorter than the buffer is what a longer one is cut to only if they are the same. -/
theorem take_eq_iff {n : ℕ} {t u : Text} (h : u.length < n) : t.take n = u ↔ t = u := by
  constructor
  · intro heq
    have hlen := congrArg List.length heq
    rw [List.length_take] at hlen
    rw [← heq, List.take_of_length_le (by omega)]
  · rintro rfl
    exact List.take_of_length_le h.le

/-- The checks see enough of a value in the buffer of 256 characters. -/
theorem check_iff (h : Header) (value : Text) :
    h.check (value.take 255) (min value.length 255) = true ↔ h.Ok value := by
  cases h with
  | upgrade =>
    have hlower : (ascii "websocket").map toLower = ascii "websocket" := by decide
    rw [Header.check, strcaseeq, decide_eq_true_iff, hlower, List.map_take, take_eq_iff (by decide)]
    rfl
  | connection =>
    rw [Header.check, strIcontains_iff (by decide)]
    rfl
  | version =>
    rw [Header.check, decide_eq_true_iff, take_eq_iff (by decide)]
    rfl
  | key =>
    rw [Header.check, decide_eq_true_iff, Header.Ok]
    omega

theorem values_append (h : Header) (ls ms : List Text) :
    values h (ls ++ ms) = values h ls ++ values h ms := List.filterMap_append

/-- What a line without a field says. -/
theorem values_of_field_none {line : Text} (hf : field line = none) (h : Header) :
    values h [line] = [] := by
  simp [values, hf]

theorem values_of_field {line name value : Text} (hf : field line = some (name, value)) (h : Header) :
    values h [line] = if Header.ofName name = some h then [value] else [] := by
  have hiff : Header.ofName name = some h ↔ name.map toLower = h.name.map toLower := by
    rw [Header.ofName_eq_some_iff, strcaseeq, decide_eq_true_iff]
  simp only [hiff]
  by_cases hn : name.map toLower = h.name.map toLower <;> simp [values, hf, hn]

/-- What the parser knows after some lines. -/
structure Holds (ls : List Text) (s : Seen) : Prop where
  unseen : ∀ h, s.seen h = false → values h ls = []
  seen : ∀ h, s.seen h = true → ∃ v, values h ls = [v] ∧ h.Ok v
  wsKey : s.seen .key = true → values .key ls = [s.wsKey]

/-- A header occurs twice, or once and not as it should. -/
def Bad (h : Header) (ls : List Text) : Prop := values h ls ≠ [] ∧ ¬ ∃ v, values h ls = [v] ∧ h.Ok v

theorem Bad.append {h : Header} {ls : List Text} (hbad : Bad h ls) (ms : List Text) :
    Bad h (ls ++ ms) := by
  obtain ⟨hne, hno⟩ := hbad
  rw [Bad, values_append]
  refine ⟨by simp [hne], ?_⟩
  rintro ⟨v, hv, hok⟩
  rcases List.append_eq_singleton_iff.mp hv with ⟨hnil, -⟩ | ⟨hone, -⟩
  · exact hne hnil
  · exact hno ⟨v, hone, hok⟩

theorem headerField_none {s : Seen} {name : Text} (h : Header.ofName name = none) (value : Text) :
    headerField s name value = some s := by
  simp only [headerField, h]

/-- A header that has not been seen, with a value as it should be. -/
theorem headerField_first {s : Seen} {name value : Text} {h : Header}
    (hname : Header.ofName name = some h) (hseen : s.seen h = false) (hok : h.Ok value) :
    headerField s name value =
      some
        { seen := Function.update s.seen h true
          wsKey := if h = .key then value else s.wsKey } := by
  have hcheck := (check_iff h value).mpr hok
  by_cases hk : h = .key
  · subst hk
    have hlen : value.length ≤ 127 := hok.2
    have hval : (value.take 255).take (min value.length 255) = value := by
      have hcut : value.take 255 = value := List.take_of_length_le (by omega)
      rw [hcut, List.take_of_length_le (by omega)]
    simp [headerField, hname, hseen, hcheck, hval]
  · simp [headerField, hname, hseen, hcheck, hk]

/-- A duplicate, or a value that is not as it should be. -/
theorem headerField_refused {s : Seen} {name value : Text} {h : Header}
    (hname : Header.ofName name = some h) (hno : ¬ (s.seen h = false ∧ h.Ok value)) :
    headerField s name value = none := by
  simp only [headerField, hname]
  cases hseen : s.seen h with
  | true => rfl
  | false =>
    have hcheck := mt (check_iff h value).mp fun hok => hno ⟨hseen, hok⟩
    simp [hcheck]

theorem Holds.start : Holds [] .start where
  unseen := fun _ _ => rfl
  seen := fun _ h => by cases h
  wsKey := fun h => by cases h

/-- Lines that say the same. -/
theorem Holds.of_values_eq {ls ms : List Text} {s : Seen} (hs : Holds ls s)
    (h : ∀ h, values h ms = values h ls) : Holds ms s where
  unseen := by simpa only [h] using hs.unseen
  seen := by simpa only [h] using hs.seen
  wsKey := by simpa only [h] using hs.wsKey

/-- A header that has not been seen gets its value. -/
theorem Holds.first {ls ms : List Text} {s : Seen} (hs : Holds ls s) {h : Header} {value : Text}
    (hok : h.Ok value) (hown : values h ms = [value])
    (hother : ∀ g, g ≠ h → values g ms = values g ls) :
    Holds ms
      { seen := Function.update s.seen h true
        wsKey := if h = .key then value else s.wsKey } where
  unseen := by
    intro g hg
    have hne : g ≠ h := by
      rintro rfl
      simp at hg
    rw [hother g hne]
    exact hs.unseen g (by simpa [hne] using hg)
  seen := by
    intro g hg
    by_cases hne : g = h
    · subst hne
      exact ⟨value, hown, hok⟩
    · rw [hother g hne]
      exact hs.seen g (by simpa [hne] using hg)
  wsKey := by
    intro hkey
    by_cases hne : h = .key
    · subst hne
      simp [hown]
    · rw [hother _ (Ne.symm hne)]
      simpa [hne] using hs.wsKey (by simpa [Ne.symm hne] using hkey)

/-- A header that has been seen gets another value, or one that has not gets a wrong one. -/
theorem Holds.bad {ls ms : List Text} {s : Seen} (hs : Holds ls s) {h : Header} {value : Text}
    (hno : ¬ (s.seen h = false ∧ h.Ok value)) (hown : values h ms = values h ls ++ [value]) :
    Bad h ms := by
  rw [Bad, hown]
  cases hseen : s.seen h with
  | true =>
    obtain ⟨v, hv, -⟩ := hs.seen h hseen
    simp [hv]
  | false =>
    rw [hs.unseen h hseen]
    simpa using fun hok => hno ⟨hseen, hok⟩

/-- One line. -/
theorem Holds.headerLine {ls : List Text} {s : Seen} (hs : Holds ls s) (line : Text) :
    (∃ s', headerLine s line = some s' ∧ Holds (ls ++ [line]) s') ∨
      headerLine s line = none ∧ ∃ h, Bad h (ls ++ [line]) := by
  rw [headerLine_eq]
  cases hf : field line with
  | none =>
    refine Or.inl ⟨s, rfl, hs.of_values_eq fun h => ?_⟩
    rw [values_append, values_of_field_none hf, List.append_nil]
  | some p =>
    obtain ⟨name, value⟩ := p
    have hvalues : ∀ h, values h (ls ++ [line]) =
        values h ls ++ if Header.ofName name = some h then [value] else [] := by
      intro h
      rw [values_append, values_of_field hf]
    show (∃ s', headerField s name value = some s' ∧ _) ∨ headerField s name value = none ∧ _
    cases hname : Header.ofName name with
    | none =>
      refine Or.inl ⟨s, headerField_none hname value, hs.of_values_eq fun h => ?_⟩
      rw [hvalues, hname, if_neg (by simp), List.append_nil]
    | some h =>
      have hown : values h (ls ++ [line]) = values h ls ++ [value] := by
        rw [hvalues, hname, if_pos rfl]
      have hother : ∀ g, g ≠ h → values g (ls ++ [line]) = values g ls := by
        intro g hg
        rw [hvalues, hname, if_neg fun heq => hg (Option.some.inj heq).symm, List.append_nil]
      by_cases hfirst : s.seen h = false ∧ h.Ok value
      · rw [hs.unseen h hfirst.1, List.nil_append] at hown
        exact Or.inl ⟨_, headerField_first hname hfirst.1 hfirst.2, hs.first hfirst.2 hown hother⟩
      · exact Or.inr ⟨headerField_refused hname hfirst, h, hs.bad hfirst hown⟩

/-- The header lines of a text. -/
def headers (text : Text) : List Text := (lines text).takeWhile (· ≠ [])

theorem parseHeaders_stop (room : ℕ) (s : Seen) {text : Text}
    (h : cut text = none ∨ ∃ rest, cut text = some ([], rest)) :
    parseHeaders room s text = some s ∧ headers text = [] := by
  rcases h with h | ⟨rest, h⟩
  · exact ⟨by rw [parseHeaders, h], by rw [headers, lines_of_none h]; rfl⟩
  · exact ⟨by rw [parseHeaders, h], by rw [headers, lines_of_some h]; rfl⟩

theorem headers_of_cut {c : UInt8} {line rest text : Text} (h : cut text = some (c :: line, rest)) :
    headers text = (c :: line) :: headers rest := by
  rw [headers, lines_of_some h, List.takeWhile_cons_of_pos (by simp)]
  rfl

/-- All lines: the parser stops after at most `room` lines and knows their headers, or there are more, or
a header is bad. -/
theorem headers_spec (room : ℕ) {ls : List Text} {s : Seen} (hs : Holds ls s) (text : Text) :
    (∃ s', parseHeaders room s text = some s' ∧ (headers text).length ≤ room ∧
        Holds (ls ++ headers text) s') ∨
      parseHeaders room s text = none ∧
        (room < (headers text).length ∨ ∃ h, Bad h (ls ++ headers text)) := by
  induction room generalizing ls s text with
  | zero =>
    rcases hcut : cut text with _ | ⟨_ | ⟨c, line⟩, rest⟩
    · obtain ⟨hparse, hnil⟩ := parseHeaders_stop 0 s (Or.inl hcut)
      exact Or.inl ⟨s, hparse, by simp [hnil], by simpa [hnil] using hs⟩
    · obtain ⟨hparse, hnil⟩ := parseHeaders_stop 0 s (Or.inr ⟨rest, hcut⟩)
      exact Or.inl ⟨s, hparse, by simp [hnil], by simpa [hnil] using hs⟩
    · exact Or.inr ⟨by rw [parseHeaders, hcut], Or.inl (by simp [headers_of_cut hcut])⟩
  | succ room ih =>
    rcases hcut : cut text with _ | ⟨_ | ⟨c, line⟩, rest⟩
    · obtain ⟨hparse, hnil⟩ := parseHeaders_stop (room + 1) s (Or.inl hcut)
      exact Or.inl ⟨s, hparse, by simp [hnil], by simpa [hnil] using hs⟩
    · obtain ⟨hparse, hnil⟩ := parseHeaders_stop (room + 1) s (Or.inr ⟨rest, hcut⟩)
      exact Or.inl ⟨s, hparse, by simp [hnil], by simpa [hnil] using hs⟩
    · rw [parseHeaders, hcut, headers_of_cut hcut]
      have hassoc : ls ++ (c :: line) :: headers rest = (ls ++ [c :: line]) ++ headers rest := by simp
      rw [hassoc]
      rcases hs.headerLine (c :: line) with ⟨s', hline, hs'⟩ | ⟨hline, h, hbad⟩
      · simp only [hline, List.length_cons, Nat.add_le_add_iff_right, Nat.add_lt_add_iff_right]
        exact ih hs' rest
      · simp only [hline]
        exact Or.inr ⟨trivial, Or.inr ⟨h, hbad.append _⟩⟩

/-- The headers are as they should be exactly if the parser has seen all of them. -/
theorem headersOk_iff {text key : Text} :
    HeadersOk (headers text) key ↔
      ∃ s, parseHeaders wsMaxHeaders .start text = some s ∧ (∀ h, s.seen h = true) ∧ s.wsKey = key := by
  rcases headers_spec wsMaxHeaders Holds.start text with
    ⟨s, hparse, hfew, hs⟩ | ⟨hparse, hwrong⟩
  · rw [List.nil_append] at hs
    constructor
    · intro hok
      have hseen : ∀ h, s.seen h = true := by
        intro h
        by_contra hno
        obtain ⟨v, hv, -⟩ := hok.once h
        rw [hs.unseen h (by simpa using hno)] at hv
        cases hv
      refine ⟨s, hparse, hseen, ?_⟩
      have hkey := hs.wsKey (hseen .key)
      rw [hok.wsKey] at hkey
      exact (List.singleton_injective hkey).symm
    · rintro ⟨s', hparse', hseen, rfl⟩
      rw [hparse] at hparse'
      cases hparse'
      exact ⟨hfew, fun h => hs.seen h (hseen h), hs.wsKey (hseen .key)⟩
  · rw [List.nil_append] at hwrong
    refine iff_of_false ?_ ?_
    · intro hok
      rcases hwrong with hmany | ⟨h, -, hbad⟩
      · exact absurd hok.few (not_le.mpr hmany)
      · exact hbad (hok.once h)
    · rintro ⟨s, hs, -⟩
      rw [hparse] at hs
      cases hs

/-! ### The whole request -/

/-- A request that starts with `GET ` does so on its first line. -/
theorem get_prefix_iff {line rest : Text} :
    (line ++ crlf ++ rest).take 4 = ascii "GET " ↔ ascii "GET " <+: line := by
  have htext : ascii "GET " <+: line ++ crlf ++ rest ↔
      (line ++ crlf ++ rest).take 4 = ascii "GET " := by
    rw [List.prefix_iff_eq_take]
    exact eq_comm
  rw [← htext]
  constructor
  · intro hget
    rcases le_or_gt 4 line.length with hlen | hlen
    · have hline : line <+: line ++ crlf ++ rest := by simp [List.append_assoc]
      exact List.prefix_of_prefix_length_le hget hline hlen
    · -- otherwise the CR would be one of the first four characters
      have hcr : line ++ [0x0d] <+: line ++ crlf ++ rest := by simp [crlf]
      have hshort : line ++ [0x0d] <+: ascii "GET " :=
        List.prefix_of_prefix_length_le hcr hget (by simpa [ascii] using hlen)
      have hmem : (0x0d : UInt8) ∈ ascii "GET " := hshort.subset (by simp)
      exact absurd hmem (by decide)
  · intro hline
    exact hline.trans (by simp [List.append_assoc])

theorem http11_suffix_iff {line : Text} :
    ascii " HTTP/1.1" <:+ line ↔ ¬ line.length < (ascii " HTTP/1.1").length ∧
      line.drop (line.length - (ascii " HTTP/1.1").length) = ascii " HTTP/1.1" := by
  rw [List.suffix_iff_eq_drop, eq_comm, not_lt]
  refine ⟨fun h => ⟨?_, h⟩, And.right⟩
  have hlen := congrArg List.length h
  rw [List.length_drop] at hlen
  omega

theorem HeadersOk.length_key {headers : List Text} {key : Text} (h : HeadersOk headers key) :
    key.length ≤ 127 := by
  obtain ⟨v, hv, hok⟩ := h.once .key
  rw [h.wsKey] at hv
  obtain rfl := List.singleton_injective hv
  exact hok.2

/-- The key and the GUID fit the buffer. -/
theorem HeadersOk.take_combined {headers : List Text} {key : Text} (h : HeadersOk headers key) :
    (key ++ wsGuid).take 255 = key ++ wsGuid := by
  refine List.take_of_length_le ?_
  have hguid : wsGuid.length = 36 := by decide
  have hkey := h.length_key
  rw [List.length_append, hguid]
  omega

theorem forall_seen_iff {s : Seen} : (∀ h, s.seen h = true) ↔
    s.seen .upgrade ∧ s.seen .connection ∧ s.seen .version ∧ s.seen .key := by
  constructor
  · exact fun h => ⟨h _, h _, h _, h _⟩
  · rintro ⟨hupgrade, hconnection, hversion, hkey⟩ h
    cases h <;> assumption

/-- The headers as the parser knows them, with the key in its buffer. -/
theorem parsed_iff {evpSha1 : Text → Option Text} {rest accept : Text} :
    (∃ key, HeadersOk (headers rest) key ∧ sha1B64 evpSha1 (key ++ wsGuid) = accept) ↔
      ∃ s, parseHeaders wsMaxHeaders .start rest = some s ∧
        (s.seen .upgrade ∧ s.seen .connection ∧ s.seen .version ∧ s.seen .key) ∧
        sha1B64 evpSha1 ((s.wsKey ++ wsGuid).take 255) = accept := by
  constructor
  · rintro ⟨key, hok, hsha⟩
    obtain ⟨s, hparse, hseen, rfl⟩ := headersOk_iff.mp hok
    exact ⟨s, hparse, forall_seen_iff.mp hseen, by rw [hok.take_combined, hsha]⟩
  · rintro ⟨s, hparse, hseen, hsha⟩
    have hok := headersOk_iff.mpr ⟨s, hparse, forall_seen_iff.mpr hseen, rfl⟩
    exact ⟨s.wsKey, hok, by rw [← hsha, hok.take_combined]⟩

/-- `ws_build_accept` by the first line and the headers. -/
theorem wsBuildAccept_eq_some_iff {evpSha1 : Text → Option Text} {req accept : Text} {acceptLen : ℕ}
    (hlen : 29 ≤ acceptLen) :
    wsBuildAccept evpSha1 req acceptLen = some accept ↔
      ∃ requestLine rest key, cut req = some (requestLine, rest) ∧ ascii "GET " <+: requestLine ∧
        ascii " HTTP/1.1" <:+ requestLine ∧ HeadersOk (headers rest) key ∧
        sha1B64 evpSha1 (key ++ wsGuid) = accept := by
  rw [wsBuildAccept, if_neg (not_lt.mpr hlen)]
  cases hcut : cut req with
  | none => simp
  | some p =>
    obtain ⟨line, rest⟩ := p
    have hget : req.take 4 = ascii "GET " ↔ ascii "GET " <+: line := by
      rw [(eq_of_cut hcut).1]
      exact get_prefix_iff
    have hsplit : (∃ requestLine rest' key, some (line, rest) = some (requestLine, rest') ∧
        ascii "GET " <+: requestLine ∧ ascii " HTTP/1.1" <:+ requestLine ∧
        HeadersOk (headers rest') key ∧ sha1B64 evpSha1 (key ++ wsGuid) = accept) ↔
        ascii "GET " <+: line ∧ ascii " HTTP/1.1" <:+ line ∧
          ∃ key, HeadersOk (headers rest) key ∧ sha1B64 evpSha1 (key ++ wsGuid) = accept := by
      constructor
      · rintro ⟨_, _, key, h, hg, h11, hok, hsha⟩
        cases h
        exact ⟨hg, h11, key, hok, hsha⟩
      · rintro ⟨hg, h11, key, hok, hsha⟩
        exact ⟨line, rest, key, rfl, hg, h11, hok, hsha⟩
    rw [hsplit, ← hget, http11_suffix_iff, parsed_iff]
    by_cases hg : req.take 4 = ascii "GET "
    swap
    · simp [hg]
    by_cases hshort : line.length < (ascii " HTTP/1.1").length
    · simp [hg, hshort]
    by_cases h11 : line.drop (line.length - (ascii " HTTP/1.1").length) = ascii " HTTP/1.1"
    swap
    · simp [hg, hshort, h11]
    simp only [hg, hshort, h11, ne_eq, not_true_eq_false, if_false, not_false_eq_true, true_and]
    cases parseHeaders wsMaxHeaders .start rest with
    | none => simp
    | some s =>
      by_cases hseen : s.seen .upgrade ∧ s.seen .connection ∧ s.seen .version ∧ s.seen .key
      · simp [hseen]
      · simp [hseen]

/-- **The parser accepts exactly its grammar**, and the accept value is the base64 text of the digest of
the key and the GUID. -/
theorem wsBuildAccept_iff {evpSha1 : Text → Option Text} {sha1 : Text → Text}
    (hsha : ∀ input, evpSha1 input = some (sha1 input)) {acceptLen : ℕ} (hlen : 29 ≤ acceptLen)
    (req accept : Text) :
    wsBuildAccept evpSha1 req acceptLen = some accept ↔
      ∃ key, Upgrades req key ∧
        accept = (Py.b64encode (sha1 (key ++ wsGuid))).toList.map octet := by
  have haccept : ∀ key, sha1B64 evpSha1 (key ++ wsGuid) =
      (Py.b64encode (sha1 (key ++ wsGuid))).toList.map octet := by
    intro key
    rw [sha1B64, hsha]
    exact b64Loop_eq _
  have hlines : ∀ key, Upgrades req key ↔
      ∃ requestLine rest, cut req = some (requestLine, rest) ∧ ascii "GET " <+: requestLine ∧
        ascii " HTTP/1.1" <:+ requestLine ∧ HeadersOk (headers rest) key := by
    intro key
    constructor
    · rintro ⟨line, later, tail, rfl, hls, htail, hget, h11, hok⟩
      have hcut := cut_append (hls line List.mem_cons_self) (later.flatMap (· ++ crlf) ++ tail)
      refine ⟨line, _, by rwa [List.flatMap_cons, List.append_assoc], hget, h11, ?_⟩
      have hlater : lines (later.flatMap (· ++ crlf) ++ tail) = later :=
        lines_eq_iff.mpr ⟨tail, rfl, fun l hl => hls l (List.mem_cons_of_mem _ hl), htail⟩
      rwa [headers, hlater]
    · rintro ⟨line, rest, hcut, hget, h11, hok⟩
      obtain ⟨tail, hreq, hls, htail⟩ := lines_eq_iff.mp (lines_of_some hcut)
      exact ⟨line, lines rest, tail, hreq, hls, htail, hget, h11, hok⟩
  rw [wsBuildAccept_eq_some_iff hlen]
  constructor
  · rintro ⟨line, rest, key, hcut, hget, h11, hok, rfl⟩
    exact ⟨key, (hlines key).mpr ⟨line, rest, hcut, hget, h11, hok⟩, haccept key⟩
  · rintro ⟨key, hup, rfl⟩
    obtain ⟨line, rest, hcut, hget, h11, hok⟩ := (hlines key).mp hup
    exact ⟨line, rest, key, hcut, hget, h11, hok, haccept key⟩

/-! ### A request -/

/-- The digest of the key below with the GUID. -/
def sampleDigest : Text :=
  [0xb3, 0x7a, 0x4f, 0x2c, 0xc0, 0x62, 0x4f, 0x16, 0x90, 0xf6, 0x46, 0x06, 0xcf, 0x38, 0x59, 0x45,
    0xb2, 0xbe, 0xc4, 0xea]

/-- A request with its headers in mixed case. -/
def sampleRequest : Text :=
  ascii ("GET /chat HTTP/1.1\r\nHost: localhost\r\nUPGRADE: WebSocket\r\n" ++
    "Connection: keep-alive, Upgrade\r\nSec-WebSocket-Key: dGhlIHNhbXBsZSBub25jZQ== \r\n" ++
    "Sec-WebSocket-Version: 13\r\n\r\n")

/-- The case of this request. -/
theorem wsBuildAccept_iff_sample :
    ∃ key, Upgrades sampleRequest key ∧
      ascii "s3pPLMBiTxaQ9kYGzzhZRbK+xOo=" =
        (Py.b64encode sampleDigest).toList.map octet :=
  (@wsBuildAccept_iff (fun _ => some sampleDigest) (fun _ => sampleDigest) (fun _ => rfl) 29 le_rfl
    sampleRequest (ascii "s3pPLMBiTxaQ9kYGzzhZRbK+xOo=")).mp (by decide +kernel)

end SecChat.WsHandshake
