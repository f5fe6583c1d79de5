import SecChat.Server.JsonHelpers

/-!
# An escape in its array

`json_esc` as it writes: one octet after the other into an array, where a write that is not inside the
array has no meaning.

* `put`, `puts`, `snprintf`: writes into an array;
* `escStep`, `escFrom`, `jsonEscInto`: the code;
* `StringBody`: text that can stand between quotes;
* `jsonEscInto_eq`: every write is inside the array, and the string in it is `jsonEsc`;
* `json_esc_safe`: the string in the array stands for a prefix of the input, and for all of it when the
  array is large enough.
-/

namespace SecChat.JsonEscape

open CText JsonReader JsonHelpers

/-! ### Arrays -/

/-- `out[k] = c`. -/
def put (out : List UInt8) (k : ℕ) (c : UInt8) : Option (List UInt8) :=
  if k < out.length then some (out.set k c) else none

/-- Octets are written one after the other. -/
def puts (out : List UInt8) (k : ℕ) : Text → Option (List UInt8)
  | [] => some out
  | c :: cs => (put out k c).bind fun out => puts out (k + 1) cs

/-- `snprintf(out + k, size, ...)` of a text: what fits, and a zero. -/
def snprintf (out : List UInt8) (k size : ℕ) (t : Text) : Option (List UInt8) :=
  if size = 0 then some out else puts out k (t.take (size - 1) ++ [0])

/-- The string in an array. -/
def cstr (out : List UInt8) : Text := out.takeWhile fun c => c ≠ 0

theorem puts_eq {out : List UInt8} {k : ℕ} {t : Text} (h : k + t.length ≤ out.length) :
    puts out k t = some (out.take k ++ t ++ out.drop (k + t.length)) := by
  induction t generalizing out k with
  | nil => simp [puts]
  | cons c t ih =>
    rw [List.length_cons] at h
    have hk : k < out.length := by omega
    rw [puts, put, if_pos hk, Option.bind_some, ih (by rw [List.length_set]; omega)]
    have htake : (out.set k c).take (k + 1) = out.take k ++ [c] := by
      rw [List.take_set, List.take_add_one, List.getElem?_eq_getElem hk, Option.toList_some,
        List.set_append_right _ _ (by simp), List.length_take]
      simp [Nat.min_eq_left hk.le]
    have hdrop : (out.set k c).drop (k + 1 + t.length) = out.drop (k + (c :: t).length) := by
      rw [List.drop_set_of_lt (by omega), List.length_cons]
      congr 1
      omega
    rw [htake, hdrop]
    simp

/-! ### The code -/

/-- One turn of the loop: the array and the next offset. -/
def escStep (maxout : ℕ) (out : List UInt8) (j : ℕ) (c : UInt8) : Option (List UInt8 × ℕ) :=
  if c = quote then (puts out j [backslash, quote]).map (·, j + 2)
  else if c = backslash then (puts out j [backslash, backslash]).map (·, j + 2)
  else if c = 0x0a then (puts out j [backslash, octet 'n']).map (·, j + 2)
  else if c = 0x0d then (puts out j [backslash, octet 'r']).map (·, j + 2)
  else if c = 0x09 then (puts out j [backslash, octet 't']).map (·, j + 2)
  else if c < 0x20 then
    let text : Text :=
      [backslash, octet 'u', hexChar 0, hexChar 0, hexChar (c.toNat / 16), hexChar (c.toNat % 16)]
    (snprintf out j (maxout - j) text).map (·, j + text.length)
  else (puts out j [c]).map (·, j + 1)

/-- The loop, for the octets of the input from here on.  Past their end nothing can be read. -/
def escFrom (maxout : ℤ) : List UInt8 → List UInt8 → ℕ → Option (List UInt8 × ℕ)
  | [], _, _ => none
  | c :: cs, out, j =>
      -- the longest escape takes six octets, and the zero one more
      if c ≠ 0 ∧ (j : ℤ) < maxout - 7 then
        (escStep maxout.toNat out j c).bind fun (out, j) => escFrom maxout cs out j
      else some (out, j)

/-- `json_esc(in, out, maxout)`, where the input may be `NULL`. -/
def jsonEscInto (inp : Option (List UInt8)) (out : List UInt8) (maxout : ℤ) : Option (List UInt8) :=
  if maxout ≤ 0 then some out
  else
    match inp with
    | none => put out 0 0
    | some inp => (escFrom maxout inp out 0).bind fun (out, j) => put out j 0

/-! ### Text between quotes -/

/-- Text without a bare quote, a control character or a backslash that starts no escape. -/
inductive StringBody : Text → Prop
  | nil : StringBody []
  | plain {c : UInt8} {t : Text} (hc : Plain c) (ht : StringBody t) : StringBody (c :: t)
  | pair {c d : UInt8} {t : Text} (hc : unescape c = some d) (ht : StringBody t) :
      StringBody (backslash :: c :: t)
  | unicode {a b c d : UInt8} {t : Text} (ha : (hexDigit a).isSome) (hb : (hexDigit b).isSome)
      (hc : (hexDigit c).isSome) (hd : (hexDigit d).isSome) (ht : StringBody t) :
      StringBody (backslash :: octet 'u' :: a :: b :: c :: d :: t)

theorem StringBody.append {t u : Text} (ht : StringBody t) (hu : StringBody u) :
    StringBody (t ++ u) := by
  induction ht with
  | nil => exact hu
  | plain hc _ ih => exact .plain hc ih
  | pair hc _ ih => exact .pair hc ih
  | unicode ha hb hc hd _ ih => exact .unicode ha hb hc hd ih

theorem stringBody_escByte (c : UInt8) : StringBody (escByte c) := by
  by_cases hplain : Plain c
  · rw [escByte_of_plain hplain]
    exact .plain hplain .nil
  unfold escByte
  split_ifs with hquote hback hn hr ht hctl
  · exact .pair (d := quote) rfl .nil
  · exact .pair (d := backslash) rfl .nil
  · exact .pair (d := 0x0a) rfl .nil
  · exact .pair (d := 0x0d) rfl .nil
  · exact .pair (d := 0x09) rfl .nil
  · have hc : c.toNat < 32 := by simpa using UInt8.lt_iff_toNat_lt.mp hctl
    refine .unicode rfl rfl ?_ ?_ .nil
    · rw [hexDigit_hexChar (by omega)]
      rfl
    · rw [hexDigit_hexChar (by omega)]
      rfl
  · exact absurd ⟨hquote, hback, hctl⟩ hplain

theorem stringBody_escText (s : Text) : StringBody (escText s) := by
  induction s with
  | nil => exact .nil
  | cons c s ih => exact (stringBody_escByte c).append ih

theorem not_control_of_unescape {c d : UInt8} (h : unescape c = some d) : ¬ c < 0x20 := by
  rintro hc
  unfold unescape at h
  split_ifs at h with hsame hb hf hn hr ht
  · rcases hsame with rfl | rfl | rfl <;> exact absurd hc (by decide)
  · exact absurd hc (hb ▸ by decide)
  · exact absurd hc (hf ▸ by decide)
  · exact absurd hc (hn ▸ by decide)
  · exact absurd hc (hr ▸ by decide)
  · exact absurd hc (ht ▸ by decide)

theorem not_control_of_hexDigit {c : UInt8} (h : (hexDigit c).isSome) : ¬ c < 0x20 := by
  intro hc
  have hlt : c.toNat < 32 := UInt8.lt_iff_toNat_lt.mp hc
  have hdigit : isDigit c = false := by
    simp only [isDigit, UInt8.le_iff_toNat_le, decide_eq_false_iff_not]
    exact fun hd => absurd hd.1 (by show ¬ 48 ≤ c.toNat; omega)
  unfold hexDigit at h
  rw [hdigit, if_neg Bool.false_ne_true, if_neg, if_neg] at h
  · cases h
  · exact fun hd => absurd (UInt8.le_iff_toNat_le.mp hd.1) (by show ¬ 65 ≤ c.toNat; omega)
  · exact fun hd => absurd (UInt8.le_iff_toNat_le.mp hd.1) (by show ¬ 97 ≤ c.toNat; omega)

/-- There is no control character, escaped or not. -/
theorem StringBody.not_control {t : Text} (h : StringBody t) : ∀ c ∈ t, ¬ c < 0x20 := by
  induction h with
  | nil => exact fun c hc => absurd hc List.not_mem_nil
  | plain hc _ ih => exact List.forall_mem_cons.mpr ⟨hc.2.2, ih⟩
  | pair hc _ ih =>
    exact List.forall_mem_cons.mpr
      ⟨by decide, List.forall_mem_cons.mpr ⟨not_control_of_unescape hc, ih⟩⟩
  | unicode ha hb hc hd _ ih =>
    intro x hx
    simp only [List.mem_cons] at hx
    rcases hx with rfl | rfl | rfl | rfl | rfl | rfl | hx
    · decide
    · decide
    · exact not_control_of_hexDigit ha
    · exact not_control_of_hexDigit hb
    · exact not_control_of_hexDigit hc
    · exact not_control_of_hexDigit hd
    · exact ih x hx

/-! ### The loop -/

/-- An array whose string so far is `text`. -/
structure Filled (out : List UInt8) (size : ℕ) (text : Text) : Prop where
  size : out.length = size
  text : out.take text.length = text

/-- Octets are written behind the text. -/
theorem Filled.puts {out : List UInt8} {size : ℕ} {text t : Text} (h : Filled out size text)
    (hroom : text.length + t.length ≤ size) :
    ∃ out', puts out text.length t = some out' ∧ Filled out' size (text ++ t) := by
  have hlen := h.size
  refine ⟨_, puts_eq (by omega), ?_, ?_⟩
  · simp only [List.length_append, List.length_take, List.length_drop]
    omega
  · rw [h.text, ← List.length_append, List.take_left]

/-- What follows the text is not looked at. -/
theorem Filled.left {out : List UInt8} {size : ℕ} {text t : Text} (h : Filled out size (text ++ t)) :
    Filled out size text := by
  refine ⟨h.size, ?_⟩
  have htake := congrArg (List.take text.length) h.text
  rwa [List.take_take, List.length_append, Nat.min_eq_left (by omega), List.take_left] at htake

/-- **One turn** writes the escape of its octet, and the zero of `snprintf` is still inside. -/
theorem escStep_eq {out : List UInt8} {size : ℕ} {text : Text} (h : Filled out size text)
    (hroom : text.length + 7 < size) (c : UInt8) :
    ∃ out', escStep size out text.length c = some (out', (text ++ escByte c).length) ∧
      Filled out' size (text ++ escByte c) := by
  have hputs : ∀ t : Text, t.length ≤ 6 → ∃ out',
      (JsonEscape.puts out text.length t).map (·, text.length + t.length) =
        some (out', (text ++ t).length) ∧ Filled out' size (text ++ t) := by
    intro t ht
    obtain ⟨out', hout, hfilled⟩ := h.puts (t := t) (by omega)
    exact ⟨out', by rw [hout, List.length_append]; rfl, hfilled⟩
  unfold escStep escByte
  split_ifs
  · exact hputs [backslash, quote] (by decide)
  · exact hputs [backslash, backslash] (by decide)
  · exact hputs [backslash, octet 'n'] (by decide)
  · exact hputs [backslash, octet 'r'] (by decide)
  · exact hputs [backslash, octet 't'] (by decide)
  · dsimp only
    generalize hesc : ([backslash, octet 'u', hexChar 0, hexChar 0, hexChar (c.toNat / 16),
      hexChar (c.toNat % 16)] : Text) = t
    have hlen : t.length = 6 := by rw [← hesc]; rfl
    -- `snprintf` writes a zero as well, which the next turn writes over
    obtain ⟨out', hout, hfilled⟩ := h.puts (t := t ++ [0]) (by simp [hlen]; omega)
    rw [← List.append_assoc] at hfilled
    refine ⟨out', ?_, hfilled.left⟩
    rw [snprintf, if_neg (by omega), List.take_of_length_le (by omega), hout, List.length_append]
    rfl
  · exact hputs [c] (by simp)

/-- **The loop** for a string with its zero. -/
theorem escFrom_eq {size : ℕ} {s : Text} (hs : 0 ∉ s) (rest : Text) {out : List UInt8} {text : Text}
    (h : Filled out size text) (hroom : text.length < size) :
    ∃ out', escFrom size (s ++ 0 :: rest) out text.length =
        some (out', (text ++ escLoop size text.length s).length) ∧
      Filled out' size (text ++ escLoop size text.length s) ∧
      (text ++ escLoop size text.length s).length < size := by
  induction s generalizing out text with
  | nil =>
    refine ⟨out, ?_, ?_⟩
    · simp [escFrom, escLoop]
    · simpa [escLoop] using ⟨h, hroom⟩
  | cons c s ih =>
    rw [List.mem_cons, not_or] at hs
    obtain ⟨hc, hs⟩ := hs
    rw [List.cons_append, escFrom, escLoop]
    by_cases hmore : text.length + 7 < size
    · obtain ⟨out', hstep, hfilled⟩ := escStep_eq h hmore c
      have hlen := length_escByte_le c
      have hnext := ih hs hfilled (by rw [List.length_append]; omega)
      rw [if_pos ⟨Ne.symm hc, by omega⟩, if_pos hmore, Int.toNat_natCast, hstep, Option.bind_some]
      simpa [List.append_assoc] using hnext
    · rw [if_neg fun hgo => hmore (by omega), if_neg hmore]
      exact ⟨out, by simp, by simpa using h, by simpa using hroom⟩

/-- The string in an array with a zero behind its text. -/
theorem cstr_eq {out : List UInt8} {text : Text} (hzero : 0 ∉ text)
    (h : out.take (text.length + 1) = text ++ [0]) : cstr out = text := by
  rw [cstr, ← List.take_append_drop (text.length + 1) out, h, List.append_assoc,
    List.takeWhile_append_of_pos fun c hc => ?_]
  · simp
  · rw [decide_eq_true_eq]
    rintro rfl
    exact hzero hc

/-- **The array after `json_esc`.** Every write was inside it, and its string is the escape. -/
theorem jsonEscInto_eq {s : Text} (hs : 0 ∉ s) (rest : Text) {out : List UInt8}
    (hout : 0 < out.length) :
    ∃ out', jsonEscInto (some (s ++ 0 :: rest)) out out.length = some out' ∧
      out'.length = out.length ∧ 0 ∈ out' ∧ cstr out' = jsonEsc s out.length := by
  have hempty : Filled out out.length [] := ⟨rfl, by simp⟩
  obtain ⟨out', hloop, hfilled, hroom⟩ := escFrom_eq hs rest hempty hout
  simp only [List.nil_append, List.length_nil] at hloop hfilled hroom
  have hjson : escLoop out.length 0 s = jsonEsc s out.length := rfl
  rw [hjson] at hloop hfilled hroom
  obtain ⟨out'', hput, hfilled'⟩ := hfilled.puts (t := [0]) (by simpa using hroom)
  have htext := hfilled'.text
  rw [List.length_append, List.length_singleton] at htext
  refine ⟨out'', ?_, hfilled'.size, ?_, ?_⟩
  · rw [jsonEscInto, if_neg (by omega)]
    dsimp only
    rw [hloop, Option.bind_some]
    simpa [puts] using hput
  · refine List.mem_of_mem_take (i := (jsonEsc s out.length).length + 1) ?_
    rw [htext]
    simp
  · refine cstr_eq (fun hzero => ?_) htext
    rw [jsonEsc_eq] at hzero
    exact (stringBody_escText _).not_control 0 hzero (by decide)

/-- With this much room nothing is cut. -/
theorem kept_eq_self {s : Text} {maxout : ℕ} (h : 6 * s.length + 8 ≤ maxout) : kept s maxout = s := by
  rw [kept_eq_self_iff]
  by_cases hs : s = []
  · exact .inl hs
  · have hlen := length_escText_le s.dropLast
    have hpos := List.length_pos_iff.mpr hs
    rw [List.length_dropLast] at hlen
    exact .inr (by omega)

/-- **`json_esc` is safe and faithful.** For every string and every array: the writes stay inside, the
array ends up with a string, which can stand between quotes and is read as a prefix of the input, and
as the whole input if the array has six octets for each of its own and eight more. -/
theorem json_esc_safe (s rest : Text) (hs : 0 ∉ s) (out : List UInt8) (maxout : ℤ) (hpos : 0 < maxout)
    (hout : (out.length : ℤ) = maxout) :
    ∃ out', jsonEscInto (some (s ++ 0 :: rest)) out maxout = some out' ∧
      out'.length = out.length ∧ 0 ∈ out' ∧ StringBody (cstr out') ∧
      ∃ t, t <+: s ∧ Content (cstr out') t ∧ (6 * s.length + 8 ≤ maxout → t = s) := by
  subst hout
  obtain ⟨out', hrun, hlen, hzero, hcstr⟩ := jsonEscInto_eq hs rest
    (show 0 < out.length by omega)
  refine ⟨out', hrun, hlen, hzero, ?_, kept s out.length, kept_isPrefix s _, ?_, fun hroom => ?_⟩
  · rw [hcstr, jsonEsc_eq]
    exact stringBody_escText _
  · rw [hcstr]
    exact content_jsonEsc s _
  · exact kept_eq_self (by omega)

/-- A quote and a line end in an array of ten octets. -/
theorem json_esc_safe_ten :
    ∃ out', jsonEscInto (some (ascii "\"\n" ++ 0 :: [])) (List.replicate 10 0) 10 = some out' ∧
      out'.length = (List.replicate 10 (0 : UInt8)).length ∧ 0 ∈ out' ∧ StringBody (cstr out') ∧
      ∃ t, t <+: ascii "\"\n" ∧ Content (cstr out') t ∧
        (6 * (ascii "\"\n").length + 8 ≤ (10 : ℤ) → t = ascii "\"\n") :=
  json_esc_safe (ascii "\"\n") [] (by decide) (List.replicate 10 0) 10 (by decide) (by decide)

end SecChat.JsonEscape
