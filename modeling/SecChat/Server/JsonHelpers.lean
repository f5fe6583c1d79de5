import SecChat.Library.JsonReader

/-!
# Strings on their way into a frame

`json_esc` escapes a C string into an array of fixed size.  Its loop stops as soon as another escape of
six octets and a zero might not fit, so what it writes is the escape of a prefix of the string.

* `escByte`, `jsonEsc`, `kept`: the escape of an octet and of a string, and the prefix that is escaped;
* `content_jsonEsc`: between quotes the escape is read as the prefix;
* `kept_eq_self_iff`, `kept_eq_iff`: where the loop stops;
* `length_jsonEsc_le`, `length_jsonEsc_le_mul`, `jsonEsc_of_plain`: how long an escape is.
-/

namespace SecChat.JsonHelpers

open CText JsonReader

/-! ### One octet -/

/-- A digit of `%04x`. -/
def hexChar (n : ℕ) : UInt8 := octet n.digitChar

/-- What `json_esc` writes for an octet. -/
def escByte (c : UInt8) : Text :=
  if c = quote then [backslash, quote]
  else if c = backslash then [backslash, backslash]
  else if c = 0x0a then [backslash, octet 'n']
  else if c = 0x0d then [backslash, octet 'r']
  else if c = 0x09 then [backslash, octet 't']
  else if c < 0x20 then
    [backslash, octet 'u', hexChar 0, hexChar 0, hexChar (c.toNat / 16), hexChar (c.toNat % 16)]
  else [c]

theorem escByte_of_plain {c : UInt8} (h : Plain c) : escByte c = [c] := by
  obtain ⟨hquote, hback, hctl⟩ := h
  have hne : ∀ d : UInt8, d < 0x20 → c ≠ d := by
    rintro d hd rfl
    exact hctl hd
  simp [escByte, hquote, hback, hctl, hne 0x0a (by decide), hne 0x0d (by decide),
    hne 0x09 (by decide)]

theorem length_escByte_pos (c : UInt8) : 0 < (escByte c).length := by
  unfold escByte
  split_ifs <;> simp

theorem length_escByte_le (c : UInt8) : (escByte c).length ≤ 6 := by
  unfold escByte
  split_ifs <;> simp

/-- Only control characters other than white space take more than two octets. -/
theorem length_escByte_le_two {c : UInt8} (h : ¬ c < 0x20 ∨ c = 0x09 ∨ c = 0x0a ∨ c = 0x0d) :
    (escByte c).length ≤ 2 := by
  unfold escByte
  split_ifs with hquote hback hn hr ht hctl
  all_goals try exact le_rfl
  · rcases h with h | h | h | h
    · exact absurd hctl h
    · exact absurd h ht
    · exact absurd h hn
    · exact absurd h hr
  · simp

theorem hexDigit_hexChar {n : ℕ} (h : n < 16) : hexDigit (hexChar n) = some n := by
  interval_cases n <;> rfl

/-- Four digits after `\u`. -/
theorem run_unicode {stack : List Ctx} {t : Target} {acc : Text} {high : Option ℕ} {a b c d : UInt8}
    {w x y z : ℕ} (ha : hexDigit a = some w) (hb : hexDigit b = some x) (hc : hexDigit c = some y)
    (hd : hexDigit d = some z) :
    JsonReader.run ⟨stack, .unicode t acc high []⟩ [a, b, c, d] =
      (endUnicode t acc high (((w * 16 + x) * 16 + y) * 16 + z)).map fun m => ⟨stack, m⟩ := by
  simp only [JsonReader.run, JsonReader.step, ha, hb, hc, hd, Option.bind_some, List.nil_append,
    List.cons_append]
  cases endUnicode t acc high (((w * 16 + x) * 16 + y) * 16 + z) <;> rfl

theorem content_escByte (c : UInt8) : Content (escByte c) [c] := by
  by_cases hplain : Plain c
  · rw [escByte_of_plain hplain]
    exact content_single hplain
  intro stack target acc
  unfold escByte
  split_ifs with hquote hback hn hr ht hctl
  · rw [hquote]; rfl
  · rw [hback]; rfl
  · rw [hn]; rfl
  · rw [hr]; rfl
  · rw [ht]; rfl
  · have hc : c.toNat < 32 := by simpa using UInt8.lt_iff_toNat_lt.mp hctl
    have hopen : ∀ rest,
        JsonReader.run ⟨stack, .string target acc⟩ (backslash :: octet 'u' :: rest) =
          JsonReader.run ⟨stack, .unicode target acc none []⟩ rest := fun rest => rfl
    have hvalue : ((0 * 16 + 0) * 16 + c.toNat / 16) * 16 + c.toNat % 16 = c.toNat := by omega
    have hend : endUnicode target acc none c.toNat = some (.string target (acc ++ [c])) := by
      simp [endUnicode, utf8, show ¬ 55296 ≤ c.toNat by omega, show ¬ 56320 ≤ c.toNat by omega,
        show c.toNat < 128 by omega]
    have hzero : hexDigit (hexChar 0) = some 0 := rfl
    rw [hopen, run_unicode hzero hzero (hexDigit_hexChar (show c.toNat / 16 < 16 by omega))
      (hexDigit_hexChar (show c.toNat % 16 < 16 by omega)), hvalue, hend]
    rfl
  · exact absurd ⟨hquote, hback, hctl⟩ hplain

/-! ### The loop -/

/-- The loop of `json_esc` after `j` octets of output. -/
def escLoop (maxout : ℕ) : ℕ → Text → Text
  | _, [] => []
  | j, c :: cs =>
      if j + 7 < maxout then escByte c ++ escLoop maxout (j + (escByte c).length) cs else []

/-- `json_esc(s, out, maxout)`. -/
def jsonEsc (s : Text) (maxout : ℕ) : Text := escLoop maxout 0 s

/-- The escape of a string with room for all of it. -/
def escText (s : Text) : Text := s.flatMap escByte

@[simp] theorem escText_nil : escText [] = [] := rfl

@[simp] theorem escText_cons (c : UInt8) (s : Text) : escText (c :: s) = escByte c ++ escText s := rfl

@[simp] theorem escText_append (s t : Text) : escText (s ++ t) = escText s ++ escText t := by
  simp [escText]

/-- The octets that the loop escapes. -/
def keptFrom (maxout : ℕ) : ℕ → Text → Text
  | _, [] => []
  | j, c :: cs =>
      if j + 7 < maxout then c :: keptFrom maxout (j + (escByte c).length) cs else []

/-- The prefix of a string that `json_esc` escapes. -/
def kept (s : Text) (maxout : ℕ) : Text := keptFrom maxout 0 s

theorem escLoop_eq (maxout j : ℕ) (s : Text) :
    escLoop maxout j s = escText (keptFrom maxout j s) := by
  induction s generalizing j with
  | nil => rfl
  | cons c s ih =>
    unfold escLoop keptFrom
    split_ifs
    · rw [ih, escText_cons]
    · rfl

theorem jsonEsc_eq (s : Text) (maxout : ℕ) : jsonEsc s maxout = escText (kept s maxout) :=
  escLoop_eq maxout 0 s

theorem keptFrom_isPrefix (maxout j : ℕ) (s : Text) : keptFrom maxout j s <+: s := by
  induction s generalizing j with
  | nil => exact List.prefix_rfl
  | cons c s ih =>
    unfold keptFrom
    split_ifs
    · exact List.cons_prefix_cons.mpr ⟨rfl, ih _⟩
    · exact List.nil_prefix

theorem kept_isPrefix (s : Text) (maxout : ℕ) : kept s maxout <+: s := keptFrom_isPrefix maxout 0 s

/-- The loop goes on as long as its test holds, and stops at the first octet for which it fails. -/
theorem keptFrom_eq_iff {maxout j : ℕ} {t u : Text} :
    keptFrom maxout j (t ++ u) = t ↔
      (∀ v w, t = v ++ w → w ≠ [] → j + (escText v).length + 7 < maxout) ∧
        (u = [] ∨ ¬ j + (escText t).length + 7 < maxout) := by
  induction t generalizing j with
  | nil =>
    cases u with
    | nil => simp [keptFrom]
    | cons c u =>
      rw [List.nil_append, keptFrom]
      split_ifs with h <;> simp [h]
  | cons c t ih =>
    rw [List.cons_append, keptFrom]
    split_ifs with h
    · rw [List.cons.injEq, eq_self_iff_true, true_and, ih]
      have hstop : j + (escByte c).length + (escText t).length + 7 < maxout ↔
          j + (escText (c :: t)).length + 7 < maxout := by
        rw [escText_cons, List.length_append]
        omega
      rw [hstop]
      refine and_congr_left fun _ => ⟨fun hv v w heq hw => ?_, fun hv v w heq hw => ?_⟩
      · cases v with
        | nil => simpa using h
        | cons d v =>
          obtain ⟨rfl, rfl⟩ := List.cons.inj heq
          have := hv v w rfl hw
          rw [escText_cons, List.length_append]
          omega
      · have := hv (c :: v) w (by rw [heq]; rfl) hw
        rw [escText_cons, List.length_append] at this
        omega
    · refine ⟨fun heq => absurd heq (by simp), fun hv => absurd ?_ h⟩
      simpa using hv.1 [] (c :: t) rfl (by simp)

/-- **What `json_esc` keeps of a string.** -/
theorem kept_eq_iff {maxout : ℕ} {t u : Text} :
    kept (t ++ u) maxout = t ↔
      (∀ v w, t = v ++ w → w ≠ [] → (escText v).length + 7 < maxout) ∧
        (u = [] ∨ ¬ (escText t).length + 7 < maxout) := by
  have h := @keptFrom_eq_iff maxout 0 t u
  simpa [kept] using h

/-- Nothing is lost as long as the test holds before the last octet. -/
theorem kept_eq_self_iff {s : Text} {maxout : ℕ} :
    kept s maxout = s ↔ s = [] ∨ (escText s.dropLast).length + 7 < maxout := by
  have h := @kept_eq_iff maxout s []
  rw [List.append_nil] at h
  rw [h]
  constructor
  · rintro ⟨hv, -⟩
    by_cases hs : s = []
    · exact .inl hs
    · exact .inr (hv s.dropLast [s.getLast hs] (List.dropLast_append_getLast hs).symm (by simp))
  · rintro (rfl | hlt)
    · refine ⟨fun v w heq hw => absurd ?_ hw, .inl rfl⟩
      exact (List.append_eq_nil_iff.mp heq.symm).2
    · refine ⟨fun v w heq hw => ?_, .inl rfl⟩
      have hlast : s.dropLast = v ++ w.dropLast := by rw [heq, List.dropLast_append_of_ne_nil hw]
      rw [hlast, escText_append, List.length_append] at hlt
      omega

/-! ### What the escape is read as -/

theorem content_escText (s : Text) : Content (escText s) s := by
  induction s with
  | nil => exact Content.nil
  | cons c s ih => exact (content_escByte c).append ih

/-- **An escape is read as what was kept of the string.** -/
theorem content_jsonEsc (s : Text) (maxout : ℕ) : Content (jsonEsc s maxout) (kept s maxout) := by
  rw [jsonEsc_eq]
  exact content_escText _

/-! ### Lengths -/

theorem length_escLoop_le {maxout j : ℕ} (s : Text) (hj : j + 2 ≤ maxout) :
    j + (escLoop maxout j s).length + 2 ≤ maxout := by
  induction s generalizing j with
  | nil => simpa [escLoop] using hj
  | cons c s ih =>
    unfold escLoop
    split_ifs with h
    · have hnext := ih (j := j + (escByte c).length) (by have := length_escByte_le c; omega)
      rw [List.length_append]
      omega
    · simpa using hj

/-- An escape leaves two octets of the array free. -/
theorem length_jsonEsc_le {s : Text} {maxout : ℕ} (h : 2 ≤ maxout) :
    (jsonEsc s maxout).length + 2 ≤ maxout := by
  simpa [jsonEsc] using length_escLoop_le (j := 0) s (by omega)

theorem length_escText_le (s : Text) : (escText s).length ≤ 6 * s.length := by
  induction s with
  | nil => rfl
  | cons c s ih =>
    have := length_escByte_le c
    rw [escText_cons, List.length_append, List.length_cons]
    omega

theorem length_escText_le_two {s : Text} (h : ∀ c ∈ s, ¬ c < 0x20 ∨ c = 0x09 ∨ c = 0x0a ∨ c = 0x0d) :
    (escText s).length ≤ 2 * s.length := by
  induction s with
  | nil => rfl
  | cons c s ih =>
    have hc := length_escByte_le_two (h c (by simp))
    have hs := ih fun d hd => h d (by simp [hd])
    rw [escText_cons, List.length_append, List.length_cons]
    omega

theorem escText_of_plain {s : Text} (h : ∀ c ∈ s, Plain c) : escText s = s := by
  induction s with
  | nil => rfl
  | cons c s ih =>
    rw [escText_cons, escByte_of_plain (h c (by simp)), ih fun d hd => h d (by simp [hd])]
    rfl

/-- A string without anything to escape that fits. -/
theorem jsonEsc_of_plain {s : Text} {maxout : ℕ} (h : ∀ c ∈ s, Plain c) (hlen : s.length + 7 ≤ maxout) :
    jsonEsc s maxout = s := by
  have hkept : kept s maxout = s := by
    refine kept_eq_self_iff.mpr ?_
    by_cases hs : s = []
    · exact .inl hs
    · have hpos := List.length_pos_iff.mpr hs
      rw [escText_of_plain fun c hc => h c (List.dropLast_subset s hc), List.length_dropLast]
      exact .inr (by omega)
  rw [jsonEsc_eq, hkept, escText_of_plain h]

end SecChat.JsonHelpers
