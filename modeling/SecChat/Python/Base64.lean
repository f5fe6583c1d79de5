import Mathlib.Tactic

/-!
# Octet strings and base64

Python's `bytes` is a list of octets.  `urlsafeB64encode` is `base64.urlsafe_b64encode` with the
trailing `=` stripped, and `urlsafeB64decode` is `base64.urlsafe_b64decode` of a text that is first
padded to a multiple of four.  Decoding follows `binascii.a2b_base64` in its default (non-strict)
mode: characters outside the alphabet are skipped, a pad that completes a quad ends the input, and
an incomplete last quad is an error.

* `urlsafeB64decode_encode`: decoding inverts encoding;
* `colon_notMem_urlsafeB64encode`: an encoding can be followed by `:` without ambiguity;
* `b64decode_b64encode`: the same for the standard alphabet with its pads.
-/

namespace Py

/-- Python's `bytes`. -/
abbrev Bytes := List UInt8

/-! ### The alphabet -/

/-- The `n`-th character of the URL-safe alphabet. -/
def b64Char (n : ℕ) : Char :=
  if n < 26 then Char.ofNat (65 + n)
  else if n < 52 then Char.ofNat (71 + n)
  else if n < 62 then Char.ofNat (n - 4)
  else if n = 62 then '-'
  else '_'

/-- The value of a character, in the standard or the URL-safe alphabet. -/
def b64Val (c : Char) : Option ℕ :=
  if 'A' ≤ c ∧ c ≤ 'Z' then some (c.toNat - 65)
  else if 'a' ≤ c ∧ c ≤ 'z' then some (c.toNat - 71)
  else if '0' ≤ c ∧ c ≤ '9' then some (c.toNat + 4)
  else if c = '-' ∨ c = '+' then some 62
  else if c = '_' ∨ c = '/' then some 63
  else none

theorem b64Val_b64Char {n : ℕ} (h : n < 64) : b64Val (b64Char n) = some n := by
  revert n; decide

theorem b64Char_ne_pad {n : ℕ} (h : n < 64) : b64Char n ≠ '=' := by
  revert n; decide

theorem b64Char_isAscii {n : ℕ} (h : n < 64) : (b64Char n).toNat < 128 := by
  revert n; decide

theorem b64Char_ne_colon {n : ℕ} (h : n < 64) : b64Char n ≠ ':' := by
  revert n; decide

/-! ### Encoding -/

/-- The sextets of an octet string, a last group of one or two octets filled up with zero bits. -/
def sextets : Bytes → List ℕ
  | [] => []
  | [a] => [a.toNat / 4, a.toNat % 4 * 16]
  | [a, b] => [a.toNat / 4, a.toNat % 4 * 16 + b.toNat / 16, b.toNat % 16 * 4]
  | a :: b :: c :: rest =>
      a.toNat / 4 :: (a.toNat % 4 * 16 + b.toNat / 16) :: (b.toNat % 16 * 4 + c.toNat / 64) ::
        c.toNat % 64 :: sextets rest

theorem sextets_lt (bs : Bytes) : ∀ n ∈ sextets bs, n < 64 := by
  induction bs using sextets.induct with
  | case1 => simp [sextets]
  | case2 a => have := a.toNat_lt; simp [sextets]; omega
  | case3 a b => have := a.toNat_lt; have := b.toNat_lt; simp [sextets]; omega
  | case4 a b c rest ih =>
    have := a.toNat_lt
    have := b.toNat_lt
    have := c.toNat_lt
    simp only [sextets, List.mem_cons]
    rintro n (rfl | rfl | rfl | rfl | h)
    · omega
    · omega
    · omega
    · omega
    · exact ih n h

/-- `base64.urlsafe_b64encode(raw).decode("ascii").rstrip("=")`. -/
def urlsafeB64encode (raw : Bytes) : String := String.ofList ((sextets raw).map b64Char)

/-! ### Decoding -/

/-- The state of `a2b_base64` between two characters: the octets so far, the position in the
current quad, the bits left over from the previous character and the pads just read. -/
structure Quad where
  out : Bytes
  pos : ℕ
  left : ℕ
  pads : ℕ

/-- One data character with value `v`. -/
def Quad.push (q : Quad) (v : ℕ) : Quad :=
  match q.pos with
  | 0 => ⟨q.out, 1, v, 0⟩
  | 1 => ⟨q.out ++ [UInt8.ofNat (q.left * 4 + v / 16)], 2, v % 16, 0⟩
  | 2 => ⟨q.out ++ [UInt8.ofNat (q.left * 16 + v / 4)], 3, v % 4, 0⟩
  | _ => ⟨q.out ++ [UInt8.ofNat (q.left * 64 + v)], 0, 0, 0⟩

/-- The loop of `a2b_base64`; `none` is `binascii.Error`. -/
def a2bBase64 (q : Quad) : List Char → Option Bytes
  | [] => if q.pos = 0 then some q.out else none
  | c :: cs =>
      if c = '=' then
        if 2 ≤ q.pos then
          if 4 ≤ q.pos + (q.pads + 1) then some q.out
          else a2bBase64 { q with pads := q.pads + 1 } cs
        else a2bBase64 q cs
      else
        match b64Val c with
        | none => a2bBase64 q cs
        | some v => a2bBase64 (q.push v) cs

/-- The pads that fill a text of `n` characters up to a multiple of four. -/
def b64Pads (n : ℕ) : List Char := List.replicate ((4 - n % 4) % 4) '='

/-- `base64.urlsafe_b64decode((text + "=" * (-len(text) % 4)).encode("ascii"))`; `none` when the
text is not ASCII or not base64. -/
def urlsafeB64decode (text : String) : Option Bytes :=
  if text.toList.all (·.toNat < 128) then
    a2bBase64 ⟨[], 0, 0, 0⟩ (text.toList ++ b64Pads text.toList.length)
  else none

theorem a2bBase64_char {q : Quad} {v : ℕ} (h : v < 64) (cs : List Char) :
    a2bBase64 q (b64Char v :: cs) = a2bBase64 (q.push v) cs := by
  rw [a2bBase64, if_neg (b64Char_ne_pad h), b64Val_b64Char h]

/-- Decoding the sextets of `raw` in front of their pads returns `raw` after what was already
decoded. -/
theorem a2bBase64_sextets (raw out : Bytes) (n : ℕ) (hn : n % 4 = 0) :
    a2bBase64 ⟨out, 0, 0, 0⟩
      ((sextets raw).map b64Char ++ b64Pads (n + (sextets raw).length)) = some (out ++ raw) := by
  induction raw using sextets.induct generalizing out n with
  | case1 => simp [sextets, b64Pads, hn, a2bBase64]
  | case2 a =>
    have ha := a.toNat_lt
    have hp : b64Pads (n + 2) = ['=', '='] := by
      have : (4 - (n + 2) % 4) % 4 = 2 := by omega
      simp [b64Pads, this]
    have hv : a.toNat / 4 * 4 + a.toNat % 4 * 16 / 16 = a.toNat := by omega
    simp only [sextets, List.map_cons, List.map_nil, List.length_cons, List.length_nil, zero_add,
      Nat.reduceAdd, hp, List.cons_append, List.nil_append]
    rw [a2bBase64_char (by omega), a2bBase64_char (by omega)]
    simp only [Quad.push, hv, UInt8.ofNat_toNat]
    simp [a2bBase64]
  | case3 a b =>
    have ha := a.toNat_lt
    have hb := b.toNat_lt
    have hp : b64Pads (n + 3) = ['='] := by
      have : (4 - (n + 3) % 4) % 4 = 1 := by omega
      simp [b64Pads, this]
    have hv : a.toNat / 4 * 4 + (a.toNat % 4 * 16 + b.toNat / 16) / 16 = a.toNat := by omega
    have hw : (a.toNat % 4 * 16 + b.toNat / 16) % 16 * 16 + b.toNat % 16 * 4 / 4 = b.toNat := by
      omega
    simp only [sextets, List.map_cons, List.map_nil, List.length_cons, List.length_nil, zero_add,
      Nat.reduceAdd, hp, List.cons_append, List.nil_append]
    rw [a2bBase64_char (by omega), a2bBase64_char (by omega), a2bBase64_char (by omega)]
    simp only [Quad.push, hv, hw, UInt8.ofNat_toNat]
    simp [a2bBase64]
  | case4 a b c rest ih =>
    have ha := a.toNat_lt
    have hb := b.toNat_lt
    have hc := c.toNat_lt
    have hu : a.toNat / 4 * 4 + (a.toNat % 4 * 16 + b.toNat / 16) / 16 = a.toNat := by omega
    have hv : (a.toNat % 4 * 16 + b.toNat / 16) % 16 * 16 + (b.toNat % 16 * 4 + c.toNat / 64) / 4
        = b.toNat := by omega
    have hw : (b.toNat % 16 * 4 + c.toNat / 64) % 4 * 64 + c.toNat % 64 = c.toNat := by omega
    have hlen : n + ((sextets rest).length + 1 + 1 + 1 + 1) = n + 4 + (sextets rest).length := by
      omega
    simp only [sextets, List.map_cons, List.length_cons, hlen, List.cons_append]
    rw [a2bBase64_char (by omega), a2bBase64_char (by omega), a2bBase64_char (by omega),
      a2bBase64_char (by omega)]
    simp only [Quad.push, hu, hv, hw, UInt8.ofNat_toNat, List.append_assoc, List.cons_append,
      List.nil_append]
    rw [ih (out ++ [a, b, c]) (n + 4) (by omega)]
    simp

/-- **Decoding inverts encoding.** -/
@[simp] theorem urlsafeB64decode_encode (raw : Bytes) :
    urlsafeB64decode (urlsafeB64encode raw) = some raw := by
  have hascii : ((sextets raw).map b64Char).all (·.toNat < 128) = true := by
    simp only [List.all_eq_true, List.mem_map, decide_eq_true_eq]
    rintro c ⟨n, hn, rfl⟩
    exact b64Char_isAscii (sextets_lt raw n hn)
  have h := a2bBase64_sextets raw [] 0 rfl
  simp only [zero_add, List.nil_append] at h
  simp only [urlsafeB64decode, urlsafeB64encode, String.toList_ofList, hascii, if_true,
    List.length_map]
  exact h

theorem urlsafeB64encode_injective : Function.Injective urlsafeB64encode := by
  intro a b h
  have hd := congrArg urlsafeB64decode h
  simpa using hd

theorem colon_notMem_urlsafeB64encode (raw : Bytes) : ':' ∉ (urlsafeB64encode raw).toList := by
  simp only [urlsafeB64encode, String.toList_ofList, List.mem_map, not_exists, not_and]
  exact fun n hn => b64Char_ne_colon (sextets_lt raw n hn)

@[simp] theorem urlsafeB64encode_eq_empty {raw : Bytes} : urlsafeB64encode raw = "" ↔ raw = [] := by
  constructor
  · intro h
    exact urlsafeB64encode_injective (h.trans (by decide : "" = urlsafeB64encode []))
  · rintro rfl
    decide

/-! ### The standard alphabet -/

/-- The `n`-th character of the standard alphabet. -/
def stdChar (n : ℕ) : Char := if n = 62 then '+' else if n = 63 then '/' else b64Char n

/-- `base64.b64encode(raw).decode()`. -/
def b64encode (raw : Bytes) : String :=
  String.ofList ((sextets raw).map stdChar ++ b64Pads (sextets raw).length)

/-- `base64.b64decode(text.encode())`, where `-` and `_` are outside the alphabet. -/
def b64decode (text : String) : Option Bytes :=
  a2bBase64 ⟨[], 0, 0, 0⟩ (text.toList.filter fun c => c ≠ '-' ∧ c ≠ '_')

theorem b64Val_stdChar {n : ℕ} (h : n < 64) : b64Val (stdChar n) = some n := by
  revert n; decide

theorem stdChar_ne_pad {n : ℕ} (h : n < 64) : stdChar n ≠ '=' := by
  revert n; decide

theorem stdChar_ne_urlsafe {n : ℕ} (h : n < 64) : stdChar n ≠ '-' ∧ stdChar n ≠ '_' := by
  revert n; decide

theorem stdChar_range {n : ℕ} (h : n < 64) : 32 < (stdChar n).toNat ∧ (stdChar n).toNat < 127 := by
  revert n; decide

/-- The decoder does not tell the alphabets apart. -/
theorem a2bBase64_stdChar {ns : List ℕ} (h : ∀ n ∈ ns, n < 64) (q : Quad) (rest : List Char) :
    a2bBase64 q (ns.map stdChar ++ rest) = a2bBase64 q (ns.map b64Char ++ rest) := by
  induction ns generalizing q with
  | nil => rfl
  | cons n ns ih =>
    have hn := h n List.mem_cons_self
    rw [List.map_cons, List.cons_append, List.map_cons, List.cons_append, a2bBase64_char hn,
      a2bBase64, if_neg (stdChar_ne_pad hn), b64Val_stdChar hn]
    exact ih (fun m hm => h m (List.mem_cons_of_mem _ hm)) _

/-- An encoding is printable ASCII without blanks, `-` and `_`. -/
theorem b64encode_chars (raw : Bytes) : ∀ c ∈ (b64encode raw).toList,
    (32 < c.toNat ∧ c.toNat < 127) ∧ c ≠ '-' ∧ c ≠ '_' := by
  intro c hc
  rw [b64encode, String.toList_ofList, List.mem_append] at hc
  rcases hc with hc | hc
  · obtain ⟨n, hn, rfl⟩ := List.mem_map.mp hc
    have h := sextets_lt raw n hn
    exact ⟨stdChar_range h, stdChar_ne_urlsafe h⟩
  · obtain rfl := List.eq_of_mem_replicate hc
    decide

/-- **Decoding inverts encoding**, in the standard alphabet too. -/
@[simp] theorem b64decode_b64encode (raw : Bytes) : b64decode (b64encode raw) = some raw := by
  have hfilter : (b64encode raw).toList.filter (fun c => c ≠ '-' ∧ c ≠ '_') =
      (b64encode raw).toList := by
    rw [List.filter_eq_self]
    intro c hc
    simpa using (b64encode_chars raw c hc).2
  have h := a2bBase64_sextets raw [] 0 rfl
  simp only [zero_add, List.nil_append] at h
  rw [b64decode, hfilter, b64encode, String.toList_ofList, a2bBase64_stdChar (sextets_lt raw)]
  exact h

theorem b64encode_ne_empty {raw : Bytes} (h : raw ≠ []) : b64encode raw ≠ "" := by
  intro hempty
  have hd := b64decode_b64encode raw
  rw [hempty] at hd
  exact h (Option.some.inj hd).symm

end Py
