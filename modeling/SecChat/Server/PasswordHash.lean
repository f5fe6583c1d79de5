import SecChat.Server.JsonHelpers

/-!
# Stored passwords (`infra/crypto.c`, `services/auth.c`)

* `hexEncode`, `hexDecode`, `hexDecode_hexEncode`: octets as hex digits and back;
* `storedHash`: the text of the column `password_hash`, a salt and what `pbkdf2_sha256` derives under it;
* `verify`: the check of a password against such a text, as `handle_auth` and `handle_change_password`
  make it;
* `verify_storedHash`: against a text that the server wrote it compares what the two passwords give.
-/

namespace SecChat.PasswordHash

open CText JsonReader JsonHelpers

/-! ### Hex digits -/

/-- `hex_encode`. -/
def hexEncode (raw : Text) : Text := raw.flatMap fun b => [hexChar (b.toNat / 16), hexChar (b.toNat % 16)]

/-- `isspace`. -/
def isSpace (c : UInt8) : Bool := c = 0x20 ∨ (0x09 ≤ c ∧ c ≤ 0x0d)

/-- `sscanf(hex, "%2x", &val)`, cut to an octet: at most two characters after white space, the first of
which may be a sign. `0x` alone is the start of a number and no number. -/
def scanHex2 (hex : Text) : Option UInt8 :=
  match hex.dropWhile isSpace with
  | [] => none
  | c :: rest =>
      if c = octet '+' ∨ c = octet '-' then
        match rest.head?.bind hexDigit with
        | none => none
        | some v => some (if c = octet '-' then 0 - UInt8.ofNat v else UInt8.ofNat v)
      else
        match hexDigit c with
        | none => none
        | some v =>
            if c = octet '0' ∧ (rest.head? = some (octet 'x') ∨ rest.head? = some (octet 'X')) then none
            else
              match rest.head?.bind hexDigit with
              | none => some (UInt8.ofNat v)
              | some w => some (UInt8.ofNat (v * 16 + w))

/-- The loop of `hex_decode`. -/
def scanPairs : ℕ → Text → Option Text
  | 0, _ => some []
  | n + 1, hex =>
      match scanHex2 hex with
      | none => none
      | some b => (scanPairs n (hex.drop 2)).map (b :: ·)

/-- `hex_decode`; `none` is `-1`. -/
def hexDecode (hex : Text) (maxOut : ℕ) : Option Text :=
  if hex.length % 2 ≠ 0 then none
  else if maxOut < hex.length / 2 then none
  else scanPairs (hex.length / 2) hex

theorem length_hexEncode (raw : Text) : (hexEncode raw).length = 2 * raw.length := by
  induction raw with
  | nil => rfl
  | cons b raw ih =>
    have hcons : hexEncode (b :: raw) =
      hexChar (b.toNat / 16) :: hexChar (b.toNat % 16) :: hexEncode raw := rfl
    rw [hcons, List.length_cons, List.length_cons, List.length_cons, ih]
    ring

theorem hexChar_plain {n : ℕ} (h : n < 16) :
    isSpace (hexChar n) = false ∧ hexChar n ≠ octet '+' ∧ hexChar n ≠ octet '-' ∧
      hexChar n ≠ octet 'x' ∧ hexChar n ≠ octet 'X' ∧ hexChar n ≠ octet ':' ∧ hexChar n ≠ 0 := by
  interval_cases n <;> decide

theorem scanHex2_pair (b : UInt8) (rest : Text) :
    scanHex2 (hexChar (b.toNat / 16) :: hexChar (b.toNat % 16) :: rest) = some b := by
  have hb : b.toNat < 256 := b.toNat_lt
  have hhi : b.toNat / 16 < 16 := by omega
  have hlo : b.toNat % 16 < 16 := by omega
  obtain ⟨hspace, hplus, hminus, -⟩ := hexChar_plain hhi
  obtain ⟨-, -, -, hx, hX, -⟩ := hexChar_plain hlo
  have hval : UInt8.ofNat (b.toNat / 16 * 16 + b.toNat % 16) = b := by
    rw [Nat.div_add_mod' b.toNat 16]
    exact UInt8.ofNat_toNat
  simp [scanHex2, hspace, hplus, hminus, hx, hX, hexDigit_hexChar hhi,
    hexDigit_hexChar hlo, hval]

theorem scanPairs_hexEncode (raw : Text) : scanPairs raw.length (hexEncode raw) = some raw := by
  induction raw with
  | nil => rfl
  | cons b raw ih =>
    have hcons : hexEncode (b :: raw) =
      hexChar (b.toNat / 16) :: hexChar (b.toNat % 16) :: hexEncode raw := rfl
    rw [hcons, List.length_cons, scanPairs, scanHex2_pair]
    show (scanPairs raw.length (hexEncode raw)).map (b :: ·) = _
    rw [ih]
    rfl

/-- What was encoded is decoded, into an array that is large enough. -/
theorem hexDecode_hexEncode {raw : Text} {maxOut : ℕ} (h : raw.length ≤ maxOut) :
    hexDecode (hexEncode raw) maxOut = some raw := by
  have hlen := length_hexEncode raw
  rw [hexDecode, if_neg (by omega), if_neg (by omega), show (hexEncode raw).length / 2 = raw.length by omega]
  exact scanPairs_hexEncode raw

theorem colon_notMem_hexEncode (raw : Text) : octet ':' ∉ hexEncode raw := by
  intro h
  obtain ⟨b, -, hb⟩ := List.mem_flatMap.mp h
  have hlt : b.toNat < 256 := b.toNat_lt
  have hhi := hexChar_plain (n := b.toNat / 16) (by omega)
  have hlo := hexChar_plain (n := b.toNat % 16) (by omega)
  rcases List.mem_cons.mp hb with h | h
  · exact hhi.2.2.2.2.2.1 h.symm
  · exact hlo.2.2.2.2.2.1 (List.mem_singleton.mp h).symm

/-! ### The column -/

/-- `SALT_LEN`. -/
def saltLen : ℕ := 16

/-- `DERIVED_LEN`. -/
def derivedLen : ℕ := 32

/-- `salt[SALT_LEN]`. -/
abbrev Salt := { salt : Text // salt.length = saltLen }

/-- `derived[DERIVED_LEN]`. -/
abbrev Derived := { derived : Text // derived.length = derivedLen }

/-- `pbkdf2_sha256` of a password and a salt, with `PBKDF2_ITERATIONS`; `none` when it fails. -/
abbrev Kdf := Text → Text → Option Derived

/-- What is stored. It has 97 octets of the 200 of the array. -/
def storedHash (salt : Salt) (derived : Derived) : Text :=
  fmt "%s:%s" [hexEncode salt.1, hexEncode derived.1]

theorem storedHash_eq (salt : Salt) (derived : Derived) :
    storedHash salt derived = hexEncode salt.1 ++ octet ':' :: hexEncode derived.1 := by
  rw [storedHash, fmt_ofList (show "%s:%s" = String.ofList ['%', 's', ':', '%', 's'] from rfl)]
  simp [directives, fill]

theorem length_storedHash (salt : Salt) (derived : Derived) : (storedHash salt derived).length = 97 := by
  rw [storedHash_eq, List.length_append, List.length_cons, length_hexEncode, length_hexEncode, salt.2,
    derived.2]
  rfl

/-! ### The check -/

/-- `diff |= check[i] ^ stored_derived[i]`. -/
def diff (check stored : Text) : UInt8 := (List.zipWith (· ^^^ ·) check stored).foldl (· ||| ·) 0

/-- How the check of a password ends: the column has another form, the derivation fails, or the two
derived keys differ or not. -/
inductive Verdict
  | malformed
  | failed
  | wrong
  | right
  deriving DecidableEq

/-- `strchr(stored_hash, ':')`, which parts the text. -/
def parts (stored : Text) : Option (Text × Text) :=
  if octet ':' ∈ stored then
    some (stored.takeWhile (· ≠ octet ':'), (stored.dropWhile (· ≠ octet ':')).tail)
  else none

/-- A password against a stored text. -/
def verify (kdf : Kdf) (stored password : Text) : Verdict :=
  match parts stored with
  | none => .malformed
  | some (left, right) =>
      match hexDecode left saltLen, hexDecode right derivedLen with
      | some salt, some derived =>
          if salt.length ≠ saltLen ∨ derived.length ≠ derivedLen then .malformed
          else
            match kdf password salt with
            | none => .failed
            | some check => if diff check.1 derived = 0 then .right else .wrong
      | _, _ => .malformed

theorem foldl_or_eq_zero (l : Text) (acc : UInt8) :
    l.foldl (· ||| ·) acc = 0 ↔ acc = 0 ∧ ∀ b ∈ l, b = 0 := by
  induction l generalizing acc with
  | nil => simp
  | cons b l ih =>
    have hor : acc ||| b = 0 ↔ acc = 0 ∧ b = 0 := UInt8.or_eq_zero_iff
    rw [List.foldl_cons, ih, hor, List.forall_mem_cons, and_assoc]

/-- The loop sees every difference of two arrays of one length. -/
theorem diff_eq_zero_iff {a b : Text} (h : a.length = b.length) : diff a b = 0 ↔ a = b := by
  rw [diff, foldl_or_eq_zero]
  induction a generalizing b with
  | nil =>
    cases b with
    | nil => simp
    | cons y b => simp at h
  | cons x a ih =>
    cases b with
    | nil => simp at h
    | cons y b =>
      have hrest := ih (b := b) (by simpa using h)
      have hxor : x ^^^ y = 0 ↔ x = y := UInt8.xor_eq_zero_iff
      simp only [true_and] at hrest ⊢
      rw [List.zipWith_cons_cons, List.forall_mem_cons, hxor, hrest, List.cons.injEq]

theorem parts_storedHash (salt : Salt) (derived : Derived) :
    parts (storedHash salt derived) = some (hexEncode salt.1, hexEncode derived.1) := by
  have hkept : ∀ c ∈ hexEncode salt.1, decide (c ≠ octet ':') = true := by
    intro c hc
    exact decide_eq_true fun h => colon_notMem_hexEncode salt.1 (h ▸ hc)
  rw [parts, storedHash_eq, if_pos (by simp), List.takeWhile_append_of_pos hkept,
    List.dropWhile_append_of_pos hkept]
  simp

/-- Against a text that the server wrote, the check compares what the password gives under the salt. -/
theorem verify_storedHash (kdf : Kdf) (salt : Salt) (derived : Derived) (password : Text) :
    verify kdf (storedHash salt derived) password = .right ↔ kdf password salt.1 = some derived := by
  rw [verify, parts_storedHash]
  simp only [hexDecode_hexEncode salt.2.le, hexDecode_hexEncode derived.2.le, salt.2, derived.2, ne_eq,
    not_true_eq_false, or_self, if_false]
  cases hcheck : kdf password salt.1 with
  | none => simp
  | some check =>
    have hdiff := diff_eq_zero_iff (check.2.trans derived.2.symm)
    by_cases hsame : check.1 = derived.1
    · obtain rfl : check = derived := Subtype.ext hsame
      simp only [hdiff.mpr rfl, if_true]
    · have hne : check ≠ derived := fun h => hsame (congrArg _ h)
      simp [mt hdiff.mp hsame, hne]

end SecChat.PasswordHash
