import SecChat.Library.JsonFormat
import SecChat.Server.JsonHelpers

/-!
# Columns on their way into a frame

What the columns of a row can hold, and what their texts are read as in a frame.

* `Status`, `Role`, `Stamp`, `Username`: columns that need no escape;
* `flag`: a condition as `true` or `false`;
* `field`: a member of the value of a frame;
* `reads_plain`, `reads_jsonEsc`, `reads_flag`, `reads_rows`: what they are read as.
-/

namespace SecChat.Columns

open CText JsonReader JsonHelpers

/-- `users.status`. -/
inductive Status
  | online
  | offline
  | away
  deriving DecidableEq

def Status.text : Status → Text
  | .online => ascii "online"
  | .offline => ascii "offline"
  | .away => ascii "away"

/-- `group_roles.role`. -/
inductive Role
  | admin
  | member
  deriving DecidableEq

def Role.text : Role → Text
  | .admin => ascii "admin"
  | .member => ascii "member"

/-- A time as the database prints it; it is empty when it is hidden. -/
structure Stamp (size : ℕ) extends CStr size where
  plain : ∀ c ∈ text, Plain c
  deriving DecidableEq

/-- `isalnum(c) || c == '_'`. -/
def wordOctet (c : UInt8) : Bool :=
  isDigit c ∨ 0x41 ≤ c ∧ c ≤ 0x5a ∨ 0x61 ≤ c ∧ c ≤ 0x7a ∨ c = 0x5f

/-- `domain_validate_username`. -/
def domainValidateUsername (username : Text) : Bool :=
  3 ≤ username.length ∧ username.length ≤ 63 ∧ username.all wordOctet

/-- A user name that was accepted. -/
structure Username where
  text : Text
  valid : domainValidateUsername text = true
  deriving DecidableEq

/-- `"true"` or `"false"`. -/
def flag (p : Prop) [Decidable p] : Text := ascii (if p then "true" else "false")

/-- A member of an object with an ASCII key. -/
def field (key : String) (v : Value) : Text × Value := (ascii key, v)

/-! ### What they are read as -/

theorem plain_status (s : Status) : ∀ c ∈ s.text, Plain c := by
  cases s <;> decide

theorem plain_role (r : Role) : ∀ c ∈ r.text, Plain c := by
  cases r <;> decide

theorem plain_wordOctet {c : UInt8} (h : wordOctet c = true) : Plain c := by
  simp only [wordOctet, isDigit, decide_eq_true_eq, UInt8.le_iff_toNat_le] at h
  have hrange : 0x30 ≤ c.toNat ∧ c.toNat ≠ 0x5c := by
    refine ⟨?_, ?_⟩ <;> rcases h with h | h | h | rfl <;> simp at * <;> omega
  have hne : ∀ d : UInt8, d.toNat < 0x30 ∨ d.toNat = 0x5c → c ≠ d := by
    rintro d hd rfl
    omega
  refine ⟨hne _ (by decide), hne _ (by decide), ?_⟩
  rw [UInt8.lt_iff_toNat_lt]
  simp
  omega

theorem Username.plain (u : Username) : ∀ c ∈ u.text, Plain c := by
  have h := u.valid
  simp only [domainValidateUsername, decide_eq_true_eq, List.all_eq_true] at h
  exact fun c hc => plain_wordOctet (h.2.2 c hc)

theorem Username.length_le (u : Username) : u.text.length ≤ 63 := by
  have h := u.valid
  simp only [domainValidateUsername, decide_eq_true_eq] at h
  exact h.2.1

theorem reads_jsonEsc (s : Text) (maxout : ℕ) :
    JsonReader.Reads (quoted (jsonEsc s maxout)) (.str (kept s maxout)) :=
  reads_quoted (content_jsonEsc s maxout)

theorem reads_plain {t : Text} (h : ∀ c ∈ t, Plain c) : JsonReader.Reads (quoted t) (.str t) :=
  reads_quoted (content_of_plain h)

theorem reads_flag (p : Prop) [Decidable p] : JsonReader.Reads (flag p) (.bool (decide p)) := by
  by_cases h : p
  · simpa [flag, h] using reads_true
  · simpa [flag, h] using reads_false

theorem reads_rows {α : Type} {row : α → Text} {value : α → Value}
    (h : ∀ a, JsonReader.Reads (row a) (value a)) (as : List α) :
    List.Forall₂ JsonReader.Reads (as.map row) (as.map value) := by
  induction as with
  | nil => exact .nil
  | cons a as ih => exact .cons (h a) ih

/-! ### How long they are -/

theorem length_flag (p : Prop) [Decidable p] : (flag p).length = if p then 4 else 5 := by
  unfold flag
  split <;> rfl

theorem length_flag_le (p : Prop) [Decidable p] : (flag p).length ≤ 5 := by
  rw [length_flag]
  split <;> omega

theorem length_status_le (s : Status) : s.text.length ≤ 7 := by
  cases s <;> decide

theorem length_role_le (r : Role) : r.text.length ≤ 6 := by
  cases r <;> decide

/-- A user name takes no more octets when it is escaped. -/
theorem length_username_le (u : Username) : (jsonEsc u.text 130).length ≤ 63 := by
  have hlen := u.length_le
  rw [jsonEsc_of_plain u.plain (by omega)]
  exact hlen

/-- An `int` takes at most 11 characters. -/
theorem length_int32_le (n : Int32) : (dec n.toInt).length ≤ 11 := by
  have hlo := n.le_toInt
  have hhi := n.toInt_lt
  exact length_dec_le (by omega) (by omega) (by omega)

/-- A `long long` takes at most 20 characters. -/
theorem length_int64_le (n : Int64) : (dec n.toInt).length ≤ 20 := by
  have hlo := n.le_toInt
  have hhi := n.toInt_lt
  exact length_dec_le (by omega) (by omega) (by omega)

end SecChat.Columns
