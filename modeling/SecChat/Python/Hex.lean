import SecChat.Python.JsonText

/-!
# Hexadecimal texts

`raw.hex()` and `bytes.fromhex`, which skips white space between octets.

* `fromHex_hexOf`: what `hex` wrote is read back;
* `hexOf_injective`, `length_hexOf`;
* `fromHex_hexOf_space`: another text with the same octets.
-/

namespace Py

/-- The two digits of an octet. -/
def hexPair (b : UInt8) : List Char := [(b.toNat / 16).digitChar, (b.toNat % 16).digitChar]

/-- `raw.hex()`. -/
def hexOf (raw : Bytes) : String := String.ofList (raw.flatMap hexPair)

/-- The white space that may stand between two octets. -/
def isHexSpace (c : Char) : Bool := c = ' ' ∨ (9 ≤ c.toNat ∧ c.toNat ≤ 13)

/-- The octets of a list of digits. -/
def hexOctets : List Char → Option Bytes
  | [] => some []
  | [c] => if isHexSpace c then some [] else none
  | c :: d :: rest =>
      if isHexSpace c then hexOctets (d :: rest)
      else do
        let hi ← hexVal c
        let lo ← hexVal d
        let octets ← hexOctets rest
        return UInt8.ofNat (16 * hi + lo) :: octets

/-- `bytes.fromhex(text)`. -/
def fromHex (text : String) : Except Exn Bytes :=
  match hexOctets text.toList with
  | some raw => .ok raw
  | none => .error (.valueError "non-hexadecimal number found in fromhex() arg")

theorem isHexSpace_digitChar {n : ℕ} (h : n < 16) : isHexSpace n.digitChar = false := by
  interval_cases n <;> rfl

theorem hexOctets_hexPairs_append (raw : Bytes) (rest : List Char) :
    hexOctets (raw.flatMap hexPair ++ rest) = (hexOctets rest).map (raw ++ ·) := by
  induction raw with
  | nil => simp
  | cons b raw ih =>
    have hhi : b.toNat / 16 < 16 := by
      have := b.toNat_lt
      omega
    have hlo : b.toNat % 16 < 16 := Nat.mod_lt _ (by decide)
    have hb : 16 * (b.toNat / 16) + b.toNat % 16 = b.toNat := Nat.div_add_mod _ _
    have hcons : (b :: raw).flatMap hexPair ++ rest =
        (b.toNat / 16).digitChar :: (b.toNat % 16).digitChar :: (raw.flatMap hexPair ++ rest) := rfl
    rw [hcons, hexOctets]
    simp only [isHexSpace_digitChar hhi, hexVal_digitChar hhi, hexVal_digitChar hlo, ih,
      Bool.false_eq_true, if_false, Option.bind_eq_bind, Option.bind_some, Option.pure_def, hb,
      UInt8.ofNat_toNat]
    cases hexOctets rest <;> rfl

theorem hexOctets_hexPairs (raw : Bytes) : hexOctets (raw.flatMap hexPair) = some raw := by
  have h := hexOctets_hexPairs_append raw []
  rw [List.append_nil] at h
  rw [h]
  exact congrArg some (List.append_nil raw)

/-- What `hex` wrote is read back. -/
@[simp] theorem fromHex_hexOf (raw : Bytes) : fromHex (hexOf raw) = .ok raw := by
  simp [fromHex, hexOf, hexOctets_hexPairs]

/-- White space at the end is skipped. -/
theorem fromHex_hexOf_space (raw : Bytes) : fromHex (hexOf raw ++ " ") = .ok raw := by
  have hspace : hexOctets (raw.flatMap hexPair ++ [' ']) = some raw := by
    rw [hexOctets_hexPairs_append]
    exact congrArg some (List.append_nil raw)
  have htext : (hexOf raw ++ " ").toList = raw.flatMap hexPair ++ [' '] := by
    rw [String.toList_append, hexOf, String.toList_ofList]
    rfl
  rw [fromHex, htext, hspace]

theorem hexOf_injective : Function.Injective hexOf := by
  intro a b h
  have ha := fromHex_hexOf a
  rw [h, fromHex_hexOf] at ha
  exact (Except.ok.inj ha).symm

@[simp] theorem length_hexOf (raw : Bytes) : (hexOf raw).length = 2 * raw.length := by
  rw [hexOf, String.length_ofList]
  induction raw with
  | nil => rfl
  | cons b raw ih =>
    rw [List.flatMap_cons, List.length_append, ih, List.length_cons]
    simp only [hexPair, List.length_cons, List.length_nil]
    omega

end Py
