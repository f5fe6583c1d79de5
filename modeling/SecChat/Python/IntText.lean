import Mathlib
import SecChat.Python.JsonText

/-!
# Integers as text

`int(str(i))` and `int(x or 0)`.

* `intOfStr_toString`: the text of an integer is read back;
* `toInt_orElse_zero`: a value that `int` takes is not changed by `or 0`.
-/

namespace Py

theorem mem_toString_int {i : ℤ} {c : Char} (h : c ∈ (toString i).toList) :
    c.isDigit = true ∨ c = '-' := by
  rw [toList_toString_int] at h
  cases i with
  | ofNat n => exact .inl (Nat.isDigit_of_mem_toDigits (by omega) (by omega) h)
  | negSucc n =>
    rcases List.mem_cons.mp h with rfl | h
    · exact .inr rfl
    · exact .inl (Nat.isDigit_of_mem_toDigits (by omega) (by omega) h)

theorem isSpace_of_mem_toString_int {i : ℤ} {c : Char} (h : c ∈ (toString i).toList) :
    Json.isSpace c = false := by
  rcases mem_toString_int h with h | rfl
  · obtain ⟨d, hd, rfl⟩ := eq_of_isDigit h
    interval_cases d <;> rfl
  · rfl

theorem dropWhile_eq_self {p : Char → Bool} {cs : List Char} (h : ∀ c ∈ cs, p c = false) :
    cs.dropWhile p = cs := by
  cases cs with
  | nil => rfl
  | cons c cs => rw [List.dropWhile_cons, h c List.mem_cons_self, if_neg Bool.false_ne_true]

/-- The text of an integer is read back. -/
@[simp] theorem intOfStr_toString (i : ℤ) : Json.intOfStr (toString i) = .ok i := by
  have hspace : ∀ c ∈ (toString i).toList, Json.isSpace c = false :=
    fun c hc => isSpace_of_mem_toString_int hc
  have hstrip : (((toString i).toList.dropWhile Json.isSpace).reverse.dropWhile
      Json.isSpace).reverse = (toString i).toList := by
    rw [dropWhile_eq_self hspace,
      dropWhile_eq_self fun c hc => hspace c (List.mem_reverse.mp hc), List.reverse_reverse]
  have hplus : (toString i).toList.head? ≠ some '+' := by
    intro hhead
    rcases mem_toString_int (List.mem_of_mem_head? hhead) with h | h
    · exact absurd h (by decide)
    · exact absurd h (by decide)
  have hint : (toString i).toInt? = some i := Int.toInt?_repr i
  simp only [Json.intOfStr, hstrip, hplus, false_and, if_false, String.ofList_toList, hint]

/-! ### A value that is zero -/

/-- Digits that are all zero. -/
theorem ofDigitChars_eq_zero {cs : List Char} (h : ∀ c ∈ cs, c = '0' ∨ c = '.' ∨ c = '-') :
    Nat.ofDigitChars 10 cs 0 = 0 := by
  induction cs with
  | nil => rfl
  | cons c cs ih =>
    have hc : c.toNat - '0'.toNat = 0 := by
      rcases h c List.mem_cons_self with rfl | rfl | rfl <;> rfl
    rw [Nat.ofDigitChars_cons, hc]
    exact ih fun d hd => h d (List.mem_cons_of_mem c hd)

/-- The digits of a mantissa. -/
theorem mem_floatParts {cs : List Char} {c : Char}
    (h : c ∈ (Json.floatParts cs).1 ++ (Json.floatParts cs).2.1) :
    c ∈ cs.takeWhile fun c => c ≠ 'e' ∧ c ≠ 'E' := by
  rcases List.mem_append.mp h with h | h
  · exact List.takeWhile_subset _ h
  · exact List.dropWhile_subset _ (List.drop_subset 1 _ h)

theorem intOfFloat_of_zero {lit : String} {i : ℤ} (hzero : Json.floatIsZero lit = true)
    (h : Json.intOfFloat lit = .ok i) : i = 0 := by
  have hchars : ∀ c ∈ lit.toList.takeWhile fun c => c ≠ 'e' ∧ c ≠ 'E',
      c = '0' ∨ c = '.' ∨ c = '-' := by
    intro c hc
    have hall := List.all_eq_true.mp hzero c hc
    simpa using hall
  have hdrop : ∀ c ∈ (lit.toList.drop 1).takeWhile fun c => c ≠ 'e' ∧ c ≠ 'E',
      lit.toList.head? = some '-' → c = '0' ∨ c = '.' ∨ c = '-' := by
    intro c hc hhead
    apply hchars
    cases hlit : lit.toList with
    | nil => rw [hlit] at hhead; cases hhead
    | cons d ds =>
      rw [hlit] at hhead hc
      obtain rfl := Option.some.inj hhead
      rw [List.takeWhile_cons_of_pos (by decide)]
      exact List.mem_cons_of_mem _ hc
  have hdigits : ∀ cs, cs = (if lit.toList.head? = some '-' then lit.toList.drop 1 else lit.toList) →
      Nat.ofDigitChars 10 ((Json.floatParts cs).1 ++ (Json.floatParts cs).2.1) 0 = 0 := by
    rintro cs rfl
    apply ofDigitChars_eq_zero
    intro c hc
    have hmem := mem_floatParts hc
    split at hmem
    next hhead => exact hdrop c hmem hhead
    next => exact hchars c hmem
  simp only [Json.intOfFloat, hdigits _ rfl] at h
  split_ifs at h <;> first | (cases h; done) | simpa using (Except.ok.inj h).symm

/-- `int(x or 0)` is `int(x)` where that returns. -/
theorem toInt_orElse_zero {x : Json} {i : ℤ} (h : x.toInt = .ok i) :
    (x.orElse (.int 0)).toInt = .ok i := by
  rw [Json.orElse]
  split
  · exact h
  next hfalse =>
    have hzero : i = 0 := by
      cases x with
      | bool b =>
        cases b with
        | true => exact absurd rfl hfalse
        | false => exact (Except.ok.inj h).symm
      | int k =>
        have hk : k = 0 := by simpa [Json.truthy] using hfalse
        rw [← Except.ok.inj h, hk]
      | float lit =>
        apply intOfFloat_of_zero _ h
        simpa [Json.truthy] using hfalse
      | str s =>
        have hempty : s = "" := by simpa [Json.truthy] using hfalse
        subst hempty
        have hnone : ("" : String).toInt? = none := by
          rw [String.toInt?_eq_none_iff, ← Bool.not_eq_true, String.isInt_iff, String.isNat_iff]
          rintro (⟨hne, -⟩ | ⟨t, ht, -⟩)
          · exact hne rfl
          · simp [String.ext_iff] at ht
        have hraises : Json.intOfStr "" = .error (.valueError "invalid literal for int()") := by
          simp [Json.intOfStr, hnone]
        cases hraises.symm.trans h
      | _ => cases h
    rw [hzero]
    rfl

end Py
