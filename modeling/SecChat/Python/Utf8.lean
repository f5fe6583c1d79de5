import SecChat.Python.JsonText

/-!
# Lengths of texts in UTF-8

* `length_encodeUtf8_append`: the octets of two texts one after the other;
* `length_encodeUtf8`: an ASCII character is one octet;
* `escChar_eq_self`: a printable character other than a quote and a backslash stands for itself in JSON.
-/

namespace Py

theorem length_encodeUtf8_append (cs ds : List Char) :
    (encodeUtf8 (String.ofList (cs ++ ds))).length =
      (encodeUtf8 (String.ofList cs)).length + (encodeUtf8 (String.ofList ds)).length := by
  show (String.ofList (cs ++ ds)).utf8ByteSize =
    (String.ofList cs).utf8ByteSize + (String.ofList ds).utf8ByteSize
  rw [String.ofList_append, String.utf8ByteSize_append]

theorem length_encodeUtf8 {cs : List Char} (h : ∀ c ∈ cs, c.toNat < 128) :
    (encodeUtf8 (String.ofList cs)).length = cs.length := by
  induction cs with
  | nil => rfl
  | cons c cs ih =>
    have hc : c.utf8Size = 1 := by
      rw [Char.utf8Size_eq_one_iff, UInt32.le_iff_toNat_le]
      show c.toNat ≤ 127
      have hlt := h c (List.mem_cons_self ..)
      omega
    have hhead : (encodeUtf8 (String.ofList [c])).length = 1 := by
      show (String.ofList [c]).utf8ByteSize = 1
      rw [← String.singleton_eq_ofList, String.utf8ByteSize_singleton, hc]
    rw [← List.singleton_append, length_encodeUtf8_append, hhead,
      ih fun d hd => h d (List.mem_cons_of_mem c hd), List.length_append, List.length_singleton]

theorem escChar_eq_self {c : Char} (hquote : c ≠ '"') (hback : c ≠ '\\') (h : 32 ≤ c.toNat) :
    escChar c = [c] := by
  have hne : ∀ d : Char, d.toNat < 32 → c ≠ d := by
    rintro d hd rfl
    omega
  unfold escChar
  rw [if_neg hquote, if_neg hback, if_neg (hne '\n' (by decide)), if_neg (hne '\r' (by decide)),
    if_neg (hne '\t' (by decide)), if_neg (hne '\x08' (by decide)), if_neg (hne '\x0c' (by decide)),
    if_neg (not_lt.mpr h)]

end Py
