import Mathlib.Tactic

/-!
# Numbers as octets, the most significant one first

* `fromBytes`, `toBytes`: reading a number, and writing it in so many octets;
* `fromBytes_toBytes`: what was written is read back.
-/

namespace BigEndian

/-- The number that the octets stand for. -/
def fromBytes (b : List UInt8) : ℕ := b.foldl (fun n c => 256 * n + c.toNat) 0

/-- The last `k` octets of a number. -/
def toBytes : ℕ → ℕ → List UInt8
  | 0, _ => []
  | k + 1, n => toBytes k (n / 256) ++ [UInt8.ofNat n]

@[simp] theorem length_toBytes (k n : ℕ) : (toBytes k n).length = k := by
  induction k generalizing n with
  | zero => rfl
  | succ k ih => rw [toBytes, List.length_append, ih, List.length_singleton]

theorem fromBytes_concat (b : List UInt8) (c : UInt8) :
    fromBytes (b ++ [c]) = 256 * fromBytes b + c.toNat := by
  simp [fromBytes]

theorem fromBytes_lt (b : List UInt8) : fromBytes b < 256 ^ b.length := by
  induction b using List.reverseRecOn with
  | nil => exact Nat.one_pos
  | append_singleton b c ih =>
    have hc := c.toNat_lt
    rw [fromBytes_concat, List.length_append, List.length_singleton, pow_succ]
    omega

/-- What was written is read back. -/
theorem fromBytes_toBytes {k n : ℕ} (h : n < 256 ^ k) : fromBytes (toBytes k n) = n := by
  induction k generalizing n with
  | zero =>
    have hzero : n = 0 := by simpa using h
    rw [hzero]
    rfl
  | succ k ih =>
    have hlt : n / 256 < 256 ^ k := by
      rw [Nat.div_lt_iff_lt_mul (by norm_num), ← pow_succ]
      exact h
    rw [toBytes, fromBytes_concat, ih hlt, UInt8.toNat_ofNat']
    omega

/-- Octet `j` from the right. -/
theorem toBytes_eq_map (k n : ℕ) :
    toBytes k n = (List.range k).reverse.map fun j => UInt8.ofNat (n >>> (8 * j)) := by
  induction k generalizing n with
  | zero => rfl
  | succ k ih =>
    rw [toBytes, ih, List.range_succ_eq_map, List.reverse_cons, List.map_append, List.map_reverse,
      List.map_reverse, List.map_map]
    congr 2
    refine List.map_congr_left fun j _ => ?_
    have hshift : n / 256 = n >>> 8 := by rw [Nat.shiftRight_eq_div_pow]
    rw [hshift, ← Nat.shiftRight_add]
    congr 2
    omega

end BigEndian
