import Mathlib.Data.List.Sort
import Mathlib.Tactic

/-!
# Order statistics from counts

* `kth`: the element that has `k` others before it in order;
* `lt_countP_iff_kth`: a property of smaller elements holds of it when it holds of more than `k` elements;
* `bucket_kth_le_iff`: its bucket, for a function into buckets that keeps the order, from the number of
  elements up to a bucket.
-/

namespace OrderStatistics

variable {α : Type} [LinearOrder α]

/-- In a sorted list the elements with a property of smaller elements come first. -/
theorem lt_countP_iff {l : List α} (hl : l.Pairwise (· ≤ ·)) {p : α → Bool}
    (hp : ∀ a b, a ≤ b → p b = true → p a = true) {k : ℕ} {x : α} (hx : l[k]? = some x) :
    k < l.countP p ↔ p x = true := by
  induction l generalizing k with
  | nil => cases hx
  | cons a l ih =>
    obtain ⟨ha, hl⟩ := List.pairwise_cons.mp hl
    by_cases hpa : p a = true
    · rw [List.countP_cons_of_pos hpa]
      cases k with
      | zero =>
        obtain rfl := Option.some.inj hx
        exact iff_of_true (Nat.succ_pos _) hpa
      | succ k => rw [Nat.succ_lt_succ_iff, ih hl hx]
    · have hnone : ∀ b ∈ a :: l, ¬ p b = true := by
        rintro b hb hpb
        rcases List.mem_cons.mp hb with rfl | hb
        · exact hpa hpb
        · exact hpa (hp a b (ha b hb) hpb)
      rw [List.countP_eq_zero.mpr hnone]
      exact iff_of_false (Nat.not_lt_zero k) (hnone x (List.mem_of_getElem? hx))

/-- The element that has `k` others before it in order. -/
def kth (l : List α) (k : ℕ) : Option α := (l.mergeSort (· ≤ ·))[k]?

theorem exists_kth {l : List α} {k : ℕ} (hk : k < l.length) : ∃ x, kth l k = some x := by
  have hlen : (l.mergeSort fun a b => decide (a ≤ b)).length = l.length := List.length_mergeSort l
  exact ⟨_, List.getElem?_eq_getElem (hlen.symm ▸ hk)⟩

theorem lt_countP_iff_kth {l : List α} {p : α → Bool} (hp : ∀ a b, a ≤ b → p b = true → p a = true) {k : ℕ}
    {x : α} (hx : kth l k = some x) : k < l.countP p ↔ p x = true := by
  rw [← (List.mergeSort_perm l fun a b => decide (a ≤ b)).countP_eq]
  exact lt_countP_iff (List.pairwise_mergeSort' (· ≤ ·) l) hp hx

/-- How many elements lie in the buckets up to one tells whether the bucket of the element is among them. -/
theorem bucket_kth_le_iff {β : Type} [LinearOrder β] {bucket : α → β} (hmono : Monotone bucket) {l : List α}
    {k : ℕ} {x : α} (hx : kth l k = some x) (i : β) :
    bucket x ≤ i ↔ k < l.countP fun a => bucket a ≤ i := by
  rw [lt_countP_iff_kth (fun a b hab hb => ?_) hx, decide_eq_true_iff]
  rw [decide_eq_true_iff] at hb ⊢
  exact (hmono hab).trans hb

end OrderStatistics
