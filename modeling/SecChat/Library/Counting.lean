import Mathlib.Data.Fintype.Basic
import Mathlib.Algebra.BigOperators.Group.Finset.Basic
import Mathlib.Tactic

/-!
# Counting the members of a family

* `count P f`: how many members of a finite family have the property `P`;
* `count_update`: what a change of one member does;
* `count_eq_of_match`: two families that are matched with each other.
-/

namespace Counting

variable {ι κ α β : Type*} [Fintype ι] [DecidableEq ι] [Fintype κ] {P : α → Prop} [DecidablePred P]
  {Q : β → Prop} [DecidablePred Q]

variable (P) in
/-- How many members of the family have the property. -/
def count (f : ι → α) : ℕ := (Finset.univ.filter fun i => P (f i)).card

/-- A change of one member. -/
theorem count_update (f : ι → α) (i : ι) (v : α) :
    count P (Function.update f i v) + (if P (f i) then 1 else 0) =
      count P f + if P v then 1 else 0 := by
  have hother : ∑ j ∈ Finset.univ.erase i, (if P (Function.update f i v j) then 1 else 0) =
      ∑ j ∈ Finset.univ.erase i, if P (f j) then 1 else 0 := by
    refine Finset.sum_congr rfl fun j hj => ?_
    rw [Function.update_of_ne (Finset.ne_of_mem_erase hj)]
  have hleft := Finset.add_sum_erase Finset.univ
    (fun j => if P (Function.update f i v j) then 1 else 0) (Finset.mem_univ i)
  have hright := Finset.add_sum_erase Finset.univ (fun j => if P (f j) then 1 else 0)
    (Finset.mem_univ i)
  rw [Function.update_self] at hleft
  rw [count, count, Finset.card_filter, Finset.card_filter, ← hleft, ← hright, hother]
  omega

omit [DecidableEq ι] in
theorem count_eq_zero {f : ι → α} : count P f = 0 ↔ ∀ i, ¬ P (f i) := by
  simp [count, Finset.filter_eq_empty_iff]

omit [DecidableEq ι] in
theorem count_le (f : ι → α) : count P f ≤ Fintype.card ι := Finset.card_filter_le _ _

omit [DecidableEq ι] in
/-- Each member of one family that has its property goes with one of the other, and back. -/
theorem count_eq_of_match {f : ι → α} {g : κ → β} {R : ι → κ → Prop}
    (hright : ∀ i, P (f i) → ∃ k, Q (g k) ∧ R i k) (hleft : ∀ k, Q (g k) → ∃ i, P (f i) ∧ R i k)
    (hinj : ∀ i i' k, R i k → R i' k → i = i') (hfun : ∀ i k k', R i k → R i k' → k = k') :
    count P f = count Q g := by
  classical
  refine Finset.card_bij (fun i hi => (hright i (Finset.mem_filter.mp hi).2).choose) ?_ ?_ ?_
  · intro i hi
    have h := (hright i (Finset.mem_filter.mp hi).2).choose_spec
    exact Finset.mem_filter.mpr ⟨Finset.mem_univ _, h.1⟩
  · intro i hi i' hi' heq
    have h := (hright i (Finset.mem_filter.mp hi).2).choose_spec.2
    have h' := (hright i' (Finset.mem_filter.mp hi').2).choose_spec.2
    rw [heq] at h
    exact hinj i i' _ h h'
  · intro k hk
    obtain ⟨i, hi, hik⟩ := hleft k (Finset.mem_filter.mp hk).2
    have hmem : i ∈ Finset.univ.filter fun i => P (f i) := Finset.mem_filter.mpr ⟨Finset.mem_univ i, hi⟩
    exact ⟨i, hmem, hfun i _ k (hright i hi).choose_spec.2 hik⟩

end Counting
