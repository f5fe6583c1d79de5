import Mathlib.Data.Set.Lattice
import Mathlib.Tactic

/-!
# Deduction from a set of rules

A rule has premises and a conclusion.  What follows from some facts is the least set that contains
them and is closed under the rules.

* `Derives R K`: what follows from `K`;
* `Derives.mem_of_closed`: a closed set that contains `K` contains everything that follows from it;
* `Derives.cut`: facts that follow add nothing.
-/

namespace Deduction

variable {α : Type*}

/-- If all premises hold, so does the conclusion. -/
structure Rule (α : Type*) where
  premises : List α
  conclusion : α

/-- What follows from `K`. -/
inductive Derives (R : Set (Rule α)) (K : Set α) : α → Prop
  | known {a : α} (h : a ∈ K) : Derives R K a
  | rule {r : Rule α} (hr : r ∈ R) (h : ∀ a ∈ r.premises, Derives R K a) : Derives R K r.conclusion

/-- A set that no rule leads out of. -/
def Closed (R : Set (Rule α)) (S : Set α) : Prop :=
  ∀ r ∈ R, (∀ a ∈ r.premises, a ∈ S) → r.conclusion ∈ S

variable {R : Set (Rule α)} {K L S : Set α} {a : α}

theorem Derives.mem_of_closed (h : Derives R K a) (hS : Closed R S) (hK : K ⊆ S) : a ∈ S := by
  induction h with
  | known h => exact hK h
  | rule hr _ ih => exact hS _ hr ih

theorem closed_derives (R : Set (Rule α)) (K : Set α) : Closed R {a | Derives R K a} :=
  fun _ hr h => .rule hr h

/-- Facts that follow add nothing. -/
theorem Derives.cut (h : Derives R L a) (hL : ∀ b ∈ L, Derives R K b) : Derives R K a :=
  h.mem_of_closed (closed_derives R K) hL

theorem Derives.mono (h : Derives R K a) (hKL : K ⊆ L) : Derives R L a :=
  h.cut fun _ hb => .known (hKL hb)

/-- A rule without premises. -/
theorem Derives.of_nil (h : ⟨[], a⟩ ∈ R) : Derives R K a :=
  .rule h fun _ hb => absurd hb List.not_mem_nil

end Deduction
