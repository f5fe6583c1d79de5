import Mathlib.Data.Finset.Basic
import Mathlib.Logic.Function.Basic

/-!
# A set that others hear of

A set changes by one element at a time, and each change is told later, in whatever order those that make
the changes come to it.

* `Toggle`, `Toggle.on`: an element comes into a set or leaves it;
* `Trails source told pending`: what has been told differs from the set by the changes under way, of
  which there is at most one for each element;
* `Trails.announce`, `Trails.tell`: a change, and its telling;
* `Trails.eq`: if nothing is under way, what has been told is the set.
-/

namespace Announcements

/-- An element comes into a set, or leaves it. -/
structure Toggle (κ : Type) where
  key : κ
  added : Bool
  deriving DecidableEq

variable {κ ι : Type}

/-- What has been told of a set, when the changes `pending` are still to be told. -/
structure Trails (source told : Finset κ) (pending : ι → Option (Toggle κ)) : Prop where
  distinct : ∀ {i j c d}, pending i = some c → pending j = some d → c.key = d.key → i = j
  late : ∀ {i c}, pending i = some c →
    (c.key ∈ source ↔ c.added = true) ∧ (c.key ∈ told ↔ c.added = false)
  rest : ∀ {k}, (∀ i c, pending i = some c → c.key ≠ k) → (k ∈ source ↔ k ∈ told)

variable {source told : Finset κ} {pending : ι → Option (Toggle κ)} {i : ι} {c : Toggle κ}

theorem Trails.refl (S : Finset κ) (h : ∀ i, pending i = none) : Trails S S pending where
  distinct hi := nomatch (h _).symm.trans hi
  late hi := nomatch (h _).symm.trans hi
  rest _ := Iff.rfl

/-- If nothing is under way, what has been told is the set. -/
theorem Trails.eq (h : Trails source told pending) (hnone : ∀ i, pending i = none) : source = told :=
  Finset.ext fun _ => h.rest fun i _ hi => nomatch (hnone i).symm.trans hi

variable [DecidableEq κ] [DecidableEq ι]

def Toggle.on (c : Toggle κ) (S : Finset κ) : Finset κ :=
  if c.added then insert c.key S else S.erase c.key

theorem mem_on_self (c : Toggle κ) (S : Finset κ) : c.key ∈ c.on S ↔ c.added = true := by
  unfold Toggle.on
  split <;> simp_all

theorem mem_on_of_ne {c : Toggle κ} {S : Finset κ} {k : κ} (h : c.key ≠ k) : k ∈ c.on S ↔ k ∈ S := by
  unfold Toggle.on
  split <;> simp [h.symm]

/-- A change of an element of which no change is under way. -/
theorem Trails.announce (h : Trails source told pending) (hi : pending i = none)
    (hk : ∀ j d, pending j = some d → d.key ≠ c.key) (hc : c.key ∈ source ↔ c.added = false) :
    Trails (c.on source) told (Function.update pending i (some c)) where
  distinct {j l d e} hd he hde := by
    by_cases hj : j = i
    · by_cases hl : l = i
      · rw [hj, hl]
      · subst hj
        rw [Function.update_self] at hd
        rw [Function.update_of_ne hl] at he
        obtain rfl := Option.some.inj hd
        exact absurd hde.symm (hk l e he)
    · rw [Function.update_of_ne hj] at hd
      by_cases hl : l = i
      · subst hl
        rw [Function.update_self] at he
        obtain rfl := Option.some.inj he
        exact absurd hde (hk j d hd)
      · rw [Function.update_of_ne hl] at he
        exact h.distinct hd he hde
  late {j d} hd := by
    by_cases hj : j = i
    · subst hj
      rw [Function.update_self] at hd
      obtain rfl := Option.some.inj hd
      exact ⟨mem_on_self c source, (h.rest hk).symm.trans hc⟩
    · rw [Function.update_of_ne hj] at hd
      rw [mem_on_of_ne (hk j d hd).symm]
      exact h.late hd
  rest {k} hk' := by
    have hne : c.key ≠ k := hk' i c (Function.update_self ..)
    rw [mem_on_of_ne hne]
    refine h.rest fun j d hd => hk' j d ?_
    rwa [Function.update_of_ne]
    rintro rfl
    exact nomatch hi.symm.trans hd

/-- A change is told. -/
theorem Trails.tell (h : Trails source told pending) (hi : pending i = some c) :
    Trails source (c.on told) (Function.update pending i none) where
  distinct {j l d e} hd he hde := by
    have hj : j ≠ i := by
      rintro rfl
      exact nomatch (Function.update_self ..).symm.trans hd
    have hl : l ≠ i := by
      rintro rfl
      exact nomatch (Function.update_self ..).symm.trans he
    rw [Function.update_of_ne hj] at hd
    rw [Function.update_of_ne hl] at he
    exact h.distinct hd he hde
  late {j d} hd := by
    have hj : j ≠ i := by
      rintro rfl
      exact nomatch (Function.update_self ..).symm.trans hd
    rw [Function.update_of_ne hj] at hd
    rw [mem_on_of_ne fun hkey => hj (h.distinct hd hi hkey.symm)]
    exact h.late hd
  rest {k} hk := by
    by_cases hck : c.key = k
    · subst hck
      rw [mem_on_self, (h.late hi).1]
    · rw [mem_on_of_ne hck]
      refine h.rest fun j d hd => ?_
      by_cases hj : j = i
      · subst hj
        obtain rfl := Option.some.inj (hi.symm.trans hd)
        exact hck
      · exact hk j d (by rwa [Function.update_of_ne hj])

end Announcements
