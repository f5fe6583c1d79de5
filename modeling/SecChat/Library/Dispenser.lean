import Mathlib.Data.List.Nodup
import Mathlib.Logic.Function.Basic

/-!
# A dispenser with numbered tickets

Customers take tickets from a common stock in two steps: look at a ticket, then remove it.  New
tickets get increasing numbers, and tickets may be removed at any time.

* `State`: the stock, the next number, what each customer has looked at and is about to remove;
* `Step`: what may happen, provided that nobody looks at a ticket that another one is about to remove;
* `Inv.step`: no ticket goes to two customers.
-/

namespace Dispenser

variable {ι τ : Type} (num : τ → ℕ)

structure State (ι τ : Type) where
  stock : List τ
  next : ℕ
  taken : ι → Option τ
  held : ι → Option ℕ

/-- What may happen to a dispenser. -/
inductive Step [DecidableEq ι] : State ι τ → State ι τ → Prop
  | idle (s : State ι τ) : Step s s
  | add {s : State ι τ} {t : τ} (h : num t = s.next) :
      Step s { s with stock := s.stock ++ [t], next := s.next + 1 }
  | burn (s : State ι τ) : Step s { s with next := s.next + 1 }
  | remove (s : State ι τ) (p : τ → Bool) : Step s { s with stock := s.stock.filter p }
  | look {s : State ι τ} {i : ι} {t : τ} (ht : t ∈ s.stock) (hi : s.taken i = none)
      (hfree : ∀ j, j ≠ i → s.held j ≠ some (num t)) :
      Step s { s with
        taken := Function.update s.taken i (some t)
        held := Function.update s.held i (some (num t)) }
  | leave (s : State ι τ) (i : ι) :
      Step s { s with
        taken := Function.update s.taken i none
        held := Function.update s.held i none }
  | drop {s : State ι τ} {i : ι} {k : ℕ} (h : s.held i = some k) :
      Step s { s with
        stock := s.stock.filter fun t => num t ≠ k
        held := Function.update s.held i none }

/-- The invariant: a ticket that was taken is out of stock, or is about to be removed. -/
structure Inv (s : State ι τ) : Prop where
  pos : 0 < s.next ∧ ∀ t ∈ s.stock, 0 < num t
  fresh : ∀ t ∈ s.stock, num t < s.next
  old : ∀ i t, s.taken i = some t → num t < s.next
  gone : ∀ i t, s.taken i = some t → ∀ t' ∈ s.stock, num t' = num t → s.held i = some (num t)
  once : ∀ i j t t', i ≠ j → s.taken i = some t → s.taken j = some t' → num t ≠ num t'

variable {num}

theorem inv_of_empty {s : State ι τ} (hn : 0 < s.next) (hs : s.stock = [])
    (ht : ∀ i, s.taken i = none) : Inv num s where
  pos := by
    rw [hs]
    exact ⟨hn, fun t h => by cases h⟩
  fresh t h := by
    rw [hs] at h
    cases h
  old i t h := by
    rw [ht] at h
    cases h
  gone i t h := by
    rw [ht] at h
    cases h
  once i j t t' _ h := by
    rw [ht] at h
    cases h

/-- **No ticket goes to two customers.** -/
theorem Inv.step [DecidableEq ι] {s s' : State ι τ} (h : Inv num s) (hs : Step num s s') : Inv num s' := by
  cases hs with
  | idle => exact h
  | @add t hnum =>
    refine ⟨⟨Nat.succ_pos _, fun t' ht' => ?_⟩, fun t' ht' => ?_, fun i t' ht' => ?_,
      fun i t₁ ht₁ t' ht' he => ?_, h.once⟩
    · rcases List.mem_append.mp ht' with ht' | ht'
      · exact h.pos.2 t' ht'
      · rw [List.mem_singleton.mp ht', hnum]
        exact h.pos.1
    · rcases List.mem_append.mp ht' with ht' | ht'
      · exact Nat.lt_succ_of_lt (h.fresh t' ht')
      · rw [List.mem_singleton.mp ht', hnum]
        exact Nat.lt_succ_self _
    · exact Nat.lt_succ_of_lt (h.old i t' ht')
    · rcases List.mem_append.mp ht' with ht' | ht'
      · exact h.gone i t₁ ht₁ t' ht' he
      · -- the number of the new ticket was not used before
        have hold := h.old i t₁ ht₁
        rw [List.mem_singleton.mp ht', hnum] at he
        omega
  | burn =>
    exact ⟨⟨Nat.succ_pos _, h.pos.2⟩, fun t ht => Nat.lt_succ_of_lt (h.fresh t ht),
      fun i t ht => Nat.lt_succ_of_lt (h.old i t ht), h.gone, h.once⟩
  | remove p =>
    exact ⟨⟨h.pos.1, fun t ht => h.pos.2 t (List.mem_filter.mp ht).1⟩,
      fun t ht => h.fresh t (List.mem_filter.mp ht).1, h.old,
      fun i t ht t' ht' => h.gone i t ht t' (List.mem_filter.mp ht').1, h.once⟩
  | @look i t ht hi hfree =>
    -- nobody has taken the ticket: else it were out of stock or about to be removed
    have hnew : ∀ j t', s.taken j = some t' → num t' ≠ num t := by
      intro j t' hj he
      have hji : j ≠ i := by
        rintro rfl
        rw [hi] at hj
        cases hj
      have hheld := h.gone j t' hj t ht he.symm
      rw [he] at hheld
      exact hfree j hji hheld
    have htaken : ∀ j t', Function.update s.taken i (some t) j = some t' →
        (j = i ∧ t' = t) ∨ (j ≠ i ∧ s.taken j = some t') := by
      intro j t' hj
      by_cases hji : j = i
      · subst hji
        rw [Function.update_self] at hj
        exact .inl ⟨rfl, (Option.some.inj hj).symm⟩
      · rw [Function.update_of_ne hji] at hj
        exact .inr ⟨hji, hj⟩
    refine ⟨h.pos, h.fresh, fun j t' hj => ?_, fun j t₁ hj t' ht' he => ?_, fun j k t₁ t₂ hjk hj hk => ?_⟩
    · rcases htaken j t' hj with ⟨-, rfl⟩ | ⟨-, hj⟩
      · exact h.fresh t' ht
      · exact h.old j t' hj
    · rcases htaken j t₁ hj with ⟨rfl, rfl⟩ | ⟨hji, hj⟩
      · exact Function.update_self _ _ _
      · have hheld := h.gone j t₁ hj t' ht' he
        show Function.update s.held i _ j = _
        rw [Function.update_of_ne hji]
        exact hheld
    · rcases htaken j t₁ hj with ⟨rfl, rfl⟩ | ⟨hji, hj'⟩
      · rcases htaken k t₂ hk with ⟨hki, -⟩ | ⟨-, hk'⟩
        · exact absurd hki.symm hjk
        · exact (hnew k t₂ hk').symm
      · rcases htaken k t₂ hk with ⟨-, rfl⟩ | ⟨-, hk'⟩
        · exact hnew j t₁ hj'
        · exact h.once j k t₁ t₂ hjk hj' hk'
  | leave i =>
    have htaken : ∀ j t, Function.update s.taken i none j = some t → j ≠ i ∧ s.taken j = some t := by
      intro j t hj
      by_cases hji : j = i
      · subst hji
        rw [Function.update_self] at hj
        cases hj
      · rw [Function.update_of_ne hji] at hj
        exact ⟨hji, hj⟩
    refine ⟨h.pos, h.fresh, fun j t hj => h.old j t (htaken j t hj).2, fun j t hj t' ht' he => ?_,
      fun j k t₁ t₂ hjk hj hk => h.once j k t₁ t₂ hjk (htaken j t₁ hj).2 (htaken k t₂ hk).2⟩
    obtain ⟨hji, hj⟩ := htaken j t hj
    show Function.update s.held i none j = _
    rw [Function.update_of_ne hji]
    exact h.gone j t hj t' ht' he
  | @drop i k hheld =>
    refine ⟨⟨h.pos.1, fun t ht => h.pos.2 t (List.mem_filter.mp ht).1⟩,
      fun t ht => h.fresh t (List.mem_filter.mp ht).1, h.old, fun j t hj t' ht' he => ?_, h.once⟩
    obtain ⟨hmem, hne⟩ := List.mem_filter.mp ht'
    have hj' := h.gone j t hj t' hmem he
    have hji : j ≠ i := by
      rintro rfl
      rw [hheld] at hj'
      have hk : num t' = k := he.trans (Option.some.inj hj').symm
      simp [hk] at hne
    show Function.update s.held i none j = _
    rw [Function.update_of_ne hji]
    exact hj'

end Dispenser
