import SecChat.Library.Runs
import Mathlib.Data.List.Basic

/-!
# Noninterference

An observer of a machine sees what the events put out for him, and some events are none of his business.

* `forall_mem_collect`, `exists_of_not_each`: what is put out, and an event that breaks a condition;
* `Unwinding`: states that he cannot tell apart, and the conditions on one event;
* `Unwinding.same_foldl`: he cannot tell a run from the run without the events that are not for him;
* `Unwinding.collect_eq`: what he sees is what he would see without them.
-/

namespace Runs

variable {σ ε α : Type}

section Collect

variable {step : σ → ε → σ} {s : σ} {es : List ε}

/-- What holds of everything that is put out. -/
theorem forall_mem_collect {out : σ → ε → List α} {Q : α → Prop} :
    (∀ a ∈ collect step out s es, Q a) ↔ Each step (fun s e => ∀ a ∈ out s e, Q a) s es := by
  induction es generalizing s with
  | nil => exact iff_of_true (fun a ha => by cases ha) trivial
  | cons e es ih =>
    rw [each_cons, ← ih]
    exact List.forall_mem_append

/-- The first event that does not meet a condition. -/
theorem exists_of_not_each {C : σ → ε → Prop} (h : ¬ Each step C s es) :
    ∃ front e rest, es = front ++ e :: rest ∧ ¬ C (front.foldl step s) e := by
  induction es generalizing s with
  | nil => exact absurd trivial h
  | cons e es ih =>
    by_cases he : C s e
    · obtain ⟨front, e', rest, rfl, hnot⟩ := ih fun hes => h ⟨he, hes⟩
      exact ⟨e :: front, e', rest, rfl, hnot⟩
    · exact ⟨[], e, es, rfl, he⟩

end Collect

/-- Events that are `allowed` keep `Safe`. One of the user's `own` shows nothing and leads to a state that
is the same for the observer. Others keep states the same, and show the same unless one `leaks`. -/
structure Unwinding (step : σ → ε → σ) (out : σ → ε → List α) (Safe : σ → Prop) (Same : σ → σ → Prop)
    (allowed own : ε → Prop) (leaks : σ → ε → Prop) : Prop where
  safe : ∀ s e, Safe s → allowed e → Safe (step s e)
  own_same : ∀ s t e, Safe s → allowed e → own e → Same s t → Same (step s e) t
  own_out : ∀ s e, Safe s → allowed e → own e → out s e = []
  other_same : ∀ s t e, Safe s → Safe t → allowed e → ¬ own e → Same s t → Same (step s e) (step t e)
  other_out : ∀ s t e, Safe s → Safe t → allowed e → ¬ own e → Same s t → ¬ leaks t e → out s e = out t e

namespace Unwinding

variable {step : σ → ε → σ} {out : σ → ε → List α} {Safe : σ → Prop} {Same : σ → σ → Prop}
  {allowed own : ε → Prop} [DecidablePred own] {leaks : σ → ε → Prop} {s t : σ} {es : List ε}

theorem same_foldl (h : Unwinding step out Safe Same allowed own leaks) (hs : Safe s) (ht : Safe t)
    (hsame : Same s t) (hes : ∀ e ∈ es, allowed e) :
    Same (es.foldl step s) ((es.filter fun e => ¬ own e).foldl step t) := by
  induction es generalizing s t with
  | nil => exact hsame
  | cons e es ih =>
    obtain ⟨he, hrest⟩ := List.forall_mem_cons.mp hes
    by_cases hown : own e
    · rw [List.filter_cons_of_neg (by simpa using hown)]
      exact ih (h.safe s e hs he) ht (h.own_same s t e hs he hown hsame) hrest
    · rw [List.filter_cons_of_pos (by simpa using hown)]
      exact ih (h.safe s e hs he) (h.safe t e ht he) (h.other_same s t e hs ht he hown hsame) hrest

/-- **Noninterference.** As long as no event leaks, what is seen is what would be seen without the events
that are not for the observer. -/
theorem collect_eq (h : Unwinding step out Safe Same allowed own leaks) (hs : Safe s) (ht : Safe t)
    (hsame : Same s t) (hes : ∀ e ∈ es, allowed e)
    (hleaks : Each step (fun s e => ¬ leaks s e) t (es.filter fun e => ¬ own e)) :
    collect step out s es = collect step out t (es.filter fun e => ¬ own e) := by
  induction es generalizing s t with
  | nil => rfl
  | cons e es ih =>
    obtain ⟨he, hrest⟩ := List.forall_mem_cons.mp hes
    by_cases hown : own e
    · rw [List.filter_cons_of_neg (by simpa using hown)] at hleaks ⊢
      show out s e ++ _ = _
      rw [h.own_out s e hs he hown, List.nil_append]
      exact ih (h.safe s e hs he) ht (h.own_same s t e hs he hown hsame) hrest hleaks
    · rw [List.filter_cons_of_pos (by simpa using hown)] at hleaks ⊢
      obtain ⟨hleak, hmore⟩ := each_cons.mp hleaks
      show out s e ++ _ = out t e ++ _
      rw [h.other_out s t e hs ht he hown hsame hleak,
        ih (h.safe s e hs he) (h.safe t e ht he) (h.other_same s t e hs ht he hown hsame) hrest hmore]

end Unwinding

end Runs
