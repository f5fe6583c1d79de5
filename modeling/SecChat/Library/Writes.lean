import Mathlib.Logic.Function.Basic

/-!
# Cells and writes

A store of cells, and lists of writes that overwrite one cell each.

* `run`: the store after some writes;
* `lastWrite`: what a list of writes leaves in a cell;
* `Holds`: a store has in every cell what was written to it last;
* `holds_skip_iff`: leaving out one write makes no difference exactly when a later one has the same cell, or
  the cell had the value already.
-/

namespace Writes

variable {C V : Type} [DecidableEq C]

/-- The writes, one after the other. -/
def run (ws : List (C × V)) (s : C → V) : C → V :=
  ws.foldl (fun s w => Function.update s w.1 w.2) s

/-- The last value that is written to a cell. -/
def lastWrite : List (C × V) → C → Option V
  | [], _ => none
  | w :: ws, c => (lastWrite ws c).or (if w.1 = c then some w.2 else none)

/-- What was written last is there. -/
def Holds (ws : List (C × V)) (s : C → V) : Prop := ∀ c v, lastWrite ws c = some v → s c = v

theorem run_cons (w : C × V) (ws : List (C × V)) (s : C → V) :
    run (w :: ws) s = run ws (Function.update s w.1 w.2) := rfl

theorem run_append (ws us : List (C × V)) (s : C → V) : run (ws ++ us) s = run us (run ws s) :=
  List.foldl_append

theorem lastWrite_append (ws us : List (C × V)) (c : C) :
    lastWrite (ws ++ us) c = (lastWrite us c).or (lastWrite ws c) := by
  induction ws with
  | nil => simp [lastWrite]
  | cons w ws ih => simp [lastWrite, ih, Option.or_assoc]

theorem lastWrite_eq_none_iff {ws : List (C × V)} {c : C} :
    lastWrite ws c = none ↔ ∀ w ∈ ws, w.1 ≠ c := by
  induction ws with
  | nil => simp [lastWrite]
  | cons w ws ih => simp [lastWrite, Option.or_eq_none_iff, ih, and_comm]

/-- **The store after some writes**, cell by cell. -/
theorem run_apply (ws : List (C × V)) (s : C → V) (c : C) : run ws s c = (lastWrite ws c).getD (s c) := by
  induction ws generalizing s with
  | nil => rfl
  | cons w ws ih =>
    rw [run_cons, ih, lastWrite]
    cases hlast : lastWrite ws c with
    | some v => simp
    | none =>
      by_cases hc : w.1 = c
      · subst hc
        simp
      · simp [hc, Function.update_of_ne (Ne.symm hc)]

theorem holds_run (ws : List (C × V)) (s : C → V) : Holds ws (run ws s) := by
  intro c v hlast
  rw [run_apply, hlast, Option.getD_some]

theorem holds_nil (s : C → V) : Holds [] s := by
  simp [Holds, lastWrite]

/-- The first write is there unless its cell is written again. -/
theorem holds_cons_iff {w : C × V} {ws : List (C × V)} {s : C → V} :
    Holds (w :: ws) s ↔ Holds ws s ∧ ((∀ w' ∈ ws, w'.1 ≠ w.1) → s w.1 = w.2) := by
  constructor
  · intro h
    refine ⟨fun c v hlast => h c v ?_, fun hnever => h w.1 w.2 ?_⟩
    · rw [lastWrite, hlast, Option.some_or]
    · rw [lastWrite, lastWrite_eq_none_iff.mpr hnever, Option.none_or, if_pos rfl]
  · rintro ⟨hws, hw⟩ c v hlast
    rw [lastWrite] at hlast
    cases hc : lastWrite ws c with
    | some u =>
      rw [hc, Option.some_or, Option.some.injEq] at hlast
      rw [← hlast]
      exact hws c u hc
    | none =>
      rw [hc, Option.none_or] at hlast
      split at hlast
      · next heq =>
        subst heq
        rw [← Option.some.inj hlast]
        exact hw (lastWrite_eq_none_iff.mp hc)
      · cases hlast

/-- **One write is left out.** -/
theorem holds_skip_iff {before after : List (C × V)} {w : C × V} {s : C → V} :
    Holds (before ++ w :: after) (run (before ++ after) s) ↔
      (∃ w' ∈ after, w'.1 = w.1) ∨ run before s w.1 = w.2 := by
  have hlast (c : C) : lastWrite (before ++ w :: after) c =
      (lastWrite after c).or ((if w.1 = c then some w.2 else none).or (lastWrite before c)) := by
    rw [lastWrite_append, lastWrite, Option.or_assoc]
  constructor
  · intro h
    by_cases hlater : ∃ w' ∈ after, w'.1 = w.1
    · exact .inl hlater
    · have hnone : lastWrite after w.1 = none :=
        lastWrite_eq_none_iff.mpr fun w' hw' heq => hlater ⟨w', hw', heq⟩
      have hw := h w.1 w.2 (by simp [hlast, hnone])
      rw [run_append, run_apply, hnone, Option.getD_none] at hw
      exact .inr hw
  · intro h c v hc
    rw [run_append, run_apply]
    rw [hlast] at hc
    cases hafter : lastWrite after c with
    | some u =>
      rw [hafter, Option.some_or, Option.some.injEq] at hc
      rw [hc, Option.getD_some]
    | none =>
      rw [hafter, Option.none_or] at hc
      rw [Option.getD_none]
      by_cases heq : w.1 = c
      · subst heq
        rw [if_pos rfl, Option.some_or, Option.some.injEq] at hc
        rcases h with ⟨w', hw', hsame⟩ | h
        · exact absurd hsame (lastWrite_eq_none_iff.mp hafter w' hw')
        · rw [h, hc]
      · rw [if_neg heq, Option.none_or] at hc
        rw [run_apply, hc, Option.getD_some]

end Writes
