import Mathlib.Data.List.Nodup
import Mathlib.Data.Set.Basic

/-!
# What has been done of a list of tasks

A set of tasks that is to be done in order is a prefix of the list exactly when it contains, with a
task, every earlier one.
-/

namespace Prefixes

variable {α : Type*}

/-- With a task of the list, `s` contains the tasks before it. -/
def Closed (l : List α) (s : Set α) : Prop := ∀ a b, [a, b].Sublist l → b ∈ s → a ∈ s

theorem closed_cons {x : α} {l : List α} {s : Set α} :
    Closed (x :: l) s ↔ ((∃ b ∈ l, b ∈ s) → x ∈ s) ∧ Closed l s := by
  constructor
  · intro h
    refine ⟨fun ⟨b, hb, hs⟩ => h x b ?_ hs, fun a b hab => h a b (hab.cons x)⟩
    exact List.cons_sublist_cons.mpr (List.singleton_sublist.mpr hb)
  · rintro ⟨hx, hl⟩ a b hab hb
    cases hab with
    | cons _ hab => exact hl a b hab hb
    | cons_cons _ hab => exact hx ⟨b, List.singleton_sublist.mp hab, hb⟩

/-- The members of a list that are in `s` form a prefix. -/
theorem exists_prefix_iff {l : List α} (hl : l.Nodup) {s : Set α} :
    (∃ p, p <+: l ∧ ∀ a ∈ l, a ∈ s ↔ a ∈ p) ↔ Closed l s := by
  induction l with
  | nil =>
    refine iff_of_true ⟨[], List.prefix_rfl, by simp⟩ fun a b hab => ?_
    cases hab
  | cons x l ih =>
    obtain ⟨hx, hl⟩ := List.nodup_cons.mp hl
    rw [closed_cons, ← ih hl]
    constructor
    · rintro ⟨p, hp, hmem⟩
      cases p with
      | nil =>
        have hnone : ∀ a ∈ x :: l, a ∉ s := fun a ha hs => by simpa using (hmem a ha).mp hs
        refine ⟨fun ⟨b, hb, hs⟩ => absurd hs (hnone b (List.mem_cons_of_mem _ hb)),
          [], List.nil_prefix, fun a ha => ?_⟩
        exact iff_of_false (hnone a (List.mem_cons_of_mem _ ha)) List.not_mem_nil
      | cons y p =>
        obtain ⟨rfl, htail⟩ := List.cons_prefix_cons.mp hp
        refine ⟨fun _ => (hmem y List.mem_cons_self).mpr List.mem_cons_self, p, htail, fun a ha => ?_⟩
        have hne : a ≠ y := fun h => hx (h ▸ ha)
        rw [hmem a (List.mem_cons_of_mem _ ha), List.mem_cons, or_iff_right hne]
    · rintro ⟨hhead, p, hp, hmem⟩
      by_cases hs : x ∈ s
      · refine ⟨x :: p, List.cons_prefix_cons.mpr ⟨rfl, hp⟩, fun a ha => ?_⟩
        rcases List.mem_cons.mp ha with rfl | ha
        · exact iff_of_true hs List.mem_cons_self
        · have hne : a ≠ x := fun h => hx (h ▸ ha)
          rw [hmem a ha, List.mem_cons, or_iff_right hne]
      · refine ⟨[], List.nil_prefix, fun a ha => iff_of_false ?_ List.not_mem_nil⟩
        rcases List.mem_cons.mp ha with rfl | ha
        · exact hs
        · exact fun h => hs (hhead ⟨a, ha, h⟩)

end Prefixes
