import Mathlib.Data.List.Basic

/-!
# Fields with a separator between them

A record is written as its fields with a separator between them.  It can be read back when no field has
the separator in it, and also when a single field, at a known place, may have it.

* `intercalate_append`, `intercalate_nested`: fields of fields;
* `splitOn_fields`: what is read back;
* `fields_injective`: records with the same text are the same.
-/

namespace Fields

variable {α : Type} [BEq α] [LawfulBEq α] {c : α} {before after pieces : List (List α)} {field : List α}

omit [BEq α] [LawfulBEq α] in
theorem intercalate_append (sep : List α) (hp : pieces ≠ []) (ha : after ≠ []) :
    sep.intercalate (pieces ++ after) = sep.intercalate pieces ++ sep ++ sep.intercalate after := by
  induction pieces with
  | nil => exact absurd rfl hp
  | cons piece pieces ih =>
    by_cases hnil : pieces = []
    · rw [hnil, List.singleton_append, List.intercalate_cons_of_ne_nil ha, List.intercalate_singleton]
    · rw [List.cons_append, List.intercalate_cons_of_ne_nil (by simp [hnil]), ih hnil,
        List.intercalate_cons_of_ne_nil hnil]
      simp only [List.append_assoc]

omit [BEq α] [LawfulBEq α] in
/-- A field that is made of pieces. -/
theorem intercalate_nested (sep : List α) (before after : List (List α)) (hp : pieces ≠ []) :
    sep.intercalate (before ++ sep.intercalate pieces :: after) =
      sep.intercalate (before ++ (pieces ++ after)) := by
  induction before with
  | nil =>
    by_cases ha : after = []
    · rw [ha, List.nil_append, List.nil_append, List.intercalate_singleton, List.append_nil]
    · rw [List.nil_append, List.nil_append, List.intercalate_cons_of_ne_nil ha,
        intercalate_append sep hp ha]
  | cons first before ih =>
    rw [List.cons_append, List.cons_append, List.intercalate_cons_of_ne_nil (by simp),
      List.intercalate_cons_of_ne_nil (by simp [hp]), ih]

/-- The pieces do not have the separator. -/
theorem notMem_of_mem_splitOn (xs : List α) : ∀ l ∈ xs.splitOn c, c ∉ l := by
  induction xs with
  | nil => simp
  | cons x xs ih =>
    rw [List.splitOn_cons_eq_if_modifyHead]
    split
    · exact List.forall_mem_cons.mpr ⟨List.not_mem_nil, ih⟩
    · next hx =>
      obtain ⟨first, rest, hsplit⟩ := List.exists_cons_of_ne_nil (List.splitOn_ne_nil c xs)
      rw [hsplit] at ih ⊢
      obtain ⟨hfirst, hrest⟩ := List.forall_mem_cons.mp ih
      refine List.forall_mem_cons.mpr ⟨?_, hrest⟩
      rw [List.mem_cons, not_or]
      exact ⟨fun h => hx (by rw [h, beq_self_eq_true]), hfirst⟩

/-- **What is read back** of a record in which one field may have the separator. -/
theorem splitOn_fields (hbefore : ∀ l ∈ before, c ∉ l) (hafter : ∀ l ∈ after, c ∉ l)
    (field : List α) :
    ([c].intercalate (before ++ field :: after)).splitOn c = before ++ (field.splitOn c ++ after) := by
  have hpieces : field.splitOn c ≠ [] := List.splitOn_ne_nil c field
  have hfield : [c].intercalate (field.splitOn c) = field := List.intercalate_splitOn c
  conv_lhs => rw [← hfield, intercalate_nested _ _ _ hpieces]
  refine List.splitOn_intercalate c (fun l hl => ?_) (by simp [hpieces])
  rcases List.mem_append.mp hl with hl | hl
  · exact hbefore l hl
  · rcases List.mem_append.mp hl with hl | hl
    · exact notMem_of_mem_splitOn field l hl
    · exact hafter l hl

/-- **Records with the same text** are the same, if their fields stand at the same places. -/
theorem fields_injective {before' after' : List (List α)} {field' : List α}
    (hbefore : ∀ l ∈ before, c ∉ l) (hbefore' : ∀ l ∈ before', c ∉ l) (hafter : ∀ l ∈ after, c ∉ l)
    (hafter' : ∀ l ∈ after', c ∉ l) (hlen : before.length = before'.length)
    (hlen' : after.length = after'.length)
    (h : [c].intercalate (before ++ field :: after) = [c].intercalate (before' ++ field' :: after')) :
    before = before' ∧ field = field' ∧ after = after' := by
  have hsplit := congrArg (List.splitOn c) h
  rw [splitOn_fields hbefore hafter, splitOn_fields hbefore' hafter'] at hsplit
  obtain ⟨hb, hrest⟩ := List.append_inj hsplit hlen
  obtain ⟨hf, ha⟩ := List.append_inj' hrest hlen'
  refine ⟨hb, ?_, ha⟩
  have hfield : [c].intercalate (field.splitOn c) = field := List.intercalate_splitOn c
  rw [← hfield, hf, List.intercalate_splitOn]

end Fields
