import Mathlib.Data.List.Induction
import Mathlib.Order.Lattice

/-!
# Hash chains

Records are hashed one after the other, each together with the hash before it.

* `chain`, `links`: the last hash, and the pairs that are hashed;
* `chain_injOn`: without collisions, and when no hash is the initial one, the last hash binds the list;
* `eq_of_mem_iff`: lists of records that are strictly sorted by a key are equal when they have the same
  elements;
* `filter_concat_of_lt`, `filter_concat_of_forall_le`: the records up to a key, when one more is added at
  the end.
-/

namespace HashChain

variable {η ρ : Type*} (f : η → ρ → η) (init : η)

/-- The last hash. -/
def chain (l : List ρ) : η := l.foldl f init

/-- The pairs that are hashed. -/
def links : η → List ρ → List (η × ρ)
  | _, [] => []
  | prev, r :: l => (prev, r) :: links (f prev r) l

variable {f init}

@[simp] theorem chain_nil : chain f init [] = init := rfl

theorem chain_concat (l : List ρ) (r : ρ) : chain f init (l ++ [r]) = f (chain f init l) r := by
  rw [chain, List.foldl_append]
  rfl

theorem links_concat (l : List ρ) (r : ρ) :
    links f init (l ++ [r]) = links f init l ++ [(chain f init l, r)] := by
  induction l generalizing init with
  | nil => rfl
  | cons first l ih =>
    rw [List.cons_append, links, ih]
    rfl

/-- No two pairs that are hashed collide, and none has the initial hash. -/
structure Free (f : η → ρ → η) (init : η) (l l' : List ρ) : Prop where
  pairs : ∀ p ∈ links f init l, ∀ q ∈ links f init l', f p.1 p.2 = f q.1 q.2 → p = q
  left : ∀ p ∈ links f init l, f p.1 p.2 ≠ init
  right : ∀ p ∈ links f init l', f p.1 p.2 ≠ init

theorem Free.of_concat {l l' : List ρ} {r r' : ρ} (h : Free f init (l ++ [r]) (l' ++ [r'])) :
    Free f init l l' := by
  obtain ⟨hpairs, hleft, hright⟩ := h
  rw [links_concat] at hpairs hleft
  rw [links_concat] at hpairs hright
  exact ⟨fun p hp q hq => hpairs p (List.mem_append_left _ hp) q (List.mem_append_left _ hq),
    fun p hp => hleft p (List.mem_append_left _ hp),
    fun p hp => hright p (List.mem_append_left _ hp)⟩

theorem mem_links_concat (l : List ρ) (r : ρ) : (chain f init l, r) ∈ links f init (l ++ [r]) := by
  rw [links_concat]
  exact List.mem_append_right _ (List.mem_singleton_self _)

/-- **Binding.**  Lists with the same last hash are equal. -/
theorem chain_injOn {l l' : List ρ} (hfree : Free f init l l')
    (h : chain f init l = chain f init l') : l = l' := by
  induction l using List.reverseRecOn generalizing l' with
  | nil =>
    cases l' using List.reverseRecOn with
    | nil => rfl
    | append_singleton l' r' =>
      rw [chain_concat] at h
      exact absurd h.symm (hfree.right _ (mem_links_concat l' r'))
  | append_singleton l r ih =>
    cases l' using List.reverseRecOn with
    | nil =>
      rw [chain_concat] at h
      exact absurd h (hfree.left _ (mem_links_concat l r))
    | append_singleton l' r' =>
      rw [chain_concat, chain_concat] at h
      have hpair := hfree.pairs _ (mem_links_concat l r) _ (mem_links_concat l' r') h
      obtain ⟨hchain, rfl⟩ := Prod.mk.inj hpair
      rw [ih hfree.of_concat hchain]

/-! ### Records in the order of their keys -/

section Sorted

variable {κ : Type*} [LinearOrder κ] {key : ρ → κ}

/-- The elements determine a list that is strictly sorted. -/
theorem eq_of_mem_iff {l l' : List ρ} (hl : l.Pairwise fun a b => key a < key b)
    (hl' : l'.Pairwise fun a b => key a < key b) (h : ∀ r, r ∈ l ↔ r ∈ l') : l = l' := by
  have hnodup : ∀ {l : List ρ}, l.Pairwise (fun a b => key a < key b) → l.Nodup :=
    fun hl => hl.imp fun hlt heq => hlt.ne (congrArg key heq)
  refine List.Perm.eq_of_pairwise ?_ hl hl'
    ((List.perm_ext_iff_of_nodup (hnodup hl) (hnodup hl')).mpr h)
  intro a b _ _ hab hba
  exact absurd hba hab.not_gt

/-- The records up to a key that the last one does not have. -/
theorem filter_concat_of_lt {l : List ρ} {r : ρ} {k : κ} (h : k < key r) :
    (l ++ [r]).filter (fun r => decide (key r ≤ k)) = l.filter fun r => decide (key r ≤ k) := by
  have hlast : [r].filter (fun r => decide (key r ≤ k)) = [] := by simpa using h
  rw [List.filter_append, hlast, List.append_nil]

/-- All records are up to the last key. -/
theorem filter_concat_of_forall_le {l : List ρ} {r : ρ}
    (h : (l ++ [r]).Pairwise fun a b => key a < key b) :
    (l ++ [r]).filter (fun s => decide (key s ≤ key r)) = l ++ [r] := by
  rw [List.filter_eq_self]
  intro s hs
  rcases List.mem_append.mp hs with hs | hs
  · exact decide_eq_true ((List.pairwise_append.mp h).2.2 s hs r (List.mem_singleton_self r)).le
  · rw [List.mem_singleton.mp hs]
    exact decide_eq_true le_rfl

end Sorted

end HashChain
