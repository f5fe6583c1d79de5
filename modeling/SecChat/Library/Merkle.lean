import Mathlib.Tactic

/-!
# Merkle trees by layers

A tree over a list is built layer by layer: neighbours are joined by `node`, and a last element without
a neighbour moves up as it is.  After enough rounds one element is left.

* `nextLayer`, `climb`: one round, and several;
* `length_climb`: a list of length at most `n + 1` that is not empty is down to one element after `n`
  rounds;
* `climb_injOn`: lists of the same length with the same result are equal, unless two pairs that were
  joined on the way collide.
-/

namespace Merkle

variable {α : Type*} (node : α → α → α)

/-- The layer above. -/
def nextLayer : List α → List α
  | [] => []
  | [a] => [a]
  | a :: b :: rest => node a b :: nextLayer rest

/-- The pairs that are joined in one round. -/
def pairs : List α → List (α × α)
  | a :: b :: rest => (a, b) :: pairs rest
  | _ => []

/-- The layer after some rounds. -/
def climb : ℕ → List α → List α
  | 0, l => l
  | n + 1, l => climb n (nextLayer node l)

/-- The pairs that are joined in the first rounds. -/
def joined : ℕ → List α → List (α × α)
  | 0, _ => []
  | n + 1, l => pairs l ++ joined n (nextLayer node l)

variable {node}

theorem length_nextLayer (l : List α) : (nextLayer node l).length = (l.length + 1) / 2 := by
  induction l using nextLayer.induct with
  | case1 => simp [nextLayer]
  | case2 a => simp [nextLayer]
  | case3 a b rest ih =>
    simp only [nextLayer, List.length_cons, ih]
    omega

theorem nextLayer_of_length_le_one {l : List α} (h : l.length ≤ 1) : nextLayer node l = l := by
  induction l using nextLayer.induct with
  | case1 => simp [nextLayer]
  | case2 a => simp [nextLayer]
  | case3 a b rest ih => simp at h

theorem climb_of_length_le_one {l : List α} (h : l.length ≤ 1) (n : ℕ) : climb node n l = l := by
  induction n with
  | zero => rfl
  | succ n ih => rw [climb, nextLayer_of_length_le_one h, ih]

/-- Enough rounds leave one element. -/
theorem length_climb {l : List α} {n : ℕ} (hne : l ≠ []) (h : l.length ≤ n + 1) :
    (climb node n l).length = 1 := by
  induction n generalizing l with
  | zero =>
    have := List.length_pos_iff.mpr hne
    simp only [climb]
    omega
  | succ n ih =>
    have hpos := List.length_pos_iff.mpr hne
    have hlen : (nextLayer node l).length = (l.length + 1) / 2 := length_nextLayer l
    refine ih (List.length_pos_iff.mp ?_) ?_
    · omega
    · omega

section Forall

variable {p : α → Prop} {l : List α}

theorem forall_pairs (h : ∀ a ∈ l, p a) : ∀ q ∈ pairs l, p q.1 ∧ p q.2 := by
  induction l using nextLayer.induct with
  | case1 => simp [pairs]
  | case2 a => simp [pairs]
  | case3 a b rest ih =>
    intro q hmem
    rw [pairs] at hmem
    rcases List.mem_cons.mp hmem with rfl | hmem
    · exact ⟨h a (by simp), h b (by simp)⟩
    · exact ih (fun x hx => h x (by simp [hx])) q hmem

/-- What holds of all elements, and of everything that `node` makes, holds of the next layer. -/
theorem forall_nextLayer (hnode : ∀ a b, p (node a b)) (h : ∀ a ∈ l, p a) :
    ∀ a ∈ nextLayer node l, p a := by
  induction l using nextLayer.induct with
  | case1 => simp [nextLayer]
  | case2 a => simpa [nextLayer] using h
  | case3 a b rest ih =>
    intro x hmem
    rw [nextLayer] at hmem
    rcases List.mem_cons.mp hmem with rfl | hmem
    · exact hnode a b
    · exact ih (fun x hx => h x (by simp [hx])) x hmem

theorem forall_climb (hnode : ∀ a b, p (node a b)) (n : ℕ) (h : ∀ a ∈ l, p a) :
    ∀ a ∈ climb node n l, p a := by
  induction n generalizing l with
  | zero => exact h
  | succ n ih => exact ih (forall_nextLayer hnode h)

theorem forall_joined (hnode : ∀ a b, p (node a b)) (n : ℕ) (h : ∀ a ∈ l, p a) :
    ∀ q ∈ joined node n l, p q.1 ∧ p q.2 := by
  induction n generalizing l with
  | zero => simp [joined]
  | succ n ih =>
    intro q hmem
    rcases List.mem_append.mp hmem with hmem | hmem
    · exact forall_pairs h q hmem
    · exact ih (forall_nextLayer hnode h) q hmem

end Forall

/-- One round is injective on lists of one length, up to collisions. -/
theorem nextLayer_injOn {l m : List α} (hlen : l.length = m.length)
    (hfree : ∀ q ∈ pairs l, ∀ r ∈ pairs m, node q.1 q.2 = node r.1 r.2 → q = r)
    (h : nextLayer node l = nextLayer node m) : l = m := by
  induction l using nextLayer.induct generalizing m with
  | case1 =>
    rcases m with _ | ⟨c, m⟩
    · rfl
    · simp at hlen
  | case2 a =>
    have hm : m.length ≤ 1 := by simp [← hlen]
    rwa [nextLayer_of_length_le_one hm, nextLayer] at h
  | case3 a b rest ih =>
    rcases m with _ | ⟨c, _ | ⟨d, rest'⟩⟩
    · simp at hlen
    · simp at hlen
    · simp only [nextLayer, List.cons.injEq] at h
      have hpair := hfree (a, b) (by simp [pairs]) (c, d) (by simp [pairs]) h.1
      have hrest := ih (by simpa using hlen)
        (fun q hq r hr => hfree q (by simp [pairs, hq]) r (by simp [pairs, hr])) h.2
      obtain ⟨rfl, rfl⟩ := Prod.mk.inj hpair
      rw [hrest]

/-- **Binding.**  Lists of one length with the same result are equal, up to collisions. -/
theorem climb_injOn {l m : List α} {n : ℕ} (hlen : l.length = m.length)
    (hfree : ∀ q ∈ joined node n l, ∀ r ∈ joined node n m, node q.1 q.2 = node r.1 r.2 → q = r)
    (h : climb node n l = climb node n m) : l = m := by
  induction n generalizing l m with
  | zero => exact h
  | succ n ih =>
    have hnext : nextLayer node l = nextLayer node m := by
      refine ih ?_ (fun q hq r hr => ?_) h
      · rw [length_nextLayer, length_nextLayer, hlen]
      · exact hfree q (List.mem_append_right _ hq) r (List.mem_append_right _ hr)
    refine nextLayer_injOn hlen (fun q hq r hr => ?_) hnext
    exact hfree q (List.mem_append_left _ hq) r (List.mem_append_left _ hr)

end Merkle
