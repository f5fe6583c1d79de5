import SecChat.Library.Merkle

/-!
# Paths in Merkle trees

The layers of a Merkle tree as a binary tree, and what a path from below can prove.

* `Tree`, `Tree.hash`, `treeOver`: the tree over a list, with `hash_treeOver`;
* `follow`: an element joined with one sibling after the other;
* `descend_of_follow`: a path that ends in the hash of a tree starts at one of its nodes, unless two joins
  collide or a leaf is the result of a join;
* `exists_path`: every node has a path.
-/

namespace Merkle

/-- A binary tree with elements at its leaves. -/
inductive Tree (α : Type*)
  | leaf (a : α)
  | node (left right : Tree α)

/-- Where a sibling stands. -/
inductive Side
  | left
  | right
  deriving DecidableEq

variable {α : Type*} (node : α → α → α)

namespace Tree

/-- The element at the top. -/
def hash : Tree α → α
  | leaf a => a
  | .node l r => node l.hash r.hash

/-- The elements at the leaves. -/
def leaves : Tree α → List α
  | leaf a => [a]
  | .node l r => l.leaves ++ r.leaves

/-- The pairs that are joined in the tree. -/
def joins : Tree α → List (α × α)
  | leaf _ => []
  | .node l r => (l.hash node, r.hash node) :: (l.joins ++ r.joins)

/-- The node below that has its siblings, from the top, on the given sides. -/
def descend : Tree α → List Side → Option (Tree α)
  | t, [] => some t
  | leaf _, _ :: _ => none
  | .node _ r, .left :: sides => r.descend sides
  | .node l _, .right :: sides => l.descend sides

end Tree

/-- An element and a sibling in their order. -/
def ordered (cur : α) : Side × α → α × α
  | (.left, sibling) => (sibling, cur)
  | (.right, sibling) => (cur, sibling)

/-- One step up. -/
def stepUp (cur : α) (step : Side × α) : α := node (ordered cur step).1 (ordered cur step).2

/-- The end of a path, which is given from below. -/
def follow (cur : α) (path : List (Side × α)) : α := path.foldl (stepUp node) cur

/-- The pairs that are joined along a path. -/
def pathJoins : α → List (Side × α) → List (α × α)
  | _, [] => []
  | cur, step :: path => ordered cur step :: pathJoins (stepUp node cur step) path

variable {node}

theorem follow_concat (cur : α) (path : List (Side × α)) (step : Side × α) :
    follow node cur (path ++ [step]) = stepUp node (follow node cur path) step := by
  rw [follow, List.foldl_append]
  rfl

theorem pathJoins_concat (cur : α) (path : List (Side × α)) (step : Side × α) :
    pathJoins node cur (path ++ [step]) =
      pathJoins node cur path ++ [ordered (follow node cur path) step] := by
  induction path generalizing cur with
  | nil => rfl
  | cons first path ih =>
    rw [List.cons_append, pathJoins, ih]
    rfl

/-- Every sibling of a path is joined. -/
theorem ordered_mem_pathJoins {cur : α} {path : List (Side × α)} {step : Side × α}
    (h : step ∈ path) : ∃ below, ordered below step ∈ pathJoins node cur path := by
  induction path generalizing cur with
  | nil => cases h
  | cons first path ih =>
    rcases List.mem_cons.mp h with rfl | h
    · exact ⟨cur, List.mem_cons_self⟩
    · obtain ⟨below, hmem⟩ := ih h
      exact ⟨below, List.mem_cons_of_mem _ hmem⟩

/-- No pair of the path collides with one of the tree, and no leaf is the result of a join. -/
structure Free (node : α → α → α) (t : Tree α) (cur : α) (path : List (Side × α)) : Prop where
  joins : ∀ p ∈ t.joins node, ∀ q ∈ pathJoins node cur path, node p.1 p.2 = node q.1 q.2 → p = q
  leaves : ∀ a ∈ t.leaves, ∀ q ∈ pathJoins node cur path, node q.1 q.2 ≠ a

/-- **What a path proves.**  A path to the hash of a tree starts at the node that its sides lead to. -/
theorem descend_of_follow {t : Tree α} {cur : α} {path : List (Side × α)} (hfree : Free node t cur path)
    (h : follow node cur path = t.hash node) :
    ∃ s, t.descend (path.reverse.map Prod.fst) = some s ∧ s.hash node = cur := by
  induction path using List.reverseRecOn generalizing t with
  | nil => exact ⟨t, by cases t <;> rfl, h.symm⟩
  | append_singleton path step ih =>
    rw [follow_concat] at h
    have hmem : ordered (follow node cur path) step ∈ pathJoins node cur (path ++ [step]) := by
      rw [pathJoins_concat]
      exact List.mem_append_right _ (List.mem_singleton_self _)
    have hsub : ∀ q ∈ pathJoins node cur path, q ∈ pathJoins node cur (path ++ [step]) := by
      intro q hq
      rw [pathJoins_concat]
      exact List.mem_append_left _ hq
    cases t with
    | leaf a => exact absurd h (hfree.leaves a (List.mem_singleton_self a) _ hmem)
    | node l r =>
      have hpair : (l.hash node, r.hash node) = ordered (follow node cur path) step :=
        hfree.joins _ List.mem_cons_self _ hmem h.symm
      have hl : Free node l cur path :=
        ⟨fun p hp q hq => hfree.joins p
            (List.mem_cons_of_mem _ (List.mem_append_left _ hp)) q (hsub q hq),
          fun a ha q hq => hfree.leaves a (List.mem_append_left _ ha) q (hsub q hq)⟩
      have hr : Free node r cur path :=
        ⟨fun p hp q hq => hfree.joins p
            (List.mem_cons_of_mem _ (List.mem_append_right _ hp)) q (hsub q hq),
          fun a ha q hq => hfree.leaves a (List.mem_append_right _ ha) q (hsub q hq)⟩
      obtain ⟨side, sibling⟩ := step
      rw [List.reverse_append, List.reverse_singleton, List.singleton_append, List.map_cons]
      cases side with
      | left => exact ih hr (Prod.mk.inj hpair).2.symm
      | right => exact ih hl (Prod.mk.inj hpair).1.symm

/-- Every node has a path to the top, and it joins pairs of the tree. -/
theorem exists_path {t s : Tree α} {sides : List Side} (h : t.descend sides.reverse = some s) :
    ∃ path : List (Side × α), path.map Prod.fst = sides ∧
      follow node (s.hash node) path = t.hash node ∧
      ∀ q ∈ pathJoins node (s.hash node) path, q ∈ t.joins node := by
  induction sides using List.reverseRecOn generalizing t with
  | nil =>
    obtain rfl : t = s := by simpa [Tree.descend] using h
    exact ⟨[], rfl, rfl, fun q hq => absurd hq List.not_mem_nil⟩
  | append_singleton sides side ih =>
    rw [List.reverse_append, List.reverse_singleton, List.singleton_append] at h
    cases t with
    | leaf a => cases h
    | node l r =>
      cases side with
      | left =>
        obtain ⟨path, hsides, hfollow, hjoins⟩ := ih h
        refine ⟨path ++ [(.left, l.hash node)], by simp [hsides], ?_, fun q hq => ?_⟩
        · rw [follow_concat, hfollow]
          rfl
        · rw [pathJoins_concat, hfollow] at hq
          rcases List.mem_append.mp hq with hq | hq
          · exact List.mem_cons_of_mem _ (List.mem_append_right _ (hjoins q hq))
          · rw [List.mem_singleton.mp hq]
            exact List.mem_cons_self
      | right =>
        obtain ⟨path, hsides, hfollow, hjoins⟩ := ih h
        refine ⟨path ++ [(.right, r.hash node)], by simp [hsides], ?_, fun q hq => ?_⟩
        · rw [follow_concat, hfollow]
          rfl
        · rw [pathJoins_concat, hfollow] at hq
          rcases List.mem_append.mp hq with hq | hq
          · exact List.mem_cons_of_mem _ (List.mem_append_left _ (hjoins q hq))
          · rw [List.mem_singleton.mp hq]
            exact List.mem_cons_self

/-! ### The tree over a list -/

/-- The tree whose layers `climb` computes. -/
def treeOver (l : List α) : Option (Tree α) :=
  (climb Tree.node l.length (l.map Tree.leaf)).head?

theorem nextLayer_map_hash (ts : List (Tree α)) :
    nextLayer node (ts.map (Tree.hash node)) = (nextLayer Tree.node ts).map (Tree.hash node) := by
  induction ts using nextLayer.induct with
  | case1 => rfl
  | case2 t => rfl
  | case3 s t rest ih =>
    simp only [List.map_cons, nextLayer, ih]
    rfl

theorem climb_map_hash (n : ℕ) (ts : List (Tree α)) :
    climb node n (ts.map (Tree.hash node)) = (climb Tree.node n ts).map (Tree.hash node) := by
  induction n generalizing ts with
  | zero => rfl
  | succ n ih => rw [climb, nextLayer_map_hash, ih, climb]

theorem map_hash_leaf (l : List α) : (l.map Tree.leaf).map (Tree.hash node) = l := by
  rw [List.map_map]
  exact List.map_id l

/-- The tree over a list has the hash that `climb` computes. -/
theorem hash_treeOver {l : List α} (hne : l ≠ []) :
    ∃ t, treeOver l = some t ∧ climb node l.length l = [t.hash node] := by
  have hne' : l.map Tree.leaf ≠ [] := by simpa using hne
  have hlen : (climb Tree.node l.length (l.map Tree.leaf)).length = 1 :=
    length_climb hne' (by rw [List.length_map]; exact Nat.le_succ l.length)
  obtain ⟨t, ht⟩ := List.length_eq_one_iff.mp hlen
  refine ⟨t, by rw [treeOver, ht]; rfl, ?_⟩
  have hclimb : climb node l.length ((l.map Tree.leaf).map (Tree.hash node)) =
      (climb Tree.node l.length (l.map Tree.leaf)).map (Tree.hash node) := climb_map_hash _ _
  rw [map_hash_leaf, ht] at hclimb
  exact hclimb

section Contents

variable {p : Tree α → Prop}

/-- The leaves of a layer stay the same. -/
theorem leaves_nextLayer (ts : List (Tree α)) :
    (nextLayer Tree.node ts).flatMap Tree.leaves = ts.flatMap Tree.leaves := by
  induction ts using nextLayer.induct with
  | case1 => rfl
  | case2 t => rfl
  | case3 s t rest ih =>
    simp only [nextLayer, List.flatMap_cons, ih, Tree.leaves, List.append_assoc]

theorem leaves_climb (n : ℕ) (ts : List (Tree α)) :
    (climb Tree.node n ts).flatMap Tree.leaves = ts.flatMap Tree.leaves := by
  induction n generalizing ts with
  | zero => rfl
  | succ n ih => rw [climb, ih, leaves_nextLayer]

/-- The leaves of the tree over a list are the list. -/
theorem leaves_treeOver {l : List α} {t : Tree α} (h : treeOver l = some t) : t.leaves = l := by
  have hne : l ≠ [] := by
    rintro rfl
    cases h
  have hlen : (climb Tree.node l.length (l.map Tree.leaf)).length = 1 :=
    length_climb (by simpa using hne) (by rw [List.length_map]; exact Nat.le_succ l.length)
  obtain ⟨t', ht'⟩ := List.length_eq_one_iff.mp hlen
  obtain rfl : t' = t := by
    rw [treeOver, ht'] at h
    exact Option.some.inj h
  have hleaves := leaves_climb l.length (l.map Tree.leaf)
  rw [ht', List.flatMap_singleton, List.flatMap_map] at hleaves
  rw [hleaves]
  exact List.flatMap_singleton' l

/-- The pairs of a layer are joined in the trees of the next one, or were before. -/
theorem joins_nextLayer (ts : List (Tree α)) :
    ∀ q ∈ (nextLayer Tree.node ts).flatMap (Tree.joins node),
      q ∈ ts.flatMap (Tree.joins node) ∨ q ∈ pairs (ts.map (Tree.hash node)) := by
  induction ts using nextLayer.induct with
  | case1 => exact fun q hq => .inl hq
  | case2 t => exact fun q hq => .inl hq
  | case3 s t rest ih =>
    intro q hq
    rw [nextLayer, List.flatMap_cons, List.mem_append] at hq
    rcases hq with hq | hq
    · rw [Tree.joins] at hq
      rcases List.mem_cons.mp hq with rfl | hq
      · exact .inr List.mem_cons_self
      · left
        rw [List.flatMap_cons, List.flatMap_cons, ← List.append_assoc]
        exact List.mem_append_left _ hq
    · rcases ih q hq with hq | hq
      · left
        rw [List.flatMap_cons, List.flatMap_cons]
        exact List.mem_append_right _ (List.mem_append_right _ hq)
      · exact .inr (List.mem_cons_of_mem _ hq)

theorem joins_climb (n : ℕ) (ts : List (Tree α)) :
    ∀ q ∈ (climb Tree.node n ts).flatMap (Tree.joins node),
      q ∈ ts.flatMap (Tree.joins node) ∨ q ∈ joined node n (ts.map (Tree.hash node)) := by
  induction n generalizing ts with
  | zero => exact fun q hq => .inl hq
  | succ n ih =>
    intro q hq
    rw [joined, nextLayer_map_hash]
    rcases ih (nextLayer Tree.node ts) q hq with hq | hq
    · rcases joins_nextLayer ts q hq with hq | hq
      · exact .inl hq
      · exact .inr (List.mem_append_left _ hq)
    · exact .inr (List.mem_append_right _ hq)

/-- The pairs that are joined in the tree over a list are those that are joined on the way up. -/
theorem joins_treeOver {l : List α} {t : Tree α} (h : treeOver l = some t) :
    ∀ q ∈ t.joins node, q ∈ joined node l.length l := by
  intro q hq
  have hmem : t ∈ climb Tree.node l.length (l.map Tree.leaf) := List.mem_of_head? h
  rcases joins_climb l.length (l.map Tree.leaf) q
    (List.mem_flatMap.mpr ⟨t, hmem, hq⟩) with hq | hq
  · obtain ⟨s, hs, hq⟩ := List.mem_flatMap.mp hq
    obtain ⟨a, -, rfl⟩ := List.mem_map.mp hs
    cases hq
  · rwa [map_hash_leaf] at hq

end Contents

end Merkle
