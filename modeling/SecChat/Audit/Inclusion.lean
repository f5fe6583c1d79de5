import SecChat.Audit.Transparency
import SecChat.Library.MerklePath

/-!
# Inclusion proofs

The auditor's `_inclusion_proof` against the client's `verify_inclusion`.

* `CheckpointOf`: a checkpoint over a list of leaves;
* `inclusion_complete`: the proof of every leaf is accepted;
* `accepted_descends`: an accepted path starts at a node of the tree, which need not be the leaf at the
  given index;
* `inclusion_sound_iff`: acceptance names the leaf at the index exactly when the sides of the path lead
  nowhere else.
-/

open Py

namespace SecChat

variable {P : Prims}

/-- A hash of 32 octets in hexadecimal, in either case. -/
structure IsDigestHex (text : String) : Prop where
  length : text.length = 64
  octets : ∃ raw : Bytes, raw.length = 32 ∧ fromHex text = .ok raw

theorem isDigestHex_hexOf {raw : Bytes} (h : raw.length = 32) : IsDigestHex (hexOf raw) :=
  ⟨by rw [length_hexOf, h], raw, h, fromHex_hexOf raw⟩

/-- A step of the proof as the auditor sends it. -/
def proofItem (step : String × String) : Json := .obj [("side", .str step.1), ("hash", .str step.2)]

/-- A checkpoint with the size of the list and its root. -/
structure CheckpointOf (P : Prims) (leaves : List String) (head : Json) : Prop where
  size : head.getD "tree_size" (.int (-1)) = .ok (.int leaves.length)
  root : ∃ rootHash, root P leaves = .ok rootHash ∧
    head.getD "root_hash" (.str "") = .ok (.str rootHash)

/-! ### Completeness -/

theorem nodeHash_ok (hP : P.Sized) {left right : String} (hl : IsDigestHex left)
    (hr : IsDigestHex right) : ∃ hash, nodeHash P left right = .ok hash ∧ IsDigestHex hash := by
  obtain ⟨l, -, hl⟩ := hl.octets
  obtain ⟨r, -, hr⟩ := hr.octets
  refine ⟨hexOf (P.sha256 ([1] ++ l ++ r)), ?_, isDigestHex_hexOf (hP.sha256_length _)⟩
  rw [nodeHash, hl, ok_bind, hr, ok_bind]
  rfl

/-- What `_inclusion_proof` appends in one turn of its loop. -/
def siblingsAt (idx : ℕ) (cur : List String) : List (String × String) :=
  if idx % 2 = 0 then (cur[idx + 1]?.map fun hash => ("right", hash)).toList
  else (cur[idx - 1]?.map fun hash => ("left", hash)).toList

theorem siblingsAt_add_two (idx : ℕ) (a b : String) (rest : List String) :
    siblingsAt (idx + 2) (a :: b :: rest) = siblingsAt idx rest := by
  unfold siblingsAt
  rw [Nat.add_mod_right]
  split
  · rfl
  · next h =>
    -- an odd index is not zero
    obtain ⟨k, rfl⟩ : ∃ k, idx = k + 1 := Nat.exists_eq_succ_of_ne_zero (by rintro rfl; exact h rfl)
    rfl

theorem inclusionStep_right {cur hash : String} (h : hash.length = 64) :
    inclusionStep P cur (proofItem ("right", hash)) = pyRaises (nodeHash P cur hash) := by
  simp [inclusionStep, proofItem, h, Json.pyEq]

theorem inclusionStep_left {cur hash : String} (h : hash.length = 64) :
    inclusionStep P cur (proofItem ("left", hash)) = pyRaises (nodeHash P hash cur) := by
  simp [inclusionStep, proofItem, h, Json.pyEq]

/-- A layer of the tree: it has half as many hashes, and the steps of the proof lead from each hash to
the one at half its index. -/
structure LayerAbove (P : Prims) (cur nxt : List String) : Prop where
  length : nxt.length = (cur.length + 1) / 2
  digests : ∀ hash ∈ nxt, IsDigestHex hash
  climbs : ∀ idx hash, cur[idx]? = some hash → ∃ above, nxt[idx / 2]? = some above ∧
    ((siblingsAt idx cur).map proofItem).foldlM (inclusionStep P) hash = .ok above

theorem nextHashes_ok (hP : P.Sized) {cur : List String} (h : ∀ hash ∈ cur, IsDigestHex hash) :
    ∃ nxt, nextHashes P cur = .ok nxt ∧ LayerAbove P cur nxt := by
  induction cur using nextHashes.induct with
  | case1 => exact ⟨[], rfl, rfl, h, fun idx hash hget => by cases hget⟩
  | case2 a =>
    refine ⟨[a], rfl, by simp, h, fun idx hash hget => ?_⟩
    cases idx with
    | zero =>
      obtain rfl := Option.some.inj hget
      exact ⟨a, rfl, rfl⟩
    | succ idx => cases hget
  | case3 a b rest ih =>
    obtain ⟨ha, h⟩ := List.forall_mem_cons.mp h
    obtain ⟨hb, h⟩ := List.forall_mem_cons.mp h
    obtain ⟨above, hnode, habove⟩ := nodeHash_ok hP ha hb
    obtain ⟨nxt, hnext, hlayer⟩ := ih h
    refine ⟨above :: nxt, ?_, ?_, ?_, fun idx hash hget => ?_⟩
    · rw [nextHashes, hnode, ok_bind, hnext]
      rfl
    · rw [List.length_cons, hlayer.length, List.length_cons, List.length_cons]
      omega
    · exact List.forall_mem_cons.mpr ⟨habove, hlayer.digests⟩
    · rcases idx with _ | _ | idx
      · obtain rfl := Option.some.inj hget
        refine ⟨above, rfl, ?_⟩
        have hstep : inclusionStep P a (proofItem ("right", b)) = .ok above := by
          rw [inclusionStep_right hb.length, hnode]
          rfl
        simp [siblingsAt, hstep]
      · obtain rfl := Option.some.inj hget
        refine ⟨above, rfl, ?_⟩
        have hstep : inclusionStep P b (proofItem ("left", a)) = .ok above := by
          rw [inclusionStep_left ha.length, hnode]
          rfl
        simp [siblingsAt, hstep]
      · rw [siblingsAt_add_two, Nat.add_div_right idx Nat.two_pos]
        exact hlayer.climbs idx hash hget

theorem eq_singleton_of_getElem? {α : Type} {l : List α} {i : ℕ} {a : α} (hlen : l.length ≤ 1)
    (h : l[i]? = some a) : l = [a] := by
  match l, i with
  | [b], 0 => exact congrArg (fun b => [b]) (Option.some.inj h)
  | [_], i + 1 => cases h
  | _ :: _ :: _, _ => simp at hlen

/-- The proof climbs from a hash of a layer to the only hash of the last one. -/
theorem proofFrom_climbs (hP : P.Sized) {n idx : ℕ} {cur : List String} {hash : String}
    (hlen : cur.length ≤ n + 1) (h : ∀ hash ∈ cur, IsDigestHex hash) (hget : cur[idx]? = some hash) :
    ∃ proof layers top, proofFrom P n idx cur = .ok proof ∧ layersFrom P n cur = .ok layers ∧
      layers ≠ [] ∧ layers.getLastD [] = [top] ∧
      (proof.map proofItem).foldlM (inclusionStep P) hash = .ok top := by
  induction n generalizing idx cur hash with
  | zero =>
    obtain rfl := eq_singleton_of_getElem? hlen hget
    exact ⟨[], [[hash]], hash, rfl, rfl, List.cons_ne_nil _ _, rfl, rfl⟩
  | succ n ih =>
    by_cases hmore : 1 < cur.length
    · obtain ⟨nxt, hnext, hlayer⟩ := nextHashes_ok hP h
      obtain ⟨above, hget', hclimb⟩ := hlayer.climbs idx hash hget
      have hlen' : nxt.length ≤ n + 1 := by
        rw [hlayer.length]
        omega
      obtain ⟨proof, layers, top, hproof, hlayers, hne, htop, hfold⟩ :=
        ih hlen' hlayer.digests hget'
      refine ⟨siblingsAt idx cur ++ proof, cur :: layers, top, ?_, ?_, List.cons_ne_nil _ _, ?_, ?_⟩
      · rw [proofFrom, if_pos hmore, hnext, ok_bind, hproof]
        rfl
      · rw [layersFrom, if_pos hmore, hnext, ok_bind, hlayers]
        rfl
      · rw [← htop]
        cases layers with
        | nil => exact absurd rfl hne
        | cons layer layers => rfl
      · rw [List.map_append, List.foldlM_append, hclimb]
        exact hfold
    · obtain rfl := eq_singleton_of_getElem? (Nat.le_of_not_lt hmore) hget
      exact ⟨[], [[hash]], hash, by simp [proofFrom], by simp [layersFrom],
        List.cons_ne_nil _ _, rfl, rfl⟩

/-- **Completeness.**  The client accepts the auditor's proof of every leaf against a checkpoint over
the same leaves. -/
theorem inclusion_complete (hP : P.Sized) {leaves : List String}
    (hleaves : ∀ hash ∈ leaves, IsDigestHex hash) {i : ℕ} (hi : i < leaves.length) {head : Json}
    (hhead : CheckpointOf P leaves head) :
    ∃ proof, inclusionProof P leaves i = .ok proof ∧
      verifyInclusion P leaves[i] i (proof.map proofItem) head = .ok () := by
  obtain ⟨proof, layers, top, hproof, hlayers, -, htop, hfold⟩ :=
    proofFrom_climbs hP (Nat.le_succ leaves.length) hleaves (List.getElem?_eq_getElem hi)
  refine ⟨proof, ?_, ?_⟩
  · have hrange : ¬ ((i : ℤ) < 0 ∨ (leaves.length : ℤ) ≤ i) := by omega
    rw [inclusionProof, if_neg hrange, Int.toNat_natCast, hproof]
  · -- both sides compute the same top
    obtain ⟨rootHash, hroot, htext⟩ := hhead.root
    have hne : leaves.isEmpty = false := by
      cases leaves with
      | nil => cases hi
      | cons a leaves => rfl
    have hrootHash : root P leaves = .ok top := by
      rw [root, treeLayers, hne, if_neg Bool.false_ne_true, hlayers, ok_bind, htop]
      rfl
    obtain rfl : top = rootHash := Except.ok.inj (hrootHash.symm.trans hroot)
    have hsize : ¬ ((leaves.length : ℤ) = 0) := by omega
    have hrange : ¬ ((i : ℤ) < 0 ∨ (leaves.length : ℤ) ≤ i) := by omega
    simp only [verifyInclusion, hhead.size, pyRaises_ok, ok_bind, Json.toInt_int, getText, htext,
      pure_eq_ok, Json.toStr_str, if_neg hsize, if_neg hrange, hfold]
    simp

/-- A checkpoint that the auditor makes. -/
theorem checkpointOf_checkpoint {sk : Seed} {now : Timestamp} {leaves : List String} {head : Json}
    (h : checkpoint P sk now leaves = .ok head) : CheckpointOf P leaves head := by
  obtain ⟨rootHash, hroot, hhead⟩ := bind_eq_ok_iff.mp h
  obtain rfl := Except.ok.inj hhead
  exact ⟨by simp [signedCheckpoint], rootHash, hroot, by simp [signedCheckpoint]⟩

/-- Three leaves, the last of which moves up without a neighbour. -/
theorem inclusion_complete_of_three :
    let leaves := leafHashes [leafRow 1, leafRow 2, leafRow 3]
    ∃ proof, inclusionProof digestPrims leaves (2 : ℕ) = .ok proof ∧
      verifyInclusion digestPrims (hexOf (List.replicate 32 3)) (2 : ℕ) (proof.map proofItem)
        (headOf [leafRow 1, leafRow 2, leafRow 3]) = .ok () := by
  intro leaves
  refine inclusion_complete (i := 2) digestPrims_sized ?_ (by decide)
    (checkpointOf_checkpoint (checkpoint_leafHashes auditorSeed someTime _))
  intro hash hmem
  obtain ⟨d, hd, rfl⟩ := List.mem_map.mp hmem
  exact isDigestHex_hexOf (length_of_mem_digests d hd)

/-! ### What an accepted path proves -/

/-- The side that `verify_inclusion` reads in a step. -/
def sideOf (item : Json) : Option Merkle.Side :=
  match item.getD "side" .null with
  | .ok side =>
      if side.pyEq (.str "left") then some .left
      else if side.pyEq (.str "right") then some .right
      else none
  | .error _ => none

/-- A step of a proof, read as a side and a hash. -/
structure Reads (item : Json) (step : Merkle.Side × Bytes) : Prop where
  side : sideOf item = some step.1
  hash : ∃ text, getText item "hash" = .ok text ∧ text.length = 64 ∧ fromHex text = .ok step.2

theorem pyRaises_eq_ok_iff {α : Type} {x : Except Exn α} {a : α} :
    pyRaises x = .ok a ↔ x = .ok a := by
  cases x <;> simp [pyRaises, Except.mapError]

theorem nodeHash_eq_ok_iff {left right out : String} :
    nodeHash P left right = .ok out ↔
      ∃ l r, fromHex left = .ok l ∧ fromHex right = .ok r ∧ out = hexOf (nodeDigest P l r) := by
  constructor
  · intro h
    obtain ⟨l, hl, h⟩ := bind_eq_ok_iff.mp h
    obtain ⟨r, hr, h⟩ := bind_eq_ok_iff.mp h
    exact ⟨l, r, hl, hr, (Except.ok.inj h).symm⟩
  · rintro ⟨l, r, hl, hr, rfl⟩
    rw [nodeHash, hl, ok_bind, hr, ok_bind]
    rfl

/-- A step that is taken joins the hash with the sibling on its side. -/
theorem inclusionStep_eq_ok_iff {cur out : String} {item : Json} :
    inclusionStep P cur item = .ok out ↔
      ∃ raw step, fromHex cur = .ok raw ∧ Reads item step ∧
        out = hexOf (Merkle.stepUp (nodeDigest P) raw step) := by
  constructor
  · intro h
    obtain ⟨text, htext, h⟩ := bind_eq_ok_iff.mp h
    split at h
    · cases h
    · next hlen =>
      have hlen : text.length = 64 := not_not.mp hlen
      obtain ⟨side, hside, h⟩ := bind_eq_ok_iff.mp h
      have hside := pyRaises_eq_ok_iff.mp hside
      split at h
      · next hleft =>
        obtain ⟨sibling, raw, hs, hc, rfl⟩ := nodeHash_eq_ok_iff.mp (pyRaises_eq_ok_iff.mp h)
        exact ⟨raw, (.left, sibling), hc, ⟨by rw [sideOf, hside]; exact if_pos hleft,
          text, htext, hlen, hs⟩, rfl⟩
      · next hleft =>
        split at h
        · next hright =>
          obtain ⟨raw, sibling, hc, hs, rfl⟩ := nodeHash_eq_ok_iff.mp (pyRaises_eq_ok_iff.mp h)
          exact ⟨raw, (.right, sibling), hc,
            ⟨by rw [sideOf, hside]; exact (if_neg hleft).trans (if_pos hright),
              text, htext, hlen, hs⟩, rfl⟩
        · cases h
  · rintro ⟨raw, ⟨side, sibling⟩, hc, ⟨hside, text, htext, hlen, hs⟩, rfl⟩
    unfold sideOf at hside
    split at hside
    · next value hvalue =>
      rw [inclusionStep, htext, ok_bind, if_neg (not_not.mpr hlen), hvalue]
      simp only [pyRaises_ok, ok_bind]
      split at hside
      · next hleft =>
        obtain rfl := Option.some.inj hside
        rw [if_pos hleft]
        exact pyRaises_eq_ok_iff.mpr (nodeHash_eq_ok_iff.mpr ⟨sibling, raw, hs, hc, rfl⟩)
      · next hleft =>
        split at hside
        · next hright =>
          obtain rfl := Option.some.inj hside
          rw [if_neg hleft, if_pos hright]
          exact pyRaises_eq_ok_iff.mpr (nodeHash_eq_ok_iff.mpr ⟨raw, sibling, hc, hs, rfl⟩)
        · cases hside
    · cases hside

/-- A path that ends in a digest starts at the text of one. -/
theorem foldlM_eq_hexOf {cur : String} {proof : List Json} {top : Bytes}
    (h : proof.foldlM (inclusionStep P) cur = .ok (hexOf top)) :
    ∃ raw path, fromHex cur = .ok raw ∧ List.Forall₂ Reads proof path ∧
      Merkle.follow (nodeDigest P) raw path = top := by
  induction proof generalizing cur with
  | nil =>
    obtain rfl := Except.ok.inj h
    exact ⟨top, [], fromHex_hexOf top, .nil, rfl⟩
  | cons item proof ih =>
    rw [List.foldlM_cons] at h
    obtain ⟨mid, hmid, h⟩ := bind_eq_ok_iff.mp h
    obtain ⟨raw, step, hraw, hreads, rfl⟩ := inclusionStep_eq_ok_iff.mp hmid
    obtain ⟨raw', path, hraw', hpath, hfollow⟩ := ih h
    obtain rfl := Except.ok.inj ((fromHex_hexOf _).symm.trans hraw')
    exact ⟨raw, step :: path, hraw, .cons hreads hpath, hfollow⟩

/-- The path from the text of a digest, along steps that are read. -/
theorem foldlM_of_reads {cur : String} {raw : Bytes} {proof : List Json}
    {path : List (Merkle.Side × Bytes)} (hcur : fromHex cur = .ok raw)
    (hreads : List.Forall₂ Reads proof path) (hne : path ≠ [] ∨ cur = hexOf raw) :
    proof.foldlM (inclusionStep P) cur =
      .ok (hexOf (Merkle.follow (nodeDigest P) raw path)) := by
  induction hreads generalizing cur raw with
  | nil =>
    rcases hne with hne | rfl
    · exact absurd rfl hne
    · rfl
  | cons hitem _ ih =>
    have hstep := (inclusionStep_eq_ok_iff (P := P)).mpr ⟨raw, _, hcur, hitem, rfl⟩
    rw [List.foldlM_cons, hstep, ok_bind]
    exact ih (fromHex_hexOf _) (.inr rfl)

/-- What is accepted against a checkpoint over digests. -/
theorem verifyInclusion_eq_ok_iff {leaves : List Bytes} {leafHash : String} {leafIndex : ℤ}
    {proof : List Json} {head : Json} (hhead : CheckpointOf P (leaves.map hexOf) head) :
    verifyInclusion P leafHash leafIndex proof head = .ok () ↔
      leaves = [] ∨ (0 ≤ leafIndex ∧ leafIndex < leaves.length) ∧
        proof.foldlM (inclusionStep P) leafHash = .ok (hexOf (merkleRoot P leaves)) := by
  obtain ⟨rootHash, hroot, htext⟩ := hhead.root
  have hsize := hhead.size
  rw [List.length_map] at hsize
  obtain rfl := Except.ok.inj ((root_hexOf (P := P) leaves).symm.trans hroot)
  simp only [verifyInclusion, hsize, pyRaises_ok, ok_bind, Json.toInt_int, getText, htext,
    pure_eq_ok, Json.toStr_str]
  cases leaves with
  | nil => simp [emptyRoot, merkleRoot]
  | cons leaf leaves =>
    have hne : ¬ (((leaf :: leaves).length : ℕ) : ℤ) = 0 := by simp; omega
    rw [if_neg hne]
    by_cases hrange : leafIndex < 0 ∨ ((leaf :: leaves).length : ℤ) ≤ leafIndex
    · rw [if_pos hrange]
      simp only [raiseAudit, reduceCtorEq, false_iff, List.cons_ne_nil, false_or, not_and]
      omega
    · rw [if_neg hrange]
      constructor
      · intro h
        obtain ⟨cur, hcur, h⟩ := bind_eq_ok_iff.mp h
        split at h
        · cases h
        · next heq =>
          rw [not_not.mp heq] at hcur
          exact .inr ⟨by omega, hcur⟩
      · rintro (h | ⟨-, h⟩)
        · cases h
        · rw [h, ok_bind, if_neg (not_not.mpr rfl)]

/-! ### Soundness -/

/-- The node hash is injective on the path and the tree, and no leaf is the hash of a node of the
path. -/
def PathFree (P : Prims) (leaves : List Bytes) (leafHash : String) (proof : List Json) : Prop :=
  ∀ tree raw path, Merkle.treeOver leaves = some tree → fromHex leafHash = .ok raw →
    List.Forall₂ Reads proof path → Merkle.Free (nodeDigest P) tree raw path

/-- The same of the pairs of the tree. -/
structure TreeFree (P : Prims) (leaves : List Bytes) : Prop where
  nodes : ∀ p ∈ Merkle.joined (nodeDigest P) leaves.length leaves,
    ∀ q ∈ Merkle.joined (nodeDigest P) leaves.length leaves,
      nodeDigest P p.1 p.2 = nodeDigest P q.1 q.2 → p = q
  leaves : ∀ d ∈ leaves, ∀ q ∈ Merkle.joined (nodeDigest P) leaves.length leaves,
    nodeDigest P q.1 q.2 ≠ d

/-- Acceptance of a proof whose steps have the given sides means that the index is one of the tree and
the hash is that of the leaf there; `same` compares the two. -/
def InclusionSound (P : Prims) (same : String → Bytes → Prop) (leaves : List Bytes) (head : Json)
    (leafIndex : ℤ) (sides : List (Option Merkle.Side)) : Prop :=
  ∀ leafHash proof, proof.map sideOf = sides → PathFree P leaves leafHash proof →
    verifyInclusion P leafHash leafIndex proof head = .ok () →
    0 ≤ leafIndex ∧ ∃ leaf, leaves[leafIndex.toNat]? = some leaf ∧ same leafHash leaf

/-- The node of the tree that the sides lead to, with the sides from below as in a proof. -/
def nodeAt (leaves : List Bytes) (sides : List (Option Merkle.Side)) :
    Option (Merkle.Tree Bytes) := do
  let sides ← sides.mapM fun side => side
  let tree ← Merkle.treeOver leaves
  tree.descend sides.reverse

theorem sideOf_of_reads {proof : List Json} {path : List (Merkle.Side × Bytes)}
    (h : List.Forall₂ Reads proof path) : proof.map sideOf = (path.map Prod.fst).map some := by
  induction h with
  | nil => rfl
  | cons hitem _ ih => rw [List.map_cons, hitem.side, ih, List.map_cons, List.map_cons]

theorem mapM_some (sides : List Merkle.Side) :
    (sides.map some).mapM (fun side : Option Merkle.Side => side) = some sides := by
  induction sides with
  | nil => rfl
  | cons side sides ih => rw [List.map_cons, List.mapM_cons, ih]; rfl

theorem mapM_eq_some {sides : List (Option Merkle.Side)} {ss : List Merkle.Side}
    (h : sides.mapM (fun side => side) = some ss) : ss.map some = sides := by
  induction sides generalizing ss with
  | nil =>
    obtain rfl := Option.some.inj h
    rfl
  | cons side sides ih =>
    rw [List.mapM_cons] at h
    obtain ⟨first, rfl, htail⟩ := Option.bind_eq_some_iff.mp h
    obtain ⟨rest, hrest, hcons⟩ := Option.bind_eq_some_iff.mp htail
    obtain rfl := Option.some.inj hcons
    rw [List.map_cons, ih hrest]

/-- The tree over the leaves has their root. -/
theorem hash_tree {leaves : List Bytes} {tree : Merkle.Tree Bytes}
    (h : Merkle.treeOver leaves = some tree) : tree.hash (nodeDigest P) = merkleRoot P leaves := by
  have hne : leaves ≠ [] := by
    rintro rfl
    cases h
  have hover : ∃ t, Merkle.treeOver leaves = some t ∧
      Merkle.climb (nodeDigest P) leaves.length leaves = [t.hash (nodeDigest P)] :=
    Merkle.hash_treeOver hne
  obtain ⟨tree', htree', hclimb⟩ := hover
  obtain rfl := Option.some.inj (h.symm.trans htree')
  rw [climb_eq_root hne] at hclimb
  exact (List.cons.inj hclimb).1.symm

/-- An accepted path starts at the node that its sides lead to. -/
theorem accepted_descends {leaves : List Bytes} {leafHash : String} {leafIndex : ℤ}
    {proof : List Json} {head : Json} (hhead : CheckpointOf P (leaves.map hexOf) head)
    (hne : leaves ≠ []) (hfree : PathFree P leaves leafHash proof)
    (h : verifyInclusion P leafHash leafIndex proof head = .ok ()) :
    (0 ≤ leafIndex ∧ leafIndex < leaves.length) ∧
      ∃ node, nodeAt leaves (proof.map sideOf) = some node ∧
        fromHex leafHash = .ok (node.hash (nodeDigest P)) := by
  rcases (verifyInclusion_eq_ok_iff hhead).mp h with hnil | ⟨hrange, hfold⟩
  · exact absurd hnil hne
  · obtain ⟨raw, path, hraw, hreads, hfollow⟩ := foldlM_eq_hexOf hfold
    obtain ⟨tree, htree, -⟩ := @Merkle.hash_treeOver _ (nodeDigest P) _ hne
    obtain ⟨node, hnode, hhash⟩ := Merkle.descend_of_follow (hfree tree raw path htree hraw hreads)
      (hfollow.trans (hash_tree htree).symm)
    refine ⟨hrange, node, ?_, by rw [hhash, hraw]⟩
    rw [nodeAt, sideOf_of_reads hreads, mapM_some, htree]
    rwa [List.map_reverse] at hnode

/-- A step of a proof for a sibling. -/
def stepItem : Merkle.Side × Bytes → Json
  | (.left, sibling) => proofItem ("left", hexOf sibling)
  | (.right, sibling) => proofItem ("right", hexOf sibling)

theorem reads_stepItem {step : Merkle.Side × Bytes} (h : step.2.length = 32) :
    Reads (stepItem step) step := by
  obtain ⟨side, sibling⟩ := step
  have hlen : (hexOf sibling).length = 64 := by rw [length_hexOf, h]
  cases side <;>
    exact ⟨by simp [sideOf, stepItem, proofItem, Json.pyEq], hexOf sibling,
      by simp [stepItem, proofItem], hlen, fromHex_hexOf _⟩

theorem Reads.unique {item : Json} {step step' : Merkle.Side × Bytes} (h : Reads item step)
    (h' : Reads item step') : step = step' := by
  obtain ⟨text, htext, -, hraw⟩ := h.hash
  obtain ⟨text', htext', -, hraw'⟩ := h'.hash
  obtain rfl := Except.ok.inj (htext.symm.trans htext')
  have hside := Option.some.inj (h.side.symm.trans h'.side)
  exact Prod.ext hside (Except.ok.inj (hraw.symm.trans hraw'))

theorem reads_unique {proof : List Json} {path path' : List (Merkle.Side × Bytes)}
    (h : List.Forall₂ Reads proof path) (h' : List.Forall₂ Reads proof path') : path = path' := by
  induction h generalizing path' with
  | nil =>
    cases h'
    rfl
  | cons hitem _ ih =>
    cases h' with
    | cons hitem' h' => rw [hitem.unique hitem', ih h']

/-- Every node of the tree has an accepted proof, from any text of its hash when the proof has a
step. -/
theorem exists_accepted (hP : P.Sized) {leaves : List Bytes} (hleaves : ∀ d ∈ leaves, d.length = 32)
    (hfree : TreeFree P leaves) {head : Json} (hhead : CheckpointOf P (leaves.map hexOf) head)
    {leafIndex : ℤ} (hrange : 0 ≤ leafIndex ∧ leafIndex < leaves.length)
    {sides : List (Option Merkle.Side)} {node : Merkle.Tree Bytes}
    (hnode : nodeAt leaves sides = some node) {leafHash : String}
    (htext : fromHex leafHash = .ok (node.hash (nodeDigest P)))
    (hsides : sides ≠ [] ∨ leafHash = hexOf (node.hash (nodeDigest P))) :
    ∃ proof, proof.map sideOf = sides ∧ PathFree P leaves leafHash proof ∧
      verifyInclusion P leafHash leafIndex proof head = .ok () := by
  have hne : leaves ≠ [] := by
    rintro rfl
    simp at hrange
    omega
  obtain ⟨ss, hss, hnode⟩ := Option.bind_eq_some_iff.mp hnode
  obtain ⟨tree, htree, hnode⟩ := Option.bind_eq_some_iff.mp hnode
  obtain ⟨path, hpath, hfollow, hjoins⟩ := @Merkle.exists_path _ (nodeDigest P) _ _ _ hnode
  -- everything that is joined on the path is joined in the tree
  have hjoined : ∀ q ∈ Merkle.pathJoins (nodeDigest P) (node.hash (nodeDigest P)) path,
      q ∈ Merkle.joined (nodeDigest P) leaves.length leaves :=
    fun q hq => Merkle.joins_treeOver htree q (hjoins q hq)
  have hlen : ∀ step ∈ path, step.2.length = 32 := by
    intro step hstep
    have hordered : ∃ below, Merkle.ordered below step ∈
        Merkle.pathJoins (nodeDigest P) (node.hash (nodeDigest P)) path :=
      Merkle.ordered_mem_pathJoins hstep
    obtain ⟨below, hmem⟩ := hordered
    have hsized := Merkle.forall_joined (p := fun d : Bytes => d.length = 32)
      (fun a b => (hP.sha256_length _ : (nodeDigest P a b).length = 32)) leaves.length hleaves _ (hjoined _ hmem)
    obtain ⟨side, sibling⟩ := step
    cases side with
    | left => exact hsized.1
    | right => exact hsized.2
  have hreads : List.Forall₂ Reads (path.map stepItem) path := by
    rw [List.forall₂_map_left_iff]
    exact List.forall₂_same.mpr fun step hstep => reads_stepItem (hlen step hstep)
  have hmap : (path.map stepItem).map sideOf = sides := by
    rw [sideOf_of_reads hreads, hpath, mapM_eq_some hss]
  refine ⟨path.map stepItem, hmap, ?_, (verifyInclusion_eq_ok_iff hhead).mpr (.inr ⟨hrange, ?_⟩)⟩
  · intro tree' raw path' htree' hraw hreads'
    obtain rfl := Option.some.inj (htree.symm.trans htree')
    obtain rfl := Except.ok.inj (htext.symm.trans hraw)
    obtain rfl := reads_unique hreads hreads'
    exact ⟨fun p hp q hq => hfree.nodes p (Merkle.joins_treeOver htree p hp) q (hjoined q hq),
      fun d hd q hq => hfree.leaves d (Merkle.leaves_treeOver htree ▸ hd) q (hjoined q hq)⟩
  · rw [foldlM_of_reads htext hreads ?_, hfollow, hash_tree htree]
    refine hsides.imp_left fun hsides hnil => hsides ?_
    rw [← hmap, hnil]
    rfl

/-- A proof with given sides. -/
theorem exists_sides (sides : List (Option Merkle.Side)) :
    ∃ proof : List Json, proof.map sideOf = sides := by
  induction sides with
  | nil => exact ⟨[], rfl⟩
  | cons side sides ih =>
    obtain ⟨proof, rfl⟩ := ih
    have hside : ∃ item, sideOf item = side := by
      match side with
      | none => exact ⟨.null, rfl⟩
      | some side =>
        have hreads : Reads (stepItem (side, List.replicate 32 0)) (side, List.replicate 32 0) :=
          reads_stepItem rfl
        exact ⟨_, hreads.side⟩
    obtain ⟨item, rfl⟩ := hside
    exact ⟨item :: proof, rfl⟩

/-- Over no leaves everything is accepted. -/
theorem not_sound_nil {same : String → Bytes → Prop} {head : Json} {leafIndex : ℤ}
    {sides : List (Option Merkle.Side)} (hhead : CheckpointOf P [] head) :
    ¬ InclusionSound P same [] head leafIndex sides := by
  intro hsound
  obtain ⟨proof, hproof⟩ := exists_sides sides
  have hfree : PathFree P [] "" proof := fun tree raw path htree => by cases htree
  obtain ⟨-, leaf, hleaf, -⟩ := hsound "" proof hproof hfree
    ((@verifyInclusion_eq_ok_iff P [] _ _ _ _ hhead).mpr (.inl rfl))
  cases hleaf

/-- The claimed hash is that of the leaf. -/
def SameHash (leafHash : String) (leaf : Bytes) : Prop := fromHex leafHash = .ok leaf

/-- The claimed text is the one in the log. -/
def SameText (leafHash : String) (leaf : Bytes) : Prop := leafHash = hexOf leaf

/-- **Soundness.**  `verify_inclusion` halves the index along the path and does not use it, and it takes
any node of the tree for a leaf.  For every list of leaves, index and pattern of sides, an accepted hash
is that of the leaf at the index exactly when the sides lead from the root to no node or to that leaf;
its text is the one in the log only when, besides, there are no steps.  Over no leaves everything is
accepted. -/
theorem inclusion_sound_iff (hP : P.Sized) {leaves : List Bytes}
    (hleaves : ∀ d ∈ leaves, d.length = 32) (hfree : TreeFree P leaves) {head : Json}
    (hhead : CheckpointOf P (leaves.map hexOf) head) (leafIndex : ℤ)
    (sides : List (Option Merkle.Side)) :
    (InclusionSound P SameHash leaves head leafIndex sides ↔
      leaves ≠ [] ∧ (0 ≤ leafIndex → leafIndex < leaves.length →
        ∀ node, nodeAt leaves sides = some node →
          leaves[leafIndex.toNat]? = some (node.hash (nodeDigest P)))) ∧
    (InclusionSound P SameText leaves head leafIndex sides ↔
      leaves ≠ [] ∧ (0 ≤ leafIndex → leafIndex < leaves.length →
        ∀ node, nodeAt leaves sides = some node →
          leaves[leafIndex.toNat]? = some (node.hash (nodeDigest P)) ∧ sides = [])) := by
  refine ⟨⟨fun hsound => ⟨?_, fun hlow hhigh node hnode => ?_⟩, ?_⟩,
    ⟨fun hsound => ⟨?_, fun hlow hhigh node hnode => ?_⟩, ?_⟩⟩
  · rintro rfl
    exact not_sound_nil hhead hsound
  · obtain ⟨proof, hproof, hpath, hok⟩ := exists_accepted hP hleaves hfree hhead ⟨hlow, hhigh⟩ hnode
      (fromHex_hexOf _) (.inr rfl)
    obtain ⟨-, leaf, hleaf, hsame⟩ := hsound _ proof hproof hpath hok
    rw [hleaf, ← Except.ok.inj ((fromHex_hexOf _).symm.trans hsame)]
  · rintro ⟨hne, hcond⟩ leafHash proof rfl hpath hok
    obtain ⟨⟨hlow, hhigh⟩, node, hnode, hraw⟩ := accepted_descends hhead hne hpath hok
    exact ⟨hlow, _, hcond hlow hhigh node hnode, hraw⟩
  · rintro rfl
    exact not_sound_nil hhead hsound
  · obtain ⟨proof, hproof, hpath, hok⟩ := exists_accepted hP hleaves hfree hhead ⟨hlow, hhigh⟩ hnode
      (fromHex_hexOf _) (.inr rfl)
    obtain ⟨-, leaf, hleaf, hsame⟩ := hsound _ proof hproof hpath hok
    refine ⟨by rw [hleaf, hexOf_injective hsame], ?_⟩
    by_contra hsides
    -- with a step in the path the text may as well end in a space
    obtain ⟨proof', hproof', hpath', hok'⟩ := exists_accepted hP hleaves hfree hhead ⟨hlow, hhigh⟩
      hnode (fromHex_hexOf_space _) (.inl hsides)
    obtain ⟨-, leaf', -, hsame'⟩ := hsound _ proof' hproof' hpath' hok'
    have hlen := congrArg String.length (hsame' : _ = hexOf leaf')
    rw [String.length_append, length_hexOf, length_hexOf] at hlen
    have hone : " ".length = 1 := rfl
    omega
  · rintro ⟨hne, hcond⟩ leafHash proof rfl hpath hok
    obtain ⟨⟨hlow, hhigh⟩, node, hnode, hraw⟩ := accepted_descends hhead hne hpath hok
    obtain ⟨hleaf, hsides⟩ := hcond hlow hhigh node hnode
    obtain rfl := List.map_eq_nil_iff.mp hsides
    refine ⟨hlow, _, hleaf, ?_⟩
    rcases (verifyInclusion_eq_ok_iff hhead).mp hok with hnil | ⟨-, hfold⟩
    · exact absurd hnil hne
    · -- without a step the text is that of the root
      obtain rfl := Except.ok.inj hfold
      exact congrArg hexOf (Except.ok.inj ((fromHex_hexOf _).symm.trans hraw))

/-- The same with a digest that mixes the octets of the message. -/
def mixPrims : Prims := { digestPrims with sha256 := mixDigest }

theorem mixPrims_sized : mixPrims.Sized where
  sha256_length := length_mixDigest
  sign_length sk msg := digestPrims_sized.sign_length sk msg
  verify_sign sk msg := digestPrims_sized.verify_sign sk msg

/-- A log with two leaves, and its head. -/
def twoRows : List LogRow := [leafRow 1, leafRow 2]

def twoRowsHead : Json :=
  signedCheckpoint mixPrims auditorSeed someTime twoRows.length
    (hexOf (merkleRoot mixPrims (digests twoRows)))

theorem twoRows_free : TreeFree mixPrims (digests twoRows) :=
  ⟨by decide +kernel, by decide +kernel⟩

theorem checkpointOf_twoRowsHead :
    CheckpointOf mixPrims ((digests twoRows).map hexOf) twoRowsHead :=
  checkpointOf_checkpoint (checkpoint_leafHashes auditorSeed someTime twoRows)

/-- The first leaf, at its own index. -/
theorem inclusion_sound_iff_first :
    InclusionSound mixPrims SameHash (digests twoRows) twoRowsHead 0 [some .right] := by
  refine ((inclusion_sound_iff mixPrims_sized length_of_mem_digests twoRows_free
    checkpointOf_twoRowsHead 0 [some .right]).1).mpr ⟨by decide, fun _ _ node hnode => ?_⟩
  obtain rfl := Option.some.inj hnode
  rfl

/-- **The index is not checked.**  The proof of the first leaf is accepted at the second index. -/
theorem inclusion_not_sound :
    TreeFree mixPrims (digests twoRows) ∧
    verifyInclusion mixPrims (hexOf (leafRow 1).leafHash) 1
      [proofItem ("right", hexOf (leafRow 2).leafHash)] twoRowsHead = .ok () ∧
    ¬ InclusionSound mixPrims SameHash (digests twoRows) twoRowsHead 1 [some .right] := by
  refine ⟨twoRows_free, ?_, fun hsound => ?_⟩
  · have hreads : Reads (stepItem (.right, (leafRow 2).leafHash)) (.right, (leafRow 2).leafHash) :=
      reads_stepItem (leafRow 2).leafHash.2
    have htop : Merkle.follow (nodeDigest mixPrims) (leafRow 1).leafHash.1
        [(.right, (leafRow 2).leafHash.1)] = merkleRoot mixPrims (digests twoRows) := by
      decide +kernel
    refine (verifyInclusion_eq_ok_iff checkpointOf_twoRowsHead).mpr (.inr ⟨by decide, ?_⟩)
    rw [← htop]
    exact foldlM_of_reads (fromHex_hexOf _) (.cons hreads .nil) (.inr rfl)
  · have hnode : nodeAt (digests twoRows) [some .right] = some (.leaf (leafRow 1).leafHash.1) := rfl
    obtain ⟨proof, hproof, hpath, hok⟩ := exists_accepted mixPrims_sized length_of_mem_digests
      twoRows_free checkpointOf_twoRowsHead (by decide : (0 : ℤ) ≤ 1 ∧ (1 : ℤ) < 2) hnode
      (fromHex_hexOf _) (.inr rfl)
    obtain ⟨-, leaf, hleaf, hsame⟩ := hsound _ proof hproof hpath hok
    obtain rfl := Option.some.inj hleaf
    exact absurd (Except.ok.inj ((fromHex_hexOf _).symm.trans hsame)) (by decide)

end SecChat
