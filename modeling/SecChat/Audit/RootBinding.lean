import SecChat.Audit.Auditor

/-!
# What a root binds

`_root` on hexadecimal texts, for lists of one length.

* `joinedTexts`, `NodesApart`: the pairs that `_node_hash` gets on the way to two roots, and that it
  tells them apart;
* `nextHashes_injOn`, `layersFrom_injOn`: one layer, and all of them;
* `nodesApart_hexOf`: over digests it is enough that SHA-256 has no collision;
* `root_binds`: equal roots, and equal checkpoints, come from equal leaves.
-/

open Py

namespace SecChat

variable (P : Prims)

/-- The pairs that are hashed in the loop of `_tree_layers`. -/
def joinedTexts : ℕ → List String → List (String × String)
  | 0, _ => []
  | n + 1, cur =>
      Merkle.pairs cur ++
        match nextHashes P cur with
        | .ok nxt => joinedTexts n nxt
        | .error _ => []

/-- The node hash is injective on the pairs that are hashed for two lists of leaves. -/
def NodesApart (xs ys : List String) : Prop :=
  ∀ q ∈ joinedTexts P xs.length xs, ∀ r ∈ joinedTexts P ys.length ys, ∀ hash,
    nodeHash P q.1 q.2 = .ok hash → nodeHash P r.1 r.2 = .ok hash → q = r

variable {P}

theorem nextHashes_cons {a b : String} {rest zs : List String}
    (h : nextHashes P (a :: b :: rest) = .ok zs) :
    ∃ hash hashes, nodeHash P a b = .ok hash ∧ nextHashes P rest = .ok hashes ∧
      zs = hash :: hashes := by
  rw [nextHashes] at h
  cases hnode : nodeHash P a b with
  | error e =>
    rw [hnode] at h
    cases h
  | ok hash =>
    cases hrest : nextHashes P rest with
    | error e =>
      rw [hnode, ok_bind, hrest] at h
      cases h
    | ok hashes =>
      rw [hnode, ok_bind, hrest] at h
      exact ⟨hash, hashes, rfl, rfl, (Except.ok.inj h).symm⟩

theorem length_nextHashes {xs zs : List String} (h : nextHashes P xs = .ok zs) :
    zs.length = (xs.length + 1) / 2 := by
  induction xs using nextHashes.induct generalizing zs with
  | case1 =>
    obtain rfl := Except.ok.inj h
    rfl
  | case2 a =>
    obtain rfl := Except.ok.inj h
    simp
  | case3 a b rest ih =>
    obtain ⟨hash, hashes, -, hrest, rfl⟩ := nextHashes_cons h
    rw [List.length_cons, ih hrest, List.length_cons, List.length_cons]
    omega

/-- One layer.  The last text without a neighbour moves up as it is on both sides, as the lengths
are equal. -/
theorem nextHashes_injOn {xs ys zs : List String} (hlen : xs.length = ys.length)
    (hfree : ∀ q ∈ Merkle.pairs xs, ∀ r ∈ Merkle.pairs ys, ∀ hash,
      nodeHash P q.1 q.2 = .ok hash → nodeHash P r.1 r.2 = .ok hash → q = r)
    (hx : nextHashes P xs = .ok zs) (hy : nextHashes P ys = .ok zs) : xs = ys := by
  induction xs using nextHashes.induct generalizing ys zs with
  | case1 => exact (List.length_eq_zero_iff.mp hlen.symm).symm
  | case2 a =>
    obtain ⟨b, rfl⟩ := List.length_eq_one_iff.mp hlen.symm
    exact (Except.ok.inj hx).trans (Except.ok.inj hy).symm
  | case3 a b rest ih =>
    match ys, hlen with
    | c :: d :: rest', hlen =>
      obtain ⟨hash, hashes, hnode, hrest, rfl⟩ := nextHashes_cons hx
      obtain ⟨hash', hashes', hnode', hrest', heq⟩ := nextHashes_cons hy
      obtain ⟨rfl, rfl⟩ := List.cons.inj heq
      have hpair : (a, b) = (c, d) := hfree (a, b) (by simp [Merkle.pairs]) (c, d)
        (by simp [Merkle.pairs]) hash hnode hnode'
      obtain ⟨rfl, rfl⟩ := Prod.mk.inj hpair
      rw [ih (by simpa using hlen) (fun q hq r hr => hfree q (by simp [Merkle.pairs, hq]) r
        (by simp [Merkle.pairs, hr])) hrest hrest']

/-- A turn of the loop on more than one text. -/
theorem layersFrom_succ {n : ℕ} {cur : List String} {layers : List (List String)}
    (hlen : 1 < cur.length) (h : layersFrom P (n + 1) cur = .ok layers) :
    ∃ nxt above, nextHashes P cur = .ok nxt ∧ layersFrom P n nxt = .ok above ∧
      layers = cur :: above := by
  rw [layersFrom, if_pos hlen] at h
  cases hnxt : nextHashes P cur with
  | error e =>
    rw [hnxt] at h
    cases h
  | ok nxt =>
    rw [hnxt, ok_bind] at h
    cases habove : layersFrom P n nxt with
    | error e =>
      rw [habove] at h
      cases h
    | ok above =>
      rw [habove] at h
      exact ⟨nxt, above, rfl, habove, (Except.ok.inj h).symm⟩

theorem layersFrom_of_le_one {n : ℕ} {cur : List String} (hlen : cur.length ≤ 1) :
    layersFrom P n cur = .ok [cur] := by
  cases n with
  | zero => rfl
  | succ n => rw [layersFrom, if_neg (by omega)]

theorem layersFrom_ne_nil {n : ℕ} {cur : List String} {layers : List (List String)}
    (h : layersFrom P n cur = .ok layers) : layers ≠ [] := by
  by_cases hlen : cur.length ≤ 1
  · rw [layersFrom_of_le_one hlen] at h
    obtain rfl := Except.ok.inj h
    exact List.cons_ne_nil _ _
  · cases n with
    | zero =>
      obtain rfl := Except.ok.inj h
      exact List.cons_ne_nil _ _
    | succ n =>
      obtain ⟨nxt, above, -, -, rfl⟩ := layersFrom_succ (by omega) h
      exact List.cons_ne_nil _ _

theorem getLastD_layers {cur : List String} {above : List (List String)} (h : above ≠ []) :
    (cur :: above).getLastD [] = above.getLastD [] := by
  cases above with
  | nil => exact absurd rfl h
  | cons nxt above => rfl

/-- **All layers.** With turns enough for one text to be left, the first text of the last layer
binds the list.  The induction is on the turns. -/
theorem layersFrom_injOn (n : ℕ) {xs ys : List String} {layers layers' : List (List String)}
    (hpos : 0 < xs.length) (hn : xs.length ≤ n + 1) (hlen : xs.length = ys.length)
    (hfree : ∀ q ∈ joinedTexts P n xs, ∀ r ∈ joinedTexts P n ys, ∀ hash,
      nodeHash P q.1 q.2 = .ok hash → nodeHash P r.1 r.2 = .ok hash → q = r)
    (hx : layersFrom P n xs = .ok layers) (hy : layersFrom P n ys = .ok layers')
    (htop : (layers.getLastD []).headD "" = (layers'.getLastD []).headD "") : xs = ys := by
  induction n generalizing xs ys layers layers' with
  | zero =>
    obtain rfl := Except.ok.inj hx
    obtain rfl := Except.ok.inj hy
    obtain ⟨a, rfl⟩ := List.length_eq_one_iff.mp (le_antisymm hn hpos)
    obtain ⟨b, rfl⟩ := List.length_eq_one_iff.mp hlen.symm
    rw [show a = b from htop]
  | succ n ih =>
    by_cases hone : xs.length ≤ 1
    · rw [layersFrom_of_le_one hone] at hx
      rw [layersFrom_of_le_one (hlen ▸ hone)] at hy
      obtain rfl := Except.ok.inj hx
      obtain rfl := Except.ok.inj hy
      obtain ⟨a, rfl⟩ := List.length_eq_one_iff.mp (le_antisymm hone hpos)
      obtain ⟨b, rfl⟩ := List.length_eq_one_iff.mp hlen.symm
      rw [show a = b from htop]
    · obtain ⟨zs, above, hzs, habove, rfl⟩ := layersFrom_succ (by omega) hx
      obtain ⟨zs', above', hzs', habove', rfl⟩ := layersFrom_succ (by omega) hy
      rw [joinedTexts, joinedTexts, hzs, hzs'] at hfree
      have hzlen := length_nextHashes hzs
      have hzlen' := length_nextHashes hzs'
      have htop' : (above.getLastD []).headD "" = (above'.getLastD []).headD "" := by
        rwa [getLastD_layers (layersFrom_ne_nil habove),
          getLastD_layers (layersFrom_ne_nil habove')] at htop
      have hnext : zs = zs' := ih (by omega) (by omega) (by rw [hzlen, hzlen', hlen])
        (fun q hq r hr => hfree q (List.mem_append_right _ hq) r (List.mem_append_right _ hr))
        habove habove' htop'
      subst hnext
      exact nextHashes_injOn hlen (fun q hq r hr => hfree q (List.mem_append_left _ hq) r
        (List.mem_append_left _ hr)) hzs hzs'

theorem root_injOn {xs ys : List String} {hash : String} (hlen : xs.length = ys.length)
    (hfree : NodesApart P xs ys) (hx : root P xs = .ok hash) (hy : root P ys = .ok hash) :
    xs = ys := by
  by_cases hnil : xs = []
  · subst hnil
    exact (List.length_eq_zero_iff.mp hlen.symm).symm
  · have hnil' : ys ≠ [] := by
      rintro rfl
      exact hnil (List.length_eq_zero_iff.mp hlen)
    have hpos := List.length_pos_iff.mpr hnil
    unfold root treeLayers at hx hy
    rw [if_neg (by simpa using hnil)] at hx
    rw [if_neg (by simpa using hnil')] at hy
    cases hlx : layersFrom P xs.length xs with
    | error e =>
      rw [hlx] at hx
      cases hx
    | ok layers =>
      cases hly : layersFrom P ys.length ys with
      | error e =>
        rw [hly] at hy
        cases hy
      | ok layers' =>
        rw [hlx] at hx
        rw [hly] at hy
        have htop := (Except.ok.inj hx).trans (Except.ok.inj hy).symm
        rw [← hlen] at hly
        unfold NodesApart at hfree
        rw [← hlen] at hfree
        exact layersFrom_injOn xs.length hpos (Nat.le_succ _) hlen hfree hlx hly htop

/-! ### Digests -/

theorem pairs_hexOf (leaves : List Bytes) :
    Merkle.pairs (leaves.map hexOf) =
      (Merkle.pairs leaves).map fun q => (hexOf q.1, hexOf q.2) := by
  induction leaves using Merkle.nextLayer.induct with
  | case1 => rfl
  | case2 a => rfl
  | case3 a b rest ih =>
    rw [List.map_cons, List.map_cons, Merkle.pairs, ih, Merkle.pairs, List.map_cons]

theorem joinedTexts_hexOf (n : ℕ) (leaves : List Bytes) :
    joinedTexts P n (leaves.map hexOf) =
      (Merkle.joined (nodeDigest P) n leaves).map fun q => (hexOf q.1, hexOf q.2) := by
  induction n generalizing leaves with
  | zero => rfl
  | succ n ih =>
    rw [joinedTexts, nextHashes_hexOf, Merkle.joined, List.map_append, pairs_hexOf]
    dsimp only
    rw [ih]

/-- Over digests the node hash is injective as long as SHA-256 does not collide. -/
theorem nodesApart_hexOf (hP : P.Sized) {xs ys : List Bytes} (hxs : ∀ d ∈ xs, d.length = 32)
    (hys : ∀ d ∈ ys, d.length = 32) (hfree : CollisionFree P xs ys) :
    NodesApart P (xs.map hexOf) (ys.map hexOf) := by
  intro q hq r hr hash hqh hrh
  rw [joinedTexts_hexOf, List.length_map] at hq hr
  obtain ⟨left, hleft, rfl⟩ := List.mem_map.mp hq
  obtain ⟨right, hright, rfl⟩ := List.mem_map.mp hr
  have hnode : ∀ a b, (nodeDigest P a b).length = 32 := fun _ _ => hP.sha256_length _
  have hleft32 := Merkle.forall_joined hnode _ hxs left hleft
  have hright32 := Merkle.forall_joined hnode _ hys right hright
  simp only [nodeHash, fromHex_hexOf, ok_bind, pure_eq_ok, Except.ok.injEq] at hqh hrh
  have heq := hfree _ (List.mem_map_of_mem hleft) _ (List.mem_map_of_mem hright)
    (hexOf_injective (hqh.trans hrh.symm))
  simp only [List.cons_append, List.nil_append, List.cons.injEq, true_and] at heq
  obtain ⟨hfst, hsnd⟩ := List.append_inj heq (hleft32.1.trans hright32.1.symm)
  rw [hfst, hsnd]

/-! ### Checkpoints -/

/-- A checkpoint has the number of the leaves and their root. -/
theorem checkpoint_fields {sk : Seed} {now : Timestamp} {leaves : List String} {head : Json}
    (h : checkpoint P sk now leaves = .ok head) :
    head.getD "tree_size" (.int (-1)) = .ok (.int leaves.length) ∧
      ∃ hash, root P leaves = .ok hash ∧ head.getD "root_hash" (.str "") = .ok (.str hash) := by
  unfold checkpoint at h
  cases hroot : root P leaves with
  | error e =>
    rw [hroot] at h
    cases h
  | ok hash =>
    rw [hroot] at h
    obtain rfl := Except.ok.inj h
    exact ⟨rfl, hash, rfl, rfl⟩

/-- **Binding.** As far as the node hash is injective, lists of one length with equal roots are
equal, and so are the leaves of two checkpoints of one size and root. -/
theorem root_binds (P : Prims) (xs ys : List String) (hfree : NodesApart P xs ys) :
    (xs.length = ys.length → ∀ hash, root P xs = .ok hash → root P ys = .ok hash → xs = ys) ∧
      ∀ (sk sk' : Seed) (now now' : Timestamp) (head head' : Json),
        checkpoint P sk now xs = .ok head → checkpoint P sk' now' ys = .ok head' →
        head.getD "tree_size" (.int (-1)) = head'.getD "tree_size" (.int (-1)) →
        head.getD "root_hash" (.str "") = head'.getD "root_hash" (.str "") → xs = ys := by
  refine ⟨fun hlen hash hx hy => root_injOn hlen hfree hx hy, ?_⟩
  intro sk sk' now now' head head' hhead hhead' hsize hroot
  obtain ⟨hs, hash, hx, hr⟩ := checkpoint_fields hhead
  obtain ⟨hs', hash', hy, hr'⟩ := checkpoint_fields hhead'
  have hlen : xs.length = ys.length := by
    rw [hs, hs'] at hsize
    simpa using hsize
  have hhash : hash = hash' := by
    rw [hr, hr'] at hroot
    simpa using hroot
  subst hhash
  exact root_injOn hlen hfree hx hy

/-- Three leaves, of which the last moves up unhashed: where it differs, the roots differ. -/
theorem root_binds_three :
    let leaves := fun last : UInt8 => ([1, 2, last].map (List.replicate 32)).map hexOf
    ¬ ∃ hash, root digestPrims (leaves 3) = .ok hash ∧ root digestPrims (leaves 4) = .ok hash := by
  rintro leaves ⟨hash, hx, hy⟩
  have hfree : NodesApart digestPrims (leaves 3) (leaves 4) := by
    apply nodesApart_hexOf digestPrims_sized
    · decide
    · decide
    · unfold CollisionFree
      decide +kernel
  have heq := (root_binds digestPrims _ _ hfree).1 rfl hash hx hy
  exact absurd heq (by decide +kernel)

end SecChat
