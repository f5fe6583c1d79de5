import SecChat.Library.Merkle
import SecChat.Protocol.TermModel
import SecChat.Python.Hex

/-!
# The auditor

The auditor reads the table `identity_key_log` at every request, builds a Merkle tree over the leaf
hashes and signs its root.

* `LogRow`, `LogRow.leafText`: a row, and the text that the server hashes into its leaf;
* `nodeHash`, `treeLayers`, `root`, `inclusionProof`, `checkpoint`: the tree, on hexadecimal texts;
* `AuditRequest`, `doGet`: the endpoints;
* `root_hexOf`: over leaves that are digests, `root` is the Merkle tree of the library;
* `merkleRoot_injOn`: the root binds a list of a given length.
-/

open Py

namespace SecChat

/-- What the auditor and the client rely on: SHA-256 makes 32 octets, an Ed25519 signature has 64, and
a signature verifies under the key of its signer. -/
structure Prims.Sized (P : Prims) : Prop where
  sha256_length : ∀ msg, (P.sha256 msg).length = 32
  sign_length : ∀ sk msg, (P.ed25519Sign sk msg).length = 64
  verify_sign : ∀ (sk : Seed) (msg : Bytes),
    P.ed25519Verify (P.ed25519Public sk) (P.ed25519Sign sk msg) msg = true

/-- The term model with digests of 32 octets, the last ones of the message, and signatures made of two
digests. -/
def digestPrims : Prims :=
  let digest := fun msg : Bytes => ((msg.reverse ++ List.replicate 32 0).take 32).reverse
  { termPrims with
    ed25519Sign := fun sk msg => digest sk ++ digest msg
    ed25519Verify := fun pk sig msg => sig = digest pk ++ digest msg
    sha256 := digest }

theorem digestPrims_sized : digestPrims.Sized where
  sha256_length msg := by simp [digestPrims]
  sign_length sk msg := by simp [digestPrims]
  verify_sign sk msg := by simp [digestPrims, termPrims]

/-- The 32 octets of a SHA-256 digest. -/
abbrev Digest := {b : Bytes // b.length = 32}

/-- A row of `identity_key_log`; `leaf_hash` holds the hexadecimal digits of a digest. -/
structure LogRow where
  logIndex : ℤ
  userId : ℤ
  identityVersion : ℤ
  identityPk : String
  deviceIdHash : String
  deviceLabel : String
  eventType : String
  createdAt : String
  leafHash : Digest

/-- The text that `key_append_identity_log` hashes. -/
def LogRow.leafText (row : LogRow) : String :=
  s!"SecChatIdentityLeaf|{row.userId}|{row.identityVersion}|{row.identityPk}|{row.deviceIdHash}|" ++
    s!"{row.deviceLabel}|{row.eventType}|{row.createdAt}"

/-- The row as the auditor sends it, with the dense index of `_assign_leaf_indices`. -/
def LogRow.json (row : LogRow) (leafIndex : ℕ) : Json :=
  .obj [("log_index", .int row.logIndex), ("user_id", .int row.userId),
    ("identity_version", .int row.identityVersion), ("identity_pk", .str row.identityPk),
    ("device_id_hash", .str row.deviceIdHash), ("device_label", .str row.deviceLabel),
    ("event_type", .str row.eventType), ("created_at", .str row.createdAt),
    ("leaf_hash", .str (hexOf row.leafHash)), ("leaf_index", .int leafIndex)]

/-- The digests of the leaves. -/
def digests (rows : List LogRow) : List Bytes := rows.map fun row => row.leafHash.1

/-- `leaf_hashes`. -/
def leafHashes (rows : List LogRow) : List String := (digests rows).map hexOf

/-- An answer over HTTP. -/
structure HttpResponse where
  status : ℕ
  reason : String
  body : Bytes

/-- The requests that the auditor answers from the log. -/
inductive AuditRequest
  | checkpoint
  | identity (uid : ℤ)
  | proof (uid version : ℤ)
  | consistency (fromSize toSize : ℤ)

variable (P : Prims)

/-! ### The tree -/

/-- `_node_hash`. -/
def nodeHash (leftHex rightHex : String) : Except Exn String := do
  return hexOf (P.sha256 ([1] ++ (← fromHex leftHex) ++ (← fromHex rightHex)))

/-- The root of an empty log. -/
def emptyRoot : String := hexOf (P.sha256 (bytesOf "SecChatEmptyIdentityTree"))

/-- One turn of the loop of `_tree_layers`. -/
def nextHashes : List String → Except Exn (List String)
  | [] => .ok []
  | [a] => .ok [a]
  | a :: b :: rest => do
      let hash ← nodeHash P a b
      let hashes ← nextHashes rest
      return hash :: hashes

/-- The loop of `_tree_layers`; a layer has at most half as many hashes as the one below, rounded up,
so as many turns as leaves are enough. -/
def layersFrom : ℕ → List String → Except Exn (List (List String))
  | 0, cur => .ok [cur]
  | n + 1, cur =>
      if 1 < cur.length then do
        let nxt ← nextHashes P cur
        let layers ← layersFrom n nxt
        return cur :: layers
      else .ok [cur]

/-- `_tree_layers`. -/
def treeLayers (leaves : List String) : Except Exn (List (List String)) :=
  if leaves.isEmpty then .ok [[emptyRoot P]] else layersFrom P leaves.length leaves

/-- `_root`; the last layer has one element. -/
def root (leaves : List String) : Except Exn String := do
  let layers ← treeLayers P leaves
  return (layers.getLastD []).headD ""

/-- The loop of `_inclusion_proof`. -/
def proofFrom : ℕ → ℕ → List String → Except Exn (List (String × String))
  | 0, _, _ => .ok []
  | n + 1, idx, cur =>
      if 1 < cur.length then do
        let here : List (String × String) :=
          if idx % 2 = 0 then (cur[idx + 1]?.map fun hash => ("right", hash)).toList
          else (cur[idx - 1]?.map fun hash => ("left", hash)).toList
        let nxt ← nextHashes P cur
        let rest ← proofFrom n (idx / 2) nxt
        return here ++ rest
      else .ok []

/-- `_inclusion_proof`: side and hash of each sibling. -/
def inclusionProof (leaves : List String) (index : ℤ) : Except Exn (List (String × String)) :=
  if index < 0 ∨ leaves.length ≤ index then .ok []
  else proofFrom P leaves.length index.toNat leaves

/-! ### Checkpoints and endpoints -/

/-- A time as `strftime` writes it. -/
abbrev Timestamp := {t : String // t ≠ ""}

/-- What a checkpoint signs. -/
def checkpointMsg (treeSize : ℤ) (rootHash createdAt : String) : Bytes :=
  bytesOf s!"SecChatAuditCheckpoint|{treeSize}|{rootHash}|{createdAt}"

/-- A checkpoint with a given root. -/
def signedCheckpoint (sk : Seed) (now : Timestamp) (treeSize : ℕ) (rootHash : String) : Json :=
  .obj [("tree_size", .int treeSize), ("root_hash", .str rootHash), ("created_at", .str now),
    ("signature", .str (hexOf (P.ed25519Sign sk (checkpointMsg treeSize rootHash now)))),
    ("auditor_pk", .str (hexOf (P.ed25519Public sk)))]

/-- `_checkpoint`. -/
def checkpoint (sk : Seed) (now : Timestamp) (leaves : List String) : Except Exn Json := do
  let rootHash ← root P leaves
  return signedCheckpoint P sk now leaves.length rootHash

/-- `_json`. -/
def respond (status : ℕ) (obj : Json) : HttpResponse := ⟨status, "", dumps obj⟩

/-- An answer with an `error`. -/
def respondError (status : ℕ) (error : String) : HttpResponse :=
  respond status (.obj [("error", .str error)])

/-- The body of `do_GET` after the log is loaded. -/
def answer (sk : Seed) (now : Timestamp) (rows : List LogRow) (request : AuditRequest) :
    Except Exn HttpResponse := do
  let leaves := leafHashes rows
  let head ← checkpoint P sk now leaves
  match request with
  | .checkpoint => return respond 200 head
  | .identity uid =>
      let entries := rows.zipIdx.filter fun (row, _) => row.userId = uid
      return respond 200 (.obj [("user_id", .int uid),
        ("entries", .arr (entries.map fun (row, i) => row.json i)), ("checkpoint", head)])
  | .proof uid version =>
      let found := rows.zipIdx.find? fun (row, _) => row.userId = uid ∧ row.identityVersion = version
      match found with
      | none => return respondError 404 "identity version not found"
      | some (row, index) =>
          let steps ← inclusionProof P leaves index
          return respond 200 (.obj [("leaf", row.json index), ("leaf_index", .int index),
            ("proof", .arr (steps.map fun (side, hash) =>
              .obj [("side", .str side), ("hash", .str hash)])),
            ("checkpoint", head)])
  | .consistency fromSize toSize =>
      if fromSize < 0 ∨ toSize < fromSize ∨ leaves.length < toSize then
        return respondError 400 "invalid consistency range"
      else
        let fromRoot ← root P (leaves.take fromSize.toNat)
        let toRoot ← root P (leaves.take toSize.toNat)
        return respond 200 (.obj [("from_size", .int fromSize), ("to_size", .int toSize),
          ("from_root", .str fromRoot), ("to_root", .str toRoot), ("proof", .arr []),
          ("status", .str "consistent")])

/-- `do_GET`. -/
def doGet (sk : Seed) (now : Timestamp) (rows : List LogRow) (request : AuditRequest) :
    HttpResponse :=
  match answer P sk now rows request with
  | .ok response => response
  | .error (.valueError msg) => respondError 500 msg
  | .error _ => respondError 500 ""

/-! ### The tree over digests -/

/-- The node hash on octets. -/
def nodeDigest (left right : Bytes) : Bytes := P.sha256 ([1] ++ left ++ right)

/-- The root over digests. -/
def merkleRoot (leaves : List Bytes) : Bytes :=
  if leaves.isEmpty then P.sha256 (bytesOf "SecChatEmptyIdentityTree")
  else (Merkle.climb (nodeDigest P) leaves.length leaves).headD []

variable {P}

theorem nextHashes_hexOf (leaves : List Bytes) :
    nextHashes P (leaves.map hexOf) = .ok ((Merkle.nextLayer (nodeDigest P) leaves).map hexOf) := by
  induction leaves using Merkle.nextLayer.induct with
  | case1 => simp [nextHashes, Merkle.nextLayer]
  | case2 a => simp [nextHashes, Merkle.nextLayer]
  | case3 a b rest ih =>
    simp only [List.map_cons, nextHashes, nodeHash, fromHex_hexOf, ok_bind, pure_eq_ok, ih,
      Merkle.nextLayer, nodeDigest]

/-- The last layer is where the library's tree ends. -/
theorem layersFrom_hexOf (n : ℕ) (leaves : List Bytes) :
    ∃ front, layersFrom P n (leaves.map hexOf) =
      .ok (front ++ [(Merkle.climb (nodeDigest P) n leaves).map hexOf]) := by
  induction n generalizing leaves with
  | zero => exact ⟨[], rfl⟩
  | succ n ih =>
    simp only [layersFrom, List.length_map]
    by_cases hlen : 1 < leaves.length
    · obtain ⟨front, hfront⟩ := ih (Merkle.nextLayer (nodeDigest P) leaves)
      refine ⟨leaves.map hexOf :: front, ?_⟩
      rw [if_pos hlen, nextHashes_hexOf, ok_bind, hfront]
      rfl
    · refine ⟨[], ?_⟩
      rw [if_neg hlen, Merkle.climb_of_length_le_one (by omega)]
      rfl

/-- The last layer of a list that is not empty is its root. -/
theorem climb_eq_root {leaves : List Bytes} (h : leaves ≠ []) :
    Merkle.climb (nodeDigest P) leaves.length leaves = [merkleRoot P leaves] := by
  have hlen : (Merkle.climb (nodeDigest P) leaves.length leaves).length = 1 :=
    Merkle.length_climb h (Nat.le_succ leaves.length)
  obtain ⟨top, htop⟩ := List.length_eq_one_iff.mp hlen
  rw [merkleRoot, if_neg (by simpa using h), htop]
  rfl

/-- **Over digests `_root` is the root of the library's tree.** -/
theorem root_hexOf (leaves : List Bytes) :
    root P (leaves.map hexOf) = .ok (hexOf (merkleRoot P leaves)) := by
  unfold root treeLayers
  by_cases h : leaves = []
  · subst h
    rfl
  · obtain ⟨front, hfront⟩ := layersFrom_hexOf (P := P) leaves.length leaves
    rw [if_neg (by simpa using h), List.length_map, hfront, climb_eq_root h]
    simp

theorem checkpoint_leafHashes (sk : Seed) (now : Timestamp) (rows : List LogRow) :
    checkpoint P sk now (leafHashes rows) =
      .ok (signedCheckpoint P sk now rows.length (hexOf (merkleRoot P (digests rows)))) := by
  rw [checkpoint, leafHashes, root_hexOf, ok_bind, List.length_map, digests, List.length_map]
  rfl

theorem length_of_mem_digests {rows : List LogRow} : ∀ d ∈ digests rows, d.length = 32 := by
  intro d hd
  obtain ⟨row, -, rfl⟩ := List.mem_map.mp hd
  exact row.leafHash.2

theorem length_merkleRoot (hP : P.Sized) {leaves : List Bytes} (h : ∀ d ∈ leaves, d.length = 32) :
    (merkleRoot P leaves).length = 32 := by
  by_cases hnil : leaves = []
  · subst hnil
    exact hP.sha256_length _
  · have htop : merkleRoot P leaves ∈ Merkle.climb (nodeDigest P) leaves.length leaves := by
      rw [climb_eq_root hnil]
      exact List.mem_singleton_self _
    have hnode : ∀ a b, (nodeDigest P a b).length = 32 := fun _ _ => hP.sha256_length _
    exact Merkle.forall_climb hnode leaves.length h _ htop

/-- The octets that are hashed in the tree over a list. -/
def hashed (P : Prims) (leaves : List Bytes) : List Bytes :=
  (Merkle.joined (nodeDigest P) leaves.length leaves).map fun q => [1] ++ q.1 ++ q.2

/-- No two different strings that are hashed in two trees have the same digest. -/
def CollisionFree (P : Prims) (xs ys : List Bytes) : Prop :=
  ∀ a ∈ hashed P xs, ∀ b ∈ hashed P ys, P.sha256 a = P.sha256 b → a = b

/-- **Binding.**  Without collisions the root binds a list of a given length. -/
theorem merkleRoot_injOn (hP : P.Sized) {xs ys : List Bytes} (hxs : ∀ d ∈ xs, d.length = 32)
    (hys : ∀ d ∈ ys, d.length = 32) (hlen : xs.length = ys.length) (hfree : CollisionFree P xs ys)
    (h : merkleRoot P xs = merkleRoot P ys) : xs = ys := by
  by_cases hnil : xs = []
  · subst hnil
    exact (List.length_eq_zero_iff.mp hlen.symm).symm
  · have hnil' : ys ≠ [] := by
      rintro rfl
      exact hnil (List.length_eq_zero_iff.mp hlen)
    have hclimb : Merkle.climb (nodeDigest P) xs.length xs =
        Merkle.climb (nodeDigest P) xs.length ys := by
      rw [climb_eq_root hnil, hlen, climb_eq_root hnil', h]
    refine Merkle.climb_injOn hlen (fun q hq r hr heq => ?_) hclimb
    have hnode : ∀ a b, (nodeDigest P a b).length = 32 := fun _ _ => hP.sha256_length _
    have hq32 := Merkle.forall_joined hnode _ hxs q hq
    rw [hlen] at hr
    have heq' := hfree _ (List.mem_map_of_mem hq) _ (List.mem_map_of_mem hr) heq
    have hr32 := Merkle.forall_joined hnode _ hys r hr
    simp only [List.cons_append, List.nil_append, List.cons.injEq, true_and] at heq'
    obtain ⟨h1, h2⟩ := List.append_inj heq' (hq32.1.trans hr32.1.symm)
    exact Prod.ext h1 h2

end SecChat
