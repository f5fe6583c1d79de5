import SecChat.Audit.Auditor
import SecChat.Audit.IdentityState

/-!
# Identity transparency on the client

`audit.py`: the client fetches an inclusion proof for an identity key from the auditor, checks the
signature of the checkpoint, the fields of the leaf and the Merkle path, and compares the checkpoint
with the one it has pinned.

* `AuditExn`, `fetchJson`: what can be raised, and a request;
* `verifyCheckpoint`, `verifyInclusion`, `checkConsistency`, `verifyIdentityFromAuditor`;
* `consistency_exact`: against an honest auditor `check_consistency` raises exactly when the pinned log
  is not a prefix of the new one;
* `acceptance_sound_iff`: nothing ties the hash of the leaf to its fields or to a leaf of the tree, so a
  key outside the log is accepted as well.
-/

open Py

namespace SecChat

/-- What the calls raise: an `AuditError` with its message and code, a failed connection, or an
exception of Python. -/
inductive AuditExn
  | auditError (message code : String)
  | urlError
  | py (e : Exn)
  deriving DecidableEq

/-- An exception of Python that the code does not catch. -/
def pyRaises {α : Type} : Except Exn α → Except AuditExn α := Except.mapError .py

/-- `raise AuditError(message, code=code)`. -/
def raiseAudit {α : Type} (message code : String) : Except AuditExn α :=
  .error (.auditError message code)

/-- What comes back for each request; `none` is a failed connection. -/
abbrev AuditNet := AuditRequest → Option HttpResponse

/-- `_fetch_json`. -/
def fetchJson (net : AuditNet) (request : AuditRequest) : Except AuditExn Json :=
  match net request with
  | none => .error .urlError
  | some response =>
      if 200 ≤ response.status ∧ response.status < 300 then pyRaises (loads response.body)
      else do
        let body := ((loads response.body).toOption).getD (.obj [])
        let error ← pyRaises (body.getD "error" (.str ""))
        let error := ((error.orElse (.str response.reason)).orElse (.str "")).toStr
        if "identity version not found".toList <:+: error.toLower.toList then
          raiseAudit "Identity version not found in auditor log" "identity_version_not_found"
        else
          let shown := if error = "" then "unknown error" else error
          raiseAudit s!"Auditor HTTP error {response.status}: {shown}" "auditor_http_error"

/-- `str(d.get(key, ""))`. -/
def getText (d : Json) (key : String) : Except AuditExn String := do
  return (← pyRaises (d.getD key (.str ""))).toStr

variable (P : Prims)

/-- `verify_checkpoint`, with the auditor's key that the client has. -/
def verifyCheckpoint (pkHex : String) (head : Json) : Except AuditExn Unit := do
  let treeSize ← pyRaises (← pyRaises (head.getD "tree_size" (.int (-1)))).toInt
  let rootHash ← getText head "root_hash"
  let createdAt ← getText head "created_at"
  let sigHex ← getText head "signature"
  if treeSize < 0 ∨ rootHash.length ≠ 64 ∨ sigHex.length ≠ 128 ∨ createdAt = "" then
    raiseAudit "Malformed auditor checkpoint" "checkpoint_malformed"
  else
    match fromHex rootHash, fromHex sigHex, fromHex pkHex with
    | .ok _, .ok sig, .ok pk =>
        if P.ed25519Verify pk sig (checkpointMsg treeSize rootHash createdAt) then return ()
        else raiseAudit "Invalid auditor checkpoint signature" "checkpoint_signature_invalid"
    | _, _, _ => raiseAudit "Malformed auditor checkpoint" "checkpoint_malformed"

/-- One turn of the loop of `verify_inclusion`. -/
def inclusionStep (cur : String) (item : Json) : Except AuditExn String := do
  let sibling ← getText item "hash"
  if sibling.length ≠ 64 then raiseAudit "Malformed identity log proof" "proof_malformed"
  else
    let side ← pyRaises (item.getD "side" .null)
    if side.pyEq (.str "left") then pyRaises (nodeHash P sibling cur)
    else if side.pyEq (.str "right") then pyRaises (nodeHash P cur sibling)
    else raiseAudit "Malformed identity log proof side" "proof_side_malformed"

/-- `verify_inclusion`.  The code also halves the index along the way and does not use it. -/
def verifyInclusion (leafHash : String) (leafIndex : ℤ) (proof : List Json) (head : Json) :
    Except AuditExn Unit := do
  let treeSize ← pyRaises (← pyRaises (head.getD "tree_size" (.int (-1)))).toInt
  let rootHash ← getText head "root_hash"
  if treeSize = 0 then
    if rootHash ≠ emptyRoot P then
      raiseAudit "Invalid empty identity tree root" "empty_root_invalid"
    else return ()
  else if leafIndex < 0 ∨ treeSize ≤ leafIndex then
    raiseAudit "Identity log proof index is out of range" "proof_index_out_of_range"
  else
    let cur ← proof.foldlM (inclusionStep P) leafHash
    if cur ≠ rootHash then
      raiseAudit "Identity log inclusion proof does not match checkpoint" "proof_root_mismatch"
    else return ()

/-- `check_consistency`; nothing pinned is `None` or an empty dictionary. -/
def checkConsistency (pkHex : String) (net : AuditNet) (old new : Json) : Except AuditExn Unit := do
  verifyCheckpoint P pkHex new
  if old.truthy = false then return ()
  else
    let oldSize ← pyRaises ((← pyRaises (old.getD "tree_size" (.int 0))).orElse (.int 0)).toInt
    let newSize ← pyRaises ((← pyRaises (new.getD "tree_size" (.int 0))).orElse (.int 0)).toInt
    if newSize < oldSize then raiseAudit "Auditor checkpoint rolled back" "checkpoint_rollback"
    else
      let oldRoot ← getText old "root_hash"
      let newRoot ← getText new "root_hash"
      if oldSize = newSize then
        if oldRoot ≠ newRoot then
          raiseAudit "Auditor checkpoint changed at the same tree size" "checkpoint_split_view"
        else return ()
      else
        let proof ← fetchJson net (.consistency oldSize newSize)
        if (← pyRaises (← pyRaises (proof.getD "from_size" (.int (-1)))).toInt) ≠ oldSize then
          raiseAudit "Malformed consistency proof: from_size does not match previous checkpoint"
            "consistency_proof_malformed"
        else if (← pyRaises (← pyRaises (proof.getD "to_size" (.int (-1)))).toInt) ≠ newSize then
          raiseAudit "Malformed consistency proof: to_size does not match new checkpoint"
            "consistency_proof_malformed"
        else if (← getText proof "from_root") ≠ oldRoot then
          raiseAudit "Consistency proof does not match previous checkpoint"
            "consistency_previous_root_mismatch"
        else if (← getText proof "to_root") ≠ newRoot then
          raiseAudit "Consistency proof does not match new checkpoint"
            "consistency_new_root_mismatch"
        else return ()

/-- `list(x)`. -/
def pyList : Json → Except Exn (List Json)
  | .arr xs => .ok xs
  | .str s => .ok (s.toList.map fun c => .str (String.singleton c))
  | .obj kvs => .ok (kvs.map fun kv => .str kv.1)
  | _ => .error .typeError

/-- `default if x is None else int(x)`, with default `-1`. -/
def intOrMinusOne : Json → Except Exn ℤ
  | .null => .ok (-1)
  | value => value.toInt

/-- `verify_identity_from_auditor`. -/
def verifyIdentityFromAuditor (pkHex : String) (net : AuditNet) (userId identityVersion : ℤ)
    (identityPk : String) (previous : Json) : Except AuditExn Json := do
  let proof ← fetchJson net (.proof userId identityVersion)
  let leaf := (← pyRaises (proof.getD "leaf" .null)).orElse (.obj [])
  let head := (← pyRaises (proof.getD "checkpoint" .null)).orElse (.obj [])
  verifyCheckpoint P pkHex head
  let leafUserId ← pyRaises (← pyRaises (leaf.getD "user_id" (.int 0))).toInt
  if leafUserId ≠ userId then
    raiseAudit "Identity proof belongs to a different user" "identity_user_mismatch"
  else
    let leafVersion ← pyRaises (intOrMinusOne (← pyRaises (leaf.getD "identity_version" .null)))
    if leafVersion ≠ identityVersion then
      raiseAudit "Identity proof belongs to a different version" "identity_version_mismatch"
    else
      let leafPk ← getText leaf "identity_pk"
      if sameIdentityKey leafPk identityPk = false then
        raiseAudit "Identity proof key does not match the PQXDH bundle" "identity_key_mismatch"
      else
        let leafHash ← getText leaf "leaf_hash"
        let leafIndex ← pyRaises (intOrMinusOne (← pyRaises (proof.getD "leaf_index" .null)))
        let path := (← pyRaises (proof.getD "proof" .null)).orElse (.arr [])
        verifyInclusion P leafHash leafIndex (← pyRaises (pyList path)) head
        checkConsistency P pkHex net previous head
        return .obj [("status", .str "ok"), ("leaf", leaf), ("checkpoint", head), ("proof", path)]

/-! ### Honest checkpoints -/

variable {P}

@[simp] theorem pyRaises_ok {α : Type} (a : α) : pyRaises (.ok a) = .ok a := rfl

@[simp] theorem getText_cons (k : String) (v : Json) (kvs : List (String × Json)) (key : String) :
    getText (.obj ((k, v) :: kvs)) key =
      if key = k then .ok v.toStr else getText (.obj kvs) key := by
  unfold getText
  rw [Json.getD_cons]
  split <;> rfl

theorem truthy_obj (kvs : List (String × Json)) : (Json.obj kvs).truthy = !kvs.isEmpty := rfl

theorem truthy_arr (xs : List Json) : (Json.arr xs).truthy = !xs.isEmpty := rfl

/-- A signed checkpoint passes. -/
theorem verifyCheckpoint_signed (hP : P.Sized) (sk : Seed) (now : Timestamp) (size : ℕ) {d : Bytes}
    (hd : d.length = 32) :
    verifyCheckpoint P (hexOf (P.ed25519Public sk)) (signedCheckpoint P sk now size (hexOf d)) =
      .ok () := by
  have hsig := hP.sign_length sk.1 (checkpointMsg size (hexOf d) now)
  have hverify := hP.verify_sign sk (checkpointMsg size (hexOf d) now)
  simp [verifyCheckpoint, signedCheckpoint, hd, hsig, hverify, now.2]

/-- What the client reads in an answer. -/
theorem fetchJson_respond {net : AuditNet} {request : AuditRequest} {obj : Json} (hplain : obj.Plain)
    (h : net request = some (respond 200 obj)) : fetchJson net request = .ok obj := by
  simp [fetchJson, h, respond, loads_dumps hplain]

/-- The honest answer to a consistency request within the log. -/
theorem doGet_consistency (sk : Seed) (now : Timestamp) (rows : List LogRow) {m n : ℕ} (hmn : m ≤ n)
    (hn : n ≤ rows.length) :
    doGet P sk now rows (.consistency m n) =
      respond 200 (.obj [("from_size", .int m), ("to_size", .int n),
        ("from_root", .str (hexOf (merkleRoot P ((digests rows).take m)))),
        ("to_root", .str (hexOf (merkleRoot P ((digests rows).take n)))), ("proof", .arr []),
        ("status", .str "consistent")]) := by
  have hrange : ¬ ((m : ℤ) < 0 ∨ (n : ℤ) < m ∨ ((leafHashes rows).length : ℤ) < n) := by
    simp only [leafHashes, digests, List.length_map]
    omega
  have htake : ∀ k, root P ((leafHashes rows).take k) =
      .ok (hexOf (merkleRoot P ((digests rows).take k))) := by
    intro k
    rw [leafHashes, ← List.map_take, root_hexOf]
  simp only [doGet, answer, checkpoint_leafHashes, ok_bind, if_neg hrange, Int.toNat_natCast, htake]
  rfl

/-- **What `check_consistency` does against an honest auditor.** -/
theorem checkConsistency_honest (hP : P.Sized) (sk : Seed) (t₀ t₁ t₂ : Timestamp)
    (old new appended : List LogRow) :
    checkConsistency P (hexOf (P.ed25519Public sk)) (fun r => some (doGet P sk t₂ (new ++ appended) r))
        (signedCheckpoint P sk t₀ old.length (hexOf (merkleRoot P (digests old))))
        (signedCheckpoint P sk t₁ new.length (hexOf (merkleRoot P (digests new)))) =
      if new.length < old.length then
        raiseAudit "Auditor checkpoint rolled back" "checkpoint_rollback"
      else if merkleRoot P ((digests new).take old.length) = merkleRoot P (digests old) then .ok ()
      else if old.length = new.length then
        raiseAudit "Auditor checkpoint changed at the same tree size" "checkpoint_split_view"
      else raiseAudit "Consistency proof does not match previous checkpoint"
        "consistency_previous_root_mismatch" := by
  have hroot : (merkleRoot P (digests new)).length = 32 := length_merkleRoot hP length_of_mem_digests
  have hhead := verifyCheckpoint_signed hP sk t₁ new.length hroot
  have hlen : (digests new).length = new.length := List.length_map ..
  unfold checkConsistency
  rw [hhead]
  simp only [signedCheckpoint, ok_bind, pyRaises_ok, Json.getD_cons, if_true,
    Json.toInt_orElse_int, truthy_obj, List.isEmpty_cons, Bool.not_false, Bool.true_eq_false,
    if_false, Nat.cast_lt, Nat.cast_inj]
  rcases lt_trichotomy new.length old.length with hlt | heq | hgt
  · simp [hlt]
  · have htake : (digests new).take old.length = digests new := by
      rw [← heq, ← hlen, List.take_length]
    simp [heq, htake, hexOf_injective.eq_iff, eq_comm]
  · -- the log has only grown since the checkpoint was made
    have htake : ∀ k ≤ new.length, (digests (new ++ appended)).take k = (digests new).take k := by
      intro k hk
      rw [digests, List.map_append, List.take_append_of_le_length (by simpa using hk)]
      rfl
    have hget := doGet_consistency (P := P) sk t₂ (new ++ appended) hgt.le (by simp)
    rw [htake _ hgt.le, htake _ le_rfl, ← hlen, List.take_length, hlen] at hget
    rw [fetchJson_respond (by simp [Json.Plain, Json.PlainItems]) (congrArg some hget)]
    simp [hgt.not_gt, hgt.ne, hexOf_injective.eq_iff]

/-- **The consistency check is exact.**  The pinned checkpoint is of the log `old`, the new one of the
log `new`, and the auditor answers the second request from `new` and what was appended since.  Unless
SHA-256 collides in the two trees, the check passes if the leaves of `old` are a prefix of those of
`new`, and raises an `AuditError` if they are not. -/
theorem consistency_exact (hP : P.Sized) (sk : Seed) (t₀ t₁ t₂ : Timestamp)
    (old new appended : List LogRow) {oldHead newHead : Json}
    (hold : checkpoint P sk t₀ (leafHashes old) = .ok oldHead)
    (hnew : checkpoint P sk t₁ (leafHashes new) = .ok newHead)
    (hfree : CollisionFree P ((digests new).take old.length) (digests old)) :
    let check := checkConsistency P (hexOf (P.ed25519Public sk))
      (fun request => some (doGet P sk t₂ (new ++ appended) request)) oldHead newHead
    (leafHashes old <+: leafHashes new → check = .ok ()) ∧
      (¬ leafHashes old <+: leafHashes new →
        ∃ message code, check = .error (.auditError message code)) := by
  intro check
  obtain rfl := Except.ok.inj ((checkpoint_leafHashes sk t₀ old).symm.trans hold)
  obtain rfl := Except.ok.inj ((checkpoint_leafHashes sk t₁ new).symm.trans hnew)
  have hcheck : check = _ := checkConsistency_honest hP sk t₀ t₁ t₂ old new appended
  have hlenOld : (digests old).length = old.length := List.length_map ..
  have hlenNew : (digests new).length = new.length := List.length_map ..
  have hinit : leafHashes old <+: leafHashes new ↔ digests old <+: digests new :=
    List.prefix_map_iff_of_injective hexOf_injective
  rw [hinit]
  constructor
  · intro hpre
    have hle := hpre.length_le
    have htake : (digests new).take old.length = digests old := by
      rw [← hlenOld]
      exact (List.prefix_iff_eq_take.mp hpre).symm
    rw [hcheck, if_neg (by omega), if_pos (congrArg _ htake)]
  · intro hpre
    by_cases hlt : new.length < old.length
    · exact ⟨_, _, hcheck.trans (if_pos hlt)⟩
    · -- equal roots would make the two beginnings equal
      have hne : merkleRoot P ((digests new).take old.length) ≠ merkleRoot P (digests old) := by
        intro heq
        have hsame : (digests new).take old.length = digests old := by
          refine merkleRoot_injOn hP (fun d hd => ?_) length_of_mem_digests ?_ hfree heq
          · exact length_of_mem_digests d (List.mem_of_mem_take hd)
          · rw [List.length_take]
            omega
        exact hpre (hsame ▸ List.take_prefix _ _)
      rw [if_neg hlt, if_neg hne] at hcheck
      by_cases heq : old.length = new.length
      · exact ⟨_, _, hcheck.trans (if_pos heq)⟩
      · exact ⟨_, _, hcheck.trans (if_neg heq)⟩

theorem length_filled (b : UInt8) : (List.replicate 32 b).length = 32 := List.length_replicate ..

/-- A row with a given leaf. -/
def leafRow (b : UInt8) : LogRow :=
  ⟨b.toNat, 1, 0, "key", "", "primary device", "identity", "now", List.replicate 32 b,
    length_filled b⟩

/-- The auditor's key and a time, for concrete runs. -/
def auditorSeed : Seed := ⟨List.replicate 32 7, by simp⟩

def someTime : Timestamp := ⟨"2024-01-01T00:00:00Z", by simp⟩

/-- The head of a log. -/
def headOf (rows : List LogRow) : Json :=
  signedCheckpoint digestPrims auditorSeed someTime rows.length
    (hexOf (merkleRoot digestPrims (digests rows)))

/-- A log that extends the pinned one, and one that changed a leaf. -/
theorem consistency_exact_of_rows :
    let check := fun old new appended : List LogRow =>
      checkConsistency digestPrims (hexOf (digestPrims.ed25519Public auditorSeed))
        (fun request => some (doGet digestPrims auditorSeed someTime (new ++ appended) request))
        (headOf old) (headOf new)
    check [leafRow 1, leafRow 2] [leafRow 1, leafRow 2, leafRow 3] [leafRow 4] = .ok () ∧
      ∃ message code, check [leafRow 1, leafRow 2] [leafRow 1, leafRow 5, leafRow 3] [leafRow 4] =
        .error (.auditError message code) := by
  constructor
  · refine (consistency_exact digestPrims_sized auditorSeed someTime someTime someTime _ _ _
      (checkpoint_leafHashes ..) (checkpoint_leafHashes ..) ?_).1 ⟨leafHashes [leafRow 3], rfl⟩
    unfold CollisionFree
    decide +kernel
  · refine (consistency_exact digestPrims_sized auditorSeed someTime someTime someTime _ _ _
      (checkpoint_leafHashes ..) (checkpoint_leafHashes ..) ?_).2 (by decide +kernel)
    unfold CollisionFree
    decide +kernel

/-! ### What acceptance says about the log -/

/-- The log has a row for this version of this user's key. -/
def InLog (rows : List LogRow) (userId identityVersion : ℤ) (identityPk : String) : Prop :=
  ∃ row ∈ rows, row.userId = userId ∧ row.identityVersion = identityVersion ∧
    sameIdentityKey row.identityPk identityPk = true

/-- The answers are made around a given checkpoint: whatever proof comes back, it is the one inside. -/
def Around (head : Json) (net : AuditNet) : Prop :=
  ∀ userId identityVersion proof, fetchJson net (.proof userId identityVersion) = .ok proof →
    proof.getD "checkpoint" .null = .ok head

/-- Acceptance means membership: whoever answers around the checkpoint, an accepted key is in the
log. -/
def AcceptanceSound (P : Prims) (pkHex : String) (head : Json) (rows : List LogRow)
    (userId identityVersion : ℤ) (identityPk : String) (previous : Json) : Prop :=
  ∀ net, Around head net →
    (∃ result, verifyIdentityFromAuditor P pkHex net userId identityVersion identityPk previous =
      .ok result) →
    InLog rows userId identityVersion identityPk

/-- A proof for any key: the root itself is passed off as the hash of the leaf, and the path is
empty. -/
def forgedProof (head : Json) (rootHash : String) (userId identityVersion : ℤ) (identityPk : String) :
    Json :=
  .obj [("leaf", .obj [("user_id", .int userId), ("identity_version", .int identityVersion),
      ("identity_pk", .str identityPk), ("leaf_hash", .str rootHash)]),
    ("leaf_index", .int 0), ("proof", .arr []), ("checkpoint", head)]

/-- An attacker who answers with that proof, and otherwise as the auditor would. -/
def forger (P : Prims) (sk : Seed) (now : Timestamp) (rows : List LogRow) (head : Json)
    (identityPk : String) : AuditNet
  | .proof userId identityVersion =>
      some (respond 200 (forgedProof head (hexOf (merkleRoot P (digests rows))) userId
        identityVersion identityPk))
  | request => some (doGet P sk now rows request)

theorem signedCheckpoint_plain (sk : Seed) (now : Timestamp) (size : ℕ) (rootHash : String) :
    (signedCheckpoint P sk now size rootHash).Plain := by
  simp [signedCheckpoint]

theorem fetchJson_forger (sk : Seed) (now : Timestamp) (rows : List LogRow) {head : Json}
    (hplain : head.Plain) (identityPk : String) (userId identityVersion : ℤ) :
    fetchJson (forger P sk now rows head identityPk) (.proof userId identityVersion) =
      .ok (forgedProof head (hexOf (merkleRoot P (digests rows))) userId identityVersion
        identityPk) := by
  refine fetchJson_respond ?_ rfl
  simp [forgedProof, hplain, Json.Plain, Json.PlainItems]

/-- The root over the empty path is the root, and over the empty log nothing is compared. -/
theorem verifyInclusion_root (sk : Seed) (now : Timestamp) (rows : List LogRow) :
    verifyInclusion P (hexOf (merkleRoot P (digests rows))) 0 []
      (signedCheckpoint P sk now rows.length (hexOf (merkleRoot P (digests rows)))) = .ok () := by
  cases rows with
  | nil => simp [verifyInclusion, signedCheckpoint, emptyRoot, merkleRoot, digests]
  | cons row rows =>
    have hsize : ¬ ((rows.length : ℤ) + 1 = 0) := by omega
    have hindex : ¬ ((rows.length : ℤ) + 1 ≤ 0) := by omega
    simp [verifyInclusion, signedCheckpoint, hsize, hindex]

/-- What the client may have pinned before: nothing, or the head of the log when it was shorter. -/
def Pinned (P : Prims) (sk : Seed) (rows : List LogRow) (previous : Json) : Prop :=
  previous = .null ∨ ∃ t old, old <+: rows ∧ checkpoint P sk t (leafHashes old) = .ok previous

/-- `check_consistency` only asks for consistency. -/
theorem checkConsistency_congr {pkHex : String} {net : AuditNet} {old new : Json} (net' : AuditNet)
    (h : ∀ m n, net (.consistency m n) = net' (.consistency m n)) :
    checkConsistency P pkHex net old new = checkConsistency P pkHex net' old new := by
  have hfetch : ∀ m n, fetchJson net (.consistency m n) = fetchJson net' (.consistency m n) :=
    fun m n => by unfold fetchJson; rw [h]
  unfold checkConsistency
  simp only [hfetch]

/-- The forger passes the comparison with the pinned checkpoint. -/
theorem checkConsistency_forger (hP : P.Sized) (sk : Seed) (now : Timestamp) (rows : List LogRow)
    (head : Json) (identityPk : String) {previous : Json} (hprev : Pinned P sk rows previous) :
    checkConsistency P (hexOf (P.ed25519Public sk)) (forger P sk now rows head identityPk) previous
      (signedCheckpoint P sk now rows.length (hexOf (merkleRoot P (digests rows)))) = .ok () := by
  rcases hprev with rfl | ⟨t, old, hinit, hold⟩
  · have hroot : (merkleRoot P (digests rows)).length = 32 :=
      length_merkleRoot hP length_of_mem_digests
    unfold checkConsistency
    rw [verifyCheckpoint_signed hP sk now rows.length hroot]
    rfl
  · obtain rfl := Except.ok.inj ((checkpoint_leafHashes sk t old).symm.trans hold)
    have hnet : ∀ m n, forger P sk now rows head identityPk (.consistency m n) =
        some (doGet P sk now (rows ++ []) (.consistency m n)) := by
      intro m n
      rw [List.append_nil]
      rfl
    have hlen : (digests old).length = old.length := List.length_map ..
    have htake : (digests rows).take old.length = digests old := by
      rw [← hlen]
      exact (List.prefix_iff_eq_take.mp (hinit.map _)).symm
    rw [checkConsistency_congr (fun request => some (doGet P sk now (rows ++ []) request)) hnet,
      checkConsistency_honest hP, if_neg hinit.length_le.not_gt, if_pos (congrArg _ htake)]

theorem sameIdentityKey_self (pk : String) : sameIdentityKey pk pk = true := by
  unfold sameIdentityKey
  split <;> simp_all

/-- The forged proof is accepted for every user, version and key. -/
theorem forger_accepted (hP : P.Sized) (sk : Seed) (now : Timestamp) (rows : List LogRow)
    (userId identityVersion : ℤ) (identityPk : String) {previous : Json}
    (hprev : Pinned P sk rows previous) :
    let head := signedCheckpoint P sk now rows.length (hexOf (merkleRoot P (digests rows)))
    ∃ result, verifyIdentityFromAuditor P (hexOf (P.ed25519Public sk))
      (forger P sk now rows head identityPk) userId identityVersion identityPk previous =
        .ok result := by
  intro head
  have hroot : (merkleRoot P (digests rows)).length = 32 := length_merkleRoot hP length_of_mem_digests
  have hhead : verifyCheckpoint P (hexOf (P.ed25519Public sk)) head = .ok () :=
    verifyCheckpoint_signed hP sk now rows.length hroot
  have hinclusion : verifyInclusion P (hexOf (merkleRoot P (digests rows))) 0 [] head = .ok () :=
    verifyInclusion_root sk now rows
  have hconsistent : checkConsistency P (hexOf (P.ed25519Public sk))
      (forger P sk now rows head identityPk) previous head = .ok () :=
    checkConsistency_forger hP sk now rows head identityPk hprev
  have hplain : head.Plain := signedCheckpoint_plain sk now _ _
  have htruthy : head.truthy = true := rfl
  clear_value head
  unfold verifyIdentityFromAuditor
  rw [fetchJson_forger sk now rows hplain]
  simp [forgedProof, Json.orElse, truthy_obj, truthy_arr, htruthy, hhead, intOrMinusOne,
    sameIdentityKey_self, pyList, hinclusion, hconsistent]

/-- **Acceptance says nothing about the log.**  For every log, user, version and key, acceptance means
membership only when the log has that row anyway: a key that is not in the log is accepted too. -/
theorem acceptance_sound_iff (hP : P.Sized) (sk : Seed) (now : Timestamp) (rows : List LogRow)
    (userId identityVersion : ℤ) (identityPk : String) {head previous : Json}
    (hhead : checkpoint P sk now (leafHashes rows) = .ok head) (hprev : Pinned P sk rows previous) :
    AcceptanceSound P (hexOf (P.ed25519Public sk)) head rows userId identityVersion identityPk
      previous ↔ InLog rows userId identityVersion identityPk := by
  constructor
  · intro hsound
    obtain rfl := Except.ok.inj ((checkpoint_leafHashes sk now rows).symm.trans hhead)
    refine hsound (forger P sk now rows _ identityPk) ?_
      (forger_accepted hP sk now rows userId identityVersion identityPk hprev)
    intro u v proof hproof
    rw [fetchJson_forger sk now rows (signedCheckpoint_plain sk now _ _)] at hproof
    obtain rfl := Except.ok.inj hproof
    simp [forgedProof]
  · intro hlog net _ _
    exact hlog

/-- A log with one row, whose leaf is the hash of its text. -/
def honestRow : LogRow :=
  let row := leafRow 0
  { row with leafHash := ⟨digestPrims.sha256 (bytesOf row.leafText), digestPrims_sized.1 _⟩ }

theorem inLog_honestRow (u v : ℤ) (pk : String) :
    InLog [honestRow] u v pk ↔ u = 1 ∧ v = 0 ∧ sameIdentityKey "key" pk = true := by
  simp only [InLog, List.mem_singleton, exists_eq_left]
  exact and_congr eq_comm (and_congr eq_comm Iff.rfl)

/-- **A key that is not in the log is accepted.**  The log has a key of user 1 only, and the client
accepts one for user 2. -/
theorem unlogged_key_accepted :
    honestRow.leafHash.1 = digestPrims.sha256 (bytesOf honestRow.leafText) ∧
    ¬ AcceptanceSound digestPrims (hexOf (digestPrims.ed25519Public auditorSeed)) (headOf [honestRow])
      [honestRow] 2 0 "evil" .null := by
  refine ⟨rfl, fun hsound => ?_⟩
  have hacc := forger_accepted digestPrims_sized auditorSeed someTime [honestRow] 2 0 "evil"
    (.inl rfl)
  have hin := hsound _ (fun u v proof hproof => ?_) hacc
  · rw [inLog_honestRow] at hin
    exact absurd hin.1 (by decide)
  · rw [fetchJson_forger _ _ _ (signedCheckpoint_plain ..)] at hproof
    obtain rfl := Except.ok.inj hproof
    simp [forgedProof, headOf]

theorem acceptance_sound_iff_honestRow :
    AcceptanceSound digestPrims (hexOf (digestPrims.ed25519Public auditorSeed)) (headOf [honestRow])
      [honestRow] 1 0 "key" .null :=
  (acceptance_sound_iff digestPrims_sized auditorSeed someTime [honestRow] 1 0 "key"
    (checkpoint_leafHashes ..) (.inl rfl)).mpr
      ((inLog_honestRow 1 0 "key").mpr ⟨rfl, rfl, sameIdentityKey_self _⟩)

end SecChat
