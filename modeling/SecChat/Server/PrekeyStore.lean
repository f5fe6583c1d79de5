import SecChat.Protocol.Prekeys

/-!
# The prekey tables of the server

`key_repo.c` keeps the signed prekeys of a user in `pqxdh_bundles` and the one-time keys in two more
tables.  The handlers of `upload_pqxdh_bundle` and `get_pqxdh_bundle` run on one thread per client and
issue single SQL statements on pooled connections, without a transaction: a statement is atomic, and
the statements of different requests interleave.

* `Table`, `Db`, `Stmt`: the tables and the statements that change them;
* `Upload.statements`: what `handle_upload_pqxdh_bundle` issues;
* `Proc`: a request under way, with its local variables;
* `step`, `run`: requests begin with their first statement, and then issue one statement after another.

Statements do not fail here.  Text columns and buffers are C strings.  Nothing reads `origin`, the
number of the upload that wrote a row.
-/

namespace SecChat.PrekeyStore

open Py

/-- `strncpy` into a cleared buffer of the given size. -/
def strncpy (size : ℕ) (s : Bytes) : Bytes := s.take (size - 1)

/-- `json_int`: `cJSON` clamps a number to the range of `int`. -/
def jsonInt (n : ℤ) : ℤ := max (-2 ^ 31) (min (2 ^ 31 - 1) n)

/-- Addition of `int`. -/
def addInt (a b : ℤ) : ℤ := Int.bmod (a + b) (2 ^ 32)

/-- `key_id > spk_id AND key_id <= spk_id + 1024`. -/
def InWindow (spkId keyId : ℤ) : Prop := spkId < keyId ∧ keyId ≤ addInt spkId 1024

instance (spkId keyId : ℤ) : Decidable (InWindow spkId keyId) :=
  inferInstanceAs (Decidable (_ ∧ _))

/-! ### Tables -/

/-- A row of a table of one-time keys. -/
structure Row (κ : Type) where
  id : ℕ
  userId : ℤ
  keyId : ℤ
  key : κ
  origin : ℕ

/-- The text columns of `pqxdh_curve_one_time_prekeys`. -/
structure CurveKey where
  publicKey : Bytes
  signature : Bytes
  deriving DecidableEq

/-- The text columns of `pqxdh_pq_one_time_prekeys`. -/
structure PqKey where
  kemAlg : Bytes
  publicKey : Bytes
  signature : Bytes
  deriving DecidableEq

/-- A table of one-time keys, in the order of `id`, with its `AUTO_INCREMENT` counter. -/
structure Table (κ : Type) where
  rows : List (Row κ)
  next : ℕ

namespace Table

variable {κ : Type}

/-- `INSERT IGNORE`; `(user_id, key_id)` is unique. -/
def insertIgnore (t : Table κ) (userId keyId : ℤ) (key : κ) (origin : ℕ) : Table κ where
  rows :=
    if ∃ r ∈ t.rows, r.userId = userId ∧ r.keyId = keyId then t.rows
    else t.rows ++ [⟨t.next, userId, keyId, key, origin⟩]
  next := t.next + 1

/-- `DELETE ... WHERE user_id=...`. -/
def deleteUser (t : Table κ) (userId : ℤ) : Table κ :=
  { t with rows := t.rows.filter fun r => r.userId ≠ userId }

/-- `DELETE ... WHERE id=...`. -/
def deleteId (t : Table κ) (id : ℕ) : Table κ :=
  { t with rows := t.rows.filter fun r => r.id ≠ id }

/-- The rows of a user in the window of a signed prekey. -/
def window (t : Table κ) (userId spkId : ℤ) : List (Row κ) :=
  t.rows.filter fun r => r.userId = userId ∧ InWindow spkId r.keyId

/-- `SELECT ... ORDER BY id ASC LIMIT 1`. -/
def selectFirst (t : Table κ) (userId spkId : ℤ) : Option (Row κ) := (t.window userId spkId).head?

/-- `count_current_pqxdh_otks`. -/
def countCurrent (t : Table κ) (userId spkId : ℤ) : ℕ :=
  if spkId ≤ 0 then 0 else (t.window userId spkId).length

end Table

section Tables

variable {κ : Type}

theorem mem_rows_insertIgnore {t : Table κ} {userId keyId : ℤ} {key : κ} {origin : ℕ}
    {r : Row κ} (h : r ∈ (t.insertIgnore userId keyId key origin).rows) :
    r ∈ t.rows ∨ r = ⟨t.next, userId, keyId, key, origin⟩ := by
  unfold Table.insertIgnore at h
  dsimp only at h
  split at h
  · exact .inl h
  · rcases List.mem_append.mp h with h | h
    · exact .inl h
    · exact .inr (List.mem_singleton.mp h)

theorem mem_rows_deleteUser {t : Table κ} {userId : ℤ} {r : Row κ} :
    r ∈ (t.deleteUser userId).rows ↔ r ∈ t.rows ∧ r.userId ≠ userId := by
  simp [Table.deleteUser, List.mem_filter]

theorem mem_rows_deleteId {t : Table κ} {id : ℕ} {r : Row κ}
    (h : r ∈ (t.deleteId id).rows) : r ∈ t.rows :=
  (List.mem_filter.mp h).1

theorem mem_of_selectFirst {t : Table κ} {userId spkId : ℤ} {r : Row κ}
    (h : t.selectFirst userId spkId = some r) :
    r ∈ t.rows ∧ r.userId = userId ∧ InWindow spkId r.keyId := by
  have hmem : r ∈ t.window userId spkId := List.mem_of_mem_head? h
  simpa [Table.window, List.mem_filter] using hmem

end Tables

/-- A row of `pqxdh_bundles`. -/
structure BundleRow where
  identityPk : Bytes
  curveSpkId : ℤ
  curveSpk : Bytes
  curveSpkSig : Bytes
  pqSpkId : ℤ
  pqKemAlg : Bytes
  pqSpk : Bytes
  pqSpkSig : Bytes
  origin : ℕ

/-- The three tables; `user_id` is the primary key of `pqxdh_bundles`. -/
structure Db where
  bundles : ℤ → Option BundleRow
  curve : Table CurveKey
  pq : Table PqKey

/-- The statements of an upload. -/
inductive Stmt
  | upsertBundle (userId : ℤ) (row : BundleRow)
  | deleteCurve (userId : ℤ)
  | deletePq (userId : ℤ)
  | insertCurve (userId keyId : ℤ) (key : CurveKey) (origin : ℕ)
  | insertPq (userId keyId : ℤ) (key : PqKey) (origin : ℕ)

/-- One statement. -/
def Stmt.exec (db : Db) : Stmt → Db
  | upsertBundle userId row => { db with bundles := Function.update db.bundles userId (some row) }
  | deleteCurve userId => { db with curve := db.curve.deleteUser userId }
  | deletePq userId => { db with pq := db.pq.deleteUser userId }
  | insertCurve userId keyId key origin =>
    { db with curve := db.curve.insertIgnore userId keyId key origin }
  | insertPq userId keyId key origin => { db with pq := db.pq.insertIgnore userId keyId key origin }

/-! ### Requests -/

/-- The fields of an `upload_pqxdh_bundle` request. -/
structure Upload where
  identityPk : Bytes
  curveSpkId : ℤ
  curveSpk : Bytes
  curveSpkSig : Bytes
  pqSpkId : ℤ
  pqKemAlg : Bytes
  pqSpk : Bytes
  pqSpkSig : Bytes
  curveOtks : List (ℤ × CurveKey)
  pqOtks : List (ℤ × PqKey)

/-- `pqxdh_kem_allowed`. -/
def kemAllowed (alg : Bytes) : Bool := (allowedKems.map encodeUtf8).contains alg

namespace Upload

/-- The check of `handle_upload_pqxdh_bundle`; a request that fails it is answered with an error. -/
def valid (u : Upload) : Bool :=
  u.identityPk ≠ [] ∧ 0 < jsonInt u.curveSpkId ∧ u.curveSpk ≠ [] ∧ u.curveSpkSig ≠ [] ∧
    0 < jsonInt u.pqSpkId ∧ kemAllowed u.pqKemAlg ∧ u.pqSpk ≠ [] ∧ u.pqSpkSig ≠ []

/-- The curve one-time keys that are inserted. -/
def curveItems (u : Upload) : List (ℤ × CurveKey) :=
  (u.curveOtks.map fun k => (jsonInt k.1, k.2)).filter fun k =>
    0 < k.1 ∧ k.2.publicKey ≠ [] ∧ k.2.signature ≠ []

/-- The PQ one-time keys that are inserted. -/
def pqItems (u : Upload) : List (ℤ × PqKey) :=
  (u.pqOtks.map fun k => (jsonInt k.1, k.2)).filter fun k =>
    0 < k.1 ∧ kemAllowed k.2.kemAlg ∧ k.2.publicKey ≠ [] ∧ k.2.signature ≠ []

/-- The row of the signed prekeys. -/
def bundleRow (u : Upload) (origin : ℕ) : BundleRow where
  identityPk := u.identityPk
  curveSpkId := jsonInt u.curveSpkId
  curveSpk := u.curveSpk
  curveSpkSig := u.curveSpkSig
  pqSpkId := jsonInt u.pqSpkId
  pqKemAlg := u.pqKemAlg
  pqSpk := u.pqSpk
  pqSpkSig := u.pqSpkSig
  origin := origin

/-- The statements after the first one: `key_pqxdh_upload_bundle` drops the older one-time keys, and
the handler inserts the new ones. -/
def statements (u : Upload) (userId : ℤ) (origin : ℕ) : List Stmt :=
  .deleteCurve userId :: .deletePq userId ::
    (u.curveItems.map (fun k => .insertCurve userId k.1 k.2 origin) ++
      u.pqItems.map fun k => .insertPq userId k.1 k.2 origin)

end Upload

/-- `PqxdhBundleRecord`, with the rows that the two `SELECT`s on one-time keys returned. -/
structure PqxdhBundleRecord where
  identityPk : Bytes
  curveSpkId : ℤ
  curveSpk : Bytes
  curveSpkSig : Bytes
  pqSpkId : ℤ
  pqKemAlg : Bytes
  pqSpk : Bytes
  pqSpkSig : Bytes
  curveOtkId : ℤ
  curveOtk : Bytes
  curveOtkSig : Bytes
  pqOtkId : ℤ
  pqOtkAlg : Bytes
  pqOtk : Bytes
  pqOtkSig : Bytes
  curvePool : ℕ
  pqPool : ℕ
  curveRow : Option (Row CurveKey)
  pqRow : Option (Row PqKey)
  origin : ℕ

namespace PqxdhBundleRecord

/-- The record after the `SELECT` on `pqxdh_bundles`. -/
def ofBundle (b : BundleRow) : PqxdhBundleRecord where
  identityPk := strncpy 256 b.identityPk
  curveSpkId := b.curveSpkId
  curveSpk := strncpy 256 b.curveSpk
  curveSpkSig := strncpy 256 b.curveSpkSig
  pqSpkId := b.pqSpkId
  pqKemAlg := strncpy 32 b.pqKemAlg
  pqSpk := strncpy 4096 b.pqSpk
  pqSpkSig := strncpy 256 b.pqSpkSig
  curveOtkId := -1
  curveOtk := []
  curveOtkSig := []
  pqOtkId := -1
  pqOtkAlg := []
  pqOtk := []
  pqOtkSig := []
  curvePool := 0
  pqPool := 0
  curveRow := none
  pqRow := none
  origin := b.origin

/-- The record after a row of the curve table was fetched. -/
def withCurve (out : PqxdhBundleRecord) (r : Row CurveKey) : PqxdhBundleRecord :=
  { out with
    curveOtkId := r.keyId
    curveOtk := strncpy 256 r.key.publicKey
    curveOtkSig := strncpy 256 r.key.signature
    curveRow := some r }

/-- The record after a row of the PQ table was fetched. -/
def withPq (out : PqxdhBundleRecord) (r : Row PqKey) : PqxdhBundleRecord :=
  { out with
    pqOtkId := r.keyId
    pqOtkAlg := strncpy 32 r.key.kemAlg
    pqOtk := strncpy 4096 r.key.publicKey
    pqOtkSig := strncpy 256 r.key.signature
    pqRow := some r }

/-- The value that `key_pqxdh_get_bundle_consuming` returns; on `0` the handler answers with an
error. -/
def complete (out : PqxdhBundleRecord) : Bool :=
  out.identityPk ≠ [] ∧ out.curveSpk ≠ [] ∧ out.pqSpk ≠ []

end PqxdhBundleRecord

/-- Where `key_pqxdh_get_bundle_consuming` stands: the statement it issues next. -/
inductive GetStage
  | selectCurve
  | deleteCurve (rowId : ℕ)
  | selectPq
  | deletePq (rowId : ℕ)
  | countCurve
  | countPq

/-- A request: an upload with the statements that are left, a `get_pqxdh_bundle` under way, or one
that was answered. -/
inductive Proc
  | upload (userId : ℤ) (u : Upload) (todo : List Stmt)
  | get (userId : ℤ) (stage : GetStage) (out : PqxdhBundleRecord)
  | got (userId : ℤ) (answer : Option PqxdhBundleRecord)

inductive Request
  | upload (userId : ℤ) (u : Upload)
  | get (userId : ℤ)

/-- The database and all requests so far, by number. -/
structure Server where
  db : Db
  procs : ℕ → Option Proc

/-- A server without prekeys. -/
def init : Server where
  db := ⟨fun _ => none, ⟨[], 1⟩, ⟨[], 1⟩⟩
  procs _ := none

inductive Event
  /-- Request number `n` begins, with its first statement. -/
  | start (n : ℕ) (r : Request)
  /-- Request number `n` issues its next statement. -/
  | exec (n : ℕ)

/-- The next statement of a `get_pqxdh_bundle` request. -/
def getStep (db : Db) (userId : ℤ) (out : PqxdhBundleRecord) : GetStage → Db × Proc
  | .selectCurve =>
    match db.curve.selectFirst userId out.curveSpkId with
    | some r =>
      (db, .get userId (if 0 < r.id then .deleteCurve r.id else .selectPq) (out.withCurve r))
    | none => (db, .get userId .selectPq out)
  | .deleteCurve rowId => ({ db with curve := db.curve.deleteId rowId }, .get userId .selectPq out)
  | .selectPq =>
    match db.pq.selectFirst userId out.pqSpkId with
    | some r => (db, .get userId (if 0 < r.id then .deletePq r.id else .countCurve) (out.withPq r))
    | none => (db, .get userId .countCurve out)
  | .deletePq rowId => ({ db with pq := db.pq.deleteId rowId }, .get userId .countCurve out)
  | .countCurve =>
    (db, .get userId .countPq { out with curvePool := db.curve.countCurrent userId out.curveSpkId })
  | .countPq =>
    let out := { out with pqPool := db.pq.countCurrent userId out.pqSpkId }
    (db, .got userId (if out.complete then some out else none))

/-- A request that was not there before. -/
def startStep (db : Db) (n : ℕ) : Request → Db × Option Proc
  | .upload userId u =>
    if u.valid then
      ((Stmt.upsertBundle userId (u.bundleRow n)).exec db,
        some (.upload userId u (u.statements userId n)))
    else (db, none)
  | .get userId =>
    if userId ≤ 0 then (db, none)
    else match db.bundles userId with
      | none => (db, some (.got userId none))
      | some b => (db, some (.get userId .selectCurve (.ofBundle b)))

/-- One statement; `none` where the event cannot happen. -/
def step (σ : Server) : Event → Option Server
  | .start n r =>
    match σ.procs n with
    | some _ => none
    | none =>
      let x := startStep σ.db n r
      some ⟨x.1, Function.update σ.procs n x.2⟩
  | .exec n =>
    match σ.procs n with
    | some (.upload userId u (s :: todo)) =>
      some ⟨s.exec σ.db, Function.update σ.procs n (some (.upload userId u todo))⟩
    | some (.get userId stage out) =>
      let x := getStep σ.db userId out stage
      some ⟨x.1, Function.update σ.procs n (some x.2)⟩
    | _ => none

/-- What a step can do. -/
theorem step_eq_some {σ σ' : Server} {e : Event} (h : step σ e = some σ') :
    (∃ n r, e = .start n r ∧ σ.procs n = none ∧
      σ' = ⟨(startStep σ.db n r).1, Function.update σ.procs n (startStep σ.db n r).2⟩) ∨
    (∃ n userId u s todo, e = .exec n ∧ σ.procs n = some (.upload userId u (s :: todo)) ∧
      σ' = ⟨s.exec σ.db, Function.update σ.procs n (some (.upload userId u todo))⟩) ∨
    (∃ n userId stage out, e = .exec n ∧ σ.procs n = some (.get userId stage out) ∧
      σ' = ⟨(getStep σ.db userId out stage).1,
        Function.update σ.procs n (some (getStep σ.db userId out stage).2)⟩) := by
  cases e with
  | start n r =>
    simp only [step] at h
    split at h
    · cases h
    · next hn => exact .inl ⟨n, r, rfl, hn, (Option.some.inj h).symm⟩
  | exec n =>
    simp only [step] at h
    split at h
    · next userId u s todo hn => exact .inr (.inl ⟨n, userId, u, s, todo, rfl, hn,
        (Option.some.inj h).symm⟩)
    · next userId stage out hn => exact .inr (.inr ⟨n, userId, stage, out, rfl, hn,
        (Option.some.inj h).symm⟩)
    · cases h

/-- The server after a list of events, if they can happen in this order. -/
def run (σ : Server) : List Event → Option Server
  | [] => some σ
  | e :: es => (step σ e).bind fun σ' => run σ' es

/-- Every event of a run meets a condition on the state before it. -/
def Throughout (C : Server → Event → Prop) : Server → List Event → Prop
  | _, [] => True
  | σ, e :: es => C σ e ∧ ∀ σ', step σ e = some σ' → Throughout C σ' es

/-- **The rule of runs.**  What every event keeps under its condition holds at the end. -/
theorem run_induction {C : Server → Event → Prop} {I : Server → Prop}
    (hstep : ∀ σ e σ', I σ → C σ e → step σ e = some σ' → I σ') {σ σ' : Server} {es : List Event}
    (h : I σ) (hC : Throughout C σ es) (hrun : run σ es = some σ') : I σ' := by
  induction es generalizing σ with
  | nil =>
    obtain rfl := Option.some.inj hrun
    exact h
  | cons e es ih =>
    obtain ⟨σ₁, hs, hrun⟩ := Option.bind_eq_some_iff.mp hrun
    exact ih (hstep σ e σ₁ h hC.1 hs) (hC.2 σ₁ hs) hrun

end SecChat.PrekeyStore
