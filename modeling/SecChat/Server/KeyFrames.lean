import SecChat.Library.Runs
import SecChat.Server.Columns
import SecChat.Server.IdentityStore
import SecChat.Server.PrekeyStore

/-!
# Key strings in frames

The strings of `upload_keys`, `rotate_identity` and `upload_pqxdh_bundle` are stored as they come, and
`keys.c` prints them into four kinds of frames without `json_esc`.  Strings go into arrays of fixed size
on the way: those of the first two requests before they are stored, those of a bundle when they are read.

* `State`, `Event`, `respond`: the tables, the requests one after the other, and the frames they send;
* `serveStep_getBundle`: a bundle is read here in one go, as the statements of the request do it when
  nothing comes between them;
* `owed`, `Shows`, `Faithful`: the values that a frame must have for a parser that takes the last of
  repeated keys;
* `Stored`, `stored_step`: what the written rows satisfy, the stored rows satisfy;
* `Printable`: the strings that a request prints need no escape, and those of a bundle fit;
* `key_frames_faithful`: then all frames of a run are faithful;
* `printable_of_written`: all of them are printable when no string that is uploaded needs an escape;
* `owner_forged`: a key that closes its string, and names another owner.

Statements do not fail.  `identity_key_log` is left out, since no frame shows it.
-/

namespace SecChat.KeyFrames

open CText JsonReader Columns Runs
open PrekeyStore (Row CurveKey PqKey BundleRow Db Stmt Upload PqxdhBundleRecord strncpy jsonInt kemAllowed
  mem_rows_insertIgnore mem_rows_deleteUser mem_rows_deleteId mem_of_selectFirst)
open IdentityStore (identityB64Equal)

/-! ### Tables -/

/-- The strings of `upload_keys` and of `rotate_identity`. -/
structure Strings where
  identityPk : Text
  identitySig : Text
  identitySkEnc : Text
  deriving DecidableEq

/-- What `jget` copies into the arrays of the handlers. -/
def Strings.jget (r : Strings) : Strings where
  identityPk := strncpy 256 r.identityPk
  identitySig := strncpy 256 r.identitySig
  identitySkEnc := strncpy 8192 r.identitySkEnc

/-- A row of `user_keys`. -/
structure UserKeys extends Strings where
  identityVersion : Fin (2 ^ 31)
  deriving DecidableEq

/-- The tables. -/
structure State where
  keys : Int32 → Option UserKeys
  db : Db

namespace State

/-- A server without keys. -/
def new : State := ⟨fun _ => none, ⟨fun _ => none, ⟨[], 1⟩, ⟨[], 1⟩⟩⟩

/-- `key_upload_user`. -/
def uploadUser (s : State) (uid : Int32) (r : Strings) : State :=
  let identityVersion := ((s.keys uid).map UserKeys.identityVersion).getD 0
  { s with keys := Function.update s.keys uid (some { r with identityVersion }) }

/-- `key_bump_identity_version`; the column is an `INT`. -/
def bumpIdentityVersion (s : State) (uid : Int32) : Option (State × Fin (2 ^ 31)) :=
  match s.keys uid with
  | none => none
  | some k =>
      if h : k.identityVersion.val + 1 < 2 ^ 31 then
        let identityVersion : Fin (2 ^ 31) := ⟨k.identityVersion + 1, h⟩
        some ({ s with keys := Function.update s.keys uid (some { k with identityVersion }) },
          identityVersion)
      else none

/-- The row before and after the version went up. -/
theorem bump_eq_some {s s' : State} {uid : Int32} {v : Fin (2 ^ 31)}
    (h : s.bumpIdentityVersion uid = some (s', v)) :
    ∃ k, s.keys uid = some k ∧ v.val = k.identityVersion + 1 ∧
      s' = { s with keys := Function.update s.keys uid (some { k with identityVersion := v }) } := by
  unfold bumpIdentityVersion at h
  split at h
  · cases h
  · next k hk =>
    split at h
    · obtain ⟨rfl, rfl⟩ := Prod.mk.inj (Option.some.inj h)
      exact ⟨k, hk, rfl, rfl⟩
    · cases h

/-- `key_get_identity_version`. -/
def identityVersion (s : State) (uid : Int32) : ℤ :=
  match s.keys uid with
  | some k => (k.identityVersion : ℕ)
  | none => -1

/-- `key_get_current_identity`. -/
def currentIdentity (s : State) (uid : Int32) : Option Text :=
  match s.keys uid with
  | some k => if k.identityPk = [] then none else some (strncpy 256 k.identityPk)
  | none => none

/-- There is another identity, which only `rotate_identity` may change. -/
def needsRotation (s : State) (uid : Int32) (identityPk : Text) : Bool :=
  match s.currentIdentity uid with
  | some currentId => !identityB64Equal currentId identityPk
  | none => false

end State

/-- `key_pqxdh_get_bundle_consuming` takes a curve one-time key. -/
def consumeCurve (db : Db) (userId : ℤ) (out : PqxdhBundleRecord) : Db × PqxdhBundleRecord :=
  match db.curve.selectFirst userId out.curveSpkId with
  | some r =>
      ({ db with curve := if 0 < r.id then db.curve.deleteId r.id else db.curve }, out.withCurve r)
  | none => (db, out)

/-- It takes a PQ one-time key. -/
def consumePq (db : Db) (userId : ℤ) (out : PqxdhBundleRecord) : Db × PqxdhBundleRecord :=
  match db.pq.selectFirst userId out.pqSpkId with
  | some r => ({ db with pq := if 0 < r.id then db.pq.deleteId r.id else db.pq }, out.withPq r)
  | none => (db, out)

/-- `key_pqxdh_get_bundle_consuming`. -/
def getBundleConsuming (db : Db) (userId : ℤ) : Db × Option PqxdhBundleRecord :=
  match db.bundles userId with
  | none => (db, none)
  | some b =>
      let (db, out) := consumeCurve db userId (.ofBundle b)
      let (db, out) := consumePq db userId out
      let out := { out with
        curvePool := db.curve.countCurrent userId out.curveSpkId
        pqPool := db.pq.countCurrent userId out.pqSpkId }
      (db, if out.complete then some out else none)

/-! ### Frames -/

inductive Kind
  | identityChanged
  | safetyNumberChanged
  | myKeys
  | pqxdhBundle
  deriving DecidableEq

/-- A frame for a user. -/
structure Frame where
  uid : Int32
  kind : Kind
  text : Text
  deriving DecidableEq

def identityChanged (myUid : Int32) (idPk : Text) (newVersion : Fin (2 ^ 31)) : Text :=
  ((Buffer.new 512).snprintf
    (fmt "\x7b\"type\":\"identity_changed\",\"user_id\":%d,\"identity_pk\":\"%s\",\"identity_version\":%d\x7d"
      [dec myUid.toInt, idPk, dec newVersion.val])).text

def safetyNumberChanged (myUid : Int32) (idPk : Text) (newVersion : Fin (2 ^ 31)) : Text :=
  ((Buffer.new 512).snprintf
    (fmt "\x7b\"type\":\"safety_number_changed\",\"user_id\":%d,\"identity_pk\":\"%s\",\"identity_version\":%d\x7d"
      [dec myUid.toInt, idPk, dec newVersion.val])).text

def myKeysText (identityPk identitySig identitySkEnc : Text) (version : ℤ) : Text :=
  fmt "\x7b\"type\":\"my_keys\",\"found\":true,\"identity_pk\":\"%s\",\"identity_sig\":\"%s\",\"identity_sk_enc\":\"%s\",\"identity_version\":%d\x7d"
    [identityPk, identitySig, identitySkEnc, dec version]

/-- The frame of `handle_get_my_keys`. -/
def myKeys (identityPk identitySig identitySkEnc : Text) (version : ℤ) : Text :=
  let respSz := identityPk.length + identitySig.length + identitySkEnc.length + 256
  ((Buffer.new respSz).snprintf
    (myKeysText identityPk identitySig identitySkEnc (if 0 ≤ version then version else 0))).text

/-- `curve_pool` and `pq_pool` are of type `int`. -/
def poolSize (count : ℕ) : ℤ := (Int32.ofNat count).toInt

def pqxdhBundleText (targetUid : Int32) (identityVersion : ℤ) (b : PqxdhBundleRecord) : Text :=
  fmt "\x7b\"type\":\"pqxdh_bundle\",\"user_id\":%d,\"version\":2,\"identity_version\":%d,\"identity_pk\":\"%s\",\"curve_spk_id\":%d,\"curve_spk\":\"%s\",\"curve_spk_sig\":\"%s\",\"pq_spk_id\":%d,\"pq_kem_alg\":\"%s\",\"pq_spk\":\"%s\",\"pq_spk_sig\":\"%s\",\"curve_otk_id\":%d,\"curve_otk\":\"%s\",\"curve_otk_sig\":\"%s\",\"pq_otk_id\":%d,\"pq_otk_alg\":\"%s\",\"pq_otk\":\"%s\",\"pq_otk_sig\":\"%s\",\"curve_pool_size\":%d,\"pq_pool_size\":%d\x7d"
    [dec targetUid.toInt, dec identityVersion, b.identityPk,
      dec b.curveSpkId, b.curveSpk, b.curveSpkSig,
      dec b.pqSpkId, b.pqKemAlg, b.pqSpk, b.pqSpkSig,
      dec b.curveOtkId, b.curveOtk, b.curveOtkSig,
      dec b.pqOtkId, b.pqOtkAlg, b.pqOtk, b.pqOtkSig,
      dec (poolSize b.curvePool), dec (poolSize b.pqPool)]

/-- The frame of `handle_get_pqxdh_bundle`. -/
def pqxdhBundle (targetUid : Int32) (identityVersion : ℤ) (b : PqxdhBundleRecord) : Text :=
  let respSz := b.identityPk.length + b.curveSpk.length + b.curveSpkSig.length + b.pqKemAlg.length +
    b.pqSpk.length + b.pqSpkSig.length + b.curveOtk.length + b.curveOtkSig.length +
    b.pqOtkAlg.length + b.pqOtk.length + b.pqOtkSig.length + 1024
  ((Buffer.new respSz).snprintf
    (pqxdhBundleText targetUid (if 0 ≤ identityVersion then identityVersion else 0) b)).text

/-! ### Requests -/

/-- The requests.  A rotation finds the friends and the DM partners of the user in tables of their own. -/
inductive Event
  | uploadKeys (uid : Int32) (r : Strings)
  | rotateIdentity (uid : Int32) (r : Strings) (friends dmPartners : List Int32)
  | uploadPqxdhBundle (uid : Int32) (u : Upload)
  | getMyKeys (uid : Int32)
  | getPqxdhBundle (uid targetUid : Int32)

def handleUploadKeys (s : State) (uid : Int32) (r : Strings) : State :=
  let r := r.jget
  if r.identityPk = [] then s
  else if s.needsRotation uid r.identityPk then s
  else s.uploadUser uid r

def handleRotateIdentity (s : State) (uid : Int32) (r : Strings) (friends dmPartners : List Int32) :
    State × List Frame :=
  let r := r.jget
  if r.identityPk = [] then (s, [])
  else
    let s := s.uploadUser uid r
    match s.bumpIdentityVersion uid with
    | none => (s, [])
    | some (s, newVersion) =>
        (s,
          (friends.take 200).map
              (⟨·, .identityChanged, identityChanged uid r.identityPk newVersion⟩) ++
            (dmPartners.take 200).map
              (⟨·, .safetyNumberChanged, safetyNumberChanged uid r.identityPk newVersion⟩))

def handleUploadPqxdhBundle (s : State) (uid : Int32) (u : Upload) : State :=
  if u.valid = false then s
  else if s.needsRotation uid u.identityPk then s
  else
    let stmts := .upsertBundle uid.toInt (u.bundleRow 0) :: u.statements uid.toInt 0
    { s with db := stmts.foldl Stmt.exec s.db }

def handleGetMyKeys (s : State) (uid : Int32) : List Frame :=
  match s.keys uid with
  | none => [⟨uid, .myKeys, ascii "\x7b\"type\":\"my_keys\",\"found\":false\x7d"⟩]
  | some k =>
      [⟨uid, .myKeys, myKeys (strncpy 256 k.identityPk) (strncpy 256 k.identitySig)
        (strncpy 8192 k.identitySkEnc) (s.identityVersion uid)⟩]

def handleGetPqxdhBundle (s : State) (uid targetUid : Int32) : State × List Frame :=
  if targetUid.toInt ≤ 0 then (s, [])
  else
    let (db, answer) := getBundleConsuming s.db targetUid.toInt
    match answer with
    | none => ({ s with db }, [])
    | some b =>
        ({ s with db },
          [⟨uid, .pqxdhBundle, pqxdhBundle targetUid (s.identityVersion targetUid) b⟩])

/-- The state after a request, and the frames of the four kinds. -/
def respond (s : State) : Event → State × List Frame
  | .uploadKeys uid r => (handleUploadKeys s uid r, [])
  | .rotateIdentity uid r friends dmPartners => handleRotateIdentity s uid r friends dmPartners
  | .uploadPqxdhBundle uid u => (handleUploadPqxdhBundle s uid u, [])
  | .getMyKeys uid => (s, handleGetMyKeys s uid)
  | .getPqxdhBundle uid targetUid => handleGetPqxdhBundle s uid targetUid

def step (s : State) (e : Event) : State := (respond s e).1

/-! ### What frames should say -/

/-- An object with ASCII keys. -/
def object (members : List (String × Value)) : Value :=
  .obj (members.map fun (key, v) => (ascii key, v))

/-- An identity that was announced. -/
def notifValue (type : String) (uid : Int32) (k : UserKeys) : Value :=
  object [("type", .str (ascii type)), ("user_id", .int uid.toInt),
    ("identity_pk", .str k.identityPk), ("identity_version", .int k.identityVersion.val)]

def myKeysValue : Option UserKeys → Value
  | none => object [("type", .str (ascii "my_keys")), ("found", .bool false)]
  | some k =>
      object [("type", .str (ascii "my_keys")), ("found", .bool true),
        ("identity_pk", .str k.identityPk), ("identity_sig", .str k.identitySig),
        ("identity_sk_enc", .str k.identitySkEnc),
        ("identity_version", .int k.identityVersion.val)]

/-- A bundle with the one-time keys that were taken for it; without one its number is -1. -/
def bundleValue (targetUid : Int32) (identityVersion : ℕ) (b : BundleRow) (curveOtk : Option (Row CurveKey))
    (pqOtk : Option (Row PqKey)) (curvePool pqPool : ℤ) : Value :=
  object [("type", .str (ascii "pqxdh_bundle")), ("user_id", .int targetUid.toInt),
    ("version", .int 2), ("identity_version", .int identityVersion),
    ("identity_pk", .str b.identityPk),
    ("curve_spk_id", .int b.curveSpkId), ("curve_spk", .str b.curveSpk),
    ("curve_spk_sig", .str b.curveSpkSig),
    ("pq_spk_id", .int b.pqSpkId), ("pq_kem_alg", .str b.pqKemAlg),
    ("pq_spk", .str b.pqSpk), ("pq_spk_sig", .str b.pqSpkSig),
    ("curve_otk_id", .int (curveOtk.elim (-1) Row.keyId)),
    ("curve_otk", .str (curveOtk.elim [] (·.key.publicKey))),
    ("curve_otk_sig", .str (curveOtk.elim [] (·.key.signature))),
    ("pq_otk_id", .int (pqOtk.elim (-1) Row.keyId)),
    ("pq_otk_alg", .str (pqOtk.elim [] (·.key.kemAlg))),
    ("pq_otk", .str (pqOtk.elim [] (·.key.publicKey))),
    ("pq_otk_sig", .str (pqOtk.elim [] (·.key.signature))),
    ("curve_pool_size", .int curvePool), ("pq_pool_size", .int pqPool)]

/-- The version that is stored, 0 without a row. -/
def State.storedVersion (s : State) (uid : Int32) : ℕ :=
  (s.keys uid).elim 0 fun k => k.identityVersion.val

/-- What a frame of some kind should say when a request sends it: what is stored of its owner. -/
def owed (s : State) : Event → Kind → Option Value
  | .rotateIdentity uid r friends dmPartners, .identityChanged =>
      ((step s (.rotateIdentity uid r friends dmPartners)).keys uid).map (notifValue "identity_changed" uid)
  | .rotateIdentity uid r friends dmPartners, .safetyNumberChanged =>
      ((step s (.rotateIdentity uid r friends dmPartners)).keys uid).map
        (notifValue "safety_number_changed" uid)
  | .getMyKeys uid, .myKeys => some (myKeysValue (s.keys uid))
  | .getPqxdhBundle uid targetUid, .pqxdhBundle =>
      -- the pools are counted after the one-time keys were taken
      let left := (step s (.getPqxdhBundle uid targetUid)).db
      (s.db.bundles targetUid.toInt).map fun b =>
        bundleValue targetUid (s.storedVersion targetUid) b
          (s.db.curve.selectFirst targetUid.toInt b.curveSpkId)
          (s.db.pq.selectFirst targetUid.toInt b.pqSpkId)
          (poolSize (left.curve.countCurrent targetUid.toInt b.curveSpkId))
          (poolSize (left.pq.countCurrent targetUid.toInt b.pqSpkId))
  | _, _ => none

/-- The text is an object that has the members of a value, where the last of repeated keys counts. -/
def Shows (t : Text) (v : Value) : Prop :=
  ∃ ms, parse t = some (.obj ms) ∧ ∀ key, (Value.obj ms).get key = v.get key

/-- Every frame that a request sends says what it should. -/
def Faithful (s : State) (e : Event) : Prop :=
  ∀ f ∈ (respond s e).2, ∃ v, owed s e f.kind = some v ∧ Shows f.text v

/-! ### What is stored -/

/-- A property of the strings of a row of `user_keys`, and one for each of the other tables. -/
structure RowProps where
  keys : Strings → Prop
  bundle : BundleRow → Prop
  curve : ℤ → CurveKey → Prop
  pq : ℤ → PqKey → Prop

/-- All rows about prekeys have the properties. -/
structure StoredDb (W : RowProps) (db : Db) : Prop where
  bundles : ∀ userId, ∀ b ∈ db.bundles userId, W.bundle b
  curve : ∀ r ∈ db.curve.rows, W.curve r.keyId r.key
  pq : ∀ r ∈ db.pq.rows, W.pq r.keyId r.key

/-- All rows have them. -/
structure Stored (W : RowProps) (s : State) : Prop where
  keys : ∀ uid, ∀ k ∈ s.keys uid, W.keys k.toStrings
  db : StoredDb W s.db

/-- A statement writes a row with the property of its table. -/
def StmtWrites (W : RowProps) : Stmt → Prop
  | .upsertBundle _ row => W.bundle row
  | .insertCurve _ keyId key _ => W.curve keyId key
  | .insertPq _ keyId key _ => W.pq keyId key
  | .deleteCurve _ | .deletePq _ => True

/-- The rows that a request may write have the properties. -/
def Event.Writes (W : RowProps) : Event → Prop
  | .uploadKeys _ r | .rotateIdentity _ r _ _ => W.keys r.jget
  | .uploadPqxdhBundle _ u =>
      u.valid = true → W.bundle (u.bundleRow 0) ∧ (∀ k ∈ u.curveItems, W.curve k.1 k.2) ∧
        ∀ k ∈ u.pqItems, W.pq k.1 k.2
  | .getMyKeys _ | .getPqxdhBundle _ _ => True

section Stored

variable {W : RowProps} {s : State} {db : Db}

theorem stored_new : Stored W .new where
  keys := by simp [State.new]
  db := ⟨by simp [State.new], by simp [State.new], by simp [State.new]⟩

/-- A row of `user_keys` is replaced. -/
theorem Stored.update (h : Stored W s) {uid : Int32} {k : UserKeys} (hk : W.keys k.toStrings) :
    Stored W { s with keys := Function.update s.keys uid (some k) } where
  keys uid' k' hk' := by
    by_cases huid : uid' = uid
    · subst huid
      obtain rfl : k = k' := by simpa using hk'
      exact hk
    · exact h.keys uid' k' (by simpa [Function.update_of_ne huid] using hk')
  db := h.db

theorem Stored.uploadUser (h : Stored W s) (uid : Int32) {r : Strings} (hr : W.keys r) :
    Stored W (s.uploadUser uid r) :=
  h.update hr

theorem Stored.bump (h : Stored W s) {uid : Int32} {s' : State} {v : Fin (2 ^ 31)}
    (hbump : s.bumpIdentityVersion uid = some (s', v)) : Stored W s' := by
  obtain ⟨k, hk, -, rfl⟩ := State.bump_eq_some hbump
  exact h.update (h.keys uid k hk)

theorem StoredDb.exec (h : StoredDb W db) {st : Stmt} (hst : StmtWrites W st) :
    StoredDb W (st.exec db) := by
  cases st with
  | upsertBundle userId row =>
    refine ⟨fun userId' b hb => ?_, h.curve, h.pq⟩
    by_cases huser : userId' = userId
    · subst huser
      obtain rfl : row = b := by simpa [Stmt.exec] using hb
      exact hst
    · refine h.bundles userId' b ?_
      simpa [Stmt.exec, Function.update_of_ne huser] using hb
  | deleteCurve userId =>
    exact ⟨h.bundles, fun r hr => h.curve r (mem_rows_deleteUser.mp hr).1, h.pq⟩
  | deletePq userId =>
    exact ⟨h.bundles, h.curve, fun r hr => h.pq r (mem_rows_deleteUser.mp hr).1⟩
  | insertCurve userId keyId key origin =>
    refine ⟨h.bundles, fun r hr => ?_, h.pq⟩
    rcases mem_rows_insertIgnore hr with hr | rfl
    · exact h.curve r hr
    · exact hst
  | insertPq userId keyId key origin =>
    refine ⟨h.bundles, h.curve, fun r hr => ?_⟩
    rcases mem_rows_insertIgnore hr with hr | rfl
    · exact h.pq r hr
    · exact hst

/-- The statements of an upload. -/
theorem stmtWrites_upload {uid : Int32} {u : Upload} (hvalid : u.valid = true)
    (h : (Event.uploadPqxdhBundle uid u).Writes W) :
    ∀ st ∈ Stmt.upsertBundle uid.toInt (u.bundleRow 0) :: u.statements uid.toInt 0, StmtWrites W st := by
  obtain ⟨hbundle, hcurve, hpq⟩ := h hvalid
  intro st hst
  simp only [Upload.statements, List.mem_cons, List.mem_append, List.mem_map] at hst
  rcases hst with rfl | rfl | rfl | ⟨k, hk, rfl⟩ | ⟨k, hk, rfl⟩
  · exact hbundle
  · trivial
  · trivial
  · exact hcurve k hk
  · exact hpq k hk

theorem StoredDb.consumeCurve (h : StoredDb W db) (userId : ℤ) (out : PqxdhBundleRecord) :
    StoredDb W (consumeCurve db userId out).1 := by
  unfold KeyFrames.consumeCurve
  split
  · refine ⟨h.bundles, fun r hr => h.curve r ?_, h.pq⟩
    dsimp only at hr
    split at hr
    · exact mem_rows_deleteId hr
    · exact hr
  · exact h

theorem StoredDb.consumePq (h : StoredDb W db) (userId : ℤ) (out : PqxdhBundleRecord) :
    StoredDb W (consumePq db userId out).1 := by
  unfold KeyFrames.consumePq
  split
  · refine ⟨h.bundles, h.curve, fun r hr => h.pq r ?_⟩
    dsimp only at hr
    split at hr
    · exact mem_rows_deleteId hr
    · exact hr
  · exact h

theorem StoredDb.getBundle (h : StoredDb W db) (userId : ℤ) :
    StoredDb W (getBundleConsuming db userId).1 := by
  unfold getBundleConsuming
  split
  · exact h
  · next b hb => exact (h.consumeCurve userId (.ofBundle b)).consumePq userId _

/-- **What is written is what is stored.** -/
theorem stored_step (h : Stored W s) {e : Event} (he : e.Writes W) : Stored W (step s e) := by
  cases e with
  | uploadKeys uid r =>
    show Stored W (handleUploadKeys s uid r)
    unfold handleUploadKeys
    dsimp only
    split
    · exact h
    · split
      · exact h
      · exact h.uploadUser uid he
  | rotateIdentity uid r friends dmPartners =>
    show Stored W (handleRotateIdentity s uid r friends dmPartners).1
    unfold handleRotateIdentity
    dsimp only
    split
    · exact h
    · split
      · exact h.uploadUser uid he
      · next s' v hbump => exact (h.uploadUser uid he).bump hbump
  | uploadPqxdhBundle uid u =>
    show Stored W (handleUploadPqxdhBundle s uid u)
    unfold handleUploadPqxdhBundle
    split
    · exact h
    · next hvalid =>
      split
      · exact h
      · have hwrites := stmtWrites_upload (by simpa using hvalid) he
        exact ⟨h.keys, foldl_of_forall (fun db st hdb hst => StoredDb.exec hdb hst) h.db hwrites⟩
  | getMyKeys uid => exact h
  | getPqxdhBundle uid targetUid =>
    show Stored W (handleGetPqxdhBundle s uid targetUid).1
    unfold handleGetPqxdhBundle
    split
    · exact h
    · dsimp only
      split <;> exact ⟨h.keys, h.db.getBundle targetUid.toInt⟩

end Stored

/-! ### What requests check -/

/-- The range of `int`. -/
def InInt (n : ℤ) : Prop := -2 ^ 31 ≤ n ∧ n < 2 ^ 31

instance (n : ℤ) : Decidable (InInt n) := inferInstanceAs (Decidable (_ ∧ _))

theorem inInt_jsonInt (n : ℤ) : InInt (jsonInt n) := by
  unfold InInt jsonInt
  omega

theorem inInt_version (v : Fin (2 ^ 31)) : InInt v.val := by
  have h := v.isLt
  unfold InInt
  omega

theorem length_dec_inInt {n : ℤ} (h : InInt n) : (dec n).length ≤ 11 := by
  obtain ⟨hlo, hhi⟩ := h
  exact length_dec_le (by omega) (by omega) (by omega)

/-- What every request sees to: strings were cut, numbers are of type `int`, and algorithms are known. -/
def checked : RowProps where
  keys r := r.identityPk.length < 256 ∧ r.identitySig.length < 256 ∧ r.identitySkEnc.length < 8192
  bundle b := InInt b.curveSpkId ∧ InInt b.pqSpkId ∧ kemAllowed b.pqKemAlg = true
  curve keyId _ := InInt keyId
  pq keyId key := InInt keyId ∧ kemAllowed key.kemAlg = true

theorem length_strncpy {size : ℕ} (h : 0 < size) (t : Text) : (strncpy size t).length < size := by
  simp only [strncpy, List.length_take]
  omega

theorem strncpy_of_lt {size : ℕ} {t : Text} (h : t.length < size) : strncpy size t = t :=
  List.take_of_length_le (by omega)

theorem writes_checked (e : Event) : e.Writes checked := by
  have hkeys (r : Strings) : checked.keys r.jget :=
    ⟨length_strncpy (by omega) _, length_strncpy (by omega) _, length_strncpy (by omega) _⟩
  cases e with
  | uploadKeys uid r => exact hkeys r
  | rotateIdentity uid r friends dmPartners => exact hkeys r
  | uploadPqxdhBundle uid u =>
    intro hvalid
    simp only [Upload.valid, decide_eq_true_eq] at hvalid
    obtain ⟨-, -, -, -, -, hkem, -⟩ := hvalid
    refine ⟨⟨inInt_jsonInt _, inInt_jsonInt _, hkem⟩, fun k hk => ?_, fun k hk => ?_⟩
    · simp only [Upload.curveItems, List.mem_filter, List.mem_map] at hk
      obtain ⟨⟨k', -, rfl⟩, -⟩ := hk
      exact inInt_jsonInt k'.1
    · simp only [Upload.pqItems, List.mem_filter, List.mem_map, decide_eq_true_eq] at hk
      obtain ⟨⟨k', -, rfl⟩, -, hkem', -⟩ := hk
      exact ⟨inInt_jsonInt k'.1, hkem'⟩
  | getMyKeys uid => trivial
  | getPqxdhBundle uid targetUid => trivial

/-! ### Strings that may be printed -/

/-- The text needs no escape. -/
def PlainText (t : Text) : Prop := ∀ c ∈ t, Plain c

instance (t : Text) : Decidable (PlainText t) := inferInstanceAs (Decidable (∀ c ∈ t, Plain c))

/-- It also fits into an array of `size` characters. -/
def Clean (size : ℕ) (t : Text) : Prop := PlainText t ∧ t.length < size

instance (size : ℕ) (t : Text) : Decidable (Clean size t) := inferInstanceAs (Decidable (_ ∧ _))

/-- Strings that may be printed as they are.  Those of `user_keys` fit anyway. -/
def clean : RowProps where
  keys r := PlainText r.identityPk ∧ PlainText r.identitySig ∧ PlainText r.identitySkEnc
  bundle b := Clean 256 b.identityPk ∧ Clean 256 b.curveSpk ∧ Clean 256 b.curveSpkSig ∧
    Clean 4096 b.pqSpk ∧ Clean 256 b.pqSpkSig
  curve _ key := Clean 256 key.publicKey ∧ Clean 256 key.signature
  pq _ key := Clean 4096 key.publicKey ∧ Clean 256 key.signature

instance (b : BundleRow) : Decidable (clean.bundle b) := inferInstanceAs (Decidable (_ ∧ _ ∧ _ ∧ _ ∧ _))

instance (keyId : ℤ) (key : CurveKey) : Decidable (clean.curve keyId key) :=
  inferInstanceAs (Decidable (_ ∧ _))

instance (keyId : ℤ) (key : PqKey) : Decidable (clean.pq keyId key) := inferInstanceAs (Decidable (_ ∧ _))

/-- The strings that a request prints may be printed as they are. -/
def Printable (s : State) : Event → Prop
  | .rotateIdentity uid r friends dmPartners =>
      -- nobody is told, or the version cannot go up
      (friends = [] ∧ dmPartners = []) ∨ s.storedVersion uid + 1 = 2 ^ 31 ∨
        PlainText r.jget.identityPk
  | .getMyKeys uid => ∀ k ∈ s.keys uid, clean.keys k.toStrings
  | .getPqxdhBundle _ targetUid =>
      0 < targetUid.toInt → ∀ b ∈ s.db.bundles targetUid.toInt,
        clean.bundle b ∧
          (∀ r ∈ s.db.curve.selectFirst targetUid.toInt b.curveSpkId, clean.curve r.keyId r.key) ∧
          ∀ r ∈ s.db.pq.selectFirst targetUid.toInt b.pqSpkId, clean.pq r.keyId r.key
  | .uploadKeys _ _ | .uploadPqxdhBundle _ _ => True

theorem clean_kem {alg : Text} (h : kemAllowed alg = true) : Clean 32 alg := by
  have hall : ∀ alg ∈ allowedKems.map Py.encodeUtf8, Clean 32 alg := by decide +kernel
  exact hall alg (by simpa [kemAllowed] using h)

/-! ### What is read -/

/-- What a client reads of a member. -/
theorem Shows.get {t : Text} {v : Value} (h : Shows t v) (key : Text) :
    ((parse t).bind fun w => w.get key) = v.get key := by
  obtain ⟨ms, hparse, hget⟩ := h
  rw [hparse]
  exact hget key

theorem shows_of_whole {t : Text} {ms : List (Text × Value)} (h : Whole t (.obj ms)) :
    Shows t (.obj ms) :=
  ⟨ms, h.parse, fun _ => rfl⟩

def notifLayout (type : String) : Layout :=
  [("type", .fixed type), ("user_id", .raw), ("identity_pk", .str), ("identity_version", .raw)]

theorem length_notif (uid : Int32) {idPk : Text} (h : idPk.length < 256) (v : Fin (2 ^ 31)) :
    List.Forall₂ (fun t k => t.length ≤ k) [dec uid.toInt, idPk, dec v.val] [11, 255, 11] :=
  .cons (length_int32_le uid) (.cons (by omega) (.cons (length_dec_inInt (inInt_version v)) .nil))

theorem reads_notif {type : String} {name : Text} (hname : JsonReader.Reads (ascii type) (.str name))
    (uid : Int32) {idPk : Text} (h : PlainText idPk) (v : Fin (2 ^ 31)) :
    List.Forall₂ JsonReader.Reads ((notifLayout type).texts [dec uid.toInt, idPk, dec v.val])
      [.str name, .int uid.toInt, .str idPk, .int v.val] :=
  .cons hname (.cons (reads_dec _) (.cons (reads_plain h) (.cons (reads_dec (v.val : ℤ)) .nil)))

theorem shows_identityChanged (uid : Int32) (k : UserKeys) (hplain : PlainText k.identityPk)
    (hlen : k.identityPk.length < 256) :
    Shows (identityChanged uid k.identityPk k.identityVersion) (notifValue "identity_changed" uid k) := by
  unfold identityChanged
  rw [text_snprintf]
  · exact shows_of_whole (whole_fmt (notifLayout "\"identity_changed\"") rfl rfl (by decide)
      (reads_notif (reads_of_parse rfl) uid hplain k.identityVersion))
  · exact lt_of_le_of_lt (length_fmt_le 75 rfl rfl rfl (length_notif uid hlen k.identityVersion))
      (by decide)

theorem shows_safetyNumberChanged (uid : Int32) (k : UserKeys) (hplain : PlainText k.identityPk)
    (hlen : k.identityPk.length < 256) :
    Shows (safetyNumberChanged uid k.identityPk k.identityVersion)
      (notifValue "safety_number_changed" uid k) := by
  unfold safetyNumberChanged
  rw [text_snprintf]
  · exact shows_of_whole (whole_fmt (notifLayout "\"safety_number_changed\"") rfl rfl (by decide)
      (reads_notif (reads_of_parse rfl) uid hplain k.identityVersion))
  · exact lt_of_le_of_lt (length_fmt_le 80 rfl rfl rfl (length_notif uid hlen k.identityVersion))
      (by decide)

def myKeysLayout : Layout :=
  [("type", .fixed "\"my_keys\""), ("found", .fixed "true"), ("identity_pk", .str),
    ("identity_sig", .str), ("identity_sk_enc", .str), ("identity_version", .raw)]

theorem shows_myKeysText {identityPk identitySig identitySkEnc : Text} (hpk : PlainText identityPk)
    (hsig : PlainText identitySig) (hskEnc : PlainText identitySkEnc) (version : ℤ) :
    Shows (myKeysText identityPk identitySig identitySkEnc version)
      (object [("type", .str (ascii "my_keys")), ("found", .bool true), ("identity_pk", .str identityPk),
        ("identity_sig", .str identitySig), ("identity_sk_enc", .str identitySkEnc),
        ("identity_version", .int version)]) := by
  have hvs : List.Forall₂ JsonReader.Reads
      (myKeysLayout.texts [identityPk, identitySig, identitySkEnc, dec version])
      [.str (ascii "my_keys"), .bool true, .str identityPk, .str identitySig, .str identitySkEnc,
        .int version] :=
    .cons (reads_of_parse rfl) (.cons reads_true (.cons (reads_plain hpk) (.cons (reads_plain hsig)
      (.cons (reads_plain hskEnc) (.cons (reads_dec version) .nil)))))
  exact shows_of_whole (whole_fmt myKeysLayout rfl rfl (by decide) hvs)

theorem length_myKeysText_le (identityPk identitySig identitySkEnc : Text) {version : ℤ}
    (h : InInt version) : (myKeysText identityPk identitySig identitySkEnc version).length ≤
      identityPk.length + identitySig.length + identitySkEnc.length + 118 := by
  have hbounds : List.Forall₂ (fun t n => t.length ≤ n) [identityPk, identitySig, identitySkEnc, dec version]
      [identityPk.length, identitySig.length, identitySkEnc.length, 11] :=
    .cons le_rfl (.cons le_rfl (.cons le_rfl (.cons (length_dec_inInt h) .nil)))
  have hlen : (myKeysText identityPk identitySig identitySkEnc version).length ≤ 107 + _ :=
    length_fmt_le 107 rfl rfl rfl hbounds
  refine hlen.trans ?_
  simp only [List.sum_cons, List.sum_nil]
  omega

/-- The version that is printed. -/
theorem ite_identityVersion (s : State) (uid : Int32) :
    (if 0 ≤ s.identityVersion uid then s.identityVersion uid else 0) = s.storedVersion uid := by
  unfold State.identityVersion State.storedVersion
  cases s.keys uid with
  | none => rfl
  | some k => exact if_pos (Int.natCast_nonneg _)

theorem inInt_storedVersion (s : State) (uid : Int32) : InInt (s.storedVersion uid) := by
  unfold State.storedVersion
  cases s.keys uid with
  | none => decide
  | some k => exact inInt_version k.identityVersion

theorem shows_myKeys {s : State} {uid : Int32} {k : UserKeys} (hk : s.keys uid = some k)
    (h : clean.keys k.toStrings) :
    Shows (myKeys k.identityPk k.identitySig k.identitySkEnc (s.identityVersion uid))
      (myKeysValue (some k)) := by
  have hversion : s.storedVersion uid = k.identityVersion.val := by
    rw [State.storedVersion, hk]
    rfl
  have hlen := length_myKeysText_le k.identityPk k.identitySig k.identitySkEnc (inInt_storedVersion s uid)
  unfold myKeys
  rw [ite_identityVersion, text_snprintf (by omega), hversion]
  exact shows_myKeysText h.1 h.2.1 h.2.2 _

/-- A record with strings that may be printed and numbers of type `int`. -/
structure CleanRecord (b : PqxdhBundleRecord) : Prop where
  identityPk : PlainText b.identityPk
  curveSpkId : InInt b.curveSpkId
  curveSpk : PlainText b.curveSpk
  curveSpkSig : PlainText b.curveSpkSig
  pqSpkId : InInt b.pqSpkId
  pqKemAlg : PlainText b.pqKemAlg
  pqSpk : PlainText b.pqSpk
  pqSpkSig : PlainText b.pqSpkSig
  curveOtkId : InInt b.curveOtkId
  curveOtk : PlainText b.curveOtk
  curveOtkSig : PlainText b.curveOtkSig
  pqOtkId : InInt b.pqOtkId
  pqOtkAlg : PlainText b.pqOtkAlg
  pqOtk : PlainText b.pqOtk
  pqOtkSig : PlainText b.pqOtkSig

/-- What the record says. -/
def recordValue (targetUid : Int32) (identityVersion : ℤ) (b : PqxdhBundleRecord) : Value :=
  object [("type", .str (ascii "pqxdh_bundle")), ("user_id", .int targetUid.toInt),
    ("version", .int 2), ("identity_version", .int identityVersion),
    ("identity_pk", .str b.identityPk),
    ("curve_spk_id", .int b.curveSpkId), ("curve_spk", .str b.curveSpk),
    ("curve_spk_sig", .str b.curveSpkSig),
    ("pq_spk_id", .int b.pqSpkId), ("pq_kem_alg", .str b.pqKemAlg),
    ("pq_spk", .str b.pqSpk), ("pq_spk_sig", .str b.pqSpkSig),
    ("curve_otk_id", .int b.curveOtkId), ("curve_otk", .str b.curveOtk),
    ("curve_otk_sig", .str b.curveOtkSig),
    ("pq_otk_id", .int b.pqOtkId), ("pq_otk_alg", .str b.pqOtkAlg), ("pq_otk", .str b.pqOtk),
    ("pq_otk_sig", .str b.pqOtkSig),
    ("curve_pool_size", .int (poolSize b.curvePool)), ("pq_pool_size", .int (poolSize b.pqPool))]

def bundleLayout : Layout :=
  [("type", .fixed "\"pqxdh_bundle\""), ("user_id", .raw), ("version", .fixed "2"),
    ("identity_version", .raw), ("identity_pk", .str), ("curve_spk_id", .raw), ("curve_spk", .str),
    ("curve_spk_sig", .str), ("pq_spk_id", .raw), ("pq_kem_alg", .str), ("pq_spk", .str),
    ("pq_spk_sig", .str), ("curve_otk_id", .raw), ("curve_otk", .str), ("curve_otk_sig", .str),
    ("pq_otk_id", .raw), ("pq_otk_alg", .str), ("pq_otk", .str), ("pq_otk_sig", .str),
    ("curve_pool_size", .raw), ("pq_pool_size", .raw)]

set_option maxRecDepth 4000 in
theorem shows_pqxdhBundleText (targetUid : Int32) (v : ℤ) {b : PqxdhBundleRecord} (h : CleanRecord b) :
    Shows (pqxdhBundleText targetUid v b) (recordValue targetUid v b) := by
  have hvs : List.Forall₂ JsonReader.Reads
      (bundleLayout.texts [dec targetUid.toInt, dec v, b.identityPk, dec b.curveSpkId, b.curveSpk,
        b.curveSpkSig, dec b.pqSpkId, b.pqKemAlg, b.pqSpk, b.pqSpkSig, dec b.curveOtkId, b.curveOtk,
        b.curveOtkSig, dec b.pqOtkId, b.pqOtkAlg, b.pqOtk, b.pqOtkSig, dec (poolSize b.curvePool),
        dec (poolSize b.pqPool)])
      [.str (ascii "pqxdh_bundle"), .int targetUid.toInt, .int 2, .int v, .str b.identityPk,
        .int b.curveSpkId, .str b.curveSpk, .str b.curveSpkSig, .int b.pqSpkId, .str b.pqKemAlg,
        .str b.pqSpk, .str b.pqSpkSig, .int b.curveOtkId, .str b.curveOtk, .str b.curveOtkSig,
        .int b.pqOtkId, .str b.pqOtkAlg, .str b.pqOtk, .str b.pqOtkSig, .int (poolSize b.curvePool),
        .int (poolSize b.pqPool)] :=
    .cons (reads_of_parse rfl) (.cons (reads_dec _) (.cons (reads_of_parse rfl) (.cons (reads_dec _)
      (.cons (reads_plain h.identityPk) (.cons (reads_dec _) (.cons (reads_plain h.curveSpk)
      (.cons (reads_plain h.curveSpkSig) (.cons (reads_dec _) (.cons (reads_plain h.pqKemAlg)
      (.cons (reads_plain h.pqSpk) (.cons (reads_plain h.pqSpkSig) (.cons (reads_dec _)
      (.cons (reads_plain h.curveOtk) (.cons (reads_plain h.curveOtkSig) (.cons (reads_dec _)
      (.cons (reads_plain h.pqOtkAlg) (.cons (reads_plain h.pqOtk) (.cons (reads_plain h.pqOtkSig)
      (.cons (reads_dec _) (.cons (reads_dec _) .nil))))))))))))))))))))
  exact shows_of_whole (whole_fmt bundleLayout rfl (by decide +kernel) (by decide) hvs)

set_option maxRecDepth 4000 in
theorem length_pqxdhBundleText_le (targetUid : Int32) {v : ℤ} (hv : InInt v) {b : PqxdhBundleRecord}
    (h : CleanRecord b) : (pqxdhBundleText targetUid v b).length ≤
      b.identityPk.length + b.curveSpk.length + b.curveSpkSig.length + b.pqKemAlg.length +
      b.pqSpk.length + b.pqSpkSig.length + b.curveOtk.length + b.curveOtkSig.length +
      b.pqOtkAlg.length + b.pqOtk.length + b.pqOtkSig.length + 420 := by
  have hcurveSpkId := length_dec_inInt h.curveSpkId
  have hpqSpkId := length_dec_inInt h.pqSpkId
  have hcurveOtkId := length_dec_inInt h.curveOtkId
  have hpqOtkId := length_dec_inInt h.pqOtkId
  have hint := length_int32_le
  have hbounds : List.Forall₂ (fun t n => t.length ≤ n)
      [dec targetUid.toInt, dec v, b.identityPk, dec b.curveSpkId, b.curveSpk, b.curveSpkSig,
        dec b.pqSpkId, b.pqKemAlg, b.pqSpk, b.pqSpkSig, dec b.curveOtkId, b.curveOtk, b.curveOtkSig,
        dec b.pqOtkId, b.pqOtkAlg, b.pqOtk, b.pqOtkSig, dec (poolSize b.curvePool),
        dec (poolSize b.pqPool)]
      [11, 11, b.identityPk.length, 11, b.curveSpk.length, b.curveSpkSig.length, 11, b.pqKemAlg.length,
        b.pqSpk.length, b.pqSpkSig.length, 11, b.curveOtk.length, b.curveOtkSig.length, 11,
        b.pqOtkAlg.length, b.pqOtk.length, b.pqOtkSig.length, 11, 11] :=
    .cons (hint _) (.cons (length_dec_inInt hv) (.cons le_rfl (.cons hcurveSpkId (.cons le_rfl
      (.cons le_rfl (.cons hpqSpkId (.cons le_rfl (.cons le_rfl (.cons le_rfl (.cons hcurveOtkId
      (.cons le_rfl (.cons le_rfl (.cons hpqOtkId (.cons le_rfl (.cons le_rfl (.cons le_rfl
      (.cons (hint _) (.cons (hint _) .nil))))))))))))))))))
  refine (length_fmt_le 332 rfl rfl (by decide +kernel) hbounds).trans ?_
  simp only [List.sum_cons, List.sum_nil]
  clear * -
  omega

theorem shows_pqxdhBundle (s : State) (targetUid : Int32) {b : PqxdhBundleRecord} (h : CleanRecord b) :
    Shows (pqxdhBundle targetUid (s.identityVersion targetUid) b)
      (recordValue targetUid (s.storedVersion targetUid) b) := by
  have hlen := length_pqxdhBundleText_le targetUid (inInt_storedVersion s targetUid) h
  unfold pqxdhBundle
  rw [ite_identityVersion, text_snprintf (by omega)]
  exact shows_pqxdhBundleText targetUid _ h

/-! ### The record of a bundle -/

/-- The record of a bundle and of the one-time keys that were found, with the pools that are left. -/
def servedRecord (b : BundleRow) (curveOtk : Option (Row CurveKey)) (pqOtk : Option (Row PqKey))
    (curvePool pqPool : ℕ) : PqxdhBundleRecord :=
  let out := PqxdhBundleRecord.ofBundle b
  let out := curveOtk.elim out out.withCurve
  let out := pqOtk.elim out out.withPq
  { out with curvePool, pqPool }

theorem getBundle_eq_some {db : Db} {userId : ℤ} {out : PqxdhBundleRecord}
    (h : (getBundleConsuming db userId).2 = some out) :
    ∃ b, db.bundles userId = some b ∧
      out = servedRecord b (db.curve.selectFirst userId b.curveSpkId)
        (db.pq.selectFirst userId b.pqSpkId)
        ((getBundleConsuming db userId).1.curve.countCurrent userId b.curveSpkId)
        ((getBundleConsuming db userId).1.pq.countCurrent userId b.pqSpkId) := by
  unfold getBundleConsuming at h ⊢
  cases hb : db.bundles userId with
  | none => simp [hb] at h
  | some b =>
    refine ⟨b, rfl, ?_⟩
    simp only [hb, consumeCurve, consumePq] at h ⊢
    have hids : (PqxdhBundleRecord.ofBundle b).curveSpkId = b.curveSpkId ∧
      (PqxdhBundleRecord.ofBundle b).pqSpkId = b.pqSpkId := ⟨rfl, rfl⟩
    have hkept (r : Row CurveKey) :
        ((PqxdhBundleRecord.ofBundle b).withCurve r).pqSpkId = b.pqSpkId := rfl
    cases hc : db.curve.selectFirst userId b.curveSpkId <;>
      cases hp : db.pq.selectFirst userId b.pqSpkId <;>
      simp only [hids, hkept, hc, hp, Option.ite_none_right_eq_some, Option.some.injEq] at h ⊢ <;>
      exact h.2.symm

/-- A request under way issues its next statement, and nobody else does. -/
def serveStep : Db × PrekeyStore.Proc → Db × PrekeyStore.Proc
  | (db, .get userId stage out) => PrekeyStore.getStep db userId out stage
  | x => x

/-- **A request that is served alone**, statement by statement. -/
theorem serveStep_getBundle {db : Db} {userId : ℤ} {b : BundleRow} (hb : db.bundles userId = some b) :
    serveStep^[6] (db, .get userId .selectCurve (.ofBundle b)) =
      ((getBundleConsuming db userId).1, .got userId (getBundleConsuming db userId).2) := by
  have hids : (PqxdhBundleRecord.ofBundle b).curveSpkId = b.curveSpkId ∧
    (PqxdhBundleRecord.ofBundle b).pqSpkId = b.pqSpkId := ⟨rfl, rfl⟩
  have hkept (r : Row CurveKey) : ((PqxdhBundleRecord.ofBundle b).withCurve r).pqSpkId = b.pqSpkId := rfl
  cases hc : db.curve.selectFirst userId b.curveSpkId with
  | none =>
    cases hp : db.pq.selectFirst userId b.pqSpkId with
    | none =>
      simp [serveStep, PrekeyStore.getStep, getBundleConsuming, consumeCurve, consumePq, hids, hb, hc, hp]
    | some p =>
      by_cases hpid : 0 < p.id <;>
        simp [serveStep, PrekeyStore.getStep, getBundleConsuming, consumeCurve, consumePq, hids, hb, hc, hp,
          hpid]
  | some c =>
    cases hp : db.pq.selectFirst userId b.pqSpkId with
    | none =>
      by_cases hcid : 0 < c.id <;>
        simp [serveStep, PrekeyStore.getStep, getBundleConsuming, consumeCurve, consumePq, hids, hkept, hb, hc,
          hp, hcid]
    | some p =>
      by_cases hcid : 0 < c.id <;> by_cases hpid : 0 < p.id <;>
        simp [serveStep, PrekeyStore.getStep, getBundleConsuming, consumeCurve, consumePq, hids, hkept, hb, hc,
          hp, hcid, hpid]

section Served

variable {b : BundleRow} {curveOtk : Option (Row CurveKey)} {pqOtk : Option (Row PqKey)}

/-- The strings of a clean bundle are not cut. -/
theorem strncpy_bundle (hb : clean.bundle b) (hb' : checked.bundle b) :
    strncpy 256 b.identityPk = b.identityPk ∧ strncpy 256 b.curveSpk = b.curveSpk ∧
      strncpy 256 b.curveSpkSig = b.curveSpkSig ∧ strncpy 32 b.pqKemAlg = b.pqKemAlg ∧
      strncpy 4096 b.pqSpk = b.pqSpk ∧ strncpy 256 b.pqSpkSig = b.pqSpkSig := by
  obtain ⟨hidentityPk, hcurveSpk, hcurveSpkSig, hpqSpk, hpqSpkSig⟩ := hb
  exact ⟨strncpy_of_lt hidentityPk.2, strncpy_of_lt hcurveSpk.2, strncpy_of_lt hcurveSpkSig.2,
    strncpy_of_lt (clean_kem hb'.2.2).2, strncpy_of_lt hpqSpk.2, strncpy_of_lt hpqSpkSig.2⟩

theorem strncpy_curve {r : Row CurveKey} (hr : clean.curve r.keyId r.key) :
    strncpy 256 r.key.publicKey = r.key.publicKey ∧ strncpy 256 r.key.signature = r.key.signature :=
  ⟨strncpy_of_lt hr.1.2, strncpy_of_lt hr.2.2⟩

theorem strncpy_pq {r : Row PqKey} (hr : clean.pq r.keyId r.key) (hr' : checked.pq r.keyId r.key) :
    strncpy 32 r.key.kemAlg = r.key.kemAlg ∧ strncpy 4096 r.key.publicKey = r.key.publicKey ∧
      strncpy 256 r.key.signature = r.key.signature :=
  ⟨strncpy_of_lt (clean_kem hr'.2).2, strncpy_of_lt hr.1.2, strncpy_of_lt hr.2.2⟩

/-- **The record says what is stored**, if nothing was cut. -/
theorem recordValue_served (hb : clean.bundle b) (hb' : checked.bundle b)
    (hcurve : ∀ r ∈ curveOtk, clean.curve r.keyId r.key ∧ checked.curve r.keyId r.key)
    (hpq : ∀ r ∈ pqOtk, clean.pq r.keyId r.key ∧ checked.pq r.keyId r.key) (targetUid : Int32) (v : ℕ)
    (curvePool pqPool : ℕ) :
    recordValue targetUid v (servedRecord b curveOtk pqOtk curvePool pqPool) =
      bundleValue targetUid v b curveOtk pqOtk (poolSize curvePool) (poolSize pqPool) := by
  have hbundle := strncpy_bundle hb hb'
  cases curveOtk with
  | none =>
    cases pqOtk with
    | none => simp [recordValue, bundleValue, servedRecord, PqxdhBundleRecord.ofBundle, hbundle]
    | some p =>
      have hp := strncpy_pq (hpq p rfl).1 (hpq p rfl).2
      simp [recordValue, bundleValue, servedRecord, PqxdhBundleRecord.ofBundle,
        PqxdhBundleRecord.withPq, hbundle, hp]
  | some c =>
    have hc := strncpy_curve (hcurve c rfl).1
    cases pqOtk with
    | none =>
      simp [recordValue, bundleValue, servedRecord, PqxdhBundleRecord.ofBundle,
        PqxdhBundleRecord.withCurve, hbundle, hc]
    | some p =>
      have hp := strncpy_pq (hpq p rfl).1 (hpq p rfl).2
      simp [recordValue, bundleValue, servedRecord, PqxdhBundleRecord.ofBundle,
        PqxdhBundleRecord.withCurve, PqxdhBundleRecord.withPq, hbundle, hc, hp]

theorem plain_strncpy {size : ℕ} {t : Text} (h : PlainText t) : PlainText (strncpy size t) :=
  fun c hc => h c (List.mem_of_mem_take hc)

theorem cleanRecord_ofBundle (hb : clean.bundle b) (hb' : checked.bundle b) :
    CleanRecord (.ofBundle b) where
  identityPk := plain_strncpy hb.1.1
  curveSpkId := hb'.1
  curveSpk := plain_strncpy hb.2.1.1
  curveSpkSig := plain_strncpy hb.2.2.1.1
  pqSpkId := hb'.2.1
  pqKemAlg := plain_strncpy (clean_kem hb'.2.2).1
  pqSpk := plain_strncpy hb.2.2.2.1.1
  pqSpkSig := plain_strncpy hb.2.2.2.2.1
  -- there is no one-time key yet
  curveOtkId := show InInt (-1) by decide
  curveOtk := fun _ hc => absurd hc (List.not_mem_nil)
  curveOtkSig := fun _ hc => absurd hc (List.not_mem_nil)
  pqOtkId := show InInt (-1) by decide
  pqOtkAlg := fun _ hc => absurd hc (List.not_mem_nil)
  pqOtk := fun _ hc => absurd hc (List.not_mem_nil)
  pqOtkSig := fun _ hc => absurd hc (List.not_mem_nil)

theorem CleanRecord.withCurve {out : PqxdhBundleRecord} (h : CleanRecord out) {r : Row CurveKey}
    (hr : clean.curve r.keyId r.key) (hr' : checked.curve r.keyId r.key) : CleanRecord (out.withCurve r) :=
  { h with
    curveOtkId := hr'
    curveOtk := plain_strncpy hr.1.1
    curveOtkSig := plain_strncpy hr.2.1 }

theorem CleanRecord.withPq {out : PqxdhBundleRecord} (h : CleanRecord out) {r : Row PqKey}
    (hr : clean.pq r.keyId r.key) (hr' : checked.pq r.keyId r.key) : CleanRecord (out.withPq r) :=
  { h with
    pqOtkId := hr'.1
    pqOtkAlg := plain_strncpy (clean_kem hr'.2).1
    pqOtk := plain_strncpy hr.1.1
    pqOtkSig := plain_strncpy hr.2.1 }

theorem cleanRecord_served (hb : clean.bundle b) (hb' : checked.bundle b)
    (hcurve : ∀ r ∈ curveOtk, clean.curve r.keyId r.key ∧ checked.curve r.keyId r.key)
    (hpq : ∀ r ∈ pqOtk, clean.pq r.keyId r.key ∧ checked.pq r.keyId r.key) (curvePool pqPool : ℕ) :
    CleanRecord (servedRecord b curveOtk pqOtk curvePool pqPool) := by
  have hc : CleanRecord (curveOtk.elim (.ofBundle b) (PqxdhBundleRecord.ofBundle b).withCurve) := by
    cases curveOtk with
    | none => exact cleanRecord_ofBundle hb hb'
    | some r => exact (cleanRecord_ofBundle hb hb').withCurve (hcurve r rfl).1 (hcurve r rfl).2
  cases pqOtk with
  | none => exact { hc with }
  | some r => exact { hc.withPq (hpq r rfl).1 (hpq r rfl).2 with }

end Served

/-! ### Runs -/

/-- The row that is replaced keeps its version. -/
theorem keys_uploadUser {s : State} {uid : Int32} {r : Strings} {k : UserKeys}
    (hk : (s.uploadUser uid r).keys uid = some k) :
    k.toStrings = r ∧ k.identityVersion.val = s.storedVersion uid := by
  simp only [State.uploadUser, Function.update_self, Option.some.injEq] at hk
  subst hk
  refine ⟨rfl, ?_⟩
  unfold State.storedVersion
  cases s.keys uid <;> rfl

/-- The row of a rotation, and the two frames that show it. -/
theorem mem_rotateIdentity {s : State} {uid : Int32} {r : Strings} {friends dmPartners : List Int32}
    {f : Frame} (hf : f ∈ (handleRotateIdentity s uid r friends dmPartners).2) :
    ∃ k : UserKeys, (handleRotateIdentity s uid r friends dmPartners).1.keys uid = some k ∧
      k.toStrings = r.jget ∧ ¬ (friends = [] ∧ dmPartners = []) ∧ s.storedVersion uid + 1 < 2 ^ 31 ∧
      ((f.kind = .identityChanged ∧ f.text = identityChanged uid k.identityPk k.identityVersion) ∨
        (f.kind = .safetyNumberChanged ∧
          f.text = safetyNumberChanged uid k.identityPk k.identityVersion)) := by
  unfold handleRotateIdentity at hf ⊢
  dsimp only at hf ⊢
  split at hf
  · simp at hf
  · next hne =>
    rw [if_neg hne]
    cases hbump : (s.uploadUser uid r.jget).bumpIdentityVersion uid with
    | none => simp [hbump] at hf
    | some x =>
      obtain ⟨s', v⟩ := x
      obtain ⟨k, hk, hv, rfl⟩ := State.bump_eq_some hbump
      obtain ⟨hstrings, hversion⟩ := keys_uploadUser hk
      refine ⟨{ k with identityVersion := v }, by simp, hstrings, ?_, ?_, ?_⟩
      · rintro ⟨rfl, rfl⟩
        simp [hbump] at hf
      · have hlt := v.isLt
        omega
      · rw [hbump] at hf
        rw [hstrings]
        rcases List.mem_append.mp hf with hf | hf
        · obtain ⟨uid', -, rfl⟩ := List.mem_map.mp hf
          exact .inl ⟨rfl, rfl⟩
        · obtain ⟨uid', -, rfl⟩ := List.mem_map.mp hf
          exact .inr ⟨rfl, rfl⟩

theorem db_getPqxdhBundle {s : State} {uid targetUid : Int32} (h : ¬ targetUid.toInt ≤ 0) :
    (handleGetPqxdhBundle s uid targetUid).1.db = (getBundleConsuming s.db targetUid.toInt).1 := by
  unfold handleGetPqxdhBundle
  rw [if_neg h]
  dsimp only
  split <;> rfl

/-- **One request.** -/
theorem faithful_of_printable {s : State} (h : Stored checked s) {e : Event} (he : Printable s e) :
    Faithful s e := by
  intro f hf
  cases e with
  | uploadKeys uid r => simp [respond] at hf
  | uploadPqxdhBundle uid u => simp [respond] at hf
  | rotateIdentity uid r friends dmPartners =>
    obtain ⟨k, hk, hstrings, htold, hversion, hframe⟩ := mem_rotateIdentity hf
    have hplain : PlainText k.identityPk := by
      rcases he with he | he | he
      · exact absurd he htold
      · omega
      · rwa [hstrings]
    have hlen : k.identityPk.length < 256 := by
      rw [hstrings]
      exact length_strncpy (by omega) _
    rcases hframe with ⟨hkind, htext⟩ | ⟨hkind, htext⟩
    · refine ⟨notifValue "identity_changed" uid k, ?_, ?_⟩
      · rw [hkind]
        simp [owed, step, respond, hk]
      · rw [htext]
        exact shows_identityChanged uid k hplain hlen
    · refine ⟨notifValue "safety_number_changed" uid k, ?_, ?_⟩
      · rw [hkind]
        simp [owed, step, respond, hk]
      · rw [htext]
        exact shows_safetyNumberChanged uid k hplain hlen
  | getMyKeys uid =>
    have hf : f ∈ handleGetMyKeys s uid := hf
    unfold handleGetMyKeys at hf
    split at hf
    · next hnone =>
      obtain rfl := List.mem_singleton.mp hf
      refine ⟨myKeysValue (s.keys uid), rfl, ?_⟩
      rw [hnone]
      exact ⟨_, rfl, fun _ => rfl⟩
    · next k hk =>
      obtain rfl := List.mem_singleton.mp hf
      refine ⟨myKeysValue (s.keys uid), rfl, ?_⟩
      obtain ⟨hpk, hsig, hskEnc⟩ := h.keys uid k hk
      rw [hk, strncpy_of_lt hpk, strncpy_of_lt hsig, strncpy_of_lt hskEnc]
      exact shows_myKeys hk (he k hk)
  | getPqxdhBundle uid targetUid =>
    have hf : f ∈ (handleGetPqxdhBundle s uid targetUid).2 := hf
    unfold handleGetPqxdhBundle at hf
    split at hf
    · simp at hf
    · next hpos =>
      cases hanswer : (getBundleConsuming s.db targetUid.toInt).2 with
      | none => simp [hanswer] at hf
      | some out =>
        obtain ⟨b, hb, rfl⟩ := getBundle_eq_some hanswer
        obtain ⟨hbundle, hcurve, hpq⟩ := he (by omega) b hb
        have hbundle' := h.db.bundles _ b hb
        have hcurve' := fun r hr => And.intro (hcurve r hr) (h.db.curve r (mem_of_selectFirst hr).1)
        have hpq' := fun r hr => And.intro (hpq r hr) (h.db.pq r (mem_of_selectFirst hr).1)
        simp only [hanswer, List.mem_singleton] at hf
        subst hf
        refine ⟨_, ?_, shows_pqxdhBundle s targetUid
          (cleanRecord_served hbundle hbundle' hcurve' hpq' _ _)⟩
        rw [recordValue_served hbundle hbundle' hcurve' hpq']
        simp [owed, step, respond, db_getPqxdhBundle hpos, hb]

/-- **The frames of a run are faithful** if the strings that every request prints may be printed as they
are. -/
theorem key_frames_faithful {es : List Event} (h : Each step Printable .new es) :
    Each step Faithful .new es :=
  each_of_each (P := Stored checked) (fun _ e hs _ => stored_step hs (writes_checked e))
    (fun _ _ hs he => faithful_of_printable hs he) stored_new h

/-- **Uploads decide**: if no string that may be written needs an escape, and those of bundles fit, then
every request of the run prints strings that may be printed. -/
theorem printable_of_written {es : List Event} (h : ∀ e ∈ es, e.Writes clean) :
    Each step Printable .new es := by
  have hstored : ∀ s e, Stored clean s → e.Writes clean → Printable s e := by
    intro s e hs he
    cases e with
    | uploadKeys uid r => trivial
    | uploadPqxdhBundle uid u => trivial
    | rotateIdentity uid r friends dmPartners => exact .inr (.inr he.1)
    | getMyKeys uid => exact hs.keys uid
    | getPqxdhBundle uid targetUid =>
      exact fun _ b hb => ⟨hs.db.bundles _ b hb, fun r hr => hs.db.curve r (mem_of_selectFirst hr).1,
        fun r hr => hs.db.pq r (mem_of_selectFirst hr).1⟩
  exact each_of_each (P := Stored clean) (C := fun _ e => e.Writes clean)
    (fun _ _ hs he => stored_step hs he) hstored stored_new (each_of_forall h)

/-- Keys and a bundle of user 1, a rotation, and what users ask for afterwards. -/
def plainRun : List Event :=
  [.uploadKeys 1 ⟨ascii "QUFB", ascii "c2ln", ascii "c2Vh"⟩,
    .uploadPqxdhBundle 1
      { identityPk := ascii "QUFB", curveSpkId := 10, curveSpk := ascii "c3Br", curveSpkSig := ascii "c2ln",
        pqSpkId := 20, pqKemAlg := ascii "ML-KEM-768", pqSpk := ascii "cHFr", pqSpkSig := ascii "c2ln",
        curveOtks := [(11, ⟨ascii "b3Rr", ascii "c2ln"⟩)],
        pqOtks := [(21, ⟨ascii "ML-KEM-768", ascii "cHEx", ascii "c2ln"⟩)] },
    .rotateIdentity 1 ⟨ascii "QkJC", ascii "c2ln", ascii "c2Vh"⟩ [2, 3] [2],
    .getMyKeys 1, .getMyKeys 2, .getPqxdhBundle 2 1, .getPqxdhBundle 3 1]

theorem printable_plainRun : Each step Printable .new plainRun := by
  refine printable_of_written fun e he => ?_
  simp only [plainRun, List.mem_cons, List.not_mem_nil, or_false] at he
  rcases he with rfl | rfl | rfl | rfl | rfl | rfl | rfl
  · exact ⟨by decide, by decide, by decide⟩
  · exact fun _ => ⟨by decide, by decide +kernel, by decide +kernel⟩
  · exact ⟨by decide, by decide, by decide⟩
  all_goals trivial

/-- All its frames are faithful. -/
theorem key_frames_faithful_plainRun : Each step Faithful .new plainRun :=
  key_frames_faithful printable_plainRun

/-- A rotation with a key that closes its string. -/
def forgedRotation : Event :=
  .rotateIdentity 1 ⟨ascii "x\",\"user_id\":7,\"a\":\"", [], []⟩ [2] []

/-- Its frame says that user 7 has changed the identity. -/
theorem owner_forged :
    ((respond .new forgedRotation).2.map fun f => (parse f.text).bind fun v => v.get (ascii "user_id")) =
        [some (.int 7)] ∧
      ¬ ∀ es, Each step Faithful .new es := by
  refine ⟨rfl, fun h => ?_⟩
  obtain ⟨v, hv, hshows⟩ := (h [forgedRotation]).1 ⟨2, .identityChanged, _⟩ List.mem_cons_self
  obtain rfl := Option.some.inj hv
  -- the last `user_id` of the frame is that of the key
  have hseven : some (Value.int 7) = some (.int 1) := hshows.get (ascii "user_id")
  simp only [Option.some.injEq, Value.int, Value.num.injEq] at hseven
  revert hseven
  decide

end SecChat.KeyFrames
