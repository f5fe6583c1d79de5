import SecChat.Server.Generations
import SecChat.Protocol.OneTimeKeys
import SecChat.Python.Utf8

/-!
# Prekey ids between client, server and database

`_new_key_id` takes the lower 31 bits of a millisecond clock, so the ids of new bundles start again
at `0` every 24.8 days.  The one-time keys of a bundle count up from the id of its signed prekeys;
the server reads ids as `int`, keeps them in `INT` columns, and serves the keys up to `1024` above
the signed prekey.

* `Upload.ofJson`, `PqxdhBundleRecord.response`: the two requests as JSON;
* `Current`, `Serving`: what the tables and the requests of a user hold after an upload;
* `PrekeyIdsOk`: what the ids of an upload have to survive;
* `prekeyIds_ok_iff`: they do unless the clock is at a wrap or within the window before it.
-/

namespace SecChat

open Py

/-! ### Lengths -/

theorem length_sextets (raw : Bytes) : 3 * (sextets raw).length ≤ 4 * raw.length + 2 := by
  induction raw using sextets.induct with
  | case1 => simp [sextets]
  | case2 a => simp [sextets]
  | case3 a b => simp [sextets]
  | case4 a b c rest ih =>
    simp only [sextets, List.length_cons]
    omega

/-- The length of a base64 text. -/
theorem length_b64e (raw : Bytes) : 3 * (encodeUtf8 (b64e raw)).length ≤ 4 * raw.length + 2 := by
  have hlen : (encodeUtf8 (b64e raw)).length = (sextets raw).length := by
    rw [b64e, urlsafeB64encode, length_encodeUtf8, List.length_map]
    intro c hc
    obtain ⟨n, hn, rfl⟩ := List.mem_map.mp hc
    exact b64Char_isAscii (sextets_lt raw n hn)
  rw [hlen]
  exact length_sextets raw

theorem encodeUtf8_ne_nil {s : String} (h : s ≠ "") : encodeUtf8 s ≠ [] := by
  intro hnil
  exact h (encodeUtf8_injective (hnil.trans rfl))

/-- The lengths of public keys and signatures in octets. -/
structure Prims.Lengths (P : Prims) : Prop where
  x25519 : ∀ sk : Seed, (P.x25519Public sk).length = 32
  ed25519 : ∀ sk : Seed, (P.ed25519Public sk).length = 32
  signature : ∀ (sk : Seed) (msg : Bytes), (P.ed25519Sign sk msg).length = 64
  /-- Of the mechanisms allowed, those of 1024 have the longest keys. -/
  kem : ∀ {alg : String} {seed : Seed} {pk sk : Bytes}, alg ∈ allowedKems →
    P.kemKeypair alg seed = some (pk, sk) → 0 < pk.length ∧ pk.length ≤ 1568

namespace PrekeyStore

/-! ### The requests as JSON -/

/-- `json_str`. -/
def jsonStr (obj : Json) (name : String) : Bytes :=
  match field obj name with
  | .str s => encodeUtf8 s
  | _ => []

/-- The integer of a field before it is clamped, with the default of `json_int`. -/
def jsonNumber (obj : Json) (name : String) : ℤ :=
  match field obj name with
  | .int n => n
  | _ => 0

/-- What `handle_upload_pqxdh_bundle` reads. -/
def Upload.ofJson (root : Json) : Upload where
  identityPk := jsonStr root "identity_pk"
  curveSpkId := jsonNumber root "curve_spk_id"
  curveSpk := jsonStr root "curve_spk"
  curveSpkSig := jsonStr root "curve_spk_sig"
  pqSpkId := jsonNumber root "pq_spk_id"
  pqKemAlg := jsonStr root "pq_kem_alg"
  pqSpk := jsonStr root "pq_spk"
  pqSpkSig := jsonStr root "pq_spk_sig"
  curveOtks := (items (field root "curve_one_time_prekeys")).map fun item =>
    (jsonNumber item "key_id", ⟨jsonStr item "public_key", jsonStr item "signature"⟩)
  pqOtks := (items (field root "pq_one_time_prekeys")).map fun item =>
    (jsonNumber item "key_id",
      ⟨jsonStr item "alg", jsonStr item "public_key", jsonStr item "signature"⟩)

/-- `%s` of a buffer as a JSON string; the texts of a bundle need no escapes. -/
def cString (buf : Bytes) : Json := .str (((decodeUtf8 buf).toOption).getD "")

@[simp] theorem cString_encodeUtf8 (s : String) : cString (encodeUtf8 s) = .str s := by
  simp [cString, Except.toOption]

@[simp] theorem cString_nil : cString [] = .str "" := cString_encodeUtf8 ""

/-- The answer of `handle_get_pqxdh_bundle`. -/
def PqxdhBundleRecord.response (out : PqxdhBundleRecord) (targetUid identityVersion : ℤ) : Json :=
  .obj [
    ("type", .str "pqxdh_bundle"), ("user_id", .int targetUid), ("version", .int 2),
    ("identity_version", .int (max identityVersion 0)),
    ("identity_pk", cString out.identityPk),
    ("curve_spk_id", .int out.curveSpkId),
    ("curve_spk", cString out.curveSpk),
    ("curve_spk_sig", cString out.curveSpkSig),
    ("pq_spk_id", .int out.pqSpkId),
    ("pq_kem_alg", cString out.pqKemAlg),
    ("pq_spk", cString out.pqSpk),
    ("pq_spk_sig", cString out.pqSpkSig),
    ("curve_otk_id", .int out.curveOtkId),
    ("curve_otk", cString out.curveOtk),
    ("curve_otk_sig", cString out.curveOtkSig),
    ("pq_otk_id", .int out.pqOtkId),
    ("pq_otk_alg", cString out.pqOtkAlg),
    ("pq_otk", cString out.pqOtk),
    ("pq_otk_sig", cString out.pqOtkSig),
    ("curve_pool_size", .int out.curvePool), ("pq_pool_size", .int out.pqPool)]

/-- The server reads the request that a client makes of a new bundle. -/
theorem ofJson_upload (b : BundleKeys) : Upload.ofJson b.upload = uploadOf b := by
  have hcurve : ∀ k : Otk, (fun item : Json => (jsonNumber item "key_id",
      (⟨jsonStr item "public_key", jsonStr item "signature"⟩ : CurveKey)))
        (BundleKeys.curveItem k) =
      (k.keyId, ⟨encodeUtf8 (b64e k.pk), encodeUtf8 (b64e k.sig)⟩) := by
    intro k
    simp [jsonNumber, jsonStr, field, BundleKeys.curveItem, Except.toOption]
  have hpq : ∀ k : Otk, (fun item : Json => (jsonNumber item "key_id",
      (⟨jsonStr item "alg", jsonStr item "public_key", jsonStr item "signature"⟩ : PqKey)))
        (BundleKeys.pqItem b.alg k) =
      (k.keyId, ⟨encodeUtf8 b.alg, encodeUtf8 (b64e k.pk), encodeUtf8 (b64e k.sig)⟩) := by
    intro k
    simp [jsonNumber, jsonStr, field, BundleKeys.pqItem, Except.toOption]
  have hmapc := List.map_congr_left fun k (_ : k ∈ b.curveOtks) => hcurve k
  have hmapq := List.map_congr_left fun k (_ : k ∈ b.pqOtks) => hpq k
  unfold uploadOf
  rw [← hmapc, ← hmapq]
  simp [Upload.ofJson, BundleKeys.upload, jsonStr, jsonNumber, field, items, Except.toOption,
    Function.comp_def]

/-! ### The tables after an upload -/

/-- All statements of an upload. -/
def Upload.exec (u : Upload) (userId : ℤ) (n : ℕ) (db : Db) : Db :=
  (u.statements userId n).foldl Stmt.exec ((Stmt.upsertBundle userId (u.bundleRow n)).exec db)

/-- The key ids of a user. -/
def Table.ids {κ : Type} (t : Table κ) (userId : ℤ) : List ℤ :=
  (t.rows.filter fun r => r.userId = userId).map Row.keyId

section Inserts

variable {κ : Type} {userId : ℤ} {n : ℕ}

/-- The one-time keys of an upload, inserted one by one. -/
def Table.insertAll (t : Table κ) (userId : ℤ) (n : ℕ) (ks : List (ℤ × κ)) : Table κ :=
  ks.foldl (fun t k => t.insertIgnore userId k.1 k.2 n) t

theorem ids_insertIgnore {t : Table κ} {keyId : ℤ} {key : κ} (h : keyId ∉ t.ids userId) :
    (t.insertIgnore userId keyId key n).ids userId = t.ids userId ++ [keyId] := by
  have hnew : ¬ ∃ r ∈ t.rows, r.userId = userId ∧ r.keyId = keyId := by
    rintro ⟨r, hr, huser, hkey⟩
    refine h (List.mem_map.mpr ⟨r, List.mem_filter.mpr ⟨hr, ?_⟩, hkey⟩)
    exact decide_eq_true huser
  simp [Table.ids, Table.insertIgnore, if_neg hnew]

/-- Distinct new ids are all stored, in their order. -/
theorem ids_insertAll {t : Table κ} {ks : List (ℤ × κ)}
    (h : (t.ids userId ++ ks.map Prod.fst).Nodup) :
    (t.insertAll userId n ks).ids userId = t.ids userId ++ ks.map Prod.fst := by
  induction ks generalizing t with
  | nil => simp [Table.insertAll]
  | cons k ks ih =>
    have hk : k.1 ∉ t.ids userId := by
      intro hmem
      exact (List.nodup_append.mp h).2.2 _ hmem _ (List.mem_cons_self ..) rfl
    have hids : (t.insertIgnore userId k.1 k.2 n).ids userId = t.ids userId ++ [k.1] :=
      ids_insertIgnore hk
    have hstep : (t.insertAll userId n (k :: ks)) =
        (t.insertIgnore userId k.1 k.2 n).insertAll userId n ks := rfl
    rw [hstep, ih, hids, List.append_assoc, List.map_cons, List.singleton_append]
    rwa [hids, List.append_assoc, List.singleton_append]

theorem ids_deleteUser (t : Table κ) : (t.deleteUser userId).ids userId = [] := by
  simp [Table.ids, Table.deleteUser, List.filter_filter]

/-- Ids in the window of the signed prekey are served. -/
theorem ids_window {t : Table κ} {spkId : ℤ} (h : ∀ k ∈ t.ids userId, InWindow spkId k) :
    (t.window userId spkId).map Row.keyId = t.ids userId := by
  have hwindow : t.window userId spkId = t.rows.filter fun r => r.userId = userId := by
    refine List.filter_congr fun r hr => ?_
    by_cases huser : r.userId = userId
    · have hmem : r.keyId ∈ t.ids userId :=
        List.mem_map.mpr ⟨r, List.mem_filter.mpr ⟨hr, decide_eq_true huser⟩, rfl⟩
      simp [huser, h _ hmem]
    · simp [huser]
  rw [hwindow, Table.ids]

theorem count_window {t : Table κ} {spkId : ℤ} (hpos : 0 < spkId)
    (h : ∀ k ∈ t.ids userId, InWindow spkId k) :
    t.countCurrent userId spkId = (t.ids userId).length := by
  rw [Table.countCurrent, if_neg (not_le.mpr hpos), ← ids_window h, List.length_map]

end Inserts

theorem foldl_insertCurve (ks : List (ℤ × CurveKey)) (userId : ℤ) (n : ℕ) (db : Db) :
    (ks.map fun k => Stmt.insertCurve userId k.1 k.2 n).foldl Stmt.exec db =
      { db with curve := db.curve.insertAll userId n ks } := by
  induction ks generalizing db with
  | nil => rfl
  | cons k ks ih => exact ih _

theorem foldl_insertPq (ks : List (ℤ × PqKey)) (userId : ℤ) (n : ℕ) (db : Db) :
    (ks.map fun k => Stmt.insertPq userId k.1 k.2 n).foldl Stmt.exec db =
      { db with pq := db.pq.insertAll userId n ks } := by
  induction ks generalizing db with
  | nil => rfl
  | cons k ks ih => exact ih _

/-- What an upload leaves in the tables. -/
theorem Upload.exec_eq (u : Upload) (userId : ℤ) (n : ℕ) (db : Db) :
    u.exec userId n db =
      { bundles := Function.update db.bundles userId (some (u.bundleRow n))
        curve := (db.curve.deleteUser userId).insertAll userId n u.curveItems
        pq := (db.pq.deleteUser userId).insertAll userId n u.pqItems } := by
  rw [Upload.exec, Upload.statements, List.foldl_cons, List.foldl_cons, List.foldl_append,
    foldl_insertCurve, foldl_insertPq]
  rfl

/-- Items with positive ids that `int` can hold are inserted as they are. -/
theorem curveItems_eq {u : Upload} (hid : ∀ k ∈ u.curveOtks, 0 < k.1 ∧ jsonInt k.1 = k.1)
    (hkey : ∀ k ∈ u.curveOtks, k.2.publicKey ≠ [] ∧ k.2.signature ≠ []) :
    u.curveItems = u.curveOtks := by
  have hmap : (u.curveOtks.map fun k => (jsonInt k.1, k.2)) = u.curveOtks := by
    refine (List.map_congr_left fun k hk => ?_).trans (List.map_id _)
    rw [(hid k hk).2]
    rfl
  rw [Upload.curveItems, hmap, List.filter_eq_self]
  intro k hk
  exact decide_eq_true ⟨(hid k hk).1, hkey k hk⟩

theorem pqItems_eq {u : Upload} (hid : ∀ k ∈ u.pqOtks, 0 < k.1 ∧ jsonInt k.1 = k.1)
    (hkey : ∀ k ∈ u.pqOtks, kemAllowed k.2.kemAlg ∧ k.2.publicKey ≠ [] ∧ k.2.signature ≠ []) :
    u.pqItems = u.pqOtks := by
  have hmap : (u.pqOtks.map fun k => (jsonInt k.1, k.2)) = u.pqOtks := by
    refine (List.map_congr_left fun k hk => ?_).trans (List.map_id _)
    rw [(hid k hk).2]
    rfl
  rw [Upload.pqItems, hmap, List.filter_eq_self]
  intro k hk
  exact decide_eq_true ⟨(hid k hk).1, hkey k hk⟩

/-! ### The ids and lengths of a new bundle -/

section Bundle

variable {P : Prims}

theorem selectKem_mem {preferred : Option String} {alg : String}
    (h : selectKem P preferred = .ok alg) : alg ∈ allowedKems := by
  simp only [selectKem] at h
  split at h
  next p hp =>
    obtain rfl := Except.ok.inj h
    exact (of_decide_eq_true (Option.filter_eq_some_iff.mp hp).2).2.1
  · split at h
    · obtain rfl := Except.ok.inj h
      simp [allowedKems, defaultKem]
    · split at h
      next name hname =>
        obtain rfl := Except.ok.inj h
        exact List.mem_of_find?_eq_some hname
      · cases h

theorem length_signPrekey (hL : P.Lengths) {idSk : Seed} {kind : String} {keyId : ℤ} {alg : Json}
    {pk sig : Bytes} (h : signPrekey P idSk kind keyId alg pk = .ok sig) : sig.length = 64 := by
  unfold signPrekey at h
  rw [if_neg (not_not.mpr idSk.2)] at h
  obtain ⟨msg, -, h⟩ := bind_eq_ok_iff.mp h
  rw [← Except.ok.inj h]
  exact hL.signature idSk msg

/-- The texts of a bundle fit into the buffers of the server. -/
structure Sized (b : BundleKeys) : Prop where
  identityPk : b.identityPk.length = 32
  alg : b.alg ∈ allowedKems
  curve : ∀ k ∈ b.curve :: b.curveOtks, k.pk.length = 32 ∧ k.sig.length = 64
  pq : ∀ k ∈ b.pq :: b.pqOtks, (0 < k.pk.length ∧ k.pk.length ≤ 1568) ∧ k.sig.length = 64

/-- Where the ids of a bundle start and how they go on. -/
structure CountsFrom (base n : ℕ) (b : BundleKeys) : Prop where
  curve : b.curve.keyId = base
  pq : b.pq.keyId = base
  curveOtks : b.curveOtks.map Otk.keyId = (List.range n).map fun i : ℕ => (base + i + 1 : ℤ)
  pqOtks : b.pqOtks.map Otk.keyId = (List.range n).map fun i : ℕ => (base + i + 1 : ℤ)

theorem curveOtk_sized (hL : P.Lengths) {idSk : Seed} {base : ℕ} {r : BundleRand} {i : ℕ} {k : Otk}
    (h : curveOtk P idSk base r i = .ok k) :
    k.keyId = base + i + 1 ∧ k.pk.length = 32 ∧ k.sig.length = 64 := by
  obtain ⟨sig, hs, h⟩ := bind_eq_ok_iff.mp h
  cases h
  exact ⟨rfl, hL.x25519 _, length_signPrekey hL hs⟩

theorem pqOtk_sized (hL : P.Lengths) {idSk : Seed} {alg : String} (halg : alg ∈ allowedKems)
    {base : ℕ} {r : BundleRand} {i : ℕ} {k : Otk} (h : pqOtk P idSk alg base r i = .ok k) :
    k.keyId = base + i + 1 ∧ (0 < k.pk.length ∧ k.pk.length ≤ 1568) ∧ k.sig.length = 64 := by
  obtain ⟨⟨pk, sk⟩, hk, h⟩ := bind_eq_ok_iff.mp h
  obtain ⟨sig, hs, h⟩ := bind_eq_ok_iff.mp h
  cases h
  exact ⟨rfl, hL.kem halg (oqsCall_eq_ok hk).2, length_signPrekey hL hs⟩

theorem map_keyId_of_forall₂ {base n : ℕ} {ks : List Otk} {C : Otk → Prop}
    (h : List.Forall₂ (fun (i : ℕ) (k : Otk) => k.keyId = base + i + 1 ∧ C k) (List.range n) ks) :
    ks.map Otk.keyId = (List.range n).map fun i : ℕ => (base + i + 1 : ℤ) := by
  generalize List.range n = is at h
  induction h with
  | nil => rfl
  | cons hk _ ih => rw [List.map_cons, List.map_cons, hk.1, ih]

/-- The ids and the lengths of the keys that `generate_local_bundle` makes. -/
theorem bundleKeys_sized (hL : P.Lengths) {idSk : Seed} {kemAlg : Option String} {n : ℕ}
    {r : BundleRand} {b : BundleKeys}
    (h : bundleKeys P (P.ed25519Public idSk) idSk kemAlg n r = .ok b) :
    Sized b ∧ CountsFrom (newKeyId r.millis) n b := by
  unfold bundleKeys at h
  obtain ⟨alg, halg, h⟩ := bind_eq_ok_iff.mp h
  obtain ⟨⟨pqPk, pqSk⟩, hpq, h⟩ := bind_eq_ok_iff.mp h
  obtain ⟨curveSig, hcs, h⟩ := bind_eq_ok_iff.mp h
  obtain ⟨pqSig, hps, h⟩ := bind_eq_ok_iff.mp h
  obtain ⟨cs, hc, h⟩ := bind_eq_ok_iff.mp h
  obtain ⟨qs, hq, h⟩ := bind_eq_ok_iff.mp h
  cases h
  have halg := selectKem_mem halg
  have hc := (mapM_eq_ok hc).imp fun i k hk => curveOtk_sized hL hk
  have hq := (mapM_eq_ok hq).imp fun i k hk => pqOtk_sized hL halg hk
  refine ⟨⟨hL.ed25519 _, halg, ?_, ?_⟩,
    ⟨rfl, rfl, map_keyId_of_forall₂ hc, map_keyId_of_forall₂ hq⟩⟩
  · rintro k (_ | ⟨_, hk⟩)
    · exact ⟨hL.x25519 _, length_signPrekey hL hcs⟩
    · obtain ⟨i, -, -, hlen⟩ := forall₂_mem_right hc k hk
      exact hlen
  · rintro k (_ | ⟨_, hk⟩)
    · exact ⟨hL.kem halg (oqsCall_eq_ok hpq).2, length_signPrekey hL hps⟩
    · obtain ⟨i, -, -, hlen⟩ := forall₂_mem_right hq k hk
      exact hlen

end Bundle

/-! ### Served bundles -/

section Served

variable {P : Prims} {b : BundleKeys}

theorem strncpy_b64e {raw : Bytes} {size : ℕ} (h : 4 * raw.length + 2 < 3 * size) :
    strncpy size (encodeUtf8 (b64e raw)) = encodeUtf8 (b64e raw) := by
  have hlen := length_b64e raw
  exact List.take_of_length_le (by omega)

theorem strncpy_kem {alg : String} (h : alg ∈ allowedKems) :
    strncpy 32 (encodeUtf8 alg) = encodeUtf8 alg := by
  have hall : ∀ alg ∈ allowedKems, (encodeUtf8 alg).length ≤ 31 := by decide +kernel
  exact List.take_of_length_le (hall alg h)

theorem b64e_ne_nil {raw : Bytes} (h : 0 < raw.length) : encodeUtf8 (b64e raw) ≠ [] := by
  refine encodeUtf8_ne_nil fun he => ?_
  rw [b64e_eq_empty.mp he] at h
  cases h

/-- The one-time keys of a bundle are inserted as they are. -/
theorem items_uploadOf (hs : Sized b)
    (hc : ∀ k ∈ b.curveOtks, 0 < k.keyId ∧ jsonInt k.keyId = k.keyId)
    (hq : ∀ k ∈ b.pqOtks, 0 < k.keyId ∧ jsonInt k.keyId = k.keyId) :
    (uploadOf b).curveItems = (uploadOf b).curveOtks ∧
      (uploadOf b).pqItems = (uploadOf b).pqOtks := by
  constructor
  · refine curveItems_eq ?_ ?_
    · rintro _ hk
      obtain ⟨x, hx, rfl⟩ := List.mem_map.mp hk
      exact hc x hx
    · rintro _ hk
      obtain ⟨x, hx, rfl⟩ := List.mem_map.mp hk
      obtain ⟨hpk, hsig⟩ := hs.curve x (List.mem_cons_of_mem _ hx)
      exact ⟨b64e_ne_nil (by omega), b64e_ne_nil (by omega)⟩
  · refine pqItems_eq ?_ ?_
    · rintro _ hk
      obtain ⟨x, hx, rfl⟩ := List.mem_map.mp hk
      exact hq x hx
    · rintro _ hk
      obtain ⟨x, hx, rfl⟩ := List.mem_map.mp hk
      obtain ⟨hpk, hsig⟩ := hs.pq x (List.mem_cons_of_mem _ hx)
      refine ⟨?_, b64e_ne_nil hpk.1, b64e_ne_nil (by omega)⟩
      exact List.contains_iff_mem.mpr (List.mem_map_of_mem hs.alg)

/-- A record that comes from an upload is answered with a bundle of its keys. -/
theorem FromUpload.servedFields {out : PqxdhBundleRecord} (hs : Sized b)
    (hspk : jsonInt b.curve.keyId = b.curve.keyId ∧ jsonInt b.pq.keyId = b.pq.keyId)
    (hitems : (uploadOf b).curveItems = (uploadOf b).curveOtks ∧
      (uploadOf b).pqItems = (uploadOf b).pqOtks)
    (h : FromUpload (uploadOf b) out) (targetUid version : ℤ) :
    ∃ c q, (∀ k ∈ c, k ∈ b.curveOtks) ∧ (∀ k ∈ q, k ∈ b.pqOtks) ∧
      ServedFields b c q (out.response targetUid version) := by
  obtain ⟨c, hc, hcid, hcpk, hcsig⟩ : ∃ c : Option Otk, (∀ k ∈ c, k ∈ b.curveOtks) ∧
      out.curveOtkId = servedId c ∧ out.curveOtk = encodeUtf8 (b64e (servedKey c)) ∧
        out.curveOtkSig = encodeUtf8 (b64e (servedSig c)) := by
    rcases h.curve with ⟨hid, hpk, hsig⟩ | ⟨k, hk, hid, hpk, hsig⟩
    · exact ⟨none, by simp, hid, hpk, hsig⟩
    · rw [hitems.1] at hk
      obtain ⟨x, hx, rfl⟩ := List.mem_map.mp hk
      obtain ⟨hlen, hlen'⟩ := hs.curve x (List.mem_cons_of_mem _ hx)
      rw [strncpy_b64e (by omega)] at hpk hsig
      exact ⟨some x, by simpa using hx, hid, hpk, hsig⟩
  obtain ⟨q, hq, hqid, hqalg, hqpk, hqsig⟩ : ∃ q : Option Otk, (∀ k ∈ q, k ∈ b.pqOtks) ∧
      out.pqOtkId = servedId q ∧ out.pqOtkAlg = encodeUtf8 (if q.isSome then b.alg else "") ∧
        out.pqOtk = encodeUtf8 (b64e (servedKey q)) ∧
        out.pqOtkSig = encodeUtf8 (b64e (servedSig q)) := by
    rcases h.pq with ⟨hid, halg, hpk, hsig⟩ | ⟨k, hk, hid, halg, hpk, hsig⟩
    · exact ⟨none, by simp, hid, halg, hpk, hsig⟩
    · rw [hitems.2] at hk
      obtain ⟨x, hx, rfl⟩ := List.mem_map.mp hk
      obtain ⟨⟨-, hlen⟩, hlen'⟩ := hs.pq x (List.mem_cons_of_mem _ hx)
      rw [strncpy_b64e (by omega)] at hpk hsig
      rw [strncpy_kem hs.alg] at halg
      exact ⟨some x, by simpa using hx, hid, halg, hpk, hsig⟩
  obtain ⟨hcurve, hcurveSig⟩ := hs.curve b.curve (List.mem_cons_self ..)
  obtain ⟨⟨-, hpq⟩, hpqSig⟩ := hs.pq b.pq (List.mem_cons_self ..)
  have hid := hs.identityPk
  have hidentity := h.identityPk
  obtain ⟨hcid', hcpk', hcsig'⟩ := h.curveSigned
  obtain ⟨hqid', hqalg', hqpk', hqsig'⟩ := h.pqSigned
  simp only [uploadOf] at hidentity hcid' hcpk' hcsig' hqid' hqalg' hqpk' hqsig'
  rw [strncpy_b64e (by omega)] at hidentity hcpk' hcsig' hqpk' hqsig'
  rw [hspk.1] at hcid'
  rw [hspk.2] at hqid'
  rw [strncpy_kem hs.alg] at hqalg'
  refine ⟨c, q, hc, hq, ?_⟩
  constructor <;>
    simp [PqxdhBundleRecord.response, hidentity, hcid', hcpk', hcsig', hqid', hqalg', hqpk', hqsig',
      hcid, hcpk, hcsig, hqid, hqalg, hqpk, hqsig]

end Served

/-! ### What the ids have to survive -/

/-- The ids of the one-time keys of an upload. -/
def Upload.otkIds (u : Upload) : List ℤ := u.curveOtks.map Prod.fst ++ u.pqOtks.map Prod.fst

/-- The prekey ids of an upload on their way through the server. -/
structure PrekeyIdsOk (P : Prims) (u : Upload) : Prop where
  /-- The checks of the upload. -/
  accepted : u.valid = true
  /-- `json_int` changes no id. -/
  parsed : ∀ k ∈ u.otkIds, 0 < k ∧ jsonInt k = k
  /-- The rows of the user are the one-time keys of the upload. -/
  stored : ∀ db userId n,
    (u.exec userId n db).curve.ids userId = u.curveOtks.map Prod.fst ∧
      (u.exec userId n db).pq.ids userId = u.pqOtks.map Prod.fst
  /-- The end of the serving window is computed without overflow. -/
  noOverflow : addInt (jsonInt u.curveSpkId) 1024 = u.curveSpkId + 1024 ∧
    addInt (jsonInt u.pqSpkId) 1024 = u.pqSpkId + 1024
  /-- Every one-time key is in the window, and counted. -/
  inWindow : (∀ k ∈ u.curveOtks, InWindow (jsonInt u.curveSpkId) k.1) ∧
    ∀ k ∈ u.pqOtks, InWindow (jsonInt u.pqSpkId) k.1
  counted : ∀ db userId n,
    (u.exec userId n db).curve.countCurrent userId (jsonInt u.curveSpkId) = u.curveOtks.length ∧
      (u.exec userId n db).pq.countCurrent userId (jsonInt u.pqSpkId) = u.pqOtks.length
  /-- In a calm run every bundle that is served of the upload verifies. -/
  verified : ∀ es σ userId, Throughout Calm init es → run init es = some σ →
    (∀ k v, Uploaded σ k userId v → v = u) → ∀ n out version,
      σ.procs n = some (.got userId (some out)) →
        verifyBundle P (out.response userId version) = .ok ()

section Main

variable {P : Prims} {b : BundleKeys} {base n : ℕ}

theorem mem_otkIds (hids : CountsFrom base n b) {k : ℤ} (hk : k ∈ (uploadOf b).otkIds) :
    ∃ i < n, k = base + i + 1 := by
  have hcurve : (uploadOf b).curveOtks.map Prod.fst = b.curveOtks.map Otk.keyId := by
    simp [uploadOf, Function.comp_def]
  have hpq : (uploadOf b).pqOtks.map Prod.fst = b.pqOtks.map Otk.keyId := by
    simp [uploadOf, Function.comp_def]
  rw [Upload.otkIds, hcurve, hpq, hids.curveOtks, hids.pqOtks, List.mem_append, or_self] at hk
  obtain ⟨i, hi, rfl⟩ := List.mem_map.mp hk
  exact ⟨i, List.mem_range.mp hi, rfl⟩

theorem jsonInt_of_lt {k : ℤ} (h : 0 < k) (h' : k < 2 ^ 31) : jsonInt k = k := by
  unfold jsonInt
  omega

/-- Adding `1024` to a key id overflows near the end of `int`. -/
theorem addInt_eq_iff {k : ℤ} (h : 0 < k) (h' : k < 2 ^ 31) :
    addInt k 1024 = k + 1024 ↔ k + 1024 < 2 ^ 31 := by
  rw [addInt, Int.bmod_def]
  split <;> omega

/-- The ids of a bundle whose window does not overflow are fine. -/
theorem prekeyIds_ok (hb : b.Genuine P) (hs : Sized b) (hids : CountsFrom base n b)
    (hn : n ≤ 1024) (hpos : 0 < base) (hlt : base + 1024 < 2 ^ 31) :
    PrekeyIdsOk P (uploadOf b) := by
  have hotk : ∀ k ∈ (uploadOf b).otkIds, 0 < k ∧ jsonInt k = k ∧ InWindow base k := by
    intro k hk
    obtain ⟨i, hi, rfl⟩ := mem_otkIds hids hk
    refine ⟨by omega, jsonInt_of_lt (by omega) (by omega), by omega, ?_⟩
    rw [(addInt_eq_iff (by omega) (by omega)).mpr (by omega)]
    omega
  have hcurveId : ∀ k ∈ b.curveOtks, k.keyId ∈ (uploadOf b).otkIds := by
    intro k hk
    refine List.mem_append_left _ (List.mem_map.mpr ⟨_, List.mem_map_of_mem hk, rfl⟩)
  have hpqId : ∀ k ∈ b.pqOtks, k.keyId ∈ (uploadOf b).otkIds := by
    intro k hk
    refine List.mem_append_right _ (List.mem_map.mpr ⟨_, List.mem_map_of_mem hk, rfl⟩)
  have hspk : jsonInt b.curve.keyId = b.curve.keyId ∧ jsonInt b.pq.keyId = b.pq.keyId := by
    rw [hids.curve, hids.pq, jsonInt_of_lt (by omega) (by omega)]
    exact ⟨rfl, rfl⟩
  have hspkCurve : jsonInt (uploadOf b).curveSpkId = base := hspk.1.trans hids.curve
  have hspkPq : jsonInt (uploadOf b).pqSpkId = base := hspk.2.trans hids.pq
  have hitems := items_uploadOf hs
    (fun k hk => ⟨(hotk _ (hcurveId k hk)).1, (hotk _ (hcurveId k hk)).2.1⟩)
    fun k hk => ⟨(hotk _ (hpqId k hk)).1, (hotk _ (hpqId k hk)).2.1⟩
  have hnodup : ((List.range n).map fun i : ℕ => (base + i + 1 : ℤ)).Nodup := by
    refine List.Nodup.map (fun i j hij => ?_) List.nodup_range
    have hij : (base + i + 1 : ℤ) = base + j + 1 := hij
    omega
  have hmapCurve : (uploadOf b).curveOtks.map Prod.fst = b.curveOtks.map Otk.keyId := by
    simp [uploadOf, Function.comp_def]
  have hmapPq : (uploadOf b).pqOtks.map Prod.fst = b.pqOtks.map Otk.keyId := by
    simp [uploadOf, Function.comp_def]
  have hstored : ∀ db userId m,
      ((uploadOf b).exec userId m db).curve.ids userId = (uploadOf b).curveOtks.map Prod.fst ∧
        ((uploadOf b).exec userId m db).pq.ids userId = (uploadOf b).pqOtks.map Prod.fst := by
    intro db userId m
    rw [Upload.exec_eq, hitems.1, hitems.2]
    constructor
    · rw [ids_insertAll] <;> rw [ids_deleteUser, List.nil_append]
      rw [hmapCurve, hids.curveOtks]
      exact hnodup
    · rw [ids_insertAll] <;> rw [ids_deleteUser, List.nil_append]
      rw [hmapPq, hids.pqOtks]
      exact hnodup
  refine ⟨?_, fun k hk => ⟨(hotk k hk).1, (hotk k hk).2.1⟩, hstored, ?_, ⟨?_, ?_⟩, ?_, ?_⟩
  · obtain ⟨hcurve, hcurveSig⟩ := hs.curve b.curve (List.mem_cons_self ..)
    obtain ⟨hpq, hpqSig⟩ := hs.pq b.pq (List.mem_cons_self ..)
    have hid := hs.identityPk
    refine decide_eq_true ⟨b64e_ne_nil (by omega), by omega, b64e_ne_nil (by omega),
      b64e_ne_nil (by omega), by omega, ?_, b64e_ne_nil (by omega), b64e_ne_nil (by omega)⟩
    exact List.contains_iff_mem.mpr (List.mem_map_of_mem hs.alg)
  · rw [hspkCurve, hspkPq, (addInt_eq_iff (by omega) (by omega)).mpr (by omega)]
    exact ⟨congrArg (· + 1024) hids.curve.symm, congrArg (· + 1024) hids.pq.symm⟩
  · intro k hk
    rw [hspkCurve]
    exact (hotk k.1 (List.mem_append_left _ (List.mem_map_of_mem hk))).2.2
  · intro k hk
    rw [hspkPq]
    exact (hotk k.1 (List.mem_append_right _ (List.mem_map_of_mem hk))).2.2
  · intro db userId m
    obtain ⟨hc, hq⟩ := hstored db userId m
    rw [hspkCurve, hspkPq]
    constructor
    · rw [count_window (by omega), hc, List.length_map]
      intro k hk
      rw [hc] at hk
      exact (hotk k (List.mem_append_left _ hk)).2.2
    · rw [count_window (by omega), hq, List.length_map]
      intro k hk
      rw [hq] at hk
      exact (hotk k (List.mem_append_right _ hk)).2.2
  · intro es σ userId hcalm hrun honly m out version hm
    have hinv := run_induction (fun _ _ _ h hc hs => GenInv.step h hc hs) genInv_init hcalm hrun
    obtain ⟨v, hv, hfrom⟩ := hinv.answer m userId out hm
    rw [honly _ v hv] at hfrom
    obtain ⟨c, q, hc, hq, hfields⟩ := hfrom.servedFields hs hspk hitems userId version
    exact verifyBundle_served hb hfields hc hq

/-- **Prekey ids and the clock.** The ids of a bundle with twelve one-time keys survive the server
and are served and verified unless the lower 31 bits of the clock are `0` or within `1024` of their
end. -/
theorem prekeyIds_ok_iff (hP : P.Correct) (hL : P.Lengths) {idSk : Seed} {kemAlg : Option String}
    {r : BundleRand} {upload store : Json}
    (h : generateLocalBundle P (P.ed25519Public idSk) idSk kemAlg 12 r = .ok (upload, store)) :
    PrekeyIdsOk P (Upload.ofJson upload) ↔
      0 < newKeyId r.millis ∧ newKeyId r.millis + 1024 < 2 ^ 31 := by
  obtain ⟨b, hb, h⟩ := bind_eq_ok_iff.mp h
  cases h
  obtain ⟨hsized, hids⟩ := bundleKeys_sized hL hb
  rw [ofJson_upload]
  constructor
  · intro hok
    have hlt : newKeyId r.millis < 2 ^ 31 := Nat.mod_lt _ (by norm_num)
    have hvalid := of_decide_eq_true hok.accepted
    have hpos : 0 < jsonInt b.curve.keyId := hvalid.2.1
    rw [hids.curve] at hpos
    have hpos : 0 < newKeyId r.millis := by
      by_contra h0
      have h0 : newKeyId r.millis = 0 := by omega
      rw [h0] at hpos
      revert hpos
      decide
    have hadd : addInt (jsonInt b.curve.keyId) 1024 = b.curve.keyId + 1024 := hok.noOverflow.1
    rw [hids.curve, jsonInt_of_lt (by omega) (by omega),
      addInt_eq_iff (by omega) (by omega)] at hadd
    exact ⟨hpos, by omega⟩
  · rintro ⟨hpos, hlt⟩
    exact prekeyIds_ok (bundleKeys_genuine hP hb).1 hsized hids (by norm_num) hpos hlt

/-- The model of one-time use with signatures of 64 octets. -/
def sizedPrims : Prims where
  __ := padPrims
  ed25519Sign sk msg := mixDigest (sk ++ msg) ++ mixDigest msg
  ed25519Verify pk sig msg := sig = mixDigest (pk ++ msg) ++ mixDigest msg

theorem sizedPrims_correct : sizedPrims.Correct where
  exchange_comm := by
    simp only [sizedPrims]
    exact padPrims_oneKey.exchange_comm
  public_ne_nil := by
    simp only [sizedPrims]
    exact padPrims_oneKey.public_ne_nil
  decrypt_encrypt := by
    simp only [sizedPrims]
    exact padPrims_oneKey.decrypt_encrypt
  decap_encap := by
    simp only [sizedPrims]
    exact padPrims_oneKey.decap_encap
  keypair_ne_nil := by
    simp only [sizedPrims]
    exact padPrims_oneKey.keypair_ne_nil
  verify_sign sk msg := decide_eq_true rfl

theorem sizedPrims_lengths : sizedPrims.Lengths where
  x25519 sk := sk.2
  ed25519 sk := sk.2
  signature sk msg := by
    show (mixDigest (sk.1 ++ msg) ++ mixDigest msg).length = 64
    rw [List.length_append, length_mixDigest, length_mixDigest]
  kem {alg seed pk sk} _ h := by
    obtain ⟨rfl, -⟩ := Prod.mk.inj (Option.some.inj h)
    have h32 := seed.2
    omega

/-- A bundle of the model at a given clock reading. -/
theorem generate_sized (millis : ℕ) : ∃ b,
    bundleKeys sizedPrims (sizedPrims.ed25519Public (testSeed 8)) (testSeed 8) none 12
      (testBundleAt millis) = .ok b :=
  ⟨_, rfl⟩

theorem prekeyIds_ok_iff_one : ∃ upload store,
    generateLocalBundle sizedPrims (sizedPrims.ed25519Public (testSeed 8)) (testSeed 8) none 12
      (testBundleAt 1) = .ok (upload, store) ∧ PrekeyIdsOk sizedPrims (Upload.ofJson upload) := by
  obtain ⟨b, hb⟩ := generate_sized 1
  have hgen : generateLocalBundle sizedPrims (sizedPrims.ed25519Public (testSeed 8)) (testSeed 8)
      none 12 (testBundleAt 1) = .ok (b.upload, b.localStore) := by
    rw [generateLocalBundle, hb]
    rfl
  exact ⟨_, _, hgen, (prekeyIds_ok_iff sizedPrims_correct sizedPrims_lengths hgen).mpr (by decide)⟩

/-- One millisecond before a wrap of the clock, every one-time key has an id beyond `int`, and the
window overflows. -/
theorem prekeyIds_at_wrap : ∃ upload store,
    generateLocalBundle sizedPrims (sizedPrims.ed25519Public (testSeed 8)) (testSeed 8) none 12
      (testBundleAt (2 ^ 31 * 835 - 1)) = .ok (upload, store) ∧
    ¬ PrekeyIdsOk sizedPrims (Upload.ofJson upload) := by
  obtain ⟨b, hb⟩ := generate_sized (2 ^ 31 * 835 - 1)
  refine ⟨b.upload, b.localStore, ?_, fun hok => ?_⟩
  · rw [generateLocalBundle, hb]
    rfl
  · have hid := (bundleKeys_sized sizedPrims_lengths hb).2.curve
    have hadd := hok.noOverflow.1
    rw [ofJson_upload] at hadd
    have hspk : (uploadOf b).curveSpkId = 2 ^ 31 - 1 := hid.trans (by decide)
    rw [hspk] at hadd
    revert hadd
    decide

end Main

end PrekeyStore

end SecChat
