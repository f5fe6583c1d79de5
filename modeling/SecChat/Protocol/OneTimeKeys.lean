import SecChat.Protocol.PqxdhAgreement
import SecChat.Protocol.KeySchedule
import SecChat.Protocol.TermModel
import SecChat.Python.MethodRules

/-!
# One-time prekeys are used once

`pqxdh_respond` takes the one-time keys that a wire names out of the store before it checks
anything, and where one is gone it goes on without it.

* `Consumes`: a store without the keys that a wire names;
* `pqxdhRespond_consumes`: what a wire that opens does to the store, whatever the store is;
* `Prims.OneKey`: what the rest needs of AES-GCM, X25519 and the KEM;
* `UsableStore`, `PrekeyStore`: the keys of a store of `generate_local_bundle`, used or not;
* `not_opened_twice`: a wire that used up a one-time key does not open again;
* `padPrims`: the laws are consistent.
-/

namespace SecChat

open Py DoubleRatchet

/-! ### What is taken out -/

theorem field_eq_getItem (j : Json) (key : String) :
    field j key = ((j.getItem key).toOption).getD .null := by
  cases j with
  | obj kvs =>
    cases h : kvs.lookup key with
    | none => simp [field, Json.getD, Json.getItem, h, Except.toOption]
    | some v => simp [field, Json.getD, Json.getItem, h, Except.toOption]
  | _ => rfl

theorem oneTime_congr {store store' : Json} {table : String}
    (h : store'.getItem table = store.getItem table) (key : String) :
    oneTime store' table key = oneTime store table key := by
  rw [oneTime, oneTime, field_eq_getItem, field_eq_getItem, h]

/-- One table of the store loses its key `kid`, if that is a key id. -/
structure Loses (table : String) (kid : ℤ) (store store' : Json) : Prop where
  others : ∀ key, key ≠ table → store'.getItem key = store.getItem key
  entries : ∀ key, oneTime store' table key =
    if 0 < kid ∧ key = toString kid then none else oneTime store table key

theorem Loses.refl_of_not_pos {table : String} {kid : ℤ} {store : Json} (h : ¬ 0 < kid) :
    Loses table kid store store where
  others _ _ := rfl
  entries key := by rw [if_neg fun hk => h hk.1]

theorem lookup_map_update (fields : List (String × Json)) (table key : String) (rest : Json) :
    (fields.map fun f => if f.1 = table then (f.1, rest) else f).lookup key =
      if key = table then (fields.lookup key).map fun _ => rest else fields.lookup key := by
  induction fields with
  | nil => simp
  | cons f fields ih =>
    obtain ⟨k, v⟩ := f
    by_cases hk : k = table
    · subst hk
      rw [List.map_cons, if_pos rfl, List.lookup_cons, List.lookup_cons, ih]
      by_cases h : key = k
      · simp [h]
      · simp [beq_eq_false_iff_ne.mpr h, h]
    · rw [List.map_cons, if_neg hk, List.lookup_cons, List.lookup_cons, ih]
      by_cases h : key = k
      · simp [h, hk]
      · simp [beq_eq_false_iff_ne.mpr h]

theorem oneTime_of_getD {fields kvs : List (String × Json)} {table : String}
    (h : (fields.lookup table).getD (.obj []) = .obj kvs) (key : String) :
    oneTime (.obj fields) table key = kvs.lookup key := by
  cases ht : fields.lookup table with
  | none =>
    rw [ht] at h
    obtain rfl := Json.obj.inj h
    simp [oneTime, field, Json.getD, ht, Except.toOption]
  | some v =>
    rw [ht] at h
    obtain rfl : v = .obj kvs := h
    simp [oneTime, field, Json.getD, ht, Except.toOption]

/-- A pop that returned: what was there, and what is left. -/
theorem popOneTime_ok {table : String} {kid : ℤ} {store store' hit : Json} (hpos : 0 < kid)
    (h : popOneTime table kid store = (.ok hit, store')) :
    hit = (oneTime store table (toString kid)).getD .null ∧ Loses table kid store store' := by
  unfold popOneTime at h
  rw [Method.get_bind] at h
  cases store with
  | obj fields =>
    have hget : (Json.obj fields).getD table (.obj []) =
        .ok ((fields.lookup table).getD (.obj [])) := rfl
    rw [hget, Method.ofExcept_ok_bind] at h
    generalize hkvs : (fields.lookup table).getD (.obj []) = entries at h
    cases entries with
    | obj kvs =>
      obtain ⟨hhit, rfl⟩ := Prod.mk.inj h
      obtain rfl := Except.ok.inj hhit
      have hone := oneTime_of_getD hkvs
      refine ⟨by rw [hone], fun key hne => ?_, fun key => ?_⟩
      · simp only [Json.getItem, lookup_map_update, if_neg hne]
      · have hrest : ((fields.map fun f => if f.1 = table then
            (f.1, Json.obj (kvs.filter (·.1 ≠ toString kid))) else f).lookup table).getD (.obj []) =
            .obj (kvs.filter (·.1 ≠ toString kid)) := by
          rw [lookup_map_update, if_pos rfl]
          cases ht : fields.lookup table with
          | none =>
            rw [ht] at hkvs
            obtain rfl := Json.obj.inj hkvs
            rfl
          | some v => rfl
        rw [hone]
        refine (oneTime_of_getD hrest key).trans ?_
        rw [lookup_filter_ne]
        by_cases hk : key = toString kid
        · rw [if_pos hk, if_pos ⟨hpos, hk⟩]
        · rw [if_neg hk, if_neg fun hc => hk hc.2]
    | _ => cases h
  | _ => cases h

/-- The secret key in an entry of the store. -/
def entrySk (entry : Json) : Except Exn Bytes := do b64dJson (← entry.getItem "sk")

/-- The curve secret that an entry stands for, empty for none. -/
def curveSkOf (entry : Option Json) : Except Exn Bytes :=
  if (entry.getD .null).truthy then entrySk (entry.getD .null) else .ok []

/-- The PQ secret that an entry stands for, the signed prekey for none. -/
def pqSkOf (store : Json) (entry : Option Json) : Except Exn Bytes :=
  if (entry.getD .null).truthy then entrySk (entry.getD .null) else pqSignedSk store

/-- The entry that a wire names: an id that is not positive stands for none. -/
def named (store : Json) (table : String) (kid : ℤ) : Option Json :=
  if 0 < kid then oneTime store table (toString kid) else none

theorem takeCurveOtk_ok {kid : ℤ} {store store' : Json} {sk : Bytes}
    (h : takeCurveOtk kid store = (.ok sk, store')) :
    curveSkOf (named store "curve_one_time" kid) = .ok sk ∧
      Loses "curve_one_time" kid store store' := by
  unfold takeCurveOtk at h
  by_cases hpos : 0 < kid
  · rw [if_pos hpos] at h
    obtain ⟨hit, store₁, hpop, h⟩ := Method.bind_eq_ok h
    obtain ⟨rfl, hloses⟩ := popOneTime_ok hpos hpop
    rw [named, if_pos hpos, curveSkOf]
    split at h
    next htruthy =>
      rw [if_pos htruthy]
      obtain ⟨hsk, rfl⟩ := Prod.mk.inj h
      exact ⟨hsk, hloses⟩
    next htruthy =>
      rw [if_neg htruthy]
      obtain ⟨hsk, rfl⟩ := Prod.mk.inj h
      exact ⟨hsk, hloses⟩
  · rw [if_neg hpos] at h
    obtain ⟨hsk, rfl⟩ := Prod.mk.inj h
    rw [named, if_neg hpos]
    exact ⟨hsk, .refl_of_not_pos hpos⟩

theorem takePqSk_ok {kid : ℤ} {store store' : Json} {sk : Bytes}
    (h : takePqSk kid store = (.ok sk, store')) :
    pqSkOf store (named store "pq_one_time" kid) = .ok sk ∧
      Loses "pq_one_time" kid store store' := by
  unfold takePqSk at h
  by_cases hpos : 0 < kid
  · rw [if_pos hpos] at h
    obtain ⟨hit, store₁, hpop, h⟩ := Method.bind_eq_ok h
    obtain ⟨rfl, hloses⟩ := popOneTime_ok hpos hpop
    rw [named, if_pos hpos, pqSkOf]
    split at h
    next htruthy =>
      rw [if_pos htruthy]
      obtain ⟨hsk, rfl⟩ := Prod.mk.inj h
      exact ⟨hsk, hloses⟩
    next htruthy =>
      rw [if_neg htruthy]
      rw [Method.get_bind] at h
      obtain ⟨hsk, rfl⟩ := Prod.mk.inj h
      have hsigned : pqSignedSk store₁ = pqSignedSk store := by
        rw [pqSignedSk, pqSignedSk, hloses.others _ (by decide)]
      exact ⟨hsigned ▸ hsk, hloses⟩
  · rw [if_neg hpos, Method.get_bind] at h
    obtain ⟨hsk, rfl⟩ := Prod.mk.inj h
    rw [named, if_neg hpos]
    exact ⟨hsk, .refl_of_not_pos hpos⟩

/-- The store without the curve key `cid` and the PQ key `qid`; an id that is not positive names no
key. -/
structure Consumes (store store' : Json) (cid qid : ℤ) : Prop where
  others : ∀ key, key ≠ "curve_one_time" → key ≠ "pq_one_time" →
    store'.getItem key = store.getItem key
  curve : ∀ key, oneTime store' "curve_one_time" key =
    if 0 < cid ∧ key = toString cid then none else oneTime store "curve_one_time" key
  pq : ∀ key, oneTime store' "pq_one_time" key =
    if 0 < qid ∧ key = toString qid then none else oneTime store "pq_one_time" key

theorem Loses.consumes {store store₁ store' : Json} {cid qid : ℤ}
    (hcurve : Loses "curve_one_time" cid store store₁)
    (hpq : Loses "pq_one_time" qid store₁ store') : Consumes store store' cid qid where
  others key hc hq := (hpq.others key hq).trans (hcurve.others key hc)
  curve key := by rw [oneTime_congr (hpq.others _ (by decide)), hcurve.entries]
  pq key := by rw [hpq.entries, oneTime_congr (hcurve.others _ (by decide))]

/-! ### What opens a wire -/

/-- The key ids that a wire names. -/
structure Names (wire : String) (obj : Json) (cid qid : ℤ) : Prop where
  read : jsonUnb64 (dropTag prefixPqInit wire) = .ok obj
  curve : otkId obj "curve_otk_id" = .ok cid
  pq : otkId obj "pq_otk_id" = .ok qid

theorem Names.unique {wire : String} {obj obj' : Json} {cid cid' qid qid' : ℤ}
    (h : Names wire obj cid qid) (h' : Names wire obj' cid' qid') :
    obj = obj' ∧ cid = cid' ∧ qid = qid' := by
  obtain rfl := Except.ok.inj (h.read.symm.trans h'.read)
  exact ⟨rfl, Except.ok.inj (h.curve.symm.trans h'.curve), Except.ok.inj (h.pq.symm.trans h'.pq)⟩

variable (P : Prims)

/-- What the responder shares with the sender through its signed prekey. -/
def signedPart (obj : Json) (senderCurve curveSk : Bytes) : Except Exn Bytes := do
  dhParts (x25519Dh P curveSk senderCurve)
    (x25519Dh P curveSk (← b64dJson (← obj.getItem "eph_curve_pk"))) none

/-- What it shares through a curve one-time key, nothing without one. -/
def otkPart (obj : Json) (otkSk : Bytes) : Except Exn Bytes := do
  if otkSk ≠ [] then x25519Dh P otkSk (← b64dJson (← obj.getItem "eph_curve_pk")) else return []

/-- What it shares through a PQ key. -/
def kemPart (obj : Json) (pqSk : Bytes) : Except Exn Bytes := do
  kemDecapsulate P (← obj.getItem "pq_kem_alg") pqSk (← b64dJson (← obj.getItem "pq_ct"))

/-- The key that the text of the wire is opened with. -/
def openingKey (secret : Bytes) : Bytes :=
  (kdfCk P (hkdf P (hkdf P secret "SecChat-PQXDH") "SecChat-DR-init-left")).1

/-- The wire opens with these keys, which share `signed`, `otk` and `kem` with it. -/
structure OpensWith (obj : Json) (senderCurve curveSk otkSk pqSk signed otk kem : Bytes) :
    Prop where
  fromSigned : signedPart P obj senderCurve curveSk = .ok signed
  fromOtk : otkPart P obj otkSk = .ok otk
  fromKem : kemPart P obj pqSk = .ok kem
  opens : ∃ ct text, obj.getItem "ct" = .ok ct ∧
    aeadDecrypt P (openingKey P (signed ++ otk ++ kem)) ct (canonical (withoutCt obj)) = .ok text

/-- `b64d(local_store["curve_signed"]["sk"])`. -/
def curveSignedSk (store : Json) : Except Exn Bytes := do
  b64dJson (← (← store.getItem "curve_signed").getItem "sk")

/-- What a call of `pqxdh_respond` that returns has read and used. -/
structure Responded (expected : Option ℤ) (store obj : Json) (cid qid : ℤ)
    (senderCurve curveSk otkSk pqSk : Bytes) : Prop where
  sender : ∃ uid pk, respondCheck P obj expected = .ok (uid, pk, senderCurve)
  curveSigned : curveSignedSk store = .ok curveSk
  curve : curveSkOf (named store "curve_one_time" cid) = .ok otkSk
  pq : pqSkOf store (named store "pq_one_time" qid) = .ok pqSk
  opens : ∃ signed otk kem, OpensWith P obj senderCurve curveSk otkSk pqSk signed otk kem

variable {P}

theorem dhParts_eq_ok {first second : Except Exn Bytes} {third : Option (Except Exn Bytes)}
    {dh : Bytes} (h : dhParts first second third = .ok dh) :
    ∃ signed otk, dhParts first second none = .ok signed ∧
      third.getD (.ok []) = .ok otk ∧ dh = signed ++ otk := by
  unfold dhParts at h
  obtain ⟨a, ha, h⟩ := bind_eq_ok_iff.mp h
  obtain ⟨b, hb, h⟩ := bind_eq_ok_iff.mp h
  have hsigned : dhParts first second none = .ok (a ++ b) := by rw [dhParts, ha, hb]; rfl
  cases third with
  | none =>
    obtain rfl := Except.ok.inj h
    exact ⟨a ++ b, [], hsigned, rfl, (List.append_nil _).symm⟩
  | some third =>
    obtain ⟨c, hc, h⟩ := bind_eq_ok_iff.mp h
    obtain rfl := Except.ok.inj h
    exact ⟨a ++ b, c, hsigned, hc, rfl⟩

theorem respondFinish_opens {obj store alg : Json} {uid : ℤ}
    {pk senderCurve curveSk otkSk pqSk : Bytes} {r : RespondRand} {result : String × DoubleRatchet × String × ℤ}
    (halg : obj.getItem "pq_kem_alg" = .ok alg)
    (h : respondFinish P obj store uid pk senderCurve curveSk otkSk pqSk alg r = .ok result) :
    ∃ signed otk kem, OpensWith P obj senderCurve curveSk otkSk pqSk signed otk kem := by
  unfold respondFinish at h
  obtain ⟨rawEph, hrawEph, h⟩ := bind_eq_ok_iff.mp h
  obtain ⟨eph, heph, h⟩ := bind_eq_ok_iff.mp h
  obtain ⟨dh, hdh, h⟩ := bind_eq_ok_iff.mp h
  obtain ⟨rawCt, hrawCt, h⟩ := bind_eq_ok_iff.mp h
  obtain ⟨pqCt, hpqCt, h⟩ := bind_eq_ok_iff.mp h
  obtain ⟨kem, hkem, h⟩ := bind_eq_ok_iff.mp h
  obtain ⟨_, -, h⟩ := bind_eq_ok_iff.mp h
  obtain ⟨remote, -, h⟩ := bind_eq_ok_iff.mp h
  obtain ⟨sid, -, h⟩ := bind_eq_ok_iff.mp h
  obtain ⟨_, -, h⟩ := bind_eq_ok_iff.mp h
  obtain ⟨conv, -, h⟩ := bind_eq_ok_iff.mp h
  obtain ⟨_, -, h⟩ := bind_eq_ok_iff.mp h
  obtain ⟨my, -, h⟩ := bind_eq_ok_iff.mp h
  obtain ⟨version, -, h⟩ := bind_eq_ok_iff.mp h
  obtain ⟨ct, hct, h⟩ := bind_eq_ok_iff.mp h
  obtain ⟨text, hopen, -⟩ := bind_eq_ok_iff.mp h
  obtain ⟨signed, otk, hsigned, hotk, rfl⟩ := dhParts_eq_ok hdh
  refine ⟨signed, otk, kem, ?_, ?_, ?_, ct, text, hct, ?_⟩
  · rw [signedPart, hrawEph, ok_bind, heph]
    exact hsigned
  · rw [otkPart]
    by_cases hne : otkSk ≠ []
    · rw [if_pos hne] at hotk ⊢
      rw [hrawEph, ok_bind, heph]
      exact hotk
    · rw [if_neg hne] at hotk ⊢
      exact hotk
  · rw [kemPart, halg, ok_bind, hrawCt, ok_bind, hpqCt]
    exact hkem
  · exact hopen

/-- What a wire that opens has used, and what it leaves of the store. -/
theorem pqxdhRespond_consumes {wire : String} {expected : Option ℤ} {r : RespondRand}
    {store store' : Json} {result : String × DoubleRatchet × String × ℤ}
    (h : pqxdhRespond P wire expected r store = (.ok result, store')) :
    ∃ obj cid qid senderCurve curveSk otkSk pqSk, Names wire obj cid qid ∧
      Responded P expected store obj cid qid senderCurve curveSk otkSk pqSk ∧
      Consumes store store' cid qid := by
  unfold pqxdhRespond at h
  obtain ⟨obj, hobj, h⟩ := Method.ofExcept_bind_eq_ok h
  obtain ⟨⟨uid, pk, senderCurve⟩, hcheck, h⟩ := Method.ofExcept_bind_eq_ok h
  obtain ⟨cid, hcid, h⟩ := Method.ofExcept_bind_eq_ok h
  obtain ⟨qid, hqid, h⟩ := Method.ofExcept_bind_eq_ok h
  rw [Method.get_bind] at h
  obtain ⟨curveSk, hcurveSk, h⟩ := Method.ofExcept_bind_eq_ok h
  obtain ⟨otkSk, store₁, hotk, h⟩ := Method.bind_eq_ok h
  obtain ⟨hotkSk, hloses⟩ := takeCurveOtk_ok hotk
  obtain ⟨alg, halg, h⟩ := Method.ofExcept_bind_eq_ok h
  obtain ⟨pqSk, store₂, hpq, h⟩ := Method.bind_eq_ok h
  obtain ⟨hpqSk, hloses'⟩ := takePqSk_ok hpq
  rw [Method.get_bind, Method.ofExcept_run] at h
  obtain ⟨hfin, rfl⟩ := Prod.mk.inj h
  have hnamed : named store₁ "pq_one_time" qid = named store "pq_one_time" qid := by
    rw [named, named, oneTime_congr (hloses.others _ (by decide))]
  have hsigned : pqSignedSk store₁ = pqSignedSk store := by
    rw [pqSignedSk, pqSignedSk, hloses.others _ (by decide)]
  rw [pqSkOf, hnamed, hsigned] at hpqSk
  exact ⟨obj, cid, qid, senderCurve, curveSk, otkSk, pqSk, ⟨hobj, hcid, hqid⟩,
    ⟨⟨uid, pk, hcheck⟩, hcurveSk, hotkSk, hpqSk, respondFinish_opens halg hfin⟩,
    hloses.consumes hloses'⟩

/-! ### The same wire again -/

/-- A secret key that a KEM has made. -/
def IsKemSecret (P : Prims) (sk : Bytes) : Prop :=
  ∃ (alg : String) (seed : Seed) (pk : Bytes), P.kemKeypair alg seed = some (pk, sk)

/-- What is needed of AES-GCM, X25519 and the KEM besides the symbolic laws. -/
structure Prims.OneKey (P : Prims) : Prop extends P.Symbolic where
  /-- AES-GCM opens nothing but what it makes. -/
  decrypt_only : ∀ {key nonce ct aad data}, P.aesgcmDecrypt key nonce ct aad = some data →
    ct = P.aesgcmEncrypt key nonce data aad
  /-- X25519 shares 32 octets. -/
  exchange_ne_nil : ∀ {sk pk z}, P.x25519Exchange sk pk = some z → z ≠ []
  /-- Every KEM shares 32 octets. -/
  decap_length : ∀ {alg sk ct ss}, IsKemSecret P sk → P.kemDecap alg sk ct = some ss →
    ss.length = 32
  /-- A ciphertext gives different secret keys different shared secrets. -/
  decap_key : ∀ {alg sk sk' ct ss}, IsKemSecret P sk → IsKemSecret P sk' →
    P.kemDecap alg sk ct = some ss → P.kemDecap alg sk' ct = some ss → sk = sk'
  /-- Different seeds make different secret keys. -/
  keypair_seed : ∀ {alg : String} {seed seed' : Seed} {pk pk' sk : Bytes},
    P.kemKeypair alg seed = some (pk, sk) → P.kemKeypair alg seed' = some (pk', sk) → seed = seed'

/-- A token opens under one key only. -/
theorem aeadDecrypt_key (hP : P.OneKey) {key key' aad : Bytes} {token j j' : Json}
    (h : aeadDecrypt P key token aad = .ok j) (h' : aeadDecrypt P key' token aad = .ok j') :
    key = key' := by
  obtain ⟨raw, hraw, h⟩ := bind_eq_ok_iff.mp h
  obtain ⟨raw', hraw', h'⟩ := bind_eq_ok_iff.mp h'
  obtain rfl := Except.ok.inj (hraw.symm.trans hraw')
  split at h
  next plain hplain =>
    split at h'
    next plain' hplain' =>
      rw [hP.decrypt_only hplain'] at hplain
      exact (hP.opens_only hplain).1
    · cases h'
  · cases h

theorem openingKey_injective (hP : P.Symbolic) : Function.Injective (openingKey P) := by
  intro secret secret' h
  have hchain := (hP.hkdf_injective h).1
  have hroot := (hP.hkdf_injective hchain).1
  exact (hP.hkdf_injective hroot).1

section Opens

variable {obj : Json}
  {senderCurve curveSk otkSk otkSk' pqSk pqSk' signed signed' otk otk' kem kem' : Bytes}

/-- What a wire shares with the keys beyond the signed prekey is fixed by the wire. -/
theorem OpensWith.secret_eq (hP : P.OneKey)
    (h : OpensWith P obj senderCurve curveSk otkSk pqSk signed otk kem)
    (h' : OpensWith P obj senderCurve curveSk otkSk' pqSk' signed' otk' kem') :
    otk ++ kem = otk' ++ kem' := by
  obtain rfl := Except.ok.inj (h.fromSigned.symm.trans h'.fromSigned)
  obtain ⟨ct, text, hct, hopen⟩ := h.opens
  obtain ⟨ct', text', hct', hopen'⟩ := h'.opens
  obtain rfl := Except.ok.inj (hct.symm.trans hct')
  have hsecret := openingKey_injective hP.toSymbolic (aeadDecrypt_key hP hopen hopen')
  rw [List.append_assoc, List.append_assoc] at hsecret
  exact List.append_cancel_left hsecret

theorem kemPart_ok {ss : Bytes} (h : kemPart P obj pqSk = .ok ss) :
    ∃ alg ct, obj.getItem "pq_kem_alg" = .ok (.str alg) ∧
      (do b64dJson (← obj.getItem "pq_ct")) = .ok ct ∧ P.kemDecap alg pqSk ct = some ss := by
  obtain ⟨alg, halg, h⟩ := bind_eq_ok_iff.mp h
  obtain ⟨raw, hraw, h⟩ := bind_eq_ok_iff.mp h
  obtain ⟨ct, hct, h⟩ := bind_eq_ok_iff.mp h
  cases alg with
  | str alg => exact ⟨alg, ct, halg, bind_eq_ok_iff.mpr ⟨raw, hraw, hct⟩, (oqsCall_eq_ok h).2⟩
  | _ =>
    have hnone : oqsCall P (none : Option Bytes) = .ok ss := h
    cases (oqsCall_eq_ok hnone).2

theorem length_kemPart (hP : P.OneKey) (hsk : IsKemSecret P pqSk) {ss : Bytes}
    (h : kemPart P obj pqSk = .ok ss) : ss.length = 32 := by
  obtain ⟨alg, ct, -, -, hdecap⟩ := kemPart_ok h
  exact hP.decap_length hsk hdecap

theorem kemPart_key (hP : P.OneKey) (hsk : IsKemSecret P pqSk) (hsk' : IsKemSecret P pqSk')
    {ss : Bytes} (h : kemPart P obj pqSk = .ok ss) (h' : kemPart P obj pqSk' = .ok ss) : pqSk = pqSk' := by
  obtain ⟨alg, ct, halg, hct, hdecap⟩ := kemPart_ok h
  obtain ⟨alg', ct', halg', hct', hdecap'⟩ := kemPart_ok h'
  obtain rfl := Json.str.inj (Except.ok.inj (halg.symm.trans halg'))
  obtain rfl := Except.ok.inj (hct.symm.trans hct')
  exact hP.decap_key hsk hsk' hdecap hdecap'

theorem otkPart_ne_nil (hP : P.OneKey) (hne : otkSk ≠ []) (h : otkPart P obj otkSk = .ok otk) :
    otk ≠ [] := by
  rw [otkPart, if_pos hne] at h
  obtain ⟨raw, -, h⟩ := bind_eq_ok_iff.mp h
  obtain ⟨eph, -, h⟩ := bind_eq_ok_iff.mp h
  unfold x25519Dh at h
  split at h
  next z hz =>
    obtain rfl := Except.ok.inj h
    exact hP.exchange_ne_nil hz
  · cases h

theorem otkPart_nil (h : otkPart P obj [] = .ok otk) : otk = [] :=
  (Except.ok.inj h).symm

/-- With a curve one-time key and without it, a wire does not open. -/
theorem OpensWith.curve_eq_nil (hP : P.OneKey) (hsk : IsKemSecret P pqSk)
    (hsk' : IsKemSecret P pqSk')
    (h : OpensWith P obj senderCurve curveSk otkSk pqSk signed otk kem)
    (h' : OpensWith P obj senderCurve curveSk [] pqSk' signed' otk' kem') : otkSk = [] := by
  by_contra hne
  have hsecret := h.secret_eq hP h'
  have hlength := congrArg List.length hsecret
  obtain rfl := otkPart_nil h'.fromOtk
  have hpos := List.length_pos_iff.mpr (otkPart_ne_nil hP hne h.fromOtk)
  have hkem := length_kemPart hP hsk h.fromKem
  have hkem' := length_kemPart hP hsk' h'.fromKem
  simp only [List.length_append, List.length_nil] at hlength
  omega

/-- Without curve one-time keys, a wire opens with one PQ key only. -/
theorem OpensWith.pq_eq (hP : P.OneKey) (hsk : IsKemSecret P pqSk) (hsk' : IsKemSecret P pqSk')
    (h : OpensWith P obj senderCurve curveSk [] pqSk signed otk kem)
    (h' : OpensWith P obj senderCurve curveSk [] pqSk' signed' otk' kem') : pqSk = pqSk' := by
  have hsecret := h.secret_eq hP h'
  obtain rfl := otkPart_nil h.fromOtk
  obtain rfl := otkPart_nil h'.fromOtk
  obtain rfl : kem = kem' := hsecret
  exact kemPart_key hP hsk hsk' h.fromKem h'.fromKem

end Opens

/-! ### Stores -/

/-- One-time keys may be gone, everything else is still there. -/
structure Shrinks (store store' : Json) : Prop where
  others : ∀ key, key ≠ "curve_one_time" → key ≠ "pq_one_time" →
    store'.getItem key = store.getItem key
  curve : ∀ key entry, oneTime store' "curve_one_time" key = some entry →
    oneTime store "curve_one_time" key = some entry
  pq : ∀ key entry, oneTime store' "pq_one_time" key = some entry →
    oneTime store "pq_one_time" key = some entry

theorem Shrinks.refl (store : Json) : Shrinks store store where
  others _ _ _ := rfl
  curve _ _ h := h
  pq _ _ h := h

theorem Shrinks.trans {store₁ store₂ store₃ : Json} (h : Shrinks store₁ store₂)
    (h' : Shrinks store₂ store₃) : Shrinks store₁ store₃ where
  others key hc hq := (h'.others key hc hq).trans (h.others key hc hq)
  curve key entry he := h.curve key entry (h'.curve key entry he)
  pq key entry he := h.pq key entry (h'.pq key entry he)

theorem Consumes.shrinks {store store' : Json} {cid qid : ℤ} (h : Consumes store store' cid qid) :
    Shrinks store store' where
  others := h.others
  curve key entry he := by
    rw [h.curve] at he
    split at he
    · cases he
    · exact he
  pq key entry he := by
    rw [h.pq] at he
    split at he
    · cases he
    · exact he

/-- A key id that is named is gone afterwards. -/
theorem Consumes.named_eq_none {store store' : Json} {cid qid : ℤ}
    (h : Consumes store store' cid qid) :
    named store' "curve_one_time" cid = none ∧ named store' "pq_one_time" qid = none := by
  constructor
  · rw [named, h.curve]
    by_cases hpos : 0 < cid <;> simp [hpos]
  · rw [named, h.pq]
    by_cases hpos : 0 < qid <;> simp [hpos]

theorem Shrinks.named_eq_none {store store' : Json} {cid qid : ℤ} (h : Shrinks store store')
    (hnone : named store "curve_one_time" cid = none ∧ named store "pq_one_time" qid = none) :
    named store' "curve_one_time" cid = none ∧ named store' "pq_one_time" qid = none := by
  constructor
  · by_contra hne
    obtain ⟨entry, hentry⟩ := Option.ne_none_iff_exists'.mp hne
    unfold named at hentry
    split at hentry
    next hpos =>
      have hbefore := h.curve _ _ hentry
      rw [named, if_pos hpos, hbefore] at hnone
      cases hnone.1
    · cases hentry
  · by_contra hne
    obtain ⟨entry, hentry⟩ := Option.ne_none_iff_exists'.mp hne
    unfold named at hentry
    split at hentry
    next hpos =>
      have hbefore := h.pq _ _ hentry
      rw [named, named, if_pos hpos, hbefore] at hnone
      cases hnone.2
    · cases hentry

/-- The one-time keys of a store are keys, and none of the PQ keys is the signed prekey. -/
structure UsableStore (P : Prims) (store : Json) : Prop where
  curve : ∀ key entry, oneTime store "curve_one_time" key = some entry →
    entry.truthy = true ∧ ∃ sk, entrySk entry = .ok sk ∧ sk ≠ []
  pq : ∀ key entry, oneTime store "pq_one_time" key = some entry →
    entry.truthy = true ∧
      ∃ sk, entrySk entry = .ok sk ∧ IsKemSecret P sk ∧ pqSignedSk store ≠ .ok sk
  signed : ∀ sk, pqSignedSk store = .ok sk → IsKemSecret P sk

theorem Shrinks.pqSignedSk {store store' : Json} (h : Shrinks store store') :
    pqSignedSk store' = pqSignedSk store := by
  rw [SecChat.pqSignedSk, SecChat.pqSignedSk, h.others _ (by decide) (by decide)]

theorem Shrinks.curveSignedSk {store store' : Json} (h : Shrinks store store') :
    curveSignedSk store' = curveSignedSk store := by
  rw [SecChat.curveSignedSk, SecChat.curveSignedSk, h.others _ (by decide) (by decide)]

theorem UsableStore.shrinks {store store' : Json} (hs : UsableStore P store)
    (h : Shrinks store store') : UsableStore P store' where
  curve key entry he := hs.curve key entry (h.curve key entry he)
  pq key entry he := by
    rw [h.pqSignedSk]
    exact hs.pq key entry (h.pq key entry he)
  signed := by
    rw [h.pqSignedSk]
    exact hs.signed

theorem named_eq_some {store entry : Json} {table : String} {kid : ℤ}
    (h : named store table kid = some entry) : oneTime store table (toString kid) = some entry := by
  unfold named at h
  split at h
  · exact h
  · cases h

theorem UsableStore.isKemSecret {store : Json} {qid : ℤ} {sk : Bytes} (hs : UsableStore P store)
    (h : pqSkOf store (named store "pq_one_time" qid) = .ok sk) : IsKemSecret P sk := by
  cases hentry : named store "pq_one_time" qid with
  | none =>
    rw [hentry] at h
    exact hs.signed sk h
  | some entry =>
    rw [hentry] at h
    obtain ⟨htruthy, sk', hsk', hkem, -⟩ := hs.pq _ _ (named_eq_some hentry)
    have hsk : entrySk entry = .ok sk := by
      unfold pqSkOf at h
      rwa [Option.getD_some, if_pos htruthy] at h
    obtain rfl := Except.ok.inj (hsk.symm.trans hsk')
    exact hkem

/-- A wire that names a one-time key of the store opens with a key that is used for nothing else. -/
theorem UsableStore.taken {store obj : Json} {expected : Option ℤ} {cid qid : ℤ}
    {senderCurve curveSk otkSk pqSk : Bytes} (hs : UsableStore P store)
    (h : Responded P expected store obj cid qid senderCurve curveSk otkSk pqSk)
    (hheld : (named store "curve_one_time" cid).isSome ∨ (named store "pq_one_time" qid).isSome) :
    otkSk ≠ [] ∨ pqSignedSk store ≠ .ok pqSk := by
  refine hheld.imp (fun hcurve => ?_) fun hpq => ?_
  · obtain ⟨entry, hentry⟩ := Option.isSome_iff_exists.mp hcurve
    obtain ⟨htruthy, sk, hsk, hne⟩ := hs.curve _ _ (named_eq_some hentry)
    have hread := h.curve
    rw [hentry] at hread
    unfold curveSkOf at hread
    rw [Option.getD_some, if_pos htruthy, hsk] at hread
    obtain rfl := Except.ok.inj hread
    exact hne
  · obtain ⟨entry, hentry⟩ := Option.isSome_iff_exists.mp hpq
    obtain ⟨htruthy, sk, hsk, -, hne⟩ := hs.pq _ _ (named_eq_some hentry)
    have hread := h.pq
    rw [hentry] at hread
    unfold pqSkOf at hread
    rw [Option.getD_some, if_pos htruthy, hsk] at hread
    obtain rfl := Except.ok.inj hread
    exact hne

/-- **A wire that used up a one-time key does not open again**, whatever happened to the other keys
in between. -/
theorem not_opened_twice (hP : P.OneKey) {wire : String} {expected : Option ℤ} {r r' : RespondRand}
    {store store₁ store₂ obj : Json} {cid qid : ℤ} {result : String × DoubleRatchet × String × ℤ}
    (hs : UsableStore P store) (hnames : Names wire obj cid qid)
    (hheld : (named store "curve_one_time" cid).isSome ∨ (named store "pq_one_time" qid).isSome)
    (h : pqxdhRespond P wire expected r store = (.ok result, store₁))
    (hlater : Shrinks store₁ store₂) :
    ∃ e, (pqxdhRespond P wire expected r' store₂).1 = .error e := by
  cases hagain : (pqxdhRespond P wire expected r' store₂).1 with
  | error e => exact ⟨e, rfl⟩
  | ok result' =>
    exfalso
    obtain ⟨obj₁, cid₁, qid₁, curve₁, curveSk, otkSk, pqSk, hnames₁, hfirst, hconsumes⟩ :=
      pqxdhRespond_consumes h
    obtain ⟨rfl, rfl, rfl⟩ := hnames.unique hnames₁
    obtain ⟨obj₂, cid₂, qid₂, curve₂, curveSk', otkSk', pqSk', hnames₂, hsecond, -⟩ :=
      pqxdhRespond_consumes (Prod.ext hagain rfl)
    obtain ⟨rfl, rfl, rfl⟩ := hnames.unique hnames₂
    have hshrinks := hconsumes.shrinks.trans hlater
    obtain ⟨hcurveNone, hpqNone⟩ := hlater.named_eq_none hconsumes.named_eq_none
    -- the second time the signed prekeys alone are left
    have hcurve := hsecond.curve
    rw [hcurveNone] at hcurve
    obtain rfl := Except.ok.inj hcurve
    have hpq := hsecond.pq
    rw [hpqNone] at hpq
    have hsigned : pqSignedSk store = .ok pqSk' := hshrinks.pqSignedSk.symm.trans hpq
    obtain ⟨uid, pk, hcheck⟩ := hfirst.sender
    obtain ⟨uid', pk', hcheck'⟩ := hsecond.sender
    obtain ⟨-, -, rfl⟩ : uid = uid' ∧ pk = pk' ∧ curve₁ = curve₂ := by
      have heq := Except.ok.inj (hcheck.symm.trans hcheck')
      simpa using heq
    have hcurveSk := hsecond.curveSigned
    rw [hshrinks.curveSignedSk] at hcurveSk
    obtain rfl := Except.ok.inj (hfirst.curveSigned.symm.trans hcurveSk)
    obtain ⟨signed, otk, kem, hopens⟩ := hfirst.opens
    obtain ⟨signed', otk', kem', hopens'⟩ := hsecond.opens
    have hkem := hs.isKemSecret hfirst.pq
    have hkem' := hs.signed _ hsigned
    obtain rfl := hopens.curve_eq_nil hP hkem hkem' hopens'
    obtain rfl := hopens.pq_eq hP hkem hkem' hopens'
    rcases hs.taken hfirst hheld with hne | hne
    · exact hne rfl
    · exact hne hsigned

/-- The stores of a client: made by `generate_local_bundle`, whose one-time KEM keys come from other
seeds than the signed prekey, and used by wires that opened. -/
inductive PrekeyStore (P : Prims) : Json → Prop
  | generated {identityPk identitySk : Bytes} {kemAlg : Option String} {otkCount : ℕ}
      {r : BundleRand} {upload store : Json}
      (h : generateLocalBundle P identityPk identitySk kemAlg otkCount r = .ok (upload, store))
      (hfresh : ∀ i < otkCount, r.pqOtk i ≠ r.pq) : PrekeyStore P store
  | used {wire : String} {expected : Option ℤ} {r : RespondRand} {store store' : Json}
      {result : String × DoubleRatchet × String × ℤ} (hs : PrekeyStore P store)
      (h : pqxdhRespond P wire expected r store = (.ok result, store')) : PrekeyStore P store'

theorem lookup_map_eq_some {ks : List Otk} {s : Otk → String × Json} {key : String} {entry : Json}
    (h : (ks.map s).lookup key = some entry) : ∃ k ∈ ks, (s k).2 = entry := by
  obtain ⟨l, l', hl, -⟩ := List.lookup_eq_some_iff.mp h
  have hmem : (key, entry) ∈ ks.map s := hl ▸ List.mem_append_right l List.mem_cons_self
  obtain ⟨k, hk, heq⟩ := List.mem_map.mp hmem
  exact ⟨k, hk, by rw [heq]⟩

/-- A new store is usable. -/
theorem usableStore_generated (hP : P.OneKey) {identityPk identitySk : Bytes}
    {kemAlg : Option String} {otkCount : ℕ} {r : BundleRand} {upload store : Json}
    (h : generateLocalBundle P identityPk identitySk kemAlg otkCount r = .ok (upload, store))
    (hfresh : ∀ i < otkCount, r.pqOtk i ≠ r.pq) : UsableStore P store := by
  obtain ⟨b, hb, h⟩ := bind_eq_ok_iff.mp h
  obtain ⟨-, rfl⟩ := Prod.mk.inj (Except.ok.inj h)
  unfold bundleKeys at hb
  obtain ⟨alg, -, hb⟩ := bind_eq_ok_iff.mp hb
  obtain ⟨⟨pqPk, pqSk⟩, hpq, hb⟩ := bind_eq_ok_iff.mp hb
  obtain ⟨curveSig, -, hb⟩ := bind_eq_ok_iff.mp hb
  obtain ⟨pqSig, -, hb⟩ := bind_eq_ok_iff.mp hb
  obtain ⟨curves, hcurves, hb⟩ := bind_eq_ok_iff.mp hb
  obtain ⟨pqs, hpqs, hb⟩ := bind_eq_ok_iff.mp hb
  obtain rfl := Except.ok.inj hb
  have hkeypair : P.kemKeypair alg r.pq = some (pqPk, pqSk) := (oqsCall_eq_ok hpq).2
  have hsigned : ∀ b : BundleKeys, pqSignedSk b.localStore = .ok b.pq.sk := by
    intro b
    simp [pqSignedSk, BundleKeys.localStore]
  refine ⟨fun key entry he => ?_, fun key entry he => ?_, fun sk hsk => ?_⟩
  · rw [oneTime_curve] at he
    obtain ⟨k, hk, rfl⟩ := lookup_map_eq_some he
    obtain ⟨i, -, hi⟩ := forall₂_mem_right (mapM_eq_ok hcurves) k hk
    obtain ⟨sig, -, hk⟩ := bind_eq_ok_iff.mp hi
    obtain rfl := Except.ok.inj hk
    refine ⟨rfl, (r.curveOtk i).1, ?_, seed_ne_nil _⟩
    simp [entrySk, BundleKeys.curveSecret]
  · rw [oneTime_pq] at he
    obtain ⟨k, hk, rfl⟩ := lookup_map_eq_some he
    obtain ⟨i, hmem, hi⟩ := forall₂_mem_right (mapM_eq_ok hpqs) k hk
    obtain ⟨⟨pk, sk⟩, hkem, hi⟩ := bind_eq_ok_iff.mp hi
    obtain ⟨sig, -, hk⟩ := bind_eq_ok_iff.mp hi
    obtain rfl := Except.ok.inj hk
    have hpair : P.kemKeypair alg (r.pqOtk i) = some (pk, sk) := (oqsCall_eq_ok hkem).2
    refine ⟨rfl, sk, ?_, ⟨alg, _, pk, hpair⟩, ?_⟩
    · simp [entrySk, BundleKeys.pqSecret]
    · rw [hsigned]
      intro heq
      obtain rfl : pqSk = sk := Except.ok.inj heq
      exact hfresh i (List.mem_range.mp hmem) (hP.keypair_seed hpair hkeypair)
  · rw [hsigned] at hsk
    obtain rfl : pqSk = sk := Except.ok.inj hsk
    exact ⟨alg, _, pqPk, hkeypair⟩

theorem PrekeyStore.usable (hP : P.OneKey) {store : Json} (h : PrekeyStore P store) :
    UsableStore P store := by
  induction h with
  | generated h hfresh => exact usableStore_generated hP h hfresh
  | used _ h ih =>
    obtain ⟨_, _, _, _, _, _, _, -, -, hconsumes⟩ := pqxdhRespond_consumes h
    exact ih.shrinks hconsumes.shrinks

/-! ### The laws are consistent -/

/-- A sum of octet strings of one length. -/
def pad (a b : Bytes) : Bytes := List.zipWith (· ^^^ ·) a b

theorem pad_pad {a b : Bytes} (h : a.length = b.length) : pad a (pad a b) = b := by
  induction a generalizing b with
  | nil => rw [List.length_eq_zero_iff.mp h.symm]; rfl
  | cons x a ih =>
    cases b with
    | nil => cases h
    | cons y b =>
      have htail := ih (Nat.succ_inj.mp h)
      simp only [pad, List.zipWith_cons_cons] at htail ⊢
      rw [htail, ← UInt8.xor_assoc, UInt8.xor_self, UInt8.zero_xor]

theorem pad_comm (a b : Bytes) : pad a b = pad b a :=
  List.zipWith_comm_of_comm UInt8.xor_comm

theorem length_pad {a b : Bytes} (h : a.length = b.length) : (pad a b).length = a.length := by
  rw [pad, List.length_zipWith, ← h, min_self]

/-- Open a ciphertext that is the text of an encryption. -/
def openWritten (key nonce ct aad : Bytes) : Option Bytes :=
  (openTerm key nonce ct aad).filter fun data => termOf [key, nonce, data, aad] = ct

/-- The term model, where a KEM key is a pad of 32 octets and only written ciphertexts open. -/
def padPrims : Prims where
  __ := termPrims
  aesgcmDecrypt := openWritten
  kemEncap _ pk coins := some (coins, pad pk coins)
  kemDecap _ sk ct := if ct.length = 32 then some (pad sk ct) else none

theorem openWritten_eq_some {key nonce ct aad data : Bytes}
    (h : openWritten key nonce ct aad = some data) :
    openTerm key nonce ct aad = some data ∧ ct = termOf [key, nonce, data, aad] := by
  obtain ⟨hopen, hwritten⟩ := Option.filter_eq_some_iff.mp h
  exact ⟨hopen, (of_decide_eq_true hwritten).symm⟩

theorem openWritten_termOf (key nonce data aad : Bytes) :
    openWritten key nonce (termOf [key, nonce, data, aad]) aad = some data := by
  rw [openWritten, openTerm_termOf, if_pos ⟨rfl, rfl, rfl⟩]
  simp

theorem openWritten_only {key nonce data aad key' nonce' aad' data' : Bytes}
    (h : openWritten key' nonce' (termOf [key, nonce, data, aad]) aad' = some data') :
    key' = key ∧ aad' = aad := by
  have hopen := (openWritten_eq_some h).1
  rw [openTerm_termOf] at hopen
  split at hopen
  next hsame => exact ⟨hsame.1.symm, hsame.2.2.symm⟩
  · cases hopen

theorem isKemSecret_padPrims {sk : Bytes} (h : IsKemSecret padPrims sk) : sk.length = 32 := by
  obtain ⟨alg, seed, pk, hpair⟩ := h
  obtain ⟨-, rfl⟩ := Prod.mk.inj (Option.some.inj hpair)
  exact seed.2

theorem kemDecap_padPrims {alg : String} {sk ct ss : Bytes}
    (h : padPrims.kemDecap alg sk ct = some ss) : ct.length = 32 ∧ ss = pad sk ct := by
  have hif : (if ct.length = 32 then some (pad sk ct) else none) = some ss := h
  split at hif
  next hct => exact ⟨hct, (Option.some.inj hif).symm⟩
  · cases hif

/-- **The laws of one-time use hold in a model.** -/
theorem padPrims_oneKey : padPrims.OneKey where
  exchange_comm := by
    simp only [padPrims]
    exact termPrims_symbolic.exchange_comm
  public_ne_nil := by
    simp only [padPrims]
    exact termPrims_symbolic.public_ne_nil
  verify_sign := by
    simp only [padPrims]
    exact termPrims_symbolic.verify_sign
  keypair_ne_nil := by
    simp only [padPrims]
    exact termPrims_symbolic.keypair_ne_nil
  hkdf_injective := by
    simp only [padPrims]
    exact termPrims_symbolic.hkdf_injective
  decrypt_encrypt key nonce data aad := by
    simp only [padPrims, termPrims]
    exact openWritten_termOf key nonce data aad
  opens_only h := by
    simp only [padPrims, termPrims] at h
    exact openWritten_only h
  decrypt_only h := by
    simp only [padPrims, termPrims] at h ⊢
    exact (openWritten_eq_some h).2
  decap_encap {alg seed pk sk} h coins := by
    obtain ⟨rfl, rfl⟩ := Prod.mk.inj (Option.some.inj h)
    exact ⟨_, _, rfl, if_pos coins.2⟩
  exchange_ne_nil h := by
    obtain rfl := Option.some.inj h
    exact termOf_ne_nil _
  decap_length hsk h := by
    obtain ⟨hct, rfl⟩ := kemDecap_padPrims h
    have hlen := isKemSecret_padPrims hsk
    rw [length_pad (hlen.trans hct.symm), hlen]
  decap_key {_ _ sk' ct _} hsk hsk' h h' := by
    obtain ⟨hct, rfl⟩ := kemDecap_padPrims h
    obtain ⟨-, heq⟩ := kemDecap_padPrims h'
    have hlen := isKemSecret_padPrims hsk
    have hlen' := isKemSecret_padPrims hsk'
    rw [pad_comm, pad_comm sk'] at heq
    have hback := congrArg (pad ct) heq
    rwa [pad_pad (hct.trans hlen.symm), pad_pad (hct.trans hlen'.symm)] at hback
  keypair_seed h h' := by
    obtain ⟨-, rfl⟩ := Prod.mk.inj (Option.some.inj h)
    obtain ⟨-, heq⟩ := Prod.mk.inj (Option.some.inj h')
    exact (Subtype.ext heq).symm

end SecChat
