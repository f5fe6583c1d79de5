import SecChat.Protocol.PqxdhAgreement

/-!
# Which keys of an accepted bundle are signed

`verify_bundle` and `pqxdh_initiate` decide separately whether a bundle has a one-time key.  For the
curve key the two decisions agree.  For the PQ key `verify_bundle` asks for a positive id and a key,
`pqxdh_initiate` takes the key whatever its id and the mechanism from the id whatever the key.

* `usedKeysSigned_iff`: on an accepted bundle every key that is used is signed exactly when the id
  and the key of the PQ one-time prekey agree, or the stray key happens to be signed;
* `unsigned_key_accepted`: a bundle with an unsigned PQ one-time key under id `0` is accepted.
-/

namespace SecChat

open Py

variable (P : Prims)

/-- A field of the bundle read as a key or a signature. -/
def bytesField (bundle : Json) (key : String) : Except Exn Bytes := do
  b64dJson (← bundle.getItem key)

/-- A field of the bundle read as a key id. -/
def idOf (bundle : Json) (key : String) : Except Exn ℤ := do (← bundle.getItem key).toInt

/-- Every key of the bundle that `pqxdh_initiate` uses in an X25519 exchange or encapsulates to is
signed by the bundle's identity, together with the key id and the mechanism it is used with. -/
structure UsedKeysSigned (b : Json) : Prop where
  curveSpk : ∃ pk id, bytesField b "identity_pk" = .ok pk ∧ idOf b "curve_spk_id" = .ok id ∧
    verifyField P pk b "curve-signed" id (.str "X25519") "curve_spk" "curve_spk_sig" = .ok ()
  curveOtk : ∀ otk, curveOtkOf b = .ok otk → otk ≠ [] →
    ∃ pk id, bytesField b "identity_pk" = .ok pk ∧ otkId b "curve_otk_id" = .ok id ∧
      verifyField P pk b "curve-otk" id (.str "X25519") "curve_otk" "curve_otk_sig" = .ok ()
  pqSpk : ∀ alg, kemAlgOf b = .ok alg → kemKeyField b = .ok "pq_spk" →
    ∃ pk id, bytesField b "identity_pk" = .ok pk ∧ idOf b "pq_spk_id" = .ok id ∧
      verifyField P pk b "pq-signed" id alg "pq_spk" "pq_spk_sig" = .ok ()
  pqOtk : ∀ alg, kemAlgOf b = .ok alg → kemKeyField b = .ok "pq_otk" →
    ∃ pk id, bytesField b "identity_pk" = .ok pk ∧ otkId b "pq_otk_id" = .ok id ∧
      verifyField P pk b "pq-otk" id alg "pq_otk" "pq_otk_sig" = .ok ()

/-- The id and the key of the PQ one-time prekey agree on whether there is one. -/
def PqOtkConsistent (b : Json) : Prop :=
  ∃ id key, otkId b "pq_otk_id" = .ok id ∧ b.getD "pq_otk" .null = .ok key ∧
    (key.truthy = true ↔ 0 < id)

/-- They disagree, and the key that is used is signed under the mechanism that the id selects all
the same. -/
def StrayKeySigned (b : Json) : Prop :=
  ∃ pk id, bytesField b "identity_pk" = .ok pk ∧ otkId b "pq_otk_id" = .ok id ∧
    if 0 < id then ∃ spkId alg, idOf b "pq_spk_id" = .ok spkId ∧ b.getD "pq_otk_alg" .null = .ok alg ∧
      verifyField P pk b "pq-signed" spkId alg "pq_spk" "pq_spk_sig" = .ok ()
    else ∃ alg, b.getItem "pq_kem_alg" = .ok alg ∧
      verifyField P pk b "pq-otk" id alg "pq_otk" "pq_otk_sig" = .ok ()

variable {P}

/-! ### What an accepted bundle has -/

/-- The reads and checks that an accepted bundle passed. -/
structure Accepted (P : Prims) (b : Json) (pk : Bytes) (curveId pqId id : ℤ) (kemAlg alg key : Json) :
    Prop where
  identity : bytesField b "identity_pk" = .ok pk
  readCurveId : idOf b "curve_spk_id" = .ok curveId
  curve : verifyField P pk b "curve-signed" curveId (.str "X25519") "curve_spk" "curve_spk_sig" =
    .ok ()
  readPqId : idOf b "pq_spk_id" = .ok pqId
  readKemAlg : b.getItem "pq_kem_alg" = .ok kemAlg
  pq : verifyField P pk b "pq-signed" pqId kemAlg "pq_spk" "pq_spk_sig" = .ok ()
  curveOtk : verifyOtk P pk b "curve-otk" "curve_otk_id" (.ok (.str "X25519")) "curve_otk"
    "curve_otk_sig" = .ok ()
  pqOtk : verifyOtk P pk b "pq-otk" "pq_otk_id" (b.getItem "pq_otk_alg") "pq_otk" "pq_otk_sig" =
    .ok ()
  readId : otkId b "pq_otk_id" = .ok id
  readAlg : (if id > 0 then b.getD "pq_otk_alg" .null else b.getItem "pq_kem_alg") = .ok alg
  readKey : b.getD "pq_otk" .null = .ok key

theorem accepted_of_initiate {b store : Json} {idPk idSk : Bytes} {myUid peerUid conv : ℤ}
    {body : String} {version : Option ℤ} {r : InitRand} {out : String × DoubleRatchet × String}
    (h : pqxdhInitiate P b store idPk idSk myUid peerUid body version conv r = .ok out) :
    ∃ pk curveId pqId id kemAlg alg key, Accepted P b pk curveId pqId id kemAlg alg key := by
  unfold pqxdhInitiate at h
  obtain ⟨u, hv, h⟩ := bind_eq_ok_iff.mp h
  obtain ⟨alg, halg, -⟩ := bind_eq_ok_iff.mp h
  obtain ⟨id, hid, halg⟩ := bind_eq_ok_iff.mp halg
  simp only [verifyBundle, bind_eq_ok_iff] at hv
  obtain ⟨v, hv, pk, hpk, c, hc, cid, hcid, u1, h1, q, hq, qid, hqid, kemAlg, ha, u2, h2, u3, h3, h4⟩
    := hv
  have hkey : ∃ key, b.getD "pq_otk" .null = .ok key := by
    cases b with
    | obj kvs => exact ⟨_, rfl⟩
    | _ => cases ha
  obtain ⟨key, hkey⟩ := hkey
  exact ⟨pk, cid, qid, id, kemAlg, alg, key, bind_eq_ok_iff.mpr ⟨v, hv, hpk⟩,
    bind_eq_ok_iff.mpr ⟨c, hc, hcid⟩, h1, bind_eq_ok_iff.mpr ⟨q, hq, hqid⟩, ha, h2, h3, h4, hid, halg,
    hkey⟩

/-- What the check of a one-time key says when the key counts as present. -/
theorem verifyOtk_eq_ok {b : Json} {pk : Bytes} {kind idField keyField sigField : String}
    {alg : Except Exn Json} {u : Unit} {id : ℤ} {key : Json}
    (h : verifyOtk P pk b kind idField alg keyField sigField = .ok u)
    (hid : otkId b idField = .ok id) (hpos : 0 < id) (hkey : b.getD keyField .null = .ok key)
    (ht : key.truthy = true) :
    ∃ a, alg = .ok a ∧ verifyField P pk b kind id a keyField sigField = .ok () := by
  simp only [verifyOtk, hid, hkey, ok_bind, ht, Bool.and_true, decide_eq_true_eq] at h
  rw [if_pos hpos] at h
  exact bind_eq_ok_iff.mp h

/-- A curve one-time key that is used was checked. -/
theorem curveOtk_verified {b : Json} {pk otk : Bytes}
    (h : verifyOtk P pk b "curve-otk" "curve_otk_id" (.ok (.str "X25519")) "curve_otk"
      "curve_otk_sig" = .ok ()) (ho : curveOtkOf b = .ok otk) (hne : otk ≠ []) :
    ∃ id, otkId b "curve_otk_id" = .ok id ∧
      verifyField P pk b "curve-otk" id (.str "X25519") "curve_otk" "curve_otk_sig" = .ok () := by
  obtain ⟨id, hid, ho⟩ := bind_eq_ok_iff.mp ho
  refine ⟨id, hid, ?_⟩
  by_cases hpos : 0 < id
  · rw [if_pos hpos] at ho
    obtain ⟨key, hk, hd⟩ := bind_eq_ok_iff.mp ho
    -- a key that decodes to something is a non-empty string, so the check counted it as present
    have ht : key.truthy = true := by
      cases key with
      | str s =>
        have hs : s ≠ "" := by
          rintro rfl
          exact hne (Except.ok.inj (hd.symm.trans (b64dJson_b64e [])))
        simpa using hs
      | _ => cases hd
    obtain ⟨a, ha, hv⟩ := verifyOtk_eq_ok h hid hpos (Json.getD_of_getItem hk) ht
    cases ha
    exact hv
  · rw [if_neg hpos] at ho
    exact absurd (Except.ok.inj ho).symm hne

namespace Accepted

variable {b : Json} {pk : Bytes} {curveId pqId id : ℤ} {kemAlg alg key : Json}

theorem kemAlgOf_eq (h : Accepted P b pk curveId pqId id kemAlg alg key) : kemAlgOf b = .ok alg :=
  bind_eq_ok_iff.mpr ⟨id, h.readId, h.readAlg⟩

theorem kemKeyField_eq (h : Accepted P b pk curveId pqId id kemAlg alg key) :
    kemKeyField b = .ok (if key.truthy then "pq_otk" else "pq_spk") := by
  simp [kemKeyField, h.readKey]

/-- Only the PQ key can lack a signature. -/
theorem usedKeysSigned_iff_pq (h : Accepted P b pk curveId pqId id kemAlg alg key) :
    UsedKeysSigned P b ↔
      if key.truthy then verifyField P pk b "pq-otk" id alg "pq_otk" "pq_otk_sig" = .ok ()
      else verifyField P pk b "pq-signed" pqId alg "pq_spk" "pq_spk_sig" = .ok () := by
  have hf := h.kemKeyField_eq
  constructor
  · intro hs
    by_cases ht : key.truthy = true
    · rw [if_pos ht] at hf ⊢
      obtain ⟨pk', id', e1, e2, hv⟩ := hs.pqOtk alg h.kemAlgOf_eq hf
      cases h.identity.symm.trans e1
      cases h.readId.symm.trans e2
      exact hv
    · rw [if_neg ht] at hf ⊢
      obtain ⟨pk', id', e1, e2, hv⟩ := hs.pqSpk alg h.kemAlgOf_eq hf
      cases h.identity.symm.trans e1
      cases h.readPqId.symm.trans e2
      exact hv
  · intro hv
    refine ⟨⟨pk, curveId, h.identity, h.readCurveId, h.curve⟩, fun otk ho hne => ?_, fun a ha hk => ?_,
      fun a ha hk => ?_⟩
    · obtain ⟨i, hi, hv'⟩ := curveOtk_verified h.curveOtk ho hne
      exact ⟨pk, i, h.identity, hi, hv'⟩
    · cases h.kemAlgOf_eq.symm.trans ha
      rw [hk] at hf
      by_cases ht : key.truthy = true
      · rw [if_pos ht] at hf
        simp at hf
      · rw [if_neg ht] at hv
        exact ⟨pk, pqId, h.identity, h.readPqId, hv⟩
    · cases h.kemAlgOf_eq.symm.trans ha
      rw [hk] at hf
      by_cases ht : key.truthy = true
      · rw [if_pos ht] at hv
        exact ⟨pk, id, h.identity, h.readId, hv⟩
      · rw [if_neg ht] at hf
        simp at hf

theorem pqOtkConsistent_iff (h : Accepted P b pk curveId pqId id kemAlg alg key) :
    PqOtkConsistent b ↔ (key.truthy = true ↔ 0 < id) := by
  constructor
  · rintro ⟨i, k, hi, hk, hc⟩
    cases h.readId.symm.trans hi
    cases h.readKey.symm.trans hk
    exact hc
  · exact fun hc => ⟨id, key, h.readId, h.readKey, hc⟩

theorem strayKeySigned_iff (h : Accepted P b pk curveId pqId id kemAlg alg key) :
    StrayKeySigned P b ↔
      if 0 < id then verifyField P pk b "pq-signed" pqId alg "pq_spk" "pq_spk_sig" = .ok ()
      else verifyField P pk b "pq-otk" id alg "pq_otk" "pq_otk_sig" = .ok () := by
  have halg := h.readAlg
  constructor
  · rintro ⟨pk', i, e1, e2, hs⟩
    cases h.identity.symm.trans e1
    cases h.readId.symm.trans e2
    by_cases hpos : 0 < id
    · rw [if_pos hpos] at hs halg ⊢
      obtain ⟨qid, a, e3, e4, hs⟩ := hs
      cases h.readPqId.symm.trans e3
      cases halg.symm.trans e4
      exact hs
    · rw [if_neg hpos] at hs halg ⊢
      obtain ⟨a, e3, hs⟩ := hs
      cases halg.symm.trans e3
      exact hs
  · intro hs
    refine ⟨pk, id, h.identity, h.readId, ?_⟩
    by_cases hpos : 0 < id
    · rw [if_pos hpos] at hs halg ⊢
      exact ⟨pqId, alg, h.readPqId, halg, hs⟩
    · rw [if_neg hpos] at hs halg ⊢
      exact ⟨alg, halg, hs⟩

end Accepted

/-- **Every public key mixed into the root is signed exactly when the id and the key of the PQ
one-time prekey agree on its presence**, or the stray key is signed all the same. -/
theorem usedKeysSigned_iff {b store : Json} {idPk idSk : Bytes} {myUid peerUid conv : ℤ}
    {body : String} {version : Option ℤ} {r : InitRand} {out : String × DoubleRatchet × String}
    (h : pqxdhInitiate P b store idPk idSk myUid peerUid body version conv r = .ok out) :
    UsedKeysSigned P b ↔ PqOtkConsistent b ∨ StrayKeySigned P b := by
  obtain ⟨pk, curveId, pqId, id, kemAlg, alg, key, h⟩ := accepted_of_initiate h
  have halg := h.readAlg
  rw [h.usedKeysSigned_iff_pq, h.pqOtkConsistent_iff, h.strayKeySigned_iff]
  by_cases hpos : 0 < id <;> by_cases ht : key.truthy = true
  · -- both: `verify_bundle` checked the one-time key with its own mechanism
    obtain ⟨a, ha, hv⟩ := verifyOtk_eq_ok h.pqOtk h.readId hpos h.readKey ht
    rw [if_pos hpos, Json.getD_of_getItem ha] at halg
    cases halg
    simp [hpos, ht, hv]
  · simp [hpos, ht]
  · simp [hpos, ht]
  · -- neither: the signed prekey was checked with the mechanism of the bundle
    rw [if_neg hpos] at halg
    cases h.readKemAlg.symm.trans halg
    simp [hpos, ht, h.pq]

/-! ### An unsigned key that is accepted -/

/-- A PQ one-time key that nobody signed, under an id that `verify_bundle` takes for none. -/
def forgedItem : Json :=
  .obj [("key_id", .int 0), ("alg", .str ""), ("public_key", .str (b64e (testSeed 99))),
    ("signature", .str "")]

/-- What can be read off a bundle that is served with the forged key. -/
structure ForgedFields (b : BundleKeys) (B : Json) : Prop where
  identity : B.getItem "identity_pk" = .ok (.str (b64e b.identityPk))
  curveId : B.getItem "curve_spk_id" = .ok (.int b.curve.keyId)
  curve : B.getItem "curve_spk" = .ok (.str (b64e b.curve.pk))
  curveSig : B.getItem "curve_spk_sig" = .ok (.str (b64e b.curve.sig))
  pqId : B.getItem "pq_spk_id" = .ok (.int b.pq.keyId)
  alg : B.getItem "pq_kem_alg" = .ok (.str b.alg)
  pq : B.getItem "pq_spk" = .ok (.str (b64e b.pq.pk))
  pqSig : B.getItem "pq_spk_sig" = .ok (.str (b64e b.pq.sig))
  curveOtkId : otkId B "curve_otk_id" = .ok (-1)
  curveOtk : B.getD "curve_otk" .null = .ok (.str "")
  pqOtkId : otkId B "pq_otk_id" = .ok 0
  pqOtk : B.getItem "pq_otk" = .ok (.str (b64e (testSeed 99)))
  pqOtkSig : B.getItem "pq_otk_sig" = .ok (.str (b64e []))

theorem forgedFields (b : BundleKeys) :
    ForgedFields b (servedBundle b.upload none (some forgedItem) 2 0 0 0) := by
  have h0 : b64e [] = "" := by simp
  constructor <;>
    simp [servedBundle, forgedItem, field, BundleKeys.upload, Except.toOption, otkId, h0]

theorem verifyBundle_forged {b : BundleKeys} {B : Json} (hb : b.Genuine P) (hB : ForgedFields b B) :
    verifyBundle P B = .ok () := by
  simp [verifyBundle, verifyField, hB.identity, hB.curveId, hB.curve, hB.curveSig, hB.pqId, hB.alg,
    hB.pq, hB.pqSig, hb.curveSigned.2, hb.pqSigned.2, verifyOtk, hB.curveOtkId, hB.curveOtk,
    hB.pqOtkId, Json.getD_of_getItem hB.pqOtk]

/-- The forged key is what the initiator encapsulates to. -/
theorem kemChoice_forged {b : BundleKeys} {B : Json} (hB : ForgedFields b B) :
    kemAlgOf B = .ok (.str b.alg) ∧ kemKeyField B = .ok "pq_otk" := by
  have hne : b64e (testSeed 99).1 ≠ "" := by
    rw [Ne, b64e_eq_empty]
    exact seed_ne_nil _
  refine ⟨by simp [kemAlgOf, hB.pqOtkId, hB.alg], ?_⟩
  rw [kemKeyField, Json.getD_of_getItem hB.pqOtk, ok_bind, Json.truthy_str, decide_eq_true hne]
  rfl

/-- The bundle of the term model, served with the forged key, is accepted. -/
theorem initiate_forged {b : BundleKeys}
    (hkeys : bundleKeys termPrims (testSeed 8) (testSeed 8) none 1 testBundleRand = .ok b) :
    ∃ out, pqxdhInitiate termPrims (servedBundle b.upload none (some forgedItem) 2 0 0 0) b.localStore
      (testSeed 9) (testSeed 9) 1 2 "hi" none 7 testInitRand = .ok out := by
  have hb := (bundleKeys_genuine termPrims_symbolic.toCorrect hkeys).1
  obtain ⟨a, ha⟩ := hb.hasSignedCurve
  have hB := forgedFields b
  obtain ⟨halg, hfield⟩ := kemChoice_forged hB
  have hotk : curveOtkOf (servedBundle b.upload none (some forgedItem) 2 0 0 0) = .ok [] := by
    simp [curveOtkOf, hB.curveOtkId]
  exact ⟨_, pqxdhInitiate_of_reads (verifyBundle_forged hb hB) halg hfield hB.pqOtk (b64dJson_b64e _)
    ha hB.curve hotk hB.curveId hB.curveOtkId hB.pqId hB.pqOtkId hB.identity (b64dJson_b64e _)
    testInitRand rfl rfl (testSeed 9) rfl 1 2 7 "hi" none⟩

/-- The key it encapsulates to is not signed. -/
theorem unsigned_key_accepted : ∃ upload store out,
    generateLocalBundle termPrims (testSeed 8) (testSeed 8) none 1 testBundleRand =
      .ok (upload, store) ∧
    pqxdhInitiate termPrims (servedBundle upload none (some forgedItem) 2 0 0 0) store (testSeed 9)
      (testSeed 9) 1 2 "hi" none 7 testInitRand = .ok out ∧
    ¬ UsedKeysSigned termPrims (servedBundle upload none (some forgedItem) 2 0 0 0) := by
  obtain ⟨b, hkeys⟩ := bundleKeys_term
  obtain ⟨out, hout⟩ := initiate_forged hkeys
  have hB := forgedFields b
  obtain ⟨halg, hfield⟩ := kemChoice_forged hB
  refine ⟨b.upload, b.localStore, out, bind_eq_ok_iff.mpr ⟨b, hkeys, rfl⟩, hout, ?_⟩
  intro hs
  obtain ⟨pk, id, -, -, hv⟩ := hs.pqOtk _ halg hfield
  simp [verifyField, hB.pqOtk, hB.pqOtkSig, verifyPrekey, bind_eq_ok_iff, termPrims] at hv
  obtain ⟨msg, -, hm⟩ := hv
  exact termOf_ne_nil _ hm

/-- The exact condition at the forged bundle. -/
theorem usedKeysSigned_iff_forged : ∃ upload store,
    generateLocalBundle termPrims (testSeed 8) (testSeed 8) none 1 testBundleRand =
      .ok (upload, store) ∧
    (UsedKeysSigned termPrims (servedBundle upload none (some forgedItem) 2 0 0 0) ↔
      PqOtkConsistent (servedBundle upload none (some forgedItem) 2 0 0 0) ∨
        StrayKeySigned termPrims (servedBundle upload none (some forgedItem) 2 0 0 0)) := by
  obtain ⟨b, hkeys⟩ := bundleKeys_term
  obtain ⟨out, hout⟩ := initiate_forged hkeys
  exact ⟨b.upload, b.localStore, bind_eq_ok_iff.mpr ⟨b, hkeys, rfl⟩, usedKeysSigned_iff hout⟩

end SecChat
