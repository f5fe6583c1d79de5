import SecChat.Protocol.Pqxdh
import SecChat.Protocol.TermModel

/-!
# PQXDH agreement

An initiator that is served a bundle of the responder, with or without a one-time key of either
kind, sends a wire that the responder opens (`pqxdh_agreement`): both derive the same root secret
from secrets mixed in the same order, take the two chains the other way round, and show the same
safety number; the local store of the responder loses exactly the one-time keys that were used.
-/

namespace SecChat

open Py

variable {P : Prims}

/-! ### The served bundle -/

/-- The bundle served from genuine keys with an optional one-time key of each kind. -/
def BundleKeys.served (b : BundleKeys) (c q : Option Otk) (uid version cp qp : ℤ) : Json :=
  servedBundle b.upload (c.map curveItem) (q.map (pqItem b.alg)) uid version cp qp

/-- The id under which an optional one-time key is served. -/
def servedId (k : Option Otk) : ℤ := (k.map Otk.keyId).getD (-1)

/-- The key under which it is served. -/
def servedKey (k : Option Otk) : Bytes := (k.map Otk.pk).getD []

def servedSig (k : Option Otk) : Bytes := (k.map Otk.sig).getD []

theorem BundleKeys.served_eq (b : BundleKeys) (c q : Option Otk) (uid version cp qp : ℤ) :
    b.served c q uid version cp qp = .obj [
      ("type", .str "pqxdh_bundle"), ("user_id", .int uid), ("version", .int 2),
      ("identity_version", .int version),
      ("identity_pk", .str (b64e b.identityPk)),
      ("curve_spk_id", .int b.curve.keyId),
      ("curve_spk", .str (b64e b.curve.pk)),
      ("curve_spk_sig", .str (b64e b.curve.sig)),
      ("pq_spk_id", .int b.pq.keyId),
      ("pq_kem_alg", .str b.alg),
      ("pq_spk", .str (b64e b.pq.pk)),
      ("pq_spk_sig", .str (b64e b.pq.sig)),
      ("curve_otk_id", .int (servedId c)),
      ("curve_otk", .str (b64e (servedKey c))),
      ("curve_otk_sig", .str (b64e (servedSig c))),
      ("pq_otk_id", .int (servedId q)),
      ("pq_otk_alg", .str (if q.isSome then b.alg else "")),
      ("pq_otk", .str (b64e (servedKey q))),
      ("pq_otk_sig", .str (b64e (servedSig q))),
      ("curve_pool_size", .int cp), ("pq_pool_size", .int qp)] := by
  cases c <;> cases q <;>
    simp [served, servedBundle, field, upload, curveItem, pqItem, servedId, servedKey, servedSig,
      Except.toOption]

/-- A one-time key that is served passes its check, and none needs none. -/
theorem verifyOtk_served {pk : Bytes} {kind alg idField keyField sigField : String} {bundle : Json}
    {IsPair : Bytes → Bytes → Prop} {ks : List Otk} (hks : GenuineOtks P pk kind alg IsPair ks)
    {k : Option Otk} (hk : ∀ x ∈ k, x ∈ ks) {a : Except Exn Json} (ha : k.isSome → a = .ok (.str alg))
    (hid : bundle.getD idField (.int (-1)) = .ok (.int (servedId k)))
    (hkey : bundle.getItem keyField = .ok (.str (b64e (servedKey k))))
    (hsig : bundle.getItem sigField = .ok (.str (b64e (servedSig k)))) :
    verifyOtk P pk bundle kind idField a keyField sigField = .ok () := by
  have hid' : otkId bundle idField = .ok (servedId k) := by simp [otkId, hid]
  unfold verifyOtk
  rw [hid', ok_bind, Json.getD_of_getItem hkey, ok_bind]
  cases k with
  | none => rfl
  | some x =>
    have hx : x ∈ ks := hk x rfl
    rw [ha rfl]
    simp only [verifyField, hkey, hsig, ok_bind, b64dJson_b64e]
    split
    · exact hks.verified x hx
    · rfl

/-- What can be read off a served bundle. -/
structure ServedFields (b : BundleKeys) (c q : Option Otk) (B : Json) : Prop where
  identity : B.getItem "identity_pk" = .ok (.str (b64e b.identityPk))
  curveId : B.getItem "curve_spk_id" = .ok (.int b.curve.keyId)
  curve : B.getItem "curve_spk" = .ok (.str (b64e b.curve.pk))
  curveSig : B.getItem "curve_spk_sig" = .ok (.str (b64e b.curve.sig))
  pqId : B.getItem "pq_spk_id" = .ok (.int b.pq.keyId)
  alg : B.getItem "pq_kem_alg" = .ok (.str b.alg)
  pq : B.getItem "pq_spk" = .ok (.str (b64e b.pq.pk))
  pqSig : B.getItem "pq_spk_sig" = .ok (.str (b64e b.pq.sig))
  curveOtkId : B.getItem "curve_otk_id" = .ok (.int (servedId c))
  curveOtk : B.getItem "curve_otk" = .ok (.str (b64e (servedKey c)))
  curveOtkSig : B.getItem "curve_otk_sig" = .ok (.str (b64e (servedSig c)))
  pqOtkId : B.getItem "pq_otk_id" = .ok (.int (servedId q))
  pqOtkAlg : B.getItem "pq_otk_alg" = .ok (.str (if q.isSome then b.alg else ""))
  pqOtk : B.getItem "pq_otk" = .ok (.str (b64e (servedKey q)))
  pqOtkSig : B.getItem "pq_otk_sig" = .ok (.str (b64e (servedSig q)))

theorem BundleKeys.servedFields (b : BundleKeys) (c q : Option Otk) (uid version cp qp : ℤ) :
    ServedFields b c q (b.served c q uid version cp qp) := by
  rw [b.served_eq]
  constructor <;> simp

variable {b : BundleKeys} {c q : Option Otk} {B : Json}

theorem verifyBundle_served (hb : b.Genuine P) (hB : ServedFields b c q B)
    (hc : ∀ k ∈ c, k ∈ b.curveOtks) (hq : ∀ k ∈ q, k ∈ b.pqOtks) : verifyBundle P B = .ok () := by
  have h1 := verifyOtk_served hb.curve hc (fun _ => rfl) (Json.getD_of_getItem hB.curveOtkId)
    hB.curveOtk hB.curveOtkSig
  have ha : q.isSome = true → B.getItem "pq_otk_alg" = .ok (.str b.alg) := by
    intro h
    rw [hB.pqOtkAlg, if_pos h]
  have h2 := verifyOtk_served hb.pq hq ha
    (Json.getD_of_getItem hB.pqOtkId) hB.pqOtk hB.pqOtkSig
  simp [verifyBundle, verifyField, hB.identity, hB.curveId, hB.curve, hB.curveSig, hB.pqId, hB.alg,
    hB.pq, hB.pqSig, hb.curveSigned.2, hb.pqSigned.2, h1, h2]

/-- The key that the initiator encapsulates to. -/
def kemTarget (b : BundleKeys) (q : Option Otk) : Otk := q.getD b.pq

/-- The initiator encapsulates with the mechanism of the bundle to the one-time key if there is one,
else to the signed prekey. -/
theorem kemChoice_served (hP : P.Correct) (hb : b.Genuine P) (hB : ServedFields b c q B)
    (hq : ∀ k ∈ q, k ∈ b.pqOtks) :
    kemAlgOf B = .ok (.str b.alg) ∧
      (do b64dJson (← B.getItem (← kemKeyField B))) = .ok (kemTarget b q).pk ∧
      otkId B "pq_otk_id" = .ok (servedId q) := by
  have hid : otkId B "pq_otk_id" = .ok (servedId q) := by
    simp [otkId, Json.getD_of_getItem hB.pqOtkId]
  refine ⟨?_, ?_, hid⟩
  · unfold kemAlgOf
    rw [hid, ok_bind]
    cases q with
    | none => simpa [servedId] using hB.alg
    | some k =>
      have hpos : 0 < k.keyId := hb.pq.pos k (hq k rfl)
      simpa [servedId, hpos] using Json.getD_of_getItem hB.pqOtkAlg
  · unfold kemKeyField
    rw [Json.getD_of_getItem hB.pqOtk]
    cases q with
    | none => simp [servedKey, hB.pq, kemTarget]
    | some k =>
      obtain ⟨s, hs⟩ := hb.pq.isPair k (hq k rfl)
      have hne := hP.keypair_ne_nil hs
      simp [servedKey, hB.pqOtk, hne, kemTarget]

theorem curveOtkOf_served (hb : b.Genuine P) (hB : ServedFields b c q B)
    (hc : ∀ k ∈ c, k ∈ b.curveOtks) :
    curveOtkOf B = .ok (servedKey c) ∧ otkId B "curve_otk_id" = .ok (servedId c) := by
  have hid : otkId B "curve_otk_id" = .ok (servedId c) := by
    simp [otkId, Json.getD_of_getItem hB.curveOtkId]
  refine ⟨?_, hid⟩
  unfold curveOtkOf
  rw [hid, ok_bind]
  cases c with
  | none => rfl
  | some k =>
    have hpos : 0 < k.keyId := hb.curve.pos k (hc k rfl)
    simp [servedId, hpos, hB.curveOtk]

/-! ### The initiator -/

/-- The initiator's signed curve prekey in its local store. -/
def HasSignedCurve (P : Prims) (store : Json) (kid : ℤ) (a : Seed) : Prop :=
  store.getItem "curve_signed" = .ok (.obj [("key_id", .int kid),
    ("pk", .str (b64e (P.x25519Public a))), ("sk", .str (b64e a))])

/-- The store of a new bundle has one. -/
theorem BundleKeys.Genuine.hasSignedCurve (hb : b.Genuine P) :
    ∃ a, HasSignedCurve P b.localStore b.curve.keyId a := by
  obtain ⟨⟨a, hpk, hsk⟩, -⟩ := hb.curveSigned
  refine ⟨a, ?_⟩
  simp [HasSignedCurve, BundleKeys.localStore, hpk, hsk]

/-- The secret key of an optional one-time key. -/
def servedSk (k : Option Otk) : Bytes := (k.map Otk.sk).getD []

/-- Both sides compute the same X25519 secrets. -/
theorem dhParts_agree (hP : P.Correct) (hb : b.Genuine P) (hc : ∀ k ∈ c, k ∈ b.curveOtks)
    (a e : Seed) : ∃ dh,
      dhParts (x25519Dh P a b.curve.pk) (x25519Dh P e b.curve.pk)
        (if servedKey c ≠ [] then some (x25519Dh P e (servedKey c)) else none) = .ok dh ∧
      dhParts (x25519Dh P b.curve.sk (P.x25519Public a)) (x25519Dh P b.curve.sk (P.x25519Public e))
        (if servedSk c ≠ [] then some (x25519Dh P (servedSk c) (P.x25519Public e)) else none) =
          .ok dh := by
  obtain ⟨⟨s, hpk, hsk⟩, -⟩ := hb.curveSigned
  rw [hpk, hsk]
  simp only [x25519Dh_public hP]
  cases c with
  | none =>
    refine ⟨_, rfl, ?_⟩
    rw [sharedSecret_comm hP s a, sharedSecret_comm hP s e]
    rfl
  | some k =>
    obtain ⟨t, ht, ht'⟩ := hb.curve.isPair k (hc k rfl)
    have h1 : servedKey (some k) ≠ [] := by
      show k.pk ≠ []
      rw [ht]
      exact hP.public_ne_nil t
    have h2 : servedSk (some k) ≠ [] := by
      show k.sk ≠ []
      rw [ht']
      exact seed_ne_nil t
    rw [if_pos h1, if_pos h2]
    simp only [servedKey, servedSk, Option.map_some, Option.getD_some, ht, ht', x25519Dh_public hP]
    refine ⟨_, rfl, ?_⟩
    rw [sharedSecret_comm hP s a, sharedSecret_comm hP s e, sharedSecret_comm hP t e]
    rfl

/-- The KEM secret that both sides share. -/
theorem kem_agree (hP : P.Correct) (hb : b.Genuine P) (hq : ∀ k ∈ q, k ∈ b.pqOtks) (coins : Seed) :
    ∃ ct ss, kemEncapsulate P (.str b.alg) (kemTarget b q).pk coins = .ok (ct, ss) ∧
      kemDecapsulate P (.str b.alg) (kemTarget b q).sk ct = .ok ss := by
  have hpair : IsKemPair P b.alg (kemTarget b q).pk (kemTarget b q).sk := by
    cases q with
    | none => exact hb.pqSigned.1
    | some k => exact hb.pq.isPair k (hq k rfl)
  obtain ⟨s, hs⟩ := hpair
  obtain ⟨ct, ss, he, hd⟩ := hP.decap_encap hs coins
  exact ⟨ct, ss, by simp [kemEncapsulate, oqsCall, hb.liboqs, he],
    by simp [kemDecapsulate, oqsCall, hb.liboqs, hd]⟩

/-- The state of the initiator before its first message key is taken. -/
def initiatorState (P : Prims) (root : Bytes) (conv my peer : ℤ) (version : Option ℤ)
    (r : InitRand) : DoubleRatchet :=
  (DoubleRatchet.new P root true [] (b64e r.sid) r.dr []).setContext conv my peer version

/-- The state of the responder before its first message key is taken. -/
def responderState (P : Prims) (root remote : Bytes) (sid : String) (conv my peer : ℤ)
    (version : Option ℤ) (r : RespondRand) : DoubleRatchet :=
  (DoubleRatchet.new P root false remote sid r.dr r.sid).setContext conv my peer version

/-- `x or 0` of a context id. -/
theorem ite_ne_zero (x : ℤ) : (if x ≠ 0 then x else 0) = x := by
  split
  · rfl
  · next h => exact (not_not.mp h).symm

/-- The context that the initiator gives its state. -/
theorem initiatorState_context (P : Prims) (root : Bytes) (conv my peer : ℤ) (version : Option ℤ)
    (r : InitRand) :
    (initiatorState P root conv my peer version r).conversationId = conv ∧
      (initiatorState P root conv my peer version r).myUid = my ∧
      (initiatorState P root conv my peer version r).peerUid = peer :=
  ⟨ite_ne_zero conv, ite_ne_zero my, ite_ne_zero peer⟩

/-- The payload that the initiator authenticates. -/
def servedPayload (P : Prims) (b : BundleKeys) (c q : Option Otk) (idPk : Bytes) (kid : ℤ) (a : Seed)
    (sig ct : Bytes) (conv my peer : ℤ) (version : Option ℤ) (r : InitRand) :
    List (String × Json) :=
  initPayload (b64e r.sid) conv my peer idPk kid (P.x25519Public a) sig (P.x25519Public r.eph)
    b.curve.keyId (servedId c) b.pq.keyId (servedId q) (.str b.alg) ct (P.x25519Public r.dr) version

/-- `pqxdh_initiate` from what it reads off the bundle. -/
theorem pqxdhInitiate_of_reads {B store : Json} {alg field : String} {v v' : Json}
    {pqPk curvePk otk dh ct ss sig idPk : Bytes} {kid spkId cid pqSpkId qid : ℤ} {a : Seed}
    (hv : verifyBundle P B = .ok ()) (halg : kemAlgOf B = .ok (.str alg))
    (hfield : kemKeyField B = .ok field) (hkey : B.getItem field = .ok v)
    (hpk : b64dJson v = .ok pqPk) (hs : HasSignedCurve P store kid a)
    (hcurve : B.getItem "curve_spk" = .ok (.str (b64e curvePk)))
    (hotk : curveOtkOf B = .ok otk) (hspk : B.getItem "curve_spk_id" = .ok (.int spkId))
    (hcid : otkId B "curve_otk_id" = .ok cid) (hpq : B.getItem "pq_spk_id" = .ok (.int pqSpkId))
    (hqid : otkId B "pq_otk_id" = .ok qid) (hid : B.getItem "identity_pk" = .ok v')
    (hidPk : b64dJson v' = .ok idPk) (r : InitRand)
    (hdh : dhParts (x25519Dh P a curvePk) (x25519Dh P r.eph curvePk)
        (if otk ≠ [] then some (x25519Dh P r.eph otk) else none) = .ok dh)
    (hct : kemEncapsulate P (.str alg) pqPk r.coins = .ok (ct, ss)) (idSk : Seed)
    (hsig : signPrekey P idSk "curve-signed" kid (.str "X25519") (P.x25519Public a) = .ok sig)
    (my peer conv : ℤ) (body : String) (version : Option ℤ) :
    pqxdhInitiate P B store (P.ed25519Public idSk) idSk my peer body version conv r =
      .ok (initWire P (initPayload (b64e r.sid) conv my peer (P.ed25519Public idSk) kid
            (P.x25519Public a) sig (P.x25519Public r.eph) spkId cid pqSpkId qid (.str alg) ct
            (P.x25519Public r.dr) version)
          (takeSendKey P (initiatorState P (pqxdhRoot P dh ss) conv my peer version r)).1 r.nonce r.ts
          body,
        (takeSendKey P (initiatorState P (pqxdhRoot P dh ss) conv my peer version r)).2,
        safetyFingerprint P (P.ed25519Public idSk) idPk) := by
  simp only [ne_eq, ite_not] at hdh
  unfold pqxdhInitiate
  rw [hv, ok_bind, halg, ok_bind, hfield, ok_bind, hkey, ok_bind, hpk, ok_bind, hct, ok_bind, hs]
  simp [hcurve, hotk, hdh, hsig, hspk, hcid, hpq, hqid, hid, hidPk, x25519Keygen, initiatorState,
    takeSendKey, DoubleRatchet.setContext, DoubleRatchet.new]

theorem pqxdhInitiate_served (hP : P.Correct) (hb : b.Genuine P) (hB : ServedFields b c q B)
    (hc : ∀ k ∈ c, k ∈ b.curveOtks) (hq : ∀ k ∈ q, k ∈ b.pqOtks) {store : Json} {kid : ℤ} {a : Seed}
    (hs : HasSignedCurve P store kid a) (idSk : Seed) (my peer conv : ℤ) (body : String)
    (version : Option ℤ) (r : InitRand) {dh ct ss sig : Bytes}
    (hdh : dhParts (x25519Dh P a b.curve.pk) (x25519Dh P r.eph b.curve.pk)
        (if servedKey c ≠ [] then some (x25519Dh P r.eph (servedKey c)) else none) = .ok dh)
    (hct : kemEncapsulate P (.str b.alg) (kemTarget b q).pk r.coins = .ok (ct, ss))
    (hsig : signPrekey P idSk "curve-signed" kid (.str "X25519") (P.x25519Public a) = .ok sig) :
    pqxdhInitiate P B store (P.ed25519Public idSk) idSk my peer body version conv r =
      .ok (initWire P (servedPayload P b c q (P.ed25519Public idSk) kid a sig ct conv my peer version r)
          (takeSendKey P (initiatorState P (pqxdhRoot P dh ss) conv my peer version r)).1 r.nonce r.ts
          body,
        (takeSendKey P (initiatorState P (pqxdhRoot P dh ss) conv my peer version r)).2,
        safetyFingerprint P (P.ed25519Public idSk) b.identityPk) := by
  obtain ⟨halg, hpk, hqid⟩ := kemChoice_served hP hb hB hq
  obtain ⟨hotk, hcid⟩ := curveOtkOf_served hb hB hc
  obtain ⟨field, hfield, hpk⟩ := bind_eq_ok_iff.mp hpk
  obtain ⟨v, hv, hpk⟩ := bind_eq_ok_iff.mp hpk
  exact pqxdhInitiate_of_reads (verifyBundle_served hb hB hc hq) halg hfield hv hpk hs hB.curve hotk
    hB.curveId hcid hB.pqId hqid hB.identity (b64dJson_b64e _) r hdh hct idSk hsig my peer conv body
    version

/-! ### Reading the wire -/

/-- What can be read off an `S3PQI` object. -/
structure InitFields (sid : String) (conv my peer : ℤ) (idPk : Bytes) (kid : ℤ)
    (curvePk sig eph : Bytes) (cid qid : ℤ) (alg : Json) (ct dr : Bytes) (version : Option ℤ)
    (sealed : String) (obj : Json) : Prop where
  sid : obj.getD "sid" (.str "") = .ok (.str sid)
  conv : obj.getD "conversation_id" (.int 0) = .ok (.int conv)
  sender : obj.getItem "sender_uid" = .ok (.int my)
  recipient : obj.getItem "recipient_uid" = .ok (.int peer)
  identity : obj.getItem "identity_pk" = .ok (.str (b64e idPk))
  kid : obj.getItem "sender_curve_spk_id" = .ok (.int kid)
  curve : obj.getItem "sender_curve_spk" = .ok (.str (b64e curvePk))
  sig : obj.getItem "sender_curve_spk_sig" = .ok (.str (b64e sig))
  eph : obj.getItem "eph_curve_pk" = .ok (.str (b64e eph))
  curveOtk : otkId obj "curve_otk_id" = .ok cid
  pqOtk : otkId obj "pq_otk_id" = .ok qid
  alg : obj.getItem "pq_kem_alg" = .ok alg
  pqCt : obj.getItem "pq_ct" = .ok (.str (b64e ct))
  dr : obj.getItem "dr_pub" = .ok (.str (b64e dr))
  version : versionOf obj = .ok version
  ct : obj.getItem "ct" = .ok (.str sealed)

section Wire

variable (sid : String) (conv my peer : ℤ) (idPk : Bytes) (kid : ℤ) (curvePk sig eph : Bytes)
  (spkId cid pqSpkId qid : ℤ) (alg : String) (ct dr : Bytes) (version : Option ℤ) (sealed : String)

theorem initFields :
    InitFields sid conv my peer idPk kid curvePk sig eph cid qid (.str alg) ct dr version sealed
      (.obj (initPayload sid conv my peer idPk kid curvePk sig eph spkId cid pqSpkId qid (.str alg) ct
        dr version ++ [("ct", .str sealed)])) := by
  cases version <;> constructor <;> simp [initPayload, otkId, versionOf]

theorem initObj_plain :
    (Json.obj (initPayload sid conv my peer idPk kid curvePk sig eph spkId cid pqSpkId qid (.str alg)
      ct dr version ++ [("ct", .str sealed)])).Plain := by
  cases version <;> simp [initPayload]

theorem withoutCt_initObj :
    withoutCt (.obj (initPayload sid conv my peer idPk kid curvePk sig eph spkId cid pqSpkId qid
      (.str alg) ct dr version ++ [("ct", .str sealed)])) =
    .obj (initPayload sid conv my peer idPk kid curvePk sig eph spkId cid pqSpkId qid (.str alg) ct dr
      version) := by
  cases version <;> simp [withoutCt, initPayload]

end Wire

/-! ### The local store -/

theorem lookup_filter_ne (kvs : List (String × Json)) (key key' : String) :
    (kvs.filter (·.1 ≠ key)).lookup key' = if key' = key then none else kvs.lookup key' := by
  induction kvs with
  | nil => simp
  | cons kv kvs ih =>
    obtain ⟨k, v⟩ := kv
    by_cases hk : k = key
    · subst hk
      rw [List.filter_cons_of_neg (by simp), ih]
      by_cases h : key' = k
      · simp [h]
      · simp [h, List.lookup_cons, beq_eq_false_iff_ne.mpr h]
    · rw [List.filter_cons_of_pos (by simpa using hk), List.lookup_cons, List.lookup_cons, ih]
      by_cases h : key' = k
      · subst h
        simp [hk]
      · simp [beq_eq_false_iff_ne.mpr h]

/-- One-time keys are found under their ids. -/
theorem lookup_secrets {ks : List Otk} (hn : (ks.map Otk.keyId).Nodup) {k : Otk} (hk : k ∈ ks)
    {s : Otk → String × Json} (hs : ∀ x, (s x).1 = toString x.keyId) :
    (ks.map s).lookup (toString k.keyId) = some (s k).2 := by
  induction ks with
  | nil => cases hk
  | cons x ks ih =>
    rw [List.map_cons, List.nodup_cons] at hn
    rw [List.map_cons, List.lookup_cons, hs x]
    by_cases h : k = x
    · subst h
      simp
    · have hk' : k ∈ ks := by
        rcases List.mem_cons.mp hk with h' | h'
        · exact absurd h' h
        · exact h'
      have hne : k.keyId ≠ x.keyId := by
        intro he
        exact hn.1 (he ▸ List.mem_map_of_mem hk')
      have hne' : (toString k.keyId == toString x.keyId) = false :=
        beq_eq_false_iff_ne.mpr fun h => hne (toString_int_injective h)
      rw [hne']
      exact ih hn.2 hk'

theorem filter_secrets (ks : List Otk) (kid : ℤ) {s : Otk → String × Json}
    (hs : ∀ x, (s x).1 = toString x.keyId) :
    (ks.map s).filter (·.1 ≠ toString kid) = (ks.filter (·.keyId ≠ kid)).map s := by
  rw [List.filter_map]
  congr 1
  apply List.filter_congr
  intro x _
  simp only [Function.comp, hs, ne_eq, decide_not]
  rw [decide_eq_decide.mpr toString_int_injective.eq_iff]

/-- The bundle without one of its curve one-time keys. -/
def BundleKeys.dropCurve (b : BundleKeys) (kid : ℤ) : BundleKeys :=
  { b with curveOtks := b.curveOtks.filter (·.keyId ≠ kid) }

/-- The bundle without one of its PQ one-time keys. -/
def BundleKeys.dropPq (b : BundleKeys) (kid : ℤ) : BundleKeys :=
  { b with pqOtks := b.pqOtks.filter (·.keyId ≠ kid) }

theorem popOneTime_curve (b : BundleKeys) (kid : ℤ) :
    popOneTime "curve_one_time" kid b.localStore =
      (.ok (((b.curveOtks.map BundleKeys.curveSecret).lookup (toString kid)).getD .null),
        (b.dropCurve kid).localStore) := by
  have h := filter_secrets b.curveOtks kid (s := BundleKeys.curveSecret) fun _ => rfl
  simp [popOneTime, BundleKeys.localStore, popItem, BundleKeys.dropCurve] at h ⊢
  exact h

theorem popOneTime_pq (b : BundleKeys) (kid : ℤ) :
    popOneTime "pq_one_time" kid b.localStore =
      (.ok (((b.pqOtks.map (BundleKeys.pqSecret b.alg)).lookup (toString kid)).getD .null),
        (b.dropPq kid).localStore) := by
  have h := filter_secrets b.pqOtks kid (s := BundleKeys.pqSecret b.alg) fun _ => rfl
  simp [popOneTime, BundleKeys.localStore, popItem, BundleKeys.dropPq] at h ⊢
  exact h

theorem takeCurveOtk_served (hb : b.Genuine P) (hc : ∀ k ∈ c, k ∈ b.curveOtks) :
    takeCurveOtk (servedId c) b.localStore =
      (.ok (servedSk c), (b.dropCurve (servedId c)).localStore) := by
  unfold takeCurveOtk
  cases c with
  | none =>
    have hd : b.dropCurve (-1) = b := by
      have hf : b.curveOtks.filter (·.keyId ≠ -1) = b.curveOtks := by
        refine List.filter_eq_self.mpr fun k hk => ?_
        have hpos := hb.curve.pos k hk
        simp
        omega
      rw [BundleKeys.dropCurve, hf]
    have h0 : servedId none = -1 := rfl
    rw [h0, hd]
    rfl
  | some k =>
    have hpos : servedId (some k) > 0 := hb.curve.pos k (hc k rfl)
    have hl := lookup_secrets hb.curve.nodup (hc k rfl) (s := BundleKeys.curveSecret) fun _ => rfl
    rw [if_pos hpos, Method.bind_ok (popOneTime_curve b _)]
    simp only [servedId, Option.map_some, Option.getD_some, hl]
    simp [BundleKeys.curveSecret, Json.truthy, servedSk]

theorem takePqSk_served (hb : b.Genuine P) (hq : ∀ k ∈ q, k ∈ b.pqOtks) (cid : ℤ) :
    takePqSk (servedId q) (b.dropCurve cid).localStore =
      (.ok (kemTarget b q).sk, ((b.dropCurve cid).dropPq (servedId q)).localStore) := by
  unfold takePqSk
  cases q with
  | none =>
    have hd : (b.dropCurve cid).dropPq (-1) = b.dropCurve cid := by
      have hf : b.pqOtks.filter (·.keyId ≠ -1) = b.pqOtks := by
        refine List.filter_eq_self.mpr fun k hk => ?_
        have hpos := hb.pq.pos k hk
        simp
        omega
      rw [BundleKeys.dropPq, BundleKeys.dropCurve, hf]
    have h0 : servedId none = -1 := rfl
    rw [h0, hd]
    simp [pqSignedSk, BundleKeys.localStore, BundleKeys.dropCurve, kemTarget]
  | some k =>
    have hpos : servedId (some k) > 0 := hb.pq.pos k (hq k rfl)
    have hl := lookup_secrets hb.pq.nodup (hq k rfl) (s := BundleKeys.pqSecret b.alg) fun _ => rfl
    rw [if_pos hpos, Method.bind_ok (popOneTime_pq _ _)]
    simp only [servedId, Option.map_some, Option.getD_some, BundleKeys.dropCurve, hl]
    simp [BundleKeys.pqSecret, Json.truthy, kemTarget]


/-! ### Agreement -/

/-- The two states of a new session mirror each other. -/
structure Mirrored (s t : DoubleRatchet) : Prop where
  sessionId : t.sessionId = s.sessionId
  conversationId : t.conversationId = s.conversationId
  myUid : t.myUid = s.peerUid
  peerUid : t.peerUid = s.myUid
  rootKey : t.rootKey = s.rootKey
  ckRecv : t.ckRecv = s.ckSend
  ckSend : t.ckSend = s.ckRecv
  hkRecv : t.hkRecv = s.hkSend
  hkSend : t.hkSend = s.hkRecv
  remoteDh : t.remoteDh = s.dhPk

theorem b64e_sid_ne_empty (r : {b : Bytes // b.length = 16}) : b64e r.1 ≠ "" := by
  rw [Ne, b64e_eq_empty]
  intro h
  have h16 := r.2
  rw [h] at h16
  cases h16

/-- The states that the two roles make of one root secret mirror each other. -/
theorem mirrored (P : Prims) (root : Bytes) (conv my peer : ℤ) (version : Option ℤ) (r : InitRand)
    (r' : RespondRand) :
    Mirrored (takeSendKey P (initiatorState P root conv my peer version r)).2
      (takeRecvKey P (responderState P root (P.x25519Public r.dr) (b64e r.sid) conv peer my version
        r')).2 := by
  have hsid := b64e_sid_ne_empty r.sid
  constructor <;>
    simp [takeSendKey, takeRecvKey, initiatorState, responderState, DoubleRatchet.new,
      DoubleRatchet.setContext, initialChains, hsid]

/-- The one-time key entry `key` of a table of the local store. -/
def oneTime (store : Json) (table key : String) : Option Json :=
  match field store table with
  | .obj kvs => kvs.lookup key
  | _ => none

/-- The local store loses the one-time keys `cid` and `qid`, which it had, and nothing else. -/
structure StoreLoses (store store' : Json) (cid qid : ℤ) : Prop where
  others : ∀ key, key ≠ "curve_one_time" → key ≠ "pq_one_time" →
    store'.getItem key = store.getItem key
  curve : ∀ key, oneTime store' "curve_one_time" key =
    if key = toString cid then none else oneTime store "curve_one_time" key
  pq : ∀ key, oneTime store' "pq_one_time" key =
    if key = toString qid then none else oneTime store "pq_one_time" key
  curveWas : (oneTime store "curve_one_time" (toString cid)).isSome = decide (0 < cid)
  pqWas : (oneTime store "pq_one_time" (toString qid)).isSome = decide (0 < qid)

theorem oneTime_curve (b : BundleKeys) (key : String) :
    oneTime b.localStore "curve_one_time" key = (b.curveOtks.map BundleKeys.curveSecret).lookup key := by
  simp [oneTime, field, BundleKeys.localStore, Except.toOption]

theorem oneTime_pq (b : BundleKeys) (key : String) :
    oneTime b.localStore "pq_one_time" key = (b.pqOtks.map (BundleKeys.pqSecret b.alg)).lookup key := by
  simp [oneTime, field, BundleKeys.localStore, Except.toOption]

/-- A served one-time key is in its table, and there is no entry under `-1`. -/
theorem lookup_served {ks : List Otk} (hpos : ∀ k ∈ ks, 0 < k.keyId) (hn : (ks.map Otk.keyId).Nodup)
    {k : Option Otk} (hk : ∀ x ∈ k, x ∈ ks) {s : Otk → String × Json}
    (hs : ∀ x, (s x).1 = toString x.keyId) :
    ((ks.map s).lookup (toString (servedId k))).isSome = decide (0 < servedId k) := by
  cases k with
  | none =>
    have h : (ks.map s).lookup (toString (-1 : ℤ)) = none := by
      refine List.lookup_eq_none_iff.mpr fun kv hkv => ?_
      obtain ⟨x, hx, rfl⟩ := List.mem_map.mp hkv
      have hx0 := hpos x hx
      rw [hs x, bne_iff_ne]
      intro he
      have := toString_int_injective he
      omega
    show ((ks.map s).lookup (toString (-1 : ℤ))).isSome = _
    rw [h]
    rfl
  | some x =>
    have hx := hk x rfl
    show ((ks.map s).lookup (toString x.keyId)).isSome = decide (0 < x.keyId)
    rw [lookup_secrets hn hx hs]
    simpa using hpos x hx

theorem storeLoses_served (hb : b.Genuine P) (hc : ∀ k ∈ c, k ∈ b.curveOtks)
    (hq : ∀ k ∈ q, k ∈ b.pqOtks) :
    StoreLoses b.localStore ((b.dropCurve (servedId c)).dropPq (servedId q)).localStore (servedId c)
      (servedId q) := by
  refine ⟨fun key h1 h2 => ?_, fun key => ?_, fun key => ?_, ?_, ?_⟩
  · simp [BundleKeys.localStore, BundleKeys.dropCurve, BundleKeys.dropPq, h1, h2]
  · rw [oneTime_curve, oneTime_curve, ← lookup_filter_ne, filter_secrets _ _ fun _ => rfl]
    rfl
  · rw [oneTime_pq, oneTime_pq, ← lookup_filter_ne, filter_secrets _ _ fun _ => rfl]
    rfl
  · rw [oneTime_curve]
    exact lookup_served hb.curve.pos hb.curve.nodup hc fun _ => rfl
  · rw [oneTime_pq]
    exact lookup_served hb.pq.pos hb.pq.nodup hq fun _ => rfl

theorem respondCheck_of_fields {sid : String} {conv my peer : ℤ} {idSk : Seed} {kid : ℤ}
    {curvePk sig eph : Bytes} {cid qid : ℤ} {alg : Json} {ct dr : Bytes} {version : Option ℤ}
    {sealed : String} {obj : Json} (hP : P.Correct)
    (hf : InitFields sid conv my peer (P.ed25519Public idSk) kid curvePk sig eph cid qid alg ct dr
      version sealed obj)
    (hsig : signPrekey P idSk "curve-signed" kid (.str "X25519") curvePk = .ok sig)
    {expected : Option ℤ} (he : ∀ uid ∈ expected, uid = peer) :
    respondCheck P obj expected = .ok (my, P.ed25519Public idSk, curvePk) := by
  have hv := verifyPrekey_signPrekey hP hsig
  cases expected with
  | none => simp [respondCheck, hf.sender, hf.identity, hf.curve, hf.kid, hf.sig, hv]
  | some uid =>
    have hu : peer = uid := (he uid rfl).symm
    simp [respondCheck, hf.sender, hf.identity, hf.curve, hf.kid, hf.sig, hv, hf.recipient, hu]

theorem pqxdhRespond_served (hP : P.Correct) (hb : b.Genuine P)
    (hc : ∀ k ∈ c, k ∈ b.curveOtks) (hq : ∀ k ∈ q, k ∈ b.pqOtks) {kid : ℤ} {a : Seed}
    (idSk : Seed) (my peer conv : ℤ) (body : String) (version : Option ℤ) (r : InitRand)
    {dh ct ss sig : Bytes}
    (hdh : dhParts (x25519Dh P b.curve.sk (P.x25519Public a))
      (x25519Dh P b.curve.sk (P.x25519Public r.eph))
      (if servedSk c ≠ [] then some (x25519Dh P (servedSk c) (P.x25519Public r.eph)) else none) =
        .ok dh)
    (hct : kemDecapsulate P (.str b.alg) (kemTarget b q).sk ct = .ok ss)
    (hsig : signPrekey P idSk "curve-signed" kid (.str "X25519") (P.x25519Public a) = .ok sig)
    {expected : Option ℤ} (he : ∀ uid ∈ expected, uid = peer) (r' : RespondRand) :
    pqxdhRespond P (initWire P (servedPayload P b c q (P.ed25519Public idSk) kid a sig ct conv my peer
        version r) (takeSendKey P (initiatorState P (pqxdhRoot P dh ss) conv my peer version r)).1
        r.nonce r.ts body) expected r' b.localStore =
      (.ok (body, (takeRecvKey P (responderState P (pqxdhRoot P dh ss) (P.x25519Public r.dr)
          (b64e r.sid) conv peer my version r')).2,
          safetyFingerprint P b.identityPk (P.ed25519Public idSk), my),
        ((b.dropCurve (servedId c)).dropPq (servedId q)).localStore) := by
  have hkey : (takeSendKey P (initiatorState P (pqxdhRoot P dh ss) conv my peer version r)).1 =
      (takeRecvKey P (responderState P (pqxdhRoot P dh ss) (P.x25519Public r.dr) (b64e r.sid) conv peer
        my version r')).1 := by
    simp [takeSendKey, takeRecvKey, initiatorState, responderState, DoubleRatchet.new,
      DoubleRatchet.setContext, initialChains]
  simp only [ne_eq, ite_not] at hdh
  rw [hkey]
  unfold initWire
  generalize hsealed : aeadEncrypt P _ r.nonce _ _ = sealed
  have hf := initFields (b64e r.sid) conv my peer (P.ed25519Public idSk) kid (P.x25519Public a) sig
    (P.x25519Public r.eph) b.curve.keyId (servedId c) b.pq.keyId (servedId q) b.alg ct
    (P.x25519Public r.dr) version sealed
  have hplain := initObj_plain (b64e r.sid) conv my peer (P.ed25519Public idSk) kid (P.x25519Public a)
    sig (P.x25519Public r.eph) b.curve.keyId (servedId c) b.pq.keyId (servedId q) b.alg ct
    (P.x25519Public r.dr) version sealed
  have hwo := withoutCt_initObj (b64e r.sid) conv my peer (P.ed25519Public idSk) kid
    (P.x25519Public a) sig (P.x25519Public r.eph) b.curve.keyId (servedId c) b.pq.keyId (servedId q)
    b.alg ct (P.x25519Public r.dr) version sealed
  rw [← servedPayload] at hf hplain hwo
  generalize hobj : Json.obj (servedPayload P b c q (P.ed25519Public idSk) kid a sig ct conv my peer
    version r ++ [("ct", .str sealed)]) = obj at hf hplain hwo ⊢
  have hopen : aeadDecrypt P (takeRecvKey P (responderState P (pqxdhRoot P dh ss)
      (P.x25519Public r.dr) (b64e r.sid) conv peer my version r')).1 (.str sealed)
      (canonical (withoutCt obj)) = .ok (.obj [("ts", .int r.ts), ("body", .str body)]) := by
    rw [hwo, ← hsealed]
    exact aeadDecrypt_aeadEncrypt hP _ _ (by simp) _
  unfold pqxdhRespond
  rw [dropTag_append, jsonUnb64_jsonB64 hplain, Method.ofExcept_ok_bind,
    respondCheck_of_fields hP hf hsig he, Method.ofExcept_ok_bind]
  simp only [hf.curveOtk, hf.pqOtk, Method.ofExcept_ok_bind, Method.get_bind]
  have hsk : (do b64dJson (← (← b.localStore.getItem "curve_signed").getItem "sk")) =
      Except.ok b.curve.sk := by
    simp [BundleKeys.localStore]
  rw [hsk, Method.ofExcept_ok_bind, Method.bind_ok (takeCurveOtk_served hb hc), hf.alg,
    Method.ofExcept_ok_bind, Method.bind_ok (takePqSk_served hb hq _), Method.get_bind,
    Method.ofExcept_run]
  have hid : ((b.dropCurve (servedId c)).dropPq (servedId q)).localStore.getItem "identity_pk" =
      .ok (.str (b64e b.identityPk)) := by
    simp [BundleKeys.localStore, BundleKeys.dropCurve, BundleKeys.dropPq]
  have hsid := b64e_sid_ne_empty r.sid
  have horElse : (Json.str (b64e r.sid)).orElse (.str "") = .str (b64e r.sid) := by
    simp [Json.orElse, hsid]
  simp [respondFinish, hf.eph, hdh, hf.pqCt, hct, hf.dr, hf.sid, hf.conv, hf.version,
    Json.getD_of_getItem hf.recipient, hf.ct, hid, horElse]
  rw [responderState] at hopen
  rw [hopen]
  simp [responderState]

/-- A served item of an upload comes from a one-time key of the bundle. -/
theorem exists_otk_of_item {ks : List Otk} {item : Otk → Json} {k : Option Json}
    (h : ∀ j ∈ k, j ∈ ks.map item) : ∃ k' : Option Otk, k = k'.map item ∧ ∀ x ∈ k', x ∈ ks := by
  cases k with
  | none => exact ⟨none, rfl, by simp⟩
  | some j =>
    obtain ⟨x, hx, rfl⟩ := List.mem_map.mp (h j rfl)
    exact ⟨some x, rfl, by simpa using hx⟩

/-- Agreement for a bundle that is served with the one-time keys `c` and `q`. -/
theorem pqxdh_agreement_served (hP : P.Correct) (hb : b.Genuine P) (hc : ∀ k ∈ c, k ∈ b.curveOtks)
    (hq : ∀ k ∈ q, k ∈ b.pqOtks) (idI : Seed) (uid identityVersion curvePool pqPool : ℤ)
    {storeI : Json} {kid : ℤ} {a : Seed} (hstore : HasSignedCurve P storeI kid a) (my peer conv : ℤ)
    (body : String) (version : Option ℤ) (r : InitRand) :
    ∃ wire s fp cid qid,
      pqxdhInitiate P (servedBundle b.upload (c.map BundleKeys.curveItem)
          (q.map (BundleKeys.pqItem b.alg)) uid identityVersion curvePool pqPool) storeI
        (P.ed25519Public idI) idI my peer body version conv r = .ok (wire, s, fp) ∧
      s.sessionId = b64e r.sid ∧ s.conversationId = conv ∧ s.myUid = my ∧ s.peerUid = peer ∧
      otkId (servedBundle b.upload (c.map BundleKeys.curveItem) (q.map (BundleKeys.pqItem b.alg)) uid
        identityVersion curvePool pqPool) "curve_otk_id" = .ok cid ∧
      otkId (servedBundle b.upload (c.map BundleKeys.curveItem) (q.map (BundleKeys.pqItem b.alg)) uid
        identityVersion curvePool pqPool) "pq_otk_id" = .ok qid ∧
      ∀ (expected : Option ℤ) (r' : RespondRand), (∀ u ∈ expected, u = peer) →
        ∃ t store', pqxdhRespond P wire expected r' b.localStore = (.ok (body, t, fp, my), store') ∧
          Mirrored s t ∧ StoreLoses b.localStore store' cid qid := by
  have hB := b.servedFields c q uid identityVersion curvePool pqPool
  rw [BundleKeys.served] at hB
  obtain ⟨dh, hdhI, hdhR⟩ := dhParts_agree hP hb hc a r.eph
  obtain ⟨ct, ss, hen, hde⟩ := kem_agree hP hb hq r.coins
  obtain ⟨sig, hsig⟩ : ∃ sig, signPrekey P idI "curve-signed" kid (.str "X25519")
      (P.x25519Public a) = .ok sig := by
    have h32 : ¬ idI.1.length ≠ 32 := not_not.mpr idI.2
    unfold signPrekey sigMsg
    rw [if_neg h32]
    exact ⟨_, rfl⟩
  refine ⟨_, _, _, _, _, pqxdhInitiate_served hP hb hB hc hq hstore idI my peer conv body version r
    hdhI hen hsig, ?_, (initiatorState_context P _ conv my peer version r).1,
    (initiatorState_context P _ conv my peer version r).2.1,
    (initiatorState_context P _ conv my peer version r).2.2, (curveOtkOf_served hb hB hc).2,
    (kemChoice_served hP hb hB hq).2.2, fun expected r' he => ⟨_, _, ?_, mirrored P _ conv my peer
    version r r', storeLoses_served hb hc hq⟩⟩
  · simp [takeSendKey, initiatorState, DoubleRatchet.new, DoubleRatchet.setContext,
      b64e_sid_ne_empty r.sid]
  · rw [safetyFingerprint_comm]
    exact pqxdhRespond_served hP hb hc hq idI my peer conv body version r hdhR hde hsig he r'

/-- **PQXDH agreement.**  Whatever the bundle of the responder, the one-time keys it is served with,
the store of the initiator, the body, the ids and the conversation: the initiator gets a wire, and
the responder opens it to the same body, a mirrored ratchet state and the same safety number, and
loses exactly the one-time keys that the wire names. -/
theorem pqxdh_agreement (hP : P.Correct) (idR idI : Seed) {kemAlg : Option String} {otkCount : ℕ}
    {rand : BundleRand} {upload store : Json}
    (hgen : generateLocalBundle P (P.ed25519Public idR) idR kemAlg otkCount rand =
      .ok (upload, store))
    {curve pq : Option Json} (hcurve : ∀ j ∈ curve, j ∈ items (field upload "curve_one_time_prekeys"))
    (hpq : ∀ j ∈ pq, j ∈ items (field upload "pq_one_time_prekeys"))
    (uid identityVersion curvePool pqPool : ℤ) {storeI : Json} {kid : ℤ} {a : Seed}
    (hstore : HasSignedCurve P storeI kid a) (my peer conv : ℤ) (body : String) (version : Option ℤ)
    (r : InitRand) :
    ∃ wire s fp cid qid,
      pqxdhInitiate P (servedBundle upload curve pq uid identityVersion curvePool pqPool) storeI
        (P.ed25519Public idI) idI my peer body version conv r = .ok (wire, s, fp) ∧
      s.sessionId = b64e r.sid ∧ s.conversationId = conv ∧ s.myUid = my ∧ s.peerUid = peer ∧
      otkId (servedBundle upload curve pq uid identityVersion curvePool pqPool) "curve_otk_id" =
        .ok cid ∧
      otkId (servedBundle upload curve pq uid identityVersion curvePool pqPool) "pq_otk_id" =
        .ok qid ∧
      ∀ (expected : Option ℤ) (r' : RespondRand), (∀ u ∈ expected, u = peer) →
        ∃ t store', pqxdhRespond P wire expected r' store = (.ok (body, t, fp, my), store') ∧
          Mirrored s t ∧ StoreLoses store store' cid qid := by
  obtain ⟨b, hkeys, hgen⟩ := bind_eq_ok_iff.mp hgen
  cases hgen
  obtain ⟨hb, hid⟩ := bundleKeys_genuine hP hkeys
  have hcItems : items (field b.upload "curve_one_time_prekeys") =
      b.curveOtks.map BundleKeys.curveItem := by
    simp [field, items, BundleKeys.upload, Except.toOption]
  have hqItems : items (field b.upload "pq_one_time_prekeys") =
      b.pqOtks.map (BundleKeys.pqItem b.alg) := by
    simp [field, items, BundleKeys.upload, Except.toOption]
  rw [hcItems] at hcurve
  rw [hqItems] at hpq
  obtain ⟨c, rfl, hc⟩ := exists_otk_of_item hcurve
  obtain ⟨q, rfl, hq⟩ := exists_otk_of_item hpq
  exact pqxdh_agreement_served hP hb hc hq idI uid identityVersion curvePool pqPool hstore my peer conv
    body version r

/-- A seed for tests: one octet repeated. -/
def testSeed (x : UInt8) : Seed := ⟨List.replicate 32 x, by simp⟩

/-- The random choices of a bundle in the term model. -/
def testBundleRand : BundleRand where
  millis := 5
  curve := testSeed 1
  pq := testSeed 2
  curveOtk i := testSeed (UInt8.ofNat (10 + i))
  pqOtk i := testSeed (UInt8.ofNat (20 + i))

/-- The random choices of an initiator in the term model. -/
def testInitRand : InitRand where
  coins := testSeed 3
  eph := testSeed 4
  sid := ⟨List.replicate 16 7, by simp⟩
  dr := testSeed 5
  nonce := ⟨List.replicate 12 0, by simp⟩
  ts := 0

theorem bundleKeys_term : ∃ b, bundleKeys termPrims (testSeed 8) (testSeed 8) none 1 testBundleRand =
    .ok b :=
  ⟨_, rfl⟩

/-- A handshake in the term model. -/
theorem handshake_term : ∃ bundle store wire s fp t store',
    pqxdhInitiate termPrims bundle store (testSeed 9) (testSeed 9) 1 2 "hi" none 7 testInitRand =
      .ok (wire, s, fp) ∧
    pqxdhRespond termPrims wire (some 2) ⟨testSeed 6, testInitRand.sid⟩ store =
      (.ok ("hi", t, fp, 1), store') := by
  have hP := termPrims_symbolic.toCorrect
  obtain ⟨b, hb⟩ := bundleKeys_term
  have hg := (bundleKeys_genuine hP hb).1
  obtain ⟨a, ha⟩ := hg.hasSignedCurve
  obtain ⟨wire, s, fp, cid, qid, hi, -, -, -, -, -, -, hr⟩ :=
    pqxdh_agreement_served hP hg (c := none) (q := none) (by simp) (by simp) (testSeed 9) 2 0 0 0 ha 1 2
      7 "hi" none testInitRand
  obtain ⟨t, store', hr, -, -⟩ := hr (some 2) ⟨testSeed 6, testInitRand.sid⟩ (by simp)
  exact ⟨_, _, wire, s, fp, t, store', hi, hr⟩

/-- Agreement in the term model, with a one-time key of each kind. -/
theorem pqxdh_agreement_term : ∃ upload store wire s fp,
    generateLocalBundle termPrims (testSeed 8) (testSeed 8) none 1 testBundleRand =
      .ok (upload, store) ∧
    pqxdhInitiate termPrims
      (servedBundle upload (items (field upload "curve_one_time_prekeys")).head?
        (items (field upload "pq_one_time_prekeys")).head? 2 0 0 0)
      store (testSeed 9) (testSeed 9) 1 2 "hi" none 7 testInitRand = .ok (wire, s, fp) ∧
    ∃ t store', pqxdhRespond termPrims wire (some 2) ⟨testSeed 6, testInitRand.sid⟩ store =
      (.ok ("hi", t, fp, 1), store') ∧ Mirrored s t := by
  have hP := termPrims_symbolic.toCorrect
  obtain ⟨b, hb⟩ := bundleKeys_term
  obtain ⟨a, ha⟩ := (bundleKeys_genuine hP hb).1.hasSignedCurve
  have hgen : generateLocalBundle termPrims (testSeed 8) (testSeed 8) none 1 testBundleRand =
      .ok (b.upload, b.localStore) := bind_eq_ok_iff.mpr ⟨b, hb, rfl⟩
  obtain ⟨wire, s, fp, cid, qid, hi, -, -, -, -, -, -, hr⟩ :=
    pqxdh_agreement hP (testSeed 8) (testSeed 9) hgen (fun j hj => List.mem_of_mem_head? hj)
      (fun j hj => List.mem_of_mem_head? hj) 2 0 0 0 ha 1 2 7 "hi" none testInitRand
  obtain ⟨t, store', hr, hm, -⟩ := hr (some 2) ⟨testSeed 6, testInitRand.sid⟩ (by simp)
  exact ⟨b.upload, b.localStore, wire, s, fp, hgen, hi, t, store', hr, hm⟩

end SecChat
