import SecChat.Protocol.RatchetAgreement
import SecChat.Session.Client

/-!
# Where an accepted `S3PQI` was delivered

The fields of an `S3PQI` are sealed with its text, but the receiving paths never compare them with
the conversation and the sender of the delivery: they record what the payload says.

* `RespondSource`: what a wire that `pqxdh_respond` opens says;
* `Accepts`: a live message or a row of the history with an `S3PQI` that is accepted;
* `BoundTo`: what is recorded belongs to the conversation and the sender of the delivery;
* `boundTo_iff_routed`: that is so exactly when the payload names them.
-/

namespace SecChat

open Py DoubleRatchet

/-! ### The payload -/

/-- `int(obj.get("conversation_id", 0) or 0)`. -/
def payloadConversation (obj : Json) : Except Exn ℤ := do
  ((← obj.getD "conversation_id" (.int 0)).orElse (.int 0)).toInt

/-- `int(obj["sender_uid"])`. -/
def payloadSender (obj : Json) : Except Exn ℤ := do (← obj.getItem "sender_uid").toInt

/-- `b64d(obj["identity_pk"])`. -/
def payloadKey (obj : Json) : Except Exn Bytes := do b64dJson (← obj.getItem "identity_pk")

/-- `str(meta.get("identity_pk", "") or "")`. -/
def payloadKeyText (obj : Json) : Except Exn String := do
  return ((← obj.getD "identity_pk" (.str "")).orElse (.str "")).toStr

/-- `b64d(local_store["identity_pk"])`. -/
def storeKey (store : Json) : Except Exn Bytes := do b64dJson (← store.getItem "identity_pk")

/-- What a wire that `pqxdh_respond` opened says: its fields stand in the associated data of its
text, and sender, session context and safety number are read off them. -/
structure RespondSource (P : Prims) (wire : String) (store : Json) (state : DoubleRatchet)
    (fingerprint : String) (sender : ℤ) (obj : Json) : Prop where
  read : jsonUnb64 (dropTag prefixPqInit wire) = .ok obj
  sealed : ∃ key ct text, obj.getItem "ct" = .ok ct ∧
    aeadDecrypt P key ct (canonical (withoutCt obj)) = .ok text
  sender : payloadSender obj = .ok sender
  conversation : payloadConversation obj = .ok state.conversationId
  version : ∃ version, versionOf obj = .ok version
  fingerprint : ∃ own key, storeKey store = .ok own ∧ payloadKey obj = .ok key ∧
    fingerprint = safetyFingerprint P own key

section Respond

variable {P : Prims}

/-- What `respondFinish` read. -/
theorem respondFinish_source {wire plain fp : String} {obj store alg : Json} {uid sender : ℤ}
    {pk curve curveSk otkSk pqSk : Bytes} {r : RespondRand} {state : DoubleRatchet}
    (hread : jsonUnb64 (dropTag prefixPqInit wire) = .ok obj) (hsender : payloadSender obj = .ok uid)
    (hkey : payloadKey obj = .ok pk)
    (h : respondFinish P obj store uid pk curve curveSk otkSk pqSk alg r =
      .ok (plain, state, fp, sender)) :
    RespondSource P wire store state fp sender obj := by
  unfold respondFinish at h
  obtain ⟨_, -, h⟩ := bind_eq_ok_iff.mp h
  obtain ⟨ephPk, -, h⟩ := bind_eq_ok_iff.mp h
  obtain ⟨dh, -, h⟩ := bind_eq_ok_iff.mp h
  obtain ⟨_, -, h⟩ := bind_eq_ok_iff.mp h
  obtain ⟨_, -, h⟩ := bind_eq_ok_iff.mp h
  obtain ⟨pqSs, -, h⟩ := bind_eq_ok_iff.mp h
  obtain ⟨_, -, h⟩ := bind_eq_ok_iff.mp h
  obtain ⟨remote, -, h⟩ := bind_eq_ok_iff.mp h
  obtain ⟨sid, -, h⟩ := bind_eq_ok_iff.mp h
  obtain ⟨_, hc, h⟩ := bind_eq_ok_iff.mp h
  obtain ⟨conv, hconv, h⟩ := bind_eq_ok_iff.mp h
  obtain ⟨_, -, h⟩ := bind_eq_ok_iff.mp h
  obtain ⟨my, -, h⟩ := bind_eq_ok_iff.mp h
  obtain ⟨version, hversion, h⟩ := bind_eq_ok_iff.mp h
  obtain ⟨ct, hct, h⟩ := bind_eq_ok_iff.mp h
  obtain ⟨text, hopen, h⟩ := bind_eq_ok_iff.mp h
  obtain ⟨_, -, h⟩ := bind_eq_ok_iff.mp h
  obtain ⟨_, hid, h⟩ := bind_eq_ok_iff.mp h
  obtain ⟨own, hown, h⟩ := bind_eq_ok_iff.mp h
  simp only [pure_eq_ok, Except.ok.injEq, Prod.mk.injEq] at h
  obtain ⟨-, rfl, rfl, rfl⟩ := h
  refine ⟨hread, ⟨_, ct, text, hct, hopen⟩, hsender, ?_, ⟨version, hversion⟩, own, pk, ?_,
    hkey, rfl⟩
  · refine bind_eq_ok_iff.mpr ⟨_, hc, ?_⟩
    rw [hconv]
    by_cases h0 : conv = 0 <;> simp [DoubleRatchet.setContext, DoubleRatchet.new, h0]
  · exact bind_eq_ok_iff.mpr ⟨_, hid, hown⟩

/-- What the check of the sender's signature reads. -/
theorem senderCheck_reads {obj : Json} {sender uid : ℤ} {pk curve : Bytes}
    (h : (do
      let identity ← b64dJson (← obj.getItem "identity_pk")
      let curve ← b64dJson (← obj.getItem "sender_curve_spk")
      verifyPrekey P identity "curve-signed" (← (← obj.getItem "sender_curve_spk_id").toInt)
        (.str "X25519") curve (← b64dJson (← obj.getItem "sender_curve_spk_sig"))
      return (sender, identity, curve)) = Except.ok (uid, pk, curve)) :
    sender = uid ∧ payloadKey obj = .ok pk := by
  obtain ⟨_, hraw, h⟩ := bind_eq_ok_iff.mp h
  obtain ⟨identity, hidentity, h⟩ := bind_eq_ok_iff.mp h
  obtain ⟨_, -, h⟩ := bind_eq_ok_iff.mp h
  obtain ⟨_, -, h⟩ := bind_eq_ok_iff.mp h
  obtain ⟨_, -, h⟩ := bind_eq_ok_iff.mp h
  obtain ⟨_, -, h⟩ := bind_eq_ok_iff.mp h
  obtain ⟨_, -, h⟩ := bind_eq_ok_iff.mp h
  obtain ⟨_, -, h⟩ := bind_eq_ok_iff.mp h
  obtain ⟨_, -, h⟩ := bind_eq_ok_iff.mp h
  simp only [pure_eq_ok, Except.ok.injEq, Prod.mk.injEq] at h
  obtain ⟨rfl, rfl, -⟩ := h
  exact ⟨rfl, bind_eq_ok_iff.mpr ⟨_, hraw, hidentity⟩⟩

/-- What the checks before the store is touched read. -/
theorem respondCheck_reads {obj : Json} {expected : Option ℤ} {uid : ℤ} {pk curve : Bytes}
    (h : respondCheck P obj expected = .ok (uid, pk, curve)) :
    payloadSender obj = .ok uid ∧ payloadKey obj = .ok pk := by
  unfold respondCheck at h
  obtain ⟨raw, hraw, h⟩ := bind_eq_ok_iff.mp h
  obtain ⟨sender, hsender, h⟩ := bind_eq_ok_iff.mp h
  have hsender : payloadSender obj = .ok sender := bind_eq_ok_iff.mpr ⟨raw, hraw, hsender⟩
  cases expected with
  | none =>
    obtain ⟨rfl, hkey⟩ := senderCheck_reads h
    exact ⟨hsender, hkey⟩
  | some expected =>
    obtain ⟨_, -, h⟩ := bind_eq_ok_iff.mp h
    obtain ⟨recipient, -, h⟩ := bind_eq_ok_iff.mp h
    split at h
    · cases h
    · obtain ⟨rfl, hkey⟩ := senderCheck_reads h
      exact ⟨hsender, hkey⟩

/-- What a wire that `pqxdh_respond` opened says. -/
theorem pqxdhRespond_source {wire plain fp : String} {store store' : Json} {expected : Option ℤ}
    {r : RespondRand} {state : DoubleRatchet} {sender : ℤ}
    (h : pqxdhRespond P wire expected r store = (.ok (plain, state, fp, sender), store')) :
    ∃ obj, RespondSource P wire store' state fp sender obj := by
  unfold pqxdhRespond at h
  obtain ⟨obj, _, hobj, h⟩ := Method.bind_eq_ok h
  obtain ⟨⟨uid, pk, curve⟩, _, hcheck, h⟩ := Method.bind_eq_ok h
  obtain ⟨curveId, _, -, h⟩ := Method.bind_eq_ok h
  obtain ⟨pqId, _, -, h⟩ := Method.bind_eq_ok h
  rw [Method.get_bind] at h
  obtain ⟨curveSk, _, -, h⟩ := Method.bind_eq_ok h
  obtain ⟨otkSk, _, -, h⟩ := Method.bind_eq_ok h
  obtain ⟨alg, _, -, h⟩ := Method.bind_eq_ok h
  obtain ⟨pqSk, used, -, h⟩ := Method.bind_eq_ok h
  rw [Method.get_bind, Method.ofExcept_run] at h
  obtain ⟨hfin, rfl⟩ := Prod.mk.inj h
  rw [Method.ofExcept_run] at hobj hcheck
  obtain ⟨hsender, hkey⟩ := respondCheck_reads (Prod.mk.inj hcheck).1
  exact ⟨obj, respondFinish_source (Prod.mk.inj hobj).1 hsender hkey hfin⟩

/-- What `pqxdh_initiate` makes is an `S3PQI` wire. -/
theorem pqxdhInitiate_tag {bundle store : Json} {idPk idSk : Bytes} {my peer conv : ℤ}
    {body wire fp : String} {version : Option ℤ} {r : InitRand} {s : DoubleRatchet}
    (h : pqxdhInitiate P bundle store idPk idSk my peer body version conv r = .ok (wire, s, fp)) :
    wire.startsWith prefixPqInit = true := by
  obtain ⟨_, _, _, _, _, _, _, _, _, _, _, -, rfl⟩ := pqxdhInitiate_eq_ok h
  exact startsWith_append _ _

end Respond

/-! ### What is recorded -/

namespace Client

variable {G : Type} {P : Prims} {A : MlsApp G}

/-- What an accepted `S3PQI` leaves behind. -/
structure Recorded (c c' : Client G) (conv sender : ℤ) (fingerprint keyText : String)
    (version : Option ℤ) (now : ℤ) (store : Json) : Prop where
  peerUids : c'.convPeerUids = Function.update c.convPeerUids conv (some sender)
  fingerprints : c'.convFingerprints = Function.update c.convFingerprints conv fingerprint
  prekeys : c'.pqxdhPrekeys = some store
  audit : c'.audit = if keyText ≠ "" then
    c.audit.recordIdentitySeenUnverified now sender keyText version fingerprint "pqxdh_initial"
    else c.audit

theorem acceptInit_recorded {c c' : Client G} {conv sender now : ℤ} {obj store : Json}
    {state : DoubleRatchet} {fp : String} {peer : PeerInfo} (hstore : c.pqxdhPrekeys = some store)
    (h : c.acceptInit conv obj state fp sender now = .ok (peer, c')) :
    ∃ keyText version, payloadKeyText obj = .ok keyText ∧
      c.Recorded c' conv sender fp keyText version now store := by
  unfold acceptInit at h
  obtain ⟨key, hkey, h⟩ := bind_eq_ok_iff.mp h
  obtain ⟨_, -, h⟩ := bind_eq_ok_iff.mp h
  obtain ⟨version, -, h⟩ := bind_eq_ok_iff.mp h
  simp only [pure_eq_ok, Except.ok.injEq, Prod.mk.injEq] at h
  obtain ⟨-, rfl⟩ := h
  exact ⟨_, version, bind_eq_ok_iff.mpr ⟨key, hkey, rfl⟩, rfl, rfl, hstore, rfl⟩

/-- After `pqxdh_respond` nothing that is recorded can be missing from the payload. -/
theorem acceptInit_total {c : Client G} {conv sender now : ℤ} {obj store : Json} {body fp : String}
    {state : DoubleRatchet} (hsource : RespondSource P body store state fp sender obj) :
    ∃ peer c', c.acceptInit conv obj state fp sender now = .ok (peer, c') := by
  obtain ⟨_, _, _, hkey, _⟩ := hsource.fingerprint
  obtain ⟨version, hversion⟩ := hsource.version
  obtain ⟨key, hkey, -⟩ := bind_eq_ok_iff.mp hkey
  obtain ⟨raw, hraw, -⟩ := bind_eq_ok_iff.mp hversion
  unfold acceptInit
  rw [Json.getD_of_getItem hkey, ok_bind, hraw, ok_bind, hversion, ok_bind]
  exact ⟨_, _, rfl⟩

/-- Loading the prekeys changes nothing else. -/
theorem loadPqxdhPrekeys_frame (c : Client G) :
    ∃ keys, c.loadPqxdhPrekeys.2 = { c with pqxdhPrekeys := keys } := by
  simp only [loadPqxdhPrekeys]
  split
  · exact ⟨c.pqxdhPrekeys, rfl⟩
  · split
    · exact ⟨c.prekeysFile, rfl⟩
    · exact ⟨c.pqxdhPrekeys, rfl⟩

/-- What happened when an `S3PQI` of a new session was accepted. -/
theorem openInit_accepted {c c' : Client G} {conv : ℤ} {existing : Bool} {obj : Json}
    {body plain : String} {rand : RecvRand} {peer : PeerInfo}
    (hobj : obj = ((jsonUnb64 (dropTag prefixPqInit body)).toOption).getD (.obj []))
    (h : c.openInit P conv existing obj body rand = (.accepted plain peer, c')) :
    ∃ store state fp sender keyText version, RespondSource P body store state fp sender obj ∧
      payloadKeyText obj = .ok keyText ∧
      c.Recorded c' conv sender fp keyText version rand.now store := by
  unfold openInit at h
  split at h
  · cases h
  next store c₁ hload =>
    split at h
    · cases h
    next plain' state fp sender c₂ hrespond =>
      split at h
      next peer' c₃ haccept =>
        obtain ⟨hres, rfl⟩ := Prod.mk.inj h
        unfold respondPqxdh at hrespond
        split at hrespond
        next result candidate hpq =>
          obtain ⟨hresult, rfl⟩ := Prod.mk.inj hrespond
          obtain rfl := Except.ok.inj hresult
          obtain ⟨obj', hsource⟩ := pqxdhRespond_source hpq
          have hobj' : obj = obj' := by rw [hobj, hsource.read]; rfl
          subst hobj'
          obtain ⟨keyText, version, hkey, hrec⟩ := acceptInit_recorded rfl haccept
          refine ⟨candidate, state, fp, sender, keyText, version, hsource, hkey, ?_⟩
          obtain ⟨keys, rfl⟩ : ∃ keys, c₁ = { c with pqxdhPrekeys := keys } := by
            obtain ⟨keys, hkeys⟩ := c.loadPqxdhPrekeys_frame
            exact ⟨keys, by rw [← hkeys, hload]⟩
          exact ⟨hrec.peerUids, hrec.fingerprints, hrec.prekeys, hrec.audit⟩
        · cases hrespond
      · cases h

/-- What happened when an `S3PQI` was accepted. -/
theorem receiveInit_accepted {c c' : Client G} {conv : ℤ} {body plain : String} {rand : RecvRand}
    {peer : PeerInfo} (h : c.receiveInit P conv body rand = (.accepted plain peer, c')) :
    ∃ obj store state fp sender keyText version, RespondSource P body store state fp sender obj ∧
      payloadKeyText obj = .ok keyText ∧
      c.Recorded c' conv sender fp keyText version rand.now store := by
  unfold receiveInit at h
  simp only at h
  split at h
  · cases h
  split at h
  · obtain ⟨store, state, fp, sender, keyText, version, hsource, hkey, hrec⟩ := openInit_accepted rfl h
    exact ⟨_, store, state, fp, sender, keyText, version, hsource, hkey, hrec.peerUids,
      hrec.fingerprints, hrec.prekeys, hrec.audit⟩
  split at h
  · cases h
  · obtain ⟨store, state, fp, sender, keyText, version, hsource, hkey, hrec⟩ := openInit_accepted rfl h
    exact ⟨_, store, state, fp, sender, keyText, version, hsource, hkey, hrec.peerUids,
      hrec.fingerprints, hrec.prekeys, hrec.audit⟩

/-- A live message that is no `S3PQI` gets no author. -/
theorem receiveLive_other {c : Client G} {conv sender : ℤ} {body : String} {rand : RecvRand}
    (hbody : body.startsWith prefixPqInit = false) :
    (c.receiveLive P A conv sender (.str body) rand).1.peer = none := by
  have hbody : ¬ body.startsWith prefixPqInit = true := by simp [hbody]
  simp only [receiveLive, if_neg hbody]
  split
  · rfl
  · rfl
  · split
    · rfl
    · split
      · split <;> rfl
      · split
        · split <;> rfl
        · rfl

/-- Only an `S3PQI` that was accepted gives a live message an author. -/
theorem receiveLive_peer {c c' : Client G} {conv sender : ℤ} {body : String} {rand : RecvRand}
    {result : LiveResult} {peer : PeerInfo} (hpeer : result.peer = some peer)
    (h : c.receiveLive P A conv sender (.str body) rand = (result, c')) :
    ∃ plain, c.receiveInit P conv body rand = (.accepted plain peer, c') := by
  cases hbody : body.startsWith prefixPqInit with
  | false =>
    have hnone : (c.receiveLive P A conv sender (.str body) rand).1.peer = none :=
      receiveLive_other hbody
    rw [h, hpeer] at hnone
    cases hnone
  | true =>
    simp only [receiveLive, if_pos hbody] at h
    split at h
    · obtain ⟨rfl, -⟩ := Prod.mk.inj h
      cases hpeer
    split at h
    next c₁ _ =>
      obtain ⟨rfl, -⟩ := Prod.mk.inj h
      cases hpeer
    next existing c₁ _ =>
      obtain ⟨rfl, -⟩ := Prod.mk.inj h
      cases existing <;> cases hpeer
    next plain peer' c₁ hinit =>
      obtain ⟨rfl, rfl⟩ := Prod.mk.inj h
      refine ⟨plain, ?_⟩
      -- both kinds of text carry the same author
      split at hpeer
      · obtain rfl := Option.some.inj hpeer
        exact hinit
      · obtain rfl := Option.some.inj hpeer
        exact hinit
    next c₁ _ =>
      obtain ⟨rfl, -⟩ := Prod.mk.inj h
      cases hpeer
    next e c₁ _ =>
      obtain ⟨rfl, -⟩ := Prod.mk.inj h
      cases hpeer

/-- Only an `S3PQI` that was accepted makes a row `init`. -/
theorem receiveRow_init {c c' : Client G} {conv id sender : ℤ} {cached : List CacheEntry}
    {body plain : String} {rand : RecvRand} {peer : PeerInfo}
    (h : c.receiveRow P A conv cached id sender (.str body) rand = (.ok (.init plain peer), c')) :
    c.receiveInit P conv body rand = (.accepted plain peer, c') := by
  simp only [receiveRow, showRow] at h
  split at h
  · split at h
    · cases h
    split at h
    · cases h
    next existing c₁ _ => cases existing <;> cases h
    next plain' peer' c₁ hinit =>
      obtain ⟨hres, rfl⟩ := Prod.mk.inj h
      obtain ⟨rfl, rfl⟩ := RowResult.init.inj (Except.ok.inj hres)
      exact hinit
    · cases h
    · cases h
  split at h
  · split at h
    · cases h
    split at h
    · cases h
    · split at h <;> cases h
  split at h
  · split at h
    · cases h
    split at h
    · cases h
    · split at h <;> cases h
  · cases h

variable (P A) in
/-- The client accepts the `S3PQI` `body`, delivered in `conv` as a message of `sender`, live or as a
row of the history. -/
inductive Accepts (c : Client G) (conv sender : ℤ) (body : String) (c' : Client G) : Prop
  | live {msg : Json} {rand : RecvRand} {result : LiveResult} {peer : PeerInfo}
      (envelope : envelopeOf msg = .ok (conv, sender, .str body))
      (run : c.decryptLiveMessage P A msg rand = (result, c')) (accepted : result.peer = some peer)
  | history {row : Json} {cached : List CacheEntry} {rand : RecvRand} {f : RowFields}
      {plain : String} {peer : PeerInfo} (fields : rowFields row = .ok f)
      (sender : f.sender = sender) (body : f.body = .str body)
      (run : c.decryptHistoryRow P A conv cached row rand = (.ok (.init plain peer), c'))

/-- Both paths accept through `receiveInit`. -/
theorem Accepts.receiveInit {c c' : Client G} {conv sender : ℤ} {body : String}
    (h : c.Accepts P A conv sender body c') :
    ∃ rand plain peer, c.receiveInit P conv body rand = (.accepted plain peer, c') := by
  cases h with
  | @live msg rand result peer envelope run accepted =>
    rw [decryptLiveMessage, envelope] at run
    obtain ⟨plain, hinit⟩ := receiveLive_peer accepted run
    exact ⟨rand, plain, peer, hinit⟩
  | @history row cached rand f plain peer fields hsender hbody run =>
    rw [decryptHistoryRow, fields] at run
    simp only at run
    split at run
    · cases run
    split at run
    · cases run
    rw [hbody] at run
    exact ⟨rand, plain, peer, receiveRow_init run⟩

variable (P) in
/-- What the client records for an accepted `S3PQI` belongs to the conversation and the sender it was
delivered with. -/
structure BoundTo (c c' : Client G) (conv sender : ℤ) (body : String) : Prop where
  /-- The sealed payload names them. -/
  payload : ∃ obj key ct text, jsonUnb64 (dropTag prefixPqInit body) = .ok obj ∧
    obj.getItem "ct" = .ok ct ∧ aeadDecrypt P key ct (canonical (withoutCt obj)) = .ok text ∧
    payloadConversation obj = .ok conv ∧ payloadSender obj = .ok sender
  /-- The peer of the conversation is the sender. -/
  peerUid : c'.convPeerUids conv = some sender
  /-- The safety number is that of the key that the payload has for the sender. -/
  fingerprint : ∃ obj store own key, jsonUnb64 (dropTag prefixPqInit body) = .ok obj ∧
    payloadSender obj = .ok sender ∧ payloadKey obj = .ok key ∧ c'.pqxdhPrekeys = some store ∧
    storeKey store = .ok own ∧ c'.convFingerprints conv = safetyFingerprint P own key
  /-- The key is recorded for the sender, with that safety number. -/
  entry : ∃ obj keyText, jsonUnb64 (dropTag prefixPqInit body) = .ok obj ∧
    payloadKeyText obj = .ok keyText ∧ (keyText ≠ "" →
      (c'.audit.loadIdentityAudit sender).identityPk = some keyText ∧
      (c'.audit.loadIdentityAudit sender).safetyNumber = some (c'.convFingerprints conv))
  /-- Nothing is recorded for anybody else. -/
  others : ∀ u ≠ sender, c'.audit.loadIdentityAudit u = c.audit.loadIdentityAudit u

/-- The payload names the conversation and the sender of the delivery. -/
def Routed (conv sender : ℤ) (body : String) : Prop :=
  ∃ obj, jsonUnb64 (dropTag prefixPqInit body) = .ok obj ∧ payloadConversation obj = .ok conv ∧
    payloadSender obj = .ok sender

/-- **Where an accepted `S3PQI` was delivered.**  What is recorded for it belongs to the conversation
and the sender of the delivery exactly when its payload names them: nothing else is checked. -/
theorem boundTo_iff_routed {c c' : Client G} {conv sender : ℤ} {body : String}
    (h : c.Accepts P A conv sender body c') :
    c.BoundTo P c' conv sender body ↔ Routed conv sender body := by
  obtain ⟨rand, plain, peer, h⟩ := h.receiveInit
  obtain ⟨obj, store, state, fp, sender', keyText, version, hsource, hkey, hrec⟩ :=
    receiveInit_accepted h
  constructor
  · rintro ⟨⟨obj, _, _, _, hobj, -, -, hconv, hsender⟩, -, -, -, -⟩
    exact ⟨obj, hobj, hconv, hsender⟩
  · rintro ⟨obj', hobj, hconv, hsender⟩
    obtain rfl : obj = obj' := Except.ok.inj (hsource.read.symm.trans hobj)
    obtain rfl : sender' = sender := Except.ok.inj (hsource.sender.symm.trans hsender)
    obtain ⟨key, ct, text, hct, hopen⟩ := hsource.sealed
    obtain ⟨own, pk, hown, hpk, hfp⟩ := hsource.fingerprint
    refine ⟨⟨obj, key, ct, text, hobj, hct, hopen, hconv, hsender⟩, ?_,
      ⟨obj, store, own, pk, hobj, hsender, hpk, hrec.prekeys, hown, ?_⟩,
      ⟨obj, keyText, hobj, hkey, fun hne => ?_⟩, fun u hu => ?_⟩
    · rw [hrec.peerUids, Function.update_self]
    · rw [hrec.fingerprints, Function.update_self, hfp]
    · rw [hrec.audit, if_pos hne, hrec.fingerprints, Function.update_self]
      exact ⟨by simp [AuditSession.recordIdentitySeenUnverified, AuditSession.load_save_self],
        by simp [AuditSession.recordIdentitySeenUnverified, AuditSession.load_save_self]⟩
    · rw [hrec.audit]
      split
      · exact AuditSession.load_save_of_ne _ _ hu
      · rfl

/-! ### A delivery under another name -/

/-- A client that has prekeys and nothing else. -/
def fresh (uid : ℤ) (store : Json) : Client Unit where
  myUid := uid
  identityPk := []
  identitySk := []
  persist := false
  pqxdhPrekeys := some store
  prekeysFile := none
  dm _ := ⟨false, fun _ => DoubleRatchet.new termPrims [] false [] "" (testSeed 0) (testInitRand.sid),
    0, none, none, none, none⟩
  convPeerUids _ := none
  convFingerprints _ := ""
  audit := .empty
  groupConvIds _ := false
  mlsGroupReady _ := false
  mls := ()
  cacheOn _ := false
  cache _ := []

/-- A bridge that opens nothing. -/
def noMls : MlsApp Unit := ⟨fun _ _ _ => none⟩

/-- A fresh client accepts every wire that its prekeys open. -/
theorem receiveInit_fresh {uid conv sender : ℤ} {store store' : Json} {body plain fp : String}
    {state : DoubleRatchet} {rand : RecvRand}
    (hstore : store.truthy = true)
    (h : pqxdhRespond P body (some uid) rand.respond store = (.ok (plain, state, fp, sender), store')) :
    ∃ peer c', (fresh uid store).receiveInit P conv body rand = (.accepted plain peer, c') := by
  obtain ⟨obj, hsource⟩ := pqxdhRespond_source h
  have hopen : ∀ c : Client Unit, c.pqxdhPrekeys = some store → c.myUid = uid → ∀ existing,
      ∃ peer c', c.openInit P conv existing obj body rand = (.accepted plain peer, c') := by
    intro c hkeys huid existing
    have hload : c.loadPqxdhPrekeys = (some store, c) := by
      simp [loadPqxdhPrekeys, hkeys, Option.filter, hstore]
    subst huid
    simp only [openInit, hload, respondPqxdh, h]
    have haccept : ∀ c : Client Unit, ∃ peer c',
        c.acceptInit conv obj state fp sender rand.now = .ok (peer, c') := fun _ =>
      acceptInit_total hsource
    obtain ⟨peer, c', haccept⟩ := haccept { c with
      pqxdhPrekeys := some store'
      prekeysFile := if c.persist then some store' else c.prekeysFile }
    rw [haccept]
    exact ⟨peer, c', rfl⟩
  obtain ⟨sid, hsid⟩ : ∃ sid, obj.getD "sid" (.str "") = .ok sid := by
    obtain ⟨_, hitem, -⟩ := bind_eq_ok_iff.mp hsource.sender
    cases obj with
    | obj kvs => exact ⟨_, rfl⟩
    | _ => cases hitem
  have hmeta : ((jsonUnb64 (dropTag prefixPqInit body)).toOption).getD (.obj []) = obj := by
    rw [hsource.read]
    rfl
  unfold receiveInit
  simp only [hmeta, hsid]
  split
  · exact hopen _ rfl rfl _
  · rw [if_neg]
    · exact hopen _ rfl rfl _
    · simp [withDm, fresh, DmStore.loadDoubleRatchet, DmStore.loadSessions, DmStore.readSessions,
        DmStore.overlay]

/-- An honest `S3PQI` of user 1 to user 2 for conversation 7 is accepted in whatever conversation it
is delivered, as a message of anybody else. -/
theorem accepts_handshake (conv sender : ℤ) (hsender : sender ≠ 2) :
    ∃ (c c' : Client Unit) (body : String), c.Accepts termPrims noMls conv sender body c' ∧
      Routed 7 1 body ∧ c'.convPeerUids conv = some 1 := by
  have hP := termPrims_symbolic.toCorrect
  obtain ⟨b, hb⟩ := bundleKeys_term
  have hg := (bundleKeys_genuine hP hb).1
  obtain ⟨a, ha⟩ := hg.hasSignedCurve
  obtain ⟨body, s, fp, cid, qid, hi, -, hconv, -, -, -, -, hr⟩ :=
    pqxdh_agreement_served hP hg (c := none) (q := none) (by simp) (by simp) (testSeed 9) 2 0 0 0 ha 1 2
      7 "hi" none testInitRand
  obtain ⟨t, store', hr, hm, -⟩ := hr (some 2) ⟨testSeed 6, testInitRand.sid⟩ (by simp)
  have htruthy : b.localStore.truthy = true := by simp [BundleKeys.localStore, Json.truthy]
  have htag := pqxdhInitiate_tag hi
  obtain ⟨obj, hsource⟩ := pqxdhRespond_source hr
  have hrouted : Routed 7 1 body :=
    ⟨obj, hsource.read, by rw [hsource.conversation, hm.conversationId, hconv], hsource.sender⟩
  let rand : RecvRand := ⟨0, testSeed 1, ⟨testSeed 6, testInitRand.sid⟩⟩
  obtain ⟨peer, c', hinit⟩ : ∃ peer c',
      (fresh 2 b.localStore).receiveInit termPrims conv body rand = (.accepted "hi" peer, c') :=
    receiveInit_fresh htruthy hr
  refine ⟨fresh 2 b.localStore, c', body, ?_, hrouted, ?_⟩
  · have henv : envelopeOf (.obj [("conversation_id", .int conv), ("sender_id", .int sender),
        ("body", .str body)]) = .ok (conv, sender, .str body) := by
      have hzero : (Json.int 0).orElse (.int sender) = .int sender := by simp [Json.orElse]
      have hbody : (Json.str body).orElse (.str "") = .str body := by
        by_cases hb : body = "" <;> simp [Json.orElse, hb]
      simp [envelopeOf, intOrZero, senderOf, hzero, hbody]
    have hrun : ∃ result, (fresh 2 b.localStore).receiveLive termPrims noMls conv sender (.str body)
        rand = (result, c') ∧ result.peer = some peer := by
      simp only [receiveLive, if_pos htag]
      rw [if_neg (show sender ≠ (fresh 2 b.localStore).myUid from hsender), hinit]
      exact ⟨_, rfl, rfl⟩
    obtain ⟨result, hrun, hpeer⟩ := hrun
    exact .live henv (by rw [decryptLiveMessage, henv]; exact hrun) hpeer
  · obtain ⟨obj', store, state, fp', sender', keyText, version, hsource', -, hrec⟩ :=
      receiveInit_accepted hinit
    obtain rfl : obj = obj' := Except.ok.inj (hsource.read.symm.trans hsource'.read)
    obtain rfl : 1 = sender' := Except.ok.inj (hsource.sender.symm.trans hsource'.sender)
    rw [hrec.peerUids, Function.update_self]

/-- The server delivers an honest `S3PQI` in another conversation and under another name. -/
theorem rerouted_not_bound : ¬ ∀ (c c' : Client Unit) (conv sender : ℤ) (body : String),
    c.Accepts termPrims noMls conv sender body c' → c.BoundTo termPrims c' conv sender body := by
  intro hbound
  obtain ⟨c, c', body, haccepts, -, hpeer⟩ := accepts_handshake 8 3 (by decide)
  have hthree := (hbound c c' 8 3 body haccepts).peerUid
  rw [hpeer] at hthree
  cases hthree

/-- Delivered where its author sent it, the same `S3PQI` is bound. -/
theorem bound_of_routed : ∃ (c c' : Client Unit) (body : String),
    c.Accepts termPrims noMls 7 1 body c' ∧ c.BoundTo termPrims c' 7 1 body := by
  obtain ⟨c, c', body, haccepts, hrouted, -⟩ := accepts_handshake 7 1 (by decide)
  exact ⟨c, c', body, haccepts, (boundTo_iff_routed haccepts).mpr hrouted⟩

end Client

end SecChat
