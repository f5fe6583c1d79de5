import SecChat.Protocol.DoubleRatchet

/-!
# What the Double Ratchet methods do

One description for each method, so that later proofs never unfold one: the state after a DH
ratchet (`ratcheted`), after skipping `k` keys (`skipOne_iterate`), after `encrypt` and after
`receive`, and the facts that hold of all of them (the session context never changes).
-/

namespace SecChat

open Py

/-! ### Chains -/

variable (P : Prims)

/-- The chain key `i` steps down a chain. -/
def chainKey (ck : Bytes) (i : ℕ) : Bytes := (fun c => (kdfCk P c).2)^[i] ck

/-- The message key at index `i` of a chain. -/
def messageKey (ck : Bytes) (i : ℕ) : Bytes := (kdfCk P (chainKey P ck i)).1

@[simp] theorem chainKey_zero (ck : Bytes) : chainKey P ck 0 = ck := rfl

theorem chainKey_succ (ck : Bytes) (i : ℕ) :
    chainKey P ck (i + 1) = (kdfCk P (chainKey P ck i)).2 :=
  Function.iterate_succ_apply' _ _ _

theorem chainKey_add (ck : Bytes) (i j : ℕ) :
    chainKey P (chainKey P ck i) j = chainKey P ck (i + j) := by
  rw [chainKey, chainKey, chainKey, Nat.add_comm, Function.iterate_add_apply]

theorem messageKey_add (ck : Bytes) (i j : ℕ) :
    messageKey P (chainKey P ck i) j = messageKey P ck (i + j) := by
  rw [messageKey, chainKey_add, messageKey]

/-- The store of skipped keys with `k` more of them: indices `n, …, n + k - 1` of a chain. -/
def addSkipped (remote ck : Bytes) (n : ℕ) (d : AList (fun _ : String => String)) :
    ℕ → AList (fun _ : String => String)
  | 0 => d
  | k + 1 => (addSkipped remote ck n d k).insert (skipKey remote (n + k : ℕ))
      (b64e (messageKey P ck k))

variable {P}

theorem skipKey_inj {r r' : Bytes} {n n' : ℤ} (h : skipKey r n = skipKey r' n') :
    r = r' ∧ n = n' := by
  have hl := congrArg String.toList h
  have hs : ":".toList = [':'] := rfl
  simp only [skipKey, String.toList_append, List.append_assoc, hs, List.singleton_append] at hl
  obtain ⟨h1, -, h2⟩ := (List.append_cons_inj_of_notMem (colon_notMem_urlsafeB64encode r)
    (colon_notMem_toString_int n)).mp hl
  exact ⟨b64e_injective (String.toList_inj.mp h1), toString_int_injective (String.toList_inj.mp h2)⟩

theorem lookup_addSkipped_of_lt (remote ck : Bytes) (n : ℕ)
    (d : AList (fun _ : String => String)) {i k : ℕ} (hi : i < k) :
    (addSkipped P remote ck n d k).lookup (skipKey remote (n + i : ℕ)) =
      some (b64e (messageKey P ck i)) := by
  induction k with
  | zero => omega
  | succ k ih =>
    rw [addSkipped]
    by_cases h : i = k
    · subst h
      exact AList.lookup_insert _
    · rw [AList.lookup_insert_ne]
      · exact ih (by omega)
      · intro he
        have := (skipKey_inj he).2
        omega

theorem lookup_addSkipped_of_ne (remote ck : Bytes) (n : ℕ)
    (d : AList (fun _ : String => String)) {key : String} {k : ℕ}
    (h : ∀ i < k, key ≠ skipKey remote (n + i : ℕ)) :
    (addSkipped P remote ck n d k).lookup key = d.lookup key := by
  induction k with
  | zero => rfl
  | succ k ih =>
    rw [addSkipped, AList.lookup_insert_ne (h k (by omega)), ih fun i hi => h i (by omega)]

namespace DoubleRatchet

/-! ### The steps of `decrypt` -/

/-- The state after `_dh_ratchet`, given the shared secrets of the old and of the new own key. -/
def ratcheted (P : Prims) (s : DoubleRatchet) (sk : Seed) (remote z z' : Bytes) : DoubleRatchet :=
  let rk := kdfRk P s.rootKey z
  let rk' := kdfRk P rk.1 z'
  { s with
    pn := s.nSend
    nSend := 0
    nRecv := 0
    remoteDh := remote
    ckRecv := rk.2
    hkRecv := headerKey P rk.1 rk.2
    dhPk := P.x25519Public sk
    dhSk := sk
    rootKey := rk'.1
    ckSend := rk'.2
    hkSend := headerKey P rk'.1 rk'.2 }

theorem dhRatchet_of_dh {s : DoubleRatchet} {sk : Seed} {remote z z' : Bytes}
    (h : x25519Dh P s.dhSk remote = .ok z) (h' : x25519Dh P sk remote = .ok z') :
    dhRatchet P sk remote s = (.ok (), ratcheted P s sk remote z z') := by
  simp [dhRatchet, h, h', ratcheted, x25519Keygen]

theorem dhRatchet_eq_ok {s s' : DoubleRatchet} {sk : Seed} {remote : Bytes} {u : Unit}
    (h : dhRatchet P sk remote s = (.ok u, s')) :
    ∃ z z', x25519Dh P s.dhSk remote = .ok z ∧ x25519Dh P sk remote = .ok z' ∧
      s' = ratcheted P s sk remote z z' := by
  cases hz : x25519Dh P s.dhSk remote with
  | error e => simp [dhRatchet, hz] at h
  | ok z =>
    cases hz' : x25519Dh P sk remote with
    | error e => simp [dhRatchet, hz, hz', x25519Keygen] at h
    | ok z' =>
      rw [dhRatchet_of_dh hz hz'] at h
      exact ⟨z, z', rfl, rfl, (Prod.mk.inj h).2.symm⟩

theorem skipOne_iterate (s : DoubleRatchet) (k : ℕ) :
    (skipOne P)^[k] s = { s with
      ckRecv := chainKey P s.ckRecv k
      skipped := addSkipped P s.remoteDh s.ckRecv s.nRecv s.skipped k
      nRecv := s.nRecv + k } := by
  induction k with
  | zero => rfl
  | succ k ih =>
    rw [Function.iterate_succ_apply', ih, skipOne, chainKey_succ]
    rfl

/-- There is room for the keys up to index `n`. -/
def Room (s : DoubleRatchet) (n : ℤ) : Prop :=
  n < s.nRecv ∨ s.skipped.entries.length + (n - s.nRecv) ≤ maxSkipKeys

theorem skipUntil_of_room {s : DoubleRatchet} {n : ℤ} (h : s.Room n) :
    skipUntil P n s = (.ok (), (skipOne P)^[(n - s.nRecv).toNat] s) := by
  unfold skipUntil
  rw [Method.get_bind]
  by_cases hn : n - s.nRecv < 0
  · have h0 : (n - s.nRecv).toNat = 0 := by omega
    rw [if_pos hn, h0]
    rfl
  · have hroom : ¬ (n - s.nRecv > maxSkipKeys ∨
        (s.skipped.entries.length : ℤ) + (n - s.nRecv) > maxSkipKeys) := by
      rcases h with h | h <;> omega
    rw [if_neg hn, if_neg hroom]
    rfl

theorem skipUntil_of_not_room {s : DoubleRatchet} {n : ℤ} (h : ¬ s.Room n) :
    skipUntil P n s = (.error (.valueError "Too many skipped message keys"), s) := by
  unfold skipUntil
  rw [Method.get_bind]
  have hn : ¬ n - s.nRecv < 0 := fun hn => h (.inl (by omega))
  have hroom : n - s.nRecv > maxSkipKeys ∨
      (s.skipped.entries.length : ℤ) + (n - s.nRecv) > maxSkipKeys :=
    .inr (not_le.mp fun hle => h (.inr hle))
  rw [if_neg hn, if_pos hroom]
  rfl

/-- The state after a message key was taken from the receiving chain at index `n`. -/
def advanced (P : Prims) (s : DoubleRatchet) (k : ℕ) : DoubleRatchet :=
  { s with
    ckRecv := chainKey P s.ckRecv (k + 1)
    skipped := addSkipped P s.remoteDh s.ckRecv s.nRecv s.skipped k
    nRecv := s.nRecv + k + 1 }

/-- Whether `receive` turns the DH ratchet for a header key `remote`. -/
def NeedsRatchet (s : DoubleRatchet) (remote : Bytes) : Prop :=
  s.remoteDh = [] ∨ remote ≠ s.remoteDh

/-- How `receive` ends once it has a message key: the message opens or the call raises. -/
def finish (P : Prims) (m : Incoming) (key : Bytes) (s : DoubleRatchet) :
    Except Exn String × DoubleRatchet :=
  match openBody P key m with
  | .ok plain => (.ok plain, rememberSeen m.messageId s)
  | .error e => (.error e, s)

/-- `receive` with a stored key: it is taken out, whatever comes of it. -/
theorem receive_of_stored {s : DoubleRatchet} {sk : Seed} {m : Incoming} {key : Bytes}
    (hl : s.skipped.lookup (skipKey m.remote m.n) = some (b64e key)) :
    receive P sk m s =
      finish P m key { s with skipped := s.skipped.erase (skipKey m.remote m.n) } := by
  simp only [receive, Method.get_bind, hl, Method.modify_bind, b64d_b64e, Method.ofExcept_ok_bind,
    finish]
  cases openBody P key m <;> rfl

/-- The end of `receive` on the chain that the message belongs to. -/
def receiveOn (P : Prims) (m : Incoming) : Method DoubleRatchet String := do
  skipUntil P m.n
  let s ← Method.get
  let (msgKey, ckRecv) := kdfCk P s.ckRecv
  Method.modify fun s => { s with ckRecv := ckRecv, nRecv := s.nRecv + 1 }
  let plain ← Method.ofExcept (openBody P msgKey m)
  Method.modify (rememberSeen m.messageId)
  return plain

theorem receiveOn_of_room {s : DoubleRatchet} {m : Incoming} (h : s.Room m.n) :
    receiveOn P m s = finish P m (messageKey P s.ckRecv (m.n - s.nRecv).toNat)
      (advanced P s (m.n - s.nRecv).toNat) := by
  unfold receiveOn
  rw [Method.bind_ok (skipUntil_of_room h), skipOne_iterate, Method.get_bind]
  simp only [kdfCk, hkdf64, Method.modify_bind, messageKey, advanced, chainKey_succ, finish]
  cases openBody P (P.hkdfBlock (chainKey P s.ckRecv (m.n - s.nRecv).toNat) "SecChat-DR-ck" none 0) m
    <;> rfl

theorem receiveOn_of_not_room {s : DoubleRatchet} {m : Incoming} (h : ¬ s.Room m.n) :
    receiveOn P m s = (.error (.valueError "Too many skipped message keys"), s) := by
  unfold receiveOn
  rw [Method.bind_error (skipUntil_of_not_room h)]

/-- `receive` without a stored key, on the current receiving chain. -/
theorem receive_of_current {s : DoubleRatchet} {sk : Seed} {m : Incoming}
    (hl : s.skipped.lookup (skipKey m.remote m.n) = none) (hn : ¬ s.NeedsRatchet m.remote) :
    receive P sk m s = receiveOn P m s := by
  rw [NeedsRatchet] at hn
  simp only [receive, Method.get_bind, hl]
  rw [if_neg hn]
  rfl

/-- `receive` without a stored key, under a new ratchet key. -/
theorem receive_of_new {s : DoubleRatchet} {sk : Seed} {m : Incoming}
    (hl : s.skipped.lookup (skipKey m.remote m.n) = none) (hn : s.NeedsRatchet m.remote) :
    receive P sk m s = (dhRatchet P sk m.remote >>= fun _ => receiveOn P m) s := by
  rw [NeedsRatchet] at hn
  simp only [receive, Method.get_bind, hl]
  rw [if_pos hn]
  rfl

/-! ### Headers on the wire -/

theorem header_plain (s : DoubleRatchet) (n : ℕ) : (s.header n).Plain := by
  simp [header]

theorem header_pyEq (s : DoubleRatchet) (n : ℕ) : (s.header n).pyEq (s.header n) = true := by
  simp [header, Json.pyEq, Json.pyEqMembers, List.lookup_cons, Json.numKey]

/-- A header copy that opens is the header, and one that does not is ignored. -/
theorem readHeader_wire (hP : P.Symbolic) (s t : DoubleRatchet) (n : ℕ) {obj : Json} (hk : Bytes)
    (nonce : Nonce) (hh : obj.getD "h" .null = .ok (s.header n))
    (he : obj.getD "eh" .null = .ok (.str (aeadEncrypt P hk nonce (s.header n) headerAad))) :
    t.readHeader P obj = .ok (s.header n) := by
  have hv : ((s.header n).isDict && (s.header n).truthy) = true := rfl
  unfold readHeader
  rw [hh, ok_bind, he, ok_bind, hv]
  split
  · cases hd : aeadDecrypt P t.hkRecv (.str (aeadEncrypt P hk nonce (s.header n) headerAad))
      headerAad with
    | error e => rfl
    | ok j =>
      obtain ⟨-, -, rfl⟩ := aeadDecrypt_eq_ok hP (s.header_plain n) hd
      simp [header_pyEq]
  · rfl

/-- The object of a message wire. -/
def wireObj (P : Prims) (sid : String) (header : Json) (msgKey hk : Bytes) (r : SendRand)
    (plaintext : String) : Json :=
  .obj [
    ("v", .int secchatSchema),
    ("sid", .str sid),
    ("h", header),
    ("eh", .str (aeadEncrypt P hk r.headerNonce header headerAad)),
    ("ct", .str (aeadEncrypt P msgKey r.nonce (.obj [("ts", .int r.ts), ("body", .str plaintext)])
      (canonical header)))]

theorem wireObj_plain (sid : String) {header : Json} (h : header.Plain) (msgKey hk : Bytes)
    (r : SendRand) (plaintext : String) : (wireObj P sid header msgKey hk r plaintext).Plain := by
  simp [wireObj, h]

/-- The id under which message `n` of the chain `dh` is remembered. -/
def idText (sid : String) (dh : Bytes) (n : ℤ) : String :=
  sid ++ ":" ++ b64e dh ++ ":" ++ toString n

theorem idText_eq (sid : String) (dh : Bytes) (n : ℤ) :
    idText sid dh n = sid ++ ":" ++ skipKey dh n := by
  simp [idText, skipKey, String.append_assoc]

theorem idText_inj {sid : String} {dh dh' : Bytes} {n n' : ℤ}
    (h : idText sid dh n = idText sid dh' n') : dh = dh' ∧ n = n' := by
  rw [idText_eq, idText_eq] at h
  have hl := congrArg String.toList h
  simp only [String.toList_append, List.append_cancel_left_eq] at hl
  exact skipKey_inj (String.toList_inj.mp hl)

/-- What a receiver makes of an honest wire. -/
def incoming (P : Prims) (s : DoubleRatchet) (n : ℕ) (msgKey hk : Bytes) (r : SendRand)
    (plaintext : String) : Incoming where
  obj := wireObj P s.sessionId (s.header n) msgKey hk r plaintext
  messageId := idText s.sessionId s.dhPk n
  remote := s.dhPk
  n := n
  aad := canonical (s.header n)

/-- The receiver is the addressee of the sender. -/
structure Addressed (s t : DoubleRatchet) : Prop where
  sessionId : t.sessionId = s.sessionId
  conversationId : t.conversationId = s.conversationId
  recipient : t.myUid = s.peerUid

theorem inspect_wire (hP : P.Symbolic) {s t : DoubleRatchet} (ha : Addressed s t) (n : ℕ)
    (msgKey hk : Bytes) (r : SendRand) (plaintext : String)
    (hseen : idText s.sessionId s.dhPk n ∉ t.seen) :
    t.inspect P (wire P s.sessionId (s.header n) msgKey hk r plaintext) =
      .ok (incoming P s n msgKey hk r plaintext) := by
  have hobj : jsonUnb64 (dropTag prefixDr (wire P s.sessionId (s.header n) msgKey hk r plaintext)) =
      .ok (wireObj P s.sessionId (s.header n) msgKey hk r plaintext) := by
    rw [wire, dropTag_append]
    exact jsonUnb64_jsonB64 (wireObj_plain _ (s.header_plain n) _ _ _ _)
  have hh : t.readHeader P (wireObj P s.sessionId (s.header n) msgKey hk r plaintext) =
      .ok (s.header n) :=
    readHeader_wire hP s t n hk r.headerNonce (by simp [wireObj])
      (by simp [wireObj])
  have hid : messageId (s.header n) = .ok (idText s.sessionId s.dhPk n) := by
    simp [messageId, header, idText]
  unfold inspect
  rw [hobj, ok_bind, hh, ok_bind]
  have hsid : (s.header n).getD "sid" .null = .ok (.str s.sessionId) := by simp [header]
  have hconv : intOrZero (s.header n) "conversation_id" = .ok s.conversationId := by
    simp [header, intOrZero]
  have hrec : intOrZero (s.header n) "recipient_uid" = .ok s.peerUid := by
    simp [header, intOrZero]
  have hdh : (s.header n).getItem "dh" = .ok (.str (b64e s.dhPk)) := by simp [header]
  have hn : (s.header n).getItem "n" = .ok (.int n) := by simp [header]
  simp [hsid, hconv, hrec, hdh, hn, hid, hseen, ha.sessionId, ha.conversationId, ha.recipient,
    Json.pyEq, incoming]

theorem openBody_incoming (hP : P.Correct) (s : DoubleRatchet) (n : ℕ) (msgKey hk : Bytes)
    (r : SendRand) (plaintext : String) :
    openBody P msgKey (incoming P s n msgKey hk r plaintext) = .ok plaintext := by
  have hct : (wireObj P s.sessionId (s.header n) msgKey hk r plaintext).getItem "ct" =
      .ok (.str (aeadEncrypt P msgKey r.nonce (.obj [("ts", .int r.ts), ("body", .str plaintext)])
        (canonical (s.header n)))) := by
    simp [wireObj]
  simp only [openBody, incoming, hct, ok_bind]
  rw [aeadDecrypt_aeadEncrypt hP _ _ (by simp)]
  simp

/-- An honest message opens under its own key only. -/
theorem openBody_eq_ok (hP : P.Symbolic) {s : DoubleRatchet} {n : ℕ} {key msgKey hk : Bytes}
    {r : SendRand} {plaintext plain : String}
    (h : openBody P key (incoming P s n msgKey hk r plaintext) = .ok plain) : key = msgKey := by
  have hct : (wireObj P s.sessionId (s.header n) msgKey hk r plaintext).getItem "ct" =
      .ok (.str (aeadEncrypt P msgKey r.nonce (.obj [("ts", .int r.ts), ("body", .str plaintext)])
        (canonical (s.header n)))) := by
    simp [wireObj]
  simp only [openBody, incoming, hct, ok_bind] at h
  obtain ⟨j, hj, -⟩ := bind_eq_ok_iff.mp h
  exact (aeadDecrypt_eq_ok hP (by simp) hj).1

/-! ### `encrypt` -/

/-- The state in which `encrypt` takes its message key. -/
def sendReady (P : Prims) (sk : Seed) (s : DoubleRatchet) : DoubleRatchet :=
  (maybeSendRatchet P sk s).2

/-- The state after a message key was taken from the sending chain. -/
def sent (P : Prims) (s : DoubleRatchet) : DoubleRatchet :=
  { s with ckSend := (kdfCk P s.ckSend).2, nSend := s.nSend + 1 }

theorem encrypt_of_ready {s s' : DoubleRatchet} {r : SendRand}
    (h : maybeSendRatchet P r.key s = (.ok (), s')) (plaintext : String) :
    encrypt P r plaintext s =
      (.ok (wire P s'.sessionId (s'.header s'.nSend) (kdfCk P s'.ckSend).1 s'.hkSend r plaintext),
        sent P s') := by
  unfold encrypt
  rw [Method.bind_ok h]
  rfl

theorem maybeSendRatchet_of_not_due {s : DoubleRatchet} (sk : Seed)
    (h : s.needsSendRatchet = false) : maybeSendRatchet P sk s = (.ok (), s) := by
  simp [maybeSendRatchet, h]

/-- The state after `_maybe_send_ratchet` opened a new sending chain. -/
def turned (P : Prims) (s : DoubleRatchet) (sk : Seed) (z : Bytes) : DoubleRatchet :=
  let rk := kdfRk P s.rootKey z
  { s with
    pn := s.nSend
    dhPk := P.x25519Public sk
    dhSk := sk
    rootKey := rk.1
    ckSend := rk.2
    hkSend := headerKey P rk.1 rk.2
    nSend := 0
    needsSendRatchet := false }

theorem maybeSendRatchet_of_due {s : DoubleRatchet} {sk : Seed} {z : Bytes}
    (h : s.needsSendRatchet = true) (hr : s.remoteDh ≠ []) (hz : x25519Dh P sk s.remoteDh = .ok z) :
    maybeSendRatchet P sk s = (.ok (), turned P s sk z) := by
  have hc : (!s.needsSendRatchet || s.remoteDh.isEmpty) = false := by simp [h, hr]
  unfold maybeSendRatchet
  rw [Method.get_bind, hc]
  simp [x25519Keygen, hz, turned]

end DoubleRatchet

end SecChat
