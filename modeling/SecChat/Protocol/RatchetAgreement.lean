import SecChat.Protocol.PqxdhAgreement
import SecChat.Protocol.RatchetInv

/-!
# Agreement of the Double Ratchet over any run

Take an initiator state from `pqxdh_initiate` and the responder state that `pqxdh_respond` builds
from its wire.  `ratchet_agreement` says that over any run in which late messages lie below one that
was delivered before the chain changed, and in which the gaps fit into the store, every message
opens to its text, no message key is used twice, and the receiving chain key is that of the sender.
-/

namespace SecChat

open Py Gaps DoubleRatchet

variable {P : Prims} {bundle storeI storeR storeR' : Json} {idPk idSk : Bytes} {my peer conv uid : ℤ}
  {body body' wire fp fp' : String} {version : Option ℤ} {r : InitRand} {r' : RespondRand}
  {sI sR : DoubleRatchet} {expected : Option ℤ}

/-- A mechanism that was accepted is a string. -/
theorem kemEncapsulate_eq_ok {alg : Json} {pk : Bytes} {coins : Seed} {x : Bytes × Bytes}
    (h : kemEncapsulate P alg pk coins = .ok x) : ∃ s, alg = .str s := by
  unfold kemEncapsulate at h
  split at h
  · exact ⟨_, rfl⟩
  · cases (oqsCall_eq_ok h).2

/-- What `pqxdh_initiate` returns: a state made from a root secret, and a wire sealed with its first
message key. -/
theorem pqxdhInitiate_eq_ok
    (h : pqxdhInitiate P bundle storeI idPk idSk my peer body version conv r = .ok (wire, sI, fp)) :
    ∃ dh ss kid curvePk sig spkId cid pqSpkId qid alg ct,
      sI = (takeSendKey P (initiatorState P (pqxdhRoot P dh ss) conv my peer version r)).2 ∧
      wire = initWire P (initPayload (b64e r.sid) conv my peer idPk kid curvePk sig
          (P.x25519Public r.eph) spkId cid pqSpkId qid (.str alg) ct (P.x25519Public r.dr) version)
        (takeSendKey P (initiatorState P (pqxdhRoot P dh ss) conv my peer version r)).1 r.nonce r.ts
        body := by
  unfold pqxdhInitiate at h
  obtain ⟨_, -, h⟩ := bind_eq_ok_iff.mp h
  obtain ⟨alg, halg, h⟩ := bind_eq_ok_iff.mp h
  obtain ⟨_, -, h⟩ := bind_eq_ok_iff.mp h
  obtain ⟨_, -, h⟩ := bind_eq_ok_iff.mp h
  obtain ⟨pqPk, -, h⟩ := bind_eq_ok_iff.mp h
  obtain ⟨⟨ct, ss⟩, hct, h⟩ := bind_eq_ok_iff.mp h
  obtain ⟨lc, -, h⟩ := bind_eq_ok_iff.mp h
  obtain ⟨_, -, h⟩ := bind_eq_ok_iff.mp h
  obtain ⟨curvePk, -, h⟩ := bind_eq_ok_iff.mp h
  obtain ⟨_, -, h⟩ := bind_eq_ok_iff.mp h
  obtain ⟨curveSk, -, h⟩ := bind_eq_ok_iff.mp h
  obtain ⟨_, -, h⟩ := bind_eq_ok_iff.mp h
  obtain ⟨peerSpk, -, h⟩ := bind_eq_ok_iff.mp h
  obtain ⟨otk, -, h⟩ := bind_eq_ok_iff.mp h
  obtain ⟨dh, -, h⟩ := bind_eq_ok_iff.mp h
  obtain ⟨_, -, h⟩ := bind_eq_ok_iff.mp h
  obtain ⟨kid, -, h⟩ := bind_eq_ok_iff.mp h
  obtain ⟨sig, -, h⟩ := bind_eq_ok_iff.mp h
  obtain ⟨_, -, h⟩ := bind_eq_ok_iff.mp h
  obtain ⟨spkId, -, h⟩ := bind_eq_ok_iff.mp h
  obtain ⟨cid, -, h⟩ := bind_eq_ok_iff.mp h
  obtain ⟨_, -, h⟩ := bind_eq_ok_iff.mp h
  obtain ⟨pqSpkId, -, h⟩ := bind_eq_ok_iff.mp h
  obtain ⟨qid, -, h⟩ := bind_eq_ok_iff.mp h
  obtain ⟨_, -, h⟩ := bind_eq_ok_iff.mp h
  obtain ⟨_, -, h⟩ := bind_eq_ok_iff.mp h
  -- the mechanism is a string, or `liboqs` had refused it
  obtain ⟨alg, rfl⟩ := kemEncapsulate_eq_ok hct
  simp only [pure_eq_ok, Except.ok.injEq, Prod.mk.injEq] at h
  obtain ⟨hw, hs, -⟩ := h
  exact ⟨dh, ss, kid, curvePk, sig, spkId, cid, pqSpkId, qid, alg, ct, hs.symm, hw.symm⟩

/-- The sender that `pqxdh_respond` reports is the one in the wire. -/
theorem respondCheck_sender {obj : Json} {u : ℤ} {x y : Bytes}
    (h : respondCheck P obj expected = .ok (u, x, y)) (hs : obj.getItem "sender_uid" = .ok (.int my)) :
    u = my := by
  unfold respondCheck at h
  rw [hs, ok_bind, Json.toInt_int, ok_bind] at h
  have hend : ∀ rest : Except Exn Unit, (do
      let _ ← rest
      let senderIdentity ← b64dJson (← obj.getItem "identity_pk")
      let senderCurve ← b64dJson (← obj.getItem "sender_curve_spk")
      verifyPrekey P senderIdentity "curve-signed" (← (← obj.getItem "sender_curve_spk_id").toInt)
        (.str "X25519") senderCurve (← b64dJson (← obj.getItem "sender_curve_spk_sig"))
      return (my, senderIdentity, senderCurve)) = Except.ok (u, x, y) → u = my := by
    intro rest h
    simp only [bind_eq_ok_iff] at h
    obtain ⟨_, -, _, -, _, -, _, -, _, -, _, -, _, -, _, -, _, -, _, -, h⟩ := h
    exact (Prod.mk.inj (Except.ok.inj h)).1.symm
  cases expected with
  | none => exact hend (.ok ()) h
  | some uid =>
    dsimp only at h
    obtain ⟨v, hv, h⟩ := bind_eq_ok_iff.mp h
    obtain ⟨n, hn, h⟩ := bind_eq_ok_iff.mp h
    split at h
    · cases h
    · exact hend (.ok ()) h

/-- The first message key comes from the root secret alone, and only from it. -/
theorem firstKey_inj (hP : P.Symbolic) {root root' : Bytes}
    (h : (kdfCk P (initialChains P root' false).2).1 = (kdfCk P (initialChains P root true).1).1) :
    root' = root :=
  (hP.hkdf_injective (hP.hkdf_injective h).1).1

/-- The second half of `pqxdh_respond` on the wire of `pqxdh_initiate`. -/
theorem respondFinish_of_initiate (hP : P.Symbolic) {root : Bytes} {kid cid qid : ℤ}
    {curvePk sig eph ct : Bytes} {alg : Json} {sealed : String} {obj store : Json}
    {payload : List (String × Json)} {senderId senderCurve curveSk otkSk pqSk : Bytes} {alg' : Json}
    (hf : InitFields (b64e r.sid) conv my peer idPk kid curvePk sig eph cid qid alg ct
      (P.x25519Public r.dr) version sealed obj)
    (hwo : withoutCt obj = .obj payload)
    (hsealed : aeadEncrypt P (kdfCk P (initialChains P root true).1).1 r.nonce
      (.obj [("ts", .int r.ts), ("body", .str body)]) (canonical (.obj payload)) = sealed)
    (h : respondFinish P obj store my senderId senderCurve curveSk otkSk pqSk alg' r' =
      .ok (body', sR, fp', uid)) :
    sR = (takeRecvKey P (responderState P root (P.x25519Public r.dr) (b64e r.sid) conv peer my version
      r')).2 ∧ body' = body := by
  unfold respondFinish at h
  obtain ⟨_, -, h⟩ := bind_eq_ok_iff.mp h
  obtain ⟨_, -, h⟩ := bind_eq_ok_iff.mp h
  obtain ⟨dh', -, h⟩ := bind_eq_ok_iff.mp h
  obtain ⟨_, -, h⟩ := bind_eq_ok_iff.mp h
  obtain ⟨_, -, h⟩ := bind_eq_ok_iff.mp h
  obtain ⟨ss', -, h⟩ := bind_eq_ok_iff.mp h
  have hsid := b64e_sid_ne_empty r.sid
  have horElse : (Json.str (b64e r.sid)).orElse (.str "") = .str (b64e r.sid) := by
    simp [Json.orElse, hsid]
  rw [hf.dr, ok_bind, b64dJson_b64e, ok_bind, hf.sid, ok_bind, hf.conv, ok_bind,
    Json.toInt_orElse_int, ok_bind, Json.getD_of_getItem hf.recipient, ok_bind,
    Json.toInt_orElse_int, ok_bind, hf.version, ok_bind, horElse, Json.toStr_str, hf.ct,
    hwo] at h
  change (do
    let payload ← aeadDecrypt P (takeRecvKey P (responderState P (pqxdhRoot P dh' ss')
      (P.x25519Public r.dr) (b64e r.sid) conv peer my version r')).1 (.str sealed)
      (canonical (.obj payload))
    let plain := (← payload.getD "body" (.str "")).toStr
    let fingerprint := safetyFingerprint P (← b64dJson (← store.getItem "identity_pk")) senderId
    return (plain, (takeRecvKey P (responderState P (pqxdhRoot P dh' ss') (P.x25519Public r.dr)
      (b64e r.sid) conv peer my version r')).2, fingerprint, my)) = _ at h
  obtain ⟨j, hopen, h⟩ := bind_eq_ok_iff.mp h
  rw [← hsealed] at hopen
  obtain ⟨hkey, -, rfl⟩ := aeadDecrypt_eq_ok hP (by simp) hopen
  have hroot : pqxdhRoot P dh' ss' = root := by
    apply firstKey_inj hP
    exact hkey
  rw [hroot] at h
  obtain ⟨_, hb, h⟩ := bind_eq_ok_iff.mp h
  obtain ⟨_, -, h⟩ := bind_eq_ok_iff.mp h
  obtain ⟨_, -, h⟩ := bind_eq_ok_iff.mp h
  simp only [pure_eq_ok, Except.ok.injEq, Prod.mk.injEq] at h
  simp only [Json.getD_cons] at hb
  refine ⟨h.2.1.symm, ?_⟩
  rw [← h.1]
  simp at hb
  rw [← hb, Json.toStr_str]

/-- **What `pqxdh_respond` makes of the wire of `pqxdh_initiate`**: if it returns at all, it has the
root secret of the initiator, and the text. -/
theorem pqxdhRespond_of_initiate (hP : P.Symbolic) {root : Bytes} {kid spkId cid pqSpkId qid : ℤ}
    {curvePk sig eph ct : Bytes} {alg : String}
    (h : pqxdhRespond P (initWire P (initPayload (b64e r.sid) conv my peer idPk kid curvePk sig eph
          spkId cid pqSpkId qid (.str alg) ct (P.x25519Public r.dr) version)
        (takeSendKey P (initiatorState P root conv my peer version r)).1 r.nonce r.ts body)
      expected r' storeR = (.ok (body', sR, fp', uid), storeR')) :
    sR = (takeRecvKey P (responderState P root (P.x25519Public r.dr) (b64e r.sid) conv peer my version
      r')).2 ∧ body' = body := by
  unfold initWire at h
  generalize hsealed : aeadEncrypt P _ r.nonce _ _ = sealed at h
  have hf := initFields (b64e r.sid) conv my peer idPk kid curvePk sig eph spkId cid pqSpkId qid alg ct
    (P.x25519Public r.dr) version sealed
  have hplain := initObj_plain (b64e r.sid) conv my peer idPk kid curvePk sig eph spkId cid pqSpkId qid
    alg ct (P.x25519Public r.dr) version sealed
  have hwo := withoutCt_initObj (b64e r.sid) conv my peer idPk kid curvePk sig eph spkId cid pqSpkId qid
    alg ct (P.x25519Public r.dr) version sealed
  unfold pqxdhRespond at h
  rw [dropTag_append, jsonUnb64_jsonB64 hplain, Method.ofExcept_ok_bind] at h
  obtain ⟨⟨senderUid, senderId, senderCurve⟩, s1, hcheck, h⟩ := Method.bind_eq_ok h
  obtain ⟨_, s2, -, h⟩ := Method.bind_eq_ok h
  obtain ⟨_, s3, -, h⟩ := Method.bind_eq_ok h
  obtain ⟨_, s4, -, h⟩ := Method.bind_eq_ok h
  obtain ⟨_, s5, -, h⟩ := Method.bind_eq_ok h
  obtain ⟨_, s6, -, h⟩ := Method.bind_eq_ok h
  obtain ⟨_, s7, -, h⟩ := Method.bind_eq_ok h
  obtain ⟨_, s8, -, h⟩ := Method.bind_eq_ok h
  obtain ⟨_, s9, -, h⟩ := Method.bind_eq_ok h
  obtain rfl := respondCheck_sender (congrArg Prod.fst hcheck) hf.sender
  exact respondFinish_of_initiate hP hf hwo hsealed (congrArg Prod.fst h)

/-! ### The start of a run -/

/-- The first message of a session, with the state in which `pqxdh_initiate` took its key. -/
def firstSent (P : Prims) (sI : DoubleRatchet) (wire body : String) : Sent where
  sender := .initiator
  state := { sI with ckSend := (initialChains P sI.rootKey true).1, nSend := 0 }
  wire := wire
  text := body

/-- The two parties after the handshake: the responder has opened the first message. -/
def Sys.start (P : Prims) (sI sR : DoubleRatchet) (wire body opened : String) : Sys where
  state
    | .initiator => sI
    | .responder => sR
  log := [firstSent P sI wire body]
  got
    | .initiator => []
    | .responder => [⟨0, firstSent P sI wire body, .ok opened⟩]
  used := [sI.dhPk, sR.dhPk]

theorem notRk_pqxdhRoot (hP : P.Symbolic) (dh ss : Bytes) : NotRk P (pqxdhRoot P dh ss) := by
  intro z root i h
  obtain ⟨-, hi, -⟩ := hP.hkdf_injective h
  exact absurd hi (by decide)

theorem gaps_singleton_zero (c : Bytes) : gaps {(c, 0)} = ∅ := by
  ext ⟨d, i⟩
  simp only [Finset.notMem_empty, iff_false]
  intro h
  obtain ⟨⟨j, hj, hm⟩, -⟩ := mem_gaps.mp h
  have := (Prod.mk.inj (Finset.mem_singleton.mp hm)).2
  omega

/-- The receiving half of the initiator at the start. -/
theorem recvAt_initiator (root : Bytes) (r : InitRand) :
    RecvAt P root (fun _ => r.dr) 0
      (takeSendKey P (initiatorState P root conv my peer version r)).2 ∅ where
  first _ := ⟨rfl, rfl⟩
  remoteDh k hk := by omega
  ckRecv k hk := by omega
  highWater := isHighWater_zero fun j hj => Finset.notMem_empty _ hj
  opened x hx := absurd hx (Finset.notMem_empty _)
  every k hk := by omega
  keys := rfl
  stored k hk := by omega
  seen id hid := absurd hid (Finset.notMem_empty _)

/-- The receiving half of the responder at the start. -/
theorem recvAt_responder (root : Bytes) (r : InitRand) (r' : RespondRand) :
    RecvAt P root (fun _ => r.dr) 1
      (takeRecvKey P (responderState P root (P.x25519Public r.dr) (b64e r.sid) conv peer my version
        r')).2 {(P.x25519Public r.dr, 0)} where
  first h := by omega
  remoteDh k hk := rfl
  ckRecv k hk := by
    obtain rfl : k = 0 := by omega
    rfl
  highWater := by
    have hz : IsHighWater (∅ : Finset (Bytes × ℕ)) (P.x25519Public r.dr) 0 :=
      isHighWater_zero fun j hj => Finset.notMem_empty _ hj
    exact isHighWater_insert hz le_rfl
  opened x hx := by
    rw [Finset.mem_singleton.mp hx]
    exact ⟨0, by omega, by omega, rfl⟩
  every k hk _ := ⟨0, Finset.mem_singleton_self _⟩
  keys := by
    rw [gaps_singleton_zero]
    rfl
  stored k hk i hi := by
    rw [gaps_singleton_zero] at hi
    exact absurd hi (Finset.notMem_empty _)
  seen id hid := absurd hid (Finset.notMem_empty _)

/-- **The handshake establishes the invariant.** -/
theorem inv_start (hP : P.Symbolic)
    (hI : pqxdhInitiate P bundle storeI idPk idSk my peer body version conv r = .ok (wire, sI, fp))
    (hR : pqxdhRespond P wire expected r' storeR = (.ok (body', sR, fp', uid), storeR')) :
    ∃ root a, Inv P root a 0 (Sys.start P sI sR wire body body') := by
  obtain ⟨dh, ss, kid, curvePk, sig, spkId, cid, pqSpkId, qid, alg, ct, rfl, rfl⟩ :=
    pqxdhInitiate_eq_ok hI
  obtain ⟨rfl, rfl⟩ := pqxdhRespond_of_initiate hP hR
  have hmir := mirrored P (pqxdhRoot P dh ss) conv my peer version r r'
  refine ⟨pqxdhRoot P dh ss, fun _ => r.dr, notRk_pqxdhRoot hP dh ss, ?_, ?_, ?_, ?_, ?_, ?_, ?_, ?_,
    ?_, ?_, ?_, ?_, ?_, ?_, ?_, ?_⟩
  · intro k hk
    exact List.mem_cons_self
  · intro k hk l hl _
    omega
  · -- pending
    intro _
    refine ⟨rfl, rfl, ?_⟩
    have hne : (P.x25519Public r.dr).isEmpty = false := by
      simpa using hP.public_ne_nil r.dr
    show (!false && !(P.x25519Public r.dr).isEmpty) = true
    rw [hne]
    rfl
  · -- sends
    intro q hq
    obtain rfl := hq rfl
    exact ⟨rfl, rfl, rfl, rfl, rfl⟩
  · -- recvs
    intro q
    cases q with
    | initiator => exact recvAt_initiator _ r
    | responder => exact recvAt_responder _ r r'
  · -- addressed
    intro q
    cases q with
    | initiator => exact ⟨hmir.sessionId, hmir.conversationId, hmir.myUid⟩
    | responder => exact ⟨hmir.sessionId.symm, hmir.conversationId.symm, hmir.peerUid.symm⟩
  · -- msgs
    intro m hm
    rw [List.mem_singleton.mp hm]
    exact ⟨0, le_rfl, rfl, rfl, rfl, rfl, rfl, rfl⟩
  · -- toPeer
    intro m hm
    rw [List.mem_singleton.mp hm]
    exact ⟨hmir.sessionId, hmir.conversationId, hmir.myUid⟩
  · -- wires
    intro m hm hO
    rw [List.mem_singleton.mp hm] at hO
    exact absurd (Finset.mem_singleton_self _) hO
  · exact List.nodup_singleton _
  · -- current
    intro m hm _
    rw [List.mem_singleton.mp hm]
    exact ⟨Nat.zero_lt_one, rfl⟩
  · -- previous
    intro m hm k hk
    rw [List.mem_singleton.mp hm] at hk
    have hk' : k + 2 = 0 := hk
    omega
  · intro m hm m' hm' k hk
    omega
  · -- gotLog
    intro q d hd
    cases q with
    | initiator => cases hd
    | responder =>
      rw [List.mem_singleton.mp hd]
      exact ⟨rfl, rfl⟩
  · -- results
    intro q d hd x hx
    cases q with
    | initiator => cases hd
    | responder =>
      rw [List.mem_singleton.mp hd] at hx ⊢
      exact (Except.ok.inj hx).symm
  · exact List.pairwise_singleton _ _

/-- The ratchet keys at the start. -/
theorem used_start (hP : P.Symbolic)
    (hI : pqxdhInitiate P bundle storeI idPk idSk my peer body version conv r = .ok (wire, sI, fp))
    (hR : pqxdhRespond P wire expected r' storeR = (.ok (body', sR, fp', uid), storeR')) :
    (Sys.start P sI sR wire body body').used = [P.x25519Public r.dr, P.x25519Public r'.dr] := by
  obtain ⟨dh, ss, kid, curvePk, sig, spkId, cid, pqSpkId, qid, alg, ct, rfl, rfl⟩ :=
    pqxdhInitiate_eq_ok hI
  obtain ⟨rfl, rfl⟩ := pqxdhRespond_of_initiate hP hR
  rfl

/-! ### Loss and reordering -/

/-- Chains and indices of a list of deliveries. -/
def deliveredSlots (D : List Delivery) : Finset (Bytes × ℕ) := (D.map fun d => d.msg.slot).toFinset

/-- Whenever the first delivered message of a newer sending chain arrives, every message of an older
chain that is delivered later has a smaller index than some message of its chain that was delivered
before. -/
def InOrder (D : List Delivery) : Prop :=
  ∀ pre d post, D = pre ++ d :: post → (∀ x ∈ pre, x.msg.dh ≠ d.msg.dh) →
    ∀ d' ∈ post, d'.id < d.id → d'.msg.dh ≠ d.msg.dh →
      ∃ x ∈ pre, x.msg.dh = d'.msg.dh ∧ d'.msg.n < x.msg.n

/-- The undelivered gaps never need more than `MAX_SKIP_KEYS` stored keys. -/
def FewGaps (D : List Delivery) : Prop :=
  ∀ pre, pre <+: D → (gaps (deliveredSlots pre)).card ≤ maxSkipKeys

theorem InOrder.of_append {D E : List Delivery} (h : InOrder (D ++ E)) : InOrder D := by
  rintro pre d post rfl hpre d' hd'
  exact h pre d (post ++ E) (by simp) hpre d' (List.mem_append_left _ hd')

theorem FewGaps.of_append {D E : List Delivery} (h : FewGaps (D ++ E)) : FewGaps D :=
  fun pre hpre => h pre (hpre.trans (List.prefix_append D E))

theorem opened_eq_delivered {σ : Sys} {p : Party} (h : ∀ d ∈ σ.got p, d.ok = true) :
    σ.opened p = deliveredSlots (σ.got p) := by
  rw [Sys.opened, deliveredSlots, List.filter_eq_self.mpr h]

theorem got_send (σ : Sys) (p : Party) (r : SendRand) (text : String) :
    (σ.send P p r text).got = σ.got := by
  unfold Sys.send
  split <;> rfl

theorem got_receive_self (σ : Sys) (p : Party) (id : ℕ) (m : Sent) (sk : Seed) :
    (σ.receive P p id m sk).got p = σ.got p ++ [⟨id, m, (decrypt P sk m.wire (σ.state p)).1⟩] :=
  got_took_self _ _ _

theorem got_receive_of_ne {σ : Sys} {p q : Party} (h : p ≠ q) (id : ℕ) (m : Sent) (sk : Seed) :
    (σ.receive P q id m sk).got p = σ.got p := got_took_of_ne h _ _ _

/-- A message that was sent by the other party and is not opened yet can be delivered. -/
theorem step_deliver {σ : Sys} {p : Party} {id : ℕ} {m : Sent} {sk : Seed}
    (hm : σ.log[id]? = some m) (hf : P.x25519Public sk ∉ σ.used) (hs : m.sender ≠ p)
    (hn : ¬ ∃ d ∈ σ.got p, d.id = id ∧ d.ok = true) :
    step P σ (.deliver p id sk) = some (σ.receive P p id m sk) := by
  simp only [step, hm]
  rw [if_neg]
  rintro (h | h | h)
  · exact hf h
  · exact hs h
  · exact hn h

/-- An event adds at most one delivery. -/
theorem got_step {σ σ' : Sys} {e : Event} (h : step P σ e = some σ') (p : Party) :
    ∃ E, σ'.got p = σ.got p ++ E := by
  rcases step_eq_some h with ⟨q, r, text, -, -, rfl⟩ | ⟨q, id, sk, m, -, -, -, -, -, rfl⟩
  · exact ⟨[], by rw [List.append_nil, got_send]⟩
  · by_cases hq : p = q
    · subst hq
      exact ⟨_, got_receive_self _ _ _ _ _⟩
    · exact ⟨[], by rw [List.append_nil, got_receive_of_ne hq]⟩

/-- Of two messages of one party the one of the older epoch was sent first. -/
theorem Inv.id_lt {root : Bytes} {a : ℕ → Seed} {L k l i j : ℕ} {σ : Sys} {m m' : Sent}
    (h : Inv P root a L σ) (hm : σ.log[i]? = some m) (hm' : σ.log[j]? = some m')
    (hs : m.sender = m'.sender) (hk : k < l) (hl : l ≤ L) (hdh : m.dh = P.x25519Public (a k))
    (hdh' : m'.dh = P.x25519Public (a l)) : i < j := by
  obtain ⟨hi, rfl⟩ := List.getElem?_eq_some_iff.mp hm
  obtain ⟨hj, rfl⟩ := List.getElem?_eq_some_iff.mp hm'
  rcases lt_trichotomy i j with hij | hij | hij
  · exact hij
  · subst hij
    have := h.distinct k (by omega) l hl (hdh.symm.trans hdh')
    omega
  · have := (List.pairwise_iff_getElem.mp h.order) j i hj hi hij hs.symm l hl k (by omega) hdh' hdh
    omega

/-- Under the two conditions no message is lost. -/
theorem Inv.decrypt_ok (hP : P.Symbolic) {root : Bytes} {a : ℕ → Seed} {L : ℕ} {σ : Sys} {p : Party}
    (h : Inv P root a L σ) (hall : ∀ d ∈ σ.got p, d.ok = true) {id : ℕ} {m : Sent}
    (hm : σ.log[id]? = some m) (hsender : m.sender = p.peer) (hO : m.slot ∉ σ.opened p) (sk : Seed)
    {res : Except Exn String} (hord : InOrder (σ.got p ++ [⟨id, m, res⟩]))
    (hgaps : FewGaps (σ.got p ++ [⟨id, m, res⟩])) :
    ∃ s', decrypt P sk m.wire (σ.state p) = (.ok m.text, s') := by
  have hopen := opened_eq_delivered hall
  have hcard : (gaps (insert m.slot (σ.opened p))).card ≤ maxSkipKeys := by
    have hg := hgaps _ (List.prefix_refl _)
    have hslots : deliveredSlots (σ.got p ++ [⟨id, m, res⟩]) = insert m.slot (deliveredSlots (σ.got p)) := by
      rw [deliveredSlots, deliveredSlots, List.map_append, List.toFinset_append, Finset.union_comm, Finset.insert_eq]
      rfl
    rw [hslots, ← hopen] at hg
    exact hg
  rcases h.decrypt_cases hP (List.mem_of_getElem? hm) hsender hO sk with
    ⟨-, k, -, -, -, hd⟩ | ⟨k, -, -, -, -, hd⟩ | ⟨-, -, -, hd⟩ | ⟨hroom, -⟩ | ⟨k, hk, hp, hdh, hg, -⟩
  · exact ⟨_, hd⟩
  · exact ⟨_, hd⟩
  · exact ⟨_, hd⟩
  · omega
  · -- a newer chain was opened before, so the message lies below one of its own chain
    exfalso
    obtain ⟨t, ht⟩ : ∃ t, turn L p = t + 1 := ⟨turn L p - 1, by omega⟩
    have hle := turn_le_succ L p
    obtain ⟨i, hi⟩ := (h.recvs p).every t (by omega) (by omega)
    rw [hopen, deliveredSlots, List.mem_toFinset, List.mem_map] at hi
    obtain ⟨d₀, hd₀, hslot⟩ := hi
    have hdh₀ : d₀.msg.dh = P.x25519Public (a t) := (Prod.mk.inj hslot).1
    have hfind : ((σ.got p).find? fun d => d.msg.dh = P.x25519Public (a t)).isSome := by
      rw [List.find?_isSome]
      exact ⟨d₀, hd₀, decide_eq_true hdh₀⟩
    obtain ⟨d, hd⟩ := Option.isSome_iff_exists.mp hfind
    obtain ⟨hdt, pre, post, hsplit, hpre⟩ := List.find?_eq_some_iff_append.mp hd
    have hdt' : d.msg.dh = P.x25519Public (a t) := of_decide_eq_true hdt
    have hdmem : d ∈ σ.got p := by rw [hsplit]; simp
    obtain ⟨hdlog, hdsender⟩ := h.gotLog p d hdmem
    have hid : id < d.id := h.id_lt hm hdlog (hsender.trans hdsender.symm) (by omega : k < t) (by omega)
      hdh hdt'
    have hne : m.dh ≠ d.msg.dh := by
      intro he
      rw [hdh, hdt'] at he
      have := h.distinct k (by omega) t (by omega) he
      omega
    obtain ⟨x, hx, hxdh, hxn⟩ := hord pre d (post ++ [⟨id, m, res⟩]) (by rw [hsplit]; simp)
      (fun y hy he => by
        have := hpre y hy
        simp [he, hdt'] at this) ⟨id, m, res⟩ (by simp) hid hne
    have hxO : (m.dh, x.msg.n) ∈ σ.opened p := by
      rw [hopen, deliveredSlots, List.mem_toFinset, List.mem_map]
      exact ⟨x, by rw [hsplit]; exact List.mem_append_left _ hx, by rw [Sent.slot, hxdh]⟩
    exact hg (mem_gaps.mpr ⟨⟨x.msg.n, hxn, hxO⟩, hO⟩)

/-- Along a run in which the two conditions hold, every delivery opens. -/
theorem all_ok (hP : P.Symbolic) {root : Bytes} {a : ℕ → Seed} {L : ℕ} {σ₀ σ : Sys} {es : List Event}
    (h₀ : Inv P root a L σ₀) (hok₀ : ∀ p, ∀ d ∈ σ₀.got p, d.ok = true)
    (hrun : run P σ₀ es = some σ) (ha : ∀ p, InOrder (σ.got p)) (hb : ∀ p, FewGaps (σ.got p)) :
    ∀ p, ∀ d ∈ σ.got p, d.ok = true := by
  induction es using List.reverseRecOn generalizing σ with
  | nil =>
    obtain rfl := Option.some.inj hrun
    exact hok₀
  | append_singleton es e ih =>
    rw [run_append] at hrun
    obtain ⟨σ', hrun', hrun⟩ := Option.bind_eq_some_iff.mp hrun
    obtain ⟨σ'', hstep, hrun⟩ := Option.bind_eq_some_iff.mp hrun
    obtain rfl := Option.some.inj hrun
    -- the conditions hold of the run without its last event
    have hpre := got_step hstep
    have hall := ih hrun' (fun p => by
        obtain ⟨E, hE⟩ := hpre p
        exact (hE ▸ ha p).of_append) (fun p => by
        obtain ⟨E, hE⟩ := hpre p
        exact (hE ▸ hb p).of_append)
    obtain ⟨a', L', hinv⟩ := h₀.run hP hrun'
    rcases step_eq_some hstep with ⟨q, r, text, -, -, rfl⟩ | ⟨q, id, sk, m, -, hm, -, hs, hn, rfl⟩
    · intro p
      rw [got_send]
      exact hall p
    · intro p d hd
      by_cases hq : p = q
      · subst hq
        have hgot := got_receive_self (P := P) σ' p id m sk
        obtain ⟨s', hs'⟩ := hinv.decrypt_ok hP (hall p) hm hs (hinv.slot_notMem_opened hm hn) sk
          (hgot ▸ ha p) (hgot ▸ hb p)
        rw [hgot] at hd
        rcases List.mem_append.mp hd with hd | hd
        · exact hall p d hd
        · rw [List.mem_singleton.mp hd, hs']
          rfl
      · rw [got_receive_of_ne hq] at hd
        exact hall p d hd

/-- Messages have different keys. -/
theorem Inv.keys_nodup (hP : P.Symbolic) {root : Bytes} {a : ℕ → Seed} {L : ℕ} {σ : Sys}
    (h : Inv P root a L σ) : (σ.log.map (Sent.key P)).Nodup := by
  rw [List.nodup_iff_pairwise_ne, List.pairwise_map]
  have hslots := h.slots
  rw [List.nodup_iff_pairwise_ne, List.pairwise_map] at hslots
  refine hslots.imp_of_mem fun {m m'} hm hm' hne hkey => hne ?_
  obtain ⟨k, -, -, hs⟩ := h.msgs m hm
  obtain ⟨l, -, -, hs'⟩ := h.msgs m' hm'
  rw [Sent.key, Sent.key, hs.ckSend, hs'.ckSend] at hkey
  obtain ⟨rfl, hn⟩ := messageKey_chainAt_inj hP h.notRk hkey
  rw [Sent.slot, Sent.slot, Sent.dh, Sent.dh, hs.dhPk, hs'.dhPk]
  exact congrArg _ hn

/-- The receiving chain key is the one that the sender had after some message. -/
theorem Inv.ckRecv_eq {root : Bytes} {a : ℕ → Seed} {L : ℕ} {σ : Sys} (h : Inv P root a L σ)
    {p : Party} (hne : (σ.opened p).Nonempty) :
    ∃ m ∈ σ.log, m.sender = p.peer ∧ m.dh = (σ.state p).remoteDh ∧ m.n + 1 = (σ.state p).nRecv ∧
      (σ.state p).ckRecv = m.ck P := by
  have hr := h.recvs p
  obtain ⟨x, hx⟩ := hne
  obtain ⟨k, hk, -, -⟩ := hr.opened x hx
  obtain ⟨t, ht⟩ : ∃ t, turn L p = t + 1 := ⟨turn L p - 1, by omega⟩
  obtain ⟨i, hi⟩ := hr.every t (by omega) (by omega)
  have hw := hr.highWater
  rw [hr.remoteDh t ht] at hw ⊢
  have hlt := (hw i).mpr ⟨i, le_rfl, hi⟩
  -- the last index below the high-water mark was opened
  obtain ⟨j, hj, hmem⟩ := (hw ((σ.state p).nRecv - 1)).mp (by omega)
  have hj' := (hw j).mpr ⟨j, le_rfl, hmem⟩
  rw [Sys.opened, List.mem_toFinset, List.mem_map] at hmem
  obtain ⟨d, hd, hslot⟩ := hmem
  obtain ⟨hlog, hsender⟩ := h.gotLog p d (List.mem_filter.mp hd).1
  have hm := List.mem_of_getElem? hlog
  have hdh : d.msg.dh = P.x25519Public (a t) := (Prod.mk.inj hslot).1
  have hn : d.msg.n = j := (Prod.mk.inj hslot).2
  refine ⟨d.msg, hm, hsender, hdh, by omega, ?_⟩
  obtain ⟨l, hl, -, hs⟩ := h.msgs d.msg hm
  have hle := turn_le_succ L p
  obtain rfl := h.distinct t (by omega) l hl (hdh.symm.trans hs.dhPk)
  rw [hr.ckRecv t ht, Sent.ck, hs.ckSend, ← chainKey_succ]
  congr 1
  show (σ.state p).nRecv = d.msg.n + 1
  omega

/-- **Agreement of the Double Ratchet over any run.**  Start from the states of a handshake, and let
the parties encrypt and deliver in any order, with any loss.  If late messages lie below one of
their chain that was delivered before the chain changed, and the gaps fit into the store, then every
delivered message decrypts to its text, no two messages have the same key, and after a delivery the
receiving chain key is that of the sender at the same chain and index. -/
theorem ratchet_agreement (hP : P.Symbolic)
    (hI : pqxdhInitiate P bundle storeI idPk idSk my peer body version conv r = .ok (wire, sI, fp))
    (hR : pqxdhRespond P wire expected r' storeR = (.ok (body', sR, fp', uid), storeR'))
    {es : List Event} {σ : Sys} (hrun : run P (Sys.start P sI sR wire body body') es = some σ)
    (ha : ∀ p, InOrder (σ.got p)) (hb : ∀ p, FewGaps (σ.got p)) :
    (∀ p, ∀ d ∈ σ.got p, d.result = .ok d.msg.text) ∧
    (σ.log.map (Sent.key P)).Nodup ∧
    ∀ p, σ.got p ≠ [] → ∃ m ∈ σ.log, m.sender = p.peer ∧ m.dh = (σ.state p).remoteDh ∧
      m.n + 1 = (σ.state p).nRecv ∧ (σ.state p).ckRecv = m.ck P := by
  obtain ⟨root, a, hstart⟩ := inv_start hP hI hR
  have hok₀ : ∀ p, ∀ d ∈ (Sys.start P sI sR wire body body').got p, d.ok = true := by
    intro p d hd
    cases p with
    | initiator => cases hd
    | responder =>
      rw [List.mem_singleton.mp hd]
      rfl
  have hall := all_ok hP hstart hok₀ hrun ha hb
  obtain ⟨a', L, hinv⟩ := hstart.run hP hrun
  refine ⟨fun p d hd => ?_, hinv.keys_nodup hP, fun p hne => hinv.ckRecv_eq ?_⟩
  · have hdok := hall p d hd
    have htext := hinv.results p d hd
    unfold Delivery.ok at hdok
    cases hres : d.result with
    | ok x => rw [htext x hres]
    | error e =>
      rw [hres] at hdok
      cases hdok
  · obtain ⟨d, hd⟩ := List.exists_mem_of_ne_nil _ hne
    rw [opened_eq_delivered (hall p), deliveredSlots]
    exact ⟨d.msg.slot, List.mem_toFinset.mpr (List.mem_map_of_mem hd)⟩

/-- The random choices of an `encrypt` call in the term model. -/
def testSendRand (x : UInt8) : SendRand where
  key := testSeed x
  nonce := testInitRand.nonce
  headerNonce := testInitRand.nonce
  ts := 0

theorem inOrder_singleton (d : Delivery) : InOrder [d] := by
  intro pre d₁ post h _ d' hd'
  have hlen := congrArg List.length h
  simp only [List.length_append, List.length_cons, List.length_nil] at hlen
  obtain rfl : post = [] := List.eq_nil_of_length_eq_zero (by omega)
  cases hd'

theorem fewGaps_singleton {d : Delivery} (h : d.msg.n = 0) : FewGaps [d] := by
  intro pre hpre
  have hsub : deliveredSlots pre ⊆ {(d.msg.dh, 0)} := by
    intro x hx
    rw [deliveredSlots, List.mem_toFinset] at hx
    obtain ⟨d', hd', rfl⟩ := List.mem_map.mp hx
    rw [List.mem_singleton.mp (hpre.subset hd'), Sent.slot, h]
    exact Finset.mem_singleton_self _
  have hempty : gaps (deliveredSlots pre) = ∅ := by
    ext ⟨c, i⟩
    simp only [Finset.notMem_empty, iff_false]
    intro hg
    obtain ⟨⟨j, hj, hm⟩, -⟩ := mem_gaps.mp hg
    have := (Prod.mk.inj (Finset.mem_singleton.mp (hsub hm))).2
    omega
  rw [hempty]
  exact Nat.zero_le _

/-- A handshake and one answer in the term model. -/
theorem ratchet_agreement_term : ∃ bundle store wire sI fp sR store' σ m,
    pqxdhInitiate termPrims bundle store (testSeed 9) (testSeed 9) 1 2 "hi" none 7 testInitRand =
      .ok (wire, sI, fp) ∧
    pqxdhRespond termPrims wire (some 2) ⟨testSeed 6, testInitRand.sid⟩ store =
      (.ok ("hi", sR, fp, 1), store') ∧
    run termPrims (Sys.start termPrims sI sR wire "hi" "hi")
      [.send .responder (testSendRand 10) "yo", .deliver .initiator 1 (testSeed 11)] = some σ ∧
    σ.got .initiator = [⟨1, m, .ok "yo"⟩] := by
  have hP := termPrims_symbolic
  obtain ⟨bundle, store, wire, sI, fp, sR, store', hI, hR⟩ := handshake_term
  have hused := used_start hP hI hR
  obtain ⟨root, a, hstart⟩ := inv_start hP hI hR
  have hfresh : termPrims.x25519Public (testSendRand 10).key ∉
      (Sys.start termPrims sI sR wire "hi" "hi").used := by
    rw [hused]
    decide
  obtain ⟨hturn, -⟩ := hstart.turned hP hfresh
  have hsend : (Sys.start termPrims sI sR wire "hi" "hi").send termPrims .responder
      (testSendRand 10) "yo" = _ := send_of_ready hturn
  generalize hs : turned termPrims _ _ _ = s at hsend
  have hn : s.nSend = 0 := by rw [← hs]; rfl
  have hstep : step termPrims (Sys.start termPrims sI sR wire "hi" "hi")
      (.send .responder (testSendRand 10) "yo") = some _ := if_neg hfresh
  rw [hsend] at hstep
  generalize hσ : (Sys.start termPrims sI sR wire "hi" "hi").sent _ _ _ _ _ _ = σ₁ at hstep
  have hlog : σ₁.log[1]? =
      some ⟨.responder, s, honestWire termPrims s (testSendRand 10) "yo", "yo"⟩ := by
    rw [← hσ]
    rfl
  have hgot : σ₁.got .initiator = [] := by rw [← hσ]; rfl
  have hgot' : ∃ d, σ₁.got .responder = [d] ∧ d.msg.n = 0 := by
    rw [← hσ]
    exact ⟨_, rfl, rfl⟩
  have hfresh' : termPrims.x25519Public (testSeed 11) ∉ σ₁.used := by
    rw [← hσ]
    show _ ∉ termPrims.x25519Public (testSendRand 10).key :: (Sys.start _ _ _ _ _ _).used
    rw [hused]
    decide
  generalize hm : Sent.mk _ _ _ _ = m at hlog
  have hstep' := step_deliver (p := .initiator) hlog hfresh' (by rw [← hm]; exact Party.noConfusion) (by simp [hgot])
  have hrun : run termPrims (Sys.start termPrims sI sR wire "hi" "hi")
      [.send .responder (testSendRand 10) "yo", .deliver .initiator 1 (testSeed 11)] =
        some (σ₁.receive termPrims .initiator 1 m (testSeed 11)) := by
    simp only [run, hstep, hstep', Option.bind_some]
  have hgotI : (σ₁.receive termPrims .initiator 1 m (testSeed 11)).got .initiator =
      [⟨1, m, (decrypt termPrims (testSeed 11) m.wire (σ₁.state .initiator)).1⟩] := by
    rw [got_receive_self, hgot, List.nil_append]
  have hgotR : (σ₁.receive termPrims .initiator 1 m (testSeed 11)).got .responder =
      σ₁.got .responder := got_receive_of_ne (by decide) _ _ _
  have hfirst : ∀ p, ∃ d, (σ₁.receive termPrims .initiator 1 m (testSeed 11)).got p = [d] ∧
      d.msg.n = 0 := by
    intro p
    cases p with
    | initiator => exact ⟨_, hgotI, by rw [← hm]; exact hn⟩
    | responder => rw [hgotR]; exact hgot'
  obtain ⟨hok, -, -⟩ := ratchet_agreement hP hI hR hrun
    (fun p => by
      obtain ⟨d, hd, -⟩ := hfirst p
      rw [hd]
      exact inOrder_singleton d)
    (fun p => by
      obtain ⟨d, hd, hd0⟩ := hfirst p
      rw [hd]
      exact fewGaps_singleton hd0)
  refine ⟨bundle, store, wire, sI, fp, sR, store', _, m, hI, hR, hrun, ?_⟩
  have hres := hok .initiator _ (by rw [hgotI]; exact List.mem_singleton_self _)
  have htext : m.text = "yo" := by rw [← hm]
  rw [hgotI]
  exact congrArg (fun x => [Delivery.mk 1 m x]) (hres.trans (by rw [htext]))

end SecChat
