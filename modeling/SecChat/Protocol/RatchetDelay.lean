import SecChat.Protocol.RatchetAgreement

/-!
# Messages delayed past a DH ratchet

The header of the first message of a sending chain carries `pn`, the length of the chain before it.
`_dh_ratchet` does not read it: the receiving chain is replaced without putting the keys of its rest
aside.  `delayKept_iff` says when nothing is lost by that, and `delayed_message_lost` is a run in
which something is.
-/

namespace SecChat

open Py Gaps DoubleRatchet

variable {P : Prims} {bundle storeI storeR storeR' : Json} {idPk idSk : Bytes} {my peer conv uid : ℤ}
  {body body' wire fp fp' : String} {version : Option ℤ} {r : InitRand} {r' : RespondRand}
  {sI sR : DoubleRatchet} {expected : Option ℤ} {root : Bytes} {a : ℕ → Seed} {L : ℕ} {σ σ' : Sys}
  {p : Party} {es : List Event} {id : ℕ} {m₁ m : Sent} {sk : Seed}

/-- Nothing of the old chain is lost when the first message `m₁` of the next chain arrives: `m₁`
opens, the keys of the rest of the old chain are kept, and a message of the old chain that was not
opened before opens whenever it arrives. -/
structure DelayKept (P : Prims) (σ : Sys) (p : Party) (id : ℕ) (m₁ : Sent) (sk : Seed) : Prop where
  opens : (decrypt P sk m₁.wire (σ.state p)).1 = .ok m₁.text
  kept : ∀ i, (σ.state p).nRecv ≤ i → i < m₁.pn →
    ((σ.receive P p id m₁ sk).state p).skipped.lookup (skipKey (σ.state p).remoteDh i) =
      some (b64e (messageKey P (σ.state p).ckRecv (i - (σ.state p).nRecv)))
  later : ∀ m ∈ σ.log, m.sender = p.peer → m.dh = (σ.state p).remoteDh → m.slot ∉ σ.opened p →
    ∀ es σ', run P (σ.receive P p id m₁ sk) es = some σ' → m.slot ∉ σ'.opened p →
      ∀ sk', (decrypt P sk' m.wire (σ'.state p)).1 = .ok m.text

/-! ### What a run keeps -/

/-- A run only adds to the log and to what was opened. -/
structure Grows (σ σ' : Sys) : Prop where
  log : ∀ m ∈ σ.log, m ∈ σ'.log
  opened : ∀ p, σ.opened p ⊆ σ'.opened p

theorem Grows.refl (σ : Sys) : Grows σ σ := ⟨fun _ hm => hm, fun _ => Finset.Subset.refl _⟩

theorem Grows.trans {σ'' : Sys} (h : Grows σ σ') (h' : Grows σ' σ'') : Grows σ σ'' :=
  ⟨fun m hm => h'.log m (h.log m hm), fun p => (h.opened p).trans (h'.opened p)⟩

theorem grows_receive (σ : Sys) (p : Party) (id : ℕ) (m : Sent) (sk : Seed) :
    Grows σ (σ.receive P p id m sk) :=
  ⟨fun _ hm => hm, fun q => opened_subset_took _ _ _ q⟩

theorem grows_send (σ : Sys) (p : Party) (r : SendRand) (text : String) :
    Grows σ (σ.send P p r text) := by
  constructor
  · intro m hm
    unfold Sys.send
    split
    · exact List.mem_append_left _ hm
    · exact hm
  · intro q
    unfold Sys.opened
    rw [got_send]

theorem grows_step {e : Event} (h : step P σ e = some σ') : Grows σ σ' := by
  rcases step_eq_some h with ⟨p, r, text, -, -, rfl⟩ | ⟨p, id, sk, m, -, -, -, -, -, rfl⟩
  · exact grows_send σ p r text
  · exact grows_receive σ p id m sk

theorem grows_run (h : run P σ es = some σ') : Grows σ σ' := by
  induction es generalizing σ with
  | nil =>
    obtain rfl := Option.some.inj h
    exact Grows.refl σ
  | cons e es ih =>
    obtain ⟨σ₁, hstep, hrun⟩ := Option.bind_eq_some_iff.mp h
    exact (grows_step hstep).trans (ih hrun)

/-! ### The old chain and the next one -/

/-- A message of a gap opens, whatever came in between. -/
theorem Inv.decrypt_of_mem_gaps (hP : P.Symbolic) (h : Inv P root a L σ) (hm : m ∈ σ.log)
    (hs : m.sender = p.peer) (hg : m.slot ∈ gaps (σ.opened p)) (sk : Seed) :
    (decrypt P sk m.wire (σ.state p)).1 = .ok m.text := by
  have hpeer : m.sender.peer = p := by rw [hs, Party.peer_peer]
  obtain ⟨⟨j, -, hj⟩, hO⟩ := mem_gaps.mp hg
  obtain ⟨r, hw⟩ := h.wires m hm (by rw [hpeer]; exact hO)
  obtain ⟨k, hk, -, hsend⟩ := h.msgs m hm
  obtain ⟨l, hl, -, hdh⟩ := (h.recvs p).opened _ hj
  have hle := turn_le_succ L p
  obtain rfl := h.distinct k hk l (by omega) (hsend.dhPk.symm.trans hdh)
  have hd : decrypt P sk (honestWire P m.state r m.text) (σ.state p) = _ :=
    decrypt_of_gap hP (h.recvs p) hsend (hpeer ▸ h.toPeer m hm) hl hg
  rw [hw]
  exact congrArg Prod.fst hd

/-- The chain of a message whose chain was not opened yet is the next one. -/
theorem Inv.next_of_first (h : Inv P root a L σ) (hm : m₁ ∈ σ.log)
    (hs : m₁.sender = p.peer) (hfirst : ∀ i, (m₁.dh, i) ∉ σ.opened p) :
    L = turn L p + 1 ∧ m₁.dh = P.x25519Public (a L) := by
  obtain ⟨k, hk, hb, hsend⟩ := h.msgs m₁ hm
  have hdh : m₁.dh = P.x25519Public (a k) := hsend.dhPk
  have hgt := lt_turn_add_two L p
  have hbit := turn_mod L p
  have hbit' := bit_lt p
  have hbp := bit_peer p
  rw [hs] at hb
  have hnot : ¬ k < turn L p := by
    intro hlt
    obtain ⟨i, hi⟩ := (h.recvs p).every k hlt (by omega)
    exact hfirst i (hdh ▸ hi)
  obtain rfl : k = L := by omega
  exact ⟨by omega, hdh⟩

/-- The next chain is not the current one. -/
theorem Inv.ne_remoteDh (hP : P.Symbolic) (h : Inv P root a L σ) (hm : m₁ ∈ σ.log)
    (hs : m₁.sender = p.peer) (hfirst : ∀ i, (m₁.dh, i) ∉ σ.opened p) :
    m₁.dh ≠ (σ.state p).remoteDh := by
  obtain ⟨hL, hdh⟩ := h.next_of_first hm hs hfirst
  intro he
  by_cases ht : turn L p = 0
  · rw [((h.recvs p).first ht).1, hdh] at he
    exact hP.public_ne_nil _ he
  · obtain ⟨t, ht⟩ : ∃ t, turn L p = t + 1 := ⟨turn L p - 1, by omega⟩
    rw [(h.recvs p).remoteDh t ht, hdh] at he
    have := h.distinct L le_rfl t (by omega) he
    omega

/-- The first message of the next chain opens, and the own chain is closed. -/
theorem Inv.opens_first (hP : P.Symbolic) (h : Inv P root a L σ) (hm : m₁ ∈ σ.log)
    (hs : m₁.sender = p.peer) (hfirst : ∀ i, (m₁.dh, i) ∉ σ.opened p)
    (hroom : (σ.state p).skipped.entries.length + m₁.n ≤ maxSkipKeys) (sk : Seed) :
    ∃ s', decrypt P sk m₁.wire (σ.state p) = (.ok m₁.text, s') ∧ s'.pn = (σ.state p).nSend ∧
      s'.nSend = 0 ∧ s'.needsSendRatchet = (σ.state p).needsSendRatchet ∧
      s'.dhPk = P.x25519Public sk ∧ s'.remoteDh = m₁.dh := by
  obtain ⟨hL, hdh⟩ := h.next_of_first hm hs hfirst
  rcases h.decrypt_cases hP hm hs (hfirst _) sk with
    ⟨hg, -⟩ | ⟨k, hk, hdh', -⟩ | ⟨-, -, -, hd⟩ | ⟨hfull, -⟩ | ⟨k, hk, -, hdh', -, -⟩
  · obtain ⟨⟨j, -, hj⟩, -⟩ := mem_gaps.mp hg
    exact absurd hj (hfirst j)
  · have := h.distinct L le_rfl k (by omega) (hdh.symm.trans hdh')
    omega
  · refine ⟨_, hd, rfl, rfl, rfl, rfl, ?_⟩
    show P.x25519Public (a (turn L p + 1)) = m₁.dh
    rw [← hL, hdh]
  · have hcard := card_gaps_insert_of_highWater_le (isHighWater_zero hfirst) (Nat.zero_le m₁.n)
    rw [Sent.slot, hcard, ← (h.recvs p).length_skipped] at hfull
    omega
  · have := h.distinct L le_rfl k (by omega) (hdh.symm.trans hdh')
    omega

/-- No key of the rest of the old chain is in the store after the ratchet. -/
theorem Inv.lookup_rest (hP : P.Symbolic) (h : Inv P root a L σ) (hm : σ.log[id]? = some m₁)
    (hs : m₁.sender = p.peer) (hfirst : ∀ i, (m₁.dh, i) ∉ σ.opened p)
    (hf : P.x25519Public sk ∉ σ.used) {i : ℕ} (hi : (σ.state p).nRecv ≤ i) :
    ((σ.receive P p id m₁ sk).state p).skipped.lookup (skipKey (σ.state p).remoteDh i) = none := by
  have hne := h.ne_remoteDh hP (List.mem_of_getElem? hm) hs hfirst
  obtain ⟨a', L', h'⟩ := h.receive hP hm hs (hfirst _) hf
  apply (h'.recvs p).lookup_eq_none
  intro hg
  obtain ⟨⟨j, hj, hjO⟩, -⟩ := mem_gaps.mp hg
  have hold : ((σ.state p).remoteDh, j) ∈ σ.opened p := by
    have hsub : (σ.receive P p id m₁ sk).opened p ⊆ insert m₁.slot (σ.opened p) := by
      intro x hx
      have hx' := hx
      unfold Sys.receive at hx'
      change x ∈ (σ.took p _ _ _).opened p at hx'
      rw [opened_took_self] at hx'
      split at hx'
      · exact hx'
      · exact Finset.mem_insert_of_mem hx'
    rcases Finset.mem_insert.mp (hsub hjO) with he | hO
    · exact absurd (Prod.mk.inj he).1.symm hne
    · exact hO
  have := ((h.recvs p).highWater j).mpr ⟨j, le_rfl, hold⟩
  omega

/-- A message of the old chain lies below the length that the next chain announces. -/
theorem Inv.lt_pn (h : Inv P root a L σ) (hm₁ : m₁ ∈ σ.log) (hs₁ : m₁.sender = p.peer)
    (hfirst : ∀ i, (m₁.dh, i) ∉ σ.opened p) (hm : m ∈ σ.log) (hdh : m.dh = (σ.state p).remoteDh)
    (hne : (σ.state p).remoteDh ≠ []) : m.n < m₁.pn := by
  obtain ⟨hL, hdh₁⟩ := h.next_of_first hm₁ hs₁ hfirst
  have ht : turn L p ≠ 0 := fun h0 => hne ((h.recvs p).first h0).1
  obtain ⟨t, ht⟩ : ∃ t, turn L p = t + 1 := ⟨turn L p - 1, by omega⟩
  obtain rfl : L = t + 2 := by omega
  exact h.pns m hm m₁ hm₁ t le_rfl (hdh.trans ((h.recvs p).remoteDh t ht)) hdh₁

theorem Inv.delayKept_iff_le (hP : P.Symbolic) (h : Inv P root a L σ) (hm : σ.log[id]? = some m₁)
    (hs : m₁.sender = p.peer) (hfirst : ∀ i, (m₁.dh, i) ∉ σ.opened p)
    (hf : P.x25519Public sk ∉ σ.used)
    (hroom : (σ.state p).skipped.entries.length + m₁.n ≤ maxSkipKeys) :
    DelayKept P σ p id m₁ sk ↔ m₁.pn ≤ (σ.state p).nRecv := by
  have hmem := List.mem_of_getElem? hm
  constructor
  · -- the key of the first index of the rest would be in the store
    intro hk
    by_contra hlt
    have hnone := h.lookup_rest hP hm hs hfirst hf le_rfl
    rw [hk.kept _ le_rfl (by omega)] at hnone
    cases hnone
  · intro hle
    obtain ⟨s', hopen, -⟩ := h.opens_first hP hmem hs hfirst hroom sk
    refine ⟨congrArg Prod.fst hopen, fun i hi hi' => by omega, ?_⟩
    intro m hmlog hmsender hmdh hmO es σ' hrun hmO' sk'
    obtain ⟨a', L', h'⟩ := h.receive hP hm hs (hfirst _) hf
    obtain ⟨a'', L'', h''⟩ := h'.run hP hrun
    have hgrow := (grows_receive σ p id m₁ sk).trans (grows_run hrun)
    refine h''.decrypt_of_mem_gaps hP (hgrow.log m hmlog) hmsender ?_ sk'
    -- the message lies below the counter, so it is a gap, and stays one until it is opened
    have hne : (σ.state p).remoteDh ≠ [] := by
      obtain ⟨k, -, -, hsend⟩ := h.msgs m hmlog
      rw [← hmdh, Sent.dh, hsend.dhPk]
      exact hP.public_ne_nil _
    have hlt := h.lt_pn hmem hs hfirst hmlog hmdh hne
    have hw := (h.recvs p).highWater
    rw [← hmdh] at hw
    obtain ⟨⟨j, hj, hjO⟩, -⟩ := mem_gaps.mp (mem_gaps_of_lt_highWater hw (by omega) hmO)
    exact mem_gaps.mpr ⟨⟨j, hj, hgrow.opened p hjO⟩, hmO'⟩

/-- The counters at the start. -/
theorem counters_start (hP : P.Symbolic)
    (hI : pqxdhInitiate P bundle storeI idPk idSk my peer body version conv r = .ok (wire, sI, fp))
    (hR : pqxdhRespond P wire expected r' storeR = (.ok (body', sR, fp', uid), storeR')) :
    sI.nSend = 1 ∧ sR.nRecv = 1 ∧ sI.skipped = ∅ ∧ sR.skipped = ∅ ∧ sR.nSend = 0 := by
  obtain ⟨dh, ss, kid, curvePk, sig, spkId, cid, pqSpkId, qid, alg, ct, rfl, rfl⟩ :=
    pqxdhInitiate_eq_ok hI
  obtain ⟨rfl, rfl⟩ := pqxdhRespond_of_initiate hP hR
  exact ⟨rfl, rfl, rfl, rfl, rfl⟩

/-- Sending from a state that is ready for it. -/
theorem step_send {r : SendRand} {s : DoubleRatchet}
    (h : maybeSendRatchet P r.key (σ.state p) = (.ok (), s)) (hf : P.x25519Public r.key ∉ σ.used)
    (text : String) :
    step P σ (.send p r text) = some (σ.sent p s (DoubleRatchet.sent P s) (honestWire P s r text) text
      (P.x25519Public r.key :: σ.used)) := by
  rw [← send_of_ready h]
  exact if_neg hf

theorem run_cons {e : Event} (h : step P σ e = some σ') (es : List Event) :
    run P σ (e :: es) = run P σ' es := by
  rw [run, h, Option.bind_some]

theorem state_sent_self {s s' : DoubleRatchet} {w text : String} {used : List Bytes} :
    (σ.sent p s s' w text used).state p = s' := Function.update_self _ _ _

theorem state_sent_of_ne {q : Party} (h : q ≠ p) {s s' : DoubleRatchet} {w text : String}
    {used : List Bytes} : (σ.sent p s s' w text used).state q = σ.state q :=
  Function.update_of_ne h _ _

/-- Both parties send after the handshake, before either hears from the other. -/
theorem crossed (hP : P.Symbolic)
    (hI : pqxdhInitiate P bundle storeI idPk idSk my peer body version conv r = .ok (wire, sI, fp))
    (hR : pqxdhRespond P wire expected r' storeR = (.ok (body', sR, fp', uid), storeR'))
    (rA rB : SendRand) (hA : P.x25519Public rA.key ∉ [P.x25519Public r.dr, P.x25519Public r'.dr])
    (hB : P.x25519Public rB.key ∉
      [P.x25519Public rA.key, P.x25519Public r.dr, P.x25519Public r'.dr]) :
    ∃ σ mA mB, run P (Sys.start P sI sR wire body body')
        [.send .initiator rA "late", .send .responder rB "b"] = some σ ∧
      σ.log = [firstSent P sI wire body, mA, mB] ∧
      (mA.sender = .initiator ∧ mA.text = "late" ∧ mA.state = sI) ∧
      (mB.sender = .responder ∧ mB.n = 0 ∧ mB.pn = sR.nSend) ∧
      σ.state .initiator = DoubleRatchet.sent P sI ∧ (σ.state .responder).nRecv = sR.nRecv ∧
      (σ.state .responder).skipped = sR.skipped ∧ (σ.state .responder).remoteDh = sR.remoteDh ∧
      σ.got = (Sys.start P sI sR wire body body').got ∧
      σ.used = [P.x25519Public rB.key, P.x25519Public rA.key, P.x25519Public r.dr,
        P.x25519Public r'.dr] := by
  have hused := used_start hP hI hR
  obtain ⟨root, a, h0⟩ := inv_start hP hI hR
  have hsettled := (h0.sends .initiator fun _ => rfl).settled
  have hstep := step_send (maybeSendRatchet_of_not_due rA.key hsettled) (hused ▸ hA) "late"
  have h1 := h0.send_current (p := .initiator) (fun _ => rfl) rA "late"
    (fun x hx => List.mem_cons_of_mem (P.x25519Public rA.key) hx)
  have hB' : P.x25519Public rB.key ∉ P.x25519Public rA.key ::
      (Sys.start P sI sR wire body body').used := by
    rw [hused]
    exact hB
  obtain ⟨hready, -⟩ := h1.turned hP hB'
  have hstep' := step_send hready hB' "b"
  have hrun := run_cons hstep [.send .responder rB "b"]
  rw [run_cons hstep', run] at hrun
  refine ⟨_, ⟨.initiator, sI, _, "late"⟩, ⟨.responder, _, _, "b"⟩, hrun, rfl, ⟨rfl, rfl, rfl⟩,
    ⟨rfl, rfl, rfl⟩, ?_, ?_, ?_, ?_, rfl, ?_⟩
  · rw [state_sent_of_ne (by decide), state_sent_self]
    rfl
  · rw [state_sent_self]
    rfl
  · rw [state_sent_self]
    rfl
  · rw [state_sent_self]
    rfl
  · rw [← hused]
    rfl

/-- The run of a delayed message: the second message of the initiator is still under way when both
parties have turned their ratchets. -/
def delayedRun : List Event :=
  [.send .initiator (testSendRand 10) "late", .send .responder (testSendRand 11) "b",
    .deliver .initiator 2 (testSeed 12), .send .initiator (testSendRand 13) "c"]

/-- The state before the first message of the next chain is delivered. -/
structure BeforeDelivery (P : Prims) (sI : DoubleRatchet) (wire : String) (keys : List Bytes) (σ : Sys)
    (m m₁ : Sent) : Prop where
  late : σ.log[1]? = some m ∧ m.sender = .initiator ∧ m.text = "late" ∧ m.state = sI
  first : σ.log[3]? = some m₁ ∧ m₁.sender = .initiator ∧ m₁.pn = 2 ∧ m₁.n = 0
  dh : m₁.dh = P.x25519Public (testSeed 12)
  nRecv : (σ.state .responder).nRecv = 1
  skipped : (σ.state .responder).skipped = ∅
  got : σ.got .responder = [⟨0, firstSent P sI wire "hi", .ok "hi"⟩]
  used : σ.used = P.x25519Public (testSeed 13) :: P.x25519Public (testSeed 12) ::
    P.x25519Public (testSeed 11) :: P.x25519Public (testSeed 10) :: keys

theorem run_delayed (hP : P.Symbolic)
    (hI : pqxdhInitiate P bundle storeI idPk idSk my peer "hi" version conv r = .ok (wire, sI, fp))
    (hR : pqxdhRespond P wire expected r' storeR = (.ok ("hi", sR, fp', uid), storeR'))
    (hfresh : [P.x25519Public (testSeed 13), P.x25519Public (testSeed 12),
      P.x25519Public (testSeed 11), P.x25519Public (testSeed 10), P.x25519Public r.dr,
      P.x25519Public r'.dr].Nodup) :
    ∃ σ m m₁, run P (Sys.start P sI sR wire "hi" "hi") delayedRun = some σ ∧
      BeforeDelivery P sI wire [P.x25519Public r.dr, P.x25519Public r'.dr] σ m m₁ := by
  obtain ⟨h13, hfresh⟩ := List.nodup_cons.mp hfresh
  obtain ⟨h12, hfresh⟩ := List.nodup_cons.mp hfresh
  obtain ⟨h11, hfresh⟩ := List.nodup_cons.mp hfresh
  obtain ⟨h10, -⟩ := List.nodup_cons.mp hfresh
  obtain ⟨hnI, hnR, hkI, hkR, -⟩ := counters_start hP hI hR
  obtain ⟨root, a, h0⟩ := inv_start hP hI hR
  have hsettled : sI.needsSendRatchet = false := (h0.sends .initiator fun _ => rfl).settled
  obtain ⟨σ, mA, mB, hrun, hlog, hA, ⟨hsB, hnB, -⟩, hstI, hnRecv, hskip, hremote, hgot, hused⟩ :=
    crossed hP hI hR (testSendRand 10) (testSendRand 11) h10 h11
  obtain ⟨a₂, L₂, h2⟩ := h0.run hP hrun
  have hmB : σ.log[2]? = some mB := by rw [hlog]; rfl
  have hgotI : σ.got .initiator = [] := by rw [hgot]; rfl
  have hopened : σ.opened .initiator = ∅ := by rw [Sys.opened, hgotI]; rfl
  -- the initiator turns its ratchet
  obtain ⟨s', hopen, hpn, hn, hset, hpk, -⟩ := h2.opens_first (p := .initiator) hP
    (List.mem_of_getElem? hmB) hsB (fun i hi => by rw [hopened] at hi; cases hi)
    (by rw [hstI, hnB]; show sI.skipped.entries.length + 0 ≤ _; rw [hkI]; exact Nat.zero_le _)
    (testSeed 12)
  have hD : step P σ (.deliver .initiator 2 (testSeed 12)) = some _ :=
    step_deliver hmB (hused ▸ h12) (by rw [hsB]; exact Party.noConfusion) (by simp [hgotI])
  rw [receive_of_ok hopen] at hD
  -- and sends the first message of its next chain
  obtain ⟨σ₃, hσ₃, hD⟩ : ∃ σ₃, σ₃ = σ.took .initiator s' ⟨2, mB, .ok mB.text⟩
      (P.x25519Public (testSeed 12) :: σ.used) ∧ step P σ (.deliver .initiator 2 (testSeed 12)) =
        some σ₃ := ⟨_, rfl, hD⟩
  have hstI₃ : σ₃.state .initiator = s' := by rw [hσ₃, state_took_self]
  have hstR₃ : σ₃.state .responder = σ.state .responder := by
    rw [hσ₃, state_took_of_ne Party.noConfusion]
  have hused₃ : σ₃.used = P.x25519Public (testSeed 12) :: σ.used := by rw [hσ₃]; rfl
  have hlog₃ : σ₃.log = σ.log := by rw [hσ₃]; rfl
  have hgot₃ : σ₃.got .responder = σ.got .responder := by
    rw [hσ₃, got_took_of_ne Party.noConfusion]
  have hset₃ : (σ₃.state .initiator).needsSendRatchet = false := by
    rw [hstI₃, hset, hstI]
    exact hsettled
  have hC := step_send (maybeSendRatchet_of_not_due (testSendRand 13).key hset₃)
    (by rw [hused₃, hused]; exact h13) "c"
  have hruns := run_append (P := P) (Sys.start P sI sR wire "hi" "hi")
    [.send .initiator (testSendRand 10) "late", .send .responder (testSendRand 11) "b"]
    [.deliver .initiator 2 (testSeed 12), .send .initiator (testSendRand 13) "c"]
  rw [hrun, Option.bind_some, run_cons hD, run_cons hC, run] at hruns
  refine ⟨_, mA, ⟨.initiator, s', honestWire P s' (testSendRand 13) "c", "c"⟩, hruns, ?_, ⟨?_, rfl, ?_, hn⟩, hpk, ?_, ?_, ?_, ?_⟩
  · refine ⟨?_, hA⟩
    show (σ₃.log ++ _)[1]? = _
    rw [hlog₃, hlog]
    rfl
  · show (σ₃.log ++ _)[3]? = _
    rw [hlog₃, hlog, ← hstI₃]
    rfl
  · show s'.pn = 2
    rw [hpn, hstI]
    show sI.nSend + 1 = 2
    rw [hnI]
  · rw [state_sent_of_ne Party.noConfusion, hstR₃, hnRecv, hnR]
  · rw [state_sent_of_ne Party.noConfusion, hstR₃, hskip, hkR]
  · show σ₃.got .responder = _
    rw [hgot₃, hgot]
    rfl
  · show _ :: σ₃.used = _
    rw [hused₃, hused]
    rfl

theorem BeforeDelivery.opened {keys : List Bytes} (h : BeforeDelivery P sI wire keys σ m m₁) :
    σ.opened .responder = {(sI.dhPk, 0)} := by
  rw [Sys.opened, h.got]
  rfl

/-- The delayed message is lost. -/
theorem BeforeDelivery.lost (hP : P.Symbolic) (h : Inv P root a L σ) {keys : List Bytes}
    (hb : BeforeDelivery P sI wire keys σ m m₁) (hne : sI.dhPk ≠ m₁.dh) (hn : sI.nSend = 1)
    (hf : P.x25519Public sk ∉ σ.used) (sk' : Seed) :
    ∃ e, (decrypt P sk' m.wire ((σ.receive P .responder 3 m₁ sk).state .responder)).1 = .error e := by
  obtain ⟨hlate, hsender, -, hstate⟩ := hb.late
  obtain ⟨hm₁, hs₁, -, hn₁⟩ := hb.first
  have hslot : m.slot = (sI.dhPk, 1) := by rw [Sent.slot, Sent.dh, Sent.n, hstate, hn]
  have hfirst : ∀ i, (m₁.dh, i) ∉ σ.opened .responder := by
    intro i hi
    rw [hb.opened] at hi
    exact hne (Prod.mk.inj (Finset.mem_singleton.mp hi)).1.symm
  obtain ⟨s', hopen, -, -, -, -, hremote⟩ := h.opens_first (p := .responder) hP
    (List.mem_of_getElem? hm₁) hs₁ hfirst
    (by rw [hb.skipped, hn₁]; exact Nat.zero_le _) sk
  have hrecv : σ.receive P .responder 3 m₁ sk = _ := receive_of_ok hopen
  obtain ⟨a', L', h'⟩ := h.receive (p := .responder) hP hm₁ hs₁ (hfirst _) hf
  rw [hrecv] at h' ⊢
  have hopened : (σ.took .responder s' ⟨3, m₁, .ok m₁.text⟩ (P.x25519Public sk :: σ.used)).opened
      .responder = {(m₁.dh, 0), (sI.dhPk, 0)} := by
    rw [opened_took_self, hb.opened, ← hn₁]
    rfl
  have hO : m.slot ∉ (σ.took .responder s' ⟨3, m₁, .ok m₁.text⟩
      (P.x25519Public sk :: σ.used)).opened .responder := by
    rw [hopened, hslot]
    simp
  rw [state_took_self]
  rcases h'.decrypt_cases hP (p := .responder) (List.mem_of_getElem? hlate) hsender hO sk' with
    ⟨hg, -⟩ | ⟨k, hk, hdh, -⟩ | ⟨hL, hdh, -⟩ | ⟨-, e, s'', hd⟩ | ⟨-, -, -, -, -, e, s'', hd⟩
  · obtain ⟨⟨j, hj, hjO⟩, -⟩ := mem_gaps.mp hg
    rw [hopened, Finset.mem_insert, Finset.mem_singleton, Prod.mk.injEq, Prod.mk.injEq] at hjO
    omega
  · -- the current chain is that of the first message
    have hr := (h'.recvs .responder).remoteDh k hk
    have hmdh : m.dh = sI.dhPk := congrArg dhPk hstate
    rw [state_took_self, hremote, ← hdh, hmdh] at hr
    exact absurd hr.symm hne
  · -- the chain of the delayed message was opened before
    have hmem : (sI.dhPk, 0) ∈ (σ.took .responder s' ⟨3, m₁, .ok m₁.text⟩
        (P.x25519Public sk :: σ.used)).opened .responder := by
      rw [hopened]
      simp
    obtain ⟨k, hk, -, hk'⟩ := (h'.recvs .responder).opened _ hmem
    rw [Sent.dh, hstate] at hdh
    have := h'.distinct k (by omega) L' le_rfl (hk'.symm.trans hdh)
    omega
  · rw [state_took_self] at hd
    exact ⟨e, congrArg Prod.fst hd⟩
  · rw [state_took_self] at hd
    exact ⟨e, congrArg Prod.fst hd⟩

end SecChat
