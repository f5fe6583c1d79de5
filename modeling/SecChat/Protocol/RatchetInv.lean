import SecChat.Protocol.RatchetStep

/-!
# The invariant of a run

Every event keeps the invariant `Inv`, for any order of events and any outcome of the deliveries:

* `Inv.send`: a party encrypts, the responder with its first DH ratchet;
* `Inv.took`, `Inv.took_next`: a delivery leaves the epochs as they are, or opens a new one;
* `Inv.decrypt_cases`: which of the cases of `decrypt` a message falls under;
* `Inv.run`: a whole run keeps the invariant.
-/

namespace SecChat

open Py Gaps DoubleRatchet

variable {P : Prims} {root : Bytes} {a : ℕ → Seed} {L : ℕ} {σ : Sys} {p : Party} {r : SendRand}
  {text : String}

/-! ### Turns -/

theorem turn_le (h : L = 0 → p = .initiator) : turn L p ≤ L := by
  cases p with
  | initiator =>
    show 2 * (L / 2) ≤ L
    omega
  | responder =>
    have hL : L ≠ 0 := fun h0 => by cases h h0
    show 2 * ((L - 1) / 2) + 1 ≤ L
    omega

theorem lt_turn_add_two (L : ℕ) (p : Party) : L < turn L p + 2 := by
  cases p with
  | initiator =>
    show L < 2 * (L / 2) + 2
    omega
  | responder =>
    show L < 2 * ((L - 1) / 2) + 1 + 2
    omega

theorem turn_mod (L : ℕ) (p : Party) : turn L p % 2 = p.bit := by
  cases p with
  | initiator =>
    show 2 * (L / 2) % 2 = 0
    omega
  | responder =>
    show (2 * ((L - 1) / 2) + 1) % 2 = 1
    omega

theorem bit_injective {p q : Party} (h : p.bit = q.bit) : p = q := by
  cases p <;> cases q <;> first | rfl | cases h

theorem bit_peer (p : Party) : p.peer.bit = 1 - p.bit := by cases p <;> rfl

theorem bit_lt (p : Party) : p.bit < 2 := by cases p <;> decide

/-! ### Sending -/

/-- A message of an existing epoch was sent by the party that the epoch belongs to. -/
theorem Inv.sender_bit (h : Inv P root a L σ) {m : Sent} (hm : m ∈ σ.log) {k : ℕ} (hk : k ≤ L)
    (he : m.dh = P.x25519Public (a k)) : k % 2 = m.sender.bit := by
  obtain ⟨l, hl, hp, hs⟩ := h.msgs m hm
  have hkl := h.distinct k hk l hl (he.symm.trans hs.dhPk)
  rw [hkl, hp]

theorem RecvAt.sent {t : ℕ} {s : DoubleRatchet} {O : Finset (Bytes × ℕ)}
    (h : RecvAt P root a t s O) : RecvAt P root a t (DoubleRatchet.sent P s) O :=
  ⟨h.first, h.remoteDh, h.ckRecv, h.highWater, h.opened, h.every, h.keys, h.stored, h.seen⟩

/-- The system after a party in state `s` sent a message and was left in state `s'`. -/
def Sys.sent (σ : Sys) (p : Party) (s s' : DoubleRatchet) (w text : String) (used : List Bytes) :
    Sys where
  state := Function.update σ.state p s'
  log := σ.log ++ [⟨p, s, w, text⟩]
  got := σ.got
  used := used

theorem send_of_ready {s : DoubleRatchet}
    (h : maybeSendRatchet P r.key (σ.state p) = (.ok (), s)) :
    σ.send P p r text = σ.sent p s (DoubleRatchet.sent P s) (honestWire P s r text) text
      (P.x25519Public r.key :: σ.used) := by
  unfold Sys.send
  rw [encrypt_of_ready h, sendReady, h]
  rfl

/-- The log after one more message keeps what was delivered. -/
theorem getElem?_append_of_some {α : Type} {l : List α} {i : ℕ} {x : α} (h : l[i]? = some x)
    (l' : List α) : (l ++ l')[i]? = some x := by
  obtain ⟨hi, -⟩ := List.getElem?_eq_some_iff.mp h
  rw [List.getElem?_append_left hi, h]

/-- An address does not change with the keys of the receiver. -/
theorem DoubleRatchet.Addressed.sent {s t : DoubleRatchet} (h : Addressed s t) :
    Addressed s (DoubleRatchet.sent P t) := ⟨h.sessionId, h.conversationId, h.recipient⟩

/-- Sending in the current epoch. -/
theorem Inv.send_current (h : Inv P root a L σ) (hp : L = 0 → p = .initiator) (r : SendRand)
    (text : String) {used : List Bytes} (hused : ∀ x ∈ σ.used, x ∈ used) :
    Inv P root a L (σ.sent p (σ.state p) (DoubleRatchet.sent P (σ.state p))
      (honestWire P (σ.state p) r text) text used) := by
  have hs := h.sends p hp
  have hne : p.peer ≠ p := by cases p <;> decide
  have hL := turn_le hp
  -- the new message shares its chain with earlier messages of the same party only
  have hnew : ∀ m ∈ σ.log, m.dh = (σ.state p).dhPk → m.sender = p ∧ m.n < (σ.state p).nSend := by
    intro m hm he
    rw [hs.dhPk] at he
    have hb := h.sender_bit hm hL he
    rw [turn_mod] at hb
    obtain rfl := bit_injective hb
    exact ⟨rfl, (h.current m hm he).1⟩
  have hmem : ∀ {m : Sent}, m ∈ (σ.sent p (σ.state p) (DoubleRatchet.sent P (σ.state p))
      (honestWire P (σ.state p) r text) text used).log →
      m ∈ σ.log ∨ m = ⟨p, σ.state p, honestWire P (σ.state p) r text, text⟩ := by
    intro m hm
    simpa [Sys.sent] using hm
  refine ⟨h.notRk, fun k hk => hused _ (h.fresh k hk), h.distinct, ?_, ?_, ?_, ?_, ?_, ?_, ?_, ?_, ?_,
    ?_, ?_, ?_, h.results, ?_⟩
  · -- pending
    intro h0
    obtain rfl := hp h0
    exact h.pending h0
  · -- sends
    intro q hq
    by_cases hqp : q = p
    · subst hqp
      simpa [Sys.sent] using hs.sent
    · simpa [Sys.sent, hqp] using h.sends q hq
  · -- recvs
    intro q
    show RecvAt P root a (turn L q) (Function.update σ.state p _ q) (σ.opened q)
    by_cases hqp : q = p
    · subst hqp
      simpa using (h.recvs q).sent
    · simpa [hqp] using h.recvs q
  · -- addressed
    intro q
    have hq := h.addressed q
    by_cases hqp : q = p
    · subst hqp
      have : Addressed (DoubleRatchet.sent P (σ.state q)) (σ.state q.peer) :=
        ⟨hq.sessionId, hq.conversationId, hq.recipient⟩
      simpa [Sys.sent, hne] using this
    · by_cases hqp' : q.peer = p
      · simpa [Sys.sent, hqp, hqp'] using (hqp' ▸ hq).sent
      · simpa [Sys.sent, hqp, hqp'] using hq
  · -- msgs
    intro m hm
    rcases hmem hm with hm | rfl
    · exact h.msgs m hm
    · exact ⟨turn L p, hL, turn_mod L p, hs⟩
  · -- toPeer
    intro m hm
    have hm' : Addressed m.state (σ.state m.sender.peer) := by
      rcases hmem hm with hm | rfl
      · exact h.toPeer m hm
      · exact h.addressed p
    by_cases hq : m.sender.peer = p
    · simpa [Sys.sent, hq] using (hq ▸ hm').sent
    · simpa [Sys.sent, hq] using hm'
  · -- wires
    intro m hm hO
    rcases hmem hm with hm | rfl
    · exact h.wires m hm hO
    · exact ⟨r, rfl⟩
  · -- slots
    show ((σ.log ++ [_]).map Sent.slot).Nodup
    rw [List.map_append, List.nodup_append]
    refine ⟨h.slots, by simp, ?_⟩
    intro x hx y hy
    obtain ⟨m, hm, rfl⟩ := List.mem_map.mp hx
    simp only [List.map_cons, List.map_nil, List.mem_singleton] at hy
    rintro rfl
    obtain ⟨he, hn⟩ := Prod.mk.inj hy
    have := (hnew m hm he).2
    have hn' : m.n = (σ.state p).nSend := hn
    omega
  · -- current
    intro m hm he
    rcases hmem hm with hm | rfl
    · obtain ⟨h1, h2⟩ := h.current m hm he
      by_cases hq : m.sender = p
      · rw [hq] at h1 h2
        simp only [Sys.sent, hq, Function.update_self, DoubleRatchet.sent]
        exact ⟨by omega, h2⟩
      · simpa [Sys.sent, hq] using ⟨h1, h2⟩
    · simp [Sys.sent, DoubleRatchet.sent, Sent.n, Sent.pn]
  · -- previous
    intro m hm k hk he
    rcases hmem hm with hm | rfl
    · have h1 := h.previous m hm k hk he
      by_cases hq : m.sender = p
      · rw [hq] at h1
        simpa [Sys.sent, hq, DoubleRatchet.sent] using h1
      · simpa [Sys.sent, hq] using h1
    · have hk' : k + 2 = turn L p := hk
      have := h.distinct k (by omega) (turn L p) hL (he.symm.trans hs.dhPk)
      omega
  · -- pns
    have hgt := lt_turn_add_two L p
    intro m hm m' hm' k hk he he'
    rcases hmem hm with hm | rfl
    · rcases hmem hm' with hm' | rfl
      · exact h.pns m hm m' hm' k hk he he'
      · have hkt := h.distinct (k + 2) hk (turn L p) hL (he'.symm.trans hs.dhPk)
        have hb := h.sender_bit hm (by omega) he
        have hbp := turn_mod L p
        have hsp : m.sender = p := bit_injective (by omega)
        have h1 := h.previous m hm k (by rw [hsp, hkt]) he
        rw [hsp] at h1
        exact h1
    · have hkt := h.distinct k (by omega) (turn L p) hL (he.symm.trans hs.dhPk)
      omega
  · -- gotLog
    intro q d hd
    obtain ⟨h1, h2⟩ := h.gotLog q d hd
    exact ⟨getElem?_append_of_some h1 _, h2⟩
  · -- order
    refine List.pairwise_append.mpr ⟨h.order, List.pairwise_singleton _ _, ?_⟩
    intro m hm m' hm' hsame k hk l hl he he'
    obtain rfl := List.mem_singleton.mp hm'
    have hlt := h.distinct l hl (turn L p) hL (he'.symm.trans hs.dhPk)
    have hb := h.sender_bit hm hk he
    have hbp := turn_mod L p
    have hgt := lt_turn_add_two L p
    have hsp : m.sender.bit = p.bit := congrArg Party.bit hsame
    omega

/-- At the beginning all messages are of epoch `0`. -/
theorem Inv.log_of_zero (h : Inv P root a 0 σ) {m : Sent} (hm : m ∈ σ.log) :
    m.sender = .initiator ∧ SendAt P root a 0 m.state := by
  obtain ⟨k, hk, hp, hs⟩ := h.msgs m hm
  obtain rfl : k = 0 := by omega
  have hb : Party.initiator.bit = m.sender.bit := hp
  exact ⟨(bit_injective hb).symm, hs⟩

/-- The first DH ratchet of the responder. -/
theorem Inv.turned (hP : P.Symbolic) (h : Inv P root a 0 σ) {sk : Seed}
    (hf : P.x25519Public sk ∉ σ.used) :
    maybeSendRatchet P sk (σ.state .responder) =
      (.ok (), DoubleRatchet.turned P (σ.state .responder) sk (sharedSecret P sk (a 0))) ∧
    Inv P root (Function.update a 1 sk) 1 { σ with
      state := Function.update σ.state .responder
        (DoubleRatchet.turned P (σ.state .responder) sk (sharedSecret P sk (a 0)))
      used := P.x25519Public sk :: σ.used } := by
  have hpend := h.pending rfl
  have hremote : (σ.state .responder).remoteDh = P.x25519Public (a 0) :=
    (h.recvs .responder).remoteDh 0 rfl
  have hagree : ∀ i ≤ 0, Function.update a 1 sk i = a i := by
    intro i hi
    exact Function.update_of_ne (by omega) _ _
  have h1 : Function.update a 1 sk 1 = sk := Function.update_self _ _ _
  have hfresh : ∀ k ≤ 0, P.x25519Public (a k) ≠ P.x25519Public sk := by
    intro k hk he
    exact hf (he ▸ h.fresh k hk)
  refine ⟨?_, ?_⟩
  · apply maybeSendRatchet_of_due hpend.due
    · rw [hremote]
      exact hP.public_ne_nil _
    · rw [hremote]
      exact x25519Dh_public hP.toCorrect _ _
  · refine ⟨h.notRk, ?_, ?_, ?_, ?_, ?_, ?_, ?_, ?_, h.wires, h.slots, ?_, ?_, ?_, h.gotLog,
      h.results, ?_⟩
    · -- fresh
      intro k hk
      by_cases hk1 : k = 1
      · rw [hk1, h1]
        exact List.mem_cons_self
      · rw [hagree k (by omega)]
        exact List.mem_cons_of_mem _ (h.fresh k (by omega))
    · -- distinct
      intro k hk l hl he
      by_cases hk1 : k = 1 <;> by_cases hl1 : l = 1
      · omega
      · rw [hk1, h1, hagree l (by omega)] at he
        exact absurd he.symm (hfresh l (by omega))
      · rw [hl1, h1, hagree k (by omega)] at he
        exact absurd he (hfresh k (by omega))
      · omega
    · intro h0
      omega
    · -- sends
      intro q _
      cases q with
      | initiator =>
        exact (h.sends .initiator fun _ => rfl).congr hagree le_rfl
      | responder =>
        show SendAt P root _ 1 (Function.update σ.state .responder _ .responder)
        rw [Function.update_self]
        exact SendAt.turned hP.toCorrect hpend (hagree 0 le_rfl) h1
    · -- recvs
      intro q
      have hr : turn 0 q ≤ 1 → RecvAt P root (Function.update a 1 sk) (turn 0 q) _ _ :=
        (h.recvs q).congr hagree
      show RecvAt P root _ (turn 1 q) (Function.update σ.state .responder _ q) (σ.opened q)
      cases q with
      | initiator => exact hr (by decide)
      | responder =>
        have hr' := hr (by decide)
        rw [Function.update_self]
        exact ⟨hr'.first, hr'.remoteDh, hr'.ckRecv, hr'.highWater, hr'.opened, hr'.every, hr'.keys,
          hr'.stored, hr'.seen⟩
    · -- addressed
      intro q
      have hq := h.addressed q
      cases q with
      | initiator => exact ⟨hq.sessionId, hq.conversationId, hq.recipient⟩
      | responder => exact ⟨hq.sessionId, hq.conversationId, hq.recipient⟩
    · -- msgs
      intro m hm
      obtain ⟨hi, hs⟩ := h.log_of_zero hm
      exact ⟨0, by omega, by rw [hi]; rfl, hs.congr hagree le_rfl⟩
    · -- toPeer
      intro m hm
      have hm' := h.toPeer m hm
      rw [(h.log_of_zero hm).1] at hm' ⊢
      exact ⟨hm'.sessionId, hm'.conversationId, hm'.recipient⟩
    · -- current
      intro m hm he
      have hi := (h.log_of_zero hm).1
      rw [hi] at he ⊢
      have hc := h.current m hm
      rw [hi] at hc
      exact hc he
    · -- previous
      intro m hm k hk he
      rw [(h.log_of_zero hm).1] at hk
      have hk' : k + 2 = 0 := hk
      omega
    · intro m hm m' hm' k hk
      omega
    · -- order: no message of the new epoch yet
      refine h.order.imp_of_mem fun {m m'} hm hm' _ _ k hk l hl he he' => ?_
      by_cases hk1 : k = 1
      · rw [hk1, h1] at he
        have hdh := (h.log_of_zero hm).2.dhPk
        exact absurd (hdh.symm.trans he) (hfresh 0 le_rfl)
      · omega

/-- **Sending keeps the invariant.** -/
theorem Inv.send (hP : P.Symbolic) (h : Inv P root a L σ) (hf : P.x25519Public r.key ∉ σ.used) :
    ∃ a' L', Inv P root a' L' (σ.send P p r text) := by
  by_cases hp : L = 0 → p = .initiator
  · rw [send_of_ready (maybeSendRatchet_of_not_due r.key (h.sends p hp).settled)]
    exact ⟨a, L, h.send_current hp r text fun x hx => List.mem_cons_of_mem _ hx⟩
  · obtain ⟨rfl, hp'⟩ := Classical.not_imp.mp hp
    obtain rfl : p = .responder := by
      cases p with
      | initiator => exact absurd rfl hp'
      | responder => rfl
    obtain ⟨hready, hinv⟩ := h.turned hP hf
    refine ⟨Function.update a 1 r.key, 1, ?_⟩
    rw [send_of_ready hready]
    have hused : ∀ x ∈ P.x25519Public r.key :: σ.used, x ∈ P.x25519Public r.key :: σ.used :=
      fun x hx => hx
    have hsend := hinv.send_current (p := .responder) (by simp) r text hused
    simpa [Sys.sent] using hsend

/-! ### Receiving -/

/-- The system after a delivery left party `p` in state `s'`. -/
def Sys.took (σ : Sys) (p : Party) (s' : DoubleRatchet) (d : Delivery) (used : List Bytes) : Sys where
  state := Function.update σ.state p s'
  log := σ.log
  got := Function.update σ.got p (σ.got p ++ [d])
  used := used

theorem got_took_self (s' : DoubleRatchet) (d : Delivery) (used : List Bytes) :
    (σ.took p s' d used).got p = σ.got p ++ [d] := Function.update_self _ _ _

theorem got_took_of_ne {q : Party} (h : q ≠ p) (s' : DoubleRatchet) (d : Delivery)
    (used : List Bytes) : (σ.took p s' d used).got q = σ.got q := Function.update_of_ne h _ _

theorem opened_took_self (s' : DoubleRatchet) (d : Delivery) (used : List Bytes) :
    (σ.took p s' d used).opened p =
      if d.ok then insert d.msg.slot (σ.opened p) else σ.opened p := by
  unfold Sys.opened
  rw [got_took_self, List.filter_append]
  by_cases h : d.ok = true
  · rw [if_pos h, List.filter_cons_of_pos h, List.filter_nil, List.map_append, List.toFinset_append,
      Finset.union_comm, Finset.insert_eq]
    rfl
  · rw [if_neg h, List.filter_cons_of_neg h, List.filter_nil, List.append_nil]

theorem opened_took_of_ne {q : Party} (h : q ≠ p) (s' : DoubleRatchet) (d : Delivery)
    (used : List Bytes) : (σ.took p s' d used).opened q = σ.opened q := by
  unfold Sys.opened
  rw [got_took_of_ne h]

theorem opened_subset_took (s' : DoubleRatchet) (d : Delivery) (used : List Bytes) (q : Party) :
    σ.opened q ⊆ (σ.took p s' d used).opened q := by
  by_cases hq : q = p
  · subst hq
    rw [opened_took_self]
    split
    · exact Finset.subset_insert _ _
    · exact fun _ hx => hx
  · rw [opened_took_of_ne hq]

/-- A message that was not opened under its number was not opened at all. -/
theorem Inv.slot_notMem_opened (h : Inv P root a L σ) {id : ℕ} {m : Sent} (hm : σ.log[id]? = some m)
    (hn : ¬ ∃ d ∈ σ.got p, d.id = id ∧ d.ok = true) : m.slot ∉ σ.opened p := by
  intro hO
  rw [Sys.opened, List.mem_toFinset, List.mem_map] at hO
  obtain ⟨d, hd, hslot⟩ := hO
  obtain ⟨hd, hok⟩ := List.mem_filter.mp hd
  have hlog := (h.gotLog p d hd).1
  have h1 : (σ.log.map Sent.slot)[d.id]? = some m.slot := by rw [List.getElem?_map, hlog]; simp [hslot]
  have h2 : (σ.log.map Sent.slot)[id]? = some m.slot := by rw [List.getElem?_map, hm]; rfl
  have hlt : d.id < (σ.log.map Sent.slot).length := (List.getElem?_eq_some_iff.mp h1).1
  have hid : d.id = id := (List.getElem?_inj hlt h.slots).mp (h1.trans h2.symm)
  exact hn ⟨d, hd, hid, hok⟩

/-- The send half and the context of a state. -/
structure SameSend (s s' : DoubleRatchet) : Prop where
  rootKey : s'.rootKey = s.rootKey
  dhSk : s'.dhSk = s.dhSk
  dhPk : s'.dhPk = s.dhPk
  ckSend : s'.ckSend = s.ckSend
  nSend : s'.nSend = s.nSend
  pn : s'.pn = s.pn
  needsSendRatchet : s'.needsSendRatchet = s.needsSendRatchet
  sessionId : s'.sessionId = s.sessionId
  conversationId : s'.conversationId = s.conversationId
  myUid : s'.myUid = s.myUid
  peerUid : s'.peerUid = s.peerUid

theorem SendAt.of_same {k : ℕ} {s s' : DoubleRatchet} (hs : SendAt P root a k s) (h : SameSend s s') :
    SendAt P root a k s' where
  rootKey := h.rootKey.trans hs.rootKey
  dhSk := h.dhSk.trans hs.dhSk
  dhPk := h.dhPk.trans hs.dhPk
  ckSend := by rw [h.ckSend, h.nSend, hs.ckSend]
  settled := h.needsSendRatchet.trans hs.settled

/-- The ids of a session, which no message changes. -/
structure SameContext (s s' : DoubleRatchet) : Prop where
  sessionId : s'.sessionId = s.sessionId
  conversationId : s'.conversationId = s.conversationId
  myUid : s'.myUid = s.myUid
  peerUid : s'.peerUid = s.peerUid

theorem SameSend.sameContext {s s' : DoubleRatchet} (h : SameSend s s') : SameContext s s' :=
  ⟨h.sessionId, h.conversationId, h.myUid, h.peerUid⟩

theorem DoubleRatchet.Addressed.of_sender {s s' t : DoubleRatchet} (h : Addressed s t) (hs : SameContext s s') :
    Addressed s' t :=
  ⟨h.sessionId.trans hs.sessionId.symm, h.conversationId.trans hs.conversationId.symm,
    h.recipient.trans hs.peerUid.symm⟩

theorem DoubleRatchet.Addressed.of_recipient {s t t' : DoubleRatchet} (h : Addressed s t) (ht : SameContext t t') :
    Addressed s t' :=
  ⟨ht.sessionId.trans h.sessionId, ht.conversationId.trans h.conversationId,
    ht.myUid.trans h.recipient⟩

section Took

variable {s' : DoubleRatchet} {d : Delivery} {used : List Bytes}

theorem state_took_self : (σ.took p s' d used).state p = s' := Function.update_self _ _ _

theorem state_took_of_ne {q : Party} (h : q ≠ p) : (σ.took p s' d used).state q = σ.state q :=
  Function.update_of_ne h _ _

/-- Deliveries are of messages that the other party sent. -/
theorem Inv.gotLog_took (h : Inv P root a L σ) (hlog : σ.log[d.id]? = some d.msg)
    (hsender : d.msg.sender = p.peer) (q : Party) :
    ∀ e ∈ (σ.took p s' d used).got q, σ.log[e.id]? = some e.msg ∧ e.msg.sender = q.peer := by
  intro e he
  by_cases hq : q = p
  · subst hq
    rw [got_took_self, List.mem_append, List.mem_singleton] at he
    rcases he with he | rfl
    · exact h.gotLog q e he
    · exact ⟨hlog, hsender⟩
  · rw [got_took_of_ne hq] at he
    exact h.gotLog q e he

/-- What was opened is what was sent. -/
theorem Inv.results_took (h : Inv P root a L σ) (hres : ∀ x, d.result = .ok x → x = d.msg.text)
    (q : Party) : ∀ e ∈ (σ.took p s' d used).got q, ∀ x, e.result = .ok x → x = e.msg.text := by
  intro e he
  by_cases hq : q = p
  · subst hq
    rw [got_took_self, List.mem_append, List.mem_singleton] at he
    rcases he with he | rfl
    · exact h.results q e he
    · exact hres
  · rw [got_took_of_ne hq] at he
    exact h.results q e he

theorem Inv.addressed_took (h : Inv P root a L σ) (hs : SameContext (σ.state p) s') (q : Party) :
    Addressed ((σ.took p s' d used).state q) ((σ.took p s' d used).state q.peer) := by
  have hqa := h.addressed q
  by_cases hq : q = p
  · subst hq
    have hne : q.peer ≠ q := by cases q <;> decide
    rw [state_took_self, state_took_of_ne hne]
    exact hqa.of_sender hs
  · rw [state_took_of_ne hq]
    have hqp : q.peer = p := by rw [Party.ne_iff_eq_peer.mp hq, Party.peer_peer]
    rw [hqp] at hqa ⊢
    rw [state_took_self]
    exact hqa.of_recipient hs

theorem Inv.toPeer_took (h : Inv P root a L σ) (hs : SameContext (σ.state p) s') :
    ∀ m ∈ σ.log, Addressed m.state ((σ.took p s' d used).state m.sender.peer) := by
  intro m hm
  have hm' := h.toPeer m hm
  by_cases hq : m.sender.peer = p
  · rw [hq] at hm' ⊢
    rw [state_took_self]
    exact hm'.of_recipient hs
  · rw [state_took_of_ne hq]
    exact hm'

end Took

/-- A delivery that leaves the epochs as they are. -/
theorem Inv.took (h : Inv P root a L σ) {s' : DoubleRatchet} (hs : SameSend (σ.state p) s')
    {d : Delivery} {used : List Bytes} (hused : ∀ x ∈ σ.used, x ∈ used)
    (hr : RecvAt P root a (turn L p) s' ((σ.took p s' d used).opened p))
    (hlog : σ.log[d.id]? = some d.msg) (hsender : d.msg.sender = p.peer)
    (hres : ∀ x, d.result = .ok x → x = d.msg.text) : Inv P root a L (σ.took p s' d used) := by
  have hstate : ∀ q, q ≠ p → (σ.took p s' d used).state q = σ.state q :=
    fun q hq => state_took_of_ne hq
  have hself : (σ.took p s' d used).state p = s' := state_took_self
  refine ⟨h.notRk, fun k hk => hused _ (h.fresh k hk), h.distinct, ?_, ?_, ?_,
    h.addressed_took hs.sameContext, h.msgs, h.toPeer_took hs.sameContext, ?_, h.slots, ?_, ?_,
    h.pns, h.gotLog_took hlog hsender, h.results_took hres, h.order⟩
  · -- pending
    intro h0
    have hp := h.pending h0
    by_cases hq : Party.responder = p
    · subst hq
      rw [hself]
      exact ⟨hs.rootKey.trans hp.rootKey, hs.nSend.trans hp.nSend,
        hs.needsSendRatchet.trans hp.due⟩
    · rw [hstate _ hq]
      exact hp
  · -- sends
    intro q hq
    by_cases hqp : q = p
    · subst hqp
      rw [hself]
      exact (h.sends q hq).of_same hs
    · rw [hstate q hqp]
      exact h.sends q hq
  · -- recvs
    intro q
    by_cases hqp : q = p
    · subst hqp
      rw [hself]
      exact hr
    · rw [hstate q hqp, opened_took_of_ne hqp]
      exact h.recvs q
  · -- wires
    intro m hm hO
    exact h.wires m hm fun hO' => hO (opened_subset_took s' d used _ hO')
  · -- current
    intro m hm he
    have hc := h.current m hm he
    by_cases hq : m.sender = p
    · rw [hq] at hc ⊢
      rw [hself, hs.nSend, hs.pn]
      exact hc
    · rw [hstate _ hq]
      exact hc
  · -- previous
    intro m hm k hk he
    have hc := h.previous m hm k hk he
    by_cases hq : m.sender = p
    · rw [hq] at hc ⊢
      rw [hself, hs.pn]
      exact hc
    · rw [hstate _ hq]
      exact hc

theorem turn_succ_self (h : L = turn L p + 1) : turn (L + 1) p = L + 1 := by
  cases p with
  | initiator =>
    have h' : L = 2 * (L / 2) + 1 := h
    show 2 * ((L + 1) / 2) = L + 1
    omega
  | responder =>
    have h' : L = 2 * ((L - 1) / 2) + 1 + 1 := h
    show 2 * ((L + 1 - 1) / 2) + 1 = L + 1
    omega

theorem turn_succ_of_ne {q : Party} (h : L = turn L p + 1) (hq : q ≠ p) :
    turn (L + 1) q = turn L q := by
  obtain rfl := Party.ne_iff_eq_peer.mp hq
  cases p with
  | initiator =>
    have h' : L = 2 * (L / 2) + 1 := h
    show 2 * ((L + 1 - 1) / 2) + 1 = 2 * ((L - 1) / 2) + 1
    omega
  | responder =>
    have h' : L = 2 * ((L - 1) / 2) + 1 + 1 := h
    show 2 * ((L + 1) / 2) = 2 * (L / 2)
    omega

/-- A delivery that opens a new epoch. -/
theorem Inv.took_next (hP : P.Symbolic) (h : Inv P root a L σ) (hL : L = turn L p + 1) {sk : Seed}
    (hf : P.x25519Public sk ∉ σ.used) {d : Delivery} {text : String} (hok : d.result = .ok text)
    (hdh : d.msg.dh = P.x25519Public (a L)) (hlog : σ.log[d.id]? = some d.msg)
    (hsender : d.msg.sender = p.peer) (htext : text = d.msg.text) :
    Inv P root (Function.update a (L + 1) sk) (L + 1)
      (σ.took p (rememberSeen (idText (σ.state p).sessionId d.msg.dh d.msg.n)
        (nextState P a (turn L p) sk d.msg.n (σ.state p))) d (P.x25519Public sk :: σ.used)) := by
  have hL0 : L ≠ 0 := by omega
  generalize ht : turn L p = t at hL
  generalize hs' : rememberSeen (idText (σ.state p).sessionId d.msg.dh d.msg.n)
    (nextState P a t sk d.msg.n (σ.state p)) = s'
  have hagree : ∀ i ≤ L, Function.update a (L + 1) sk i = a i := fun i hi =>
    Function.update_of_ne (by omega) _ _
  have hnew : Function.update a (L + 1) sk (L + 1) = sk := Function.update_self _ _ _
  have htL : t + 2 = L + 1 := by omega
  have hdh' : d.msg.dh = P.x25519Public (a (t + 1)) := hL ▸ hdh
  have hfresh : ∀ k ≤ L, P.x25519Public (a k) ≠ P.x25519Public sk := fun k hk he =>
    hf (he ▸ h.fresh k hk)
  have hnomsg : ∀ m ∈ σ.log, m.dh ≠ P.x25519Public sk := by
    intro m hm he
    obtain ⟨k, hk, -, hs⟩ := h.msgs m hm
    exact hfresh k hk (hs.dhPk.symm.trans he)
  have hown : SendAt P root a t (σ.state p) := ht ▸ h.sends p fun h0 => absurd h0 hL0
  have hrecv : RecvAt P root a t (σ.state p) (σ.opened p) := ht ▸ h.recvs p
  have hturn : turn (L + 1) p = t + 2 := by
    rw [turn_succ_self (ht.symm ▸ hL)]
    omega
  have hturn' : ∀ q, q ≠ p → turn (L + 1) q = turn L q := fun q hq =>
    turn_succ_of_ne (ht.symm ▸ hL) hq
  have hturnle : ∀ q, turn L q ≤ L := fun q => turn_le fun h0 => absurd h0 hL0
  have hstate : ∀ q, q ≠ p → (σ.took p s' d (P.x25519Public sk :: σ.used)).state q = σ.state q :=
    fun q hq => state_took_of_ne hq
  have hself : (σ.took p s' d (P.x25519Public sk :: σ.used)).state p = s' := state_took_self
  have hctx : SameContext (σ.state p) s' := by
    rw [← hs']
    exact ⟨rfl, rfl, rfl, rfl⟩
  have hres : ∀ x, d.result = .ok x → x = d.msg.text := by
    intro x hx
    rw [← htext]
    exact (Except.ok.inj (hok.symm.trans hx)).symm
  have hd : d.ok = true := by rw [Delivery.ok, hok]; rfl
  refine ⟨h.notRk, ?_, ?_, by omega, ?_, ?_, h.addressed_took hctx, ?_, h.toPeer_took hctx, ?_,
    h.slots, ?_, ?_, ?_, h.gotLog_took hlog hsender, h.results_took hres, ?_⟩
  · -- fresh
    intro k hk
    by_cases hk1 : k = L + 1
    · rw [hk1, hnew]
      exact List.mem_cons_self
    · rw [hagree k (by omega)]
      exact List.mem_cons_of_mem _ (h.fresh k (by omega))
  · -- distinct
    intro k hk l hl he
    by_cases hk1 : k = L + 1 <;> by_cases hl1 : l = L + 1
    · omega
    · rw [hk1, hnew, hagree l (by omega)] at he
      exact absurd he.symm (hfresh l (by omega))
    · rw [hl1, hnew, hagree k (by omega)] at he
      exact absurd he (hfresh k (by omega))
    · rw [hagree k (by omega), hagree l (by omega)] at he
      exact h.distinct k (by omega) l (by omega) he
  · -- sends
    intro q _
    by_cases hq : q = p
    · subst hq
      rw [hself, hturn, ← hs']
      refine hown.open_next hP.toCorrect (fun i hi => hagree i (by omega)) ?_ _ _
      rw [htL]
      exact hnew
    · rw [hstate q hq, hturn' q hq]
      exact (h.sends q fun h0 => absurd h0 hL0).congr hagree (hturnle q)
  · -- recvs
    intro q
    by_cases hq : q = p
    · subst hq
      rw [hself, hturn, opened_took_self, if_pos hd, ← hs', Sent.slot, hdh']
      have hr := hrecv.open_next hown (fun k hk l hl => h.distinct k (by omega) l (by omega))
        (n := d.msg.n) sk
      exact hr.congr (L := L) hagree (by omega)
    · rw [hstate q hq, hturn' q hq, opened_took_of_ne hq]
      exact (h.recvs q).congr hagree (by have := hturnle q; omega)
  · -- msgs
    intro m hm
    obtain ⟨k, hk, hb, hs⟩ := h.msgs m hm
    exact ⟨k, by omega, hb, hs.congr hagree hk⟩
  · -- wires
    intro m hm hO
    exact h.wires m hm fun hO' => hO (opened_subset_took s' d _ _ hO')
  · -- current
    intro m hm he
    by_cases hq : m.sender = p
    · rw [hq, hturn, htL, hnew] at he
      exact absurd he (hnomsg m hm)
    · rw [hturn' _ hq, hagree _ (hturnle _)] at he
      rw [hstate _ hq]
      exact h.current m hm he
  · -- previous
    intro m hm k hk he
    by_cases hq : m.sender = p
    · -- the old sending chain of `p` is its previous one now
      rw [hq, hturn] at hk
      obtain rfl : k = t := by omega
      rw [hagree k (by omega)] at he
      have hc := h.current m hm
      rw [hq, ht] at hc
      rw [hq, hself, ← hs']
      exact (hc he).1
    · rw [hturn' _ hq] at hk
      rw [hagree k (by have := hturnle m.sender; omega)] at he
      rw [hstate _ hq]
      exact h.previous m hm k hk he
  · -- pns
    intro m hm m' hm' k hk he he'
    by_cases hk1 : k + 2 = L + 1
    · rw [hk1, hnew] at he'
      exact absurd he' (hnomsg m' hm')
    · rw [hagree k (by omega)] at he
      rw [hagree (k + 2) (by omega)] at he'
      exact h.pns m hm m' hm' k (by omega) he he'
  · -- order: no message of the new epoch yet
    refine h.order.imp_of_mem fun {m m'} hm hm' hord hsame k hk l hl he he' => ?_
    by_cases hk1 : k = L + 1
    · rw [hk1, hnew] at he
      exact absurd he (hnomsg m hm)
    · by_cases hl1 : l = L + 1
      · omega
      · rw [hagree k (by omega)] at he
        rw [hagree l (by omega)] at he'
        exact hord hsame k (by omega) l (by omega) he he'

/-! ### The cases of a delivery -/

/-- A message that opens fills a gap, or its keys fit into the store. -/
inductive Outcome (P : Prims) (a : ℕ → Seed) (L : ℕ) (σ : Sys) (p : Party) (m : Sent) (sk : Seed) :
    Prop
  /-- The message fills a gap. -/
  | gap (hg : m.slot ∈ gaps (σ.opened p)) (k : ℕ) (hk : k < turn L p) (hp : k % 2 ≠ turn L p % 2)
      (hdh : m.dh = P.x25519Public (a k))
      (h : decrypt P sk m.wire (σ.state p) = (.ok m.text, rememberSeen (honestId m.state)
        { σ.state p with skipped := (σ.state p).skipped.erase (skipKey m.dh m.n) }))
  /-- The message is the newest one of the current chain. -/
  | current (k : ℕ) (hk : turn L p = k + 1) (hdh : m.dh = P.x25519Public (a k))
      (hn : (σ.state p).nRecv ≤ m.n)
      (hroom : (gaps (insert m.slot (σ.opened p))).card ≤ maxSkipKeys)
      (h : decrypt P sk m.wire (σ.state p) = (.ok m.text, rememberSeen (honestId m.state)
        (advanced P (σ.state p) (m.n - (σ.state p).nRecv))))
  /-- The message is the first one of the next chain. -/
  | next (hL : L = turn L p + 1) (hdh : m.dh = P.x25519Public (a L))
      (hroom : (gaps (insert m.slot (σ.opened p))).card ≤ maxSkipKeys)
      (h : decrypt P sk m.wire (σ.state p) = (.ok m.text, rememberSeen (honestId m.state)
        (nextState P a (turn L p) sk m.n (σ.state p))))
  /-- The message needs more keys than there is room for. -/
  | full (hroom : maxSkipKeys < (gaps (insert m.slot (σ.opened p))).card)
      (h : ∃ e s', decrypt P sk m.wire (σ.state p) = (.error e, s'))
  /-- The message belongs to an older chain and its key was not kept. -/
  | lost (k : ℕ) (hk : k + 1 < turn L p) (hp : k % 2 ≠ turn L p % 2)
      (hdh : m.dh = P.x25519Public (a k)) (hg : m.slot ∉ gaps (σ.opened p))
      (h : ∃ e s', decrypt P sk m.wire (σ.state p) = (.error e, s'))

/-- **Every delivery of an honest message falls under one of the cases.** -/
theorem Inv.decrypt_cases (hP : P.Symbolic) (h : Inv P root a L σ) {m : Sent} (hm : m ∈ σ.log)
    (hsender : m.sender = p.peer) (hO : m.slot ∉ σ.opened p) (sk : Seed) :
    Outcome P a L σ p m sk := by
  obtain ⟨k, hk, hb, hs⟩ := h.msgs m hm
  have hr := h.recvs p
  have hpeer : m.sender.peer = p := by rw [hsender, Party.peer_peer]
  have haddr : Addressed m.state (σ.state p) := hpeer ▸ h.toPeer m hm
  obtain ⟨r, hw⟩ := h.wires m hm (by rw [hpeer]; exact hO)
  have hw' : m.wire = honestWire P m.state r m.text := hw
  have hdh : m.dh = P.x25519Public (a k) := hs.dhPk
  have hgt := lt_turn_add_two L p
  have hbit := turn_mod L p
  have hbit' := bit_lt p
  have hbp := bit_peer p
  rw [hsender] at hb
  have hpar : k % 2 ≠ turn L p % 2 := by omega
  rcases lt_trichotomy (k + 1) (turn L p) with hlt | heq | hgt'
  · -- an older chain
    have hnp : L = 0 → p = .initiator := by
      intro h0
      cases p with
      | initiator => rfl
      | responder =>
        subst h0
        have h1 : k + 1 < 1 := hlt
        omega
    have hown := h.sends p hnp
    have hle := turn_le hnp
    by_cases hg : m.slot ∈ gaps (σ.opened p)
    · refine .gap hg k (by omega) hpar hdh ?_
      rw [hw']
      exact decrypt_of_gap hP hr hs haddr (by omega) hg
    · refine .lost k hlt hpar hdh hg ?_
      rw [hw']
      refine decrypt_of_old hP h.notRk hr hown hs haddr (by omega) hO hg (.inr ?_)
      obtain ⟨t, ht⟩ : ∃ t, turn L p = t + 1 := ⟨turn L p - 1, by omega⟩
      rw [hr.remoteDh t ht, hs.dhPk]
      intro he
      have := h.distinct k hk t (by omega) he
      omega
  · -- the current chain
    have hremote : m.dh = (σ.state p).remoteDh := by rw [hdh, hr.remoteDh k heq.symm]
    by_cases hn : (σ.state p).nRecv ≤ m.n
    · have hcard := card_gaps_insert_of_highWater_le (hr.highWater) hn
      rw [← hremote] at hcard
      have hg : m.slot ∉ gaps (σ.opened p) := by
        intro hg
        obtain ⟨⟨j, hj, hjO⟩, -⟩ := mem_gaps.mp hg
        rw [hremote] at hjO
        have := (hr.highWater m.n).mpr ⟨j, by omega, hjO⟩
        omega
      by_cases hroom : (gaps (insert m.slot (σ.opened p))).card ≤ maxSkipKeys
      · refine .current k heq.symm hdh hn hroom ?_
        rw [hw']
        refine decrypt_of_current hP hr hs haddr heq.symm hn ?_
        rw [Sent.slot, hcard] at hroom
        exact hroom
      · refine .full (by omega) ?_
        rw [hw']
        refine decrypt_of_current_full hP hr hs haddr heq.symm hn hO hg ?_
        rw [Sent.slot, hcard] at hroom
        exact hroom
    · have hg : m.slot ∈ gaps (σ.opened p) := by
        refine mem_gaps_of_lt_highWater ?_ (by omega : m.n < (σ.state p).nRecv) hO
        rw [hremote]
        exact hr.highWater
      refine .gap hg k (by omega) hpar hdh ?_
      rw [hw']
      exact decrypt_of_gap hP hr hs haddr (by omega) hg
  · -- the next chain
    obtain rfl : k = turn L p + 1 := by omega
    have hLt : L = turn L p + 1 := by omega
    have hown : SendAt P root a (turn L p) (σ.state p) := h.sends p fun h0 => by omega
    have hz := hr.isHighWater_next fun i hi j hj => h.distinct i (by omega) j (by omega)
    have hOall : ∀ j, (m.state.dhPk, j) ∉ σ.opened p := by
      intro j hj
      rw [hs.dhPk] at hj
      have := (hz j).mpr ⟨j, le_rfl, hj⟩
      omega
    have hne : (σ.state p).NeedsRatchet m.state.dhPk := by
      by_cases ht : turn L p = 0
      · exact .inl (hr.first ht).1
      · obtain ⟨t, ht⟩ : ∃ t, turn L p = t + 1 := ⟨turn L p - 1, by omega⟩
        refine .inr ?_
        rw [hr.remoteDh t ht, hs.dhPk]
        intro he
        have := h.distinct _ hk t (by omega) he
        omega
    have hcard := card_gaps_insert_of_highWater_le (n := m.n) hz (Nat.zero_le _)
    rw [← hdh, Nat.sub_zero] at hcard
    by_cases hroom : (gaps (insert m.slot (σ.opened p))).card ≤ maxSkipKeys
    · refine .next hLt (by rw [hdh, ← hLt]) hroom ?_
      rw [hw']
      refine decrypt_of_next hP hr hown hs haddr hOall hne ?_
      rw [Sent.slot, hcard] at hroom
      exact hroom
    · refine .full (by omega) ?_
      rw [hw']
      refine decrypt_of_next_full hP hr hown hs haddr hOall hne ?_
      rw [Sent.slot, hcard] at hroom
      exact hroom

theorem turn_le_succ (L : ℕ) (p : Party) : turn L p ≤ L + 1 := by
  cases p with
  | initiator =>
    show 2 * (L / 2) ≤ L + 1
    omega
  | responder =>
    show 2 * ((L - 1) / 2) + 1 ≤ L + 1
    omega

theorem receive_of_ok {id : ℕ} {m : Sent} {sk : Seed} {x : String} {s' : DoubleRatchet}
    (h : decrypt P sk m.wire (σ.state p) = (.ok x, s')) :
    σ.receive P p id m sk = σ.took p s' ⟨id, m, .ok x⟩ (P.x25519Public sk :: σ.used) := by
  unfold Sys.receive
  rw [h]
  rfl

theorem receive_of_error {id : ℕ} {m : Sent} {sk : Seed} {e : Exn} {s' : DoubleRatchet}
    (h : decrypt P sk m.wire (σ.state p) = (.error e, s')) :
    σ.receive P p id m sk = σ.took p (σ.state p) ⟨id, m, .error e⟩ (P.x25519Public sk :: σ.used) := by
  unfold Sys.receive
  rw [h]
  rfl

theorem honestId_eq {m : Sent} (h : Addressed m.state (σ.state p)) :
    honestId m.state = idText (σ.state p).sessionId m.dh m.n := by
  rw [honestId, h.sessionId]
  rfl

/-- **Receiving keeps the invariant, whatever comes of it.** -/
theorem Inv.receive (hP : P.Symbolic) (h : Inv P root a L σ) {id : ℕ} {m : Sent}
    (hm : σ.log[id]? = some m) (hsender : m.sender = p.peer) (hO : m.slot ∉ σ.opened p) {sk : Seed}
    (hf : P.x25519Public sk ∉ σ.used) : ∃ a' L', Inv P root a' L' (σ.receive P p id m sk) := by
  have hmem : m ∈ σ.log := List.mem_of_getElem? hm
  have hr := h.recvs p
  have hpeer : m.sender.peer = p := by rw [hsender, Party.peer_peer]
  have hid := honestId_eq (p := p) (hpeer ▸ h.toPeer m hmem)
  have hused : ∀ x ∈ σ.used, x ∈ P.x25519Public sk :: σ.used := fun x hx => List.mem_cons_of_mem _ hx
  -- a call that raises is rolled back
  have herr : (∃ e s', decrypt P sk m.wire (σ.state p) = (.error e, s')) →
      ∃ a' L', Inv P root a' L' (σ.receive P p id m sk) := by
    rintro ⟨e, s', he⟩
    rw [receive_of_error he]
    refine ⟨a, L, h.took ?_ hused ?_ hm hsender ?_⟩
    · exact ⟨rfl, rfl, rfl, rfl, rfl, rfl, rfl, rfl, rfl, rfl, rfl⟩
    · rw [opened_took_self]
      exact hr
    · intro x hx
      cases hx
  rcases h.decrypt_cases hP hmem hsender hO sk with
    ⟨hg, k, hk, hp, hdh, hd⟩ | ⟨k, hk, hdh, hn, -, hd⟩ | ⟨hL, hdh, -, hd⟩ | ⟨-, he⟩ |
    ⟨k, -, -, -, -, he⟩
  · rw [receive_of_ok hd]
    refine ⟨a, L, h.took ?_ hused ?_ hm hsender ?_⟩
    · exact ⟨rfl, rfl, rfl, rfl, rfl, rfl, rfl, rfl, rfl, rfl, rfl⟩
    · rw [opened_took_self, hid]
      exact hr.open_gap hg ⟨k, hk, hp, hdh⟩
    · intro x hx
      exact (Except.ok.inj hx).symm
  · rw [receive_of_ok hd]
    refine ⟨a, L, h.took ?_ hused ?_ hm hsender ?_⟩
    · exact ⟨rfl, rfl, rfl, rfl, rfl, rfl, rfl, rfl, rfl, rfl, rfl⟩
    · have hslot : m.slot = (P.x25519Public (a k), m.n) := by rw [Sent.slot, hdh]
      rw [opened_took_self, hid, hdh]
      show RecvAt P root a (turn L p) _ (insert m.slot (σ.opened p))
      rw [hslot]
      refine hr.open_current hk (fun l hl he => ?_) hn
      have hle := turn_le_succ L p
      exact h.distinct l (by omega) k (by omega) he
    · intro x hx
      exact (Except.ok.inj hx).symm
  · have hnext := h.took_next (d := ⟨id, m, .ok m.text⟩) hP hL hf rfl hdh hm hsender rfl
    rw [receive_of_ok hd, hid]
    exact ⟨_, _, hnext⟩
  · exact herr he
  · exact herr he

/-! ### Runs -/

/-- What an event that can happen does. -/
theorem step_eq_some {e : Event} {σ' : Sys} (h : step P σ e = some σ') :
    (∃ p r text, e = .send p r text ∧ P.x25519Public r.key ∉ σ.used ∧ σ' = σ.send P p r text) ∨
    (∃ p id sk m, e = .deliver p id sk ∧ σ.log[id]? = some m ∧ P.x25519Public sk ∉ σ.used ∧
      m.sender = p.peer ∧ (¬ ∃ d ∈ σ.got p, d.id = id ∧ d.ok = true) ∧
      σ' = σ.receive P p id m sk) := by
  cases e with
  | send p r text =>
    simp only [step] at h
    split at h
    · cases h
    · next hf => exact .inl ⟨p, r, text, rfl, hf, (Option.some.inj h).symm⟩
  | deliver p id sk =>
    simp only [step] at h
    split at h
    · cases h
    · next m hm =>
      split at h
      · cases h
      · next hc =>
        rw [not_or, not_or] at hc
        exact .inr ⟨p, id, sk, m, rfl, hm, hc.1, Party.ne_iff_eq_peer.mp hc.2.1, hc.2.2,
          (Option.some.inj h).symm⟩

theorem Inv.step (hP : P.Symbolic) (h : Inv P root a L σ) {e : Event} {σ' : Sys}
    (he : SecChat.step P σ e = some σ') : ∃ a' L', Inv P root a' L' σ' := by
  rcases step_eq_some he with ⟨p, r, text, -, hf, rfl⟩ | ⟨p, id, sk, m, -, hm, hf, hs, hn, rfl⟩
  · exact h.send hP hf
  · exact h.receive hP hm hs (h.slot_notMem_opened hm hn) hf

theorem run_append (σ : Sys) (es es' : List Event) :
    run P σ (es ++ es') = (run P σ es).bind fun σ' => run P σ' es' := by
  induction es generalizing σ with
  | nil => rfl
  | cons e es ih =>
    simp only [List.cons_append, run]
    cases step P σ e with
    | none => rfl
    | some σ' => exact ih σ'

/-- **A whole run keeps the invariant.** -/
theorem Inv.run (hP : P.Symbolic) (h : Inv P root a L σ) {es : List Event} {σ' : Sys}
    (hr : SecChat.run P σ es = some σ') : ∃ a' L', Inv P root a' L' σ' := by
  induction es generalizing σ a L with
  | nil =>
    obtain rfl := Option.some.inj hr
    exact ⟨a, L, h⟩
  | cons e es ih =>
    obtain ⟨σ₁, h1, h2⟩ := Option.bind_eq_some_iff.mp hr
    obtain ⟨a', L', h'⟩ := h.step hP h1
    exact ih h' h2

end SecChat
