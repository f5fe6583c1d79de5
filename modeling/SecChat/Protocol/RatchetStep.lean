import SecChat.Protocol.RatchetRun

/-!
# One party, one message

What `decrypt` makes of an honest message at a party whose state agrees with the key schedule, and
what it leaves behind.  There are four cases: the message fills a gap (`decrypt_of_gap`), lies at or
above the counter of the current chain (`decrypt_of_current`), is the first one of the next chain
(`decrypt_of_next`), or belongs to an older chain and its key was not stored (`decrypt_of_old`);
only the last one, and a lack of room, make the call raise.
-/

namespace SecChat

open Py Gaps DoubleRatchet

variable {P : Prims} {root : Bytes} {a : ℕ → Seed} {t k : ℕ} {s st : DoubleRatchet}
  {O : Finset (Bytes × ℕ)} {sk : Seed} {r : SendRand} {text : String}

/-! ### The store of skipped keys -/

theorem RecvAt.lookup_eq_none (h : RecvAt P root a t s O) {c : Bytes} {i : ℕ} (hn : (c, i) ∉ gaps O) :
    s.skipped.lookup (skipKey c i) = none := by
  rw [AList.lookup_eq_none]
  intro hmem
  have hk : skipKey c i ∈ s.skipped.keys.toFinset := List.mem_toFinset.mpr (AList.mem_keys.mp hmem)
  rw [h.keys] at hk
  obtain ⟨⟨d, j⟩, hx, he⟩ := Finset.mem_image.mp hk
  obtain ⟨rfl, hj⟩ := skipKey_inj he
  have hij : j = i := by exact_mod_cast hj
  subst hij
  exact hn hx

theorem RecvAt.length_skipped (h : RecvAt P root a t s O) :
    s.skipped.entries.length = (gaps O).card := by
  have hlen : s.skipped.entries.length = s.skipped.keys.length := by
    simp [AList.keys, List.keys]
  rw [hlen, ← List.toFinset_card_of_nodup s.skipped.keys_nodup, h.keys,
    Finset.card_image_of_injective]
  rintro ⟨c, i⟩ ⟨d, j⟩ he
  obtain ⟨rfl, hj⟩ := skipKey_inj he
  have hij : i = j := by exact_mod_cast hj
  rw [hij]

/-- The message key of a message sent in epoch `k`. -/
theorem SendAt.key_eq (h : SendAt P root a k st) :
    (kdfCk P st.ckSend).1 = messageKey P (chainAt P root (shared P a) k) st.nSend := by
  rw [h.ckSend]
  rfl

/-! ### What `decrypt` makes of an honest message -/

/-- The wire of a message sent from the state `st`. -/
def honestWire (P : Prims) (st : DoubleRatchet) (r : SendRand) (text : String) : String :=
  wire P st.sessionId (st.header st.nSend) (kdfCk P st.ckSend).1 st.hkSend r text

/-- What the receiver makes of it. -/
def honestIncoming (P : Prims) (st : DoubleRatchet) (r : SendRand) (text : String) : Incoming :=
  incoming P st st.nSend (kdfCk P st.ckSend).1 st.hkSend r text

/-- The id of a message sent from the state `st`. -/
def honestId (st : DoubleRatchet) : String := idText st.sessionId st.dhPk st.nSend

theorem RecvAt.notMem_seen (h : RecvAt P root a t s O) (ha : Addressed st s)
    (hn : (st.dhPk, st.nSend) ∉ O) : honestId st ∉ s.seen := by
  intro hseen
  obtain ⟨⟨c, i⟩, hx, he⟩ := h.seen _ hseen
  rw [honestId, ha.sessionId] at he
  obtain ⟨hc, hi⟩ := idText_inj he
  have hi' : st.nSend = i := by exact_mod_cast hi
  rw [hc, hi'] at hn
  exact hn hx

theorem decrypt_honest (hP : P.Symbolic) (h : RecvAt P root a t s O) (ha : Addressed st s)
    (hn : (st.dhPk, st.nSend) ∉ O) :
    decrypt P sk (honestWire P st r text) s =
      receive P sk (honestIncoming P st r text) s := by
  have hi := inspect_wire hP ha st.nSend (kdfCk P st.ckSend).1 st.hkSend r text (h.notMem_seen ha hn)
  unfold decrypt
  rw [Method.get_bind, honestWire, hi, Method.ofExcept_ok_bind, honestIncoming]

theorem finish_own (hP : P.Correct) (s' : DoubleRatchet) :
    finish P (honestIncoming P st r text) (kdfCk P st.ckSend).1 s' =
      (.ok text, rememberSeen (honestId st) s') := by
  rw [finish, honestIncoming, openBody_incoming hP]
  rfl

/-- A message of a gap opens with its stored key. -/
theorem decrypt_of_gap (hP : P.Symbolic) (h : RecvAt P root a t s O) (hs : SendAt P root a k st)
    (ha : Addressed st s) (hk : k < t) (hg : (st.dhPk, st.nSend) ∈ gaps O) :
    decrypt P sk (honestWire P st r text) s = (.ok text, rememberSeen (honestId st)
      { s with skipped := s.skipped.erase (skipKey st.dhPk st.nSend) }) := by
  have hl := h.stored k hk st.nSend (hs.dhPk ▸ hg)
  rw [← hs.dhPk, ← hs.key_eq] at hl
  rw [decrypt_honest hP h ha (mem_gaps.mp hg).2,
    receive_of_stored (m := honestIncoming P st r text) hl, finish_own hP.toCorrect]
  rfl

/-- A message at or above the counter of the current chain opens after skipping, if there is room.
-/
theorem decrypt_of_current (hP : P.Symbolic) (h : RecvAt P root a t s O) (hs : SendAt P root a k st)
    (ha : Addressed st s) (hk : t = k + 1) (hn : s.nRecv ≤ st.nSend)
    (hroom : (gaps O).card + (st.nSend - s.nRecv) ≤ maxSkipKeys) :
    decrypt P sk (honestWire P st r text) s = (.ok text, rememberSeen (honestId st)
      (advanced P s (st.nSend - s.nRecv))) := by
  have hremote : st.dhPk = s.remoteDh := by rw [hs.dhPk, h.remoteDh k hk]
  have hO : (st.dhPk, st.nSend) ∉ O := by
    intro hO
    rw [hremote] at hO
    have := (h.highWater st.nSend).mpr ⟨_, le_rfl, hO⟩
    omega
  have hg : (st.dhPk, st.nSend) ∉ gaps O := by
    intro hg
    obtain ⟨⟨j, hj, hjO⟩, -⟩ := mem_gaps.mp hg
    rw [hremote] at hjO
    have := (h.highWater st.nSend).mpr ⟨j, by omega, hjO⟩
    omega
  have hne : s.remoteDh ≠ [] := by
    rw [h.remoteDh k hk]
    exact hP.public_ne_nil _
  have hnr : ¬ s.NeedsRatchet st.dhPk := by
    rintro (h' | h')
    · exact hne h'
    · exact h' hremote
  have hR : s.Room st.nSend := by
    right
    rw [h.length_skipped]
    push_cast [← Nat.cast_sub hn]
    exact_mod_cast hroom
  rw [decrypt_honest hP h ha hO, receive_of_current (m := honestIncoming P st r text) (h.lookup_eq_none hg) hnr]
  have hkey : messageKey P s.ckRecv ((st.nSend : ℤ) - s.nRecv).toNat = (kdfCk P st.ckSend).1 := by
    rw [h.ckRecv k hk, messageKey_add, hs.key_eq]
    congr 1
    omega
  have hnat : ((st.nSend : ℤ) - s.nRecv).toNat = st.nSend - s.nRecv := by omega
  rw [receiveOn_of_room (m := honestIncoming P st r text) hR]
  show finish P _ (messageKey P s.ckRecv ((st.nSend : ℤ) - s.nRecv).toNat) _ = _
  rw [hkey, finish_own hP.toCorrect]
  show (_, rememberSeen _ (advanced P s ((st.nSend : ℤ) - s.nRecv).toNat)) = _
  rw [hnat]

/-- Without room the call raises. -/
theorem decrypt_of_current_full (hP : P.Symbolic) (h : RecvAt P root a t s O)
    (hs : SendAt P root a k st) (ha : Addressed st s) (hk : t = k + 1) (hn : s.nRecv ≤ st.nSend)
    (hO : (st.dhPk, st.nSend) ∉ O) (hg : (st.dhPk, st.nSend) ∉ gaps O)
    (hroom : ¬ (gaps O).card + (st.nSend - s.nRecv) ≤ maxSkipKeys) :
    ∃ e s', decrypt P sk (honestWire P st r text) s = (.error e, s') := by
  have hremote : st.dhPk = s.remoteDh := by rw [hs.dhPk, h.remoteDh k hk]
  have hne : s.remoteDh ≠ [] := by
    rw [h.remoteDh k hk]
    exact hP.public_ne_nil _
  have hnr : ¬ s.NeedsRatchet st.dhPk := by
    rintro (h' | h')
    · exact hne h'
    · exact h' hremote
  have hR : ¬ s.Room st.nSend := by
    rintro (h' | h')
    · omega
    · rw [h.length_skipped] at h'
      omega
  rw [decrypt_honest hP h ha hO,
    receive_of_current (m := honestIncoming P st r text) (h.lookup_eq_none hg) hnr,
    receiveOn_of_not_room (m := honestIncoming P st r text) hR]
  exact ⟨_, _, rfl⟩

/-- The state after the DH ratchet of an honest header key. -/
theorem dhRatchet_honest (hP : P.Correct) (hs : SendAt P root a t s) (b : Seed) :
    dhRatchet P sk (P.x25519Public b) s = (.ok (), ratcheted P s sk (P.x25519Public b)
      (sharedSecret P (a t) b) (sharedSecret P sk b)) :=
  dhRatchet_of_dh (by rw [hs.dhSk, x25519Dh_public hP]) (x25519Dh_public hP _ _)

/-- `decrypt` of a message under another ratchet key than the current one. -/
theorem decrypt_of_ratchet (hP : P.Symbolic) (h : RecvAt P root a t s O) (hown : SendAt P root a t s)
    (hs : SendAt P root a k st) (ha : Addressed st s) (hO : (st.dhPk, st.nSend) ∉ O)
    (hg : (st.dhPk, st.nSend) ∉ gaps O) (hne : s.NeedsRatchet st.dhPk) :
    decrypt P sk (honestWire P st r text) s = receiveOn P (honestIncoming P st r text)
      (ratcheted P s sk (P.x25519Public (a k)) (sharedSecret P (a t) (a k))
        (sharedSecret P sk (a k))) := by
  have hd : dhRatchet P sk (honestIncoming P st r text).remote s = (.ok (), ratcheted P s sk
      (P.x25519Public (a k)) (sharedSecret P (a t) (a k)) (sharedSecret P sk (a k))) := by
    show dhRatchet P sk st.dhPk s = _
    rw [hs.dhPk]
    exact dhRatchet_honest hP.toCorrect hown (a k)
  rw [decrypt_honest hP h ha hO,
    receive_of_new (m := honestIncoming P st r text) (h.lookup_eq_none hg) hne, Method.bind_ok hd]

/-- The state after the first delivered message of the next chain. -/
def nextState (P : Prims) (a : ℕ → Seed) (t : ℕ) (sk : Seed) (n : ℕ) (s : DoubleRatchet) :
    DoubleRatchet :=
  advanced P (ratcheted P s sk (P.x25519Public (a (t + 1))) (shared P a t)
    (sharedSecret P sk (a (t + 1)))) n

/-- A message of the next chain opens after the DH ratchet, if there is room. -/
theorem decrypt_of_next (hP : P.Symbolic) (h : RecvAt P root a t s O) (hown : SendAt P root a t s)
    (hs : SendAt P root a (t + 1) st) (ha : Addressed st s) (hO : ∀ j, (st.dhPk, j) ∉ O)
    (hne : s.NeedsRatchet st.dhPk) (hroom : (gaps O).card + st.nSend ≤ maxSkipKeys) :
    decrypt P sk (honestWire P st r text) s =
      (.ok text, rememberSeen (honestId st) (nextState P a t sk st.nSend s)) := by
  have hg : (st.dhPk, st.nSend) ∉ gaps O := by
    intro hg
    obtain ⟨⟨j, -, hj⟩, -⟩ := mem_gaps.mp hg
    exact hO j hj
  rw [decrypt_of_ratchet hP h hown hs ha (hO _) hg hne]
  have hR : (ratcheted P s sk (P.x25519Public (a (t + 1))) (sharedSecret P (a t) (a (t + 1)))
      (sharedSecret P sk (a (t + 1)))).Room (honestIncoming P st r text).n := by
    right
    show (s.skipped.entries.length : ℤ) + ((st.nSend : ℤ) - (0 : ℕ)) ≤ maxSkipKeys
    rw [h.length_skipped]
    push_cast
    have : ((gaps O).card : ℤ) + st.nSend ≤ maxSkipKeys := by exact_mod_cast hroom
    omega
  rw [receiveOn_of_room hR]
  have hnat : ((honestIncoming P st r text).n - ((ratcheted P s sk (P.x25519Public (a (t + 1)))
      (sharedSecret P (a t) (a (t + 1))) (sharedSecret P sk (a (t + 1)))).nRecv : ℕ)).toNat =
      st.nSend := by
    show ((st.nSend : ℤ) - (0 : ℕ)).toNat = _
    omega
  have hkey : messageKey P (ratcheted P s sk (P.x25519Public (a (t + 1)))
      (sharedSecret P (a t) (a (t + 1))) (sharedSecret P sk (a (t + 1)))).ckRecv st.nSend =
      (kdfCk P st.ckSend).1 := by
    rw [hs.key_eq]
    show messageKey P (kdfRk P s.rootKey (sharedSecret P (a t) (a (t + 1)))).2 st.nSend = _
    rw [hown.rootKey]
    rfl
  rw [hnat, hkey, finish_own hP.toCorrect]
  rfl

/-- Without room the call raises. -/
theorem decrypt_of_next_full (hP : P.Symbolic) (h : RecvAt P root a t s O)
    (hown : SendAt P root a t s) (hs : SendAt P root a k st) (ha : Addressed st s)
    (hO : ∀ j, (st.dhPk, j) ∉ O) (hne : s.NeedsRatchet st.dhPk)
    (hroom : ¬ (gaps O).card + st.nSend ≤ maxSkipKeys) :
    ∃ e s', decrypt P sk (honestWire P st r text) s = (.error e, s') := by
  have hg : (st.dhPk, st.nSend) ∉ gaps O := by
    intro hg
    obtain ⟨⟨j, -, hj⟩, -⟩ := mem_gaps.mp hg
    exact hO j hj
  rw [decrypt_of_ratchet hP h hown hs ha (hO _) hg hne]
  have hR : ¬ (ratcheted P s sk (P.x25519Public (a k)) (sharedSecret P (a t) (a k))
      (sharedSecret P sk (a k))).Room (honestIncoming P st r text).n := by
    rintro (h' | h')
    · have h0 : (st.nSend : ℤ) < (0 : ℕ) := h'
      omega
    · have h1 : (s.skipped.entries.length : ℤ) + ((st.nSend : ℤ) - (0 : ℕ)) ≤ maxSkipKeys := h'
      rw [h.length_skipped] at h1
      omega
  rw [receiveOn_of_not_room hR]
  exact ⟨_, _, rfl⟩

/-- A message of an older chain whose key was not stored is lost: the chain that the ratchet makes
of its header key is a new one. -/
theorem decrypt_of_old (hP : P.Symbolic) (hroot : NotRk P root) (h : RecvAt P root a t s O)
    (hown : SendAt P root a t s) (hs : SendAt P root a k st) (ha : Addressed st s) (hk : k ≤ t)
    (hO : (st.dhPk, st.nSend) ∉ O) (hg : (st.dhPk, st.nSend) ∉ gaps O)
    (hne : s.NeedsRatchet st.dhPk) :
    ∃ e s', decrypt P sk (honestWire P st r text) s = (.error e, s') := by
  rw [decrypt_of_ratchet hP h hown hs ha hO hg hne]
  generalize hs1 : ratcheted P s sk (P.x25519Public (a k)) (sharedSecret P (a t) (a k))
    (sharedSecret P sk (a k)) = s1
  have hck : s1.ckRecv = (kdfRk P (rootAt P root (shared P a) t) (sharedSecret P (a t) (a k))).2 := by
    rw [← hs1, ← hown.rootKey]
    rfl
  by_cases hR : s1.Room (honestIncoming P st r text).n
  · rw [receiveOn_of_room hR, finish]
    cases ho : openBody P (messageKey P s1.ckRecv
        ((honestIncoming P st r text).n - s1.nRecv).toNat) (honestIncoming P st r text) with
    | error e => exact ⟨_, _, rfl⟩
    | ok plain =>
      have hkey := openBody_eq_ok hP ho
      rw [hs.key_eq, hck] at hkey
      have hchain := (messageKey_inj hP (notCk_kdfRk hP _ _) (notCk_chainAt hP k) hkey).1
      exact absurd hchain (kdfRk_ne_chainAt hP hroot hk _)
  · rw [receiveOn_of_not_room hR]
    exact ⟨_, _, rfl⟩

/-! ### One step of the receiving half -/

/-- What `_remember_seen` may leave in the set. -/
theorem mem_rememberSeen {id x : String} {s : DoubleRatchet} (h : x ∈ (rememberSeen id s).seen) :
    x = id ∨ x ∈ s.seen := by
  simp only [rememberSeen] at h
  split at h
  · rw [lastSorted, List.mem_toFinset] at h
    have h' := List.mem_of_mem_drop h
    rwa [Finset.mem_sort, Finset.mem_insert] at h'
  · exact Finset.mem_insert.mp h

theorem mem_keys_addSkipped (remote ck : Bytes) (n : ℕ) (d : AList (fun _ : String => String)) (k : ℕ)
    (key : String) : key ∈ (addSkipped P remote ck n d k).keys ↔
      key ∈ d.keys ∨ ∃ i < k, key = skipKey remote (n + i : ℕ) := by
  induction k with
  | zero => simp [addSkipped]
  | succ k ih =>
    rw [addSkipped, ← AList.mem_keys, AList.mem_insert, AList.mem_keys, ih]
    constructor
    · rintro (h | h | ⟨i, hi, h⟩)
      · exact .inr ⟨k, by omega, h⟩
      · exact .inl h
      · exact .inr ⟨i, by omega, h⟩
    · rintro (h | ⟨i, hi, h⟩)
      · exact .inr (.inl h)
      · by_cases hik : i = k
        · subst hik
          exact .inl h
        · exact .inr (.inr ⟨i, by omega, h⟩)

theorem skipKey_nat_inj {c d : Bytes} {i j : ℕ} (h : skipKey c i = skipKey d j) : c = d ∧ i = j := by
  obtain ⟨hc, hij⟩ := skipKey_inj h
  exact ⟨hc, by exact_mod_cast hij⟩

/-- A message of a gap was opened. -/
theorem RecvAt.open_gap (h : RecvAt P root a t s O) {c : Bytes} {n : ℕ} (hg : (c, n) ∈ gaps O)
    (hc : ∃ k, k < t ∧ k % 2 ≠ t % 2 ∧ c = P.x25519Public (a k)) :
    RecvAt P root a t (rememberSeen (idText s.sessionId c n)
      { s with skipped := s.skipped.erase (skipKey c n) }) (insert (c, n) O) where
  first h0 := by
    rw [(h.first h0).2] at hg
    simp [gaps] at hg
  remoteDh := h.remoteDh
  ckRecv := h.ckRecv
  highWater := by
    refine isHighWater_insert_of_lt h.highWater fun he => ?_
    obtain ⟨⟨j, hj, hjO⟩, -⟩ := mem_gaps.mp hg
    rw [he] at hjO
    exact (h.highWater n).mpr ⟨j, by omega, hjO⟩
  opened x hx := by
    rcases Finset.mem_insert.mp hx with rfl | hx
    · exact hc
    · exact h.opened x hx
  every k hk hp := by
    obtain ⟨i, hi⟩ := h.every k hk hp
    exact ⟨i, Finset.mem_insert_of_mem hi⟩
  keys := by
    rw [gaps_insert_of_mem hg]
    ext key
    have hkey : key ∈ s.skipped.keys.toFinset ↔ key ∈ (gaps O).image fun x => skipKey x.1 x.2 := by
      rw [h.keys]
    rw [List.mem_toFinset] at hkey ⊢
    show key ∈ (s.skipped.erase (skipKey c n)).keys ↔ _
    rw [← AList.mem_keys, AList.mem_erase, AList.mem_keys, hkey]
    simp only [Finset.mem_image, Finset.mem_erase]
    constructor
    · rintro ⟨hne, x, hx, rfl⟩
      exact ⟨x, ⟨fun he => hne (by rw [he]), hx⟩, rfl⟩
    · rintro ⟨⟨d, i⟩, ⟨hne, hx⟩, rfl⟩
      refine ⟨fun he => hne ?_, ⟨d, i⟩, hx, rfl⟩
      obtain ⟨rfl, rfl⟩ := skipKey_nat_inj he
      rfl
  stored k hk i hi := by
    rw [gaps_insert_of_mem hg, Finset.mem_erase] at hi
    show (s.skipped.erase (skipKey c n)).lookup _ = _
    rw [AList.lookup_erase_ne]
    · exact h.stored k hk i hi.2
    · intro he
      obtain ⟨hc', rfl⟩ := skipKey_nat_inj he
      exact hi.1 (by rw [hc'])
  seen id hid := by
    rcases mem_rememberSeen hid with rfl | hid
    · exact ⟨(c, n), Finset.mem_insert_self _ _, rfl⟩
    · obtain ⟨x, hx, he⟩ := h.seen id hid
      exact ⟨x, Finset.mem_insert_of_mem hx, he⟩

/-- The store after the keys between the counter and index `n` were put aside. -/
theorem keys_addSkipped {d : AList (fun _ : String => String)} {O : Finset (Bytes × ℕ)} {c ck : Bytes}
    {hw n : ℕ} (hkeys : d.keys.toFinset = (gaps O).image fun x => skipKey x.1 x.2)
    (hhw : IsHighWater O c hw) (hn : hw ≤ n) :
    (addSkipped P c ck hw d (n - hw)).keys.toFinset =
      (gaps (insert (c, n) O)).image fun x => skipKey x.1 x.2 := by
  rw [gaps_insert_of_highWater_le hhw hn, Finset.image_union, ← hkeys]
  ext key
  rw [List.mem_toFinset, mem_keys_addSkipped, Finset.mem_union, List.mem_toFinset, Finset.image_image,
    Finset.mem_image]
  constructor
  · rintro (h | ⟨i, hi, rfl⟩)
    · exact .inl h
    · exact .inr ⟨hw + i, Finset.mem_Ico.mpr ⟨by omega, by omega⟩, rfl⟩
  · rintro (h | ⟨i, hi, rfl⟩)
    · exact .inl h
    · rw [Finset.mem_Ico] at hi
      refine .inr ⟨i - hw, by omega, ?_⟩
      have hi' : hw + (i - hw) = i := by omega
      rw [hi']
      rfl

/-- It holds the right key at a gap if the old store did and the chain does. -/
theorem lookup_addSkipped {d : AList (fun _ : String => String)} {O : Finset (Bytes × ℕ)}
    {c ck e v : Bytes} {hw n i : ℕ} (hhw : IsHighWater O c hw) (hn : hw ≤ n)
    (hck : e = c → ∀ j, i = hw + j → messageKey P ck j = v)
    (hd : (e, i) ∈ gaps O → d.lookup (skipKey e i) = some (b64e v))
    (hi : (e, i) ∈ gaps (insert (c, n) O)) :
    (addSkipped P c ck hw d (n - hw)).lookup (skipKey e i) = some (b64e v) := by
  rw [gaps_insert_of_highWater_le hhw hn, Finset.mem_union] at hi
  rcases hi with hi | hi
  · rw [lookup_addSkipped_of_ne, hd hi]
    intro j hj he
    obtain ⟨rfl, rfl⟩ := skipKey_nat_inj he
    obtain ⟨⟨l, hl, hlO⟩, -⟩ := mem_gaps.mp hi
    have := (hhw (hw + j)).mpr ⟨l, by omega, hlO⟩
    omega
  · obtain ⟨j, hj, he⟩ := Finset.mem_image.mp hi
    obtain ⟨rfl, rfl⟩ := Prod.mk.inj he
    rw [Finset.mem_Ico] at hj
    have hj' : hw + (j - hw) = j := by omega
    have hl := lookup_addSkipped_of_lt (P := P) c ck hw d (i := j - hw) (k := n - hw) (by omega)
    rw [hj', hck rfl (j - hw) hj'.symm] at hl
    exact hl

/-- A message of the current chain was opened. -/
theorem RecvAt.open_current (h : RecvAt P root a t s O) (hk : t = k + 1)
    (hinj : ∀ l < t, P.x25519Public (a l) = P.x25519Public (a k) → l = k) {n : ℕ}
    (hn : s.nRecv ≤ n) :
    RecvAt P root a t (rememberSeen (idText s.sessionId (P.x25519Public (a k)) n)
      (advanced P s (n - s.nRecv))) (insert (P.x25519Public (a k), n) O) where
  first h0 := by omega
  remoteDh := h.remoteDh
  ckRecv l hl := by
    show chainKey P s.ckRecv (n - s.nRecv + 1) = chainKey P _ (s.nRecv + (n - s.nRecv) + 1)
    rw [h.ckRecv l hl, chainKey_add]
    congr 1
  highWater := by
    show IsHighWater _ s.remoteDh (s.nRecv + (n - s.nRecv) + 1)
    have hn' : s.nRecv + (n - s.nRecv) + 1 = n + 1 := by omega
    rw [hn', h.remoteDh k hk]
    exact isHighWater_insert (h.remoteDh k hk ▸ h.highWater) hn
  opened x hx := by
    rcases Finset.mem_insert.mp hx with rfl | hx
    · exact ⟨k, by omega, by omega, rfl⟩
    · exact h.opened x hx
  every l hl hp := by
    obtain ⟨i, hi⟩ := h.every l hl hp
    exact ⟨i, Finset.mem_insert_of_mem hi⟩
  keys := by
    show (addSkipped P s.remoteDh s.ckRecv s.nRecv s.skipped (n - s.nRecv)).keys.toFinset = _
    rw [h.remoteDh k hk]
    exact keys_addSkipped h.keys (h.remoteDh k hk ▸ h.highWater) hn
  stored l hl i hi := by
    show (addSkipped P s.remoteDh s.ckRecv s.nRecv s.skipped (n - s.nRecv)).lookup _ = _
    rw [h.remoteDh k hk]
    refine lookup_addSkipped (h.remoteDh k hk ▸ h.highWater) hn (fun he j hj => ?_)
      (h.stored l hl i) hi
    rw [h.ckRecv k hk, messageKey_add, hj, hinj l hl he]
  seen id hid := by
    rcases mem_rememberSeen hid with rfl | hid
    · exact ⟨_, Finset.mem_insert_self _ _, rfl⟩
    · obtain ⟨x, hx, he⟩ := h.seen id hid
      exact ⟨x, Finset.mem_insert_of_mem hx, he⟩

/-! ### A new epoch -/

theorem shared_congr {a' : ℕ → Seed} {L : ℕ} (h : ∀ i ≤ L, a' i = a i) {k : ℕ} (hk : k < L) :
    shared P a' k = shared P a k := by
  rw [shared, shared, h k (by omega), h (k + 1) (by omega)]

theorem rootAt_shared_congr {a' : ℕ → Seed} {L : ℕ} (h : ∀ i ≤ L, a' i = a i) {k : ℕ} (hk : k ≤ L) :
    rootAt P root (shared P a') k = rootAt P root (shared P a) k :=
  rootAt_congr fun i hi => shared_congr h (by omega)

theorem chainAt_shared_congr {a' : ℕ → Seed} {L : ℕ} (h : ∀ i ≤ L, a' i = a i) {k : ℕ} (hk : k ≤ L) :
    chainAt P root (shared P a') k = chainAt P root (shared P a) k :=
  chainAt_congr fun i hi => shared_congr h (by omega)

theorem SendAt.congr (hs : SendAt P root a k s) {a' : ℕ → Seed} {L : ℕ} (h : ∀ i ≤ L, a' i = a i)
    (hk : k ≤ L) : SendAt P root a' k s where
  rootKey := by rw [hs.rootKey, rootAt_shared_congr h hk]
  dhSk := by rw [hs.dhSk, h k hk]
  dhPk := by rw [hs.dhPk, h k hk]
  ckSend := by rw [chainAt_shared_congr h hk, ← hs.ckSend]
  settled := hs.settled

theorem RecvAt.congr (hr : RecvAt P root a t s O) {a' : ℕ → Seed} {L : ℕ} (h : ∀ i ≤ L, a' i = a i)
    (ht : t ≤ L + 1) : RecvAt P root a' t s O where
  first := hr.first
  remoteDh k hk := by rw [hr.remoteDh k hk, h k (by omega)]
  ckRecv k hk := by rw [hr.ckRecv k hk, chainAt_shared_congr h (by omega)]
  highWater := hr.highWater
  opened x hx := by
    obtain ⟨k, hk, hp, he⟩ := hr.opened x hx
    exact ⟨k, hk, hp, by rw [he, h k (by omega)]⟩
  every k hk hp := by
    rw [h k (by omega)]
    exact hr.every k hk hp
  keys := hr.keys
  stored k hk i hi := by
    rw [h k (by omega)] at hi ⊢
    rw [chainAt_shared_congr h (by omega)]
    exact hr.stored k hk i hi
  seen := hr.seen

/-- Nothing was opened on the next chain yet. -/
theorem RecvAt.isHighWater_next (hr : RecvAt P root a t s O)
    (hinj : ∀ k ≤ t + 1, ∀ l ≤ t + 1, P.x25519Public (a k) = P.x25519Public (a l) → k = l) :
    IsHighWater O (P.x25519Public (a (t + 1))) 0 := by
  refine isHighWater_zero fun j hj => ?_
  obtain ⟨l, hl, -, he⟩ := hr.opened _ hj
  have := hinj (t + 1) le_rfl l (by omega) he
  omega

/-- The first message of the next chain was opened: the receiving half moves on by two turns. -/
theorem RecvAt.open_next (hr : RecvAt P root a t s O) (hown : SendAt P root a t s)
    (hinj : ∀ k ≤ t + 1, ∀ l ≤ t + 1, P.x25519Public (a k) = P.x25519Public (a l) → k = l) {n : ℕ}
    (sk : Seed) :
    RecvAt P root a (t + 2) (rememberSeen (idText s.sessionId (P.x25519Public (a (t + 1))) n)
      (nextState P a t sk n s)) (insert (P.x25519Public (a (t + 1)), n) O) where
  first h0 := by omega
  remoteDh k hk := by
    obtain rfl : k = t + 1 := by omega
    rfl
  ckRecv k hk := by
    obtain rfl : k = t + 1 := by omega
    show chainKey P (kdfRk P s.rootKey (shared P a t)).2 (n + 1) = chainKey P _ (0 + n + 1)
    rw [hown.rootKey, Nat.zero_add]
    rfl
  highWater := by
    show IsHighWater _ (P.x25519Public (a (t + 1))) (0 + n + 1)
    rw [Nat.zero_add]
    exact isHighWater_insert (hr.isHighWater_next hinj) (Nat.zero_le n)
  opened x hx := by
    rcases Finset.mem_insert.mp hx with rfl | hx
    · exact ⟨t + 1, by omega, by omega, rfl⟩
    · obtain ⟨k, hk, hp, he⟩ := hr.opened x hx
      exact ⟨k, by omega, by omega, he⟩
  every k hk hp := by
    by_cases hkt : k = t + 1
    · subst hkt
      exact ⟨n, Finset.mem_insert_self _ _⟩
    · obtain ⟨i, hi⟩ := hr.every k (by omega) (by omega)
      exact ⟨i, Finset.mem_insert_of_mem hi⟩
  keys := by
    exact keys_addSkipped hr.keys (hr.isHighWater_next hinj) (Nat.zero_le n)
  stored k hk i hi := by
    refine lookup_addSkipped (hr.isHighWater_next hinj) (Nat.zero_le n) (fun he j hj => ?_)
      (fun hg => ?_) hi
    · obtain rfl := hinj k (by omega) (t + 1) le_rfl he
      have hj' : i = j := hj.trans (Nat.zero_add j)
      show messageKey P (kdfRk P s.rootKey (shared P a t)).2 j = _
      rw [hown.rootKey, hj']
      rfl
    · -- an old gap lies on a chain that was received before
      obtain ⟨⟨j, -, hjO⟩, -⟩ := mem_gaps.mp hg
      obtain ⟨l, hl, -, he⟩ := hr.opened _ hjO
      obtain rfl := hinj k (by omega) l (by omega) he
      exact hr.stored k hl i hg
  seen id hid := by
    rcases mem_rememberSeen hid with rfl | hid
    · exact ⟨_, Finset.mem_insert_self _ _, rfl⟩
    · obtain ⟨x, hx, he⟩ := hr.seen id hid
      exact ⟨x, Finset.mem_insert_of_mem hx, he⟩

/-- The sending half after the first message of the next chain was opened. -/
theorem SendAt.open_next (hP : P.Correct) (hown : SendAt P root a t s) {a' : ℕ → Seed} {sk : Seed}
    (h : ∀ i ≤ t + 1, a' i = a i) (hsk : a' (t + 2) = sk) (id : String) (n : ℕ) :
    SendAt P root a' (t + 2) (rememberSeen id (nextState P a t sk n s)) := by
  have hroot : rootAt P root (shared P a') (t + 1) = (kdfRk P s.rootKey (shared P a t)).1 := by
    rw [rootAt_shared_congr h le_rfl, hown.rootKey]
    rfl
  have hz : sharedSecret P sk (a (t + 1)) = shared P a' (t + 1) := by
    rw [shared, hsk, h (t + 1) le_rfl, sharedSecret_comm hP]
  refine ⟨?_, ?_, ?_, ?_, hown.settled⟩
  · show (kdfRk P (kdfRk P s.rootKey (shared P a t)).1 (sharedSecret P sk (a (t + 1)))).1 = _
    rw [rootAt, hroot, hz]
  · rw [hsk]
    rfl
  · rw [hsk]
    rfl
  · show (kdfRk P (kdfRk P s.rootKey (shared P a t)).1 (sharedSecret P sk (a (t + 1)))).2 = _
    rw [chainAt, hroot, hz]
    rfl

/-- The sending half after one more message. -/
theorem SendAt.sent (hs : SendAt P root a k s) : SendAt P root a k (DoubleRatchet.sent P s) where
  rootKey := hs.rootKey
  dhSk := hs.dhSk
  dhPk := hs.dhPk
  ckSend := by
    show (kdfCk P s.ckSend).2 = chainKey P _ (s.nSend + 1)
    rw [chainKey_succ, ← hs.ckSend]
  settled := hs.settled

/-- The sending half of the responder after its first DH ratchet. -/
theorem SendAt.turned (hP : P.Correct) (hs : Pending root s) {a' : ℕ → Seed} {sk : Seed}
    (h0 : a' 0 = a 0) (h1 : a' 1 = sk) :
    SendAt P root a' 1 (DoubleRatchet.turned P s sk (sharedSecret P sk (a 0))) := by
  have hz : sharedSecret P sk (a 0) = shared P a' 0 := by
    rw [shared, h0, Nat.zero_add, h1, sharedSecret_comm hP]
  refine ⟨?_, ?_, ?_, ?_, rfl⟩
  · show (kdfRk P s.rootKey (sharedSecret P sk (a 0))).1 = _
    rw [hs.rootKey, hz]
    rfl
  · rw [h1]
    rfl
  · rw [h1]
    rfl
  · show (kdfRk P s.rootKey (sharedSecret P sk (a 0))).2 = _
    rw [hs.rootKey, hz]
    rfl

end SecChat
