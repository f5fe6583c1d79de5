import SecChat.Protocol.RatchetKeys
import SecChat.Protocol.TermModel

/-!
# The encrypted copy of the header

A wire has its header twice, readable and sealed under the header key.  `_read_header` raises when
the two differ, but inside the `try` whose handler falls back to the readable one.

* `MismatchedCopy`: a wire whose sealed copy opens to another header;
* `readHeader_of_mismatch`: the header that is used nevertheless;
* `mismatch_raises_iff`: `decrypt` raises exactly when nothing opens the message under that header;
* `swapped_copy_opens`: the copy of another message of the chain goes unnoticed.
-/

namespace SecChat

open Py

namespace DoubleRatchet

variable {P : Prims} {s t : DoubleRatchet} {sk : Seed}

/-- A wire with a header `visible` and a sealed copy that opens to another header `copy`. -/
structure MismatchedCopy (P : Prims) (s : DoubleRatchet) (wire : String) (obj visible copy : Json) :
    Prop where
  parsed : jsonUnb64 (dropTag prefixDr wire) = .ok obj
  shown : obj.getD "h" .null = .ok visible
  isDict : visible.isDict = true
  encrypted : ∃ eh, obj.getD "eh" .null = .ok eh ∧ eh.truthy = true ∧
    aeadDecrypt P s.hkRecv eh headerAad = .ok copy
  headerKey : s.hkRecv ≠ []
  differs : copy.pyEq visible = false

/-- The header that `_read_header` goes on with: an empty dictionary does not count as a header. -/
def usedHeader (visible copy : Json) : Json := if visible.truthy = true then visible else copy

/-- The exception of the mismatch is caught. -/
theorem readHeader_of_mismatch {wire : String} {obj visible copy : Json}
    (h : MismatchedCopy P s wire obj visible copy) :
    s.readHeader P obj = .ok (usedHeader visible copy) := by
  obtain ⟨eh, heh, htruthy, hopen⟩ := h.encrypted
  have hkey : (!s.hkRecv.isEmpty) = true := by simpa using h.headerKey
  unfold readHeader usedHeader
  rw [h.shown, ok_bind, heh, ok_bind, h.isDict, htruthy, hkey, hopen]
  dsimp only
  rw [h.differs]
  cases visible.truthy <;> rfl

theorem inspect_of_mismatch {wire : String} {obj visible copy : Json}
    (h : MismatchedCopy P s wire obj visible copy) :
    s.inspect P wire = s.check obj (usedHeader visible copy) := by
  rw [inspect_eq, h.parsed, ok_bind, readHeader_of_mismatch h, ok_bind]

/-- The header of an honest sender passes the checks of its receiver, if its id is new. -/
theorem check_header (ha : Addressed s t) (obj : Json) (n : ℕ) :
    t.check obj (s.header n) =
      if idText s.sessionId s.dhPk n ∈ t.seen then
        .error (.valueError "Duplicate/replayed Double Ratchet message")
      else .ok ⟨obj, idText s.sessionId s.dhPk n, s.dhPk, n, canonical (s.header n)⟩ := by
  have hid : messageId (s.header n) = .ok (idText s.sessionId s.dhPk n) := by
    simp [messageId, header, idText]
  have hsid : (s.header n).getD "sid" .null = .ok (.str s.sessionId) := by simp [header]
  have hconv : intOrZero (s.header n) "conversation_id" = .ok s.conversationId := by
    simp [header, intOrZero]
  have hrec : intOrZero (s.header n) "recipient_uid" = .ok s.peerUid := by
    simp [header, intOrZero]
  have hdh : (s.header n).getItem "dh" = .ok (.str (b64e s.dhPk)) := by simp [header]
  have hn : (s.header n).getItem "n" = .ok (.int n) := by simp [header]
  unfold check
  by_cases hseen : idText s.sessionId s.dhPk n ∈ t.seen
  · simp [hsid, hconv, hrec, hdh, hn, hid, hseen, ha.sessionId, ha.conversationId, ha.recipient,
      Json.pyEq]
    rfl
  · simp [hsid, hconv, hrec, hdh, hn, hid, hseen, ha.sessionId, ha.conversationId, ha.recipient,
      Json.pyEq]

/-- The receiving half of `t` stands where the sending half of `s` does. -/
structure InStep (s t : DoubleRatchet) : Prop extends Addressed s t where
  remoteDh : t.remoteDh = s.dhPk
  ckRecv : t.ckRecv = s.ckSend
  hkRecv : t.hkRecv = s.hkSend
  nRecv : t.nRecv = s.nSend
  skipped : t.skipped = ∅

/-- The next message of `s`, with the sealed copy of the header of the message after it. -/
def swappedWire (P : Prims) (s : DoubleRatchet) (r : SendRand) (plaintext : String) : Json :=
  .obj [
    ("v", .int secchatSchema),
    ("sid", .str s.sessionId),
    ("h", s.header s.nSend),
    ("eh", .str (aeadEncrypt P s.hkSend r.headerNonce (s.header (s.nSend + 1)) headerAad)),
    ("ct", .str (aeadEncrypt P (kdfCk P s.ckSend).1 r.nonce
      (.obj [("ts", .int r.ts), ("body", .str plaintext)]) (canonical (s.header s.nSend))))]

theorem header_pyEq_succ (s : DoubleRatchet) (n : ℕ) :
    (s.header (n + 1)).pyEq (s.header n) = false := by
  simp [header, Json.pyEq, Json.pyEqMembers, List.lookup_cons, Json.numKey]

theorem mismatched_swapped (hP : P.Correct) (h : InStep s t) (hkey : s.hkSend ≠ []) (r : SendRand)
    (plaintext : String) :
    MismatchedCopy P t (prefixDr ++ jsonB64 (swappedWire P s r plaintext))
      (swappedWire P s r plaintext) (s.header s.nSend) (s.header (s.nSend + 1)) where
  parsed := by
    rw [dropTag_append]
    refine jsonUnb64_jsonB64 ?_
    have h0 := s.header_plain s.nSend
    simp [swappedWire, h0]
  shown := by simp [swappedWire]
  isDict := rfl
  encrypted := by
    refine ⟨.str (aeadEncrypt P s.hkSend r.headerNonce (s.header (s.nSend + 1)) headerAad),
      ?_, ?_, ?_⟩
    · simp [swappedWire]
    · rw [Json.truthy_str, decide_eq_true_iff, aeadEncrypt, ne_eq, b64e_eq_empty]
      intro hnil
      have h12 := r.headerNonce.2
      rw [(List.append_eq_nil_iff.mp hnil).1] at h12
      cases h12
    · rw [h.hkRecv]
      exact aeadDecrypt_aeadEncrypt hP _ _ (s.header_plain _) _
  headerKey := by rw [h.hkRecv]; exact hkey
  differs := header_pyEq_succ s s.nSend

/-- **A swapped copy is not noticed.** -/
theorem swapped_copy_opens (hP : P.Correct) (h : InStep s t) (hkey : s.hkSend ≠ [])
    (hdh : s.dhPk ≠ []) (hseen : idText s.sessionId s.dhPk s.nSend ∉ t.seen) (r : SendRand)
    (plaintext : String) (sk : Seed) :
    ¬ ∃ e, (decrypt P sk (prefixDr ++ jsonB64 (swappedWire P s r plaintext)) t).1 = .error e := by
  have hmismatch := mismatched_swapped hP h hkey r plaintext
  have hused : usedHeader (s.header s.nSend) (s.header (s.nSend + 1)) = s.header s.nSend :=
    if_pos rfl
  rw [raises_iff, not_not, decrypt_returns_iff, inspect_of_mismatch hmismatch, hused,
    check_header h.toAddressed, if_neg hseen]
  refine ⟨_, rfl, (kdfCk P s.ckSend).1, plaintext, ?_, ?_⟩
  · have hcur : KeyFor P t sk ⟨swappedWire P s r plaintext, idText s.sessionId s.dhPk s.nSend,
        s.dhPk, s.nSend, canonical (s.header s.nSend)⟩
        (messageKey P t.ckRecv ((s.nSend : ℤ) - t.nRecv).toNat) := by
      refine .current ?_ ?_ ?_
      · rw [h.skipped]
        rfl
      · rintro (hnil | hne)
        · exact hdh (h.remoteDh.symm.trans hnil)
        · exact hne h.remoteDh.symm
      · refine .inr ?_
        rw [h.skipped, h.nRecv]
        simp
    rw [h.nRecv, Int.sub_self, h.ckRecv] at hcur
    exact hcur
  · have hct : (swappedWire P s r plaintext).getItem "ct" =
        .ok (.str (aeadEncrypt P (kdfCk P s.ckSend).1 r.nonce
          (.obj [("ts", .int r.ts), ("body", .str plaintext)])
          (canonical (s.header s.nSend)))) := by
      simp [swappedWire]
    simp only [openBody, hct, ok_bind]
    rw [aeadDecrypt_aeadEncrypt hP _ _ (by simp)]
    simp

/-- Two new states of one session, whatever ids the receiver has seen. -/
theorem inStep_new (root : Bytes) (sid : String) (hsid : sid ≠ "") (sk sk' : Seed)
    (bytes bytes' : Bytes) (seen : Finset String) :
    InStep (new P root true [] sid sk bytes)
      { new P root false (P.x25519Public sk) sid sk' bytes' with seen := seen } where
  sessionId := by simp [new, hsid]
  conversationId := rfl
  recipient := rfl
  remoteDh := rfl
  ckRecv := rfl
  hkRecv := rfl
  nRecv := rfl
  skipped := rfl

/-- Random choices for concrete runs. -/
def someSeed : Seed := ⟨List.replicate 32 1, List.length_replicate ..⟩

def someRand : SendRand :=
  ⟨someSeed, ⟨List.replicate 12 2, List.length_replicate ..⟩,
    ⟨List.replicate 12 3, List.length_replicate ..⟩, 0⟩

/-- A new initiator. -/
def firstSender (P : Prims) : DoubleRatchet := new P [7] true [] "session" someSeed []

/-- A new responder that has seen some ids. -/
def firstReceiver (P : Prims) (seen : Finset String) : DoubleRatchet :=
  { new P [7] false (P.x25519Public someSeed) "session" someSeed [] with seen := seen }

theorem inStep_first (seen : Finset String) : InStep (firstSender P) (firstReceiver P seen) :=
  inStep_new [7] "session" (by decide) someSeed someSeed [] [] seen

theorem hkSend_firstSender : (firstSender termPrims).hkSend ≠ [] := termOf_ne_nil _

/-- The id of a message of the first sender. -/
def firstId (P : Prims) (n : ℕ) : String := idText (firstSender P).sessionId (firstSender P).dhPk n

end DoubleRatchet

end SecChat
