import SecChat.Protocol.RatchetSpec

/-!
# Which key opens a message

The second half of `decrypt` opens a message exactly with the key that the state has for its header.

* `KeyFor`: the key of a state for a header, stored, on the current chain, or after a DH ratchet;
* `receive_result_iff`: what `receive` returns;
* `check`: the checks of `decrypt` on a header, with `inspect_eq` and `check_eq`;
* `decrypt_result_iff`: what `decrypt` returns.
-/

namespace SecChat

open Py

namespace DoubleRatchet

variable {P : Prims} {s : DoubleRatchet} {sk : Seed} {m : Incoming}

/-- The key that a state has for a message; `sk` is the key pair that a DH ratchet would generate.
-/
inductive KeyFor (P : Prims) (s : DoubleRatchet) (sk : Seed) (m : Incoming) : Bytes → Prop
  | stored {token : String} {key : Bytes}
      (kept : s.skipped.lookup (skipKey m.remote m.n) = some token)
      (token_ok : b64d token = .ok key) : KeyFor P s sk m key
  | current (missing : s.skipped.lookup (skipKey m.remote m.n) = none)
      (same : ¬ s.NeedsRatchet m.remote) (room : s.Room m.n) :
      KeyFor P s sk m (messageKey P s.ckRecv (m.n - s.nRecv).toNat)
  | next {z z' : Bytes} (missing : s.skipped.lookup (skipKey m.remote m.n) = none)
      (other : s.NeedsRatchet m.remote) (old : x25519Dh P s.dhSk m.remote = .ok z)
      (fresh : x25519Dh P sk m.remote = .ok z') (room : (ratcheted P s sk m.remote z z').Room m.n) :
      KeyFor P s sk m (messageKey P (kdfRk P s.rootKey z).2 m.n.toNat)

/-- The state has a key that opens the message. -/
def Opens (P : Prims) (s : DoubleRatchet) (sk : Seed) (m : Incoming) : Prop :=
  ∃ key plain, KeyFor P s sk m key ∧ openBody P key m = .ok plain

@[simp] theorem finish_fst (key : Bytes) (s : DoubleRatchet) :
    (finish P m key s).1 = openBody P key m := by
  unfold finish
  cases openBody P key m <;> rfl

theorem receiveOn_result_iff {plain : String} : (receiveOn P m s).1 = .ok plain ↔
    s.Room m.n ∧ openBody P (messageKey P s.ckRecv (m.n - s.nRecv).toNat) m = .ok plain := by
  by_cases hroom : s.Room m.n
  · rw [receiveOn_of_room hroom, finish_fst, and_iff_right hroom]
  · rw [receiveOn_of_not_room hroom]
    exact iff_of_false (fun h => by cases h) fun h => hroom h.1

/-- **What `receive` returns.** -/
theorem receive_result_iff {plain : String} : (receive P sk m s).1 = .ok plain ↔
    ∃ key, KeyFor P s sk m key ∧ openBody P key m = .ok plain := by
  cases hl : s.skipped.lookup (skipKey m.remote m.n) with
  | some token =>
    have hrun : (receive P sk m s).1 = (b64d token >>= fun key => openBody P key m) := by
      simp only [receive, Method.get_bind, hl, Method.modify_bind]
      cases b64d token with
      | error e => rfl
      | ok key =>
        simp only [Method.ofExcept_ok_bind, ok_bind]
        cases openBody P key m <;> rfl
    rw [hrun]
    constructor
    · intro h
      obtain ⟨key, hkey, hopen⟩ := bind_eq_ok_iff.mp h
      exact ⟨key, .stored hl hkey, hopen⟩
    · rintro ⟨key, hkey, hopen⟩
      cases hkey with
      | stored kept token_ok =>
        rw [hl] at kept
        obtain rfl := Option.some.inj kept
        rw [token_ok, ok_bind, hopen]
      | current missing same room =>
        rw [hl] at missing
        cases missing
      | next missing other old fresh room =>
        rw [hl] at missing
        cases missing
  | none =>
    by_cases hn : s.NeedsRatchet m.remote
    · rw [receive_of_new hl hn]
      rcases hd : dhRatchet P sk m.remote s with ⟨r, s'⟩
      cases r with
      | error e =>
        rw [Method.bind_error hd]
        refine iff_of_false (fun h => by cases h) ?_
        rintro ⟨key, hkey, hopen⟩
        cases hkey with
        | stored kept token_ok =>
          rw [hl] at kept
          cases kept
        | current missing same room => exact same hn
        | next missing other old fresh room =>
          rw [dhRatchet_of_dh old fresh] at hd
          cases hd
      | ok u =>
        obtain ⟨z, z', hz, hz', rfl⟩ := dhRatchet_eq_ok hd
        rw [Method.bind_ok hd, receiveOn_result_iff]
        have hindex : (m.n - ((ratcheted P s sk m.remote z z').nRecv : ℤ)).toNat = m.n.toNat := by
          rw [show ((ratcheted P s sk m.remote z z').nRecv : ℤ) = 0 from rfl, Int.sub_zero]
        rw [hindex]
        constructor
        · rintro ⟨hroom, hopen⟩
          exact ⟨_, .next hl hn hz hz' hroom, hopen⟩
        · rintro ⟨key, hkey, hopen⟩
          cases hkey with
          | stored kept token_ok =>
            rw [hl] at kept
            cases kept
          | current missing same room => exact absurd hn same
          | next missing other old fresh room =>
            obtain rfl := Except.ok.inj (hz.symm.trans old)
            obtain rfl := Except.ok.inj (hz'.symm.trans fresh)
            exact ⟨room, hopen⟩
    · rw [receive_of_current hl hn, receiveOn_result_iff]
      constructor
      · rintro ⟨hroom, hopen⟩
        exact ⟨_, .current hl hn hroom, hopen⟩
      · rintro ⟨key, hkey, hopen⟩
        cases hkey with
        | stored kept token_ok =>
          rw [hl] at kept
          cases kept
        | current missing same room => exact ⟨room, hopen⟩
        | next missing other old fresh room => exact absurd other hn

/-- The checks of `decrypt` on a header, up to the set of seen ids. -/
def check (s : DoubleRatchet) (obj header : Json) : Except Exn Incoming := do
  let sid ← header.getD "sid" .null
  if s.sessionId ≠ "" ∧ !sid.pyEq (.str s.sessionId) then
    throw (.valueError "Double Ratchet session mismatch")
  if s.conversationId ≠ 0 then
    if (← intOrZero header "conversation_id") ≠ s.conversationId then
      throw (.valueError "Double Ratchet conversation mismatch")
  if s.myUid ≠ 0 then
    if (← intOrZero header "recipient_uid") ≠ s.myUid then
      throw (.valueError "Double Ratchet recipient mismatch")
  let remote ← b64d (← header.getItem "dh").toStr
  let n ← (← header.getItem "n").toInt
  let messageId ← messageId header
  if messageId ∈ s.seen then
    throw (.valueError "Duplicate/replayed Double Ratchet message")
  return { obj := obj, messageId := messageId, remote := remote, n := n, aad := canonical header }

theorem inspect_eq (s : DoubleRatchet) (wire : String) : s.inspect P wire =
    jsonUnb64 (dropTag prefixDr wire) >>= fun obj =>
      s.readHeader P obj >>= fun header => s.check obj header := rfl

/-- The fields of a header that passed the checks. -/
def fields (obj header : Json) : Except Exn Incoming := do
  let remote ← b64d (← header.getItem "dh").toStr
  let n ← (← header.getItem "n").toInt
  let messageId ← messageId header
  return { obj := obj, messageId := messageId, remote := remote, n := n, aad := canonical header }

/-- The last check. -/
def refuseSeen (seen : Finset String) (m : Incoming) : Except Exn Incoming :=
  if m.messageId ∈ seen then .error (.valueError "Duplicate/replayed Double Ratchet message")
  else .ok m

/-- The checks of session, conversation and recipient. -/
def route (s : DoubleRatchet) (header : Json) : Except Exn Unit := do
  let sid ← header.getD "sid" .null
  if s.sessionId ≠ "" ∧ !sid.pyEq (.str s.sessionId) then
    throw (.valueError "Double Ratchet session mismatch")
  if s.conversationId ≠ 0 then
    if (← intOrZero header "conversation_id") ≠ s.conversationId then
      throw (.valueError "Double Ratchet conversation mismatch")
  if s.myUid ≠ 0 then
    if (← intOrZero header "recipient_uid") ≠ s.myUid then
      throw (.valueError "Double Ratchet recipient mismatch")

/-- The ids that were seen are looked at last. -/
theorem check_eq (s : DoubleRatchet) (obj header : Json) : s.check obj header =
    s.route header >>= fun _ => fields obj header >>= refuseSeen s.seen := by
  have hfields : (fields obj header >>= refuseSeen s.seen) = do
      let remote ← b64d (← header.getItem "dh").toStr
      let n ← (← header.getItem "n").toInt
      let messageId ← messageId header
      if messageId ∈ s.seen then
        throw (.valueError "Duplicate/replayed Double Ratchet message")
      return ⟨obj, messageId, remote, n, canonical header⟩ := by
    unfold fields refuseSeen
    cases header.getItem "dh" with
    | error e => rfl
    | ok dh =>
      simp only [ok_bind]
      cases b64d dh.toStr with
      | error e => rfl
      | ok remote =>
        simp only [ok_bind]
        cases header.getItem "n" with
        | error e => rfl
        | ok n =>
          simp only [ok_bind]
          cases n.toInt with
          | error e => rfl
          | ok n =>
            simp only [ok_bind]
            cases messageId header with
            | error e => rfl
            | ok id =>
              simp only [ok_bind, pure_eq_ok]
              split <;> rfl
  rw [hfields]
  unfold check route
  cases header.getD "sid" .null with
  | error e => rfl
  | ok sid =>
    simp only [ok_bind]
    split
    · rfl
    · split
      · cases intOrZero header "conversation_id" with
        | error e => rfl
        | ok c =>
          simp only [ok_bind]
          split
          · rfl
          · split
            · cases intOrZero header "recipient_uid" with
              | error e => rfl
              | ok u =>
                simp only [ok_bind]
                split <;> rfl
            · rfl
      · split
        · cases intOrZero header "recipient_uid" with
          | error e => rfl
          | ok u =>
            simp only [ok_bind]
            split <;> rfl
        · rfl

theorem decrypt_run (sk : Seed) (wire : String) (s : DoubleRatchet) : decrypt P sk wire s =
    (Method.ofExcept (s.inspect P wire) >>= fun m => receive P sk m) s := rfl

/-- **What `decrypt` returns.** -/
theorem decrypt_result_iff {wire plain : String} : (decrypt P sk wire s).1 = .ok plain ↔
    ∃ m key, s.inspect P wire = .ok m ∧ KeyFor P s sk m key ∧ openBody P key m = .ok plain := by
  rw [decrypt_run]
  cases hm : s.inspect P wire with
  | error e =>
    rw [Method.ofExcept_error_bind]
    refine iff_of_false (fun h => by cases h) ?_
    rintro ⟨m, key, h, -⟩
    cases h
  | ok m =>
    rw [Method.ofExcept_ok_bind, receive_result_iff]
    constructor
    · rintro ⟨key, hkey, hopen⟩
      exact ⟨m, key, rfl, hkey, hopen⟩
    · rintro ⟨m', key, hm', hkey, hopen⟩
      obtain rfl := Except.ok.inj hm'
      exact ⟨key, hkey, hopen⟩

/-- `decrypt` returns exactly when the wire passes the checks and the state has a key that opens it.
-/
theorem decrypt_returns_iff {wire : String} : (∃ plain, (decrypt P sk wire s).1 = .ok plain) ↔
    ∃ m, s.inspect P wire = .ok m ∧ Opens P s sk m := by
  constructor
  · rintro ⟨plain, h⟩
    obtain ⟨m, key, hm, hkey, hopen⟩ := decrypt_result_iff.mp h
    exact ⟨m, hm, key, plain, hkey, hopen⟩
  · rintro ⟨m, hm, key, plain, hkey, hopen⟩
    exact ⟨plain, decrypt_result_iff.mpr ⟨m, key, hm, hkey, hopen⟩⟩

theorem raises_iff {α : Type} {x : Except Exn α} : (∃ e, x = .error e) ↔ ¬ ∃ a, x = .ok a := by
  cases x <;> simp

end DoubleRatchet

end SecChat
