import SecChat.Protocol.RatchetDisk
import SecChat.Python.MethodRules

/-!
# Bounds on memory and work

Whatever wires arrive, a ratchet stores a bounded number of keys and ids, and a call of `decrypt`
takes a bounded number of steps along the receiving chain.

* `decryptCounted`: `decrypt` with a counter of its calls of `_kdf_ck`;
* `counts_decrypt`: it does what `decrypt` does, with at most `maxSkipKeys + 1` steps;
* `Bounded`, `bounded_decrypt`, `bounded_encrypt`: the bounds, kept also by calls that raise;
* `memory_and_work_bounded`: runs.
-/

namespace SecChat

open Py

namespace DoubleRatchet

variable {P : Prims}

/-! ### Work -/

variable (P) in
/-- `_skip_until`, counting the steps of the chain. -/
def skipUntilCounted (untilN : ℤ) : Method (DoubleRatchet × ℕ) Unit := do
  let s ← Method.uncounted Method.get
  let gap := untilN - s.nRecv
  if gap < 0 then return ()
  if gap > maxSkipKeys ∨ s.skipped.entries.length + gap > maxSkipKeys then
    Method.uncounted (Method.raise (.valueError "Too many skipped message keys"))
  Method.modify (fun s => (skipOne P s.1, s.2 + 1))^[gap.toNat]

variable (P) in
/-- The second half of `decrypt`, counting the steps of the chain. -/
def receiveCounted (sk : Seed) (m : Incoming) : Method (DoubleRatchet × ℕ) String := do
  let s ← Method.uncounted Method.get
  match s.skipped.lookup (skipKey m.remote m.n) with
  | some token =>
    Method.uncounted do
      Method.modify fun s => { s with skipped := s.skipped.erase (skipKey m.remote m.n) }
      let msgKey ← Method.ofExcept (b64d token)
      let plain ← Method.ofExcept (openBody P msgKey m)
      Method.modify (rememberSeen m.messageId)
      return plain
  | none =>
    if s.remoteDh = [] ∨ m.remote ≠ s.remoteDh then Method.uncounted (dhRatchet P sk m.remote)
    skipUntilCounted P m.n
    Method.tick
    Method.uncounted do
      let s ← Method.get
      let (msgKey, ckRecv) := kdfCk P s.ckRecv
      Method.modify fun s => { s with ckRecv := ckRecv, nRecv := s.nRecv + 1 }
      let plain ← Method.ofExcept (openBody P msgKey m)
      Method.modify (rememberSeen m.messageId)
      return plain

variable (P) in
/-- `decrypt`, counting the steps of the chain. -/
def decryptCounted (sk : Seed) (wire : String) : Method (DoubleRatchet × ℕ) String := do
  let s ← Method.uncounted Method.get
  let m ← Method.uncounted (Method.ofExcept (s.inspect P wire))
  receiveCounted P sk m

/-- The check of the gap bounds the turns of the loop, whatever index is asked for. -/
theorem counts_skipUntil (n : ℤ) :
    Method.Counts maxSkipKeys (skipUntilCounted P n) (skipUntil P n) := by
  unfold skipUntilCounted skipUntil
  refine .mono (b := 0 + maxSkipKeys) (.bind (.uncounted _) fun s => ?_) (Nat.zero_add _).le
  dsimp only
  by_cases hneg : n - (s.nRecv : ℤ) < 0
  · rw [if_pos hneg, if_pos hneg]
    exact .mono (.pure ()) (Nat.zero_le _)
  · rw [if_neg hneg, if_neg hneg]
    by_cases hroom : n - (s.nRecv : ℤ) > maxSkipKeys ∨
        (s.skipped.entries.length : ℤ) + (n - s.nRecv) > maxSkipKeys
    · rw [if_pos hroom, if_pos hroom]
      exact .mono (.raise_bind _ _ _) (Nat.zero_le _)
    · rw [if_neg hroom, if_neg hroom]
      refine .mono (.iterate _ _) ?_
      omega

theorem counts_receive (sk : Seed) (m : Incoming) :
    Method.Counts (maxSkipKeys + 1) (receiveCounted P sk m) (receive P sk m) := by
  unfold receiveCounted receive
  refine .mono (b := 0 + (maxSkipKeys + 1)) (.bind (.uncounted _) fun s => ?_) (Nat.zero_add _).le
  cases s.skipped.lookup (skipKey m.remote m.n) with
  | some token => exact .mono (.uncounted _) (Nat.zero_le _)
  | none =>
    have hchain : Method.Counts (maxSkipKeys + 1)
        (skipUntilCounted P m.n >>= fun _ => Method.tick >>= fun _ => Method.uncounted do
          let s ← Method.get
          let (msgKey, ckRecv) := kdfCk P s.ckRecv
          Method.modify fun s => { s with ckRecv := ckRecv, nRecv := s.nRecv + 1 }
          let plain ← Method.ofExcept (openBody P msgKey m)
          Method.modify (rememberSeen m.messageId)
          return plain)
        (skipUntil P m.n >>= fun _ => do
          let s ← Method.get
          let (msgKey, ckRecv) := kdfCk P s.ckRecv
          Method.modify fun s => { s with ckRecv := ckRecv, nRecv := s.nRecv + 1 }
          let plain ← Method.ofExcept (openBody P msgKey m)
          Method.modify (rememberSeen m.messageId)
          return plain) :=
      .bind (counts_skipUntil m.n) fun _ =>
        .mono (b := 1 + 0) (.bind .tick fun _ => .uncounted _) le_rfl
    dsimp only
    split
    · exact .mono (b := 0 + (maxSkipKeys + 1)) (.bind (.uncounted _) fun _ => hchain)
        (Nat.zero_add _).le
    · exact hchain

/-- **Work.**  The counted `decrypt` does what `decrypt` does. -/
theorem counts_decrypt (sk : Seed) (wire : String) :
    Method.Counts (maxSkipKeys + 1) (decryptCounted P sk wire) (decrypt P sk wire) := by
  unfold decryptCounted decrypt
  refine .mono (b := 0 + (0 + (maxSkipKeys + 1))) (.bind (.uncounted _) fun s => ?_) (by omega)
  exact .bind (.uncounted _) fun m => counts_receive sk m

/-! ### Memory -/

/-- The bounds on what is stored. -/
structure Bounded (s : DoubleRatchet) : Prop where
  skipped : s.skipped.entries.length ≤ maxSkipKeys
  seen : s.seen.card ≤ 4096

theorem length_insert_le (d : AList fun _ : String => String) (key value : String) :
    (d.insert key value).entries.length ≤ d.entries.length + 1 := by
  rw [AList.entries_insert, List.length_cons]
  exact Nat.succ_le_succ (List.kerase_sublist key d.entries).length_le

theorem length_erase_le (d : AList fun _ : String => String) (key : String) :
    (d.erase key).entries.length ≤ d.entries.length := (List.kerase_sublist key d.entries).length_le

theorem length_addSkipped_le (remote ck : Bytes) (n : ℕ) (d : AList fun _ : String => String)
    (k : ℕ) : (addSkipped P remote ck n d k).entries.length ≤ d.entries.length + k := by
  induction k with
  | zero => exact le_rfl
  | succ k ih =>
    have hle := length_insert_le (addSkipped P remote ck n d k) (skipKey remote (n + k : ℕ))
      (b64e (messageKey P ck k))
    rw [addSkipped]
    omega

theorem card_rememberSeen_le (s : DoubleRatchet) (id : String) :
    (rememberSeen id s).seen.card ≤ 4096 := by
  unfold rememberSeen
  dsimp only
  split
  · exact (card_lastSorted_le 2048 _).trans (by decide)
  · next hle => exact not_lt.mp hle

theorem bounded_skipUntil (n : ℤ) : Method.Keeps Bounded (skipUntil P n) := by
  intro s hs
  by_cases hroom : s.Room n
  · rw [skipUntil_of_room hroom, skipOne_iterate]
    refine ⟨(length_addSkipped_le _ _ _ _ _).trans ?_, hs.seen⟩
    have hskipped := hs.skipped
    rcases hroom with hlt | hle
    · omega
    · omega
  · rw [skipUntil_of_not_room hroom]
    exact hs

theorem bounded_dhRatchet (sk : Seed) (remote : Bytes) :
    Method.Keeps Bounded (dhRatchet P sk remote) := by
  unfold dhRatchet
  refine .bind (.modify fun s hs => ⟨hs.skipped, hs.seen⟩) fun _ => ?_
  refine .bind (fun s hs => hs) fun s => ?_
  refine .bind (.ofExcept _) fun z => .bind (.modify fun s hs => ⟨hs.skipped, hs.seen⟩) fun _ => ?_
  refine .bind (.modify fun s hs => ⟨hs.skipped, hs.seen⟩) fun _ => ?_
  refine .bind (fun s hs => hs) fun s => ?_
  exact .bind (.ofExcept _) fun z => .modify fun s hs => ⟨hs.skipped, hs.seen⟩

theorem bounded_opening (sk : Seed) (m : Incoming) : Method.Keeps Bounded (opening P sk m) := by
  have hchain : Method.Keeps Bounded (skipUntil P m.n >>= fun _ => Method.get >>= fun s =>
      Method.modify (fun t => { t with ckRecv := (kdfCk P s.ckRecv).2, nRecv := t.nRecv + 1 }) >>=
        fun _ => Method.ofExcept (openBody P (kdfCk P s.ckRecv).1 m)) := by
    refine .bind (bounded_skipUntil _) fun _ => .bind (fun s hs => hs) fun s => ?_
    exact .bind (.modify fun s hs => ⟨hs.skipped, hs.seen⟩) fun _ => .ofExcept _
  unfold opening
  refine .bind (fun s hs => hs) fun s => ?_
  cases s.skipped.lookup (skipKey m.remote m.n) with
  | some token =>
    refine .bind (.modify fun s hs => ⟨(length_erase_le _ _).trans hs.skipped, hs.seen⟩) fun _ => ?_
    exact .bind (.ofExcept _) fun _ => .ofExcept _
  | none =>
    dsimp only
    split
    · exact .bind (bounded_dhRatchet _ _) fun _ => hchain
    · exact hchain

/-- `decrypt` keeps the bounds, whatever arrives. -/
theorem bounded_decrypt (sk : Seed) (wire : String) :
    Method.Keeps Bounded (decrypt P sk wire) := by
  unfold decrypt
  refine .bind (fun s hs => hs) fun s => .bind (.ofExcept _) fun m => ?_
  rw [receive_eq]
  refine .bind (bounded_opening sk m) fun plain => ?_
  exact .bind (.modify fun s hs => ⟨hs.skipped, card_rememberSeen_le s _⟩) fun _ => .pure _

theorem bounded_encrypt (r : SendRand) (text : String) :
    Method.Keeps Bounded (encrypt P r text) := by
  have hturn : Method.Keeps Bounded (maybeSendRatchet P r.key) := by
    unfold maybeSendRatchet
    refine .bind (fun s hs => hs) fun s => ?_
    split
    · exact .pure ()
    · refine .bind (.modify fun s hs => ⟨hs.skipped, hs.seen⟩) fun _ => ?_
      refine .bind (.modify fun s hs => ⟨hs.skipped, hs.seen⟩) fun _ => ?_
      refine .bind (fun s hs => hs) fun s => .bind (.ofExcept _) fun z => ?_
      exact .modify fun s hs => ⟨hs.skipped, hs.seen⟩
  unfold encrypt
  refine .bind hturn fun _ => .bind (fun s hs => hs) fun s => ?_
  exact .bind (.modify fun s hs => ⟨hs.skipped, hs.seen⟩) fun _ => .pure _

/-! ### Runs -/

/-- A call of `encrypt` or `decrypt` with its random choices. -/
inductive Call
  | encrypt (r : SendRand) (text : String)
  | decrypt (sk : Seed) (wire : String)

variable (P) in
/-- The state after a call; a call that raises leaves what it has changed. -/
def afterCall (s : DoubleRatchet) : Call → DoubleRatchet
  | .encrypt r text => (encrypt P r text s).2
  | .decrypt sk wire => (decrypt P sk wire s).2

theorem bounded_run {s : DoubleRatchet} (h : Bounded s) (calls : List Call) :
    Bounded (calls.foldl (afterCall P) s) := by
  induction calls generalizing s with
  | nil => exact h
  | cons call calls ih =>
    apply ih
    cases call with
    | encrypt r text => exact bounded_encrypt r text s h
    | decrypt sk wire => exact bounded_decrypt sk wire s h

theorem bounded_new (rootKey : Bytes) (initiator : Bool) (remoteDh : Bytes) (sessionId : String)
    (sk : Seed) (sidBytes : Bytes) (conversationId myUid peerUid : ℤ) (version : Option ℤ) :
    Bounded ((new P rootKey initiator remoteDh sessionId sk sidBytes).setContext conversationId
      myUid peerUid version) := ⟨Nat.zero_le _, Nat.zero_le _⟩

/-- **Bounds.** After any calls on a new ratchet the stores are bounded, and the next `decrypt`
takes at most `maxSkipKeys + 1` steps along the chain, whatever the wire is. -/
theorem memory_and_work_bounded (P : Prims) (rootKey : Bytes) (initiator : Bool) (remoteDh : Bytes)
    (sessionId : String) (sk : Seed) (sidBytes : Bytes) (conversationId myUid peerUid : ℤ)
    (version : Option ℤ) (calls : List Call) :
    let s := calls.foldl (afterCall P) ((new P rootKey initiator remoteDh sessionId sk
      sidBytes).setContext conversationId myUid peerUid version)
    s.skipped.entries.length ≤ maxSkipKeys ∧ s.seen.card ≤ 4096 ∧
      ∀ (sk : Seed) (wire : String), ∃ steps ≤ maxSkipKeys + 1,
        decryptCounted P sk wire (s, 0) =
          ((decrypt P sk wire s).1, (decrypt P sk wire s).2, steps) := by
  intro s
  have hs : Bounded s := bounded_run (bounded_new _ _ _ _ _ _ _ _ _ _) calls
  refine ⟨hs.skipped, hs.seen, fun sk wire => ?_⟩
  obtain ⟨steps, hle, hrun⟩ := counts_decrypt (P := P) sk wire s 0
  rw [Nat.zero_add] at hrun
  exact ⟨steps, hle, hrun⟩

end DoubleRatchet

end SecChat
