import SecChat.Protocol.KeySchedule
import SecChat.Library.Gaps

/-!
# Two parties and a lossy channel

A run interleaves `encrypt` calls of the two parties with deliveries to their `decrypt` methods.
Messages may be lost and reordered; what was opened once is not delivered again.  A `decrypt` that
raises is rolled back, as the session layer does.

The invariant of a run (`Inv`) counts epochs.  Epoch `k` belongs to the initiator for even `k` and
to the responder for odd `k`; the epochs up to `L` exist.  A party on turn `t` sends in epoch `t`
and receives in epoch `t - 1`, and the turns of both parties are determined by `L`.

* `Sys`, `Event`, `step`, `run`: the two parties, and what may happen;
* `Inv`: the states agree with one key schedule, and the store of skipped keys holds exactly the keys
  of the gaps.
-/

namespace SecChat

open Py Gaps DoubleRatchet

/-! ### The system -/

inductive Party
  | initiator
  | responder
  deriving DecidableEq, Repr

namespace Party

def peer : Party → Party
  | initiator => responder
  | responder => initiator

@[simp] theorem peer_peer (p : Party) : p.peer.peer = p := by cases p <;> rfl

theorem ne_iff_eq_peer {p q : Party} : p ≠ q ↔ p = q.peer := by
  cases p <;> cases q <;> simp [peer]

/-- The parity of the epochs in which a party sends. -/
def bit : Party → ℕ
  | initiator => 0
  | responder => 1

end Party

/-- A message that was sent, with the state in which the sender took its key. -/
structure Sent where
  sender : Party
  state : DoubleRatchet
  wire : String
  text : String

namespace Sent

/-- The ratchet key in the header, which names the sending chain. -/
def dh (m : Sent) : Bytes := m.state.dhPk

/-- The index in the sending chain. -/
def n (m : Sent) : ℕ := m.state.nSend

/-- The length of the sending chain before it, as the header has it. -/
def pn (m : Sent) : ℕ := m.state.pn

/-- Chain and index. -/
def slot (m : Sent) : Bytes × ℕ := (m.dh, m.n)

/-- The message key. -/
def key (P : Prims) (m : Sent) : Bytes := (kdfCk P m.state.ckSend).1

/-- The chain key of the sender after the message. -/
def ck (P : Prims) (m : Sent) : Bytes := (kdfCk P m.state.ckSend).2

end Sent

/-- One call of `decrypt`: the message, its place in the log and what came of it. -/
structure Delivery where
  id : ℕ
  msg : Sent
  result : Except Exn String

/-- Whether the call returned. -/
def Delivery.ok (d : Delivery) : Bool := d.result.toBool

/-- Both parties, the messages sent so far, the deliveries made so far, and the ratchet keys
generated so far. -/
structure Sys where
  state : Party → DoubleRatchet
  log : List Sent
  got : Party → List Delivery
  used : List Bytes

/-- The chains and indices that a party has opened. -/
def Sys.opened (σ : Sys) (p : Party) : Finset (Bytes × ℕ) :=
  (((σ.got p).filter Delivery.ok).map fun d => d.msg.slot).toFinset

inductive Event
  /-- A party encrypts a text. -/
  | send (p : Party) (r : SendRand) (text : String)
  /-- Message number `id` of the log reaches a party. -/
  | deliver (p : Party) (id : ℕ) (sk : Seed)

variable (P : Prims)

/-- The state after a call, rolled back if the call raised. -/
def settle {α : Type} (s : DoubleRatchet) (x : Except Exn α × DoubleRatchet) : DoubleRatchet :=
  match x with
  | (.ok _, s') => s'
  | (.error _, _) => s

/-- `encrypt` at party `p`. -/
def Sys.send (σ : Sys) (p : Party) (r : SendRand) (text : String) : Sys :=
  match encrypt P r text (σ.state p) with
  | (.ok wire, s') => { σ with
      state := Function.update σ.state p s'
      log := σ.log ++ [⟨p, sendReady P r.key (σ.state p), wire, text⟩]
      used := P.x25519Public r.key :: σ.used }
  | (.error _, _) => { σ with used := P.x25519Public r.key :: σ.used }

/-- `decrypt` of message `m` at party `p`. -/
def Sys.receive (σ : Sys) (p : Party) (id : ℕ) (m : Sent) (sk : Seed) : Sys :=
  let x := decrypt P sk m.wire (σ.state p)
  { σ with
    state := Function.update σ.state p (settle (σ.state p) x)
    got := Function.update σ.got p (σ.got p ++ [⟨id, m, x.1⟩])
    used := P.x25519Public sk :: σ.used }

/-- One event.  Key pairs are generated fresh, a delivered message was sent by the other party, and
one that was opened is not delivered again. -/
def step (σ : Sys) : Event → Option Sys
  | .send p r text =>
    if P.x25519Public r.key ∈ σ.used then none else some (σ.send P p r text)
  | .deliver p id sk =>
    match σ.log[id]? with
    | none => none
    | some m =>
      if P.x25519Public sk ∈ σ.used ∨ m.sender = p ∨ ∃ d ∈ σ.got p, d.id = id ∧ d.ok = true then none
      else some (σ.receive P p id m sk)

/-- A run: the system after a list of events, if they can happen in this order. -/
def run (σ : Sys) : List Event → Option Sys
  | [] => some σ
  | e :: es => (step P σ e).bind fun σ' => run σ' es

/-! ### The invariant -/

/-- The shared secret between the keys of an epoch and the next one. -/
def shared (a : ℕ → Seed) (k : ℕ) : Bytes := sharedSecret P (a k) (a (k + 1))

/-- The turn of each party when the epochs up to `L` exist. -/
def turn (L : ℕ) : Party → ℕ
  | .initiator => 2 * (L / 2)
  | .responder => 2 * ((L - 1) / 2) + 1

/-- The sending half of a state is in epoch `k`. -/
structure SendAt (root : Bytes) (a : ℕ → Seed) (k : ℕ) (s : DoubleRatchet) : Prop where
  rootKey : s.rootKey = rootAt P root (shared P a) k
  dhSk : s.dhSk = a k
  dhPk : s.dhPk = P.x25519Public (a k)
  ckSend : s.ckSend = chainKey P (chainAt P root (shared P a) k) s.nSend
  settled : s.needsSendRatchet = false

/-- The responder has not sent anything yet. -/
structure Pending (root : Bytes) (s : DoubleRatchet) : Prop where
  rootKey : s.rootKey = root
  nSend : s.nSend = 0
  due : s.needsSendRatchet = true

/-- The receiving half of a state on turn `t`, after the messages `O` were opened. -/
structure RecvAt (root : Bytes) (a : ℕ → Seed) (t : ℕ) (s : DoubleRatchet) (O : Finset (Bytes × ℕ)) :
    Prop where
  first : t = 0 → s.remoteDh = [] ∧ O = ∅
  remoteDh : ∀ k, t = k + 1 → s.remoteDh = P.x25519Public (a k)
  ckRecv : ∀ k, t = k + 1 → s.ckRecv = chainKey P (chainAt P root (shared P a) k) s.nRecv
  highWater : IsHighWater O s.remoteDh s.nRecv
  opened : ∀ x ∈ O, ∃ k, k < t ∧ k % 2 ≠ t % 2 ∧ x.1 = P.x25519Public (a k)
  every : ∀ k, k < t → k % 2 ≠ t % 2 → ∃ i, (P.x25519Public (a k), i) ∈ O
  keys : s.skipped.keys.toFinset = (gaps O).image fun x => skipKey x.1 x.2
  stored : ∀ k < t, ∀ i, (P.x25519Public (a k), i) ∈ gaps O →
    s.skipped.lookup (skipKey (P.x25519Public (a k)) i) =
      some (b64e (messageKey P (chainAt P root (shared P a) k) i))
  seen : ∀ id ∈ s.seen, ∃ x ∈ O, id = idText s.sessionId x.1 x.2

/-- The invariant of a run. -/
structure Inv (root : Bytes) (a : ℕ → Seed) (L : ℕ) (σ : Sys) : Prop where
  notRk : NotRk P root
  fresh : ∀ k ≤ L, P.x25519Public (a k) ∈ σ.used
  distinct : ∀ k ≤ L, ∀ l ≤ L, P.x25519Public (a k) = P.x25519Public (a l) → k = l
  pending : L = 0 → Pending root (σ.state .responder)
  sends : ∀ p, (L = 0 → p = .initiator) → SendAt P root a (turn L p) (σ.state p)
  recvs : ∀ p, RecvAt P root a (turn L p) (σ.state p) (σ.opened p)
  addressed : ∀ p, Addressed (σ.state p) (σ.state p.peer)
  msgs : ∀ m ∈ σ.log, ∃ k ≤ L, k % 2 = m.sender.bit ∧ SendAt P root a k m.state
  toPeer : ∀ m ∈ σ.log, Addressed m.state (σ.state m.sender.peer)
  wires : ∀ m ∈ σ.log, m.slot ∉ σ.opened m.sender.peer →
    ∃ r, m.wire = wire P m.state.sessionId (m.state.header m.n) (m.key P) m.state.hkSend r m.text
  slots : (σ.log.map Sent.slot).Nodup
  current : ∀ m ∈ σ.log, m.dh = P.x25519Public (a (turn L m.sender)) →
    m.n < (σ.state m.sender).nSend ∧ m.pn = (σ.state m.sender).pn
  previous : ∀ m ∈ σ.log, ∀ k, k + 2 = turn L m.sender → m.dh = P.x25519Public (a k) →
    m.n < (σ.state m.sender).pn
  pns : ∀ m ∈ σ.log, ∀ m' ∈ σ.log, ∀ k, k + 2 ≤ L → m.dh = P.x25519Public (a k) →
    m'.dh = P.x25519Public (a (k + 2)) → m.n < m'.pn
  gotLog : ∀ p, ∀ d ∈ σ.got p, σ.log[d.id]? = some d.msg ∧ d.msg.sender = p.peer
  results : ∀ p, ∀ d ∈ σ.got p, ∀ x, d.result = .ok x → x = d.msg.text
  order : σ.log.Pairwise fun m m' => m.sender = m'.sender → ∀ k ≤ L, ∀ l ≤ L,
    m.dh = P.x25519Public (a k) → m'.dh = P.x25519Public (a l) → k ≤ l

end SecChat
