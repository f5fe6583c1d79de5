import SecChat.Library.Deduction

/-!
# The symbolic model of a direct message

`secchat_dm.pv` describes one session: Bob publishes a signed bundle, Alice, who knows his identity
key, answers with a hybrid handshake and one message, and everything travels over a network that
belongs to the attacker.

* `Term`, `Reduc`, `rules`: the signature, and what the attacker can compute;
* `State`, `Step`: the process, one action after the other, in any order of the two parties;
* `Accessible`: an over-approximation of what the attacker knows, closed under the rules;
* `application_secret_secret`, `accepted_begun_received_sent`: the three queries, in every run.
-/

namespace SecchatDm

open Deduction

/-! ### Terms -/

inductive Typ
  | bitstring
  | sskey
  | spkey
  | kemsk
  | kempk
  | drkey

/-- The free names of the model and the names that the process creates. -/
inductive Name
  | Alice
  | Bob
  | secchat_pqxdh
  | mlkem1024
  | application_secret
  | alice_id_sk
  | bob_id_sk
  | bob_kem_sk
  | x25519_shared
  | kem_shared

/-- The free names that are not private. -/
def Name.free : Name → Prop
  | .Alice | .Bob | .secchat_pqxdh | .mlkem1024 => True
  | _ => False

def Name.typ : Name → Typ
  | .alice_id_sk | .bob_id_sk => .sskey
  | .bob_kem_sk => .kemsk
  | _ => .bitstring

/-- The terms.  `new` are the names of the attacker. -/
inductive Term
  | name (n : Name)
  | new (τ : Typ) (i : ℕ)
  | tuple (ts : List Term)
  | spk (k : Term)
  | sign (m k : Term)
  | kem_pk (k : Term)
  | kem_enc (pk ss : Term)
  | hkdf (x ss a b alg dom : Term)
  | aead_enc (m k : Term)

namespace Term

def typ : Term → Typ
  | name n => n.typ
  | new τ _ => τ
  | spk _ => .spkey
  | kem_pk _ => .kempk
  | hkdf .. => .drkey
  | tuple _ | sign .. | kem_enc .. | aead_enc .. => .bitstring

instance : Coe Name Term := ⟨name⟩

end Term

open Term Name

inductive Destructor
  | checksign
  | kem_dec
  | aead_dec

/-- `reduc`: what a destructor makes of its arguments. -/
inductive Reduc : Destructor → List Term → Term → Prop
  | checksign (m k : Term) : Reduc .checksign [sign m k, spk k] m
  | kem_dec (ss k : Term) : Reduc .kem_dec [kem_enc (kem_pk k) ss, k] ss
  | aead_dec (m k : Term) : Reduc .aead_dec [aead_enc m k, k] m

/-- What the attacker can compute: every function of the signature at arguments of its types, the
projections of a tuple, and names of its own. -/
inductive rules : Set (Rule Term)
  | free (n : Name) (h : n.free) : rules ⟨[], n⟩
  | new (τ : Typ) (i : ℕ) : rules ⟨[], new τ i⟩
  | tuple (ts : List Term) : rules ⟨ts, tuple ts⟩
  | proj (ts : List Term) (t : Term) (h : t ∈ ts) : rules ⟨[tuple ts], t⟩
  | spk (k : Term) (h : k.typ = .sskey) : rules ⟨[k], spk k⟩
  | sign (m k : Term) (h : m.typ = .bitstring ∧ k.typ = .sskey) : rules ⟨[m, k], sign m k⟩
  | kem_pk (k : Term) (h : k.typ = .kemsk) : rules ⟨[k], kem_pk k⟩
  | kem_enc (pk ss : Term) (h : pk.typ = .kempk ∧ ss.typ = .bitstring) :
      rules ⟨[pk, ss], kem_enc pk ss⟩
  | hkdf (x ss a b alg dom : Term) (h : ∀ t ∈ [x, ss, a, b, alg, dom], t.typ = .bitstring) :
      rules ⟨[x, ss, a, b, alg, dom], hkdf x ss a b alg dom⟩
  | aead_enc (m k : Term) (h : m.typ = .bitstring ∧ k.typ = .drkey) : rules ⟨[m, k], aead_enc m k⟩
  | reduc (d : Destructor) (ts : List Term) (t : Term) (h : Reduc d ts t) : rules ⟨ts, t⟩

/-! ### The process -/

def alice_id_pk : Term := spk alice_id_sk
def bob_id_pk : Term := spk bob_id_sk
def bob_kem_pk : Term := kem_pk bob_kem_sk

def bundle_body : Term := tuple [Bob, bob_id_pk, bob_kem_pk, mlkem1024, secchat_pqxdh]
def bundle_sig : Term := sign bundle_body bob_id_sk

/-- The root key of Alice. -/
def root : Term := hkdf x25519_shared kem_shared Alice Bob mlkem1024 secchat_pqxdh

/-- What Alice signs, for a KEM key that she has received. -/
def init_body (peer_kem_pk : Term) : Term :=
  tuple [Alice, Bob, x25519_shared, kem_enc peer_kem_pk kem_shared, mlkem1024, secchat_pqxdh]

inductive Event
  | bundle_published (b id_pk kem_pk alg : Term)
  | begin_handshake (a b k : Term)
  | accept_handshake (a b k : Term)
  | send_application (a b m : Term)
  | receive_application (a b m : Term)

/-- Where Alice is: before the action of this name. -/
inductive AliceAt
  | receive
  | begin_handshake (peer_kem_pk : Term)
  | sendInit (peer_kem_pk : Term)
  | send_application (peer_kem_pk : Term)
  | sendCt (peer_kem_pk : Term)
  | done (peer_kem_pk : Term)

/-- Where Bob is. -/
inductive BobAt
  | receiveInit
  | accept_handshake (root_r : Term)
  | receiveCt (root_r : Term)
  | receive_application (root_r app_plain : Term)
  | done

/-- Where the process is: the setup comes before the two parties run side by side. -/
inductive At
  | bundle_published
  | sendAlice
  | sendBob
  | par (alice : AliceAt) (bob : BobAt)

/-- The process, what went over the network, and the events in their order. -/
structure State where
  point : At
  net : Set Term
  events : List Event

/-- What the attacker knows. -/
def State.Knows (σ : State) (t : Term) : Prop := Derives rules σ.net t

def State.init : State := ⟨.bundle_published, ∅, []⟩

/-- One action. -/
inductive Step : State → State → Prop
  | bundle_published (net : Set Term) (es : List Event) :
      Step ⟨.bundle_published, net, es⟩
        ⟨.sendAlice, net, es ++ [.bundle_published Bob bob_id_pk bob_kem_pk mlkem1024]⟩
  | sendAlice (net : Set Term) (es : List Event) :
      Step ⟨.sendAlice, net, es⟩ ⟨.sendBob, insert (tuple [Alice, alice_id_pk]) net, es⟩
  | sendBob (net : Set Term) (es : List Event) :
      Step ⟨.sendBob, net, es⟩
        ⟨.par .receive .receiveInit,
          insert (tuple [Bob, bob_id_pk, bob_kem_pk, mlkem1024, secchat_pqxdh, bundle_sig]) net, es⟩
  | aliceReceive (b : BobAt) (net : Set Term) (es : List Event) (peer_kem_pk peer_bundle_sig : Term)
      (hknows : Derives rules net
        (tuple [Bob, bob_id_pk, peer_kem_pk, mlkem1024, secchat_pqxdh, peer_bundle_sig]))
      (htyp : peer_kem_pk.typ = .kempk ∧ peer_bundle_sig.typ = .bitstring)
      (hsig : Reduc .checksign [peer_bundle_sig, bob_id_pk]
        (tuple [Bob, bob_id_pk, peer_kem_pk, mlkem1024, secchat_pqxdh])) :
      Step ⟨.par .receive b, net, es⟩ ⟨.par (.begin_handshake peer_kem_pk) b, net, es⟩
  | begin_handshake (b : BobAt) (net : Set Term) (es : List Event) (peer_kem_pk : Term) :
      Step ⟨.par (.begin_handshake peer_kem_pk) b, net, es⟩
        ⟨.par (.sendInit peer_kem_pk) b, net, es ++ [.begin_handshake Alice Bob root]⟩
  | sendInit (b : BobAt) (net : Set Term) (es : List Event) (peer_kem_pk : Term) :
      Step ⟨.par (.sendInit peer_kem_pk) b, net, es⟩
        ⟨.par (.send_application peer_kem_pk) b,
          insert (tuple [init_body peer_kem_pk, sign (init_body peer_kem_pk) alice_id_sk]) net, es⟩
  | send_application (b : BobAt) (net : Set Term) (es : List Event) (peer_kem_pk : Term) :
      Step ⟨.par (.send_application peer_kem_pk) b, net, es⟩
        ⟨.par (.sendCt peer_kem_pk) b, net, es ++ [.send_application Alice Bob application_secret]⟩
  | sendCt (b : BobAt) (net : Set Term) (es : List Event) (peer_kem_pk : Term) :
      Step ⟨.par (.sendCt peer_kem_pk) b, net, es⟩
        ⟨.par (.done peer_kem_pk) b, insert (aead_enc application_secret root) net, es⟩
  | bobReceiveInit (a : AliceAt) (net : Set Term) (es : List Event)
      (init_body_r init_sig_r x25519_shared_r kem_ct_r kem_shared_r : Term)
      (hknows : Derives rules net (tuple [init_body_r, init_sig_r]))
      (htyp : ∀ t ∈ [init_body_r, init_sig_r, x25519_shared_r, kem_ct_r], t.typ = .bitstring)
      (hsig : Reduc .checksign [init_sig_r, alice_id_pk]
        (tuple [Alice, Bob, x25519_shared_r, kem_ct_r, mlkem1024, secchat_pqxdh]))
      (hkem : Reduc .kem_dec [kem_ct_r, bob_kem_sk] kem_shared_r) :
      Step ⟨.par a .receiveInit, net, es⟩
        ⟨.par a (.accept_handshake
          (hkdf x25519_shared_r kem_shared_r Alice Bob mlkem1024 secchat_pqxdh)), net, es⟩
  | accept_handshake (a : AliceAt) (net : Set Term) (es : List Event) (root_r : Term) :
      Step ⟨.par a (.accept_handshake root_r), net, es⟩
        ⟨.par a (.receiveCt root_r), net, es ++ [.accept_handshake Alice Bob root_r]⟩
  | bobReceiveCt (a : AliceAt) (net : Set Term) (es : List Event) (root_r app_ct app_plain : Term)
      (hknows : Derives rules net app_ct) (htyp : app_ct.typ = .bitstring)
      (hdec : Reduc .aead_dec [app_ct, root_r] app_plain) :
      Step ⟨.par a (.receiveCt root_r), net, es⟩
        ⟨.par a (.receive_application root_r app_plain), net, es⟩
  | receive_application (a : AliceAt) (net : Set Term) (es : List Event) (root_r app_plain : Term) :
      Step ⟨.par a (.receive_application root_r app_plain), net, es⟩
        ⟨.par a .done, net, es ++ [.receive_application Alice Bob app_plain]⟩

/-- A state that a run leads to. -/
abbrev Reachable (σ : State) : Prop := Relation.ReflTransGen Step State.init σ

/-! ### What the attacker knows at most -/

/-- The names that the attacker may come to know: Alice sends her X25519 value in the clear. -/
def Name.exposed (n : Name) : Prop := n.free ∨ n = .x25519_shared

/-- What can be computed when the terms of `H`, which the attacker may not be able to make, went over
the network. -/
inductive Accessible (H : Set Term) : Term → Prop
  | name (n : Name) (h : n.exposed) : Accessible H n
  | new (τ : Typ) (i : ℕ) : Accessible H (new τ i)
  | tuple (ts : List Term) (h : ∀ t ∈ ts, Accessible H t) : Accessible H (tuple ts)
  | spk (k : Term) : Accessible H (spk k)
  | sign (m k : Term) (hm : Accessible H m) (hk : Accessible H k) : Accessible H (sign m k)
  | kem_pk (k : Term) : Accessible H (kem_pk k)
  | kem_enc (pk ss : Term) (hpk : Accessible H pk) (hss : Accessible H ss) :
      Accessible H (kem_enc pk ss)
  | hkdf (x ss a b alg dom : Term) (h : ∀ t ∈ [x, ss, a, b, alg, dom], Accessible H t) :
      Accessible H (hkdf x ss a b alg dom)
  | aead_enc (m k : Term) (hm : Accessible H m) (hk : Accessible H k) : Accessible H (aead_enc m k)
  | honest (t : Term) (h : t ∈ H) : Accessible H t

/-- A term that the attacker can take apart only with a key. -/
def Opaque : Term → Prop
  | .sign .. | .kem_enc .. | .aead_enc .. => True
  | _ => False

/-- A term of `H` that keeps its secret. -/
def Guarded (H : Set Term) : Term → Prop
  | .sign m _ => Accessible H m
  | .kem_enc pk _ => ∀ k, pk = .kem_pk k → ¬ Accessible H k
  | .aead_enc _ k => ¬ Accessible H k
  | _ => False

variable {H : Set Term}

theorem Guarded.isOpaque {t : Term} (h : Guarded H t) : Opaque t := by
  cases t with
  | sign | kem_enc | aead_enc => trivial
  | name | new | tuple | spk | kem_pk | hkdf => exact h.elim

theorem accessible_name (hH : ∀ t ∈ H, Opaque t) (n : Name) : Accessible H n ↔ n.exposed := by
  constructor
  · intro h
    cases h with
    | name _ hn => exact hn
    | honest _ hmem => exact (hH _ hmem).elim
  · exact Accessible.name n

theorem Accessible.of_tuple (hH : ∀ t ∈ H, Opaque t) {ts : List Term}
    (h : Accessible H (.tuple ts)) : ∀ t ∈ ts, Accessible H t := by
  cases h with
  | tuple _ hts => exact hts
  | honest _ hmem => exact (hH _ hmem).elim

theorem Accessible.of_hkdf (hH : ∀ t ∈ H, Opaque t) {x ss a b alg dom : Term}
    (h : Accessible H (.hkdf x ss a b alg dom)) : Accessible H ss := by
  cases h with
  | hkdf _ _ _ _ _ _ hts => exact hts ss (by simp)
  | honest _ hmem => exact (hH _ hmem).elim

/-- A destructor gives nothing new. -/
theorem Accessible.reduc (hH : ∀ t ∈ H, Guarded H t) {ts : List Term} {t : Term}
    {d : Destructor} (h : Reduc d ts t) (hts : ∀ a ∈ ts, Accessible H a) : Accessible H t := by
  cases h with
  | checksign m k =>
    cases hts (.sign t k) (by simp) with
    | sign _ _ hm _ => exact hm
    | honest _ hmem => exact hH _ hmem
  | kem_dec ss k =>
    cases hts (.kem_enc (.kem_pk k) t) (by simp) with
    | kem_enc _ _ _ hss => exact hss
    | honest _ hmem => exact absurd (hts k (by simp)) (hH _ hmem k rfl)
  | aead_dec m k =>
    cases hts (.aead_enc t k) (by simp) with
    | aead_enc _ _ hm _ => exact hm
    | honest _ hmem => exact absurd (hts k (by simp)) (hH _ hmem)

/-- **No rule leads out of the accessible terms.** -/
theorem closed_accessible (hH : ∀ t ∈ H, Guarded H t) : Closed rules {t | Accessible H t} := by
  intro r hr h
  cases hr with
  | free n hfree => exact .name n (.inl hfree)
  | new τ i => exact .new τ i
  | tuple ts => exact .tuple ts h
  | proj ts t ht => exact (h _ (List.mem_singleton_self _)).of_tuple (fun a ha => (hH a ha).isOpaque) t ht
  | spk k _ => exact .spk k
  | sign m k _ => exact .sign m k (h m (by simp)) (h k (by simp))
  | kem_pk k _ => exact .kem_pk k
  | kem_enc pk ss _ => exact .kem_enc pk ss (h pk (by simp)) (h ss (by simp))
  | hkdf x ss a b alg dom _ => exact .hkdf x ss a b alg dom h
  | aead_enc m k _ => exact .aead_enc m k (h m (by simp)) (h k (by simp))
  | reduc d ts t ht => exact Accessible.reduc hH ht h

/-! ### The invariant -/

namespace AliceAt

/-- The KEM key that Alice has received. -/
def peer : AliceAt → Option Term
  | receive => none
  | begin_handshake pk | sendInit pk | send_application pk | sendCt pk | done pk => some pk

/-- The event of the handshake is behind her. -/
def Begun : AliceAt → Prop
  | receive | begin_handshake _ => False
  | _ => True

/-- The event of the message is behind her. -/
def Sent : AliceAt → Prop
  | sendCt _ | done _ => True
  | _ => False

/-- What she has put on the network so far and the attacker may not be able to make. -/
def honest : AliceAt → Set Term
  | receive | begin_handshake _ | sendInit _ => ∅
  | send_application pk | sendCt pk =>
    {sign (init_body pk) alice_id_sk, kem_enc pk kem_shared}
  | done pk =>
    {sign (init_body pk) alice_id_sk, kem_enc pk kem_shared, aead_enc application_secret root}

end AliceAt

/-- The signed bundle, and what Alice has sent. -/
def At.honest : At → Set Term
  | .par a _ => insert bundle_sig a.honest
  | _ => {bundle_sig}

/-- What an event needs before it. -/
inductive Needs : Event → Event → Prop
  | accept (a b k : Term) : Needs (.accept_handshake a b k) (.begin_handshake a b k)
  | receive (a b m : Term) : Needs (.receive_application a b m) (.send_application a b m)

/-- Every event has what it needs before it. -/
def Ordered (es : List Event) : Prop :=
  ∀ l e r e', es = l ++ e :: r → Needs e e' → e' ∈ l

theorem ordered_nil : Ordered [] := by
  intro l e r e' h
  simp at h

theorem Ordered.concat {es : List Event} (h : Ordered es) {e : Event}
    (he : ∀ e', Needs e e' → e' ∈ es) : Ordered (es ++ [e]) := by
  intro l x r e' heq hx
  rcases List.eq_nil_or_concat r with rfl | ⟨r', y, rfl⟩
  · obtain ⟨rfl, hxe⟩ := List.append_inj' heq rfl
    obtain rfl := (List.cons.inj hxe).1
    exact he e' hx
  · have heq' : es ++ [e] = (l ++ x :: r') ++ [y] := by simpa using heq
    exact h l x r' e' (List.append_inj' heq' rfl).1 hx

/-- The handshake has begun. -/
def begun : Event := .begin_handshake Alice Bob root

/-- The message has been sent. -/
def sent : Event := .send_application Alice Bob application_secret

/-- What Alice knows, and what she has done. -/
structure AliceOk (a : AliceAt) (es : List Event) : Prop where
  peer : ∀ pk ∈ a.peer, pk = bob_kem_pk
  begun : a.Begun → begun ∈ es
  sent : a.Sent → sent ∈ es

/-- What Bob has received. -/
def BobOk : BobAt → List Event → Prop
  | .receiveInit, _ | .done, _ => True
  | .accept_handshake root_r, es => root_r = root ∧ begun ∈ es
  | .receiveCt root_r, _ => root_r = root
  | .receive_application _ app_plain, es => app_plain = application_secret ∧ sent ∈ es

def At.Ok : At → List Event → Prop
  | .par a b, es => AliceOk a es ∧ BobOk b es
  | _, _ => True

/-- What holds in every state. -/
structure Inv (σ : State) : Prop where
  net : ∀ t ∈ σ.net, Accessible σ.point.honest t
  ok : σ.point.Ok σ.events
  ordered : Ordered σ.events

theorem AliceOk.concat {a : AliceAt} {es : List Event} (h : AliceOk a es) (e : Event) :
    AliceOk a (es ++ [e]) :=
  ⟨h.peer, fun hb => List.mem_append_left _ (h.begun hb),
    fun hs => List.mem_append_left _ (h.sent hs)⟩

theorem BobOk.concat {b : BobAt} {es : List Event} (h : BobOk b es) (e : Event) :
    BobOk b (es ++ [e]) := by
  cases b with
  | receiveInit | done => trivial
  | accept_handshake | receive_application => exact ⟨h.1, List.mem_append_left _ h.2⟩
  | receiveCt => exact h

theorem Accessible.mono {H' : Set Term} (hH : H ⊆ H') {t : Term} (h : Accessible H t) :
    Accessible H' t := by
  induction h with
  | name n hn => exact .name n hn
  | new τ i => exact .new τ i
  | tuple ts _ ih => exact .tuple ts ih
  | spk k => exact .spk k
  | sign m k _ _ hm hk => exact .sign m k hm hk
  | kem_pk k => exact .kem_pk k
  | kem_enc pk ss _ _ hpk hss => exact .kem_enc pk ss hpk hss
  | hkdf x ss a b alg dom _ ih => exact .hkdf x ss a b alg dom ih
  | aead_enc m k _ _ hm hk => exact .aead_enc m k hm hk
  | honest t ht => exact .honest t (hH ht)

theorem accessible_free (n : Name) (h : n.free) : Accessible H n := .name n (.inl h)

/-- What Bob signs is no secret. -/
theorem accessible_bundle_body : Accessible H bundle_body := by
  refine .tuple _ fun t ht => ?_
  simp only [List.mem_cons, List.not_mem_nil, or_false] at ht
  rcases ht with rfl | rfl | rfl | rfl | rfl
  · exact accessible_free _ trivial
  · exact .spk _
  · exact .kem_pk _
  · exact accessible_free _ trivial
  · exact accessible_free _ trivial

/-- Neither is what Alice signs, but for the encapsulated value. -/
theorem accessible_init_body {pk : Term} (h : kem_enc pk kem_shared ∈ H) :
    Accessible H (init_body pk) := by
  refine .tuple _ fun t ht => ?_
  simp only [List.mem_cons, List.not_mem_nil, or_false] at ht
  rcases ht with rfl | rfl | rfl | rfl | rfl | rfl
  · exact accessible_free _ trivial
  · exact accessible_free _ trivial
  · exact .name _ (.inr rfl)
  · exact .honest _ h
  · exact accessible_free _ trivial
  · exact accessible_free _ trivial

theorem not_accessible_name (hH : ∀ t ∈ H, Opaque t) {n : Name} (h : ¬ n.exposed) :
    ¬ Accessible H n := fun hn => h ((accessible_name hH n).mp hn)

/-- The root key stays a secret. -/
theorem not_accessible_root (hH : ∀ t ∈ H, Opaque t) : ¬ Accessible H root := fun h =>
  not_accessible_name hH (by simp [Name.exposed, Name.free]) (h.of_hkdf hH)

theorem AliceAt.honest_eq {a : AliceAt} {t : Term} (h : t ∈ a.honest) :
    ∃ pk ∈ a.peer, (t = .sign (init_body pk) alice_id_sk ∨ t = .kem_enc pk kem_shared ∨
      t = .aead_enc application_secret root) ∧ kem_enc pk kem_shared ∈ a.honest := by
  cases a with
  | receive | begin_handshake | sendInit => cases h
  | send_application pk | sendCt pk =>
    refine ⟨pk, rfl, ?_, .inr rfl⟩
    rcases h with rfl | rfl
    · exact .inl rfl
    · exact .inr (.inl rfl)
  | done pk => exact ⟨pk, rfl, h, .inr (.inl rfl)⟩

/-- **Everything that was sent keeps its secret.** -/
theorem At.guarded {p : At} {es : List Event} (h : p.Ok es) :
    ∀ t ∈ p.honest, Guarded p.honest t := by
  have hbundle : Guarded p.honest bundle_sig := accessible_bundle_body
  cases p with
  | bundle_published | sendAlice | sendBob =>
    rintro t rfl
    exact hbundle
  | par a b =>
    have hopaque : ∀ t ∈ (At.par a b).honest, Opaque t := by
      rintro t (rfl | ht)
      · trivial
      · obtain ⟨pk, -, rfl | rfl | rfl, -⟩ := AliceAt.honest_eq ht <;> trivial
    rintro t (rfl | ht)
    · exact hbundle
    · obtain ⟨pk, hpk, heq, hkem⟩ := AliceAt.honest_eq ht
      obtain rfl := h.1.peer pk hpk
      rcases heq with rfl | rfl | rfl
      · exact accessible_init_body (.inr hkem)
      · intro k hk
        obtain rfl := Term.kem_pk.inj hk
        exact not_accessible_name hopaque (by simp [Name.exposed, Name.free])
      · exact not_accessible_root hopaque

/-! ### One action -/

theorem Reduc.sign_eq {s k t : Term} (h : Reduc .checksign [s, .spk k] t) : s = .sign t k := by
  cases h
  rfl

theorem Reduc.kem_enc_eq {c k t : Term} (h : Reduc .kem_dec [c, k] t) :
    c = .kem_enc (.kem_pk k) t := by
  cases h
  rfl

theorem Reduc.aead_enc_eq {c k t : Term} (h : Reduc .aead_dec [c, k] t) : c = .aead_enc t k := by
  cases h
  rfl

variable {p : At} {es : List Event}

/-- A known signature with a private key is one that was sent. -/
theorem sign_sent (hH : ∀ t ∈ H, Opaque t) {m : Term} {n : Name} (hn : ¬ n.exposed)
    (h : Accessible H (.sign m n)) : .sign m n ∈ H := by
  cases h with
  | sign _ _ _ hk => exact absurd hk (not_accessible_name hH hn)
  | honest _ hmem => exact hmem

theorem opaque_honest (h : p.Ok es) : ∀ t ∈ p.honest, Opaque t := fun t ht =>
  (At.guarded h t ht).isOpaque

/-- **Alice accepts only Bob's KEM key.** -/
theorem peer_eq {b : BobAt} {pk sig : Term} (hok : (At.par .receive b).Ok es)
    (h : Accessible (At.par .receive b).honest
      (tuple [Bob, bob_id_pk, pk, mlkem1024, secchat_pqxdh, sig]))
    (hsig : Reduc .checksign [sig, bob_id_pk]
      (tuple [Bob, bob_id_pk, pk, mlkem1024, secchat_pqxdh])) :
    pk = bob_kem_pk := by
  obtain rfl := hsig.sign_eq
  have hopaque := opaque_honest hok
  have hsent := sign_sent hopaque (n := bob_id_sk) (by simp [Name.exposed, Name.free])
    (h.of_tuple hopaque _ (List.mem_of_getLast? rfl))
  rcases hsent with heq | hnone
  · have hbody := (Term.sign.inj heq).1
    simp only [bundle_body, Term.tuple.injEq, List.cons.injEq] at hbody
    exact hbody.2.2.1
  · cases hnone

/-- **Bob accepts only what Alice sent.** -/
theorem root_eq {a : AliceAt} {b : BobAt} {body sig x ct ss : Term} (hok : (At.par a b).Ok es)
    (h : Accessible (At.par a b).honest (tuple [body, sig]))
    (hsig : Reduc .checksign [sig, alice_id_pk]
      (tuple [Alice, Bob, x, ct, mlkem1024, secchat_pqxdh]))
    (hkem : Reduc .kem_dec [ct, bob_kem_sk] ss) :
    hkdf x ss Alice Bob mlkem1024 secchat_pqxdh = root ∧ begun ∈ es := by
  obtain rfl := hsig.sign_eq
  obtain rfl := hkem.kem_enc_eq
  have hopaque := opaque_honest hok
  have hsent := sign_sent hopaque (n := alice_id_sk) (by simp [Name.exposed, Name.free])
    (h.of_tuple hopaque _ (List.mem_of_getLast? rfl))
  rcases hsent with heq | hsent
  · cases (Term.sign.inj heq).2
  · have hbegun : a.Begun := by
      cases a with
      | receive | begin_handshake | sendInit => cases hsent
      | send_application | sendCt | done => trivial
    obtain ⟨pk, hpk, heq | heq | heq, -⟩ := AliceAt.honest_eq hsent
    · have hbody := (Term.sign.inj heq).1
      simp only [init_body, Term.tuple.injEq, List.cons.injEq] at hbody
      obtain ⟨-, -, rfl, hct, -⟩ := hbody
      obtain rfl := (Term.kem_enc.inj hct).2
      exact ⟨rfl, hok.1.begun hbegun⟩
    · cases heq
    · cases heq

/-- **Bob decrypts only the message of Alice.** -/
theorem plain_eq {a : AliceAt} {b : BobAt} {ct plain : Term} (hok : (At.par a b).Ok es)
    (h : Accessible (At.par a b).honest ct) (hdec : Reduc .aead_dec [ct, root] plain) :
    plain = application_secret ∧ sent ∈ es := by
  obtain rfl := hdec.aead_enc_eq
  cases h with
  | aead_enc _ _ _ hk => exact absurd hk (not_accessible_root (opaque_honest hok))
  | honest _ hmem =>
    rcases hmem with heq | hmem
    · cases heq
    · have hsent : a.Sent := by
        cases a with
        | receive | begin_handshake | sendInit => cases hmem
        | send_application | sendCt => rcases hmem with heq | heq <;> cases heq
        | done => trivial
      obtain ⟨pk, -, heq | heq | heq, -⟩ := AliceAt.honest_eq hmem
      · cases heq
      · cases heq
      · exact ⟨(Term.aead_enc.inj heq).1, hok.1.sent hsent⟩

theorem Inv.knows {σ : State} (h : Inv σ) {t : Term} (ht : Derives rules σ.net t) :
    Accessible σ.point.honest t :=
  ht.mem_of_closed (closed_accessible (At.guarded h.ok)) h.net

/-- **One action keeps the invariant.** -/
theorem Inv.step {σ σ' : State} (h : Inv σ) (hstep : Step σ σ') : Inv σ' := by
  cases hstep with
  | bundle_published net es =>
    exact ⟨h.net, trivial, h.ordered.concat fun e' he => by cases he⟩
  | sendAlice net es =>
    refine ⟨?_, trivial, h.ordered⟩
    rintro t (rfl | ht)
    · refine .tuple _ fun t ht => ?_
      simp only [List.mem_cons, List.not_mem_nil, or_false] at ht
      rcases ht with rfl | rfl
      · exact accessible_free _ trivial
      · exact .spk _
    · exact h.net t ht
  | sendBob net es =>
    have halice : AliceOk .receive es :=
      ⟨fun pk hpk => absurd hpk (Option.not_mem_none pk), False.elim, False.elim⟩
    refine ⟨?_, ⟨halice, trivial⟩, h.ordered⟩
    rintro t (rfl | ht)
    · refine .tuple _ fun t ht => ?_
      simp only [List.mem_cons, List.not_mem_nil, or_false] at ht
      rcases ht with rfl | rfl | rfl | rfl | rfl | rfl
      · exact accessible_free _ trivial
      · exact .spk _
      · exact .kem_pk _
      · exact accessible_free _ trivial
      · exact accessible_free _ trivial
      · exact .honest _ (.inl rfl)
    · exact (h.net t ht).mono fun t ht => .inl ht
  | aliceReceive b net es pk sig hknows _ hsig =>
    have hpk := peer_eq h.ok (h.knows hknows) hsig
    refine ⟨h.net, ⟨⟨?_, False.elim, False.elim⟩, h.ok.2⟩, h.ordered⟩
    intro pk' hpk'
    exact Option.some.inj hpk' ▸ hpk
  | begin_handshake b net es pk =>
    refine ⟨h.net, ⟨⟨h.ok.1.peer, fun _ => ?_, False.elim⟩, h.ok.2.concat _⟩,
      h.ordered.concat fun e' he => by cases he⟩
    exact List.mem_append_right _ (List.mem_singleton_self _)
  | sendInit b net es pk =>
    have hkem : kem_enc pk kem_shared ∈ (At.par (.send_application pk) b).honest := .inr (.inr rfl)
    refine ⟨?_, ⟨⟨h.ok.1.peer, fun _ => h.ok.1.begun trivial, False.elim⟩, h.ok.2⟩, h.ordered⟩
    rintro t (rfl | ht)
    · refine .tuple _ fun t ht => ?_
      simp only [List.mem_cons, List.not_mem_nil, or_false] at ht
      rcases ht with rfl | rfl
      · exact accessible_init_body hkem
      · exact .honest _ (.inr (.inl rfl))
    · exact (h.net t ht).mono (Set.insert_subset_insert (Set.empty_subset _))
  | send_application b net es pk =>
    refine ⟨h.net, ⟨⟨h.ok.1.peer, fun _ => ?_, fun _ => ?_⟩, h.ok.2.concat _⟩,
      h.ordered.concat fun e' he => by cases he⟩
    · exact List.mem_append_left _ (h.ok.1.begun trivial)
    · exact List.mem_append_right _ (List.mem_singleton_self _)
  | sendCt b net es pk =>
    refine ⟨?_, ⟨⟨h.ok.1.peer, fun _ => h.ok.1.begun trivial, fun _ => h.ok.1.sent trivial⟩,
      h.ok.2⟩, h.ordered⟩
    rintro t (rfl | ht)
    · exact .honest _ (.inr (.inr (.inr rfl)))
    · refine (h.net t ht).mono (Set.insert_subset_insert ?_)
      rintro t (rfl | rfl)
      · exact .inl rfl
      · exact .inr (.inl rfl)
  | bobReceiveInit a net es body sig x ct ss hknows _ hsig hkem =>
    exact ⟨h.net, ⟨h.ok.1, root_eq h.ok (h.knows hknows) hsig hkem⟩, h.ordered⟩
  | accept_handshake a net es root_r =>
    obtain ⟨rfl, hbegun⟩ := h.ok.2
    refine ⟨h.net, ⟨h.ok.1.concat _, rfl⟩, h.ordered.concat fun e' he => ?_⟩
    cases he
    exact hbegun
  | bobReceiveCt a net es root_r ct plain hknows _ hdec =>
    obtain rfl : root_r = root := h.ok.2
    exact ⟨h.net, ⟨h.ok.1, plain_eq h.ok (h.knows hknows) hdec⟩, h.ordered⟩
  | receive_application a net es root_r plain =>
    obtain ⟨rfl, hsent⟩ := h.ok.2
    refine ⟨h.net, ⟨h.ok.1.concat _, trivial⟩, h.ordered.concat fun e' he => ?_⟩
    cases he
    exact hsent

theorem inv_init : Inv State.init :=
  ⟨fun t ht => absurd ht (Set.notMem_empty t), trivial, ordered_nil⟩

theorem Reachable.inv {σ : State} (h : Reachable σ) : Inv σ := by
  induction h with
  | refl => exact inv_init
  | tail _ hstep ih => exact ih.step hstep

/-! ### The queries -/

/-- The session that the attacker leaves alone. -/
def completed : State where
  point := .par (.done bob_kem_pk) .done
  net := {aead_enc application_secret root,
    tuple [init_body bob_kem_pk, sign (init_body bob_kem_pk) alice_id_sk],
    tuple [Bob, bob_id_pk, bob_kem_pk, mlkem1024, secchat_pqxdh, bundle_sig],
    tuple [Alice, alice_id_pk]}
  events := [.bundle_published Bob bob_id_pk bob_kem_pk mlkem1024, .begin_handshake Alice Bob root,
    .send_application Alice Bob application_secret, .accept_handshake Alice Bob root,
    .receive_application Alice Bob application_secret]

/-- **It ends**, with the message received. -/
theorem reachable_completed : Reachable completed := by
  have hnet : insert (tuple [Alice, alice_id_pk]) (∅ : Set Term) = {tuple [Alice, alice_id_pk]} :=
    insert_empty_eq _
  refine .head (.bundle_published _ _) (.head (.sendAlice _ _) (.head (.sendBob _ _) ?_))
  refine .head (.aliceReceive _ _ _ bob_kem_pk bundle_sig (.known (.inl rfl)) ⟨rfl, rfl⟩
    (.checksign _ _)) ?_
  refine .head (.begin_handshake _ _ _ _) (.head (.sendInit _ _ _ _) ?_)
  refine .head (.send_application _ _ _ _) (.head (.sendCt _ _ _ _) ?_)
  refine .head (.bobReceiveInit _ _ _ (init_body bob_kem_pk) (sign (init_body bob_kem_pk) alice_id_sk)
    x25519_shared (kem_enc bob_kem_pk kem_shared) kem_shared (.known (.inr (.inl rfl))) ?_
    (.checksign _ _) (.kem_dec _ _)) ?_
  · intro t ht
    simp only [List.mem_cons, List.not_mem_nil, or_false] at ht
    rcases ht with rfl | rfl | rfl | rfl <;> rfl
  refine .head (.accept_handshake _ _ _ _) ?_
  refine .head (.bobReceiveCt _ _ _ _ (aead_enc application_secret root) application_secret
    (.known (.inl rfl)) rfl (.aead_dec _ _)) ?_
  refine .head (.receive_application _ _ _ _ _) ?_
  rw [hnet]
  exact .refl

/-- **Secrecy**: the attacker never comes to know the message, nor the root key. -/
theorem application_secret_secret {σ : State} (h : Reachable σ) :
    ¬ σ.Knows application_secret ∧ ¬ σ.Knows root := by
  have hopaque := opaque_honest h.inv.ok
  constructor
  · intro hk
    exact not_accessible_name hopaque (by simp [Name.exposed, Name.free]) (h.inv.knows hk)
  · intro hk
    exact not_accessible_root hopaque (h.inv.knows hk)

theorem completed_secret :
    ¬ completed.Knows application_secret ∧ ¬ completed.Knows root :=
  application_secret_secret reachable_completed

/-- **Authentication**: Bob accepts only a root key with which Alice has begun before, and receives
only a message that she has sent before. -/
theorem accepted_begun_received_sent {σ : State} (h : Reachable σ) :
    (∀ l r a b k, σ.events = l ++ .accept_handshake a b k :: r → .begin_handshake a b k ∈ l) ∧
    ∀ l r a b m, σ.events = l ++ .receive_application a b m :: r → .send_application a b m ∈ l :=
  ⟨fun l r a b k heq => h.inv.ordered l _ r _ heq (.accept a b k),
    fun l r a b m heq => h.inv.ordered l _ r _ heq (.receive a b m)⟩

theorem completed_authentic :
    Event.begin_handshake Alice Bob root ∈ completed.events.take 3 ∧
      Event.send_application Alice Bob application_secret ∈ completed.events.take 4 :=
  ⟨(accepted_begun_received_sent reachable_completed).1 _ _ _ _ _ rfl,
    (accepted_begun_received_sent reachable_completed).2 _ _ _ _ _ rfl⟩

end SecchatDm
