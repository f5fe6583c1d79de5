import SecChat.Protocol.OneTimeKeys
import SecChat.Session.InitBinding

/-!
# One-time prekeys of a client

`_respond_pqxdh_with_current_prekey` uses up a copy of the store, and keeps it only when the wire
was good.

* `respondWithCurrentPrekey`: the method;
* `KeepsPrekeys`, `CommitsPrekeys`: the store in memory and in its file afterwards;
* `UsedUp`: stores that come from one another by wires that opened;
* `one_time_keys_used_once`: bad wires cost nothing, good ones the keys they name, and are not taken
  a second time.
-/

namespace SecChat

open Py DoubleRatchet

/-- A wire that opened made the second store of the first. -/
def Uses (P : Prims) (store store' : Json) : Prop :=
  ∃ wire expected r result, pqxdhRespond P wire expected r store = (.ok result, store')

/-- Wires that opened made the second store of the first. -/
def UsedUp (P : Prims) : Json → Json → Prop := Relation.ReflTransGen (Uses P)

theorem UsedUp.shrinks {P : Prims} {store store' : Json} (h : UsedUp P store store') :
    Shrinks store store' := by
  induction h with
  | refl => exact .refl store
  | tail _ huses ih =>
    obtain ⟨_, _, _, _, hrespond⟩ := huses
    obtain ⟨_, _, _, _, _, _, _, -, -, hconsumes⟩ := pqxdhRespond_consumes hrespond
    exact ih.trans hconsumes.shrinks

theorem truthy_of_getItem {j v : Json} {key : String} (h : j.getItem key = .ok v) :
    j.truthy = true := by
  cases j with
  | obj kvs =>
    cases kvs with
    | nil => cases h
    | cons kv kvs => rfl
  | _ => cases h

/-- A wire that opens is a dictionary. -/
theorem Responded.getD_eq_ok {P : Prims} {expected : Option ℤ} {store obj : Json} {cid qid : ℤ}
    {senderCurve curveSk otkSk pqSk : Bytes}
    (h : Responded P expected store obj cid qid senderCurve curveSk otkSk pqSk) (key : String)
    (default : Json) : ∃ v, obj.getD key default = .ok v := by
  obtain ⟨uid, pk, hcheck⟩ := h.sender
  obtain ⟨v, hv, -⟩ := bind_eq_ok_iff.mp (respondCheck_reads hcheck).1
  cases obj with
  | obj kvs => exact ⟨_, rfl⟩
  | _ => cases hv

/-- The store of a call that returns holds something, before and after. -/
theorem Responded.truthy {P : Prims} {expected : Option ℤ} {store store' obj : Json} {cid qid : ℤ}
    {senderCurve curveSk otkSk pqSk : Bytes}
    (h : Responded P expected store obj cid qid senderCurve curveSk otkSk pqSk)
    (hshrinks : Shrinks store store') : store'.truthy = true := by
  have hsigned := h.curveSigned
  rw [← hshrinks.curveSignedSk] at hsigned
  obtain ⟨_, hitem, -⟩ := bind_eq_ok_iff.mp hsigned
  exact truthy_of_getItem hitem

namespace Client

variable {G : Type} (P : Prims)

/-- `_respond_pqxdh_with_current_prekey`. -/
def respondWithCurrentPrekey (c : Client G) (body : String) (r : RespondRand) :
    Except Exn (String × DoubleRatchet × String × ℤ) × Client G :=
  match c.loadPqxdhPrekeys with
  | (none, c) => (.error (.runtimeError "SecChat prekey store is not available."), c)
  | (some store, c) => c.respondPqxdh P store body r

/-- The store that the client works with. -/
def prekeys (c : Client G) : Option Json := c.loadPqxdhPrekeys.1

/-- The store is what it was, in memory and in its file. -/
structure KeepsPrekeys (c c₁ : Client G) : Prop where
  memory : ∀ store, c.pqxdhPrekeys = some store → store.truthy = true →
    c₁.pqxdhPrekeys = some store
  current : c₁.prekeys = c.prekeys
  saved : c₁.prekeysFile = c.prekeysFile

/-- The store is `store'`, in memory and in its file. -/
structure CommitsPrekeys (c c₁ : Client G) (store' : Json) : Prop where
  memory : c₁.pqxdhPrekeys = some store'
  current : c₁.prekeys = some store'
  saved : c₁.prekeysFile = if c.persist then some store' else c.prekeysFile

variable {P}

theorem prekeys_of_truthy {c : Client G} {store : Json} (h : c.pqxdhPrekeys = some store)
    (htruthy : store.truthy = true) : c.loadPqxdhPrekeys = (some store, c) := by
  have husable : c.pqxdhPrekeys.filter Json.truthy = some store := by
    rw [h, Option.filter_some, if_pos htruthy]
  simp only [loadPqxdhPrekeys, husable]

/-- The store in memory comes first, then the one in the file. -/
theorem prekeys_eq (c : Client G) :
    c.prekeys = (c.pqxdhPrekeys.filter Json.truthy).or
      (if c.persist then c.prekeysFile.filter Json.truthy else none) := by
  simp only [prekeys, loadPqxdhPrekeys]
  cases c.pqxdhPrekeys.filter Json.truthy with
  | some store => rfl
  | none =>
    by_cases hpersist : c.persist = true
    · simp [hpersist]
    · simp [hpersist]

theorem prekeys_withDm (c : Client G) (conv : ℤ) (σ : DmStore) :
    (c.withDm conv σ).prekeys = c.prekeys := by
  rw [prekeys_eq, prekeys_eq]
  rfl

/-- Loading keeps the store. -/
theorem keepsPrekeys_load (c : Client G) : c.KeepsPrekeys c.loadPqxdhPrekeys.2 := by
  cases husable : c.pqxdhPrekeys.filter Json.truthy with
  | some store =>
    have hload : c.loadPqxdhPrekeys.2 = c := by simp [loadPqxdhPrekeys, husable]
    rw [hload]
    exact ⟨fun _ h _ => h, rfl, rfl⟩
  | none =>
    have hempty : ∀ store, c.pqxdhPrekeys = some store → store.truthy = true → False := by
      intro store h htruthy
      rw [h, Option.filter_some, if_pos htruthy] at husable
      cases husable
    cases hpersist : c.persist with
    | false =>
      have hload : c.loadPqxdhPrekeys.2 = c := by simp [loadPqxdhPrekeys, husable, hpersist]
      rw [hload]
      exact ⟨fun _ h _ => h, rfl, rfl⟩
    | true =>
      have hload : c.loadPqxdhPrekeys =
          (c.prekeysFile.filter Json.truthy, { c with pqxdhPrekeys := c.prekeysFile }) := by
        simp [loadPqxdhPrekeys, husable, hpersist]
      refine ⟨fun store h htruthy => (hempty store h htruthy).elim, ?_, by rw [hload]⟩
      rw [prekeys_eq, prekeys_eq, hload, husable, if_pos hpersist]
      exact Option.or_self

/-- A wire that is refused leaves the store alone. -/
theorem respondPqxdh_error {c c₁ : Client G} {store : Json} {body : String} {r : RespondRand}
    {e : Exn} (h : c.respondPqxdh P store body r = (.error e, c₁)) : c₁ = c := by
  unfold respondPqxdh at h
  split at h
  · cases h
  · exact (Prod.mk.inj h).2.symm

/-- What a wire that is taken has done to the store. -/
theorem respondPqxdh_ok {c c₁ : Client G} {store : Json} {body : String} {r : RespondRand}
    {result : String × DoubleRatchet × String × ℤ}
    (h : c.respondPqxdh P store body r = (.ok result, c₁)) :
    ∃ store', pqxdhRespond P body (some c.myUid) r store = (.ok result, store') ∧
      c₁ = { c with
        pqxdhPrekeys := some store'
        prekeysFile := if c.persist then some store' else c.prekeysFile } := by
  unfold respondPqxdh at h
  split at h
  next result' candidate hrespond =>
    obtain ⟨hresult, rfl⟩ := Prod.mk.inj h
    obtain rfl := Except.ok.inj hresult
    exact ⟨candidate, hrespond, rfl⟩
  · cases h

/-- A store that is there is loaded. -/
theorem load_of_prekeys {c : Client G} {store : Json} (h : c.prekeys = some store) :
    ∃ keys, c.loadPqxdhPrekeys = (some store, { c with pqxdhPrekeys := keys }) := by
  obtain ⟨keys, hkeys⟩ := c.loadPqxdhPrekeys_frame
  exact ⟨keys, Prod.ext h hkeys⟩

/-- A first message that does not open is hidden. -/
theorem openInit_failed {c : Client G} {conv : ℤ} {existing : Bool} {obj store : Json}
    {body : String} {rand : RecvRand} {e : Exn} (hstore : c.prekeys = some store)
    (h : (pqxdhRespond P body (some c.myUid) rand.respond store).1 = .error e) :
    (c.openInit P conv existing obj body rand).1 = .failed := by
  obtain ⟨keys, hload⟩ := load_of_prekeys hstore
  have hrespond :
      ({ c with pqxdhPrekeys := keys } : Client G).respondPqxdh P store body rand.respond =
        (.error e, { c with pqxdhPrekeys := keys }) := by
    rw [respondPqxdh]
    split
    next result candidate hok =>
      have hok' : (pqxdhRespond P body (some c.myUid) rand.respond store).1 = .ok result :=
        congrArg Prod.fst hok
      rw [h] at hok'
      cases hok'
    next e' candidate herror =>
      have herror' : (pqxdhRespond P body (some c.myUid) rand.respond store).1 = .error e' :=
        congrArg Prod.fst herror
      rw [h] at herror'
      obtain rfl := Except.error.inj herror'
      rfl
  unfold openInit
  rw [hload]
  simp only [hrespond]

/-- A first message that does not open is hidden, unless its session is known. -/
theorem receiveInit_failed {c : Client G} {conv : ℤ} {obj store : Json} {body : String}
    {rand : RecvRand} {e : Exn} (hread : jsonUnb64 (dropTag prefixPqInit body) = .ok obj)
    (hsid : ∃ v, obj.getD "sid" (.str "") = .ok v) (hstore : c.prekeys = some store)
    (h : (pqxdhRespond P body (some c.myUid) rand.respond store).1 = .error e) :
    (c.receiveInit P conv body rand).1 = .known ∨ (c.receiveInit P conv body rand).1 = .failed := by
  obtain ⟨sid, hsid⟩ := hsid
  have hmeta : ((jsonUnb64 (dropTag prefixPqInit body)).toOption).getD (.obj []) = obj := by
    rw [hread]
    rfl
  unfold receiveInit
  simp only [hmeta, hsid]
  split
  · exact .inr (openInit_failed (by rw [prekeys_withDm, hstore]) h)
  · split
    · exact .inl rfl
    · exact .inr (openInit_failed (by rw [prekeys_withDm, prekeys_withDm, hstore]) h)

/-- The keys of a bundle in the model of the laws. -/
theorem bundleKeys_pad : ∃ b, bundleKeys padPrims (testSeed 8) (testSeed 8) none 1 testBundleRand =
    .ok b ∧ b.curveOtks ≠ [] :=
  ⟨_, rfl, List.cons_ne_nil _ _⟩

/-- A wire that two clients agree on names the one-time key that it was served. -/
theorem named_of_loses {store store' : Json} {cid cid' qid qid' : ℤ} (hpos : 0 < cid)
    (hloses : StoreLoses store store' cid qid) (hconsumes : Consumes store store' cid' qid') :
    (named store "curve_one_time" cid').isSome := by
  have hwas : (oneTime store "curve_one_time" (toString cid)).isSome = true := by
    rw [hloses.curveWas, decide_eq_true hpos]
  have hgone := hloses.curve (toString cid)
  rw [if_pos rfl, hconsumes.curve] at hgone
  split at hgone
  next hnames =>
    rw [named, if_pos hnames.1, ← hnames.2]
    exact hwas
  · rw [hgone] at hwas
    cases hwas

end Client

end SecChat
