import SecChat.Session.OneTimeUse

/-!
# Which messages wait for keys

`decrypt_live_message` answers `pending` where the session that opens a message is missing.  No
message that it takes makes it forget a session, so what can be opened once can be opened later.

* `HasCurrent`, `Knows`, `Loaded`: the sessions that a body is looked up in;
* `Grows`: what the bookkeeping of a conversation does to them;
* `WouldPend`: the messages that are answered `pending`;
* `receiveLive_pending_iff`, `receiveLive_grows`: what one message is answered, and what it leaves.
-/

namespace SecChat

open Py DoubleRatchet

namespace DmStore

/-! ### The sessions of a conversation -/

/-- There is a current session, in memory or in the file. -/
def HasCurrent (σ : DmStore) : Prop := σ.loadDoubleRatchet.1.isSome = true

/-- The session is in the map, or in the file that the map will be read from. -/
def Knows (σ : DmStore) (sid : String) : Prop := sid ∈ σ.readSessions.1

/-- The session is in the map. -/
def Loaded (σ : DmStore) (sid : String) : Prop :=
  ∃ sessions, σ.sessions = some sessions ∧ sid ∈ sessions

/-- Either there is a current session or the map is in memory, so that saving forgets nothing. -/
def Anchored (σ : DmStore) : Prop := σ.current.isSome = true ∨ σ.sessions.isSome = true

/-- No session is forgotten, unless there is a current one. -/
structure Grows (σ σ' : DmStore) : Prop where
  current : σ.HasCurrent → σ'.HasCurrent
  knows : ∀ sid, σ.Knows sid → σ'.HasCurrent ∨ σ'.Knows sid
  loaded : ∀ sid, σ.Loaded sid → σ'.Loaded sid

theorem Grows.refl (σ : DmStore) : σ.Grows σ := ⟨id, fun _ h => .inr h, fun _ h => h⟩

theorem Grows.trans {σ₁ σ₂ σ₃ : DmStore} (h : σ₁.Grows σ₂) (h' : σ₂.Grows σ₃) : σ₁.Grows σ₃ where
  current hc := h'.current (h.current hc)
  knows sid hk := by
    rcases h.knows sid hk with hc | hk
    · exact .inl (h'.current hc)
    · exact h'.knows sid hk
  loaded sid hl := h'.loaded sid (h.loaded sid hl)

theorem Loaded.knows {σ : DmStore} {sid : String} (h : σ.Loaded sid) : σ.Knows sid := by
  obtain ⟨sessions, hsome, hmem⟩ := h
  show sid ∈ σ.readSessions.1
  rw [readSessions, hsome]
  exact hmem

theorem hasCurrent_of_some {σ : DmStore} (h : σ.current.isSome = true) : σ.HasCurrent := by
  obtain ⟨r, hr⟩ := Option.isSome_iff_exists.mp h
  show σ.loadDoubleRatchet.1.isSome = true
  rw [loadDoubleRatchet, hr]
  rfl

/-- Where there is no current session, loading it changes nothing. -/
theorem loadDoubleRatchet_of_not {σ : DmStore} (h : ¬ σ.HasCurrent) :
    σ.current = none ∧ σ.loadDoubleRatchet = (none, σ) := by
  cases hc : σ.current with
  | some r => exact absurd (hasCurrent_of_some (by rw [hc]; rfl)) h
  | none =>
    refine ⟨rfl, ?_⟩
    unfold HasCurrent at h
    unfold loadDoubleRatchet at h ⊢
    rw [hc] at h ⊢
    simp only at h ⊢
    split
    next item _ _ =>
      split
      next s hs => simp_all
      next => rfl
    next => rfl

/-- The current session depends on nothing but its two places. -/
theorem HasCurrent.congr {σ σ' : DmStore} (h : σ.HasCurrent) (hcurrent : σ'.current = σ.current)
    (hpersist : σ'.persist = σ.persist) (hfile : σ'.drFile = σ.drFile) : σ'.HasCurrent := by
  by_contra hnot
  obtain ⟨hnone, hload⟩ := loadDoubleRatchet_of_not hnot
  apply hnot
  unfold HasCurrent loadDoubleRatchet at h ⊢
  rw [hcurrent, hpersist, hfile]
  rw [hcurrent] at hnone
  rw [hnone] at h ⊢
  simp only at h ⊢
  split
  next item hp hf =>
    rw [hp, hf] at h
    simp only at h
    cases hs : fromDict item with
    | ok s => rfl
    | error e => rw [hs] at h; cases h
  next hne =>
    split at h
    next item hp hf => exact absurd hf (hne item hp)
    next => cases h

/-- The keys that are read off the file do not depend on the objects in memory. -/
theorem mem_readItems_congr (items : List (String × Json)) (sid : String) :
    ∀ {σ σ' : DmStore} {m m' : AList fun _ : String => Ref}, (∀ k, k ∈ m ↔ k ∈ m') →
      (sid ∈ (σ.readItems m items).1 ↔ sid ∈ (σ'.readItems m' items).1) := by
  induction items with
  | nil => exact fun h => h sid
  | cons item items ih =>
    intro σ σ' m m' h
    obtain ⟨key, value⟩ := item
    unfold readItems
    split
    · cases fromDict value with
      | error e => exact h sid
      | ok s =>
        apply ih
        intro k
        rw [AList.mem_insert, AList.mem_insert, h k]
    · exact ih h

/-- Reading the items makes new objects and changes nothing else. -/
theorem readItems_frame (items : List (String × Json)) :
    ∀ (σ : DmStore) (m : AList fun _ : String => Ref), ∃ heap next,
      (σ.readItems m items).2 = { σ with heap := heap, next := next } ∧
        ∀ r < σ.next, heap r = σ.heap r := by
  induction items with
  | nil => exact fun σ _ => ⟨σ.heap, σ.next, rfl, fun _ _ => rfl⟩
  | cons item items ih =>
    intro σ m
    obtain ⟨key, value⟩ := item
    unfold readItems
    split
    · cases fromDict value with
      | error e => exact ⟨σ.heap, σ.next, rfl, fun _ _ => rfl⟩
      | ok s =>
        obtain ⟨heap, next, h, hold⟩ := ih (σ.alloc s).2 (m.insert key (σ.alloc s).1)
        refine ⟨heap, next, h, fun r hr => ?_⟩
        rw [hold r (Nat.lt_succ_of_lt hr)]
        exact Function.update_of_ne (Nat.ne_of_lt hr) _ _
    · exact ih σ m

theorem readSessions_frame (σ : DmStore) : ∃ heap next,
    σ.readSessions.2 = { σ with heap := heap, next := next } ∧
      ∀ r < σ.next, heap r = σ.heap r := by
  unfold readSessions
  split
  · exact ⟨σ.heap, σ.next, rfl, fun _ _ => rfl⟩
  · split
    · exact readItems_frame _ σ ∅
    · exact ⟨σ.heap, σ.next, rfl, fun _ _ => rfl⟩

/-- Objects in memory are made and changed. -/
theorem Grows.objects (σ : DmStore) (heap : Ref → DoubleRatchet) (next : Ref) :
    σ.Grows { σ with heap := heap, next := next } where
  current h := h.congr rfl rfl rfl
  knows sid h := by
    right
    unfold Knows readSessions at h ⊢
    cases hs : σ.sessions with
    | some sessions =>
      rw [hs] at h
      exact h
    | none =>
      simp only [hs] at h ⊢
      split
      next items hp hf =>
        rw [hp, hf] at h
        exact (mem_readItems_congr items sid fun _ => Iff.rfl).mp h
      next hne =>
        split at h
        next items hp hf => exact absurd hf (hne items hp)
        next => exact h
  loaded _ h := h

/-- There is a current session afterwards. -/
theorem Grows.of_current {σ σ' : DmStore} (h : σ'.current.isSome = true)
    (hloaded : ∀ sid, σ.Loaded sid → σ'.Loaded sid) : σ.Grows σ' :=
  ⟨fun _ => hasCurrent_of_some h, fun _ _ => .inl (hasCurrent_of_some h), hloaded⟩

/-- The map is in memory afterwards, with every session that was known. -/
theorem Grows.of_sessions {σ σ' : DmStore} {sessions : AList fun _ : String => Ref}
    (hcurrent : σ.HasCurrent → σ'.HasCurrent) (h : σ'.sessions = some sessions)
    (hknown : ∀ sid, σ.Knows sid → sid ∈ sessions) : σ.Grows σ' where
  current := hcurrent
  knows sid hk := .inr (Loaded.knows ⟨sessions, h, hknown sid hk⟩)
  loaded sid hl := ⟨sessions, h, hknown sid hl.knows⟩

/-! ### The bookkeeping -/

theorem loadDoubleRatchet_grows (σ : DmStore) : σ.Grows σ.loadDoubleRatchet.2 := by
  by_cases h : σ.HasCurrent
  · unfold HasCurrent at h
    unfold loadDoubleRatchet at h ⊢
    split
    · exact .refl σ
    · split
      next item _ _ =>
        split
        · exact .of_current rfl fun _ hl => hl
        · exact .refl σ
      next => exact .refl σ
  · rw [(loadDoubleRatchet_of_not h).2]
    exact .refl σ

theorem mem_overlay {σ : DmStore} {m : AList fun _ : String => Ref} {sid : String} (h : sid ∈ m) :
    sid ∈ σ.overlay m := by
  unfold overlay
  split
  · split
    · exact AList.mem_insert _ |>.mpr (.inr h)
    · exact h
  · exact h

/-- What loading the map leaves. -/
theorem loadSessions_frame (σ : DmStore) : ∃ heap next, σ.loadSessions.2 =
    { σ with heap := heap, next := next, sessions := some σ.loadSessions.1 } ∧
      ∀ r < σ.next, heap r = σ.heap r := by
  obtain ⟨heap, next, h, hold⟩ := σ.readSessions_frame
  refine ⟨heap, next, ?_, hold⟩
  simp only [loadSessions, h]

theorem mem_loadSessions {σ : DmStore} {sid : String} (h : σ.Knows sid) : sid ∈ σ.loadSessions.1 :=
  mem_overlay h

theorem loadSessions_sessions (σ : DmStore) : σ.loadSessions.2.sessions = some σ.loadSessions.1 := by
  obtain ⟨heap, next, h, -⟩ := σ.loadSessions_frame
  rw [h]

theorem loadSessions_grows (σ : DmStore) : σ.Grows σ.loadSessions.2 := by
  refine .of_sessions (fun hc => ?_) σ.loadSessions_sessions fun sid hk => mem_loadSessions hk
  obtain ⟨heap, next, h, -⟩ := σ.loadSessions_frame
  rw [h]
  exact hc.congr rfl rfl rfl

/-- Where there is no current session, the map is what is read. -/
theorem loadSessions_of_not {σ : DmStore} (h : ¬ σ.HasCurrent) :
    σ.loadSessions.1 = σ.readSessions.1 := by
  obtain ⟨heap, next, hread, -⟩ := σ.readSessions_frame
  simp only [loadSessions, hread, overlay, (loadDoubleRatchet_of_not h).1]

/-- Where there is no current session, loading the map makes none known. -/
theorem loadSessions_fixes {σ : DmStore} (h : ¬ σ.HasCurrent) :
    ¬ σ.loadSessions.2.HasCurrent ∧ ∀ sid, σ.loadSessions.2.Knows sid → σ.Knows sid := by
  obtain ⟨heap, next, hframe, -⟩ := σ.loadSessions_frame
  constructor
  · intro hc
    rw [hframe] at hc
    exact h (hc.congr rfl rfl rfl)
  · intro sid hk
    rw [Knows, readSessions, loadSessions_sessions, loadSessions_of_not h] at hk
    exact hk

theorem remember_grows (σ : DmStore) (r : Ref) : σ.Grows (σ.remember r) := by
  unfold remember
  split
  · exact .refl σ
  · apply σ.loadSessions_grows.trans
    apply Grows.of_sessions _ rfl
    · intro sid hk
      have hread : σ.loadSessions.2.readSessions.1 = σ.loadSessions.1 := by
        rw [readSessions, loadSessions_sessions]
      rw [Knows, hread] at hk
      exact AList.mem_insert _ |>.mpr (.inr hk)
    · exact fun hc => hc.congr rfl rfl rfl

theorem remember?_grows (σ : DmStore) (r : Option Ref) : σ.Grows (σ.remember? r) := by
  cases r with
  | none => exact .refl σ
  | some r => exact σ.remember_grows r

theorem saveSessions_grows {σ : DmStore} (h : σ.Anchored) : σ.Grows σ.saveSessions := by
  unfold saveSessions
  dsimp only
  split
  · exact .refl σ
  · cases hs : σ.sessions with
    | some sessions =>
      refine .of_sessions (fun hc => hc.congr rfl rfl rfl) rfl fun sid hk => ?_
      rw [Knows, readSessions, hs] at hk
      exact mem_overlay hk
    | none =>
      have hcurrent : σ.current.isSome = true := by
        rcases h with h | h
        · exact h
        · rw [hs] at h
          cases h
      refine .of_current hcurrent ?_
      rintro sid ⟨sessions, hsome, -⟩
      rw [hs] at hsome
      cases hsome

theorem saveDoubleRatchet_grows (σ : DmStore) : σ.Grows σ.saveDoubleRatchet := by
  unfold saveDoubleRatchet
  split
  · exact .refl σ
  next r hr =>
    have hcurrent : σ.current.isSome = true := by rw [hr]; rfl
    split
    · exact .refl σ
    · have hsaved : σ.Grows { σ with drFile := some (σ.heap r).toDict } :=
        .of_current hcurrent fun _ hl => hl
      exact hsaved.trans (saveSessions_grows (.inl hcurrent))

theorem choose_grows (σ : DmStore) {r : Option Ref} (h : r.isSome = true) :
    σ.Grows { σ with current := r } := .of_current h fun _ hl => hl

theorem selectCanonical_grows (σ : DmStore) (candidate : Option Ref) :
    σ.Grows (σ.selectCanonical candidate).2 := by
  have hloads := ((σ.loadDoubleRatchet_grows.trans (remember?_grows _ σ.loadDoubleRatchet.1)).trans
    (remember?_grows _ candidate)).trans (loadSessions_grows _)
  unfold selectCanonical
  dsimp only
  split
  · exact hloads
  next sid hmin =>
    have hkey := List.min?_mem hmin
    have hchosen := AList.lookup_isSome.mpr (AList.mem_keys.mpr hkey)
    exact (hloads.trans (choose_grows _ hchosen)).trans (saveDoubleRatchet_grows _)

/-! ### Messages -/

/-- Whether `_state_for_double_ratchet_wire` finds a session. -/
theorem stateForWire_eq_none_iff {σ : DmStore} {body : String} :
    (σ.stateForWire body).1 = none ↔
      ¬ σ.HasCurrent ∧ (wireSid body = "" ∨ ¬ σ.Knows (wireSid body)) := by
  by_cases hc : σ.HasCurrent
  · obtain ⟨r, hr⟩ := Option.isSome_iff_exists.mp hc
    have hsome : (σ.stateForWire body).1 ≠ none := by
      unfold stateForWire
      simp only [hr]
      split
      · simp
      · split <;> simp
    simp [hc, hsome]
  · obtain ⟨-, hload⟩ := loadDoubleRatchet_of_not hc
    have hsessions := loadSessions_of_not hc
    have hstate : (σ.stateForWire body).1 =
        if wireSid body ≠ "" then σ.readSessions.1.lookup (wireSid body) else none := by
      unfold stateForWire
      simp only [hload, Option.any_none, Bool.false_eq_true, if_false, hsessions]
      split
      next r hr => exact hr.symm
      next hr => exact hr.symm
    rw [hstate]
    by_cases hsid : wireSid body = ""
    · simp [hc, hsid]
    · rw [if_pos hsid, AList.lookup_eq_none]
      simp [hc, hsid, Knows]

/-- Where no session is found the sessions stay what they are. -/
theorem stateForWire_of_none {σ : DmStore} {body : String} (h : (σ.stateForWire body).1 = none) :
    (σ.stateForWire body).2 = σ.loadSessions.2 := by
  have hc := (stateForWire_eq_none_iff.mp h).1
  obtain ⟨-, hload⟩ := loadDoubleRatchet_of_not hc
  unfold stateForWire
  simp only [hload, Option.any_none, Bool.false_eq_true, if_false]
  split <;> rfl

theorem stateForWire_grows (σ : DmStore) (body : String) : σ.Grows (σ.stateForWire body).2 := by
  have hcurrent := σ.loadDoubleRatchet_grows
  have hsessions := hcurrent.trans (loadSessions_grows _)
  unfold stateForWire
  dsimp only
  split
  · exact hcurrent
  · split
    · exact hsessions
    · exact hsessions

theorem loadDoubleRatchet_current {σ : DmStore} {r : Ref} (h : σ.loadDoubleRatchet.1 = some r) :
    σ.loadDoubleRatchet.2.current = some r := by
  unfold loadDoubleRatchet at h ⊢
  split
  next r' hr' =>
    rw [hr'] at h
    rw [hr', ← h]
  next hnone =>
    rw [hnone] at h
    simp only at h
    split
    next item hp hf =>
      rw [hp, hf] at h
      simp only at h
      cases hs : fromDict item with
      | ok s =>
        rw [hs] at h
        exact h
      | error e =>
        rw [hs] at h
        cases h
    next hne =>
      split at h
      next item hp hf => exact absurd hf (hne item hp)
      next => cases h

/-- A session that is found is in memory. -/
theorem stateForWire_anchored {σ : DmStore} {body : String} {r : Ref}
    (h : (σ.stateForWire body).1 = some r) : (σ.stateForWire body).2.Anchored := by
  unfold stateForWire at h ⊢
  dsimp only at h ⊢
  split
  next hmine =>
    rw [if_pos hmine] at h
    left
    rw [loadDoubleRatchet_current h]
    rfl
  next =>
    right
    split
    · rw [loadSessions_sessions]
      rfl
    · rw [loadSessions_sessions]
      rfl

theorem keep_grows {σ : DmStore} (h : σ.Anchored) (r : Ref) : σ.Grows (σ.keep r) := by
  unfold keep
  split
  · exact σ.saveDoubleRatchet_grows
  · refine (σ.remember_grows r).trans (saveSessions_grows ?_)
    unfold remember
    split
    · exact h
    · exact .inr rfl

theorem restore_grows {σ : DmStore} (h : σ.Anchored) (r : Ref) (sid : String)
    (snapshot : DoubleRatchet) : σ.Grows (σ.restore r sid snapshot) := by
  have halloc : σ.Grows (σ.alloc snapshot).2 := .objects σ _ _
  apply halloc.trans
  unfold restore
  dsimp only
  split
  · exact .of_current rfl fun _ hl => hl
  · split
    · cases hs : σ.sessions with
      | some sessions =>
        refine .of_sessions (fun hc => hc.congr rfl rfl rfl) rfl fun sid' hk => ?_
        have hread : (σ.alloc snapshot).2.readSessions.1 = sessions := by
          unfold readSessions alloc
          simp only [hs]
        rw [Knows, hread] at hk
        simp only [alloc, hs, Option.getD_some]
        exact AList.mem_insert _ |>.mpr (.inr hk)
      | none =>
        have hcurrent : σ.current.isSome = true := by
          rcases h with h | h
          · exact h
          · rw [hs] at h
            cases h
        refine .of_current hcurrent ?_
        rintro sid' ⟨sessions, hsome, -⟩
        rw [alloc, hs] at hsome
        cases hsome
    · exact .refl _

variable {P : Prims}

/-- An `S3DR` body waits for its session. -/
theorem decryptWire_eq_pending_iff {σ : DmStore} (sk : Seed) {body : String} :
    (σ.decryptWire P sk body).1 = .pending ↔ (σ.stateForWire body).1 = none := by
  unfold decryptWire
  dsimp only
  split
  next h => simp [h]
  next r h =>
    simp only [h, reduceCtorEq, iff_false]
    split
    · simp
    · split <;> simp

/-- An `S3DR` body takes away no session. -/
theorem decryptWire_grows (σ : DmStore) (sk : Seed) (body : String) :
    σ.Grows (σ.decryptWire P sk body).2 := by
  have hfound := σ.stateForWire_grows body
  unfold decryptWire
  dsimp only
  split
  · exact hfound
  next r hr =>
    have hanchored := stateForWire_anchored hr
    split
    · exact hfound
    · split
      next plain s' _ =>
        refine (hfound.trans (.objects _ (Function.update _ r s') _)).trans (keep_grows ?_ r)
        exact hanchored
      next e s' _ =>
        refine (hfound.trans (.objects _ (Function.update _ r s') _)).trans (restore_grows ?_ r _ _)
        exact hanchored

theorem install_grows (σ : DmStore) (s : DoubleRatchet) : σ.Grows (σ.install s) := by
  have halloc : σ.Grows (σ.alloc s).2 := .objects σ _ _
  exact ((halloc.trans (remember_grows _ _)).trans (selectCanonical_grows _ _)).trans
    (saveDoubleRatchet_grows _)

/-- A new session is in the map. -/
theorem install_loaded {σ : DmStore} {s : DoubleRatchet} (h : s.sessionId ≠ "") :
    (σ.install s).Loaded s.sessionId := by
  have hid : ((σ.alloc s).2.heap (σ.alloc s).1).sessionId = s.sessionId := by simp [alloc]
  obtain ⟨heap, next, hframe, hold⟩ := (σ.alloc s).2.loadSessions_frame
  have hkept : ((σ.alloc s).2.loadSessions.2.heap (σ.alloc s).1).sessionId = s.sessionId := by
    rw [hframe]
    have hnew := hold (σ.alloc s).1 (Nat.lt_succ_self σ.next)
    show (heap (σ.alloc s).1).sessionId = s.sessionId
    rw [hnew, hid]
  have hremembered : ((σ.alloc s).2.remember (σ.alloc s).1).Loaded s.sessionId := by
    unfold remember
    rw [hid, if_neg h]
    exact ⟨_, rfl, AList.mem_insert _ |>.mpr (.inl hkept.symm)⟩
  exact ((selectCanonical_grows _ _).trans (saveDoubleRatchet_grows _)).loaded _ hremembered

end DmStore

namespace Client

variable {G : Type} {P : Prims} {A : MlsApp G}

/-- The `sid` of an `S3PQI` body, empty for none. -/
def initSid (text : String) : Except Exn String := do
  let meta_ := ((jsonUnb64 (dropTag prefixPqInit text)).toOption).getD (.obj [])
  return ((← meta_.getD "sid" (.str "")).orElse (.str "")).toStr

/-- An `S3PQI` body of somebody else waits for prekeys: its session is not known, and there is no
other one. -/
def InitPends (c : Client G) (conv sender : ℤ) (text : String) : Prop :=
  sender ≠ c.myUid ∧ ¬ (c.dm conv).HasCurrent ∧ c.prekeys = none ∧
    ∃ sid, initSid text = .ok sid ∧ (sid = "" ∨ ¬ (c.dm conv).Knows sid)

/-- An `S3DR` body of somebody else waits for its session, and there is no other one to try. -/
def WirePends (c : Client G) (conv sender : ℤ) (text : String) : Prop :=
  ¬ (0 < sender ∧ sender = c.myUid) ∧ ¬ (c.dm conv).HasCurrent ∧
    (DmStore.wireSid text = "" ∨ ¬ (c.dm conv).Knows (DmStore.wireSid text))

/-- The bodies that are answered `pending`. -/
def WouldPend (c : Client G) (conv sender : ℤ) : Json → Prop
  | .str text =>
      if text.startsWith prefixPqInit then c.InitPends conv sender text
      else text.startsWith prefixDr ∧ c.WirePends conv sender text
  | _ => False

/-- What a delivery of the conversation leaves: no session is forgotten, and prekeys stay. -/
structure Advances (c c' : Client G) (conv : ℤ) : Prop where
  sessions : (c.dm conv).Grows (c'.dm conv)
  prekeys : c.prekeys.isSome = true → c'.prekeys.isSome = true
  uid : c'.myUid = c.myUid

theorem Advances.refl (c : Client G) (conv : ℤ) : c.Advances c conv := ⟨.refl _, id, rfl⟩

theorem Advances.trans {c₁ c₂ c₃ : Client G} {conv : ℤ} (h : c₁.Advances c₂ conv)
    (h' : c₂.Advances c₃ conv) : c₁.Advances c₃ conv :=
  ⟨h.sessions.trans h'.sessions, fun hp => h'.prekeys (h.prekeys hp), h'.uid.trans h.uid⟩

/-- What is not answered `pending` will not be later. -/
theorem Advances.wouldPend {c c' : Client G} {conv sender : ℤ} {body : Json}
    (h : c.Advances c' conv) (hpend : c'.WouldPend conv sender body) :
    c.WouldPend conv sender body := by
  have hknown : ¬ (c'.dm conv).HasCurrent → ∀ sid, ¬ (c'.dm conv).Knows sid →
      ¬ (c.dm conv).Knows sid := by
    intro hc sid hk hold
    rcases h.sessions.knows sid hold with hcurrent | hk'
    · exact hc hcurrent
    · exact hk hk'
  cases body with
  | str text =>
    simp only [WouldPend] at hpend ⊢
    split
    next htag =>
      rw [if_pos htag] at hpend
      obtain ⟨huid, hc, hkeys, sid, hsid, hk⟩ := hpend
      refine ⟨h.uid ▸ huid, fun hold => hc (h.sessions.current hold), ?_, sid, hsid,
        hk.imp_right (hknown hc sid)⟩
      by_contra hsome
      have hkept := h.prekeys (Option.isSome_iff_ne_none.mpr hsome)
      rw [hkeys] at hkept
      cases hkept
    next htag =>
      rw [if_neg htag] at hpend
      obtain ⟨hdr, huid, hc, hk⟩ := hpend
      exact ⟨hdr, h.uid ▸ huid, fun hold => hc (h.sessions.current hold),
        hk.imp_right (hknown hc _)⟩
  | _ => exact hpend.elim

theorem advances_withDm (c : Client G) {conv : ℤ} {σ : DmStore} (h : (c.dm conv).Grows σ) :
    c.Advances (c.withDm conv σ) conv where
  sessions := by
    show (c.dm conv).Grows (Function.update c.dm conv σ conv)
    rw [Function.update_self]
    exact h
  prekeys hp := by rwa [prekeys_withDm]
  uid := rfl

@[simp] theorem withDm_dm_self (c : Client G) (conv : ℤ) (σ : DmStore) :
    (c.withDm conv σ).dm conv = σ := Function.update_self ..

theorem load_advances (c : Client G) (conv : ℤ) : c.Advances c.loadPqxdhPrekeys.2 conv := by
  have hkept := c.keepsPrekeys_load.current
  obtain ⟨keys, h⟩ := c.loadPqxdhPrekeys_frame
  rw [h] at hkept ⊢
  exact ⟨.refl _, fun hp => by rwa [hkept], rfl⟩

/-- A session that is accepted is installed. -/
theorem acceptInit_advances {c c' : Client G} {conv : ℤ} {meta_ : Json} {state : DoubleRatchet}
    {fp : String} {uid now : ℤ} {peer : PeerInfo}
    (h : c.acceptInit conv meta_ state fp uid now = .ok (peer, c')) :
    c.Advances c' conv ∧ c'.dm conv = (c.dm conv).install state := by
  unfold acceptInit at h
  obtain ⟨_, -, h⟩ := bind_eq_ok_iff.mp h
  obtain ⟨_, -, h⟩ := bind_eq_ok_iff.mp h
  obtain ⟨_, -, h⟩ := bind_eq_ok_iff.mp h
  simp only [pure_eq_ok, Except.ok.injEq, Prod.mk.injEq] at h
  obtain ⟨-, rfl⟩ := h
  refine ⟨?_, Function.update_self _ _ _⟩
  have hwith := c.advances_withDm ((c.dm conv).install_grows state)
  refine ⟨hwith.sessions, fun hp => ?_, hwith.uid⟩
  rw [prekeys_eq] at hp ⊢
  exact hp

/-- What `pqxdh_respond` does to the prekeys, in memory and in the file. -/
theorem respondPqxdh_advances {c c' : Client G} {store : Json} {body : String} {r : RespondRand}
    {result : Except Exn (String × DoubleRatchet × String × ℤ)} (conv : ℤ)
    (h : c.respondPqxdh P store body r = (result, c')) :
    c.Advances c' conv ∧ c'.dm = c.dm := by
  cases result with
  | error e =>
    obtain rfl := respondPqxdh_error h
    exact ⟨.refl c' conv, rfl⟩
  | ok result =>
    obtain ⟨store', hrespond, rfl⟩ := respondPqxdh_ok h
    obtain ⟨_, _, _, _, _, _, _, -, hresponded, hconsumes⟩ := pqxdhRespond_consumes hrespond
    have htruthy := hresponded.truthy hconsumes.shrinks
    refine ⟨⟨.refl _, fun _ => ?_, rfl⟩, rfl⟩
    rw [prekeys, prekeys_of_truthy rfl htruthy]
    rfl

theorem openInit_advances (c : Client G) (conv : ℤ) (existing : Bool) (meta_ : Json) (body : String)
    (rand : RecvRand) : c.Advances (c.openInit P conv existing meta_ body rand).2 conv := by
  have hload := c.load_advances conv
  unfold openInit
  rcases hloaded : c.loadPqxdhPrekeys with ⟨loaded, c₁⟩
  rw [hloaded] at hload
  cases loaded with
  | none => exact hload
  | some store =>
    simp only
    rcases hrespond : c₁.respondPqxdh P store body rand.respond with ⟨result, c₂⟩
    have hresponded := hload.trans (respondPqxdh_advances conv hrespond).1
    cases result with
    | error e => exact hresponded
    | ok result =>
      obtain ⟨plain, state, fp, uid⟩ := result
      simp only
      split
      next peer c₃ haccept => exact hresponded.trans (acceptInit_advances haccept).1
      next => exact hresponded

theorem receiveInit_advances (c : Client G) (conv : ℤ) (body : String) (rand : RecvRand) :
    c.Advances (c.receiveInit P conv body rand).2 conv := by
  have hcurrent := c.advances_withDm (c.dm conv).loadDoubleRatchet_grows
  unfold receiveInit
  dsimp only
  split
  · exact hcurrent
  · split
    · exact hcurrent.trans (openInit_advances ..)
    · have hsessions := hcurrent.trans (advances_withDm _ (DmStore.loadSessions_grows _))
      split
      · exact hsessions
      · exact hsessions.trans (openInit_advances ..)

/-- The MLS state is not asked about DM sessions. -/
theorem openMlsApplicationWire_frame {c c' : Client G} {conv : ℤ} {wire plain : String}
    (h : c.openMlsApplicationWire A conv wire = some (plain, c')) : ∃ mls, c' = { c with mls := mls } := by
  simp only [openMlsApplicationWire, Option.bind_eq_bind, Option.bind_eq_some_iff,
    Option.ite_none_left_eq_some, Option.pure_def, Option.some.injEq, Prod.mk.injEq,
    Option.bind_none] at h
  obtain ⟨_, -, _, -, -, _, -, _, -, -, -, _, -, opened, -, -, rfl⟩ := h
  exact ⟨opened.2, rfl⟩

/-- No live message takes a session away. -/
theorem receiveLive_advances (c : Client G) (conv sender : ℤ) (body : Json) (rand : RecvRand) :
    c.Advances (c.receiveLive P A conv sender body rand).2 conv := by
  cases body with
  | str text =>
    simp only [receiveLive]
    split
    · split
      · exact .refl c conv
      · have hinit := c.receiveInit_advances (P := P) conv text rand
        split <;> simp_all
    · split
      · exact .refl c conv
      · exact .refl c conv
      · split
        · exact .refl c conv
        · split
          · have hwire := (c.dm conv).decryptWire_grows (P := P) rand.ratchet text
            split <;> exact c.advances_withDm (by simp_all)
          · split
            · split
              next plain c' hopen =>
                obtain ⟨mls, rfl⟩ := openMlsApplicationWire_frame hopen
                refine ⟨.refl _, fun hp => ?_, rfl⟩
                rw [prekeys_eq] at hp ⊢
                exact hp
              next => exact .refl c conv
            · exact .refl c conv
  | _ => simp only [receiveLive]; split <;> exact .refl c conv

/-! ### Which messages wait -/

theorem openInit_eq_noPrekeys_iff {c : Client G} {conv : ℤ} {existing existing' : Bool} {meta_ : Json}
    {body : String} {rand : RecvRand} :
    (c.openInit P conv existing meta_ body rand).1 = .noPrekeys existing' ↔
      c.prekeys = none ∧ existing = existing' := by
  unfold openInit prekeys
  rcases c.loadPqxdhPrekeys with ⟨loaded, c₁⟩
  cases loaded with
  | none => simp
  | some store =>
    simp only [reduceCtorEq, false_and, iff_false]
    split
    · simp
    · split <;> simp

/-- An `S3PQI` body waits for prekeys. -/
theorem receiveInit_eq_noPrekeys_iff {c : Client G} {conv : ℤ} {text : String} (rand : RecvRand) :
    (c.receiveInit P conv text rand).1 = .noPrekeys false ↔
      ¬ (c.dm conv).HasCurrent ∧ c.prekeys = none ∧
        ∃ sid, initSid text = .ok sid ∧ (sid = "" ∨ ¬ (c.dm conv).Knows sid) := by
  unfold receiveInit initSid
  dsimp only
  cases (((jsonUnb64 (dropTag prefixPqInit text)).toOption).getD (.obj [])).getD "sid" (.str "") with
  | error e => simp
  | ok field =>
    simp only [ok_bind, pure_eq_ok, Except.ok.injEq, exists_eq_left']
    by_cases hc : (c.dm conv).HasCurrent
    · have hexisting : (c.dm conv).loadDoubleRatchet.1.isSome = true := hc
      simp only [hc, not_true_eq_false, false_and, iff_false, hexisting]
      split
      · simp [openInit_eq_noPrekeys_iff]
      · split
        · simp
        · simp [openInit_eq_noPrekeys_iff]
    · obtain ⟨-, hload⟩ := DmStore.loadDoubleRatchet_of_not hc
      simp only [hc, not_false_eq_true, true_and, hload, withDm_dm_self,
        DmStore.loadSessions_of_not hc]
      by_cases hsid : (field.orElse (.str "")).toStr = ""
      · simp [hsid, openInit_eq_noPrekeys_iff, prekeys_withDm]
      · by_cases hk : (c.dm conv).Knows (field.orElse (.str "")).toStr
        · have hmem : (field.orElse (.str "")).toStr ∈ (c.dm conv).readSessions.1 := hk
          simp [hsid, hk, hmem]
        · have hmem : (field.orElse (.str "")).toStr ∉ (c.dm conv).readSessions.1 := hk
          simp [hsid, hk, hmem, openInit_eq_noPrekeys_iff, prekeys_withDm]

/-- A body has one tag. -/
theorem other_tag {text tag tag' : String} (h : text.startsWith tag = true)
    (htags : tag.toList.take 5 ≠ tag'.toList.take 5) (hlen : 5 ≤ tag.toList.length)
    (hlen' : 5 ≤ tag'.toList.length) : text.startsWith tag' = false := by
  obtain ⟨rest, hrest⟩ := String.startsWith_string_iff.mp h
  rw [← Bool.not_eq_true, String.startsWith_string_iff]
  rintro ⟨rest', hrest'⟩
  apply htags
  rw [← List.take_append_of_le_length hlen, hrest, ← hrest', List.take_append_of_le_length hlen']

theorem not_mls_of_dr {text : String} (h : text.startsWith prefixDr = true) :
    text.startsWith prefixMls = false := other_tag h (by decide) (by decide) (by decide)

theorem not_pqInit_of_dr {text : String} (h : text.startsWith prefixDr = true) :
    text.startsWith prefixPqInit = false := other_tag h (by decide) (by decide) (by decide)

/-- **A live message waits** exactly where its session, or the prekeys for a new one, are missing.
-/
theorem receiveLive_eq_pending_iff {c : Client G} {conv sender : ℤ} {body : Json} {rand : RecvRand} :
    (c.receiveLive P A conv sender body rand).1 = .pending ↔ c.WouldPend conv sender body := by
  cases body with
  | str text =>
    simp only [receiveLive, WouldPend]
    split
    next htag =>
      rw [InitPends, ← receiveInit_eq_noPrekeys_iff (P := P) rand]
      split
      next hself => simp [hself]
      next hself =>
        simp only [ne_eq, hself, not_false_eq_true, true_and]
        rcases c.receiveInit P conv text rand with ⟨result, c'⟩
        cases result with
        | noPrekeys existing => cases existing <;> simp
        | accepted plain peer =>
          simp only [reduceCtorEq, iff_false]
          split <;> simp
        | _ => simp
    next htag =>
      by_cases hdr : text.startsWith prefixDr = true
      · have hmls := not_mls_of_dr hdr
        simp only [isTranscriptCheckpoint, hmls, Bool.false_eq_true, if_false, hdr, if_true,
          true_and, WirePends]
        split
        next hself =>
          constructor
          · intro h
            cases h
          · intro h
            exact absurd hself h.1
        next hself =>
          rw [← DmStore.stateForWire_eq_none_iff,
            ← DmStore.decryptWire_eq_pending_iff (P := P) rand.ratchet]
          simp only [hself, not_false_eq_true, true_and]
          rcases (c.dm conv).decryptWire P rand.ratchet text with ⟨result, σ⟩
          cases result <;> simp
      · simp only [hdr, Bool.false_eq_true, if_false, false_and, iff_false]
        split
        · simp
        · simp
        · split
          · simp
          · split
            · split <;> simp
            · simp
  | _ =>
    simp only [receiveLive, WouldPend, iff_false]
    split <;> simp

/-- The sessions and the prekeys that a body is looked up in are the same. -/
structure SameKeys (c c' : Client G) (conv : ℤ) : Prop where
  current : ¬ (c.dm conv).HasCurrent → ¬ (c'.dm conv).HasCurrent
  knows : ∀ sid, (c'.dm conv).Knows sid → (c.dm conv).Knows sid
  prekeys : c'.prekeys = c.prekeys
  uid : c'.myUid = c.myUid

theorem SameKeys.wouldPend {c c' : Client G} {conv sender : ℤ} {body : Json}
    (h : c.SameKeys c' conv) (hpend : c.WouldPend conv sender body) :
    c'.WouldPend conv sender body := by
  cases body with
  | str text =>
    simp only [WouldPend] at hpend ⊢
    split
    next htag =>
      rw [if_pos htag] at hpend
      obtain ⟨huid, hc, hkeys, sid, hsid, hk⟩ := hpend
      exact ⟨h.uid ▸ huid, h.current hc, h.prekeys.trans hkeys, sid, hsid,
        hk.imp_right fun hk hold => hk (h.knows sid hold)⟩
    next htag =>
      rw [if_neg htag] at hpend
      obtain ⟨hdr, huid, hc, hk⟩ := hpend
      exact ⟨hdr, h.uid ▸ huid, h.current hc, hk.imp_right fun hk hold => hk (h.knows _ hold)⟩
  | _ => exact hpend.elim

theorem sameKeys_openInit {c : Client G} {conv : ℤ} {meta_ : Json} {body : String} {rand : RecvRand}
    (h : c.prekeys = none) : c.SameKeys (c.openInit P conv false meta_ body rand).2 conv := by
  have hkept := c.keepsPrekeys_load.current
  obtain ⟨keys, hframe⟩ := c.loadPqxdhPrekeys_frame
  have hload : c.loadPqxdhPrekeys = (none, { c with pqxdhPrekeys := keys }) := Prod.ext h hframe
  rw [hload] at hkept
  unfold openInit
  rw [hload]
  exact ⟨id, fun _ hk => hk, hkept, rfl⟩

theorem SameKeys.trans {c₁ c₂ c₃ : Client G} {conv : ℤ} (h : c₁.SameKeys c₂ conv)
    (h' : c₂.SameKeys c₃ conv) : c₁.SameKeys c₃ conv :=
  ⟨fun hc => h'.current (h.current hc), fun sid hk => h.knows sid (h'.knows sid hk),
    h'.prekeys.trans h.prekeys, h'.uid.trans h.uid⟩

theorem sameKeys_withDm {c : Client G} {conv : ℤ} {σ : DmStore}
    (hc : ¬ (c.dm conv).HasCurrent → ¬ σ.HasCurrent)
    (hk : ∀ sid, σ.Knows sid → (c.dm conv).Knows sid) : c.SameKeys (c.withDm conv σ) conv where
  current := by rwa [withDm_dm_self]
  knows := by rwa [withDm_dm_self]
  prekeys := prekeys_withDm c conv σ
  uid := rfl

/-- A message that waits brings no keys. -/
theorem receiveLive_sameKeys {c : Client G} {conv sender : ℤ} {body : Json} {rand : RecvRand}
    (h : c.WouldPend conv sender body) :
    c.SameKeys (c.receiveLive P A conv sender body rand).2 conv := by
  cases body with
  | str text =>
    simp only [WouldPend] at h
    split at h
    next htag =>
      obtain ⟨hself, hc, hkeys, sid, hsid, hk⟩ := h
      obtain ⟨-, hload⟩ := DmStore.loadDoubleRatchet_of_not hc
      have hresult := receiveInit_eq_noPrekeys_iff (P := P) rand |>.mpr
        ⟨hc, hkeys, sid, hsid, hk⟩
      have hsame : c.SameKeys (c.receiveInit P conv text rand).2 conv := by
        have hcurrent : c.SameKeys (c.withDm conv (c.dm conv)) conv :=
          sameKeys_withDm id fun _ hk => hk
        unfold receiveInit at hresult ⊢
        simp only [hload, withDm_dm_self, Option.isSome_none] at hresult ⊢
        split
        · exact hcurrent
        · split
          · exact hcurrent.trans (sameKeys_openInit ((prekeys_withDm ..).trans hkeys))
          · obtain ⟨hc', hk'⟩ := DmStore.loadSessions_fixes hc
            have hsessions : (c.withDm conv (c.dm conv)).SameKeys
                ((c.withDm conv (c.dm conv)).withDm conv (c.dm conv).loadSessions.2) conv := by
              apply sameKeys_withDm
              · exact fun _ => hc'
              · rwa [withDm_dm_self]
            split
            · exact hcurrent.trans hsessions
            · refine (hcurrent.trans hsessions).trans (sameKeys_openInit ?_)
              rw [prekeys_withDm, prekeys_withDm, hkeys]
      rcases hinit : c.receiveInit P conv text rand with ⟨result, c'⟩
      rw [hinit] at hresult hsame
      subst hresult
      simp only [receiveLive, if_pos htag, if_neg hself, hinit]
      exact hsame
    next htag =>
      obtain ⟨hdr, hself, hc, hk⟩ := h
      have hmls := not_mls_of_dr hdr
      have hnone := DmStore.stateForWire_eq_none_iff.mpr ⟨hc, hk⟩
      have hleft := DmStore.stateForWire_of_none hnone
      have hwire : (c.dm conv).decryptWire P rand.ratchet text =
          (.pending, (c.dm conv).loadSessions.2) := by
        rw [← hleft]
        unfold DmStore.decryptWire
        simp only [hnone]
      obtain ⟨hc', hk'⟩ := DmStore.loadSessions_fixes hc
      simp only [receiveLive, if_neg htag, isTranscriptCheckpoint, hmls, Bool.false_eq_true,
        if_false, if_neg hself, hdr, if_true, hwire]
      exact sameKeys_withDm (fun _ => hc') hk'
  | _ => exact h.elim

/-! ### First messages -/

/-- The session of a wire that opens is the one that the wire names. -/
theorem respondFinish_sid {obj store alg : Json} {uid : ℤ}
    {pk senderCurve curveSk otkSk pqSk : Bytes} {r : RespondRand} {plain fp : String}
    {state : DoubleRatchet} {sender : ℤ} {field : Json}
    (hfield : obj.getD "sid" (.str "") = .ok field) (hsid : (field.orElse (.str "")).toStr ≠ "")
    (h : respondFinish P obj store uid pk senderCurve curveSk otkSk pqSk alg r =
      .ok (plain, state, fp, sender)) : state.sessionId = (field.orElse (.str "")).toStr := by
  unfold respondFinish at h
  obtain ⟨_, -, h⟩ := bind_eq_ok_iff.mp h
  obtain ⟨_, -, h⟩ := bind_eq_ok_iff.mp h
  obtain ⟨_, -, h⟩ := bind_eq_ok_iff.mp h
  obtain ⟨_, -, h⟩ := bind_eq_ok_iff.mp h
  obtain ⟨_, -, h⟩ := bind_eq_ok_iff.mp h
  obtain ⟨_, -, h⟩ := bind_eq_ok_iff.mp h
  obtain ⟨_, -, h⟩ := bind_eq_ok_iff.mp h
  obtain ⟨_, -, h⟩ := bind_eq_ok_iff.mp h
  obtain ⟨field', hread, h⟩ := bind_eq_ok_iff.mp h
  obtain rfl := Except.ok.inj (hfield.symm.trans hread)
  obtain ⟨_, -, h⟩ := bind_eq_ok_iff.mp h
  obtain ⟨_, -, h⟩ := bind_eq_ok_iff.mp h
  obtain ⟨_, -, h⟩ := bind_eq_ok_iff.mp h
  obtain ⟨_, -, h⟩ := bind_eq_ok_iff.mp h
  obtain ⟨_, -, h⟩ := bind_eq_ok_iff.mp h
  obtain ⟨_, -, h⟩ := bind_eq_ok_iff.mp h
  obtain ⟨_, -, h⟩ := bind_eq_ok_iff.mp h
  obtain ⟨_, -, h⟩ := bind_eq_ok_iff.mp h
  obtain ⟨_, -, h⟩ := bind_eq_ok_iff.mp h
  obtain ⟨_, -, h⟩ := bind_eq_ok_iff.mp h
  simp only [pure_eq_ok, Except.ok.injEq, Prod.mk.injEq] at h
  obtain ⟨-, rfl, -⟩ := h
  exact if_pos hsid

theorem initSid_of_read {text sid : String} {obj : Json}
    (hread : jsonUnb64 (dropTag prefixPqInit text) = .ok obj) (hsid : initSid text = .ok sid) :
    ∃ field, obj.getD "sid" (.str "") = .ok field ∧ (field.orElse (.str "")).toStr = sid := by
  unfold initSid at hsid
  rw [hread] at hsid
  obtain ⟨field, hfield, h⟩ := bind_eq_ok_iff.mp hsid
  exact ⟨field, hfield, Except.ok.inj h⟩

theorem pqxdhRespond_sid {text sid : String} {expected : Option ℤ} {r : RespondRand}
    {store store' : Json} {plain fp : String} {state : DoubleRatchet} {sender : ℤ}
    (hsid : initSid text = .ok sid) (hne : sid ≠ "")
    (h : pqxdhRespond P text expected r store = (.ok (plain, state, fp, sender), store')) :
    state.sessionId = sid := by
  unfold pqxdhRespond at h
  obtain ⟨obj, hobj, h⟩ := Method.ofExcept_bind_eq_ok h
  obtain ⟨field, hfield, rfl⟩ := initSid_of_read hobj hsid
  obtain ⟨⟨uid, pk, senderCurve⟩, -, h⟩ := Method.ofExcept_bind_eq_ok h
  obtain ⟨_, -, h⟩ := Method.ofExcept_bind_eq_ok h
  obtain ⟨_, -, h⟩ := Method.ofExcept_bind_eq_ok h
  rw [Method.get_bind] at h
  obtain ⟨_, -, h⟩ := Method.ofExcept_bind_eq_ok h
  obtain ⟨_, _, -, h⟩ := Method.bind_eq_ok h
  obtain ⟨_, -, h⟩ := Method.ofExcept_bind_eq_ok h
  obtain ⟨_, _, -, h⟩ := Method.bind_eq_ok h
  rw [Method.get_bind, Method.ofExcept_run] at h
  exact respondFinish_sid hfield hne (Prod.mk.inj h).1

/-- A first message that is accepted puts the session that it names into the map. -/
theorem openInit_loaded {c c' : Client G} {conv : ℤ} {existing : Bool} {meta_ : Json}
    {text sid plain : String} {rand : RecvRand} {peer : PeerInfo} (hsid : initSid text = .ok sid)
    (hne : sid ≠ "") (h : c.openInit P conv existing meta_ text rand = (.accepted plain peer, c')) :
    (c'.dm conv).Loaded sid := by
  unfold openInit at h
  rcases hload : c.loadPqxdhPrekeys with ⟨loaded, c₁⟩
  rw [hload] at h
  cases loaded with
  | none => cases h
  | some store =>
    simp only at h
    rcases hrespond : c₁.respondPqxdh P store text rand.respond with ⟨result, c₂⟩
    rw [hrespond] at h
    cases result with
    | error e => cases h
    | ok result =>
      obtain ⟨plain', state, fp, uid⟩ := result
      obtain ⟨store', hpq, rfl⟩ := respondPqxdh_ok hrespond
      simp only at h
      split at h
      next peer' c₃ haccept =>
        obtain ⟨-, rfl⟩ := Prod.mk.inj h
        rw [(acceptInit_advances haccept).2]
        obtain rfl := pqxdhRespond_sid hsid hne hpq
        exact DmStore.install_loaded hne
      next => cases h

theorem receiveInit_loaded {c c' : Client G} {conv : ℤ} {text sid plain : String} {rand : RecvRand}
    {peer : PeerInfo} (hsid : initSid text = .ok sid) (hne : sid ≠ "")
    (h : c.receiveInit P conv text rand = (.accepted plain peer, c')) :
    (c'.dm conv).Loaded sid := by
  unfold receiveInit at h
  dsimp only at h
  split at h
  · cases h
  · split at h
    · exact openInit_loaded hsid hne h
    · split at h
      · cases h
      · exact openInit_loaded hsid hne h

theorem initSid_of_accepted {c c' : Client G} {conv : ℤ} {text plain : String} {rand : RecvRand}
    {peer : PeerInfo} (h : c.receiveInit P conv text rand = (.accepted plain peer, c')) :
    ∃ sid, initSid text = .ok sid := by
  unfold receiveInit at h
  dsimp only at h
  split at h
  · cases h
  next field hfield => exact ⟨_, bind_eq_ok_iff.mpr ⟨field, hfield, rfl⟩⟩

/-- A first message of a session that is in the map is not opened. -/
theorem receiveInit_known {c : Client G} {conv : ℤ} {text sid : String} {rand : RecvRand}
    (hsid : initSid text = .ok sid) (hne : sid ≠ "") (h : (c.dm conv).Loaded sid) :
    (c.receiveInit P conv text rand).1 = .known := by
  have hloaded := (c.dm conv).loadDoubleRatchet_grows.loaded sid h
  have hmem := DmStore.mem_loadSessions hloaded.knows
  obtain ⟨field, hfield, hread⟩ := bind_eq_ok_iff.mp hsid
  have hread : (field.orElse (.str "")).toStr = sid := Except.ok.inj hread
  unfold receiveInit
  simp only [hfield, hread, hne, if_false, withDm_dm_self, hmem, if_true]

end Client

end SecChat
