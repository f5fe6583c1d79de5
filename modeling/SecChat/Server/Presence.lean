import SecChat.Server.Sessions

/-!
# The stored presence

The stored status of a user is written outside the lock of the table: before a login writes its slot, and
after a slot is cleared.

* `Carried`, `Coming`, `Leaving`: the user is in a slot, about to be, or about to be written offline;
* `Agree`: what the status says while handlers are in progress;
* `StepOk`: the condition on a step, in the state before it;
* `Inv.agree_step_iff`: a step keeps `Agree` exactly under the condition;
* `presence_agrees`: under the condition the status is right whenever no handler is in progress;
* `other_account_stays_online`: a login as another user on the same connection.
-/

namespace SecChat.Sessions

variable {n : ℕ} {s : State n}

/-! ### Users in slots and in handlers -/

/-- The slot is active with the user. -/
def Slot.Has (u : ℤ) (c : Slot) : Prop := c.active = true ∧ c.userId = u

/-- Some active slot has the user. -/
def Carried (slots : Fin n → Slot) (u : ℤ) : Prop := ∃ i, (slots i).Has u

/-- A login of the user is to write its slot. -/
def Phase.Brings (u : ℤ) (p : Phase) : Prop := ∃ username, p = .authed u username

@[simp] theorem brings_authed {u uid : ℤ} {username : String} :
    (Phase.authed uid username).Brings u ↔ uid = u := by
  simp [Phase.Brings]

@[simp] theorem not_brings_idle {u : ℤ} : ¬ Phase.idle.Brings u := by simp [Phase.Brings]

@[simp] theorem not_brings_stored {u uid : ℤ} : ¬ (Phase.stored uid).Brings u := by
  simp [Phase.Brings]

@[simp] theorem not_brings_leaving {u uid : ℤ} : ¬ (Phase.leaving uid).Brings u := by
  simp [Phase.Brings]

/-- Some login of the user is to write its slot. -/
def Coming (phases : Fin n → Phase) (u : ℤ) : Prop := ∃ i, (phases i).Brings u

/-- The user is to be written offline. -/
def Leaving (phases : Fin n → Phase) (departed : List ℤ) (u : ℤ) : Prop :=
  (∃ i, phases i = .leaving u) ∨ u ∈ departed

/-- No handler is in progress. -/
def Quiet (s : State n) : Prop := (∀ i, s.phases i = .idle) ∧ s.departed = []

/-- A user is stored as online exactly when some active slot has it. -/
def PresenceAgrees (s : State n) : Prop := ∀ u, 0 < u → (s.status u = .online ↔ Carried s.slots u)

/-- The same while handlers are in progress: a user in a slot, or about to be, is online; and who is
online is in a slot, about to be, or about to be written offline. -/
structure Agree (s : State n) : Prop where
  online : ∀ u, 0 < u → Carried s.slots u ∨ Coming s.phases u → s.status u = .online
  carried : ∀ u, 0 < u → s.status u = .online →
    Carried s.slots u ∨ Coming s.phases u ∨ Leaving s.phases s.departed u

theorem Agree.presenceAgrees (h : Agree s) (hquiet : Quiet s) : PresenceAgrees s := by
  intro u hu
  refine ⟨fun honline => ?_, fun hcarried => h.online u hu (.inl hcarried)⟩
  rcases h.carried u hu honline with hcarried | ⟨i, username, hi⟩ | ⟨i, hi⟩ | hdeparted
  · exact hcarried
  · rw [hquiet.1 i] at hi
    cases hi
  · rw [hquiet.1 i] at hi
    cases hi
  · rw [hquiet.2] at hdeparted
    cases hdeparted

/-! ### The condition -/

/-- The condition on a step.

* A login writes its slot over another user only if that one is in another slot, about to be, or about
  to be written offline.
* It replaces other sessions only if it still has its slot, or the user is about to be in a slot or to be
  written offline, or there is nothing to replace.
* A user is written offline only while it is in no slot and not about to be. -/
def StepOk (s : State n) : Event n → Prop
  | .store i =>
      match s.phases i with
      | .authed uid _ =>
          0 < (s.slots i).userId → (s.slots i).userId ≠ uid →
            otherActive s.slots (s.slots i).userId i ∨ Coming s.phases (s.slots i).userId ∨
              Leaving s.phases s.departed (s.slots i).userId
      | _ => True
  | .replace i =>
      match s.phases i with
      | .stored uid =>
          (s.slots i).userId = uid ∨ Coming s.phases uid ∨ Leaving s.phases s.departed uid ∨
            ¬ otherActive s.slots uid i
      | _ => True
  | .writeOffline i =>
      match s.phases i with
      | .leaving uid => ¬ Carried s.slots uid ∧ ¬ Coming s.phases uid
      | _ => True
  | .writeDeparted k => ∀ uid ∈ s.departed[k]?, ¬ Carried s.slots uid ∧ ¬ Coming s.phases uid
  | _ => True

/-- The user of a handler. -/
def Phase.user : Phase → Option ℤ
  | .idle => none
  | .authed uid _ | .stored uid | .leaving uid => some uid

/-- Users are in slots of connections that are up, as are handlers, and ids are positive. -/
structure WellFormed (s : State n) : Prop where
  slots : ∀ i, 0 < (s.slots i).userId → (s.slots i).Ready
  phases : ∀ i, ∀ uid ∈ (s.phases i).user, 0 < uid ∧ (s.slots i).Ready
  departed : ∀ uid ∈ s.departed, 0 < uid

/-- No handler is in progress, and the status is right. -/
structure Start (s : State n) : Prop where
  quiet : Quiet s
  slots : ∀ i, 0 < (s.slots i).userId → (s.slots i).Ready
  agrees : PresenceAgrees s

/-! ### Updates -/

section Update

variable {α : Type} {P : α → Prop} (f : Fin n → α) (i : Fin n)

theorem exists_split : (∃ j, P (f j)) ↔ P (f i) ∨ ∃ j, j ≠ i ∧ P (f j) := by
  constructor
  · rintro ⟨j, hj⟩
    by_cases h : j = i
    · exact .inl (h ▸ hj)
    · exact .inr ⟨j, h, hj⟩
  · rintro (hi | ⟨j, -, hj⟩)
    · exact ⟨i, hi⟩
    · exact ⟨j, hj⟩

theorem exists_update (v : α) :
    (∃ j, P (Function.update f i v j)) ↔ P v ∨ ∃ j, j ≠ i ∧ P (f j) := by
  rw [exists_split _ i, Function.update_self]
  refine or_congr_right (exists_congr fun j => and_congr_right fun hj => ?_)
  rw [Function.update_of_ne hj]

theorem forall_update {v : α} (hv : P v) (hf : ∀ j, j ≠ i → P (f j)) :
    ∀ j, P (Function.update f i v j) := by
  intro j
  by_cases h : j = i
  · subst h
    rwa [Function.update_self]
  · rw [Function.update_of_ne h]
    exact hf j h

end Update

theorem carried_iff (slots : Fin n → Slot) (i : Fin n) (u : ℤ) :
    Carried slots u ↔ (slots i).Has u ∨ otherActive slots u i := exists_split slots i

theorem carried_update (slots : Fin n → Slot) (i : Fin n) (c : Slot) (u : ℤ) :
    Carried (Function.update slots i c) u ↔ c.Has u ∨ otherActive slots u i :=
  exists_update slots i c

theorem coming_iff (phases : Fin n → Phase) (i : Fin n) (u : ℤ) :
    Coming phases u ↔ (phases i).Brings u ∨ ∃ j, j ≠ i ∧ (phases j).Brings u :=
  exists_split phases i

theorem coming_update (phases : Fin n → Phase) (i : Fin n) (p : Phase) (u : ℤ) :
    Coming (Function.update phases i p) u ↔ p.Brings u ∨ ∃ j, j ≠ i ∧ (phases j).Brings u :=
  exists_update phases i p

theorem leaving_iff (phases : Fin n → Phase) (departed : List ℤ) (i : Fin n) (u : ℤ) :
    Leaving phases departed u ↔
      (phases i = .leaving u ∨ ∃ j, j ≠ i ∧ phases j = .leaving u) ∨ u ∈ departed :=
  or_congr_left (exists_split (P := fun p => p = .leaving u) phases i)

theorem leaving_update (phases : Fin n → Phase) (departed : List ℤ) (i : Fin n) (p : Phase) (u : ℤ) :
    Leaving (Function.update phases i p) departed u ↔
      (p = .leaving u ∨ ∃ j, j ≠ i ∧ phases j = .leaving u) ∨ u ∈ departed :=
  or_congr_left (exists_update (P := fun p => p = .leaving u) phases i p)

theorem not_pos_neg_one : ¬ (0 : ℤ) < -1 := by decide

/-- A slot without a user. -/
theorem not_has_of_neg {c : Slot} {u : ℤ} (hu : 0 < u) (hc : c.userId = -1) : ¬ c.Has u := by
  rintro ⟨-, huid⟩
  omega

/-! ### Well-formed states -/

namespace WellFormed

theorem setPhase (h : WellFormed s) {i : Fin n} {p : Phase}
    (hp : ∀ uid ∈ p.user, 0 < uid ∧ (s.slots i).Ready) :
    WellFormed { s with phases := Function.update s.phases i p } where
  slots := h.slots
  phases j := by
    show ∀ uid ∈ (Function.update s.phases i p j).user, 0 < uid ∧ (s.slots j).Ready
    by_cases hj : j = i
    · subst hj
      rw [Function.update_self]
      exact hp
    · rw [Function.update_of_ne hj]
      exact h.phases j
  departed := h.departed

/-- A slot is rewritten, and its handler may go on. -/
theorem setSlot (h : WellFormed s) {i : Fin n} {c : Slot} (huid : 0 < c.userId → c.Ready)
    (hc : ∀ uid ∈ (s.phases i).user, c.Ready) :
    WellFormed { s with slots := Function.update s.slots i c } where
  slots := forall_update (P := fun c : Slot => 0 < c.userId → c.Ready) _ _ huid fun j _ => h.slots j
  phases j uid hj := by
    refine ⟨(h.phases j uid hj).1, ?_⟩
    show (Function.update s.slots i c j).Ready
    by_cases hji : j = i
    · subst hji
      rw [Function.update_self]
      exact hc uid hj
    · rw [Function.update_of_ne hji]
      exact (h.phases j uid hj).2
  departed := h.departed

/-- The status does not matter. -/
theorem setStatus (h : WellFormed s) (status : ℤ → Status) : WellFormed { s with status } :=
  ⟨h.slots, h.phases, h.departed⟩

theorem leftUser_pos {slots : Fin n → Slot} {i : Fin n} {uid : ℤ}
    (h : leftUser slots i = some uid) : 0 < uid := by
  unfold leftUser at h
  dsimp only at h
  split at h
  · next hleft =>
    obtain rfl := Option.some.inj h
    exact hleft.1
  · cases h

/-- Every step keeps a state well-formed. -/
theorem step (h : WellFormed s) (e : Event n) : WellFormed (step s e) := by
  cases e with
  | connect =>
    unfold Sessions.step
    dsimp only
    split
    · next i hfound =>
      have hinactive : (s.slots i).active = false := by
        simpa using List.find?_some hfound
      refine h.setSlot (fun hpos => absurd hpos not_pos_neg_one) fun uid huid => ?_
      have hactive := (h.phases i uid huid).2.1
      rw [hinactive] at hactive
      cases hactive
    · exact h
  | ready i =>
    unfold Sessions.step
    dsimp only
    split
    · next hactive => exact h.setSlot (fun _ => ⟨hactive, rfl, rfl⟩) fun _ _ => ⟨hactive, rfl, rfl⟩
    · exact h
  | auth i uid username =>
    unfold Sessions.step
    dsimp only
    split
    · next hok =>
      refine (h.setStatus (Function.update s.status uid .online)).setPhase fun uid' huid' => ?_
      obtain rfl := Option.some.inj huid'
      exact ⟨hok.2, hok.1.1⟩
    · exact h
  | store i =>
    unfold Sessions.step
    dsimp only
    split
    · next uid username hi =>
      have hphase := h.phases i uid (by rw [hi]; rfl)
      have hslot : WellFormed { s with
          slots := Function.update s.slots i { s.slots i with userId := uid, username := username } } :=
        h.setSlot (fun _ => hphase.2) fun _ _ => hphase.2
      refine hslot.setPhase fun uid' huid' => ?_
      obtain rfl := Option.some.inj huid'
      refine ⟨hphase.1, ?_⟩
      show (Function.update s.slots i _ i).Ready
      rw [Function.update_self]
      exact hphase.2
    · exact h
  | replace i =>
    unfold Sessions.step
    dsimp only
    split
    · next uid hi =>
      have hready : ∀ j, (s.slots j).Ready →
          ((clientsReplaceOtherSessions s.slots uid i).1 j).Ready := fun j hj => ready_replace hj
      have hslots : WellFormed { s with
          slots := (clientsReplaceOtherSessions s.slots uid i).1
          notices := s.notices ++ (clientsReplaceOtherSessions s.slots uid i).2 } := by
        refine ⟨fun j hpos => ?_, fun j uid' huid' => ?_, h.departed⟩
        · refine hready j (h.slots j ?_)
          have hpos : 0 < ((clientsReplaceOtherSessions s.slots uid i).1 j).userId := hpos
          unfold clientsReplaceOtherSessions at hpos
          split at hpos
          · exact hpos
          · dsimp only at hpos
            split at hpos
            · exact absurd hpos not_pos_neg_one
            · exact hpos
        · exact ⟨(h.phases j uid' huid').1, hready j (h.phases j uid' huid').2⟩
      exact hslots.setPhase fun uid' huid' => by cases huid'
    · exact h
  | logout i =>
    unfold Sessions.step
    dsimp only
    split
    · next hok =>
      have hslot : WellFormed { s with
          slots := Function.update s.slots i { s.slots i with userId := -1, username := "" } } :=
        h.setSlot (fun hpos => absurd hpos not_pos_neg_one) fun _ _ => hok.1
      refine hslot.setPhase fun uid huid => ?_
      refine ⟨?_, ?_⟩
      · split at huid
        · next hleft =>
          obtain rfl := Option.some.inj huid
          exact leftUser_pos hleft
        · cases huid
      · show (Function.update s.slots i _ i).Ready
        rw [Function.update_self]
        exact hok.1
    · exact h
  | remove i =>
    unfold Sessions.step
    dsimp only
    split
    · next hok =>
      have hslot : WellFormed { s with
          slots := Function.update s.slots i ⟨false, false, false, -1, ""⟩ } := by
        refine h.setSlot (fun hpos => absurd hpos not_pos_neg_one) fun uid huid => ?_
        rw [hok.2] at huid
        cases huid
      refine ⟨hslot.slots, hslot.phases, fun uid huid => ?_⟩
      rcases List.mem_append.mp huid with huid | huid
      · exact h.departed uid huid
      · exact leftUser_pos (Option.mem_toList.mp huid)
    · exact h
  | writeOffline i =>
    unfold Sessions.step
    dsimp only
    split
    · next uid _ =>
      exact (h.setStatus (Function.update s.status uid .offline)).setPhase
        fun uid huid => by cases huid
    · exact h
  | writeDeparted k =>
    unfold Sessions.step
    dsimp only
    split
    · exact ⟨h.slots, h.phases, fun uid huid => h.departed uid (List.mem_of_mem_eraseIdx huid)⟩
    · exact h

end WellFormed

/-! ### What a step keeps -/

/-- A step that touches neither handlers nor users. -/
theorem Agree.of_carried_iff (h : Agree s) {slots : Fin n → Slot}
    (hslots : ∀ u, 0 < u → (Carried slots u ↔ Carried s.slots u)) : Agree { s with slots } where
  online u hu hor := h.online u hu (hor.imp_left (hslots u hu).mp)
  carried u hu honline := (h.carried u hu honline).imp_left (hslots u hu).mpr

theorem Agree.connect (h : Agree s) {i : Fin n} (hi : (s.slots i).active = false) :
    Agree { s with slots := Function.update s.slots i ⟨true, false, false, -1, ""⟩ } := by
  refine h.of_carried_iff fun u hu => ?_
  have hbefore : ¬ (s.slots i).Has u := by
    rintro ⟨hactive, -⟩
    rw [hi] at hactive
    cases hactive
  rw [carried_update, carried_iff s.slots i, or_iff_right hbefore,
    or_iff_right (not_has_of_neg hu rfl)]

theorem Agree.ready (h : Agree s) (i : Fin n) :
    Agree { s with
      slots := Function.update s.slots i { s.slots i with ssl := true, wsReady := true } } := by
  refine h.of_carried_iff fun u _ => ?_
  rw [carried_update, carried_iff s.slots i]
  rfl

/-- A login begins on a connection without a handler. -/
theorem Agree.auth (h : Agree s) {i : Fin n} (hi : s.phases i = .idle) (uid : ℤ) (username : String) :
    Agree { s with
      status := Function.update s.status uid .online
      phases := Function.update s.phases i (.authed uid username) } := by
  have hcoming : ∀ u, Coming (Function.update s.phases i (.authed uid username)) u ↔
      uid = u ∨ Coming s.phases u := by
    intro u
    rw [coming_update, coming_iff s.phases i, hi, brings_authed, or_iff_right not_brings_idle]
  constructor
  · intro u hu hor
    show Function.update s.status uid .online u = .online
    by_cases hu' : u = uid
    · rw [hu', Function.update_self]
    · rw [Function.update_of_ne hu']
      refine h.online u hu (hor.imp_right fun hcomes => ?_)
      exact ((hcoming u).mp hcomes).resolve_left (Ne.symm hu')
  · intro u hu honline
    by_cases hu' : u = uid
    · exact .inr (.inl ((hcoming u).mpr (.inl hu'.symm)))
    · have hstatus : s.status u = .online := by
        rw [← honline]
        exact (Function.update_of_ne hu' _ _).symm
      rcases h.carried u hu hstatus with hcarried | hcomes | hleaves
      · exact .inl hcarried
      · exact .inr (.inl ((hcoming u).mpr (.inr hcomes)))
      · refine .inr (.inr ((leaving_update _ _ _ _ _).mpr ?_))
        rw [leaving_iff _ _ i, hi] at hleaves
        simpa using hleaves

/-- A slot is cleared: the user that it had is in another slot, or is written offline next. -/
theorem carried_or_left (slots : Fin n → Slot) (i : Fin n) {u : ℤ} (hu : 0 < u)
    (h : Carried slots u) : otherActive slots u i ∨ leftUser slots i = some u := by
  by_cases hother : otherActive slots u i
  · exact .inl hother
  · obtain ⟨-, huid⟩ := ((carried_iff slots i u).mp h).resolve_right hother
    right
    unfold leftUser
    dsimp only
    rw [huid, if_pos ⟨hu, hother⟩]

theorem Agree.logout (h : Agree s) {i : Fin n} (hi : s.phases i = .idle) (username : String) :
    Agree { s with
      slots := Function.update s.slots i { s.slots i with userId := -1, username := username }
      phases := Function.update s.phases i
        (match leftUser s.slots i with
        | some uid => .leaving uid
        | none => .idle) } := by
  have hcoming : ∀ u, Coming (Function.update s.phases i (match leftUser s.slots i with
      | some uid => .leaving uid
      | none => .idle)) u ↔ Coming s.phases u := by
    intro u
    rw [coming_update, coming_iff s.phases i, hi]
    cases leftUser s.slots i <;> simp
  have hcarried : ∀ u, 0 < u → (Carried (Function.update s.slots i
      { s.slots i with userId := -1, username := username }) u ↔ otherActive s.slots u i) := by
    intro u hu
    rw [carried_update, or_iff_right (not_has_of_neg hu rfl)]
  constructor
  · intro u hu hor
    refine h.online u hu (hor.imp (fun hcarries => ?_) (hcoming u).mp)
    exact (carried_iff s.slots i u).mpr (.inr ((hcarried u hu).mp hcarries))
  · intro u hu honline
    rcases h.carried u hu honline with hcarries | hcomes | hleaves
    · rcases carried_or_left s.slots i hu hcarries with hother | hleft
      · exact .inl ((hcarried u hu).mpr hother)
      · refine .inr (.inr ((leaving_update _ _ _ _ _).mpr (.inl (.inl ?_))))
        rw [hleft]
    · exact .inr (.inl ((hcoming u).mpr hcomes))
    · refine .inr (.inr ((leaving_update _ _ _ _ _).mpr ?_))
      rw [leaving_iff _ _ i, hi] at hleaves
      exact hleaves.imp_left fun hphases => .inr (hphases.resolve_left fun heq => by cases heq)

theorem Agree.remove (h : Agree s) (i : Fin n) :
    Agree { s with
      slots := Function.update s.slots i ⟨false, false, false, -1, ""⟩
      departed := s.departed ++ (leftUser s.slots i).toList } := by
  have hcarried : ∀ u, 0 < u → (Carried (Function.update s.slots i
      ⟨false, false, false, -1, ""⟩) u ↔ otherActive s.slots u i) := by
    intro u hu
    rw [carried_update, or_iff_right (not_has_of_neg hu rfl)]
  constructor
  · intro u hu hor
    refine h.online u hu (hor.imp_left fun hcarries => ?_)
    exact (carried_iff s.slots i u).mpr (.inr ((hcarried u hu).mp hcarries))
  · intro u hu honline
    rcases h.carried u hu honline with hcarries | hcomes | hleaves | hleaves
    · rcases carried_or_left s.slots i hu hcarries with hother | hleft
      · exact .inl ((hcarried u hu).mpr hother)
      · refine .inr (.inr (.inr (List.mem_append_right _ ?_)))
        rw [hleft]
        exact List.mem_singleton_self u
    · exact .inr (.inl hcomes)
    · exact .inr (.inr (.inl hleaves))
    · exact .inr (.inr (.inr (List.mem_append_left _ hleaves)))

/-! ### What a step keeps under the condition -/

/-- A login writes its slot. -/
theorem agree_store_iff (hw : WellFormed s) (h : Agree s) {i : Fin n} {uid : ℤ} {username : String}
    (hi : s.phases i = .authed uid username) :
    Agree { s with
      slots := Function.update s.slots i { s.slots i with userId := uid, username := username }
      phases := Function.update s.phases i (.stored uid) } ↔
    (0 < (s.slots i).userId → (s.slots i).userId ≠ uid →
      otherActive s.slots (s.slots i).userId i ∨ Coming s.phases (s.slots i).userId ∨
        Leaving s.phases s.departed (s.slots i).userId) := by
  obtain ⟨huid, hready⟩ := hw.phases i uid (by rw [hi]; rfl)
  have hcarried : ∀ u, Carried (Function.update s.slots i
      { s.slots i with userId := uid, username := username }) u ↔
      uid = u ∨ otherActive s.slots u i := by
    intro u
    rw [carried_update]
    exact or_congr_left (and_iff_right hready.1)
  have hcoming : ∀ u, u ≠ uid →
      (Coming (Function.update s.phases i (.stored uid)) u ↔ Coming s.phases u) := by
    intro u hu
    rw [coming_update, coming_iff s.phases i, hi, brings_authed, or_iff_right not_brings_stored,
      or_iff_right (Ne.symm hu)]
  have hleaving : ∀ u, Leaving (Function.update s.phases i (.stored uid)) s.departed u ↔
      Leaving s.phases s.departed u := by
    intro u
    rw [leaving_update, leaving_iff s.phases s.departed i, hi]
    simp
  constructor
  · intro hafter hpos hne
    have honline : s.status (s.slots i).userId = .online :=
      h.online _ hpos (.inl ⟨i, (hw.slots i hpos).1, rfl⟩)
    rcases hafter.carried _ hpos honline with hcarries | hcomes | hleaves
    · exact .inl (((hcarried _).mp hcarries).resolve_left hne.symm)
    · exact .inr (.inl ((hcoming _ hne).mp hcomes))
    · exact .inr (.inr ((hleaving _).mp hleaves))
  · intro hok
    constructor
    · intro u hu hor
      by_cases hu' : u = uid
      · rw [hu']
        exact h.online uid huid (.inr ⟨i, username, hi⟩)
      · refine h.online u hu (hor.imp (fun hcarries => ?_) (hcoming u hu').mp)
        exact (carried_iff s.slots i u).mpr (.inr (((hcarried u).mp hcarries).resolve_left
          (Ne.symm hu')))
    · intro u hu honline
      by_cases hu' : u = uid
      · exact .inl ((hcarried u).mpr (.inl hu'.symm))
      · rcases h.carried u hu honline with hcarries | hcomes | hleaves
        · rcases (carried_iff s.slots i u).mp hcarries with ⟨-, hhas⟩ | hother
          · -- the user whose slot is overwritten
            subst hhas
            exact (hok hu hu').imp (fun hother => (hcarried _).mpr (.inr hother))
              (Or.imp (hcoming _ hu').mpr (hleaving _).mpr)
          · exact .inl ((hcarried u).mpr (.inr hother))
        · exact .inr (.inl ((hcoming u hu').mpr hcomes))
        · exact .inr (.inr ((hleaving u).mpr hleaves))

/-- Who has which user after other sessions are replaced. -/
theorem carried_replace (hw : WellFormed s) {uid : ℤ} (huid : 0 < uid) (i : Fin n) {u : ℤ}
    (hu : 0 < u) :
    Carried (clientsReplaceOtherSessions s.slots uid i).1 u ↔
      if u = uid then (s.slots i).Has uid else Carried s.slots u := by
  unfold Carried Slot.Has
  simp only [slots_replace s.slots huid]
  split
  · next heq =>
    subst heq
    constructor
    · rintro ⟨j, hj⟩
      split at hj
      · have huid' : (-1 : ℤ) = u := hj.2
        omega
      · next hnot =>
        have hji : j = i := by
          by_contra hne
          exact hnot ⟨hne, hw.slots j (hj.2 ▸ hu), hj.2⟩
        exact hji ▸ hj
    · intro hi
      refine ⟨i, ?_⟩
      rw [if_neg fun hrep => hrep.1 rfl]
      exact hi
  · next hne =>
    refine exists_congr fun j => ?_
    split
    · next hrep =>
      refine iff_of_false (fun hj => ?_) fun hj => hne (hj.2.symm.trans hrep.2.2)
      have huid' : (-1 : ℤ) = u := hj.2
      omega
    · rfl

/-- A login replaces the other sessions. -/
theorem agree_replace_iff (hw : WellFormed s) (h : Agree s) {i : Fin n} {uid : ℤ}
    (hi : s.phases i = .stored uid) (told : List (Fin n)) :
    Agree { s with
      slots := (clientsReplaceOtherSessions s.slots uid i).1
      phases := Function.update s.phases i .idle
      notices := told } ↔
    ((s.slots i).userId = uid ∨ Coming s.phases uid ∨ Leaving s.phases s.departed uid ∨
      ¬ otherActive s.slots uid i) := by
  obtain ⟨huid, hready⟩ := hw.phases i uid (by rw [hi]; rfl)
  have hhas : (s.slots i).Has uid ↔ (s.slots i).userId = uid := and_iff_right hready.1
  have hcarried : ∀ u, 0 < u → (Carried (clientsReplaceOtherSessions s.slots uid i).1 u ↔
      if u = uid then (s.slots i).Has uid else Carried s.slots u) :=
    fun u hu => carried_replace hw huid i hu
  have hcoming : ∀ u, Coming (Function.update s.phases i .idle) u ↔ Coming s.phases u := by
    intro u
    rw [coming_update, coming_iff s.phases i, hi, or_iff_right not_brings_idle,
      or_iff_right not_brings_stored]
  have hleaving : ∀ u, Leaving (Function.update s.phases i .idle) s.departed u ↔
      Leaving s.phases s.departed u := by
    intro u
    rw [leaving_update, leaving_iff s.phases s.departed i, hi]
    simp
  constructor
  · intro hafter
    by_cases hother : otherActive s.slots uid i
    · have honline : s.status uid = .online :=
        h.online uid huid (.inl ((carried_iff s.slots i uid).mpr (.inr hother)))
      rcases hafter.carried uid huid honline with hcarries | hcomes | hleaves
      · have hcarries := (hcarried uid huid).mp hcarries
        rw [if_pos rfl, hhas] at hcarries
        exact .inl hcarries
      · exact .inr (.inl ((hcoming uid).mp hcomes))
      · exact .inr (.inr (.inl ((hleaving uid).mp hleaves)))
    · exact .inr (.inr (.inr hother))
  · intro hok
    constructor
    · intro u hu hor
      refine h.online u hu (hor.imp (fun hcarries => ?_) (hcoming u).mp)
      have hcarries := (hcarried u hu).mp hcarries
      split at hcarries
      · next heq => exact heq ▸ ⟨i, hcarries⟩
      · exact hcarries
    · intro u hu honline
      by_cases hu' : u = uid
      · subst hu'
        have hkept : (s.slots i).userId = u →
            Carried (clientsReplaceOtherSessions s.slots u i).1 u := by
          intro heq
          rw [hcarried u hu, if_pos rfl, hhas]
          exact heq
        rcases hok with heq | hcomes | hleaves | hnone
        · exact .inl (hkept heq)
        · exact .inr (.inl ((hcoming u).mpr hcomes))
        · exact .inr (.inr ((hleaving u).mpr hleaves))
        · refine (h.carried u hu honline).imp (fun hcarries => ?_)
            (Or.imp (hcoming u).mpr (hleaving u).mpr)
          exact hkept (((carried_iff s.slots i u).mp hcarries).resolve_right hnone).2
      · refine (h.carried u hu honline).imp (fun hcarries => ?_)
          (Or.imp (hcoming u).mpr (hleaving u).mpr)
        rw [hcarried u hu, if_neg hu']
        exact hcarries

/-- A user is written offline. -/
theorem agree_write_iff (h : Agree s) {uid : ℤ} (huid : 0 < uid) {phases : Fin n → Phase}
    {departed : List ℤ} (hcoming : ∀ u, Coming phases u ↔ Coming s.phases u)
    (hleaving : ∀ u, u ≠ uid →
      (Leaving phases departed u ↔ Leaving s.phases s.departed u)) :
    Agree { s with status := Function.update s.status uid .offline, phases, departed } ↔
      ¬ Carried s.slots uid ∧ ¬ Coming s.phases uid := by
  constructor
  · intro hafter
    rw [← not_or]
    intro hor
    have honline := hafter.online uid huid (hor.imp_right (hcoming uid).mpr)
    have honline : Function.update s.status uid .offline uid = .online := honline
    rw [Function.update_self] at honline
    cases honline
  · rintro ⟨hnot, hnot'⟩
    constructor
    · intro u hu hor
      have hu' : u ≠ uid := by
        rintro rfl
        exact hor.elim hnot fun hcomes => hnot' ((hcoming u).mp hcomes)
      show Function.update s.status uid .offline u = .online
      rw [Function.update_of_ne hu']
      exact h.online u hu (hor.imp_right (hcoming u).mp)
    · intro u hu honline
      have honline : Function.update s.status uid .offline u = .online := honline
      have hu' : u ≠ uid := by
        rintro rfl
        rw [Function.update_self] at honline
        cases honline
      rw [Function.update_of_ne hu'] at honline
      exact (h.carried u hu honline).imp_right (Or.imp (hcoming u).mpr (hleaving u hu').mpr)

/-- **One step.**  It keeps the agreement exactly under the condition. -/
theorem agree_step_iff (hw : WellFormed s) (h : Agree s) (e : Event n) :
    Agree (step s e) ↔ StepOk s e := by
  cases e with
  | connect =>
    refine iff_of_true ?_ trivial
    unfold step
    dsimp only
    split
    · next i hfound => exact h.connect (by simpa using List.find?_some hfound)
    · exact h
  | ready i =>
    refine iff_of_true ?_ trivial
    unfold step
    dsimp only
    split
    · exact h.ready i
    · exact h
  | auth i uid username =>
    refine iff_of_true ?_ trivial
    unfold step
    dsimp only
    split
    · next hok => exact h.auth hok.1.2 uid username
    · exact h
  | logout i =>
    refine iff_of_true ?_ trivial
    unfold step
    dsimp only
    split
    · next hok => exact h.logout hok.2 ""
    · exact h
  | remove i =>
    refine iff_of_true ?_ trivial
    unfold step
    dsimp only
    split
    · exact h.remove i
    · exact h
  | store i =>
    cases hi : s.phases i with
    | authed uid username =>
      simp only [step, StepOk, hi]
      exact agree_store_iff hw h hi
    | idle | stored | leaving =>
      simp only [step, StepOk, hi]
      exact iff_of_true h trivial
  | replace i =>
    cases hi : s.phases i with
    | stored uid =>
      simp only [step, StepOk, hi]
      exact agree_replace_iff hw h hi _
    | idle | authed | leaving =>
      simp only [step, StepOk, hi]
      exact iff_of_true h trivial
  | writeOffline i =>
    cases hi : s.phases i with
    | leaving uid =>
      simp only [step, StepOk, hi]
      refine agree_write_iff h (hw.phases i uid (by rw [hi]; rfl)).1 (fun u => ?_) fun u hu => ?_
      · rw [coming_update, coming_iff s.phases i, hi, or_iff_right not_brings_idle,
          or_iff_right not_brings_leaving]
      · rw [leaving_update, leaving_iff s.phases s.departed i, hi]
        simp [Ne.symm hu]
    | idle | authed | stored =>
      simp only [step, StepOk, hi]
      exact iff_of_true h trivial
  | writeDeparted k =>
    cases hk : s.departed[k]? with
    | some uid =>
      simp only [step, StepOk, hk, Option.mem_def, Option.some.injEq, forall_eq']
      refine agree_write_iff h (hw.departed uid (List.mem_of_getElem? hk)) (fun u => Iff.rfl)
        fun u hu => or_congr_right ⟨List.mem_of_mem_eraseIdx, fun hmem => ?_⟩
      obtain ⟨j, hj⟩ := List.mem_iff_getElem?.mp hmem
      refine List.mem_eraseIdx_iff_getElem?.mpr ⟨j, ?_, hj⟩
      rintro rfl
      exact hu (Option.some.inj (hj.symm.trans hk))
    | none =>
      simp only [step, StepOk, hk]
      exact iff_of_true h fun uid huid => by cases huid

/-! ### Runs -/

theorem Start.wellFormed (h : Start s) : WellFormed s where
  slots := h.slots
  phases i uid huid := by
    rw [h.quiet.1 i] at huid
    cases huid
  departed uid huid := by
    rw [h.quiet.2] at huid
    cases huid

theorem Start.agree (h : Start s) : Agree s where
  online u hu hor := by
    rcases hor with hcarries | ⟨i, username, hi⟩
    · exact (h.agrees u hu).mpr hcarries
    · rw [h.quiet.1 i] at hi
      cases hi
  carried u hu honline := .inl ((h.agrees u hu).mp honline)

/-- The agreement with the handlers in progress is kept exactly under the condition. -/
theorem agree_always_iff (hw : WellFormed s) (h : Agree s) (es : List (Event n)) :
    Runs.Always step (fun s => WellFormed s ∧ Agree s) s es ↔ Runs.Each step StepOk s es :=
  Runs.always_iff_each (fun _ e h => (and_iff_right (h.1.step e)).trans (agree_step_iff h.1 h.2 e))
    ⟨hw, h⟩

/-- **The stored presence is right.**  Logins, also as another user on the same connection, logouts,
replacements and ends of connections run in any order of their steps: while every step meets the
condition, a user is stored as online exactly when an active slot has it, whenever no handler is in
progress. -/
theorem presence_agrees (h : Start s) {es : List (Event n)} (hok : Runs.Each step StepOk s es) :
    Runs.Always step (fun s => Quiet s → PresenceAgrees s) s es :=
  ((agree_always_iff h.wellFormed h.agree es).mpr hok).imp fun _ hs hquiet =>
    hs.2.presenceAgrees hquiet

/-! ### Two runs -/

theorem start_twoReady : Start twoReady where
  quiet := ⟨fun _ => rfl, rfl⟩
  slots i hpos := absurd hpos not_pos_neg_one
  agrees u hu := by
    refine iff_of_false (fun honline => by cases honline) ?_
    rintro ⟨i, hi⟩
    exact not_has_of_neg hu rfl hi

/-- A user logs in and out. -/
def loginLogout : List (Event 2) :=
  [.auth firstSlot 7 "alice", .store firstSlot, .replace firstSlot, .logout firstSlot,
    .writeOffline firstSlot]

theorem presence_agrees_loginLogout :
    Runs.Always step (fun s => Quiet s → PresenceAgrees s) twoReady loginLogout := by
  refine presence_agrees start_twoReady
    ⟨trivial, fun hpos => absurd hpos not_pos_neg_one, .inl rfl, trivial, ⟨?_, ?_⟩, trivial⟩
  · have huid : ∀ i, ((([.auth 0 7 "alice", .store 0, .replace 0, .logout 0] :
        List (Event 2)).foldl step twoReady).slots i).userId ≠ 7 := by decide
    exact fun ⟨i, hi⟩ => huid i hi.2
  · have hphases : ∀ i, (([.auth 0 7 "alice", .store 0, .replace 0, .logout 0] :
        List (Event 2)).foldl step twoReady).phases i ∈ [Phase.idle, .leaving 7] := by decide
    rintro ⟨i, username, hi⟩
    have hmem := hphases i
    rw [show (([.auth 0 7 "alice", .store 0, .replace 0, .logout 0] :
        List (Event 2)).foldl step twoReady).phases i = .authed 7 username from hi] at hmem
    simp at hmem

/-- A connection logs in as one user and then as another one. -/
def otherAccount : List (Event 2) :=
  [.auth firstSlot 7 "alice", .store firstSlot, .replace firstSlot, .auth firstSlot 8 "bob",
    .store firstSlot, .replace firstSlot]

/-- The first user stays online. -/
theorem other_account_stays_online :
    ¬ ∀ es : List (Event 2),
      Runs.Always step (fun s => Quiet s → PresenceAgrees s) twoReady es := by
  intro hall
  have hlast := Runs.always_iff_prefixes.mp (hall otherAccount) otherAccount (List.prefix_refl _)
  have hquiet : Quiet (otherAccount.foldl step twoReady) := ⟨by decide, rfl⟩
  obtain ⟨i, hi⟩ := (hlast hquiet 7 (by decide)).mp (by decide)
  have huid : ∀ i, ((otherAccount.foldl step twoReady).slots i).userId ≠ 7 := by decide
  exact huid i hi.2

end SecChat.Sessions
