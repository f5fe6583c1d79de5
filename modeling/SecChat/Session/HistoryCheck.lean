import SecChat.Session.TranscriptView

/-!
# The check of a history

`verify_history_consistency` compares a window of the history with the digests that were recorded.

* `windowItems`, `lastDigest`: the rows of a window that count, and the digest that counts for an id;
* `Faithful`: what a window has to be;
* `verify_exact`: no warning is given exactly for the faithful windows.
-/

namespace SecChat.Consistency

open Py

variable {P : Prims} {convId : ℤ}

/-! ### Windows -/

variable (P) in
/-- The id of a row that counts, and its digest. -/
def windowItem (row : ℤ × Json) : Except Exn (ℤ × String) := do
  return (row.1, ← messageDigest P row.2)

variable (P) in
/-- The rows of a window that are visible and have a positive id, with their digests. -/
def windowItems (messages : List Json) : Except Exn (List (ℤ × String)) := do
  let relevant := (← messages.mapM relevantMessage).reduceOption
  relevant.mapM (windowItem P)

/-- The digest of the last row with an id. -/
def lastDigest (items : List (ℤ × String)) (id : ℤ) : Option String := items.reverse.lookup id

/-- The rows come in the order of their ids, and between the least and the greatest of them every
recorded message is there with its digest. -/
structure Faithful (known : List (String × Json)) (items : List (ℤ × String)) : Prop where
  ordered : (items.map Prod.fst).Pairwise (· ≤ ·)
  complete : ∀ (id : ℤ) (digest : String), known.lookup (toString id) = some (.str digest) →
    (∃ first ∈ items, first.1 ≤ id) → (∃ last ∈ items, id ≤ last.1) →
      lastDigest items id = some digest

/-- An entry of a transcript. -/
def entryOf (item : ℤ × String) : String × Json := (toString item.1, .str item.2)

theorem incomingItem_eq : incomingItem P = fun row => (windowItem P row).map entryOf := by
  funext row
  unfold incomingItem windowItem
  cases messageDigest P row.2 <;> rfl

theorem mapM_map {ε α β γ : Type} (f : α → Except ε β) (g : β → γ) (l : List α) :
    l.mapM (fun a => (f a).map g) = (l.mapM f).map (List.map g) := by
  induction l with
  | nil => rfl
  | cons a l ih =>
    rw [List.mapM_cons, List.mapM_cons, ih]
    cases f a with
    | error e => rfl
    | ok b => cases l.mapM f <;> rfl

/-- The ids of the rows that count are those of the items. -/
theorem ids_of_windowItem {relevant : List (ℤ × Json)} {items : List (ℤ × String)}
    (h : relevant.mapM (windowItem P) = .ok items) :
    relevant.map Prod.fst = items.map Prod.fst := by
  have hrows := mapM_eq_ok h
  clear h
  induction hrows with
  | nil => rfl
  | cons hrow _ ih =>
    obtain ⟨digest, -, hitem⟩ := bind_eq_ok_iff.mp hrow
    obtain rfl := Except.ok.inj hitem
    rw [List.map_cons, List.map_cons, ih]

/-! ### Least and greatest ids -/

theorem foldl_min_le_iff {l : List ℤ} {a x : ℤ} :
    l.foldl min a ≤ x ↔ a ≤ x ∨ ∃ b ∈ l, b ≤ x := by
  induction l generalizing a with
  | nil => simp
  | cons b l ih =>
    rw [List.foldl_cons, ih, min_le_iff]
    simp [or_assoc]

theorem le_foldl_max_iff {l : List ℤ} {a x : ℤ} :
    x ≤ l.foldl max a ↔ x ≤ a ∨ ∃ b ∈ l, x ≤ b := by
  induction l generalizing a with
  | nil => simp
  | cons b l ih =>
    rw [List.foldl_cons, ih, le_max_iff]
    simp [or_assoc]

/-! ### Lookups -/

theorem lookup_foldl_dictSet (pairs kvs : List (String × Json)) (q : String) :
    (pairs.foldl dictSet kvs).lookup q = (pairs.reverse.lookup q).or (kvs.lookup q) := by
  induction pairs generalizing kvs with
  | nil => rfl
  | cons pair pairs ih =>
    obtain ⟨k, v⟩ := pair
    rw [List.foldl_cons, ih, lookup_dictSet, List.reverse_cons, List.lookup_append]
    by_cases hq : q = k
    · subst hq
      cases pairs.reverse.lookup q <;> simp
    · rw [if_neg hq]
      cases pairs.reverse.lookup q <;> simp [List.lookup_cons, beq_eq_false_iff_ne.mpr hq]

theorem lookup_map_entryOf (items : List (ℤ × String)) (id : ℤ) :
    (items.map entryOf).lookup (toString id) = (items.lookup id).map Json.str := by
  induction items with
  | nil => rfl
  | cons item items ih =>
    obtain ⟨id', digest⟩ := item
    rw [List.map_cons, entryOf, List.lookup_cons, List.lookup_cons]
    by_cases hid : id = id'
    · rw [hid, beq_self_eq_true, beq_self_eq_true]
      rfl
    · have hkey : toString id ≠ toString id' := fun h => hid (toString_int_injective h)
      rw [beq_eq_false_iff_ne.mpr hkey, beq_eq_false_iff_ne.mpr hid]
      exact ih

/-- The last row with an id counts. -/
theorem lookup_incoming (items : List (ℤ × String)) (id : ℤ) :
    (dictOfPairs (items.map entryOf)).lookup (toString id) = (lastDigest items id).map Json.str := by
  rw [dictOfPairs, lookup_foldl_dictSet, List.lookup_nil, Option.or_none, ← List.map_reverse,
    lookup_map_entryOf, lastDigest]

theorem mem_of_lastDigest {items : List (ℤ × String)} {id : ℤ} {digest : String}
    (h : lastDigest items id = some digest) : (id, digest) ∈ items := by
  obtain ⟨front, back, hitems, -⟩ := List.lookup_eq_some_iff.mp h
  rw [← List.mem_reverse, hitems]
  exact List.mem_append_right front List.mem_cons_self

/-! ### The warnings -/

/-- The entries of a transcript with the numbers that they are sorted by. -/
theorem mapM_keyedItem {messages : List (String × Json)}
    (h : ∀ p ∈ messages, ∃ (id : ℤ) (digest : String), p = (toString id, .str digest)) :
    ∃ keyed, messages.mapM keyedItem = .ok keyed ∧ ∀ k, k ∈ keyed ↔
      ∃ (id : ℤ) (digest : String), k = (id, toString id, .str digest) ∧
        (toString id, Json.str digest) ∈ messages := by
  induction messages with
  | nil => exact ⟨[], rfl, by simp⟩
  | cons p messages ih =>
    obtain ⟨keyed, hkeyed, hmem⟩ := ih fun q hq => h q (List.mem_cons_of_mem _ hq)
    obtain ⟨id, digest, rfl⟩ := h p List.mem_cons_self
    have hitem : keyedItem (toString id, .str digest) = .ok (id, toString id, .str digest) := by
      rw [keyedItem, intOfStr_toString]
      rfl
    refine ⟨(id, toString id, .str digest) :: keyed, ?_, fun k => ?_⟩
    · rw [List.mapM_cons, hitem, ok_bind, hkeyed]
      rfl
    · rw [List.mem_cons, hmem]
      constructor
      · rintro (rfl | ⟨id', digest', rfl, hin⟩)
        · exact ⟨id, digest, rfl, List.mem_cons_self⟩
        · exact ⟨id', digest', rfl, List.mem_cons_of_mem _ hin⟩
      · rintro ⟨id', digest', rfl, hin⟩
        rcases List.mem_cons.mp hin with heq | hin
        · obtain ⟨hid, hdigest⟩ := Prod.mk.inj heq
          obtain rfl := toString_int_injective hid
          rw [hdigest]
          exact .inl rfl
        · exact .inr ⟨id', digest', rfl, hin⟩

/-- A recorded message is not warned about when it is outside of the window or there unchanged. -/
theorem historyWarning_eq_none_iff {items : List (ℤ × String)} {lo hi id : ℤ} {digest : String}
    (hlo : ∀ x, lo ≤ x ↔ ∃ first ∈ items, first.1 ≤ x)
    (hhi : ∀ x, x ≤ hi ↔ ∃ last ∈ items, x ≤ last.1) :
    historyWarning lo hi (dictOfPairs (items.map entryOf)) (id, toString id, .str digest) = none ↔
      ((∃ first ∈ items, first.1 ≤ id) → (∃ last ∈ items, id ≤ last.1) →
        lastDigest items id = some digest) := by
  unfold historyWarning
  dsimp only
  rw [lookup_incoming, ← hlo, ← hhi]
  cases hlast : lastDigest items id with
  | none =>
    by_cases hin : lo ≤ id ∧ id ≤ hi
    · simp [hin.1, hin.2]
    · simp only [Option.map_none, if_neg hin, true_iff]
      exact fun h h' => absurd ⟨h, h'⟩ hin
  | some shown =>
    have hmem := mem_of_lastDigest hlast
    have hin : lo ≤ id ∧ id ≤ hi := ⟨(hlo id).mpr ⟨_, hmem, le_rfl⟩, (hhi id).mpr ⟨_, hmem, le_rfl⟩⟩
    by_cases hsame : shown = digest
    · simp [hsame, Json.pyEq]
    · simp [hin.1, hin.2, hsame, Json.pyEq]

theorem insertionSort_eq_iff {l : List ℤ} :
    l.insertionSort (· ≤ ·) = l ↔ l.Pairwise (· ≤ ·) := by
  constructor
  · intro h
    rw [← h]
    exact List.pairwise_insertionSort _ l
  · exact fun h => h.insertionSort_eq

/-- Windows with rows that count: which of them are not warned about. -/
theorem verify_items {state : TranscriptState} (hstate : WellKept state.messages)
    {messages : List Json} {items : List (ℤ × String)} (hitems : windowItems P messages = .ok items)
    (hne : items ≠ []) :
    ∃ warnings saved, verifyHistoryConsistency P convId messages state =
      .ok (warnings, some saved) ∧ (warnings = [] ↔ Faithful state.messages items) := by
  obtain ⟨read, hread, hrows⟩ := bind_eq_ok_iff.mp hitems
  have hids := ids_of_windowItem hrows
  obtain ⟨keyed, hkeyed, hmem⟩ := mapM_keyedItem hstate.entries
  have hincoming : read.reduceOption.mapM (incomingItem P) = .ok (items.map entryOf) := by
    rw [incomingItem_eq, mapM_map, hrows]
    rfl
  obtain ⟨first, rest, hcons⟩ := List.exists_cons_of_ne_nil hne
  have hcount : read.reduceOption.map Prod.fst = first.1 :: rest.map Prod.fst := by
    rw [hids, hcons, List.map_cons]
  have hlo : ∀ x, (first.1 :: rest.map Prod.fst).foldl min first.1 ≤ x ↔
      ∃ row ∈ items, row.1 ≤ x := by
    intro x
    rw [foldl_min_le_iff, hcons]
    simp
  have hhi : ∀ x, x ≤ (first.1 :: rest.map Prod.fst).foldl max first.1 ↔
      ∃ row ∈ items, x ≤ row.1 := by
    intro x
    rw [le_foldl_max_iff, hcons]
    simp
  rw [verifyHistoryConsistency, hread, ok_bind]
  simp only [hcount, hincoming, hkeyed, ok_bind, pure_eq_ok]
  refine ⟨_, _, rfl, ?_⟩
  rw [List.take_eq_nil_iff, or_iff_right (by decide), List.append_eq_nil_iff,
    List.filterMap_eq_nil_iff]
  have hordered : (if first.1 :: rest.map Prod.fst ≠
        (first.1 :: rest.map Prod.fst).insertionSort (· ≤ ·) then
      ["Server returned this history out of message order."] else []) = [] ↔
      (items.map Prod.fst).Pairwise (· ≤ ·) := by
    rw [hcons, List.map_cons, ← insertionSort_eq_iff, eq_comm (b := first.1 :: rest.map Prod.fst)]
    simp
  rw [hordered]
  constructor
  · rintro ⟨hsorted, hnone⟩
    refine ⟨hsorted, fun id digest hknown => ?_⟩
    have hin := (lookup_eq_some_iff_mem hstate.nodup).mp hknown
    have hkey : (id, toString id, Json.str digest) ∈ keyed.insertionSort fun a b => a.1 ≤ b.1 := by
      rw [List.mem_insertionSort, hmem]
      exact ⟨id, digest, rfl, hin⟩
    exact (historyWarning_eq_none_iff hlo hhi).mp (hnone _ hkey)
  · intro hfaithful
    refine ⟨hfaithful.ordered, fun k hk => ?_⟩
    rw [List.mem_insertionSort, hmem] at hk
    obtain ⟨id, digest, rfl, hin⟩ := hk
    exact (historyWarning_eq_none_iff hlo hhi).mpr
      (hfaithful.complete id digest ((lookup_eq_some_iff_mem hstate.nodup).mpr hin))

/-- A window without rows that count changes nothing. -/
theorem verify_nil {state : TranscriptState} {messages : List Json}
    (hitems : windowItems P messages = .ok []) :
    verifyHistoryConsistency P convId messages state = .ok ([], none) := by
  obtain ⟨read, hread, hrows⟩ := bind_eq_ok_iff.mp hitems
  have hids := ids_of_windowItem hrows
  rw [verifyHistoryConsistency, hread, ok_bind]
  simp only [hids, List.map_nil]
  rfl

/-- A row that cannot be read ends the call. -/
theorem verify_error {state : TranscriptState} {messages : List Json} {e : Exn}
    (hitems : windowItems P messages = .error e) :
    verifyHistoryConsistency P convId messages state = .error e := by
  unfold windowItems at hitems
  rw [verifyHistoryConsistency]
  cases hread : messages.mapM relevantMessage with
  | error e' =>
    rw [hread] at hitems
    exact congrArg Except.error (Except.error.inj hitems)
  | ok read =>
    rw [hread, ok_bind] at hitems
    rw [ok_bind]
    dsimp only
    have hincoming : read.reduceOption.mapM (incomingItem P) = .error e := by
      rw [incomingItem_eq, mapM_map, hitems]
      rfl
    split
    · next hnil =>
      rw [List.map_eq_nil_iff.mp hnil] at hitems
      cases hitems
    · rw [hincoming]
      rfl

/-- **The check of a history is exact.**  After any calls, for every window of which the rows can be
read: no warning is given if and only if no row of it counts, or the rows come in the order of their
ids and every recorded message between the least and the greatest of them is there, last with the
recorded digest.  A row that cannot be read raises, and nothing is returned. -/
theorem verify_exact {s : Engine} (hs : s.Fresh) (calls : List Call) (convId : ℤ)
    (messages : List Json) :
    let state := (s.run P calls).load convId
    (∀ items, windowItems P messages = .ok items →
      ((∃ saved, verifyHistoryConsistency P convId messages state = .ok ([], saved)) ↔
        items = [] ∨ Faithful state.messages items)) ∧
    (∀ e, windowItems P messages = .error e →
      verifyHistoryConsistency P convId messages state = .error e) := by
  intro state
  have hstate : Kept P convId state :=
    kept_keptByCalls.load (kept_keptByCalls.of_fresh hs calls) convId
  refine ⟨fun items hitems => ?_, fun e he => verify_error he⟩
  by_cases hne : items = []
  · subst hne
    exact iff_of_true ⟨none, verify_nil hitems⟩ (.inl rfl)
  · obtain ⟨warnings, saved, hverify, hiff⟩ := verify_items hstate.wellKept hitems hne
    rw [or_iff_right hne, ← hiff, hverify]
    constructor
    · rintro ⟨saved', heq⟩
      exact (Prod.mk.inj (Except.ok.inj heq)).1
    · rintro rfl
      exact ⟨_, rfl⟩

/-! ### A window -/

/-- A row as the session records it counts when it is visible. -/
theorem windowItems_recordedItem {id sender : ℤ} {body ts : String} (hid : 0 < id)
    (hbody : isUserVisibleBody body = true) :
    windowItems P [recordedItem id sender body ts 0 false] =
      .ok [(id, recordedDigest P id sender body 0 false)] := by
  have hrelevant : relevantMessage (recordedItem id sender body ts 0 false) =
      .ok (some (id, recordedItem id sender body ts 0 false)) := by
    simp [relevantMessage, recordedItem, intField, hid, hbody]
  have hitem : windowItem P (id, recordedItem id sender body ts 0 false) =
      .ok (id, recordedDigest P id sender body 0 false) := by
    rw [windowItem, messageDigest_recordedItem]
    rfl
  simp [windowItems, hrelevant, hitem, List.reduceOption]

/-- The second of two messages alone is a faithful window. -/
theorem verify_exact_second :
    ∃ saved, verifyHistoryConsistency mixedPrims 5 [recordedItem 2 2 "two" "12:00" 0 false]
      (((newSession 1).run mixedPrims [live 1 "one", live 2 "two"]).load 5) = .ok ([], saved) := by
  refine ((verify_exact (newSession_fresh 1) [live 1 "one", live 2 "two"] 5 _).1 _
    (windowItems_recordedItem (by decide) isUserVisibleBody_two)).mpr (.inr ⟨?_, ?_⟩)
  · exact List.pairwise_singleton _ _
  · intro id digest hknown hfirst hlast
    -- only the second message is in the range of the window
    have hid : id = 2 := by
      simp only [List.mem_singleton, exists_eq_left] at hfirst hlast
      exact le_antisymm hlast hfirst
    subst hid
    have hmessages : (((newSession 1).run mixedPrims [live 1 "one", live 2 "two"]).load 5).messages =
        _ := messages_live (by decide) (by decide) isUserVisibleBody_one isUserVisibleBody_two
    rw [hmessages, lookup_dictSet, if_pos rfl] at hknown
    rw [← Json.str.inj (Option.some.inj hknown)]
    rfl

end SecChat.Consistency
