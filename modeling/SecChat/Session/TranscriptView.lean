import SecChat.Library.HashChain
import SecChat.Protocol.TermModel
import SecChat.Session.Consistency

/-!
# The transcript and the view

The view of a conversation is the map from message ids to digests.  What the transcript says is a
function of it, and the head at a message binds it up to there.

* `seenDigest`: the view;
* `WellKept`, `Kept`: what every call keeps;
* `KeptByCalls`: from the calls to runs;
* `sortedItems_eq`, `lookup_headsById`: the chain is over the view, in the order of the ids;
* `transcript_of_view`: the three properties, for any two runs.
-/

namespace SecChat.Consistency

open Py

/-! ### The view -/

/-- The digest that counts for an id. -/
def seenDigest (messages : List (String × Json)) (id : ℤ) : Option String :=
  match messages.lookup (toString id) with
  | some (.str digest) => if 0 < id ∧ digest ≠ "" then some digest else none
  | _ => none

/-- Every key is the text of an integer, no key is there twice, and the values are texts. -/
structure WellKept (messages : List (String × Json)) : Prop where
  nodup : (messages.map Prod.fst).Nodup
  entries : ∀ p ∈ messages, ∃ (id : ℤ) (digest : String), p = (toString id, .str digest)

theorem WellKept.nil : WellKept [] := ⟨List.nodup_nil, fun _ hp => absurd hp List.not_mem_nil⟩

theorem WellKept.set {messages : List (String × Json)} (h : WellKept messages) (id : ℤ)
    (digest : String) : WellKept (dictSet messages (toString id, .str digest)) := by
  refine ⟨nodup_keys_dictSet h.nodup, fun p hp => ?_⟩
  rcases mem_dictSet hp with rfl | hp
  · exact ⟨id, digest, rfl⟩
  · exact h.entries p hp

theorem WellKept.update {messages items : List (String × Json)} (h : WellKept messages)
    (hitems : ∀ p ∈ items, ∃ (id : ℤ) (digest : String), p = (toString id, .str digest)) :
    WellKept (items.foldl dictSet messages) := by
  induction items generalizing messages with
  | nil => exact h
  | cons p items ih =>
    obtain ⟨id, digest, rfl⟩ := hitems p List.mem_cons_self
    exact ih (h.set id digest) fun q hq => hitems q (List.mem_cons_of_mem _ hq)

/-- What `_recompute_transcript_chain` takes of one item. -/
def chainItem (entry : String × Json) : Option (ℤ × String) :=
  match Json.intOfStr entry.1, entry.2 with
  | .ok mid, .str digest => if 0 < mid ∧ digest ≠ "" then some (mid, digest) else none
  | _, _ => none

theorem chainItems_eq (messages : List (String × Json)) :
    chainItems messages = messages.filterMap chainItem := by
  refine congrArg (fun f => messages.filterMap f) (funext fun entry => ?_)
  delta chainItem
  cases Json.intOfStr entry.1 with
  | error e => rfl
  | ok mid => cases entry.2 <;> rfl

theorem chainItem_text (id : ℤ) (digest : String) :
    chainItem (toString id, .str digest) =
      if 0 < id ∧ digest ≠ "" then some (id, digest) else none := by
  unfold chainItem
  dsimp only
  rw [intOfStr_toString]

/-- The items are the view. -/
theorem mem_chainItems {messages : List (String × Json)} (h : WellKept messages) {id : ℤ}
    {digest : String} : (id, digest) ∈ chainItems messages ↔ seenDigest messages id = some digest := by
  rw [chainItems_eq, List.mem_filterMap]
  constructor
  · rintro ⟨p, hp, hitem⟩
    obtain ⟨id', digest', rfl⟩ := h.entries p hp
    rw [chainItem_text] at hitem
    split at hitem
    · next hcount =>
      obtain ⟨rfl, rfl⟩ := Prod.mk.inj (Option.some.inj hitem)
      simp only [seenDigest, (lookup_eq_some_iff_mem h.nodup).mpr hp]
      exact if_pos hcount
    · cases hitem
  · intro hseen
    unfold seenDigest at hseen
    split at hseen
    · next digest' hlookup =>
      split at hseen
      · next hcount =>
        obtain rfl := Option.some.inj hseen
        exact ⟨_, (lookup_eq_some_iff_mem h.nodup).mp hlookup,
          (chainItem_text id digest').trans (if_pos hcount)⟩
      · cases hseen
    · cases hseen

/-- The id of an item is a key. -/
theorem mem_keys_of_mem_chainItems {messages : List (String × Json)} (h : WellKept messages) {id : ℤ}
    (hid : id ∈ (chainItems messages).map Prod.fst) : toString id ∈ messages.map Prod.fst := by
  obtain ⟨item, hitem, hid⟩ := List.mem_map.mp hid
  rw [chainItems_eq] at hitem
  obtain ⟨p, hp, hitem⟩ := List.mem_filterMap.mp hitem
  obtain ⟨id', digest, rfl⟩ := h.entries p hp
  rw [chainItem_text] at hitem
  split at hitem
  · have hfst : id' = id := (congrArg Prod.fst (Option.some.inj hitem)).trans hid
    rw [← hfst]
    exact List.mem_map_of_mem hp
  · cases hitem

/-- No id counts twice. -/
theorem nodup_chainItems {messages : List (String × Json)} (h : WellKept messages) :
    ((chainItems messages).map Prod.fst).Nodup := by
  induction messages with
  | nil => exact List.nodup_nil
  | cons p messages ih =>
    obtain ⟨hnew, hnodup⟩ := List.nodup_cons.mp h.nodup
    have htail : WellKept messages :=
      ⟨hnodup, fun q hq => h.entries q (List.mem_cons_of_mem _ hq)⟩
    obtain ⟨id, digest, rfl⟩ := h.entries p List.mem_cons_self
    have hcons : chainItems ((toString id, .str digest) :: messages) =
        (chainItem (toString id, .str digest)).toList ++ chainItems messages := by
      rw [chainItems_eq, List.filterMap_cons, chainItems_eq]
      cases chainItem (toString id, .str digest) <;> rfl
    rw [hcons, chainItem_text]
    split
    · exact List.nodup_cons.mpr
        ⟨fun hmem => hnew (mem_keys_of_mem_chainItems htail hmem), ih htail⟩
    · exact ih htail

instance : Std.Total tupleLe where
  total a b := by
    rcases lt_trichotomy a.1 b.1 with h | h | h
    · exact .inl (.inl h)
    · rcases le_total a.2 b.2 with h' | h'
      · exact .inl (.inr ⟨h, h'⟩)
      · exact .inr (.inr ⟨h.symm, h'⟩)
    · exact .inr (.inl h)

instance : IsTrans (ℤ × String) tupleLe where
  trans a b c := by
    rintro (hab | ⟨hab, hab'⟩) (hbc | ⟨hbc, hbc'⟩)
    · exact .inl (hab.trans hbc)
    · exact .inl (hab.trans_eq hbc)
    · exact .inl (hab.trans_lt hbc)
    · exact .inr ⟨hab.trans hbc, hab'.trans hbc'⟩

/-- The items are chained in the order of their ids. -/
theorem pairwise_sortedItems {messages : List (String × Json)} (h : WellKept messages) :
    (sortedItems messages).Pairwise fun a b => a.1 < b.1 := by
  have hsorted : (sortedItems messages).Pairwise tupleLe := List.pairwise_insertionSort _ _
  have hnodup : ((sortedItems messages).map Prod.fst).Nodup :=
    ((List.perm_insertionSort tupleLe (chainItems messages)).map Prod.fst).nodup_iff.mpr
      (nodup_chainItems h)
  refine (hsorted.and (List.pairwise_map.mp hnodup)).imp ?_
  rintro a b ⟨hlt | ⟨heq, -⟩, hne⟩
  · exact hlt
  · exact absurd heq hne

theorem mem_sortedItems {messages : List (String × Json)} (h : WellKept messages) {id : ℤ}
    {digest : String} :
    (id, digest) ∈ sortedItems messages ↔ seenDigest messages id = some digest := by
  rw [sortedItems, List.mem_insertionSort, mem_chainItems h]

/-- The items up to an id. -/
def upTo (m : ℤ) (messages : List (String × Json)) : List (ℤ × String) :=
  (sortedItems messages).filter fun item => decide (item.1 ≤ m)

theorem pairwise_upTo {messages : List (String × Json)} (h : WellKept messages) (m : ℤ) :
    (upTo m messages).Pairwise fun a b => a.1 < b.1 := (pairwise_sortedItems h).filter _

theorem mem_upTo {messages : List (String × Json)} (h : WellKept messages) {m id : ℤ}
    {digest : String} :
    (id, digest) ∈ upTo m messages ↔ id ≤ m ∧ seenDigest messages id = some digest := by
  rw [upTo, List.mem_filter, mem_sortedItems h, decide_eq_true_eq, and_comm]

/-- Views that agree up to an id have the same items up to there. -/
theorem upTo_eq_iff {messages messages' : List (String × Json)} (h : WellKept messages)
    (h' : WellKept messages') {m : ℤ} :
    upTo m messages = upTo m messages' ↔
      ∀ id ≤ m, seenDigest messages id = seenDigest messages' id := by
  constructor
  · intro heq id hid
    refine Option.ext fun digest => ?_
    have hmem : (id, digest) ∈ upTo m messages ↔ (id, digest) ∈ upTo m messages' := by rw [heq]
    rw [mem_upTo h, mem_upTo h', and_iff_right hid, and_iff_right hid] at hmem
    exact hmem
  · intro hsame
    refine HashChain.eq_of_mem_iff (pairwise_upTo h m) (pairwise_upTo h' m) ?_
    rintro ⟨id, digest⟩
    rw [mem_upTo h, mem_upTo h']
    exact and_congr_right fun hid => by rw [hsame id hid]

/-! ### The chain over the view -/

variable {P : Prims} {convId : ℤ}

theorem fst_foldl_chainStep (l : List (ℤ × String)) (acc : String × List (String × Json)) :
    (l.foldl (chainStep P convId) acc).1 = HashChain.chain (nextHead P convId) acc.1 l := by
  induction l generalizing acc with
  | nil => rfl
  | cons item l ih => exact ih _

/-- The head at an id is the chain over the items up to it. -/
theorem lookup_foldl_chainStep {l : List (ℤ × String)} (h : l.Pairwise fun a b => a.1 < b.1)
    (m : ℤ) :
    (l.foldl (chainStep P convId) (zeroHead, [])).2.lookup (toString m) =
      if m ∈ l.map Prod.fst then
        some (.str (HashChain.chain (nextHead P convId) zeroHead
          (l.filter fun item => decide (item.1 ≤ m))))
      else none := by
  induction l using List.reverseRecOn with
  | nil => rfl
  | append_singleton l last ih =>
    have hl := (List.pairwise_append.mp h).1
    have hmem : m ∈ (l ++ [last]).map Prod.fst ↔ m ∈ l.map Prod.fst ∨ m = last.1 := by
      rw [List.map_append, List.map_singleton, List.mem_append, List.mem_singleton]
    rw [List.foldl_append, List.foldl_cons, List.foldl_nil, chainStep, lookup_dictSet,
      fst_foldl_chainStep]
    by_cases hm : m = last.1
    · subst hm
      rw [if_pos rfl, if_pos (hmem.mpr (.inr rfl)), HashChain.filter_concat_of_forall_le h,
        HashChain.chain_concat]
    · rw [if_neg (fun heq => hm (toString_int_injective heq)), ih hl]
      by_cases hold : m ∈ l.map Prod.fst
      · obtain ⟨item, hitem, rfl⟩ := List.mem_map.mp hold
        have hlt : item.1 < last.1 :=
          (List.pairwise_append.mp h).2.2 item hitem last (List.mem_singleton_self last)
        rw [if_pos hold, if_pos (hmem.mpr (.inl hold)), HashChain.filter_concat_of_lt hlt]
      · rw [if_neg hold, if_neg (fun h => (hmem.mp h).elim hold hm)]

/-- The head at a message. -/
def headAt (state : TranscriptState) (m : ℤ) : Option Json := state.headsById.lookup (toString m)

/-- What every call keeps: the keys are as they should be, and the chain is up to date. -/
structure Kept (P : Prims) (convId : ℤ) (state : TranscriptState) : Prop where
  wellKept : WellKept state.messages
  computed : recomputeTranscriptChain P convId state = state

theorem kept_recompute {state : TranscriptState} (h : WellKept state.messages) :
    Kept P convId (recomputeTranscriptChain P convId state) := ⟨h, rfl⟩

theorem kept_empty : Kept P convId {} := ⟨WellKept.nil, rfl⟩

theorem Kept.headAt_eq {state : TranscriptState} (h : Kept P convId state) (m : ℤ) :
    headAt state m =
      if (seenDigest state.messages m).isSome then
        some (.str (HashChain.chain (nextHead P convId) zeroHead (upTo m state.messages)))
      else none := by
  have hmem : m ∈ (sortedItems state.messages).map Prod.fst ↔
      (seenDigest state.messages m).isSome = true := by
    rw [List.mem_map, Option.isSome_iff_exists]
    constructor
    · rintro ⟨⟨id, digest⟩, hitem, rfl⟩
      exact ⟨digest, (mem_sortedItems h.wellKept).mp hitem⟩
    · rintro ⟨digest, hdigest⟩
      exact ⟨(m, digest), (mem_sortedItems h.wellKept).mpr hdigest, rfl⟩
  rw [headAt, ← h.computed]
  refine (lookup_foldl_chainStep (pairwise_sortedItems h.wellKept) m).trans ?_
  exact if_congr hmem rfl rfl

/-! ### Calls -/

theorem Kept.recorded {state state' : TranscriptState} (h : Kept P convId state)
    {msgId senderId editTarget : ℤ} {body ts : String} {deleted : Bool}
    (hrec : recordTranscriptMessage P convId msgId senderId body ts editTarget deleted state =
      .ok (some state')) : Kept P convId state' := by
  unfold recordTranscriptMessage at hrec
  split at hrec
  · cases hrec
  · obtain ⟨digest, -, hrec⟩ := bind_eq_ok_iff.mp hrec
    obtain rfl := Option.some.inj (Except.ok.inj hrec)
    exact kept_recompute (h.wellKept.set msgId digest)

theorem incomingItem_text {relevant : ℤ × Json} {p : String × Json}
    (h : incomingItem P relevant = .ok p) :
    ∃ (id : ℤ) (digest : String), p = (toString id, .str digest) := by
  obtain ⟨digest, -, h⟩ := bind_eq_ok_iff.mp h
  exact ⟨relevant.1, digest, (Except.ok.inj h).symm⟩

theorem entries_dictOfPairs {pairs : List (String × Json)}
    (h : ∀ p ∈ pairs, ∃ (id : ℤ) (digest : String), p = (toString id, .str digest)) :
    ∀ p ∈ dictOfPairs pairs, ∃ (id : ℤ) (digest : String), p = (toString id, .str digest) :=
  (WellKept.nil.update h).entries

theorem Kept.verified {state state' : TranscriptState} (h : Kept P convId state)
    {messages : List Json} {warnings : List String}
    (hver : verifyHistoryConsistency P convId messages state = .ok (warnings, some state')) :
    Kept P convId state' := by
  obtain ⟨read, -, hver⟩ := bind_eq_ok_iff.mp hver
  dsimp only at hver
  split at hver
  · cases hver
  · obtain ⟨incoming, hincoming, hver⟩ := bind_eq_ok_iff.mp hver
    obtain ⟨known, -, hver⟩ := bind_eq_ok_iff.mp hver
    obtain ⟨-, hstate⟩ := Prod.mk.inj (Except.ok.inj hver)
    obtain rfl := Option.some.inj hstate
    have htexts : ∀ p ∈ incoming, ∃ (id : ℤ) (digest : String), p = (toString id, .str digest) := by
      intro p hp
      obtain ⟨relevant, -, hitem⟩ := forall₂_mem_right (mapM_eq_ok hincoming) p hp
      exact incomingItem_text hitem
    exact kept_recompute (h.wellKept.update (entries_dictOfPairs htexts))

theorem Kept.created {state state' : TranscriptState} (h : Kept P convId state) {myUid now : ℤ}
    {identity : Option Seed} {payload : Json}
    (hcreate : createTranscriptCheckpoint P convId myUid now identity state =
      .ok (some (payload, state'))) : Kept P convId state' := by
  cases identity with
  | none => cases hcreate
  | some identity =>
    unfold createTranscriptCheckpoint at hcreate
    dsimp only at hcreate
    split at hcreate
    · cases hcreate
    · obtain ⟨hash, -, hcreate⟩ := bind_eq_ok_iff.mp hcreate
      obtain ⟨-, rfl⟩ := Prod.mk.inj (Option.some.inj (Except.ok.inj hcreate))
      exact ⟨h.wellKept, rfl⟩

theorem Kept.compared {state state' : TranscriptState} (h : Kept P convId state) {payload : Json}
    {verifySignature : Bool} {warnings : List String}
    (hrec : recordTranscriptCheckpoint P convId payload verifySignature state =
      .ok (warnings, state')) : Kept P convId state' := by
  obtain ⟨read, -, hrec⟩ := bind_eq_ok_iff.mp hrec
  dsimp only at hrec
  obtain ⟨changed, -, hrec⟩ := bind_eq_ok_iff.mp hrec
  obtain ⟨stored, -, hrec⟩ := bind_eq_ok_iff.mp hrec
  obtain ⟨-, rfl⟩ := Prod.mk.inj (Except.ok.inj hrec)
  exact ⟨h.wellKept, rfl⟩

/-- What a property of transcripts needs in order to hold in every run. -/
structure KeptByCalls (P : Prims) (Q : ℤ → TranscriptState → Prop) : Prop where
  empty : ∀ convId, Q convId {}
  recorded : ∀ {convId : ℤ} {state state' : TranscriptState} {msgId senderId editTarget : ℤ}
    {body ts : String} {deleted : Bool}, Q convId state →
    recordTranscriptMessage P convId msgId senderId body ts editTarget deleted state =
      .ok (some state') → Q convId state'
  verified : ∀ {convId : ℤ} {state state' : TranscriptState} {messages : List Json}
    {warnings : List String}, Q convId state →
    verifyHistoryConsistency P convId messages state = .ok (warnings, some state') →
    Q convId state'
  created : ∀ {convId : ℤ} {state state' : TranscriptState} {myUid now : ℤ}
    {identity : Option Seed} {payload : Json}, Q convId state →
    createTranscriptCheckpoint P convId myUid now identity state = .ok (some (payload, state')) →
    Q convId state'
  compared : ∀ {convId : ℤ} {state state' : TranscriptState} {payload : Json}
    {verifySignature : Bool} {warnings : List String}, Q convId state →
    recordTranscriptCheckpoint P convId payload verifySignature state = .ok (warnings, state') →
    Q convId state'

theorem kept_keptByCalls : KeptByCalls P (Kept P) where
  empty _ := kept_empty
  recorded h := h.recorded
  verified h := h.verified
  created h := h.created
  compared h := h.compared

namespace KeptByCalls

variable {Q : ℤ → TranscriptState → Prop}

theorem load (hQ : KeptByCalls P Q) {s : Engine} (h : ∀ convId, Q convId (s.files convId))
    (convId : ℤ) : Q convId (s.load convId) := by
  unfold Engine.load
  split
  · exact h convId
  · exact hQ.empty convId

theorem save {s : Engine} (h : ∀ convId, Q convId (s.files convId)) {convId : ℤ}
    {state : TranscriptState} (hstate : Q convId state) :
    ∀ c, Q c ((s.save convId state).files c) := by
  unfold Engine.save
  split
  · intro c
    show Q c (Function.update s.files convId state c)
    by_cases hc : c = convId
    · subst hc
      rwa [Function.update_self]
    · rw [Function.update_of_ne hc]
      exact h c
  · exact h

/-- One call keeps the property. -/
theorem step (hQ : KeptByCalls P Q) {s : Engine} (h : ∀ convId, Q convId (s.files convId))
    (call : Call) : ∀ convId, Q convId ((s.step P call).files convId) := by
  cases call with
  | record convId msgId senderId body ts editTarget deleted =>
    unfold Engine.step
    dsimp only
    split
    · next hrec => exact save h (hQ.recorded (hQ.load h convId) hrec)
    · exact h
  | verify convId messages =>
    unfold Engine.step
    dsimp only
    split
    · next hver => exact save h (hQ.verified (hQ.load h convId) hver)
    · exact h
  | createCheckpoint convId now =>
    unfold Engine.step
    dsimp only
    split
    · next hcreate => exact save h (hQ.created (hQ.load h convId) hcreate)
    · exact h
  | recordCheckpoint convId payload verifySignature =>
    unfold Engine.step
    dsimp only
    split
    · next hrec => exact save h (hQ.compared (hQ.load h convId) hrec)
    · exact h

theorem run (hQ : KeptByCalls P Q) {s : Engine} (h : ∀ convId, Q convId (s.files convId))
    (calls : List Call) : ∀ convId, Q convId ((s.run P calls).files convId) := by
  induction calls generalizing s with
  | nil => exact h
  | cons call calls ih => exact ih (hQ.step h call)

/-- It holds in every session that began with no transcripts. -/
theorem of_fresh (hQ : KeptByCalls P Q) {s : Engine} (hs : s.Fresh) (calls : List Call) :
    ∀ convId, Q convId ((s.run P calls).files convId) :=
  hQ.run (fun c => by rw [hs c]; exact hQ.empty c) calls

end KeptByCalls

/-! ### Binding -/

/-- What is hashed for a list of items. -/
def hashedRecords (P : Prims) (convId : ℤ) (items : List (ℤ × String)) : List Bytes :=
  (HashChain.links (nextHead P convId) zeroHead items).map fun p =>
    dumps (chainRecord convId p.1 p.2)

/-- SHA-256 does not collide on what is hashed for two lists, and makes no digest of zeros there. -/
structure HashesApart (P : Prims) (convId : ℤ) (items items' : List (ℤ × String)) : Prop where
  pairs : ∀ a ∈ hashedRecords P convId items, ∀ b ∈ hashedRecords P convId items',
    P.sha256 a = P.sha256 b → a = b
  left : ∀ a ∈ hashedRecords P convId items, P.sha256 a ≠ List.replicate 32 0
  right : ∀ a ∈ hashedRecords P convId items', P.sha256 a ≠ List.replicate 32 0

theorem chainRecord_inj {prev prev' : String} {item item' : ℤ × String}
    (h : dumps (chainRecord convId prev item) = dumps (chainRecord convId prev' item')) :
    prev = prev' ∧ item = item' := by
  have hplain : ∀ prev item, (chainRecord convId prev item).Plain := by
    intro prev item
    simp [chainRecord]
  have heq := dumps_injective (hplain prev item) (hplain prev' item') h
  simp only [chainRecord, Json.obj.injEq, List.cons.injEq, Prod.mk.injEq, Json.str.injEq,
    Json.int.injEq, true_and, and_true] at heq
  exact ⟨heq.2.2, Prod.ext heq.2.1 heq.1⟩

theorem HashesApart.free {items items' : List (ℤ × String)}
    (h : HashesApart P convId items items') :
    HashChain.Free (nextHead P convId) zeroHead items items' := by
  refine ⟨fun p hp q hq heq => ?_, fun p hp heq => ?_, fun p hp heq => ?_⟩
  · have htexts := h.pairs _ (List.mem_map_of_mem hp) _ (List.mem_map_of_mem hq)
      (hexOf_injective heq)
    obtain ⟨hprev, hitem⟩ := chainRecord_inj htexts
    exact Prod.ext hprev hitem
  · exact h.left _ (List.mem_map_of_mem hp) (hexOf_injective heq)
  · exact h.right _ (List.mem_map_of_mem hp) (hexOf_injective heq)

/-- Equal heads at a message bind the view up to it. -/
theorem Kept.binds {state state' : TranscriptState} (h : Kept P convId state)
    (h' : Kept P convId state') {m : ℤ} {head : Json} (hhead : headAt state m = some head)
    (hhead' : headAt state' m = some head)
    (hapart : HashesApart P convId (upTo m state.messages) (upTo m state'.messages)) :
    ∀ id ≤ m, seenDigest state.messages id = seenDigest state'.messages id := by
  rw [h.headAt_eq] at hhead
  rw [h'.headAt_eq] at hhead'
  split at hhead
  · split at hhead'
    · have heq := Json.str.inj (Option.some.inj (hhead.trans hhead'.symm))
      exact (upTo_eq_iff h.wellKept h'.wellKept).mp (HashChain.chain_injOn hapart.free heq)
    · cases hhead'
  · cases hhead

/-- The head at a message is a function of the view up to it. -/
theorem Kept.headAt_congr {state state' : TranscriptState} (h : Kept P convId state)
    (h' : Kept P convId state') {m : ℤ}
    (hsame : ∀ id ≤ m, seenDigest state.messages id = seenDigest state'.messages id) :
    headAt state m = headAt state' m := by
  rw [h.headAt_eq, h'.headAt_eq, hsame m le_rfl, (upTo_eq_iff h.wellKept h'.wellKept).mpr hsame]

/-- The fields of the transcript are functions of the view. -/
theorem Kept.fields_congr {state state' : TranscriptState} (h : Kept P convId state)
    (h' : Kept P convId state')
    (hsame : seenDigest state.messages = seenDigest state'.messages) :
    state.transcriptHead = state'.transcriptHead ∧ state.messageCount = state'.messageCount ∧
      state.firstMessageId = state'.firstMessageId ∧
      state.lastMessageId = state'.lastMessageId ∧ state.headsById = state'.headsById := by
  have hitems : sortedItems state.messages = sortedItems state'.messages := by
    refine HashChain.eq_of_mem_iff (pairwise_sortedItems h.wellKept)
      (pairwise_sortedItems h'.wellKept) ?_
    rintro ⟨id, digest⟩
    rw [mem_sortedItems h.wellKept, mem_sortedItems h'.wellKept, hsame]
  rw [← h.computed, ← h'.computed]
  simp only [recomputeTranscriptChain, hitems, and_self]

/-- **The transcript is a function of the view and binds it.**  After any calls of two sessions, for
every conversation: transcripts with the same view have the same head, count, first and last id and
heads by id; the head at a message depends on the view up to it only; and where two transcripts have the
same head at a message, and SHA-256 does not collide, their views are the same up to it. -/
theorem transcript_of_view {s s' : Engine} (hs : s.Fresh) (hs' : s'.Fresh)
    (calls calls' : List Call) (convId : ℤ) :
    let t := (s.run P calls).files convId
    let t' := (s'.run P calls').files convId
    (seenDigest t.messages = seenDigest t'.messages →
      t.transcriptHead = t'.transcriptHead ∧ t.messageCount = t'.messageCount ∧
        t.firstMessageId = t'.firstMessageId ∧ t.lastMessageId = t'.lastMessageId ∧
        t.headsById = t'.headsById) ∧
    (∀ m, (∀ id ≤ m, seenDigest t.messages id = seenDigest t'.messages id) →
      headAt t m = headAt t' m) ∧
    (∀ m head, headAt t m = some head → headAt t' m = some head →
      HashesApart P convId (upTo m t.messages) (upTo m t'.messages) →
      ∀ id ≤ m, seenDigest t.messages id = seenDigest t'.messages id) := by
  intro t t'
  have ht : Kept P convId t := kept_keptByCalls.of_fresh hs calls convId
  have ht' : Kept P convId t' := kept_keptByCalls.of_fresh hs' calls' convId
  exact ⟨ht.fields_congr ht', fun m hsame => ht.headAt_congr ht' hsame,
    fun m head hhead hhead' hapart => ht.binds ht' hhead hhead' hapart⟩

/-! ### Two sessions -/

/-- The digest of a live message. -/
def recordedDigest (P : Prims) (msgId senderId : ℤ) (body : String) (editTarget : ℤ)
    (deleted : Bool) : String :=
  sha256Hex P (dumps (.obj [("body", .str body), ("deleted", .bool deleted),
    ("edit_target", .int editTarget), ("id", .int msgId), ("sender_id", .int senderId)]))

/-- A live message is recorded whatever its body, and its time does not count. -/
theorem messageDigest_recordedItem (msgId senderId : ℤ) (body ts : String) (editTarget : ℤ)
    (deleted : Bool) :
    messageDigest P (recordedItem msgId senderId body ts editTarget deleted) =
      .ok (recordedDigest P msgId senderId body editTarget deleted) := by
  simp [messageDigest, recordedItem, recordedDigest, intField, Json.truthy]

theorem recordTranscriptMessage_visible {msgId senderId editTarget : ℤ} {body ts : String}
    {deleted : Bool} {state : TranscriptState} (hid : msgId ≠ 0)
    (hbody : isUserVisibleBody body = true) :
    recordTranscriptMessage P convId msgId senderId body ts editTarget deleted state =
      .ok (some (recomputeTranscriptChain P convId { state with
        messages := dictSet state.messages
          (toString msgId, .str (recordedDigest P msgId senderId body editTarget deleted)) })) := by
  have hseen : ¬ (msgId = 0 ∨ isUserVisibleBody body = false) := by simp [hid, hbody]
  rw [recordTranscriptMessage, if_neg hseen, messageDigest_recordedItem]
  rfl

/-- The term model with digests of 32 octets. -/
def mixedPrims : Prims := { termPrims with sha256 := mixDigest }

theorem mixDigest_zero_length : (mixDigest []).length = 32 := length_mixDigest []

/-- A session without transcripts. -/
def newSession (uid : ℤ) : Engine where
  loggedIn := true
  myUid := uid
  identity := some ⟨mixDigest [], mixDigest_zero_length⟩
  files := fun _ => {}
  controlWarnings := fun _ => []

theorem newSession_fresh (uid : ℤ) : (newSession uid).Fresh := fun _ => rfl

/-- Message `id` of conversation 5, from user 2. -/
def live (id : ℤ) (body : String) : Call := .record 5 id 2 body "12:00" 0 false

theorem isUserVisibleBody_one : isUserVisibleBody "one" = true := by decide

theorem isUserVisibleBody_two : isUserVisibleBody "two" = true := by decide

/-- A live message is filed. -/
theorem step_live {s : Engine} (hlogin : s.loggedIn = true) {id : ℤ} {body : String} (hid : id ≠ 0)
    (hbody : isUserVisibleBody body = true) :
    (s.step P (live id body)).loggedIn = true ∧
      ((s.step P (live id body)).files 5).messages =
        dictSet (s.files 5).messages (toString id, .str (recordedDigest P id 2 body 0 false)) := by
  have hload : s.load 5 = s.files 5 := if_pos hlogin
  unfold live Engine.step
  dsimp only
  rw [recordTranscriptMessage_visible hid hbody, hload]
  dsimp only
  rw [Engine.save, if_pos hlogin]
  refine ⟨hlogin, ?_⟩
  dsimp only
  rw [Function.update_self]
  rfl

/-- The messages of a session after two live ones. -/
theorem messages_live {uid id id' : ℤ} {body body' : String} (hid : id ≠ 0) (hid' : id' ≠ 0)
    (hbody : isUserVisibleBody body = true) (hbody' : isUserVisibleBody body' = true) :
    (((newSession uid).run P [live id body, live id' body']).files 5).messages =
      dictSet (dictSet [] (toString id, .str (recordedDigest P id 2 body 0 false)))
        (toString id', .str (recordedDigest P id' 2 body' 0 false)) := by
  obtain ⟨hlogin, hfirst⟩ := step_live (P := P) (s := newSession uid) rfl hid hbody
  obtain ⟨-, hsecond⟩ := step_live (P := P) hlogin hid' hbody'
  rw [hfirst] at hsecond
  exact hsecond

/-- In either order of two messages the head at the second is the same. -/
theorem transcript_of_view_reordered :
    headAt (((newSession 1).run mixedPrims [live 1 "one", live 2 "two"]).files 5) 2 =
      headAt (((newSession 3).run mixedPrims [live 2 "two", live 1 "one"]).files 5) 2 := by
  refine (transcript_of_view (newSession_fresh 1) (newSession_fresh 3) _ _ 5).2.1 2 fun id _ => ?_
  rw [messages_live (by decide) (by decide) isUserVisibleBody_one isUserVisibleBody_two,
    messages_live (by decide) (by decide) isUserVisibleBody_two isUserVisibleBody_one]
  simp only [seenDigest, lookup_dictSet]
  by_cases h1 : toString id = toString (1 : ℤ)
  · have h2 : toString id ≠ toString (2 : ℤ) := by
      rw [h1]
      decide
    rw [if_pos h1, if_neg h2, if_pos h1]
  · rw [if_neg h1, if_neg h1]

end SecChat.Consistency
