import SecChat.Session.TranscriptView

/-!
# Transcript checkpoints

A member signs the head of its transcript, and the others compare it with their own head at the same
message.

* `CheckpointFields.Of`: what is read of a payload that a member made;
* `Kept.head_eq`: the last head is the one at the last message;
* `checkpoint_exact`: the comparison warns exactly of views that differ up to the checkpoint.
-/

namespace SecChat.Consistency

open Py

variable {P : Prims} {convId : ℤ}

/-! ### The last message -/

theorem le_last_of_pairwise {l : List (ℤ × String)} (h : l.Pairwise fun a b => a.1 < b.1)
    {last : ℤ × String} (hlast : l.getLast? = some last) : ∀ item ∈ l, item.1 ≤ last.1 := by
  obtain ⟨front, rfl⟩ := List.getLast?_eq_some_iff.mp hlast
  intro item hitem
  rcases List.mem_append.mp hitem with hitem | hitem
  · exact ((List.pairwise_append.mp h).2.2 item hitem last (List.mem_singleton_self last)).le
  · rw [List.mem_singleton.mp hitem]

/-- A transcript with messages has an entry at its last id, and its head is the one there. -/
theorem Kept.head_eq {state : TranscriptState} (h : Kept P convId state)
    (hlast : 0 < state.lastMessageId) :
    state.transcriptHead = HashChain.chain (nextHead P convId) zeroHead
      (upTo state.lastMessageId state.messages) := by
  have hid : state.lastMessageId = ((sortedItems state.messages).getLast?.map Prod.fst).getD 0 :=
    congrArg TranscriptState.lastMessageId h.computed.symm
  have hhead : state.transcriptHead = if (sortedItems state.messages).isEmpty then "" else
      ((sortedItems state.messages).foldl (chainStep P convId) (zeroHead, [])).1 :=
    congrArg TranscriptState.transcriptHead h.computed.symm
  cases hget : (sortedItems state.messages).getLast? with
  | none =>
    rw [hget] at hid
    rw [hid] at hlast
    exact absurd hlast (lt_irrefl 0)
  | some last =>
    have hne : (sortedItems state.messages).isEmpty = false := by
      cases hitems : sortedItems state.messages with
      | nil =>
        rw [hitems] at hget
        cases hget
      | cons item items => rfl
    have hall : upTo state.lastMessageId state.messages = sortedItems state.messages := by
      rw [hid, hget]
      exact List.filter_eq_self.mpr fun item hitem => decide_eq_true
        (le_last_of_pairwise (pairwise_sortedItems h.wellKept) hget item hitem)
    rw [hhead, hne, if_neg Bool.false_ne_true, fst_foldl_chainStep, hall]

/-! ### Reading a payload -/

/-- The payload of a checkpoint over a transcript. -/
structure CheckpointOf (convId : ℤ) (state : TranscriptState) (fields : CheckpointFields)
    (payload : Json) : Prop where
  conv : intField payload "conversation_id" = .ok convId
  event : strField payload "event" = .ok "transcript_checkpoint"
  count : intField payload "message_count" = .ok state.messageCount
  previous : ∃ hash, strField payload "prev_checkpoint_hash" = .ok hash
  time : ∃ now, intField payload "ts" = .ok now
  actorUid : intField payload "actor_uid" = .ok fields.actorUid
  first : intField payload "first_message_id" = .ok fields.firstId
  last : intField payload "last_message_id" = .ok fields.lastId
  head : strField payload "transcript_head" = .ok fields.head
  identityPk : strField payload "identity_pk" = .ok fields.identityPk
  firstId : fields.firstId = state.firstMessageId
  lastId : fields.lastId = state.lastMessageId
  transcriptHead : fields.head = state.transcriptHead

@[simp] theorem intField_cons (k : String) (v : Json) (kvs : List (String × Json)) (key : String) :
    intField (.obj ((k, v) :: kvs)) key =
      if key = k then (v.orElse (.int 0)).toInt else intField (.obj kvs) key := by
  unfold intField
  rw [Json.getD_cons]
  split <;> rfl

@[simp] theorem strField_cons (k : String) (v : Json) (kvs : List (String × Json)) (key : String) :
    strField (.obj ((k, v) :: kvs)) key =
      if key = k then .ok (v.orElse (.str "")).toStr else strField (.obj kvs) key := by
  unfold strField
  rw [Json.getD_cons]
  split <;> rfl

@[simp] theorem toStr_orElse_str (text : String) : ((Json.str text).orElse (.str "")).toStr = text := by
  by_cases h : text = "" <;> simp [Json.orElse, h]

/-- What is read of a payload that was made over a transcript. -/
def signedFields (P : Prims) (myUid : ℤ) (identity : Seed) (state : TranscriptState) :
    CheckpointFields :=
  ⟨myUid, state.firstMessageId, state.lastMessageId, state.transcriptHead,
    b64encode (P.ed25519Public identity)⟩

theorem checkpointOf_signed (state : TranscriptState) (myUid now : ℤ) (identity : Seed) :
    CheckpointOf convId state (signedFields P myUid identity state)
      (signedCheckpoint P convId myUid now identity state) := by
  constructor <;> simp [signedCheckpoint, unsignedCheckpoint, signedFields]

theorem signedCheckpoint_plain (state : TranscriptState) (myUid now : ℤ) (identity : Seed) :
    (signedCheckpoint P convId myUid now identity state).Plain := by
  simp [signedCheckpoint, unsignedCheckpoint]

/-- A checkpoint is only made over messages. -/
theorem Kept.payload_eq {state saved : TranscriptState} (h : Kept P convId state) {myUid now : ℤ}
    {identity : Option Seed} {payload : Json}
    (hcreate : createTranscriptCheckpoint P convId myUid now identity state =
      .ok (some (payload, saved))) :
    ∃ seed, payload = signedCheckpoint P convId myUid now seed state ∧ 0 < state.firstMessageId ∧
      0 < state.lastMessageId := by
  cases identity with
  | none => cases hcreate
  | some seed =>
    unfold createTranscriptCheckpoint at hcreate
    rw [h.computed] at hcreate
    dsimp only at hcreate
    split at hcreate
    · cases hcreate
    · next hcount =>
      obtain ⟨hash, -, hcreate⟩ := bind_eq_ok_iff.mp hcreate
      obtain ⟨rfl, -⟩ := Prod.mk.inj (Option.some.inj (Except.ok.inj hcreate))
      exact ⟨seed, rfl, by omega, by omega⟩

/-- The payload arrives as it was made. -/
theorem wirePayload_checkpointWire {payload : Json} (h : payload.Plain) :
    wirePayload (checkpointWire payload) = .ok payload := by
  rw [wirePayload, checkpointWire, dropTag_append, jsonUnb64_jsonB64 h]

/-- Some warnings, at most so many, none of which is about a different view. -/
def OtherWarnings (n : ℕ) (warnings : List String) : Prop :=
  warnings.length ≤ n ∧ orderWarning ∉ warnings

theorem OtherWarnings.nil (n : ℕ) : OtherWarnings n [] := ⟨Nat.zero_le n, List.not_mem_nil⟩

theorem OtherWarnings.append {m n : ℕ} {ws ws' : List String} (h : OtherWarnings m ws)
    (h' : OtherWarnings n ws') : OtherWarnings (m + n) (ws ++ ws') :=
  ⟨by rw [List.length_append]; exact Nat.add_le_add h.1 h'.1,
    fun hmem => (List.mem_append.mp hmem).elim h.2 h'.2⟩

theorem OtherWarnings.single {w : String} (h : w ≠ orderWarning) : OtherWarnings 1 [w] :=
  ⟨le_rfl, fun hmem => h (List.mem_singleton.mp hmem).symm⟩

theorem OtherWarnings.ite {w : String} {p : Prop} [Decidable p] (h : w ≠ orderWarning) :
    OtherWarnings 1 (if p then [w] else []) := by
  split
  · exact .single h
  · exact .nil 1

theorem warnIf_bind {α : Type} (p : Prop) [Decidable p] (warning : String)
    (f : Unit → Method (List String) α) (warnings : List String) :
    (warnIf p warning >>= f) warnings =
      f () (if p then warnings ++ [warning] else warnings) := rfl

/-- Whatever the signature, the fields of a checkpoint are read. -/
theorem checkedCheckpoint_of {state : TranscriptState} {fields : CheckpointFields} {payload : Json}
    (h : CheckpointOf convId state fields payload) (verifySignature : Bool) :
    ∃ ws, checkedCheckpoint P convId payload verifySignature = .ok (fields, ws) ∧
      OtherWarnings 2 ws := by
  have hread : readCheckpoint payload = .ok fields := by
    simp only [readCheckpoint, h.actorUid, h.first, h.last, h.head, h.identityPk, ok_bind]
    rfl
  have htry : ∃ result ws, tryCheckpoint P convId payload verifySignature [] = (result, ws) ∧
      (∀ f, result = .ok f → f = fields) ∧ OtherWarnings 1 ws := by
    simp only [tryCheckpoint, h.conv, h.event, h.actorUid, h.first, h.last, h.count, h.head,
      h.identityPk, Method.ofExcept_ok_bind, warnIf_bind, ne_eq, not_true_eq_false, if_false,
      List.nil_append]
    cases if verifySignature then verifyCheckpoint P payload fields.identityPk else .ok () with
    | ok _ =>
      exact ⟨_, _, rfl, fun f hf => (Except.ok.inj hf).symm, .ite (by decide)⟩
    | error e =>
      exact ⟨_, _, rfl, fun f hf => (by cases hf), .ite (by decide)⟩
  obtain ⟨result, ws, htry, hresult, hws⟩ := htry
  unfold checkedCheckpoint
  rw [htry]
  cases result with
  | ok f =>
    obtain rfl := hresult f rfl
    exact ⟨ws, rfl, hws.1.trans (by decide), hws.2⟩
  | error e =>
    dsimp only
    rw [hread]
    exact ⟨_, rfl, hws.append (.single (by decide))⟩

/-- A stored checkpoint that can be read again. -/
structure ReadablePeer (peer : Json) : Prop where
  last : ∃ id, intField peer "last_message_id" = .ok id
  head : ∃ head, strField peer "transcript_head" = .ok head
  hash : ∃ hash, strField peer "checkpoint_hash" = .ok hash

/-- All stored checkpoints can be read again. -/
def PeersReadable (state : TranscriptState) : Prop := ∀ p ∈ state.peerCheckpoints, ReadablePeer p.2

theorem readable_stored {fields : CheckpointFields} {payload stored : Json}
    (h : storedCheckpoint P fields payload = .ok stored) : ReadablePeer stored := by
  obtain ⟨count, -, h⟩ := bind_eq_ok_iff.mp h
  obtain ⟨hash, -, h⟩ := bind_eq_ok_iff.mp h
  obtain ⟨ts, -, h⟩ := bind_eq_ok_iff.mp h
  obtain rfl := Except.ok.inj h
  constructor <;> simp

theorem peersReadable_keptByCalls : KeptByCalls P fun _ state => PeersReadable state where
  empty _ := fun p hp => absurd hp List.not_mem_nil
  recorded h hrec := by
    unfold recordTranscriptMessage at hrec
    split at hrec
    · cases hrec
    · obtain ⟨digest, -, hrec⟩ := bind_eq_ok_iff.mp hrec
      obtain rfl := Option.some.inj (Except.ok.inj hrec)
      exact h
  verified h hver := by
    obtain ⟨read, -, hver⟩ := bind_eq_ok_iff.mp hver
    dsimp only at hver
    split at hver
    · cases hver
    · obtain ⟨incoming, -, hver⟩ := bind_eq_ok_iff.mp hver
      obtain ⟨known, -, hver⟩ := bind_eq_ok_iff.mp hver
      obtain ⟨-, hstate⟩ := Prod.mk.inj (Except.ok.inj hver)
      obtain rfl := Option.some.inj hstate
      exact h
  created {_ _ _ _ _ identity _} h hcreate := by
    cases identity with
    | none => cases hcreate
    | some identity =>
      unfold createTranscriptCheckpoint at hcreate
      dsimp only at hcreate
      split at hcreate
      · cases hcreate
      · obtain ⟨hash, -, hcreate⟩ := bind_eq_ok_iff.mp hcreate
        obtain ⟨-, rfl⟩ := Prod.mk.inj (Option.some.inj (Except.ok.inj hcreate))
        exact h
  compared h hrec := by
    obtain ⟨read, -, hrec⟩ := bind_eq_ok_iff.mp hrec
    dsimp only at hrec
    obtain ⟨changed, -, hrec⟩ := bind_eq_ok_iff.mp hrec
    obtain ⟨stored, hstored, hrec⟩ := bind_eq_ok_iff.mp hrec
    obtain ⟨-, rfl⟩ := Prod.mk.inj (Except.ok.inj hrec)
    intro p hp
    rcases mem_dictSet hp with rfl | hp
    · exact readable_stored hstored
    · exact h p hp

/-- The comparison with the previous checkpoint of a peer. -/
theorem peerWarnings_of {state local' : TranscriptState} {fields : CheckpointFields} {payload : Json}
    (h : CheckpointOf convId state fields payload) (hpeers : PeersReadable local') (key : String) :
    ∃ ws, peerWarnings fields payload (local'.peerCheckpoints.lookup key) = .ok ws ∧
      OtherWarnings 2 ws := by
  obtain ⟨declared, hdeclared⟩ := h.previous
  cases hlookup : local'.peerCheckpoints.lookup key with
  | none => exact ⟨[], rfl, .nil 2⟩
  | some peer =>
    cases peer with
    | obj kvs =>
      obtain ⟨front, back, hpeer, -⟩ := List.lookup_eq_some_iff.mp hlookup
      have hread : ReadablePeer (.obj kvs) := hpeers (key, .obj kvs) (by rw [hpeer]; simp)
      obtain ⟨⟨prevLast, hlast⟩, ⟨prevHead, hhead⟩, ⟨prevHash, hhash⟩⟩ := hread
      simp only [peerWarnings, hlast, hhead, hhash, hdeclared, ok_bind, pure_eq_ok]
      refine ⟨_, rfl, .append (m := 1) (n := 1) ?_ (.ite (by decide))⟩
      -- an id cannot be both below the previous one and equal to it
      by_cases hlt : fields.lastId < prevLast
      · rw [if_pos hlt, if_neg fun heq => hlt.ne heq.1]
        exact .single (by decide)
      · rw [if_neg hlt]
        exact .ite (by decide)
    | _ => exact ⟨[], rfl, .nil 2⟩

theorem storedCheckpoint_of {state : TranscriptState} {fields : CheckpointFields} {payload : Json}
    (h : CheckpointOf convId state fields payload) :
    ∃ stored, storedCheckpoint P fields payload = .ok stored := by
  obtain ⟨hash, hhash⟩ := h.previous
  obtain ⟨now, hnow⟩ := h.time
  rw [storedCheckpoint, h.count, ok_bind, hhash, ok_bind, hnow, ok_bind]
  exact ⟨_, rfl⟩

/-! ### The comparison -/

/-- The head at a message that the transcript has is not empty. -/
theorem nextHead_ne_empty (h32 : ∀ msg, (P.sha256 msg).length = 32) (prev : String)
    (item : ℤ × String) : nextHead P convId prev item ≠ "" := by
  intro h
  have hlen := congrArg String.length h
  rw [nextHead, sha256Hex, length_hexOf, h32] at hlen
  cases hlen

theorem chain_ne_empty (h32 : ∀ msg, (P.sha256 msg).length = 32) (items : List (ℤ × String)) :
    HashChain.chain (nextHead P convId) zeroHead items ≠ "" := by
  cases items using List.reverseRecOn with
  | nil =>
    intro h
    have hlen := congrArg String.length h
    rw [HashChain.chain_nil, zeroHead, length_hexOf, List.length_replicate] at hlen
    cases hlen
  | append_singleton items item =>
    rw [HashChain.chain_concat]
    exact nextHead_ne_empty h32 _ _

theorem pos_of_seenDigest {messages : List (String × Json)} {id : ℤ} {digest : String}
    (h : seenDigest messages id = some digest) : 0 < id := by
  unfold seenDigest at h
  split at h
  · split at h
    · next hcount => exact hcount.1
    · cases h
  · cases h

/-- Over messages a checkpoint is made. -/
theorem Kept.creates (h32 : ∀ msg, (P.sha256 msg).length = 32) {state : TranscriptState}
    (h : Kept P convId state) (hitems : sortedItems state.messages ≠ []) (myUid now : ℤ)
    (identity : Seed) :
    ∃ saved, createTranscriptCheckpoint P convId myUid now (some identity) state =
      .ok (some (signedCheckpoint P convId myUid now identity state, saved)) := by
  have hpos : ∀ item ∈ sortedItems state.messages, 0 < item.1 := fun item hitem =>
    pos_of_seenDigest ((mem_sortedItems h.wellKept).mp hitem)
  have hcount : 0 < state.messageCount := by
    rw [← h.computed]
    exact Int.natCast_pos.mpr (List.length_pos_iff.mpr hitems)
  have hfirst : 0 < state.firstMessageId := by
    rw [← h.computed]
    show 0 < ((sortedItems state.messages).head?.map Prod.fst).getD 0
    rw [List.head?_eq_some_head hitems]
    exact hpos _ (List.head_mem hitems)
  have hlast : 0 < state.lastMessageId := by
    rw [← h.computed]
    show 0 < ((sortedItems state.messages).getLast?.map Prod.fst).getD 0
    rw [List.getLast?_eq_some_getLast hitems]
    exact hpos _ (List.getLast_mem hitems)
  have hhead : state.transcriptHead ≠ "" := by
    rw [h.head_eq hlast]
    exact chain_ne_empty h32 _
  have hmade : ¬ (state.messageCount ≤ 0 ∨ state.firstMessageId ≤ 0 ∨ state.lastMessageId ≤ 0 ∨
      state.transcriptHead = "") := by
    rintro (h | h | h | h)
    · exact hcount.not_ge h
    · exact hfirst.not_ge h
    · exact hlast.not_ge h
    · exact hhead h
  have hhash : ∃ hash, strField (signedCheckpoint P convId myUid now identity state)
      "checkpoint_hash" = .ok hash := by simp [signedCheckpoint, unsignedCheckpoint]
  obtain ⟨hash, hhash⟩ := hhash
  unfold createTranscriptCheckpoint
  dsimp only
  rw [h.computed, if_neg hmade, hhash]
  exact ⟨_, rfl⟩

/-- The head at the last message of a checkpoint, in some transcript. -/
def headUpTo (P : Prims) (convId : ℤ) (m : ℤ) (state : TranscriptState) : String :=
  HashChain.chain (nextHead P convId) zeroHead (upTo m state.messages)

/-- The comparison with the local transcript warns exactly of another head at the last message of the
checkpoint. -/
theorem localWarnings_of (h32 : ∀ msg, (P.sha256 msg).length = 32) {state here : TranscriptState}
    (hstate : Kept P convId state) (hhere : Kept P convId here) {fields : CheckpointFields}
    {payload : Json} (h : CheckpointOf convId state fields payload)
    (hfirst : 0 < state.firstMessageId) (hlast : 0 < state.lastMessageId)
    (hsame : here.firstMessageId = state.firstMessageId)
    (hseen : (seenDigest here.messages state.lastMessageId).isSome = true) :
    localWarnings fields here =
      if headUpTo P convId state.lastMessageId here = headUpTo P convId state.lastMessageId state
      then [] else [orderWarning] := by
  have hat : here.headsById.lookup (toString state.lastMessageId) =
      some (.str (headUpTo P convId state.lastMessageId here)) := by
    have hat := hhere.headAt_eq state.lastMessageId
    rwa [hseen, if_pos rfl] at hat
  have hhead : fields.head = headUpTo P convId state.lastMessageId state :=
    h.transcriptHead.trans (hstate.head_eq hlast)
  have hne : ∀ s : TranscriptState, headUpTo P convId state.lastMessageId s ≠ "" :=
    fun s => chain_ne_empty h32 _
  have hbase : 0 < here.firstMessageId ∧ 0 < fields.firstId ∧
      here.firstMessageId = fields.firstId := by
    rw [hsame, h.firstId]
    exact ⟨hfirst, hfirst, rfl⟩
  rw [localWarnings, if_pos hbase, h.lastId, hat, hhead]
  simp only [Option.getD_some, Json.truthy_str, Json.pyEq, decide_eq_true_eq, decide_eq_false_iff_not]
  by_cases heq : headUpTo P convId state.lastMessageId here =
      headUpTo P convId state.lastMessageId state
  · -- then the last heads are equal as well, where both are at this message
    have hlastHead : ¬ (here.lastMessageId = state.lastMessageId ∧ here.transcriptHead ≠ "" ∧
        headUpTo P convId state.lastMessageId state ≠ "" ∧
        here.transcriptHead ≠ headUpTo P convId state.lastMessageId state) := by
      rintro ⟨hid, -, -, hdiff⟩
      refine hdiff ((hhere.head_eq (hid ▸ hlast)).trans ?_)
      rw [hid]
      exact heq
    rw [if_neg (fun hdiff => hdiff.2.2 heq), if_neg hlastHead, if_pos heq]
  · rw [if_pos ⟨hne here, hne state, heq⟩, if_neg heq]

/-- **The comparison is exact.**  A member makes a checkpoint, and another one, whose transcript begins
at the same message and has the last one of the checkpoint, compares it with its own.  Whatever calls
came before, and whatever the second member has after that message: among the warnings is the one about
the local message order if and only if the two views differ up to the last message of the
checkpoint. -/
theorem checkpoint_exact (h32 : ∀ msg, (P.sha256 msg).length = 32) {author member : Engine}
    (hauthor : author.Fresh) (hmember : member.Fresh) (authorCalls memberCalls : List Call)
    (convId now : ℤ) {payload : Json} {saved : TranscriptState} :
    let author := author.run P authorCalls
    let mine := author.load convId
    let yours := (member.run P memberCalls).load convId
    createTranscriptCheckpoint P convId author.myUid now author.identity mine =
      .ok (some (payload, saved)) →
    yours.firstMessageId = mine.firstMessageId →
    (seenDigest yours.messages mine.lastMessageId).isSome = true →
    HashesApart P convId (upTo mine.lastMessageId yours.messages)
      (upTo mine.lastMessageId mine.messages) →
    wirePayload (checkpointWire payload) = .ok payload ∧
    ∀ verifySignature, ∃ warnings saved',
      recordTranscriptCheckpoint P convId payload verifySignature yours = .ok (warnings, saved') ∧
      (orderWarning ∈ warnings.take 5 ↔
        ∃ id ≤ mine.lastMessageId, seenDigest mine.messages id ≠ seenDigest yours.messages id) := by
  intro author mine yours hcreate hsame hseen hapart
  have hmine : Kept P convId mine :=
    kept_keptByCalls.load (kept_keptByCalls.of_fresh hauthor authorCalls) convId
  have hyours : Kept P convId yours :=
    kept_keptByCalls.load (kept_keptByCalls.of_fresh hmember memberCalls) convId
  have hreadable : KeptByCalls P fun _ state => PeersReadable state := peersReadable_keptByCalls
  have hpeers : PeersReadable yours := hreadable.load (hreadable.of_fresh hmember memberCalls) convId
  clear_value mine yours author
  obtain ⟨identity, rfl, hfirst, hlast⟩ := hmine.payload_eq hcreate
  refine ⟨wirePayload_checkpointWire (signedCheckpoint_plain ..), fun verifySignature => ?_⟩
  have hof : CheckpointOf convId mine (signedFields P author.myUid identity mine)
      (signedCheckpoint P convId author.myUid now identity mine) :=
    checkpointOf_signed mine author.myUid now identity
  obtain ⟨ws, hchecked, hws⟩ := checkedCheckpoint_of (P := P) hof verifySignature
  have hlocal := localWarnings_of h32 hmine hyours hof hfirst hlast hsame hseen
  obtain ⟨stored, hstored⟩ := storedCheckpoint_of (P := P) hof
  generalize signedFields P author.myUid identity mine = fields at hchecked hlocal hstored hof
  obtain ⟨changed, hchanged, hws'⟩ := peerWarnings_of hof hpeers
    (if fields.identityPk = "" then s!"uid:{fields.actorUid}" else fields.identityPk)
  have hrecord : ∃ saved', recordTranscriptCheckpoint P convId
      (signedCheckpoint P convId author.myUid now identity mine) verifySignature yours =
        .ok (ws ++ changed ++ localWarnings fields yours, saved') := by
    rw [recordTranscriptCheckpoint, hchecked, ok_bind]
    dsimp only
    rw [hyours.computed, hchanged, ok_bind, hstored, ok_bind]
    exact ⟨_, rfl⟩
  obtain ⟨saved', hrecord⟩ := hrecord
  refine ⟨_, saved', hrecord, ?_⟩
  -- at most four other warnings come first
  have hothers : OtherWarnings 4 (ws ++ changed) := hws.append hws'
  have hlen : (ws ++ changed ++ localWarnings fields yours).length ≤ 5 := by
    rw [hlocal, List.length_append]
    have := hothers.1
    split
    · exact this.trans (by decide)
    · exact Nat.succ_le_succ this
  have hviews : headUpTo P convId mine.lastMessageId yours =
      headUpTo P convId mine.lastMessageId mine ↔
      ∀ id ≤ mine.lastMessageId, seenDigest yours.messages id = seenDigest mine.messages id := by
    rw [← upTo_eq_iff hyours.wellKept hmine.wellKept]
    exact ⟨fun heq => HashChain.chain_injOn hapart.free heq,
      fun heq => congrArg (HashChain.chain (nextHead P convId) zeroHead) heq⟩
  rw [List.take_of_length_le hlen, List.mem_append, or_iff_right hothers.2, hlocal]
  split
  · next heq =>
    have hagree := hviews.mp heq
    exact ⟨fun hmem => absurd hmem List.not_mem_nil,
      fun ⟨id, hid, hne⟩ => absurd (hagree id hid).symm hne⟩
  · next hne =>
    rw [hviews] at hne
    push Not at hne
    obtain ⟨id, hid, hdiff⟩ := hne
    exact ⟨fun _ => ⟨id, hid, hdiff.symm⟩, fun _ => List.mem_singleton_self _⟩

/-! ### An altered message -/

/-- Heads that do not collide come from records that do not. -/
theorem hashesApart_of_free {items items' : List (ℤ × String)}
    (h : HashChain.Free (nextHead P convId) zeroHead items items') :
    HashesApart P convId items items' := by
  refine ⟨fun a ha b hb heq => ?_, fun a ha heq => ?_, fun a ha heq => ?_⟩
  · obtain ⟨p, hp, rfl⟩ := List.mem_map.mp ha
    obtain ⟨q, hq, rfl⟩ := List.mem_map.mp hb
    rw [h.pairs p hp q hq (congrArg hexOf heq)]
  · obtain ⟨p, hp, rfl⟩ := List.mem_map.mp ha
    exact h.left p hp (congrArg hexOf heq)
  · obtain ⟨p, hp, rfl⟩ := List.mem_map.mp ha
    exact h.right p hp (congrArg hexOf heq)

/-- Entries that are already in order are chained as they are. -/
theorem sortedItems_of_sorted {items : List (ℤ × String)} (h : items.Pairwise fun a b => a.1 < b.1)
    (hcount : ∀ item ∈ items, 0 < item.1 ∧ item.2 ≠ "") :
    sortedItems (items.map fun item => (toString item.1, .str item.2)) = items := by
  have hitems : chainItems (items.map fun item => (toString item.1, .str item.2)) = items := by
    have hsome : items.filterMap (chainItem ∘ fun item => (toString item.1, .str item.2)) =
        items.filterMap some := by
      apply List.filterMap_congr
      intro item hitem
      rw [Function.comp_apply, chainItem_text, if_pos (hcount item hitem)]
    rw [chainItems_eq, List.filterMap_map, hsome, List.filterMap_some]
  have hsorted : items.Pairwise tupleLe := h.imp fun hlt => Or.inl hlt
  rw [sortedItems, hitems, hsorted.insertionSort_eq]

/-- The author has seen two messages, and the member another second one and a third. -/
def authorCalls : List Call := [live 1 "one", live 2 "two"]

def memberCalls : List Call := [live 1 "one", live 2 "ten", live 3 "six"]

/-- The digest of a message of user 2. -/
def liveDigest (id : ℤ) (body : String) : String := recordedDigest mixedPrims id 2 body 0 false

/-- A digest of equal octets. -/
def octets (octet : String) : String := String.join (List.replicate 32 octet)

theorem liveDigests : liveDigest 1 "one" = octets "f0" ∧ liveDigest 2 "two" = octets "29" ∧
    liveDigest 2 "ten" = octets "38" ∧ liveDigest 3 "six" = octets "b2" := by decide +kernel

theorem octets_ne : octets "f0" ≠ "" ∧ octets "29" ≠ "" ∧ octets "38" ≠ "" ∧ octets "b2" ≠ "" ∧
    octets "29" ≠ octets "38" := by decide +kernel

/-- The heads after the first message, and after each of the second ones. -/
theorem heads : nextHead mixedPrims 5 zeroHead (1, octets "f0") = octets "15" ∧
    nextHead mixedPrims 5 (octets "15") (2, octets "29") = octets "54" ∧
    nextHead mixedPrims 5 (octets "15") (2, octets "38") = octets "94" := by decide +kernel

def authorItems : List (ℤ × String) := [(1, octets "f0"), (2, octets "29")]

def memberItems : List (ℤ × String) := [(1, octets "f0"), (2, octets "38"), (3, octets "b2")]

/-- The transcripts of the two. -/
def authorView : TranscriptState := ((newSession 1).run mixedPrims authorCalls).load 5

def memberView : TranscriptState := ((newSession 3).run mixedPrims memberCalls).load 5

theorem messages_authorView :
    authorView.messages = authorItems.map fun item => (toString item.1, .str item.2) := by
  have hmessages : authorView.messages =
      dictSet (dictSet [] (toString (1 : ℤ), .str (liveDigest 1 "one")))
        (toString (2 : ℤ), .str (liveDigest 2 "two")) := by
    simp [authorView, authorCalls, Engine.run, Engine.step, live, Engine.load, Engine.save,
      newSession, recordTranscriptMessage_visible, isUserVisibleBody_one, isUserVisibleBody_two,
      recomputeTranscriptChain, liveDigest]
  rw [hmessages, liveDigests.1, liveDigests.2.1]
  rfl

theorem messages_memberView :
    memberView.messages = memberItems.map fun item => (toString item.1, .str item.2) := by
  have hten : isUserVisibleBody "ten" = true := by decide
  have hsix : isUserVisibleBody "six" = true := by decide
  have hmessages : memberView.messages =
      dictSet (dictSet (dictSet [] (toString (1 : ℤ), .str (liveDigest 1 "one")))
        (toString (2 : ℤ), .str (liveDigest 2 "ten")))
        (toString (3 : ℤ), .str (liveDigest 3 "six")) := by
    simp [memberView, memberCalls, Engine.run, Engine.step, live, Engine.load, Engine.save,
      newSession, recordTranscriptMessage_visible, isUserVisibleBody_one, hten, hsix,
      recomputeTranscriptChain, liveDigest]
  rw [hmessages, liveDigests.1, liveDigests.2.2.1, liveDigests.2.2.2]
  rfl

theorem sortedItems_authorView : sortedItems authorView.messages = authorItems := by
  rw [messages_authorView]
  exact sortedItems_of_sorted (by decide) (by simp [authorItems, octets_ne])

theorem sortedItems_memberView : sortedItems memberView.messages = memberItems := by
  rw [messages_memberView]
  exact sortedItems_of_sorted (by decide) (by simp [memberItems, octets_ne])

theorem kept_authorView : Kept mixedPrims 5 authorView :=
  kept_keptByCalls.load (kept_keptByCalls.of_fresh (newSession_fresh 1) authorCalls) 5

theorem kept_memberView : Kept mixedPrims 5 memberView :=
  kept_keptByCalls.load (kept_keptByCalls.of_fresh (newSession_fresh 3) memberCalls) 5

theorem lastMessageId_authorView : authorView.lastMessageId = 2 := by
  rw [← kept_authorView.computed]
  show ((sortedItems authorView.messages).getLast?.map Prod.fst).getD 0 = 2
  rw [sortedItems_authorView]
  rfl

theorem firstMessageId_authorView : authorView.firstMessageId = 1 := by
  rw [← kept_authorView.computed]
  show ((sortedItems authorView.messages).head?.map Prod.fst).getD 0 = 1
  rw [sortedItems_authorView]
  rfl

theorem firstMessageId_memberView : memberView.firstMessageId = 1 := by
  rw [← kept_memberView.computed]
  show ((sortedItems memberView.messages).head?.map Prod.fst).getD 0 = 1
  rw [sortedItems_memberView]
  rfl

theorem sha256_mixedPrims (msg : Bytes) : (mixedPrims.sha256 msg).length = 32 := length_mixDigest msg

theorem links_octets (digest : String) :
    HashChain.links (nextHead mixedPrims 5) zeroHead [(1, octets "f0"), (2, digest)] =
      [(zeroHead, 1, octets "f0"), (octets "15", 2, digest)] := by
  rw [HashChain.links, heads.1]
  rfl

theorem views_apart :
    HashesApart mixedPrims 5 (upTo 2 memberView.messages) (upTo 2 authorView.messages) := by
  have hmember : memberItems.filter (fun item => decide (item.1 ≤ 2)) =
      [(1, octets "f0"), (2, octets "38")] := rfl
  have hauthor : authorItems.filter (fun item => decide (item.1 ≤ 2)) =
      [(1, octets "f0"), (2, octets "29")] := rfl
  rw [upTo, upTo, sortedItems_authorView, sortedItems_memberView, hmember, hauthor]
  apply hashesApart_of_free
  constructor
  · rw [links_octets, links_octets]
    simp [heads]
    decide
  · rw [links_octets]
    simp [heads.1, heads.2.2]
    decide
  · rw [links_octets]
    simp [heads.1, heads.2.1]
    decide

theorem seenDigest_authorView : seenDigest authorView.messages 2 = some (octets "29") := by
  rw [← mem_sortedItems kept_authorView.wellKept, sortedItems_authorView]
  exact List.mem_cons_of_mem _ (List.mem_singleton_self _)

theorem seenDigest_memberView : seenDigest memberView.messages 2 = some (octets "38") := by
  rw [← mem_sortedItems kept_memberView.wellKept, sortedItems_memberView]
  exact List.mem_cons_of_mem _ List.mem_cons_self

/-- A third message does not hide the altered one. -/
theorem checkpoint_exact_altered :
    ∃ payload warnings saved,
      recordTranscriptCheckpoint mixedPrims 5 payload true memberView = .ok (warnings, saved) ∧
      orderWarning ∈ warnings.take 5 := by
  obtain ⟨saved, hcreate⟩ := kept_authorView.creates sha256_mixedPrims
    (by rw [sortedItems_authorView]; exact List.cons_ne_nil _ _) 1 0
    ⟨mixDigest [], mixDigest_zero_length⟩
  have hseen : (seenDigest memberView.messages authorView.lastMessageId).isSome = true := by
    rw [lastMessageId_authorView, seenDigest_memberView]
    rfl
  have hapart : HashesApart mixedPrims 5 (upTo authorView.lastMessageId memberView.messages)
      (upTo authorView.lastMessageId authorView.messages) := by
    rw [lastMessageId_authorView]
    exact views_apart
  have hexact := checkpoint_exact sha256_mixedPrims (newSession_fresh 1) (newSession_fresh 3)
    authorCalls memberCalls 5 0 hcreate
    (firstMessageId_memberView.trans firstMessageId_authorView.symm) hseen hapart
  obtain ⟨warnings, saved', hrecord, hwarns⟩ := hexact.2 true
  refine ⟨_, warnings, saved', hrecord, hwarns.mpr ⟨2, lastMessageId_authorView.ge, ?_⟩⟩
  have hne := octets_ne.2.2.2.2
  show seenDigest authorView.messages 2 ≠ seenDigest memberView.messages 2
  rw [seenDigest_authorView, seenDigest_memberView]
  exact fun heq => hne (Option.some.inj heq)

end SecChat.Consistency
