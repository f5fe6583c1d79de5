import SecChat.Session.PeerCheckpoints

/-!
# Checkpoints that are delivered again

An honest member signs its growing transcript again and again, and each checkpoint names the one
before it.  Another member, which sees the same messages, records them, and finds them again in the
windows of the history.

* `Grows`, `HonestChain`: the transcripts and checkpoints of the author;
* `Matches`, `deliver`, `deliverAll`: the other member;
* `deliver_of`: what one delivery warns of and leaves;
* `Harmless`: what deliveries of recorded checkpoints should do; `harmless_iff`: when they do it.
-/

namespace SecChat.Consistency

open Py

variable {P : Prims} {convId : ℤ}

/-! ### The author -/

variable (P) in
/-- A transcript after messages that come behind its last one. -/
structure Grows (convId : ℤ) (state state' : TranscriptState) : Prop where
  kept : Kept P convId state'
  own : state'.lastOwnCheckpointHash = state.lastOwnCheckpointHash
  last : state.lastMessageId ≤ state'.lastMessageId
  same : ∀ id ≤ state.lastMessageId,
    seenDigest state'.messages id = seenDigest state.messages id

/-- A checkpoint with the transcript that it was made over. -/
structure Made where
  base : TranscriptState
  payload : Json

variable (P) in
/-- The checkpoints that a member makes one after another while its transcript grows. -/
inductive HonestChain (convId myUid : ℤ) (identity : Seed) : TranscriptState → List Made → Prop
  | nil (state : TranscriptState) : HonestChain convId myUid identity state []
  | cons {state base saved : TranscriptState} {now : ℤ} {payload : Json} {later : List Made}
      (grows : Grows P convId state base)
      (made : createTranscriptCheckpoint P convId myUid now (some identity) base =
        .ok (some (payload, saved)))
      (rest : HonestChain convId myUid identity saved later) :
      HonestChain convId myUid identity state (⟨base, payload⟩ :: later)

variable (P) in
/-- A checkpoint over a transcript, with what was read off when it was made. -/
structure MadeBy (convId myUid : ℤ) (identity : Seed) (made : Made) : Prop where
  kept : Kept P convId made.base
  payload : ∃ now, made.payload = signedCheckpoint P convId myUid now identity made.base
  count : 0 < made.base.messageCount
  first : 0 < made.base.firstMessageId
  last : 0 < made.base.lastMessageId
  head : made.base.transcriptHead ≠ ""

/-- What `create_transcript_checkpoint` hands out and saves. -/
theorem created_of {base saved : TranscriptState} (h : Kept P convId base) {myUid now : ℤ}
    {identity : Seed} {payload : Json}
    (hcreate : createTranscriptCheckpoint P convId myUid now (some identity) base =
      .ok (some (payload, saved))) :
    MadeBy P convId myUid identity ⟨base, payload⟩ ∧
      saved = { base with lastOwnCheckpointHash := checkpointHash P payload } := by
  unfold createTranscriptCheckpoint at hcreate
  dsimp only at hcreate
  rw [h.computed] at hcreate
  split at hcreate
  · cases hcreate
  · next hcount =>
    obtain ⟨hash, hhash, hcreate⟩ := bind_eq_ok_iff.mp hcreate
    obtain ⟨rfl, rfl⟩ := Prod.mk.inj (Option.some.inj (Except.ok.inj hcreate))
    simp only [not_or, not_le] at hcount
    refine ⟨⟨h, ⟨now, rfl⟩, hcount.1, hcount.2.1, hcount.2.2.1, hcount.2.2.2⟩, ?_⟩
    have hread : strField (signedCheckpoint P convId myUid now identity base) "checkpoint_hash" =
        .ok (checkpointHash P (.obj (unsignedCheckpoint convId myUid now
          (P.ed25519Public identity) base ++ [("sig", .str (b64encode (P.ed25519Sign identity
            (canonicalCheckpoint (.obj (unsignedCheckpoint convId myUid now
              (P.ed25519Public identity) base))))))]))) := by
      simp [signedCheckpoint, unsignedCheckpoint]
    have hsame : canonicalCheckpoint (signedCheckpoint P convId myUid now identity base) =
        canonicalCheckpoint (.obj (unsignedCheckpoint convId myUid now
          (P.ed25519Public identity) base ++ [("sig", .str (b64encode (P.ed25519Sign identity
            (canonicalCheckpoint (.obj (unsignedCheckpoint convId myUid now
              (P.ed25519Public identity) base))))))])) := by
      simp [signedCheckpoint, unsignedCheckpoint, canonicalCheckpoint]
    rw [hread] at hhash
    rw [← Except.ok.inj hhash, checkpointHash, checkpointHash, hsame]

/-- The canonical form leaves the signature and the hash out. -/
theorem canonical_signed (base : TranscriptState) (myUid now : ℤ) (identity : Seed) :
    canonicalCheckpoint (signedCheckpoint P convId myUid now identity base) =
      canonicalCheckpoint (.obj (unsignedCheckpoint convId myUid now
        (P.ed25519Public identity) base)) := by
  simp [signedCheckpoint, unsignedCheckpoint, canonicalCheckpoint]

theorem b64decodeAscii_b64encode (raw : Bytes) : b64decodeAscii (b64encode raw) = .ok raw := by
  have hascii : (b64encode raw).toList.all (·.toNat < 128) = true := by
    rw [List.all_eq_true]
    intro c hc
    have hrange := (b64encode_chars raw c hc).1
    exact decide_eq_true (by omega)
  rw [b64decodeAscii, if_pos hascii, b64decode_b64encode]

/-- The signature of an honest checkpoint is valid. -/
theorem verifyCheckpoint_signed (hP : P.Correct) (base : TranscriptState) (myUid now : ℤ)
    (identity : Seed) :
    verifyCheckpoint P (signedCheckpoint P convId myUid now identity base)
      (b64encode (P.ed25519Public identity)) = .ok () := by
  have hsig : (signedCheckpoint P convId myUid now identity base).getD "sig" (.str "") =
      .ok (.str (b64encode (P.ed25519Sign identity (canonicalCheckpoint (.obj
        (unsignedCheckpoint convId myUid now (P.ed25519Public identity) base)))))) := by
    simp [signedCheckpoint, unsignedCheckpoint]
  rw [verifyCheckpoint, b64decodeAscii_b64encode, ok_bind, hsig, ok_bind, Json.toStr_str,
    b64decodeAscii_b64encode, ok_bind, canonical_signed, if_pos (hP.verify_sign _ _)]
  rfl

/-- The head of a transcript with messages has 64 hex digits. -/
theorem length_head (h32 : ∀ msg, (P.sha256 msg).length = 32) {state : TranscriptState}
    (h : Kept P convId state) (hlast : 0 < state.lastMessageId) :
    state.transcriptHead.length = 64 := by
  rw [h.head_eq hlast]
  cases upTo state.lastMessageId state.messages using List.reverseRecOn with
  | nil =>
    show zeroHead.length = 64
    rw [zeroHead, length_hexOf, List.length_replicate]
  | append_singleton items item =>
    rw [HashChain.chain_concat, nextHead, sha256Hex, length_hexOf, h32]

/-- An honest checkpoint passes all tests of its own. -/
theorem checkedCheckpoint_made (hP : P.Correct) (h32 : ∀ msg, (P.sha256 msg).length = 32)
    {myUid : ℤ} (hUid : 0 < myUid) {identity : Seed} {made : Made}
    (h : MadeBy P convId myUid identity made) :
    checkedCheckpoint P convId made.payload true =
      .ok (signedFields P myUid identity made.base, []) := by
  obtain ⟨now, hpayload⟩ := h.payload
  have hof : CheckpointOf convId made.base (signedFields P myUid identity made.base) made.payload := by
    rw [hpayload]
    exact checkpointOf_signed made.base myUid now identity
  have hfields : ¬ ((signedFields P myUid identity made.base).actorUid ≤ 0 ∨
      (signedFields P myUid identity made.base).firstId ≤ 0 ∨
      (signedFields P myUid identity made.base).lastId ≤ 0 ∨ made.base.messageCount ≤ 0 ∨
      (signedFields P myUid identity made.base).head.length ≠ 64) := by
    have hlen := length_head h32 h.kept h.last
    have hfirst := h.first
    have hlast := h.last
    have hcount := h.count
    simp only [signedFields, hlen, ne_eq, not_true_eq_false, or_false, not_or, not_le]
    exact ⟨hUid, hfirst, hlast, hcount⟩
  have hverify : verifyCheckpoint P made.payload (signedFields P myUid identity made.base).identityPk =
      .ok () := by
    rw [hpayload]
    exact verifyCheckpoint_signed hP made.base myUid now identity
  have htry : tryCheckpoint P convId made.payload true [] =
      (.ok (signedFields P myUid identity made.base), []) := by
    simp only [tryCheckpoint, hof.conv, hof.event, hof.actorUid, hof.first, hof.last, hof.count,
      hof.head, hof.identityPk, Method.ofExcept_ok_bind, warnIf_bind, ne_eq, not_true_eq_false,
      if_false, if_true, hverify]
    rw [if_neg hfields]
    rfl
  rw [checkedCheckpoint, htry]

/-- Every checkpoint of a chain is an honest one. -/
theorem HonestChain.madeBy {myUid : ℤ} {identity : Seed} {state : TranscriptState}
    {chain : List Made} (h : HonestChain P convId myUid identity state chain) :
    ∀ made ∈ chain, MadeBy P convId myUid identity made := by
  induction h with
  | nil => exact fun made hmade => absurd hmade List.not_mem_nil
  | cons grows made _ ih =>
    intro made' hmade
    rcases List.mem_cons.mp hmade with rfl | hmade
    · exact (created_of grows.kept made).1
    · exact ih made' hmade

/-- A checkpoint names the one before it. -/
theorem HonestChain.linked {myUid : ℤ} {identity : Seed} {state : TranscriptState}
    {front rest : List Made} {a b : Made}
    (h : HonestChain P convId myUid identity state (front ++ a :: b :: rest)) :
    b.base.lastOwnCheckpointHash = checkpointHash P a.payload := by
  induction front generalizing state with
  | nil =>
    cases h with
    | cons grows made later =>
      cases later with
      | cons grows' made' later' =>
        rw [grows'.own, (created_of grows.kept made).2]
  | cons c front ih =>
    cases h with
    | cons grows made later => exact ih later

/-- The first checkpoint of a chain names none. -/
theorem HonestChain.first_own {myUid : ℤ} {identity : Seed} {state : TranscriptState} {a : Made}
    {rest : List Made} (h : HonestChain P convId myUid identity state (a :: rest)) :
    a.base.lastOwnCheckpointHash = state.lastOwnCheckpointHash := by
  cases h with
  | cons grows made later => exact grows.own

theorem MadeBy.declared {myUid : ℤ} {identity : Seed} {made : Made}
    (h : MadeBy P convId myUid identity made) :
    strField made.payload "prev_checkpoint_hash" = .ok made.base.lastOwnCheckpointHash := by
  obtain ⟨now, hpayload⟩ := h.payload
  rw [hpayload]
  simp [signedCheckpoint, unsignedCheckpoint]

theorem MadeBy.own_eq {myUid : ℤ} {identity : Seed} {a b : Made}
    (ha : MadeBy P convId myUid identity a) (hb : MadeBy P convId myUid identity b)
    (h : a.payload = b.payload) :
    a.base.lastOwnCheckpointHash = b.base.lastOwnCheckpointHash := by
  have hdeclared := ha.declared
  rw [h, hb.declared] at hdeclared
  exact (Except.ok.inj hdeclared).symm

/-- SHA-256 does not collide on the checkpoints of a chain. -/
def HashesDistinct (P : Prims) (chain : List Made) : Prop :=
  ∀ a ∈ chain, ∀ b ∈ chain, checkpointHash P a.payload = checkpointHash P b.payload →
    a.payload = b.payload

/-- Two checkpoints that come one after the other are different: equal ones would name the same
checkpoint, and so would all before them, down to the first one. -/
theorem HonestChain.consecutive_ne {myUid : ℤ} {identity : Seed} {state : TranscriptState}
    {front rest : List Made} {a b : Made}
    (h : HonestChain P convId myUid identity state (front ++ a :: b :: rest))
    (hdistinct : HashesDistinct P (front ++ a :: b :: rest))
    (hstart : ∀ c ∈ (front ++ a :: b :: rest).head?,
      checkpointHash P c.payload ≠ state.lastOwnCheckpointHash) : a.payload ≠ b.payload := by
  induction front generalizing state with
  | nil =>
    intro heq
    have ha := h.madeBy a (by simp)
    have hb := h.madeBy b (by simp)
    refine hstart a rfl ?_
    rw [← h.first_own, ha.own_eq hb heq]
    have hchain : HonestChain P convId myUid identity state ([] ++ a :: b :: rest) := h
    exact hchain.linked.symm
  | cons c front ih =>
    have hc := h.madeBy c (by simp)
    have hown := h.first_own
    have hfirst := hstart c rfl
    cases h with
    | cons grows made later =>
      rename_i grown saved now payload
      refine ih later (fun x hx y hy => hdistinct x (List.mem_cons_of_mem _ hx) y
        (List.mem_cons_of_mem _ hy)) fun d hd heq => ?_
      have hsaved := (created_of grows.kept made).2
      have hmem : d ∈ front ++ a :: b :: rest := List.mem_of_head? hd
      have hd' := later.madeBy d hmem
      have hown' : d.base.lastOwnCheckpointHash = saved.lastOwnCheckpointHash := by
        obtain ⟨tail, htail⟩ := List.head?_eq_some_iff.mp hd
        have later : HonestChain P convId myUid identity saved (d :: tail) := htail ▸ later
        exact later.first_own
      rw [hsaved] at heq hown'
      have hsame : d.payload = payload :=
        hdistinct d (List.mem_cons_of_mem _ hmem) _ List.mem_cons_self heq
      refine hfirst ?_
      rw [← hown, hc.own_eq hd' hsame.symm, hown']

/-! ### The other member -/

/-- The other member sees the messages up to a checkpoint as its author does. -/
def Matches (here : TranscriptState) (made : Made) : Prop :=
  ∀ id ≤ made.base.lastMessageId,
    seenDigest here.messages id = seenDigest made.base.messages id

variable (P) in
/-- One delivery: the warnings that are returned, and the transcript afterwards. -/
def deliver (convId : ℤ) (state : TranscriptState) (payload : Json) :
    List String × TranscriptState :=
  match recordTranscriptCheckpoint P convId payload true state with
  | .ok (warnings, saved) => (warnings.take 5, saved)
  | .error _ => ([], state)

variable (P) in
/-- Deliveries one after another. -/
def deliverAll (convId : ℤ) (state : TranscriptState) (payloads : List Json) : TranscriptState :=
  payloads.foldl (fun state payload => (deliver P convId state payload).2) state

/-- The key that the checkpoints of a member are kept under. -/
def authorKey (P : Prims) (myUid : ℤ) (identity : Seed) : String :=
  peerKey ⟨myUid, 0, 0, "", b64encode (P.ed25519Public identity)⟩

/-- The last message of a transcript is in its view. -/
theorem Kept.seen_last {state : TranscriptState} (h : Kept P convId state)
    (hlast : 0 < state.lastMessageId) :
    (seenDigest state.messages state.lastMessageId).isSome = true := by
  have hid : state.lastMessageId = ((sortedItems state.messages).getLast?.map Prod.fst).getD 0 :=
    congrArg TranscriptState.lastMessageId h.computed.symm
  cases hget : (sortedItems state.messages).getLast? with
  | none =>
    rw [hget] at hid
    rw [hid] at hlast
    exact absurd hlast (lt_irrefl 0)
  | some item =>
    rw [hget] at hid
    have hseen := (mem_sortedItems h.wellKept).mp (List.mem_of_getLast? hget)
    rw [hid]
    exact Option.isSome_iff_exists.mpr ⟨item.2, hseen⟩

/-- A matching view is not warned about. -/
theorem localWarnings_matches {here : TranscriptState} (hhere : Kept P convId here) {myUid : ℤ}
    {identity : Seed} {made : Made} (h : MadeBy P convId myUid identity made)
    (hmatch : Matches here made) :
    localWarnings (signedFields P myUid identity made.base) here = [] := by
  have hhead : made.base.transcriptHead =
      HashChain.chain (nextHead P convId) zeroHead (upTo made.base.lastMessageId made.base.messages) :=
    h.kept.head_eq h.last
  have hitems : upTo made.base.lastMessageId here.messages =
      upTo made.base.lastMessageId made.base.messages :=
    (upTo_eq_iff hhere.wellKept h.kept.wellKept).mpr hmatch
  have hat : here.headsById.lookup (toString made.base.lastMessageId) =
      some (.str made.base.transcriptHead) := by
    have hat := hhere.headAt_eq made.base.lastMessageId
    rw [hmatch _ le_rfl, h.kept.seen_last h.last, if_pos rfl, hitems, ← hhead] at hat
    exact hat
  have hlastHead : here.lastMessageId = made.base.lastMessageId →
      here.transcriptHead = made.base.transcriptHead := by
    intro hid
    rw [hhere.head_eq (hid ▸ h.last), hid, hitems, hhead]
  unfold localWarnings
  split
  · simp only [signedFields, hat, Option.getD_some, Json.pyEq]
    simp only [decide_true, Bool.true_eq_false, and_false, if_false]
    refine if_neg ?_
    rintro ⟨hid, -, -, hne⟩
    exact hne (hlastHead hid)
  · rfl

/-- What is kept of an honest checkpoint. -/
structure Stored (P : Prims) (myUid : ℤ) (identity : Seed) (made : Made) (stored : Json) :
    Prop where
  eq : storedCheckpoint P (signedFields P myUid identity made.base) made.payload = .ok stored
  dict : ∃ kvs, stored = .obj kvs
  last : intField stored "last_message_id" = .ok made.base.lastMessageId
  head : strField stored "transcript_head" = .ok made.base.transcriptHead
  hash : strField stored "checkpoint_hash" = .ok (checkpointHash P made.payload)

theorem storedCheckpoint_made {myUid : ℤ} {identity : Seed} {made : Made}
    (h : MadeBy P convId myUid identity made) :
    ∃ stored, Stored P myUid identity made stored := by
  obtain ⟨now, hpayload⟩ := h.payload
  have hof : CheckpointOf convId made.base (signedFields P myUid identity made.base) made.payload := by
    rw [hpayload]
    exact checkpointOf_signed made.base myUid now identity
  obtain ⟨hash, hhash⟩ := hof.previous
  obtain ⟨ts, hts⟩ := hof.time
  have hread : ∃ stored, storedCheckpoint P (signedFields P myUid identity made.base) made.payload =
      .ok stored ∧ (∃ kvs, stored = .obj kvs) ∧
      intField stored "last_message_id" = .ok made.base.lastMessageId ∧
      strField stored "transcript_head" = .ok made.base.transcriptHead ∧
      strField stored "checkpoint_hash" = .ok (checkpointHash P made.payload) := by
    rw [storedCheckpoint, hof.count, ok_bind, hhash, ok_bind, hts, ok_bind]
    refine ⟨_, rfl, ⟨_, rfl⟩, ?_, ?_, ?_⟩ <;> simp [signedFields]
  obtain ⟨stored, heq, hdict, hlast, hhead, hhash⟩ := hread
  exact ⟨stored, heq, hdict, hlast, hhead, hhash⟩

/-- The warnings of the comparison with an honest checkpoint that is kept. -/
theorem peerWarnings_made {myUid : ℤ} {identity : Seed} {made kept : Made} {stored : Json}
    (h : MadeBy P convId myUid identity made) (hstored : Stored P myUid identity kept stored) :
    peerWarnings (signedFields P myUid identity made.base) made.payload (some stored) =
      .ok ((if made.base.lastMessageId < kept.base.lastMessageId then [rollbackWarning] else []) ++
        (if made.base.lastMessageId = kept.base.lastMessageId ∧ kept.base.transcriptHead ≠ "" ∧
            made.base.transcriptHead ≠ "" ∧ kept.base.transcriptHead ≠ made.base.transcriptHead then
          ["Transcript checkpoint changed a peer view at the same message."] else []) ++
        (if made.base.lastOwnCheckpointHash ≠ "" ∧ checkpointHash P kept.payload ≠ "" ∧
            made.base.lastOwnCheckpointHash ≠ checkpointHash P kept.payload then
          ["Transcript checkpoint chain does not continue the previous peer checkpoint."] else [])) := by
  obtain ⟨kvs, rfl⟩ := hstored.dict
  simp only [peerWarnings, hstored.last, hstored.head, hstored.hash, h.declared, ok_bind]
  rfl

/-- A transcript with other checkpoints of peers. -/
def withPeers (here : TranscriptState) (peers : List (String × Json)) : TranscriptState :=
  { here with peerCheckpoints := peers }

/-- What one delivery of an honest checkpoint does where the views match. -/
theorem deliver_made (hP : P.Correct) (h32 : ∀ msg, (P.sha256 msg).length = 32)
    {here : TranscriptState} (hhere : Kept P convId here) {myUid : ℤ} (hUid : 0 < myUid)
    {identity : Seed} {made : Made} (h : MadeBy P convId myUid identity made)
    (hmatch : Matches here made) {peers : List (String × Json)} {changed : List String}
    (hchanged : peerWarnings (signedFields P myUid identity made.base) made.payload
      (peers.lookup (authorKey P myUid identity)) = .ok changed) :
    ∃ stored, Stored P myUid identity made stored ∧ deliver P convId (withPeers here peers) made.payload =
      (changed.take 5,
        withPeers here (dictSet peers (authorKey P myUid identity, stored))) := by
  obtain ⟨stored, hstored⟩ := storedCheckpoint_made h
  have hcomputed : recomputeTranscriptChain P convId (withPeers here peers) = withPeers here peers := by
    have hpeers : recomputeTranscriptChain P convId (withPeers here peers) =
        withPeers (recomputeTranscriptChain P convId here) peers := rfl
    rw [hpeers, hhere.computed]
  have hlocal : localWarnings (signedFields P myUid identity made.base) (withPeers here peers) = [] :=
    localWarnings_matches hhere h hmatch
  have hkey : (if (signedFields P myUid identity made.base).identityPk = "" then
      s!"uid:{(signedFields P myUid identity made.base).actorUid}"
      else (signedFields P myUid identity made.base).identityPk) = authorKey P myUid identity := rfl
  refine ⟨stored, hstored, ?_⟩
  rw [deliver, recordTranscriptCheckpoint, checkedCheckpoint_made hP h32 hUid h, ok_bind]
  dsimp only
  rw [hcomputed, hkey]
  have hlookup : (withPeers here peers).peerCheckpoints = peers := rfl
  rw [hlookup, hchanged, ok_bind, hstored.eq, ok_bind, hlocal, List.nil_append, List.append_nil]
  rfl

/-! ### Deliveries -/

section Deliveries

variable {here : TranscriptState} {myUid : ℤ} {identity : Seed}

theorem deliverAll_concat (state : TranscriptState) (payloads : List Json) (payload : Json) :
    deliverAll P convId state (payloads ++ [payload]) =
      (deliver P convId (deliverAll P convId state payloads) payload).2 := by
  rw [deliverAll, List.foldl_append]
  rfl

/-- After deliveries of honest checkpoints the last one of them is kept. -/
theorem deliverAll_made (hP : P.Correct) (h32 : ∀ msg, (P.sha256 msg).length = 32)
    (hhere : Kept P convId here) (hUid : 0 < myUid)
    (hnew : here.peerCheckpoints.lookup (authorKey P myUid identity) = none) {delivered : List Made}
    (hmade : ∀ made ∈ delivered, MadeBy P convId myUid identity made)
    (hmatch : ∀ made ∈ delivered, Matches here made) :
    ∃ peers, deliverAll P convId here (delivered.map Made.payload) = withPeers here peers ∧
      (delivered = [] → peers.lookup (authorKey P myUid identity) = none) ∧
      ∀ last ∈ delivered.getLast?, ∃ stored, Stored P myUid identity last stored ∧
        peers.lookup (authorKey P myUid identity) = some stored := by
  induction delivered using List.reverseRecOn with
  | nil => exact ⟨here.peerCheckpoints, rfl, fun _ => hnew, fun last hlast => by cases hlast⟩
  | append_singleton delivered made ih =>
    obtain ⟨peers, hrun, hnone, hsome⟩ := ih
      (fun m hm => hmade m (List.mem_append_left _ hm))
      (fun m hm => hmatch m (List.mem_append_left _ hm))
    have hmem : made ∈ delivered ++ [made] := List.mem_append_right _ List.mem_cons_self
    have hchanged : ∃ changed, peerWarnings (signedFields P myUid identity made.base) made.payload
        (peers.lookup (authorKey P myUid identity)) = .ok changed := by
      cases hlast : delivered.getLast? with
      | none =>
        rw [hnone (List.getLast?_eq_none_iff.mp hlast)]
        exact ⟨[], rfl⟩
      | some last =>
        obtain ⟨stored, hreads, hlookup⟩ := hsome last hlast
        rw [hlookup]
        exact ⟨_, peerWarnings_made (hmade made hmem) hreads⟩
    obtain ⟨changed, hchanged⟩ := hchanged
    obtain ⟨stored, hreads, hdeliver⟩ := deliver_made hP h32 hhere hUid (hmade made hmem)
      (hmatch made hmem) hchanged
    refine ⟨dictSet peers (authorKey P myUid identity, stored), ?_, ?_, ?_⟩
    · rw [List.map_append, List.map_singleton, deliverAll_concat, hrun, hdeliver]
    · intro hnil
      exact absurd hnil (List.append_ne_nil_of_right_ne_nil _ (List.cons_ne_nil _ _))
    · intro last hlast
      rw [List.getLast?_concat] at hlast
      obtain rfl := Option.some.inj hlast
      exact ⟨stored, hreads, by rw [lookup_dictSet, if_pos rfl]⟩

/-- Checkpoints that were recorded are delivered again: no delivery is warned about, and the newest
of them stays the one that is kept. -/
def Harmless (P : Prims) (convId : ℤ) (here : TranscriptState) (key : String)
    (recorded again : List Made) : Prop :=
  ∀ earlier made, earlier ++ [made] <+: again →
    let state := deliverAll P convId here ((recorded ++ earlier).map Made.payload)
    (deliver P convId state made.payload).1 = [] ∧
      (deliver P convId state made.payload).2.peerCheckpoints.lookup key =
        (deliverAll P convId here (recorded.map Made.payload)).peerCheckpoints.lookup key

/-- The first checkpoint of an author, where it is the only one, can come again. -/
theorem harmless_single (hP : P.Correct) (h32 : ∀ msg, (P.sha256 msg).length = 32)
    (hhere : Kept P convId here) (hUid : 0 < myUid)
    (hnew : here.peerCheckpoints.lookup (authorKey P myUid identity) = none) {first : Made}
    (hfirst : MadeBy P convId myUid identity first) (hown : first.base.lastOwnCheckpointHash = "")
    (hmatch : Matches here first) {again : List Made} (hagain : ∀ made ∈ again, made = first) :
    Harmless P convId here (authorKey P myUid identity) [first] again := by
  intro earlier made hpre
  dsimp only
  have hmem : ∀ m ∈ [first] ++ earlier, m = first := by
    intro m hm
    rcases List.mem_append.mp hm with hm | hm
    · exact List.mem_singleton.mp hm
    · exact hagain m (hpre.subset (List.mem_append_left _ hm))
  obtain rfl : made = first :=
    hagain made (hpre.subset (List.mem_append_right _ List.mem_cons_self))
  -- what is kept is the checkpoint itself, whatever was delivered before
  have hstate : ∀ delivered : List Made, delivered ≠ [] → (∀ m ∈ delivered, m = made) →
      ∃ peers stored, deliverAll P convId here (delivered.map Made.payload) =
        withPeers here peers ∧ Stored P myUid identity made stored ∧
        peers.lookup (authorKey P myUid identity) = some stored := by
    intro delivered hne hall
    obtain ⟨peers, hrun, -, hsome⟩ := deliverAll_made hP h32 hhere hUid hnew
      (fun m hm => (hall m hm).symm ▸ hfirst) (fun m hm => (hall m hm).symm ▸ hmatch)
    obtain ⟨last, hlast⟩ := Option.isSome_iff_exists.mp (List.getLast?_isSome.mpr hne)
    obtain ⟨stored, hreads, hlookup⟩ := hsome last hlast
    obtain rfl := hall last (List.mem_of_getLast? hlast)
    exact ⟨peers, stored, hrun, hreads, hlookup⟩
  obtain ⟨peers, stored, hrun, hstored, hlookup⟩ :=
    hstate ([made] ++ earlier) (by simp) hmem
  obtain ⟨peers', stored', hrun', hstored', hlookup'⟩ :=
    hstate [made] (by simp) (fun m hm => List.mem_singleton.mp hm)
  obtain rfl : stored' = stored := Except.ok.inj (hstored'.eq.symm.trans hstored.eq)
  have hnone : peerWarnings (signedFields P myUid identity made.base) made.payload
      (peers.lookup (authorKey P myUid identity)) = .ok [] := by
    rw [hlookup, peerWarnings_made hfirst hstored, if_neg (lt_irrefl _), if_neg (by simp),
      if_neg (by simp [hown])]
    rfl
  obtain ⟨stored, hstored'', hdeliver⟩ := deliver_made hP h32 hhere hUid hfirst hmatch hnone
  obtain rfl : stored' = stored := Except.ok.inj (hstored.eq.symm.trans hstored''.eq)
  rw [hrun, hdeliver, hrun']
  refine ⟨rfl, ?_⟩
  show (dictSet peers _).lookup _ = peers'.lookup _
  rw [lookup_dictSet, if_pos rfl, hlookup']

/-- With two checkpoints recorded every one of them is warned about, or takes the place of the
newest one. -/
theorem not_harmless (hP : P.Correct) (h32 : ∀ msg, (P.sha256 msg).length = 32)
    (hhere : Kept P convId here) (hUid : 0 < myUid)
    (hnew : here.peerCheckpoints.lookup (authorKey P myUid identity) = none) {front : List Made}
    {a b : Made} (hchain : HonestChain P convId myUid identity {} (front ++ [a, b]))
    (hdistinct : HashesDistinct P (front ++ [a, b]))
    (hmatch : ∀ made ∈ front ++ [a, b], Matches here made) {made : Made} {rest : List Made}
    (hmade : made ∈ front ++ [a, b]) :
    ¬ Harmless P convId here (authorKey P myUid identity) (front ++ [a, b]) (made :: rest) := by
  intro h
  have hall := hchain.madeBy
  have hfirst := h [] made (List.prefix_append [made] rest)
  dsimp only at hfirst
  rw [List.append_nil] at hfirst
  obtain ⟨peers, hrun, -, hsome⟩ := deliverAll_made hP h32 hhere hUid hnew hall hmatch
  obtain ⟨stored, hstored, hlookup⟩ := hsome b (by simp)
  have hchanged := peerWarnings_made (hall made hmade) hstored
  rw [← hlookup] at hchanged
  obtain ⟨stored', hstored', hdeliver⟩ := deliver_made hP h32 hhere hUid (hall made hmade)
    (hmatch made hmade) hchanged
  rw [hrun, hdeliver] at hfirst
  obtain ⟨hwarnings, hkept⟩ := hfirst
  -- what is kept is still the newest one, so that this is the newest one
  have hkept : (dictSet peers (authorKey P myUid identity, stored')).lookup
      (authorKey P myUid identity) = peers.lookup (authorKey P myUid identity) := hkept
  rw [lookup_dictSet, if_pos rfl, hlookup] at hkept
  have hhash := hstored'.hash
  have hkept : stored' = stored := Option.some.inj hkept
  rw [hkept, hstored.hash] at hhash
  have hb : b ∈ front ++ [a, b] := by simp
  have ha : a ∈ front ++ [a, b] := by simp
  have hsame : b.payload = made.payload := hdistinct b hb made hmade (Except.ok.inj hhash)
  have hown : made.base.lastOwnCheckpointHash = checkpointHash P a.payload := by
    rw [← (hall b hb).own_eq (hall made hmade) hsame]
    exact hchain.linked
  -- its predecessor is not the newest one, and the comparison says so
  have hne : ∀ payload, checkpointHash P payload ≠ "" := by
    intro payload hempty
    have hlen := congrArg String.length hempty
    rw [checkpointHash, sha256Hex, length_hexOf, h32] at hlen
    cases hlen
  have hlast : ¬ (made.base.lastOwnCheckpointHash ≠ "" ∧ checkpointHash P b.payload ≠ "" ∧
      made.base.lastOwnCheckpointHash ≠ checkpointHash P b.payload) := by
    intro hbroken
    rw [if_pos hbroken, List.take_eq_nil_iff, or_iff_right (by decide)] at hwarnings
    exact List.append_ne_nil_of_right_ne_nil _ (List.cons_ne_nil _ _) hwarnings
  rw [hown] at hlast
  have hhashes : checkpointHash P a.payload = checkpointHash P b.payload := by
    by_contra hdiff
    exact hlast ⟨hne _, hne _, hdiff⟩
  exact hchain.consecutive_ne hdistinct (fun c _ => hne c.payload) (hdistinct a ha b hb hhashes)

end Deliveries

/-- **Checkpoints that are delivered again are harmless only while there is one.**  An honest author
makes checkpoints of its growing transcript, and another member, whose view matches and which has
nothing of this author yet, records them.  Then deliveries of recorded ones, in any order, are not
warned about and leave the newest one in place, if and only if there are none, or only one
checkpoint was recorded. -/
theorem harmless_iff (hP : P.Correct) (h32 : ∀ msg, (P.sha256 msg).length = 32) {myUid : ℤ}
    (hUid : 0 < myUid) {identity : Seed} {recorded : List Made}
    (hchain : HonestChain P convId myUid identity {} recorded)
    (hdistinct : HashesDistinct P recorded) {member : Engine} (hmember : member.Fresh)
    (memberCalls : List Call) :
    let here := (member.run P memberCalls).load convId
    here.peerCheckpoints.lookup (authorKey P myUid identity) = none →
    (∀ made ∈ recorded, Matches here made) →
    ∀ again : List Made, (∀ made ∈ again, made ∈ recorded) →
      (Harmless P convId here (authorKey P myUid identity) recorded again ↔
        again = [] ∨ recorded.length = 1) := by
  intro here hnew hmatch again hagain
  have hhere : Kept P convId here :=
    kept_keptByCalls.load (kept_keptByCalls.of_fresh hmember memberCalls) convId
  constructor
  · intro h
    by_contra hnot
    obtain ⟨hne, hlen⟩ := not_or.mp hnot
    obtain ⟨made, rest, rfl⟩ := List.exists_cons_of_ne_nil hne
    have hmem := hagain made List.mem_cons_self
    obtain ⟨front, b, rfl⟩ : ∃ front b, recorded = front ++ [b] :=
      ⟨_, _, (List.dropLast_append_getLast (List.ne_nil_of_mem hmem)).symm⟩
    rcases List.eq_nil_or_concat front with rfl | ⟨front, a, rfl⟩
    · exact hlen rfl
    · rw [List.concat_eq_append, List.append_assoc, List.singleton_append] at *
      exact not_harmless hP h32 hhere hUid hnew hchain hdistinct hmatch hmem h
  · rintro (rfl | hlen)
    · intro earlier made hpre
      exact absurd (List.prefix_nil.mp hpre) (List.append_ne_nil_of_right_ne_nil _
        (List.cons_ne_nil _ _))
    · obtain ⟨first, rfl⟩ := List.length_eq_one_iff.mp hlen
      refine harmless_single hP h32 hhere hUid hnew (hchain.madeBy first List.mem_cons_self)
        hchain.first_own (hmatch first List.mem_cons_self) fun made hmade => ?_
      exact List.mem_singleton.mp (hagain made hmade)

/-! ### Two messages -/

/-- The last id of a transcript is the greatest one that it has seen. -/
theorem Kept.le_last {state : TranscriptState} (h : Kept P convId state) {id : ℤ} {digest : String}
    (hseen : seenDigest state.messages id = some digest) : id ≤ state.lastMessageId := by
  have hmem := (mem_sortedItems h.wellKept).mpr hseen
  obtain ⟨last, hlast⟩ := Option.isSome_iff_exists.mp
    (List.getLast?_isSome.mpr (List.ne_nil_of_mem hmem))
  have hid : state.lastMessageId = ((sortedItems state.messages).getLast?.map Prod.fst).getD 0 :=
    congrArg TranscriptState.lastMessageId h.computed.symm
  rw [hid, hlast]
  exact le_last_of_pairwise (pairwise_sortedItems h.wellKept) hlast _ hmem

/-- A transcript grows by a message with a greater id. -/
theorem grows_recorded {state saved : TranscriptState} (h : Kept P convId state)
    {msgId senderId editTarget : ℤ} {body ts : String} {deleted : Bool}
    (hrec : recordTranscriptMessage P convId msgId senderId body ts editTarget deleted state =
      .ok (some saved)) (hid : state.lastMessageId < msgId) : Grows P convId state saved := by
  have hkept := h.recorded hrec
  unfold recordTranscriptMessage at hrec
  split at hrec
  · cases hrec
  · obtain ⟨digest, -, hrec⟩ := bind_eq_ok_iff.mp hrec
    obtain rfl := Option.some.inj (Except.ok.inj hrec)
    have hsame : ∀ id ≤ state.lastMessageId,
        seenDigest (dictSet state.messages (toString msgId, .str digest)) id =
          seenDigest state.messages id := by
      intro id hle
      have hkey : toString id ≠ toString msgId := fun heq =>
        (hle.trans_lt hid).ne (toString_int_injective heq)
      simp only [seenDigest, lookup_dictSet, if_neg hkey]
    refine ⟨hkept, rfl, ?_, hsame⟩
    rcases le_or_gt state.lastMessageId 0 with hle | hlt
    · -- the ids of a transcript are positive
      refine hle.trans ?_
      show 0 ≤ ((sortedItems _).getLast?.map Prod.fst).getD 0
      cases hlast : (sortedItems (dictSet state.messages (toString msgId, .str digest))).getLast? with
      | none => exact le_rfl
      | some item =>
        exact (pos_of_seenDigest ((mem_sortedItems hkept.wellKept).mp
          (List.mem_of_getLast? hlast))).le
    · obtain ⟨seen, hseen⟩ := Option.isSome_iff_exists.mp (h.seen_last hlt)
      exact hkept.le_last ((hsame _ le_rfl).trans hseen)

/-- A transcript and the checkpoint over it. -/
theorem exists_made (h32 : ∀ msg, (P.sha256 msg).length = 32) {state : TranscriptState}
    (h : Kept P convId state) {id : ℤ} {digest : String}
    (hseen : seenDigest state.messages id = some digest) (myUid now : ℤ) (identity : Seed) :
    ∃ payload saved, createTranscriptCheckpoint P convId myUid now (some identity) state =
      .ok (some (payload, saved)) := by
  obtain ⟨saved, hcreate⟩ := h.creates h32
    (List.ne_nil_of_mem ((mem_sortedItems h.wellKept).mpr hseen)) myUid now identity
  exact ⟨_, saved, hcreate⟩

/-- An older checkpoint is taken for a rollback. -/
theorem not_harmless_behind (hP : P.Correct) (h32 : ∀ msg, (P.sha256 msg).length = 32)
    {here : TranscriptState} (hhere : Kept P convId here) {myUid : ℤ} (hUid : 0 < myUid)
    {identity : Seed}
    (hnew : here.peerCheckpoints.lookup (authorKey P myUid identity) = none) {recorded : List Made}
    (hmade : ∀ made ∈ recorded, MadeBy P convId myUid identity made)
    (hmatch : ∀ made ∈ recorded, Matches here made) {last made : Made}
    (hlast : recorded.getLast? = some last) (hmem : made ∈ recorded)
    (hbehind : made.base.lastMessageId < last.base.lastMessageId) (rest : List Made) :
    ¬ Harmless P convId here (authorKey P myUid identity) recorded (made :: rest) := by
  intro h
  have hfirst := h [] made (List.prefix_append [made] rest)
  dsimp only at hfirst
  rw [List.append_nil] at hfirst
  obtain ⟨peers, hrun, -, hsome⟩ := deliverAll_made hP h32 hhere hUid hnew hmade hmatch
  obtain ⟨stored, hstored, hlookup⟩ := hsome last hlast
  have hchanged := peerWarnings_made (hmade made hmem) hstored
  rw [← hlookup] at hchanged
  obtain ⟨stored', -, hdeliver⟩ := deliver_made hP h32 hhere hUid (hmade made hmem)
    (hmatch made hmem) hchanged
  rw [hrun, hdeliver, if_pos hbehind] at hfirst
  have hwarnings := hfirst.1
  rw [List.take_eq_nil_iff, or_iff_right (by decide)] at hwarnings
  cases hwarnings

/-- Nothing depends on the hash. -/
theorem correct_sha256 (hP : P.Correct) (sha256 : Bytes → Bytes) :
    ({ P with sha256 := sha256 } : Prims).Correct :=
  ⟨hP.exchange_comm, hP.public_ne_nil, hP.decrypt_encrypt, hP.verify_sign, hP.decap_encap,
    hP.keypair_ne_nil⟩

theorem mixedPrims_correct : mixedPrims.Correct :=
  correct_sha256 termPrims_symbolic.toCorrect mixDigest

/-- The seed of an author. -/
def someSeed : Seed := ⟨mixDigest [], mixDigest_zero_length⟩

/-- The transcript of two messages. -/
def twoMessages : TranscriptState := ((newSession 3).run mixedPrims authorCalls).load 5

theorem kept_twoMessages : Kept mixedPrims 5 twoMessages :=
  kept_keptByCalls.load (kept_keptByCalls.of_fresh (newSession_fresh 3) authorCalls) 5

theorem messages_twoMessages : twoMessages.messages =
    dictSet (dictSet [] (toString (1 : ℤ), .str (liveDigest 1 "one")))
      (toString (2 : ℤ), .str (liveDigest 2 "two")) :=
  messages_live (by decide) (by decide) isUserVisibleBody_one isUserVisibleBody_two

theorem peers_twoMessages (key : String) : twoMessages.peerCheckpoints.lookup key = none := by
  have h : twoMessages.peerCheckpoints.lookup key =
      (lastRecorded mixedPrims 5 key authorCalls).map PeerEntry.stored :=
    Engine.lookup_peers (newSession_fresh 3) rfl authorCalls 5 key
  rw [h]
  rfl

/-- A live message after which the transcript can be signed. -/
theorem exists_grown {state : TranscriptState} (h : Kept mixedPrims 5 state) (id : ℤ) {body : String}
    (hid : state.lastMessageId < id) (hpos : 0 < id) (hbody : isUserVisibleBody body = true) :
    ∃ (grown saved : TranscriptState) (payload : Json), Grows mixedPrims 5 state grown ∧
      createTranscriptCheckpoint mixedPrims 5 1 0 (some someSeed) grown =
        .ok (some (payload, saved)) ∧
      grown.messages = dictSet state.messages (toString id, .str (liveDigest id body)) ∧
      seenDigest grown.messages id = some (liveDigest id body) := by
  have hrec : recordTranscriptMessage mixedPrims 5 id 2 body "12:00" 0 false state = .ok (some _) :=
    recordTranscriptMessage_visible hpos.ne' hbody
  have hgrows := grows_recorded h hrec hid
  have hdigest : liveDigest id body ≠ "" := by
    intro hempty
    have hlen := congrArg String.length hempty
    rw [liveDigest, recordedDigest, sha256Hex, length_hexOf, sha256_mixedPrims] at hlen
    cases hlen
  have hseen : seenDigest (dictSet state.messages (toString id, .str (liveDigest id body))) id =
      some (liveDigest id body) := by
    simp only [seenDigest, lookup_dictSet, if_true]
    exact if_pos ⟨hpos, hdigest⟩
  obtain ⟨payload, saved, hcreate⟩ := exists_made sha256_mixedPrims hgrows.kept hseen 1 0 someSeed
  exact ⟨_, saved, payload, hgrows, hcreate, rfl, hseen⟩

/-- The transcripts of an author after one message and after two, with a checkpoint over each. -/
theorem exists_two_checkpoints : ∃ first second : Made,
    HonestChain mixedPrims 5 1 someSeed {} [first, second] ∧ Matches twoMessages first ∧
      Matches twoMessages second ∧ first.base.lastMessageId < second.base.lastMessageId := by
  have hempty : Kept mixedPrims 5 {} := kept_empty
  obtain ⟨one, saved, payload, hgrows, hcreate, hmessages, hseen⟩ :=
    exists_grown hempty 1 (by decide) (by decide) isUserVisibleBody_one
  have hsaved : Kept mixedPrims 5 saved := hgrows.kept.created hcreate
  obtain ⟨-, hsavedEq⟩ := created_of hgrows.kept hcreate
  -- the only id that was seen is the last one
  have hlast : one.lastMessageId = 1 := by
    have hle := hgrows.kept.le_last hseen
    obtain ⟨digest, hdigest⟩ := Option.isSome_iff_exists.mp
      (hgrows.kept.seen_last (lt_of_lt_of_le (by decide) hle))
    rw [hmessages] at hdigest
    by_contra hne
    have hkey : toString one.lastMessageId ≠ toString (1 : ℤ) := fun heq =>
      hne (toString_int_injective heq)
    have hlookup := lookup_dictSet [] (toString (1 : ℤ), .str (liveDigest 1 "one"))
      (toString one.lastMessageId)
    rw [if_neg hkey, List.lookup_nil] at hlookup
    simp only [seenDigest, hlookup] at hdigest
    cases hdigest
  have hsavedLast : saved.lastMessageId = 1 := by rw [hsavedEq, ← hlast]
  obtain ⟨two, saved', payload', hgrows', hcreate', hmessages', hseen'⟩ :=
    exists_grown hsaved 2 (by rw [hsavedLast]; decide) (by decide) isUserVisibleBody_two
  have hsame : two.messages = twoMessages.messages := by
    rw [messages_twoMessages, hmessages', hsavedEq, hmessages]
  refine ⟨⟨one, payload⟩, ⟨two, payload'⟩, .cons hgrows hcreate (.cons hgrows' hcreate' (.nil _)),
    fun id hid => ?_, fun id _ => by rw [hsame], ?_⟩
  · have hbefore := hgrows'.same id (hid.trans (by rw [hsavedLast, hlast]))
    rw [← hsame, hbefore, hsavedEq]
  · show one.lastMessageId < two.lastMessageId
    rw [hlast]
    exact lt_of_lt_of_le (by decide) (hgrows'.kept.le_last hseen')

/-- The first checkpoint alone can come twice. -/
theorem harmless_iff_first : ∃ first : Made,
    Harmless mixedPrims 5 (((newSession 3).run mixedPrims authorCalls).load 5)
      (authorKey mixedPrims 1 someSeed) [first] [first, first] := by
  obtain ⟨first, second, hchain, hmatch, -, -⟩ := exists_two_checkpoints
  have hone : HonestChain mixedPrims 5 1 someSeed {} [first] := by
    cases hchain with
    | cons grows made later => exact .cons grows made (.nil _)
  refine ⟨first, (harmless_iff mixedPrims_correct sha256_mixedPrims (by decide) hone ?_
    (newSession_fresh 3) authorCalls (peers_twoMessages _) ?_ [first, first] ?_).mpr (.inr rfl)⟩
  · intro a ha b hb _
    rw [List.mem_singleton.mp ha, List.mem_singleton.mp hb]
  · intro made hmade
    rw [List.mem_singleton.mp hmade]
    exact hmatch
  · intro made hmade
    rcases List.mem_cons.mp hmade with rfl | hmade
    · exact List.mem_cons_self
    · exact hmade

/-- **A history with an older checkpoint in it raises an alarm.** -/
theorem redelivered_alarms : ¬ ∀ (P : Prims) (convId myUid : ℤ) (identity : Seed)
    (recorded : List Made), P.Correct → (∀ msg, (P.sha256 msg).length = 32) → 0 < myUid →
    HonestChain P convId myUid identity {} recorded → ∀ member : Engine, member.Fresh →
    ∀ memberCalls : List Call,
      ((member.run P memberCalls).load convId).peerCheckpoints.lookup (authorKey P myUid identity) =
        none →
      (∀ made ∈ recorded, Matches ((member.run P memberCalls).load convId) made) →
      ∀ again : List Made, (∀ made ∈ again, made ∈ recorded) →
        Harmless P convId ((member.run P memberCalls).load convId) (authorKey P myUid identity)
          recorded again := by
  intro h
  obtain ⟨first, second, hchain, hfirst, hsecond, hlt⟩ := exists_two_checkpoints
  have hmatch : ∀ made ∈ [first, second], Matches twoMessages made := by
    intro made hmade
    rcases List.mem_cons.mp hmade with rfl | hmade
    · exact hfirst
    · rw [List.mem_singleton.mp hmade]
      exact hsecond
  have hlast : [first, second].getLast? = some second := rfl
  refine not_harmless_behind mixedPrims_correct sha256_mixedPrims kept_twoMessages (by decide)
    (peers_twoMessages _) hchain.madeBy hmatch hlast List.mem_cons_self hlt [] ?_
  exact h mixedPrims 5 1 someSeed [first, second] mixedPrims_correct sha256_mixedPrims (by decide)
    hchain (newSession 3) (newSession_fresh 3) authorCalls (peers_twoMessages _) hmatch [first]
    fun made hmade => by rw [List.mem_singleton.mp hmade]; exact List.mem_cons_self

end SecChat.Consistency
