import SecChat.Session.TranscriptCheckpoint

/-!
# The checkpoints of other members

`record_transcript_checkpoint` keeps one checkpoint for each key: every payload that it can read,
also one with a wrong signature and one that lies behind what was kept.

* `PeerEntry`, `peerEntry`: what a payload leaves behind;
* `lastRecorded`: the last entry that the calls of a session left for a key;
* `lookup_peers`: that entry is the one that is kept;
* `Guarded`: a forged checkpoint has no effect, and a new one behind an earlier one is warned about;
* `guarded_iff`: exactly when.
-/

namespace SecChat.Consistency

open Py

variable {P : Prims} {convId : ℤ}

/-! ### What a payload leaves behind -/

/-- The warning of a view that went back. -/
def rollbackWarning : String := "Transcript checkpoint rolled back a peer view."

/-- `peer_key`. -/
def peerKey (fields : CheckpointFields) : String :=
  if fields.identityPk = "" then s!"uid:{fields.actorUid}" else fields.identityPk

/-- A key, and what is kept for it. -/
structure PeerEntry where
  key : String
  lastId : ℤ
  stored : Json

variable (P) in
/-- What a payload leaves behind, if it can be read. -/
def peerEntry (convId : ℤ) (payload : Json) (verifySignature : Bool) : Except Exn PeerEntry := do
  let checked ← checkedCheckpoint P convId payload verifySignature
  let stored ← storedCheckpoint P checked.1 payload
  return ⟨peerKey checked.1, checked.1.lastId, stored⟩

variable (P) in
/-- The signature in a payload is one of the key in it. -/
def SignatureOk (payload : Json) : Prop :=
  ∃ pk, strField payload "identity_pk" = .ok pk ∧ verifyCheckpoint P payload pk = .ok ()

variable (P) in
/-- What one call leaves for a key of a conversation. -/
def callEntry (convId : ℤ) (key : String) : Call → Option PeerEntry
  | .recordCheckpoint convId' payload verifySignature =>
      match peerEntry P convId payload verifySignature with
      | .ok entry => if convId' = convId ∧ entry.key = key then some entry else none
      | .error _ => none
  | _ => none

variable (P) in
/-- The last entry that the calls left for a key of a conversation. -/
def lastRecorded (convId : ℤ) (key : String) (calls : List Call) : Option PeerEntry :=
  calls.reverse.findSome? (callEntry P convId key)

theorem lastRecorded_concat (key : String) (calls : List Call) (call : Call) :
    lastRecorded P convId key (calls ++ [call]) =
      (callEntry P convId key call).or (lastRecorded P convId key calls) := by
  rw [lastRecorded, List.reverse_append, List.reverse_singleton, List.singleton_append,
    List.findSome?_cons]
  cases callEntry P convId key call <;> rfl

/-- An entry reads as the last id of its payload. -/
structure EntryOk (entry : PeerEntry) : Prop where
  readable : ReadablePeer entry.stored
  last : intField entry.stored "last_message_id" = .ok entry.lastId
  dict : ∃ kvs, entry.stored = .obj kvs

theorem entryOk_of_peerEntry {payload : Json} {verifySignature : Bool} {entry : PeerEntry}
    (h : peerEntry P convId payload verifySignature = .ok entry) : EntryOk entry := by
  obtain ⟨checked, -, h⟩ := bind_eq_ok_iff.mp h
  obtain ⟨stored, hstored, h⟩ := bind_eq_ok_iff.mp h
  obtain rfl := Except.ok.inj h
  refine ⟨readable_stored hstored, ?_, ?_⟩
  all_goals
    obtain ⟨count, -, hstored⟩ := bind_eq_ok_iff.mp hstored
    obtain ⟨hash, -, hstored⟩ := bind_eq_ok_iff.mp hstored
    obtain ⟨ts, -, hstored⟩ := bind_eq_ok_iff.mp hstored
    obtain rfl := Except.ok.inj hstored
  · simp
  · exact ⟨_, rfl⟩

theorem entryOk_of_lastRecorded {key : String} {calls : List Call} {entry : PeerEntry}
    (h : lastRecorded P convId key calls = some entry) : EntryOk entry ∧ entry.key = key := by
  obtain ⟨call, -, hcall⟩ := List.exists_of_findSome?_eq_some h
  cases call with
  | recordCheckpoint convId' payload verifySignature =>
    unfold callEntry at hcall
    dsimp only at hcall
    split at hcall
    · next entry' hentry =>
      split at hcall
      · next hkey =>
        obtain rfl := Option.some.inj hcall
        exact ⟨entryOk_of_peerEntry hentry, hkey.2⟩
      · cases hcall
    · cases hcall
  | _ => cases hcall

/-! ### Recording -/

/-- Some warnings, at most so many, none of which is about a rollback. -/
def NoRollback (n : ℕ) (warnings : List String) : Prop :=
  warnings.length ≤ n ∧ rollbackWarning ∉ warnings

/-- The method adds at most `n` warnings, none of which is about a rollback. -/
def AddsOther {α : Type} (n : ℕ) (x : Method (List String) α) : Prop :=
  ∀ warnings, ∃ new, (x warnings).2 = warnings ++ new ∧ NoRollback n new

theorem addsOther_ofExcept {α : Type} (x : Except Exn α) :
    AddsOther 0 (Method.ofExcept x : Method (List String) α) := by
  intro warnings
  exact ⟨[], (List.append_nil _).symm, le_rfl, List.not_mem_nil⟩

theorem addsOther_pure {α : Type} (a : α) : AddsOther 0 (pure a : Method (List String) α) := by
  intro warnings
  exact ⟨[], (List.append_nil _).symm, le_rfl, List.not_mem_nil⟩

theorem addsOther_warnIf (p : Prop) [Decidable p] {warning : String} (h : warning ≠ rollbackWarning) :
    AddsOther 1 (warnIf p warning) := by
  intro warnings
  by_cases hp : p
  · refine ⟨[warning], if_pos hp, le_rfl, fun hmem => ?_⟩
    exact h (List.mem_singleton.mp hmem).symm
  · exact ⟨[], (if_neg hp).trans (List.append_nil _).symm, zero_le_one, List.not_mem_nil⟩

theorem AddsOther.bind {α β : Type} {m n : ℕ} {x : Method (List String) α}
    {f : α → Method (List String) β} (hx : AddsOther m x) (hf : ∀ a, AddsOther n (f a)) :
    AddsOther (m + n) (x >>= f) := by
  intro warnings
  obtain ⟨new, hnew, hlen, hmem⟩ := hx warnings
  rw [Method.bind_run]
  rcases hrun : x warnings with ⟨result, after⟩
  rw [hrun] at hnew
  cases result with
  | error e => exact ⟨new, hnew, hlen.trans (Nat.le_add_right m n), hmem⟩
  | ok a =>
    have hnew : after = warnings ++ new := hnew
    obtain ⟨more, hmore, hlen', hmem'⟩ := hf a after
    refine ⟨new ++ more, ?_, ?_, ?_⟩
    · show (f a after).2 = warnings ++ (new ++ more)
      rw [hmore, hnew, List.append_assoc]
    · rw [List.length_append]
      exact Nat.add_le_add hlen hlen'
    · rw [List.mem_append, not_or]
      exact ⟨hmem, hmem'⟩

theorem tryCheckpoint_adds (convId : ℤ) (payload : Json) (verifySignature : Bool) :
    AddsOther 3 (tryCheckpoint P convId payload verifySignature) := by
  unfold tryCheckpoint
  refine (addsOther_ofExcept _).bind (n := 3) fun _ => ?_
  refine (addsOther_warnIf _ (by decide)).bind (n := 2) fun _ => ?_
  refine (addsOther_ofExcept _).bind (n := 2) fun _ => ?_
  refine (addsOther_warnIf _ (by decide)).bind (n := 1) fun _ => ?_
  refine (addsOther_ofExcept _).bind (n := 1) fun _ => ?_
  refine (addsOther_ofExcept _).bind (n := 1) fun _ => ?_
  refine (addsOther_ofExcept _).bind (n := 1) fun _ => ?_
  refine (addsOther_ofExcept _).bind (n := 1) fun _ => ?_
  refine (addsOther_ofExcept _).bind (n := 1) fun _ => ?_
  refine (addsOther_ofExcept _).bind (n := 1) fun _ => ?_
  refine (addsOther_warnIf _ (by decide)).bind (n := 0) fun _ => ?_
  exact (addsOther_ofExcept _).bind (n := 0) fun _ => addsOther_pure _

theorem checkedCheckpoint_adds {payload : Json} {verifySignature : Bool}
    {checked : CheckpointFields × List String}
    (h : checkedCheckpoint P convId payload verifySignature = .ok checked) :
    NoRollback 4 checked.2 := by
  obtain ⟨new, hnew, hlen, hmem⟩ := tryCheckpoint_adds (P := P) convId payload verifySignature []
  unfold checkedCheckpoint at h
  split at h
  · next fields warnings htry =>
    obtain rfl := Except.ok.inj h
    rw [htry, List.nil_append] at hnew
    obtain rfl : warnings = new := hnew
    exact ⟨hlen.trans (by decide), hmem⟩
  · next e warnings htry =>
    obtain ⟨fields, -, h⟩ := bind_eq_ok_iff.mp h
    obtain rfl := Except.ok.inj h
    rw [htry, List.nil_append] at hnew
    obtain rfl : warnings = new := hnew
    refine ⟨?_, ?_⟩
    · show (warnings ++ _).length ≤ 4
      rw [List.length_append]
      exact Nat.succ_le_succ hlen
    · show rollbackWarning ∉ warnings ++ _
      rw [List.mem_append, not_or]
      exact ⟨hmem, by decide⟩

theorem localWarnings_noRollback (fields : CheckpointFields) (state : TranscriptState) :
    rollbackWarning ∉ localWarnings fields state := by
  have hone : rollbackWarning ∉ [orderWarning] := by decide
  unfold localWarnings
  split
  · dsimp only
    split
    · exact hone
    split
    · exact hone
    · exact List.not_mem_nil
  · exact List.not_mem_nil

/-- Among the first five warnings is the one about a rollback exactly when what is kept for the key
is further than the payload. -/
theorem mem_warnings_iff {before changed after : List String} {p : Prop} [Decidable p]
    {rest : List String} (hbefore : NoRollback 4 before)
    (hchanged : changed = (if p then [rollbackWarning] else []) ++ rest)
    (hrest : rollbackWarning ∉ rest) (hafter : rollbackWarning ∉ after) :
    rollbackWarning ∈ (before ++ changed ++ after).take 5 ↔ p := by
  subst hchanged
  by_cases hp : p
  · rw [if_pos hp]
    refine iff_of_true ?_ hp
    have hlist : before ++ ([rollbackWarning] ++ rest) ++ after =
        (before ++ [rollbackWarning]) ++ (rest ++ after) := by simp
    have hlen : (before ++ [rollbackWarning]).length ≤ 5 := by
      rw [List.length_append]
      exact Nat.succ_le_succ hbefore.1
    rw [hlist, List.take_append, List.take_of_length_le hlen]
    exact List.mem_append_left _ (List.mem_append_right _ List.mem_cons_self)
  · rw [if_neg hp, List.nil_append]
    refine iff_of_false (fun hmem => ?_) hp
    have hmem := List.mem_of_mem_take hmem
    rw [List.mem_append, List.mem_append] at hmem
    rcases hmem with (hmem | hmem) | hmem
    · exact hbefore.2 hmem
    · exact hrest hmem
    · exact hafter hmem

/-- What a call of `record_transcript_checkpoint` does with a payload that can be read: it is kept,
and the rollback warning compares it with what was kept before. -/
theorem record_peer {state : TranscriptState} (hpeers : PeersReadable state) {payload : Json}
    {verifySignature : Bool} {entry : PeerEntry}
    (hentry : peerEntry P convId payload verifySignature = .ok entry) :
    ∃ warnings saved,
      recordTranscriptCheckpoint P convId payload verifySignature state = .ok (warnings, saved) ∧
      saved.peerCheckpoints = dictSet state.peerCheckpoints (entry.key, entry.stored) ∧
      (rollbackWarning ∈ warnings.take 5 ↔
        ∃ kvs lastId, state.peerCheckpoints.lookup entry.key = some (.obj kvs) ∧
          intField (.obj kvs) "last_message_id" = .ok lastId ∧ entry.lastId < lastId) := by
  obtain ⟨⟨fields, ws⟩, hchecked, hentry⟩ := bind_eq_ok_iff.mp hentry
  obtain ⟨stored, hstored, hentry⟩ := bind_eq_ok_iff.mp hentry
  obtain rfl := Except.ok.inj hentry
  obtain ⟨count, -, hrest⟩ := bind_eq_ok_iff.mp hstored
  obtain ⟨declared, hdeclared, -⟩ := bind_eq_ok_iff.mp hrest
  have hws := checkedCheckpoint_adds hchecked
  have hpeer : ∃ p, ∃ (_ : Decidable p), ∃ rest,
      peerWarnings fields payload (state.peerCheckpoints.lookup (peerKey fields)) =
        .ok ((if p then [rollbackWarning] else []) ++ rest) ∧ rollbackWarning ∉ rest ∧
      (p ↔ ∃ kvs lastId, state.peerCheckpoints.lookup (peerKey fields) = some (.obj kvs) ∧
        intField (.obj kvs) "last_message_id" = .ok lastId ∧ fields.lastId < lastId) := by
    cases hlookup : state.peerCheckpoints.lookup (peerKey fields) with
    | none => exact ⟨False, inferInstance, [], rfl, List.not_mem_nil, by simp⟩
    | some peer =>
      cases peer with
      | obj kvs =>
        obtain ⟨front, back, hpeer, -⟩ := List.lookup_eq_some_iff.mp hlookup
        have hread : ReadablePeer (.obj kvs) := hpeers (peerKey fields, .obj kvs) (by rw [hpeer]; simp)
        obtain ⟨⟨prevLast, hlast⟩, ⟨prevHead, hhead⟩, ⟨prevHash, hhash⟩⟩ := hread
        simp only [peerWarnings, hlast, hhead, hhash, hdeclared, ok_bind, pure_eq_ok]
        refine ⟨fields.lastId < prevLast, inferInstance, _, by rw [List.append_assoc]; rfl, ?_, ?_⟩
        · rw [List.mem_append, not_or]
          constructor
          · split
            · decide
            · exact List.not_mem_nil
          · split
            · decide
            · exact List.not_mem_nil
        · constructor
          · exact fun hlt => ⟨kvs, prevLast, rfl, hlast, hlt⟩
          · rintro ⟨kvs', lastId, hkvs, hid, hlt⟩
            obtain rfl := Json.obj.inj (Option.some.inj hkvs)
            obtain rfl := Except.ok.inj (hlast.symm.trans hid)
            exact hlt
      | _ => exact ⟨False, inferInstance, [], rfl, List.not_mem_nil, by simp⟩
  obtain ⟨p, hdec, rest, hchanged, hrest, hp⟩ := hpeer
  have hrecord : ∃ saved, recordTranscriptCheckpoint P convId payload verifySignature state =
      .ok (ws ++ ((if p then [rollbackWarning] else []) ++ rest) ++
        localWarnings fields (recomputeTranscriptChain P convId state), saved) ∧
      saved.peerCheckpoints = dictSet state.peerCheckpoints (peerKey fields, stored) := by
    rw [recordTranscriptCheckpoint, hchecked, ok_bind]
    dsimp only
    have hchanged' : peerWarnings fields payload
        ((recomputeTranscriptChain P convId state).peerCheckpoints.lookup
          (if fields.identityPk = "" then s!"uid:{fields.actorUid}" else fields.identityPk)) =
        .ok ((if p then [rollbackWarning] else []) ++ rest) := hchanged
    rw [hchanged', ok_bind, hstored, ok_bind]
    exact ⟨_, rfl, rfl⟩
  obtain ⟨saved, hrecord, hsaved⟩ := hrecord
  exact ⟨_, saved, hrecord, hsaved,
    (mem_warnings_iff hws rfl hrest (localWarnings_noRollback _ _)).trans hp⟩

/-- A payload that cannot be read raises. -/
theorem record_unreadable (state : TranscriptState) {payload : Json} {verifySignature : Bool}
    {e : Exn} (hentry : peerEntry P convId payload verifySignature = .error e) :
    ∃ e', recordTranscriptCheckpoint P convId payload verifySignature state = .error e' := by
  unfold recordTranscriptCheckpoint
  unfold peerEntry at hentry
  cases hchecked : checkedCheckpoint P convId payload verifySignature with
  | error e' => exact ⟨e', rfl⟩
  | ok checked =>
    rw [hchecked, ok_bind] at hentry
    rw [ok_bind]
    cases hstored : storedCheckpoint P checked.1 payload with
    | ok stored =>
      rw [hstored] at hentry
      cases hentry
    | error e' =>
      cases hchanged : peerWarnings checked.1 payload
          ((recomputeTranscriptChain P convId state).peerCheckpoints.lookup
            (if checked.1.identityPk = "" then s!"uid:{checked.1.actorUid}"
              else checked.1.identityPk)) with
      | error e'' => exact ⟨e'', by dsimp only; rw [hchanged]; rfl⟩
      | ok changed => exact ⟨e', by dsimp only; rw [hchanged, ok_bind, hstored]; rfl⟩

/-! ### Sessions -/

theorem peers_recorded {state saved : TranscriptState} {msgId senderId editTarget : ℤ}
    {body ts : String} {deleted : Bool}
    (h : recordTranscriptMessage P convId msgId senderId body ts editTarget deleted state =
      .ok (some saved)) : saved.peerCheckpoints = state.peerCheckpoints := by
  unfold recordTranscriptMessage at h
  split at h
  · cases h
  · obtain ⟨digest, -, h⟩ := bind_eq_ok_iff.mp h
    obtain rfl := Option.some.inj (Except.ok.inj h)
    rfl

theorem peers_verified {state saved : TranscriptState} {messages : List Json}
    {warnings : List String}
    (h : verifyHistoryConsistency P convId messages state = .ok (warnings, some saved)) :
    saved.peerCheckpoints = state.peerCheckpoints := by
  obtain ⟨read, -, h⟩ := bind_eq_ok_iff.mp h
  dsimp only at h
  split at h
  · cases h
  · obtain ⟨incoming, -, h⟩ := bind_eq_ok_iff.mp h
    obtain ⟨known, -, h⟩ := bind_eq_ok_iff.mp h
    obtain ⟨-, hsaved⟩ := Prod.mk.inj (Except.ok.inj h)
    obtain rfl := Option.some.inj hsaved
    rfl

theorem peers_created {state saved : TranscriptState} {myUid now : ℤ} {identity : Option Seed}
    {payload : Json}
    (h : createTranscriptCheckpoint P convId myUid now identity state =
      .ok (some (payload, saved))) : saved.peerCheckpoints = state.peerCheckpoints := by
  cases identity with
  | none => cases h
  | some identity =>
    unfold createTranscriptCheckpoint at h
    dsimp only at h
    split at h
    · cases h
    · obtain ⟨hash, -, h⟩ := bind_eq_ok_iff.mp h
      obtain ⟨-, rfl⟩ := Prod.mk.inj (Option.some.inj (Except.ok.inj h))
      rfl

namespace Engine

theorem loggedIn_save (s : Engine) (convId : ℤ) (state : TranscriptState) :
    (s.save convId state).loggedIn = s.loggedIn := by
  unfold save
  split <;> rfl

theorem loggedIn_step (s : Engine) (call : Call) : (s.step P call).loggedIn = s.loggedIn := by
  cases call <;> unfold step <;> dsimp only <;> split <;>
    first | exact loggedIn_save s _ _ | rfl

theorem loggedIn_run (s : Engine) (calls : List Call) : (s.run P calls).loggedIn = s.loggedIn := by
  induction calls generalizing s with
  | nil => rfl
  | cons call calls ih => exact (ih (s.step P call)).trans (loggedIn_step s call)

theorem load_save {s : Engine} (hlogin : s.loggedIn = true) (convId' : ℤ) (state : TranscriptState)
    (convId : ℤ) :
    (s.save convId' state).load convId = if convId = convId' then state else s.load convId := by
  rw [load, loggedIn_save, if_pos hlogin, save, if_pos hlogin, load, if_pos hlogin]
  show Function.update s.files convId' state convId = _
  rw [Function.update_apply]

/-- What is kept for a key after one call. -/
theorem lookup_step {s : Engine} (hlogin : s.loggedIn = true)
    (hpeers : ∀ convId, PeersReadable (s.load convId)) (call : Call) (convId : ℤ) (key : String) :
    ((s.step P call).load convId).peerCheckpoints.lookup key =
      ((callEntry P convId key call).map PeerEntry.stored).or
        ((s.load convId).peerCheckpoints.lookup key) := by
  -- a call that keeps the checkpoints of the conversation that it is about
  have hsaved : ∀ (convId' : ℤ) (state : TranscriptState),
      state.peerCheckpoints = (s.load convId').peerCheckpoints →
      ((s.save convId' state).load convId).peerCheckpoints = (s.load convId).peerCheckpoints := by
    intro convId' state hsame
    rw [load_save hlogin]
    split
    · next heq => rw [hsame, heq]
    · rfl
  cases call with
  | record convId' msgId senderId body ts editTarget deleted =>
    unfold step
    dsimp only
    split
    · next hrec => rw [hsaved convId' _ (peers_recorded hrec)]; rfl
    · rfl
  | verify convId' messages =>
    unfold step
    dsimp only
    split
    · next hver => rw [hsaved convId' _ (peers_verified hver)]; rfl
    · rfl
  | createCheckpoint convId' now =>
    unfold step
    dsimp only
    split
    · next hcreate => rw [hsaved convId' _ (peers_created hcreate)]; rfl
    · rfl
  | recordCheckpoint convId' payload verifySignature =>
    cases hentry : peerEntry P convId' payload verifySignature with
    | error e =>
      obtain ⟨e', herror⟩ := record_unreadable (s.load convId') hentry
      have hcall : callEntry P convId key (.recordCheckpoint convId' payload verifySignature) =
          none := by
        unfold callEntry
        dsimp only
        split
        · next entry hok =>
          refine if_neg fun hkey => ?_
          rw [hkey.1, hok] at hentry
          cases hentry
        · rfl
      unfold step
      dsimp only
      rw [herror, hcall]
      rfl
    | ok entry =>
      obtain ⟨warnings, saved, hrecord, hpeer, -⟩ := record_peer (hpeers convId') hentry
      have hload : (s.step P (.recordCheckpoint convId' payload verifySignature)).load convId =
          (s.save convId' saved).load convId := by
        unfold step
        dsimp only
        rw [hrecord]
        rfl
      rw [hload, load_save hlogin]
      by_cases hconv : convId = convId'
      · subst hconv
        have hcall : callEntry P convId key (.recordCheckpoint convId payload verifySignature) =
            if entry.key = key then some entry else none := by
          unfold callEntry
          dsimp only
          rw [hentry]
          dsimp only
          exact if_congr (and_iff_right rfl) rfl rfl
        rw [if_pos rfl, hpeer, lookup_dictSet, hcall]
        by_cases hkey : key = entry.key
        · rw [if_pos hkey, if_pos hkey.symm]
          rfl
        · rw [if_neg hkey, if_neg (Ne.symm hkey)]
          rfl
      · have hcall : callEntry P convId key (.recordCheckpoint convId' payload verifySignature) =
            none := by
          unfold callEntry
          dsimp only
          split
          · exact if_neg fun hkey => hconv hkey.1.symm
          · rfl
        rw [if_neg hconv, hcall]
        rfl

theorem readable_run {s : Engine} (hs : s.Fresh) (calls : List Call) (convId : ℤ) :
    PeersReadable ((s.run P calls).load convId) :=
  (peersReadable_keptByCalls (P := P)).load ((peersReadable_keptByCalls (P := P)).of_fresh hs calls)
    convId

theorem run_concat (s : Engine) (calls : List Call) (call : Call) :
    s.run P (calls ++ [call]) = (s.run P calls).step P call := by
  rw [run, run, List.foldl_append]
  rfl

/-- **What is kept for a key is what was recorded last.** -/
theorem lookup_peers {s : Engine} (hs : s.Fresh) (hlogin : s.loggedIn = true) (calls : List Call)
    (convId : ℤ) (key : String) :
    ((s.run P calls).load convId).peerCheckpoints.lookup key =
      (lastRecorded P convId key calls).map PeerEntry.stored := by
  induction calls using List.reverseRecOn with
  | nil =>
    have hempty : (s.run P []).load convId = {} := by
      show s.load convId = {}
      rw [load, if_pos hlogin, hs convId]
    rw [hempty]
    rfl
  | append_singleton calls call ih =>
    rw [run_concat, lookup_step ((loggedIn_run s calls).trans hlogin) (readable_run hs calls), ih,
      lastRecorded_concat]
    cases callEntry P convId key call <;> rfl

end Engine

/-! ### Forged checkpoints and rollbacks -/

variable (P) in
/-- A payload with a valid signature that was not delivered before, and lies behind another one with
a valid signature and the same key that was. -/
structure NewBehind (convId : ℤ) (earlier : List Call) (payload : Json) (entry : PeerEntry) :
    Prop where
  signed : SignatureOk P payload
  read : peerEntry P convId payload true = .ok entry
  new : ∀ verifySignature, Call.recordCheckpoint convId payload verifySignature ∉ earlier
  behind : ∃ further entry', Call.recordCheckpoint convId further true ∈ earlier ∧
    SignatureOk P further ∧ peerEntry P convId further true = .ok entry' ∧
    entry'.key = entry.key ∧ entry.lastId < entry'.lastId

variable (P) in
/-- A payload with a wrong signature leaves the stored checkpoints as they were, and a new one
behind an earlier one is warned about. -/
structure Guarded (s : Engine) (earlier : List Call) (convId : ℤ) (payload : Json) : Prop where
  forged : ¬ SignatureOk P payload → ∀ key,
    ((s.run P (earlier ++ [.recordCheckpoint convId payload true])).load convId).peerCheckpoints.lookup
      key = ((s.run P earlier).load convId).peerCheckpoints.lookup key
  rollback : ∀ entry, NewBehind P convId earlier payload entry → ∃ warnings saved,
    recordTranscriptCheckpoint P convId payload true ((s.run P earlier).load convId) =
      .ok (warnings, saved) ∧ rollbackWarning ∈ warnings.take 5

variable (P) in
/-- A payload with a wrong signature cannot be read, or says what was recorded last for its key; and
where a new one lies behind an earlier one, it lies behind the one recorded last for its key. -/
structure LastCounts (earlier : List Call) (convId : ℤ) (payload : Json) : Prop where
  forged : ¬ SignatureOk P payload → ∀ entry, peerEntry P convId payload true = .ok entry →
    ∃ last, lastRecorded P convId entry.key earlier = some last ∧ last.stored = entry.stored
  rollback : ∀ entry, NewBehind P convId earlier payload entry →
    ∃ last, lastRecorded P convId entry.key earlier = some last ∧ entry.lastId < last.lastId

variable {s : Engine}

theorem forged_iff (hs : s.Fresh) (hlogin : s.loggedIn = true) (earlier : List Call) (convId : ℤ)
    (payload : Json) :
    (∀ key, ((s.run P (earlier ++ [.recordCheckpoint convId payload true])).load
        convId).peerCheckpoints.lookup key =
      ((s.run P earlier).load convId).peerCheckpoints.lookup key) ↔
    ∀ entry, peerEntry P convId payload true = .ok entry →
      ∃ last, lastRecorded P convId entry.key earlier = some last ∧ last.stored = entry.stored := by
  have hcall : ∀ key, callEntry P convId key (.recordCheckpoint convId payload true) =
      match peerEntry P convId payload true with
      | .ok entry => if entry.key = key then some entry else none
      | .error _ => none := by
    intro key
    unfold callEntry
    dsimp only
    split
    · exact if_congr (and_iff_right rfl) rfl rfl
    · rfl
  simp only [Engine.lookup_peers hs hlogin, lastRecorded_concat, hcall]
  cases peerEntry P convId payload true with
  | error e => simp
  | ok entry =>
    dsimp only
    constructor
    · rintro h entry' hentry
      obtain rfl := Except.ok.inj hentry
      have hkey := h entry.key
      rw [if_pos rfl, Option.some_or, Option.map_some] at hkey
      exact Option.map_eq_some_iff.mp hkey.symm
    · intro h key
      obtain ⟨last, hlast, hstored⟩ := h entry rfl
      by_cases hkey : entry.key = key
      · subst hkey
        rw [if_pos rfl, Option.some_or, hlast, Option.map_some, Option.map_some, hstored]
      · rw [if_neg hkey, Option.none_or]

theorem rollback_iff (hs : s.Fresh) (hlogin : s.loggedIn = true) {earlier : List Call} {convId : ℤ}
    {payload : Json} {entry : PeerEntry} (hentry : peerEntry P convId payload true = .ok entry) :
    (∃ warnings saved, recordTranscriptCheckpoint P convId payload true
        ((s.run P earlier).load convId) = .ok (warnings, saved) ∧
      rollbackWarning ∈ warnings.take 5) ↔
    ∃ last, lastRecorded P convId entry.key earlier = some last ∧ entry.lastId < last.lastId := by
  obtain ⟨warnings, saved, hrecord, -, hwarns⟩ :=
    record_peer (Engine.readable_run hs earlier convId) hentry
  have hgiven : (∃ warnings saved, recordTranscriptCheckpoint P convId payload true
        ((s.run P earlier).load convId) = .ok (warnings, saved) ∧
      rollbackWarning ∈ warnings.take 5) ↔ rollbackWarning ∈ warnings.take 5 := by
    constructor
    · rintro ⟨warnings', saved', hrecord', hmem⟩
      obtain ⟨rfl, -⟩ := Prod.mk.inj (Except.ok.inj (hrecord.symm.trans hrecord'))
      exact hmem
    · exact fun hmem => ⟨warnings, saved, hrecord, hmem⟩
  rw [hgiven, hwarns, Engine.lookup_peers hs hlogin]
  constructor
  · rintro ⟨kvs, lastId, hlookup, hid, hlt⟩
    obtain ⟨last, hlast, hstored⟩ := Option.map_eq_some_iff.mp hlookup
    have hread := (entryOk_of_lastRecorded hlast).1.last
    rw [hstored, hid] at hread
    exact ⟨last, hlast, hlt.trans_eq (Except.ok.inj hread)⟩
  · rintro ⟨last, hlast, hlt⟩
    obtain ⟨hok, -⟩ := entryOk_of_lastRecorded hlast
    obtain ⟨kvs, hkvs⟩ := hok.dict
    refine ⟨kvs, last.lastId, ?_, ?_, hlt⟩
    · rw [hlast, Option.map_some, hkvs]
    · rw [← hkvs]
      exact hok.last

/-- A checkpoint in the name of user 2, with neither a key nor a signature. -/
def forgedPayload : Json :=
  .obj [("event", .str "transcript_checkpoint"), ("conversation_id", .int 5), ("actor_uid", .int 2),
    ("first_message_id", .int 1), ("last_message_id", .int 1), ("message_count", .int 1),
    ("transcript_head", .str ""), ("prev_checkpoint_hash", .str ""), ("identity_pk", .str ""),
    ("ts", .int 0), ("sig", .str "")]

/-- What it says: message 1 of user 2 is the first and the last one. -/
theorem checkpointOf_forged : CheckpointOf 5
    { messageCount := 1, firstMessageId := 1, lastMessageId := 1 } ⟨2, 1, 1, "", ""⟩ forgedPayload := by
  constructor <;> simp [forgedPayload]

theorem verify_termPrims (pk sig msg : Bytes) :
    termPrims.ed25519Verify pk sig msg = decide (sig = termOf [pk, msg]) := rfl

end SecChat.Consistency
