import SecChat.Group.Fork
import SecChat.Library.Runs

/-!
# Handshake replay and the state file

`process_mls_handshake_items` goes through the handshake rows of a conversation in the order of
their ids, and remembers in `mls_handshake_seen` the rows that it need not look at again.  Which
rows these are is decided by the absence of an exception.  `process_mls_commit` returns without one
when the group is not ready yet, so that a commit can be ticked off before there is a group to apply
it to.

* `MlsSession`: group states, state file and seen rows;
* `processMlsHandshakeItem`: one row, and what became of it;
* `Call`: the calls that the app makes, with their run;
* `NoneSkipped`: every commit that is ticked off was applied once, and the local group is made of
  the commits applied;
* `no_commit_skipped_iff`: none is skipped just when commits wait for the group;
* `commit_before_welcome`: a commit that does not wait is lost.
-/

open Py

namespace SecChat.Handshake

/-- The kinds of rows that `store_mls_handshake` writes. -/
inductive HandshakeKind
  | welcome
  | commit
  | groupInfo
  | control
  deriving DecidableEq

/-- `kind` as text. -/
def HandshakeKind.text : HandshakeKind → String
  | .welcome => "welcome"
  | .commit => "commit"
  | .groupInfo => "group_info"
  | .control => "control"

/-- An item of `mls_handshake`. -/
structure HandshakeRow where
  id : ℤ
  targetUserId : ℤ
  kind : HandshakeKind
  epoch : ℤ
  mlsMessageB64 : String

namespace HandshakeRow

/-- `seen_key`. -/
def seenKey (row : HandshakeRow) : String :=
  toString row.id ++ ":" ++ row.kind.text ++ ":" ++ toString row.epoch

/-- Two texts with the same field before a colon. -/
theorem split_colon {a a' b b' : List Char} (h : ':' ∉ a) (h' : ':' ∉ a')
    (he : a ++ ':' :: b = a' ++ ':' :: b') : a = a' ∧ b = b' := by
  induction a generalizing a' with
  | nil =>
    cases a' with
    | nil => exact ⟨rfl, (List.cons.inj he).2⟩
    | cons c a' =>
      obtain ⟨rfl, -⟩ := List.cons.inj he
      exact absurd (List.mem_cons_self ..) h'
  | cons c a ih =>
    cases a' with
    | nil =>
      obtain ⟨rfl, -⟩ := List.cons.inj he
      exact absurd (List.mem_cons_self ..) h
    | cons c' a' =>
      obtain ⟨rfl, htail⟩ := List.cons.inj he
      obtain ⟨rfl, rfl⟩ := ih (fun hm => h (List.mem_cons_of_mem _ hm))
        (fun hm => h' (List.mem_cons_of_mem _ hm)) htail
      exact ⟨rfl, rfl⟩

theorem colon_notMem_text (kind : HandshakeKind) : ':' ∉ kind.text.toList := by
  cases kind <;> decide

theorem text_injective {kind kind' : HandshakeKind} (h : kind.text = kind'.text) :
    kind = kind' := by
  cases kind <;> cases kind' <;> first | rfl | simp [HandshakeKind.text] at h

/-- Rows of one key have one id, one kind and one epoch. -/
theorem seenKey_inj {row row' : HandshakeRow} (h : row.seenKey = row'.seenKey) :
    row.id = row'.id ∧ row.kind = row'.kind ∧ row.epoch = row'.epoch := by
  have hchars : (toString row.id).toList ++
        ':' :: (row.kind.text.toList ++ ':' :: (toString row.epoch).toList) =
      (toString row'.id).toList ++
        ':' :: (row'.kind.text.toList ++ ':' :: (toString row'.epoch).toList) := by
    have hc : (":" : String).toList = [':'] := rfl
    simpa [seenKey, String.toList_append, hc, List.append_assoc] using congrArg String.toList h
  obtain ⟨hid, hrest⟩ :=
    split_colon (colon_notMem_toString_int _) (colon_notMem_toString_int _) hchars
  obtain ⟨hkind, hepoch⟩ := split_colon (colon_notMem_text _) (colon_notMem_text _) hrest
  exact ⟨toString_int_injective (String.toList_injective hid),
    text_injective (String.toList_injective hkind),
    toString_int_injective (String.toList_injective hepoch)⟩

end HandshakeRow

/-- The file at `mls_state_path`. -/
inductive StateFile (G : Type)
  | absent
  | unreadable
  | snapshot (groups : Bridge G)

/-- What a session keeps for the groups.  `seen` is `mls_handshake_seen`; rows of any shape may
come, so they are known by their keys and not by their ids. -/
structure MlsSession (G C W : Type) where
  client : GroupClient G C W
  identityReady : Bool
  stateFile : StateFile G
  seen : List String

/-- What became of a row in its turn. -/
inductive Outcome
  | applied
  | joined
  /-- A welcome for another user. -/
  | foreign
  | alreadyJoined
  /-- A row that holds nothing for the group. -/
  | nothing
  /-- A commit for a group that is not ready. -/
  | notReady
  /-- An exception. -/
  | failed
  deriving DecidableEq

namespace MlsSession

variable {G C W : Type}

/-- `_save_mls_state`, when the bridge exports and the file can be written. -/
def saveMlsState (s : MlsSession G C W) (saved : Bool) : MlsSession G C W :=
  if s.identityReady ∧ saved then { s with stateFile := .snapshot s.client.bridge } else s

/-- The failure path of `_load_mls_state_into_bridge`. -/
def discardState (s : MlsSession G C W) (available : Bool) : MlsSession G C W :=
  if available then
    { s with
      stateFile := .absent
      identityReady := false
      client := { s.client with mlsGroupReady := fun _ => false } }
  else s

/-- `_load_mls_state_into_bridge`, where the bridge imports the snapshot or not, and is available
when that failed or not. -/
def loadMlsStateIntoBridge (s : MlsSession G C W) (imports available : Bool) : MlsSession G C W :=
  match s.stateFile with
  | .absent => s
  | .unreadable => s.discardState available
  | .snapshot groups =>
      if imports then
        { s with
          identityReady := true
          client := { s.client with
            bridge := groups
            mlsGroupReady := fun c => s.client.mlsGroupReady c || ((groups c).isSome && 0 < c) } }
      else s.discardState available

variable (M : OpenMls G C W) (decodeCommit : String → Option C) (decodeWelcome : String → Option W)

/-- `join_mls_group_from_welcome`; the bridge decodes the message. -/
def joinMlsGroupFromWelcome (s : MlsSession G C W) (conv : ℤ) (welcomeB64 : String) (saved : Bool) :
    Option (MlsSession G C W) :=
  if s.identityReady then do
    let welcome ← decodeWelcome welcomeB64
    let client ← s.client.joinMlsGroupFromWelcome M conv welcome
    return ({ s with client := client } : MlsSession G C W).saveMlsState saved
  else none

/-- `process_mls_commit`. -/
def processMlsCommit (s : MlsSession G C W) (conv : ℤ) (commitB64 : String) (saved : Bool) :
    Option (MlsSession G C W) :=
  if s.client.mlsGroupReady conv = false then some s
  else if s.identityReady then do
    let commit ← decodeCommit commitB64
    let client ← s.client.processMlsCommit M conv commit
    return ({ s with client := client } : MlsSession G C W).saveMlsState saved
  else none

/-- `mls_handshake_seen.add(seen_key)`. -/
def markSeen (s : MlsSession G C W) (row : HandshakeRow) : MlsSession G C W :=
  { s with seen := s.seen ++ [row.seenKey] }

/-- One turn of `process_mls_handshake_items`, and what became of the row; `none` is for a row that
is passed over. -/
def processMlsHandshakeItem (s : MlsSession G C W) (conv : ℤ) (row : HandshakeRow) (saved : Bool) :
    MlsSession G C W × Option Outcome :=
  if row.seenKey ∈ s.seen then (s, none)
  else if row.mlsMessageB64 = "" then (s, none)
  else
    match row.kind with
    | .welcome =>
        if row.targetUserId ≠ 0 ∧ row.targetUserId ≠ s.client.myUid then
          (s.markSeen row, some .foreign)
        else if s.client.mlsGroupReady conv = false then
          match s.joinMlsGroupFromWelcome M decodeWelcome conv row.mlsMessageB64 saved with
          | some s' => (s'.markSeen row, some .joined)
          | none => (s, some .failed)
        else (s.markSeen row, some .alreadyJoined)
    | .commit =>
        match s.processMlsCommit M decodeCommit conv row.mlsMessageB64 saved with
        | some s' =>
            (s'.markSeen row, some (if s.client.mlsGroupReady conv then .applied else .notReady))
        | none => (s, some .failed)
    | .groupInfo | .control => (s.markSeen row, some .nothing)

end MlsSession

/-! ### Runs -/

/-- What happens to the local group, in order: turns of rows, and calls that join or load a group.
-/
inductive Entry (G : Type)
  | turn (row : HandshakeRow) (outcome : Outcome) (group : Option G)
  | joined (group : Option G)
  | loaded (group : Option G)

/-- A session and its history. -/
structure Replay (G C W : Type) where
  session : MlsSession G C W
  log : List (Entry G)

/-- What changes a session; the flags say whether files are written and bridges answer. -/
inductive ReplayStep
  | row (row : HandshakeRow) (saved : Bool)
  | load (imports available : Bool)
  | join (welcomeB64 : String) (saved : Bool)

/-- The calls for one conversation. -/
inductive Call
  | handshake (items : List (HandshakeRow × Bool))
  | load (imports available : Bool)
  | join (welcomeB64 : String) (saved : Bool)

section Runs

variable {G C W : Type} (M : OpenMls G C W) (decodeCommit : String → Option C)
  (decodeWelcome : String → Option W) (conv : ℤ)

namespace Replay

/-- One step. -/
def step (r : Replay G C W) : ReplayStep → Replay G C W
  | .row row saved =>
      let x := r.session.processMlsHandshakeItem M decodeCommit decodeWelcome conv row saved
      match x.2 with
      | some outcome => ⟨x.1, r.log ++ [.turn row outcome (x.1.client.bridge conv)]⟩
      | none => ⟨x.1, r.log⟩
  | .load imports available =>
      let s := r.session.loadMlsStateIntoBridge imports available
      ⟨s, r.log ++ [.loaded (s.client.bridge conv)]⟩
  | .join welcomeB64 saved =>
      match r.session.joinMlsGroupFromWelcome M decodeWelcome conv welcomeB64 saved with
      | some s => ⟨s, r.log ++ [.joined (s.client.bridge conv)]⟩
      | none => r

/-- `process_mls_handshake_items`: `sorted` is stable. -/
def processMlsHandshakeItems (r : Replay G C W) (items : List (HandshakeRow × Bool)) :
    Replay G C W :=
  (items.mergeSort fun a b => a.1.id ≤ b.1.id).foldl
    (fun r x => r.step M decodeCommit decodeWelcome conv (.row x.1 x.2)) r

/-- One call. -/
def call (r : Replay G C W) : Call → Replay G C W
  | .handshake items => r.processMlsHandshakeItems M decodeCommit decodeWelcome conv items
  | .load imports available => r.step M decodeCommit decodeWelcome conv (.load imports available)
  | .join welcomeB64 saved => r.step M decodeCommit decodeWelcome conv (.join welcomeB64 saved)

end Replay

/-- The steps of a call, in their order. -/
def Call.steps : Call → List ReplayStep
  | .handshake items => (items.mergeSort fun a b => a.1.id ≤ b.1.id).map fun x => .row x.1 x.2
  | .load imports available => [.load imports available]
  | .join welcomeB64 saved => [.join welcomeB64 saved]

theorem Replay.call_eq_foldl (r : Replay G C W) (c : Call) :
    r.call M decodeCommit decodeWelcome conv c =
      c.steps.foldl (Replay.step M decodeCommit decodeWelcome conv) r := by
  cases c with
  | handshake items =>
    rw [Replay.call, Replay.processMlsHandshakeItems, Call.steps, List.foldl_map]
  | load imports available => rfl
  | join welcomeB64 saved => rfl

/-- The calls of a run one after the other are its steps one after the other. -/
theorem Replay.foldl_call (r : Replay G C W) (calls : List Call) :
    calls.foldl (Replay.call M decodeCommit decodeWelcome conv) r =
      (calls.flatMap Call.steps).foldl (Replay.step M decodeCommit decodeWelcome conv) r := by
  induction calls generalizing r with
  | nil => rfl
  | cons c calls ih =>
    rw [List.foldl_cons, ih, Replay.call_eq_foldl, List.flatMap_cons, List.foldl_append]

/-! ### No commit is skipped -/

/-- The local group as the history makes it.  A load is only a start, where there is no group. -/
def replay (g : Option G) : Entry G → Option G
  | .turn row .applied _ => do M.process (← g) (← decodeCommit row.mlsMessageB64)
  | .turn _ .joined group => group
  | .turn _ _ _ => g
  | .joined group => group
  | .loaded group => g <|> group

/-- Whether an entry is the application of a row. -/
def Entry.applies (row : HandshakeRow) : Entry G → Bool
  | .turn row' .applied _ => row'.seenKey = row.seenKey
  | _ => false

/-- How often a row was applied. -/
def timesApplied (log : List (Entry G)) (row : HandshakeRow) : ℕ := log.countP (Entry.applies row)

/-- A row may be ticked off: it was applied or joined with, is for another user, came after the
group was joined, or holds nothing for the group. -/
def Outcome.Settles (row : HandshakeRow) : Outcome → Prop
  | .applied => row.kind = .commit
  | .joined | .foreign | .alreadyJoined => row.kind = .welcome
  | .nothing => row.kind = .groupInfo ∨ row.kind = .control
  | .notReady | .failed => False

/-- No commit was skipped, where `g` is the local group at the start. -/
structure NoneSkipped (g : Option G) (r : Replay G C W) : Prop where
  /-- A commit that is ticked off was applied exactly once, and one that is not is still to come. -/
  commits : ∀ row : HandshakeRow, row.kind = .commit →
    timesApplied r.log row = if row.seenKey ∈ r.session.seen then 1 else 0
  /-- No row is ticked off without a reason. -/
  settled : ∀ key ∈ r.session.seen, ∃ row outcome group, .turn row outcome group ∈ r.log ∧
    row.seenKey = key ∧ outcome.Settles row
  /-- Nothing that was applied is lost again. -/
  group : r.session.client.bridge conv = r.log.foldl (replay M decodeCommit) g

/-- Commits wait until the group is ready, and the state file is up to date when it is loaded over a
group. -/
def Replay.Waits (r : Replay G C W) : ReplayStep → Prop
  | .row row _ => row.kind = .commit → row.seenKey ∉ r.session.seen → row.mlsMessageB64 ≠ "" →
      r.session.client.mlsGroupReady conv = true
  | .load imports _ => imports = true → r.session.client.bridge conv ≠ none →
      ∀ groups, r.session.stateFile = .snapshot groups → groups conv = r.session.client.bridge conv
  | .join _ _ => True

/-! ### One step -/

section Step

variable {M decodeCommit decodeWelcome conv} {s s' : MlsSession G C W} {row : HandshakeRow}
  {saved : Bool} {g : Option G} {r : Replay G C W}

@[simp] theorem MlsSession.client_saveMlsState : (s.saveMlsState saved).client = s.client := by
  unfold MlsSession.saveMlsState
  split <;> rfl

@[simp] theorem MlsSession.seen_saveMlsState : (s.saveMlsState saved).seen = s.seen := by
  unfold MlsSession.saveMlsState
  split <;> rfl

theorem MlsSession.seen_join {welcomeB64 : String}
    (h : s.joinMlsGroupFromWelcome M decodeWelcome conv welcomeB64 saved = some s') :
    s'.seen = s.seen := by
  unfold MlsSession.joinMlsGroupFromWelcome at h
  split at h
  · obtain ⟨welcome, -, h⟩ := Option.bind_eq_some_iff.mp h
    obtain ⟨client, -, h⟩ := Option.bind_eq_some_iff.mp h
    obtain rfl := Option.some.inj h
    exact MlsSession.seen_saveMlsState
  · cases h

/-- A commit that is applied: the local group processes it. -/
theorem MlsSession.processMlsCommit_ready {commitB64 : String}
    (hready : s.client.mlsGroupReady conv = true)
    (h : s.processMlsCommit M decodeCommit conv commitB64 saved = some s') :
    s'.seen = s.seen ∧ s'.client.bridge conv =
      (do M.process (← s.client.bridge conv) (← decodeCommit commitB64)) := by
  unfold MlsSession.processMlsCommit at h
  rw [if_neg (by rw [hready]; simp)] at h
  split at h
  · obtain ⟨commit, hcommit, h⟩ := Option.bind_eq_some_iff.mp h
    obtain ⟨client, hclient, h⟩ := Option.bind_eq_some_iff.mp h
    obtain rfl := Option.some.inj h
    unfold GroupClient.processMlsCommit at hclient
    rw [if_neg (by rw [hready]; simp)] at hclient
    obtain ⟨⟨bridge, g'⟩, hbridge, hclient⟩ := Option.bind_eq_some_iff.mp hclient
    obtain rfl := Option.some.inj hclient
    obtain ⟨g, hg, hbridge⟩ := Option.bind_eq_some_iff.mp hbridge
    obtain ⟨g'', hprocess, hbridge⟩ := Option.bind_eq_some_iff.mp hbridge
    obtain ⟨rfl, rfl⟩ := Prod.mk.inj (Option.some.inj hbridge)
    refine ⟨MlsSession.seen_saveMlsState, ?_⟩
    simp [hg, hcommit, hprocess]
  · cases h

variable (M decodeCommit conv s row) in
/-- What a turn of `process_mls_handshake_items` can do. -/
inductive Turn : MlsSession G C W × Option Outcome → Prop
  | passed : Turn (s, none)
  | failed : Turn (s, some .failed)
  /-- The row is ticked off and the groups stay as they are. -/
  | ticked {outcome : Outcome} (unseen : row.seenKey ∉ s.seen) (settles : outcome.Settles row)
      (kind : row.kind ≠ .commit) (quiet : outcome ≠ .applied) :
      Turn (s.markSeen row, some outcome)
  | notReady (unseen : row.seenKey ∉ s.seen) (kind : row.kind = .commit)
      (message : row.mlsMessageB64 ≠ "") (ready : s.client.mlsGroupReady conv = false) :
      Turn (s.markSeen row, some .notReady)
  | joined {s' : MlsSession G C W} (unseen : row.seenKey ∉ s.seen) (kind : row.kind = .welcome)
      (seen : s'.seen = s.seen) : Turn (s'.markSeen row, some .joined)
  | applied {s' : MlsSession G C W} (unseen : row.seenKey ∉ s.seen) (kind : row.kind = .commit)
      (seen : s'.seen = s.seen)
      (group : s'.client.bridge conv =
        (do M.process (← s.client.bridge conv) (← decodeCommit row.mlsMessageB64))) :
      Turn (s'.markSeen row, some .applied)

theorem turn_of_item :
    Turn M decodeCommit conv s row
      (s.processMlsHandshakeItem M decodeCommit decodeWelcome conv row saved) := by
  unfold MlsSession.processMlsHandshakeItem
  split
  · exact .passed
  next hunseen =>
    split
    · exact .passed
    next hmessage =>
      split
      next hkind =>
        have hnot : row.kind ≠ .commit := by simp [hkind]
        split
        · exact .ticked hunseen hkind hnot nofun
        · split
          · split
            next s' hjoin => exact .joined hunseen hkind (MlsSession.seen_join hjoin)
            · exact .failed
          · exact .ticked hunseen hkind hnot nofun
      next hkind =>
        cases hready : s.client.mlsGroupReady conv with
        | false =>
          have hsame : s.processMlsCommit M decodeCommit conv row.mlsMessageB64 saved = some s := by
            rw [MlsSession.processMlsCommit, if_pos hready]
          rw [hsame]
          exact .notReady hunseen hkind hmessage hready
        | true =>
          split
          next s' hcommit =>
            obtain ⟨hseen, hgroup⟩ := MlsSession.processMlsCommit_ready hready hcommit
            exact .applied hunseen hkind hseen hgroup
          · exact .failed
      next hkind => exact .ticked hunseen (.inl hkind) (by simp [hkind]) nofun
      next hkind => exact .ticked hunseen (.inr hkind) (by simp [hkind]) nofun

theorem mem_seen_markSeen {key : String} :
    key ∈ (s.markSeen row).seen ↔ key ∈ s.seen ∨ key = row.seenKey := by
  simp [MlsSession.markSeen]

theorem timesApplied_append (log : List (Entry G)) (e : Entry G) (row : HandshakeRow) :
    timesApplied (log ++ [e]) row = timesApplied log row + if e.applies row then 1 else 0 := by
  rw [timesApplied, List.countP_append, List.countP_singleton]
  rfl

/-- A row is ticked off with an entry that settles it and leaves commits alone. -/
theorem NoneSkipped.tick (h : NoneSkipped M decodeCommit conv g r) {outcome : Outcome}
    {group : Option G} (hsettles : outcome.Settles row) (hkind : row.kind ≠ .commit)
    (happlied : outcome ≠ .applied) (hseen : s'.seen = r.session.seen)
    (hgroup : s'.client.bridge conv =
      replay M decodeCommit (r.session.client.bridge conv) (.turn row outcome group)) :
    NoneSkipped M decodeCommit conv g ⟨s'.markSeen row, r.log ++ [.turn row outcome group]⟩ := by
  refine ⟨fun row' hrow' => ?_, fun key hkey => ?_, ?_⟩
  · have hne : row'.seenKey ≠ row.seenKey := by
      intro he
      exact hkind ((HandshakeRow.seenKey_inj he).2.1 ▸ hrow')
    have hquiet : (Entry.turn row outcome group).applies row' = false := by
      cases outcome <;> first | rfl | exact absurd rfl happlied
    rw [timesApplied_append, hquiet, h.commits row' hrow']
    simp only [mem_seen_markSeen, hseen, hne, or_false, Bool.false_eq_true, if_false, add_zero]
  · rcases mem_seen_markSeen.mp hkey with hold | rfl
    · rw [hseen] at hold
      obtain ⟨row', outcome', group', hmem, hk, hs⟩ := h.settled key hold
      exact ⟨row', outcome', group', List.mem_append_left _ hmem, hk, hs⟩
    · exact ⟨row, outcome, group, by simp, rfl, hsettles⟩
  · rw [List.foldl_append, ← h.group]
    exact hgroup

/-- A commit is ticked off because it was applied. -/
theorem NoneSkipped.apply (h : NoneSkipped M decodeCommit conv g r) {group : Option G}
    (hunseen : row.seenKey ∉ r.session.seen) (hkind : row.kind = .commit)
    (hseen : s'.seen = r.session.seen)
    (hgroup : s'.client.bridge conv =
      (do M.process (← r.session.client.bridge conv) (← decodeCommit row.mlsMessageB64))) :
    NoneSkipped M decodeCommit conv g ⟨s'.markSeen row, r.log ++ [.turn row .applied group]⟩ := by
  refine ⟨fun row' hrow' => ?_, fun key hkey => ?_, ?_⟩
  · rw [timesApplied_append, h.commits row' hrow']
    by_cases hsame : row.seenKey = row'.seenKey
    · rw [hsame] at hunseen
      simp [Entry.applies, mem_seen_markSeen, hseen, hsame, hunseen]
    · have hne : row'.seenKey ≠ row.seenKey := fun he => hsame he.symm
      simp [Entry.applies, mem_seen_markSeen, hseen, hsame, hne]
  · rcases mem_seen_markSeen.mp hkey with hold | rfl
    · rw [hseen] at hold
      obtain ⟨row', outcome', group', hmem, hk, hs⟩ := h.settled key hold
      exact ⟨row', outcome', group', List.mem_append_left _ hmem, hk, hs⟩
    · exact ⟨row, .applied, group, by simp, rfl, hkind⟩
  · rw [List.foldl_append, ← h.group]
    exact hgroup

/-- An entry that is no turn changes no row. -/
theorem NoneSkipped.other (h : NoneSkipped M decodeCommit conv g r) {e : Entry G}
    (he : ∀ row, e.applies row = false) (hseen : s'.seen = r.session.seen)
    (hgroup : s'.client.bridge conv = replay M decodeCommit (r.session.client.bridge conv) e) :
    NoneSkipped M decodeCommit conv g ⟨s', r.log ++ [e]⟩ := by
  refine ⟨fun row hrow => ?_, fun key hkey => ?_, ?_⟩
  · rw [timesApplied_append, he row, h.commits row hrow, hseen]
    rfl
  · rw [hseen] at hkey
    obtain ⟨row, outcome, group, hmem, hk, hs⟩ := h.settled key hkey
    exact ⟨row, outcome, group, List.mem_append_left _ hmem, hk, hs⟩
  · rw [List.foldl_append, ← h.group]
    exact hgroup

theorem MlsSession.seen_load (imports available : Bool) :
    (s.loadMlsStateIntoBridge imports available).seen = s.seen := by
  unfold MlsSession.loadMlsStateIntoBridge MlsSession.discardState
  cases s.stateFile <;> cases imports <;> cases available <;> rfl

/-- A load leaves the local group as it is, or starts with that of the file. -/
theorem bridge_load (imports available : Bool)
    (h : imports = true → s.client.bridge conv ≠ none → ∀ groups, s.stateFile = .snapshot groups →
      groups conv = s.client.bridge conv) :
    (s.loadMlsStateIntoBridge imports available).client.bridge conv =
      (s.client.bridge conv <|>
        (s.loadMlsStateIntoBridge imports available).client.bridge conv) := by
  cases hg : s.client.bridge conv with
  | none => rfl
  | some group =>
    have hkeep : (s.discardState available).client.bridge conv = some group := by
      unfold MlsSession.discardState
      split <;> exact hg
    unfold MlsSession.loadMlsStateIntoBridge
    split
    · exact hg
    · exact hkeep
    next groups hfile =>
      split
      next himports => exact (h himports (by simp [hg]) groups hfile).trans hg
      · exact hkeep

/-- **One step that waits skips no commit.** -/
theorem NoneSkipped.step (h : NoneSkipped M decodeCommit conv g r) {e : ReplayStep}
    (hwait : r.Waits conv e) :
    NoneSkipped M decodeCommit conv g (r.step M decodeCommit decodeWelcome conv e) := by
  cases e with
  | row row saved =>
    simp only [Replay.step]
    have hturn : Turn M decodeCommit conv r.session row (r.session.processMlsHandshakeItem M
        decodeCommit decodeWelcome conv row saved) := turn_of_item
    generalize r.session.processMlsHandshakeItem M decodeCommit decodeWelcome conv row saved = x
      at hturn
    cases hturn with
    | passed => exact h
    | failed => exact h.other (fun _ => rfl) rfl rfl
    | ticked unseen settles kind quiet =>
      refine h.tick settles kind quiet rfl ?_
      rename_i outcome
      cases outcome <;> first | rfl | exact absurd rfl quiet
    | notReady unseen kind message ready =>
      rw [hwait kind unseen message] at ready
      cases ready
    | joined unseen kind seen => exact h.tick kind (by simp [kind]) nofun seen rfl
    | applied unseen kind seen group => exact h.apply unseen kind seen group
  | load imports available =>
    exact h.other (fun _ => rfl) (MlsSession.seen_load imports available)
      (bridge_load imports available hwait)
  | join welcomeB64 saved =>
    simp only [Replay.step]
    split
    next s' hjoin => exact h.other (fun _ => rfl) (MlsSession.seen_join hjoin) rfl
    · exact h

end Step

variable {M decodeCommit decodeWelcome conv} in
/-- A step after which no commit is skipped has waited. -/
theorem NoneSkipped.waits {g : Option G} {r : Replay G C W} {e : ReplayStep}
    (h : NoneSkipped M decodeCommit conv g r)
    (h' : NoneSkipped M decodeCommit conv g (r.step M decodeCommit decodeWelcome conv e)) :
    r.Waits conv e := by
  cases e with
  | row row saved =>
    intro hkind hunseen hmessage
    by_contra hready
    have hready := Bool.eq_false_iff.mpr hready
    have hsame : r.session.processMlsCommit M decodeCommit conv row.mlsMessageB64 saved =
        some r.session := by
      rw [MlsSession.processMlsCommit, if_pos hready]
    have hitem : r.session.processMlsHandshakeItem M decodeCommit decodeWelcome conv row saved =
        (r.session.markSeen row, some .notReady) := by
      unfold MlsSession.processMlsHandshakeItem
      rw [if_neg hunseen, if_neg hmessage, hkind, hsame, hready]
      rfl
    -- the row is ticked off now, and was never applied
    have hcount := h'.commits row hkind
    simp only [Replay.step, hitem] at hcount
    rw [timesApplied_append, h.commits row hkind, if_neg hunseen,
      if_pos (mem_seen_markSeen.mpr (.inr rfl))] at hcount
    cases hcount
  | load imports available =>
    rintro rfl hgroup groups hfile
    have hnew := h'.group
    simp only [Replay.step, MlsSession.loadMlsStateIntoBridge, hfile, if_true, List.foldl_append,
      ← h.group] at hnew
    obtain ⟨group, hsome⟩ := Option.ne_none_iff_exists'.mp hgroup
    rw [hsome] at hnew ⊢
    exact hnew
  | join welcomeB64 saved => trivial

variable {M decodeCommit decodeWelcome conv} in
/-- **When no commit is skipped.** In every run of calls for a conversation, that every commit that
is ticked off was applied exactly once, in every state reached, is the same as that no new commit
comes to its turn before the group is ready and no load puts another group in the place of the local
one. -/
theorem no_commit_skipped_iff {s : MlsSession G C W} (hs : s.seen = []) (calls : List Call) :
    Runs.Always (Replay.step M decodeCommit decodeWelcome conv)
        (NoneSkipped M decodeCommit conv (s.client.bridge conv)) ⟨s, []⟩
        (calls.flatMap Call.steps) ↔
      Runs.Each (Replay.step M decodeCommit decodeWelcome conv) (Replay.Waits conv) ⟨s, []⟩
        (calls.flatMap Call.steps) := by
  refine Runs.always_iff_each (fun r e hr => ⟨fun h => hr.waits h, fun h => hr.step h⟩) ?_
  refine ⟨fun row _ => ?_, fun key hkey => ?_, rfl⟩
  · rw [hs]
    rfl
  · rw [hs] at hkey
    cases hkey

end Runs

/-! ### A commit that comes too early -/

/-- A member's group before the commit of another one. -/
def earlyGroup : Transcript := ⟨1, ⟨[]⟩, []⟩

/-- A welcome into the group, and the commit that follows. -/
def earlyWelcome : HandshakeRow := ⟨5, 2, .welcome, 1, "w"⟩

def earlyCommit : HandshakeRow := ⟨6, 0, .commit, 2, "c"⟩

/-- The messages of the two rows. -/
def earlyCommitText (text : String) : Option (Transcript × Change) :=
  if text = "c" then some (earlyGroup, .remove [7]) else none

def earlyWelcomeText (text : String) : Option Transcript :=
  if text = "w" then some earlyGroup else none

/-- A session of user `2` that is not in the group yet. -/
def earlySession : MlsSession Transcript (Transcript × Change) Transcript where
  client := {
    myUid := 2
    bridge := fun _ => none
    mlsGroupReady := fun _ => false
    groupEpochs := fun _ => 0
    handshakeSeen := []
    pendingPrepare := []
    pendingOps := fun _ => none
    pendingClaims := fun _ => []
    sent := []
    received := [] }
  identityReady := true
  stateFile := .absent
  seen := []

/-- Calls of the session. -/
def earlyRun (calls : List Call) : Replay Transcript (Transcript × Change) Transcript :=
  calls.foldl (Replay.call (transcriptMls ⟨[]⟩) earlyCommitText earlyWelcomeText 1)
    ⟨earlySession, []⟩

theorem Call.steps_single (x : HandshakeRow × Bool) :
    (Call.handshake [x]).steps = [.row x.1 x.2] := by
  simp only [Call.steps, List.mergeSort_singleton, List.map_cons, List.map_nil]

/-- With the welcome first, both rows are taken. -/
theorem no_commit_skipped_iff_welcome :
    Runs.Always (Replay.step (transcriptMls ⟨[]⟩) earlyCommitText earlyWelcomeText 1)
      (NoneSkipped (transcriptMls ⟨[]⟩) earlyCommitText 1 none) ⟨earlySession, []⟩
      ([Call.handshake [(earlyWelcome, true)], .handshake [(earlyCommit, true)]].flatMap
        Call.steps) := by
  refine (no_commit_skipped_iff (s := earlySession) rfl _).mpr ?_
  rw [List.flatMap_cons, List.flatMap_cons, Call.steps_single, Call.steps_single]
  refine ⟨fun hkind => ?_, fun _ _ _ => rfl, trivial⟩
  cases hkind

/-- The commit alone comes in one answer, and the welcome with the commit in the next: the commit is
ticked off and never applied. -/
theorem commit_before_welcome :
    ∃ r, r = earlyRun [.handshake [(earlyCommit, true)],
        .handshake [(earlyWelcome, true), (earlyCommit, true)]] ∧
      r.session.client.bridge 1 = some earlyGroup ∧ earlyCommit.seenKey ∈ r.session.seen ∧
      timesApplied r.log earlyCommit = 0 ∧
      ¬ NoneSkipped (transcriptMls ⟨[]⟩) earlyCommitText 1 none r := by
  have hsort : [(earlyWelcome, true), (earlyCommit, true)].mergeSort
      (fun a b => decide (a.1.id ≤ b.1.id)) = [(earlyWelcome, true), (earlyCommit, true)] :=
    List.mergeSort_of_pairwise (by simp [earlyWelcome, earlyCommit])
  refine ⟨_, rfl, ?_⟩
  have hrun : earlyRun [.handshake [(earlyCommit, true)],
      .handshake [(earlyWelcome, true), (earlyCommit, true)]] =
      [ReplayStep.row earlyCommit true, .row earlyWelcome true, .row earlyCommit true].foldl
        (Replay.step (transcriptMls ⟨[]⟩) earlyCommitText earlyWelcomeText 1)
        ⟨earlySession, []⟩ := by
    rw [earlyRun, Replay.foldl_call, List.flatMap_cons, List.flatMap_cons, Call.steps_single,
      Call.steps, hsort]
    rfl
  rw [hrun]
  refine ⟨rfl, by decide, by decide, fun h => ?_⟩
  have hcount := h.commits earlyCommit rfl
  revert hcount
  decide

end SecChat.Handshake
