import SecChat.Group.AddMembers

/-!
# Forks of a group

Every client keeps its own copy of the group and merges its own commits into it before the server has
seen them.  The server accepts commits one after the other and stores them, with the welcomes, as
handshake rows that the clients replay.

* `processMlsCommit`, `joinMlsGroupFromWelcome`, `processMlsHandshakeItems`: the replay in the
  session;
* `World`, `WorldEvent`, `World.step`: several clients, the server's chain and the messages on the way;
* `NoFork`: a member that has replayed all rows is in the state of the chain;
* `Careful`: commits are made one at a time by a member that is up to date, and are accepted;
* `never_forks`: careful runs do not fork;
* `rejected_commit_forks`: a commit that does not arrive forks its author.
-/

open Py

namespace SecChat

/-- What a handshake row holds; the client ignores group infos and control messages. -/
inductive Payload (C W : Type)
  | commit (c : C)
  | welcome (w : W)
  | other

/-- A row of `mls_group_handshake` as the server sends it. -/
structure HandshakeItem (C W : Type) where
  id : ℕ
  sender : ℤ
  target : ℤ
  payload : Payload C W

/-- The users of a group. -/
def OpenMls.userIds {G C W : Type} (M : OpenMls G C W) (g : G) : List ℤ :=
  (M.members g).filterMap fun member => credentialUserId member.2.credential

namespace GroupClient

variable {G C W : Type} (M : OpenMls G C W)

/-- `mls_handshake_seen.add`. -/
def markSeen (s : GroupClient G C W) (id : ℕ) : GroupClient G C W :=
  { s with handshakeSeen := s.handshakeSeen ++ [id] }

/-- `join_mls_group_from_welcome`. -/
def joinMlsGroupFromWelcome (s : GroupClient G C W) (conv : ℤ) (welcome : W) :
    Option (GroupClient G C W) := do
  let (bridge, g) ← s.bridge.joinFromWelcome M conv welcome
  return { s with
    bridge := bridge
    mlsGroupReady := Function.update s.mlsGroupReady conv true
    groupEpochs := Function.update s.groupEpochs conv (M.epoch g) }

/-- `process_mls_commit`.  The group is active while the client is one of its members. -/
def processMlsCommit (s : GroupClient G C W) (conv : ℤ) (commit : C) :
    Option (GroupClient G C W) :=
  if s.mlsGroupReady conv = false then some s
  else do
    let (bridge, g) ← s.bridge.processCommit M conv commit
    return { s with
      bridge := bridge
      mlsGroupReady := Function.update s.mlsGroupReady conv (decide (s.myUid ∈ M.userIds g))
      groupEpochs := Function.update s.groupEpochs conv (M.epoch g) }

/-- One turn of `process_mls_handshake_items`; an exception leaves the row unseen. -/
def processMlsHandshakeItem (conv : ℤ) (s : GroupClient G C W) (item : HandshakeItem C W) :
    GroupClient G C W :=
  if item.id ∈ s.handshakeSeen then s
  else
    match item.payload with
    | .welcome w =>
        if item.target ≠ 0 ∧ item.target ≠ s.myUid then s.markSeen item.id
        else if s.mlsGroupReady conv = false then
          match s.joinMlsGroupFromWelcome M conv w with
          | some s => s.markSeen item.id
          | none => s
        else s.markSeen item.id
    | .commit c =>
        match s.processMlsCommit M conv c with
        | some s => s.markSeen item.id
        | none => s
    | .other => s.markSeen item.id

/-- `process_mls_handshake_items`; the server sends the rows in the order of their ids. -/
def processMlsHandshakeItems (conv : ℤ) (s : GroupClient G C W)
    (items : List (HandshakeItem C W)) : GroupClient G C W :=
  items.foldl (processMlsHandshakeItem M conv) s

end GroupClient

/-! ### Clients and server -/

/-- An `apply_group_change` with a commit, on its way or accepted. -/
structure Flight (C W : Type) where
  sender : ℤ
  commit : C
  welcomes : List (ℤ × W)

/-- The rows that an accepted request stores, from an id on: the commit, the group info and the
welcomes. -/
def itemsFrom {C W : Type} (n : ℕ) (f : Flight C W) : List (HandshakeItem C W) :=
  [⟨n, f.sender, 0, .commit f.commit⟩, ⟨n + 1, f.sender, 0, .other⟩] ++
    f.welcomes.zipIdx.map fun (welcome, i) => ⟨n + 2 + i, f.sender, welcome.1, .welcome welcome.2⟩

/-- All rows of a conversation, for the accepted requests in their order. -/
def rowsOf {C W : Type} (log : List (Flight C W)) : List (HandshakeItem C W) :=
  log.foldl (fun rows f => rows ++ itemsFrom rows.length f) []

/-- The rows that the server sends to a user. -/
def visibleTo {C W : Type} (uid : ℤ) (item : HandshakeItem C W) : Bool :=
  item.target = 0 ∨ item.target = uid ∨ item.sender = uid

/-- One conversation: the group that the accepted commits lead to, the accepted requests, the clients
and the requests on their way. -/
structure World (G C W : Type) where
  chain : G
  log : List (Flight C W)
  clients : ℤ → GroupClient G C W
  flights : List (Flight C W)

/-- What can happen: a client commits an addition or a removal and sends it, a request arrives and is
accepted or rejected, a request is lost, and a client replays the rows. -/
inductive WorldEvent
  | add (uid : ℤ) (keyPackages : List String) (targets : List ℤ)
  | remove (uid : ℤ) (userIds : List ℤ)
  | arrive (i : ℕ) (accept : Bool)
  | lose (i : ℕ)
  | replay (uid : ℤ)

namespace World

variable {G C W : Type} (M : OpenMls G C W) (conv : ℤ)

/-- A client has replayed everything the server has for it; others are refused. -/
def replayed (w : World G C W) (uid : ℤ) : GroupClient G C W :=
  if uid ∈ M.userIds w.chain then
    (w.clients uid).processMlsHandshakeItems M conv ((rowsOf w.log).filter (visibleTo uid))
  else w.clients uid

/-- One event.  Requests arrive in any order or are lost; a request that arrives is accepted if its
commit can be processed on the chain, unless it is rejected for another reason. -/
def step (w : World G C W) : WorldEvent → World G C W
  | .add uid keyPackages targets =>
      match (w.clients uid).addMlsMembers M conv keyPackages with
      | none => w
      | some (s, _, c, welcome) =>
          { w with
            clients := Function.update w.clients uid s
            flights := w.flights ++
              [⟨uid, c, (targets.filter (0 < ·)).map fun t => (t, welcome)⟩] }
  | .remove uid userIds =>
      match (w.clients uid).removeMlsMembers M conv userIds with
      | none => w
      | some (s, _, c) =>
          { w with
            clients := Function.update w.clients uid s
            flights := w.flights ++ [⟨uid, c, []⟩] }
  | .arrive i accept =>
      match w.flights[i]? with
      | none => w
      | some f =>
          let w := { w with flights := w.flights.eraseIdx i }
          match accept, M.process w.chain f.commit with
          | true, some g => { w with chain := g, log := w.log ++ [f] }
          | _, _ => w
  | .lose i => { w with flights := w.flights.eraseIdx i }
  | .replay uid => { w with clients := Function.update w.clients uid (w.replayed M conv uid) }

/-- A member without a request on its way, once it has replayed all rows, is in the state of the
chain. -/
def NoFork (w : World G C W) : Prop :=
  ∀ uid ∈ M.userIds w.chain, (∀ f ∈ w.flights, f.sender ≠ uid) →
    (w.replayed M conv uid).bridge conv = some w.chain

/-- A member whose copy of the group is the state of the chain. -/
def UpToDate (w : World G C W) (uid : ℤ) : Prop :=
  uid ∈ M.userIds w.chain ∧ (w.clients uid).mlsGroupReady conv = true ∧
    (w.clients uid).bridge conv = some w.chain

/-- The condition on an event. -/
def Careful (w : World G C W) : WorldEvent → Prop
  | .add uid keyPackages targets => w.flights = [] ∧ w.UpToDate M conv uid ∧
      (∀ t ∈ targets, 0 < t) ∧
      -- the packages are those of the targets
      ∀ leaves, (keyPackages.filter (· ≠ "")).mapM M.parseKeyPackage = some leaves → ∀ t,
        t ∈ targets ↔ ∃ leaf ∈ leaves, credentialUserId leaf.credential = some t
  | .remove uid userIds => w.flights = [] ∧ w.UpToDate M conv uid ∧ uid ∉ userIds
  | .arrive _ accept => accept = true
  | .lose _ => w.flights = []
  | .replay _ => True

end World

/-! ### Rows -/

section Rows

variable {G C W : Type}

theorem rowsOf_append (log : List (Flight C W)) (f : Flight C W) :
    rowsOf (log ++ [f]) = rowsOf log ++ itemsFrom (rowsOf log).length f := by
  simp [rowsOf]

theorem itemsFrom_ids (n : ℕ) (f : Flight C W) :
    (itemsFrom n f).map (·.id) = List.range' n (itemsFrom n f).length := by
  have hwelcomes : ∀ (ws : List (ℤ × W)) (k : ℕ),
      ((ws.zipIdx k).map fun x : (ℤ × W) × ℕ => n + 2 + x.2) = List.range' (n + 2 + k) ws.length := by
    intro ws
    induction ws with
    | nil => simp
    | cons x ws ih =>
      intro k
      simp only [List.zipIdx_cons, List.map_cons, List.length_cons, List.range'_succ]
      rw [ih (k + 1)]
      rfl
  have h := hwelcomes f.welcomes 0
  simp only [itemsFrom, List.map_append, List.map_cons, List.map_nil, List.map_map,
    List.length_append, List.length_cons, List.length_nil, List.length_map, List.length_zipIdx]
  rw [show 0 + 1 + 1 + f.welcomes.length = f.welcomes.length + 1 + 1 by omega,
    List.range'_succ, List.range'_succ]
  simp only [List.cons_append, List.nil_append, List.cons.injEq, true_and]
  exact h

/-- The ids of the rows are their positions. -/
theorem rowsOf_ids (log : List (Flight C W)) :
    (rowsOf log).map (·.id) = List.range (rowsOf log).length := by
  induction log using List.reverseRecOn with
  | nil => simp [rowsOf]
  | append_singleton log f ih =>
    rw [rowsOf_append, List.map_append, ih, itemsFrom_ids, List.length_append,
      List.range_eq_range', List.range_eq_range']
    have happend := List.range'_append_1 (s := 0) (m := (rowsOf log).length)
      (n := (itemsFrom (rowsOf log).length f).length)
    rwa [Nat.zero_add] at happend

theorem id_lt_of_mem_rowsOf {log : List (Flight C W)} {item : HandshakeItem C W}
    (h : item ∈ rowsOf log) : item.id < (rowsOf log).length := by
  have hid : item.id ∈ (rowsOf log).map (·.id) := List.mem_map_of_mem h
  rw [rowsOf_ids] at hid
  exact List.mem_range.mp hid

/-- A welcome for a user. -/
def HandshakeItem.IsWelcomeTo (uid : ℤ) (item : HandshakeItem C W) : Prop :=
  item.target = uid ∧ ∃ w, item.payload = .welcome w

/-! ### Rows that change nothing -/

namespace GroupClient

variable {M : OpenMls G C W} {conv : ℤ} {s : GroupClient G C W}

/-- A row that the client can replay without effect. -/
def Harmless (M : OpenMls G C W) (conv : ℤ) (s : GroupClient G C W) (item : HandshakeItem C W) :
    Prop :=
  match item.payload with
  | .commit c => s.mlsGroupReady conv = true → s.bridge.processCommit M conv c = none
  | .welcome _ => item.target = 0 ∨ item.target = s.myUid →
      s.mlsGroupReady conv = true ∨ item.id ∈ s.handshakeSeen
  | .other => True

/-- A client that has seen more rows. -/
def withSeen (s : GroupClient G C W) (ids : List ℕ) : GroupClient G C W :=
  { s with handshakeSeen := s.handshakeSeen ++ ids }

theorem item_of_harmless {item : HandshakeItem C W} (h : s.Harmless M conv item) :
    ∃ ids, processMlsHandshakeItem M conv s item = s.withSeen ids ∧ (∀ id ∈ ids, id = item.id) ∧
      ((∃ w, item.payload = .welcome w) → item.id ∈ s.handshakeSeen ++ ids) := by
  unfold processMlsHandshakeItem
  split
  · next hseen => exact ⟨[], by simp [withSeen], by simp, fun _ => by simpa using hseen⟩
  · next hseen =>
    unfold Harmless at h
    split
    · next w hw =>
      rw [hw] at h
      split
      · exact ⟨[item.id], rfl, by simp, by simp⟩
      · next htarget =>
        have hme : item.target = 0 ∨ item.target = s.myUid := by
          by_contra hne
          exact htarget (not_or.mp hne)
        rcases h hme with hready | hmem
        · rw [if_neg (by simp [hready])]
          exact ⟨[item.id], rfl, by simp, by simp⟩
        · exact absurd hmem hseen
    · next c hc =>
      rw [hc] at h
      unfold processMlsCommit
      by_cases hready : s.mlsGroupReady conv = false
      · rw [if_pos hready]
        exact ⟨[item.id], rfl, by simp, by simp⟩
      · rw [if_neg hready, h (Bool.eq_true_of_not_eq_false hready)]
        exact ⟨[], by simp [withSeen], by simp, by simp [hc]⟩
    · next ho => exact ⟨[item.id], rfl, by simp, by simp⟩

/-- Harmless rows only make the client see more rows, every welcome among them. -/
theorem items_of_harmless {items : List (HandshakeItem C W)}
    (h : ∀ item ∈ items, s.Harmless M conv item) :
    ∃ ids, s.processMlsHandshakeItems M conv items = s.withSeen ids ∧
      (∀ id ∈ ids, ∃ item ∈ items, item.id = id) ∧
      ∀ item ∈ items, (∃ w, item.payload = .welcome w) → item.id ∈ s.handshakeSeen ++ ids := by
  induction items generalizing s with
  | nil => exact ⟨[], by simp [processMlsHandshakeItems, withSeen], by simp, by simp⟩
  | cons item items ih =>
    obtain ⟨ids, hitem, hids, hwelcome⟩ := item_of_harmless (h item List.mem_cons_self)
    have hrest : ∀ item' ∈ items, (s.withSeen ids).Harmless M conv item' := by
      intro item' hmem
      have hold := h item' (List.mem_cons_of_mem _ hmem)
      unfold Harmless at hold ⊢
      split
      · next c hc =>
        rw [hc] at hold
        exact hold
      · next w hw =>
        rw [hw] at hold
        intro hme
        rcases hold hme with hready | hseen
        · exact .inl hready
        · exact .inr (List.mem_append_left _ hseen)
      · trivial
    obtain ⟨ids', hitems, hids', hwelcome'⟩ := ih hrest
    refine ⟨ids ++ ids', ?_, ?_, ?_⟩
    · show processMlsHandshakeItems M conv (processMlsHandshakeItem M conv s item) items = _
      rw [hitem, hitems]
      simp [withSeen]
    · intro id hid
      rcases List.mem_append.mp hid with hid | hid
      · exact ⟨item, List.mem_cons_self, (hids id hid).symm⟩
      · obtain ⟨item', hmem, rfl⟩ := hids' id hid
        exact ⟨item', List.mem_cons_of_mem _ hmem, rfl⟩
    · intro item' hmem hw
      rcases List.mem_cons.mp hmem with rfl | hmem
      · have := hwelcome hw
        rw [← List.append_assoc]
        exact List.mem_append_left _ this
      · have := hwelcome' item' hmem hw
        rwa [← List.append_assoc]

end GroupClient

/-! ### The chain -/

variable {M : OpenMls G C W} {conv : ℤ}

/-- A request that takes the chain from one state to the next: it welcomes exactly new members. -/
structure Block (M : OpenMls G C W) (g : G) (f : Flight C W) (g' : G) : Prop where
  process : M.process g f.commit = some g'
  join : ∀ t w, (t, w) ∈ f.welcomes → M.join w = some g' ∧ t ∈ M.userIds g' ∧ 0 < t
  welcomed : ∀ t ∈ M.userIds g', t ∉ M.userIds g → ∃ w, (t, w) ∈ f.welcomes

/-- The accepted requests lead from the first state of the group to another one. -/
inductive Leads (M : OpenMls G C W) (g₀ : G) : List (Flight C W) → G → Prop
  | nil : Leads M g₀ [] g₀
  | snoc {log : List (Flight C W)} {f : Flight C W} {g g' : G} (before : Leads M g₀ log g)
      (block : Block M g f g') : Leads M g₀ (log ++ [f]) g'

theorem Leads.epoch (hM : M.Lawful) {g₀ g : G} {log : List (Flight C W)} (h : Leads M g₀ log g) :
    M.epoch g = M.epoch g₀ + log.length := by
  induction h with
  | nil => simp
  | snoc _ block ih =>
    rw [hM.process_epoch block.process, ih, List.length_append, List.length_singleton]
    omega

/-- A commit of the log belongs to an earlier epoch. -/
theorem Leads.commit_epoch (hM : M.Lawful) {g₀ g : G} {log : List (Flight C W)}
    (h : Leads M g₀ log g) {item : HandshakeItem C W} {c : C} (hitem : item ∈ rowsOf log)
    (hc : item.payload = .commit c) : ∃ b b', M.process b c = some b' ∧ M.epoch b < M.epoch g := by
  induction h with
  | nil => simp [rowsOf] at hitem
  | @snoc log f g g' _ block ih =>
    have hnext := hM.process_epoch block.process
    rw [rowsOf_append] at hitem
    rcases List.mem_append.mp hitem with hitem | hitem
    · obtain ⟨b, b', hb, hlt⟩ := ih hitem
      exact ⟨b, b', hb, by omega⟩
    · simp only [itemsFrom, List.mem_append, List.mem_cons, List.not_mem_nil, or_false,
        List.mem_map] at hitem
      rcases hitem with (rfl | rfl) | ⟨x, -, rfl⟩
      · obtain rfl := Payload.commit.inj hc
        exact ⟨g, g', block.process, by omega⟩
      · cases hc
      · cases hc

/-- Welcomes of the log are for positive user ids. -/
theorem Leads.welcome_pos {g₀ g : G} {log : List (Flight C W)} (h : Leads M g₀ log g)
    {item : HandshakeItem C W} {w : W} (hitem : item ∈ rowsOf log)
    (hw : item.payload = .welcome w) : 0 < item.target := by
  induction h with
  | nil => simp [rowsOf] at hitem
  | @snoc log f g g' _ block ih =>
    rw [rowsOf_append] at hitem
    rcases List.mem_append.mp hitem with hitem | hitem
    · exact ih hitem
    · simp only [itemsFrom, List.mem_append, List.mem_cons, List.not_mem_nil, or_false,
        List.mem_map] at hitem
      rcases hitem with (rfl | rfl) | ⟨⟨⟨t, w'⟩, k⟩, hx, rfl⟩
      · cases hw
      · cases hw
      · exact (block.join t w' (List.fst_mem_of_mem_zipIdx hx)).2.2

/-! ### Clients that follow the chain -/

/-- The client has replayed the beginning of the log. -/
structure Follows (M : OpenMls G C W) (conv uid : ℤ) (pre : List (Flight C W)) (g : G)
    (s : GroupClient G C W) : Prop where
  me : s.myUid = uid
  seen : ∀ id ∈ s.handshakeSeen, id < (rowsOf pre).length
  out : s.mlsGroupReady conv = false → uid ∉ M.userIds g ∧
    ∀ item ∈ rowsOf pre, item.IsWelcomeTo uid → item.id ∈ s.handshakeSeen
  inside : s.mlsGroupReady conv = true → uid ∈ M.userIds g ∧ s.bridge conv = some g

/-- It has also seen every welcome for it. -/
structure Caught (M : OpenMls G C W) (conv uid : ℤ) (pre : List (Flight C W)) (g : G)
    (s : GroupClient G C W) : Prop extends Follows M conv uid pre g s where
  welcomes : ∀ item ∈ rowsOf pre, item.IsWelcomeTo uid → item.id ∈ s.handshakeSeen

/-- The rows up to where a client is, or has gone ahead, are harmless. -/
theorem harmless_rowsOf (hM : M.Lawful) {g₀ g : G} {pre : List (Flight C W)} {uid : ℤ}
    {s : GroupClient G C W} (hlead : Leads M g₀ pre g) (hme : s.myUid = uid)
    (hready : s.mlsGroupReady conv = true →
      ∃ h, s.bridge conv = some h ∧ M.epoch g ≤ M.epoch h)
    (hout : s.mlsGroupReady conv = false → ∀ item ∈ rowsOf pre, item.IsWelcomeTo uid →
      item.id ∈ s.handshakeSeen) :
    ∀ item ∈ (rowsOf pre).filter (visibleTo uid), s.Harmless M conv item := by
  intro item hitem
  have hmem := (List.mem_filter.mp hitem).1
  unfold GroupClient.Harmless
  split
  · next c hc =>
    intro hr
    obtain ⟨h, hbridge, hle⟩ := hready hr
    obtain ⟨b, b', hb, hlt⟩ := hlead.commit_epoch hM hmem hc
    have hnone : M.process h c = none := by
      cases hp : M.process h c with
      | none => rfl
      | some h' =>
        -- the commit is only good for its own epoch
        have hep := hM.process_once hb hp
        omega
    simp [Bridge.processCommit, hbridge, hnone]
  · next w hw =>
    intro htarget
    have hpos := hlead.welcome_pos hmem hw
    have hto : item.target = uid := by
      rcases htarget with h0 | hme'
      · omega
      · exact hme'.trans hme
    cases hr : s.mlsGroupReady conv with
    | true => exact .inl rfl
    | false => exact .inr (hout hr item hmem ⟨hto, w, hw⟩)
  · trivial

/-- A client replays the rows that it has been through before. -/
theorem Follows.again (hM : M.Lawful) {g₀ g : G} {pre : List (Flight C W)} {uid : ℤ}
    {s : GroupClient G C W} (h : Follows M conv uid pre g s) (hlead : Leads M g₀ pre g) :
    Caught M conv uid pre g
      (s.processMlsHandshakeItems M conv ((rowsOf pre).filter (visibleTo uid))) := by
  have hharm := harmless_rowsOf hM hlead h.me
    (fun hr => ⟨g, (h.inside hr).2, le_rfl⟩) (fun hr => (h.out hr).2)
  obtain ⟨ids, hs, hids, hwelcomes⟩ := GroupClient.items_of_harmless hharm
  rw [hs]
  have hall : ∀ item ∈ rowsOf pre, item.IsWelcomeTo uid → item.id ∈ s.handshakeSeen ++ ids := by
    intro item hitem ⟨hto, hw⟩
    refine hwelcomes item (List.mem_filter.mpr ⟨hitem, ?_⟩) hw
    simp [visibleTo, hto]
  refine ⟨⟨h.me, ?_, ?_, h.inside⟩, hall⟩
  · intro id hid
    rcases List.mem_append.mp hid with hid | hid
    · exact h.seen id hid
    · obtain ⟨item, hitem, rfl⟩ := hids id hid
      exact id_lt_of_mem_rowsOf (List.mem_filter.mp hitem).1
  · intro hr
    exact ⟨(h.out hr).1, hall⟩

/-! ### Replaying one more request -/

namespace GroupClient

variable {s : GroupClient G C W} {g g' : G}

/-- A new welcome that leads to `g'`. -/
theorem item_welcome {item : HandshakeItem C W} {w : W} (hw : item.payload = .welcome w)
    (hjoin : M.join w = some g') (hpos : 0 < item.target) (hnew : item.id ∉ s.handshakeSeen)
    (hready : s.mlsGroupReady conv = true → s.bridge conv = some g') :
    let s' := processMlsHandshakeItem M conv s item
    s'.myUid = s.myUid ∧ s'.handshakeSeen = s.handshakeSeen ++ [item.id] ∧
      (s'.mlsGroupReady conv = true → s'.bridge conv = some g') ∧
      (s'.mlsGroupReady conv = true ↔ s.mlsGroupReady conv = true ∨ item.target = s.myUid) := by
  intro s'
  have hs' : s' = processMlsHandshakeItem M conv s item := rfl
  unfold processMlsHandshakeItem at hs'
  rw [if_neg hnew, hw] at hs'
  dsimp only at hs'
  by_cases hme : item.target = s.myUid
  · rw [if_neg (by simp [hme])] at hs'
    by_cases hr : s.mlsGroupReady conv = false
    · simp only [hr, if_true, joinMlsGroupFromWelcome, Bridge.joinFromWelcome, hjoin,
        Option.bind_eq_bind, Option.bind_some, pure] at hs'
      rw [hs']
      exact ⟨rfl, rfl, fun _ => Function.update_self _ _ _, by simp [markSeen, hme]⟩
    · rw [if_neg hr] at hs'
      rw [hs']
      exact ⟨rfl, rfl, hready, by simp [markSeen, Bool.eq_true_of_not_eq_false hr]⟩
  · rw [if_pos ⟨hpos.ne', hme⟩] at hs'
    rw [hs']
    exact ⟨rfl, rfl, hready, by simp [markSeen, hme]⟩

/-- New welcomes that lead to `g'`: the client is ready afterwards if it was before, or if one of them
is for it. -/
theorem items_welcome {items : List (HandshakeItem C W)}
    (hw : ∀ item ∈ items, ∃ w, item.payload = .welcome w ∧ M.join w = some g' ∧ 0 < item.target)
    (hnodup : (items.map (·.id)).Nodup) (hnew : ∀ item ∈ items, item.id ∉ s.handshakeSeen)
    (hready : s.mlsGroupReady conv = true → s.bridge conv = some g') :
    let s' := s.processMlsHandshakeItems M conv items
    s'.myUid = s.myUid ∧ s'.handshakeSeen = s.handshakeSeen ++ items.map (·.id) ∧
      (s'.mlsGroupReady conv = true → s'.bridge conv = some g') ∧
      (s'.mlsGroupReady conv = true ↔
        s.mlsGroupReady conv = true ∨ ∃ item ∈ items, item.target = s.myUid) := by
  induction items generalizing s with
  | nil =>
    refine ⟨rfl, ?_, hready, ?_⟩
    · simp [processMlsHandshakeItems]
    · simp [processMlsHandshakeItems]
  | cons item items ih =>
    obtain ⟨w, hpay, hjoin, hpos⟩ := hw item List.mem_cons_self
    obtain ⟨hme, hseen, hbridge, hiff⟩ :=
      item_welcome hpay hjoin hpos (hnew item List.mem_cons_self) hready
    rw [List.map_cons, List.nodup_cons] at hnodup
    have hnew' : ∀ item' ∈ items,
        item'.id ∉ (processMlsHandshakeItem M conv s item).handshakeSeen := by
      intro item' hitem' hin
      rw [hseen] at hin
      rcases List.mem_append.mp hin with hin | hin
      · exact hnew item' (List.mem_cons_of_mem _ hitem') hin
      · have heq := List.mem_singleton.mp hin
        exact hnodup.1 (heq ▸ List.mem_map_of_mem hitem')
    obtain ⟨hme', hseen', hbridge', hiff'⟩ :=
      ih (fun item' h' => hw item' (List.mem_cons_of_mem _ h')) hnodup.2 hnew' hbridge
    refine ⟨hme'.trans hme, ?_, hbridge', ?_⟩
    · exact hseen'.trans (by rw [hseen, List.map_cons, List.append_assoc]; rfl)
    · refine hiff'.trans ?_
      rw [hiff, hme]
      simp only [List.mem_cons, exists_eq_or_imp, or_assoc]

/-- A new commit that leads from the client's state to the next one. -/
theorem item_commit {item : HandshakeItem C W} {c : C} (hc : item.payload = .commit c)
    (hprocess : M.process g c = some g') (hnew : item.id ∉ s.handshakeSeen)
    (hready : s.mlsGroupReady conv = true → s.bridge conv = some g) :
    let s' := processMlsHandshakeItem M conv s item
    s'.myUid = s.myUid ∧ s'.handshakeSeen = s.handshakeSeen ++ [item.id] ∧
      (s'.mlsGroupReady conv = true → s'.bridge conv = some g') ∧
      (s'.mlsGroupReady conv = true ↔
        s.mlsGroupReady conv = true ∧ s.myUid ∈ M.userIds g') := by
  intro s'
  have hs' : s' = processMlsHandshakeItem M conv s item := rfl
  unfold processMlsHandshakeItem at hs'
  rw [if_neg hnew, hc] at hs'
  dsimp only at hs'
  unfold processMlsCommit at hs'
  by_cases hr : s.mlsGroupReady conv = false
  · rw [if_pos hr] at hs'
    rw [hs']
    refine ⟨rfl, rfl, fun hr' => ?_, by simp [markSeen, hr]⟩
    simp [markSeen, hr] at hr'
  · have hr := Bool.eq_true_of_not_eq_false hr
    simp only [hr, Bool.true_eq_false, if_false, Bridge.processCommit, hready hr, hprocess,
      Option.bind_eq_bind, Option.bind_some, pure] at hs'
    rw [hs']
    exact ⟨rfl, rfl, fun _ => Function.update_self _ _ _, by simp [markSeen, hr]⟩

end GroupClient

/-- The welcomes among the rows of a request. -/
def welcomeItems (n : ℕ) (f : Flight C W) : List (HandshakeItem C W) :=
  f.welcomes.zipIdx.map fun (welcome, i) => ⟨n + 2 + i, f.sender, welcome.1, .welcome welcome.2⟩

theorem mem_welcomeItems {n : ℕ} {f : Flight C W} {item : HandshakeItem C W}
    (h : item ∈ welcomeItems n f) :
    ∃ w, item.payload = .welcome w ∧ (item.target, w) ∈ f.welcomes ∧ n + 2 ≤ item.id := by
  obtain ⟨⟨⟨t, w⟩, k⟩, hx, rfl⟩ := List.mem_map.mp h
  exact ⟨w, rfl, List.fst_mem_of_mem_zipIdx hx, Nat.le_add_right _ _⟩

theorem exists_welcomeItem {n : ℕ} {f : Flight C W} {t : ℤ} {w : W} (h : (t, w) ∈ f.welcomes) :
    ∃ item ∈ welcomeItems n f, item.target = t := by
  obtain ⟨k, hk, heq⟩ := List.mem_iff_getElem.mp h
  have hmem : ((t, w), k) ∈ f.welcomes.zipIdx :=
    List.mk_mem_zipIdx_iff_getElem?.mpr (by rw [List.getElem?_eq_getElem hk, heq])
  exact ⟨_, List.mem_map_of_mem hmem, rfl⟩

theorem filter_itemsFrom (n : ℕ) (f : Flight C W) (uid : ℤ) :
    (itemsFrom n f).filter (visibleTo uid) =
      ⟨n, f.sender, 0, .commit f.commit⟩ :: ⟨n + 1, f.sender, 0, .other⟩ ::
        (welcomeItems n f).filter (visibleTo uid) := by
  simp [itemsFrom, welcomeItems, visibleTo]

/-- What replaying the rows of one request does to a client that has seen none of them. -/
theorem items_block {g g' : G} {f : Flight C W} {uid : ℤ} {n : ℕ} {s : GroupClient G C W}
    (hblock : Block M g f g') (hme : s.myUid = uid) (hfresh : ∀ id ∈ s.handshakeSeen, id < n)
    (hready : s.mlsGroupReady conv = true → s.bridge conv = some g) :
    let items := (itemsFrom n f).filter (visibleTo uid)
    let s' := s.processMlsHandshakeItems M conv items
    s'.myUid = uid ∧ s'.handshakeSeen = s.handshakeSeen ++ items.map (·.id) ∧
      (s'.mlsGroupReady conv = true → s'.bridge conv = some g') ∧
      (s'.mlsGroupReady conv = true ↔ (s.mlsGroupReady conv = true ∧ uid ∈ M.userIds g') ∨
        ∃ item ∈ welcomeItems n f, item.target = uid) := by
  intro items s'
  -- first the commit
  let first : HandshakeItem C W := ⟨n, f.sender, 0, .commit f.commit⟩
  let second : HandshakeItem C W := ⟨n + 1, f.sender, 0, .other⟩
  let welcomes := (welcomeItems n f).filter (visibleTo uid)
  have hitems : items = first :: second :: welcomes := filter_itemsFrom n f uid
  have hnew : ∀ id, n ≤ id → id ∉ s.handshakeSeen := fun id hid hmem =>
    absurd (hfresh id hmem) (by omega)
  have hcommit := GroupClient.item_commit (show first.payload = .commit f.commit from rfl)
    hblock.process (hnew n le_rfl) hready
  set s₁ := GroupClient.processMlsHandshakeItem M conv s first
  obtain ⟨hme₁, hseen₁, hbridge₁, hiff₁⟩ := hcommit
  -- then the group info, which is only marked
  have hnew₁ : n + 1 ∉ s₁.handshakeSeen := by
    rw [hseen₁, List.mem_append, List.mem_singleton]
    rintro (hmem | heq)
    · exact hnew _ (by omega) hmem
    · exact absurd heq (by simp [first])
  have hs₂ : GroupClient.processMlsHandshakeItem M conv s₁ second = s₁.markSeen (n + 1) := by
    unfold GroupClient.processMlsHandshakeItem
    rw [if_neg hnew₁]
  -- then the welcomes
  have hnodup : (welcomes.map (·.id)).Nodup := by
    have hall : ((itemsFrom n f).map (·.id)).Nodup := by
      rw [itemsFrom_ids]
      exact List.nodup_range'
    have hsub : (items.map (·.id)).Sublist ((itemsFrom n f).map (·.id)) :=
      List.filter_sublist.map _
    have := hall.sublist hsub
    rw [hitems, List.map_cons, List.map_cons, List.nodup_cons, List.nodup_cons] at this
    exact this.2.2
  have hgood : ∀ item ∈ welcomes,
      ∃ w, item.payload = .welcome w ∧ M.join w = some g' ∧ 0 < item.target := by
    intro item hitem
    obtain ⟨w, hw, hmem, -⟩ := mem_welcomeItems (List.mem_filter.mp hitem).1
    obtain ⟨hjoin, -, hpos⟩ := hblock.join _ _ hmem
    exact ⟨w, hw, hjoin, hpos⟩
  have hnew₂ : ∀ item ∈ welcomes, item.id ∉ (s₁.markSeen (n + 1)).handshakeSeen := by
    intro item hitem hmem
    obtain ⟨-, -, -, hid⟩ := mem_welcomeItems (List.mem_filter.mp hitem).1
    simp only [GroupClient.markSeen, hseen₁, List.mem_append, List.mem_singleton] at hmem
    rcases hmem with (hmem | heq) | heq
    · exact hnew _ (by omega) hmem
    · have : item.id = n := heq
      omega
    · omega
  have hs' : s' = (s₁.markSeen (n + 1)).processMlsHandshakeItems M conv welcomes := by
    show s.processMlsHandshakeItems M conv items = _
    rw [hitems, ← hs₂]
    rfl
  obtain ⟨hme₃, hseen₃, hbridge₃, hiff₃⟩ :=
    GroupClient.items_welcome hgood hnodup hnew₂ hbridge₁
  rw [hs']
  refine ⟨hme₃.trans (hme₁.trans hme), ?_, hbridge₃, ?_⟩
  · rw [hseen₃, hitems]
    simp [GroupClient.markSeen, hseen₁, second]
  · have hmark : (s₁.markSeen (n + 1)).mlsGroupReady conv = s₁.mlsGroupReady conv := rfl
    have hmyUid : (s₁.markSeen (n + 1)).myUid = uid := hme₁.trans hme
    rw [hiff₃, hmark, hmyUid, hiff₁, hme]
    refine or_congr Iff.rfl ⟨?_, ?_⟩
    · rintro ⟨item, hitem, hto⟩
      exact ⟨item, (List.mem_filter.mp hitem).1, hto⟩
    · rintro ⟨item, hitem, hto⟩
      exact ⟨item, List.mem_filter.mpr ⟨hitem, by simp [visibleTo, hto]⟩, hto⟩

/-- A client that has caught up replays one more accepted request. -/
theorem Caught.block {g g' : G} {pre : List (Flight C W)} {f : Flight C W} {uid : ℤ}
    {s : GroupClient G C W} (h : Caught M conv uid pre g s) (hblock : Block M g f g') :
    Caught M conv uid (pre ++ [f]) g' (s.processMlsHandshakeItems M conv
      ((itemsFrom (rowsOf pre).length f).filter (visibleTo uid))) := by
  obtain ⟨hme, hseen, hbridge, hiff⟩ := items_block hblock h.me h.seen
    (fun hr => (h.inside hr).2)
  have hrows := rowsOf_append pre f
  have hwelcomes : ∀ item ∈ rowsOf (pre ++ [f]), item.IsWelcomeTo uid →
      item.id ∈ (s.processMlsHandshakeItems M conv
        ((itemsFrom (rowsOf pre).length f).filter (visibleTo uid))).handshakeSeen := by
    intro item hitem hto
    rw [hseen]
    rw [hrows] at hitem
    rcases List.mem_append.mp hitem with hitem | hitem
    · exact List.mem_append_left _ (h.welcomes item hitem hto)
    · refine List.mem_append_right _ (List.mem_map_of_mem (List.mem_filter.mpr ⟨hitem, ?_⟩))
      simp [visibleTo, hto.1]
  refine ⟨⟨hme, ?_, ?_, ?_⟩, hwelcomes⟩
  · intro id hid
    rw [hseen] at hid
    rcases List.mem_append.mp hid with hid | hid
    · have hlt := h.seen id hid
      rw [hrows, List.length_append]
      omega
    · obtain ⟨item, hitem, rfl⟩ := List.mem_map.mp hid
      refine id_lt_of_mem_rowsOf ?_
      rw [hrows]
      exact List.mem_append_right _ (List.mem_filter.mp hitem).1
  · intro hout
    refine ⟨fun hin => ?_, hwelcomes⟩
    -- a member of the new group was a member before, or it is welcomed
    have hready : ¬ ((s.mlsGroupReady conv = true ∧ uid ∈ M.userIds g') ∨
        ∃ item ∈ welcomeItems (rowsOf pre).length f, item.target = uid) := by
      rw [← hiff, hout]
      decide
    by_cases hold : uid ∈ M.userIds g
    · cases hr : s.mlsGroupReady conv with
      | true => exact hready (.inl ⟨hr, hin⟩)
      | false => exact (h.out hr).1 hold
    · obtain ⟨w, hw⟩ := hblock.welcomed uid hin hold
      exact hready (.inr (exists_welcomeItem hw))
  · intro hr
    refine ⟨?_, hbridge hr⟩
    rcases hiff.mp hr with ⟨-, hin⟩ | ⟨item, hitem, rfl⟩
    · exact hin
    · obtain ⟨w, -, hmem, -⟩ := mem_welcomeItems hitem
      exact (hblock.join _ _ hmem).2.1

/-! ### Replaying everything -/

/-- The log determines the state it leads to. -/
theorem Leads.unique {g₀ g h : G} {log : List (Flight C W)} (hg : Leads M g₀ log g)
    (hh : Leads M g₀ log h) : g = h := by
  induction hg generalizing h with
  | nil =>
    generalize hlog : ([] : List (Flight C W)) = log at hh
    cases hh with
    | nil => rfl
    | snoc _ _ => simp at hlog
  | @snoc log f g g' _ block ih =>
    generalize hlog : log ++ [f] = log' at hh
    cases hh with
    | nil => simp at hlog
    | snoc before' block' =>
      obtain ⟨rfl, hf⟩ := List.append_inj' hlog rfl
      obtain rfl := List.singleton_inj.mp hf
      obtain rfl := ih before'
      exact Option.some.inj (block.process.symm.trans block'.process)

theorem rowsOf_length_le {pre log : List (Flight C W)} (h : pre <+: log) :
    (rowsOf pre).length ≤ (rowsOf log).length := by
  obtain ⟨post, rfl⟩ := h
  induction post using List.reverseRecOn with
  | nil => simp
  | append_singleton post f ih =>
    rw [← List.append_assoc, rowsOf_append, List.length_append]
    omega

/-- A client that follows the chain replays all rows. -/
theorem Follows.replay (hM : M.Lawful) {g₀ g h : G} {pre log : List (Flight C W)} {uid : ℤ}
    {s : GroupClient G C W} (hs : Follows M conv uid pre g s) (hpre : Leads M g₀ pre g)
    (hlog : Leads M g₀ log h) (hinit : pre <+: log) :
    Caught M conv uid log h
      (s.processMlsHandshakeItems M conv ((rowsOf log).filter (visibleTo uid))) := by
  induction hlog with
  | nil =>
    obtain rfl := List.prefix_nil.mp hinit
    obtain rfl := hpre.unique .nil
    exact hs.again hM hpre
  | @snoc log f h h' before block ih =>
    rcases List.prefix_concat_iff.mp hinit with rfl | hinit
    · obtain rfl := hpre.unique (before.snoc block)
      exact hs.again hM hpre
    · have hstep := (ih hinit).block block
      rw [rowsOf_append, List.filter_append, GroupClient.processMlsHandshakeItems,
        List.foldl_append]
      exact hstep

/-! ### The invariant -/

/-- A client that has merged its own commit, which is still on the way. -/
structure Ahead (M : OpenMls G C W) (conv uid : ℤ) (log : List (Flight C W)) (g' : G)
    (s : GroupClient G C W) : Prop where
  me : s.myUid = uid
  seen : ∀ id ∈ s.handshakeSeen, id < (rowsOf log).length
  ready : s.mlsGroupReady conv = true
  bridge : s.bridge conv = some g'
  member : uid ∈ M.userIds g'

/-- Replaying the rows does nothing to a client that is ahead. -/
theorem Ahead.again (hM : M.Lawful) {g₀ g g' : G} {log : List (Flight C W)} {uid : ℤ}
    {s : GroupClient G C W} (h : Ahead M conv uid log g' s) (hlead : Leads M g₀ log g)
    (hepoch : M.epoch g ≤ M.epoch g') :
    Ahead M conv uid log g'
      (s.processMlsHandshakeItems M conv ((rowsOf log).filter (visibleTo uid))) := by
  have hharm := harmless_rowsOf hM hlead h.me (fun _ => ⟨g', h.bridge, hepoch⟩)
    (fun hr => absurd (h.ready.symm.trans hr) (by decide))
  obtain ⟨ids, hs, hids, -⟩ := GroupClient.items_of_harmless hharm
  rw [hs]
  refine ⟨h.me, fun id hid => ?_, h.ready, h.bridge, h.member⟩
  rcases List.mem_append.mp hid with hid | hid
  · exact h.seen id hid
  · obtain ⟨item, hitem, rfl⟩ := hids id hid
    exact id_lt_of_mem_rowsOf (List.mem_filter.mp hitem).1

/-- Once its commit is accepted it follows the chain. -/
theorem Ahead.follows {g' : G} {log : List (Flight C W)} {uid : ℤ} {s : GroupClient G C W}
    (h : Ahead M conv uid log g' s) (f : Flight C W) : Follows M conv uid (log ++ [f]) g' s where
  me := h.me
  seen id hid := (h.seen id hid).trans_le (rowsOf_length_le (List.prefix_append _ _))
  out hr := absurd (h.ready.symm.trans hr) (by decide)
  inside _ := ⟨h.member, h.bridge⟩

namespace World

/-- The invariant: at most one request is on the way, its author is ahead by it, and all others
follow the chain. -/
structure Synced (M : OpenMls G C W) (conv : ℤ) (g₀ : G) (w : World G C W) : Prop where
  lead : Leads M g₀ w.log w.chain
  follows : ∀ uid, (∀ f ∈ w.flights, f.sender ≠ uid) →
    ∃ pre g, pre <+: w.log ∧ Leads M g₀ pre g ∧ Follows M conv uid pre g (w.clients uid)
  flights : w.flights = [] ∨ ∃ f g', w.flights = [f] ∧ Block M w.chain f g' ∧
    Ahead M conv f.sender w.log g' (w.clients f.sender)

variable {g₀ : G} {w : World G C W}

/-- The invariant rules out forks. -/
theorem Synced.noFork (hM : M.Lawful) (h : w.Synced M conv g₀) : w.NoFork M conv := by
  intro uid hmember hno
  obtain ⟨pre, g, hinit, hlead, hfollows⟩ := h.follows uid hno
  have hcaught := hfollows.replay hM hlead h.lead hinit
  unfold replayed
  rw [if_pos hmember]
  cases hr : ((w.clients uid).processMlsHandshakeItems M conv
      ((rowsOf w.log).filter (visibleTo uid))).mlsGroupReady conv with
  | true => exact (hcaught.inside hr).2
  | false => exact absurd hmember (hcaught.out hr).1

/-- A client replays the rows. -/
theorem Synced.replay (hM : M.Lawful) (h : w.Synced M conv g₀) (uid : ℤ) :
    (w.step M conv (.replay uid)).Synced M conv g₀ := by
  by_cases hmember : uid ∈ M.userIds w.chain
  · have hs : w.replayed M conv uid =
        (w.clients uid).processMlsHandshakeItems M conv ((rowsOf w.log).filter (visibleTo uid)) :=
      if_pos hmember
    simp only [step, hs]
    refine ⟨h.lead, fun uid' hno => ?_, ?_⟩
    · dsimp only
      obtain ⟨pre, g, hinit, hlead, hfollows⟩ := h.follows uid' hno
      by_cases heq : uid' = uid
      · subst heq
        rw [Function.update_self]
        exact ⟨w.log, w.chain, List.prefix_refl _, h.lead,
          (hfollows.replay hM hlead h.lead hinit).toFollows⟩
      · rw [Function.update_of_ne heq]
        exact ⟨pre, g, hinit, hlead, hfollows⟩
    · rcases h.flights with hnil | ⟨f, g', hf, hblock, hahead⟩
      · exact .inl hnil
      · refine .inr ⟨f, g', hf, hblock, ?_⟩
        dsimp only
        by_cases heq : f.sender = uid
        · rw [← heq, Function.update_self]
          have hnext := hM.process_epoch hblock.process
          exact hahead.again hM h.lead (by omega)
        · rw [Function.update_of_ne heq]
          exact hahead
  · have hs : w.replayed M conv uid = w.clients uid := if_neg hmember
    simp only [step, hs, Function.update_eq_self]
    exact h

/-- The one request on the way arrives and is accepted. -/
theorem Synced.arrive (h : w.Synced M conv g₀) (i : ℕ) :
    (w.step M conv (.arrive i true)).Synced M conv g₀ := by
  simp only [step]
  rcases h.flights with hnil | ⟨f, g', hf, hblock, hahead⟩
  · simpa [hnil] using h
  · cases i with
    | zero =>
      simp only [hf, List.getElem?_cons_zero, hblock.process, List.eraseIdx_cons_zero]
      refine ⟨h.lead.snoc hblock, fun uid _ => ?_, .inl rfl⟩
      by_cases heq : f.sender = uid
      · subst heq
        exact ⟨_, g', List.prefix_refl _, h.lead.snoc hblock, hahead.follows f⟩
      · obtain ⟨pre, g, hinit, hlead, hfollows⟩ := h.follows uid (by simpa [hf] using heq)
        exact ⟨pre, g, hinit.trans (List.prefix_append _ _), hlead, hfollows⟩
    | succ i =>
      simpa [hf] using h

/-- An up-to-date member makes a commit. -/
theorem Synced.send (h : w.Synced M conv g₀) (hnil : w.flights = []) {uid : ℤ} {g' : G}
    {f : Flight C W} {s : GroupClient G C W} (hsender : f.sender = uid)
    (hblock : Block M w.chain f g') (hme : s.myUid = (w.clients uid).myUid)
    (hseen : s.handshakeSeen = (w.clients uid).handshakeSeen)
    (hready : s.mlsGroupReady conv = true) (hbridge : s.bridge conv = some g')
    (hmember : uid ∈ M.userIds g') :
    Synced M conv g₀ { w with
      clients := Function.update w.clients uid s
      flights := w.flights ++ [f] } := by
  refine ⟨h.lead, fun uid' hno => ?_, .inr ⟨f, g', by simp [hnil], hblock, ?_⟩⟩
  · have hne : uid' ≠ uid := by
      rintro rfl
      exact hno f (by simp) hsender
    dsimp only
    rw [Function.update_of_ne hne]
    exact h.follows uid' (by simp [hnil])
  · obtain ⟨pre, g, hinit, -, hfollows⟩ := h.follows uid (by simp [hnil])
    dsimp only
    rw [hsender, Function.update_self]
    refine ⟨hme.trans hfollows.me, fun id hid => ?_, hready, hbridge, hmember⟩
    exact (hfollows.seen id (hseen ▸ hid)).trans_le (rowsOf_length_le hinit)

/-- The users of a group are the credentials of its leaves. -/
theorem mem_userIds {g : G} {uid : ℤ} :
    uid ∈ M.userIds g ↔ ∃ i leaf, (i, leaf) ∈ M.members g ∧
      credentialUserId leaf.credential = some uid := by
  simp only [OpenMls.userIds, List.mem_filterMap, Prod.exists]

/-- Adding members: the users of the packages join the old ones. -/
theorem userIds_addMembers (hM : M.Lawful) {g g' : G} {ps : List Leaf} {c : C} {welcome : W}
    (hcall : M.addMembers g ps = some (g', c, welcome)) (uid : ℤ) :
    uid ∈ M.userIds g' ↔ uid ∈ M.userIds g ∨
      ∃ leaf ∈ ps, credentialUserId leaf.credential = some uid := by
  have hmembers := hM.members_addMembers hcall
  rw [mem_userIds, mem_userIds]
  constructor
  · rintro ⟨i, leaf, hmem, hcred⟩
    rcases (hmembers leaf).mp ⟨i, hmem⟩ with ⟨k, hk⟩ | hin
    · exact .inl ⟨k, leaf, hk, hcred⟩
    · exact .inr ⟨leaf, hin, hcred⟩
  · rintro (⟨i, leaf, hmem, hcred⟩ | ⟨leaf, hin, hcred⟩)
    · obtain ⟨k, hk⟩ := (hmembers leaf).mpr (.inl ⟨i, hmem⟩)
      exact ⟨k, leaf, hk, hcred⟩
    · obtain ⟨k, hk⟩ := (hmembers leaf).mpr (.inr hin)
      exact ⟨k, leaf, hk, hcred⟩

/-- Removing members: exactly the named users leave. -/
theorem userIds_removeMembers (hM : M.Lawful) {g g' : G} {uids : List ℤ} {c : C}
    (hcall : M.removeMembers g (Bridge.leavesOf M g uids) = some (g', c)) (uid : ℤ) :
    uid ∈ M.userIds g' ↔ uid ∈ M.userIds g ∧ uid ∉ uids := by
  have hmembers := hM.members_removeMembers hcall
  rw [mem_userIds, mem_userIds]
  constructor
  · rintro ⟨i, leaf, hmem, hcred⟩
    obtain ⟨hold, hnot⟩ := (hmembers i leaf).mp hmem
    refine ⟨⟨i, leaf, hold, hcred⟩, fun hin => hnot ?_⟩
    exact List.mem_filterMap.mpr ⟨(i, leaf), hold, by simp [hcred, hin]⟩
  · rintro ⟨⟨i, leaf, hmem, hcred⟩, hnot⟩
    refine ⟨i, leaf, (hmembers i leaf).mpr ⟨hmem, fun hin => hnot ?_⟩, hcred⟩
    obtain ⟨⟨k, other⟩, hother, hk⟩ := List.mem_filterMap.mp hin
    dsimp only at hk
    split at hk
    · next uid' hcred' =>
      split at hk
      · next hin' =>
        -- the leaf of an index is unique
        obtain rfl := Option.some.inj hk
        obtain rfl := hM.members_index hmem hother
        obtain rfl := Option.some.inj (hcred.symm.trans hcred')
        exact hin'
      · cases hk
    · cases hk

/-- A careful addition. -/
theorem Synced.add (hM : M.Lawful) (h : w.Synced M conv g₀) {uid : ℤ} {keyPackages : List String}
    {targets : List ℤ} (hcare : w.Careful M conv (.add uid keyPackages targets)) :
    (w.step M conv (.add uid keyPackages targets)).Synced M conv g₀ := by
  obtain ⟨hnil, ⟨hmember, -, hbridge⟩, hpos, htargets⟩ := hcare
  simp only [step]
  split
  · exact h
  · next s g' c welcome hadd =>
    obtain ⟨g, ps, hg, hparse, hcall, rfl⟩ := GroupClient.addMlsMembers_spec hadd
    obtain rfl := Option.some.inj (hg.symm.trans hbridge)
    have husers := userIds_addMembers hM hcall
    have hwelcomes : ∀ t v, (t, v) ∈ ((targets.filter (0 < ·)).map fun t => (t, welcome)) ↔
        v = welcome ∧ ∃ leaf ∈ ps, credentialUserId leaf.credential = some t := by
      intro t v
      rw [← htargets ps hparse t]
      simp only [List.mem_map, List.mem_filter, decide_eq_true_eq, Prod.mk.injEq]
      constructor
      · rintro ⟨t', ⟨ht', -⟩, rfl, rfl⟩
        exact ⟨rfl, ht'⟩
      · rintro ⟨rfl, ht⟩
        exact ⟨t, ⟨ht, hpos t ht⟩, rfl, rfl⟩
    refine h.send hnil rfl ⟨hM.process_addMembers hcall, ?_, ?_⟩ rfl rfl
      (Function.update_self _ _ _) (Function.update_self _ _ _) ((husers uid).mpr (.inl hmember))
    · intro t v htv
      obtain ⟨rfl, hleaf⟩ := (hwelcomes t v).mp htv
      exact ⟨hM.join_addMembers hcall, (husers t).mpr (.inr hleaf),
        hpos t ((htargets ps hparse t).mpr hleaf)⟩
    · intro t hin hold
      rcases (husers t).mp hin with hin | hleaf
      · exact absurd hin hold
      · exact ⟨welcome, (hwelcomes t welcome).mpr ⟨rfl, hleaf⟩⟩

/-- A careful removal. -/
theorem Synced.remove (hM : M.Lawful) (h : w.Synced M conv g₀) {uid : ℤ} {userIds : List ℤ}
    (hcare : w.Careful M conv (.remove uid userIds)) :
    (w.step M conv (.remove uid userIds)).Synced M conv g₀ := by
  obtain ⟨hnil, ⟨hmember, hready, hbridge⟩, hself⟩ := hcare
  simp only [step]
  split
  · exact h
  · next s g' c hremove =>
    obtain ⟨g, hg, hcall, rfl⟩ := GroupClient.removeMlsMembers_spec hremove
    obtain rfl := Option.some.inj (hg.symm.trans hbridge)
    have husers := userIds_removeMembers hM hcall
    refine h.send hnil rfl ⟨hM.process_removeMembers hcall, by simp, ?_⟩ rfl rfl hready
      (Function.update_self _ _ _) ((husers uid).mpr ⟨hmember, ?_⟩)
    · intro t hin hold
      exact absurd ((husers t).mp hin).1 hold
    · exact fun hin => hself (List.mem_filter.mp hin).1

/-- **One event.**  Careful events keep the invariant. -/
theorem Synced.step (hM : M.Lawful) (h : w.Synced M conv g₀) {e : WorldEvent}
    (hcare : w.Careful M conv e) : (w.step M conv e).Synced M conv g₀ := by
  cases e with
  | add uid keyPackages targets => exact h.add hM hcare
  | remove uid userIds => exact h.remove hM hcare
  | arrive i accept =>
    obtain rfl : accept = true := hcare
    exact h.arrive i
  | lose i =>
    have hnil : w.flights = [] := hcare
    have hsame : w.step M conv (.lose i) = w := by
      simp only [World.step, hnil, List.eraseIdx_nil]
      rw [← hnil]
    rw [hsame]
    exact h
  | replay uid => exact h.replay hM uid

/-- A group that all its members have joined, before any request. -/
structure Start (M : OpenMls G C W) (conv : ℤ) (w : World G C W) : Prop where
  log : w.log = []
  flights : w.flights = []
  me : ∀ uid, (w.clients uid).myUid = uid
  seen : ∀ uid, (w.clients uid).handshakeSeen = []
  ready : ∀ uid, (w.clients uid).mlsGroupReady conv = true ↔ uid ∈ M.userIds w.chain
  bridge : ∀ uid ∈ M.userIds w.chain, (w.clients uid).bridge conv = some w.chain

theorem Start.synced (h : w.Start M conv) : w.Synced M conv w.chain := by
  have hlead : Leads M w.chain w.log w.chain := h.log ▸ .nil
  refine ⟨hlead, fun uid _ => ⟨w.log, w.chain, List.prefix_refl _, hlead, ?_⟩, .inl h.flights⟩
  refine ⟨h.me uid, by simp [h.seen uid], fun hout => ⟨fun hin => ?_, ?_⟩, fun hr => ?_⟩
  · exact absurd (((h.ready uid).mpr hin).symm.trans hout) (by decide)
  · simp [h.log, rowsOf]
  · have hin := (h.ready uid).mp hr
    exact ⟨hin, h.bridge uid hin⟩

/-- **Careful runs do not fork.**  Any number of members add and remove members, in any order.  If
each commit is made by an up-to-date member while no other request is on the way, and each request
arrives and is accepted, then in every state every member that has replayed all rows is in the state of
the chain. -/
theorem never_forks (hM : M.Lawful) {w : World G C W} (hstart : w.Start M conv)
    (events : List WorldEvent)
    (hcare : Runs.Each (World.step M conv) (Careful M conv) w events) :
    Runs.Always (World.step M conv) (NoFork M conv) w events := by
  have hrun := Runs.always_of_each (P := Synced M conv w.chain) (C := Careful M conv)
    (fun w e hw hC => hw.step hM hC) hstart.synced hcare
  exact hrun.imp fun w hw => hw.noFork hM

end World

end Rows

/-! ### Two runs -/

/-- Conversation 5 with user 1 as its only member. -/
def soloWorld : World Transcript (Transcript × Change) Transcript where
  chain := ⟨5, ⟨userCredential 1⟩, []⟩
  log := []
  clients uid :=
    .start uid
      (Function.update (fun _ => none) 5 (if uid = 1 then some ⟨5, ⟨userCredential 1⟩, []⟩ else none))
      (fun _ => decide (uid = 1)) fun _ => 0
  flights := []

/-- User 1 adds user 2. -/
def addsSecond : WorldEvent := .add 1 [b64e (userCredential 2)] [2]

theorem soloWorld_userIds :
    (transcriptMls ⟨userCredential 1⟩).userIds soloWorld.chain = [1] := by
  have hcred := credentialUserId_userCredential (show -2 ^ 63 ≤ (1 : ℤ) ∧ (1 : ℤ) < 2 ^ 63 by decide)
  simp [OpenMls.userIds, transcriptMls, soloWorld, Transcript.members, Transcript.leaves, hcred]

theorem soloWorld_start : soloWorld.Start (transcriptMls ⟨userCredential 1⟩) 5 := by
  refine ⟨rfl, rfl, fun _ => rfl, fun _ => rfl, fun uid => ?_, fun uid hin => ?_⟩
  · rw [soloWorld_userIds]
    simp [soloWorld, GroupClient.start]
  · rw [soloWorld_userIds, List.mem_singleton] at hin
    subst hin
    rfl

/-- **A lost commit forks its author.**  User 1 has merged its commit, the connection drops, and
replaying the rows of the server does not bring its group back to the chain. -/
theorem rejected_commit_forks :
    ¬ Runs.Always (World.step (transcriptMls ⟨userCredential 1⟩) 5)
      (World.NoFork (transcriptMls ⟨userCredential 1⟩) 5) soloWorld [addsSecond, .lose 0] := by
  intro hall
  have hend := Runs.always_iff_prefixes.mp hall _ (List.prefix_refl _)
  set w := [addsSecond, .lose 0].foldl (World.step (transcriptMls ⟨userCredential 1⟩) 5) soloWorld
    with hw
  have hchain : w.chain = soloWorld.chain := by decide +kernel
  have hflights : w.flights = [] := by rfl
  have hbridge : (w.replayed (transcriptMls ⟨userCredential 1⟩) 5 1).bridge 5 =
      some (soloWorld.chain.commit (.add [⟨userCredential 2⟩])) := by decide +kernel
  have hmember : 1 ∈ (transcriptMls ⟨userCredential 1⟩).userIds w.chain := by
    rw [hchain, soloWorld_userIds]
    simp
  have heq := hend 1 hmember (by simp [hflights])
  rw [hbridge, hchain] at heq
  exact absurd heq (by decide +kernel)

/-- The same addition, accepted: both users end in the group of the chain. -/
theorem never_forks_two_members :
    Runs.Always (World.step (transcriptMls ⟨userCredential 1⟩) 5)
      (World.NoFork (transcriptMls ⟨userCredential 1⟩) 5) soloWorld
      [addsSecond, .arrive 0 true, .replay 2] := by
  refine World.never_forks (transcriptMls_lawful _) soloWorld_start _ ?_
  simp only [Runs.each_cons, Runs.each_nil, addsSecond]
  refine ⟨⟨rfl, ⟨?_, rfl, rfl⟩, by simp, ?_⟩, rfl, trivial, trivial⟩
  · rw [soloWorld_userIds]
    simp
  · intro leaves hleaves t
    have hparse : ([b64e (userCredential 2)].filter (· ≠ "")).mapM
        (transcriptMls ⟨userCredential 1⟩).parseKeyPackage = some [⟨userCredential 2⟩] := by
      decide +kernel
    obtain rfl := Option.some.inj (hleaves.symm.trans hparse)
    have hcred := credentialUserId_userCredential
      (show -2 ^ 63 ≤ (2 : ℤ) ∧ (2 : ℤ) < 2 ^ 63 by decide)
    simp [hcred, eq_comm]

end SecChat
