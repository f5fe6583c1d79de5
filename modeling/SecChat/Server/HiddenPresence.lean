import SecChat.Library.Noninterference
import SecChat.Server.Columns
import SecChat.Server.Friendships

/-!
# Hidden presence

A user may hide from everybody whether they are online and when they were last seen.  `presence.c` then
tells nobody, and profiles, the list of friends and the inbox show `offline`; a search shows the status as
it is stored, and a setting that cannot be read is taken for `everyone`.

* `UserRow`, `State`: the users with their settings, who is connected, and the broadcasts in progress;
* `friendshipListForUser`, `profileFor`, `inboxRow`, `foundRows`: what is read of other users;
* `presenceBroadcast`: a broadcast; `Event`, `step`, `frames`: the handlers, and what they send;
* `view`, `Own`, `Reveals`: a state without what is hidden, what the user does, and where it shows;
* `hidden_iff`: nobody can tell what the user does, exactly as long as nothing shows it.

A broadcast reads the settings first and everything else later, with other handlers in between.
-/

namespace SecChat.HiddenPresence

open CText Columns Runs

/-! ### Users -/

/-- `privacy_online` and `privacy_last_seen`. -/
inductive Setting
  | everyone
  | friends
  | nobody
  deriving DecidableEq

def Setting.ofText (text : Text) : Option Setting :=
  if text = ascii "everyone" then some .everyone
  else if text = ascii "friends" then some .friends
  else if text = ascii "nobody" then some .nobody
  else none

/-- What the user writes into the profile. -/
structure Card where
  displayName : Text
  bio : Text
  /-- `avatar` in base64, with `avatar_mime`. -/
  avatar : Option (Text × Text)
  deriving DecidableEq

/-- A row of `users`. -/
structure UserRow where
  id : ℤ
  username : Text
  card : Card
  status : Status
  lastSeen : Text
  privacyOnline : Setting
  privacyLastSeen : Setting
  deriving DecidableEq

/-- `FriendRecord`. -/
structure FriendRecord where
  id : ℤ
  username : Text
  displayName : Text
  status : Status
  lastSeen : Text
  deriving DecidableEq

/-- `UserRecord`, as far as a search fills it. -/
structure FoundRecord where
  id : ℤ
  username : Text
  displayName : Text
  status : Status
  deriving DecidableEq

/-- `CASE WHEN privacy_online='nobody' THEN 'offline' ELSE status END`. -/
def UserRow.shownStatus (r : UserRow) : Status := if r.privacyOnline = .nobody then .offline else r.status

/-- `CASE WHEN privacy_last_seen='nobody' THEN '' ELSE … END`. -/
def UserRow.shownLastSeen (r : UserRow) : Text := if r.privacyLastSeen = .nobody then [] else r.lastSeen

def UserRow.friend (r : UserRow) : FriendRecord :=
  ⟨r.id, r.username, r.card.displayName, r.shownStatus, r.shownLastSeen⟩

def UserRow.found (r : UserRow) : FoundRecord := ⟨r.id, r.username, r.card.displayName, r.status⟩

/-- `WHERE id=… LIMIT 1`. -/
def findById (users : List UserRow) (uid : ℤ) : Option UserRow := users.find? fun r => r.id = uid

/-- The rows of a user are written. -/
def updateUser (users : List UserRow) (uid : ℤ) (f : UserRow → UserRow) : List UserRow :=
  users.map fun r => if r.id = uid then f r else r

/-- `user_repo_set_status`. Each change of a row sets `last_seen`, and `offline` sets it always. -/
def setStatus (status : Status) (now : Text) (r : UserRow) : UserRow :=
  { r with status, lastSeen := if status = .offline ∨ r.status ≠ status then now else r.lastSeen }

/-- `user_repo_update_profile` and the avatar. -/
def setCard (card : Card) (now : Text) (r : UserRow) : UserRow :=
  { r with card, lastSeen := if r.card ≠ card then now else r.lastSeen }

/-- The settings that `user_repo_update_privacy` writes. -/
def setPrivacy (online lastSeen : Option Setting) (now : Text) (r : UserRow) : UserRow :=
  { r with
    privacyOnline := online.getD r.privacyOnline
    privacyLastSeen := lastSeen.getD r.privacyLastSeen
    lastSeen := if online.getD r.privacyOnline ≠ r.privacyOnline ∨
      lastSeen.getD r.privacyLastSeen ≠ r.privacyLastSeen then now else r.lastSeen }

/-! ### What is read -/

/-- `friendship_list_for_user`; a statement that fails gives no rows. -/
def friendshipListForUser (friendships : List Friends.Row) (users : List UserRow) (uid : ℤ) (answered : Bool) :
    List FriendRecord :=
  if answered then
    ((friendships.filter fun f => f.status = .accepted).flatMap fun f =>
      (users.filter fun r => f.userId = uid ∧ f.friendId = r.id ∨ f.friendId = uid ∧ f.userId = r.id).map
        UserRow.friend).take 200
  else []

/-- `get_privacy`: what cannot be read is `everyone`. -/
def getPrivacy (users : List UserRow) (uid : ℤ) (answered : Bool) : Setting × Setting :=
  match if answered then findById users uid else none with
  | some r => (r.privacyOnline, r.privacyLastSeen)
  | none => (.everyone, .everyone)

/-- `block_either`; a statement that fails finds nothing. -/
def blockEither (blocks : List (ℤ × ℤ)) (a b : ℤ) (answered : Bool) : Bool :=
  answered && (blocks.contains (a, b) || blocks.contains (b, a))

/-- `can_see_status`. -/
def canSeeStatus (friendships : List Friends.Row) (viewer subject : ℤ) (answered : Bool) : Setting → Bool
  | .everyone => true
  | .nobody => false
  | .friends => answered && Friends.friendshipExistsAccepted friendships viewer subject

/-- What `handle_get_profile` prints. -/
structure Profile where
  userId : ℤ
  username : Text
  card : Card
  hasAvatar : Bool
  status : Status
  lastSeen : Text
  isOwn : Bool
  deriving DecidableEq

/-- Which statements of a profile are answered. -/
structure ProfileReads where
  profile : Bool
  privacy : Bool
  avatar : Bool

/-- `handle_get_profile`. -/
def profileFor (users : List UserRow) (viewer target : ℤ) (reads : ProfileReads) : Option Profile :=
  let target := if target ≤ 0 then viewer else target
  let isOwn : Bool := target = viewer
  (if reads.profile then findById users target else none).map fun r =>
    let privacy := getPrivacy users target reads.privacy
    { userId := target
      username := r.username
      card := if reads.avatar then r.card else { r.card with avatar := none }
      hasAvatar := r.card.avatar.isSome
      status := if isOwn = false ∧ privacy.1 = .nobody then .offline else r.status
      lastSeen := if isOwn = false ∧ privacy.2 = .nobody then [] else r.lastSeen
      isOwn }

/-- The columns of a user in a row of the inbox. -/
def inboxRow (users : List UserRow) (peer : ℤ) : Option FriendRecord :=
  (findById users peer).map UserRow.friend

/-- The rows that `handle_search_user` lists; `matchesName` is what `LIKE` says of a user name. -/
def foundRows (matchesName : Text → Text → Bool) (users : List UserRow) (viewer : ℤ) (query : Text) :
    List UserRow :=
  if query.length < 2 then [] else
    (users.filter fun r => matchesName query r.username ∧ r.id ≠ viewer).take 20

/-- `handle_update_privacy`: the settings whose statements succeed, and the answer. The names are as
`jget` gives them, and `readReceipt` tells that the request has `privacy_read_receipt`. -/
def handleUpdatePrivacy (online lastSeen : Text) (readReceipt onlineOk lastSeenOk : Bool) :
    Option Setting × Option Setting × String :=
  if online ≠ [] ∧ Setting.ofText online = none then (none, none, "Invalid privacy_online")
  else if lastSeen ≠ [] ∧ Setting.ofText lastSeen = none then (none, none, "Invalid privacy_last_seen")
  else if readReceipt then (none, none, "Read receipts are not supported")
  else if online = [] ∧ lastSeen = [] then (none, none, "No privacy field provided")
  else
    (if onlineOk then Setting.ofText online else none, if lastSeenOk then Setting.ofText lastSeen else none,
      if (online = [] ∨ onlineOk) ∧ (lastSeen = [] ∨ lastSeenOk) then "Privacy settings updated"
      else "Failed to update privacy settings")

/-! ### The state -/

/-- A broadcast with the settings that it has read. -/
inductive Broadcast
  | online (privacyOnline : Setting)
  /-- `written` tells that the user is written offline. -/
  | offline (privacyOnline privacyLastSeen : Setting) (written : Bool)
  deriving DecidableEq

def Broadcast.privacyOnline : Broadcast → Setting
  | .online privacyOnline | .offline privacyOnline _ _ => privacyOnline

/-- The tables, who is connected, and the broadcasts of each user. -/
structure State (K : Type) where
  users : List UserRow
  friendships : List Friends.Row
  blocks : List (ℤ × ℤ)
  connected : ℤ → Bool
  broadcasts : ℤ → K → Option Broadcast

/-- Which statements of a broadcast are answered. -/
structure BroadcastReads where
  record : Bool
  friends : Bool
  blocks : Bool
  friendship : Bool

inductive Event (K : Type)
  /-- `handle_auth` has accepted the password. -/
  | login (uid : ℤ) (ok : Bool) (now : Text)
  /-- The slot of the user is cleared. -/
  | disconnect (uid : ℤ)
  | broadcastOnline (uid : ℤ) (k : K) (answered : Bool)
  | broadcastOffline (uid : ℤ) (k : K) (answered : Bool)
  | writeOffline (uid : ℤ) (k : K) (ok : Bool) (now : Text)
  /-- The rest of a broadcast. -/
  | finish (uid : ℤ) (k : K) (reads : BroadcastReads)
  | getFriends (uid : ℤ) (answered : Bool)
  | getProfile (uid target : ℤ) (reads : ProfileReads)
  | searchUser (uid : ℤ) (query : Text) (allowed answered : Bool)
  /-- `peers` are the users of the direct conversations that the query returns. -/
  | getInbox (uid : ℤ) (peers : List ℤ)
  | getPrivacy (uid : ℤ) (answered : Bool)
  | updatePrivacy (uid : ℤ) (online lastSeen : Text) (readReceipt onlineOk lastSeenOk : Bool) (now : Text)
  /-- `handle_update_profile` and the handlers of the avatar have written the row. -/
  | updateProfile (uid : ℤ) (card : Card) (now : Text) (answered : Bool)
  /-- A handler of `friends.c`. -/
  | friendships (rows : List Friends.Row)
  /-- A handler of `blocking.c`. -/
  | blocks (pairs : List (ℤ × ℤ))

/-- What a client is sent. -/
inductive Frame
  | presenceOnline (uid : ℤ) (username : Text)
  | presenceOffline (uid : ℤ) (username lastSeen : Text)
  | friendsList (rows : List FriendRecord)
  | profile (p : Profile)
  | userNotFound
  | searchResult (rows : List FoundRecord)
  | inbox (rows : List FriendRecord)
  | privacySettings (privacyOnline privacyLastSeen : Setting)
  | privacyAnswer (msg : String)
  | profileUpdated (uid : ℤ)
  deriving DecidableEq

variable {K : Type}

/-- A broadcast goes on. -/
def State.setBroadcast [DecidableEq K] (s : State K) (uid : ℤ) (k : K) (b : Option Broadcast) : State K :=
  { s with broadcasts := Function.update s.broadcasts uid (Function.update (s.broadcasts uid) k b) }

/-- One step. What cannot happen leaves the state. -/
def step [DecidableEq K] (s : State K) : Event K → State K
  | .login uid ok now =>
      { s with
        users := if ok then updateUser s.users uid (setStatus .online now) else s.users
        connected := Function.update s.connected uid true }
  | .disconnect uid => { s with connected := Function.update s.connected uid false }
  | .broadcastOnline uid k answered =>
      match s.broadcasts uid k with
      | none => s.setBroadcast uid k (some (.online (getPrivacy s.users uid answered).1))
      | some _ => s
  | .broadcastOffline uid k answered =>
      match s.broadcasts uid k with
      | none =>
          let privacy := getPrivacy s.users uid answered
          s.setBroadcast uid k (some (.offline privacy.1 privacy.2 false))
      | some _ => s
  | .writeOffline uid k ok now =>
      match s.broadcasts uid k with
      | some (.offline privacyOnline privacyLastSeen false) =>
          let written :=
            { s with users := if ok then updateUser s.users uid (setStatus .offline now) else s.users }
          written.setBroadcast uid k (some (.offline privacyOnline privacyLastSeen true))
      | _ => s
  | .finish uid k _ =>
      match s.broadcasts uid k with
      | some (.offline _ _ false) => s
      | _ => s.setBroadcast uid k none
  | .updatePrivacy uid online lastSeen readReceipt onlineOk lastSeenOk now =>
      let written := handleUpdatePrivacy online lastSeen readReceipt onlineOk lastSeenOk
      { s with users := updateUser s.users uid (setPrivacy written.1 written.2.1 now) }
  | .updateProfile uid card now _ => { s with users := updateUser s.users uid (setCard card now) }
  | .friendships rows => { s with friendships := rows }
  | .blocks pairs => { s with blocks := pairs }
  | _ => s

/-- `presence_broadcast_online` and `presence_broadcast_offline` from the look at `privacy_online` on. -/
def presenceBroadcast (s : State K) (uid : ℤ) (reads : BroadcastReads) : Broadcast → List (ℤ × Frame)
  | .online privacyOnline =>
      if privacyOnline = .nobody then [] else
        match if reads.record then findById s.users uid else none with
        | none => []
        | some rec =>
            ((friendshipListForUser s.friendships s.users uid reads.friends).filter fun f =>
              ¬ blockEither s.blocks uid f.id reads.blocks).map fun f =>
                (f.id, .presenceOnline uid rec.username)
  | .offline _ _ false => []
  | .offline privacyOnline privacyLastSeen true =>
      if privacyOnline = .nobody then [] else
        match if reads.record then findById s.users uid else none with
        | none => []
        | some rec =>
            let lastSeen := if privacyLastSeen = .nobody then [] else rec.lastSeen
            ((friendshipListForUser s.friendships s.users uid reads.friends).filter fun f =>
              ¬ blockEither s.blocks uid f.id reads.blocks ∧
                canSeeStatus s.friendships f.id uid reads.friendship privacyOnline = true).map fun f =>
                  (f.id, .presenceOffline uid rec.username lastSeen)

variable (matchesName : Text → Text → Bool)

/-- What an event sends, and to whom. `clients_send_to_uid` sends to who is connected. -/
def frames (s : State K) : Event K → List (ℤ × Frame)
  | .finish uid k reads =>
      ((s.broadcasts uid k).toList.flatMap (presenceBroadcast s uid reads)).filter fun f => s.connected f.1
  | .getFriends uid answered =>
      [(uid, .friendsList (friendshipListForUser s.friendships s.users uid answered))]
  | .getProfile uid target reads =>
      match profileFor s.users uid target reads with
      | some p => [(uid, .profile p)]
      | none => [(uid, .userNotFound)]
  | .searchUser uid query allowed answered =>
      [(uid, .searchResult
        (if allowed ∧ answered then (foundRows matchesName s.users uid query).map UserRow.found else []))]
  | .getInbox uid peers => [(uid, .inbox (peers.filterMap (inboxRow s.users)))]
  | .getPrivacy uid answered =>
      let privacy := getPrivacy s.users uid answered
      [(uid, .privacySettings privacy.1 privacy.2)]
  | .updatePrivacy uid online lastSeen readReceipt onlineOk lastSeenOk _ =>
      [(uid, .privacyAnswer (handleUpdatePrivacy online lastSeen readReceipt onlineOk lastSeenOk).2.2)]
  | .updateProfile uid _ _ answered =>
      ((friendshipListForUser s.friendships s.users uid answered).map fun f =>
        (f.id, Frame.profileUpdated uid)).filter fun f => s.connected f.1
  | _ => []

/-- What a user is sent. -/
def received (v : ℤ) (s : State K) (e : Event K) : List Frame :=
  (frames matchesName s e).filterMap fun f => if f.1 = v then some f.2 else none

/-! ### What is hidden -/

/-- A row without what the user hides. -/
def hide (u : ℤ) (r : UserRow) : UserRow :=
  if r.id = u then { r with status := .offline, lastSeen := [] } else r

/-- Both settings of the user are `nobody`. -/
def Secret (u : ℤ) (users : List UserRow) : Prop :=
  ∀ r ∈ users, r.id = u → r.privacyOnline = .nobody ∧ r.privacyLastSeen = .nobody

/-- The user is known and hides status and time, also in the broadcasts in progress. -/
structure Hides (u : ℤ) (s : State K) : Prop where
  known : (findById s.users u).isSome = true
  users : Secret u s.users
  broadcasts : ∀ k, ∀ b ∈ s.broadcasts u k, b.privacyOnline = .nobody

/-- States that differ in what the user hides, and in what is sent to the user. -/
structure Same (u : ℤ) (s t : State K) : Prop where
  users : s.users.map (hide u) = t.users.map (hide u)
  friendships : s.friendships = t.friendships
  blocks : s.blocks = t.blocks
  connected : ∀ w, w ≠ u → s.connected w = t.connected w
  broadcasts : ∀ w, w ≠ u → s.broadcasts w = t.broadcasts w

/-- What the user does: to come, to go, and to look at something. -/
def Own (u : ℤ) : Event K → Prop
  | .login uid _ _ | .disconnect uid | .broadcastOnline uid _ _ | .broadcastOffline uid _ _
  | .writeOffline uid _ _ _ | .finish uid _ _ | .getFriends uid _ | .getProfile uid _ _
  | .searchUser uid _ _ _ | .getInbox uid _ | .getPrivacy uid _ => uid = u
  | _ => False

instance (u : ℤ) : DecidablePred (Own u : Event K → Prop) := fun e => by
  cases e <;> unfold Own <;> infer_instance

/-- The user does not change the settings, and a broadcast about the user can read them. -/
def Allowed (u : ℤ) : Event K → Prop
  | .updatePrivacy uid .. => uid ≠ u
  | .broadcastOnline uid _ answered | .broadcastOffline uid _ answered => uid = u → answered = true
  | _ => True

/-- The user's status is sent as it is stored: a search lists the user, or the settings cannot be read for
a profile. -/
def Reveals (u v : ℤ) (s : State K) : Event K → Prop
  | .getProfile uid target reads =>
      uid = v ∧ 0 < target ∧ target = u ∧ reads.profile = true ∧ reads.privacy = false
  | .searchUser uid query allowed answered =>
      uid = v ∧ allowed = true ∧ answered = true ∧ ∃ r ∈ foundRows matchesName s.users uid query, r.id = u
  | _ => False

/-! ### Rows -/

section Rows

variable {u : ℤ} {users users' : List UserRow} {r : UserRow}

@[simp] theorem id_hide (u : ℤ) (r : UserRow) : (hide u r).id = r.id := by
  rw [hide]
  split <;> rfl

@[simp] theorem username_hide (u : ℤ) (r : UserRow) : (hide u r).username = r.username := by
  rw [hide]
  split <;> rfl

@[simp] theorem card_hide (u : ℤ) (r : UserRow) : (hide u r).card = r.card := by
  rw [hide]
  split <;> rfl

@[simp] theorem privacyOnline_hide (u : ℤ) (r : UserRow) : (hide u r).privacyOnline = r.privacyOnline := by
  rw [hide]
  split <;> rfl

@[simp] theorem privacyLastSeen_hide (u : ℤ) (r : UserRow) :
    (hide u r).privacyLastSeen = r.privacyLastSeen := by
  rw [hide]
  split <;> rfl

theorem hide_of_ne (h : r.id ≠ u) : hide u r = r := if_neg h

@[simp] theorem hide_hide (u : ℤ) (r : UserRow) : hide u (hide u r) = hide u r := by
  by_cases h : r.id = u
  · simp [hide, h]
  · rw [hide_of_ne h, hide_of_ne h]

theorem findById_map {f : UserRow → UserRow} (hf : ∀ r, (f r).id = r.id) (users : List UserRow) (w : ℤ) :
    findById (users.map f) w = (findById users w).map f := by
  rw [findById, findById, List.find?_map]
  simp [hf]

theorem id_of_findById {w : ℤ} (h : findById users w = some r) : r.id = w := by
  simpa using List.find?_some h

theorem mem_of_findById {w : ℤ} (h : findById users w = some r) : r ∈ users := List.mem_of_find?_eq_some h

/-- Tables that differ in what is hidden have the same row of anybody else. -/
theorem findById_eq (h : users.map (hide u) = users'.map (hide u)) {w : ℤ} (hw : w ≠ u) :
    findById users w = findById users' w := by
  have hmap : ∀ l : List UserRow, findById (l.map (hide u)) w = findById l w := by
    intro l
    rw [findById_map (id_hide u)]
    cases hfind : findById l w with
    | none => rfl
    | some r => rw [Option.map_some, hide_of_ne (id_of_findById hfind ▸ hw)]
  rw [← hmap users, h, hmap]

theorem findById_hide_eq (h : users.map (hide u) = users'.map (hide u)) (w : ℤ) :
    (findById users w).map (hide u) = (findById users' w).map (hide u) := by
  rw [← findById_map (id_hide u), h, findById_map (id_hide u)]

/-- A function of the rows that does not see what is hidden. -/
theorem map_eq_of_hide {β : Type} {f : UserRow → β} (h : users.map (hide u) = users'.map (hide u))
    (hf : ∀ r ∈ users, f (hide u r) = f r) (hf' : ∀ r ∈ users', f (hide u r) = f r) :
    users.map f = users'.map f := by
  have hmap : ∀ l : List UserRow, (∀ r ∈ l, f (hide u r) = f r) → (l.map (hide u)).map f = l.map f := by
    intro l hl
    rw [List.map_map]
    exact List.map_congr_left hl
  rw [← hmap users hf, h, hmap users' hf']

theorem filter_hide {p : UserRow → Bool} (hp : ∀ r, p (hide u r) = p r) (users : List UserRow) :
    (users.map (hide u)).filter p = (users.filter p).map (hide u) := by
  rw [List.filter_map]
  simp [Function.comp_def, hp]

theorem filter_hide_eq {p : UserRow → Bool} (hp : ∀ r, p (hide u r) = p r)
    (h : users.map (hide u) = users'.map (hide u)) :
    (users.filter p).map (hide u) = (users'.filter p).map (hide u) := by
  rw [← filter_hide hp, h, filter_hide hp]

theorem hide_updateUser {f : UserRow → UserRow} (hf : ∀ r, hide u (f r) = hide u (f (hide u r))) (w : ℤ)
    (h : users.map (hide u) = users'.map (hide u)) :
    (updateUser users w f).map (hide u) = (updateUser users' w f).map (hide u) := by
  have hmap : ∀ l : List UserRow, (updateUser l w f).map (hide u) =
      (l.map (hide u)).map fun r => hide u (if r.id = w then f r else r) := by
    intro l
    rw [updateUser, List.map_map, List.map_map]
    refine List.map_congr_left fun r _ => ?_
    simp only [Function.comp_apply, id_hide]
    split
    · exact hf r
    · exact (hide_hide u r).symm
  rw [hmap, h, ← hmap]

theorem friend_hide (h : r.id = u → r.privacyOnline = .nobody ∧ r.privacyLastSeen = .nobody) :
    (hide u r).friend = r.friend := by
  by_cases hid : r.id = u
  · obtain ⟨honline, hseen⟩ := h hid
    simp [UserRow.friend, UserRow.shownStatus, UserRow.shownLastSeen, honline, hseen]
  · rw [hide_of_ne hid]

/-! ### What others read -/

theorem friendshipListForUser_eq (hu : Secret u users) (hu' : Secret u users')
    (h : users.map (hide u) = users'.map (hide u)) (fs : List Friends.Row) (w : ℤ) (answered : Bool) :
    friendshipListForUser fs users w answered = friendshipListForUser fs users' w answered := by
  have hrows : ∀ f : Friends.Row,
      (users.filter fun r => f.userId = w ∧ f.friendId = r.id ∨ f.friendId = w ∧ f.userId = r.id).map
          UserRow.friend =
        (users'.filter fun r => f.userId = w ∧ f.friendId = r.id ∨ f.friendId = w ∧ f.userId = r.id).map
          UserRow.friend := by
    intro f
    refine map_eq_of_hide (filter_hide_eq (fun r => by simp) h) (fun r hr => ?_) fun r hr => ?_
    · exact friend_hide (hu r (List.mem_of_mem_filter hr))
    · exact friend_hide (hu' r (List.mem_of_mem_filter hr))
  simp only [friendshipListForUser, hrows]

theorem inboxRow_eq (hu : Secret u users) (hu' : Secret u users')
    (h : users.map (hide u) = users'.map (hide u)) (peer : ℤ) :
    inboxRow users peer = inboxRow users' peer := by
  have hmap : ∀ l : List UserRow, Secret u l →
      inboxRow l peer = ((findById l peer).map (hide u)).map UserRow.friend := by
    intro l hl
    rw [inboxRow]
    cases hfind : findById l peer with
    | none => rfl
    | some r => simp only [Option.map_some, friend_hide (hl r (mem_of_findById hfind))]
  rw [hmap users hu, hmap users' hu', findById_hide_eq h]

theorem getPrivacy_hide (users : List UserRow) (w : ℤ) (answered : Bool) :
    getPrivacy (users.map (hide u)) w answered = getPrivacy users w answered := by
  rw [getPrivacy, getPrivacy, findById_map (id_hide u)]
  cases answered <;> cases findById users w <;> simp

theorem getPrivacy_eq (h : users.map (hide u) = users'.map (hide u)) (w : ℤ) (answered : Bool) :
    getPrivacy users w answered = getPrivacy users' w answered := by
  rw [← getPrivacy_hide (u := u) users, h, getPrivacy_hide]

/-- The settings that are read of the user. -/
theorem getPrivacy_of_secret (hu : Secret u users) (hknown : (findById users u).isSome = true) :
    getPrivacy users u true = (.nobody, .nobody) := by
  obtain ⟨r, hr⟩ := Option.isSome_iff_exists.mp hknown
  obtain ⟨honline, hseen⟩ := hu r (mem_of_findById hr) (id_of_findById hr)
  simp [getPrivacy, hr, honline, hseen]

/-- A profile shows nothing that is hidden, if the settings can be read. -/
theorem profileFor_eq (hu : Secret u users) (hu' : Secret u users')
    (h : users.map (hide u) = users'.map (hide u)) {v target : ℤ} (hv : v ≠ u) {reads : ProfileReads}
    (hreads : 0 < target → target = u → reads.profile = true → reads.privacy = true) :
    profileFor users v target reads = profileFor users' v target reads := by
  have hmap : ∀ l : List UserRow, Secret u l → profileFor l v target reads =
      profileFor (l.map (hide u)) v target reads := by
    intro l hl
    simp only [profileFor, getPrivacy_hide, findById_map (id_hide u)]
    cases hprofile : reads.profile with
    | false => rfl
    | true =>
      simp only [if_true]
      cases hfind : findById l (if target ≤ 0 then v else target) with
      | none => rfl
      | some r =>
        simp only [Option.map_some]
        by_cases hid : r.id = u
        · have htarget : (if target ≤ 0 then v else target) = u := (id_of_findById hfind).symm.trans hid
          have hpos : 0 < target := by
            by_contra hneg
            exact hv (by rwa [if_pos (by omega)] at htarget)
          rw [if_neg (by omega)] at htarget hfind ⊢
          subst htarget
          rw [hreads hpos rfl hprofile, getPrivacy_of_secret hl (by rw [hfind]; rfl)]
          simp [hv.symm]
        · rw [hide_of_ne hid]
  rw [hmap users hu, h, ← hmap users' hu']

theorem foundRows_hide_eq (h : users.map (hide u) = users'.map (hide u)) (viewer : ℤ) (query : Text) :
    (foundRows matchesName users viewer query).map (hide u) =
      (foundRows matchesName users' viewer query).map (hide u) := by
  rw [foundRows, foundRows]
  split
  · rfl
  · rw [List.map_take, List.map_take, filter_hide_eq (fun r => by simp) h]

/-- Whether a search lists the user. -/
theorem lists_iff (h : users.map (hide u) = users'.map (hide u)) (viewer : ℤ) (query : Text) :
    (∃ r ∈ foundRows matchesName users viewer query, r.id = u) ↔
      ∃ r ∈ foundRows matchesName users' viewer query, r.id = u := by
  have hids : ∀ l : List UserRow, (∃ r ∈ l, r.id = u) ↔ u ∈ (l.map (hide u)).map UserRow.id := by
    intro l
    simp
  rw [hids, hids, foundRows_hide_eq matchesName h]

/-- A search that does not list the user. -/
theorem found_eq (h : users.map (hide u) = users'.map (hide u)) {viewer : ℤ} {query : Text}
    (hnot : ¬ ∃ r ∈ foundRows matchesName users' viewer query, r.id = u) :
    (foundRows matchesName users viewer query).map UserRow.found =
      (foundRows matchesName users' viewer query).map UserRow.found := by
  have hnot' : ¬ ∃ r ∈ foundRows matchesName users viewer query, r.id = u := by
    rwa [lists_iff matchesName h]
  refine map_eq_of_hide (foundRows_hide_eq matchesName h viewer query) (fun r hr => ?_) fun r hr => ?_
  · rw [hide_of_ne fun hid => hnot' ⟨r, hr, hid⟩]
  · rw [hide_of_ne fun hid => hnot ⟨r, hr, hid⟩]

end Rows

section Step

variable {u v w : ℤ} {s t : State K} {k : K} {b : Option Broadcast} {f : UserRow → UserRow} {e : Event K}

/-! ### What one event sends -/

/-- What a user is sent of frames that go to who is connected. -/
theorem sent_to (fs : List (ℤ × Frame)) (connected : ℤ → Bool) (v : ℤ) :
    (fs.filter fun f => connected f.1).filterMap (fun f => if f.1 = v then some f.2 else none) =
      if connected v then fs.filterMap fun f => if f.1 = v then some f.2 else none else [] := by
  induction fs with
  | nil => simp
  | cons f fs ih =>
    by_cases hv : f.1 = v
    · cases hc : connected v <;> simp [hv, hc] at ih ⊢
      · exact ih
      · exact ih
    · cases hc : connected f.1 <;> simp [hv, hc, ih]

/-- What somebody else is answered. -/
theorem received_answer {uid v : ℤ} (h : uid ≠ v) (f : Frame) :
    [(uid, f)].filterMap (fun f => if f.1 = v then some f.2 else none) = [] := by simp [h]

/-- The user's own broadcasts stop at the setting. -/
theorem presenceBroadcast_of_nobody {uid : ℤ} {b : Broadcast} (hb : b.privacyOnline = .nobody)
    (reads : BroadcastReads) : presenceBroadcast s uid reads b = [] := by
  cases b with
  | online privacyOnline =>
    obtain rfl : privacyOnline = .nobody := hb
    rfl
  | offline privacyOnline privacyLastSeen written =>
    obtain rfl : privacyOnline = .nobody := hb
    cases written <;> rfl

theorem presenceBroadcast_eq (hs : Hides u s) (ht : Hides u t) (h : Same u s t) {uid : ℤ} (huid : uid ≠ u)
    (reads : BroadcastReads) (b : Broadcast) :
    presenceBroadcast s uid reads b = presenceBroadcast t uid reads b := by
  have hfriends := friendshipListForUser_eq hs.users ht.users h.users t.friendships uid reads.friends
  rcases b with privacyOnline | ⟨privacyOnline, privacyLastSeen, _ | _⟩ <;>
    simp only [presenceBroadcast, findById_eq h.users huid, h.friendships, h.blocks, hfriends]

/-- What the user does sends nothing to others. -/
theorem received_own (hv : v ≠ u) (hs : Hides u s) (he : Own u e) : received matchesName v s e = [] := by
  cases e with
  | finish uid k reads =>
    obtain rfl : uid = u := he
    have hnone : (s.broadcasts uid k).toList.flatMap (presenceBroadcast s uid reads) = [] :=
      List.flatMap_eq_nil_iff.mpr fun b hb =>
        presenceBroadcast_of_nobody (hs.broadcasts k b (Option.mem_toList.mp hb)) reads
    simp only [received, frames, hnone]
    rfl
  | getProfile uid target reads =>
    obtain rfl : uid = u := he
    simp only [received, frames]
    split <;> exact received_answer hv.symm _
  | getFriends uid answered => exact received_answer (by rw [show uid = u from he]; exact hv.symm) _
  | searchUser uid query allowed answered =>
    exact received_answer (by rw [show uid = u from he]; exact hv.symm) _
  | getInbox uid peers => exact received_answer (by rw [show uid = u from he]; exact hv.symm) _
  | getPrivacy uid answered => exact received_answer (by rw [show uid = u from he]; exact hv.symm) _
  | updatePrivacy => exact absurd he id
  | updateProfile => exact absurd he id
  | _ => rfl

/-- What others do sends the same, unless it shows the user. -/
theorem received_other (hv : v ≠ u) (hs : Hides u s) (ht : Hides u t) (he : ¬ Own u e) (h : Same u s t)
    (hreveals : ¬ Reveals matchesName u v t e) :
    received matchesName v s e = received matchesName v t e := by
  cases e with
  | finish uid k reads =>
    have hbroadcast : presenceBroadcast s uid reads = presenceBroadcast t uid reads :=
      funext fun b => presenceBroadcast_eq hs ht h he reads b
    simp only [received, frames, sent_to, h.broadcasts uid he, h.connected v hv, hbroadcast]
  | getFriends uid answered =>
    simp only [received, frames, h.friendships,
      friendshipListForUser_eq hs.users ht.users h.users t.friendships uid answered]
  | getProfile uid target reads =>
    by_cases huid : uid = v
    · subst huid
      have hprofile : profileFor s.users uid target reads = profileFor t.users uid target reads := by
        refine profileFor_eq hs.users ht.users h.users hv fun hpos htarget hread => ?_
        by_contra hprivacy
        exact hreveals ⟨rfl, hpos, htarget, hread, Bool.eq_false_iff.mpr hprivacy⟩
      simp only [received, frames, hprofile]
    · simp only [received, frames]
      split <;> split <;> simp only [received_answer huid]
  | searchUser uid query allowed answered =>
    by_cases huid : uid = v
    · by_cases hdone : allowed = true ∧ answered = true
      · have hfound : (foundRows matchesName s.users uid query).map UserRow.found =
            (foundRows matchesName t.users uid query).map UserRow.found :=
          found_eq matchesName h.users fun hlists => hreveals ⟨huid, hdone.1, hdone.2, hlists⟩
        simp only [received, frames, hfound]
      · simp only [received, frames, if_neg hdone]
    · simp only [received, frames, received_answer huid]
  | getInbox uid peers =>
    have hrow : inboxRow s.users = inboxRow t.users :=
      funext fun peer => inboxRow_eq hs.users ht.users h.users peer
    simp only [received, frames, hrow]
  | getPrivacy uid answered => simp only [received, frames, getPrivacy_eq h.users]
  | updateProfile uid card now answered =>
    simp only [received, frames, sent_to, h.friendships, h.connected v hv,
      friendshipListForUser_eq hs.users ht.users h.users t.friendships uid answered]
  | _ => rfl

/-! ### What one event leaves -/

theorem Hides.updateUser (h : Hides u s) (hid : ∀ r, (f r).id = r.id)
    (hf : w = u → ∀ r, (f r).privacyOnline = r.privacyOnline ∧ (f r).privacyLastSeen = r.privacyLastSeen) :
    Hides u { s with users := updateUser s.users w f } where
  known := by
    show (findById (HiddenPresence.updateUser s.users w f) u).isSome = true
    rw [HiddenPresence.updateUser, findById_map fun r => by split <;> simp [hid], Option.isSome_map]
    exact h.known
  users := by
    intro r' hr' hu
    obtain ⟨r, hr, rfl⟩ := List.mem_map.mp hr'
    by_cases hw : r.id = w
    · rw [if_pos hw] at hu ⊢
      rw [hid] at hu
      rw [(hf (hw.symm.trans hu) r).1, (hf (hw.symm.trans hu) r).2]
      exact h.users r hr hu
    · rw [if_neg hw] at hu ⊢
      exact h.users r hr hu
  broadcasts := h.broadcasts

theorem hide_setStatus (status : Status) (now : Text) (r : UserRow) :
    hide u (setStatus status now r) = hide u (setStatus status now (hide u r)) := by
  by_cases h : r.id = u <;> simp [hide, setStatus, h]

theorem hide_setCard (card : Card) (now : Text) (r : UserRow) :
    hide u (setCard card now r) = hide u (setCard card now (hide u r)) := by
  by_cases h : r.id = u <;> simp [hide, setCard, h]

theorem hide_setPrivacy (online lastSeen : Option Setting) (now : Text) (r : UserRow) :
    hide u (setPrivacy online lastSeen now r) = hide u (setPrivacy online lastSeen now (hide u r)) := by
  by_cases h : r.id = u <;> simp [hide, setPrivacy, h]

/-- The user's own status is hidden. -/
theorem hide_updateUser_own (status : Status) (now : Text) (users : List UserRow) :
    (updateUser users u (setStatus status now)).map (hide u) = users.map (hide u) := by
  rw [updateUser, List.map_map]
  refine List.map_congr_left fun r _ => ?_
  by_cases h : r.id = u <;> simp [hide, setStatus, h]

theorem Same.updateUser (h : Same u s t) (hf : ∀ r, hide u (f r) = hide u (f (hide u r))) (w : ℤ) :
    Same u { s with users := updateUser s.users w f } { t with users := updateUser t.users w f } where
  users := hide_updateUser hf w h.users
  friendships := h.friendships
  blocks := h.blocks
  connected := h.connected
  broadcasts := h.broadcasts

variable [DecidableEq K]

theorem Hides.setBroadcast (h : Hides u s) (hb : w = u → ∀ b' ∈ b, b'.privacyOnline = .nobody) :
    Hides u (s.setBroadcast w k b) where
  known := h.known
  users := h.users
  broadcasts := by
    intro k' b' hb'
    simp only [State.setBroadcast] at hb'
    by_cases hw : w = u
    · subst hw
      rw [Function.update_self] at hb'
      by_cases hk : k' = k
      · subst hk
        rw [Function.update_self] at hb'
        exact hb rfl b' hb'
      · rw [Function.update_of_ne hk] at hb'
        exact h.broadcasts k' b' hb'
    · rw [Function.update_of_ne (Ne.symm hw)] at hb'
      exact h.broadcasts k' b' hb'

theorem hides_step (h : Hides u s) (he : Allowed u e) : Hides u (step s e) := by
  have hread : ∀ {uid : ℤ} {answered : Bool}, (uid = u → answered = true) → uid = u →
      (getPrivacy s.users uid answered).1 = .nobody := by
    rintro uid answered hanswered rfl
    rw [hanswered rfl, getPrivacy_of_secret h.users h.known]
  cases e with
  | login uid ok now =>
    cases ok with
    | false => exact ⟨h.known, h.users, h.broadcasts⟩
    | true =>
      have hstatus := h.updateUser (w := uid) (f := setStatus .online now) (fun _ => rfl) fun _ _ => ⟨rfl, rfl⟩
      exact ⟨hstatus.known, hstatus.users, hstatus.broadcasts⟩
  | disconnect uid => exact ⟨h.known, h.users, h.broadcasts⟩
  | broadcastOnline uid k answered =>
    rw [step]
    split
    · refine h.setBroadcast fun hu b' hb' => ?_
      obtain rfl := Option.some.inj hb'
      exact hread he hu
    · exact h
  | broadcastOffline uid k answered =>
    rw [step]
    split
    · refine h.setBroadcast fun hu b' hb' => ?_
      obtain rfl := Option.some.inj hb'
      exact hread he hu
    · exact h
  | writeOffline uid k ok now =>
    rw [step]
    split
    next privacyOnline privacyLastSeen hb =>
      have hnobody : uid = u → privacyOnline = .nobody := by
        rintro rfl
        exact h.broadcasts k _ hb
      refine Hides.setBroadcast ?_ fun hu b' hb' => ?_
      · cases ok with
        | false => exact h
        | true => exact h.updateUser (fun _ => rfl) fun _ _ => ⟨rfl, rfl⟩
      · obtain rfl := Option.some.inj hb'
        exact hnobody hu
    · exact h
  | finish uid k reads =>
    rw [step]
    split
    · exact h
    · exact h.setBroadcast fun _ b' hb' => by cases hb'
  | updatePrivacy uid online lastSeen readReceipt onlineOk lastSeenOk now =>
    exact h.updateUser (fun _ => rfl) fun hu => absurd hu he
  | updateProfile uid card now answered => exact h.updateUser (fun _ => rfl) fun _ _ => ⟨rfl, rfl⟩
  | friendships rows => exact ⟨h.known, h.users, h.broadcasts⟩
  | blocks pairs => exact ⟨h.known, h.users, h.broadcasts⟩
  | _ => exact h

theorem Same.setBroadcast (h : Same u s t) (w : ℤ) (k : K) (b : Option Broadcast) :
    Same u (s.setBroadcast w k b) (t.setBroadcast w k b) where
  users := h.users
  friendships := h.friendships
  blocks := h.blocks
  connected := h.connected
  broadcasts := by
    intro w' hw'
    by_cases hw : w' = w
    · subst hw
      simp only [State.setBroadcast, Function.update_self, h.broadcasts w' hw']
    · simp only [State.setBroadcast, Function.update_of_ne hw, h.broadcasts w' hw']

theorem Same.setBroadcast_own (h : Same u s t) (k : K) (b : Option Broadcast) :
    Same u (s.setBroadcast u k b) t where
  users := h.users
  friendships := h.friendships
  blocks := h.blocks
  connected := h.connected
  broadcasts w hw := by simp only [State.setBroadcast, Function.update_of_ne hw, h.broadcasts w hw]

/-- What the user does leads to a state that looks the same to others. -/
theorem own_same (he : Own u e) (h : Same u s t) : Same u (step s e) t := by
  have hconnected : ∀ c w, w ≠ u → Function.update s.connected u c w = t.connected w := by
    intro c w hw
    rw [Function.update_of_ne hw, h.connected w hw]
  cases e with
  | login uid ok now =>
    obtain rfl : uid = u := he
    refine ⟨?_, h.friendships, h.blocks, hconnected true, h.broadcasts⟩
    cases ok with
    | false => exact h.users
    | true => exact (hide_updateUser_own .online now s.users).trans h.users
  | disconnect uid =>
    obtain rfl : uid = u := he
    exact ⟨h.users, h.friendships, h.blocks, hconnected false, h.broadcasts⟩
  | broadcastOnline uid k answered =>
    obtain rfl : uid = u := he
    rw [step]
    split
    · exact h.setBroadcast_own k _
    · exact h
  | broadcastOffline uid k answered =>
    obtain rfl : uid = u := he
    rw [step]
    split
    · exact h.setBroadcast_own k _
    · exact h
  | writeOffline uid k ok now =>
    obtain rfl : uid = u := he
    rw [step]
    split
    · have hwritten : Same uid { s with
          users := if ok then HiddenPresence.updateUser s.users uid (setStatus .offline now)
            else s.users } t := by
        refine ⟨?_, h.friendships, h.blocks, h.connected, h.broadcasts⟩
        cases ok with
        | false => exact h.users
        | true => exact (hide_updateUser_own .offline now s.users).trans h.users
      exact hwritten.setBroadcast_own k _
    · exact h
  | finish uid k reads =>
    obtain rfl : uid = u := he
    rw [step]
    split
    · exact h
    · exact h.setBroadcast_own k _
  | updatePrivacy => exact absurd he id
  | updateProfile => exact absurd he id
  | friendships => exact absurd he id
  | blocks => exact absurd he id
  | _ => exact h

/-- What others do leads from states that look the same to such states. -/
theorem other_same (he : ¬ Own u e) (h : Same u s t) : Same u (step s e) (step t e) := by
  have hconnected : ∀ uid c w, w ≠ u →
      Function.update s.connected uid c w = Function.update t.connected uid c w := by
    intro uid c w hw
    by_cases huid : w = uid
    · subst huid
      rw [Function.update_self, Function.update_self]
    · rw [Function.update_of_ne huid, Function.update_of_ne huid, h.connected w hw]
  cases e with
  | login uid ok now =>
    refine ⟨?_, h.friendships, h.blocks, hconnected uid true, h.broadcasts⟩
    cases ok with
    | false => exact h.users
    | true => exact hide_updateUser (hide_setStatus .online now) uid h.users
  | disconnect uid => exact ⟨h.users, h.friendships, h.blocks, hconnected uid false, h.broadcasts⟩
  | broadcastOnline uid k answered =>
    simp only [step, ← h.broadcasts uid he, ← getPrivacy_eq h.users]
    split
    · exact h.setBroadcast uid k _
    · exact h
  | broadcastOffline uid k answered =>
    simp only [step, ← h.broadcasts uid he, ← getPrivacy_eq h.users]
    split
    · exact h.setBroadcast uid k _
    · exact h
  | writeOffline uid k ok now =>
    simp only [step, ← h.broadcasts uid he]
    split
    · have hwritten : Same u
          { s with
            users := if ok then HiddenPresence.updateUser s.users uid (setStatus .offline now) else s.users }
          { t with
            users := if ok then HiddenPresence.updateUser t.users uid (setStatus .offline now)
              else t.users } := by
        refine ⟨?_, h.friendships, h.blocks, h.connected, h.broadcasts⟩
        cases ok with
        | false => exact h.users
        | true => exact hide_updateUser (hide_setStatus .offline now) uid h.users
      exact hwritten.setBroadcast uid k _
    · exact h
  | finish uid k reads =>
    simp only [step, ← h.broadcasts uid he]
    split
    · exact h
    · exact h.setBroadcast uid k _
  | updatePrivacy uid online lastSeen readReceipt onlineOk lastSeenOk now =>
    exact h.updateUser (hide_setPrivacy _ _ now) uid
  | updateProfile uid card now answered => exact h.updateUser (hide_setCard card now) uid
  | friendships rows => exact ⟨h.users, rfl, h.blocks, h.connected, h.broadcasts⟩
  | blocks pairs => exact ⟨h.users, h.friendships, rfl, h.connected, h.broadcasts⟩
  | _ => exact h

/-- The conditions of noninterference. -/
theorem unwinding (hv : v ≠ u) :
    Unwinding step (received (K := K) matchesName v) (Hides u) (Same u) (Allowed u) (Own u)
      (Reveals matchesName u v) where
  safe _ _ hs he := hides_step hs he
  own_same _ _ _ _ _ he h := own_same he h
  own_out _ _ hs _ he := received_own matchesName hv hs he
  other_same _ _ _ _ _ _ he h := other_same he h
  other_out _ _ _ hs ht _ he h hreveals := received_other matchesName hv hs ht he h hreveals

end Step

/-! ### What shows -/

section Shown

variable {u v : ℤ} {s t : State K} {e : Event K}

/-- The frame is an answer to a request that says that the user is online. -/
def Frame.ShowsOnline (u : ℤ) : Frame → Prop
  | .profile p => p.userId = u ∧ p.status = .online
  | .searchResult rows => ∃ r ∈ rows, r.id = u ∧ r.status = .online
  | _ => False

/-- The rows of a user have a status. -/
def HasStatus (u : ℤ) (status : Status) (s : State K) : Prop :=
  ∀ r ∈ s.users, r.id = u → r.status = status

theorem mem_received {f : Frame} : f ∈ received matchesName v s e ↔ (v, f) ∈ frames matchesName s e := by
  simp only [received, List.mem_filterMap, Prod.exists]
  constructor
  · rintro ⟨w, g, hg, hf⟩
    split at hf
    next hw =>
      obtain rfl := Option.some.inj hf
      exact hw ▸ hg
    next => cases hf
  · exact fun hf => ⟨v, f, hf, if_pos rfl⟩

theorem not_showsOnline_of_broadcast {uid : ℤ} {reads : BroadcastReads} {b : Broadcast} {f : ℤ × Frame}
    (hf : f ∈ presenceBroadcast s uid reads b) : ¬ f.2.ShowsOnline u := by
  rcases b with privacyOnline | ⟨privacyOnline, privacyLastSeen, _ | _⟩ <;>
    simp only [presenceBroadcast] at hf
  · split at hf
    · cases hf
    · split at hf
      · cases hf
      · obtain ⟨g, -, rfl⟩ := List.mem_map.mp hf
        exact id
  · cases hf
  · split at hf
    · cases hf
    · split at hf
      · cases hf
      · obtain ⟨g, -, rfl⟩ := List.mem_map.mp hf
        exact id

/-- A user that is stored offline is not shown online. -/
theorem not_showsOnline_of_offline (h : HasStatus u .offline s) {f : Frame}
    (hf : f ∈ received matchesName v s e) : ¬ f.ShowsOnline u := by
  rw [mem_received] at hf
  cases e with
  | finish uid k reads =>
    obtain ⟨b, -, hb⟩ := List.mem_flatMap.mp (List.mem_of_mem_filter hf)
    exact not_showsOnline_of_broadcast hb
  | getProfile uid target reads =>
    simp only [frames] at hf
    split at hf
    next p hp =>
      obtain rfl := (Prod.ext_iff.mp (List.mem_singleton.mp hf)).2
      rintro ⟨hid, honline⟩
      simp only [profileFor, Option.map_eq_some_iff] at hp
      obtain ⟨r, hr, rfl⟩ := hp
      have hoffline : r.status = .offline := by
        split at hr
        · exact h r (mem_of_findById hr) ((id_of_findById hr).trans hid)
        · cases hr
      simp [hoffline] at honline
    next =>
      obtain rfl := (Prod.ext_iff.mp (List.mem_singleton.mp hf)).2
      exact id
  | searchUser uid query allowed answered =>
    obtain rfl := (Prod.ext_iff.mp (List.mem_singleton.mp hf)).2
    rintro ⟨r', hr', hid, honline⟩
    split at hr'
    · obtain ⟨r, hr, rfl⟩ := List.mem_map.mp hr'
      have hmem : r ∈ s.users := by
        rw [foundRows] at hr
        split at hr
        · cases hr
        · exact List.mem_of_mem_filter (List.mem_of_mem_take hr)
      rw [show r.found.status = r.status from rfl, h r hmem hid] at honline
      cases honline
    · cases hr'
  | updateProfile uid card now answered =>
    obtain ⟨g, -, hg⟩ := List.mem_map.mp (List.mem_of_mem_filter hf)
    obtain rfl := (Prod.ext_iff.mp hg).2
    exact id
  | getFriends | getInbox | getPrivacy | updatePrivacy =>
    obtain rfl := (Prod.ext_iff.mp (List.mem_singleton.mp hf)).2
    exact id
  | _ => cases hf

/-- An event that reveals a user that is online. -/
theorem showsOnline_of_reveals (hknown : (findById s.users u).isSome = true) (h : HasStatus u .online s)
    (he : Reveals matchesName u v s e) : ∃ f ∈ received matchesName v s e, f.ShowsOnline u := by
  cases e with
  | getProfile uid target reads =>
    obtain ⟨rfl, hpos, rfl, hprofile, hprivacy⟩ := he
    obtain ⟨r, hr⟩ := Option.isSome_iff_exists.mp hknown
    have hp : ∃ p, profileFor s.users uid target reads = some p ∧ p.userId = target ∧ p.status = .online := by
      refine ⟨_, by rw [profileFor, if_neg (by omega), if_pos hprofile, hr]; rfl, rfl, ?_⟩
      rw [hprivacy]
      exact (if_neg (by simp [getPrivacy])).trans (h r (mem_of_findById hr) (id_of_findById hr))
    obtain ⟨p, hp, hshows⟩ := hp
    refine ⟨.profile p, (mem_received matchesName).mpr ?_, hshows⟩
    simp only [frames, hp]
    exact List.mem_singleton_self _
  | searchUser uid query allowed answered =>
    obtain ⟨rfl, hallowed, hanswered, r, hr, hid⟩ := he
    refine ⟨_, (mem_received matchesName).mpr (List.mem_singleton_self _), ?_⟩
    rw [if_pos ⟨hallowed, hanswered⟩]
    have hmem : r ∈ s.users := by
      rw [foundRows] at hr
      split at hr
      · cases hr
      · exact List.mem_of_mem_filter (List.mem_of_mem_take hr)
    exact ⟨r.found, List.mem_map_of_mem hr, hid, h r hmem hid⟩
  | _ => exact absurd he id

/-- What reveals the user does not depend on what is hidden. -/
theorem reveals_of_same (h : Same u s t) (he : Reveals matchesName u v t e) : Reveals matchesName u v s e := by
  cases e with
  | searchUser uid query allowed answered =>
    obtain ⟨huid, hallowed, hanswered, hlists⟩ := he
    exact ⟨huid, hallowed, hanswered, (lists_iff matchesName h.users uid query).mpr hlists⟩
  | getProfile => exact he
  | _ => exact absurd he id

variable [DecidableEq K]

theorem HasStatus.step {status : Status} (h : HasStatus u status s) (he : ¬ Own u e) :
    HasStatus u status (step s e) := by
  have hupdate : ∀ {w : ℤ} {f : UserRow → UserRow}, (∀ r, (f r).id = r.id) →
      (w = u → ∀ r, (f r).status = r.status) → ∀ r ∈ updateUser s.users w f, r.id = u → r.status = status := by
    intro w f hid hf r' hr' hu
    obtain ⟨r, hr, rfl⟩ := List.mem_map.mp hr'
    by_cases hw : r.id = w
    · rw [if_pos hw] at hu ⊢
      rw [hid] at hu
      rw [hf (hw.symm.trans hu)]
      exact h r hr hu
    · rw [if_neg hw] at hu ⊢
      exact h r hr hu
  cases e with
  | login uid ok now =>
    cases ok with
    | false => exact h
    | true => exact hupdate (fun _ => rfl) fun hu => absurd hu he
  | broadcastOnline uid k answered =>
    rw [HiddenPresence.step]
    split <;> exact h
  | broadcastOffline uid k answered =>
    rw [HiddenPresence.step]
    split <;> exact h
  | writeOffline uid k ok now =>
    rw [HiddenPresence.step]
    split
    · cases ok with
      | false => exact h
      | true => exact hupdate (fun _ => rfl) fun hu => absurd hu he
    · exact h
  | finish uid k reads =>
    rw [HiddenPresence.step]
    split <;> exact h
  | updatePrivacy => exact hupdate (fun _ => rfl) fun _ _ => rfl
  | updateProfile => exact hupdate (fun _ => rfl) fun _ _ => rfl
  | _ => exact h

end Shown

/-! ### Runs -/

/-- Alice hides from everybody, and is a friend of Bob. -/
def alice : State Unit where
  users :=
    [⟨1, ascii "alice", ⟨ascii "Alice", [], none⟩, .offline, ascii "2026-05-03 08:33:11", .nobody, .nobody⟩,
      ⟨2, ascii "bob", ⟨ascii "Bob", [], none⟩, .online, ascii "2026-05-03 09:00:00", .everyone, .everyone⟩]
  friendships := [⟨1, 1, 2, .accepted, 1⟩]
  blocks := []
  connected w := w = 2
  broadcasts _ _ := none

theorem hides_alice : Hides 1 alice := ⟨by decide, by unfold Secret; decide, fun k b hb => by cases hb⟩

/-- A search shows it. -/
example :
    collect step (received (fun query name => query.isPrefixOf name) 2) alice
        [.login 1 true [], .searchUser 2 (ascii "ali") true true] ≠
      collect step (received (fun query name => query.isPrefixOf name) 2) alice
        [.searchUser 2 (ascii "ali") true true] := by
  decide

end SecChat.HiddenPresence
