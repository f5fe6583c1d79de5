import SecChat.Server.Columns
import SecChat.Server.Lockout
import SecChat.Server.PasswordHash
import SecChat.Server.PendingOps
import Mathlib.Data.List.TakeWhile

/-!
# Accounts and their passwords (`services/auth.c`, `repository/user_repo.c`)

* `domainValidateEmail`, `User`, `userRepoCreate`, `findForAuth`: the table of users;
* `handleAuth`, `handleRegister`, `checkPassword`, `storePassword`: the handlers, with the change of a
  password in its two halves;
* `State`, `step`: the server under any order of requests, with the password each account was last given;
* `Inv`, `step_inv`: what the column holds is derived from that password;
* `login_accepted_iff`: which logins are accepted;
* `reached_by_username`, `reached_by_email_iff`: what an owner needs to reach the account.

A collation decides which texts are equal: `coll` maps a text to its sort key.
-/

namespace SecChat.Accounts

open CText Columns PasswordHash Runs
open PendingOps (jget)

/-! ### The table -/

/-- `domain_validate_email`. -/
def domainValidateEmail (email : Text) : Bool :=
  email = [] ∨
    (email.length ≤ 254 ∧ octet '@' ∈ email ∧ email.head? ≠ some (octet '@') ∧
      let domain := (email.dropWhile (· ≠ octet '@')).tail
      octet '.' ∈ domain ∧ (domain.dropWhile (· ≠ octet '.')).tail ≠ [])

/-- A row of `users`. -/
structure User where
  id : ℕ
  username : Text
  email : Option Text
  passwordHash : Text
  deriving DecidableEq

/-- What becomes of a statement: there is no connection, it fails, it is executed, or the connection is
lost before or after it was executed. -/
inductive Reply
  | noConnection
  | failed
  | done
  | lost (executed : Bool)
  deriving DecidableEq

/-- `INSERT INTO users`: a name is a unique key. An address is not. -/
def insertUser (coll : Text → Text) (row : User) (users : List User) : Option (List User) :=
  if ∃ u ∈ users, coll u.username = coll row.username then none else some (users ++ [row])

/-- `user_repo_create`, with the replies of its attempts: after a lost connection it tries again. -/
def userRepoCreate (coll : Text → Text) (row : User) : List Reply → List User → Bool × List User
  | [], users => (false, users)
  | .noConnection :: _, users => (false, users)
  | .failed :: _, users => (false, users)
  | .done :: _, users =>
      match insertUser coll row users with
      | some users' => (true, users')
      | none => (false, users)
  | .lost executed :: rest, users =>
      userRepoCreate coll row rest
        (if executed then (insertUser coll row users).getD users else users)

/-- `WHERE email=? OR username=?` with `ORDER BY (email=?) DESC LIMIT 1`. Among rows that the order does
not part the database takes any, here the one at `choice`. -/
def findForAuth (coll : Text → Text) (login : Text) (choice : ℕ) (users : List User) : Option User :=
  let byEmail := users.filter fun u => u.email.map coll = some (coll login)
  let byName := users.filter fun u => coll u.username = coll login
  let best := if byEmail = [] then byName else byEmail
  best[choice % best.length]?

/-- `UPDATE users SET password_hash=?`. -/
def setHash (uid : ℕ) (stored : Text) (users : List User) : List User :=
  users.map fun u => if u.id = uid then { u with passwordHash := stored } else u

/-! ### The handlers -/

/-- What is sent back. -/
inductive Answer
  | error (msg : String)
  | ok (msg : String)
  | login (uid : ℕ) (username : Text)
  deriving DecidableEq

/-- A request to log in: its fields, the address of the connection, the time, whether the `SELECT` is
answered, and the row it takes. -/
structure Login where
  email : Text
  username : Text
  password : Text
  ip : Text
  now : ℤ
  answered : Bool
  choice : ℕ

/-- The login that is looked up: the address, or else the name. -/
def Login.login (r : Login) : Text :=
  if jget r.email 200 ≠ [] then jget r.email 200 else jget r.username 200

/-- The key of the rate limiter, and whether a failure is recorded. -/
def Login.call (r : Login) (record : Bool) : RateLimiter.Call := ⟨r.login, r.ip, record, r.now⟩

variable (coll : Text → Text) (kdf : Kdf) (sha256 : Py.Bytes → Py.Bytes)

/-- `handle_auth` up to the session: the answer and the table of failed logins. -/
def handleAuth (users : List User) (rate : RateLimiter.State) (r : Login) :
    Answer × RateLimiter.State :=
  let checked := RateLimiter.step sha256 rate (r.call false)
  if RateLimiter.allows sha256 rate (r.call false) = false then
    (.error "Too many failed login attempts — try again later", checked)
  else
    let invalid : Answer × RateLimiter.State :=
      (.error "Invalid credentials", RateLimiter.step sha256 checked (r.call true))
    match if r.answered then findForAuth coll r.login r.choice users else none with
    | none => invalid
    | some u =>
        match verify kdf u.passwordHash (jget r.password 128) with
        | .right => (.login u.id u.username, checked)
        | _ => invalid

/-- A request to register, with the salt that is drawn and the replies to the `INSERT`. -/
structure Registration where
  username : Text
  email : Text
  password : Text
  salt : Option Salt
  replies : List Reply

/-- What `handle_register` refuses before it touches the database, and the row it inserts. -/
def Registration.row (kdf : Kdf) (r : Registration) (id : ℕ) : Except Answer User :=
  if domainValidateUsername (jget r.username 130) = false then
    .error (.error "Username must be 3-63 chars, letters/digits/underscore only")
  else if domainValidateEmail (jget r.email 200) = false then .error (.error "Invalid email address")
  else if (jget r.password 128).length ≠ 64 then .error (.error "Invalid password format")
  else
    match r.salt with
    | none => .error (.error "Server error")
    | some salt =>
        match kdf (jget r.password 128) salt.1 with
        | none => .error (.error "Server error")
        | some derived =>
            .ok ⟨id, jget r.username 130, if jget r.email 200 = [] then none else some (jget r.email 200),
              storedHash salt derived⟩

/-- `handle_register`. -/
def handleRegister (users : List User) (id : ℕ) (r : Registration) : Answer × List User :=
  match r.row kdf id with
  | .error answer => (answer, users)
  | .ok row =>
      match userRepoCreate coll row (r.replies.take 2) users with
      | (true, users') => (.ok "Registration successful", users')
      | (false, users') => (.error "Username or email already taken", users')

/-- A change of password that passed its check: the account, the new password and its text. -/
structure Change where
  uid : ℕ
  password : Text
  stored : Text

/-- A request to change a password. -/
structure ChangeRequest where
  oldPassword : Text
  newPassword : Text
  salt : Option Salt
  answered : Bool

/-- `handle_change_password` up to the `UPDATE`. -/
def checkPassword (users : List User) (uid : ℕ) (r : ChangeRequest) : Except Answer Change :=
  if (jget r.oldPassword 128).length ≠ 64 ∨ (jget r.newPassword 128).length ≠ 64 then
    .error (.error "Invalid password format")
  else
    match if r.answered then users.find? fun u => u.id = uid else none with
    | none => .error (.error "User not found")
    | some u =>
        match verify kdf u.passwordHash (jget r.oldPassword 128) with
        | .malformed => .error (.error "Server error")
        | .failed => .error (.error "Server error")
        | .wrong => .error (.error "Incorrect current password")
        | .right =>
            match r.salt with
            | none => .error (.error "Server error")
            | some salt =>
                match kdf (jget r.newPassword 128) salt.1 with
                | none => .error (.error "Server error")
                | some derived => .ok ⟨uid, jget r.newPassword 128, storedHash salt derived⟩

/-- Whether a statement is executed. -/
def Reply.executed : Reply → Bool
  | .done => true
  | .lost executed => executed
  | _ => false

/-- The `UPDATE` of `handle_change_password`, and what is answered. -/
def storePassword (users : List User) (c : Change) (reply : Reply) : Answer × List User :=
  (if reply = .done then .ok "Password changed successfully" else .error "Failed to update password",
    if reply.executed then setHash c.uid c.stored users else users)

/-! ### The server -/

/-- The users, the next id, the table of failed logins, the user of each connection and its change of
password under way; and for each account the password it was last given. -/
structure State (K : Type) where
  users : List User
  nextId : ℕ
  rate : RateLimiter.State
  uids : K → ℕ
  changes : K → Option Change
  passwords : ℕ → Text

/-- Requests on connections, in any order. The change of a password comes in two halves. -/
inductive Event (K : Type)
  | auth (k : K) (r : Login)
  | register (r : Registration)
  | check (k : K) (r : ChangeRequest)
  | store (k : K) (reply : Reply)

/-- The start of the server. -/
def start (K : Type) : State K := ⟨[], 1, .init, fun _ => 0, fun _ => none, fun _ => []⟩

variable {K : Type} [DecidableEq K]

/-- One request. A login takes the user from the other connections. -/
def step (s : State K) : Event K → State K
  | .auth k r =>
      let a := handleAuth coll kdf sha256 s.users s.rate r
      { s with
        rate := a.2
        uids := match a.1 with
          | .login uid _ => fun j => if j = k then uid else if s.uids j = uid then 0 else s.uids j
          | _ => s.uids }
  | .register r =>
      { s with
        users := (handleRegister coll kdf s.users s.nextId r).2
        nextId := s.nextId + 1
        passwords := Function.update s.passwords s.nextId (jget r.password 128) }
  | .check k r =>
      match checkPassword kdf s.users (s.uids k) r with
      | .ok c => { s with changes := Function.update s.changes k (some c) }
      | .error _ => s
  | .store k reply =>
      match s.changes k with
      | none => s
      | some c =>
          { s with
            users := (storePassword s.users c reply).2
            changes := Function.update s.changes k none
            passwords := if reply.executed then Function.update s.passwords c.uid c.password
              else s.passwords }

/-! ### What a request does to the table -/

variable {coll kdf sha256}

theorem jget_jget {value : Text} {m n : ℕ} (h : m ≤ n) : jget (jget value m) n = jget value m := by
  have hkept : ∀ c ∈ jget value m, decide (c ≠ 0) = true := by
    intro c hc
    exact List.mem_takeWhile_imp (p := fun c => decide (c ≠ 0)) (List.mem_of_mem_take hc)
  have hlen : (jget value m).length ≤ n - 1 := by
    rw [jget, List.length_take]
    omega
  rw [jget, List.takeWhile_eq_self_iff.mpr hkept, List.take_of_length_le hlen]

/-- A name that no row has. -/
def FreshName (coll : Text → Text) (row : User) (users : List User) : Prop :=
  ∀ u ∈ users, coll u.username ≠ coll row.username

theorem insertUser_cases (row : User) (users : List User) :
    insertUser coll row users = none ∨
      FreshName coll row users ∧ insertUser coll row users = some (users ++ [row]) := by
  rw [insertUser]
  split
  next => exact Or.inl rfl
  next hfresh => exact Or.inr ⟨fun u hu hsame => hfresh ⟨u, hu, hsame⟩, rfl⟩

/-- Whatever is replied, the row is inserted once or not at all. -/
theorem userRepoCreate_cases (row : User) (users : List User) (replies : List Reply) :
    (userRepoCreate coll row replies users).2 = users ∨
      FreshName coll row users ∧ (userRepoCreate coll row replies users).2 = users ++ [row] := by
  suffices h : ∀ t, (t = users ∨ FreshName coll row users ∧ t = users ++ [row]) →
      (userRepoCreate coll row replies t).2 = users ∨
        FreshName coll row users ∧ (userRepoCreate coll row replies t).2 = users ++ [row] from
    h users (Or.inl rfl)
  have hinsert : ∀ t, (t = users ∨ FreshName coll row users ∧ t = users ++ [row]) →
      ∀ t', insertUser coll row t = some t' → FreshName coll row users ∧ t' = users ++ [row] := by
    rintro t (rfl | ⟨-, rfl⟩) t' ht'
    · rcases @insertUser_cases coll row t with hnone | ⟨hfresh, hsome⟩
      · rw [hnone] at ht'
        cases ht'
      · rw [hsome] at ht'
        exact ⟨hfresh, (Option.some.inj ht').symm⟩
    · rw [insertUser, if_pos ⟨row, by simp, rfl⟩] at ht'
      cases ht'
  induction replies with
  | nil => exact fun t ht => ht
  | cons reply rest ih =>
    intro t ht
    cases reply with
    | noConnection => exact ht
    | failed => exact ht
    | done =>
      rw [userRepoCreate]
      cases hins : insertUser coll row t with
      | none => exact ht
      | some t' => exact Or.inr (hinsert t ht t' hins)
    | lost executed =>
      rw [userRepoCreate]
      refine ih _ ?_
      cases executed with
      | false => exact ht
      | true =>
        cases hins : insertUser coll row t with
        | none => simpa [hins] using ht
        | some t' => simpa [hins] using Or.inr (hinsert t ht t' hins)

/-- A row that the handler inserts. -/
structure Registered (kdf : Kdf) (password : Text) (row : User) : Prop where
  hashed : ∃ (salt : Salt) (derived : Derived), row.passwordHash = storedHash salt derived ∧
    kdf password salt.1 = some derived
  username : domainValidateUsername row.username = true ∧ jget row.username 200 = row.username
  email : ∀ e, row.email = some e → e ≠ [] ∧ domainValidateEmail e = true ∧ jget e 200 = e

theorem registered_of_row {r : Registration} {id : ℕ} {row : User} (h : r.row kdf id = .ok row) :
    row.id = id ∧ Registered kdf (jget r.password 128) row := by
  rw [Registration.row] at h
  split_ifs at h with hname hemail hpassword hempty
  all_goals
    split at h
    · cases h
    split at h
    · cases h
    cases h
    refine ⟨rfl, ⟨_, _, rfl, ‹_›⟩, ⟨Bool.eq_true_of_not_eq_false hname, jget_jget (by omega)⟩, ?_⟩
    intro e he
  · cases he
  · cases he
    exact ⟨hempty, Bool.eq_true_of_not_eq_false hemail, jget_jget (by omega)⟩

theorem handleRegister_cases (users : List User) (id : ℕ) (r : Registration) :
    (handleRegister coll kdf users id r).2 = users ∨
      ∃ row, row.id = id ∧ Registered kdf (jget r.password 128) row ∧ FreshName coll row users ∧
        (handleRegister coll kdf users id r).2 = users ++ [row] := by
  rw [handleRegister]
  cases hrow : r.row kdf id with
  | error answer => exact Or.inl rfl
  | ok row =>
    have hcreate := @userRepoCreate_cases coll row users (r.replies.take 2)
    obtain ⟨hid, hregistered⟩ := registered_of_row hrow
    -- the answer tells what the repository returned, and the table is the one it left
    have htable : (match userRepoCreate coll row (r.replies.take 2) users with
        | (true, users') => (Answer.ok "Registration successful", users')
        | (false, users') => (Answer.error "Username or email already taken", users')).2 =
        (userRepoCreate coll row (r.replies.take 2) users).2 := by
      rcases userRepoCreate coll row (r.replies.take 2) users with ⟨_ | _, users'⟩ <;> rfl
    show _ = users ∨ ∃ row', _ ∧ _ ∧ _ ∧ _ = users ++ [row']
    rw [htable]
    rcases hcreate with hsame | ⟨hfresh, happended⟩
    · exact Or.inl hsame
    · exact Or.inr ⟨row, hid, hregistered, hfresh, happended⟩

theorem checkPassword_ok {users : List User} {uid : ℕ} {r : ChangeRequest} {c : Change}
    (h : checkPassword kdf users uid r = .ok c) :
    ∃ (salt : Salt) (derived : Derived), c.stored = storedHash salt derived ∧
      kdf c.password salt.1 = some derived := by
  rw [checkPassword] at h
  split at h
  · cases h
  split at h
  · cases h
  split at h
  · cases h
  · cases h
  · cases h
  split at h
  · cases h
  split at h
  · cases h
  cases h
  exact ⟨_, _, rfl, ‹_›⟩

/-! ### The invariant -/

/-- What each row holds is derived from the password its account was last given, names and ids are
distinct, and what a change is about to write is derived from its new password. -/
structure Inv (coll : Text → Text) (kdf : Kdf) (s : State K) : Prop where
  rows : ∀ u ∈ s.users, Registered kdf (s.passwords u.id) u
  names : (s.users.map fun u => coll u.username).Nodup
  ids : (s.users.map User.id).Nodup
  fresh : ∀ u ∈ s.users, u.id < s.nextId
  changes : ∀ k c, s.changes k = some c → ∃ (salt : Salt) (derived : Derived),
    c.stored = storedHash salt derived ∧ kdf c.password salt.1 = some derived

omit [DecidableEq K] in
theorem inv_start : Inv coll kdf (start K) := by
  constructor <;> simp [start]

omit [DecidableEq K] in
/-- An account is registered. -/
theorem Inv.register {s : State K} (h : Inv coll kdf s) {row : User} {password : Text}
    (hid : row.id = s.nextId) (hrow : Registered kdf password row) (hfresh : FreshName coll row s.users) :
    Inv coll kdf { s with
      users := s.users ++ [row]
      nextId := s.nextId + 1
      passwords := Function.update s.passwords s.nextId password } := by
  have hother : ∀ u ∈ s.users, u.id ≠ s.nextId := fun u hu => (h.fresh u hu).ne
  constructor
  case rows =>
    intro u hu
    show Registered kdf (Function.update s.passwords s.nextId password u.id) u
    rcases List.mem_append.mp hu with hu | hu
    · rw [Function.update_of_ne (hother u hu)]
      exact h.rows u hu
    · obtain rfl := List.mem_singleton.mp hu
      rwa [hid, Function.update_self]
  case names =>
    rw [List.map_append, List.nodup_append]
    refine ⟨h.names, by simp, ?_⟩
    rintro a ha b hb rfl
    obtain ⟨u, hu, hname⟩ := List.mem_map.mp ha
    obtain rfl : a = coll row.username := by simpa using hb
    exact hfresh u hu hname
  case ids =>
    rw [List.map_append, List.nodup_append]
    refine ⟨h.ids, by simp, ?_⟩
    rintro a ha b hb rfl
    obtain ⟨u, hu, rfl⟩ := List.mem_map.mp ha
    exact hother u hu (by simpa [hid] using hb)
  case fresh =>
    intro u hu
    rcases List.mem_append.mp hu with hu | hu
    · exact Nat.lt_succ_of_lt (h.fresh u hu)
    · obtain rfl := List.mem_singleton.mp hu
      exact Nat.lt_succ_of_le hid.le
  case changes => exact h.changes

omit [DecidableEq K] in
/-- A registration that inserts nothing. -/
theorem Inv.refuse {s : State K} (h : Inv coll kdf s) (password : Text) :
    Inv coll kdf { s with
      nextId := s.nextId + 1
      passwords := Function.update s.passwords s.nextId password } where
  rows u hu := by
    show Registered kdf (Function.update s.passwords s.nextId password u.id) u
    rw [Function.update_of_ne (h.fresh u hu).ne]
    exact h.rows u hu
  names := h.names
  ids := h.ids
  fresh u hu := Nat.lt_succ_of_lt (h.fresh u hu)
  changes := h.changes

theorem map_setHash {α : Type} {f : User → α} (hf : ∀ u stored, f { u with passwordHash := stored } = f u)
    (uid : ℕ) (stored : Text) (users : List User) : (setHash uid stored users).map f = users.map f := by
  rw [setHash, List.map_map]
  refine List.map_congr_left fun u _ => ?_
  show f (if u.id = uid then _ else u) = f u
  split
  · exact hf u stored
  · rfl

omit [DecidableEq K] in
/-- A password is stored. -/
theorem Inv.store {s : State K} (h : Inv coll kdf s) {c : Change} {salt : Salt} {derived : Derived}
    (hstored : c.stored = storedHash salt derived) (hkdf : kdf c.password salt.1 = some derived) :
    Inv coll kdf { s with
      users := setHash c.uid c.stored s.users
      passwords := Function.update s.passwords c.uid c.password } where
  rows u hu := by
    show Registered kdf (Function.update s.passwords c.uid c.password u.id) u
    obtain ⟨v, hv, hvu⟩ := List.mem_map.mp hu
    have hrow := h.rows v hv
    split at hvu
    next hid =>
      subst hvu
      show Registered kdf (Function.update s.passwords c.uid c.password v.id) _
      rw [hid, Function.update_self]
      exact ⟨⟨salt, derived, hstored, hkdf⟩, hrow.username, hrow.email⟩
    next hid =>
      subst hvu
      rwa [Function.update_of_ne hid]
  names := by
    show ((setHash c.uid c.stored s.users).map _).Nodup
    rw [map_setHash fun _ _ => rfl]
    exact h.names
  ids := by
    show ((setHash c.uid c.stored s.users).map _).Nodup
    rw [map_setHash fun _ _ => rfl]
    exact h.ids
  fresh u hu := by
    obtain ⟨v, hv, hvu⟩ := List.mem_map.mp hu
    have hid : u.id = v.id := by
      rw [← hvu]
      split <;> rfl
    exact hid ▸ h.fresh v hv
  changes := h.changes

theorem step_inv (s : State K) (e : Event K) (h : Inv coll kdf s) :
    Inv coll kdf (step coll kdf sha256 s e) := by
  cases e with
  | auth k r => exact ⟨h.rows, h.names, h.ids, h.fresh, h.changes⟩
  | register r =>
    rw [step]
    rcases @handleRegister_cases coll kdf s.users s.nextId r with
      hsame | ⟨row, hid, hrow, hfresh, happended⟩
    · rw [hsame]
      exact h.refuse _
    · rw [happended]
      exact h.register hid hrow hfresh
  | check k r =>
    rw [step]
    cases hcheck : checkPassword kdf s.users (s.uids k) r with
    | error answer => exact h
    | ok c =>
      refine ⟨h.rows, h.names, h.ids, h.fresh, fun j c' hj => ?_⟩
      replace hj : Function.update s.changes k (some c) j = some c' := hj
      by_cases hjk : j = k
      · subst hjk
        rw [Function.update_self] at hj
        exact Option.some.inj hj ▸ checkPassword_ok hcheck
      · rw [Function.update_of_ne hjk] at hj
        exact h.changes j c' hj
  | store k reply =>
    rw [step]
    cases hchange : s.changes k with
    | none => exact h
    | some c =>
      obtain ⟨salt, derived, hstored, hkdf⟩ := h.changes k c hchange
      have hleft : ∀ j c', Function.update s.changes k none j = some c' → s.changes j = some c' := by
        intro j c' hj
        by_cases hjk : j = k
        · subst hjk
          rw [Function.update_self] at hj
          cases hj
        · rwa [Function.update_of_ne hjk] at hj
      have hnext : Inv coll kdf { s with
          users := (storePassword s.users c reply).2
          passwords := if reply.executed then Function.update s.passwords c.uid c.password
            else s.passwords } := by
        rw [storePassword]
        cases reply.executed with
        | false => exact h
        | true => exact h.store hstored hkdf
      exact ⟨hnext.rows, hnext.names, hnext.ids, hnext.fresh, fun j c' hj => h.changes j c' (hleft j c' hj)⟩

/-- The invariant after a run. -/
theorem inv_run (es : List (Event K)) : Inv coll kdf (es.foldl (step coll kdf sha256) (start K)) :=
  foldl_of_forall (D := fun _ => True) (fun s e h _ => step_inv s e h) inv_start fun _ _ => trivial

/-! ### Logins -/

theorem handleAuth_login {users : List User} {rate : RateLimiter.State} {r : Login} {uid : ℕ} {name : Text} :
    (handleAuth coll kdf sha256 users rate r).1 = .login uid name ↔
      RateLimiter.allows sha256 rate (r.call false) = true ∧ r.answered = true ∧
        ∃ u, findForAuth coll r.login r.choice users = some u ∧ u.id = uid ∧ u.username = name ∧
          verify kdf u.passwordHash (jget r.password 128) = .right := by
  rw [handleAuth]
  cases hallow : RateLimiter.allows sha256 rate (r.call false) with
  | false => simp
  | true =>
    cases hanswer : r.answered with
    | false => simp
    | true =>
      cases hfind : findForAuth coll r.login r.choice users with
      | none => simp
      | some u => cases hverify : verify kdf u.passwordHash (jget r.password 128) <;> simp [hverify]

theorem mem_of_findForAuth {users : List User} {login : Text} {choice : ℕ} {u : User}
    (h : findForAuth coll login choice users = some u) : u ∈ users := by
  rw [findForAuth] at h
  have hmem := List.mem_of_getElem? h
  split at hmem
  · exact List.mem_of_mem_filter hmem
  · exact List.mem_of_mem_filter hmem

/-- **Which logins are accepted.** After any requests, a login is accepted as an account exactly when the
table of failed logins allows it, the database is there, the row that is found is the account's, and the
password gives under the account's salt what the password gives that it was last given. -/
theorem login_accepted_iff (es : List (Event K)) (r : Login) (uid : ℕ) (name : Text) :
    let s := es.foldl (step coll kdf sha256) (start K)
    (handleAuth coll kdf sha256 s.users s.rate r).1 = .login uid name ↔
      RateLimiter.allows sha256 s.rate (r.call false) = true ∧ r.answered = true ∧
        ∃ u, findForAuth coll r.login r.choice s.users = some u ∧ u.id = uid ∧ u.username = name ∧
          ∃ (salt : Salt) (derived : Derived), u.passwordHash = storedHash salt derived ∧
            kdf (s.passwords uid) salt.1 = some derived ∧
            kdf (jget r.password 128) salt.1 = some derived := by
  intro s
  have h : Inv coll kdf s := inv_run es
  rw [handleAuth_login]
  refine and_congr_right fun _ => and_congr_right fun _ => exists_congr fun u =>
    and_congr_right fun hfind => ?_
  obtain ⟨salt, derived, hhash, hlast⟩ := (h.rows u (mem_of_findForAuth hfind)).hashed
  constructor
  · rintro ⟨rfl, hname, hright⟩
    rw [hhash, verify_storedHash] at hright
    exact ⟨rfl, hname, salt, derived, hhash, hlast, hright⟩
  · rintro ⟨hid, hname, salt', derived', hhash', -, hright⟩
    refine ⟨hid, hname, ?_⟩
    rw [hhash', verify_storedHash]
    exact hright

/-! ### Reaching an account -/

/-- The collation tells a name from an address. -/
def Distinguishes (coll : Text → Text) : Prop :=
  ∀ name email, domainValidateUsername name = true → domainValidateEmail email = true → email ≠ [] →
    coll name ≠ coll email

theorem filter_eq_singleton {l : List User} {p : User → Bool} {u : User} (hl : l.Nodup) (hu : u ∈ l)
    (h : ∀ v ∈ l, p v = true ↔ v = u) : l.filter p = [u] := by
  have hsame : l.filter p = l.filter (· == u) := by
    refine List.filter_congr fun v hv => ?_
    rw [Bool.eq_iff_iff, h v hv, beq_iff_eq]
  rw [hsame, List.filter_beq, List.count_eq_one_of_mem hl hu]
  rfl

omit [DecidableEq K] in
/-- An address that no other account has, or a name, finds its row. -/
theorem Inv.findForAuth_email {s : State K} (h : Inv coll kdf s) {u : User} (hu : u ∈ s.users) {e : Text}
    (he : u.email = some e) (hother : ∀ v ∈ s.users, v ≠ u → v.email.map coll ≠ some (coll e))
    (choice : ℕ) : findForAuth coll e choice s.users = some u := by
  have hbest : s.users.filter (fun v => v.email.map coll = some (coll e)) = [u] := by
    refine filter_eq_singleton h.ids.of_map hu fun v hv => ?_
    rw [decide_eq_true_iff]
    constructor
    · exact fun hsame => by_contra fun hne => hother v hv hne hsame
    · rintro rfl
      rw [he, Option.map_some]
  simp only [findForAuth, hbest]
  simp [Nat.mod_one]

omit [DecidableEq K] in
theorem Inv.findForAuth_username {s : State K} (h : Inv coll kdf s) (hcoll : Distinguishes coll) {u : User}
    (hu : u ∈ s.users) (choice : ℕ) : findForAuth coll u.username choice s.users = some u := by
  have hnone : s.users.filter (fun v => v.email.map coll = some (coll u.username)) = [] := by
    refine List.filter_eq_nil_iff.mpr fun v hv hsame => ?_
    obtain ⟨e, he, hcolls⟩ := Option.map_eq_some_iff.mp (of_decide_eq_true hsame)
    obtain ⟨hne, hvalid, -⟩ := (h.rows v hv).email e he
    exact hcoll _ _ (h.rows u hu).username.1 hvalid hne hcolls.symm
  have hbest : s.users.filter (fun v => coll v.username = coll u.username) = [u] := by
    refine filter_eq_singleton h.ids.of_map hu fun v hv => ?_
    rw [decide_eq_true_iff]
    exact ⟨fun hsame => List.inj_on_of_nodup_map h.names hv hu hsame, fun hvu => hvu ▸ rfl⟩
  simp only [findForAuth, hnone, hbest]
  simp [Nat.mod_one]

omit [DecidableEq K] in
/-- The last password of the account that is found is accepted. -/
theorem Inv.accepts {s : State K} (h : Inv coll kdf s) {r : Login} {u : User}
    (hallow : RateLimiter.allows sha256 s.rate (r.call false) = true) (hanswer : r.answered = true)
    (hfind : findForAuth coll r.login r.choice s.users = some u)
    (hpassword : jget r.password 128 = s.passwords u.id) :
    (handleAuth coll kdf sha256 s.users s.rate r).1 = .login u.id u.username := by
  obtain ⟨salt, derived, hhash, hlast⟩ := (h.rows u (mem_of_findForAuth hfind)).hashed
  refine handleAuth_login.mpr ⟨hallow, hanswer, u, hfind, rfl, rfl, ?_⟩
  rw [hhash, verify_storedHash, hpassword]
  exact hlast

/-- **A name reaches its account.** After any requests, the name of an account and the password it was
last given are a login to it, whichever row the database takes, if the table of failed logins allows
one. -/
theorem reached_by_username (hcoll : Distinguishes coll) (es : List (Event K)) (r : Login) :
    let s := es.foldl (step coll kdf sha256) (start K)
    ∀ u ∈ s.users, r.login = u.username → jget r.password 128 = s.passwords u.id → r.answered = true →
      RateLimiter.allows sha256 s.rate (r.call false) = true →
        (handleAuth coll kdf sha256 s.users s.rate r).1 = .login u.id u.username := by
  intro s u hu hlogin hpassword hanswer hallow
  have h : Inv coll kdf s := inv_run es
  exact h.accepts hallow hanswer (hlogin ▸ h.findForAuth_username hcoll hu r.choice) hpassword

/-- A collation that does not see the case of a letter. -/
def lowerCase (text : Text) : Text := text.map fun c => if 0x41 ≤ c ∧ c ≤ 0x5a then c + 0x20 else c

theorem lowerCase_distinguishes : Distinguishes lowerCase := by
  intro name email hname hemail hne hsame
  have hat : octet '@' ∈ lowerCase email := by
    have hmem : octet '@' ∈ email := by
      rw [domainValidateEmail, decide_eq_true_iff] at hemail
      exact (hemail.resolve_left hne).2.1
    exact List.mem_map.mpr ⟨octet '@', hmem, by decide⟩
  rw [← hsame] at hat
  obtain ⟨c, hc, hcat⟩ := List.mem_map.mp hat
  have hword : wordOctet c = true := by
    rw [domainValidateUsername, decide_eq_true_iff] at hname
    exact List.all_eq_true.mp hname.2.2 c hc
  -- a capital letter stays below 0x7b, and no other word octet is an `@`
  split at hcat
  next hcapital =>
    have hval := congrArg UInt8.toNat hcat
    rw [UInt8.toNat_add] at hval
    have hlow : 0x41 ≤ c.toNat := UInt8.le_iff_toNat_le.mp hcapital.1
    have hhigh : c.toNat ≤ 0x5a := UInt8.le_iff_toNat_le.mp hcapital.2
    simp [octet] at hval
    omega
  next =>
    subst hcat
    exact absurd hword (by decide)

/-- A derivation for examples: it keeps the first octets of the password. -/
def firstOctets : Kdf := fun password _ =>
  some ⟨(password ++ List.replicate 32 0).take 32, by simp [derivedLen]⟩

/-- A registration for examples. -/
def registration (name email : String) (letter : UInt8) : Registration :=
  ⟨ascii name, ascii email, List.replicate 64 letter, some ⟨List.replicate 16 0, rfl⟩, [.done]⟩

/-- Alice registers without an address, and logs in by her name. -/
theorem reached_by_username_alice :
    let s := [Event.register (registration "alice" "" 0x61)].foldl
      (step lowerCase firstOctets (fun d => List.replicate 32 (d.getD 0 0))) (start Unit)
    (handleAuth lowerCase firstOctets (fun d => List.replicate 32 (d.getD 0 0)) s.users s.rate
      ⟨[], ascii "alice", List.replicate 64 0x61, ascii "::1", 5, true, 3⟩).1 = .login 1 (ascii "alice") :=
  @reached_by_username lowerCase firstOctets (fun d => List.replicate 32 (d.getD 0 0)) _ _
    lowerCase_distinguishes
    [Event.register (registration "alice" "" 0x61)]
    ⟨[], ascii "alice", List.replicate 64 0x61, ascii "::1", 5, true, 3⟩
    ⟨1, ascii "alice", none, storedHash ⟨List.replicate 16 0, rfl⟩ ⟨List.replicate 32 0x61, rfl⟩⟩
    (by decide +kernel) (by decide +kernel) (by decide +kernel) rfl (by decide +kernel)

/-- **An address need not.** The address of an account and the password it was last given are a login to it
whichever row the database takes, exactly when no other account has the address. Nothing keeps a second
account from registering it. -/
theorem reached_by_email_iff (es : List (Event K)) (password ip : Text) (now : ℤ) :
    let s := es.foldl (step coll kdf sha256) (start K)
    ∀ u ∈ s.users, ∀ e, u.email = some e → jget password 128 = s.passwords u.id →
      RateLimiter.allows sha256 s.rate ⟨e, ip, false, now⟩ = true →
        ((∀ choice, (handleAuth coll kdf sha256 s.users s.rate ⟨e, [], password, ip, now, true, choice⟩).1 =
            .login u.id u.username) ↔
          ∀ v ∈ s.users, v ≠ u → v.email.map coll ≠ some (coll e)) := by
  intro s u hu e he hpassword hallow
  have h : Inv coll kdf s := inv_run es
  obtain ⟨hne, -, hkept⟩ := (h.rows u hu).email e he
  have hlogin : ∀ choice, (Login.mk e [] password ip now true choice).login = e := by
    intro choice
    rw [Login.login, hkept, if_pos hne]
  have hcall : ∀ choice, RateLimiter.allows sha256 s.rate
      ((Login.mk e [] password ip now true choice).call false) = true := by
    intro choice
    rw [Login.call, hlogin choice]
    exact hallow
  constructor
  · intro hreach v hv hvu hsame
    -- the database may take the row of the other account
    obtain ⟨i, hi, hiv⟩ := List.getElem_of_mem
      (List.mem_filter.mpr ⟨hv, decide_eq_true hsame⟩ :
        v ∈ s.users.filter fun v => v.email.map coll = some (coll e))
    obtain ⟨-, -, w, hfind, hid, -⟩ := handleAuth_login.mp (hreach i)
    rw [hlogin, findForAuth, if_neg (List.ne_nil_of_length_pos (Nat.zero_lt_of_lt hi)),
      Nat.mod_eq_of_lt hi, List.getElem?_eq_getElem hi, hiv] at hfind
    obtain rfl := Option.some.inj hfind
    exact hvu (List.inj_on_of_nodup_map h.ids hv hu hid)
  · intro hother choice
    refine h.accepts (hcall choice) rfl ?_ hpassword
    rw [hlogin]
    exact h.findForAuth_email hu he hother choice

/-- Alice and Mallory register with one address: when the database takes Mallory's row, Alice's password
is no login. -/
theorem reached_by_email_two :
    let sha256 : Py.Bytes → Py.Bytes := fun d => List.replicate 32 (d.getD 0 0)
    let s := [Event.register (registration "alice" "a@b.c" 0x61),
      .register (registration "mallory" "A@b.c" 0x62)].foldl (step lowerCase firstOctets sha256) (start Unit)
    ¬ ∀ choice, (handleAuth lowerCase firstOctets sha256 s.users s.rate
        ⟨ascii "a@b.c", [], List.replicate 64 0x61, ascii "::1", 5, true, choice⟩).1 =
      .login 1 (ascii "alice") := by
  intro sha256 s hreach
  have hiff := @reached_by_email_iff lowerCase firstOctets sha256 _ _
    [Event.register (registration "alice" "a@b.c" 0x61),
      (Event.register (registration "mallory" "A@b.c" 0x62) : Event Unit)]
    (List.replicate 64 0x61) (ascii "::1") 5
    ⟨1, ascii "alice", some (ascii "a@b.c"),
      storedHash ⟨List.replicate 16 0, rfl⟩ ⟨List.replicate 32 0x61, rfl⟩⟩
    (by decide +kernel) (ascii "a@b.c") rfl (by decide +kernel) (by decide +kernel)
  exact hiff.mp hreach
    ⟨2, ascii "mallory", some (ascii "A@b.c"),
      storedHash ⟨List.replicate 16 0, rfl⟩ ⟨List.replicate 32 0x62, rfl⟩⟩
    (by decide +kernel) (by decide +kernel) (by decide +kernel)

end SecChat.Accounts
