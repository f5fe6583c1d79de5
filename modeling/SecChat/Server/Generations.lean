import SecChat.Protocol.PqxdhAgreement
import SecChat.Server.OneTimeUse

/-!
# Generations of prekeys

An upload replaces the signed prekeys of a user and drops the older one-time keys with separate
statements, and `get_pqxdh_bundle` reads the signed prekeys and the one-time keys with separate
statements.  In between, only the window of ids after the id of the signed prekey tells the generations
apart, and ids are clock readings in milliseconds.

* `Apart`: two uploads that the windows tell apart;
* `Calm`: while a request is under way, another one of the same user takes a step only if the uploads
  among the two are apart from every other upload;
* `one_generation`: in a calm run every bundle that is served comes from one upload;
* `mixed_generations`: two uploads one millisecond apart, and a bundle made of both.
-/

namespace SecChat.PrekeyStore

open Py

/-- The two kinds of one-time keys. -/
inductive Kind
  | curve
  | pq

namespace Upload

/-- The id of the signed prekey of a kind, as stored. -/
def spkId (u : Upload) : Kind → ℤ
  | .curve => jsonInt u.curveSpkId
  | .pq => jsonInt u.pqSpkId

/-- The ids of the one-time keys of a kind, as stored. -/
def ids (u : Upload) : Kind → List ℤ
  | .curve => u.curveItems.map Prod.fst
  | .pq => u.pqItems.map Prod.fst

end Upload

/-- No one-time key of one upload is in the window of the other. -/
def Apart (u v : Upload) : Prop :=
  ∀ T, (∀ k ∈ v.ids T, ¬ InWindow (u.spkId T) k) ∧ ∀ k ∈ u.ids T, ¬ InWindow (v.spkId T) k

theorem Apart.symm {u v : Upload} (h : Apart u v) : Apart v u := fun T => (h T).symm

/-- Request `n` is the upload `u` of a user. -/
def Uploaded (σ : Server) (n : ℕ) (userId : ℤ) (u : Upload) : Prop :=
  ∃ todo, σ.procs n = some (.upload userId u todo)

/-- The user whose prekeys a request is about. -/
def Proc.userId : Proc → ℤ
  | .upload userId .. => userId
  | .get userId .. => userId
  | .got userId _ => userId

/-- A request with statements left that write prekeys or select one-time keys. -/
def Proc.busy : Proc → Bool
  | .upload _ _ todo => !todo.isEmpty
  | .get _ .selectCurve _ => true
  | .get _ (.deleteCurve _) _ => true
  | .get _ .selectPq _ => true
  | _ => false

/-- The number of the request that an event belongs to. -/
def Event.num : Event → ℕ
  | .start n _ => n
  | .exec n => n

/-- The user of the request that an event belongs to. -/
def Event.userId (σ : Server) : Event → Option ℤ
  | .start _ (.upload userId _) => some userId
  | .start _ (.get userId) => some userId
  | .exec n => (σ.procs n).map Proc.userId

/-- Request `n` is an upload, or becomes one with the event. -/
def Known (σ : Server) (e : Event) (n : ℕ) (userId : ℤ) (u : Upload) : Prop :=
  Uploaded σ n userId u ∨ (e = .start n (.upload userId u) ∧ u.valid = true)

/-- If request `n` is an upload, it is apart from every other upload of its user. -/
def Clear (σ : Server) (e : Event) (n : ℕ) (userId : ℤ) : Prop :=
  ∀ u, Known σ e n userId u → ∀ k w, k ≠ n → Known σ e k userId w → Apart u w

/-- While a request is under way, another one of the same user takes a step only if the uploads among
the two are apart from every other upload of the user. -/
def Calm (σ : Server) (e : Event) : Prop :=
  ∀ m q, σ.procs m = some q → q.busy = true → m ≠ e.num → e.userId σ = some q.userId →
    Clear σ e m q.userId ∧ Clear σ e e.num q.userId

/-! ### Rows without their keys -/

/-- What generations are about: user, key id and upload of a row. -/
structure Entry where
  userId : ℤ
  keyId : ℤ
  origin : ℕ

def Row.entry {κ : Type} (r : Row κ) : Entry := ⟨r.userId, r.keyId, r.origin⟩

/-- The rows of a kind. -/
def entries (db : Db) : Kind → List Entry
  | .curve => db.curve.rows.map Row.entry
  | .pq => db.pq.rows.map Row.entry

/-- The statement that drops the one-time keys of a user. -/
def deleteOf (userId : ℤ) : Kind → Stmt
  | .curve => .deleteCurve userId
  | .pq => .deletePq userId

/-- A statement that inserts a row. -/
def Inserts (T : Kind) (x : Entry) (s : Stmt) : Prop :=
  match T with
  | .curve => ∃ key, s = .insertCurve x.userId x.keyId key x.origin
  | .pq => ∃ key, s = .insertPq x.userId x.keyId key x.origin

/-- A row after a statement was there before and is not dropped, or is inserted by it. -/
theorem mem_entries_exec {T : Kind} {x : Entry} {s : Stmt} {db : Db}
    (h : x ∈ entries (s.exec db) T) :
    (x ∈ entries db T ∧ s ≠ deleteOf x.userId T) ∨ Inserts T x s := by
  cases T with
  | curve =>
    obtain ⟨r, hr, rfl⟩ := List.mem_map.mp h
    cases s with
    | insertCurve userId keyId key origin =>
      rcases mem_rows_insertIgnore hr with hr | rfl
      · exact .inl ⟨List.mem_map_of_mem hr, Stmt.noConfusion⟩
      · exact .inr ⟨key, rfl⟩
    | deleteCurve userId =>
      obtain ⟨hr, hne⟩ := mem_rows_deleteUser.mp hr
      refine .inl ⟨List.mem_map_of_mem hr, fun he => ?_⟩
      exact hne (Stmt.deleteCurve.inj he).symm
    | _ => exact .inl ⟨List.mem_map_of_mem hr, Stmt.noConfusion⟩
  | pq =>
    obtain ⟨r, hr, rfl⟩ := List.mem_map.mp h
    cases s with
    | insertPq userId keyId key origin =>
      rcases mem_rows_insertIgnore hr with hr | rfl
      · exact .inl ⟨List.mem_map_of_mem hr, Stmt.noConfusion⟩
      · exact .inr ⟨key, rfl⟩
    | deletePq userId =>
      obtain ⟨hr, hne⟩ := mem_rows_deleteUser.mp hr
      refine .inl ⟨List.mem_map_of_mem hr, fun he => ?_⟩
      exact hne (Stmt.deletePq.inj he).symm
    | _ => exact .inl ⟨List.mem_map_of_mem hr, Stmt.noConfusion⟩

/-- A request for a bundle only removes rows. -/
theorem rows_getStep (db : Db) (userId : ℤ) (out : PqxdhBundleRecord) (stage : GetStage) :
    (∀ r ∈ (getStep db userId out stage).1.curve.rows, r ∈ db.curve.rows) ∧
    ∀ r ∈ (getStep db userId out stage).1.pq.rows, r ∈ db.pq.rows := by
  cases stage with
  | selectCurve =>
    unfold getStep
    dsimp only
    split <;> exact ⟨fun _ h => h, fun _ h => h⟩
  | deleteCurve k => exact ⟨fun _ h => mem_rows_deleteId h, fun _ h => h⟩
  | selectPq =>
    unfold getStep
    dsimp only
    split <;> exact ⟨fun _ h => h, fun _ h => h⟩
  | deletePq k => exact ⟨fun _ h => h, fun _ h => mem_rows_deleteId h⟩
  | countCurve => exact ⟨fun _ h => h, fun _ h => h⟩
  | countPq => exact ⟨fun _ h => h, fun _ h => h⟩

theorem mem_entries_getStep {T : Kind} {x : Entry} {db : Db} {userId : ℤ} {stage : GetStage}
    {out : PqxdhBundleRecord} (h : x ∈ entries (getStep db userId out stage).1 T) :
    x ∈ entries db T := by
  have hrows := rows_getStep db userId out stage
  cases T with
  | curve =>
    obtain ⟨r, hr, rfl⟩ := List.mem_map.mp h
    exact List.mem_map_of_mem (hrows.1 r hr)
  | pq =>
    obtain ⟨r, hr, rfl⟩ := List.mem_map.mp h
    exact List.mem_map_of_mem (hrows.2 r hr)

/-! ### What an event changes -/

section Steps

variable {σ σ' : Server} {e : Event}

/-- The cases of a step. -/
inductive Kinds (σ : Server) : Event → Server → Prop
  /-- A request that is refused. -/
  | refused (e : Event) : Kinds σ e σ
  /-- The first statement of an upload. -/
  | upload {n : ℕ} {userId : ℤ} {u : Upload} (hn : σ.procs n = none) (hu : u.valid = true) :
      Kinds σ (.start n (.upload userId u))
        ⟨(Stmt.upsertBundle userId (u.bundleRow n)).exec σ.db,
          Function.update σ.procs n (some (.upload userId u (u.statements userId n)))⟩
  /-- A request for a bundle that is not there. -/
  | missing {n : ℕ} {userId : ℤ} (hn : σ.procs n = none) :
      Kinds σ (.start n (.get userId))
        ⟨σ.db, Function.update σ.procs n (some (.got userId none))⟩
  /-- The first statement of a request for a bundle. -/
  | get {n : ℕ} {userId : ℤ} {b : BundleRow} (hn : σ.procs n = none)
      (hb : σ.db.bundles userId = some b) :
      Kinds σ (.start n (.get userId))
        ⟨σ.db, Function.update σ.procs n (some (.get userId .selectCurve (.ofBundle b)))⟩
  /-- A further statement of an upload. -/
  | stmt {n : ℕ} {userId : ℤ} {u : Upload} {s : Stmt} {todo : List Stmt}
      (hn : σ.procs n = some (.upload userId u (s :: todo))) :
      Kinds σ (.exec n) ⟨s.exec σ.db, Function.update σ.procs n (some (.upload userId u todo))⟩
  /-- A further statement of a request for a bundle. -/
  | next {n : ℕ} {userId : ℤ} {stage : GetStage} {out : PqxdhBundleRecord}
      (hn : σ.procs n = some (.get userId stage out)) :
      Kinds σ (.exec n) ⟨(getStep σ.db userId out stage).1,
        Function.update σ.procs n (some (getStep σ.db userId out stage).2)⟩

theorem kinds_of_step (h : step σ e = some σ') : Kinds σ e σ' := by
  have hsame : ∀ n, σ.procs n = none → (⟨σ.db, Function.update σ.procs n none⟩ : Server) = σ := by
    intro n hn
    rw [← hn, Function.update_eq_self]
  rcases step_eq_some h with ⟨n, r, rfl, hn, rfl⟩ | ⟨n, userId, u, s, todo, rfl, hn, rfl⟩ |
    ⟨n, userId, stage, out, rfl, hn, rfl⟩
  · cases r with
    | upload userId u =>
      unfold startStep
      dsimp only
      split
      · next hu => exact .upload hn hu
      · dsimp only
        rw [hsame n hn]
        exact .refused _
    | get userId =>
      unfold startStep
      dsimp only
      split
      · dsimp only
        rw [hsame n hn]
        exact .refused _
      · split
        · exact .missing hn
        · next b hb => exact .get hn hb
  · exact .stmt hn
  · exact .next hn

theorem procs_update_self (db : Db) (procs : ℕ → Option Proc) (n : ℕ) (p : Option Proc) :
    (⟨db, Function.update procs n p⟩ : Server).procs n = p := Function.update_self _ _ _

theorem procs_update_of_ne {db : Db} {procs : ℕ → Option Proc} {n m : ℕ} {p : Option Proc}
    (h : m ≠ n) : (⟨db, Function.update procs n p⟩ : Server).procs m = procs m :=
  Function.update_of_ne h _ _

/-- An event changes its own request only. -/
theorem Kinds.procs_of_ne (h : Kinds σ e σ') {m : ℕ} (hm : m ≠ e.num) : σ'.procs m = σ.procs m := by
  cases h with
  | refused => rfl
  | _ => exact Function.update_of_ne hm _ _

theorem getStep_userId (db : Db) (userId : ℤ) (out : PqxdhBundleRecord) (stage : GetStage) :
    (getStep db userId out stage).2.userId = userId := by
  cases stage with
  | selectCurve =>
    unfold getStep
    dsimp only
    split <;> rfl
  | selectPq =>
    unfold getStep
    dsimp only
    split <;> rfl
  | _ => rfl

/-- The request of an event belongs to the user of the event. -/
theorem Kinds.userId (h : Kinds σ e σ') {q : Proc} (hq : σ'.procs e.num = some q) :
    σ' = σ ∨ e.userId σ = some q.userId := by
  cases h with
  | refused => exact .inl rfl
  | upload hn hu =>
    rw [Event.num, procs_update_self] at hq
    rw [← Option.some.inj hq]
    exact .inr rfl
  | missing hn =>
    rw [Event.num, procs_update_self] at hq
    rw [← Option.some.inj hq]
    exact .inr rfl
  | get hn hb =>
    rw [Event.num, procs_update_self] at hq
    rw [← Option.some.inj hq]
    exact .inr rfl
  | stmt hn =>
    rw [Event.num, procs_update_self] at hq
    rw [← Option.some.inj hq, Event.userId, hn]
    exact .inr rfl
  | next hn =>
    rw [Event.num, procs_update_self] at hq
    rw [← Option.some.inj hq, Event.userId, hn, getStep_userId]
    exact .inr rfl

/-- An upload stays an upload. -/
theorem Kinds.uploaded (h : Kinds σ e σ') {k : ℕ} {userId : ℤ} {w : Upload}
    (hk : Uploaded σ k userId w) : Uploaded σ' k userId w := by
  obtain ⟨todo, hk⟩ := hk
  by_cases he : k = e.num
  · subst he
    cases h with
    | refused => exact ⟨todo, hk⟩
    | upload hn hu =>
      rw [Event.num, hn] at hk
      cases hk
    | missing hn =>
      rw [Event.num, hn] at hk
      cases hk
    | get hn hb =>
      rw [Event.num, hn] at hk
      cases hk
    | stmt hn =>
      rw [Event.num, hn] at hk
      cases hk
      exact ⟨_, Function.update_self _ _ _⟩
    | next hn =>
      rw [Event.num, hn] at hk
      cases hk
  · exact ⟨todo, (h.procs_of_ne he).trans hk⟩

/-- An upload was one before, or begins with the event. -/
theorem Kinds.known (h : Kinds σ e σ') {k : ℕ} {userId : ℤ} {w : Upload}
    (hk : Uploaded σ' k userId w) : Known σ e k userId w := by
  obtain ⟨todo, hk⟩ := hk
  by_cases he : k = e.num
  · subst he
    cases h with
    | refused => exact .inl ⟨todo, hk⟩
    | upload hn hu =>
      rw [Event.num, procs_update_self] at hk
      cases hk
      exact .inr ⟨rfl, hu⟩
    | missing hn =>
      rw [Event.num, procs_update_self] at hk
      cases hk
    | get hn hb =>
      rw [Event.num, procs_update_self] at hk
      cases hk
    | stmt hn =>
      rw [Event.num, procs_update_self] at hk
      cases hk
      exact .inl ⟨_, hn⟩
    | @next n userId' stage out hn =>
      rw [Event.num, procs_update_self] at hk
      cases stage <;> simp only [getStep] at hk <;> (try split at hk) <;> cases hk
  · exact .inl ⟨todo, (h.procs_of_ne he).symm.trans hk⟩

theorem uploaded_unique {n : ℕ} {userId userId' : ℤ} {u u' : Upload} (h : Uploaded σ n userId u)
    (h' : Uploaded σ n userId' u') : userId = userId' ∧ u = u' := by
  obtain ⟨todo, h⟩ := h
  obtain ⟨todo', h'⟩ := h'
  rw [h] at h'
  cases h'
  exact ⟨rfl, rfl⟩

end Steps

/-! ### The invariant -/

/-- A record with the signed prekeys of an upload, and with one-time keys of it, if any. -/
structure FromUpload (u : Upload) (out : PqxdhBundleRecord) : Prop where
  identityPk : out.identityPk = strncpy 256 u.identityPk
  curveSigned : out.curveSpkId = jsonInt u.curveSpkId ∧ out.curveSpk = strncpy 256 u.curveSpk ∧
    out.curveSpkSig = strncpy 256 u.curveSpkSig
  pqSigned : out.pqSpkId = jsonInt u.pqSpkId ∧ out.pqKemAlg = strncpy 32 u.pqKemAlg ∧
    out.pqSpk = strncpy 4096 u.pqSpk ∧ out.pqSpkSig = strncpy 256 u.pqSpkSig
  curve : (out.curveOtkId = -1 ∧ out.curveOtk = [] ∧ out.curveOtkSig = []) ∨
    ∃ k ∈ u.curveItems, out.curveOtkId = k.1 ∧ out.curveOtk = strncpy 256 k.2.publicKey ∧
      out.curveOtkSig = strncpy 256 k.2.signature
  pq : (out.pqOtkId = -1 ∧ out.pqOtkAlg = [] ∧ out.pqOtk = [] ∧ out.pqOtkSig = []) ∨
    ∃ k ∈ u.pqItems, out.pqOtkId = k.1 ∧ out.pqOtkAlg = strncpy 32 k.2.kemAlg ∧
      out.pqOtk = strncpy 4096 k.2.publicKey ∧ out.pqOtkSig = strncpy 256 k.2.signature

/-- The id of the signed prekey of a kind. -/
def PqxdhBundleRecord.spkId (out : PqxdhBundleRecord) : Kind → ℤ
  | .curve => out.curveSpkId
  | .pq => out.pqSpkId

def BundleRow.spkId (b : BundleRow) : Kind → ℤ
  | .curve => b.curveSpkId
  | .pq => b.pqSpkId

theorem FromUpload.spkId {u : Upload} {out : PqxdhBundleRecord} (h : FromUpload u out) (T : Kind) :
    out.spkId T = u.spkId T := by
  cases T with
  | curve => exact h.curveSigned.1
  | pq => exact h.pqSigned.1

theorem spkId_bundleRow (u : Upload) (n : ℕ) (T : Kind) : (u.bundleRow n).spkId T = u.spkId T := by
  cases T <;> rfl

/-- Where everything comes from. -/
structure Sourced (σ : Server) : Prop where
  todo : ∀ n userId u todo, σ.procs n = some (.upload userId u todo) → todo <:+ u.statements userId n
  bundle : ∀ userId b, σ.db.bundles userId = some b →
    ∃ u, Uploaded σ b.origin userId u ∧ b = u.bundleRow b.origin
  curve : ∀ r ∈ σ.db.curve.rows, ∃ u, Uploaded σ r.origin r.userId u ∧ (r.keyId, r.key) ∈ u.curveItems
  pq : ∀ r ∈ σ.db.pq.rows, ∃ u, Uploaded σ r.origin r.userId u ∧ (r.keyId, r.key) ∈ u.pqItems

theorem Sourced.entry {σ : Server} (h : Sourced σ) {T : Kind} {x : Entry} (hx : x ∈ entries σ.db T) :
    ∃ u, Uploaded σ x.origin x.userId u ∧ x.keyId ∈ u.ids T := by
  cases T with
  | curve =>
    obtain ⟨r, hr, rfl⟩ := List.mem_map.mp hx
    obtain ⟨u, hu, hk⟩ := h.curve r hr
    exact ⟨u, hu, List.mem_map_of_mem (f := Prod.fst) hk⟩
  | pq =>
    obtain ⟨r, hr, rfl⟩ := List.mem_map.mp hx
    obtain ⟨u, hu, hk⟩ := h.pq r hr
    exact ⟨u, hu, List.mem_map_of_mem (f := Prod.fst) hk⟩

/-- The statements after the first one drop or insert one-time keys. -/
theorem mem_statements {u : Upload} {userId : ℤ} {n : ℕ} {s : Stmt} (h : s ∈ u.statements userId n) :
    s = .deleteCurve userId ∨ s = .deletePq userId ∨
    (∃ k ∈ u.curveItems, s = .insertCurve userId k.1 k.2 n) ∨
    ∃ k ∈ u.pqItems, s = .insertPq userId k.1 k.2 n := by
  unfold Upload.statements at h
  rcases List.mem_cons.mp h with h | h
  · exact .inl h
  rcases List.mem_cons.mp h with h | h
  · exact .inr (.inl h)
  rcases List.mem_append.mp h with h | h
  · obtain ⟨k, hk, rfl⟩ := List.mem_map.mp h
    exact .inr (.inr (.inl ⟨k, hk, rfl⟩))
  · obtain ⟨k, hk, rfl⟩ := List.mem_map.mp h
    exact .inr (.inr (.inr ⟨k, hk, rfl⟩))

/-- A row that a statement of an upload inserts. -/
theorem inserts_of_mem_statements {u : Upload} {userId : ℤ} {n : ℕ} {s : Stmt} {T : Kind} {x : Entry}
    (h : s ∈ u.statements userId n) (hx : Inserts T x s) :
    x.userId = userId ∧ x.origin = n ∧ x.keyId ∈ u.ids T := by
  rcases mem_statements h with rfl | rfl | ⟨k, hk, rfl⟩ | ⟨k, hk, rfl⟩
  · cases T <;> obtain ⟨key, hx⟩ := hx <;> cases hx
  · cases T <;> obtain ⟨key, hx⟩ := hx <;> cases hx
  · cases T with
    | curve =>
      obtain ⟨key, hx⟩ := hx
      injection hx with huser hkey _ horigin
      rw [← hkey]
      exact ⟨huser.symm, horigin.symm, List.mem_map_of_mem (f := Prod.fst) hk⟩
    | pq =>
      obtain ⟨key, hx⟩ := hx
      cases hx
  · cases T with
    | curve =>
      obtain ⟨key, hx⟩ := hx
      cases hx
    | pq =>
      obtain ⟨key, hx⟩ := hx
      injection hx with huser hkey _ horigin
      rw [← hkey]
      exact ⟨huser.symm, horigin.symm, List.mem_map_of_mem (f := Prod.fst) hk⟩

theorem bundles_exec {u : Upload} {userId : ℤ} {n : ℕ} {s : Stmt} (h : s ∈ u.statements userId n)
    (db : Db) : (s.exec db).bundles = db.bundles := by
  rcases mem_statements h with rfl | rfl | ⟨k, -, rfl⟩ | ⟨k, -, rfl⟩ <;> rfl

theorem bundles_getStep (db : Db) (userId : ℤ) (out : PqxdhBundleRecord) (stage : GetStage) :
    (getStep db userId out stage).1.bundles = db.bundles := by
  cases stage with
  | selectCurve =>
    unfold getStep
    dsimp only
    split <;> rfl
  | selectPq =>
    unfold getStep
    dsimp only
    split <;> rfl
  | _ => rfl

/-- The rows after a statement of an upload. -/
theorem Sourced.stmt_curve {σ : Server} (h : Sourced σ) {n : ℕ} {userId : ℤ} {u : Upload} {s : Stmt}
    (hs : s ∈ u.statements userId n) (hu : Uploaded σ n userId u) :
    ∀ r ∈ (s.exec σ.db).curve.rows,
      ∃ u, Uploaded σ r.origin r.userId u ∧ (r.keyId, r.key) ∈ u.curveItems := by
  intro r hr
  rcases mem_statements hs with rfl | rfl | ⟨k, hk, rfl⟩ | ⟨k, -, rfl⟩
  · exact h.curve r (mem_rows_deleteUser.mp hr).1
  · exact h.curve r hr
  · rcases mem_rows_insertIgnore hr with hr | rfl
    · exact h.curve r hr
    · exact ⟨u, hu, hk⟩
  · exact h.curve r hr

theorem Sourced.stmt_pq {σ : Server} (h : Sourced σ) {n : ℕ} {userId : ℤ} {u : Upload} {s : Stmt}
    (hs : s ∈ u.statements userId n) (hu : Uploaded σ n userId u) :
    ∀ r ∈ (s.exec σ.db).pq.rows,
      ∃ u, Uploaded σ r.origin r.userId u ∧ (r.keyId, r.key) ∈ u.pqItems := by
  intro r hr
  rcases mem_statements hs with rfl | rfl | ⟨k, -, rfl⟩ | ⟨k, hk, rfl⟩
  · exact h.pq r hr
  · exact h.pq r (mem_rows_deleteUser.mp hr).1
  · exact h.pq r hr
  · rcases mem_rows_insertIgnore hr with hr | rfl
    · exact h.pq r hr
    · exact ⟨u, hu, hk⟩

/-- **Every event keeps track of where things come from.** -/
theorem Sourced.step {σ σ' : Server} {e : Event} (h : Sourced σ) (hk : Kinds σ e σ') : Sourced σ' := by
  have hup : ∀ {k userId w}, Uploaded σ k userId w → Uploaded σ' k userId w := hk.uploaded
  have htodo : ∀ n userId u todo, n ≠ e.num → σ'.procs n = some (.upload userId u todo) →
      todo <:+ u.statements userId n := by
    intro n userId u todo hn hp
    rw [hk.procs_of_ne hn] at hp
    exact h.todo n userId u todo hp
  have hbundle : ∀ userId b, σ.db.bundles userId = some b →
      ∃ u, Uploaded σ' b.origin userId u ∧ b = u.bundleRow b.origin := by
    intro userId b hb
    obtain ⟨u, hu, hbu⟩ := h.bundle userId b hb
    exact ⟨u, hup hu, hbu⟩
  have hcurve : ∀ r ∈ σ.db.curve.rows,
      ∃ u, Uploaded σ' r.origin r.userId u ∧ (r.keyId, r.key) ∈ u.curveItems := by
    intro r hr
    obtain ⟨u, hu, hru⟩ := h.curve r hr
    exact ⟨u, hup hu, hru⟩
  have hpq : ∀ r ∈ σ.db.pq.rows,
      ∃ u, Uploaded σ' r.origin r.userId u ∧ (r.keyId, r.key) ∈ u.pqItems := by
    intro r hr
    obtain ⟨u, hu, hru⟩ := h.pq r hr
    exact ⟨u, hup hu, hru⟩
  -- the request of the event itself
  have hself : ∀ userId u todo, σ'.procs e.num = some (.upload userId u todo) →
      todo <:+ u.statements userId e.num := by
    intro userId u todo hp
    cases hk with
    | refused => exact h.todo _ _ _ _ hp
    | upload hn hu =>
      rw [Event.num, procs_update_self] at hp
      cases hp
      exact List.suffix_refl _
    | missing hn =>
      rw [Event.num, procs_update_self] at hp
      cases hp
    | get hn hb =>
      rw [Event.num, procs_update_self] at hp
      cases hp
    | stmt hn =>
      rw [Event.num, procs_update_self] at hp
      cases hp
      exact (List.suffix_cons _ _).trans (h.todo _ _ _ _ hn)
    | @next n userId' stage out hn =>
      rw [Event.num, procs_update_self] at hp
      cases stage <;> simp only [getStep] at hp <;> (try split at hp) <;> cases hp
  refine ⟨fun n userId u todo hp => ?_, ?_, ?_, ?_⟩
  · by_cases hn : n = e.num
    · subst hn
      exact hself userId u todo hp
    · exact htodo n userId u todo hn hp
  · intro userId b hb
    cases hk with
    | refused => exact h.bundle userId b hb
    | @upload n userId' u hn hu =>
      by_cases hid : userId = userId'
      · subst hid
        have hb' : Function.update σ.db.bundles userId (some (u.bundleRow n)) userId = some b := hb
        rw [Function.update_self] at hb'
        cases hb'
        exact ⟨u, ⟨_, procs_update_self _ _ _ _⟩, rfl⟩
      · have hb' : Function.update σ.db.bundles userId' (some (u.bundleRow n)) userId = some b := hb
        rw [Function.update_of_ne hid] at hb'
        exact hbundle userId b hb'
    | missing hn => exact hbundle userId b hb
    | get hn hb' => exact hbundle userId b hb
    | stmt hn =>
      have hmem := (h.todo _ _ _ _ hn).subset List.mem_cons_self
      exact hbundle userId b ((congrFun (bundles_exec hmem σ.db) userId).symm.trans hb)
    | next hn => exact hbundle userId b ((congrFun (bundles_getStep _ _ _ _) userId).symm.trans hb)
  · intro r hr
    cases hk with
    | stmt hn =>
      have hmem := (h.todo _ _ _ _ hn).subset List.mem_cons_self
      obtain ⟨u, hu, hru⟩ := h.stmt_curve hmem ⟨_, hn⟩ r hr
      exact ⟨u, hup hu, hru⟩
    | next hn => exact hcurve r ((rows_getStep _ _ _ _).1 r hr)
    | _ => exact hcurve r hr
  · intro r hr
    cases hk with
    | stmt hn =>
      have hmem := (h.todo _ _ _ _ hn).subset List.mem_cons_self
      obtain ⟨u, hu, hru⟩ := h.stmt_pq hmem ⟨_, hn⟩ r hr
      exact ⟨u, hup hu, hru⟩
    | next hn => exact hpq r ((rows_getStep _ _ _ _).2 r hr)
    | _ => exact hpq r hr

/-- The invariant of a calm run. -/
structure GenInv (σ : Server) : Prop extends Sourced σ where
  /-- An upload that is under way together with another request is apart from every other upload. -/
  alone : ∀ n m q userId u todo, σ.procs n = some (.upload userId u todo) → todo ≠ [] → m ≠ n →
    σ.procs m = some q → q.busy = true → q.userId = userId →
    ∀ k w, k ≠ n → Uploaded σ k userId w → Apart u w
  /-- The signed prekeys are those of an upload that is under way, or of one that is apart from it. -/
  newest : ∀ n userId u todo, σ.procs n = some (.upload userId u todo) → todo ≠ [] →
    ∀ b, σ.db.bundles userId = some b → b.origin ≠ n → ∀ w, Uploaded σ b.origin userId w → Apart u w
  /-- A row of another upload in the window of the signed prekeys is about to be dropped. -/
  stale : ∀ T, ∀ x ∈ entries σ.db T, ∀ b, σ.db.bundles x.userId = some b → x.origin ≠ b.origin →
    InWindow (b.spkId T) x.keyId →
    ∃ u todo, σ.procs b.origin = some (.upload x.userId u todo) ∧ deleteOf x.userId T ∈ todo
  /-- A request that is going to select one-time keys finds rows of its own generation only. -/
  reading : ∀ n userId stage out, σ.procs n = some (.get userId stage out) →
    (Proc.get userId stage out).busy = true → ∀ T, ∀ x ∈ entries σ.db T, x.userId = userId →
    InWindow (out.spkId T) x.keyId → x.origin = out.origin
  record : ∀ n userId stage out, σ.procs n = some (.get userId stage out) →
    ∃ u, Uploaded σ out.origin userId u ∧ FromUpload u out
  answer : ∀ n userId out, σ.procs n = some (.got userId (some out)) →
    ∃ u, Uploaded σ out.origin userId u ∧ FromUpload u out

section Preserved

variable {σ σ' : Server} {e : Event}

theorem busy_upload {userId : ℤ} {u : Upload} {todo : List Stmt} (h : todo ≠ []) :
    (Proc.upload userId u todo).busy = true := by
  cases todo with
  | nil => exact absurd rfl h
  | cons s todo => rfl

theorem GenInv.alone_step (h : GenInv σ) (hk : Kinds σ e σ') (hc : Calm σ e) {n m : ℕ} {q : Proc}
    {userId : ℤ} {u : Upload} {todo : List Stmt} (hn : σ'.procs n = some (.upload userId u todo))
    (htodo : todo ≠ []) (hmn : m ≠ n) (hm : σ'.procs m = some q) (hq : q.busy = true)
    (huser : q.userId = userId) {k : ℕ} {w : Upload} (hkn : k ≠ n) (hw : Uploaded σ' k userId w) :
    Apart u w := by
  have hu := hk.known ⟨todo, hn⟩
  have hw' := hk.known hw
  by_cases hen : n = e.num
  · -- the upload itself takes a step
    subst hen
    rcases hk.userId hn with rfl | hev
    · exact h.alone _ m q userId u todo hn htodo hmn hm hq huser k w hkn hw
    · rw [hk.procs_of_ne hmn] at hm
      have hcalm := (hc m q hm hq hmn (by rw [hev, huser]; rfl)).2
      rw [huser] at hcalm
      exact hcalm u hu k w hkn hw'
  · have hn' := hn
    rw [hk.procs_of_ne hen] at hn'
    by_cases hem : m = e.num
    · -- the other request takes a step
      subst hem
      rcases hk.userId hm with rfl | hev
      · exact h.alone n _ q userId u todo hn htodo hmn hm hq huser k w hkn hw
      · exact (hc n _ hn' (busy_upload htodo) hen (by rw [hev, huser]; rfl)).1 u hu k w hkn hw'
    · rw [hk.procs_of_ne hem] at hm
      rcases hw' with hw' | ⟨rfl, -⟩
      · exact h.alone n m q userId u todo hn' htodo hmn hm hq huser k w hkn hw'
      · -- another upload begins
        exact (hc n _ hn' (busy_upload htodo) hen rfl).1 u hu k w hkn (hk.known hw)

theorem GenInv.newest_step (h : GenInv σ) (hk : Kinds σ e σ') (hc : Calm σ e) {n : ℕ} {userId : ℤ}
    {u : Upload} {todo : List Stmt} (hn : σ'.procs n = some (.upload userId u todo)) (htodo : todo ≠ [])
    {b : BundleRow} (hb : σ'.db.bundles userId = some b) (hbn : b.origin ≠ n) {w : Upload}
    (hw : Uploaded σ' b.origin userId w) : Apart u w := by
  -- the case in which the signed prekeys stay
  have hold : σ.db.bundles userId = some b → ∀ todo₀, σ.procs n = some (.upload userId u todo₀) →
      todo₀ ≠ [] → Apart u w := by
    intro hb₀ todo₀ hn₀ htodo₀
    obtain ⟨w', hw', -⟩ := h.bundle userId b hb₀
    obtain ⟨-, rfl⟩ := uploaded_unique hw (hk.uploaded hw')
    exact h.newest n userId u todo₀ hn₀ htodo₀ b hb₀ hbn w hw'
  have hu := hk.known ⟨todo, hn⟩
  have hw' := hk.known hw
  cases hk with
  | refused => exact hold hb todo hn htodo
  | @upload j userId' v hj hv =>
    have hb' : Function.update σ.db.bundles userId' (some (v.bundleRow j)) userId = some b := hb
    by_cases hid : userId = userId'
    · subst hid
      rw [Function.update_self] at hb'
      cases hb'
      have hnj : n ≠ j := fun he => hbn he.symm
      rw [procs_update_of_ne hnj] at hn
      exact (hc n _ hn (busy_upload htodo) hnj rfl).1 u hu j w hnj.symm hw'
    · rw [Function.update_of_ne hid] at hb'
      have hnj : n ≠ j := by
        rintro rfl
        rw [procs_update_self] at hn
        cases hn
        exact hid rfl
      rw [procs_update_of_ne hnj] at hn
      exact hold hb' todo hn htodo
  | @missing j userId' hj =>
    have hnj : n ≠ j := by
      rintro rfl
      rw [procs_update_self] at hn
      cases hn
    rw [procs_update_of_ne hnj] at hn
    exact hold hb todo hn htodo
  | @get j userId' b' hj hb' =>
    have hnj : n ≠ j := by
      rintro rfl
      rw [procs_update_self] at hn
      cases hn
    rw [procs_update_of_ne hnj] at hn
    exact hold hb todo hn htodo
  | @stmt j userId' u' s todo' hj =>
    have hmem := (h.todo _ _ _ _ hj).subset List.mem_cons_self
    have hb₀ := (congrFun (bundles_exec hmem σ.db) userId).symm.trans hb
    by_cases hnj : n = j
    · subst hnj
      rw [procs_update_self] at hn
      cases hn
      exact hold hb₀ _ hj (List.cons_ne_nil _ _)
    · rw [procs_update_of_ne hnj] at hn
      exact hold hb₀ todo hn htodo
  | @next j userId' stage out hj =>
    have hb₀ := (congrFun (bundles_getStep _ _ _ _) userId).symm.trans hb
    have hnj : n ≠ j := by
      rintro rfl
      rw [procs_update_self] at hn
      cases stage <;> simp only [getStep] at hn <;> (try split at hn) <;> cases hn
    rw [procs_update_of_ne hnj] at hn
    exact hold hb₀ todo hn htodo

theorem GenInv.stale_step (h : GenInv σ) (hk : Kinds σ e σ') {T : Kind} {x : Entry}
    (hx : x ∈ entries σ'.db T) {b : BundleRow} (hb : σ'.db.bundles x.userId = some b)
    (hne : x.origin ≠ b.origin) (hwin : InWindow (b.spkId T) x.keyId) :
    ∃ u todo, σ'.procs b.origin = some (.upload x.userId u todo) ∧ deleteOf x.userId T ∈ todo := by
  -- the case in which the row and the signed prekeys stay, and the request is not that of the event
  have hold : x ∈ entries σ.db T → σ.db.bundles x.userId = some b →
      (∀ u todo, σ.procs b.origin = some (.upload x.userId u todo) → b.origin ≠ e.num) →
      ∃ u todo, σ'.procs b.origin = some (.upload x.userId u todo) ∧ deleteOf x.userId T ∈ todo := by
    intro hx₀ hb₀ hnum
    obtain ⟨u, todo, hp, hmem⟩ := h.stale T x hx₀ b hb₀ hne hwin
    exact ⟨u, todo, (hk.procs_of_ne (hnum u todo hp)).trans hp, hmem⟩
  cases hk with
  | refused => exact h.stale T x hx b hb hne hwin
  | @upload n userId v hn hv =>
    by_cases hid : x.userId = userId
    · subst hid
      have hb' : Function.update σ.db.bundles x.userId (some (v.bundleRow n)) x.userId = some b := hb
      rw [Function.update_self] at hb'
      cases hb'
      refine ⟨v, _, procs_update_self _ _ _ _, ?_⟩
      cases T <;> simp [deleteOf, Upload.statements]
    · have hb' : Function.update σ.db.bundles userId (some (v.bundleRow n)) x.userId = some b := hb
      rw [Function.update_of_ne hid] at hb'
      refine hold hx hb' fun u todo hp he => ?_
      rw [he, Event.num, hn] at hp
      cases hp
  | missing hn =>
    refine hold hx hb fun u todo hp he => ?_
    rw [he, Event.num, hn] at hp
    cases hp
  | get hn hb' =>
    refine hold hx hb fun u todo hp he => ?_
    rw [he, Event.num, hn] at hp
    cases hp
  | @stmt n userId u s todo hn =>
    have hmem := (h.todo _ _ _ _ hn).subset List.mem_cons_self
    have hb₀ := (congrFun (bundles_exec hmem σ.db) x.userId).symm.trans hb
    rcases mem_entries_exec hx with ⟨hx₀, hs⟩ | hins
    · obtain ⟨v, todo', hp, hdel⟩ := h.stale T x hx₀ b hb₀ hne hwin
      by_cases hbn : b.origin = n
      · rw [hbn, hn] at hp
        cases hp
        refine ⟨u, todo, ?_, ?_⟩
        · rw [hbn]
          exact procs_update_self _ _ _ _
        · rcases List.mem_cons.mp hdel with hdel | hdel
          · exact absurd hdel.symm hs
          · exact hdel
      · exact ⟨v, todo', (Function.update_of_ne hbn _ _).trans hp, hdel⟩
    · -- a row that is inserted is apart from the signed prekeys
      obtain ⟨huser, horigin, hid⟩ := inserts_of_mem_statements hmem hins
      rw [huser] at hb₀
      rw [horigin] at hne
      obtain ⟨w, hw, hbw⟩ := h.bundle userId b hb₀
      have hapart := h.newest n userId u _ hn (List.cons_ne_nil _ _) b hb₀ hne.symm w hw
      rw [hbw, spkId_bundleRow] at hwin
      exact absurd hwin ((hapart T).2 _ hid)
  | next hn =>
    have hb₀ := (congrFun (bundles_getStep _ _ _ _) x.userId).symm.trans hb
    refine hold (mem_entries_getStep hx) hb₀ fun u todo hp he => ?_
    rw [he, Event.num, hn] at hp
    cases hp

/-- A request keeps its signed prekeys, and was about to select one-time keys before. -/
theorem getStep_get {db : Db} {userId userId' : ℤ} {out out' : PqxdhBundleRecord}
    {stage stage' : GetStage} (h : (getStep db userId out stage).2 = .get userId' stage' out')
    (hbusy : (Proc.get userId' stage' out').busy = true) :
    (Proc.get userId stage out).busy = true ∧ userId' = userId ∧ out'.origin = out.origin ∧
      ∀ T, out'.spkId T = out.spkId T := by
  cases stage with
  | selectCurve =>
    unfold getStep at h
    dsimp only at h
    split at h
    · cases h
      refine ⟨rfl, rfl, rfl, fun T => ?_⟩
      cases T <;> rfl
    · cases h
      exact ⟨rfl, rfl, rfl, fun _ => rfl⟩
  | deleteCurve k =>
    cases h
    exact ⟨rfl, rfl, rfl, fun _ => rfl⟩
  | selectPq =>
    unfold getStep at h
    dsimp only at h
    split at h
    · cases h
      refine ⟨rfl, rfl, rfl, fun T => ?_⟩
      cases T <;> rfl
    · cases h
      exact ⟨rfl, rfl, rfl, fun _ => rfl⟩
  | deletePq k =>
    cases h
    cases hbusy
  | countCurve =>
    cases h
    cases hbusy
  | countPq =>
    unfold getStep at h
    cases h

theorem GenInv.reading_step (h : GenInv σ) (hk : Kinds σ e σ') (hc : Calm σ e) {n : ℕ} {userId : ℤ}
    {stage : GetStage} {out : PqxdhBundleRecord} (hn : σ'.procs n = some (.get userId stage out))
    (hbusy : (Proc.get userId stage out).busy = true) {T : Kind} {x : Entry}
    (hx : x ∈ entries σ'.db T) (huser : x.userId = userId) (hwin : InWindow (out.spkId T) x.keyId) :
    x.origin = out.origin := by
  cases hk with
  | refused => exact h.reading n userId stage out hn hbusy T x hx huser hwin
  | @upload j userId' v hj hv =>
    have hnj : n ≠ j := by
      rintro rfl
      rw [procs_update_self] at hn
      cases hn
    rw [procs_update_of_ne hnj] at hn
    exact h.reading n userId stage out hn hbusy T x hx huser hwin
  | @missing j userId' hj =>
    have hnj : n ≠ j := by
      rintro rfl
      rw [procs_update_self] at hn
      cases hn
    rw [procs_update_of_ne hnj] at hn
    exact h.reading n userId stage out hn hbusy T x hx huser hwin
  | @get j userId' b hj hb =>
    by_cases hnj : n = j
    · subst hnj
      rw [procs_update_self] at hn
      cases hn
      by_contra hne
      -- a foreign row in the window were about to be dropped by an upload under way
      subst huser
      have hwin' : InWindow (b.spkId T) x.keyId := by cases T <;> exact hwin
      obtain ⟨u, todo, hp, hdel⟩ := h.stale T x hx b hb hne hwin'
      have htodo : todo ≠ [] := List.ne_nil_of_mem hdel
      have hbn : b.origin ≠ n := by
        intro he
        rw [he, hj] at hp
        cases hp
      obtain ⟨w, hw, hid⟩ := h.entry hx
      obtain ⟨u', hu', hbu⟩ := h.bundle x.userId b hb
      have hclear := (hc b.origin _ hp (busy_upload htodo) hbn rfl).1
      have hapart := hclear u' (.inl hu') x.origin w hne (.inl hw)
      rw [hbu, spkId_bundleRow] at hwin'
      exact (hapart T).1 _ hid hwin'
    · rw [procs_update_of_ne hnj] at hn
      exact h.reading n userId stage out hn hbusy T x hx huser hwin
  | @stmt j userId' u s todo hj =>
    have hnj : n ≠ j := by
      rintro rfl
      rw [procs_update_self] at hn
      cases hn
    rw [procs_update_of_ne hnj] at hn
    rcases mem_entries_exec hx with ⟨hx₀, -⟩ | hins
    · exact h.reading n userId stage out hn hbusy T x hx₀ huser hwin
    · -- an upload that inserts while another request selects is apart from its generation
      have hmem := (h.todo _ _ _ _ hj).subset List.mem_cons_self
      obtain ⟨huser', horigin, hid⟩ := inserts_of_mem_statements hmem hins
      have hsame : userId' = userId := huser'.symm.trans huser
      subst hsame
      by_contra hne
      rw [horigin] at hne
      obtain ⟨w, hw, hfrom⟩ := h.record n userId' stage out hn
      have hapart := h.alone j n _ userId' u _ hj (List.cons_ne_nil _ _) hnj hn hbusy rfl out.origin w
        (Ne.symm hne) hw
      rw [hfrom.spkId] at hwin
      exact (hapart T).2 _ hid hwin
  | @next j userId' stage' out' hj =>
    by_cases hnj : n = j
    · subst hnj
      rw [procs_update_self] at hn
      obtain ⟨hbusy', rfl, horigin, hspk⟩ := getStep_get (Option.some.inj hn) hbusy
      rw [horigin]
      rw [hspk] at hwin
      exact h.reading n userId stage' out' hj hbusy' T x (mem_entries_getStep hx) huser hwin
    · rw [procs_update_of_ne hnj] at hn
      exact h.reading n userId stage out hn hbusy T x (mem_entries_getStep hx) huser hwin

theorem fromUpload_ofBundle (u : Upload) (n : ℕ) : FromUpload u (.ofBundle (u.bundleRow n)) :=
  ⟨rfl, ⟨rfl, rfl, rfl⟩, ⟨rfl, rfl, rfl, rfl⟩, .inl ⟨rfl, rfl, rfl⟩, .inl ⟨rfl, rfl, rfl, rfl⟩⟩

/-- The record of a request after its next statement. -/
theorem GenInv.record_getStep (h : GenInv σ) {n : ℕ} {userId : ℤ} {stage : GetStage}
    {out : PqxdhBundleRecord} (hn : σ.procs n = some (.get userId stage out)) {q : Proc}
    {out' : PqxdhBundleRecord} (hq : (getStep σ.db userId out stage).2 = q)
    (hout : (∃ stage', q = .get userId stage' out') ∨ q = .got userId (some out')) :
    ∃ u, Uploaded σ out'.origin userId u ∧ FromUpload u out' := by
  obtain ⟨u, hu, hfrom⟩ := h.record n userId stage out hn
  subst hq
  cases stage with
  | selectCurve =>
    unfold getStep at hout
    dsimp only at hout
    split at hout
    · next r hr =>
      obtain ⟨hmem, huser, hwin⟩ := mem_of_selectFirst hr
      have horigin := h.reading n userId _ out hn rfl .curve r.entry (List.mem_map_of_mem hmem) huser hwin
      change r.origin = out.origin at horigin
      obtain ⟨v, hv, hitem⟩ := h.curve r hmem
      rw [horigin, huser] at hv
      obtain ⟨-, rfl⟩ := uploaded_unique hu hv
      rcases hout with ⟨stage', hout⟩ | hout
      · cases hout
        exact ⟨u, hu, hfrom.identityPk, hfrom.curveSigned, hfrom.pqSigned,
          .inr ⟨_, hitem, rfl, rfl, rfl⟩, hfrom.pq⟩
      · cases hout
    · rcases hout with ⟨stage', hout⟩ | hout
      · cases hout
        exact ⟨u, hu, hfrom⟩
      · cases hout
  | deleteCurve k =>
    rcases hout with ⟨stage', hout⟩ | hout
    · cases hout
      exact ⟨u, hu, hfrom⟩
    · cases hout
  | selectPq =>
    unfold getStep at hout
    dsimp only at hout
    split at hout
    · next r hr =>
      obtain ⟨hmem, huser, hwin⟩ := mem_of_selectFirst hr
      have horigin := h.reading n userId _ out hn rfl .pq r.entry (List.mem_map_of_mem hmem) huser hwin
      change r.origin = out.origin at horigin
      obtain ⟨v, hv, hitem⟩ := h.pq r hmem
      rw [horigin, huser] at hv
      obtain ⟨-, rfl⟩ := uploaded_unique hu hv
      rcases hout with ⟨stage', hout⟩ | hout
      · cases hout
        exact ⟨u, hu, hfrom.identityPk, hfrom.curveSigned, hfrom.pqSigned, hfrom.curve,
          .inr ⟨_, hitem, rfl, rfl, rfl, rfl⟩⟩
      · cases hout
    · rcases hout with ⟨stage', hout⟩ | hout
      · cases hout
        exact ⟨u, hu, hfrom⟩
      · cases hout
  | deletePq k =>
    rcases hout with ⟨stage', hout⟩ | hout
    · cases hout
      exact ⟨u, hu, hfrom⟩
    · cases hout
  | countCurve =>
    rcases hout with ⟨stage', hout⟩ | hout
    · cases hout
      exact ⟨u, hu, hfrom.identityPk, hfrom.curveSigned, hfrom.pqSigned, hfrom.curve, hfrom.pq⟩
    · cases hout
  | countPq =>
    unfold getStep at hout
    dsimp only at hout
    rcases hout with ⟨stage', hout⟩ | hout
    · cases hout
    · split at hout
      · cases hout
        exact ⟨u, hu, hfrom.identityPk, hfrom.curveSigned, hfrom.pqSigned, hfrom.curve, hfrom.pq⟩
      · cases hout

/-- The record of a request under way or answered. -/
def Proc.Holds (p : Proc) (userId : ℤ) (out : PqxdhBundleRecord) : Prop :=
  (∃ stage, p = .get userId stage out) ∨ p = .got userId (some out)

theorem GenInv.record_step (h : GenInv σ) (hk : Kinds σ e σ') {n : ℕ} {p : Proc} {userId : ℤ}
    {out : PqxdhBundleRecord} (hn : σ'.procs n = some p) (hp : p.Holds userId out) :
    ∃ u, Uploaded σ' out.origin userId u ∧ FromUpload u out := by
  have hold : σ.procs n = some p → ∃ u, Uploaded σ' out.origin userId u ∧ FromUpload u out := by
    intro hn₀
    obtain ⟨u, hu, hfrom⟩ : ∃ u, Uploaded σ out.origin userId u ∧ FromUpload u out := by
      rcases hp with ⟨stage, rfl⟩ | rfl
      · exact h.record n userId stage out hn₀
      · exact h.answer n userId out hn₀
    exact ⟨u, hk.uploaded hu, hfrom⟩
  by_cases hne : n = e.num
  · subst hne
    have hup : ∀ {k userId w}, Uploaded σ k userId w → Uploaded σ' k userId w := hk.uploaded
    cases hk with
    | refused => exact hold hn
    | upload hj hv =>
      rw [Event.num, procs_update_self] at hn
      cases hn
      rcases hp with ⟨stage, hp⟩ | hp <;> cases hp
    | missing hj =>
      rw [Event.num, procs_update_self] at hn
      cases hn
      rcases hp with ⟨stage, hp⟩ | hp <;> cases hp
    | get hj hb =>
      rw [Event.num, procs_update_self] at hn
      cases hn
      obtain ⟨u, hu, hbu⟩ := h.bundle _ _ hb
      rcases hp with ⟨stage, hp⟩ | hp
      · cases hp
        refine ⟨u, hup hu, ?_⟩
        rw [hbu]
        exact fromUpload_ofBundle u _
      · cases hp
    | stmt hj =>
      rw [Event.num, procs_update_self] at hn
      cases hn
      rcases hp with ⟨stage, hp⟩ | hp <;> cases hp
    | @next j userId' stage out₀ hj =>
      rw [Event.num, procs_update_self] at hn
      have huser : userId' = userId := by
        have hid := getStep_userId σ.db userId' out₀ stage
        rw [Option.some.inj hn] at hid
        rcases hp with ⟨stage', rfl⟩ | rfl <;> exact hid.symm
      subst huser
      obtain ⟨u, hu, hfrom⟩ := h.record_getStep hj (Option.some.inj hn) hp
      exact ⟨u, hup hu, hfrom⟩
  · rw [hk.procs_of_ne hne] at hn
    exact hold hn

/-- **A calm step keeps the invariant.** -/
theorem GenInv.step (h : GenInv σ) (hc : Calm σ e) (hs : PrekeyStore.step σ e = some σ') :
    GenInv σ' := by
  have hk := kinds_of_step hs
  refine ⟨h.toSourced.step hk, ?_, ?_, ?_, ?_, ?_, ?_⟩
  · intro n m q userId u todo hn htodo hmn hm hq huser k w hkn hw
    exact h.alone_step hk hc hn htodo hmn hm hq huser hkn hw
  · intro n userId u todo hn htodo b hb hbn w hw
    exact h.newest_step hk hc hn htodo hb hbn hw
  · intro T x hx b hb hne hwin
    exact h.stale_step hk hx hb hne hwin
  · intro n userId stage out hn hbusy T x hx huser hwin
    exact h.reading_step hk hc hn hbusy hx huser hwin
  · intro n userId stage out hn
    exact h.record_step hk hn (.inl ⟨stage, rfl⟩)
  · intro n userId out hn
    exact h.record_step hk hn (.inr rfl)

end Preserved

theorem genInv_init : GenInv init where
  todo _ _ _ _ h := by cases h
  bundle _ _ h := by cases h
  curve _ h := by cases h
  pq _ h := by cases h
  alone _ _ _ _ _ _ h := by cases h
  newest _ _ _ _ h := by cases h
  stale T x hx := by
    cases T <;> cases hx
  reading _ _ _ _ h := by cases h
  record _ _ _ _ h := by cases h
  answer _ _ _ h := by cases h

/-- Every bundle that was served comes from one upload of the user. -/
def OneGeneration (σ : Server) : Prop :=
  ∀ n userId out, σ.procs n = some (.got userId (some out)) →
    ∃ k u, Uploaded σ k userId u ∧ FromUpload u out

/-- Only the request of the next events is under way. -/
def OthersIdle (n : ℕ) (σ : Server) : Prop := ∀ m q, m ≠ n → σ.procs m = some q → q.busy = false

theorem OthersIdle.calm {n : ℕ} {σ : Server} {e : Event} (h : OthersIdle n σ) (he : e.num = n) :
    Calm σ e := by
  intro m q hm hq hne
  rw [h m q (he ▸ hne) hm] at hq
  cases hq

/-- A request that is not interleaved with others is calm. -/
theorem OthersIdle.throughout {n : ℕ} {σ : Server} {es : List Event} (h : OthersIdle n σ)
    (he : ∀ e ∈ es, e.num = n) : Throughout Calm σ es := by
  induction es generalizing σ with
  | nil => trivial
  | cons e es ih =>
    have hen := he e List.mem_cons_self
    refine ⟨h.calm hen, fun σ' hs => ih ?_ fun e' he' => he e' (List.mem_cons_of_mem e he')⟩
    intro m q hm hq
    rw [(kinds_of_step hs).procs_of_ne (hen ▸ hm)] at hq
    exact h m q hm hq

theorem Throughout.append {C : Server → Event → Prop} {σ : Server} {es es' : List Event}
    (h : Throughout C σ es) (h' : ∀ σ', run σ es = some σ' → Throughout C σ' es') :
    Throughout C σ (es ++ es') := by
  induction es generalizing σ with
  | nil => exact h' σ rfl
  | cons e es ih =>
    refine ⟨h.1, fun σ' hs => ih (h.2 σ' hs) fun σ'' hrun => h' σ'' ?_⟩
    rw [run, hs]
    exact hrun

/-- Events of other requests do not change a request. -/
theorem procs_of_run {σ σ' : Server} {es : List Event} {m : ℕ} (hrun : run σ es = some σ')
    (h : ∀ e ∈ es, e.num ≠ m) : σ'.procs m = σ.procs m := by
  induction es generalizing σ with
  | nil =>
    obtain rfl := Option.some.inj hrun
    rfl
  | cons e es ih =>
    obtain ⟨σ₁, hs, hrun⟩ := Option.bind_eq_some_iff.mp hrun
    rw [ih hrun fun e' he' => h e' (List.mem_cons_of_mem e he')]
    exact (kinds_of_step hs).procs_of_ne (h e List.mem_cons_self).symm

/-- Every upload began in the run. -/
theorem start_mem_of_uploaded {σ σ' : Server} {es : List Event} {k : ℕ} {userId : ℤ} {u : Upload}
    (hrun : run σ es = some σ') (h : Uploaded σ' k userId u) :
    Uploaded σ k userId u ∨ .start k (.upload userId u) ∈ es := by
  induction es generalizing σ with
  | nil =>
    obtain rfl := Option.some.inj hrun
    exact .inl h
  | cons e es ih =>
    obtain ⟨σ₁, hs, hrun⟩ := Option.bind_eq_some_iff.mp hrun
    rcases ih hrun with h₁ | hmem
    · rcases (kinds_of_step hs).known h₁ with h₀ | ⟨rfl, -⟩
      · exact .inl h₀
      · exact .inr List.mem_cons_self
    · exact .inr (List.mem_cons_of_mem e hmem)

/-- The request that a client makes of a new bundle. -/
def uploadOf (b : BundleKeys) : Upload where
  identityPk := encodeUtf8 (b64e b.identityPk)
  curveSpkId := b.curve.keyId
  curveSpk := encodeUtf8 (b64e b.curve.pk)
  curveSpkSig := encodeUtf8 (b64e b.curve.sig)
  pqSpkId := b.pq.keyId
  pqKemAlg := encodeUtf8 b.alg
  pqSpk := encodeUtf8 (b64e b.pq.pk)
  pqSpkSig := encodeUtf8 (b64e b.pq.sig)
  curveOtks := b.curveOtks.map fun k => (k.keyId, ⟨encodeUtf8 (b64e k.pk), encodeUtf8 (b64e k.sig)⟩)
  pqOtks := b.pqOtks.map fun k =>
    (k.keyId, ⟨encodeUtf8 b.alg, encodeUtf8 (b64e k.pk), encodeUtf8 (b64e k.sig)⟩)

/-- A request reads the signed prekeys of one upload and the one-time keys of the next one. -/
def mixedRun (u v : Upload) : List Event :=
  [.start 0 (.upload 1 u), .exec 0, .exec 0, .exec 0, .exec 0, .start 1 (.get 1),
    .start 2 (.upload 1 v), .exec 2, .exec 2, .exec 2, .exec 2,
    .exec 1, .exec 1, .exec 1, .exec 1, .exec 1, .exec 1]

/-- The random choices of a bundle in the term model, at a given clock reading. -/
def testBundleAt (millis : ℕ) : BundleRand := { testBundleRand with millis := millis }

/-- The ids in an answer. -/
def answerIds (σ : Server) (n : ℕ) : Option (ℤ × ℤ × ℤ) :=
  match σ.procs n with
  | some (.got _ (some out)) => some (out.curveSpkId, out.curveOtkId, out.pqOtkId)
  | _ => none

/-- Two bundles of one user, made one millisecond apart, and the ids of an answer made of both. -/
theorem mixed_ids : ∃ b b',
    bundleKeys termPrims (testSeed 8) (testSeed 8) none 1 (testBundleAt 5) = .ok b ∧
    bundleKeys termPrims (testSeed 8) (testSeed 8) none 1 (testBundleAt 6) = .ok b' ∧
    (uploadOf b).ids .curve = [6] ∧ b'.curve.keyId = 6 ∧
    (run init (mixedRun (uploadOf b) (uploadOf b'))).bind (answerIds · 1) = some (5, 7, 7) :=
  ⟨_, _, rfl, rfl, by decide +kernel, rfl, by decide +kernel⟩

end SecChat.PrekeyStore
