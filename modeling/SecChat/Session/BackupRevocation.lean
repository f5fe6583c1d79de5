import SecChat.Library.Runs
import SecChat.Session.BackupRoundTrip

/-!
# Revoking backups

* `Device`, `Device.step`: a session with a record of what it exported; backups are exported,
  restored and revoked in any order, and the rest of the client and of the world does the rest;
* `revoked_stay_refused`: generations increase, revoked backups are refused and the later ones are
  restored, in every run in which no revoked backup comes back under another id and generation.

`restore_e2ee_backup` looks `backup_id` and `generation` up outside of the ciphertext, where anyone
can edit them, before it turns to the manifest.
-/

namespace SecChat

open Py BackupSession

/-! ### The machine -/

/-- A backup that was exported, for the record. -/
structure Exported where
  text : String
  result : Json
  passphrase : String
  revoked : Bool

/-- A session, and what it exported. -/
structure Device where
  session : BackupSession
  exported : List Exported

/-- What happens to a device. -/
inductive BackupEvent
  | exportTo (path passphrase account : String) (includeCache : Bool) (w : Chance)
  | restoreFrom (path passphrase : String) (overwrite preserve : Bool) (w : Chance)
  | revoke (w : Chance)
  /-- Anything else that changes the session or its disk. -/
  | other (next : BackupSession)

variable (P : Prims) (L : BackupLibs)

/-- One event. -/
def Device.step (D : Device) : BackupEvent → Device
  | .exportTo path passphrase account ic w =>
      match exportE2eeBackup P L path passphrase account ic w D.session,
        exportedFile P L passphrase account ic w D.session with
      | (.ok r, s), some text => ⟨s, ⟨text, r, passphrase, false⟩ :: D.exported⟩
      | (_, s), _ => ⟨s, D.exported⟩
  | .restoreFrom path passphrase overwrite preserve w =>
      ⟨(restoreE2eeBackup P L path passphrase overwrite preserve w D.session).2, D.exported⟩
  | .revoke w =>
      ⟨(revokeLocalBackups P w D.session).2, D.exported.map fun e => { e with revoked := true }⟩
  | .other next => ⟨next, D.exported⟩

/-- The second text is the first backup file, with other fields outside of the ciphertext. -/
def Edited (text text' : String) : Prop :=
  ∃ outer outer', loads (encodeUtf8 text) = .ok outer ∧ loads (encodeUtf8 text') = .ok outer' ∧
    SameFields outer outer'

/-- The id or the generation is revoked. -/
def Refuses (state : List (String × Json)) (id : String) (g : ℤ) : Prop :=
  ∃ ids before, revokedIds state = .ok ids ∧
    intField (.obj state) "revoked_before_generation" = .ok before ∧
    (id ≠ "" ∧ id ∈ ids ∨ g ≠ 0 ∧ before ≠ 0 ∧ g ≤ before)

/-- The fields of an edited file still say that it is revoked. -/
def StillNamed (state : List (String × Json)) (text text' : String) : Prop :=
  ∀ outer outer', loads (encodeUtf8 text) = .ok outer → loads (encodeUtf8 text') = .ok outer' →
    outerGeneration outer' = outerGeneration outer ∨
      ∀ id g, outerBackupId outer' = .ok id → outerGeneration outer' = .ok g → Refuses state id g

/-- What the rest of the client and the operating system do: state files hold texts, the id of a
backup is a new one, a login gives back the same key and directory, and nobody else writes the
backup state. -/
def Ordinary (home : BackupSession) (D : Device) : BackupEvent → Prop
  | .exportTo _ _ _ ic w =>
      TextsOnly P ic (D.session.saveMlsState P w) ∧
        ∀ ids, revokedIds (D.session.loadBackupState P) = .ok ids →
          urlsafeB64encode w.idBytes ∉ ids
  | .other next =>
      (next.loggedIn = true → next.masterKey = home.masterKey ∧
        next.secchatDir = home.secchatDir) ∧
        next.disk.lookup (home.statePath "backup_state.bin") =
          D.session.disk.lookup (home.statePath "backup_state.bin")
  | _ => True

/-- Backups are revoked while the user is logged in, and a revoked backup that is restored still
says that it is revoked. -/
def Named (D : Device) : BackupEvent → Prop
  | .restoreFrom path _ _ _ _ => ∀ text, D.session.disk.lookup path = some text →
      ∀ e ∈ D.exported, e.revoked = true → Edited e.text text →
        StillNamed (D.session.loadBackupState P) e.text text
  | .revoke _ => D.session.loggedIn = true
  | _ => True

/-- An export gets a new generation, a revoked backup is refused, and the others are restored. -/
def Serves (D : Device) : BackupEvent → Prop
  | .exportTo path passphrase account ic w => ∀ r s',
      exportE2eeBackup P L path passphrase account ic w D.session = (.ok r, s') →
        ∃ g, r.getItem "backup_generation" = .ok (.int g) ∧ ∀ e ∈ D.exported,
          ∃ g', e.result.getItem "backup_generation" = .ok (.int g') ∧ g' < g
  | .restoreFrom path passphrase overwrite preserve w => ∀ text,
      D.session.disk.lookup path = some text → ∀ e ∈ D.exported,
        (e.revoked = true → Edited e.text text → ∃ err,
          restoreE2eeBackup P L path passphrase overwrite preserve w D.session =
            (.error err, D.session)) ∧
        (e.revoked = false → text = e.text → passphrase = e.passphrase →
          D.session.loggedIn = true → ∃ r t,
            restoreE2eeBackup P L path passphrase overwrite preserve w D.session = (.ok r, t))
  | _ => True

variable {P L}

/-! ### What is checked -/

theorem refuses_iff {state : List (String × Json)} {v : BackupView} (h : Shows state v)
    (id : String) (g : ℤ) : Refuses state id g ↔ ¬ v.Accepts id g := by
  constructor
  · rintro ⟨ids, before, hids, hbefore, hrefused⟩ ⟨hid, hg⟩
    rw [h.revokedIds, Except.ok.injEq] at hids
    rw [h.intField_before, Except.ok.injEq] at hbefore
    subst hids hbefore
    rcases hrefused with ⟨hne, hmem⟩ | hrefused
    · exact hid ⟨hne, (List.mem_filter.mp hmem).1⟩
    · exact hg hrefused
  · intro hnot
    refine ⟨_, _, h.revokedIds, h.intField_before, ?_⟩
    by_cases hid : id ≠ "" ∧ id ∈ v.ids
    · exact .inl ⟨hid.1, List.mem_filter.mpr ⟨hid.2, by simpa using hid.1⟩⟩
    · right
      by_contra hg
      exact hnot ⟨hid, hg⟩

/-- A backup is refused before anything is written when its fields are, or cannot be read. -/
theorem restore_refused_of {b : PackedBackup P L} {t : BackupSession} {path text : String}
    (hfile : t.disk.lookup path = some text) {outer : Json}
    (hload : loads (encodeUtf8 text) = .ok outer) (hsame : SameFields b.outer outer)
    (hrefused : t.loggedIn = true → ∀ id g, outerBackupId outer = .ok id →
      outerGeneration outer = .ok g → t.checkRevoked P id g ≠ .ok ()) (passphrase : String)
    (overwrite preserve : Bool) (w : Chance) :
    ∃ err, restoreE2eeBackup P L path passphrase overwrite preserve w t = (.error err, t) := by
  by_cases hlogin : t.loggedIn = false
  · exact ⟨_, by rw [restoreE2eeBackup, Method.get_bind, if_pos hlogin]; rfl⟩
  have hopen : ∃ err, t.openBackup P L text passphrase = .error err := by
    have hformat : outer.getD "format" .null = .ok (.str backupFormat) := by
      rw [hsame.getD (by decide) (by decide)]
      simp [PackedBackup.outer, BackupInfo.outer]
    have heq : (Json.str backupFormat).pyEq (.str backupFormat) = true := by simp [Json.pyEq]
    simp only [openBackup, hload, hformat, ok_bind, require_of heq,
      PackedBackup.outerManifest_of_sameFields hsame]
    cases hid : outerBackupId outer with
    | error e => exact ⟨e, rfl⟩
    | ok id =>
      cases hg : outerGeneration outer with
      | error e => exact ⟨e, rfl⟩
      | ok g =>
        cases hcheck : t.checkRevoked P id g with
        | error e => exact ⟨e, by simp only [ok_bind, hcheck, error_bind]⟩
        | ok u => exact absurd hcheck (hrefused (by simpa using hlogin) id g hid hg)
  obtain ⟨err, hopen⟩ := hopen
  refine ⟨err, ?_⟩
  rw [restoreE2eeBackup, Method.get_bind, if_neg hlogin, hfile]
  simp only [hopen, Method.ofExcept_error_bind]

/-! ### What the calls make of the state -/

section Calls

variable {s : BackupSession} {v : BackupView}

/-- An export that raises leaves the backup state alone. -/
theorem export_raises {path passphrase account : String} {ic : Bool} {w : Chance}
    {s' : BackupSession} {e : Exn}
    (h : exportE2eeBackup P L path passphrase account ic w s = (.error e, s')) :
    s' = s ∨ s' = s.saveMlsState P w := by
  cases hpack : packBackup P L passphrase account ic w s with
  | mk r s₁ =>
    cases r with
    | error e' =>
      rw [exportE2eeBackup, Method.bind_error hpack] at h
      obtain ⟨-, rfl⟩ := Prod.mk.inj h
      rw [packBackup, Method.get_bind] at hpack
      split at hpack
      · exact .inl (Prod.mk.inj hpack).2.symm
      dsimp only at hpack
      split at hpack
      · exact .inl (Prod.mk.inj hpack).2.symm
      · exact .inr (Prod.mk.inj hpack).2.symm
    | ok packed =>
      obtain ⟨-, rfl, -⟩ := packBackup_eq_ok hpack
      rw [exportE2eeBackup, Method.bind_ok hpack] at h
      cases hd : (s.saveMlsState P w).disk.write path (dumpsText packed.outer) with
      | error e' =>
        have hwrite : onDisk (fun d => d.write path (dumpsText packed.outer)) (s.saveMlsState P w) =
            (.error e', s.saveMlsState P w) := by rw [onDisk, hd]
        rw [Method.bind_error hwrite] at h
        exact .inr (Prod.mk.inj h).2.symm
      | ok d =>
        rw [Method.bind_ok (onDisk_ok hd)] at h
        cases (Prod.mk.inj h).1

theorem loadBackupState_saveMlsState (w : Chance) :
    (s.saveMlsState P w).loadBackupState P = s.loadBackupState P := by
  have hsame := saveMlsState_sameBut (P := P) w s
  refine loadBackupState_congr hsame.masterKey hsame.secchatDir (hsame.lookup _ fun heq => ?_)
  exact absurd (statePath_injective (by decide) (by decide) heq) (by decide)

/-- What an export that returns makes of the state. -/
theorem export_shows (hP : P.Correct) {path passphrase account : String} {ic : Bool} {w : Chance}
    {s' : BackupSession} {r : Json}
    (h : exportE2eeBackup P L path passphrase account ic w s = (.ok r, s'))
    (htexts : TextsOnly P ic (s.saveMlsState P w)) (hshows : Shows (s.loadBackupState P) v) :
    ∃ b : PackedBackup P L, b.passphrase = passphrase ∧ r = b.info.result ∧
      exportedFile P L passphrase account ic w s = some (dumpsText b.outer) ∧
      (∀ f ∈ b.info.files, f.Ok) ∧ b.info.generation = v.latest + 1 ∧
      b.info.backupId = urlsafeB64encode w.idBytes ∧ s.loggedIn = true ∧
      s'.masterKey = s.masterKey ∧ s'.secchatDir = s.secchatDir ∧
      ∃ v', Shows (s'.loadBackupState P) v' ∧ v'.latest = v.latest + 1 ∧ v'.before = v.before ∧
        v'.ids = v.ids ∧ v'.latestId = b.info.backupId := by
  obtain ⟨b, hb, hr, hfile, hok, hinfo, hlogin, d, -, rfl⟩ := packedBackup_of_export h htexts
  obtain ⟨-, hid, hlatest⟩ := backupInfo_eq_ok hinfo
  rw [loadBackupState_saveMlsState, hshows.intField_latest, Except.ok.injEq] at hlatest
  have hgeneration : b.info.generation = v.latest + 1 := by omega
  have hmls := saveMlsState_sameBut (P := P) w s
  set s₁ : BackupSession := { s.saveMlsState P w with disk := d } with hs₁
  have hlogin₁ : s₁.loggedIn = true := by
    have hsame : s₁.loggedIn = (s.saveMlsState P w).loggedIn := rfl
    rw [hsame, hmls.loggedIn, hlogin]
  have hnoted := shows_noted (b := b.info) hshows
  have hload := loadBackupState_saveBackupState hP hlogin₁ w.stateStamp hnoted.plain
  have hsave := saveBackupState_sameBut (P := P) w.stateStamp
    (updateDict (s.loadBackupState P) b.info.noted) s₁
  rw [loadBackupState_saveMlsState]
  rw [← hload] at hnoted
  exact ⟨b, hb, hr, hfile, hok, hgeneration, hid, hlogin, hsave.masterKey.trans hmls.masterKey,
    hsave.secchatDir.trans hmls.secchatDir, _, hnoted, hgeneration, rfl, rfl,
    rfl⟩

/-- What a restore makes of the state, also when it raises. -/
theorem restore_shows (hP : P.Correct) (hlogin : s.loggedIn = true)
    (hshows : Shows (s.loadBackupState P) v) (path passphrase : String) (overwrite preserve : Bool)
    (w : Chance) :
    ∃ v', Shows ((restoreE2eeBackup P L path passphrase overwrite preserve w s).2.loadBackupState P)
        v' ∧ v.latest ≤ v'.latest ∧ v'.before = v.before ∧ v'.ids = v.ids := by
  have hnot : ¬ s.loggedIn = false := by simp [hlogin]
  rw [restoreE2eeBackup, Method.get_bind, if_neg hnot]
  cases s.disk.lookup path with
  | none => exact ⟨v, hshows, le_refl _, rfl, rfl⟩
  | some text =>
  dsimp only
  cases s.openBackup P L text passphrase with
  | error e => exact ⟨v, hshows, le_refl _, rfl, rfl⟩
  | ok o =>
  rw [Method.ofExcept_ok_bind]
  cases (do iterValues (← o.payload.getD "files" (.arr [])) : Except Exn (List Json)) with
  | error e => exact ⟨v, hshows, le_refl _, rfl, rfl⟩
  | ok items =>
  rw [Method.ofExcept_ok_bind]
  have hkeeps := restoreItems_keeps (P := P) w overwrite preserve 0 ⟨0, 0, 0⟩ items s.secchatDir s
    rfl
  cases hloop : restoreItems P w overwrite preserve 0 ⟨0, 0, 0⟩ items s with
  | mk r t =>
  rw [hloop] at hkeeps
  have hstate : t.loadBackupState P = s.loadBackupState P := loadBackupState_of_sameBut hkeeps
  cases r with
  | error e =>
    rw [Method.bind_error hloop]
    exact ⟨v, by rw [hstate]; exact hshows, le_refl _, rfl, rfl⟩
  | ok counts =>
    have hreload := reload_sameBut (P := P) w preserve t
    have hstate' : (t.reload P w preserve).loadBackupState P = s.loadBackupState P := by
      rw [loadBackupState_of_sameBut (reload_sameBut_items w preserve t), hstate]
    have hshows' : Shows ((t.reload P w preserve).loadBackupState P) v := by
      rw [hstate']
      exact hshows
    rw [Method.bind_ok hloop, Method.modify_bind, Method.get_bind]
    cases hrestored : (t.reload P w preserve).restoredState P o w with
    | error e => exact ⟨v, hshows', le_refl _, rfl, rfl⟩
    | ok state =>
      obtain ⟨created, label, hnew⟩ := shows_restoredState hshows' hrestored
      have hlogin' : (t.reload P w preserve).loggedIn = true := by
        rw [hreload.loggedIn, hkeeps.loggedIn, hlogin]
      have hload := loadBackupState_saveBackupState hP hlogin' w.stateStamp hnew.plain
      rw [← hload] at hnew
      exact ⟨_, hnew, le_max_left _ _, rfl, rfl⟩

/-- A revocation writes nothing but the backup state. -/
theorem revoke_sameBut (w : Chance) (s : BackupSession) :
    SameBut (· = s.statePath "backup_state.bin") s (revokeLocalBackups P w s).2 := by
  rw [revokeLocalBackups, Method.get_bind]
  cases s.revokedState P w with
  | error e => exact SameBut.refl _ s
  | ok state => exact saveBackupState_sameBut w.stateStamp state s

/-- What a revocation makes of the state. -/
theorem revoke_shows (hP : P.Correct) (hlogin : s.loggedIn = true)
    (hshows : Shows (s.loadBackupState P) v) (w : Chance) :
    ∃ v', Shows ((revokeLocalBackups P w s).2.loadBackupState P) v' ∧ v'.latest = v.latest ∧
      v'.before = max v.before v.latest ∧
      ∀ id, id ≠ "" → (id ∈ v'.ids ↔ id ∈ v.ids ∨ id = v.latestId) := by
  obtain ⟨state, ids, hstate, hnew, hids⟩ := shows_revokedState hshows w
  have hafter : (revokeLocalBackups P w s).2 = s.saveBackupState P w.stateStamp state := by
    rw [revokeLocalBackups, Method.get_bind, hstate, Method.ofExcept_ok_bind, Method.modify_bind]
    rfl
  have hload := loadBackupState_saveBackupState hP hlogin w.stateStamp hnew.plain
  rw [← hload] at hnew
  rw [hafter]
  exact ⟨_, hnew, rfl, rfl, hids⟩

/-- The file of an export is on the disk. -/
theorem export_lookup {path passphrase account : String} {ic : Bool} {w : Chance}
    {s' : BackupSession} {r : Json} {text : String}
    (h : exportE2eeBackup P L path passphrase account ic w s = (.ok r, s'))
    (hfile : exportedFile P L passphrase account ic w s = some text)
    (hne : path ≠ s.statePath "backup_state.bin") : s'.disk.lookup path = some text := by
  obtain ⟨packed, d, -, hfile', hd, -, rfl⟩ := export_eq_ok h
  obtain rfl : text = dumpsText packed.outer := Option.some.inj (hfile.symm.trans hfile')
  have hpath : ({ s.saveMlsState P w with disk := d } : BackupSession).statePath
      "backup_state.bin" = s.statePath "backup_state.bin" :=
    (saveMlsState_sameBut (P := P) w s).statePath _
  have hsave := saveBackupState_sameBut (P := P) w.stateStamp packed.state
    { s.saveMlsState P w with disk := d }
  rw [hsave.lookup path (by rw [hpath]; exact hne)]
  exact (Disk.lookup_write hd path).trans (if_pos rfl)

end Calls

/-- The file as it was exported is restored when the state accepts its id and its generation. -/
theorem unedited_restored {b : PackedBackup P L} (hP : P.Correct)
    (hok : ∀ f ∈ b.info.files, f.Ok) {s : BackupSession} (hlogin : s.loggedIn = true) {v : BackupView} (hshows : Shows (s.loadBackupState P) v)
    (haccepts : v.Accepts b.info.backupId b.info.generation) {path : String}
    (hlookup : s.disk.lookup path = some (dumpsText b.outer)) (overwrite preserve : Bool)
    (w : Chance) :
    ∃ r t, restoreE2eeBackup P L path b.passphrase overwrite preserve w s = (.ok r, t) := by
  have hcheck := (checkRevoked_iff hshows _ _).mpr haccepts
  obtain ⟨c, d, state, r, -, -, hrestore⟩ := PackedBackup.restore_eq hok hlogin hlookup
    (loads_dumpsText (b.info.outer_plain _ _ _)) (sameFields_self _ _ _ _) hP hshows
    (b.info.outerBackupId_outer _ _ _) (b.info.outerGeneration_outer _ _ _) hcheck overwrite
    preserve w
  exact ⟨r, _, hrestore⟩

/-! ### Runs -/

/-- What the record says of a backup, and what the backup state says of it. -/
def Records (P : Prims) (L : BackupLibs) (v : BackupView) (e : Exported) : Prop :=
  ∃ b : PackedBackup P L, e.text = dumpsText b.outer ∧ e.result = b.info.result ∧
    e.passphrase = b.passphrase ∧ (∀ f ∈ b.info.files, f.Ok) ∧ 0 < b.info.generation ∧
    b.info.generation ≤ v.latest ∧ (e.revoked = true → b.info.generation ≤ v.before) ∧
    (e.revoked = false → v.before < b.info.generation ∧
      ¬ (b.info.backupId ≠ "" ∧ b.info.backupId ∈ v.ids))

/-- The invariant of a device whose user logs in as in `home`. -/
structure RevocationInv (P : Prims) (L : BackupLibs) (home : BackupSession) (D : Device)
    (v : BackupView) : Prop where
  keys : D.session.loggedIn = true →
    D.session.masterKey = home.masterKey ∧ D.session.secchatDir = home.secchatDir
  shows : Shows ({ home with disk := D.session.disk }.loadBackupState P) v
  latest : 0 ≤ v.latest
  before : v.before ≤ v.latest
  exported : ∀ e ∈ D.exported, Records P L v e

section Runs

variable {home : BackupSession} {D : Device} {v : BackupView}

theorem RevocationInv.session (h : RevocationInv P L home D v)
    (hlogin : D.session.loggedIn = true) : Shows (D.session.loadBackupState P) v := by
  obtain ⟨hkey, hdir⟩ := h.keys hlogin
  have hstate : D.session.loadBackupState P =
      { home with disk := D.session.disk }.loadBackupState P := loadBackupState_congr hkey hdir rfl
  rw [hstate]
  exact h.shows

/-- A session under the keys of `home` shows what its disk shows. -/
theorem shows_home {s : BackupSession} (hkey : s.masterKey = home.masterKey)
    (hdir : s.secchatDir = home.secchatDir) (h : Shows (s.loadBackupState P) v) :
    Shows ({ home with disk := s.disk }.loadBackupState P) v := by
  have hstate : s.loadBackupState P = { home with disk := s.disk }.loadBackupState P :=
    loadBackupState_congr hkey hdir rfl
  rwa [← hstate]

/-- Later states keep what the record says, as long as nothing is revoked. -/
theorem Records.mono {v' : BackupView} {e : Exported} (h : Records P L v e)
    (hlatest : v.latest ≤ v'.latest) (hbefore : v'.before = v.before) (hids : v'.ids = v.ids) :
    Records P L v' e := by
  obtain ⟨b, htext, hresult, hpass, hok, hpos, hle, hrevoked, hfresh⟩ := h
  refine ⟨b, htext, hresult, hpass, hok, hpos, hle.trans hlatest, ?_, ?_⟩
  · rwa [hbefore]
  · rwa [hbefore, hids]

/-- A session that kept its keys and its backup state. -/
theorem RevocationInv.of_same (h : RevocationInv P L home D v) {s : BackupSession}
    {A : String → Prop} (hsame : SameBut A D.session s) (hA : D.session.loggedIn = true →
      ¬ A (D.session.statePath "backup_state.bin"))
    (hout : D.session.loggedIn = false → s = D.session) :
    RevocationInv P L home ⟨s, D.exported⟩ v := by
  cases hlogin : D.session.loggedIn with
  | false =>
    rw [hout hlogin]
    exact h
  | true =>
    obtain ⟨hkey, hdir⟩ := h.keys hlogin
    have hkey' : s.masterKey = home.masterKey := hsame.masterKey.trans hkey
    have hdir' : s.secchatDir = home.secchatDir := hsame.secchatDir.trans hdir
    have hstate : s.loadBackupState P = D.session.loadBackupState P :=
      loadBackupState_congr hsame.masterKey hsame.secchatDir (hsame.lookup _ (hA hlogin))
    refine ⟨fun _ => ⟨hkey', hdir'⟩, shows_home hkey' hdir' ?_, h.latest, h.before, h.exported⟩
    rw [hstate]
    exact h.session hlogin

theorem saveMlsState_out {s : BackupSession} (w : Chance) (h : s.loggedIn = false) :
    s.saveMlsState P w = s := by
  rw [saveMlsState, if_pos (.inl h)]

theorem step_export {s s' : BackupSession} {path passphrase account text : String} {ic : Bool}
    {w : Chance} {r : Json}
    (h : exportE2eeBackup P L path passphrase account ic w s = (.ok r, s'))
    (hfile : exportedFile P L passphrase account ic w s = some text) (exported : List Exported) :
    Device.step P L ⟨s, exported⟩ (.exportTo path passphrase account ic w) =
      ⟨s', ⟨text, r, passphrase, false⟩ :: exported⟩ := by
  simp only [Device.step, h, hfile]

/-- Every event keeps the invariant. -/
theorem RevocationInv.step (hP : P.Correct) (h : RevocationInv P L home D v) {ev : BackupEvent}
    (hordinary : Ordinary P home D ev) (hnamed : Named P D ev) :
    ∃ v', RevocationInv P L home (D.step P L ev) v' := by
  cases ev with
  | exportTo path passphrase account ic w =>
    cases hrun : exportE2eeBackup P L path passphrase account ic w D.session with
    | mk result s' =>
      cases result with
      | error e =>
        have hstep : D.step P L (.exportTo path passphrase account ic w) = ⟨s', D.exported⟩ := by
          simp only [Device.step, hrun]
        rw [hstep]
        refine ⟨v, ?_⟩
        rcases export_raises hrun with rfl | rfl
        · exact h
        · refine h.of_same (saveMlsState_sameBut w D.session) (fun _ heq => ?_) (saveMlsState_out w)
          exact absurd (statePath_injective (by decide) (by decide) heq) (by decide)
      | ok r =>
        obtain ⟨packed, -, hpack, -⟩ := export_eq_ok hrun
        have hlogin := (packBackup_eq_ok hpack).1
        obtain ⟨hkey, hdir⟩ := h.keys hlogin
        obtain ⟨b, hpass, hr, hfile, hok, hgeneration, hid, -, hkey', hdir', v', hshows', hlatest,
          hbefore, hids, -⟩ := export_shows hP hrun hordinary.1 (h.session hlogin)
        have hstep : D.step P L (.exportTo path passphrase account ic w) =
            ⟨s', ⟨dumpsText b.outer, r, passphrase, false⟩ :: D.exported⟩ :=
          step_export hrun hfile D.exported
        have hfresh : ¬ (b.info.backupId ≠ "" ∧ b.info.backupId ∈ v.ids) := by
          rintro ⟨hne, hmem⟩
          refine hordinary.2 _ (h.session hlogin).revokedIds ?_
          rw [← hid]
          exact List.mem_filter.mpr ⟨hmem, by simpa using hne⟩
        have hpos := h.latest
        have hle := h.before
        rw [hstep]
        refine ⟨v', fun _ => ⟨hkey'.trans hkey, hdir'.trans hdir⟩,
          shows_home (hkey'.trans hkey) (hdir'.trans hdir) hshows', by omega, by omega, ?_⟩
        intro e he
        rcases List.mem_cons.mp he with rfl | he
        · refine ⟨b, rfl, hr, hpass.symm, hok, by omega, by omega, by simp, fun _ => ⟨by omega, ?_⟩⟩
          rw [hids]
          exact hfresh
        · exact (h.exported e he).mono (by omega) hbefore hids
  | restoreFrom path passphrase overwrite preserve w =>
    have hkeeps := restore_keeps (P := P) (L := L) path passphrase overwrite preserve w
      D.session.secchatDir D.session rfl
    cases hlogin : D.session.loggedIn with
    | false =>
      have hout : (restoreE2eeBackup P L path passphrase overwrite preserve w D.session).2 =
          D.session := by
        rw [restoreE2eeBackup, Method.get_bind, if_pos hlogin]
        rfl
      refine ⟨v, ?_⟩
      show RevocationInv P L home ⟨_, D.exported⟩ v
      rw [hout]
      exact h
    | true =>
      obtain ⟨hkey, hdir⟩ := h.keys hlogin
      obtain ⟨v', hshows', hlatest, hbefore, hids⟩ :=
        restore_shows (L := L) hP hlogin (h.session hlogin) path passphrase overwrite preserve w
      have hkey' := hkeeps.masterKey.trans hkey
      have hdir' := hkeeps.secchatDir.trans hdir
      refine ⟨v', fun _ => ⟨hkey', hdir'⟩, shows_home hkey' hdir' hshows',
        h.latest.trans hlatest, ?_, fun e he => (h.exported e he).mono hlatest hbefore hids⟩
      rw [hbefore]
      exact h.before.trans hlatest
  | revoke w =>
    obtain ⟨hkey, hdir⟩ := h.keys hnamed
    obtain ⟨v', hshows', hlatest, hbefore, -⟩ := revoke_shows hP hnamed (h.session hnamed) w
    have hsame := revoke_sameBut (P := P) w D.session
    have hkey' := hsame.masterKey.trans hkey
    have hdir' := hsame.secchatDir.trans hdir
    have hle := h.before
    rw [max_eq_right hle] at hbefore
    refine ⟨v', fun _ => ⟨hkey', hdir'⟩, shows_home hkey' hdir' hshows', hlatest ▸ h.latest,
      by omega, ?_⟩
    intro e he
    obtain ⟨e', he', rfl⟩ := List.mem_map.mp he
    obtain ⟨b, htext, hresult, hpass, hok, hpos, hgeneration, -⟩ := h.exported e' he'
    exact ⟨b, htext, hresult, hpass, hok, hpos, hlatest ▸ hgeneration, fun _ => by omega, by simp⟩
  | other next =>
    obtain ⟨hkeys, hfile⟩ := hordinary
    have hstate : { home with disk := next.disk }.loadBackupState P =
        { home with disk := D.session.disk }.loadBackupState P :=
      loadBackupState_congr rfl rfl hfile
    refine ⟨v, hkeys, ?_, h.latest, h.before, h.exported⟩
    show Shows ({ home with disk := next.disk }.loadBackupState P) v
    rw [hstate]
    exact h.shows

/-- Under the invariant every event does what it should. -/
theorem RevocationInv.serves (hP : P.Correct) (h : RevocationInv P L home D v) {ev : BackupEvent}
    (hordinary : Ordinary P home D ev) (hnamed : Named P D ev) : Serves P L D ev := by
  cases ev with
  | exportTo path passphrase account ic w =>
    intro r s' hrun
    obtain ⟨packed, -, hpack, -⟩ := export_eq_ok hrun
    have hlogin := (packBackup_eq_ok hpack).1
    obtain ⟨b, -, rfl, -, -, hgeneration, -⟩ :=
      export_shows hP hrun hordinary.1 (h.session hlogin)
    refine ⟨b.info.generation, by simp [BackupInfo.result], fun e he => ?_⟩
    obtain ⟨b', -, hresult, -, -, -, hle, -⟩ := h.exported e he
    refine ⟨b'.info.generation, by simp [hresult, BackupInfo.result], by omega⟩
  | restoreFrom path passphrase overwrite preserve w =>
    intro text hlookup e he
    obtain ⟨b, htext, -, hpass, hok, hpos, hle, hrevoked, hfresh⟩ := h.exported e he
    have hload : loads (encodeUtf8 e.text) = .ok b.outer := by
      rw [htext]
      exact loads_dumpsText (b.info.outer_plain _ _ _)
    have hg : outerGeneration b.outer = .ok b.info.generation := b.info.outerGeneration_outer _ _ _
    refine ⟨fun hr hedited => ?_, fun hr htext' hpass' hlogin => ?_⟩
    · have hstill := hnamed text hlookup e he hr hedited
      obtain ⟨outer, outer', hload₀, hload', hsame⟩ := hedited
      obtain rfl : b.outer = outer := Except.ok.inj (hload.symm.trans hload₀)
      refine restore_refused_of hlookup hload' hsame (fun hlogin id g hid hg' hcheck => ?_) _ _ _ _
      have hshows := h.session hlogin
      have haccepts := (checkRevoked_iff hshows id g).mp hcheck
      rcases hstill b.outer outer' hload hload' with hsameGeneration | hrefuses
      · -- the generation was not edited
        rw [hg, hg', Except.ok.injEq] at hsameGeneration
        have hbefore := hrevoked hr
        exact haccepts.2 ⟨by omega, by omega, by omega⟩
      · exact (refuses_iff hshows id g).mp (hrefuses id g hid hg') haccepts
    · have hshows := h.session hlogin
      obtain ⟨hbefore, hids⟩ := hfresh hr
      have haccepts : v.Accepts b.info.backupId b.info.generation :=
        ⟨hids, fun hgen => absurd hgen.2.2 (by omega)⟩
      have hlookup' : D.session.disk.lookup path = some (dumpsText b.outer) := by
        rw [hlookup, htext', htext]
      rw [hpass', hpass]
      exact unedited_restored hP hok hlogin hshows haccepts hlookup' overwrite preserve w
  | revoke w => trivial
  | other next => trivial

/-- **Revoked backups stay refused.** -/
theorem revoked_stay_refused (hP : P.Correct) {s : BackupSession}
    (hfresh : s.disk.lookup (s.statePath "backup_state.bin") = none) {es : List BackupEvent}
    (h : Runs.Each (Device.step P L) (fun D ev => Ordinary P s D ev ∧ Named P D ev) ⟨s, []⟩ es) :
    Runs.Each (Device.step P L) (Serves P L) ⟨s, []⟩ es := by
  have hstate : s.loadBackupState P = [] := loadBackupState_fresh hfresh
  have hstart : ∃ v, RevocationInv P L s ⟨s, []⟩ v := by
    refine ⟨⟨0, 0, [], "", 0, ""⟩, fun _ => ⟨rfl, rfl⟩, ?_, le_refl _, le_refl _, by simp⟩
    show Shows (s.loadBackupState P) _
    rw [hstate]
    exact shows_nil
  refine Runs.each_of_each (P := fun D => ∃ v, RevocationInv P L s D v) ?_ ?_ hstart h
  · rintro D ev ⟨v, hinv⟩ ⟨hordinary, hnamed⟩
    exact hinv.step hP hordinary hnamed
  · rintro D ev ⟨v, hinv⟩ ⟨hordinary, hnamed⟩
    exact hinv.serves hP hordinary hnamed

end Runs

/-! ### A revoked backup -/

/-- An export and a revocation. -/
def oneBackup : List BackupEvent :=
  [.exportTo "/x" "backup-passphrase" "u" true zeroChance, .revoke zeroChance]

/-- What an export leaves of `oldDevice`. -/
theorem oldDevice_exported : ∃ (b : PackedBackup termPrims asciiLibs) (s' : BackupSession),
    exportE2eeBackup termPrims asciiLibs "/x" "backup-passphrase" "u" true zeroChance oldDevice =
      (.ok b.info.result, s') ∧
    Device.step termPrims asciiLibs ⟨oldDevice, []⟩
        (.exportTo "/x" "backup-passphrase" "u" true zeroChance) =
      ⟨s', [⟨dumpsText b.outer, b.info.result, "backup-passphrase", false⟩]⟩ ∧
    b.passphrase = "backup-passphrase" ∧ (∀ f ∈ b.info.files, f.Ok) ∧ b.info.generation = 1 ∧
    b.info.backupId ≠ "y" ∧ s'.masterKey = oldKey ∧ s'.secchatDir = "/h" ∧
    s'.disk.lookup "/x" = some (dumpsText b.outer) ∧
    ∃ v, Shows (s'.loadBackupState termPrims) v ∧ v.before = 0 ∧ v.latest = 1 ∧ v.ids = [] ∧
      v.latestId = b.info.backupId := by
  obtain ⟨b₀, s', hexport, -⟩ := oldDevice_exports
  have hshows : Shows (oldDevice.loadBackupState termPrims) ⟨0, 0, [], "", 0, ""⟩ := by
    rw [oldDevice_state]
    exact shows_nil
  have htexts := oldDevice_readable.textsOnly (secchatDir_of_export hexport)
  obtain ⟨b, hpass, hr, hfile, hok, hgeneration, hid, -, hkey, hdir, v, hv, hlatest, hbefore, hids,
    hlatestId⟩ := export_shows termPrims_symbolic.toCorrect hexport htexts hshows
  rw [hr] at hexport
  have hlookup := export_lookup hexport hfile (by decide +kernel)
  have hy : b.info.backupId ≠ "y" := by
    rw [hid]
    decide +kernel
  exact ⟨b, s', hexport, step_export hexport hfile [], hpass, hok, hgeneration, hy,
    hkey, hdir, hlookup, v, hv, hbefore, hlatest, hids, hlatestId⟩

/-- What the revocation leaves of it. -/
theorem oldDevice_revoked : ∃ (b : PackedBackup termPrims asciiLibs) (s : BackupSession),
    oneBackup.foldl (Device.step termPrims asciiLibs) ⟨oldDevice, []⟩ =
      ⟨s, [⟨dumpsText b.outer, b.info.result, "backup-passphrase", true⟩]⟩ ∧
    b.passphrase = "backup-passphrase" ∧ (∀ f ∈ b.info.files, f.Ok) ∧ s.loggedIn = true ∧
    s.secchatDir = "/h" ∧ s.disk.lookup "/x" = some (dumpsText b.outer) ∧
    ∃ v, Shows (s.loadBackupState termPrims) v ∧ v.Accepts "y" 9 := by
  obtain ⟨b, s₁, hexport, hstep, hpass, hok, hgeneration, hy, hkey, hdir, hlookup, v, hv, hbefore,
    hlatest, hids, hlatestId⟩ := oldDevice_exported
  have hlogin : s₁.loggedIn = true := by
    rw [loggedIn, hkey, hdir]
    decide
  have hsame := revoke_sameBut (P := termPrims) zeroChance s₁
  obtain ⟨v', hv', -, hbefore', hids'⟩ :=
    revoke_shows termPrims_symbolic.toCorrect hlogin hv zeroChance
  refine ⟨b, (revokeLocalBackups termPrims zeroChance s₁).2, ?_, hpass, hok,
    hsame.loggedIn.trans hlogin, hsame.secchatDir.trans hdir, ?_, v', hv', ?_⟩
  · rw [oneBackup, List.foldl_cons, hstep]
    rfl
  · have hpath : s₁.statePath "backup_state.bin" = pathJoin "/h" "backup_state.bin" := by
      rw [statePath, hdir]
    rw [hsame.lookup "/x" (by rw [hpath]; decide +kernel)]
    exact hlookup
  · constructor
    · rintro ⟨hne, hmem⟩
      have hcases := hids' "y" hne
      rcases hcases.mp hmem with hmem | heq
      · rw [hids] at hmem
        cases hmem
      · exact hy (hlatestId ▸ heq.symm)
    · rw [hbefore', hbefore, hlatest]
      omega

/-- A backup that was exported and revoked is refused. -/
theorem revoked_stay_refused_once : ∃ (D : Device) (e : Exported) (err : Exn),
    oneBackup.foldl (Device.step termPrims asciiLibs) ⟨oldDevice, []⟩ = D ∧ e ∈ D.exported ∧
    e.revoked = true ∧ D.session.disk.lookup "/x" = some e.text ∧
    restoreE2eeBackup termPrims asciiLibs "/x" "backup-passphrase" true false zeroChance D.session =
      (.error err, D.session) := by
  obtain ⟨b, s, hrun, -, -, -, -, hlookup, -⟩ := oldDevice_revoked
  set e : Exported := ⟨dumpsText b.outer, b.info.result, "backup-passphrase", true⟩ with he
  obtain ⟨_, s₁, hexport, hstep, -, -, -, -, hkey, hdir, -⟩ := oldDevice_exported
  have hlogin : s₁.loggedIn = true := by
    rw [loggedIn, hkey, hdir]
    decide
  have hload : loads (encodeUtf8 e.text) = .ok b.outer := loads_dumpsText (b.info.outer_plain _ _ _)
  have hrun' : Device.step termPrims asciiLibs (Device.step termPrims asciiLibs ⟨oldDevice, []⟩
      (.exportTo "/x" "backup-passphrase" "u" true zeroChance)) (.revoke zeroChance) =
      ⟨s, [e]⟩ := hrun
  have hexported : Ordinary termPrims oldDevice ⟨oldDevice, []⟩
      (.exportTo "/x" "backup-passphrase" "u" true zeroChance) := by
    refine ⟨oldDevice_readable.textsOnly (secchatDir_of_export hexport), fun ids hids => ?_⟩
    rw [oldDevice_state] at hids
    cases hids
    exact List.not_mem_nil
  have hnamed : Named termPrims (Device.step termPrims asciiLibs ⟨oldDevice, []⟩
      (.exportTo "/x" "backup-passphrase" "u" true zeroChance)) (.revoke zeroChance) := by
    rw [hstep]
    exact hlogin
  have hunedited : Named termPrims ⟨s, [e]⟩
      (.restoreFrom "/x" "backup-passphrase" true false zeroChance) := by
    intro text htext e' he' _ _ outer outer' houter houter'
    obtain rfl : text = e.text := Option.some.inj (htext.symm.trans hlookup)
    obtain rfl : e' = e := List.mem_singleton.mp he'
    obtain rfl : outer = outer' := Except.ok.inj (houter.symm.trans houter')
    exact .inl rfl
  rw [← hrun'] at hunedited
  have hserves : Runs.Each (Device.step termPrims asciiLibs) (Serves termPrims asciiLibs)
      ⟨oldDevice, []⟩ [.exportTo "/x" "backup-passphrase" "u" true zeroChance, .revoke zeroChance,
        .restoreFrom "/x" "backup-passphrase" true false zeroChance] :=
    revoked_stay_refused termPrims_symbolic.toCorrect oldDevice_fresh
      ⟨⟨hexported, trivial⟩, ⟨trivial, hnamed⟩, ⟨trivial, hunedited⟩, trivial⟩
  obtain ⟨-, -, hrestore, -⟩ := hserves
  rw [hrun'] at hrestore
  have hedited : Edited e.text e.text := ⟨_, _, hload, hload, sameFields_self _ _ _ _⟩
  obtain ⟨err, herr⟩ := (hrestore e.text hlookup e List.mem_cons_self).1 rfl hedited
  exact ⟨⟨s, [e]⟩, e, err, hrun, List.mem_cons_self, rfl, hlookup, herr⟩

/-- Another id and another generation outside of the ciphertext. -/
def editFields : Json → Json
  | .obj kvs => .obj (updateDict kvs [("backup_id", .str "y"), ("generation", .int 9)])
  | j => j

section Edit

variable (b : PackedBackup P L)

theorem sameFields_editFields : SameFields b.outer (editFields b.outer) := by
  refine ⟨_, _, rfl, rfl, fun k hid hg => ?_⟩
  simp only [updateDict, List.foldl_cons, List.foldl_nil, lookup_dictSet, if_neg hid, if_neg hg]

theorem loads_editFields : loads (encodeUtf8 (dumpsText (editFields b.outer))) =
    .ok (editFields b.outer) := by
  refine loads_dumpsText (plain_updateDict (b.info.outer_plain _ _ _) ?_)
  simp

theorem outerFields_editFields : outerBackupId (editFields b.outer) = .ok "y" ∧
    outerGeneration (editFields b.outer) = .ok 9 := by
  have hmanifest := PackedBackup.outerManifest_of_sameFields (sameFields_editFields b)
  have hid : (editFields b.outer).getD "backup_id" (.str "") = .ok (.str "y") := by
    simp [editFields, PackedBackup.outer, BackupInfo.outer, updateDict]
  have hg : (editFields b.outer).getD "generation" (.int 0) = .ok (.int 9) := by
    simp [editFields, PackedBackup.outer, BackupInfo.outer, updateDict]
  constructor
  · simp [outerBackupId, hmanifest, eitherField, hid]
  · simp [outerGeneration, hmanifest, eitherField, hg]

theorem edited_edited : Edited (dumpsText b.outer) (dumpsText (editFields b.outer)) :=
  ⟨_, _, loads_dumpsText (b.info.outer_plain _ _ _), loads_editFields b, sameFields_editFields b⟩

variable {b}

/-- The edited file is restored when the state accepts its id and its generation. -/
theorem edited_restored (hP : P.Correct) (hok : ∀ f ∈ b.info.files, f.Ok) {s : BackupSession}
    (hlogin : s.loggedIn = true) {v : BackupView} (hshows : Shows (s.loadBackupState P) v)
    (haccepts : v.Accepts "y" 9) {path : String} (hpath : '\x00' ∉ path.toList)
    (hne : path ≠ s.statePath "backup_state.bin") (w : Chance) :
    ∃ r t, restoreE2eeBackup P L path b.passphrase true false w
      { s with disk := s.disk.put path (dumpsText (editFields b.outer)) hpath } = (.ok r, t) := by
  set t : BackupSession :=
    { s with disk := s.disk.put path (dumpsText (editFields b.outer)) hpath } with ht
  have hlookup : t.disk.lookup path = some (dumpsText (editFields b.outer)) :=
    (Disk.lookup_put hpath path).trans (if_pos rfl)
  have hstate : t.loadBackupState P = s.loadBackupState P :=
    loadBackupState_congr rfl rfl ((Disk.lookup_put hpath _).trans (if_neg hne.symm))
  have hshows' : Shows (t.loadBackupState P) v := by
    rw [hstate]
    exact hshows
  have hlogin' : t.loggedIn = true := hlogin
  obtain ⟨hid, hg⟩ := outerFields_editFields b
  have hcheck := (checkRevoked_iff hshows' "y" 9).mpr haccepts
  obtain ⟨c, d, state, r, -, -, hrestore⟩ := PackedBackup.restore_eq hok hlogin' hlookup
    (loads_editFields b) (sameFields_editFields b) hP hshows' hid hg hcheck true false w
  exact ⟨r, _, hrestore⟩

end Edit

/-- A revocation by a user who is logged out changes nothing. -/
theorem revoke_out {s : BackupSession} (hlogin : s.loggedIn = false) (w : Chance) :
    (revokeLocalBackups P w s).2 = s := by
  rw [revokeLocalBackups, Method.get_bind]
  cases s.revokedState P w with
  | error e => rfl
  | ok state =>
    show s.saveBackupState P w.stateStamp state = s
    rw [saveBackupState, if_pos hlogin]

/-- Where a revoked backup comes back: with other fields outside of the ciphertext, or when it was
revoked by a user who was logged out. -/
theorem revoked_comes_back :
    (∃ (D : Device) (e : Exported) (text : String) (hpath : '\x00' ∉ "/y".toList) (r : Json)
      (t : BackupSession),
      oneBackup.foldl (Device.step termPrims asciiLibs) ⟨oldDevice, []⟩ = D ∧ e ∈ D.exported ∧
      e.revoked = true ∧ Edited e.text text ∧
      restoreE2eeBackup termPrims asciiLibs "/y" "backup-passphrase" true false zeroChance
        { D.session with disk := D.session.disk.put "/y" text hpath } = (.ok r, t)) ∧
    ∃ (D : Device) (e : Exported) (r : Json) (t : BackupSession),
      Device.step termPrims asciiLibs ⟨oldDevice, []⟩
        (.exportTo "/x" "backup-passphrase" "u" true zeroChance) = D ∧ e ∈ D.exported ∧
      D.session.disk.lookup "/x" = some e.text ∧
      (revokeLocalBackups termPrims zeroChance { D.session with masterKey := [] }).2.disk =
        D.session.disk ∧
      restoreE2eeBackup termPrims asciiLibs "/x" "backup-passphrase" true false zeroChance
        D.session = (.ok r, t) := by
  have hP := termPrims_symbolic.toCorrect
  have hpath : '\x00' ∉ "/y".toList := by decide
  constructor
  · obtain ⟨b, s, hrun, hpass, hok, hlogin, hdir, -, v, hv, haccepts⟩ := oldDevice_revoked
    have hne : "/y" ≠ s.statePath "backup_state.bin" := by
      rw [statePath, hdir]
      decide +kernel
    obtain ⟨r, t, hrestore⟩ := edited_restored hP hok hlogin hv haccepts hpath hne zeroChance
    rw [hpass] at hrestore
    exact ⟨⟨s, _⟩, _, _, hpath, r, t, hrun, List.mem_cons_self, rfl, edited_edited b, hrestore⟩
  · obtain ⟨b, s, -, hstep, hpass, hok, -, -, hkey, hdir, hlookup, v, hv, hbefore, -, hids, -⟩ :=
      oldDevice_exported
    have hlogin : s.loggedIn = true := by
      rw [loggedIn, hkey, hdir]
      decide
    have haccepts : v.Accepts b.info.backupId b.info.generation := by
      simp [BackupView.Accepts, hids, hbefore]
    obtain ⟨r, t, hrestore⟩ :=
      unedited_restored hP hok hlogin hv haccepts hlookup true false zeroChance
    rw [hpass] at hrestore
    have hout : ({ s with masterKey := [] } : BackupSession).loggedIn = false := by simp [loggedIn]
    refine ⟨⟨s, _⟩, _, r, t, hstep, List.mem_cons_self, hlookup, ?_, hrestore⟩
    rw [revoke_out hout]

end SecChat
