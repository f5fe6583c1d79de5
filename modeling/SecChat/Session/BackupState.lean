import SecChat.Python.Dict
import SecChat.Session.BackupFrame

/-!
# The backup state

`backup_state.bin` is a dictionary.  `Shows state v` says that it has the types that the session
writes, and that its fields read as `v`.

* `plain_updateDict`: `dict.update`;
* `loadBackupState_saveBackupState`: what was saved is loaded;
* `shows_noted`, `restoredState_spec`, `revokedState_spec`: what an export, a restore and a
  revocation make of the state;
* `checkRevoked_iff`: which backups are refused.
-/

namespace SecChat

open Py BackupSession

variable {P : Prims} {L : BackupLibs}

theorem plain_updateDict {kvs items : List (String × Json)} (h : (Json.obj kvs).Plain)
    (hitems : ∀ p ∈ items, p.2.Plain) : (Json.obj (updateDict kvs items)).Plain := by
  induction items generalizing kvs with
  | nil => exact h
  | cons p items ih =>
    exact ih (plain_dictSet h (hitems p List.mem_cons_self)) fun q hq =>
      hitems q (List.mem_cons_of_mem _ hq)

/-! ### What the state says -/

/-- The fields of the backup state that matter to a restore. -/
structure BackupView where
  latest : ℤ
  before : ℤ
  ids : List String
  latestId : String
  created : ℤ
  label : String

/-- The state has the types that the session writes, and reads as `v`. -/
structure Shows (state : List (String × Json)) (v : BackupView) : Prop where
  plain : (Json.obj state).Plain
  latest : (Json.obj state).getD "latest_generation" (.int 0) = .ok (.int v.latest)
  before : (Json.obj state).getD "revoked_before_generation" (.int 0) = .ok (.int v.before)
  ids : (Json.obj state).getD "revoked_backup_ids" (.arr []) = .ok (.arr (v.ids.map Json.str))
  latestId : (Json.obj state).getD "latest_backup_id" (.str "") = .ok (.str v.latestId)
  created : (Json.obj state).getD "latest_created_at" (.int 0) = .ok (.int v.created)
  label : (Json.obj state).getD "latest_device_label" (.str "") = .ok (.str v.label)

/-- A device without backups. -/
theorem shows_nil : Shows [] ⟨0, 0, [], "", 0, ""⟩ := by
  constructor <;> simp

section Shows

variable {state : List (String × Json)} {v : BackupView} (h : Shows state v)
include h

theorem Shows.intField_latest : intField (.obj state) "latest_generation" = .ok v.latest := by
  simp [intField, h.latest]

theorem Shows.intField_before :
    intField (.obj state) "revoked_before_generation" = .ok v.before := by
  simp [intField, h.before]

theorem Shows.intField_created : intField (.obj state) "latest_created_at" = .ok v.created := by
  simp [intField, h.created]

theorem Shows.strField_latestId : strField (.obj state) "latest_backup_id" = .ok v.latestId := by
  by_cases hid : v.latestId = "" <;> simp [strField, h.latestId, Json.orElse, hid]

theorem Shows.revokedIds : revokedIds state = .ok (v.ids.filter (· ≠ "")) := by
  have hfilter : ((v.ids.map Json.str).filter Json.truthy).map Json.toStr =
      v.ids.filter (· ≠ "") := by
    rw [List.filter_map, List.map_map]
    exact List.map_id _
  simp only [BackupSession.revokedIds, h.ids, ok_bind, iterValues, hfilter, pure_eq_ok]

end Shows

/-- Neither the id nor the generation is revoked. -/
def BackupView.Accepts (v : BackupView) (id : String) (g : ℤ) : Prop :=
  ¬ (id ≠ "" ∧ id ∈ v.ids) ∧ ¬ (g ≠ 0 ∧ v.before ≠ 0 ∧ g ≤ v.before)

/-- **Which backups are refused**: a revoked id, or a generation up to the last revoked one. -/
theorem checkRevoked_iff {s : BackupSession} {v : BackupView} (h : Shows (s.loadBackupState P) v)
    (id : String) (g : ℤ) :
    s.checkRevoked P id g = .ok () ↔ v.Accepts id g := by
  have hids : id ≠ "" ∧ id ∈ v.ids.filter (· ≠ "") ↔ id ≠ "" ∧ id ∈ v.ids := by
    simp only [List.mem_filter, decide_eq_true_eq]
    tauto
  simp only [checkRevoked, h.revokedIds, h.intField_before, ok_bind, bind_eq_ok_iff, hids, require,
    BackupView.Accepts]
  constructor
  · rintro ⟨_, h₁, h₂⟩
    split at h₁
    · split at h₂
      · next hid hg => exact ⟨hid, hg⟩
      · cases h₂
    · cases h₁
  · rintro ⟨hid, hg⟩
    exact ⟨(), if_pos hid, if_pos hg⟩

/-! ### Saving and loading -/

theorem loadBackupState_of_lookup {s : BackupSession} (hlogin : s.loggedIn = true) {text : String}
    (hfile : s.disk.lookup (s.statePath "backup_state.bin") = some text) {raw : String}
    (hraw : decryptWithKey P s.masterKey (pyStrip text) = .ok (.str raw))
    {state : List (String × Json)} (hstate : loads (encodeUtf8 raw) = .ok (.obj state)) :
    s.loadBackupState P = state := by
  have hnot : ¬ s.loggedIn = false := by simp [hlogin]
  rw [loadBackupState, if_neg hnot, hfile]
  simp only [hraw, ok_bind, loadsBody, hstate]

/-- A device without a backup state. -/
theorem loadBackupState_fresh {s : BackupSession}
    (h : s.disk.lookup (s.statePath "backup_state.bin") = none) : s.loadBackupState P = [] := by
  unfold loadBackupState
  rw [h]
  split <;> rfl

/-- **What was saved is loaded.** -/
theorem loadBackupState_saveBackupState (hP : P.Correct) {s : BackupSession}
    (hlogin : s.loggedIn = true) (w : Stamp) {state : List (String × Json)}
    (hplain : (Json.obj state).Plain) :
    (s.saveBackupState P w state).loadBackupState P = state := by
  have hnul : '\x00' ∉ (s.statePath "backup_state.bin").toList :=
    nul_notMem_pathJoin s.dirNoNul (by decide)
  set token := encryptWithKey P s.masterKey w (dumpsText (.obj state)) with htoken
  obtain ⟨d, hd⟩ := Disk.write_ok hnul s.disk token
  have hnot : ¬ s.loggedIn = false := by simp [hlogin]
  have hsave : s.saveBackupState P w state = { s with disk := d } := by
    rw [saveBackupState, if_neg hnot, tryWrite, ← htoken, hd]
  have hlookup : d.lookup (s.statePath "backup_state.bin") = some token := by
    rw [Disk.lookup_write hd, if_pos rfl]
  have hraw : decryptWithKey P s.masterKey (pyStrip token) = .ok (.str (dumpsText (.obj state))) := by
    rw [htoken, (isToken_encryptWithKey s.masterKey w _).strip, decryptWithKey_encryptWithKey hP]
  rw [hsave]
  exact loadBackupState_of_lookup (s := { s with disk := d }) hlogin hlookup hraw
    (loads_dumps hplain)

/-- The state depends on its file alone. -/
theorem loadBackupState_congr {s s' : BackupSession} (hkey : s'.masterKey = s.masterKey)
    (hdir : s'.secchatDir = s.secchatDir)
    (hfile : s'.disk.lookup (s.statePath "backup_state.bin") =
      s.disk.lookup (s.statePath "backup_state.bin")) :
    s'.loadBackupState P = s.loadBackupState P := by
  have hlogin : s'.loggedIn = s.loggedIn := by simp [loggedIn, hkey, hdir]
  have hpath : s'.statePath "backup_state.bin" = s.statePath "backup_state.bin" := by
    simp [statePath, hdir]
  simp only [loadBackupState, hlogin, hpath, hfile, hkey]

/-! ### What the calls make of it -/

section Calls

variable {state : List (String × Json)} {v : BackupView}

/-- The state after an export. -/
theorem shows_noted (h : Shows state v) (b : BackupInfo) :
    Shows (updateDict state b.noted)
      { v with
        latest := b.generation
        latestId := b.backupId
        created := b.createdAt
        label := b.deviceLabel } := by
  refine ⟨plain_updateDict h.plain ?_, ?_, ?_, ?_, ?_, ?_, ?_⟩
  · simp [BackupInfo.noted]
  all_goals simp [updateDict, BackupInfo.noted, h.before, h.ids]

variable {s : BackupSession}

theorem labelAfter_str {l : String} {o : Opened} {label : Json}
    (h : labelAfter (.str l) o = .ok label) : ∃ l', label = .str l' := by
  unfold labelAfter at h
  split at h
  · cases h
    exact ⟨l, rfl⟩
  · obtain ⟨l', -, hret⟩ := bind_eq_ok_iff.mp h
    cases hret
    exact ⟨l', rfl⟩

/-- The state after a restore, if it gets that far. -/
theorem shows_restoredState (h : Shows (s.loadBackupState P) v) {o : Opened} {w : Chance}
    (hstate : s.restoredState P o w = .ok state) :
    ∃ created label, Shows state
      { v with
        latest := max v.latest o.generation
        latestId := if v.latestId = "" then o.backupId else v.latestId
        created := created
        label := label } := by
  simp only [restoredState, h.latestId, h.intField_latest, h.intField_created, h.label, ok_bind,
    bind_eq_ok_iff] at hstate
  obtain ⟨created, -, label, hlabel, cache, -, includeCache, -, hret⟩ := hstate
  simp only [pure_eq_ok, Except.ok.injEq] at hret
  subst hret
  obtain ⟨l, rfl⟩ := labelAfter_str hlabel
  have hid : (Json.str v.latestId).orElse (.str o.backupId) =
      .str (if v.latestId = "" then o.backupId else v.latestId) := by
    by_cases hempty : v.latestId = "" <;> simp [Json.orElse, hempty]
  refine ⟨created, l, plain_updateDict h.plain ?_, ?_, ?_, ?_, ?_, ?_, ?_⟩
  · simp [hid]
  all_goals simp [updateDict, h.before, h.ids, hid]

/-- A restore of what an export packed notes itself. -/
theorem restoredState_returns (h : Shows (s.loadBackupState P) v) (b : BackupInfo) (id : String)
    (g : ℤ) (w : Chance) :
    ∃ state, s.restoredState P ⟨b.manifest, b.payload, id, g⟩ w = .ok state := by
  have hcreated : ∀ n, ∃ m, createdAfter n ⟨b.manifest, b.payload, id, g⟩ = .ok m := by
    intro n
    unfold createdAfter
    split
    · exact ⟨n, rfl⟩
    · exact ⟨b.createdAt, by simp [BackupInfo.payload, BackupInfo.manifest]⟩
  have hlabel : ∀ l, ∃ l', labelAfter l ⟨b.manifest, b.payload, id, g⟩ = .ok l' := by
    intro l
    unfold labelAfter
    split
    · exact ⟨l, rfl⟩
    · exact ⟨_, by simp only [strField, BackupInfo.manifest, Json.getD_cons]; rfl⟩
  have hcache : ∀ c, ∃ c', cacheAfter c ⟨b.manifest, b.payload, id, g⟩ = .ok c' := by
    intro c
    unfold cacheAfter
    split
    · exact ⟨true, rfl⟩
    · exact ⟨_, by simp only [boolField, BackupInfo.payload, Json.getD_cons]; rfl⟩
  obtain ⟨latestCache, hlatest⟩ : ∃ j,
      (Json.obj (s.loadBackupState P)).getD "latest_include_cache" (.bool false) = .ok j := ⟨_, rfl⟩
  obtain ⟨created, hcreated⟩ := hcreated v.created
  obtain ⟨label, hlabel⟩ := hlabel (.str v.label)
  obtain ⟨cache, hcache⟩ := hcache latestCache
  simp only [restoredState, h.latestId, h.intField_latest, h.intField_created, h.label, ok_bind,
    hcreated, hlabel, hlatest, hcache]
  exact ⟨_, rfl⟩

/-- The state after a revocation. -/
theorem shows_revokedState (h : Shows (s.loadBackupState P) v) (w : Chance) :
    ∃ state ids, s.revokedState P w = .ok state ∧
      Shows state { v with ids := ids, before := max v.before v.latest } ∧
      ∀ id, id ≠ "" → (id ∈ ids ↔ id ∈ v.ids ∨ id = v.latestId) := by
  set known := if v.latestId ≠ "" then v.latestId :: v.ids.filter (· ≠ "")
    else v.ids.filter (· ≠ "") with hknown
  set ids := known.dedup.insertionSort (· ≤ ·) with hids
  refine ⟨updateDict (s.loadBackupState P) [("revoked_backup_ids", .arr (ids.map Json.str)),
    ("revoked_before_generation", .int (max v.before v.latest)), ("revoked_at", .int w.now)],
    ids, ?_, ?_, ?_⟩
  · simp only [revokedState, h.strField_latestId, h.intField_latest, h.revokedIds,
      h.intField_before, ok_bind, pure_eq_ok]
    rfl
  · refine ⟨plain_updateDict h.plain ?_, ?_, ?_, ?_, ?_, ?_, ?_⟩
    · have hplain : Json.Plain (.arr (ids.map Json.str)) := by
        rw [Json.Plain, plainItems_iff]
        intro j hj
        obtain ⟨id, -, rfl⟩ := List.mem_map.mp hj
        exact Json.plain_str id
      simp [hplain]
    all_goals simp [updateDict, h.latest, h.latestId, h.created, h.label]
  · intro id hid
    rw [hids, List.mem_insertionSort, List.mem_dedup, hknown]
    split
    · simp [hid]
      tauto
    · next hempty =>
      simp only [ne_eq, not_not] at hempty
      simp [hid, hempty]

end Calls

end SecChat
