import SecChat.Session.Backup

/-!
# What backups leave alone

* `SameBut`, `Keeps`: what a call leaves alone, with the rules for sequences;
* `restore_keeps`: a restore touches only allowed names of its directory, their temporary files and
  the backup state, whatever the file says and wherever it stops.
-/

namespace SecChat

open Py BackupSession

variable {P : Prims} {L : BackupLibs}

/-! ### Names -/

theorem bin_suffix_of_allowed {name : String} (h : backupNameAllowed name = true) :
    ".bin".toList <:+ name.toList := by
  obtain ⟨-, -, hany⟩ : basename name = name ∧ name ≠ "" ∧
      backupPatterns.any (fnmatchcase name ·) = true := by simpa [backupNameAllowed] using h
  obtain ⟨pattern, hmem, hmatch⟩ := List.any_eq_true.mp hany
  have hpattern : ∀ q ∈ backupPatterns, ".bin".toList <:+ q.toList := by decide
  obtain ⟨pre, hpre⟩ := hpattern pattern hmem
  rw [fnmatchcase, ← hpre] at hmatch
  exact suffix_of_wildMatch (by decide) hmatch

theorem slash_notMem_of_allowed {name : String} (h : backupNameAllowed name = true) :
    '/' ∉ name.toList := by
  obtain ⟨hbase, -⟩ : basename name = name ∧ name ≠ "" ∧
      backupPatterns.any (fnmatchcase name ·) = true := by simpa [backupNameAllowed] using h
  rw [← hbase]
  exact slash_notMem_basename name

theorem tmp_not_allowed (name : String) : backupNameAllowed (name ++ ".tmp") = false := by
  rw [Bool.eq_false_iff]
  intro h
  have hlast := (bin_suffix_of_allowed h).getLast (by decide)
  simp at hlast

theorem state_not_allowed : backupNameAllowed "backup_state.bin" = false := by decide +kernel

theorem isComponent_of_suffix {name : String} (hslash : '/' ∉ name.toList)
    (hlen : 2 < name.toList.length) : IsComponent name := by
  refine ⟨hslash, ?_, ?_, ?_⟩ <;>
    · rintro rfl
      revert hlen
      decide

/-- The names that the loop of a restore may touch. -/
def ItemName (base : String) : Prop :=
  backupNameAllowed base = true ∨ ∃ name, backupNameAllowed name = true ∧ base = name ++ ".tmp"

/-- The names that a restore may touch. -/
def RestoreName (base : String) : Prop := ItemName base ∨ base = "backup_state.bin"

theorem slash_notMem_tmp {name : String} (h : '/' ∉ name.toList) :
    '/' ∉ (name ++ ".tmp").toList := by
  rw [String.toList_append, List.mem_append, not_or]
  exact ⟨h, by decide⟩

theorem RestoreName.isComponent {base : String} (h : RestoreName base) : IsComponent base := by
  rcases h with (h | ⟨name, h, rfl⟩) | rfl
  · have hlen := (bin_suffix_of_allowed h).length_le
    exact isComponent_of_suffix (slash_notMem_of_allowed h) (lt_of_lt_of_le (by decide) hlen)
  · have hlen := (bin_suffix_of_allowed h).length_le
    refine isComponent_of_suffix (slash_notMem_tmp (slash_notMem_of_allowed h)) ?_
    rw [String.toList_append, List.length_append]
    exact Nat.lt_add_right _ (lt_of_lt_of_le (by decide) hlen)
  · exact isComponent_of_suffix (by decide) (by decide)

theorem ItemName.ne_state {base : String} (h : ItemName base) : base ≠ "backup_state.bin" := by
  rintro rfl
  rcases h with h | ⟨name, h, heq⟩
  · rw [state_not_allowed] at h
    cases h
  · have hsuffix : ".tmp".toList <:+ "backup_state.bin".toList := by
      rw [heq, String.toList_append]
      exact List.suffix_append _ _
    revert hsuffix
    decide

/-- A path of the directory that the loop of a restore may touch. -/
def ItemPath (dir path : String) : Prop := ∃ base, ItemName base ∧ path = pathJoin dir base

/-- A path of the directory that a restore may touch. -/
def Touched (dir path : String) : Prop := ∃ base, RestoreName base ∧ path = pathJoin dir base

theorem ItemPath.touched {dir path : String} (h : ItemPath dir path) : Touched dir path := by
  obtain ⟨base, hbase, rfl⟩ := h
  exact ⟨base, .inl hbase, rfl⟩

theorem ItemPath.ne_state {dir path : String} (h : ItemPath dir path) :
    path ≠ pathJoin dir "backup_state.bin" := by
  obtain ⟨base, hbase, rfl⟩ := h
  intro heq
  have hcomponent := RestoreName.isComponent (.inl hbase)
  exact hbase.ne_state (pathJoin_injective hcomponent.1 (by decide) heq)

theorem pathJoin_tmp {name : String} (h : '/' ∉ name.toList) (dir : String) :
    pathJoin dir name ++ ".tmp" = pathJoin dir (name ++ ".tmp") := by
  rw [← String.toList_inj, String.toList_append, toList_pathJoin h,
    toList_pathJoin (slash_notMem_tmp h),
    String.toList_append, List.append_assoc]

/-! ### What a call leaves alone -/

/-- The keys are the same, and every file outside of `A` is. -/
structure SameBut (A : String → Prop) (s s' : BackupSession) : Prop where
  masterKey : s'.masterKey = s.masterKey
  secchatDir : s'.secchatDir = s.secchatDir
  lookup : ∀ p, ¬ A p → s'.disk.lookup p = s.disk.lookup p

theorem SameBut.refl (A : String → Prop) (s : BackupSession) : SameBut A s s :=
  ⟨rfl, rfl, fun _ _ => rfl⟩

theorem SameBut.trans {A : String → Prop} {s₁ s₂ s₃ : BackupSession} (h : SameBut A s₁ s₂)
    (h' : SameBut A s₂ s₃) : SameBut A s₁ s₃ :=
  ⟨h'.masterKey.trans h.masterKey, h'.secchatDir.trans h.secchatDir,
    fun p hp => (h'.lookup p hp).trans (h.lookup p hp)⟩

theorem SameBut.mono {A B : String → Prop} {s s' : BackupSession} (h : SameBut A s s')
    (hAB : ∀ p, A p → B p) : SameBut B s s' :=
  ⟨h.masterKey, h.secchatDir, fun p hp => h.lookup p fun ha => hp (hAB p ha)⟩

theorem sameBut_disk {A : String → Prop} {s : BackupSession} {d : Disk}
    (h : ∀ p, ¬ A p → d.lookup p = s.disk.lookup p) : SameBut A s { s with disk := d } :=
  ⟨rfl, rfl, h⟩

theorem sameBut_tryWrite {A : String → Prop} (s : BackupSession) {path : String} (text : String)
    (h : A path) : SameBut A s (s.tryWrite path text) := by
  unfold tryWrite
  split
  · next d hd =>
    refine sameBut_disk fun p hp => ?_
    rw [Disk.lookup_write hd, if_neg fun heq : p = path => hp (heq ▸ h)]
  · exact SameBut.refl A s

/-- In the directory `dir` the call leaves everything outside of `A` alone, also when it raises. -/
def Keeps {α : Type} (dir : String) (A : String → Prop) (x : Method BackupSession α) : Prop :=
  ∀ s, s.secchatDir = dir → SameBut A s (x s).2

section Keeps

variable {α β : Type} {dir : String} {A : String → Prop}

theorem keeps_pure (a : α) : Keeps dir A (pure a) := fun s _ => SameBut.refl A s

theorem keeps_raise (e : Exn) : Keeps dir A (Method.raise e : Method BackupSession α) :=
  fun s _ => SameBut.refl A s

theorem keeps_ofExcept (x : Except Exn α) : Keeps dir A (Method.ofExcept x) :=
  fun s _ => SameBut.refl A s

theorem keeps_modify {f : BackupSession → BackupSession}
    (h : ∀ s, s.secchatDir = dir → SameBut A s (f s)) : Keeps dir A (Method.modify f) := h

theorem keeps_bind {x : Method BackupSession α} {f : α → Method BackupSession β}
    (hx : Keeps dir A x) (hf : ∀ a, Keeps dir A (f a)) : Keeps dir A (x >>= f) := by
  intro s hs
  have hfirst := hx s hs
  rw [Method.bind_run]
  cases hr : x s with
  | mk r s₁ =>
    rw [hr] at hfirst
    cases r with
    | error e => exact hfirst
    | ok a => exact hfirst.trans (hf a s₁ (hfirst.secchatDir.trans hs))

/-- A call that starts by reading the object. -/
theorem keeps_get_bind {f : BackupSession → Method BackupSession β}
    (h : ∀ s, s.secchatDir = dir → Keeps dir A (f s)) : Keeps dir A (Method.get >>= f) :=
  fun s hs => h s hs s hs

theorem keeps_write {path : String} (text : String) (h : A path) :
    Keeps dir A (onDisk fun d => d.write path text) := by
  intro s _
  unfold onDisk
  split
  · next d hd =>
    refine sameBut_disk fun p hp => ?_
    rw [Disk.lookup_write hd, if_neg fun heq : p = path => hp (heq ▸ h)]
  · exact SameBut.refl A s

theorem lookup_replace {d d' : Disk} {src dst : String} (h : d.replace src dst = .ok d')
    (p : String) :
    d'.lookup p = if p = dst then d.lookup src else if p = src then none else d.lookup p := by
  unfold Disk.replace at h
  split at h
  · cases h
  · next text htext =>
    rw [Disk.lookup_write h, Disk.lookup_remove, htext]

theorem keeps_replace {src dst : String} (hsrc : A src) (hdst : A dst) :
    Keeps dir A (onDisk fun d => d.replace src dst) := by
  intro s _
  unfold onDisk
  split
  · next d hd =>
    refine sameBut_disk fun p hp => ?_
    rw [lookup_replace hd, if_neg fun heq : p = dst => hp (heq ▸ hdst),
      if_neg fun heq : p = src => hp (heq ▸ hsrc)]
  · exact SameBut.refl A s

end Keeps

/-! ### A restore stays in its directory -/

theorem restoreItem_keeps (w : Chance) (overwrite preserve : Bool) (i : ℕ) (item : Json)
    (dir : String) : Keeps dir (ItemPath dir) (restoreItem P w overwrite preserve i item) := by
  refine keeps_get_bind fun s hs => keeps_bind (keeps_ofExcept _) fun field => ?_
  dsimp only
  split
  · exact keeps_pure _
  next hallowed =>
  refine keeps_bind (keeps_ofExcept _) fun lineMode => ?_
  split
  · exact keeps_pure _
  split
  · exact keeps_pure _
  refine keeps_bind (keeps_ofExcept _) fun raw => ?_
  split
  · exact keeps_pure _
  have hname : backupNameAllowed (basename field.toStr) = true := by simpa using hallowed
  have hslash := slash_notMem_of_allowed hname
  have hdst : ItemPath dir (s.statePath (basename field.toStr)) :=
    ⟨_, .inl hname, by rw [statePath, hs]⟩
  have htmp : ItemPath dir (s.statePath (basename field.toStr) ++ ".tmp") :=
    ⟨_, .inr ⟨_, hname, rfl⟩, by rw [statePath, hs, pathJoin_tmp hslash]⟩
  refine keeps_bind (keeps_write _ htmp) fun _ => ?_
  exact keeps_bind (keeps_replace htmp hdst) fun _ => keeps_pure _

theorem restoreItems_keeps (w : Chance) (overwrite preserve : Bool) (i : ℕ) (counts : Counts)
    (items : List Json) (dir : String) :
    Keeps dir (ItemPath dir) (restoreItems P w overwrite preserve i counts items) := by
  induction items generalizing i counts with
  | nil => exact keeps_pure counts
  | cons item items ih =>
    exact keeps_bind (restoreItem_keeps w overwrite preserve i item dir) fun more => ih _ _

theorem createIdentityKey_sameBut (w : Chance) (s : BackupSession) :
    SameBut (· = s.statePath "identity_sk.bin") s (s.createIdentityKey P w) := by
  have hkeys : SameBut (· = s.statePath "identity_sk.bin") s
      { s with identityPk := P.ed25519Public w.identitySeed, identitySk := w.identitySeed.1 } :=
    ⟨rfl, rfl, fun _ _ => rfl⟩
  exact hkeys.trans (sameBut_tryWrite _ _ rfl)

theorem loadOrCreateIdentityKey_sameBut (w : Chance) (s : BackupSession) :
    SameBut (· = s.statePath "identity_sk.bin") s (s.loadOrCreateIdentityKey P w) := by
  unfold loadOrCreateIdentityKey
  split
  · exact SameBut.refl _ s
  split
  · exact createIdentityKey_sameBut w s
  split
  · exact ⟨rfl, rfl, fun _ _ => rfl⟩
  · exact createIdentityKey_sameBut w s

theorem discardMlsState_sameBut (w : Chance) (s : BackupSession) :
    SameBut (· = s.statePath "mls_state.bin") s (s.discardMlsState w) := by
  unfold discardMlsState
  split
  · refine ⟨rfl, rfl, fun p hp => ?_⟩
    rw [Disk.lookup_remove, if_neg hp]
  · exact SameBut.refl _ s

theorem enterMlsState_sameBut (w : Chance) (payload result : Json) (s : BackupSession) :
    SameBut (· = s.statePath "mls_state.bin") s (s.enterMlsState w payload result) := by
  have hdiscard : ∀ t : BackupSession, t.masterKey = s.masterKey → t.secchatDir = s.secchatDir →
      t.disk = s.disk → SameBut (· = s.statePath "mls_state.bin") s (t.discardMlsState w) := by
    intro t hkey hdir hdisk
    have hsame := discardMlsState_sameBut w t
    rw [statePath, hdir] at hsame
    refine SameBut.trans ⟨hkey, hdir, fun p _ => by rw [hdisk]⟩ hsame
  unfold enterMlsState
  dsimp only
  split
  · exact hdiscard _ rfl rfl rfl
  split
  · exact hdiscard _ rfl rfl rfl
  · exact ⟨rfl, rfl, fun _ _ => rfl⟩

theorem loadMlsStateIntoBridge_sameBut (w : Chance) (s : BackupSession) :
    SameBut (· = s.statePath "mls_state.bin") s (s.loadMlsStateIntoBridge P w) := by
  have hbridge : SameBut (· = s.statePath "mls_state.bin") s { s with mlsBridge := true } :=
    ⟨rfl, rfl, fun _ _ => rfl⟩
  unfold loadMlsStateIntoBridge
  split
  · exact SameBut.refl _ s
  split
  · exact SameBut.refl _ s
  split
  · exact SameBut.refl _ s
  split
  · exact discardMlsState_sameBut w s
  split
  · exact SameBut.refl _ s
  split
  · exact hbridge.trans (discardMlsState_sameBut w { s with mlsBridge := true })
  · exact hbridge.trans (enterMlsState_sameBut w _ _ { s with mlsBridge := true })

/-- The files that a reload may change. -/
def Reloaded (s : BackupSession) (p : String) : Prop :=
  p = s.statePath "identity_sk.bin" ∨ p = s.statePath "mls_state.bin"

theorem reload_sameBut (w : Chance) (preserve : Bool) (s : BackupSession) :
    SameBut (Reloaded s) s (s.reload P w preserve) := by
  unfold reload
  split
  · exact (loadOrCreateIdentityKey_sameBut w s).mono fun p hp => .inl hp
  · have hdrop : SameBut (Reloaded s) s s.dropBridge := ⟨rfl, rfl, fun _ _ => rfl⟩
    have hidentity := loadOrCreateIdentityKey_sameBut (P := P) w s.dropBridge
    have hmls := loadMlsStateIntoBridge_sameBut (P := P) w (s.dropBridge.loadOrCreateIdentityKey P w)
    rw [statePath, hidentity.secchatDir] at hmls
    exact (hdrop.trans (hidentity.mono fun p hp => .inl hp)).trans (hmls.mono fun p hp => .inr hp)

theorem saveBackupState_sameBut (w : Stamp) (state : List (String × Json)) (s : BackupSession) :
    SameBut (· = s.statePath "backup_state.bin") s (s.saveBackupState P w state) := by
  unfold saveBackupState
  split
  · exact SameBut.refl _ s
  · exact sameBut_tryWrite s _ rfl

theorem saveMlsState_sameBut (w : Chance) (s : BackupSession) :
    SameBut (· = s.statePath "mls_state.bin") s (s.saveMlsState P w) := by
  unfold saveMlsState
  split
  · exact SameBut.refl _ s
  split
  · exact SameBut.refl _ s
  split
  · exact SameBut.refl _ s
  split
  · exact SameBut.refl _ s
  · exact sameBut_tryWrite s _ rfl

theorem SameBut.loggedIn {A : String → Prop} {s s' : BackupSession} (h : SameBut A s s') :
    s'.loggedIn = s.loggedIn := by
  simp [BackupSession.loggedIn, h.masterKey, h.secchatDir]

theorem SameBut.statePath {A : String → Prop} {s s' : BackupSession} (h : SameBut A s s')
    (name : String) : s'.statePath name = s.statePath name := by
  simp [BackupSession.statePath, h.secchatDir]

theorem touched_state {s : BackupSession} {p : String} (h : p = s.statePath "backup_state.bin") :
    Touched s.secchatDir p := ⟨_, .inr rfl, h⟩

theorem itemPath_of_reloaded {s : BackupSession} {p : String} (h : Reloaded s p) :
    ItemPath s.secchatDir p := by
  rcases h with h | h
  · exact ⟨_, .inl (by decide +kernel), h⟩
  · exact ⟨_, .inl (by decide +kernel), h⟩

/-- **A restore touches nothing but its own names in its own directory**, whatever the file holds. -/
theorem restore_keeps (path passphrase : String) (overwrite preserve : Bool) (w : Chance)
    (dir : String) :
    Keeps dir (Touched dir) (restoreE2eeBackup P L path passphrase overwrite preserve w) := by
  refine keeps_get_bind fun s _ => ?_
  split
  · exact keeps_raise _
  split
  · exact keeps_raise _
  refine keeps_bind (keeps_ofExcept _) fun o => keeps_bind (keeps_ofExcept _) fun items => ?_
  refine keeps_bind (fun s hs => ?_) fun counts => ?_
  · exact (restoreItems_keeps w overwrite preserve 0 _ items dir s hs).mono fun p => ItemPath.touched
  refine keeps_bind (keeps_modify fun s hs => ?_) fun _ => ?_
  · exact (reload_sameBut w preserve s).mono fun p hp =>
      hs ▸ (itemPath_of_reloaded hp).touched
  refine keeps_get_bind fun s _ => keeps_bind (keeps_ofExcept _) fun state => ?_
  refine keeps_bind (keeps_modify fun s hs => ?_) fun _ => keeps_ofExcept _
  exact (saveBackupState_sameBut w.stateStamp state s).mono fun p hp => hs ▸ touched_state hp

end SecChat
