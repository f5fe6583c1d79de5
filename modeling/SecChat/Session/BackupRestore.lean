import SecChat.Session.BackupState

/-!
# Restoring what an export packed

* `PackedBackup`: a backup as an export packs it, and its file;
* `PackedBackup.openBackup_of_sameFields`: the file is accepted, also when `backup_id` and
  `generation` outside of the ciphertext were edited, if the check of these passes;
* `restoreItems_writes`: its files are written under the new master key.
-/

namespace SecChat

open Py BackupSession

variable {P : Prims} {L : BackupLibs}

/-! ### What an export packed -/

theorem loads_dumpsText {j : Json} (h : j.Plain) : loads (encodeUtf8 (dumpsText j)) = .ok j :=
  loads_dumps h

@[simp] theorem unb64_b64encode (raw : Bytes) : unb64 (.str (b64encode raw)) = .ok raw := by
  have hascii : (b64encode raw).toList.all (·.toNat < 128) = true := by
    rw [List.all_eq_true]
    intro c hc
    have hrange := (b64encode_chars raw c hc).1
    simp only [decide_eq_true_eq]
    omega
  simp only [unb64, Json.toStr_str, hascii, if_true, b64decode_b64encode]

theorem require_of {c : Prop} [Decidable c] (h : c) (msg : String) : require c msg = .ok () :=
  if_pos h

/-- The entries of every file are texts. -/
def BackupInfo.Texts (b : BackupInfo) : Prop :=
  ∀ f ∈ b.files, ∃ bodies : List String, f.entries = bodies.map Json.str

namespace BackupInfo

variable (b : BackupInfo)

theorem manifest_plain : b.manifest.Plain := by
  simp [manifest]

theorem payload_plain (h : b.Texts) : b.payload.Plain := by
  have hfiles : Json.Plain (.arr (b.files.map BackupFile.json)) := by
    rw [Json.Plain, plainItems_iff]
    intro x hx
    obtain ⟨f, hf, rfl⟩ := List.mem_map.mp hx
    obtain ⟨bodies, hbodies⟩ := h f hf
    have hentries : Json.Plain (.arr f.entries) := by
      rw [Json.Plain, plainItems_iff, hbodies]
      intro y hy
      obtain ⟨body, -, rfl⟩ := List.mem_map.mp hy
      exact Json.plain_str body
    simp [BackupFile.json, hentries]
  simp [payload, manifest_plain, hfiles]

theorem outer_plain (salt nonce ct : Bytes) : (b.outer salt nonce ct).Plain := by
  simp [outer, manifest_plain]

theorem manifest_truthy : b.manifest.truthy = true := rfl

theorem manifest_pyEq : b.manifest.pyEq b.manifest = true := by
  simp [manifest, Json.pyEq, Json.pyEqMembers, List.lookup_cons, Json.numKey]

variable (salt nonce ct : Bytes)

theorem outerManifest_outer : outerManifest (b.outer salt nonce ct) = .ok b.manifest := by
  simp [outerManifest, outer, Json.orElse, manifest_truthy]

theorem outerBackupId_outer : outerBackupId (b.outer salt nonce ct) = .ok b.backupId := by
  have hv : (b.outer salt nonce ct).getD "backup_id" (.str "") = .ok (.str b.backupId) := by
    simp [outer]
  have hm : b.manifest.getD "backup_id" (.str "") = .ok (.str b.backupId) := by simp [manifest]
  by_cases h : b.backupId = ""
  · simp [outerBackupId, outerManifest_outer, eitherField, hv, hm, Json.orElse, h]
  · simp [outerBackupId, outerManifest_outer, eitherField, hv, h]

theorem outerGeneration_outer : outerGeneration (b.outer salt nonce ct) = .ok b.generation := by
  have hv : (b.outer salt nonce ct).getD "generation" (.int 0) = .ok (.int b.generation) := by
    simp [outer]
  have hm : b.manifest.getD "generation" (.int 0) = .ok (.int b.generation) := by simp [manifest]
  by_cases h : b.generation = 0
  · simp [outerGeneration, outerManifest_outer, eitherField, hv, hm, Json.orElse, h]
  · simp [outerGeneration, outerManifest_outer, eitherField, hv, h]

end BackupInfo

/-- A backup file in which `backup_id` and `generation` may be edited or missing. -/
def SameFields (outer outer' : Json) : Prop :=
  ∃ kvs kvs', outer = .obj kvs ∧ outer' = .obj kvs' ∧
    ∀ k, k ≠ "backup_id" → k ≠ "generation" → kvs'.lookup k = kvs.lookup k

theorem SameFields.getD {outer outer' : Json} (h : SameFields outer outer') {k : String}
    (hid : k ≠ "backup_id") (hg : k ≠ "generation") (d : Json) :
    outer'.getD k d = outer.getD k d := by
  obtain ⟨kvs, kvs', rfl, rfl, hsame⟩ := h
  simp [Json.getD, hsame k hid hg]

theorem SameFields.getItem {outer outer' : Json} (h : SameFields outer outer') {k : String}
    (hid : k ≠ "backup_id") (hg : k ≠ "generation") : outer'.getItem k = outer.getItem k := by
  obtain ⟨kvs, kvs', rfl, rfl, hsame⟩ := h
  simp [Json.getItem, hsame k hid hg]

theorem sameFields_self (b : BackupInfo) (salt nonce ct : Bytes) :
    SameFields (b.outer salt nonce ct) (b.outer salt nonce ct) :=
  ⟨_, _, rfl, rfl, fun _ _ _ => rfl⟩

/-- A backup as an export packs it: its contents and how they are encrypted. -/
structure PackedBackup (P : Prims) (L : BackupLibs) where
  info : BackupInfo
  texts : info.Texts
  passphrase : String
  salt : Bytes
  nonce : Bytes
  key : Bytes
  backupKey_eq : backupKey L passphrase salt backupKdfIters = .ok key

namespace PackedBackup

variable (b : PackedBackup P L)

/-- The file of the backup. -/
def outer : Json :=
  b.info.outer b.salt b.nonce
    (P.aesgcmEncrypt b.key b.nonce (dumps b.info.payload) (canonicalBackupManifest b.info.manifest))

variable {b} {outer : Json} (h : SameFields b.outer outer)
include h

theorem outerManifest_of_sameFields : outerManifest outer = .ok b.info.manifest := by
  have hself := b.info.outerManifest_outer b.salt b.nonce (P.aesgcmEncrypt b.key b.nonce
    (dumps b.info.payload) (canonicalBackupManifest b.info.manifest))
  rw [outerManifest, h.getD (by decide) (by decide)]
  exact hself

theorem decryptPayload_of_sameFields (hP : P.Correct) :
    decryptPayload P L outer b.info.manifest b.passphrase = .ok b.info.payload := by
  have hsalt : outer.getItem "salt" = .ok (.str (b64encode b.salt)) := by
    rw [h.getItem (by decide) (by decide)]
    simp [PackedBackup.outer, BackupInfo.outer]
  have hiters : outer.getD "iterations" (.int backupKdfIters) = .ok (.int backupKdfIters) := by
    rw [h.getD (by decide) (by decide)]
    simp [PackedBackup.outer, BackupInfo.outer]
  have hnonce : outer.getItem "nonce" = .ok (.str (b64encode b.nonce)) := by
    rw [h.getItem (by decide) (by decide)]
    simp [PackedBackup.outer, BackupInfo.outer]
  have hct : outer.getItem "ciphertext" = .ok (.str (b64encode (P.aesgcmEncrypt b.key b.nonce
      (dumps b.info.payload) (canonicalBackupManifest b.info.manifest)))) := by
    rw [h.getItem (by decide) (by decide)]
    simp [PackedBackup.outer, BackupInfo.outer]
  simp [decryptPayload, hsalt, hiters, hnonce, hct, b.backupKey_eq, BackupInfo.manifest_truthy,
    hP.decrypt_encrypt, loads_dumps (b.info.payload_plain b.texts)]

/-- **The file of a backup is accepted**, when the check of its outer fields passes. -/
theorem openBackup_of_sameFields (hP : P.Correct) {text : String}
    (htext : loads (encodeUtf8 text) = .ok outer) {id : String} {g : ℤ}
    (hid : outerBackupId outer = .ok id) (hg : outerGeneration outer = .ok g) {t : BackupSession}
    (hcheck : t.checkRevoked P id g = .ok ()) :
    t.openBackup P L text b.passphrase = .ok ⟨b.info.manifest, b.info.payload, id, g⟩ := by
  have hformat : outer.getD "format" .null = .ok (.str backupFormat) := by
    rw [h.getD (by decide) (by decide)]
    simp [PackedBackup.outer, BackupInfo.outer]
  have hpayload := decryptPayload_of_sameFields h hP
  have hversion : intField b.info.payload "version" = .ok backupVersion := by
    simp [intField, BackupInfo.payload]
  have hpformat : b.info.payload.getD "format" .null = .ok (.str backupFormat) := by
    simp [BackupInfo.payload]
  have hpmanifest : b.info.payload.getD "manifest" .null = .ok b.info.manifest := by
    simp [BackupInfo.payload]
  have hsupported : (Json.str backupFormat).pyEq (.str backupFormat) = true ∧
      backupMinVersion ≤ backupVersion ∧ backupVersion ≤ backupVersion := by
    refine ⟨by simp [Json.pyEq], by decide, le_refl _⟩
  have hsame : b.info.manifest.truthy = true →
      (b.info.manifest.orElse (.obj [])).pyEq b.info.manifest = true := by
    intro _
    rw [Json.orElse, if_pos b.info.manifest_truthy]
    exact b.info.manifest_pyEq
  simp only [openBackup, htext, hformat, ok_bind, require_of hsupported.1,
    outerManifest_of_sameFields h, hid, hg, hcheck, hpayload, hversion, hpformat,
    require_of hsupported, hpmanifest, require_of hsame, pure_eq_ok]

end PackedBackup

/-! ### Writing the files of a backup -/

theorem tmp_ne (path : String) : path ++ ".tmp" ≠ path := by
  intro h
  have hlen := congrArg (fun p : String => p.toList.length) h
  simp [String.toList_append] at hlen

/-- A file is written under a temporary name and moved to its own. -/
theorem write_replace {path : String} (hnul : '\x00' ∉ path.toList) (d : Disk) (text : String) :
    ∃ d₁ d₂, d.write (path ++ ".tmp") text = .ok d₁ ∧
      d₁.replace (path ++ ".tmp") path = .ok d₂ ∧
      ∀ p, d₂.lookup p =
        if p = path then some text else if p = path ++ ".tmp" then none else d.lookup p := by
  have htmp : '\x00' ∉ (path ++ ".tmp").toList := by
    rw [String.toList_append, List.mem_append, not_or]
    exact ⟨hnul, by decide⟩
  obtain ⟨d₁, h₁⟩ := Disk.write_ok htmp d text
  have hsrc : d₁.lookup (path ++ ".tmp") = some text := by
    rw [Disk.lookup_write h₁, if_pos rfl]
  obtain ⟨d₂, h₂⟩ := Disk.write_ok hnul (d₁.remove (path ++ ".tmp")) text
  have hreplace : d₁.replace (path ++ ".tmp") path = .ok d₂ := by
    rw [Disk.replace, hsrc]
    exact h₂
  refine ⟨d₁, d₂, h₁, hreplace, fun p => ?_⟩
  rw [lookup_replace hreplace, hsrc, Disk.lookup_write h₁]
  split_ifs <;> rfl

/-- What a backup may hold: an allowed name, texts, and one text in a file without lines. -/
structure BackupFile.Ok (f : BackupFile) : Prop where
  allowed : backupNameAllowed f.name = true
  noNul : '\x00' ∉ f.name.toList
  texts : ∃ bodies : List String, f.entries = bodies.map Json.str
  single : f.lineMode = false → f.entries.length ≤ 1

theorem BackupFile.json_fields (f : BackupFile) :
    f.json.getD "name" (.str "") = .ok (.str f.name) ∧ boolField f.json "line_mode" = .ok f.lineMode ∧
      f.json.getD "entries" (.arr []) = .ok (.arr f.entries) := by
  refine ⟨?_, ?_, ?_⟩ <;> simp [BackupFile.json, boolField, Json.truthy]

theorem onDisk_ok {f : Disk → Except Exn Disk} {s : BackupSession} {d : Disk}
    (h : f s.disk = .ok d) : onDisk f s = (.ok (), { s with disk := d }) := by
  rw [onDisk, h]

section Items

variable {f : BackupFile} (hf : f.Ok) (w : Chance) (overwrite preserve : Bool) (i : ℕ)
  (s : BackupSession)
include hf

theorem BackupFile.Ok.path_noNul : '\x00' ∉ (s.statePath f.name).toList :=
  nul_notMem_pathJoin s.dirNoNul hf.noNul

/-- A file of a backup never makes the loop raise. -/
theorem restoreItem_returns :
    ∃ c d, restoreItem P w overwrite preserve i f.json s = (.ok c, { s with disk := d }) := by
  obtain ⟨hname, hmode, hentries⟩ := f.json_fields
  have hbase : basename f.name = f.name :=
    basename_of_slash_notMem (slash_notMem_of_allowed hf.allowed)
  have hwrite : ∀ tokens : List String, ∃ d,
      ((onDisk fun d => d.write (s.statePath f.name ++ ".tmp") (fileText f.lineMode tokens)) >>=
        fun _ => (onDisk fun d => d.replace (s.statePath f.name ++ ".tmp") (s.statePath f.name)) >>=
        fun _ => pure (⟨1, tokens.length, 0⟩ : Counts)) s =
      (.ok ⟨1, tokens.length, 0⟩, { s with disk := d }) := by
    intro tokens
    obtain ⟨d₁, d₂, h₁, h₂, -⟩ :=
      write_replace (hf.path_noNul s) s.disk (fileText f.lineMode tokens)
    refine ⟨d₂, ?_⟩
    rw [Method.bind_ok (onDisk_ok h₁), Method.bind_ok (onDisk_ok (s := { s with disk := d₁ }) h₂)]
    rfl
  simp only [restoreItem, Method.get_bind, hname, Method.ofExcept_ok_bind, Json.toStr_str, hbase,
    hf.allowed, Bool.true_eq_false, if_false, hmode, hentries, ok_bind, iterValues]
  split
  · exact ⟨_, s.disk, rfl⟩
  split
  · exact ⟨_, s.disk, rfl⟩
  split
  · exact ⟨_, s.disk, rfl⟩
  · obtain ⟨d, hd⟩ := hwrite _
    exact ⟨_, d, hd⟩

/-- A restore that overwrites puts the texts of the file under the master key. -/
theorem restoreItem_writes {bodies : List String} (hbodies : f.entries = bodies.map Json.str) :
    ∃ tokens d, Sealed (P := P) s.masterKey tokens bodies ∧
      restoreItem P w true false i f.json s = (.ok ⟨1, bodies.length, 0⟩, { s with disk := d }) ∧
      ∀ p, d.lookup p =
        if p = s.statePath f.name then some (fileText f.lineMode tokens)
        else if p = s.statePath f.name ++ ".tmp" then none else s.disk.lookup p := by
  obtain ⟨hname, hmode, hentries⟩ := f.json_fields
  have hbase : basename f.name = f.name :=
    basename_of_slash_notMem (slash_notMem_of_allowed hf.allowed)
  have hstr : (bodies.map Json.str).map Json.toStr = bodies := by
    rw [List.map_map]
    exact List.map_id bodies
  set tokens := bodies.mapIdx fun j body => encryptWithKey P s.masterKey (w.stamp i j) body
    with htokens
  obtain ⟨d₁, d₂, h₁, h₂, hlookup⟩ :=
    write_replace (hf.path_noNul s) s.disk (fileText f.lineMode tokens)
  refine ⟨tokens, d₂, sealed_mapIdx s.masterKey (w.stamp i) bodies, ?_, hlookup⟩
  have hlen : tokens.length = bodies.length := List.length_mapIdx
  simp only [restoreItem, Method.get_bind, hname, Method.ofExcept_ok_bind, Json.toStr_str, hbase,
    hf.allowed, Bool.true_eq_false, if_false, hmode, hentries, ok_bind, iterValues,
    Bool.false_eq_true, false_and, and_false, decide_false, hbodies, hstr]
  rw [← htokens, Method.bind_ok (onDisk_ok h₁),
    Method.bind_ok (onDisk_ok (s := { s with disk := d₁ }) h₂), hlen]
  rfl

end Items

theorem statePath_inj {f g : BackupFile} (hf : f.Ok) (hg : g.Ok) {s : BackupSession}
    (h : s.statePath f.name = s.statePath g.name) : f.name = g.name :=
  pathJoin_injective (slash_notMem_of_allowed hf.allowed) (slash_notMem_of_allowed hg.allowed) h

theorem statePath_ne_tmp {f g : BackupFile} (hf : f.Ok) (hg : g.Ok) (s : BackupSession) :
    s.statePath f.name ≠ s.statePath g.name ++ ".tmp" := by
  intro heq
  have hgslash := slash_notMem_of_allowed hg.allowed
  rw [statePath, statePath, pathJoin_tmp hgslash] at heq
  have hname := pathJoin_injective (slash_notMem_of_allowed hf.allowed) (slash_notMem_tmp hgslash)
    heq
  have hallowed := hf.allowed
  rw [hname, tmp_not_allowed] at hallowed
  cases hallowed

section Loop

variable {files : List BackupFile} (hok : ∀ f ∈ files, f.Ok) (w : Chance)
include hok

/-- The loop over the files of a backup does not raise. -/
theorem restoreItems_returns (overwrite preserve : Bool) (i : ℕ) (counts : Counts)
    (s : BackupSession) :
    ∃ c d, restoreItems P w overwrite preserve i counts (files.map BackupFile.json) s =
      (.ok c, { s with disk := d }) := by
  induction files generalizing i counts s with
  | nil => exact ⟨counts, s.disk, rfl⟩
  | cons f files ih =>
    obtain ⟨c, d, hfirst⟩ := restoreItem_returns (P := P) (hok f List.mem_cons_self) w overwrite
      preserve i s
    obtain ⟨c', d', hrest⟩ := ih (fun g hg => hok g (List.mem_cons_of_mem _ hg)) (i + 1)
      (counts.add c) { s with disk := d }
    refine ⟨c', d', ?_⟩
    rw [List.map_cons, restoreItems, Method.bind_ok hfirst, hrest]

/-- **A restore that overwrites puts every file of the backup under the master key**, and leaves the
others alone. -/
theorem restoreItems_writes (hnodup : (files.map BackupFile.name).Nodup) (i : ℕ) (counts : Counts)
    (s : BackupSession) :
    ∃ c d, restoreItems P w true false i counts (files.map BackupFile.json) s =
        (.ok c, { s with disk := d }) ∧
      (∀ f ∈ files, ∃ tokens bodies, f.entries = bodies.map Json.str ∧
        Sealed (P := P) s.masterKey tokens bodies ∧
        d.lookup (s.statePath f.name) = some (fileText f.lineMode tokens) ∧
        d.lookup (s.statePath f.name ++ ".tmp") = none) ∧
      ∀ p, (∀ f ∈ files, p ≠ s.statePath f.name ∧ p ≠ s.statePath f.name ++ ".tmp") →
        d.lookup p = s.disk.lookup p := by
  induction files generalizing i counts s with
  | nil => exact ⟨counts, s.disk, rfl, by simp, fun p _ => rfl⟩
  | cons f files ih =>
    have hf := hok f List.mem_cons_self
    obtain ⟨bodies, hbodies⟩ := hf.texts
    obtain ⟨tokens, d, hsealed, hfirst, hlookup⟩ :=
      restoreItem_writes (P := P) hf w i s hbodies
    obtain ⟨hnot, hnodup⟩ := List.nodup_cons.mp hnodup
    obtain ⟨c, d', hrest, hfiles, hframe⟩ := ih (fun g hg => hok g (List.mem_cons_of_mem _ hg))
      hnodup (i + 1) (counts.add ⟨1, bodies.length, 0⟩) { s with disk := d }
    -- the rest of the loop does not come back to the first file
    have hapart : ∀ g ∈ files, s.statePath f.name ≠ s.statePath g.name ∧
        s.statePath f.name ≠ s.statePath g.name ++ ".tmp" := fun g hg =>
      ⟨fun heq => hnot (List.mem_map.mpr ⟨g, hg, (statePath_inj hf
        (hok g (List.mem_cons_of_mem _ hg)) heq).symm⟩),
        statePath_ne_tmp hf (hok g (List.mem_cons_of_mem _ hg)) s⟩
    have hapartTmp : ∀ g ∈ files, s.statePath f.name ++ ".tmp" ≠ s.statePath g.name ∧
        s.statePath f.name ++ ".tmp" ≠ s.statePath g.name ++ ".tmp" := fun g hg =>
      ⟨(statePath_ne_tmp (hok g (List.mem_cons_of_mem _ hg)) hf s).symm,
        fun heq => (hapart g hg).1 (String.append_left_inj _ |>.mp heq)⟩
    refine ⟨c, d', ?_, ?_, ?_⟩
    · rw [List.map_cons, restoreItems, Method.bind_ok hfirst, hrest]
    · intro g hg
      rcases List.mem_cons.mp hg with rfl | hg
      · refine ⟨tokens, bodies, hbodies, hsealed, ?_, ?_⟩
        · rw [hframe _ hapart]
          show d.lookup _ = _
          rw [hlookup, if_pos rfl]
        · rw [hframe _ hapartTmp]
          show d.lookup _ = _
          rw [hlookup, if_neg (tmp_ne _), if_pos rfl]
      · exact hfiles g hg
    · intro p hp
      have hhead := hp f List.mem_cons_self
      rw [hframe p fun g hg => hp g (List.mem_cons_of_mem _ hg)]
      show d.lookup p = _
      rw [hlookup, if_neg hhead.1, if_neg hhead.2]

end Loop

/-! ### The whole restore -/

/-- Nothing in the loop and the reload touches the backup state. -/
theorem loadBackupState_of_sameBut {s s' : BackupSession} (h : SameBut (ItemPath s.secchatDir) s s') :
    s'.loadBackupState P = s.loadBackupState P :=
  loadBackupState_congr h.masterKey h.secchatDir (h.lookup _ fun hp => hp.ne_state rfl)

theorem reload_sameBut_items (w : Chance) (preserve : Bool) (s : BackupSession) :
    SameBut (ItemPath s.secchatDir) s (s.reload P w preserve) :=
  (reload_sameBut w preserve s).mono fun _ hp => itemPath_of_reloaded hp

theorem restoreResult_returns (b : BackupInfo) (id : String) (g : ℤ) (c : Counts)
    (preserve : Bool) :
    ∃ r, restoreResult ⟨b.manifest, b.payload, id, g⟩ c preserve = .ok r := by
  have haccount : b.payload.getD "account_username" (.str "") = .ok (.str b.accountUsername) := by
    simp [BackupInfo.payload]
  have huser : intField b.payload "user_id" = .ok b.userId := by simp [intField, BackupInfo.payload]
  have hcache : boolField b.payload "include_cache" = .ok b.includeCache := by
    simp [boolField, BackupInfo.payload, Json.truthy]
  have hcreated : intField b.payload "created_at" = .ok b.createdAt := by
    simp [intField, BackupInfo.payload]
  simp only [restoreResult, haccount, huser, hcache, hcreated, ok_bind]
  exact ⟨_, rfl⟩

section Restore

variable {b : PackedBackup P L} (hok : ∀ f ∈ b.info.files, f.Ok) {t : BackupSession}
  (hlogin : t.loggedIn = true) {path text : String} (hfile : t.disk.lookup path = some text)
  {outer : Json} (hload : loads (encodeUtf8 text) = .ok outer) (hsame : SameFields b.outer outer)
include hok hlogin hfile hload hsame

/-- **The file of a backup is restored** when its outer fields pass the check; the calls that the
restore consists of are named. -/
theorem PackedBackup.restore_eq (hP : P.Correct) {v : BackupView}
    (hshows : Shows (t.loadBackupState P) v) {id : String} {g : ℤ}
    (hid : outerBackupId outer = .ok id) (hg : outerGeneration outer = .ok g)
    (hcheck : t.checkRevoked P id g = .ok ()) (overwrite preserve : Bool) (w : Chance) :
    ∃ c d state r,
      restoreItems P w overwrite preserve 0 ⟨0, 0, 0⟩ (b.info.files.map BackupFile.json) t =
        (.ok c, { t with disk := d }) ∧
      ({ t with disk := d }.reload P w preserve).restoredState P
        ⟨b.info.manifest, b.info.payload, id, g⟩ w = .ok state ∧
      restoreE2eeBackup P L path b.passphrase overwrite preserve w t =
        (.ok r, ({ t with disk := d }.reload P w preserve).saveBackupState P w.stateStamp state) := by
  have hopen := PackedBackup.openBackup_of_sameFields hsame hP hload hid hg hcheck
  have hitems : (do iterValues (← b.info.payload.getD "files" (.arr []))) =
      (.ok (b.info.files.map BackupFile.json) : Except Exn (List Json)) := by
    simp [BackupInfo.payload, iterValues]
  obtain ⟨c, d, hloop⟩ := restoreItems_returns (P := P) hok w overwrite preserve 0 ⟨0, 0, 0⟩ t
  set t₁ : BackupSession := { t with disk := d } with ht₁
  have hkept : SameBut (ItemPath t.secchatDir) t t₁ := by
    have hkeeps := restoreItems_keeps (P := P) w overwrite preserve 0 ⟨0, 0, 0⟩
      (b.info.files.map BackupFile.json) t.secchatDir t rfl
    rwa [hloop] at hkeeps
  have hstate : (t₁.reload P w preserve).loadBackupState P = t.loadBackupState P := by
    rw [loadBackupState_of_sameBut (reload_sameBut_items w preserve t₁),
      loadBackupState_of_sameBut hkept]
  obtain ⟨state, hrestored⟩ := restoredState_returns (s := t₁.reload P w preserve)
    (by rw [hstate]; exact hshows) b.info id g w
  obtain ⟨r, hr⟩ := restoreResult_returns b.info id g c preserve
  refine ⟨c, d, state, r, hloop, hrestored, ?_⟩
  have hnot : ¬ t.loggedIn = false := by simp [hlogin]
  rw [restoreE2eeBackup, Method.get_bind, if_neg hnot, hfile]
  simp only [hopen, Method.ofExcept_ok_bind, hitems]
  rw [Method.bind_ok hloop, Method.modify_bind, Method.get_bind, hrestored, Method.ofExcept_ok_bind,
    Method.modify_bind, hr]
  rfl

omit hok in
/-- A backup that fails the check is refused, and nothing changes. -/
theorem PackedBackup.restore_refused {id : String} {g : ℤ} (hid : outerBackupId outer = .ok id)
    (hg : outerGeneration outer = .ok g) {e : Exn} (hcheck : t.checkRevoked P id g = .error e)
    (passphrase : String) (overwrite preserve : Bool) (w : Chance) :
    restoreE2eeBackup P L path passphrase overwrite preserve w t = (.error e, t) := by
  have hformat : outer.getD "format" .null = .ok (.str backupFormat) := by
    rw [hsame.getD (by decide) (by decide)]
    simp [PackedBackup.outer, BackupInfo.outer]
  have heq : (Json.str backupFormat).pyEq (.str backupFormat) = true := by simp [Json.pyEq]
  have hopen : t.openBackup P L text passphrase = .error e := by
    simp only [openBackup, hload, hformat, ok_bind, require_of heq,
      PackedBackup.outerManifest_of_sameFields hsame, hid, hg, hcheck, error_bind]
  have hnot : ¬ t.loggedIn = false := by simp [hlogin]
  rw [restoreE2eeBackup, Method.get_bind, if_neg hnot, hfile]
  simp only [hopen, Method.ofExcept_error_bind]

end Restore

/-! ### What the reload keeps -/

/-- The bridge takes the MLS state of a backup, or there is no bridge. -/
def BridgeTakes (w : Chance) (body : String) : Prop :=
  w.bridgeAvailable = false ∨
    ∀ payload stateB64, loadsBody (.str body) = .ok payload →
      strField payload "state_b64" = .ok stateB64 → stateB64 ≠ "" →
        ∃ result credential groups, w.importState stateB64 = some result ∧
          eitherField result payload "credential_identity_b64" (.str "") = .ok credential ∧
          mlsGroups payload result = .ok groups

section Reload

variable {w : Chance} {s : BackupSession}

theorem loadOrCreateIdentityKey_mlsBridge (w : Chance) (s : BackupSession) :
    (s.loadOrCreateIdentityKey P w).mlsBridge = s.mlsBridge := by
  have hcreate : (s.createIdentityKey P w).mlsBridge = s.mlsBridge := by
    unfold createIdentityKey tryWrite
    split <;> rfl
  unfold loadOrCreateIdentityKey
  split
  · rfl
  split
  · exact hcreate
  split
  · rfl
  · exact hcreate

/-- A usable identity key stays. -/
theorem loadOrCreateIdentityKey_disk {text body : String} {keys : Bytes × Bytes}
    (hfile : s.disk.lookup (s.statePath "identity_sk.bin") = some text)
    (hbody : decryptWithKey P s.masterKey (pyStrip text) = .ok (.str body))
    (hkeys : parseIdentity P (.str body) = .ok keys) :
    (s.loadOrCreateIdentityKey P w).disk = s.disk := by
  unfold loadOrCreateIdentityKey
  split
  · rfl
  · simp only [hfile, hbody, ok_bind, hkeys]

theorem discardMlsState_disk (h : s.mlsBridge = false ∨ w.bridgeAvailable = false) :
    (s.discardMlsState w).disk = s.disk := by
  have hnot : ¬ (s.mlsBridge = true ∧ w.bridgeAvailable = true) := by
    rcases h with h | h <;> simp [h]
  rw [discardMlsState, if_neg hnot]

/-- An unusable identity key is replaced by a new one. -/
theorem loadOrCreateIdentityKey_unusable (hlogin : s.loggedIn = true) {text body : String}
    (hfile : s.disk.lookup (s.statePath "identity_sk.bin") = some text)
    (hbody : decryptWithKey P s.masterKey (pyStrip text) = .ok (.str body)) {e : Exn}
    (hkeys : parseIdentity P (.str body) = .error e) :
    (s.loadOrCreateIdentityKey P w).disk.lookup (s.statePath "identity_sk.bin") =
      some (encryptWithKey P s.masterKey w.identityStamp (b64encode w.identitySeed.1)) := by
  have hnot : ¬ s.loggedIn = false := by simp [hlogin]
  have hnul : '\x00' ∉ (s.statePath "identity_sk.bin").toList :=
    nul_notMem_pathJoin s.dirNoNul (by decide)
  obtain ⟨d, hd⟩ := Disk.write_ok hnul s.disk
    (encryptWithKey P s.masterKey w.identityStamp (b64encode w.identitySeed.1))
  rw [loadOrCreateIdentityKey, if_neg hnot]
  simp only [hfile, hbody, ok_bind, hkeys, createIdentityKey, tryWrite, hd]
  rw [Disk.lookup_write hd, if_pos rfl]

/-- An MLS state that the bridge refuses is removed. -/
theorem loadMlsStateIntoBridge_refused (hlogin : s.loggedIn = true) {text body : String}
    (hfile : s.disk.lookup (s.statePath "mls_state.bin") = some text) (hne : pyStrip text ≠ "")
    (hbody : decryptWithKey P s.masterKey (pyStrip text) = .ok (.str body)) {payload : Json}
    {stateB64 : String} (hload : loadsBody (.str body) = .ok payload)
    (hstate : strField payload "state_b64" = .ok stateB64) (hstateNe : stateB64 ≠ "")
    (hrefused : w.importState stateB64 = none) (havailable : w.bridgeAvailable = true) :
    (s.loadMlsStateIntoBridge P w).disk.lookup (s.statePath "mls_state.bin") = none := by
  have hnot : ¬ s.loggedIn = false := by simp [hlogin]
  rw [loadMlsStateIntoBridge, if_neg hnot]
  simp only [hfile, if_neg hne, hbody, hload, ok_bind, hstate, pure_eq_ok, if_neg hstateNe,
    hrefused, discardMlsState, havailable, and_self, if_true]
  show (s.disk.remove (s.statePath "mls_state.bin")).lookup (s.statePath "mls_state.bin") = none
  rw [Disk.lookup_remove, if_pos rfl]

/-- An MLS state that the bridge takes stays. -/
theorem loadMlsStateIntoBridge_disk (hbridge : s.mlsBridge = false) {text body : String}
    (hfile : s.disk.lookup (s.statePath "mls_state.bin") = some text)
    (hbody : decryptWithKey P s.masterKey (pyStrip text) = .ok (.str body))
    (htakes : BridgeTakes w body) :
    (s.loadMlsStateIntoBridge P w).disk = s.disk := by
  unfold loadMlsStateIntoBridge
  split
  · rfl
  simp only [hfile]
  split
  · rfl
  simp only [hbody, ok_bind]
  split
  · exact discardMlsState_disk (.inl hbridge)
  next payload stateB64 hpayload =>
  obtain ⟨payload', hload, hfield⟩ := bind_eq_ok_iff.mp hpayload
  obtain ⟨stateB64', hstate, hret⟩ := bind_eq_ok_iff.mp hfield
  simp only [pure_eq_ok, Except.ok.injEq, Prod.mk.injEq] at hret
  obtain ⟨rfl, rfl⟩ := hret
  split
  · rfl
  next hne =>
  rcases htakes with hnone | htakes
  · split
    · exact discardMlsState_disk (s := { s with mlsBridge := true }) (.inr hnone)
    · unfold enterMlsState
      dsimp only
      split
      · rw [discardMlsState_disk (.inr hnone)]
      split
      · rw [discardMlsState_disk (.inr hnone)]
      · rfl
  · obtain ⟨result, credential, groups, himport, hcredential, hgroups⟩ :=
      htakes payload' stateB64' hload hstate hne
    simp only [himport, enterMlsState, hcredential, hgroups]

end Reload

end SecChat
