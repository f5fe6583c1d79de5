import SecChat.Session.BackupState

/-!
# What an export packs

* `mem_stateFilesForBackup`: the files that `_state_files_for_backup` lists;
* `backupFiles_ok`, `backupFiles_complete`: what becomes of them in a backup;
* `packed_of_export`: an export that returned packed a backup and wrote its file;
* `export_returns`: an export of readable files under an accepted passphrase returns.
-/

namespace SecChat

open Py BackupSession

variable {P : Prims} {L : BackupLibs}

/-! ### The files -/

/-- A file that an export takes, when it exists. -/
def Included (includeCache : Bool) (name : String) : Prop :=
  backupNameAllowed name = true ∧ (includeCache = true ∨ isCacheName name = false)

theorem prefix_of_wildMatch {ps cs : List Char} (h : wildMatch ps cs = true) :
    ps.takeWhile (· ≠ '*') <+: cs := by
  induction ps generalizing cs with
  | nil => exact List.nil_prefix
  | cons p ps ih =>
    rw [wildMatch.eq_def] at h
    dsimp only at h
    split_ifs at h with hp
    · rw [List.takeWhile_cons_of_neg (by simp [hp])]
      exact List.nil_prefix
    · cases cs with
      | nil => cases h
      | cons c cs =>
        obtain ⟨rfl, hmatch⟩ : c = p ∧ wildMatch ps cs = true := by simpa using h
        rw [List.takeWhile_cons_of_pos (by simpa using hp)]
        exact List.prefix_cons_inj c |>.mpr (ih hmatch)

theorem isCacheName_iff (name : String) :
    isCacheName name = true ↔ "msgs_".toList <+: name.toList := by
  rw [isCacheName, String.startsWith_string_iff]

/-- A name is a message cache just when its pattern is the last one. -/
theorem isCacheName_of_pattern {name pattern : String} (hp : pattern ∈ backupPatterns)
    (h : fnmatchcase name pattern = true) : isCacheName name = true ↔ pattern = "msgs_*.bin" := by
  have hpre := prefix_of_wildMatch h
  rw [isCacheName_iff]
  constructor
  · intro hcache
    -- two prefixes of one name are comparable
    have hcompare : pattern.toList.takeWhile (· ≠ '*') <+: "msgs_".toList ∨
        "msgs_".toList <+: pattern.toList.takeWhile (· ≠ '*') :=
      List.prefix_or_prefix_of_prefix hpre hcache
    have hall : ∀ q ∈ backupPatterns, (q.toList.takeWhile (· ≠ '*') <+: "msgs_".toList ∨
        "msgs_".toList <+: q.toList.takeWhile (· ≠ '*')) → q = "msgs_*.bin" := by decide
    exact hall pattern hp hcompare
  · rintro rfl
    have hlit : "msgs_*.bin".toList.takeWhile (· ≠ '*') = "msgs_".toList := by decide
    rwa [hlit] at hpre

theorem included_iff {includeCache : Bool} {name : String} :
    Included includeCache name ↔
      backupNameAllowed name = true ∧
        ∃ p ∈ patternsFor includeCache, fnmatchcase name p = true := by
  constructor
  · rintro ⟨hallowed, hcache⟩
    obtain ⟨-, -, hany⟩ : basename name = name ∧ name ≠ "" ∧
        backupPatterns.any (fnmatchcase name ·) = true := by
      simpa [backupNameAllowed] using hallowed
    obtain ⟨p, hp, hmatch⟩ := List.any_eq_true.mp hany
    refine ⟨hallowed, p, List.mem_filter.mpr ⟨hp, ?_⟩, hmatch⟩
    rcases hcache with hcache | hcache
    · simp [hcache]
    · have hne : p ≠ "msgs_*.bin" := by
        intro heq
        rw [(isCacheName_of_pattern hp hmatch).mpr heq] at hcache
        cases hcache
      simp [hne]
  · rintro ⟨hallowed, p, hp, hmatch⟩
    obtain ⟨hp, hcond⟩ := List.mem_filter.mp hp
    refine ⟨hallowed, ?_⟩
    by_cases hcache : isCacheName name = true
    · have heq := (isCacheName_of_pattern hp hmatch).mp hcache
      left
      simpa [heq] using hcond
    · right
      simpa using hcache

section Fold

variable (found : List String) (out : List String)

theorem nodup_foldl_addStateFile (h : (out.map basename).Nodup) :
    ((found.foldl addStateFile out).map basename).Nodup := by
  induction found generalizing out with
  | nil => exact h
  | cons p found ih =>
    rw [List.foldl_cons]
    refine ih _ ?_
    unfold addStateFile
    split
    · exact h
    · next hnot =>
      rw [not_or] at hnot
      rw [List.map_append, List.nodup_append]
      refine ⟨h, List.nodup_singleton _, ?_⟩
      rintro x hx y hy rfl
      rw [List.map_singleton, List.mem_singleton] at hy
      exact hnot.1 (hy ▸ hx)

theorem subset_foldl_addStateFile : ∀ p ∈ out, p ∈ found.foldl addStateFile out := by
  induction found generalizing out with
  | nil => exact fun p hp => hp
  | cons q found ih =>
    intro p hp
    rw [List.foldl_cons]
    refine ih _ p ?_
    unfold addStateFile
    split
    · exact hp
    · exact List.mem_append_left _ hp

theorem of_mem_foldl_addStateFile {p : String} (h : p ∈ found.foldl addStateFile out) :
    p ∈ out ∨ p ∈ found ∧ backupNameAllowed (basename p) = true := by
  induction found generalizing out with
  | nil => exact .inl h
  | cons q found ih =>
    rw [List.foldl_cons] at h
    rcases ih _ h with h | ⟨h, hallowed⟩
    · unfold addStateFile at h
      split at h
      · exact .inl h
      · next hnot =>
        rcases List.mem_append.mp h with h | h
        · exact .inl h
        · rw [List.mem_singleton.mp h]
          refine .inr ⟨List.mem_cons_self, ?_⟩
          simpa using (not_or.mp hnot).2
    · exact .inr ⟨List.mem_cons_of_mem _ h, hallowed⟩

theorem mem_foldl_addStateFile {p : String} (h : p ∈ found)
    (hallowed : backupNameAllowed (basename p) = true) :
    basename p ∈ (found.foldl addStateFile out).map basename := by
  induction found generalizing out with
  | nil => cases h
  | cons q found ih =>
    rw [List.foldl_cons]
    rcases List.mem_cons.mp h with rfl | h
    · have hadded : basename p ∈ (addStateFile out p).map basename := by
        unfold addStateFile
        split
        · next hskip =>
          rcases hskip with hskip | hskip
          · exact hskip
          · rw [hallowed] at hskip
            cases hskip
        · simp
      obtain ⟨p', hp', heq⟩ := List.mem_map.mp hadded
      exact List.mem_map.mpr ⟨p', subset_foldl_addStateFile found _ p' hp', heq⟩
    · exact ih _ h

end Fold

/-- **The files of an export** are those in the directory whose name is included. -/
theorem mem_stateFilesForBackup {s : BackupSession} (hdir : s.secchatDir ≠ "") {ic : Bool}
    {path : String} {lineMode : Bool} :
    (path, lineMode) ∈ s.stateFilesForBackup ic ↔
      ∃ name text, Included ic name ∧ path = s.statePath name ∧ s.disk.lookup path = some text ∧
        lineMode = isCacheName name := by
  rw [stateFilesForBackup, if_neg hdir, List.mem_insertionSort, List.mem_map]
  constructor
  · rintro ⟨p, hp, heq⟩
    obtain ⟨hpath, hmode⟩ := Prod.mk.inj heq
    obtain ⟨hfound, hallowed⟩ :=
      (of_mem_foldl_addStateFile _ _ hp).resolve_left List.not_mem_nil
    obtain ⟨pattern, hpattern, hglob⟩ := List.mem_flatMap.mp hfound
    obtain ⟨⟨text, htext⟩, hjoin, hmatch⟩ := Disk.mem_globDir.mp hglob
    refine ⟨basename p, text, included_iff.mpr ⟨hallowed, pattern, hpattern, hmatch⟩, ?_, ?_,
      hmode.symm⟩
    · rw [← hpath]
      exact hjoin.symm
    · rw [← hpath]
      exact htext
  · rintro ⟨name, text, hincluded, rfl, htext, rfl⟩
    have hslash := slash_notMem_of_allowed hincluded.1
    have hbase : basename (s.statePath name) = name := basename_pathJoin hslash _
    obtain ⟨hallowed, pattern, hpattern, hmatch⟩ := included_iff.mp hincluded
    have hglob : s.statePath name ∈ s.disk.globDir s.secchatDir pattern := by
      rw [Disk.mem_globDir, hbase]
      exact ⟨⟨text, htext⟩, rfl, hmatch⟩
    have hfound := List.mem_flatMap.mpr ⟨pattern, hpattern, hglob⟩
    obtain ⟨p, hp, hpbase⟩ := List.mem_map.mp (mem_foldl_addStateFile _ [] hfound (by rwa [hbase]))
    -- a path of the directory is determined by its last component
    have hpath : p = s.statePath name := by
      obtain ⟨hpfound, -⟩ :=
        (of_mem_foldl_addStateFile _ _ hp).resolve_left List.not_mem_nil
      obtain ⟨q, -, hq⟩ := List.mem_flatMap.mp hpfound
      obtain ⟨-, hjoin, -⟩ := Disk.mem_globDir.mp hq
      rw [← hjoin, hpbase, hbase, statePath]
    refine ⟨p, hp, ?_⟩
    rw [hpath, hbase]

theorem nodup_stateFilesForBackup (s : BackupSession) (ic : Bool) :
    ((s.stateFilesForBackup ic).map fun p => basename p.1).Nodup := by
  unfold stateFilesForBackup
  split
  · exact List.nodup_nil
  · have hnodup := nodup_foldl_addStateFile ((patternsFor ic).flatMap
      (s.disk.globDir s.secchatDir)) [] List.nodup_nil
    refine ((List.perm_insertionSort _ _).map _).nodup_iff.mpr ?_
    rw [List.map_map]
    exact hnodup

/-! ### Their plaintexts -/

/-- Every file that an export takes decrypts to texts. -/
def Readable (P : Prims) (ic : Bool) (s : BackupSession) : Prop :=
  ∀ name text, Included ic name → s.disk.lookup (s.statePath name) = some text →
    ∃ bodies : List String,
      fileEntries P s.masterKey (isCacheName name) text = .ok (bodies.map Json.str)

theorem length_fileEntries {key : Bytes} {text : String} {entries : List Json}
    (h : fileEntries P key false text = .ok entries) : entries.length ≤ 1 := by
  rw [← (mapM_eq_ok h).length_eq]
  exact (List.length_filter_le _ _).trans (le_of_eq rfl)

theorem packFile_eq_ok {s : BackupSession} {p : String × Bool} {f : BackupFile} :
    s.packFile P p = .ok f ↔ ∃ text, s.disk.lookup p.1 = some text ∧
      fileEntries P s.masterKey p.2 text = .ok f.entries ∧ f.name = basename p.1 ∧
      f.lineMode = p.2 := by
  obtain ⟨name, lineMode, entries⟩ := f
  unfold packFile
  cases hfile : s.disk.lookup p.1 with
  | none => simp
  | some text =>
    cases hentries : fileEntries P s.masterKey p.2 text with
    | error e => simp [hentries]
    | ok es =>
      simp only [hentries, ok_bind, pure_eq_ok, Except.ok.injEq, BackupFile.mk.injEq,
        Option.some.injEq, exists_eq_left']
      constructor
      · rintro ⟨hname, hmode, hes⟩
        exact ⟨hes, hname.symm, hmode.symm⟩
      · rintro ⟨hes, hname, hmode⟩
        exact ⟨hname.symm, hmode.symm, hes⟩

theorem names_of_packFiles {s : BackupSession} {l : List (String × Bool)} {files : List BackupFile}
    (h : List.Forall₂ (fun p f => s.packFile P p = .ok f) l files) :
    files.map BackupFile.name = l.map fun p => basename p.1 := by
  induction h with
  | nil => rfl
  | cons hhead _ ih =>
    obtain ⟨text, -, -, hname, -⟩ := packFile_eq_ok.mp hhead
    rw [List.map_cons, List.map_cons, hname, ih]

theorem forall₂_mem_left {α β : Type} {R : α → β → Prop} {l : List α} {l' : List β}
    (h : List.Forall₂ R l l') : ∀ a ∈ l, ∃ b ∈ l', R a b :=
  forall₂_mem_right h.flip

/-- **The files of a backup** are the included ones, with their plaintexts, that have any. -/
theorem backupFiles_spec {s : BackupSession} (hdir : s.secchatDir ≠ "") {ic : Bool}
    {files : List BackupFile} (h : s.backupFiles P ic = .ok files) :
    (files.map BackupFile.name).Nodup ∧
      ∀ f, f ∈ files ↔ f.entries ≠ [] ∧ ∃ text, Included ic f.name ∧
        s.disk.lookup (s.statePath f.name) = some text ∧ f.lineMode = isCacheName f.name ∧
        fileEntries P s.masterKey f.lineMode text = .ok f.entries := by
  obtain ⟨all, hall, hret⟩ := bind_eq_ok_iff.mp h
  simp only [pure_eq_ok, Except.ok.injEq] at hret
  have hrel := mapM_eq_ok hall
  have hnames := names_of_packFiles hrel
  have hmem : ∀ f, f ∈ files ↔ f.entries ≠ [] ∧ f ∈ all := by
    intro f
    rw [← hret, List.mem_filter, and_comm]
    simp
  refine ⟨?_, fun f => ?_⟩
  · rw [← hret]
    refine List.Nodup.sublist (List.Sublist.map _ List.filter_sublist) ?_
    rw [hnames]
    exact nodup_stateFilesForBackup s ic
  rw [hmem, and_congr_right_iff]
  intro _
  constructor
  · intro hf
    obtain ⟨⟨path, lineMode⟩, hp, hpack⟩ := forall₂_mem_right hrel f hf
    obtain ⟨text, htext, hentries, hname, hmode⟩ := packFile_eq_ok.mp hpack
    obtain ⟨name, _, hincluded, hpath, -, hcache⟩ := (mem_stateFilesForBackup hdir).mp hp
    have hbase : f.name = name := by
      rw [hname]
      show basename path = name
      rw [hpath]
      exact basename_pathJoin (slash_notMem_of_allowed hincluded.1) _
    rw [hbase, hmode]
    exact ⟨text, hincluded, by rw [← hpath]; exact htext, hcache, hentries⟩
  · rintro ⟨text, hincluded, htext, hmode, hentries⟩
    have hp := (mem_stateFilesForBackup hdir).mpr ⟨f.name, text, hincluded, rfl, htext, rfl⟩
    obtain ⟨g, hg, hpack⟩ := forall₂_mem_left hrel _ hp
    obtain ⟨text', htext', hentries', hname, hgmode⟩ := packFile_eq_ok.mp hpack
    obtain rfl : text = text' := Option.some.inj (htext.symm.trans htext')
    have hgname : g.name = f.name := by
      rw [hname]
      exact basename_pathJoin (slash_notMem_of_allowed hincluded.1) _
    -- the listed file has the same fields
    have hgf : g = f := by
      obtain ⟨gname, gmode, gentries⟩ := g
      obtain ⟨fname, fmode, fentries⟩ := f
      simp only at hgname hgmode hmode hentries hentries'
      subst hgname hgmode hmode
      rw [hentries] at hentries'
      rw [Except.ok.inj hentries']
    exact hgf ▸ hg

/-- What an export packs are texts. -/
def TextsOnly (P : Prims) (ic : Bool) (s : BackupSession) : Prop :=
  ∀ files, s.backupFiles P ic = .ok files →
    ∀ f ∈ files, ∃ bodies : List String, f.entries = bodies.map Json.str

theorem Readable.textsOnly {ic : Bool} {s : BackupSession} (h : Readable P ic s)
    (hdir : s.secchatDir ≠ "") : TextsOnly P ic s := by
  intro files hfiles f hf
  obtain ⟨-, text, hincluded, htext, hmode, hentries⟩ := (backupFiles_spec hdir hfiles).2 f |>.mp hf
  obtain ⟨bodies, hbodies⟩ := h f.name text hincluded htext
  rw [hmode, hbodies] at hentries
  exact ⟨bodies, (Except.ok.inj hentries).symm⟩

/-! ### The export -/

theorem pack_eq_ok {s : BackupSession} {passphrase account : String} {ic : Bool} {w : Chance}
    {packed : Packed} (h : s.pack P L passphrase account ic w = .ok packed) :
    ∃ b key, s.backupInfo P account ic w = .ok b ∧
      backupKey L passphrase w.salt backupKdfIters = .ok key ∧
      packed = ⟨b.outer w.salt w.nonce.1 (P.aesgcmEncrypt key w.nonce.1 (dumps b.payload)
        (canonicalBackupManifest b.manifest)), updateDict (s.loadBackupState P) b.noted, b.result⟩ := by
  obtain ⟨b, hb, h⟩ := bind_eq_ok_iff.mp h
  obtain ⟨key, hkey, h⟩ := bind_eq_ok_iff.mp h
  simp only [pure_eq_ok, Except.ok.injEq] at h
  exact ⟨b, key, hb, hkey, h.symm⟩

theorem backupInfo_eq_ok {s : BackupSession} {account : String} {ic : Bool} {w : Chance}
    {b : BackupInfo} (h : s.backupInfo P account ic w = .ok b) :
    s.backupFiles P ic = .ok b.files ∧ b.backupId = urlsafeB64encode w.idBytes ∧
      intField (.obj (s.loadBackupState P)) "latest_generation" = .ok (b.generation - 1) := by
  obtain ⟨files, hfiles, h⟩ := bind_eq_ok_iff.mp h
  obtain ⟨latest, hlatest, h⟩ := bind_eq_ok_iff.mp h
  obtain ⟨label, -, h⟩ := bind_eq_ok_iff.mp h
  obtain ⟨fingerprint, -, h⟩ := bind_eq_ok_iff.mp h
  simp only [pure_eq_ok, Except.ok.injEq] at h
  subst h
  exact ⟨hfiles, rfl, by simpa using hlatest⟩

theorem packBackup_eq_ok {passphrase account : String} {ic : Bool} {w : Chance}
    {s s' : BackupSession} {packed : Packed}
    (h : packBackup P L passphrase account ic w s = (.ok packed, s')) :
    s.loggedIn = true ∧ s' = s.saveMlsState P w ∧
      (s.saveMlsState P w).pack P L passphrase account ic w = .ok packed := by
  rw [packBackup, Method.get_bind] at h
  split at h
  · cases h
  next hlogin =>
  dsimp only at h
  split at h
  · cases h
  rw [Method.modify_bind, Method.get_bind] at h
  obtain ⟨hpack, hs⟩ := Prod.mk.inj h
  exact ⟨by simpa using hlogin, hs.symm, hpack⟩

/-- The file that an export writes. -/
def exportedFile (P : Prims) (L : BackupLibs) (passphrase account : String) (ic : Bool)
    (w : Chance) (s : BackupSession) : Option String :=
  match (packBackup P L passphrase account ic w s).1 with
  | .ok packed => some (dumpsText packed.outer)
  | .error _ => none

/-- **An export that returned** packed a backup, wrote its file and noted it. -/
theorem export_eq_ok {path passphrase account : String} {ic : Bool} {w : Chance}
    {s s' : BackupSession} {r : Json}
    (h : exportE2eeBackup P L path passphrase account ic w s = (.ok r, s')) :
    ∃ packed d, packBackup P L passphrase account ic w s = (.ok packed, s.saveMlsState P w) ∧
      exportedFile P L passphrase account ic w s = some (dumpsText packed.outer) ∧
      (s.saveMlsState P w).disk.write path (dumpsText packed.outer) = .ok d ∧ r = packed.result ∧
      s' = { s.saveMlsState P w with disk := d }.saveBackupState P w.stateStamp packed.state := by
  obtain ⟨packed, s₁, hpack, h⟩ := Method.bind_eq_ok h
  obtain ⟨-, rfl, -⟩ := packBackup_eq_ok hpack
  obtain ⟨_, s₂, hwrite, h⟩ := Method.bind_eq_ok h
  rw [onDisk] at hwrite
  cases hd : (s.saveMlsState P w).disk.write path (dumpsText packed.outer) with
  | error e =>
    rw [hd] at hwrite
    cases hwrite
  | ok d =>
    rw [hd] at hwrite
    obtain ⟨-, rfl⟩ := Prod.mk.inj hwrite
    rw [Method.modify_bind, Method.pure_run] at h
    obtain ⟨hr, hs⟩ := Prod.mk.inj h
    refine ⟨packed, d, hpack, ?_, hd, (Except.ok.inj hr).symm, hs.symm⟩
    rw [exportedFile, hpack]

theorem mapM_returns {ε α β : Type} {f : α → Except ε β} {l : List α}
    (h : ∀ a ∈ l, ∃ b, f a = .ok b) : ∃ bs, l.mapM f = .ok bs := by
  induction l with
  | nil => exact ⟨[], rfl⟩
  | cons a l ih =>
    obtain ⟨b, hb⟩ := h a List.mem_cons_self
    obtain ⟨bs, hbs⟩ := ih fun x hx => h x (List.mem_cons_of_mem _ hx)
    exact ⟨b :: bs, by rw [List.mapM_cons, hb, ok_bind, hbs]; rfl⟩

theorem backupFiles_returns {s : BackupSession} (hdir : s.secchatDir ≠ "") {ic : Bool}
    (h : Readable P ic s) : ∃ files, s.backupFiles P ic = .ok files := by
  have hall : ∀ p ∈ s.stateFilesForBackup ic, ∃ f, s.packFile P p = .ok f := by
    rintro ⟨path, lineMode⟩ hp
    obtain ⟨name, text, hincluded, rfl, htext, rfl⟩ := (mem_stateFilesForBackup hdir).mp hp
    obtain ⟨bodies, hbodies⟩ := h name text hincluded htext
    exact ⟨⟨_, _, bodies.map Json.str⟩, packFile_eq_ok.mpr ⟨text, htext, hbodies, rfl, rfl⟩⟩
  obtain ⟨files, hfiles⟩ := mapM_returns hall
  exact ⟨_, by rw [backupFiles, hfiles, ok_bind, pure_eq_ok]⟩

/-- The key of a passphrase that an export accepts. -/
theorem backupKey_returns {passphrase : String}
    (h : (backupPassphraseReport L passphrase).1 = true) (salt : Bytes) :
    ∃ key, backupKey L passphrase salt backupKdfIters = .ok key := by
  have hne : passphrase ≠ "" := by
    rintro rfl
    simp [backupPassphraseReport] at h
  obtain ⟨key, hkey⟩ := Option.isSome_iff_exists.mp
    (L.pbkdf2_isSome (encodeUtf8 passphrase) salt backupKdfIters (by decide))
  exact ⟨key, by rw [backupKey, if_neg hne, hkey]⟩

/-- **An export returns** when the state files are readable and the passphrase is accepted. -/
theorem export_returns {s : BackupSession} (hlogin : s.loggedIn = true) {passphrase : String}
    (hpass : (backupPassphraseReport L passphrase).1 = true) {ic : Bool} {w : Chance}
    (hread : Readable P ic (s.saveMlsState P w)) {v : BackupView}
    (hshows : Shows ((s.saveMlsState P w).loadBackupState P) v) {fp : String}
    (hfp : (s.saveMlsState P w).identityBackupFingerprint P = .ok fp) {path : String}
    (hpath : '\x00' ∉ path.toList) (account : String) :
    ∃ r s', exportE2eeBackup P L path passphrase account ic w s = (.ok r, s') := by
  have hdir : (s.saveMlsState P w).secchatDir ≠ "" := by
    rw [(saveMlsState_sameBut w s).secchatDir]
    simpa [loggedIn] using (by simpa [loggedIn] using hlogin : _ ∧ _).2
  obtain ⟨files, hfiles⟩ := backupFiles_returns hdir hread
  obtain ⟨key, hkey⟩ := backupKey_returns hpass w.salt
  have hlabel : ∃ label, (Json.obj ((s.saveMlsState P w).loadBackupState P)).getD "device_label"
      (.str "") = .ok label := ⟨_, rfl⟩
  obtain ⟨label, hlabel⟩ := hlabel
  obtain ⟨b, hb⟩ : ∃ b, (s.saveMlsState P w).backupInfo P account ic w = .ok b := by
    simp only [backupInfo, hfiles, hshows.intField_latest, hlabel, hfp, ok_bind, pure_eq_ok]
    exact ⟨_, rfl⟩
  obtain ⟨packed, hpacked⟩ : ∃ packed,
      (s.saveMlsState P w).pack P L passphrase account ic w = .ok packed := by
    simp only [pack, hb, hkey, ok_bind, pure_eq_ok]
    exact ⟨_, rfl⟩
  have hpack : packBackup P L passphrase account ic w s = (.ok packed, s.saveMlsState P w) := by
    have hnot : ¬ s.loggedIn = false := by simp [hlogin]
    have haccepted : ¬ (backupPassphraseReport L passphrase).1 = false := by simp [hpass]
    simp only [packBackup, Method.get_bind, if_neg hnot, if_neg haccepted, Method.modify_bind,
      hpacked, Method.ofExcept_run]
  obtain ⟨d, hd⟩ := Disk.write_ok hpath (s.saveMlsState P w).disk (dumpsText packed.outer)
  have hwrite : onDisk (fun d => d.write path (dumpsText packed.outer)) (s.saveMlsState P w) =
      (.ok (), { s.saveMlsState P w with disk := d }) := by
    rw [onDisk, hd]
  rw [exportE2eeBackup, Method.bind_ok hpack, Method.bind_ok hwrite]
  exact ⟨_, _, rfl⟩

end SecChat
