import SecChat.Protocol.TermModel
import SecChat.Session.BackupExport
import SecChat.Session.BackupRestore

/-!
# A backup round trip

* `restored_as_exported`: a restore of an exported file gives every state file its plaintexts back,
  under the master key of its own session, and a restore of any file stays in its directory.

What stands in the way: the restoring device may have revoked the backup, it makes a new identity
key when the one in the backup is unusable, the MLS bridge may refuse the MLS state, and a temporary
file that was left behind is replaced.
-/

namespace SecChat

open Py BackupSession

variable {P : Prims} {L : BackupLibs}

/-- The state file has these plaintexts under the master key. -/
def Holds (P : Prims) (s : BackupSession) (name : String) (entries : List Json) : Prop :=
  ∃ text, s.disk.lookup (s.statePath name) = some text ∧
    fileEntries P s.masterKey (isCacheName name) text = .ok entries

/-- The session that restores the file has a use for it. -/
def Usable (P : Prims) (w : Chance) (name : String) (entries : List Json) : Prop :=
  (name = "identity_sk.bin" →
    ∃ body keys, entries = [.str body] ∧ parseIdentity P (.str body) = .ok keys) ∧
  (name = "mls_state.bin" → ∃ body, entries = [.str body] ∧ BridgeTakes w body)

theorem decrypt_single (hP : P.Correct) {key : Bytes} {tokens : List String} {body : String}
    (h : Sealed (P := P) key tokens [body]) :
    pyStrip (fileText false tokens) ≠ "" ∧
      decryptWithKey P key (pyStrip (fileText false tokens)) = .ok (.str body) := by
  cases h with
  | cons hhead htail =>
    cases htail
    obtain ⟨w, rfl⟩ := hhead
    have htoken := isToken_encryptWithKey (P := P) key w body
    have htext : fileText false [encryptWithKey P key w body] = encryptWithKey P key w body := rfl
    rw [htext, htoken.strip, decryptWithKey_encryptWithKey hP]
    exact ⟨htoken.1, rfl⟩

theorem statePath_injective {s : BackupSession} {a b : String} (ha : '/' ∉ a.toList)
    (hb : '/' ∉ b.toList) (h : s.statePath a = s.statePath b) : a = b :=
  pathJoin_injective ha hb h

theorem not_isCacheName :
    isCacheName "identity_sk.bin" = false ∧ isCacheName "mls_state.bin" = false := by
  decide +kernel

section Reload

variable {t : BackupSession} {w : Chance} {tokens : List String}

/-- The identity key is reloaded first, then the MLS state. -/
theorem reload_identity_lookup {p : String} (h : p ≠ t.statePath "mls_state.bin") :
    (t.reload P w false).disk.lookup p =
      (t.dropBridge.loadOrCreateIdentityKey P w).disk.lookup p := by
  have hident := loadOrCreateIdentityKey_sameBut (P := P) w t.dropBridge
  have hmls := loadMlsStateIntoBridge_sameBut (P := P) w (t.dropBridge.loadOrCreateIdentityKey P w)
  refine hmls.lookup p ?_
  rw [hident.statePath]
  exact h

/-- A usable file stays when the session reloads. -/
theorem reload_lookup (hP : P.Correct) {name : String} (hname : '/' ∉ name.toList)
    {bodies : List String} (hsealed : Sealed (P := P) t.masterKey tokens bodies)
    (hfile : t.disk.lookup (t.statePath name) = some (fileText (isCacheName name) tokens))
    (husable : Usable P w name (bodies.map Json.str)) :
    (t.reload P w false).disk.lookup (t.statePath name) = t.disk.lookup (t.statePath name) := by
  have hbodies : ∀ body, bodies.map Json.str = [.str body] → bodies = [body] := by
    intro body h
    exact List.map_injective_iff.mpr (fun _ _ => Json.str.inj) h
  have hident := loadOrCreateIdentityKey_sameBut (P := P) w t.dropBridge
  by_cases hid : name = "identity_sk.bin"
  · obtain ⟨body, keys, hentries, hkeys⟩ := husable.1 hid
    obtain rfl := hbodies body hentries
    obtain ⟨-, hdecrypt⟩ := decrypt_single hP hsealed
    have hne : t.statePath name ≠ t.statePath "mls_state.bin" := by
      intro heq
      have hmls := statePath_injective hname (by decide) heq
      rw [hid] at hmls
      revert hmls
      decide
    subst hid
    rw [not_isCacheName.1] at hfile
    rw [reload_identity_lookup hne,
      loadOrCreateIdentityKey_disk (s := t.dropBridge) hfile hdecrypt hkeys]
    rfl
  have hne : t.statePath name ≠ t.statePath "identity_sk.bin" := fun heq =>
    hid (statePath_injective hname (by decide) heq)
  have hkept : (t.dropBridge.loadOrCreateIdentityKey P w).disk.lookup (t.statePath name) =
      t.disk.lookup (t.statePath name) := hident.lookup _ hne
  by_cases hm : name = "mls_state.bin"
  · obtain ⟨body, hentries, htakes⟩ := husable.2 hm
    obtain rfl := hbodies body hentries
    obtain ⟨-, hdecrypt⟩ := decrypt_single hP hsealed
    subst hm
    rw [not_isCacheName.2] at hfile
    show ((t.dropBridge.loadOrCreateIdentityKey P w).loadMlsStateIntoBridge P w).disk.lookup _ = _
    rw [loadMlsStateIntoBridge_disk (loadOrCreateIdentityKey_mlsBridge w t.dropBridge)
      (by rw [hident.statePath]; exact hkept.trans hfile)
      (by rw [hident.masterKey]; exact hdecrypt) htakes, hkept]
  · have hne' : t.statePath name ≠ t.statePath "mls_state.bin" := fun heq =>
      hm (statePath_injective hname (by decide) heq)
    rw [reload_identity_lookup hne', hkept]

variable {body : String} (hsealed : Sealed (P := P) t.masterKey tokens [body])
  (hlogin : t.loggedIn = true)
include hsealed hlogin

/-- An identity key that is none is replaced when the session reloads. -/
theorem reload_replaces (hP : P.Correct)
    (hfile : t.disk.lookup (t.statePath "identity_sk.bin") = some (fileText false tokens)) {e : Exn}
    (hkeys : parseIdentity P (.str body) = .error e) :
    (t.reload P w false).disk.lookup (t.statePath "identity_sk.bin") =
      some (encryptWithKey P t.masterKey w.identityStamp (b64encode w.identitySeed.1)) := by
  have hne : t.statePath "identity_sk.bin" ≠ t.statePath "mls_state.bin" := fun heq =>
    absurd (statePath_injective (by decide) (by decide) heq) (by decide)
  rw [reload_identity_lookup hne]
  exact loadOrCreateIdentityKey_unusable (s := t.dropBridge) hlogin hfile
    (decrypt_single hP hsealed).2 hkeys

/-- An MLS state that the bridge refuses is removed when the session reloads. -/
theorem reload_removes (hP : P.Correct)
    (hfile : t.disk.lookup (t.statePath "mls_state.bin") = some (fileText false tokens))
    {payload : Json} {stateB64 : String} (hload : loadsBody (.str body) = .ok payload)
    (hstate : strField payload "state_b64" = .ok stateB64) (hstateNe : stateB64 ≠ "")
    (hrefused : w.importState stateB64 = none) (havailable : w.bridgeAvailable = true) :
    (t.reload P w false).disk.lookup (t.statePath "mls_state.bin") = none := by
  have hident := loadOrCreateIdentityKey_sameBut (P := P) w t.dropBridge
  have hne : t.statePath "mls_state.bin" ≠ t.statePath "identity_sk.bin" := fun heq =>
    absurd (statePath_injective (by decide) (by decide) heq) (by decide)
  obtain ⟨htext, hdecrypt⟩ := decrypt_single hP hsealed
  have hkept : (t.dropBridge.loadOrCreateIdentityKey P w).disk.lookup
      (t.statePath "mls_state.bin") = some (fileText false tokens) :=
    (hident.lookup _ hne).trans hfile
  have hpath := hident.statePath "mls_state.bin"
  have hgone := loadMlsStateIntoBridge_refused (P := P)
    (s := t.dropBridge.loadOrCreateIdentityKey P w) (hident.loggedIn.trans hlogin)
    (by rw [hpath]; exact hkept) htext (by rw [hident.masterKey]; exact hdecrypt) hload hstate
    hstateNe hrefused havailable
  rwa [hpath] at hgone

end Reload

/-- Saving the backup state leaves the other files alone. -/
theorem saveBackupState_lookup (s : BackupSession) (w : Stamp) (state : List (String × Json))
    {name : String} (hname : '/' ∉ name.toList) (hne : name ≠ "backup_state.bin") :
    (s.saveBackupState P w state).disk.lookup ((s.saveBackupState P w state).statePath name) =
      s.disk.lookup (s.statePath name) := by
  have hsave := saveBackupState_sameBut (P := P) w state s
  rw [hsave.statePath]
  exact hsave.lookup _ fun heq => hne (statePath_injective hname (by decide) heq)

/-- What an export packs can be restored. -/
theorem ok_of_textsOnly {s : BackupSession} {ic : Bool} {files : List BackupFile}
    (hdir : s.secchatDir ≠ "") (htexts : TextsOnly P ic s) (h : s.backupFiles P ic = .ok files) :
    ∀ f ∈ files, f.Ok := by
  intro f hf
  obtain ⟨-, text, hincluded, htext, -, hentries⟩ := (backupFiles_spec hdir h).2 f |>.mp hf
  refine ⟨hincluded.1, ?_, htexts files h f hf, ?_⟩
  · have hpath := Disk.nul_notMem htext
    rw [statePath, toList_pathJoin (slash_notMem_of_allowed hincluded.1), List.mem_append,
      not_or] at hpath
    exact hpath.2
  · intro hfalse
    rw [hfalse] at hentries
    exact length_fileEntries hentries

theorem secchatDir_of_export {path passphrase account : String} {ic : Bool} {w : Chance}
    {s s' : BackupSession} {r : Json}
    (h : exportE2eeBackup P L path passphrase account ic w s = (.ok r, s')) :
    (s.saveMlsState P w).secchatDir ≠ "" := by
  obtain ⟨packed, d, hpack, -⟩ := export_eq_ok h
  obtain ⟨hlogin, -⟩ := packBackup_eq_ok hpack
  rw [(saveMlsState_sameBut w s).secchatDir]
  exact (by simpa [loggedIn] using hlogin : _ ∧ _).2

/-- **An export makes a backup** of the files that it takes. -/
theorem packedBackup_of_export {path passphrase account : String} {ic : Bool} {w : Chance}
    {s s' : BackupSession} {r : Json}
    (h : exportE2eeBackup P L path passphrase account ic w s = (.ok r, s'))
    (htexts : TextsOnly P ic (s.saveMlsState P w)) :
    ∃ b : PackedBackup P L, b.passphrase = passphrase ∧ r = b.info.result ∧
      exportedFile P L passphrase account ic w s = some (dumpsText b.outer) ∧
      (∀ f ∈ b.info.files, f.Ok) ∧
      (s.saveMlsState P w).backupInfo P account ic w = .ok b.info ∧ s.loggedIn = true ∧
      ∃ d, (s.saveMlsState P w).disk.write path (dumpsText b.outer) = .ok d ∧
        s' = { s.saveMlsState P w with disk := d }.saveBackupState P w.stateStamp
          (updateDict ((s.saveMlsState P w).loadBackupState P) b.info.noted) := by
  obtain ⟨packed, d, hpack, hfile, hd, hr, hs⟩ := export_eq_ok h
  obtain ⟨hlogin, -, hpacked⟩ := packBackup_eq_ok hpack
  obtain ⟨b, key, hb, hkey, hpackedEq⟩ := pack_eq_ok hpacked
  obtain ⟨hfiles, -⟩ := backupInfo_eq_ok hb
  have hdir := secchatDir_of_export h
  have hok := ok_of_textsOnly hdir htexts hfiles
  set backup : PackedBackup P L :=
    ⟨b, fun f hf => (hok f hf).texts, passphrase, w.salt, w.nonce.1, key, hkey⟩ with hbackup
  have houter : packed.outer = backup.outer := by rw [hpackedEq]; rfl
  have hstate : packed.state = updateDict ((s.saveMlsState P w).loadBackupState P) b.noted := by
    rw [hpackedEq]
  have hresult : packed.result = b.result := by rw [hpackedEq]
  rw [houter] at hfile hd
  rw [hstate] at hs
  exact ⟨backup, rfl, hr.trans hresult, hfile, hok, hb, hlogin, d, hd, hs⟩

section Restore

variable {b : PackedBackup P L} (hok : ∀ f ∈ b.info.files, f.Ok)
  (hnodup : (b.info.files.map BackupFile.name).Nodup) {t : BackupSession}
  (hlogin : t.loggedIn = true) {v : BackupView} (hshows : Shows (t.loadBackupState P) v)
  {path text : String} (hfile : t.disk.lookup path = some text) {outer : Json}
  (hload : loads (encodeUtf8 text) = .ok outer) (hsame : SameFields b.outer outer) {id : String}
  {g : ℤ} (hid : outerBackupId outer = .ok id) (hg : outerGeneration outer = .ok g)
  (haccepts : v.Accepts id g) (w : Chance)
include hok hnodup hlogin hshows hfile hload hsame hid hg haccepts

/-- What a restore that overwrites has written when it reloads. -/
theorem PackedBackup.restore_written (hP : P.Correct) :
    ∃ r d state,
      restoreE2eeBackup P L path b.passphrase true false w t =
        (.ok r, ({ t with disk := d }.reload P w false).saveBackupState P w.stateStamp state) ∧
      ∀ f ∈ b.info.files, ∃ tokens bodies, f.entries = bodies.map Json.str ∧
        Sealed (P := P) t.masterKey tokens bodies ∧
        d.lookup (t.statePath f.name) = some (fileText f.lineMode tokens) ∧
        d.lookup (t.statePath f.name ++ ".tmp") = none := by
  have hcheck := (checkRevoked_iff hshows id g).mpr haccepts
  obtain ⟨c, d, state, r, hloop, -, hrestore⟩ := PackedBackup.restore_eq hok hlogin hfile hload
    hsame hP hshows hid hg hcheck true false w
  obtain ⟨c', d', hloop', hwritten, -⟩ :=
    restoreItems_writes (P := P) hok w hnodup 0 ⟨0, 0, 0⟩ t
  have hd : d' = d := by
    rw [hloop] at hloop'
    exact (congrArg BackupSession.disk (Prod.mk.inj hloop').2).symm
  subst hd
  exact ⟨r, d', state, hrestore, hwritten⟩

/-- What a restore that overwrites makes of the files of a backup. -/
theorem PackedBackup.restore_holds (hP : P.Correct) :
    ∃ r t', restoreE2eeBackup P L path b.passphrase true false w t = (.ok r, t') ∧
      ∀ f ∈ b.info.files, f.lineMode = isCacheName f.name → Usable P w f.name f.entries →
        Holds P t' f.name f.entries := by
  obtain ⟨r, d, state, hrestore, hwritten⟩ := PackedBackup.restore_written hok hnodup hlogin hshows
    hfile hload hsame hid hg haccepts w hP
  refine ⟨r, _, hrestore, fun f hf hmode husable => ?_⟩
  obtain ⟨tokens, bodies, hentries, hsealed, hlookup, -⟩ := hwritten f hf
  have hslash := slash_notMem_of_allowed (hok f hf).allowed
  set t₁ : BackupSession := { t with disk := d } with ht₁
  have hreload := reload_sameBut (P := P) w false t₁
  have hsave := saveBackupState_sameBut (P := P) w.stateStamp state (t₁.reload P w false)
  have hne : f.name ≠ "backup_state.bin" := by
    intro hname
    have hallowed := (hok f hf).allowed
    rw [hname, state_not_allowed] at hallowed
    cases hallowed
  have hkept : (t₁.reload P w false).disk.lookup (t₁.statePath f.name) =
      t₁.disk.lookup (t₁.statePath f.name) := by
    refine reload_lookup hP hslash hsealed ?_ (by rw [← hentries]; exact husable)
    rw [← hmode]
    exact hlookup
  refine ⟨fileText f.lineMode tokens, ?_, ?_⟩
  · rw [saveBackupState_lookup _ _ _ hslash hne, hreload.statePath, hkept]
    exact hlookup
  · have hone : isCacheName f.name = false → bodies.length ≤ 1 := by
      intro hfalse
      have hlen := (hok f hf).single (by rw [hmode, hfalse])
      rwa [hentries, List.length_map] at hlen
    rw [hsave.masterKey, hreload.masterKey, hmode, hentries]
    exact fileEntries_fileText hP hsealed hone

end Restore

/-- **A backup round trip.** -/
theorem restored_as_exported (hP : P.Correct) :
    (∀ {path passphrase account : String} {ic : Bool} {w : Chance} {s s' : BackupSession}
        {r : Json}, exportE2eeBackup P L path passphrase account ic w s = (.ok r, s') →
      Readable P ic (s.saveMlsState P w) →
      ∀ {t : BackupSession} {v : BackupView} {path' text : String} {id : String} {g : ℤ},
        t.loggedIn = true → Shows (t.loadBackupState P) v →
        exportedFile P L passphrase account ic w s = some text →
        t.disk.lookup path' = some text →
        r.getItem "backup_id" = .ok (.str id) → r.getItem "backup_generation" = .ok (.int g) →
        v.Accepts id g → ∀ w' : Chance,
        ∃ r' t', restoreE2eeBackup P L path' passphrase true false w' t = (.ok r', t') ∧
          (∀ name entries, Included ic name → entries ≠ [] →
            Holds P (s.saveMlsState P w) name entries → Usable P w' name entries →
            Holds P t' name entries) ∧
          ∀ p, t'.disk.lookup p ≠ t.disk.lookup p → Touched t.secchatDir p) ∧
    ∀ (path passphrase : String) (overwrite preserve : Bool) (w : Chance) (t : BackupSession)
      (p : String),
      (restoreE2eeBackup P L path passphrase overwrite preserve w t).2.disk.lookup p ≠
        t.disk.lookup p → ∃ base, IsComponent base ∧ p = pathJoin t.secchatDir base := by
  refine ⟨?_, fun path passphrase overwrite preserve w t p hne => ?_⟩
  · intro path passphrase account ic w s s' r hexport hread t v path' text id g hlogin hshows hfile
      hlookup hid hg haccepts w'
    have hdir := secchatDir_of_export hexport
    obtain ⟨b, rfl, rfl, hexported, hok, hinfo, -⟩ :=
      packedBackup_of_export hexport (hread.textsOnly hdir)
    obtain ⟨hfiles, -⟩ := backupInfo_eq_ok hinfo
    obtain ⟨hnodup, hmem⟩ := backupFiles_spec hdir hfiles
    have htext : text = dumpsText b.outer := Option.some.inj (hfile.symm.trans hexported)
    have hload : loads (encodeUtf8 text) = .ok b.outer := by
      rw [htext]
      exact loads_dumpsText (b.info.outer_plain _ _ _)
    have hidEq : b.info.backupId = id := by simpa [BackupInfo.result] using hid
    have hgEq : b.info.generation = g := by simpa [BackupInfo.result] using hg
    obtain ⟨r', t', hrestore, hholds⟩ := PackedBackup.restore_holds hok hnodup hlogin hshows hlookup
      hload (sameFields_self _ _ _ _) (b.info.outerBackupId_outer _ _ _)
      (b.info.outerGeneration_outer _ _ _) (by rw [hidEq, hgEq]; exact haccepts) w' hP
    refine ⟨r', t', hrestore, ?_, fun p hne => ?_⟩
    · rintro name entries hincluded hentries ⟨filetext, hfiletext, hfileentries⟩ husable
      have hin := (hmem ⟨name, isCacheName name, entries⟩).mpr
        ⟨hentries, filetext, hincluded, hfiletext, rfl, hfileentries⟩
      exact hholds _ hin rfl husable
    · by_contra hnot
      have hkeeps := restore_keeps (P := P) (L := L) path' b.passphrase true false w' t.secchatDir t
        rfl
      rw [hrestore] at hkeeps
      exact hne (hkeeps.lookup p hnot)
  · have hkeeps := restore_keeps (P := P) (L := L) path passphrase overwrite preserve w t.secchatDir
      t rfl
    by_contra hnot
    refine hne (hkeeps.lookup p fun htouched => hnot ?_)
    obtain ⟨base, hbase, hp⟩ := htouched
    exact ⟨base, hbase.isComponent, hp⟩

/-! ### Two devices -/

/-- Tables for ASCII, and a key derivation that keeps its arguments. -/
def asciiLibs : BackupLibs where
  islower := Char.isLower
  isupper := Char.isUpper
  isdigit := Char.isDigit
  isalnum := Char.isAlphanum
  pbkdf2 password salt n := if 0 < n then some ((password ++ salt).take 32) else none
  pbkdf2_isSome password salt n h := by simp [h]

theorem length_zeroNonce : (List.replicate 12 (0 : UInt8)).length = 12 := rfl

def zeroStamp : Stamp := ⟨⟨List.replicate 12 0, length_zeroNonce⟩, 0⟩

/-- A bridge that is there and refuses every state. -/
def zeroChance : Chance where
  now := 0
  idBytes := List.replicate 18 0
  salt := List.replicate 16 0
  nonce := zeroStamp.nonce
  stamp _ _ := zeroStamp
  stateStamp := zeroStamp
  mlsStamp := zeroStamp
  identityStamp := zeroStamp
  identitySeed := ⟨List.replicate 32 0, rfl⟩
  exportState := none
  importState _ := none
  bridgeAvailable := true

/-- A state file with these texts. -/
def stateFile (key : Bytes) (name : String) (bodies : List String) : String :=
  fileText (isCacheName name) (bodies.map (encryptWithKey termPrims key zeroStamp))

theorem fileEntries_stateFile (key : Bytes) {name : String} {bodies : List String}
    (hone : isCacheName name = false → bodies.length ≤ 1) :
    fileEntries termPrims key (isCacheName name) (stateFile key name bodies) =
      .ok (bodies.map Json.str) := by
  refine fileEntries_fileText termPrims_symbolic.toCorrect ?_ hone
  rw [Sealed, List.forall₂_map_left_iff, List.forall₂_same]
  exact fun body _ => ⟨zeroStamp, rfl⟩

/-- A session that has just logged in. -/
def sessionIn (dir : String) (hdir : '\x00' ∉ dir.toList) (key : Bytes) (disk : Disk) :
    BackupSession where
  masterKey := key
  secchatDir := dir
  dirNoNul := hdir
  myUid := 1
  identityPk := []
  identitySk := []
  mlsBridge := false
  mlsIdentityReady := false
  mlsCredential := ""
  disk := disk

def oldKey : Bytes := List.replicate 32 1
def newKey : Bytes := List.replicate 32 2

/-- The MLS state of `oldDevice`. -/
def oldMls : String := dumpsText (.obj [("state_b64", .str "s")])

/-- A device with an identity key that is none, an MLS state and a message cache. -/
def oldDevice : BackupSession :=
  sessionIn "/h" (by decide) oldKey
    (((Disk.empty.put (pathJoin "/h" "identity_sk.bin") (stateFile oldKey "identity_sk.bin" ["x"])
      (by decide +kernel)).put
      (pathJoin "/h" "mls_state.bin") (stateFile oldKey "mls_state.bin" [oldMls])
      (by decide +kernel)).put
      (pathJoin "/h" "msgs_5.bin") (stateFile oldKey "msgs_5.bin" ["a", "b"]) (by decide +kernel))

/-- A device with a file to restore, and a temporary file that was left behind. -/
def newDevice (text : String) : BackupSession :=
  sessionIn "/k" (by decide) newKey
    ((Disk.empty.put (pathJoin "/k" "msgs_5.bin.tmp") "" (by decide +kernel)).put "/x" text
      (by decide))

/-- The same device after it revoked its own five backups. -/
def revokedDevice (text : String) : BackupSession :=
  (newDevice text).saveBackupState termPrims zeroStamp
    [("latest_generation", .int 5), ("revoked_before_generation", .int 5)]

/-- What the state files of `oldDevice` hold. -/
def oldTexts : List (String × List String) :=
  [("identity_sk.bin", ["x"]), ("mls_state.bin", [oldMls]), ("msgs_5.bin", ["a", "b"])]

theorem oldDevice_disk (p : String) :
    oldDevice.disk.lookup p =
      if p = pathJoin "/h" "msgs_5.bin" then some (stateFile oldKey "msgs_5.bin" ["a", "b"])
      else if p = pathJoin "/h" "mls_state.bin" then
        some (stateFile oldKey "mls_state.bin" [oldMls])
      else if p = pathJoin "/h" "identity_sk.bin" then
        some (stateFile oldKey "identity_sk.bin" ["x"])
      else none := by
  rw [oldDevice, sessionIn]
  rw [Disk.lookup_put, Disk.lookup_put, Disk.lookup_put, Disk.lookup_empty]

theorem oldDevice_lookup {name text : String} (hname : '/' ∉ name.toList)
    (h : oldDevice.disk.lookup (oldDevice.statePath name) = some text) :
    ∃ bodies, (name, bodies) ∈ oldTexts ∧ text = stateFile oldKey name bodies := by
  have hpath : ∀ n : String, '/' ∉ n.toList → oldDevice.statePath name = pathJoin "/h" n →
      name = n := fun n hn heq => pathJoin_injective hname hn heq
  rw [oldDevice_disk] at h
  split_ifs at h with h₁ h₂ h₃
  · obtain rfl := hpath _ (by decide) h₁
    exact ⟨_, by simp [oldTexts], (Option.some.inj h).symm⟩
  · obtain rfl := hpath _ (by decide) h₂
    exact ⟨_, by simp [oldTexts], (Option.some.inj h).symm⟩
  · obtain rfl := hpath _ (by decide) h₃
    exact ⟨_, by simp [oldTexts], (Option.some.inj h).symm⟩

/-- A file without lines has one text. -/
theorem oldTexts_single {name : String} {bodies : List String} (h : (name, bodies) ∈ oldTexts)
    (hmode : isCacheName name = false) : bodies.length ≤ 1 := by
  have hcache : isCacheName "msgs_5.bin" = true := by decide +kernel
  simp only [oldTexts, List.mem_cons, Prod.mk.injEq, List.not_mem_nil, or_false] at h
  rcases h with ⟨rfl, rfl⟩ | ⟨rfl, rfl⟩ | ⟨rfl, rfl⟩
  · exact le_refl 1
  · exact le_refl 1
  · rw [hcache] at hmode
    cases hmode

theorem oldDevice_holds {name : String} {bodies : List String} (h : (name, bodies) ∈ oldTexts) :
    Included true name ∧ Holds termPrims oldDevice name (bodies.map Json.str) := by
  refine ⟨⟨?_, .inl rfl⟩, stateFile oldKey name bodies, ?_,
    fileEntries_stateFile oldKey (oldTexts_single h)⟩
  · simp only [oldTexts, List.mem_cons, Prod.mk.injEq, List.not_mem_nil, or_false] at h
    rcases h with ⟨rfl, -⟩ | ⟨rfl, -⟩ | ⟨rfl, -⟩ <;> decide +kernel
  · have hpath : ∀ n m : String, '/' ∉ n.toList → '/' ∉ m.toList → n ≠ m →
        oldDevice.statePath n ≠ pathJoin "/h" m :=
      fun n m hn hm hne heq => hne (pathJoin_injective hn hm heq)
    simp only [oldTexts, List.mem_cons, Prod.mk.injEq, List.not_mem_nil, or_false] at h
    rw [oldDevice_disk]
    rcases h with ⟨rfl, rfl⟩ | ⟨rfl, rfl⟩ | ⟨rfl, rfl⟩
    · rw [if_neg (hpath _ _ (by decide) (by decide) (by decide)),
        if_neg (hpath _ _ (by decide) (by decide) (by decide))]
      exact if_pos rfl
    · rw [if_neg (hpath _ _ (by decide) (by decide) (by decide))]
      exact if_pos rfl
    · exact if_pos rfl

theorem oldDevice_readable :
    Readable termPrims true (oldDevice.saveMlsState termPrims zeroChance) := by
  have hsave : oldDevice.saveMlsState termPrims zeroChance = oldDevice := rfl
  rw [hsave]
  intro name text hincluded htext
  obtain ⟨bodies, hbodies, rfl⟩ :=
    oldDevice_lookup (slash_notMem_of_allowed hincluded.1) htext
  exact ⟨bodies, fileEntries_stateFile oldKey (oldTexts_single hbodies)⟩

theorem oldDevice_fresh :
    oldDevice.disk.lookup (oldDevice.statePath "backup_state.bin") = none := by
  cases h : oldDevice.disk.lookup (oldDevice.statePath "backup_state.bin") with
  | none => rfl
  | some text =>
    obtain ⟨bodies, hbodies, -⟩ := oldDevice_lookup (by decide) h
    simp [oldTexts] at hbodies

theorem oldDevice_state : oldDevice.loadBackupState termPrims = [] :=
  loadBackupState_fresh oldDevice_fresh

theorem newDevice_disk (text p : String) :
    (newDevice text).disk.lookup p =
      if p = "/x" then some text
      else if p = pathJoin "/k" "msgs_5.bin.tmp" then some "" else none := by
  rw [newDevice, sessionIn]
  rw [Disk.lookup_put, Disk.lookup_put, Disk.lookup_empty]

theorem newDevice_state (text : String) : (newDevice text).loadBackupState termPrims = [] := by
  have hnone : (newDevice text).disk.lookup ((newDevice text).statePath "backup_state.bin") =
      none := by
    have hpath : (newDevice text).statePath "backup_state.bin" = pathJoin "/k" "backup_state.bin" :=
      rfl
    rw [hpath, newDevice_disk, if_neg (by decide +kernel), if_neg (by decide +kernel)]
  exact loadBackupState_fresh hnone

/-- The export of `oldDevice` returns, and what it packs. -/
theorem oldDevice_exports : ∃ (b : PackedBackup termPrims asciiLibs) (s' : BackupSession),
    exportE2eeBackup termPrims asciiLibs "/x" "backup-passphrase" "u" true zeroChance oldDevice =
      (.ok b.info.result, s') ∧
    exportedFile termPrims asciiLibs "backup-passphrase" "u" true zeroChance oldDevice =
      some (dumpsText b.outer) ∧
    b.passphrase = "backup-passphrase" ∧ b.info.generation = 1 ∧ (∀ f ∈ b.info.files, f.Ok) ∧
    (b.info.files.map BackupFile.name).Nodup ∧
    ∀ name bodies, (name, bodies) ∈ oldTexts →
      ⟨name, isCacheName name, bodies.map Json.str⟩ ∈ b.info.files := by
  have hsave : oldDevice.saveMlsState termPrims zeroChance = oldDevice := rfl
  have hshows : Shows ((oldDevice.saveMlsState termPrims zeroChance).loadBackupState termPrims)
      ⟨0, 0, [], "", 0, ""⟩ := by
    rw [hsave, oldDevice_state]
    exact shows_nil
  have hpass : (backupPassphraseReport asciiLibs "backup-passphrase").1 = true := by
    decide +kernel
  have hfp : (oldDevice.saveMlsState termPrims zeroChance).identityBackupFingerprint termPrims =
      .ok "" := rfl
  have hpath : '\x00' ∉ "/x".toList := by decide
  obtain ⟨r, s', hexport⟩ :=
    export_returns (s := oldDevice) rfl hpass oldDevice_readable hshows hfp hpath "u"
  obtain ⟨b, hb, rfl, hfile, hok, hinfo, -⟩ :=
    packedBackup_of_export hexport (oldDevice_readable.textsOnly (secchatDir_of_export hexport))
  obtain ⟨hfiles, -, hlatest⟩ := backupInfo_eq_ok hinfo
  have hdir : oldDevice.secchatDir ≠ "" := by decide
  obtain ⟨hnodup, hmem⟩ := backupFiles_spec hdir hfiles
  have hgeneration : b.info.generation = 1 := by
    rw [hshows.intField_latest] at hlatest
    have hzero := Except.ok.inj hlatest
    dsimp only at hzero
    omega
  refine ⟨b, s', hexport, hfile, hb, hgeneration, hok, hnodup, fun name bodies h => ?_⟩
  obtain ⟨hincluded, text, htext, hentries⟩ := oldDevice_holds h
  have hne : bodies.map Json.str ≠ [] := by
    simp only [oldTexts, List.mem_cons, Prod.mk.injEq, List.not_mem_nil, or_false] at h
    rcases h with ⟨-, rfl⟩ | ⟨-, rfl⟩ | ⟨-, rfl⟩ <;> simp
  exact (hmem _).mpr ⟨hne, text, hincluded, htext, rfl, hentries⟩

/-- The file that it writes can be restored elsewhere. -/
theorem restored_as_exported_elsewhere : ∃ r s' text r' t',
    exportE2eeBackup termPrims asciiLibs "/x" "backup-passphrase" "u" true zeroChance oldDevice =
      (.ok r, s') ∧
    exportedFile termPrims asciiLibs "backup-passphrase" "u" true zeroChance oldDevice = some text ∧
    restoreE2eeBackup termPrims asciiLibs "/x" "backup-passphrase" true false zeroChance
      (newDevice text) = (.ok r', t') ∧
    Holds termPrims t' "msgs_5.bin" (["a", "b"].map Json.str) := by
  obtain ⟨b, s', hexport, hfile, -, hgeneration, -⟩ := oldDevice_exports
  set text := dumpsText b.outer with htext
  have hshows : Shows ((newDevice text).loadBackupState termPrims) ⟨0, 0, [], "", 0, ""⟩ := by
    rw [newDevice_state]
    exact shows_nil
  have hlookup : (newDevice text).disk.lookup "/x" = some text := by
    rw [newDevice_disk, if_pos rfl]
  have hid : b.info.result.getItem "backup_id" = .ok (.str b.info.backupId) := by
    simp [BackupInfo.result]
  have hg : b.info.result.getItem "backup_generation" = .ok (.int b.info.generation) := by
    simp [BackupInfo.result]
  have haccepts : BackupView.Accepts ⟨0, 0, [], "", 0, ""⟩ b.info.backupId b.info.generation := by
    simp [BackupView.Accepts]
  obtain ⟨r', t', hrestore, hholds, -⟩ :=
    (restored_as_exported termPrims_symbolic.toCorrect).1 hexport oldDevice_readable rfl hshows
      hfile hlookup hid hg haccepts zeroChance
  have hmsgs : ("msgs_5.bin", ["a", "b"]) ∈ oldTexts := by simp [oldTexts]
  obtain ⟨hincluded, hheld⟩ := oldDevice_holds hmsgs
  have husable : Usable termPrims zeroChance "msgs_5.bin" (["a", "b"].map Json.str) :=
    ⟨fun h => absurd h (by decide), fun h => absurd h (by decide)⟩
  exact ⟨_, s', text, r', t', hexport, hfile, hrestore,
    hholds _ _ hincluded (by simp) hheld husable⟩

/-- A device refuses the generations up to the last one that it revoked. -/
theorem revokedDevice_refuses {b : PackedBackup termPrims asciiLibs}
    (hgeneration : b.info.generation = 1) (passphrase : String) :
    ∃ e, restoreE2eeBackup termPrims asciiLibs "/x" passphrase true false zeroChance
      (revokedDevice (dumpsText b.outer)) = (.error e, revokedDevice (dumpsText b.outer)) := by
  set text := dumpsText b.outer with htext
  have hP := termPrims_symbolic.toCorrect
  have hload : loads (encodeUtf8 text) = .ok b.outer := loads_dumpsText (b.info.outer_plain _ _ _)
  have hg : outerGeneration b.outer = .ok 1 := by
    rw [← hgeneration]
    exact b.info.outerGeneration_outer _ _ _
  have hlookup : (newDevice text).disk.lookup "/x" = some text := by
    rw [newDevice_disk, if_pos rfl]
  have hplain : (Json.obj [("latest_generation", .int 5),
      ("revoked_before_generation", .int 5)]).Plain := by simp
  have hstate : (revokedDevice text).loadBackupState termPrims = _ :=
    loadBackupState_saveBackupState (s := newDevice text) hP rfl zeroStamp hplain
  have hrevoked : Shows ((revokedDevice text).loadBackupState termPrims)
      ⟨5, 5, [], "", 0, ""⟩ := by
    rw [hstate]
    constructor <;> simp
  have hsave := saveBackupState_sameBut (P := termPrims) zeroStamp
    [("latest_generation", .int 5), ("revoked_before_generation", .int 5)] (newDevice text)
  have hpath : "/x" ≠ pathJoin "/k" "backup_state.bin" := by decide +kernel
  have hkept : (revokedDevice text).disk.lookup "/x" = some text :=
    (hsave.lookup "/x" hpath).trans hlookup
  cases hcheck : (revokedDevice text).checkRevoked termPrims b.info.backupId 1 with
  | ok u =>
    have hnot := ((checkRevoked_iff hrevoked _ _).mp hcheck).2
    exact absurd (by decide) hnot
  | error e =>
    exact ⟨e, PackedBackup.restore_refused hsave.loggedIn hkept hload (sameFields_self _ _ _ _)
      (b.info.outerBackupId_outer _ _ _) hg hcheck _ _ _ _⟩

/-- Where a restore does not give back what was exported: it is refused after a revocation, and
otherwise an identity key that is none and an MLS state that the bridge refuses do not survive it,
nor does a temporary file. -/
theorem restored_not_as_exported : ∃ r s' text,
    exportE2eeBackup termPrims asciiLibs "/x" "backup-passphrase" "u" true zeroChance oldDevice =
      (.ok r, s') ∧
    exportedFile termPrims asciiLibs "backup-passphrase" "u" true zeroChance oldDevice = some text ∧
    Readable termPrims true oldDevice ∧
    (∃ e, restoreE2eeBackup termPrims asciiLibs "/x" "backup-passphrase" true false zeroChance
      (revokedDevice text) = (.error e, revokedDevice text)) ∧
    ∃ r' t', restoreE2eeBackup termPrims asciiLibs "/x" "backup-passphrase" true false zeroChance
        (newDevice text) = (.ok r', t') ∧
      (Holds termPrims oldDevice "identity_sk.bin" [.str "x"] ∧
        ¬ Holds termPrims t' "identity_sk.bin" [.str "x"]) ∧
      (Holds termPrims oldDevice "mls_state.bin" [.str oldMls] ∧
        t'.disk.lookup (t'.statePath "mls_state.bin") = none) ∧
      backupNameAllowed "msgs_5.bin.tmp" = false ∧
      (newDevice text).disk.lookup ((newDevice text).statePath "msgs_5.bin.tmp") = some "" ∧
      t'.disk.lookup (t'.statePath "msgs_5.bin.tmp") = none := by
  obtain ⟨b, s', hexport, hfile, hpass, hgeneration, hok, hnodup, hfiles⟩ := oldDevice_exports
  set text := dumpsText b.outer with htext
  have hP := termPrims_symbolic.toCorrect
  have hload : loads (encodeUtf8 text) = .ok b.outer := loads_dumpsText (b.info.outer_plain _ _ _)
  have hsame : SameFields b.outer b.outer := sameFields_self _ _ _ _
  have hid : outerBackupId b.outer = .ok b.info.backupId := b.info.outerBackupId_outer _ _ _
  have hg : outerGeneration b.outer = .ok 1 := by
    rw [← hgeneration]
    exact b.info.outerGeneration_outer _ _ _
  have hlookup : (newDevice text).disk.lookup "/x" = some text := by
    rw [newDevice_disk, if_pos rfl]
  have hshows : Shows ((newDevice text).loadBackupState termPrims) ⟨0, 0, [], "", 0, ""⟩ := by
    rw [newDevice_state]
    exact shows_nil
  have haccepts : BackupView.Accepts ⟨0, 0, [], "", 0, ""⟩ b.info.backupId 1 := by
    simp [BackupView.Accepts]
  refine ⟨_, s', text, hexport, hfile, oldDevice_readable, ?_, ?_⟩
  · exact revokedDevice_refuses hgeneration _
  obtain ⟨r', d, state, hrestore, hwritten⟩ := PackedBackup.restore_written hok hnodup rfl hshows
    hlookup hload hsame hid hg haccepts zeroChance hP
  set t₁ : BackupSession := { newDevice text with disk := d } with ht₁
  rw [hpass] at hrestore
  set t' := (t₁.reload termPrims zeroChance false).saveBackupState termPrims zeroChance.stateStamp
    state with ht'
  have hreload := reload_sameBut (P := termPrims) zeroChance false t₁
  have hsave := saveBackupState_sameBut (P := termPrims) zeroChance.stateStamp state
    (t₁.reload termPrims zeroChance false)
  have hkept : ∀ name : String, '/' ∉ name.toList → name ≠ "backup_state.bin" →
      t'.disk.lookup (t'.statePath name) =
        (t₁.reload termPrims zeroChance false).disk.lookup (t₁.statePath name) := by
    intro name hname hne
    rw [ht', saveBackupState_lookup _ _ _ hname hne, hreload.statePath]
  have hfilesWritten : ∀ name bodies, (name, bodies) ∈ oldTexts → ∃ tokens,
      Sealed (P := termPrims) t₁.masterKey tokens bodies ∧
      t₁.disk.lookup (t₁.statePath name) = some (fileText (isCacheName name) tokens) ∧
      t₁.disk.lookup (t₁.statePath name ++ ".tmp") = none := by
    intro name bodies h
    obtain ⟨tokens, bodies', hentries, hsealed, htokens, htmp⟩ := hwritten _ (hfiles name bodies h)
    have hbodies : bodies = bodies' :=
      List.map_injective_iff.mpr (fun _ _ => Json.str.inj) hentries
    exact ⟨tokens, hbodies ▸ hsealed, htokens, htmp⟩
  have hidentity : ("identity_sk.bin", ["x"]) ∈ oldTexts := by simp [oldTexts]
  have hmls : ("mls_state.bin", [oldMls]) ∈ oldTexts := by simp [oldTexts]
  have hmsgs : ("msgs_5.bin", ["a", "b"]) ∈ oldTexts := by simp [oldTexts]
  refine ⟨r', t', hrestore, ⟨(oldDevice_holds hidentity).2, ?_⟩, ⟨(oldDevice_holds hmls).2, ?_⟩,
    tmp_not_allowed "msgs_5.bin", ?_, ?_⟩
  · -- no key pair can be read from "x", and the reload writes a new one
    rintro ⟨newText, hnew, hentries⟩
    obtain ⟨tokens, hsealed, htokens, -⟩ := hfilesWritten _ _ hidentity
    rw [not_isCacheName.1] at htokens hentries
    have hkeys : parseIdentity termPrims (.str "x") = .error .binasciiError := by decide +kernel
    rw [hkept _ (by decide) (by decide), reload_replaces hsealed rfl hP htokens hkeys] at hnew
    have hsingle : Sealed (P := termPrims) t'.masterKey [newText]
        [b64encode zeroChance.identitySeed.1] := by
      refine .cons ⟨zeroChance.identityStamp, ?_⟩ .nil
      rw [hsave.masterKey, hreload.masterKey]
      exact (Option.some.inj hnew).symm
    have hread : fileEntries termPrims t'.masterKey false (fileText false [newText]) =
        .ok [.str (b64encode zeroChance.identitySeed.1)] :=
      fileEntries_fileText hP hsingle fun _ => le_refl 1
    have htoken : fileText false [newText] = newText := rfl
    rw [htoken] at hread
    have hsame : [Json.str (b64encode zeroChance.identitySeed.1)] = [Json.str "x"] :=
      Except.ok.inj (hread.symm.trans hentries)
    have hne : b64encode zeroChance.identitySeed.1 ≠ "x" := by decide +kernel
    exact hne (Json.str.inj (List.cons.inj hsame).1)
  · -- the bridge refuses the state, and the reload removes its file
    obtain ⟨tokens, hsealed, htokens, -⟩ := hfilesWritten _ _ hmls
    rw [not_isCacheName.2] at htokens
    have hbody : loadsBody (.str oldMls) = .ok (.obj [("state_b64", .str "s")]) :=
      loads_dumpsText (by simp)
    rw [hkept _ (by decide) (by decide)]
    have hfield : strField (.obj [("state_b64", .str "s")]) "state_b64" = .ok "s" := by
      simp [strField, Json.orElse]
    exact reload_removes hsealed rfl hP htokens hbody hfield (by decide) rfl rfl
  · have hpath : (newDevice text).statePath "msgs_5.bin.tmp" = pathJoin "/k" "msgs_5.bin.tmp" := rfl
    rw [hpath, newDevice_disk, if_neg (by decide +kernel), if_pos rfl]
  · -- the restore of the cache writes through a file of that name
    obtain ⟨tokens, -, -, htmp⟩ := hfilesWritten _ _ hmsgs
    have hjoin : t₁.statePath "msgs_5.bin" ++ ".tmp" = t₁.statePath "msgs_5.bin.tmp" :=
      pathJoin_tmp (by decide) _
    rw [hjoin] at htmp
    rw [hkept _ (by decide) (by decide), hreload.lookup _ ?_]
    · exact htmp
    · rintro (heq | heq)
      · exact absurd (statePath_injective (by decide) (by decide) heq) (by decide)
      · exact absurd (statePath_injective (by decide) (by decide) heq) (by decide)

end SecChat
