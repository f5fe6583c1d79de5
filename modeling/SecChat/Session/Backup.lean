import SecChat.Python.Hex
import SecChat.Session.LocalFile

/-!
# Backups of the local state

`CryptoSession.export_e2ee_backup`, `restore_e2ee_backup` and `revoke_local_backups`.  An export
takes the state files apart with the master key and encrypts their plaintexts under a passphrase; a
restore does the opposite with the master key of its own session.

* `BackupSession`: the keys, the directory and the disk of a session;
* `exportE2eeBackup`, in two parts: `packBackup` makes the file, the rest writes it;
* `restoreE2eeBackup`: `openBackup` checks and decrypts the file, `restoreItems` writes the state
  files, and what follows reloads the identity key and the MLS state and notes the restore;
* `revokeLocalBackups`, `getBackupStatus`.

The caches in memory that a restore clears, the cache policy that it reloads and the log are left
out.  The directory is `~/.secchat/<username>`; it exists, and its path has no wildcards.
-/

namespace SecChat

open Py

/-! ### What is not part of the repository -/

/-- Tables and libraries that the backup code calls. -/
structure BackupLibs where
  /-- `str.islower` of one character, and so on. -/
  islower : Char → Bool
  isupper : Char → Bool
  isdigit : Char → Bool
  isalnum : Char → Bool
  /-- `PBKDF2HMAC(SHA256, 32, salt, iterations).derive`; `none` when it raises. -/
  pbkdf2 : (password salt : Bytes) → (iterations : ℤ) → Option Bytes
  /-- A positive count of iterations is accepted. -/
  pbkdf2_isSome : ∀ password salt n, 0 < n → (pbkdf2 password salt n).isSome

/-- The random choices, the clock and the MLS bridge during one call. -/
structure Chance where
  now : ℤ
  idBytes : Bytes
  salt : Bytes
  nonce : Nonce
  /-- For entry `j` of the `i`-th file that a restore writes. -/
  stamp : ℕ → ℕ → Stamp
  stateStamp : Stamp
  mlsStamp : Stamp
  identityStamp : Stamp
  identitySeed : Seed
  /-- `export_state`; `none` when it raises. -/
  exportState : Option Json
  /-- `import_state`; `none` when it raises. -/
  importState : String → Option Json
  bridgeAvailable : Bool

/-- The part of `CryptoSession` that backups use.  `None` for the master key is empty here. -/
structure BackupSession where
  masterKey : Bytes
  secchatDir : String
  dirNoNul : '\x00' ∉ secchatDir.toList
  myUid : ℤ
  identityPk : Bytes
  identitySk : Bytes
  mlsBridge : Bool
  mlsIdentityReady : Bool
  mlsCredential : String
  disk : Disk

/-! ### Dictionaries -/

/-- `str(d.get(key, "") or "")`. -/
def strField (d : Json) (key : String) : Except Exn String := do
  return ((← d.getD key (.str "")).orElse (.str "")).toStr

/-- `int(d.get(key, 0) or 0)`. -/
def intField (d : Json) (key : String) : Except Exn ℤ := do
  ((← d.getD key (.int 0)).orElse (.int 0)).toInt

/-- `bool(d.get(key, False))`. -/
def boolField (d : Json) (key : String) : Except Exn Bool := do
  return (← d.getD key (.bool false)).truthy

/-- `outer.get(key, default) or manifest.get(key, default) or default`. -/
def eitherField (outer manifest : Json) (key : String) (default : Json) : Except Exn Json := do
  let v ← outer.getD key default
  if v.truthy then return v
  return (← manifest.getD key default).orElse default

/-- The values that `for x in v` takes. -/
def iterValues : Json → Except Exn (List Json)
  | .arr xs => .ok xs
  | .str s => .ok (s.toList.map fun c => .str (String.ofList [c]))
  | .obj kvs => .ok (kvs.map fun kv => .str kv.1)
  | _ => .error .typeError

/-- `d.update(items)`. -/
def updateDict (d items : List (String × Json)) : List (String × Json) := items.foldl dictSet d

/-- `json.dumps(j, ensure_ascii=False, separators=(",", ":"))`, before it is encoded. -/
def dumpsText (j : Json) : String := String.ofList (chars j)

/-- `_unb64`. -/
def unb64 (j : Json) : Except Exn Bytes :=
  if j.toStr.toList.all (·.toNat < 128) then
    match b64decode j.toStr with
    | some raw => .ok raw
    | none => .error .binasciiError
  else .error .unicodeError

/-! ### Names and passphrases -/

def backupFormat : String := "secchat-e2ee-state-backup"
def backupVersion : ℤ := 3
def backupMinVersion : ℤ := 1
def backupKdfIters : ℤ := 600000

/-- `_BACKUP_PATTERNS`. -/
def backupPatterns : List String :=
  ["identity_sk.bin", "pqxdh_prekeys.bin", "dr_*.bin", "mls_*.bin", "verified_*.bin",
    "identity_audit_*.bin", "auditor_state.bin", "cache_policy.bin", "transcript_*.bin",
    "msgs_*.bin"]

/-- `_backup_name_allowed`. -/
def backupNameAllowed (name : String) : Bool :=
  basename name = name ∧ name ≠ "" ∧ backupPatterns.any (fnmatchcase name ·)

/-- `_restore_should_skip_for_merge`. -/
def restoreShouldSkipForMerge (name : String) : Bool :=
  name ∈ ["identity_sk.bin", "pqxdh_prekeys.bin", "auditor_state.bin", "cache_policy.bin"] ∨
    ["dr_", "mls_", "verified_", "identity_audit_", "transcript_"].any (name.startsWith ·)

variable (P : Prims) (L : BackupLibs)

/-- `backup_passphrase_report`: `ok`, `score` and `message`. -/
def backupPassphraseReport (passphrase : String) : Bool × ℕ × String :=
  let value := passphrase.toList
  let classes := (value.any L.islower).toNat + (value.any L.isupper).toNat +
    (value.any L.isdigit).toNat + (value.any fun c => !L.isalnum c).toNat
  let lengthBonus := (if 16 ≤ value.length then 1 else 0) + (if 24 ≤ value.length then 1 else 0)
  let score := classes + lengthBonus
  let msg :=
    if value.length < 12 then "Use at least 12 characters for the backup passphrase."
    else if score < 3 then "Use a longer passphrase or mix words with numbers or symbols."
    else "Backup passphrase strength is acceptable."
  (12 ≤ value.length ∧ 3 ≤ score, score, msg)

/-- `_backup_key`. -/
def backupKey (passphrase : String) (salt : Bytes) (iterations : ℤ) : Except Exn Bytes :=
  if passphrase = "" then .error (.runtimeError "Backup passphrase is required.")
  else
    match L.pbkdf2 (encodeUtf8 passphrase) salt iterations with
    | some key => .ok key
    | none => .error (.valueError "iterations")

/-- `identity_pk_from_sk`. -/
def identityPkFromSk (sk : Bytes) : Except Exn Bytes :=
  if sk.length = 32 then .ok (P.ed25519Public sk)
  else .error (.valueError "An Ed25519 private key is 32 bytes long")

/-- `_canonical_backup_manifest`. -/
def canonicalBackupManifest (manifest : Json) : Bytes := dumps manifest.sortKeys

/-- `if not c: raise CryptoStateError(msg)`. -/
def require (c : Prop) [Decidable c] (msg : String) : Except Exn Unit :=
  if c then .ok () else .error (.runtimeError msg)

/-! ### What the parts hand on -/

/-- One element of `files`. -/
structure BackupFile where
  name : String
  lineMode : Bool
  entries : List Json

/-- A file as the payload has it. -/
def BackupFile.json (f : BackupFile) : Json :=
  .obj [("name", .str f.name), ("line_mode", .bool f.lineMode), ("entries", .arr f.entries)]

/-- What the manifest and the payload of a backup say. -/
structure BackupInfo where
  backupId : String
  generation : ℤ
  createdAt : ℤ
  accountUsername : String
  userId : ℤ
  includeCache : Bool
  deviceLabel : String
  identityFingerprint : String
  files : List BackupFile

namespace BackupInfo

/-- `entry_count`. -/
def entryCount (b : BackupInfo) : ℤ := (b.files.map fun f => (f.entries.length : ℤ)).sum

/-- `manifest`. -/
def manifest (b : BackupInfo) : Json :=
  .obj [
    ("format", .str backupFormat),
    ("version", .int backupVersion),
    ("backup_id", .str b.backupId),
    ("generation", .int b.generation),
    ("created_at", .int b.createdAt),
    ("account_username", .str b.accountUsername),
    ("user_id", .int b.userId),
    ("include_cache", .bool b.includeCache),
    ("device_label", .str b.deviceLabel),
    ("identity_fingerprint", .str b.identityFingerprint),
    ("file_count", .int b.files.length),
    ("entry_count", .int b.entryCount)]

/-- `payload`. -/
def payload (b : BackupInfo) : Json :=
  .obj [
    ("format", .str backupFormat),
    ("version", .int backupVersion),
    ("manifest", b.manifest),
    ("backup_id", .str b.backupId),
    ("generation", .int b.generation),
    ("created_at", .int b.createdAt),
    ("account_username", .str b.accountUsername),
    ("user_id", .int b.userId),
    ("include_cache", .bool b.includeCache),
    ("files", .arr (b.files.map BackupFile.json))]

/-- `outer`. -/
def outer (b : BackupInfo) (salt nonce ct : Bytes) : Json :=
  .obj [
    ("format", .str backupFormat),
    ("version", .int backupVersion),
    ("backup_id", .str b.backupId),
    ("generation", .int b.generation),
    ("created_at", .int b.createdAt),
    ("include_cache", .bool b.includeCache),
    ("manifest", b.manifest),
    ("kdf", .str "PBKDF2-HMAC-SHA256"),
    ("iterations", .int backupKdfIters),
    ("salt", .str (b64encode salt)),
    ("nonce", .str (b64encode nonce)),
    ("ciphertext", .str (b64encode ct))]

/-- What an export notes in the backup state. -/
def noted (b : BackupInfo) : List (String × Json) :=
  [("latest_backup_id", .str b.backupId),
    ("latest_generation", .int b.generation),
    ("latest_created_at", .int b.createdAt),
    ("latest_device_label", .str b.deviceLabel),
    ("latest_include_cache", .bool b.includeCache)]

/-- What an export returns. -/
def result (b : BackupInfo) : Json :=
  .obj [
    ("files", .int b.files.length),
    ("entries", .int b.entryCount),
    ("backup_id", .str b.backupId),
    ("backup_generation", .int b.generation),
    ("created_at", .int b.createdAt),
    ("include_cache", .bool b.includeCache)]

end BackupInfo

/-- What an export writes and returns. -/
structure Packed where
  outer : Json
  state : List (String × Json)
  result : Json

/-- A backup file that was decrypted and accepted. -/
structure Opened where
  manifest : Json
  payload : Json
  backupId : String
  generation : ℤ

/-- `restored`, `entries` and `skipped`. -/
structure Counts where
  restored : ℕ
  entries : ℕ
  skipped : ℕ

def Counts.add (a b : Counts) : Counts :=
  ⟨a.restored + b.restored, a.entries + b.entries, a.skipped + b.skipped⟩

namespace BackupSession

/-! ### The directory -/

/-- `self.master_key and self.secchat_dir`. -/
def loggedIn (s : BackupSession) : Bool := s.masterKey ≠ [] ∧ s.secchatDir ≠ ""

/-- `os.path.join(self.secchat_dir, name)`. -/
def statePath (s : BackupSession) (name : String) : String := pathJoin s.secchatDir name

/-- Write a file inside a `try` that only logs what goes wrong. -/
def tryWrite (s : BackupSession) (path text : String) : BackupSession :=
  match s.disk.write path text with
  | .ok d => { s with disk := d }
  | .error _ => s

/-- An operation on the disk. -/
def onDisk (f : Disk → Except Exn Disk) : Method BackupSession Unit := fun s =>
  match f s.disk with
  | .ok d => (.ok (), { s with disk := d })
  | .error e => (.error e, s)

/-- `_load_backup_state`. -/
def loadBackupState (s : BackupSession) : List (String × Json) :=
  if s.loggedIn = false then []
  else
    match s.disk.lookup (s.statePath "backup_state.bin") with
    | none => []
    | some text =>
        match decryptWithKey P s.masterKey (pyStrip text) >>= loadsBody with
        | .ok (.obj kvs) => kvs
        | _ => []

/-- `_save_backup_state`. -/
def saveBackupState (w : Stamp) (state : List (String × Json)) (s : BackupSession) :
    BackupSession :=
  if s.loggedIn = false then s
  else s.tryWrite (s.statePath "backup_state.bin")
    (encryptWithKey P s.masterKey w (dumpsText (.obj state)))

/-! ### The identity key and the MLS state -/

/-- `identity_keygen`, with the secret key given, and `save_identity_key`. -/
def createIdentityKey (w : Chance) (s : BackupSession) : BackupSession :=
  { s with identityPk := P.ed25519Public w.identitySeed, identitySk := w.identitySeed.1 }.tryWrite
    (s.statePath "identity_sk.bin")
    (encryptWithKey P s.masterKey w.identityStamp (b64encode w.identitySeed.1))

/-- The secret key in the plaintext of `identity_sk.bin`, and its public key. -/
def parseIdentity : Json → Except Exn (Bytes × Bytes)
  | .str body => do
      let sk ← unb64 (.str body)
      return (sk, ← identityPkFromSk P sk)
  | _ => .error .typeError

/-- `load_or_create_identity_key`. -/
def loadOrCreateIdentityKey (w : Chance) (s : BackupSession) : BackupSession :=
  if s.loggedIn = false then s
  else
    match s.disk.lookup (s.statePath "identity_sk.bin") with
    | none => s.createIdentityKey P w
    | some text =>
        match decryptWithKey P s.masterKey (pyStrip text) >>= parseIdentity P with
        | .ok (sk, pk) => { s with identitySk := sk, identityPk := pk }
        | .error _ => s.createIdentityKey P w

/-- What `_save_mls_state` makes of the snapshot of the bridge, and its `state_b64`. -/
def mlsSnapshot (s : BackupSession) (snapshot : Json) : Except Exn (String × Json) := do
  let stateB64 ← strField snapshot "state_b64"
  let ciphersuite ← strField snapshot "ciphersuite"
  let pqHybrid ← boolField snapshot "pq_hybrid"
  let pqAuthentication ← boolField snapshot "pq_authentication"
  let credential ← snapshot.getD "credential_identity_b64" (.str "")
  let groups ← iterValues ((← snapshot.getD "groups" (.arr [])).orElse (.arr []))
  let groups ← groups.mapM Json.toInt
  return (stateB64, .obj [
    ("schema_version", .int 1),
    ("state_b64", .str stateB64),
    ("ciphersuite", .str ciphersuite),
    ("pq_hybrid", .bool pqHybrid),
    ("pq_authentication", .bool pqAuthentication),
    ("credential_identity_b64", .str (credential.orElse (.str s.mlsCredential)).toStr),
    ("groups", .arr ((groups.insertionSort (· ≤ ·)).map Json.int))])

/-- `_save_mls_state`. -/
def saveMlsState (w : Chance) (s : BackupSession) : BackupSession :=
  if s.loggedIn = false ∨ s.mlsBridge = false ∨ s.mlsIdentityReady = false then s
  else
    match w.exportState with
    | none => s
    | some snapshot =>
        match s.mlsSnapshot snapshot with
        | .error _ => s
        | .ok (stateB64, payload) =>
            if stateB64 = "" then s
            else s.tryWrite (s.statePath "mls_state.bin")
              (encryptWithKey P s.masterKey w.mlsStamp (dumpsText payload))

/-- The handler of `_load_mls_state_into_bridge`: a state that the bridge refuses is removed. -/
def discardMlsState (w : Chance) (s : BackupSession) : BackupSession :=
  if s.mlsBridge ∧ w.bridgeAvailable then
    { s with
      disk := s.disk.remove (s.statePath "mls_state.bin")
      mlsIdentityReady := false
      mlsCredential := "" }
  else s

/-- The groups that the bridge or the stored state names. -/
def mlsGroups (payload result : Json) : Except Exn (List ℤ) := do
  let groups ← iterValues (← eitherField result payload "groups" (.arr []))
  groups.mapM fun x => (Json.orElse x (.int 0)).toInt

/-- What `_load_mls_state_into_bridge` does with the answer of the bridge. -/
def enterMlsState (w : Chance) (payload result : Json) (s : BackupSession) : BackupSession :=
  let s := { s with mlsIdentityReady := true }
  match eitherField result payload "credential_identity_b64" (.str "") with
  | .error _ => s.discardMlsState w
  | .ok credential =>
      let s := { s with mlsCredential := credential.toStr }
      match mlsGroups payload result with
      | .error _ => s.discardMlsState w
      | .ok _ => s

/-- `_load_mls_state_into_bridge`. -/
def loadMlsStateIntoBridge (w : Chance) (s : BackupSession) : BackupSession :=
  if s.loggedIn = false then s
  else
    match s.disk.lookup (s.statePath "mls_state.bin") with
    | none => s
    | some text =>
        if pyStrip text = "" then s
        else
          match (do
            let payload ← loadsBody (← decryptWithKey P s.masterKey (pyStrip text))
            return (payload, ← strField payload "state_b64")) with
          | .error _ => s.discardMlsState w
          | .ok (payload, stateB64) =>
              if stateB64 = "" then s
              else
                match w.importState stateB64 with
                | none => { s with mlsBridge := true }.discardMlsState w
                | some result => { s with mlsBridge := true }.enterMlsState w payload result

/-! ### Export -/

/-- The patterns that an export looks for. -/
def patternsFor (includeCache : Bool) : List String :=
  backupPatterns.filter fun p => includeCache || p ≠ "msgs_*.bin"

/-- The loop body of `_state_files_for_backup`; a name that was seen is skipped, also when another
pattern finds it again. -/
def addStateFile (out : List String) (path : String) : List String :=
  if basename path ∈ out.map basename ∨ backupNameAllowed (basename path) = false then out
  else out ++ [path]

/-- `name.startswith("msgs_")`. -/
def isCacheName (name : String) : Bool := name.startsWith "msgs_"

/-- `_state_files_for_backup`: paths, and whether a file is read line by line. -/
def stateFilesForBackup (s : BackupSession) (includeCache : Bool) : List (String × Bool) :=
  if s.secchatDir = "" then []
  else
    let found := (patternsFor includeCache).flatMap (s.disk.globDir s.secchatDir)
    ((found.foldl addStateFile []).map fun path =>
      (path, isCacheName (basename path))).insertionSort fun a b => basename a.1 ≤ basename b.1

/-- A state file with its plaintexts. -/
def packFile (s : BackupSession) (p : String × Bool) : Except Exn BackupFile :=
  match s.disk.lookup p.1 with
  | none => .error (.fileNotFound p.1)
  | some text => do
      let entries ← fileEntries P s.masterKey p.2 text
      return ⟨basename p.1, p.2, entries⟩

/-- The state files with their plaintexts; those without any are left out. -/
def backupFiles (s : BackupSession) (includeCache : Bool) : Except Exn (List BackupFile) := do
  let files ← (s.stateFilesForBackup includeCache).mapM (s.packFile P)
  return files.filter fun f => !f.entries.isEmpty

/-- `_identity_backup_fingerprint`. -/
def identityBackupFingerprint (s : BackupSession) : Except Exn String := do
  let pk ←
    if s.identityPk ≠ [] then .ok s.identityPk
    else if s.identitySk ≠ [] then identityPkFromSk P s.identitySk
    else .ok []
  return if pk ≠ [] then String.ofList ((hexOf (P.sha256 pk)).toList.take 24) else ""

/-- What `export_e2ee_backup` puts into a backup. -/
def backupInfo (s : BackupSession) (accountUsername : String) (includeCache : Bool) (w : Chance) :
    Except Exn BackupInfo := do
  let files ← s.backupFiles P includeCache
  let state := Json.obj (s.loadBackupState P)
  let latest ← intField state "latest_generation"
  let label := (← state.getD "device_label" (.str "")).orElse (.str "primary device")
  return {
    backupId := urlsafeB64encode w.idBytes
    generation := latest + 1
    createdAt := w.now
    accountUsername := accountUsername
    userId := s.myUid
    includeCache := includeCache
    deviceLabel := label.toStr
    identityFingerprint := ← s.identityBackupFingerprint P
    files := files }

/-- Everything in `export_e2ee_backup` between `_save_mls_state` and the first write. -/
def pack (s : BackupSession) (passphrase accountUsername : String) (includeCache : Bool)
    (w : Chance) : Except Exn Packed := do
  let b ← s.backupInfo P accountUsername includeCache w
  let key ← backupKey L passphrase w.salt backupKdfIters
  let ct := P.aesgcmEncrypt key w.nonce.1 (dumps b.payload) (canonicalBackupManifest b.manifest)
  return ⟨b.outer w.salt w.nonce.1 ct, updateDict (s.loadBackupState P) b.noted, b.result⟩

/-- `export_e2ee_backup` before it writes anything but the MLS state. -/
def packBackup (passphrase accountUsername : String) (includeCache : Bool) (w : Chance) :
    Method BackupSession Packed := do
  let s ← Method.get
  if s.loggedIn = false then
    Method.raise (.runtimeError "Login is required before exporting backup.")
  else
    let report := backupPassphraseReport L passphrase
    if report.1 = false then Method.raise (.runtimeError report.2.2)
    else
      Method.modify (saveMlsState P w)
      let s ← Method.get
      Method.ofExcept (s.pack P L passphrase accountUsername includeCache w)

/-- `export_e2ee_backup`. -/
def exportE2eeBackup (path passphrase accountUsername : String) (includeCache : Bool)
    (w : Chance) : Method BackupSession Json := do
  let packed ← packBackup P L passphrase accountUsername includeCache w
  onDisk fun d => d.write path (dumpsText packed.outer)
  Method.modify (saveBackupState P w.stateStamp packed.state)
  return packed.result

/-! ### Restore -/

/-- `revoked_ids`. -/
def revokedIds (state : List (String × Json)) : Except Exn (List String) := do
  let ids ← iterValues (← (Json.obj state).getD "revoked_backup_ids" (.arr []))
  return (ids.filter Json.truthy).map Json.toStr

/-- The manifest that stands in the open in a backup file. -/
def outerManifest (outer : Json) : Except Exn Json := do
  return (← outer.getD "manifest" .null).orElse (.obj [])

/-- `backup_id` of a backup file. -/
def outerBackupId (outer : Json) : Except Exn String := do
  return (← eitherField outer (← outerManifest outer) "backup_id" (.str "")).toStr

/-- `generation` of a backup file. -/
def outerGeneration (outer : Json) : Except Exn ℤ := do
  (← eitherField outer (← outerManifest outer) "generation" (.int 0)).toInt

/-- Whether the backup was revoked on this device. -/
def checkRevoked (s : BackupSession) (backupId : String) (generation : ℤ) : Except Exn Unit := do
  let state := s.loadBackupState P
  let ids ← revokedIds state
  let before ← intField (.obj state) "revoked_before_generation"
  require (¬ (backupId ≠ "" ∧ backupId ∈ ids))
    "This backup was revoked on this device and will not be restored."
  require (¬ (generation ≠ 0 ∧ before ≠ 0 ∧ generation ≤ before))
    "This backup generation was revoked on this device and will not be restored."

/-- The payload of a backup file. -/
def decryptPayload (outer manifest : Json) (passphrase : String) : Except Exn Json := do
  let salt ← unb64 (← outer.getItem "salt")
  let iterations ← (← outer.getD "iterations" (.int backupKdfIters)).toInt
  let key ← backupKey L passphrase salt iterations
  let aad := if manifest.truthy then canonicalBackupManifest manifest else []
  let nonce ← unb64 (← outer.getItem "nonce")
  let ct ← unb64 (← outer.getItem "ciphertext")
  match P.aesgcmDecrypt key nonce ct aad with
  | none => .error .invalidTag
  | some plain => loads plain

/-- The part of `restore_e2ee_backup` before it writes anything. -/
def openBackup (s : BackupSession) (text passphrase : String) : Except Exn Opened := do
  let outer ← loads (encodeUtf8 text)
  let format ← outer.getD "format" .null
  require (format.pyEq (.str backupFormat)) "This is not a SecChat E2EE backup file."
  let manifest ← outerManifest outer
  let backupId ← outerBackupId outer
  let generation ← outerGeneration outer
  s.checkRevoked P backupId generation
  let payload ← decryptPayload P L outer manifest passphrase
  let version ← intField payload "version"
  let format ← payload.getD "format" .null
  require (format.pyEq (.str backupFormat) ∧ backupMinVersion ≤ version ∧ version ≤ backupVersion)
    "Unsupported SecChat backup version."
  let payloadManifest := (← payload.getD "manifest" .null).orElse (.obj [])
  require (manifest.truthy → payloadManifest.pyEq manifest)
    "Backup manifest does not match encrypted payload."
  return ⟨manifest, payload, backupId, generation⟩

/-- `key_for` of `_merge_cache_entries`. -/
def mergeKey (raw : String) : String :=
  let found : Except Exn (Option String) := do
    let item ← loads (encodeUtf8 raw)
    let mid ← intField item "id"
    if mid ≠ 0 then return some ("id:" ++ toString mid)
    let wireHash ← strField item "wire_hash"
    return if wireHash ≠ "" then some ("wire:" ++ wireHash) else none
  match found with
  | .ok (some key) => key
  | _ => "raw:" ++ hexOf (P.sha256 (encodeUtf8 raw))

/-- `quality` of `_merge_cache_entries`. -/
def mergeQuality (raw : String) : ℕ :=
  match loads (encodeUtf8 raw) >>= (strField · "body") with
  | .error _ => 0
  | .ok body =>
      if body = "" then 0
      else if ["[Forward-secret]", "[Message deleted]", "[Encrypted", "[Cannot"].any
        (body.startsWith ·) then 1
      else 2

/-- `keep` of `_merge_cache_entries`, on the items of the dictionary. -/
def mergeKeep (merged : List (String × String)) (raw : String) : List (String × String) :=
  let key := mergeKey P raw
  match merged.lookup key with
  | none => merged ++ [(key, raw)]
  | some current =>
      if mergeQuality current < mergeQuality raw then
        merged.map fun p => if p.1 = key then (key, raw) else p
      else merged

/-- `_merge_cache_entries`. -/
def mergeCacheEntries (s : BackupSession) (dst : String) (incoming : List String) : List String :=
  let lines := (((s.disk.lookup dst).getD "").toList.splitOn '\n').map String.ofList
  let tokens := (lines.map pyStrip).filter (· ≠ "")
  let old := tokens.filterMap fun token =>
    match decryptWithKey P s.masterKey token with
    | .ok (.str raw) => some raw
    | _ => none
  ((old ++ incoming).foldl (mergeKeep P) []).map Prod.snd

/-- One turn of the loop over `files`. -/
def restoreItem (w : Chance) (overwrite preserve : Bool) (i : ℕ) (item : Json) :
    Method BackupSession Counts := do
  let s ← Method.get
  let field ← Method.ofExcept (item.getD "name" (.str ""))
  let name := basename field.toStr
  if backupNameAllowed name = false then return ⟨0, 0, 0⟩
  else
    let dst := s.statePath name
    let lineMode ← Method.ofExcept (boolField item "line_mode")
    let merging : Bool := preserve ∧ isCacheName name ∧ lineMode
    if preserve ∧ restoreShouldSkipForMerge name then return ⟨0, 0, 1⟩
    else if s.disk.exist dst ∧ overwrite = false ∧ merging = false then return ⟨0, 0, 1⟩
    else
      let raw ← Method.ofExcept (do iterValues (← item.getD "entries" (.arr [])))
      let raw := raw.map Json.toStr
      if merging = false ∧ preserve ∧ s.disk.exist dst then return ⟨0, 0, 1⟩
      else
        let raw := if merging then s.mergeCacheEntries P dst raw else raw
        let encrypted := raw.mapIdx fun j entry =>
          encryptWithKey P s.masterKey (w.stamp i j) entry
        onDisk fun d => d.write (dst ++ ".tmp") (fileText lineMode encrypted)
        onDisk fun d => d.replace (dst ++ ".tmp") dst
        return ⟨1, encrypted.length, 0⟩

/-- The loop over `files`; `i` counts its turns. -/
def restoreItems (w : Chance) (overwrite preserve : Bool) :
    ℕ → Counts → List Json → Method BackupSession Counts
  | _, counts, [] => pure counts
  | i, counts, item :: items => do
      let more ← restoreItem P w overwrite preserve i item
      restoreItems w overwrite preserve (i + 1) (counts.add more) items

/-- The bridge is closed. -/
def dropBridge (s : BackupSession) : BackupSession :=
  { s with mlsBridge := false, mlsIdentityReady := false, mlsCredential := "" }

/-- What `restore_e2ee_backup` reloads. -/
def reload (w : Chance) (preserve : Bool) (s : BackupSession) : BackupSession :=
  if preserve then s.loadOrCreateIdentityKey P w
  else (s.dropBridge.loadOrCreateIdentityKey P w).loadMlsStateIntoBridge P w

/-- `latest_created_at` after a restore. -/
def createdAfter (latest : ℤ) (o : Opened) : Except Exn ℤ :=
  if latest ≠ 0 then .ok latest
  else do
    let default ← o.payload.getD "created_at" (.int 0)
    ((← o.manifest.getD "created_at" default).orElse (.int 0)).toInt

/-- `latest_device_label` after a restore. -/
def labelAfter (latest : Json) (o : Opened) : Except Exn Json :=
  if latest.truthy then .ok latest
  else do
    let label ← strField o.manifest "device_label"
    return .str label

/-- `latest_include_cache` after a restore. -/
def cacheAfter (latest : Json) (o : Opened) : Except Exn Bool :=
  if latest.truthy then .ok true else boolField o.payload "include_cache"

/-- The backup state after a restore. -/
def restoredState (s : BackupSession) (o : Opened) (w : Chance) :
    Except Exn (List (String × Json)) := do
  let state := s.loadBackupState P
  let latestId ← (Json.obj state).getD "latest_backup_id" (.str "")
  let latest ← intField (.obj state) "latest_generation"
  let created ← createdAfter (← intField (.obj state) "latest_created_at") o
  let label ← labelAfter (← (Json.obj state).getD "latest_device_label" (.str "")) o
  let includeCache ←
    cacheAfter (← (Json.obj state).getD "latest_include_cache" (.bool false)) o
  return updateDict state [
    ("restored_from_backup_id", .str o.backupId),
    ("restored_generation", .int o.generation),
    ("restored_at", .int w.now),
    ("latest_backup_id", latestId.orElse (.str o.backupId)),
    ("latest_generation", .int (max latest o.generation)),
    ("latest_created_at", .int created),
    ("latest_device_label", label),
    ("latest_include_cache", .bool includeCache)]

/-- The value that `restore_e2ee_backup` returns. -/
def restoreResult (o : Opened) (counts : Counts) (preserve : Bool) : Except Exn Json := do
  let account ← o.payload.getD "account_username" (.str "")
  let userId ← intField o.payload "user_id"
  let includeCache ← boolField o.payload "include_cache"
  let createdAt ← intField o.payload "created_at"
  return .obj [
    ("files", .int counts.restored),
    ("entries", .int counts.entries),
    ("skipped", .int counts.skipped),
    ("account_username", account),
    ("user_id", .int userId),
    ("include_cache", .bool includeCache),
    ("backup_id", .str o.backupId),
    ("backup_generation", .int o.generation),
    ("created_at", .int createdAt),
    ("identity_review_recommended", .bool true),
    ("preserved_current_identity", .bool preserve)]

/-- `restore_e2ee_backup`. -/
def restoreE2eeBackup (path passphrase : String) (overwrite preserve : Bool) (w : Chance) :
    Method BackupSession Json := do
  let s ← Method.get
  if s.loggedIn = false then
    Method.raise (.runtimeError "Login is required before restoring backup.")
  else
    match s.disk.lookup path with
    | none => Method.raise (.fileNotFound path)
    | some text => do
        let o ← Method.ofExcept (s.openBackup P L text passphrase)
        let items ← Method.ofExcept (do iterValues (← o.payload.getD "files" (.arr [])))
        let counts ← restoreItems P w overwrite preserve 0 ⟨0, 0, 0⟩ items
        Method.modify (reload P w preserve)
        let s ← Method.get
        let state ← Method.ofExcept (s.restoredState P o w)
        Method.modify (saveBackupState P w.stateStamp state)
        Method.ofExcept (restoreResult o counts preserve)

/-! ### Revocation -/

/-- `get_backup_status`. -/
def getBackupStatus (s : BackupSession) : Except Exn Json := do
  let state := Json.obj (s.loadBackupState P)
  let ids ← iterValues ((← state.getD "revoked_backup_ids" .null).orElse (.arr []))
  return .obj [
    ("latest_backup_id", .str (← strField state "latest_backup_id")),
    ("latest_created_at", .int (← intField state "latest_created_at")),
    ("latest_generation", .int (← intField state "latest_generation")),
    ("latest_device_label", .str (← strField state "latest_device_label")),
    ("latest_include_cache", .bool (← boolField state "latest_include_cache")),
    ("restored_from_backup_id", .str (← strField state "restored_from_backup_id")),
    ("restored_at", .int (← intField state "restored_at")),
    ("revoked_before_generation", .int (← intField state "revoked_before_generation")),
    ("revoked_count", .int ids.length)]

/-- The backup state after `revoke_local_backups`. -/
def revokedState (s : BackupSession) (w : Chance) : Except Exn (List (String × Json)) := do
  let state := s.loadBackupState P
  let latestId ← strField (.obj state) "latest_backup_id"
  let latest ← intField (.obj state) "latest_generation"
  let ids ← revokedIds state
  let ids := if latestId ≠ "" then latestId :: ids else ids
  let before ← intField (.obj state) "revoked_before_generation"
  return updateDict state [
    ("revoked_backup_ids", .arr ((ids.dedup.insertionSort (· ≤ ·)).map Json.str)),
    ("revoked_before_generation", .int (max before latest)),
    ("revoked_at", .int w.now)]

/-- `revoke_local_backups`. -/
def revokeLocalBackups (w : Chance) : Method BackupSession Json := do
  let s ← Method.get
  let state ← Method.ofExcept (s.revokedState P w)
  Method.modify (saveBackupState P w.stateStamp state)
  let s ← Method.get
  Method.ofExcept (s.getBackupStatus P)

end BackupSession

end SecChat
