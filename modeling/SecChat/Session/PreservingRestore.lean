import SecChat.Protocol.DoubleRatchet
import SecChat.Python.MethodRules
import SecChat.Session.CacheMerge

/-!
# A restore that keeps the identity

`restore_e2ee_backup` with `preserve_current_identity` merges message caches and skips every other
state file.  Names, flags and entries come from the payload, and `load_or_create_identity_key` runs
in the end.

* `Memory`, `LiveSession`, `restoreE2eeBackup`: the restore together with the state in memory;
* `Preserved`, `IdentityPreserved`: what the caller counts on;
* `Kept`: the invariant of the loop over the files; `keeps_restoreItem`: one turn;
* `restore_preserves`: the identity stays when its file holds it, everything else stays always.
-/

namespace SecChat.PreservingRestore

open Py BackupSession

/-! ### The session with its state in memory -/

/-- The attributes of `CryptoSession` that a restore clears. -/
structure Memory where
  convVerified : ℤ → Option Bool
  convFingerprints : ℤ → Option String
  identityAuditStates : ℤ → Option Json
  auditorState : List (String × Json)
  pqxdhPrekeys : Option Json
  doubleRatchetStates : ℤ → Option DoubleRatchet
  doubleRatchetSessionStates : ℤ → Option (AList fun _ : String => DoubleRatchet)
  groupEpochs : ℤ → Option ℤ
  groupConvIds : Finset ℤ
  mlsGroupReady : Finset ℤ
  mlsHandshakeSeen : Finset String

/-- What is left of it. -/
def Memory.cleared : Memory where
  convVerified _ := none
  convFingerprints _ := none
  identityAuditStates _ := none
  auditorState := []
  pqxdhPrekeys := none
  doubleRatchetStates _ := none
  doubleRatchetSessionStates _ := none
  groupEpochs _ := none
  groupConvIds := ∅
  mlsGroupReady := ∅
  mlsHandshakeSeen := ∅

structure LiveSession where
  session : BackupSession
  memory : Memory

/-- A call that does not use what is in memory. -/
def onSession {α : Type} (x : Method BackupSession α) : Method LiveSession α := fun l =>
  ((x l.session).1, { l with session := (x l.session).2 })

/-- `clear` on every attribute, unless the identity is kept. -/
def clearMemory (preserve : Bool) (l : LiveSession) : LiveSession :=
  if preserve then l else { l with memory := .cleared }

variable (P : Prims) (L : BackupLibs)

/-- `restore_e2ee_backup`. -/
def restoreE2eeBackup (path passphrase : String) (overwrite preserve : Bool) (w : Chance) :
    Method LiveSession Json := do
  let s := (← Method.get).session
  if s.loggedIn = false then
    Method.raise (.runtimeError "Login is required before restoring backup.")
  else
    match s.disk.lookup path with
    | none => Method.raise (.fileNotFound path)
    | some text => do
        let o ← Method.ofExcept (s.openBackup P L text passphrase)
        let items ← Method.ofExcept (do iterValues (← o.payload.getD "files" (.arr [])))
        let counts ← onSession (restoreItems P w overwrite preserve 0 ⟨0, 0, 0⟩ items)
        Method.modify (clearMemory preserve)
        onSession (Method.modify (reload P w preserve))
        let s := (← Method.get).session
        let state ← Method.ofExcept (s.restoredState P o w)
        onSession (Method.modify (saveBackupState P w.stateStamp state))
        Method.ofExcept (restoreResult o counts preserve)

/-! ### What the caller counts on -/

/-- A message cache. -/
def CacheFile (name : String) : Prop :=
  '/' ∉ name.toList ∧ fnmatchcase name "msgs_*.bin" = true

/-- The files that hold anything but messages. -/
def statePatterns : List String :=
  ["identity_sk.bin", "pqxdh_prekeys.bin", "dr_*", "mls_*", "verified_*", "identity_audit_*",
    "transcript_*", "auditor_state.bin", "cache_policy.bin"]

def StateFile (name : String) : Prop :=
  '/' ∉ name.toList ∧ statePatterns.any (fnmatchcase name ·) = true

/-- The names that are written: caches, their temporary files, and the note about the restore. -/
def Written (base : String) : Prop :=
  CacheFile base ∨ (∃ name, CacheFile name ∧ base = name ++ ".tmp") ∨ base = "backup_state.bin"

/-- A line of a cache is about message `n`. -/
def MessageId (raw : String) (n : ℤ) : Prop :=
  n ≠ 0 ∧ (loads (encodeUtf8 raw) >>= (intField · "id")) = .ok n

/-- The file has a readable line about message `n`. -/
def Knows (s : BackupSession) (name : String) (n : ℤ) : Prop :=
  ∃ raw ∈ s.cacheTexts P (s.statePath name), MessageId raw n

/-- Any `msgs_*` file; a temporary file is none. -/
def MsgsFile (name : String) : Prop :=
  '/' ∉ name.toList ∧ isCacheName name = true ∧ ¬ ".tmp".toList <:+ name.toList

/-- `identity_sk.bin` opens to the identity in memory, as after `load_or_create_identity_key`. -/
def IdentityStored (s : BackupSession) : Prop :=
  ∃ text, s.disk.lookup (s.statePath "identity_sk.bin") = some text ∧
    (decryptWithKey P s.masterKey (pyStrip text) >>= parseIdentity P) =
      .ok (s.identitySk, s.identityPk)

/-- The identity is as before. -/
structure IdentityPreserved (s s' : BackupSession) : Prop where
  identityPk : s'.identityPk = s.identityPk
  identitySk : s'.identitySk = s.identitySk
  file : s'.disk.lookup (s.statePath "identity_sk.bin") =
    s.disk.lookup (s.statePath "identity_sk.bin")

/-- Everything but the identity is as before, and no cache lost a message. -/
structure Preserved (l l' : LiveSession) : Prop where
  memory : l'.memory = l.memory
  attributes : l'.session = { l.session with
    disk := l'.session.disk
    identityPk := l'.session.identityPk
    identitySk := l'.session.identitySk }
  stateFiles : ∀ name, StateFile name → name ≠ "identity_sk.bin" →
    l'.session.disk.lookup (l.session.statePath name) =
      l.session.disk.lookup (l.session.statePath name)
  otherFiles : ∀ p, (∀ base, Written base → p ≠ l.session.statePath base) →
    p ≠ l.session.statePath "identity_sk.bin" →
      l'.session.disk.lookup p = l.session.disk.lookup p
  ids : ∀ name, MsgsFile name → ∀ n, Knows P l.session name n → Knows P l'.session name n

variable {P} {L}

/-! ### Names -/

/-- What the names of caches and of state files start with. -/
theorem take_two_of_match {pattern name : String} (h : fnmatchcase name pattern = true)
    (hlen : 2 ≤ (pattern.toList.takeWhile (· ≠ '*')).length) :
    name.toList.take 2 = (pattern.toList.takeWhile (· ≠ '*')).take 2 := by
  obtain ⟨rest, hname⟩ := prefix_of_wildMatch h
  rw [← hname, List.take_append_of_le_length hlen]

theorem CacheFile.take_two {name : String} (h : CacheFile name) :
    name.toList.take 2 = ['m', 's'] := take_two_of_match h.2 (by decide)

/-- Nothing that is written is a state file. -/
theorem StateFile.not_written {name : String} (h : StateFile name) : ¬ Written name := by
  obtain ⟨-, hany⟩ := h
  obtain ⟨pattern, hmem, hmatch⟩ := List.any_eq_true.mp hany
  have hpatterns : ∀ q ∈ statePatterns, 2 ≤ (q.toList.takeWhile (· ≠ '*')).length ∧
      (q.toList.takeWhile (· ≠ '*')).take 2 ∉ [['m', 's'], ['b', 'a']] := by decide
  obtain ⟨hlen, hnot⟩ := hpatterns pattern hmem
  rw [← take_two_of_match hmatch hlen] at hnot
  rintro (hcache | ⟨cache, hcache, rfl⟩ | rfl)
  · exact hnot (by simp [hcache.take_two])
  · refine hnot ?_
    have htwo := hcache.take_two
    have hlen : 2 ≤ cache.toList.length := by
      have hle := congrArg List.length htwo
      rw [List.length_take] at hle
      exact min_eq_left_iff.mp hle
    rw [String.toList_append, List.take_append_of_le_length hlen, htwo]
    exact List.mem_cons_self
  · exact hnot (by decide)

theorem Written.slash_notMem {base : String} (h : Written base) : '/' ∉ base.toList := by
  rcases h with h | ⟨name, h, rfl⟩ | rfl
  · exact h.1
  · exact slash_notMem_tmp h.1
  · decide

/-- **Of the allowed names, the caches alone are not skipped.** -/
theorem cacheFile_of_not_skipped {name : String} (hallowed : backupNameAllowed name = true)
    (hskip : restoreShouldSkipForMerge name = false) : CacheFile name := by
  refine ⟨slash_notMem_of_allowed hallowed, ?_⟩
  obtain ⟨-, -, hany⟩ : basename name = name ∧ name ≠ "" ∧
      backupPatterns.any (fnmatchcase name ·) = true := by simpa [backupNameAllowed] using hallowed
  obtain ⟨pattern, hmem, hmatch⟩ := List.any_eq_true.mp hany
  by_contra hnot
  have hskipped : restoreShouldSkipForMerge name = true := by
    have hne : pattern ≠ "msgs_*.bin" := by
      rintro rfl
      exact hnot hmatch
    have hcases : ∀ q ∈ backupPatterns, q ≠ "msgs_*.bin" →
        ('*' ∉ q.toList ∧ q ∈ ["identity_sk.bin", "pqxdh_prekeys.bin", "auditor_state.bin",
          "cache_policy.bin"]) ∨
        ∃ tag ∈ ["dr_", "mls_", "verified_", "identity_audit_", "transcript_"],
          q.toList.takeWhile (· ≠ '*') = tag.toList := by decide
    rcases hcases pattern hmem hne with ⟨hstar, hlit⟩ | ⟨tag, htag, hpre⟩
    · have hname : name = pattern := String.toList_inj.mp (wildMatch_literal hstar hmatch)
      simp only [restoreShouldSkipForMerge, hname, decide_eq_true_eq]
      exact .inl hlit
    · have hstarts : name.startsWith tag = true := by
        rw [String.startsWith_string_iff, ← hpre]
        exact prefix_of_wildMatch hmatch
      simp only [restoreShouldSkipForMerge, decide_eq_true_eq]
      exact .inr (List.any_eq_true.mpr ⟨tag, htag, hstarts⟩)
  rw [hskip] at hskipped
  cases hskipped

/-! ### Message ids -/

/-- The key that a merge files a line about a message under. -/
theorem mergeKey_eq_iff {raw : String} {n : ℤ} :
    mergeKey P raw = "id:" ++ toString n ∧ n ≠ 0 ↔ MessageId raw n := by
  have hraw : ∀ digest m : String, "raw:" ++ digest ≠ "id:" ++ m := by
    intro digest m heq
    have hlist := congrArg String.toList heq
    rw [String.toList_append, String.toList_append] at hlist
    cases hlist
  have hwire : ∀ hash m : String, "wire:" ++ hash ≠ "id:" ++ m := by
    intro hash m heq
    have hlist := congrArg String.toList heq
    rw [String.toList_append, String.toList_append] at hlist
    cases hlist
  unfold mergeKey MessageId
  cases hload : loads (encodeUtf8 raw) with
  | error e => simp [hraw]
  | ok item =>
    cases hid : intField item "id" with
    | error e => simp [hid, hraw]
    | ok mid =>
      by_cases hmid : mid = 0
      · subst hmid
        have hnot : ¬ (n ≠ 0 ∧ (Except.ok 0 : Except Exn ℤ) = .ok n) := by
          rintro ⟨hn, heq⟩
          exact hn (Except.ok.inj heq).symm
        simp only [ok_bind, hid, iff_false_right hnot, ne_eq, not_true_eq_false, if_false]
        rintro ⟨heq, -⟩
        cases hhash : strField item "wire_hash" with
        | error e =>
          rw [hhash] at heq
          exact hraw _ _ heq
        | ok hash =>
          rw [hhash] at heq
          by_cases hne : hash = ""
          · simp only [ok_bind, hne, not_true_eq_false, if_false] at heq
            exact hraw _ _ heq
          · simp only [ok_bind, hne, not_false_eq_true, if_true] at heq
            exact hwire _ _ heq
      · simp only [ok_bind, hid, ne_eq, hmid, not_false_eq_true, if_true, pure_eq_ok]
        constructor
        · rintro ⟨heq, hn⟩
          have hlist := congrArg String.toList heq
          rw [String.toList_append, String.toList_append] at hlist
          have htext := String.toList_inj.mp (List.append_cancel_left hlist)
          exact ⟨hn, congrArg Except.ok (toString_int_injective htext)⟩
        · rintro ⟨hn, heq⟩
          obtain rfl := Except.ok.inj heq
          exact ⟨rfl, hn⟩

/-- **A merge keeps a line about every message** that either side has one about. -/
theorem messageId_merged {s : BackupSession} {dst raw : String} {incoming : List String} {n : ℤ}
    (hraw : raw ∈ s.cacheTexts P dst ++ incoming) (hid : MessageId raw n) :
    ∃ kept ∈ s.mergeCacheEntries P dst incoming, MessageId kept n := by
  have hfold := keepsFirstBest_foldl (mergeKey P) mergeQuality (s.cacheTexts P dst ++ incoming)
  obtain ⟨hkey, hn⟩ := mergeKey_eq_iff (P := P).mpr hid
  obtain ⟨item, hitem, hfst⟩ := List.mem_map.mp (hfold.covers raw hraw)
  obtain ⟨hbest, -⟩ := hfold.best item hitem
  refine ⟨item.2, ?_, mergeKey_eq_iff (P := P).mp ⟨?_, hn⟩⟩
  · rw [mergeCacheEntries_eq]
    exact List.mem_map_of_mem hitem
  · rw [← hbest, hfst, hkey]

/-- What is read off a cache depends on its own file alone. -/
theorem cacheTexts_congr {s s' : BackupSession} {dst : String}
    (h : s'.disk.lookup dst = s.disk.lookup dst) (hkey : s'.masterKey = s.masterKey) :
    s'.cacheTexts P dst = s.cacheTexts P dst := by
  unfold cacheTexts
  rw [h, hkey]

/-- No cache is concerned by a change of another file. -/
theorem knows_congr {s s' : BackupSession} {name : String} {n : ℤ}
    (h : s'.disk.lookup (s.statePath name) = s.disk.lookup (s.statePath name))
    (hkey : s'.masterKey = s.masterKey) (hdir : s'.secchatDir = s.secchatDir)
    (hn : Knows P s name n) : Knows P s' name n := by
  obtain ⟨raw, hraw, hid⟩ := hn
  refine ⟨raw, ?_, hid⟩
  have hpath : s'.statePath name = s.statePath name := by
    unfold BackupSession.statePath
    rw [hdir]
  rw [hpath, cacheTexts_congr h hkey]
  exact hraw

theorem knows_disk {s : BackupSession} {d : Disk} {name : String} {n : ℤ}
    (h : d.lookup (s.statePath name) = s.disk.lookup (s.statePath name)) (hn : Knows P s name n) :
    Knows P { s with disk := d } name n := knows_congr h rfl rfl hn

theorem cacheTexts_of_missing {s : BackupSession} {dst : String} (h : s.disk.lookup dst = none) :
    s.cacheTexts P dst = [] := by
  have hstrip : pyStrip "" = "" := by decide
  unfold cacheTexts
  rw [h]
  simp [hstrip]

/-! ### The invariant -/

variable (P) in
/-- What a restore that keeps the identity has left of the session it started with. -/
structure Kept (s₀ s : BackupSession) : Prop where
  attributes : s = { s₀ with
    disk := s.disk
    identityPk := s.identityPk
    identitySk := s.identitySk }
  files : ∀ p, (∀ base, Written base → p ≠ s₀.statePath base) →
    p ≠ s₀.statePath "identity_sk.bin" → s.disk.lookup p = s₀.disk.lookup p
  identity : IdentityStored P s₀ → IdentityPreserved s₀ s
  ids : ∀ name, MsgsFile name → ∀ n, Knows P s₀ name n → Knows P s name n

section Kept

variable {s₀ s : BackupSession}

theorem Kept.refl (s : BackupSession) : Kept P s s :=
  ⟨rfl, fun _ _ _ => rfl, fun _ => ⟨rfl, rfl, rfl⟩, fun _ _ _ h => h⟩

theorem Kept.masterKey (h : Kept P s₀ s) : s.masterKey = s₀.masterKey := by rw [h.attributes]

theorem Kept.statePath (h : Kept P s₀ s) (name : String) :
    s.statePath name = s₀.statePath name := by
  rw [h.attributes]
  rfl

theorem identity_not_written {base : String} (h : Written base) (s : BackupSession) :
    s.statePath "identity_sk.bin" ≠ s.statePath base := by
  intro heq
  have hstate : StateFile "identity_sk.bin" := ⟨by decide, by decide +kernel⟩
  have hname := statePath_injective hstate.1 h.slash_notMem heq
  exact hstate.not_written (hname ▸ h)

/-- The disk changes at a written name. -/
theorem Kept.disk (h : Kept P s₀ s) {d : Disk}
    (hfiles : ∀ p, (∀ base, Written base → p ≠ s.statePath base) →
      d.lookup p = s.disk.lookup p)
    (hids : ∀ name, MsgsFile name → ∀ n, Knows P s name n → Knows P { s with disk := d } name n) :
    Kept P s₀ { s with disk := d } := by
  have hsame : ∀ p, (∀ base, Written base → p ≠ s₀.statePath base) →
      d.lookup p = s.disk.lookup p := by
    intro p hp
    refine hfiles p fun base hbase => ?_
    rw [h.statePath]
    exact hp base hbase
  refine ⟨?_, fun p hp hne => (hsame p hp).trans (h.files p hp hne), fun hstored => ?_,
    fun name hname n hn => hids name hname n (h.ids name hname n hn)⟩
  · rw [h.attributes]
  · obtain ⟨hpk, hsk, hfile⟩ := h.identity hstored
    refine ⟨hpk, hsk, (hsame _ fun base hbase => ?_).trans hfile⟩
    exact identity_not_written hbase s₀

end Kept

/-! ### One file -/

section Item

variable {s₀ s : BackupSession} {name : String}

/-- The two calls that put a text in place of a file: both succeed, or nothing happens. -/
theorem write_cases (s : BackupSession) (dst text : String) (c : Counts) :
    ((onDisk fun d => d.write (dst ++ ".tmp") text) >>= fun _ =>
        (onDisk fun d => d.replace (dst ++ ".tmp") dst) >>= fun _ => pure c) s =
      (.error (.valueError "embedded null byte"), s) ∨
    ∃ d, ((onDisk fun d => d.write (dst ++ ".tmp") text) >>= fun _ =>
        (onDisk fun d => d.replace (dst ++ ".tmp") dst) >>= fun _ => pure c) s =
      (.ok c, { s with disk := d }) ∧
      ∀ p, d.lookup p =
        if p = dst then some text else if p = dst ++ ".tmp" then none else s.disk.lookup p := by
  by_cases hnul : '\x00' ∈ dst.toList
  · left
    have htmp : '\x00' ∈ (dst ++ ".tmp").toList := by
      rw [String.toList_append]
      exact List.mem_append_left _ hnul
    have hwrite : onDisk (fun d => d.write (dst ++ ".tmp") text) s =
        (.error (.valueError "embedded null byte"), s) := by
      unfold onDisk Disk.write
      simp only [dif_pos htmp]
    exact Method.bind_error hwrite
  · right
    obtain ⟨d₁, d₂, h₁, h₂, hlookup⟩ := write_replace hnul s.disk text
    refine ⟨d₂, ?_, hlookup⟩
    rw [Method.bind_ok (onDisk_ok h₁), Method.bind_ok (onDisk_ok (s := { s with disk := d₁ }) h₂)]
    rfl

theorem isCacheName_of_cacheFile (h : CacheFile name) : isCacheName name = true := by
  rw [isCacheName_iff]
  exact prefix_of_wildMatch h.2

/-- **A cache is replaced** by one that keeps its messages. -/
theorem Kept.write (h : Kept P s₀ s) (hcache : CacheFile name) (c : Counts) {text : String}
    (hids : ∀ d : Disk, d.lookup (s.statePath name) = some text → ∀ n, Knows P s name n →
      Knows P { s with disk := d } name n) :
    Kept P s₀ (((onDisk fun d => d.write (s.statePath name ++ ".tmp") text) >>= fun _ =>
      (onDisk fun d => d.replace (s.statePath name ++ ".tmp") (s.statePath name)) >>= fun _ =>
        pure c) s).2 := by
  rcases write_cases s (s.statePath name) text c with hrun | ⟨d, hrun, hlookup⟩
  · rw [hrun]
    exact h
  · rw [hrun]
    have htmp : s.statePath name ++ ".tmp" = s.statePath (name ++ ".tmp") :=
      pathJoin_tmp hcache.1 _
    refine h.disk (fun p hp => ?_) fun other hother n hn => ?_
    · have hcacheNe : p ≠ s.statePath name := hp name (.inl hcache)
      have htmpNe : p ≠ s.statePath name ++ ".tmp" := by
        rw [htmp]
        exact hp _ (.inr (.inl ⟨name, hcache, rfl⟩))
      rw [hlookup, if_neg hcacheNe, if_neg htmpNe]
    · by_cases hne : other = name
      · subst hne
        exact hids d (by rw [hlookup, if_pos rfl]) n hn
      · have hcacheNe : s.statePath other ≠ s.statePath name := fun heq =>
          hne (statePath_injective hother.1 hcache.1 heq)
        have htmpNe : s.statePath other ≠ s.statePath name ++ ".tmp" := by
          rw [htmp]
          intro heq
          have hname := statePath_injective hother.1 (slash_notMem_tmp hcache.1) heq
          refine hother.2.2 ?_
          rw [hname, String.toList_append]
          exact List.suffix_append _ _
        refine knows_disk ?_ hn
        rw [hlookup, if_neg hcacheNe, if_neg htmpNe]

/-- The lines of a merge are written: every message is still there. -/
theorem knows_merged (hP : P.Correct) {incoming tokens : List String}
    (hsealed : Sealed (P := P) s.masterKey tokens
      (s.mergeCacheEntries P (s.statePath name) incoming)) {d : Disk}
    (hfile : d.lookup (s.statePath name) = some (fileText true tokens)) {n : ℤ}
    (hn : Knows P s name n) : Knows P { s with disk := d } name n := by
  obtain ⟨raw, hraw, hid⟩ := hn
  obtain ⟨kept, hkept, hkeptId⟩ :=
    messageId_merged (List.mem_append_left incoming hraw) hid
  refine ⟨kept, ?_, hkeptId⟩
  have htexts : ({ s with disk := d } : BackupSession).cacheTexts P (s.statePath name) =
      s.mergeCacheEntries P (s.statePath name) incoming := cacheTexts_of_sealed hP hsealed hfile
  rw [← htexts] at hkept
  exact hkept

/-- Nothing is lost where there was no file. -/
theorem not_knows_of_missing (h : s.disk.exist (s.statePath name) = false) (n : ℤ) :
    ¬ Knows P s name n := by
  rintro ⟨raw, hraw, -⟩
  have hmissing : s.disk.lookup (s.statePath name) = none := by
    rw [← Option.isNone_iff_eq_none, ← Option.not_isSome]
    simpa [Disk.exist] using h
  rw [cacheTexts_of_missing hmissing] at hraw
  cases hraw

/-- **One turn of the loop** keeps everything, whatever the item says. -/
theorem keeps_restoreItem (hP : P.Correct) (s₀ : BackupSession) (w : Chance) (overwrite : Bool)
    (i : ℕ) (item : Json) :
    Method.Keeps (Kept P s₀) (restoreItem P w overwrite true i item) := by
  intro s hs
  unfold restoreItem
  rw [Method.get_bind]
  cases item.getD "name" (.str "") with
  | error e => exact hs
  | ok field =>
  rw [Method.ofExcept_ok_bind]
  dsimp only
  by_cases hallowed : backupNameAllowed (basename field.toStr) = false
  · rw [if_pos hallowed]
    exact hs
  rw [if_neg hallowed]
  cases boolField item "line_mode" with
  | error e => exact hs
  | ok lineMode =>
  rw [Method.ofExcept_ok_bind]
  by_cases hskip : restoreShouldSkipForMerge (basename field.toStr) = true
  · rw [if_pos ⟨rfl, hskip⟩]
    exact hs
  rw [if_neg fun h => hskip h.2]
  -- what is left is a message cache
  have hcache : CacheFile (basename field.toStr) :=
    cacheFile_of_not_skipped (by simpa using hallowed) (by simpa using hskip)
  have hmsgs := isCacheName_of_cacheFile hcache
  simp only [hmsgs, true_and]
  split
  · exact hs
  cases (do iterValues (← item.getD "entries" (.arr []))) with
  | error e => exact hs
  | ok raws =>
  rw [Method.ofExcept_ok_bind]
  cases lineMode with
  | true =>
    simp only [decide_true, Bool.true_eq_false, false_and, if_false, if_true]
    exact hs.write hcache _ fun d hfile n hn =>
      knows_merged hP (sealed_mapIdx s.masterKey (w.stamp i) _) hfile hn
  | false =>
    by_cases hexist : s.disk.exist (s.statePath (basename field.toStr)) = true
    · simp only [hexist, Bool.false_eq_true, decide_false, and_self, if_true]
      exact hs
    · have hmissing : s.disk.exist (s.statePath (basename field.toStr)) = false := by
        simpa using hexist
      simp only [hmissing, Bool.false_eq_true, decide_false, and_false, if_false]
      exact hs.write hcache _ fun d _ n hn => absurd hn (not_knows_of_missing hmissing n)

end Item

/-! ### The whole restore -/

section Restore

variable {s₀ s : BackupSession}

/-- The loop over the files. -/
theorem keeps_restoreItems (hP : P.Correct) (s₀ : BackupSession) (w : Chance) (overwrite : Bool)
    (i : ℕ) (counts : Counts) (items : List Json) :
    Method.Keeps (Kept P s₀) (restoreItems P w overwrite true i counts items) := by
  induction items generalizing i counts with
  | nil => exact Method.Keeps.pure counts
  | cons item items ih =>
    exact Method.Keeps.bind (keeps_restoreItem hP s₀ w overwrite i item) fun more => ih _ _

/-- A cache is neither the identity file nor the backup state. -/
theorem MsgsFile.ne {name other : String} (h : MsgsFile name) (hother : isCacheName other = false) :
    name ≠ other := by
  rintro rfl
  rw [h.2.1] at hother
  cases hother

theorem loadOrCreateIdentityKey_attributes (w : Chance) (s : BackupSession) :
    s.loadOrCreateIdentityKey P w = { s with
      disk := (s.loadOrCreateIdentityKey P w).disk
      identityPk := (s.loadOrCreateIdentityKey P w).identityPk
      identitySk := (s.loadOrCreateIdentityKey P w).identitySk } := by
  have hcreate : s.createIdentityKey P w = { s with
      disk := (s.createIdentityKey P w).disk
      identityPk := (s.createIdentityKey P w).identityPk
      identitySk := (s.createIdentityKey P w).identitySk } := by
    unfold createIdentityKey tryWrite
    split <;> rfl
  unfold loadOrCreateIdentityKey
  split
  · rfl
  split
  · exact hcreate
  split
  · rfl
  · exact hcreate

/-- An identity that is stored is loaded as it is. -/
theorem loadOrCreateIdentityKey_stored (h : IdentityStored P s) (w : Chance) :
    s.loadOrCreateIdentityKey P w = s := by
  obtain ⟨text, hfile, hopens⟩ := h
  unfold loadOrCreateIdentityKey
  split
  · rfl
  · rw [hfile]
    simp only [hopens]

/-- What is reloaded in the end. -/
theorem Kept.reload (h : Kept P s₀ s) (w : Chance) : Kept P s₀ (s.reload P w true) := by
  show Kept P s₀ (s.loadOrCreateIdentityKey P w)
  by_cases hstored : IdentityStored P s₀
  · have hstays : IdentityStored P s := by
      obtain ⟨text, hfile, hopens⟩ := hstored
      obtain ⟨hpk, hsk, hsame⟩ := h.identity ⟨text, hfile, hopens⟩
      refine ⟨text, ?_, ?_⟩
      · rw [h.statePath, hsame, hfile]
      · rw [h.masterKey, hpk, hsk, hopens]
    rw [loadOrCreateIdentityKey_stored hstays]
    exact h
  · have hsame := loadOrCreateIdentityKey_sameBut (P := P) w s
    refine ⟨?_, fun p hp hne => ?_, fun hs₀ => absurd hs₀ hstored, fun name hname n hn => ?_⟩
    · rw [loadOrCreateIdentityKey_attributes, h.attributes]
    · rw [hsame.lookup p (by rw [h.statePath]; exact hne), h.files p hp hne]
    · refine knows_congr (hsame.lookup _ fun heq => ?_) hsame.masterKey hsame.secchatDir
        (h.ids name hname n hn)
      have hother := not_isCacheName.1
      exact hname.ne hother (statePath_injective hname.1 (by decide) heq)

/-- The note about the restore. -/
theorem Kept.save (h : Kept P s₀ s) (w : Stamp) (state : List (String × Json)) :
    Kept P s₀ (s.saveBackupState P w state) := by
  unfold saveBackupState
  split
  · exact h
  unfold tryWrite
  split
  · next d hd =>
    have hstate : isCacheName "backup_state.bin" = false := by decide +kernel
    refine h.disk (fun p hp => ?_) fun name hname n hn => ?_
    · rw [Disk.lookup_write hd, if_neg (hp _ (.inr (.inr rfl)))]
    · have hne : s.statePath name ≠ s.statePath "backup_state.bin" := fun heq =>
        hname.ne hstate (statePath_injective hname.1 (by decide) heq)
      refine knows_disk ?_ hn
      rw [Disk.lookup_write hd, if_neg hne]
  · exact h

end Restore

/-! ### With the state in memory -/

section Live

variable {α : Type} {l₀ : LiveSession}

variable (P) in
/-- The invariant, and the memory as it was. -/
def LiveKept (l₀ l : LiveSession) : Prop := l.memory = l₀.memory ∧ Kept P l₀.session l.session

theorem keeps_onSession {x : Method BackupSession α} (h : Method.Keeps (Kept P l₀.session) x) :
    Method.Keeps (LiveKept P l₀) (onSession x) :=
  fun l hl => ⟨hl.1, h l.session hl.2⟩

/-- **A restore that keeps the identity** keeps the invariant, wherever it stops. -/
theorem keeps_restore (hP : P.Correct) (path passphrase : String) (overwrite : Bool) (w : Chance)
    (l₀ : LiveSession) :
    Method.Keeps (LiveKept P l₀) (restoreE2eeBackup P L path passphrase overwrite true w) := by
  intro l hl
  unfold restoreE2eeBackup
  rw [Method.get_bind]
  dsimp only
  split
  · exact hl
  cases l.session.disk.lookup path with
  | none => exact hl
  | some text =>
  refine Method.Keeps.bind (Method.Keeps.ofExcept _) (fun o => ?_) l hl
  refine Method.Keeps.bind (Method.Keeps.ofExcept _) fun items => ?_
  refine Method.Keeps.bind
    (keeps_onSession (keeps_restoreItems hP l₀.session w overwrite 0 _ items)) fun counts => ?_
  refine Method.Keeps.bind (Method.Keeps.modify fun _ h => h) fun _ => ?_
  refine Method.Keeps.bind
    (keeps_onSession (Method.Keeps.modify fun s hs => hs.reload w)) fun _ => ?_
  refine Method.Keeps.get_bind fun l hl => ?_
  refine Method.Keeps.bind (Method.Keeps.ofExcept _) (fun state => ?_) l hl
  exact Method.Keeps.bind
    (keeps_onSession (Method.Keeps.modify fun s hs => hs.save w.stateStamp state))
    fun _ => Method.Keeps.ofExcept _

/-- **A restore that keeps the identity touches only message caches.** -/
theorem restore_preserves (hP : P.Correct) (path passphrase : String) (overwrite : Bool)
    (w : Chance) (l : LiveSession) :
    Preserved P l (restoreE2eeBackup P L path passphrase overwrite true w l).2 ∧
      (IdentityStored P l.session →
        IdentityPreserved l.session
          (restoreE2eeBackup P L path passphrase overwrite true w l).2.session) := by
  obtain ⟨hmemory, hkept⟩ := keeps_restore (L := L) hP path passphrase overwrite w l l
    ⟨rfl, Kept.refl l.session⟩
  refine ⟨⟨hmemory, hkept.attributes, fun name hname hne => ?_, hkept.files, hkept.ids⟩,
    hkept.identity⟩
  refine hkept.files _ (fun base hbase heq => ?_) fun heq => ?_
  · obtain rfl := statePath_injective hname.1 hbase.slash_notMem heq
    exact hname.not_written hbase
  · exact hne (statePath_injective hname.1 (by decide) heq)

end Live

/-! ### The session alone -/

section Session

variable {α β : Type}

/-- On the session `x` does what `y` does. -/
def Projects (x : Method LiveSession α) (y : Method BackupSession α) : Prop :=
  ∀ l, (x l).1 = (y l.session).1 ∧ (x l).2.session = (y l.session).2

theorem projects_ofExcept (r : Except Exn α) :
    Projects (Method.ofExcept r) (Method.ofExcept r) := fun _ => ⟨rfl, rfl⟩

theorem projects_onSession (y : Method BackupSession α) : Projects (onSession y) y :=
  fun _ => ⟨rfl, rfl⟩

theorem Projects.bind {x : Method LiveSession α} {y : Method BackupSession α}
    {f : α → Method LiveSession β} {g : α → Method BackupSession β} (hx : Projects x y)
    (hf : ∀ a, Projects (f a) (g a)) : Projects (x >>= f) (y >>= g) := by
  intro l
  obtain ⟨hresult, hsession⟩ := hx l
  rw [Method.bind_run, Method.bind_run]
  rcases hxl : x l with ⟨r, l'⟩
  rcases hyl : y l.session with ⟨r', s'⟩
  rw [hxl, hyl] at hresult hsession
  dsimp only at hresult hsession
  subst hresult hsession
  cases r with
  | error e => exact ⟨rfl, rfl⟩
  | ok a => exact hf a l'

/-- A step that is not about the session. -/
theorem Projects.modify_bind {f : LiveSession → LiveSession} (hf : ∀ l, (f l).session = l.session)
    {x : Unit → Method LiveSession α} {y : Method BackupSession α} (hx : Projects (x ()) y) :
    Projects (Method.modify f >>= x) y := by
  intro l
  rw [Method.modify_bind, ← hf l]
  exact hx (f l)

theorem Projects.get_bind {f : LiveSession → Method LiveSession α}
    {g : BackupSession → Method BackupSession α} (h : ∀ l, Projects (f l) (g l.session)) :
    Projects (Method.get >>= f) (Method.get >>= g) := fun l => h l l

/-- **The restore of the session is the one that leaves the memory out.** -/
theorem projects_restore (path passphrase : String) (overwrite preserve : Bool) (w : Chance) :
    Projects (restoreE2eeBackup P L path passphrase overwrite preserve w)
      (BackupSession.restoreE2eeBackup P L path passphrase overwrite preserve w) := by
  have hclear : ∀ l, (clearMemory preserve l).session = l.session := by
    intro l
    unfold clearMemory
    split <;> rfl
  refine Projects.get_bind fun l => ?_
  dsimp only
  split
  · exact fun _ => ⟨rfl, rfl⟩
  cases l.session.disk.lookup path with
  | none => exact fun _ => ⟨rfl, rfl⟩
  | some text =>
  refine (projects_ofExcept _).bind fun o => (projects_ofExcept _).bind fun items => ?_
  refine (projects_onSession _).bind fun counts => Projects.modify_bind hclear ?_
  refine (projects_onSession _).bind fun _ => Projects.get_bind fun l => ?_
  refine (projects_ofExcept _).bind fun state => ?_
  exact (projects_onSession _).bind fun _ => projects_ofExcept _

end Session

/-! ### Two devices -/

/-- After `load_or_create_identity_key` the identity is stored. -/
theorem identityStored_loadOrCreate (hP : P.Correct) {s : BackupSession}
    (hlogin : s.loggedIn = true)
    (w : Chance) : IdentityStored P (s.loadOrCreateIdentityKey P w) := by
  have hcreate : IdentityStored P (s.createIdentityKey P w) := by
    have hnul : '\x00' ∉ (s.statePath "identity_sk.bin").toList :=
      nul_notMem_pathJoin s.dirNoNul (by decide)
    obtain ⟨d, hd⟩ := Disk.write_ok hnul s.disk
      (encryptWithKey P s.masterKey w.identityStamp (b64encode w.identitySeed.1))
    have hparse : parseIdentity P (.str (b64encode w.identitySeed.1)) =
        .ok (w.identitySeed.1, P.ed25519Public w.identitySeed) := by
      simp [parseIdentity, identityPkFromSk, w.identitySeed.2]
    have hrun : s.createIdentityKey P w = { s with
        identityPk := P.ed25519Public w.identitySeed
        identitySk := w.identitySeed.1
        disk := d } := by
      simp only [createIdentityKey, tryWrite, hd]
    rw [hrun]
    refine ⟨_, (Disk.lookup_write hd _).trans (if_pos rfl), ?_⟩
    have htoken := isToken_encryptWithKey (P := P) s.masterKey w.identityStamp
      (b64encode w.identitySeed.1)
    rw [htoken.strip, decryptWithKey_encryptWithKey hP]
    exact hparse
  have hnot : ¬ s.loggedIn = false := by simp [hlogin]
  unfold loadOrCreateIdentityKey
  rw [if_neg hnot]
  split
  · exact hcreate
  · next text hfile =>
    split
    · next sk pk hopens => exact ⟨text, hfile, hopens⟩
    · exact hcreate

/-- A device that was logged in before the file came. -/
def keyedDevice (text : String) : BackupSession :=
  (newDevice text).loadOrCreateIdentityKey termPrims zeroChance

/-- The exported file is restored by every session that has it and revoked nothing. -/
theorem restore_returns {b : PackedBackup termPrims asciiLibs}
    (hpass : b.passphrase = "backup-passphrase") (hok : ∀ f ∈ b.info.files, f.Ok)
    {t : BackupSession} (hlogin : t.loggedIn = true)
    (hfile : t.disk.lookup "/x" = some (dumpsText b.outer))
    (hstate : t.loadBackupState termPrims = []) :
    ∃ r c d state,
      restoreItems termPrims zeroChance true true 0 ⟨0, 0, 0⟩ (b.info.files.map BackupFile.json) t =
        (.ok c, { t with disk := d }) ∧
      BackupSession.restoreE2eeBackup termPrims asciiLibs "/x" "backup-passphrase" true true
        zeroChance t = (.ok r, saveBackupState termPrims zeroStamp state
          ({ t with disk := d }.reload termPrims zeroChance true)) := by
  have hload : loads (encodeUtf8 (dumpsText b.outer)) = .ok b.outer :=
    loads_dumpsText (b.info.outer_plain _ _ _)
  have hid : outerBackupId b.outer = .ok b.info.backupId := b.info.outerBackupId_outer _ _ _
  have hg : outerGeneration b.outer = .ok b.info.generation := b.info.outerGeneration_outer _ _ _
  have hshows : Shows (t.loadBackupState termPrims) ⟨0, 0, [], "", 0, ""⟩ := by
    rw [hstate]
    exact shows_nil
  have haccepts : BackupView.Accepts ⟨0, 0, [], "", 0, ""⟩ b.info.backupId b.info.generation := by
    simp [BackupView.Accepts]
  obtain ⟨c, d, state, r, hloop, -, hrestore⟩ := PackedBackup.restore_eq hok hlogin hfile hload
    (sameFields_self _ _ _ _) termPrims_symbolic.toCorrect hshows hid hg
    ((checkRevoked_iff hshows _ _).mpr haccepts) true true zeroChance
  rw [hpass] at hrestore
  exact ⟨r, c, d, state, hloop, hrestore⟩

/-- After the reload there is an identity file. -/
theorem identity_exists (hP : P.Correct) {s : BackupSession} (hlogin : s.loggedIn = true)
    (w : Chance) (stamp : Stamp) (state : List (String × Json)) :
    ((s.reload P w true).saveBackupState P stamp state).disk.lookup
      (s.statePath "identity_sk.bin") ≠ none := by
  have hstored : IdentityStored P (s.reload P w true) := identityStored_loadOrCreate hP hlogin w
  obtain ⟨text, hfile, -⟩ := hstored
  have hreload := reload_sameBut (P := P) w true s
  have hne : s.statePath "identity_sk.bin" ≠ (s.reload P w true).statePath "backup_state.bin" := by
    rw [hreload.statePath]
    exact fun heq => absurd (statePath_injective (by decide) (by decide) heq) (by decide)
  rw [hreload.statePath] at hfile
  rw [(saveBackupState_sameBut stamp state (s.reload P w true)).lookup _ hne, hfile]
  exact Option.some_ne_none text

/-- **On a device without an identity file a restore that keeps the identity makes one.** -/
theorem restore_not_preserves : ¬ ∀ (P : Prims) (L : BackupLibs), P.Correct →
    ∀ (path passphrase : String) (overwrite : Bool) (w : Chance) (l : LiveSession),
      Preserved P l (restoreE2eeBackup P L path passphrase overwrite true w l).2 ∧
        IdentityPreserved l.session
          (restoreE2eeBackup P L path passphrase overwrite true w l).2.session := by
  intro h
  obtain ⟨b, -, -, -, hpass, -, hok, -⟩ := oldDevice_exports
  have hlookup : (newDevice (dumpsText b.outer)).disk.lookup "/x" = some (dumpsText b.outer) := by
    rw [newDevice_disk, if_pos rfl]
  obtain ⟨r, c, d, state, -, hrestore⟩ :=
    restore_returns hpass hok rfl hlookup (newDevice_state (dumpsText b.outer))
  generalize dumpsText b.outer = text at hrestore
  have hfile := (h termPrims asciiLibs termPrims_symbolic.toCorrect "/x" "backup-passphrase"
    true zeroChance ⟨newDevice text, .cleared⟩).2.file
  rw [(projects_restore "/x" "backup-passphrase" true true zeroChance
    ⟨newDevice text, .cleared⟩).2, hrestore] at hfile
  have hnone : (newDevice text).disk.lookup (pathJoin "/k" "identity_sk.bin") = none := by
    rw [newDevice_disk, if_neg (by decide +kernel), if_neg (by decide +kernel)]
  refine identity_exists (P := termPrims) (s := { newDevice text with disk := d })
    termPrims_symbolic.toCorrect rfl zeroChance zeroStamp state ?_
  exact hfile.trans hnone

/-- A device that was logged in keeps its identity and takes the messages. -/
theorem restore_preserves_keyed : ∃ (text : String) (r : Json),
    exportedFile termPrims asciiLibs "backup-passphrase" "u" true zeroChance oldDevice = some text ∧
    (restoreE2eeBackup termPrims asciiLibs "/x" "backup-passphrase" true true zeroChance
      ⟨keyedDevice text, .cleared⟩).1 = .ok r ∧
    Preserved termPrims ⟨keyedDevice text, .cleared⟩
      (restoreE2eeBackup termPrims asciiLibs "/x" "backup-passphrase" true true zeroChance
        ⟨keyedDevice text, .cleared⟩).2 ∧
    IdentityPreserved (keyedDevice text)
      (restoreE2eeBackup termPrims asciiLibs "/x" "backup-passphrase" true true zeroChance
        ⟨keyedDevice text, .cleared⟩).2.session := by
  obtain ⟨b, -, -, hexported, hpass, -, hok, -⟩ := oldDevice_exports
  set text := dumpsText b.outer with htext
  have hP := termPrims_symbolic.toCorrect
  have hsame : SameBut (· = (newDevice text).statePath "identity_sk.bin") (newDevice text)
      (keyedDevice text) := loadOrCreateIdentityKey_sameBut zeroChance (newDevice text)
  have hlookup : (keyedDevice text).disk.lookup "/x" = some text := by
    have hnot : ¬ "/x" = (newDevice text).statePath "identity_sk.bin" := by
      have hpath : (newDevice text).statePath "identity_sk.bin" =
        pathJoin "/k" "identity_sk.bin" := rfl
      rw [hpath]
      decide +kernel
    rw [hsame.lookup "/x" hnot, newDevice_disk, if_pos rfl]
  have hstate : (keyedDevice text).loadBackupState termPrims = [] :=
    (loadBackupState_of_sameBut (hsame.mono fun _ hp => itemPath_of_reloaded (.inl hp))).trans
      (newDevice_state text)
  have hstored : IdentityStored termPrims (keyedDevice text) :=
    identityStored_loadOrCreate hP rfl zeroChance
  obtain ⟨r, c, d, state, -, hrestore⟩ :=
    restore_returns hpass hok (hsame.loggedIn.trans rfl) hlookup hstate
  obtain ⟨hpreserved, hidentity⟩ := restore_preserves (L := asciiLibs) hP "/x" "backup-passphrase"
    true zeroChance ⟨keyedDevice text, .cleared⟩
  refine ⟨text, r, hexported, ?_, hpreserved, hidentity hstored⟩
  rw [(projects_restore "/x" "backup-passphrase" true true zeroChance
    ⟨keyedDevice text, .cleared⟩).1, hrestore]

end SecChat.PreservingRestore
