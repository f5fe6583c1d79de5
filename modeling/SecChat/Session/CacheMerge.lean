import SecChat.Library.FirstBest
import SecChat.Session.BackupRoundTrip

/-!
# Merging a backup into the message cache

`load_cached_messages` files the lines of a cache under message ids and wire hashes, and the last
line wins.  `_merge_cache_entries` keeps one line for each key, and there the first best line wins.

* `cacheTexts`: the lines of a cache file that decrypt;
* `shown`, `loadEntries`: what a line and a file say about an id or a hash;
* `LastShown`, `Kept`: the last line for a key, and the one that a merge leaves in force;
* `load_merged_iff`: what is loaded after a merge; `cacheTexts_restoreItem`: and after a restore;
* `MergeTransparent`: a merge changes nothing that was readable; `merge_transparent_iff`: when.
-/

namespace SecChat

open Py

/-! ### Loading a cache -/

/-- A key of the dictionary that `load_cached_messages` returns. -/
inductive CacheKey
  | id (n : ℤ)
  | wire (hash : String)
  deriving DecidableEq

variable (P : Prims) (fresh : Json → Except Exn Bool)

/-- A line of the cache: the entry, and the keys that it is filed under; an entry that has expired
has none. -/
def cacheLine (raw : String) : Except Exn (Json × List CacheKey) := do
  let entry ← loads (encodeUtf8 raw)
  if (← fresh entry) = false then return (entry, [])
  let mid ← (← entry.getD "id" (.int 0)).toInt
  let wireHash ← strField entry "wire_hash"
  return (entry, (if mid ≠ 0 then [.id mid] else []) ++
    (if wireHash ≠ "" then [.wire wireHash] else []))

/-- One turn of the loop of `load_cached_messages`; a line that raises is dropped. -/
def fileLine (out : CacheKey → Option Json) (raw : String) : CacheKey → Option Json :=
  match cacheLine fresh raw with
  | .ok (entry, keys) => fun k => if k ∈ keys then some entry else out k
  | .error _ => out

/-- `load_cached_messages` on the texts of a cache, where the cache is on; `fresh` is
`_cache_entry_is_fresh` at the time of the call. -/
def loadEntries (raws : List String) : CacheKey → Option Json :=
  raws.foldl (fileLine fresh) fun _ => none

/-- What a line says about a key. -/
def shown (k : CacheKey) (raw : String) : Option Json :=
  match cacheLine fresh raw with
  | .ok (entry, keys) => if k ∈ keys then some entry else none
  | .error _ => none

/-- The last line about a key. -/
def LastShown (raws : List String) (k : CacheKey) (entry : Json) : Prop :=
  ∃ u raw v, raws = u ++ raw :: v ∧ shown fresh k raw = some entry ∧ ∀ x ∈ v, shown fresh k x = none

/-- The line about a key that a merge leaves in force: a first best one, and every other first best
line about the key belongs to entries that come first earlier. -/
def Kept (raws : List String) (k : CacheKey) (entry : Json) : Prop :=
  ∃ raw, FirstBest (BackupSession.mergeKey P) BackupSession.mergeQuality raws raw ∧
    shown fresh k raw = some entry ∧
    ∀ x, FirstBest (BackupSession.mergeKey P) BackupSession.mergeQuality raws x →
      (shown fresh k x).isSome →
        mention (BackupSession.mergeKey P) raws x ≤ mention (BackupSession.mergeKey P) raws raw

/-- A body that is not empty and no placeholder. -/
def ReadableEntry (entry : Json) : Prop :=
  ∃ body, strField entry "body" = .ok body ∧ body ≠ "" ∧
    ∀ placeholder ∈ ["[Forward-secret]", "[Message deleted]", "[Encrypted", "[Cannot"],
      body.startsWith placeholder = false

variable {P fresh}

theorem fileLine_eq (out : CacheKey → Option Json) (raw : String) (k : CacheKey) :
    fileLine fresh out raw k = (shown fresh k raw).or (out k) := by
  unfold fileLine shown
  cases cacheLine fresh raw with
  | error e => rfl
  | ok line =>
    by_cases hk : k ∈ line.2
    · simp [hk]
    · simp [hk]

/-- **The last line wins.** -/
theorem loadEntries_eq_some_iff {raws : List String} {k : CacheKey} {entry : Json} :
    loadEntries fresh raws k = some entry ↔ LastShown fresh raws k entry := by
  induction raws using List.reverseRecOn with
  | nil =>
    constructor
    · intro h
      cases h
    · rintro ⟨u, raw, v, heq, -⟩
      cases u <;> cases heq
  | append_singleton raws raw ih =>
    have hstep : loadEntries fresh (raws ++ [raw]) k =
        (shown fresh k raw).or (loadEntries fresh raws k) := by
      rw [loadEntries, List.foldl_append]
      exact fileLine_eq _ raw k
    rw [hstep]
    cases hshown : shown fresh k raw with
    | some entry' =>
      constructor
      · intro h
        obtain rfl := Option.some.inj h
        exact ⟨raws, raw, [], rfl, hshown, by simp⟩
      · rintro ⟨u, x, v, heq, hx, hlast⟩
        rcases List.eq_nil_or_concat v with rfl | ⟨v, y, rfl⟩
        · obtain ⟨-, hxr⟩ := List.append_inj' heq rfl
          obtain rfl := (List.cons.inj hxr).1
          exact hshown.symm.trans hx
        · have hconcat : raws ++ [raw] = (u ++ x :: v) ++ [y] := by
            rw [heq, List.concat_eq_append]
            simp
          obtain ⟨-, hy⟩ := List.append_inj' hconcat rfl
          obtain rfl := (List.cons.inj hy).1
          rw [hlast raw (by simp)] at hshown
          cases hshown
    | none =>
      refine ih.trans ?_
      constructor
      · rintro ⟨u, x, v, rfl, hx, hlast⟩
        refine ⟨u, x, v ++ [raw], by simp, hx, fun y hy => ?_⟩
        rcases List.mem_append.mp hy with hy | hy
        · exact hlast y hy
        · obtain rfl := List.mem_singleton.mp hy
          exact hshown
      · rintro ⟨u, x, v, heq, hx, hlast⟩
        rcases List.eq_nil_or_concat v with rfl | ⟨v, y, rfl⟩
        · obtain ⟨-, hxr⟩ := List.append_inj' heq rfl
          obtain rfl := (List.cons.inj hxr).1
          rw [hshown] at hx
          cases hx
        · have hconcat : raws ++ [raw] = (u ++ x :: v) ++ [y] := by
            rw [heq, List.concat_eq_append]
            simp
          obtain ⟨rfl, -⟩ := List.append_inj' hconcat rfl
          exact ⟨u, x, v, rfl, hx, fun z hz => hlast z (by simp [hz])⟩

/-- A key is kept for one entry. -/
theorem Kept.unique {raws : List String} {k : CacheKey} {entry entry' : Json}
    (h : Kept P fresh raws k entry) (h' : Kept P fresh raws k entry') : entry = entry' := by
  have hkept :=
    keepsFirstBest_foldl (BackupSession.mergeKey P) BackupSession.mergeQuality raws
  have hlast := loadEntries_eq_some_iff.mpr ((hkept.last_iff (shown fresh k)).mpr h)
  have hlast' := loadEntries_eq_some_iff.mpr ((hkept.last_iff (shown fresh k)).mpr h')
  exact Option.some.inj (hlast.symm.trans hlast')

/-- Where the lines about an id or a hash have one key, as the lines that the client writes do, the
first best line is kept. -/
theorem kept_iff_of_key {raws : List String} {k : CacheKey} {entry : Json} {g : String}
    (hkey : ∀ x ∈ raws, (shown fresh k x).isSome → BackupSession.mergeKey P x = g) :
    Kept P fresh raws k entry ↔
      ∃ raw, FirstBest (BackupSession.mergeKey P) BackupSession.mergeQuality raws raw ∧
        shown fresh k raw = some entry := by
  constructor
  · rintro ⟨raw, hbest, hshown, -⟩
    exact ⟨raw, hbest, hshown⟩
  · rintro ⟨raw, hbest, hshown⟩
    refine ⟨raw, hbest, hshown, fun x hx hsome => ?_⟩
    have hraw : BackupSession.mergeKey P raw = g := by
      apply hkey raw hbest.mem
      rw [hshown]
      rfl
    rw [hx.unique hbest ((hkey x hx.mem hsome).trans hraw.symm)]

theorem shown_of_lastShown {raws : List String} {k : CacheKey} {entry : Json}
    (h : LastShown fresh raws k entry) : ∃ raw ∈ raws, shown fresh k raw = some entry := by
  obtain ⟨u, raw, v, rfl, hshown, -⟩ := h
  exact ⟨raw, List.mem_append_right u List.mem_cons_self, hshown⟩

theorem exists_lastShown {raws : List String} {k : CacheKey} {raw : String} (hraw : raw ∈ raws)
    (h : (shown fresh k raw).isSome) : ∃ entry, LastShown fresh raws k entry := by
  cases hload : loadEntries fresh raws k with
  | some entry => exact ⟨entry, loadEntries_eq_some_iff.mp hload⟩
  | none =>
    exfalso
    induction raws using List.reverseRecOn with
    | nil => cases hraw
    | append_singleton raws x ih =>
      have hstep : loadEntries fresh (raws ++ [x]) k =
          (shown fresh k x).or (loadEntries fresh raws k) := by
        rw [loadEntries, List.foldl_append]
        exact fileLine_eq _ x k
      rw [hstep, Option.or_eq_none_iff] at hload
      rcases List.mem_append.mp hraw with hraw | hraw
      · exact ih hraw hload.2
      · obtain rfl := List.mem_singleton.mp hraw
        rw [hload.1] at h
        cases h

/-! ### A merge -/

namespace BackupSession

variable (P) (fresh)

/-- The texts of a cache file: its lines that decrypt. -/
def cacheTexts (s : BackupSession) (dst : String) : List String :=
  let lines := (((s.disk.lookup dst).getD "").toList.splitOn '\n').map String.ofList
  ((lines.map pyStrip).filter (· ≠ "")).filterMap fun token =>
    match decryptWithKey P s.masterKey token with
    | .ok (.str raw) => some raw
    | _ => none

/-- `load_cached_messages` after `_merge_cache_entries` agrees with the one before where that was
readable, knows every message id of either side, and shows what the backup can read and the cache
could not; to merge nothing changes nothing. -/
structure MergeTransparent (s : BackupSession) (dst : String) (incoming : List String) : Prop where
  readable : ∀ k entry, loadEntries fresh (s.cacheTexts P dst) k = some entry →
    ReadableEntry entry → loadEntries fresh (s.mergeCacheEntries P dst incoming) k = some entry
  known : ∀ n, (loadEntries fresh (s.cacheTexts P dst) (.id n)).isSome ∨
    (loadEntries fresh incoming (.id n)).isSome →
      (loadEntries fresh (s.mergeCacheEntries P dst incoming) (.id n)).isSome
  recovered : ∀ k entry entry', loadEntries fresh (s.cacheTexts P dst) k = some entry →
    ¬ ReadableEntry entry → loadEntries fresh incoming k = some entry' → ReadableEntry entry' →
      loadEntries fresh (s.mergeCacheEntries P dst incoming) k = some entry'
  empty : loadEntries fresh (s.mergeCacheEntries P dst []) = loadEntries fresh (s.cacheTexts P dst)

/-- What has to hold of the lines of a cache and of a backup: the last line about an id or a hash is
the one that a merge keeps. -/
structure LastIsKept (old incoming : List String) : Prop where
  readable : ∀ k entry, LastShown fresh old k entry → ReadableEntry entry →
    Kept P fresh (old ++ incoming) k entry
  known : ∀ n, ∀ raw ∈ old ++ incoming, (shown fresh (.id n) raw).isSome →
    ∃ entry, Kept P fresh (old ++ incoming) (.id n) entry
  recovered : ∀ k entry entry', LastShown fresh old k entry → ¬ ReadableEntry entry →
    LastShown fresh incoming k entry' → ReadableEntry entry' →
      Kept P fresh (old ++ incoming) k entry'
  empty : ∀ k entry, LastShown fresh old k entry → Kept P fresh old k entry

variable {P} {fresh}

theorem mergeKeep_eq : mergeKeep P = keepBest (mergeKey P) mergeQuality := by
  funext merged raw
  simp only [mergeKeep, keepBest]
  cases merged.lookup (mergeKey P raw) with
  | none => rfl
  | some current => rfl

theorem mergeCacheEntries_eq (s : BackupSession) (dst : String) (incoming : List String) :
    s.mergeCacheEntries P dst incoming =
      ((s.cacheTexts P dst ++ incoming).foldl (keepBest (mergeKey P) mergeQuality) []).map
        Prod.snd :=
  congrArg (fun keep => ((s.cacheTexts P dst ++ incoming).foldl keep []).map Prod.snd) mergeKeep_eq

/-- **What is loaded after a merge.** -/
theorem load_merged_iff {s : BackupSession} {dst : String} {incoming : List String} {k : CacheKey}
    {entry : Json} :
    loadEntries fresh (s.mergeCacheEntries P dst incoming) k = some entry ↔
      Kept P fresh (s.cacheTexts P dst ++ incoming) k entry := by
  have hkept := keepsFirstBest_foldl (mergeKey P) mergeQuality (s.cacheTexts P dst ++ incoming)
  rw [mergeCacheEntries_eq]
  exact loadEntries_eq_some_iff.trans (hkept.last_iff (shown fresh k))

theorem isSome_load_iff {raws : List String} {k : CacheKey} :
    (loadEntries fresh raws k).isSome ↔ ∃ raw ∈ raws, (shown fresh k raw).isSome := by
  constructor
  · intro h
    obtain ⟨entry, hentry⟩ := Option.isSome_iff_exists.mp h
    obtain ⟨raw, hraw, hshown⟩ := shown_of_lastShown (loadEntries_eq_some_iff.mp hentry)
    exact ⟨raw, hraw, hshown ▸ rfl⟩
  · rintro ⟨raw, hraw, hsome⟩
    obtain ⟨entry, hentry⟩ := exists_lastShown hraw hsome
    rw [loadEntries_eq_some_iff.mpr hentry]
    rfl

/-- **A merge changes nothing that was readable exactly when the last line about an id or a hash is
the one that it keeps.** -/
theorem merge_transparent_iff (P : Prims) (fresh : Json → Except Exn Bool) (s : BackupSession)
    (dst : String) (incoming : List String) :
    s.MergeTransparent P fresh dst incoming ↔ LastIsKept P fresh (s.cacheTexts P dst) incoming := by
  constructor
  · intro h
    refine ⟨fun k entry hlast hread => ?_, fun n raw hraw hsome => ?_,
      fun k entry entry' hlast hread hlast' hread' => ?_, fun k entry hlast => ?_⟩
    · exact load_merged_iff.mp (h.readable k entry (loadEntries_eq_some_iff.mpr hlast) hread)
    · have hknown : (loadEntries fresh (s.cacheTexts P dst) (.id n)).isSome ∨
          (loadEntries fresh incoming (.id n)).isSome := by
        rcases List.mem_append.mp hraw with hraw | hraw
        · exact .inl (isSome_load_iff.mpr ⟨raw, hraw, hsome⟩)
        · exact .inr (isSome_load_iff.mpr ⟨raw, hraw, hsome⟩)
      obtain ⟨entry, hentry⟩ := Option.isSome_iff_exists.mp (h.known n hknown)
      exact ⟨entry, load_merged_iff.mp hentry⟩
    · exact load_merged_iff.mp (h.recovered k entry entry' (loadEntries_eq_some_iff.mpr hlast) hread
        (loadEntries_eq_some_iff.mpr hlast') hread')
    · have hload : loadEntries fresh (s.mergeCacheEntries P dst []) k = some entry := by
        rw [h.empty]
        exact loadEntries_eq_some_iff.mpr hlast
      have hkept := load_merged_iff.mp hload
      rwa [List.append_nil] at hkept
  · intro h
    refine ⟨fun k entry hload hread => ?_, fun n hknown => ?_,
      fun k entry entry' hload hread hload' hread' => ?_, ?_⟩
    · exact load_merged_iff.mpr (h.readable k entry (loadEntries_eq_some_iff.mp hload) hread)
    · obtain ⟨raw, hraw, hsome⟩ : ∃ raw ∈ s.cacheTexts P dst ++ incoming,
          (shown fresh (.id n) raw).isSome := by
        rcases hknown with hsome | hsome
        · obtain ⟨raw, hraw, hsome⟩ := isSome_load_iff.mp hsome
          exact ⟨raw, List.mem_append_left _ hraw, hsome⟩
        · obtain ⟨raw, hraw, hsome⟩ := isSome_load_iff.mp hsome
          exact ⟨raw, List.mem_append_right _ hraw, hsome⟩
      obtain ⟨entry, hkept⟩ := h.known n raw hraw hsome
      rw [load_merged_iff.mpr hkept]
      rfl
    · exact load_merged_iff.mpr (h.recovered k entry entry' (loadEntries_eq_some_iff.mp hload) hread
        (loadEntries_eq_some_iff.mp hload') hread')
    · funext k
      have hmerged : ∀ entry, loadEntries fresh (s.mergeCacheEntries P dst []) k = some entry ↔
          Kept P fresh (s.cacheTexts P dst) k entry := fun entry => by
        rw [load_merged_iff, List.append_nil]
      cases hold : loadEntries fresh (s.cacheTexts P dst) k with
      | some entry =>
        exact (hmerged entry).mpr (h.empty k entry (loadEntries_eq_some_iff.mp hold))
      | none =>
        by_contra hne
        obtain ⟨entry, hentry⟩ := Option.ne_none_iff_exists'.mp hne
        obtain ⟨raw, hbest, hshown, -⟩ := (hmerged entry).mp hentry
        have hsome : (shown fresh k raw).isSome := by
          rw [hshown]
          rfl
        obtain ⟨entry', hlast⟩ := exists_lastShown hbest.mem hsome
        rw [loadEntries_eq_some_iff.mpr hlast] at hold
        cases hold

/-! ### Files -/

theorem splitOn_lines {lines : List String} (h : ∀ l ∈ lines, '\n' ∉ l.toList) :
    (joinLines lines).toList.splitOn '\n' = lines.map String.toList ++ [[]] := by
  rw [toList_joinLines, List.splitOn_eq_splitOnP]
  induction lines with
  | nil => rfl
  | cons l lines ih =>
    have hl : ∀ c ∈ l.toList, (c == '\n') = false := by
      intro c hc
      rw [beq_eq_false_iff_ne]
      rintro rfl
      exact h l List.mem_cons_self hc
    rw [List.flatMap_cons, List.append_assoc, List.singleton_append,
      List.splitOnP_append_cons_of_forall_mem hl '\n' (beq_self_eq_true _),
      ih fun m hm => h m (List.mem_cons_of_mem _ hm)]
    rfl

theorem filterMap_decrypt (hP : P.Correct) {key : Bytes} {tokens raws : List String}
    (h : Sealed (P := P) key tokens raws) :
    (tokens.filterMap fun token =>
      match decryptWithKey P key token with
      | .ok (.str raw) => some raw
      | _ => none) = raws := by
  induction h with
  | nil => rfl
  | cons hhead _ ih =>
    obtain ⟨w, rfl⟩ := hhead
    rw [List.filterMap_cons, decryptWithKey_encryptWithKey hP]
    simp only [ih]

/-- A cache that was written holds the texts that were written. -/
theorem cacheTexts_of_sealed (hP : P.Correct) {s : BackupSession} {dst : String}
    {tokens raws : List String} (h : Sealed (P := P) s.masterKey tokens raws)
    (hfile : s.disk.lookup dst = some (fileText true tokens)) : s.cacheTexts P dst = raws := by
  have hbreak : ∀ t ∈ tokens, '\n' ∉ t.toList := by
    intro t ht hmem
    have hrange := (h.isToken t ht).2 _ hmem
    exact absurd hrange.1 (by decide)
  have hlines : (tokens.map String.toList ++ [[]]).map String.ofList = tokens ++ [""] := by
    have hback : (tokens.map String.toList).map String.ofList = tokens := by simp
    rw [List.map_append, hback]
    rfl
  have hstrip : ([""].map pyStrip).filter (· ≠ "") = [] := by decide
  unfold cacheTexts
  simp only [hfile, Option.getD_some, fileText, if_true, splitOn_lines hbreak, hlines]
  rw [List.map_append, List.filter_append, strip_filter_tokens h.isToken, hstrip, List.append_nil]
  exact filterMap_decrypt hP h

theorem startsWith_eq_false {name tag : String} (hlen : 2 ≤ tag.toList.length)
    (hne : tag.toList.take 2 ≠ name.toList.take 2) : name.startsWith tag = false := by
  cases h : name.startsWith tag with
  | false => rfl
  | true =>
    obtain ⟨rest, hname⟩ := String.startsWith_string_iff.mp h
    rw [← hname, List.take_append_of_le_length hlen] at hne
    exact absurd rfl hne

theorem not_skipped_of_cache {name : String} (h : isCacheName name = true) :
    restoreShouldSkipForMerge name = false := by
  have htwo : name.toList.take 2 = ['m', 's'] := by
    obtain ⟨rest, hname⟩ := String.startsWith_string_iff.mp h
    rw [← hname]
    rfl
  have hmem : name ∉ ["identity_sk.bin", "pqxdh_prekeys.bin", "auditor_state.bin",
      "cache_policy.bin"] := by
    intro hmem
    simp only [List.mem_cons, List.not_mem_nil, or_false] at hmem
    rcases hmem with rfl | rfl | rfl | rfl <;> revert htwo <;> decide
  have htags : ∀ tag ∈ ["dr_", "mls_", "verified_", "identity_audit_", "transcript_"],
      2 ≤ tag.toList.length ∧ tag.toList.take 2 ≠ ['m', 's'] := by decide
  simp only [restoreShouldSkipForMerge, hmem, false_or, decide_eq_false_iff_not,
    List.any_eq_true, not_exists, not_and]
  intro tag htag hstarts
  obtain ⟨hlen, hne⟩ := htags tag htag
  rw [startsWith_eq_false hlen (htwo ▸ hne)] at hstarts
  cases hstarts

/-- **A restore that keeps the identity leaves the merged lines in the cache file.** -/
theorem cacheTexts_restoreItem (hP : P.Correct) {f : BackupFile} (hf : f.Ok)
    (hcache : isCacheName f.name = true) (hmode : f.lineMode = true) {raws : List String}
    (hraws : f.entries = raws.map Json.str) (w : Chance) (overwrite : Bool) (i : ℕ)
    (s : BackupSession) :
    ∃ c d, restoreItem P w overwrite true i f.json s = (.ok c, { s with disk := d }) ∧
      ({ s with disk := d } : BackupSession).cacheTexts P (s.statePath f.name) =
        s.mergeCacheEntries P (s.statePath f.name) raws := by
  obtain ⟨hname, hline, hentries⟩ := f.json_fields
  have hbase : basename f.name = f.name :=
    basename_of_slash_notMem (slash_notMem_of_allowed hf.allowed)
  have hskip := not_skipped_of_cache hcache
  have hstr : (raws.map Json.str).map Json.toStr = raws := by
    rw [List.map_map]
    exact List.map_id raws
  generalize hmerged : s.mergeCacheEntries P (s.statePath f.name) raws = merged
  generalize htokens :
    (merged.mapIdx fun j body => encryptWithKey P s.masterKey (w.stamp i j) body) = tokens
  obtain ⟨d₁, d₂, h₁, h₂, hlookup⟩ :=
    write_replace (hf.path_noNul s) s.disk (fileText true tokens)
  have hsealed : Sealed (P := P) s.masterKey tokens merged := by
    rw [← htokens]
    exact sealed_mapIdx s.masterKey (w.stamp i) merged
  refine ⟨⟨1, merged.length, 0⟩, d₂, ?_, cacheTexts_of_sealed hP hsealed ?_⟩
  · have hlen : tokens.length = merged.length := by rw [← htokens, List.length_mapIdx]
    simp only [restoreItem, Method.get_bind, hname, Method.ofExcept_ok_bind, Json.toStr_str, hbase,
      hf.allowed, Bool.true_eq_false, if_false, hline, hentries, ok_bind, iterValues, hcache, hmode,
      hskip, and_self, and_false, decide_true, if_true, Bool.false_eq_true, false_and,
      hraws, hstr, hmerged, htokens]
    rw [Method.bind_ok (onDisk_ok h₁),
      Method.bind_ok (onDisk_ok (s := { s with disk := d₁ }) h₂), hlen]
    rfl
  · rw [hlookup, if_pos rfl]

/-! ### An edited message -/

/-- A cache entry of message 5. -/
def rowFive (body : String) : Json :=
  .obj [("id", .int 5), ("from", .int 2), ("body", .str body), ("ts", .str "10:00"),
    ("cached_at", .int 0)]

/-- A nonce of zeros, at time zero. -/
def zeroStamp : Stamp := ⟨⟨List.replicate 12 0, length_zeroNonce⟩, 0⟩

/-- The cache of conversation 7 with the lines of a message and of its edit. -/
def editedCache : BackupSession where
  masterKey := [1]
  secchatDir := "d"
  dirNoNul := by decide
  myUid := 1
  identityPk := []
  identitySk := []
  mlsBridge := false
  mlsIdentityReady := false
  mlsCredential := ""
  disk := Disk.empty.put "d/msgs_7.bin"
    (fileText true ([dumpsText (rowFive "first"), dumpsText (rowFive "second")].mapIdx fun _ raw =>
      encryptWithKey termPrims [1] zeroStamp raw)) (by decide)

theorem rowFive_plain (body : String) : (rowFive body).Plain := by simp [rowFive]

theorem cacheTexts_edited : editedCache.cacheTexts termPrims "d/msgs_7.bin" =
    [dumpsText (rowFive "first"), dumpsText (rowFive "second")] := by
  refine cacheTexts_of_sealed termPrims_symbolic.toCorrect
    (sealed_mapIdx [1] (fun _ => zeroStamp) _) ?_
  have hnul : '\x00' ∉ "d/msgs_7.bin".toList := by decide
  exact (Disk.lookup_put hnul _).trans (if_pos rfl)

theorem shown_rowFive (body : String) :
    shown (fun _ => .ok true) (.id 5) (dumpsText (rowFive body)) = some (rowFive body) := by
  have hload := loads_dumpsText (rowFive_plain body)
  have hline : cacheLine (fun _ => .ok true) (dumpsText (rowFive body)) =
      .ok (rowFive body, [.id 5]) := by
    rw [cacheLine, hload]
    simp [rowFive, strField, Json.orElse, Json.truthy]
  simp [shown, hline]

theorem mergeKey_rowFive (body : String) :
    mergeKey termPrims (dumpsText (rowFive body)) = "id:5" := by
  have hload := loads_dumpsText (rowFive_plain body)
  simp only [mergeKey, hload]
  simp [rowFive, intField, Json.orElse, Json.truthy]
  decide

theorem mergeQuality_rowFive {body : String} (hne : body ≠ "")
    (htags : ["[Forward-secret]", "[Message deleted]", "[Encrypted", "[Cannot"].any
      (body.startsWith ·) = false) : mergeQuality (dumpsText (rowFive body)) = 2 := by
  have hload := loads_dumpsText (rowFive_plain body)
  have hbody : loads (encodeUtf8 (dumpsText (rowFive body))) >>= (strField · "body") =
      .ok body := by
    rw [hload]
    simp [rowFive, strField, Json.orElse, Json.truthy, hne]
  simp only [mergeQuality, hbody, if_neg hne, htags, Bool.false_eq_true, if_false]

/-- **To merge an empty backup shows the first text of an edited message again.** -/
theorem merge_not_transparent : ¬ ∀ (P : Prims) (fresh : Json → Except Exn Bool) (s : BackupSession)
    (dst : String) (incoming : List String), s.MergeTransparent P fresh dst incoming := by
  intro h
  have hread : ReadableEntry (rowFive "second") := by
    refine ⟨"second", by simp [rowFive, strField, Json.orElse, Json.truthy], by decide, ?_⟩
    decide
  have hlast : LastShown (fun _ => .ok true) (editedCache.cacheTexts termPrims "d/msgs_7.bin")
      (.id 5) (rowFive "second") := by
    rw [cacheTexts_edited]
    exact ⟨[_], _, [], rfl, shown_rowFive "second", by simp⟩
  have hmerged := (h termPrims (fun _ => .ok true) editedCache "d/msgs_7.bin" []).readable (.id 5)
    (rowFive "second") (loadEntries_eq_some_iff.mpr hlast) hread
  obtain ⟨raw, hbest, hshown, -⟩ := load_merged_iff.mp hmerged
  rw [cacheTexts_edited, List.append_nil] at hbest
  -- both lines are readable, so that the first one is kept
  have hquality : ∀ body ∈ ["first", "second"],
      mergeQuality (dumpsText (rowFive body)) = 2 := by
    intro body hbody
    refine mergeQuality_rowFive ?_ ?_ <;> revert body <;> decide
  have hfirst : FirstBest (mergeKey termPrims) mergeQuality
      [dumpsText (rowFive "first"), dumpsText (rowFive "second")]
      (dumpsText (rowFive "first")) := by
    refine ⟨[], [dumpsText (rowFive "second")], rfl, by simp, fun x hx _ => ?_⟩
    obtain rfl := List.mem_singleton.mp hx
    rw [hquality _ (by simp), hquality _ (by simp)]
  have hkey : mergeKey termPrims raw = "id:5" := by
    have hmem := hbest.mem
    simp only [List.mem_cons, List.not_mem_nil, or_false] at hmem
    rcases hmem with rfl | rfl
    · exact mergeKey_rowFive "first"
    · exact mergeKey_rowFive "second"
  obtain rfl := hbest.unique hfirst (hkey.trans (mergeKey_rowFive "first").symm)
  rw [shown_rowFive] at hshown
  have hsame : rowFive "first" = rowFive "second" := Option.some.inj hshown
  simp [rowFive] at hsame

end BackupSession

end SecChat
