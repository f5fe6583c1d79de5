import SecChat.Session.BackupRoundTrip

/-!
# Another master key

After a change of the password `rewrap_local_state` converts the state files from the old master key
to the new one, one file after the other, and stops at the first token that does not open.

* `rewrapFile`, `rewrapFiles`, `rewrapLocalState`: the conversion;
* `stateFiles`: the files, in the order in which they are converted;
* `rewrapFiles_outcome`: a run converts the files up to the first one that does not open;
* `AllOrNothing`, `Unbroken`, `allOrNothing_iff`: when it leaves no mixture behind.

The entries of a file are what its lines hold, as they are converted.
-/

namespace SecChat.Rewrap

open Py

/-! ### The conversion -/

section Conversion

variable (P : Prims)

/-- `encrypt_with_key` of what `decrypt_with_key` returned.  The blanks that `json.dumps` puts into
a nested value are left out. -/
def encryptBody (key : Bytes) (w : Stamp) (body : Json) : String :=
  b64encode (w.nonce.1 ++ P.aesgcmEncrypt key w.nonce.1 (encodeUtf8 (String.ofList
    ('\x7b' :: '"' :: (strTail "ts".toList ++ ':' :: ' ' :: (chars (.int w.ts) ++
      ',' :: ' ' :: '"' :: (strTail "body".toList ++ ':' :: ' ' ::
        (chars body ++ ['\x7d']))))))) [])

/-- The two master keys and the random choices: for each path, those of its lines. -/
structure Change where
  old : Bytes
  new : Bytes
  stamp : String → ℕ → Stamp

/-- `rewrap_file`. -/
def rewrapFile (k : Change) (path : String) (lineMode : Bool) : Method Disk Unit := fun d =>
  match d.lookup path with
  | none => (.ok (), d)
  | some text =>
      match fileEntries P k.old true text with
      | .error e => (.error e, d)
      | .ok plains =>
          let out := plains.mapIdx fun j plain => encryptBody P k.new (k.stamp path j) plain
          match d.write (path ++ ".tmp") (fileText lineMode out) with
          | .error e => (.error e, d)
          | .ok d =>
              match d.replace (path ++ ".tmp") path with
              | .error e => (.error e, d)
              | .ok d => (.ok (), d)

/-- The loops of `rewrap_local_state`. -/
def rewrapFiles (k : Change) : List (String × Bool) → Method Disk Unit
  | [] => pure ()
  | f :: files => do
      rewrapFile P k f.1 f.2
      rewrapFiles k files

/-- The files with one token that have a name of their own. -/
def fixedNames : List String :=
  ["identity_sk.bin", "cache_policy.bin", "backup_state.bin", "auditor_state.bin",
    "pqxdh_prekeys.bin"]

/-- The patterns of the other files with one token. -/
def singlePatterns : List String :=
  ["dr_*.bin", "mls_*.bin", "verified_*.bin", "identity_audit_*.bin", "transcript_*.bin"]

/-- `single_files`. -/
def singleFiles (dir : String) (d : Disk) : List (String × Bool) :=
  (fixedNames.map (pathJoin dir) ++ singlePatterns.flatMap (d.globDir dir)).map (·, false)

/-- The message caches. -/
def cacheFiles (dir : String) (d : Disk) : List (String × Bool) :=
  (d.globDir dir "msgs_*.bin").map (·, true)

/-- `rewrap_local_state`. -/
def rewrapLocalState (dir : String) (k : Change) : Method Disk Unit :=
  if dir = "" then pure ()
  else do
    let d ← Method.get
    rewrapFiles P k (singleFiles dir d)
    let d ← Method.get
    rewrapFiles P k (cacheFiles dir d)

/-- The state files: their paths, and whether they are read line by line. -/
def stateFiles (dir : String) (d : Disk) : List (String × Bool) :=
  singleFiles dir d ++ cacheFiles dir d

/-- The file holds under the new key what it held under the old one. -/
def Carried (k : Change) (d d' : Disk) (f : String × Bool) : Prop :=
  ∀ text, d.lookup f.1 = some text → ∃ entries text', fileEntries P k.old true text = .ok entries ∧
    d'.lookup f.1 = some text' ∧ fileEntries P k.new true text' = .ok entries

/-- The file holds under the old key what it held before. -/
def Remains (k : Change) (d d' : Disk) (f : String × Bool) : Prop :=
  ∀ text, d.lookup f.1 = some text → ∃ text', d'.lookup f.1 = some text' ∧
    fileEntries P k.old true text' = fileEntries P k.old true text

/-- Either a call returns and every file has its entries under the new key, or it raises and every
file still has them under the old one. -/
structure KeepsAll (k : Change) (d : Disk) (files : List (String × Bool))
    (result : Except Exn Unit × Disk) : Prop where
  returns : ∀ u, result.1 = .ok u → ∀ f ∈ files, Carried P k d result.2 f
  raises : ∀ e, result.1 = .error e → ∀ f ∈ files, Remains P k d result.2 f

/-- The change of the key is all or nothing. -/
def AllOrNothing (dir : String) (k : Change) (d : Disk) : Prop :=
  KeepsAll P k d (stateFiles dir d) (rewrapLocalState P dir k d)

/-- A token of a state file that opens under the old key holds a text, as every token does that
`encrypt_with_key` has made. -/
def TextsOnly (dir : String) (k : Change) (d : Disk) : Prop :=
  ∀ f ∈ stateFiles dir d, ∀ text, d.lookup f.1 = some text → ∀ token ∈ fileTokens true text,
    ∀ body, decryptWithKey P k.old token = .ok body → ∃ raw, body = .str raw

/-- Every line of the file opens under the old key. -/
def Opens (k : Change) (d : Disk) (f : String × Bool) : Prop :=
  ∀ text, d.lookup f.1 = some text → ∃ entries, fileEntries P k.old true text = .ok entries

/-- No line of the file is left out: it is a cache, or has one line at most. -/
def Whole (d : Disk) (f : String × Bool) : Prop :=
  f.2 = false → ∀ text, d.lookup f.1 = some text → (fileTokens true text).length ≤ 1

/-- The file is missing or has no entry. -/
def Blank (d : Disk) (f : String × Bool) : Prop :=
  ∀ text, d.lookup f.1 = some text → fileTokens true text = []

/-- All files open and none loses a line; or the files before the first one that does not open have
nothing in them.  Where the key is not changed at all they only must not lose a line. -/
def Unbroken (k : Change) (d : Disk) (files : List (String × Bool)) : Prop :=
  (∀ f ∈ files, Opens P k d f ∧ Whole d f) ∨
    ∃ before f after, files = before ++ f :: after ∧ (∀ g ∈ before, Opens P k d g) ∧
      ¬ Opens P k d f ∧ ∀ g ∈ before, Blank d g ∨ (k.old = k.new ∧ Whole d g)

end Conversion

variable {P : Prims} {k : Change} {d d' : Disk} {dir : String}

/-! ### One file -/

/-- What a conversion makes of a file: its entries, under the new key. -/
def Converted (P : Prims) (k : Change) (d d' : Disk) (f : String × Bool) : Prop :=
  ∀ text, d.lookup f.1 = some text → ∃ bodies tokens,
    fileEntries P k.old true text = .ok (bodies.map Json.str) ∧
      Sealed (P := P) k.new tokens bodies ∧ d'.lookup f.1 = some (fileText f.2 tokens)

/-- The entries of a file of texts. -/
theorem exists_bodies {text : String} {plains : List Json}
    (h : fileEntries P k.old true text = .ok plains)
    (htexts : ∀ token ∈ fileTokens true text, ∀ body, decryptWithKey P k.old token = .ok body →
      ∃ raw, body = .str raw) : ∃ bodies : List String, plains = bodies.map Json.str := by
  have hopened := mapM_eq_ok h
  have htext : ∀ body ∈ plains, ∃ raw, Json.str raw = body := by
    intro body hbody
    obtain ⟨token, htoken, hopen⟩ := forall₂_mem_right hopened body hbody
    obtain ⟨raw, rfl⟩ := htexts token htoken body hopen
    exact ⟨raw, rfl⟩
  choose! raw hraw using htext
  refine ⟨plains.map raw, ?_⟩
  rw [List.map_map]
  conv_lhs => rw [← List.map_id plains]
  exact List.map_congr_left fun body hbody => (hraw body hbody).symm

/-- What is written is what was read, under the new key. -/
theorem sealed_encryptBody (key : Bytes) (stamp : ℕ → Stamp) (bodies : List String) :
    Sealed (P := P) key ((bodies.map Json.str).mapIdx fun j body =>
      encryptBody P key (stamp j) body)
      bodies := by
  induction bodies generalizing stamp with
  | nil => exact .nil
  | cons body bodies ih =>
    rw [List.map_cons, List.mapIdx_cons]
    exact .cons ⟨stamp 0, rfl⟩ (ih fun j => stamp (j + 1))

theorem filter_erase {α : Type} [DecidableEq α] (p : α → Bool) {a : α} (ha : p a = false)
    (l : List α) :
    (l.erase a).filter p = l.filter p := by
  rw [← List.erase_filter, List.erase_of_not_mem]
  intro hmem
  rw [List.mem_filter, ha] at hmem
  exact Bool.false_ne_true hmem.2

/-- A file that the pattern does not find is written. -/
theorem globDir_write {path text pattern : String} (h : d.write path text = .ok d')
    (hno : fnmatchcase (basename path) pattern = false) :
    d'.globDir dir pattern = d.globDir dir pattern := by
  unfold Disk.write at h
  split_ifs at h
  cases h
  simp only [Disk.globDir, Disk.put, AList.keys_insert]
  rw [List.filter_cons_of_neg (by simp [hno])]
  exact filter_erase _ (by simp [hno]) _

theorem globDir_remove {path pattern : String} (hno : fnmatchcase (basename path) pattern = false) :
    (d.remove path).globDir dir pattern = d.globDir dir pattern := by
  simp only [Disk.globDir, Disk.remove, AList.keys_erase]
  exact filter_erase _ (by simp [hno]) _

/-- The tokens of a file that open under the old key hold texts. -/
def Texts (P : Prims) (k : Change) (d : Disk) (f : String × Bool) : Prop :=
  ∀ text, d.lookup f.1 = some text → ∀ token ∈ fileTokens true text, ∀ body,
    decryptWithKey P k.old token = .ok body → ∃ raw, body = .str raw

/-- A path that the conversion of a file does not touch. -/
def Apart (p : String) (f : String × Bool) : Prop := p ≠ f.1 ∧ p ≠ f.1 ++ ".tmp"

/-- A pattern that finds neither the file nor its temporary one. -/
def Unfound (pattern : String) (f : String × Bool) : Prop :=
  fnmatchcase (basename f.1) pattern = false ∧
    fnmatchcase (basename (f.1 ++ ".tmp")) pattern = false

/-- **One file.**  It is converted, or does not open and is left as it is. -/
theorem rewrapFile_cases (k : Change) (d : Disk) (f : String × Bool) (htexts : Texts P k d f) :
    (∃ d', rewrapFile P k f.1 f.2 d = (.ok (), d') ∧ Opens P k d f ∧ Converted P k d d' f ∧
      (∀ p, Apart p f → d'.lookup p = d.lookup p) ∧
      ∀ dir pattern, Unfound pattern f → d'.globDir dir pattern = d.globDir dir pattern) ∨
    ∃ e, rewrapFile P k f.1 f.2 d = (.error e, d) ∧ ¬ Opens P k d f := by
  unfold rewrapFile
  cases hlookup : d.lookup f.1 with
  | none =>
    have hmissing : ∀ text, d.lookup f.1 ≠ some text := by
      intro text htext
      rw [hlookup] at htext
      cases htext
    exact .inl ⟨d, rfl, fun text htext => absurd htext (hmissing text),
      fun text htext => absurd htext (hmissing text), fun _ _ => rfl, fun _ _ _ => rfl⟩
  | some text =>
    dsimp only
    cases hentries : fileEntries P k.old true text with
    | error e =>
      refine .inr ⟨e, rfl, fun hopens => ?_⟩
      obtain ⟨entries, hok⟩ := hopens text hlookup
      rw [hentries] at hok
      cases hok
    | ok plains =>
      obtain ⟨bodies, rfl⟩ := exists_bodies hentries (htexts text hlookup)
      obtain ⟨d₁, d₂, hwrite, hreplace, hlookups⟩ := write_replace (Disk.nul_notMem hlookup) d
        (fileText f.2 ((bodies.map Json.str).mapIdx fun j plain =>
          encryptBody P k.new (k.stamp f.1 j) plain))
      have hsame : ∀ text', d.lookup f.1 = some text' → text' = text := fun text' htext' =>
        Option.some.inj (htext'.symm.trans hlookup)
      simp only [hwrite, hreplace]
      refine .inl ⟨d₂, rfl, ?_, ?_, ?_, ?_⟩
      · intro text' htext'
        rw [hsame text' htext']
        exact ⟨_, hentries⟩
      · intro text' htext'
        rw [hsame text' htext']
        refine ⟨bodies, _, hentries, ?_, by rw [hlookups, if_pos rfl]⟩
        exact sealed_encryptBody k.new (k.stamp f.1) bodies
      · rintro p ⟨hp, htmp⟩
        rw [hlookups, if_neg hp, if_neg htmp]
      · rintro dir pattern ⟨hno, htmp⟩
        have hremoved : (d₁.remove (f.1 ++ ".tmp")).globDir dir pattern = d.globDir dir pattern :=
          (globDir_remove htmp).trans (globDir_write hwrite htmp)
        rw [← hremoved]
        unfold Disk.replace at hreplace
        split at hreplace
        · cases hreplace
        · exact globDir_write hreplace hno

/-! ### One file after the other -/

variable {f : String × Bool} {files : List (String × Bool)}

theorem opens_congr (h : d'.lookup f.1 = d.lookup f.1) : Opens P k d' f ↔ Opens P k d f := by
  unfold Opens
  rw [h]

theorem Texts.congr (ht : Texts P k d f) (h : d'.lookup f.1 = d.lookup f.1) : Texts P k d' f := by
  unfold Texts
  rw [h]
  exact ht

theorem Converted.congr {d₁ d₂ : Disk} (hc : Converted P k d d₁ f)
    (hd : d'.lookup f.1 = d.lookup f.1)
    (h : d₂.lookup f.1 = d₁.lookup f.1) : Converted P k d' d₂ f := by
  unfold Converted
  rw [hd, h]
  exact hc

/-- The paths of a list of files are different, and none is the temporary path of another. -/
structure Separate (files : List (String × Bool)) : Prop where
  nodup : (files.map Prod.fst).Nodup
  tmp : ∀ f ∈ files, ∀ g ∈ files, g.1 ≠ f.1 ++ ".tmp"

theorem Separate.apart (h : Separate (f :: files)) : ∀ g ∈ files, Apart g.1 f ∧ Apart f.1 g := by
  intro g hg
  have hne : g.1 ≠ f.1 := fun heq =>
    (List.nodup_cons.mp h.nodup).1 (heq ▸ List.mem_map_of_mem hg)
  exact ⟨⟨hne, h.tmp f List.mem_cons_self g (List.mem_cons_of_mem _ hg)⟩,
    hne.symm, h.tmp g (List.mem_cons_of_mem _ hg) f List.mem_cons_self⟩

theorem Separate.tail (h : Separate (f :: files)) : Separate files :=
  ⟨(List.nodup_cons.mp h.nodup).2, fun g hg g' hg' =>
    h.tmp g (List.mem_cons_of_mem _ hg) g' (List.mem_cons_of_mem _ hg')⟩

/-- How the conversion of a list of files ends. -/
inductive Outcome (P : Prims) (k : Change) (d : Disk) (files : List (String × Bool)) :
    Except Exn Unit × Disk → Prop
  | done {d' : Disk} (opens : ∀ f ∈ files, Opens P k d f)
      (converted : ∀ f ∈ files, Converted P k d d' f)
      (same : ∀ p, (∀ f ∈ files, Apart p f) → d'.lookup p = d.lookup p)
      (glob : ∀ dir pattern, (∀ f ∈ files, Unfound pattern f) →
        d'.globDir dir pattern = d.globDir dir pattern) : Outcome P k d files (.ok (), d')
  | stopped (before after : List (String × Bool)) (f : String × Bool) {d' : Disk} {e : Exn}
      (split : files = before ++ f :: after) (opens : ∀ g ∈ before, Opens P k d g)
      (fails : ¬ Opens P k d f) (converted : ∀ g ∈ before, Converted P k d d' g)
      (same : ∀ p, (∀ g ∈ before, Apart p g) → d'.lookup p = d.lookup p) :
      Outcome P k d files (.error e, d')

/-- **The files are converted up to the first one that does not open.** The induction is on the
files; what is still to be converted has not been touched. -/
theorem rewrapFiles_outcome (hsep : Separate files) (htexts : ∀ f ∈ files, Texts P k d f) :
    Outcome P k d files (rewrapFiles P k files d) := by
  induction files generalizing d with
  | nil => exact .done (by simp) (by simp) (fun _ _ => rfl) fun _ _ _ => rfl
  | cons f files ih =>
    obtain ⟨d₁, hrun, hopens, hconverted, hsame, hglob⟩ | ⟨e, hrun, hfails⟩ :=
      rewrapFile_cases k d f (htexts f List.mem_cons_self)
    · have hapart := hsep.apart
      have hlater : ∀ g ∈ files, d₁.lookup g.1 = d.lookup g.1 :=
        fun g hg => hsame g.1 (hapart g hg).1
      have hrest := ih (d := d₁) hsep.tail fun g hg =>
        (htexts g (List.mem_cons_of_mem _ hg)).congr (hlater g hg)
      rw [rewrapFiles, Method.bind_ok hrun]
      generalize rewrapFiles P k files d₁ = result at hrest
      cases hrest with
      | @done d₂ opens converted same glob =>
        have hfirst : d₂.lookup f.1 = d₁.lookup f.1 := same f.1 fun g hg => (hapart g hg).2
        refine .done ?_ ?_ ?_ ?_
        · intro g hg
          rcases List.mem_cons.mp hg with rfl | hg
          · exact hopens
          · exact (opens_congr (hlater g hg)).mp (opens g hg)
        · intro g hg
          rcases List.mem_cons.mp hg with rfl | hg
          · exact hconverted.congr rfl hfirst
          · exact (converted g hg).congr (hlater g hg).symm rfl
        · intro p hp
          rw [same p fun g hg => hp g (List.mem_cons_of_mem _ hg),
            hsame p (hp f List.mem_cons_self)]
        · intro dir pattern hp
          rw [glob dir pattern fun g hg => hp g (List.mem_cons_of_mem _ hg),
            hglob dir pattern (hp f List.mem_cons_self)]
      | @stopped before after f' d₂ e split opens fails converted same =>
        have hmem : ∀ g ∈ before, g ∈ files := by
          intro g hg
          rw [split]
          exact List.mem_append_left _ hg
        have hmem' : f' ∈ files := by simp [split]
        have hfirst : d₂.lookup f.1 = d₁.lookup f.1 := same f.1 fun g hg => (hapart g (hmem g hg)).2
        refine .stopped (f :: before) after f' (by rw [split, List.cons_append]) ?_ ?_ ?_ ?_
        · intro g hg
          rcases List.mem_cons.mp hg with rfl | hg
          · exact hopens
          · exact (opens_congr (hlater g (hmem g hg))).mp (opens g hg)
        · rwa [opens_congr (hlater f' hmem')] at fails
        · intro g hg
          rcases List.mem_cons.mp hg with rfl | hg
          · exact hconverted.congr rfl hfirst
          · exact (converted g hg).congr (hlater g (hmem g hg)).symm rfl
        · intro p hp
          rw [same p fun g hg => hp g (List.mem_cons_of_mem _ hg),
            hsame p (hp f List.mem_cons_self)]
    · rw [rewrapFiles, Method.bind_error hrun]
      exact .stopped [] files f rfl (by simp) hfails (by simp) fun _ _ => rfl

/-! ### The state files -/

/-- The patterns of the files that are looked for. -/
def foundPatterns : List String := singlePatterns ++ ["msgs_*.bin"]

/-- The literal text in front of a pattern. -/
def front (pattern : String) : List Char := pattern.toList.takeWhile (· ≠ '*')

/-- A name of one of the files, and how it was found. -/
structure StateName (patterns : List String) (name : String) : Prop where
  slash : '/' ∉ name.toList
  bin : ".bin".toList <:+ name.toList
  found : name ∈ fixedNames ∨ ∃ pattern ∈ patterns, fnmatchcase name pattern = true

theorem mem_paths {patterns : List String} (hpatterns : patterns ⊆ foundPatterns) {p : String}
    (hp : p ∈ fixedNames.map (pathJoin dir) ++ patterns.flatMap (d.globDir dir)) :
    ∃ name, p = pathJoin dir name ∧ StateName patterns name := by
  rcases List.mem_append.mp hp with hp | hp
  · obtain ⟨name, hname, rfl⟩ := List.mem_map.mp hp
    have hslash : ∀ name ∈ fixedNames, '/' ∉ name.toList := by decide
    have hbin : ∀ name ∈ fixedNames, ".bin".toList <:+ name.toList := by decide
    exact ⟨name, rfl, hslash name hname, hbin name hname, .inl hname⟩
  · obtain ⟨pattern, hpattern, hp⟩ := List.mem_flatMap.mp hp
    obtain ⟨-, hjoin, hmatch⟩ := Disk.mem_globDir.mp hp
    have hsuffix : ∀ q ∈ foundPatterns, ".bin".toList <:+ q.toList := by decide
    obtain ⟨pre, hpre⟩ := hsuffix pattern (hpatterns hpattern)
    refine ⟨basename p, hjoin.symm, slash_notMem_basename p, ?_, .inr ⟨pattern, hpattern, hmatch⟩⟩
    rw [fnmatchcase, ← hpre] at hmatch
    exact suffix_of_wildMatch (by decide) hmatch

/-- No name matches two patterns. -/
theorem pattern_unique {name pattern pattern' : String}
    (hfront : ¬ (front pattern <+: front pattern' ∨ front pattern' <+: front pattern))
    (h : fnmatchcase name pattern = true) : fnmatchcase name pattern' = false := by
  rw [Bool.eq_false_iff]
  exact fun h' => hfront
    (List.prefix_or_prefix_of_prefix (prefix_of_wildMatch h) (prefix_of_wildMatch h'))

theorem fixed_unfound : ∀ name ∈ fixedNames, ∀ pattern ∈ foundPatterns,
    fnmatchcase name pattern = false := by decide +kernel

theorem tmp_unfound {pattern : String} (hpattern : pattern ∈ foundPatterns) (name : String) :
    fnmatchcase (name ++ ".tmp") pattern = false := by
  rw [Bool.eq_false_iff]
  intro hmatch
  have hsuffix : ∀ q ∈ foundPatterns, ".bin".toList <:+ q.toList := by decide
  obtain ⟨pre, hpre⟩ := hsuffix pattern hpattern
  rw [fnmatchcase, ← hpre] at hmatch
  have hlast := (suffix_of_wildMatch (by decide) hmatch).getLast (by decide)
  simp at hlast

theorem paths_stateFiles : (stateFiles dir d).map Prod.fst =
    fixedNames.map (pathJoin dir) ++ foundPatterns.flatMap (d.globDir dir) := by
  simp only [stateFiles, singleFiles, cacheFiles, List.map_append, List.map_map, foundPatterns,
    List.flatMap_append, List.flatMap_singleton, Function.comp_def, List.append_assoc, List.map_id']

theorem nodup_paths (dir : String) (d : Disk) :
    (fixedNames.map (pathJoin dir) ++ foundPatterns.flatMap (d.globDir dir)).Nodup := by
  have hslash : ∀ name ∈ fixedNames, '/' ∉ name.toList := by decide
  rw [List.nodup_append]
  refine ⟨?_, ?_, ?_⟩
  · refine List.Nodup.map_on (fun a ha b hb heq => ?_) (by decide)
    exact pathJoin_injective (hslash a ha) (hslash b hb) heq
  · rw [List.nodup_flatMap]
    refine ⟨fun pattern _ => d.files.keys_nodup.filter _, ?_⟩
    have hfront : foundPatterns.Pairwise fun a b =>
        ¬ (front a <+: front b ∨ front b <+: front a) := by decide
    refine hfront.imp fun {a b} hab p hpa hpb => ?_
    have hmatch := pattern_unique hab (Disk.mem_globDir.mp hpa).2.2
    rw [(Disk.mem_globDir.mp hpb).2.2] at hmatch
    cases hmatch
  · rintro p hp q hq rfl
    obtain ⟨name, hname, rfl⟩ := List.mem_map.mp hp
    obtain ⟨pattern, hpattern, hq⟩ := List.mem_flatMap.mp hq
    obtain ⟨-, -, hmatch⟩ := Disk.mem_globDir.mp hq
    rw [basename_pathJoin (hslash name hname), fixed_unfound name hname pattern hpattern] at hmatch
    cases hmatch

theorem separate_stateFiles (dir : String) (d : Disk) : Separate (stateFiles dir d) := by
  refine ⟨by rw [paths_stateFiles]; exact nodup_paths dir d, fun f hf g hg heq => ?_⟩
  have hname : ∀ f ∈ stateFiles dir d, ∃ name, f.1 = pathJoin dir name ∧
      StateName foundPatterns name := by
    intro f hf
    refine mem_paths (d := d) (List.Subset.refl _) ?_
    rw [← paths_stateFiles]
    exact List.mem_map_of_mem hf
  obtain ⟨name, hf, hstate⟩ := hname f hf
  obtain ⟨name', hg, hstate'⟩ := hname g hg
  rw [hf, hg, pathJoin_tmp hstate.slash] at heq
  have hsame := pathJoin_injective hstate'.slash (slash_notMem_tmp hstate.slash) heq
  subst hsame
  have hlast := hstate'.bin.getLast (by decide)
  simp at hlast

/-- The conversion of the other files does not change which caches there are. -/
theorem cacheFiles_eq (hglob : ∀ dir' pattern, (∀ f ∈ singleFiles dir d, Unfound pattern f) →
    d'.globDir dir' pattern = d.globDir dir' pattern) : cacheFiles dir d' = cacheFiles dir d := by
  have hcache : "msgs_*.bin" ∈ foundPatterns := by decide
  rw [cacheFiles, cacheFiles, hglob dir "msgs_*.bin" fun f hf => ?_]
  have hpath : f.1 ∈ fixedNames.map (pathJoin dir) ++ singlePatterns.flatMap (d.globDir dir) := by
    obtain ⟨p, hp, rfl⟩ := List.mem_map.mp hf
    exact hp
  obtain ⟨name, hname, hstate⟩ := mem_paths (List.subset_append_left _ _) hpath
  rw [Unfound, hname, pathJoin_tmp hstate.slash, basename_pathJoin hstate.slash,
    basename_pathJoin (slash_notMem_tmp hstate.slash)]
  refine ⟨?_, tmp_unfound hcache name⟩
  rcases hstate.found with hfixed | ⟨pattern, hpattern, hmatch⟩
  · exact fixed_unfound name hfixed _ hcache
  · have hfront : ∀ q ∈ singlePatterns, ¬ (front q <+: front "msgs_*.bin" ∨
        front "msgs_*.bin" <+: front q) := by decide
    exact pattern_unique (hfront pattern hpattern) hmatch

theorem rewrapFiles_append (k : Change) (files files' : List (String × Bool)) :
    rewrapFiles P k (files ++ files') = (do rewrapFiles P k files; rewrapFiles P k files') := by
  induction files with
  | nil => rfl
  | cons f files ih =>
    show (do rewrapFile P k f.1 f.2; rewrapFiles P k (files ++ files')) = _
    rw [ih]
    exact (Method.bind_assoc ..).symm

/-- The call converts the state files one after the other. -/
theorem rewrapLocalState_eq (hdir : dir ≠ "") (htexts : TextsOnly P dir k d) :
    rewrapLocalState P dir k d = rewrapFiles P k (stateFiles dir d) d := by
  have hsep := separate_stateFiles dir d
  have hsingle : Separate (singleFiles dir d) := by
    refine ⟨?_, fun f hf g hg => hsep.tmp f (List.mem_append_left _ hf) g
      (List.mem_append_left _ hg)⟩
    have hnodup := hsep.nodup
    rw [stateFiles, List.map_append] at hnodup
    exact (List.nodup_append.mp hnodup).1
  have hfirst := rewrapFiles_outcome (k := k) hsingle fun f hf =>
    htexts f (List.mem_append_left _ hf)
  rw [stateFiles, rewrapFiles_append, rewrapLocalState, if_neg hdir]
  show (rewrapFiles P k (singleFiles dir d) >>= fun _ => Method.get >>= fun d' =>
    rewrapFiles P k (cacheFiles dir d')) d = _
  rcases hrun : rewrapFiles P k (singleFiles dir d) d with ⟨result, d'⟩
  rw [hrun] at hfirst
  cases hfirst with
  | done opens converted same glob =>
    rw [Method.bind_ok hrun, Method.bind_ok hrun, ← cacheFiles_eq glob]
    rfl
  | stopped before after f split opens fails converted same =>
    rw [Method.bind_error hrun, Method.bind_error hrun]

/-! ### What a converted file holds -/

theorem splitlinesAux_noBreak {cs : List Char} (h : ∀ c ∈ cs, isLineBreak c = false)
    (cur : List Char) :
    splitlinesAux cs cur false = if cur.reverse ++ cs = [] then [] else [cur.reverse ++ cs] := by
  induction cs generalizing cur with
  | nil => simp [splitlinesAux]
  | cons c cs ih =>
    have hc := h c List.mem_cons_self
    have hcs := ih (fun d hd => h d (List.mem_cons_of_mem _ hd)) (c :: cur)
    simp [splitlinesAux, hc, hcs]

theorem fileTokens_token {token : String} (h : IsToken token) :
    fileTokens true token = [token] := by
  have hlines : splitlines token = [token] := by
    have hne : token.toList ≠ [] := fun hnil => h.1 (String.toList_inj.mp hnil)
    rw [splitlines, splitlinesAux_noBreak h.noBreak, List.reverse_nil, List.nil_append, if_neg hne]
    simp
  rw [fileTokens, if_pos rfl, hlines]
  simp [h.strip, h.1]

/-- The tokens that a file keeps. -/
theorem fileTokens_written {tokens : List String} (h : ∀ t ∈ tokens, IsToken t) (lineMode : Bool) :
    fileTokens true (fileText lineMode tokens) = if lineMode then tokens else tokens.take 1 := by
  cases lineMode with
  | true => exact fileTokens_fileText h (by simp)
  | false =>
    cases tokens with
    | nil => decide
    | cons token tokens => exact fileTokens_token (h token List.mem_cons_self)

/-- What a file that is written as a cache, or as a file with one token, keeps of its entries. -/
def keptOf {α : Type} (lineMode : Bool) (xs : List α) : List α := if lineMode then xs else xs.take 1

theorem Sealed.kept {key : Bytes} {tokens bodies : List String}
    (h : Sealed (P := P) key tokens bodies)
    (lineMode : Bool) : Sealed (P := P) key (keptOf lineMode tokens) (keptOf lineMode bodies) := by
  cases lineMode with
  | true => exact h
  | false => exact List.forall₂_take 1 h

theorem keptOf_eq_self_iff {α : Type} {lineMode : Bool} {xs : List α} :
    keptOf lineMode xs = xs ↔ (lineMode = false → xs.length ≤ 1) := by
  cases lineMode with
  | true => simp [keptOf]
  | false => simp [keptOf, List.take_eq_self_iff]

/-- Under its own key a converted file holds what it keeps. -/
theorem fileEntries_written (hP : P.Correct) {key : Bytes} {tokens bodies : List String}
    (h : Sealed (P := P) key tokens bodies) (lineMode : Bool) :
    fileEntries P key true (fileText lineMode tokens) =
      .ok ((keptOf lineMode bodies).map Json.str) := by
  rw [fileEntries, fileTokens_written h.isToken]
  exact (Sealed.kept h lineMode).decrypt hP

theorem decryptWithKey_other (hP : P.Symbolic) {key key' : Bytes} (hne : key' ≠ key) (w : Stamp)
    (body : String) : decryptWithKey P key' (encryptWithKey P key w body) = .error .invalidTag := by
  have h12 : w.nonce.1.length = 12 := w.nonce.2
  have hfail : P.aesgcmDecrypt key' w.nonce.1
      (P.aesgcmEncrypt key w.nonce.1 (encodeUtf8 (envelope w.ts body)) []) [] = none := by
    rw [Option.eq_none_iff_forall_ne_some]
    exact fun data hopen => hne (hP.opens_only hopen).1
  simp [decryptWithKey, encryptWithKey, ← h12, hfail]

/-- Under another key a converted file that is not empty does not open. -/
theorem fileEntries_other (hP : P.Symbolic) {key key' : Bytes} (hne : key' ≠ key)
    {tokens bodies : List String} (h : Sealed (P := P) key tokens bodies) (hbodies : bodies ≠ [])
    (lineMode : Bool) : fileEntries P key' true (fileText lineMode tokens) =
    .error .invalidTag := by
  rw [fileEntries, fileTokens_written h.isToken]
  have hfirst : ∀ {tokens' bodies' : List String}, Sealed (P := P) key tokens' bodies' →
      bodies' ≠ [] →
      tokens'.mapM (decryptWithKey P key') = .error .invalidTag := by
    intro tokens' bodies' h' hne'
    cases h' with
    | nil => exact absurd rfl hne'
    | cons hhead _ =>
      obtain ⟨w, rfl⟩ := hhead
      rw [List.mapM_cons, decryptWithKey_other hP hne]
      rfl
  refine hfirst (Sealed.kept h lineMode) ?_
  cases lineMode with
  | true => exact hbodies
  | false =>
    cases bodies with
    | nil => exact absurd rfl hbodies
    | cons body bodies => exact List.cons_ne_nil _ _

/-! ### All or nothing -/

/-- A file has as many entries as lines. -/
theorem length_entries {key : Bytes} {text : String} {bodies : List String}
    (h : fileEntries P key true text = .ok (bodies.map Json.str)) :
    (fileTokens true text).length = bodies.length := by
  have hlen := (mapM_eq_ok h).length_eq
  rwa [List.length_map] at hlen

theorem str_injective : Function.Injective Json.str := fun _ _ h => Json.str.inj h

theorem Converted.carried_iff (hP : P.Correct) (hc : Converted P k d d' f) :
    Carried P k d d' f ↔ Whole d f := by
  unfold Carried Whole
  cases hlookup : d.lookup f.1 with
  | none => simp
  | some text =>
    obtain ⟨bodies, tokens, hold, hsealed, hnew⟩ := hc text hlookup
    have hwritten := fileEntries_written hP hsealed f.2
    have hkept : keptOf f.2 bodies = bodies ↔
        (f.2 = false → (fileTokens true text).length ≤ 1) := by
      rw [keptOf_eq_self_iff, length_entries hold]
    simp only [Option.some.injEq, forall_eq']
    rw [← hkept]
    constructor
    · rintro ⟨entries, text', hentries, htext', hread⟩
      obtain rfl := Except.ok.inj (hold.symm.trans hentries)
      obtain rfl := Option.some.inj (hnew.symm.trans htext')
      rw [hwritten] at hread
      exact List.map_injective_iff.mpr str_injective (Except.ok.inj hread)
    · intro hself
      exact ⟨_, _, hold, hnew, by rw [hwritten, hself]⟩

theorem Converted.remains_iff (hP : P.Symbolic) (hc : Converted P k d d' f) :
    Remains P k d d' f ↔ Blank d f ∨ (k.old = k.new ∧ Whole d f) := by
  unfold Remains Blank Whole
  cases hlookup : d.lookup f.1 with
  | none => simp
  | some text =>
    obtain ⟨bodies, tokens, hold, hsealed, hnew⟩ := hc text hlookup
    have hlen := length_entries hold
    have hkept : keptOf f.2 bodies = bodies ↔
        (f.2 = false → (fileTokens true text).length ≤ 1) := by
      rw [keptOf_eq_self_iff, hlen]
    simp only [Option.some.injEq, forall_eq']
    rw [← hkept, hnew, hold]
    simp only [Option.some.injEq, exists_eq_left']
    by_cases hempty : bodies = []
    · subst hempty
      have hblank : fileTokens true text = [] := List.length_eq_zero_iff.mp hlen
      cases hsealed
      refine iff_of_true ?_ (.inl hblank)
      cases f.2 <;> rfl
    · have hblank : fileTokens true text ≠ [] := by
        rw [← List.length_pos_iff, hlen]
        exact List.length_pos_iff.mpr hempty
      rw [or_iff_right hblank]
      by_cases hkey : k.old = k.new
      · rw [hkey, fileEntries_written hP.toCorrect hsealed]
        constructor
        · exact fun hread => ⟨rfl, List.map_injective_iff.mpr str_injective (Except.ok.inj hread)⟩
        · rintro ⟨-, hself⟩
          rw [hself]
      · rw [fileEntries_other hP hkey hsealed hempty]
        exact iff_of_false (fun hread => by cases hread) fun hboth => hkey hboth.1

/-- The first element without a property is in one place. -/
theorem split_unique {α : Type} {C : α → Prop} {l₁ l₂ r₁ r₂ : List α} {a b : α}
    (h : l₁ ++ a :: r₁ = l₂ ++ b :: r₂) (h₁ : ∀ x ∈ l₁, C x) (ha : ¬ C a) (h₂ : ∀ x ∈ l₂, C x)
    (hb : ¬ C b) : l₁ = l₂ := by
  induction l₁ generalizing l₂ with
  | nil =>
    cases l₂ with
    | nil => rfl
    | cons y l₂ =>
      obtain ⟨rfl, -⟩ := List.cons.inj h
      exact absurd (h₂ a List.mem_cons_self) ha
  | cons x l₁ ih =>
    cases l₂ with
    | nil =>
      obtain ⟨rfl, -⟩ := List.cons.inj h
      exact absurd (h₁ x List.mem_cons_self) hb
    | cons y l₂ =>
      obtain ⟨rfl, htail⟩ := List.cons.inj h
      rw [ih htail (fun z hz => h₁ z (List.mem_cons_of_mem _ hz))
        fun z hz => h₂ z (List.mem_cons_of_mem _ hz)]

/-- What was not converted remains. -/
theorem remains_of_same (h : d'.lookup f.1 = d.lookup f.1) : Remains P k d d' f := by
  intro text htext
  exact ⟨text, h.trans htext, rfl⟩

/-- A file behind the first one that does not open is apart from those before it. -/
theorem Separate.apart_of_split {before after : List (String × Bool)}
    (h : Separate (before ++ after)) :
    ∀ g ∈ after, ∀ b ∈ before, Apart g.1 b := by
  intro g hg b hb
  refine ⟨fun heq => ?_, h.tmp b (List.mem_append_left _ hb) g (List.mem_append_right _ hg)⟩
  have hnodup := h.nodup
  rw [List.map_append, List.nodup_append] at hnodup
  exact hnodup.2.2 b.1 (List.mem_map_of_mem hb) g.1 (List.mem_map_of_mem hg) heq.symm

/-- **A run that stops** leaves everything as it was exactly if the files before have nothing to
lose. -/
theorem allOrNothing_stopped_iff (hP : P.Symbolic) {before after : List (String × Bool)}
    (hsep : Separate (before ++ f :: after)) (hconverted : ∀ g ∈ before, Converted P k d d' g)
    (hsame : ∀ p, (∀ g ∈ before, Apart p g) → d'.lookup p = d.lookup p) :
    (∀ g ∈ before ++ f :: after, Remains P k d d' g) ↔
      ∀ g ∈ before, Blank d g ∨ (k.old = k.new ∧ Whole d g) := by
  constructor
  · intro h g hg
    exact ((hconverted g hg).remains_iff hP).mp (h g (List.mem_append_left _ hg))
  · intro h g hg
    rcases List.mem_append.mp hg with hg | hg
    · exact ((hconverted g hg).remains_iff hP).mpr (h g hg)
    · exact remains_of_same (hsame g.1 fun b hb => hsep.apart_of_split g hg b hb)

/-- The two ways in which a conversion ends. -/
theorem Outcome.keepsAll_iff (hP : P.Symbolic) (hsep : Separate files)
    {result : Except Exn Unit × Disk}
    (h : Outcome P k d files result) : KeepsAll P k d files result ↔ Unbroken P k d files := by
  cases h with
  | @done d' opens converted same glob =>
    have hreturns : KeepsAll P k d files (.ok (), d') ↔ ∀ f ∈ files, Carried P k d d' f :=
      ⟨fun h => h.returns () rfl, fun h => ⟨fun _ _ => h, fun _ herror => by cases herror⟩⟩
    have hcarried : (∀ f ∈ files, Carried P k d d' f) ↔ ∀ f ∈ files, Whole d f :=
      forall₂_congr fun f hf => (converted f hf).carried_iff hP.toCorrect
    refine (hreturns.trans hcarried).trans ⟨fun h => .inl fun f hf => ⟨opens f hf, h f hf⟩, ?_⟩
    rintro (h | ⟨before, f, after, split, -, fails, -⟩)
    · exact fun f hf => (h f hf).2
    · exact absurd (opens f (by simp [split])) fails
  | @stopped before after f d' e split opens fails converted same =>
    have hraises : KeepsAll P k d files (.error e, d') ↔ ∀ f ∈ files, Remains P k d d' f :=
      ⟨fun h => h.raises e rfl, fun h => ⟨fun _ hok => (by cases hok), fun _ _ => h⟩⟩
    have hiff := allOrNothing_stopped_iff hP (split ▸ hsep) converted same
    rw [← split] at hiff
    refine (hraises.trans hiff).trans ⟨fun h => .inr ⟨before, f, after, split, opens, fails, h⟩, ?_⟩
    rintro (h | ⟨before', f', after', split', opens', fails', h⟩)
    · exact absurd (h f (by simp [split])).1 fails
    · rw [split_unique (split.symm.trans split') opens fails opens' fails']
      exact h

/-- **When a change of the key is all or nothing.** -/
theorem allOrNothing_iff (hP : P.Symbolic) (hdir : dir ≠ "") (htexts : TextsOnly P dir k d) :
    AllOrNothing P dir k d ↔ Unbroken P k d (stateFiles dir d) := by
  have hsep := separate_stateFiles dir d
  rw [AllOrNothing, rewrapLocalState_eq hdir htexts]
  exact (rewrapFiles_outcome hsep htexts).keepsAll_iff hP hsep

/-! ### A line that does not open -/

/-- A change of the key. -/
def someChange : Change := ⟨oldKey, newKey, fun _ _ => zeroStamp⟩

/-- The identity key under the old key. -/
def identityText : String := fileText false [encryptWithKey termPrims oldKey zeroStamp "seed"]

/-- A directory with the identity key alone. -/
def soundDisk : Disk := Disk.empty.put "d/identity_sk.bin" identityText (by decide)

theorem msgs_noNul : '\x00' ∉ "d/msgs_7.bin".toList := by decide

/-- With a message cache, one of whose lines does not open. -/
def brokenDisk : Disk := soundDisk.put "d/msgs_7.bin" "a" msgs_noNul

/-- The files that are always tried. -/
def fixedFiles : List (String × Bool) := fixedNames.map fun name => (pathJoin "d" name, false)

theorem stateFiles_brokenDisk : stateFiles "d" brokenDisk =
    fixedFiles ++ [("d/msgs_7.bin", true)] := by
  decide +kernel

theorem isToken_identity : IsToken (encryptWithKey termPrims oldKey zeroStamp "seed") :=
  isToken_encryptWithKey ..

theorem tokens_identityText :
    fileTokens true identityText = [encryptWithKey termPrims oldKey zeroStamp "seed"] :=
  fileTokens_token isToken_identity

theorem decrypt_identity : decryptWithKey termPrims oldKey
    (encryptWithKey termPrims oldKey zeroStamp "seed") = .ok (.str "seed") :=
  decryptWithKey_encryptWithKey termPrims_symbolic.toCorrect ..

theorem entries_identityText : fileEntries termPrims oldKey true identityText =
    .ok [.str "seed"] := by
  rw [fileEntries, tokens_identityText, List.mapM_cons, decrypt_identity]
  rfl

theorem lookup_soundDisk (p : String) :
    soundDisk.lookup p = if p = "d/identity_sk.bin" then some identityText else none := by
  rw [soundDisk, Disk.lookup_put, Disk.lookup_empty]

theorem lookup_brokenDisk (p : String) :
    brokenDisk.lookup p = if p = "d/msgs_7.bin" then some "a" else soundDisk.lookup p := by
  rw [brokenDisk, Disk.lookup_put]

/-- The text of a file of the sound directory. -/
theorem text_soundDisk {p text : String} (h : soundDisk.lookup p = some text) :
    text = identityText := by
  rw [lookup_soundDisk] at h
  split_ifs at h
  exact (Option.some.inj h).symm

theorem texts_identity : ∀ token ∈ fileTokens true identityText, ∀ body,
    decryptWithKey termPrims oldKey token = .ok body → ∃ raw, body = .str raw := by
  intro token htoken body hopen
  rw [tokens_identityText, List.mem_singleton] at htoken
  rw [htoken, decrypt_identity] at hopen
  exact ⟨"seed", (Except.ok.inj hopen).symm⟩

theorem textsOnly_soundDisk : TextsOnly termPrims "d" someChange soundDisk := by
  intro f _ text htext
  rw [text_soundDisk htext]
  exact texts_identity

theorem decrypt_a : decryptWithKey termPrims oldKey "a" = .error .binasciiError := by
  have hdecode : b64decode "a" = none := by decide
  rw [decryptWithKey, hdecode]

theorem textsOnly_brokenDisk : TextsOnly termPrims "d" someChange brokenDisk := by
  intro f _ text htext
  rw [lookup_brokenDisk] at htext
  split_ifs at htext
  · obtain rfl := Option.some.inj htext
    intro token htoken body hopen
    have htokens : fileTokens true "a" = ["a"] := by decide
    rw [htokens, List.mem_singleton] at htoken
    rw [htoken] at hopen
    cases decrypt_a.symm.trans hopen
  · rw [text_soundDisk htext]
    exact texts_identity

theorem opens_soundDisk (f : String × Bool) : Opens termPrims someChange soundDisk f := by
  intro text htext
  rw [text_soundDisk htext]
  exact ⟨_, entries_identityText⟩

/-- **One line of one cache that does not open leaves two keys in use.** -/
theorem not_allOrNothing : ¬ ∀ (P : Prims) (dir : String) (k : Change) (d : Disk), P.Symbolic →
    dir ≠ "" → TextsOnly P dir k d → AllOrNothing P dir k d := by
  intro h
  have hall := h termPrims "d" someChange brokenDisk termPrims_symbolic (by decide)
    textsOnly_brokenDisk
  rw [AllOrNothing, rewrapLocalState_eq (by decide) textsOnly_brokenDisk,
    (rewrapFiles_outcome (separate_stateFiles ..) textsOnly_brokenDisk).keepsAll_iff
      termPrims_symbolic
      (separate_stateFiles ..), stateFiles_brokenDisk] at hall
  have hbroken : ¬ Opens termPrims someChange brokenDisk ("d/msgs_7.bin", true) := by
    intro hopens
    obtain ⟨entries, hentries⟩ := hopens "a" (by rw [lookup_brokenDisk]; rfl)
    have htokens : fileTokens true "a" = ["a"] := by decide
    have hopen : (["a"].mapM (decryptWithKey termPrims oldKey)) = .ok entries := by
      rw [← htokens]
      exact hentries
    rw [List.mapM_cons, decrypt_a] at hopen
    cases hopen
  have hother : ∀ f ∈ fixedFiles, brokenDisk.lookup f.1 = soundDisk.lookup f.1 := by
    have hne : ∀ f ∈ fixedFiles, f.1 ≠ "d/msgs_7.bin" := by decide
    intro f hf
    rw [lookup_brokenDisk, if_neg (hne f hf)]
  have hopens : ∀ f ∈ fixedFiles, Opens termPrims someChange brokenDisk f := fun f hf =>
    (opens_congr (hother f hf)).mpr (opens_soundDisk f)
  rcases hall with hall | ⟨before, f, after, split, hbefore, hfails, hkept⟩
  · exact hbroken (hall _ (by simp)).1
  · rw [← split_unique split hopens hbroken hbefore hfails] at hkept
    have hidentity : ("d/identity_sk.bin", false) ∈ fixedFiles := by decide
    rcases hkept _ hidentity with hblank | ⟨hkey, -⟩
    · have hnil := hblank identityText (by
        rw [hother _ hidentity, lookup_soundDisk]
        rfl)
      rw [tokens_identityText] at hnil
      cases hnil
    · have hhead : (1 : UInt8) = 2 := (List.cons.inj hkey).1
      revert hhead
      decide

/-- A directory in which everything opens is converted. -/
theorem allOrNothing_soundDisk : AllOrNothing termPrims "d" someChange soundDisk := by
  refine (allOrNothing_iff termPrims_symbolic (by decide) textsOnly_soundDisk).mpr
    (.inl fun f _ => ?_)
  refine ⟨opens_soundDisk f, fun _ text htext => ?_⟩
  rw [text_soundDisk htext, tokens_identityText]
  exact le_rfl

end SecChat.Rewrap
