import Mathlib.Algebra.Order.Ring.Rat
import Mathlib.Tactic.Linarith
import Mathlib.Data.NNRat.Defs
import SecChat.App.Rereading

/-!
# The age of cached messages

A line of the plaintext cache carries the time at which it was written, and lines that are older
than `ttl_days` are dropped when the cache is loaded.  A row of the history that is served from the
cache is written to it again.

* `Session`, `Call`, `step`: the cache files, its policy and the clock;
* `Row.text`, `row_covers`: what a row of the history puts into the cache;
* `Effective`: nothing is returned that was first cached more than `ttl_days` ago;
* `Swept`: a load leaves no expired line in the file;
* `CachesFirst`: nothing is cached that was cached before;
* `effective_of_first`: in a run of such calls the TTL is effective.

The lines that `cache_outgoing_wire` writes do not occur here.
-/

namespace SecChat.CacheAge

open Py Client

/-- A line of a cache file. -/
structure Line extends CacheEntry where
  cachedAt : ℚ

/-- The cache of a session and its policy.  `firstCached` is a ghost: the time at which a message
was first written to the cache. -/
structure Session where
  myUid : ℤ
  cacheEnabled : Bool
  cacheTtlDays : ℤ
  cacheClearOnLogout : Bool
  cacheDisabledConvs : List ℤ
  files : ℤ → List Line
  clock : ℚ
  firstCached : ℤ → ℤ → Option ℚ

namespace Session

/-- A session without cache files. -/
def fresh (myUid ttlDays : ℤ) (start : ℚ) : Session where
  myUid := myUid
  cacheEnabled := true
  cacheTtlDays := ttlDays
  cacheClearOnLogout := false
  cacheDisabledConvs := []
  files := fun _ => []
  clock := start
  firstCached := fun _ _ => none

/-- Time passes. -/
def wait (s : Session) (seconds : ℚ≥0) : Session := { s with clock := s.clock + seconds }

/-- `is_conversation_cache_enabled`. -/
def isConversationCacheEnabled (s : Session) (conv : ℤ) : Bool :=
  s.cacheEnabled && decide (0 < conv) && !s.cacheDisabledConvs.contains conv

/-- `_cache_entry_is_fresh`: a `cached_at` of zero counts as now. -/
def cacheEntryIsFresh (s : Session) (line : Line) : Bool :=
  if s.cacheTtlDays < 0 then true
  else
    let cachedAt := if line.cachedAt = 0 then s.clock else line.cachedAt
    decide (s.clock - s.cacheTtlDays * 86400 ≤ cachedAt)

/-- `cache_message`. -/
def cacheMessage (s : Session) (conv id sender : ℤ) (body : String) : Session :=
  if s.isConversationCacheEnabled conv = false ∨ id = 0 then s
  else
    { s with
      files := Function.update s.files conv (s.files conv ++ [⟨⟨id, sender, body, ""⟩, s.clock⟩])
      firstCached := Function.update s.firstCached conv
        (Function.update (s.firstCached conv) id (s.firstCached conv id <|> some s.clock)) }

/-- `load_cached_messages`: the lines that have not expired stay in the file and are returned; a
later one replaces an earlier one with the same key. -/
def loadCachedMessages (s : Session) (conv : ℤ) : List Line × Session :=
  if s.isConversationCacheEnabled conv then
    let kept := (s.files conv).filter s.cacheEntryIsFresh
    (kept, { s with files := Function.update s.files conv kept })
  else ([], s)

/-- `enforce_cache_policy` while the cache is on. -/
def enforceCachePolicy (s : Session) : Session :=
  { s with files := fun conv =>
      if s.isConversationCacheEnabled conv then (s.files conv).filter s.cacheEntryIsFresh else [] }

/-- `set_cache_policy`. -/
def setCachePolicy (s : Session) (enabled : Option Bool) (ttlDays : Option ℤ)
    (clearOnLogout : Option Bool) (disabled : Option (List ℤ)) : Session :=
  let s := { s with
    cacheEnabled := enabled.getD s.cacheEnabled
    cacheTtlDays := ttlDays.getD s.cacheTtlDays
    cacheClearOnLogout := clearOnLogout.getD s.cacheClearOnLogout
    cacheDisabledConvs := (disabled.map (List.filter fun conv => 0 < conv)).getD s.cacheDisabledConvs }
  if s.cacheEnabled then s.enforceCachePolicy else { s with files := fun _ => [] }

end Session

/-- A row of the history: its fields, the text that the ratchet or the group opens it to, and the
time since the row before it. -/
structure Row where
  fields : RowFields
  opened : Option String
  wait : ℚ≥0

/-- What happens to a session, each so many seconds after the call before.  The TTL is not changed.
-/
inductive Call
  | cacheMessage (conv id sender : ℤ) (body : String) (wait : ℚ≥0)
  | decryptHistoryMessages (conv : ℤ) (rows : List Row) (wait : ℚ≥0)
  | loadCachedMessages (conv : ℤ) (wait : ℚ≥0)
  | setCachePolicy (enabled clearOnLogout : Option Bool) (disabled : Option (List ℤ)) (wait : ℚ≥0)

section Steps

variable (P : Prims)

/-- The text that a row is served with and that is cached. -/
def Row.text (myUid : ℤ) (cached : List CacheEntry) (row : Row) : Option String :=
  if row.fields.deleted ∨ row.fields.control then none
  else
    match row.fields.body with
    | .str wire =>
        if wire.startsWith prefixPqInit then none
        else if wire.startsWith prefixDr ∨ wire.startsWith prefixMls then
          match cacheHit P cached row.fields.id wire with
          | some hit => some (unpackPlaintext hit.body)
          | none => if row.fields.sender = myUid then none else row.opened.map unpackPlaintext
        else none
    | _ => none

/-- One turn of the loop of `decrypt_history_messages`. -/
def readRow (conv : ℤ) (cached : List CacheEntry) (s : Session) (row : Row) : Session :=
  let s := s.wait row.wait
  match row.text P s.myUid cached with
  | some plain => s.cacheMessage conv row.fields.id row.fields.sender plain
  | none => s

/-- `decrypt_history_messages`: the cache is loaded once. -/
def decryptHistory (s : Session) (conv : ℤ) (rows : List Row) : Session :=
  let (lines, s) := s.loadCachedMessages conv
  rows.foldl (readRow P conv (lines.map Line.toCacheEntry)) s

/-- One call. -/
def step (s : Session) : Call → Session
  | .cacheMessage conv id sender body wait => (s.wait wait).cacheMessage conv id sender body
  | .decryptHistoryMessages conv rows wait => decryptHistory P (s.wait wait) conv rows
  | .loadCachedMessages conv wait => ((s.wait wait).loadCachedMessages conv).2
  | .setCachePolicy enabled clearOnLogout disabled wait =>
      (s.wait wait).setCachePolicy enabled none clearOnLogout disabled

/-- The entry that a load returns for a message id. -/
def entryOf (lines : List Line) (id : ℤ) : Option Line := lines.reverse.find? fun line => line.id = id

/-- A load now or at any later time returns no message that was first cached more than `ttl_days`
before. -/
def Effective (s : Session) : Prop :=
  ∀ (conv id : ℤ) (seconds : ℚ≥0) (line : Line), id ≠ 0 →
    entryOf ((s.wait seconds).loadCachedMessages conv).1 id = some line →
      ∃ first, s.firstCached conv id = some first ∧
        (s.wait seconds).clock - first ≤ s.cacheTtlDays * 86400

/-- A load now or at any later time leaves no expired line in the file. -/
def Swept (s : Session) : Prop :=
  ∀ (conv : ℤ) (seconds : ℚ≥0), let loaded := ((s.wait seconds).loadCachedMessages conv).2
    ∀ line ∈ loaded.files conv, loaded.clock - line.cachedAt ≤ loaded.cacheTtlDays * 86400

/-- A message that is cached now is cached for the first time: it was not cached at any time before.
-/
def CachesFirst (s : Session) (conv id : ℤ) : Prop :=
  s.isConversationCacheEnabled conv = true → ∀ first, s.firstCached conv id = some first → first = s.clock

/-- The rows that are served with a text are served for the first time. -/
def RowFirst (conv : ℤ) (cached : List CacheEntry) (s : Session) (row : Row) : Prop :=
  row.text P s.myUid cached ≠ none → CachesFirst (s.wait row.wait) conv row.fields.id

/-- What a call caches is cached for the first time. -/
def StepOk (s : Session) : Call → Prop
  | .cacheMessage conv id _ _ wait => CachesFirst (s.wait wait) conv id
  | .decryptHistoryMessages conv rows wait =>
      let (lines, s) := (s.wait wait).loadCachedMessages conv
      let cached := lines.map Line.toCacheEntry
      Runs.Each (readRow P conv cached) (RowFirst P conv cached) s rows
  | _ => True

end Steps

/-! ### The row of a client -/

variable {P : Prims} {G : Type} {A : MlsApp G}

theorem cache_showRow (c c' : Client G) (hcache : c'.cache = c.cache) (hon : c'.cacheOn = c.cacheOn)
    (conv id sender : ℤ) (plain : String) :
    (c'.showRow conv id sender plain).2.cache = (c.cacheMessage conv id sender plain).cache := by
  unfold showRow cacheMessage
  rw [hcache, hon]
  split
  · exact hcache
  · rfl

/-- **A row of a client is a row here**, with what the ratchet or the group makes of it. -/
theorem row_covers {c : Client G} {conv : ℤ} {cached : List CacheEntry} {row : Json} {f : RowFields}
    (hf : rowFields row = .ok f) (rand : RecvRand) : ∃ opened,
      (c.decryptHistoryRow P A conv cached row rand).2.cache =
        match Row.text P c.myUid cached ⟨f, opened, 0⟩ with
        | some plain => (c.cacheMessage conv f.id f.sender plain).cache
        | none => c.cache := by
  rw [decryptHistoryRow, hf]
  unfold Row.text
  dsimp only
  by_cases hdeleted : f.deleted = true
  · exact ⟨none, by rw [if_pos hdeleted, if_pos (.inl hdeleted)]⟩
  by_cases hcontrol : f.control = true
  · exact ⟨none, by rw [if_neg hdeleted, if_pos hcontrol, if_pos (.inr hcontrol)]⟩
  simp only [if_neg hdeleted, if_neg hcontrol, if_neg (not_or.mpr ⟨hdeleted, hcontrol⟩)]
  cases hbody : f.body with
  | str wire =>
    simp only [receiveRow]
    by_cases hinit : wire.startsWith prefixPqInit = true
    · refine ⟨none, ?_⟩
      simp only [if_pos hinit]
      split
      · rfl
      · have hsame := (Rereading.sameCache_receiveInit (P := P) c conv wire rand).1
        split <;> rename_i heq <;> rw [heq] at hsame <;> exact hsame
    simp only [if_neg hinit]
    by_cases hdr : wire.startsWith prefixDr = true
    · simp only [if_pos hdr, if_pos (Or.inl hdr)]
      cases hhit : cacheHit P cached f.id wire with
      | some hit => exact ⟨none, rfl⟩
      | none =>
        dsimp only
        split
        · exact ⟨none, rfl⟩
        · split
          · next plain σ hopen =>
            exact ⟨some plain, cache_showRow c (c.withDm conv σ) rfl rfl conv f.id f.sender _⟩
          · exact ⟨none, rfl⟩
          · exact ⟨none, rfl⟩
    · simp only [if_neg hdr]
      by_cases hmls : wire.startsWith prefixMls = true
      · simp only [if_pos hmls, if_pos (Or.inr hmls)]
        cases hhit : cacheHit P cached f.id wire with
        | some hit => exact ⟨none, rfl⟩
        | none =>
          dsimp only
          split
          · exact ⟨none, rfl⟩
          · split
            · next plain c' hopen =>
              have hsame := Rereading.sameCache_openMls hopen
              exact ⟨some plain, cache_showRow c c' hsame.1 hsame.2 conv f.id f.sender _⟩
            · exact ⟨none, rfl⟩
      · exact ⟨none, by simp only [if_neg hmls, if_neg (not_or.mpr ⟨hdr, hmls⟩)]⟩
  | _ => exact ⟨none, rfl⟩

/-- A row that is served from the cache. -/
theorem Row.text_hit {myUid : ℤ} {cached : List CacheEntry} {row : Row} {wire : String} {hit : CacheEntry}
    (hdeleted : row.fields.deleted = false) (hcontrol : row.fields.control = false)
    (hbody : row.fields.body = .str wire) (hwire : Rereading.Encrypted wire)
    (hhit : cacheHit P cached row.fields.id wire = some hit) :
    row.text P myUid cached = some (unpackPlaintext hit.body) := by
  have hinit : wire.startsWith prefixPqInit = false := by
    rcases hwire with hdr | hmls
    · exact not_pqInit_of_dr hdr
    · exact other_tag hmls (by decide) (by decide) (by decide)
  have hskip : ¬ (row.fields.deleted = true ∨ row.fields.control = true) := by
    rw [hdeleted, hcontrol]
    decide
  unfold Row.text
  rw [if_neg hskip, hbody]
  dsimp only
  rw [if_neg (by rw [hinit]; decide)]
  have hwire : wire.startsWith prefixDr = true ∨ wire.startsWith prefixMls = true := hwire
  rw [if_pos hwire, hhit]

/-! ### One call -/

/-- What holds in every session. -/
structure Sound (s : Session) : Prop where
  clock : 0 < s.clock
  ttl : 0 ≤ s.cacheTtlDays
  stamp : ∀ conv, ∀ line ∈ s.files conv, 0 < line.cachedAt
  off : ∀ conv, s.isConversationCacheEnabled conv = false → s.files conv = []

/-- Every line carries the time at which its message was first cached. -/
def Stamped (s : Session) : Prop :=
  ∀ conv, ∀ line ∈ s.files conv, s.firstCached conv line.id = some line.cachedAt

theorem sound_fresh (myUid : ℤ) {ttlDays : ℤ} (httl : 0 ≤ ttlDays) {start : ℚ} (hstart : 0 < start) :
    Sound (.fresh myUid ttlDays start) :=
  ⟨hstart, httl, fun _ _ hline => absurd hline List.not_mem_nil, fun _ _ => rfl⟩

theorem Sound.wait {s : Session} (h : Sound s) (seconds : ℚ≥0) : Sound (s.wait seconds) :=
  ⟨add_pos_of_pos_of_nonneg h.clock seconds.2, h.ttl, h.stamp, h.off⟩

/-- A line is fresh while it is not older than the TTL. -/
theorem Sound.isFresh_iff {s : Session} (h : Sound s) {conv : ℤ} {line : Line}
    (hline : line ∈ s.files conv) :
    s.cacheEntryIsFresh line = true ↔ s.clock - line.cachedAt ≤ s.cacheTtlDays * 86400 := by
  rw [Session.cacheEntryIsFresh, if_neg (not_lt.mpr h.ttl)]
  dsimp only
  rw [if_neg (h.stamp conv line hline).ne', decide_eq_true_iff]
  constructor
  · intro hle
    linarith
  · intro hle
    linarith

/-- A load drops lines. -/
theorem mem_load {s : Session} {conv conv' : ℤ} {line : Line}
    (hline : line ∈ (s.loadCachedMessages conv).2.files conv') : line ∈ s.files conv' := by
  unfold Session.loadCachedMessages at hline
  split at hline
  · by_cases hconv : conv' = conv
    · subst hconv
      simp only [Function.update_self] at hline
      exact List.mem_of_mem_filter hline
    · simpa only [Function.update_of_ne hconv] using hline
  · exact hline

theorem load_frame (s : Session) (conv : ℤ) :
    ∃ files, (s.loadCachedMessages conv).2 = { s with files := files } := by
  unfold Session.loadCachedMessages
  split
  · exact ⟨_, rfl⟩
  · exact ⟨_, rfl⟩

theorem Sound.load {s : Session} (h : Sound s) (conv : ℤ) : Sound (s.loadCachedMessages conv).2 := by
  obtain ⟨files, hfiles⟩ := load_frame s conv
  have hmem : ∀ conv', ∀ line ∈ files conv', line ∈ s.files conv' := by
    intro conv' line hline
    have hloaded : line ∈ (s.loadCachedMessages conv).2.files conv' := by
      rw [hfiles]
      exact hline
    exact mem_load hloaded
  rw [hfiles]
  refine ⟨h.clock, h.ttl, fun conv' line hline => h.stamp conv' line (hmem conv' line hline), ?_⟩
  intro conv' hoff
  refine List.eq_nil_iff_forall_not_mem.mpr fun line hline => ?_
  have hkept := hmem conv' line hline
  rw [h.off conv' hoff] at hkept
  exact List.not_mem_nil hkept

theorem Sound.cacheMessage {s : Session} (h : Sound s) (conv id sender : ℤ) (body : String) :
    Sound (s.cacheMessage conv id sender body) := by
  unfold Session.cacheMessage
  split
  · exact h
  · next hskip =>
    have hon := (not_or.mp hskip).1
    refine ⟨h.clock, h.ttl, fun conv' line hline => ?_, fun conv' hoff => ?_⟩
    · by_cases hconv : conv' = conv
      · subst hconv
        simp only [Function.update_self, List.mem_append, List.mem_singleton] at hline
        rcases hline with hline | rfl
        · exact h.stamp conv' line hline
        · exact h.clock
      · simp only [Function.update_of_ne hconv] at hline
        exact h.stamp conv' line hline
    · have hconv : conv' ≠ conv := fun heq => hon (heq ▸ hoff)
      show Function.update s.files conv _ conv' = []
      rw [Function.update_of_ne hconv]
      exact h.off conv' hoff

theorem Sound.setCachePolicy {s : Session} (h : Sound s) (enabled clearOnLogout : Option Bool)
    (disabled : Option (List ℤ)) : Sound (s.setCachePolicy enabled none clearOnLogout disabled) := by
  unfold Session.setCachePolicy
  dsimp only
  split
  · refine ⟨h.clock, h.ttl, fun conv line hline => ?_, fun conv hoff => if_neg ?_⟩
    · simp only [Session.enforceCachePolicy] at hline
      split at hline
      · exact h.stamp conv line (List.mem_of_mem_filter hline)
      · exact absurd hline List.not_mem_nil
    · rw [Bool.not_eq_true]
      exact hoff
  · exact ⟨h.clock, h.ttl, fun _ _ hline => absurd hline List.not_mem_nil, fun _ _ => rfl⟩

theorem Sound.readRow {s : Session} (h : Sound s) (conv : ℤ) (cached : List CacheEntry) (row : Row) :
    Sound (readRow P conv cached s row) := by
  unfold CacheAge.readRow
  dsimp only
  split
  · exact (h.wait row.wait).cacheMessage ..
  · exact h.wait row.wait

/-- A call keeps the session sound. -/
theorem Sound.step {s : Session} (h : Sound s) (call : Call) : Sound (step P s call) := by
  cases call with
  | cacheMessage conv id sender body wait => exact (h.wait wait).cacheMessage ..
  | decryptHistoryMessages conv rows wait =>
    show Sound (decryptHistory P (s.wait wait) conv rows)
    have hload := (h.wait wait).load conv
    unfold decryptHistory
    exact Runs.foldl_of_forall (D := fun _ => True) (fun s row hs _ => hs.readRow conv _ row) hload
      fun _ _ => trivial
  | loadCachedMessages conv wait => exact (h.wait wait).load conv
  | setCachePolicy enabled clearOnLogout disabled wait => exact (h.wait wait).setCachePolicy ..

theorem Sound.swept {s : Session} (h : Sound s) : Swept s := by
  intro conv seconds loaded line hline
  have hs := h.wait seconds
  have hin := mem_load hline
  obtain ⟨files, hfiles⟩ := load_frame (s.wait seconds) conv
  have hfresh : (s.wait seconds).cacheEntryIsFresh line = true := by
    by_cases hon : (s.wait seconds).isConversationCacheEnabled conv = true
    · simp only [loaded, Session.loadCachedMessages, if_pos hon, Function.update_self] at hline
      exact (List.mem_filter.mp hline).2
    · rw [Bool.not_eq_true] at hon
      rw [hs.off conv hon] at hin
      exact absurd hin List.not_mem_nil
  have hage := (hs.isFresh_iff hin).mp hfresh
  simp only [loaded, hfiles]
  exact hage

/-! ### Messages that are cached once -/

theorem Stamped.load {s : Session} (h : Stamped s) (conv : ℤ) :
    Stamped (s.loadCachedMessages conv).2 := by
  intro conv' line hline
  have hstamp := h conv' line (mem_load hline)
  obtain ⟨files, hfiles⟩ := load_frame s conv
  rw [hfiles]
  exact hstamp

theorem Stamped.cacheMessage {s : Session} (h : Stamped s) {conv id : ℤ} (hfirst : CachesFirst s conv id)
    (sender : ℤ) (body : String) : Stamped (s.cacheMessage conv id sender body) := by
  unfold Session.cacheMessage
  split
  · exact h
  · next hskip =>
    have hon : s.isConversationCacheEnabled conv = true := by
      rw [← Bool.not_eq_false]
      exact (not_or.mp hskip).1
    -- the time that is written is the one that is remembered
    have hnow : (s.firstCached conv id <|> some s.clock) = some s.clock := by
      cases hget : s.firstCached conv id with
      | none => rfl
      | some first => rw [hfirst hon first hget]; rfl
    intro conv' line hline
    by_cases hconv : conv' = conv
    · subst hconv
      simp only [Function.update_self, List.mem_append, List.mem_singleton] at hline ⊢
      rw [hnow]
      rcases hline with hline | rfl
      · by_cases hid : line.id = id
        · have hold := h conv' line hline
          rw [hid] at hold
          rw [hid, Function.update_self, hfirst hon _ hold]
        · rw [Function.update_of_ne hid]
          exact h conv' line hline
      · exact Function.update_self ..
    · simp only [Function.update_of_ne hconv] at hline ⊢
      exact h conv' line hline

theorem Stamped.setCachePolicy {s : Session} (h : Stamped s) (enabled clearOnLogout : Option Bool)
    (disabled : Option (List ℤ)) : Stamped (s.setCachePolicy enabled none clearOnLogout disabled) := by
  unfold Session.setCachePolicy
  dsimp only
  split
  · intro conv line hline
    simp only [Session.enforceCachePolicy] at hline
    split at hline
    · exact h conv line (List.mem_of_mem_filter hline)
    · exact absurd hline List.not_mem_nil
  · exact fun _ _ hline => absurd hline List.not_mem_nil

theorem Stamped.readRow {s : Session} (h : Stamped s) {conv : ℤ} {cached : List CacheEntry} {row : Row}
    (hfirst : RowFirst P conv cached s row) : Stamped (readRow P conv cached s row) := by
  unfold CacheAge.readRow
  dsimp only
  split
  · next plain hplain =>
    have hne : row.text P s.myUid cached ≠ none := by
      intro hnone
      have hsome : row.text P s.myUid cached = some plain := hplain
      rw [hnone] at hsome
      cases hsome
    exact Stamped.cacheMessage (s := s.wait row.wait) h (hfirst hne) row.fields.sender plain
  · exact h

/-- A call that caches what was not cached before. -/
theorem Stamped.step {s : Session} (h : Stamped s) {call : Call} (hok : StepOk P s call) :
    Stamped (step P s call) := by
  cases call with
  | cacheMessage conv id sender body wait =>
    exact Stamped.cacheMessage (s := s.wait wait) h hok sender body
  | decryptHistoryMessages conv rows wait =>
    show Stamped (decryptHistory P (s.wait wait) conv rows)
    have hload := Stamped.load (s := s.wait wait) h conv
    unfold decryptHistory
    exact (Runs.always_iff_prefixes.mp (Runs.always_of_each (fun s row hs hrow => hs.readRow hrow)
      hload hok)) rows (List.prefix_refl rows)
  | loadCachedMessages conv wait => exact Stamped.load (s := s.wait wait) h conv
  | setCachePolicy enabled clearOnLogout disabled wait =>
    exact Stamped.setCachePolicy (s := s.wait wait) h enabled clearOnLogout disabled

/-- A line that is returned is as old as its message. -/
theorem Stamped.effective {s : Session} (h : Stamped s) (hs : Sound s) : Effective s := by
  intro conv id seconds line hid hentry
  obtain ⟨hlineId, hmem⟩ : line.id = id ∧ line ∈ ((s.wait seconds).loadCachedMessages conv).1 := by
    rw [entryOf] at hentry
    exact ⟨by simpa using List.find?_some hentry,
      List.mem_reverse.mp (List.mem_of_find?_eq_some hentry)⟩
  unfold Session.loadCachedMessages at hmem
  split at hmem
  · obtain ⟨hin, hfresh⟩ := List.mem_filter.mp hmem
    refine ⟨line.cachedAt, ?_, ((hs.wait seconds).isFresh_iff hin).mp hfresh⟩
    rw [← hlineId]
    exact h conv line hin
  · exact absurd hmem List.not_mem_nil

/-- **A message that is cached again outlives its time.** -/
theorem not_effective_of_again {s : Session} (h : Sound s) {conv id : ℤ}
    (hon : s.isConversationCacheEnabled conv = true) (hid : id ≠ 0) {first : ℚ}
    (hfirst : s.firstCached conv id = some first) (hlt : first < s.clock) (sender : ℤ) (body : String) :
    ¬ Effective (s.cacheMessage conv id sender body) := by
  have hcached : s.cacheMessage conv id sender body =
      { s with
        files := Function.update s.files conv (s.files conv ++ [⟨⟨id, sender, body, ""⟩, s.clock⟩])
        firstCached := Function.update s.firstCached conv
          (Function.update (s.firstCached conv) id (some first)) } := by
    rw [Session.cacheMessage, if_neg (not_or.mpr ⟨by rw [hon]; decide, hid⟩), hfirst]
    rfl
  have hsound : Sound (s.cacheMessage conv id sender body) := h.cacheMessage conv id sender body
  intro heffective
  -- the load is at the last moment at which the new line is fresh
  let seconds : ℚ≥0 := ⟨s.cacheTtlDays * 86400, mul_nonneg (by exact_mod_cast h.ttl) (by norm_num)⟩
  let line : Line := ⟨⟨id, sender, body, ""⟩, s.clock⟩
  have hentry : entryOf (((s.cacheMessage conv id sender body).wait seconds).loadCachedMessages conv).1 id =
      some line := by
    have hfiles : ((s.cacheMessage conv id sender body).wait seconds).files conv = s.files conv ++ [line] := by
      simp [hcached, Session.wait, line]
    have hfresh : ((s.cacheMessage conv id sender body).wait seconds).cacheEntryIsFresh line = true := by
      rw [(hsound.wait seconds).isFresh_iff (by rw [hfiles]; simp), hcached]
      show s.clock + s.cacheTtlDays * 86400 - s.clock ≤ s.cacheTtlDays * 86400
      linarith
    have hon' : ((s.cacheMessage conv id sender body).wait seconds).isConversationCacheEnabled conv = true := by
      rw [hcached]
      exact hon
    rw [Session.loadCachedMessages, if_pos hon']
    dsimp only
    rw [hfiles, List.filter_append, List.filter_singleton, hfresh]
    simp [entryOf, line]
  obtain ⟨first', hfirst', hage⟩ := heffective conv id seconds line hid hentry
  rw [hcached] at hfirst' hage
  simp only [Function.update_self, Option.some.injEq] at hfirst'
  have hclock : s.clock + s.cacheTtlDays * 86400 - first' ≤ s.cacheTtlDays * 86400 := hage
  rw [← hfirst'] at hclock
  linarith

variable (P) in
/-- **The TTL is effective where nothing is cached again.** In every run the lines that have expired
are gone from the file after a load; and in a run in which no message is cached that was cached
before, no message is returned after its time. -/
theorem effective_of_first (myUid ttlDays : ℤ) (start : ℚ) (httl : 0 ≤ ttlDays) (hstart : 0 < start)
    (calls : List Call) :
    Runs.Always (step P) Swept (.fresh myUid ttlDays start) calls ∧
      (Runs.Each (step P) (StepOk P) (.fresh myUid ttlDays start) calls →
        Runs.Always (step P) Effective (.fresh myUid ttlDays start) calls) := by
  have hsound := sound_fresh myUid httl hstart
  refine ⟨Runs.always_iff_prefixes.mpr fun pre _ => ?_, fun hok => ?_⟩
  · have hend : Sound (pre.foldl (step P) (.fresh myUid ttlDays start)) :=
      Runs.foldl_of_forall (D := fun _ => True) (fun s call hs _ => hs.step call) hsound
        fun _ _ => trivial
    exact hend.swept
  · have hstep : ∀ s call, Sound s ∧ Stamped s → StepOk P s call →
        Sound (step P s call) ∧ Stamped (step P s call) := fun s call hs hcall =>
      ⟨hs.1.step call, hs.2.step hcall⟩
    have halways := Runs.always_of_each hstep
      ⟨hsound, fun _ _ hline => absurd hline List.not_mem_nil⟩ hok
    exact halways.imp fun s hs => hs.2.effective hs.1

/-! ### A message that is looked at every day -/

/-- A message is cached, and its row is served from the cache 0.9 days later. -/
def viewed : List Call :=
  [.cacheMessage 5 7 2 "hi" 0,
    .decryptHistoryMessages 5 [⟨⟨.str (prefixDr ++ ""), false, 7, 2, false⟩, none, 0⟩] 77760]

/-- With a TTL of one day the message outlives its day. -/
theorem viewed_expired : ¬ Effective (viewed.foldl (step P) (.fresh 1 1 1)) := by
  let s := (Session.fresh 1 1 1).wait 0 |>.cacheMessage 5 7 2 "hi" |>.wait 77760
  let loaded := (s.loadCachedMessages 5).2.wait 0
  have hs : Sound loaded :=
    ((((sound_fresh 1 (by decide) (by norm_num)).wait 0).cacheMessage 5 7 2 "hi").wait 77760
      |>.load 5).wait 0
  have hfiles : s.files 5 = [⟨⟨7, 2, "hi", ""⟩, 1 + (0 : ℚ≥0)⟩] := rfl
  have hclock : s.clock = 1 + (0 : ℚ≥0) + (77760 : ℚ≥0) := rfl
  have hstart : (1 : ℚ) + (0 : ℚ≥0) = 1 := by simp
  have hfresh : s.cacheEntryIsFresh ⟨⟨7, 2, "hi", ""⟩, 1⟩ = true := by
    rw [Session.cacheEntryIsFresh, if_neg (by decide), hclock]
    have httl : (s.cacheTtlDays : ℚ) = 1 := rfl
    norm_num [httl]
  have hlines : (s.loadCachedMessages 5).1 = [⟨⟨7, 2, "hi", ""⟩, 1⟩] := by
    rw [Session.loadCachedMessages, if_pos (by rfl)]
    dsimp only
    rw [hfiles, hstart, List.filter_singleton, hfresh]
    rfl
  have hhit : cacheHit P [⟨7, 2, "hi", ""⟩] 7 (prefixDr ++ "") = some ⟨7, 2, "hi", ""⟩ := rfl
  have hfinal : viewed.foldl (step P) (.fresh 1 1 1) = loaded.cacheMessage 5 7 2 (unpackPlaintext "hi") := by
    show (decryptHistory P s 5 _) = _
    unfold decryptHistory
    dsimp only
    rw [hlines]
    show readRow P 5 [⟨7, 2, "hi", ""⟩] (s.loadCachedMessages 5).2 _ = _
    unfold readRow
    dsimp only
    rw [Row.text_hit rfl rfl rfl (.inl (startsWith_append _ _)) hhit]
  rw [hfinal]
  have hlate : (1 : ℚ) < loaded.clock := by
    show (1 : ℚ) < s.clock + (0 : ℚ≥0)
    rw [hclock]
    norm_num
  have hfirst : loaded.firstCached 5 7 = some 1 := by
    show (some (1 + (0 : ℚ≥0)) : Option ℚ) = some 1
    rw [hstart]
  exact not_effective_of_again hs rfl (by decide) hfirst hlate 2 _

/-- **A message that is looked at does not expire.** -/
theorem not_effective : ¬ ∀ (P : Prims) (myUid ttlDays : ℤ) (start : ℚ), 0 ≤ ttlDays → 0 < start →
    ∀ calls : List Call, Runs.Always (step P) Effective (.fresh myUid ttlDays start) calls := by
  intro h
  have halways := Runs.always_iff_prefixes.mp (h termPrims 1 1 1 (by decide) (by norm_num) viewed)
  exact viewed_expired (halways viewed (List.prefix_refl _))

/-- A message that is cached once, and loaded two days later. -/
def cachedOnce : List Call := [.cacheMessage 5 7 2 "hi" 0, .loadCachedMessages 5 172800]

theorem effective_of_first_once :
    Runs.Always (step termPrims) Effective (.fresh 1 1 1) cachedOnce := by
  refine (effective_of_first termPrims 1 1 1 (by decide) (by norm_num) cachedOnce).2 ⟨?_, trivial, trivial⟩
  intro _ first hfirst
  cases hfirst

end SecChat.CacheAge
