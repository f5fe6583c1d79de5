import SecChat.App.OwnMessages
import SecChat.Session.Padding
import SecChat.Session.PendingAnswers

/-!
# Reading a message again

A message is decrypted once; after that its row is served from the cache.  `unpack_plaintext` is
applied when it is decrypted, at every hit of the cache, and to every live message once more in the
controller, and each time the result is cached again.

* `Rewrapped`: a text that is itself a padding wrapper, of another text;
* `Call`, `step`, `readings`: calls on a client, and the texts that they show for one message;
* `SameRow`, `Reread`: calls that read one row again;
* `reread_same_iff`: the message keeps its text unless that is rewrapped.

A live message whose id was seen before is dropped, and is no call here.
-/

namespace SecChat.Rereading

open Py Client DoubleRatchet

/-! ### Texts -/

/-- The text is a padding wrapper of another text. -/
def Rewrapped (text : String) : Prop :=
  text.startsWith "\x7b" = true ∧ ∃ fields, loads (encodeUtf8 text) = .ok (.obj fields) ∧
    ((fields.lookup "_type").getD .null).pyEq (.str paddedMarker) = true ∧
      ((fields.lookup "body").getD (.str "")).toStr ≠ text

theorem unpackPlaintext_eq_self_iff (text : String) : unpackPlaintext text = text ↔ ¬ Rewrapped text := by
  unfold unpackPlaintext Rewrapped
  split
  · next hbrace =>
    split
    · next fields hload =>
      split
      · next hmarker =>
        constructor
        · rintro hsame ⟨-, fields', hload', -, hother⟩
          obtain rfl := Json.obj.inj (Except.ok.inj (hload.symm.trans hload'))
          exact hother hsame
        · intro hnot
          by_contra hother
          exact hnot ⟨hbrace, fields, hload, hmarker, hother⟩
      · next hmarker =>
        refine iff_of_true rfl ?_
        rintro ⟨-, fields', hload', hmarker', -⟩
        obtain rfl := Json.obj.inj (Except.ok.inj (hload.symm.trans hload'))
        exact hmarker hmarker'
    · next hload =>
      refine iff_of_true rfl ?_
      rintro ⟨-, fields', hload', -⟩
      exact hload fields' hload'
  · next hbrace => exact iff_of_true rfl fun h => hbrace h.1

/-! ### The client and its controller -/

variable {G : Type}

section Calls

variable (P : Prims) (A : MlsApp G)

/-- The text that `_handle_message` goes on with; `pending` is the head of the own plaintexts. -/
def receivedText (result : LiveResult) (pending : String) : Option String :=
  match result with
  | .selfEcho => some pending
  | .message (.str body) _ => some body
  | _ => none

/-- What `_handle_decrypted_message` puts into the cache; `updated` says whether an edit was
applied. -/
def cacheDecrypted (c : Client G) (conv id sender target : ℤ) (updated : Bool) (body : String) :
    Client G :=
  if OwnMessages.isPlain body then
    let c := c.cacheMessage conv id sender body
    if 0 < target ∧ updated = true then c.cacheMessage conv target sender body else c
  else c

/-- What a live message shows: its conversation, its id, and its text. -/
structure Shown where
  conv : ℤ
  id : ℤ
  text : String

/-- `_handle_message` with `_handle_decrypted_message`; an exception shows nothing. -/
def handleMessage (c : Client G) (msg : Json) (pending : String) (updated : Bool) (rand : RecvRand) :
    Option Shown × Client G :=
  match envelopeOf msg, intOrZero msg "id" with
  | .ok (conv, sender, _), .ok id =>
      let (result, c) := c.decryptLiveMessage P A msg rand
      match receivedText result pending, intOrZero msg "edit_target_message_id" with
      | some body, .ok target =>
          let body := unpackPlaintext body
          (some ⟨conv, id, body⟩, cacheDecrypted c conv id sender target updated body)
      | _, _ => (none, c)
  | _, _ => (none, c)

/-- What happens to a client. -/
inductive Call
  | history (conv : ℤ) (fresh : CacheEntry → Bool) (rows : List (Json × RecvRand))
  | live (msg : Json) (pending : String) (updated : Bool) (rand : RecvRand)
  | restart

/-- One call. -/
def step (c : Client G) : Call → Client G
  | .history conv fresh rows => (c.decryptHistoryMessages P A conv fresh rows).2
  | .live msg pending updated rand => (handleMessage P A c msg pending updated rand).2
  | .restart => c.restart

/-- The text that a row of the message shows. -/
def readingOf (id : ℤ) (row : Json) (result : RowResult) : Option String :=
  match rowFields row, result with
  | .ok f, .text (.str text) => if f.id = id then some text else none
  | _, _ => none

/-- The texts that a call shows for a message. -/
def readings (conv id : ℤ) (c : Client G) : Call → List String
  | .history conv' fresh rows =>
      match (c.decryptHistoryMessages P A conv' fresh rows).1 with
      | .ok results =>
          if conv' = conv then
            ((rows.map Prod.fst).zip results).filterMap fun shown => readingOf id shown.1 shown.2
          else []
      | .error _ => []
  | .live msg pending updated rand =>
      match (handleMessage P A c msg pending updated rand).1 with
      | some shown => if shown.conv = conv ∧ shown.id = id then [shown.text] else []
      | none => []
  | .restart => []

/-- What the cache has for a message id: the entry that was written last. -/
def held (c : Client G) (conv id : ℤ) : Option CacheEntry := (c.cache conv).reverse.find? fun e => e.id = id

/-- A row with this id has this body. -/
def SameRow (id : ℤ) (wire : String) (row : Json) : Prop :=
  ∀ f, rowFields row = .ok f → f.id = id → f.deleted = false ∧ f.control = false ∧ f.body = .str wire

/-- A later call reads the row again, from the cache, or does not touch it: no other row has its id,
the entry of the message has not expired, and a live message with its id, if any, opens to its text.
-/
def Reread (conv id : ℤ) (wire text : String) (c : Client G) : Call → Prop
  | .history conv' fresh rows => conv' = conv →
      (∀ row ∈ rows, SameRow id wire row.1) ∧ ∀ e ∈ held c conv id, fresh e = true
  | .live msg pending _ rand => ∀ sender body msgId target,
      envelopeOf msg = .ok (conv, sender, body) → intOrZero msg "id" = .ok msgId →
        intOrZero msg "edit_target_message_id" = .ok target → target ≠ id ∧
          (msgId = id → ∀ received,
            receivedText (c.decryptLiveMessage P A msg rand).1 pending = some received → received = text)
  | .restart => True

/-- An encrypted message: its body is that of a DM or of a group. -/
def Encrypted (wire : String) : Prop := wire.startsWith prefixDr = true ∨ wire.startsWith prefixMls = true

end Calls

/-! ### What is cached -/

variable {P : Prims} {A : MlsApp G} {conv id : ℤ} {wire text : String}

/-- The cache and its policy are the same. -/
def SameCache (c c' : Client G) : Prop := c'.cache = c.cache ∧ c'.cacheOn = c.cacheOn

theorem SameCache.refl (c : Client G) : SameCache c c := ⟨rfl, rfl⟩

theorem SameCache.trans {c₁ c₂ c₃ : Client G} (h : SameCache c₁ c₂) (h' : SameCache c₂ c₃) :
    SameCache c₁ c₃ := ⟨h'.1.trans h.1, h'.2.trans h.2⟩

theorem sameCache_load (c : Client G) : SameCache c c.loadPqxdhPrekeys.2 := by
  obtain ⟨keys, hkeys⟩ := c.loadPqxdhPrekeys_frame
  rw [hkeys]
  exact .refl c

theorem sameCache_respond {c c' : Client G} {store : Json} {body : String} {r : RespondRand}
    {result : Except Exn (String × DoubleRatchet × String × ℤ)}
    (h : c.respondPqxdh P store body r = (result, c')) : SameCache c c' := by
  cases result with
  | error e =>
    obtain rfl := respondPqxdh_error h
    exact .refl c'
  | ok result =>
    obtain ⟨store', -, rfl⟩ := respondPqxdh_ok h
    exact .refl c

theorem sameCache_accept {c c' : Client G} {conv : ℤ} {meta_ : Json} {state : DoubleRatchet}
    {fp : String} {uid now : ℤ} {peer : PeerInfo}
    (h : c.acceptInit conv meta_ state fp uid now = .ok (peer, c')) : SameCache c c' := by
  unfold acceptInit at h
  obtain ⟨_, -, h⟩ := bind_eq_ok_iff.mp h
  obtain ⟨_, -, h⟩ := bind_eq_ok_iff.mp h
  obtain ⟨_, -, h⟩ := bind_eq_ok_iff.mp h
  simp only [pure_eq_ok, Except.ok.injEq, Prod.mk.injEq] at h
  obtain ⟨-, rfl⟩ := h
  exact .refl c

theorem sameCache_openInit (c : Client G) (conv : ℤ) (existing : Bool) (meta_ : Json) (body : String)
    (rand : RecvRand) : SameCache c (c.openInit P conv existing meta_ body rand).2 := by
  have hload := sameCache_load c
  unfold openInit
  rcases hloaded : c.loadPqxdhPrekeys with ⟨loaded, c₁⟩
  rw [hloaded] at hload
  cases loaded with
  | none => exact hload
  | some store =>
    simp only
    rcases hrespond : c₁.respondPqxdh P store body rand.respond with ⟨result, c₂⟩
    have hresponded := hload.trans (sameCache_respond hrespond)
    cases result with
    | error e => exact hresponded
    | ok result =>
      obtain ⟨plain, state, fp, uid⟩ := result
      simp only
      split
      next peer c₃ haccept => exact hresponded.trans (sameCache_accept haccept)
      next => exact hresponded

theorem sameCache_receiveInit (c : Client G) (conv : ℤ) (body : String) (rand : RecvRand) :
    SameCache c (c.receiveInit P conv body rand).2 := by
  unfold receiveInit
  dsimp only
  split
  · exact .refl c
  · split
    · exact sameCache_openInit ..
    · split
      · exact .refl c
      · exact sameCache_openInit ..

theorem sameCache_openMls {c c' : Client G} {wire plain : String}
    (h : c.openMlsApplicationWire A conv wire = some (plain, c')) : SameCache c c' := by
  obtain ⟨mls, rfl⟩ := openMlsApplicationWire_frame h
  exact .refl c

/-- A live message is not cached by the session. -/
theorem sameCache_receiveLive (c : Client G) (conv sender : ℤ) (body : Json) (rand : RecvRand) :
    SameCache c (c.receiveLive P A conv sender body rand).2 := by
  cases body with
  | str text =>
    simp only [receiveLive]
    split
    · split
      · exact .refl c
      · have hinit := sameCache_receiveInit (P := P) c conv text rand
        split <;> simp_all
    · split
      · exact .refl c
      · exact .refl c
      · split
        · exact .refl c
        · split
          · split <;> exact .refl c
          · split
            · split
              next plain c' hopen => exact sameCache_openMls hopen
              next => exact .refl c
            · exact .refl c
  | _ => simp only [receiveLive]; split <;> exact .refl c

theorem sameCache_decryptLive (c : Client G) (msg : Json) (rand : RecvRand) :
    SameCache c (c.decryptLiveMessage P A msg rand).2 := by
  unfold decryptLiveMessage
  split
  · exact sameCache_receiveLive ..
  · exact .refl c

/-- What one row does to the cache: nothing, or its text is put into it. -/
inductive RowCached (c : Client G) (conv : ℤ) (f : RowFields) :
    Except Exn RowResult × Client G → Prop
  | cached {c₁ : Client G} {text : String} (same : SameCache c c₁) :
      RowCached c conv f (c₁.showRow conv f.id f.sender text)
  | other {result : Except Exn RowResult} {c₁ : Client G} (same : SameCache c c₁)
      (hidden : ∀ wire, f.body = .str wire → Encrypted wire → ∀ body, result ≠ .ok (.text body)) :
      RowCached c conv f (result, c₁)

theorem receiveRow_cached (c : Client G) (cached : List CacheEntry) (f : RowFields)
    (rand : RecvRand) : RowCached c conv f (c.receiveRow P A conv cached f.id f.sender f.body rand) := by
  cases hbody : f.body with
  | str text =>
    simp only [receiveRow]
    split
    · split
      · exact .other (.refl c) fun _ _ _ _ => by simp
      · have hinit := sameCache_receiveInit (P := P) c conv text rand
        split <;> rename_i heq <;> rw [heq] at hinit
        · exact .other hinit fun _ _ _ _ => by simp
        · refine .other hinit fun _ _ _ _ => ?_
          split <;> simp
        · exact .other hinit fun _ _ _ _ => by simp
        · exact .other hinit fun _ _ _ _ => by simp
        · exact .other hinit fun _ _ _ _ => by simp
    · next hinit =>
      split
      · split
        · exact .cached (.refl c)
        · split
          · exact .other (.refl c) fun _ _ _ _ => by simp
          · split
            · exact .cached (.refl c)
            · exact .other (.refl c) fun _ _ _ _ => by simp
            · exact .other (.refl c) fun _ _ _ _ => by simp
      · next hdr =>
        split
        · split
          · exact .cached (.refl c)
          · split
            · exact .other (.refl c) fun _ _ _ _ => by simp
            · split
              · next plain c' hopen => exact .cached (sameCache_openMls hopen)
              · exact .other (.refl c) fun _ _ _ _ => by simp
        · next hmls =>
          refine .other (.refl c) fun wire hwire hencrypted => ?_
          obtain rfl := Json.str.inj (hbody.symm.trans hwire)
          exact absurd hencrypted (not_or.mpr ⟨hdr, hmls⟩)
  | _ =>
    simp only [receiveRow]
    refine .other (.refl c) fun wire hwire => ?_
    rw [hbody] at hwire
    cases hwire

theorem decryptHistoryRow_cached {c : Client G} {cached : List CacheEntry} {row : Json} {f : RowFields}
    (hf : rowFields row = .ok f) (rand : RecvRand) :
    RowCached c conv f (c.decryptHistoryRow P A conv cached row rand) := by
  rw [decryptHistoryRow, hf]
  dsimp only
  split
  · exact .other (.refl c) fun _ _ _ _ => by simp
  · split
    · exact .other (.refl c) fun _ _ _ _ => by simp
    · exact receiveRow_cached c cached f rand

/-- A row of the cache shows its text, unpacked again. -/
theorem decryptHistoryRow_hit {c : Client G} {cached : List CacheEntry} {row : Json} {f : RowFields}
    {hit : CacheEntry} (hf : rowFields row = .ok f) (hdeleted : f.deleted = false)
    (hcontrol : f.control = false) (hbody : f.body = .str wire) (hwire : Encrypted wire)
    (hhit : cacheHit P cached f.id wire = some hit) (rand : RecvRand) :
    c.decryptHistoryRow P A conv cached row rand =
      c.showRow conv f.id f.sender (unpackPlaintext hit.body) := by
  rw [decryptHistoryRow, hf]
  dsimp only
  rw [if_neg (by rw [hdeleted]; decide), if_neg (by rw [hcontrol]; decide), hbody]
  simp only [receiveRow]
  rcases hwire with hdr | hmls
  · rw [if_neg (by rw [not_pqInit_of_dr hdr]; decide), if_pos hdr, hhit]
  · have hinit : wire.startsWith prefixPqInit = false :=
      other_tag hmls (by decide) (by decide) (by decide)
    have hdr : wire.startsWith prefixDr = false := other_tag hmls (by decide) (by decide) (by decide)
    rw [if_neg (by rw [hinit]; decide), if_neg (by rw [hdr]; decide), if_pos hmls, hhit]

/-! ### What is held -/

/-- The cache holds a text for the message. -/
def Holds (c : Client G) (conv id : ℤ) (text : String) : Prop :=
  c.cacheOn conv = true ∧ ∃ e ∈ held c conv id, e.body = text

theorem held_of_same {c c' : Client G} (h : SameCache c c') : held c' conv id = held c conv id := by
  rw [held, h.1, held]

theorem Holds.of_same {c c' : Client G} (h : Holds c conv id text) (hsame : SameCache c c') :
    Holds c' conv id text := by
  rw [Holds, held_of_same hsame, hsame.2]
  exact h

theorem held_cacheMessage (c : Client G) (conv' id' sender : ℤ) (body : String) :
    held (c.cacheMessage conv' id' sender body) conv id =
      if c.cacheOn conv' = true ∧ id' ≠ 0 ∧ conv' = conv ∧ id' = id then some ⟨id', sender, body, ""⟩
      else held c conv id := by
  unfold cacheMessage held
  by_cases hskip : c.cacheOn conv' = false ∨ id' = 0
  · rw [if_pos hskip, if_neg]
    rintro ⟨hon, hid, -⟩
    rcases hskip with hoff | hzero
    · rw [hoff] at hon
      cases hon
    · exact hid hzero
  · rw [if_neg hskip]
    obtain ⟨hon, hid⟩ := not_or.mp hskip
    rw [Bool.not_eq_false] at hon
    dsimp only
    by_cases hconv : conv = conv'
    · subst hconv
      rw [Function.update_self, List.reverse_append, List.reverse_singleton, List.singleton_append,
        List.find?_cons]
      by_cases heq : id' = id
      · simp [heq, hon, heq ▸ hid]
      · simp [heq]
    · rw [Function.update_of_ne hconv, if_neg fun h => hconv h.2.2.1.symm]

theorem cacheOn_cacheMessage (c : Client G) (conv' id' sender : ℤ) (body : String) :
    (c.cacheMessage conv' id' sender body).cacheOn = c.cacheOn := by
  unfold cacheMessage
  split <;> rfl

/-- A message of another id, or the same text again. -/
theorem Holds.cacheMessage {c : Client G} (h : Holds c conv id text) {conv' id' : ℤ} (sender : ℤ)
    {body : String} (hsame : conv' = conv → id' = id → body = text) :
    Holds (c.cacheMessage conv' id' sender body) conv id text := by
  refine ⟨by rw [cacheOn_cacheMessage]; exact h.1, ?_⟩
  rw [held_cacheMessage]
  split
  · next hnew => exact ⟨_, rfl, hsame hnew.2.2.1 hnew.2.2.2⟩
  · exact h.2

/-! ### The history -/

theorem readingOf_eq {row : Json} {f : RowFields} (hf : rowFields row = .ok f) (result : RowResult) :
    readingOf id row result =
      if f.id = id then match result with | .text (.str text) => some text | _ => none else none := by
  unfold readingOf
  rw [hf]
  cases result with
  | text body => cases body <;> simp
  | _ => simp

/-- A turn of the loop shows a text for the message and puts it into the cache, or does neither. -/
theorem row_step (c : Client G) (conv : ℤ) (cached : List CacheEntry) (rand : RecvRand) {row : Json}
    (hrow : SameRow id wire row) (hwire : Encrypted wire) :
    let turn := c.decryptHistoryRow P A conv cached row rand
    (∃ c₁ sender shown, SameCache c c₁ ∧ turn = c₁.showRow conv id sender shown ∧
        readingOf id row (.text (.str shown)) = some shown) ∨
      held turn.2 conv id = held c conv id ∧ turn.2.cacheOn = c.cacheOn ∧
        ∀ result, turn.1 = .ok result → readingOf id row result = none := by
  intro turn
  cases hf : rowFields row with
  | error e =>
    right
    have hturn : turn = (.error e, c) := by
      show c.decryptHistoryRow P A conv cached row rand = _
      rw [decryptHistoryRow, hf]
    rw [hturn]
    exact ⟨rfl, rfl, fun result h => by cases h⟩
  | ok f =>
    have hcached : RowCached c conv f turn := decryptHistoryRow_cached hf rand
    by_cases hid : f.id = id
    · generalize turn = r at hcached
      cases hcached with
      | @cached c₁ shown same =>
        left
        subst hid
        exact ⟨c₁, f.sender, shown, same, rfl, by rw [readingOf_eq hf, if_pos rfl]⟩
      | @other result c₁ same hidden =>
        right
        refine ⟨held_of_same same, same.2, fun result' hresult => ?_⟩
        have hnot := hidden wire (hrow f hf hid).2.2 hwire
        rw [readingOf_eq hf, if_pos hid]
        cases result' with
        | text body => exact absurd hresult (hnot body)
        | _ => rfl
    · right
      have hnone : ∀ result, readingOf id row result = none := fun result => by
        rw [readingOf_eq hf, if_neg hid]
      generalize turn = r at hcached
      cases hcached with
      | @cached c₁ shown same =>
        refine ⟨?_, (cacheOn_cacheMessage ..).trans same.2, fun result _ => hnone result⟩
        show held (c₁.cacheMessage conv f.id f.sender shown) conv id = _
        rw [held_cacheMessage, if_neg fun h => hid h.2.2.2, held_of_same same]
      | other same hidden => exact ⟨held_of_same same, same.2, fun result _ => hnone result⟩

/-- What the rows of one call show for a message. -/
def rowReadings (id : ℤ) (rows : List (Json × RecvRand)) (results : List RowResult) : List String :=
  ((rows.map Prod.fst).zip results).filterMap fun shown => readingOf id shown.1 shown.2

theorem rowReadings_cons (row : Json × RecvRand) (rows : List (Json × RecvRand)) (result : RowResult)
    (results : List RowResult) :
    rowReadings id (row :: rows) (result :: results) =
      (readingOf id row.1 result).toList ++ rowReadings id rows results := by
  unfold rowReadings
  rw [List.map_cons, List.zip_cons_cons, List.filterMap_cons]
  cases readingOf id row.1 result <;> rfl

/-- The text of the row is in the cache after the row. -/
theorem holds_showRow {c c₁ : Client G} (hsame : SameCache c c₁) (hon : c.cacheOn conv = true)
    (hid : id ≠ 0) (sender : ℤ) (shown : String) : Holds (c₁.showRow conv id sender shown).2 conv id shown := by
  have hon₁ : c₁.cacheOn conv = true := by rw [hsame.2, hon]
  refine ⟨by rw [showRow, cacheOn_cacheMessage, hon₁], ⟨id, sender, shown, ""⟩, ?_, rfl⟩
  rw [showRow, held_cacheMessage, if_pos ⟨hon₁, hid, rfl, rfl⟩]
  rfl

/-- **The call that decrypts.**  With one text for all its readings, that text is in the cache. -/
theorem holds_of_shown {cached : List CacheEntry} (hid : id ≠ 0) (hwire : Encrypted wire)
    {rows : List (Json × RecvRand)} (hrows : ∀ row ∈ rows, SameRow id wire row.1) {c : Client G}
    {results : List RowResult} (hon : c.cacheOn conv = true)
    (h : (decryptRows P A conv cached c rows).1 = .ok results)
    (hall : ∀ shown ∈ rowReadings id rows results, shown = text)
    (hsome : Holds c conv id text ∨ rowReadings id rows results ≠ []) :
    Holds (decryptRows P A conv cached c rows).2 conv id text := by
  induction rows generalizing c results with
  | nil =>
    obtain rfl := Except.ok.inj h
    exact hsome.resolve_right fun hne => hne rfl
  | cons row rows ih =>
    obtain ⟨row, rand⟩ := row
    have hstep := row_step (P := P) (A := A) c conv cached rand (hrows _ List.mem_cons_self) hwire
    rw [decryptRows] at h ⊢
    rcases hturn : c.decryptHistoryRow P A conv cached row rand with ⟨turn, c₁⟩
    rw [hturn] at hstep h
    cases turn with
    | error e => cases h
    | ok result =>
      dsimp only at h ⊢
      rcases hrest : decryptRows P A conv cached c₁ rows with ⟨rest, c₂⟩
      rw [hrest] at h
      cases rest with
      | error e => cases h
      | ok rest =>
        obtain rfl := Except.ok.inj h
        rw [rowReadings_cons] at hall hsome
        have hrestAll : ∀ shown ∈ rowReadings id rows rest, shown = text := fun shown hshown =>
          hall shown (List.mem_append_right _ hshown)
        have htail := fun hon₁ hsome₁ => ih (fun r hr => hrows r (List.mem_cons_of_mem _ hr))
          (c := c₁) hon₁ (by rw [hrest]) hrestAll hsome₁
        rw [hrest] at htail
        rcases hstep with ⟨c', sender, shown, hsame, heq, hreading⟩ | ⟨hheld, hpolicy, hnone⟩
        · obtain ⟨hresult, rfl⟩ := Prod.mk.inj heq
          obtain rfl := Except.ok.inj hresult
          rw [hreading] at hall
          obtain rfl := hall shown (List.mem_append_left _ (List.mem_singleton_self _))
          have hholds := holds_showRow hsame hon hid sender shown
          exact htail hholds.1 (.inl hholds)
        · rw [hnone result rfl, Option.toList_none, List.nil_append] at hsome
          have hon₁ : c₁.cacheOn conv = true := (congrFun hpolicy conv).trans hon
          refine htail hon₁ (hsome.imp_left fun hholds => ⟨hon₁, ?_⟩)
          rw [show held c₁ conv id = held c conv id from hheld]
          exact hholds.2

/-- A call that reads the row from the cache. -/
theorem holds_of_reread {cached : List CacheEntry} {hit : CacheEntry} (hid : id ≠ 0)
    (hwire : Encrypted wire) (hhit : cacheHit P cached id wire = some hit)
    (hunpack : unpackPlaintext hit.body = text) {rows : List (Json × RecvRand)}
    (hrows : ∀ row ∈ rows, SameRow id wire row.1) {c : Client G} (h : Holds c conv id text) :
    Holds (decryptRows P A conv cached c rows).2 conv id text ∧
      ∀ results, (decryptRows P A conv cached c rows).1 = .ok results →
        ∀ shown ∈ rowReadings id rows results, shown = text := by
  induction rows generalizing c with
  | nil =>
    refine ⟨h, fun results hresults shown hshown => ?_⟩
    cases hshown
  | cons row rows ih =>
    obtain ⟨row, rand⟩ := row
    have hrow := hrows _ List.mem_cons_self
    have hturn : Holds (c.decryptHistoryRow P A conv cached row rand).2 conv id text ∧
        ∀ result, (c.decryptHistoryRow P A conv cached row rand).1 = .ok result →
          ∀ shown ∈ readingOf id row result, shown = text := by
      by_cases hmine : ∃ f, rowFields row = .ok f ∧ f.id = id
      · obtain ⟨f, hf, rfl⟩ := hmine
        obtain ⟨hdeleted, hcontrol, hbody⟩ := hrow f hf rfl
        rw [decryptHistoryRow_hit hf hdeleted hcontrol hbody hwire hhit, hunpack]
        refine ⟨holds_showRow (.refl c) h.1 hid _ _, fun result hresult shown hshown => ?_⟩
        obtain rfl := Except.ok.inj hresult
        rw [readingOf_eq hf, if_pos rfl] at hshown
        exact (Option.some.inj hshown).symm
      · obtain ⟨c', sender, shown, -, -, hreading⟩ | ⟨hheld, hpolicy, hnone⟩ :=
          row_step (P := P) (A := A) c conv cached rand hrow hwire
        · unfold readingOf at hreading
          split at hreading
          · next f text' hf heq =>
            split at hreading
            · next hidf => exact absurd ⟨f, hf, hidf⟩ hmine
            · cases hreading
          · cases hreading
        · refine ⟨⟨(congrFun hpolicy conv).trans h.1, ?_⟩, fun result hresult shown hshown => ?_⟩
          · rw [hheld]
            exact h.2
          · rw [hnone result hresult] at hshown
            cases hshown
    rw [decryptRows]
    rcases hrow' : c.decryptHistoryRow P A conv cached row rand with ⟨turn, c₁⟩
    rw [hrow'] at hturn
    cases turn with
    | error e => exact ⟨hturn.1, fun results hresults => by cases hresults⟩
    | ok result =>
      dsimp only
      have hrest := ih (fun r hr => hrows r (List.mem_cons_of_mem _ hr)) hturn.1
      rcases hrows' : decryptRows P A conv cached c₁ rows with ⟨rest, c₂⟩
      rw [hrows'] at hrest
      cases rest with
      | error e => exact ⟨hrest.1, fun results hresults => by cases hresults⟩
      | ok rest =>
        refine ⟨hrest.1, fun results hresults shown hshown => ?_⟩
        obtain rfl := Except.ok.inj hresults
        rw [rowReadings_cons, List.mem_append, Option.mem_toList] at hshown
        rcases hshown with hshown | hshown
        · exact hturn.2 result rfl shown hshown
        · exact hrest.2 rest rfl shown hshown

/-- Rows of another conversation. -/
theorem Holds.rows_other {conv' : ℤ} (hne : conv' ≠ conv) {cached : List CacheEntry}
    {rows : List (Json × RecvRand)} {c : Client G} (h : Holds c conv id text) :
    Holds (decryptRows P A conv' cached c rows).2 conv id text := by
  induction rows generalizing c with
  | nil => exact h
  | cons row rows ih =>
    obtain ⟨row, rand⟩ := row
    have hturn : Holds (c.decryptHistoryRow P A conv' cached row rand).2 conv id text := by
      cases hf : rowFields row with
      | error e =>
        rw [decryptHistoryRow, hf]
        exact h
      | ok f =>
        have hcached : RowCached c conv' f (c.decryptHistoryRow P A conv' cached row rand) :=
          decryptHistoryRow_cached hf rand
        generalize c.decryptHistoryRow P A conv' cached row rand = turn at hcached
        cases hcached with
        | cached same => exact (h.of_same same).cacheMessage _ fun heq => absurd heq hne
        | other same hidden => exact h.of_same same
    rw [decryptRows]
    rcases hrow : c.decryptHistoryRow P A conv' cached row rand with ⟨turn, c₁⟩
    rw [hrow] at hturn
    cases turn with
    | error e => exact hturn
    | ok result =>
      have hrest := ih hturn
      dsimp only
      rcases hrows' : decryptRows P A conv' cached c₁ rows with ⟨rest, c₂⟩
      rw [hrows'] at hrest
      cases rest with
      | error e => exact hrest
      | ok rest => exact hrest

/-- The entry that was written last is found, while it is fresh. -/
theorem cacheHit_loaded {c : Client G} {e : CacheEntry} (wire : String) (fresh : CacheEntry → Bool)
    (hon : c.cacheOn conv = true) (hid : id ≠ 0) (he : held c conv id = some e) (hfresh : fresh e = true) :
    cacheHit P (c.loadCachedMessages conv fresh) id wire = some e := by
  have hfound : (c.loadCachedMessages conv fresh).reverse.find? (fun e => e.id = id) = some e := by
    rw [loadCachedMessages, if_pos hon, ← List.filter_reverse, List.find?_filter]
    rw [held, List.find?_eq_some_iff_append] at he
    obtain ⟨hide, before, after, hsplit, hbefore⟩ := he
    rw [List.find?_eq_some_iff_append]
    refine ⟨by simp [hfresh, hide], before, after, hsplit, fun a ha => ?_⟩
    have hnot := hbefore a ha
    simp only [Bool.not_eq_true', decide_eq_false_iff_not] at hnot
    simp [hnot]
  rw [cacheHit, if_pos hid, hfound]
  rfl

/-! ### Live messages -/

/-- What a live message does: nothing to the cache, or what its text makes of it. -/
theorem handleMessage_cases (c : Client G) (msg : Json) (pending : String) (updated : Bool)
    (rand : RecvRand) :
    let handled := handleMessage P A c msg pending updated rand
    (handled.1 = none ∧ SameCache c handled.2) ∨
      ∃ conv sender body msgId target received c₁, envelopeOf msg = .ok (conv, sender, body) ∧
        intOrZero msg "id" = .ok msgId ∧ intOrZero msg "edit_target_message_id" = .ok target ∧
          receivedText (c.decryptLiveMessage P A msg rand).1 pending = some received ∧ SameCache c c₁ ∧
            handled = (some ⟨conv, msgId, unpackPlaintext received⟩,
              cacheDecrypted c₁ conv msgId sender target updated (unpackPlaintext received)) := by
  have hsame := sameCache_decryptLive (P := P) (A := A) c msg rand
  unfold handleMessage
  split
  · next conv sender body msgId henvelope hmsgId =>
    dsimp only
    split
    · next received target hreceived htarget =>
      exact .inr ⟨conv, sender, body, msgId, target, received, _, henvelope, hmsgId, htarget, hreceived,
        hsame, rfl⟩
    · exact .inl ⟨rfl, hsame⟩
  · exact .inl ⟨rfl, .refl c⟩

theorem Holds.cacheDecrypted {c : Client G} (h : Holds c conv id text) {conv' msgId sender target : ℤ}
    {updated : Bool} {body : String} (hmine : conv' = conv → msgId = id → body = text)
    (htarget : conv' = conv → target ≠ id) :
    Holds (cacheDecrypted c conv' msgId sender target updated body) conv id text := by
  unfold Rereading.cacheDecrypted
  split
  · have hcached := h.cacheMessage sender hmine
    dsimp only
    split
    · exact hcached.cacheMessage sender fun hconv heq => absurd heq (htarget hconv)
    · exact hcached
  · exact h

theorem Holds.live {c : Client G} (h : Holds c conv id text) (hself : unpackPlaintext text = text)
    {msg : Json} {pending : String} {updated : Bool} {rand : RecvRand}
    (hok : Reread P A conv id wire text c (.live msg pending updated rand)) :
    Holds (step P A c (.live msg pending updated rand)) conv id text ∧
      ∀ shown ∈ readings P A conv id c (.live msg pending updated rand), shown = text := by
  unfold step readings
  dsimp only
  obtain ⟨hnone, hsame⟩ | ⟨conv', sender, body, msgId, target, received, c₁, henvelope, hmsgId, htarget,
    hreceived, hsame, hhandled⟩ := handleMessage_cases (P := P) (A := A) c msg pending updated rand
  · rw [hnone]
    exact ⟨h.of_same hsame, fun shown hshown => by cases hshown⟩
  · have hmine : conv' = conv → msgId = id → unpackPlaintext received = text := by
      rintro rfl rfl
      obtain ⟨-, hopens⟩ := hok sender body msgId target henvelope hmsgId htarget
      rw [hopens rfl received hreceived, hself]
    rw [hhandled]
    constructor
    · refine (h.of_same hsame).cacheDecrypted hmine ?_
      rintro rfl
      exact (hok sender body msgId target henvelope hmsgId htarget).1
    · intro shown hshown
      dsimp only at hshown
      split at hshown
      · next hmsg =>
        obtain rfl := List.mem_singleton.mp hshown
        exact hmine hmsg.1 hmsg.2
      · cases hshown

/-! ### Runs -/

/-- **Another reading** of a text that is not rewrapped shows it again. -/
theorem Holds.reread {c : Client G} (h : Holds c conv id text) (hid : id ≠ 0) (hwire : Encrypted wire)
    (hself : unpackPlaintext text = text) {call : Call} (hok : Reread P A conv id wire text c call) :
    Holds (step P A c call) conv id text ∧ ∀ shown ∈ readings P A conv id c call, shown = text := by
  cases call with
  | history conv' fresh rows =>
    unfold step readings
    dsimp only
    cases hcontrols : (rows.mapM fun row => isControlRow row.1) with
    | error e =>
      rw [show c.decryptHistoryMessages P A conv' fresh rows = (.error e, c) by
        rw [decryptHistoryMessages, hcontrols]]
      exact ⟨h, fun shown hshown => by cases hshown⟩
    | ok controls =>
      rw [show c.decryptHistoryMessages P A conv' fresh rows =
          decryptRows P A conv' (c.loadCachedMessages conv' fresh) c rows by
        rw [decryptHistoryMessages, hcontrols]]
      by_cases hconv : conv' = conv
      · subst hconv
        obtain ⟨hrows, hfresh⟩ := hok rfl
        obtain ⟨hon, e, he, hbody⟩ := h
        have hhit := cacheHit_loaded (P := P) wire _ hon hid he (hfresh e he)
        have hrest := holds_of_reread (A := A) hid hwire hhit (by rw [hbody, hself]) hrows
          (⟨hon, e, he, hbody⟩ : Holds c conv' id text)
        refine ⟨hrest.1, ?_⟩
        split
        · next results hresults =>
          rw [if_pos rfl]
          exact hrest.2 results hresults
        · exact fun shown hshown => by cases hshown
      · refine ⟨h.rows_other hconv, ?_⟩
        split
        · rw [if_neg hconv]
          exact fun shown hshown => by cases hshown
        · exact fun shown hshown => by cases hshown
  | live msg pending updated rand => exact h.live hself hok
  | restart => exact ⟨h, fun shown hshown => by cases hshown⟩

theorem mapM_isControlRow {row : Json} {f : RowFields} (hf : rowFields row = .ok f) (rand : RecvRand) :
    ([(row, rand)].mapM fun row => isControlRow row.1) = .ok [f.control] := by
  have hcontrol : isControlRow row = .ok f.control := by
    unfold rowFields at hf
    obtain ⟨_, -, hf⟩ := bind_eq_ok_iff.mp hf
    obtain ⟨_, -, hf⟩ := bind_eq_ok_iff.mp hf
    obtain ⟨_, -, hf⟩ := bind_eq_ok_iff.mp hf
    obtain ⟨_, -, hf⟩ := bind_eq_ok_iff.mp hf
    obtain ⟨control, hcontrol, hf⟩ := bind_eq_ok_iff.mp hf
    obtain rfl := Except.ok.inj hf
    exact hcontrol
  simp [List.mapM_cons, hcontrol, bind, Except.bind, pure, Except.pure]

/-- A row that is read from the cache on its own. -/
theorem readings_single {c : Client G} (h : Holds c conv id text) (hid : id ≠ 0)
    (hwire : Encrypted wire) {row : Json} {f : RowFields} (hf : rowFields row = .ok f) (hfid : f.id = id)
    (hrow : SameRow id wire row) (rand : RecvRand) :
    readings P A conv id c (.history conv (fun _ => true) [(row, rand)]) = [unpackPlaintext text] := by
  obtain ⟨hon, e, he, rfl⟩ := h
  obtain ⟨hdeleted, hcontrol, hbody⟩ := hrow f hf hfid
  subst hfid
  have hhit := cacheHit_loaded (P := P) wire (fun _ => true) hon hid he rfl
  have hturn : c.decryptHistoryRow P A conv _ row rand =
      c.showRow conv f.id f.sender (unpackPlaintext e.body) :=
    decryptHistoryRow_hit hf hdeleted hcontrol hbody hwire hhit rand
  have hrun : c.decryptHistoryMessages P A conv (fun _ => true) [(row, rand)] =
      (.ok [.text (.str (unpackPlaintext e.body))],
        c.cacheMessage conv f.id f.sender (unpackPlaintext e.body)) := by
    rw [decryptHistoryMessages, mapM_isControlRow hf]
    simp only [decryptRows, hturn, showRow]
  unfold readings
  dsimp only
  rw [hrun]
  simp [readingOf_eq hf]

/-- After the call that has shown the message, its text is in the cache, and one of the rows is its.
-/
theorem holds_after {c : Client G} {fresh : CacheEntry → Bool} {rows : List (Json × RecvRand)}
    (hid : id ≠ 0) (hon : c.cacheOn conv = true) (hwire : Encrypted wire)
    (hrows : ∀ row ∈ rows, SameRow id wire row.1)
    (hshown : readings P A conv id c (.history conv fresh rows) ≠ [])
    (hall : ∀ shown ∈ readings P A conv id c (.history conv fresh rows), shown = text) :
    Holds (step P A c (.history conv fresh rows)) conv id text ∧
      ∃ row ∈ rows, ∃ f, rowFields row.1 = .ok f ∧ f.id = id := by
  unfold readings at hshown hall
  dsimp only at hshown hall
  split at hshown
  · next results hresults =>
    rw [hresults] at hall
    simp only [if_true] at hshown hall
    have hrun : c.decryptHistoryMessages P A conv fresh rows =
        decryptRows P A conv (c.loadCachedMessages conv fresh) c rows := by
      rw [decryptHistoryMessages] at hresults ⊢
      split at hresults
      · cases hresults
      · rfl
    rw [hrun] at hresults
    constructor
    · show Holds (c.decryptHistoryMessages P A conv fresh rows).2 conv id text
      rw [hrun]
      exact holds_of_shown hid hwire hrows hon hresults hall (.inr hshown)
    · obtain ⟨shown, hmem⟩ := List.exists_mem_of_ne_nil _ hshown
      obtain ⟨⟨row, result⟩, hzip, hreading⟩ := List.mem_filterMap.mp hmem
      obtain ⟨row', hrow', rfl⟩ := List.mem_map.mp (List.of_mem_zip hzip).1
      refine ⟨row', hrow', ?_⟩
      unfold readingOf at hreading
      split at hreading
      · next f text' hf heq =>
        split at hreading
        · next hfid => exact ⟨f, hf, hfid⟩
        · cases hreading
      · cases hreading
  · exact absurd rfl hshown

/-- **A message keeps its text, unless that is rewrapped.**  After a call on the history has shown a
message, every call that reads the row again shows the same text exactly if it is not a padding
wrapper of another one; and unpacking inverts packing. -/
theorem reread_same_iff (c : Client G) (conv id : ℤ) (wire text : String) (fresh : CacheEntry → Bool)
    (rows : List (Json × RecvRand)) (hid : id ≠ 0) (hon : c.cacheOn conv = true)
    (hwire : Encrypted wire) (hrows : ∀ row ∈ rows, SameRow id wire row.1)
    (hshown : readings P A conv id c (.history conv fresh rows) ≠ [])
    (hall : ∀ shown ∈ readings P A conv id c (.history conv fresh rows), shown = text) :
    ((∀ later, Runs.Each (step P A) (Reread P A conv id wire text)
        (step P A c (.history conv fresh rows)) later →
      Runs.Each (step P A) (fun c call => ∀ shown ∈ readings P A conv id c call, shown = text)
        (step P A c (.history conv fresh rows)) later) ↔ ¬ Rewrapped text) ∧
    ∀ urandom body, unpackPlaintext (Padding.packPlaintext urandom body) = body := by
  refine ⟨?_, Padding.unpackPlaintext_packPlaintext⟩
  obtain ⟨hholds, row, hrow, f, hf, hfid⟩ := holds_after hid hon hwire hrows hshown hall
  rw [← unpackPlaintext_eq_self_iff]
  constructor
  · intro hlater
    have hone := hlater [.history conv (fun _ => true) [row]] ⟨?_, trivial⟩
    · have hread := readings_single (P := P) (A := A) hholds hid hwire hf hfid (hrows row hrow) row.2
      exact hone.1 _ (by rw [hread]; exact List.mem_singleton_self _)
    · refine fun _ => ⟨fun r hr => ?_, fun _ _ => rfl⟩
      rw [List.mem_singleton.mp hr]
      exact hrows row hrow
  · intro hself later hlater
    have hstep : ∀ c call, Holds c conv id text → Reread P A conv id wire text c call →
        Holds (step P A c call) conv id text := fun c call hc hok =>
      (hc.reread hid hwire hself hok).1
    have hreads : ∀ c call, Holds c conv id text → Reread P A conv id wire text c call →
        ∀ shown ∈ readings P A conv id c call, shown = text := fun c call hc hok =>
      (hc.reread hid hwire hself hok).2
    exact Runs.each_of_each hstep hreads hholds hlater

/-! ### A message of a group -/

/-- A group whose messages open to the packed text. -/
def opensTo (text : String) : MlsApp Unit := ⟨fun _ _ _ => some (Padding.wrapperText text "", ())⟩

/-- A member with an empty cache. -/
def member : Client Unit :=
  { Client.fresh 1 .null with
    groupConvIds := fun _ => true
    mlsGroupReady := fun _ => true
    cacheOn := fun _ => true }

/-- The payload of an application message. -/
def groupPayload : Json :=
  .obj [("kind", .str "application"), ("conversation_id", .int 7), ("message_b64", .str "AA")]

/-- The wire of the message. -/
def groupWire : String := prefixMls ++ jsonB64 groupPayload

/-- Its row. -/
def groupRow : Json := .obj [("id", .int 5), ("sender_id", .int 2), ("body", .str groupWire)]

/-- A page of the history. -/
def page (rand : RecvRand) : Call := .history 7 (fun _ => true) [(groupRow, rand)]

theorem groupWire_mls : groupWire.startsWith prefixMls = true := startsWith_append _ _

theorem unb64_groupWire : jsonUnb64 (dropTag prefixMls groupWire) = .ok groupPayload := by
  rw [groupWire, dropTag_append]
  exact jsonUnb64_jsonB64 (by simp [groupPayload, Json.Plain, Json.PlainMembers])

theorem rowFields_groupRow : rowFields groupRow = .ok ⟨.str groupWire, false, 5, 2, false⟩ := by
  have hcheckpoint : isTranscriptCheckpoint groupWire = .ok false := by
    rw [isTranscriptCheckpoint, if_pos groupWire_mls, unb64_groupWire]
    rfl
  have hne : groupWire ≠ "" := by
    intro hempty
    have hmls := groupWire_mls
    rw [hempty] at hmls
    revert hmls
    decide
  have hbody : (Json.str groupWire).orElse (.str "") = .str groupWire := if_pos (by simpa [Json.truthy] using hne)
  have hcontrol : isControlRow groupRow = .ok false := by
    have hget : groupRow.getD "body" (.str "") = .ok (.str groupWire) := rfl
    rw [isControlRow, hget, ok_bind, hbody]
    exact hcheckpoint
  show (do return (⟨(Json.str groupWire).orElse (.str ""), false, 5, 2, ← isControlRow groupRow⟩ : RowFields)) = _
  rw [hbody, hcontrol]
  rfl

theorem readings_groupRow (text : String) (rand : RecvRand) :
    readings P (opensTo text) 7 5 member (page rand) = [text] := by
  have hdr : groupWire.startsWith prefixDr = false :=
    other_tag groupWire_mls (by decide) (by decide) (by decide)
  have hinit : groupWire.startsWith prefixPqInit = false :=
    other_tag groupWire_mls (by decide) (by decide) (by decide)
  have hopen : member.openMlsApplicationWire (opensTo text) 7 groupWire =
      some (Padding.wrapperText text "", member) := by
    unfold openMlsApplicationWire
    rw [unb64_groupWire]
    rfl
  have hrow : member.decryptHistoryRow P (opensTo text) 7 (member.loadCachedMessages 7 fun _ => true)
      groupRow rand = member.showRow 7 5 2 text := by
    rw [decryptHistoryRow, rowFields_groupRow]
    dsimp only
    rw [if_neg Bool.false_ne_true, if_neg Bool.false_ne_true]
    simp only [receiveRow]
    rw [if_neg (by rw [hinit]; decide), if_neg (by rw [hdr]; decide), if_pos groupWire_mls, hopen]
    simp only [Padding.unpackPlaintext_wrapperText]
    rfl
  have hrun : member.decryptHistoryMessages P (opensTo text) 7 (fun _ => true) [(groupRow, rand)] =
      (.ok [.text (.str text)], member.cacheMessage 7 5 2 text) := by
    rw [decryptHistoryMessages, mapM_isControlRow rowFields_groupRow]
    simp only [decryptRows, hrow, showRow]
  show (match (member.decryptHistoryMessages P (opensTo text) 7 (fun _ => true) [(groupRow, rand)]).1 with
    | .ok results => _
    | .error _ => _) = _
  rw [hrun]
  simp [readingOf_eq rowFields_groupRow]

theorem sameRow_groupRow : SameRow 5 groupWire groupRow := by
  intro f hf _
  obtain rfl := Except.ok.inj (rowFields_groupRow.symm.trans hf)
  exact ⟨rfl, rfl, rfl⟩

/-- The choices of one delivery. -/
def someRand : RecvRand := ⟨0, testSeed 0, ⟨testSeed 0, testInitRand.sid⟩⟩

/-- The row of the page is that of the message. -/
theorem sameRow_page : ∀ row ∈ [(groupRow, someRand)], SameRow 5 groupWire row.1 := by
  intro row hrow
  rw [List.mem_singleton.mp hrow]
  exact sameRow_groupRow

theorem head_of_brace {text : String} (h : text.startsWith "\x7b" = true) :
    text.toList.head? = some '\x7b' := by
  obtain ⟨rest, hrest⟩ := String.startsWith_string_iff.mp h
  rw [← hrest]
  rfl

/-- A member sends the wrapper of another text.  It is shown once, and the other text after that. -/
theorem reread_changes :
    let text := Padding.wrapperText "x" ""
    readings termPrims (opensTo text) 7 5 member (page someRand) = [text] ∧
      readings termPrims (opensTo text) 7 5 (step termPrims (opensTo text) member (page someRand))
        (page someRand) = ["x"] ∧ text ≠ "x" := by
  intro text
  have hfirst := readings_groupRow (P := termPrims) text someRand
  refine ⟨hfirst, ?_, fun heq => ?_⟩
  · have hholds : Holds (step termPrims (opensTo text) member (page someRand)) 7 5 text :=
      (holds_after (by decide) rfl (.inr groupWire_mls) sameRow_page
        (by rw [page] at hfirst; rw [hfirst]; simp) (by rw [page] at hfirst; rw [hfirst]; simp)).1
    have hread := readings_single (P := termPrims) (A := opensTo text) hholds (by decide)
      (.inr groupWire_mls) rowFields_groupRow rfl sameRow_groupRow someRand
    rw [Padding.unpackPlaintext_wrapperText] at hread
    exact hread
  · have hbrace : ("x" : String).startsWith "\x7b" = true := by
      rw [← heq]
      exact Padding.startsWith_wrapperText "x" ""
    cases head_of_brace hbrace

/-- An ordinary text is shown again. -/
theorem reread_same_hello :
    (readings termPrims (opensTo "hello") 7 5
      (step termPrims (opensTo "hello") member (page someRand)) (page someRand)).all (· == "hello") := by
  have hfirst := readings_groupRow (P := termPrims) "hello" someRand
  have hplain : ¬ Rewrapped "hello" := by
    rintro ⟨hbrace, -⟩
    cases head_of_brace hbrace
  have hsame := reread_same_iff (P := termPrims) (A := opensTo "hello") member 7 5 groupWire "hello"
    (fun _ => true) [(groupRow, someRand)] (by decide) rfl (.inr groupWire_mls) sameRow_page
    (by rw [page] at hfirst; rw [hfirst]; simp) (by rw [page] at hfirst; rw [hfirst]; simp)
  have hagain := (hsame.1.mpr hplain [page someRand]
    ⟨fun _ => ⟨sameRow_page, fun _ _ => rfl⟩, trivial⟩).1
  exact List.all_eq_true.mpr fun shown hshown => beq_iff_eq.mpr (hagain shown hshown)

end SecChat.Rereading
