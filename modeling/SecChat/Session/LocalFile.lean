import SecChat.Audit.IdentityState
import SecChat.Python.Files

/-!
# State files under the master key

Every state file holds tokens that `encrypt_with_key` made with the master key: one for most files,
one on each line of a message cache.

* `encryptWithKey`, `decryptWithKey`: one token;
* `fileTokens`, `fileEntries`: what a file holds; `fileText`: how a file is written;
* `fileEntries_fileText`: a file that was written under a key holds what was written.
-/

namespace SecChat

open Py

/-- The nonce and the clock of one call of `encrypt_with_key`. -/
structure Stamp where
  nonce : Nonce
  ts : ℤ

/-- `json.dumps({"ts": ts, "body": body}, ensure_ascii=False)`, with its default separators. -/
def envelope (ts : ℤ) (body : String) : String :=
  String.ofList ('\x7b' :: '"' :: (strTail "ts".toList ++ ':' :: ' ' :: (chars (.int ts) ++
    ',' :: ' ' :: '"' :: (strTail "body".toList ++ ':' :: ' ' :: (chars (.str body) ++ ['\x7d'])))))

variable (P : Prims)

/-- `encrypt_with_key`. -/
def encryptWithKey (key : Bytes) (w : Stamp) (plaintext : String) : String :=
  b64encode (w.nonce.1 ++ P.aesgcmEncrypt key w.nonce.1 (encodeUtf8 (envelope w.ts plaintext)) [])

/-- `decrypt_with_key(..., check_replay=False)`. -/
def decryptWithKey (key : Bytes) (token : String) : Except Exn Json := do
  match b64decode token with
  | none => .error .binasciiError
  | some raw =>
      match P.aesgcmDecrypt key (raw.take 12) (raw.drop 12) [] with
      | none => .error .invalidTag
      | some plain => (← loads plain).getD "body" (.str "")

/-- `json.loads` of what `decrypt_with_key` returned. -/
def loadsBody : Json → Except Exn Json
  | .str raw => loads (encodeUtf8 raw)
  | _ => .error .typeError

/-- The tokens of a file: its lines, or its whole text, without blanks around them and without empty
ones. -/
def fileTokens (lineMode : Bool) (text : String) : List String :=
  ((if lineMode then splitlines text else [pyStrip text]).map pyStrip).filter (· ≠ "")

/-- The plaintexts of a file. -/
def fileEntries (key : Bytes) (lineMode : Bool) (text : String) : Except Exn (List Json) :=
  (fileTokens lineMode text).mapM (decryptWithKey P key)

/-- The text of a file with the given tokens; a file that is not read line by line takes one. -/
def fileText (lineMode : Bool) (tokens : List String) : String :=
  if lineMode then joinLines tokens else (tokens.head?).getD ""

variable {P}

/-! ### Tokens -/

/-- An item with a blank after its colon. -/
theorem parseMember_spaced {k : String} {v : Json} {n : ℕ} {rest : List Char} (hv : v.Plain)
    (h : parseValue n (chars v ++ rest) = some (v, rest)) :
    parseMember (n + 1) (strTail k.toList ++ ':' :: ' ' :: (chars v ++ rest)) =
      some ((k, v), rest) := by
  have hcolon : ∀ cs, skipWs (':' :: cs) = ':' :: cs := fun cs => by simp [skipWs]
  have hblank : ∀ cs, skipWs (' ' :: cs) = skipWs cs := fun cs => by simp [skipWs]
  simp only [parseMember, parseStr_strTail, Option.bind_eq_bind, Option.bind_some, hcolon, hblank,
    skipWs_chars hv, h]
  rfl

theorem loads_envelope (ts : ℤ) (body : String) :
    loads (encodeUtf8 (envelope ts body)) = .ok (.obj [("ts", .int ts), ("body", .str body)]) := by
  set close : List Char := ['\x7d'] with hclose
  set tail := ',' :: ' ' :: '"' :: (strTail "body".toList ++ ':' :: ' ' ::
    (chars (.str body) ++ close)) with htail
  set text := '\x7b' :: '"' :: (strTail "ts".toList ++ ':' :: ' ' :: (chars (.int ts) ++ tail))
    with htext
  obtain ⟨n, hn, hts, hbody⟩ : ∃ n, text.length = n + 3 ∧
      (chars (.int ts)).length ≤ n ∧ (chars (.str body)).length ≤ n := by
    refine ⟨text.length - 3, ?_, ?_, ?_⟩ <;>
      simp only [htext, htail, hclose, List.length_cons, List.length_append] <;> omega
  have hstop : Stop tail := .inr ⟨',', _, rfl, .inl rfl⟩
  have hstop' : Stop close := .inr ⟨'\x7d', [], rfl, .inr (.inr rfl)⟩
  have h1 := parseMember_spaced (k := "ts") (Json.plain_int ts)
    (parseValue_chars (.int ts) (n + 2) tail (Json.plain_int ts) hstop (by omega))
  have h2 := parseMember_spaced (k := "body") (Json.plain_str body)
    (parseValue_chars (.str body) (n + 1) close (Json.plain_str body) hstop' (by omega))
  have hq : ∀ cs, skipWs ('"' :: cs) = '"' :: cs := fun cs => by simp [skipWs]
  have hblank : ∀ cs, skipWs (' ' :: cs) = skipWs cs := fun cs => by simp [skipWs]
  have hmembers : parseMembers (n + 3) tail = some ([("body", .str body)], []) := by
    simp only [htail, parseMembers, hblank, hq, h2, Option.bind_eq_bind, Option.bind_some,
      skipWs_of_stop hstop']
    rfl
  have hvalue : parseValue (n + 4) text = some (.obj [("ts", .int ts), ("body", .str body)], []) := by
    simp only [htext, parseValue, hq, h1, Option.bind_eq_bind, Option.bind_some,
      skipWs_of_stop hstop, hmembers]
    rfl
  have hskip : skipWs text = text := by simp [htext, skipWs]
  simp only [loads, decodeUtf8_encodeUtf8, ok_bind, envelope, String.toList_ofList]
  rw [← hclose, ← htail, ← htext, hskip, hn, hvalue]
  rfl

/-- **What was encrypted under a key is decrypted under it.** -/
theorem decryptWithKey_encryptWithKey (hP : P.Correct) (key : Bytes) (w : Stamp) (body : String) :
    decryptWithKey P key (encryptWithKey P key w body) = .ok (.str body) := by
  have h12 : w.nonce.1.length = 12 := w.nonce.2
  simp [decryptWithKey, encryptWithKey, ← h12, hP.decrypt_encrypt, loads_envelope]

/-- A text that no reader of a file changes or splits. -/
def IsToken (t : String) : Prop := t ≠ "" ∧ ∀ c ∈ t.toList, 32 < c.toNat ∧ c.toNat < 127

theorem isToken_encryptWithKey (key : Bytes) (w : Stamp) (body : String) :
    IsToken (encryptWithKey P key w body) := by
  have hne : w.nonce.1 ≠ [] := by
    intro hnil
    have h12 := w.nonce.2
    rw [hnil] at h12
    cases h12
  refine ⟨b64encode_ne_empty fun h => hne (List.append_eq_nil_iff.mp h).1, fun c hc => ?_⟩
  exact (b64encode_chars _ c hc).1

theorem IsToken.strip {t : String} (h : IsToken t) : pyStrip t = t :=
  pyStrip_eq_self fun c hc => pySpace_of_range (h.2 c hc)

theorem IsToken.noBreak {t : String} (h : IsToken t) : ∀ c ∈ t.toList, isLineBreak c = false := by
  intro c hc
  have hrange := h.2 c hc
  simp only [isLineBreak, decide_eq_false_iff_not]
  omega

/-! ### Files -/

theorem strip_filter_tokens {tokens : List String} (h : ∀ t ∈ tokens, IsToken t) :
    (tokens.map pyStrip).filter (· ≠ "") = tokens := by
  have hmap : tokens.map pyStrip = tokens := by
    conv_rhs => rw [← List.map_id tokens]
    exact List.map_congr_left fun t ht => (h t ht).strip
  rw [hmap, List.filter_eq_self]
  intro t ht
  simpa using (h t ht).1

/-- A file that was written holds the tokens that were written. -/
theorem fileTokens_fileText {lineMode : Bool} {tokens : List String}
    (h : ∀ t ∈ tokens, IsToken t) (hone : lineMode = false → tokens.length ≤ 1) :
    fileTokens lineMode (fileText lineMode tokens) = tokens := by
  cases lineMode with
  | true =>
    rw [fileTokens, fileText, if_pos rfl, if_pos rfl,
      splitlines_join fun t ht => (h t ht).noBreak, strip_filter_tokens h]
  | false =>
    rw [fileTokens, fileText, if_neg (by simp), if_neg (by simp)]
    match tokens, hone rfl with
    | [], _ => decide
    | [t], _ =>
      have ht := h t List.mem_cons_self
      simp [ht.strip, ht.1]

/-- The tokens are encryptions of the texts under a key. -/
def Sealed (key : Bytes) (tokens bodies : List String) : Prop :=
  List.Forall₂ (fun t body => ∃ w, t = encryptWithKey P key w body) tokens bodies

theorem Sealed.isToken {key : Bytes} {tokens bodies : List String}
    (h : Sealed (P := P) key tokens bodies) : ∀ t ∈ tokens, IsToken t := by
  induction h with
  | nil => simp
  | cons hhead _ ih =>
    obtain ⟨w, rfl⟩ := hhead
    intro t ht
    rcases List.mem_cons.mp ht with rfl | ht
    · exact isToken_encryptWithKey key w _
    · exact ih t ht

theorem Sealed.decrypt (hP : P.Correct) {key : Bytes} {tokens bodies : List String}
    (h : Sealed (P := P) key tokens bodies) :
    tokens.mapM (decryptWithKey P key) = .ok (bodies.map Json.str) := by
  induction h with
  | nil => rfl
  | cons hhead _ ih =>
    obtain ⟨w, rfl⟩ := hhead
    rw [List.mapM_cons, decryptWithKey_encryptWithKey hP, ih]
    rfl

theorem sealed_mapIdx (key : Bytes) (stamp : ℕ → Stamp) (bodies : List String) :
    Sealed (P := P) key (bodies.mapIdx fun j body => encryptWithKey P key (stamp j) body) bodies := by
  induction bodies generalizing stamp with
  | nil => exact .nil
  | cons body bodies ih =>
    rw [List.mapIdx_cons]
    exact .cons ⟨stamp 0, rfl⟩ (ih fun j => stamp (j + 1))

/-- **A file that was written under a key holds, under that key, what was written.** -/
theorem fileEntries_fileText (hP : P.Correct) {key : Bytes} {lineMode : Bool}
    {tokens bodies : List String} (h : Sealed (P := P) key tokens bodies)
    (hone : lineMode = false → bodies.length ≤ 1) :
    fileEntries P key lineMode (fileText lineMode tokens) = .ok (bodies.map Json.str) := by
  have hlen : tokens.length = bodies.length := List.Forall₂.length_eq h
  rw [fileEntries, fileTokens_fileText h.isToken fun hm => hlen ▸ hone hm, h.decrypt hP]

end SecChat
