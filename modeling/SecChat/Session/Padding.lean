import SecChat.Python.Utf8
import SecChat.Session.Client

/-!
# Padding

`pack_plaintext` wraps a text into JSON and fills it up with random octets in base64, so that the
length of the ciphertext should tell no more than a bucket.

* `packPlaintext`: the wrapper with its pad;
* `length_packPlaintext`: the length of what is packed, for any random octets;
* `slack`: what the pad leaves of the gap up to the bucket; the pad is too long where it is negative;
* `length_hidden_iff`: for which texts the packed lengths agree and stay within the bucket;
* `unpackPlaintext_packPlaintext`: the text comes out again.
-/

namespace SecChat.Padding

open Py

/-! ### Packing -/

/-- `_PAD_BUCKETS`. -/
def padBuckets : List ℕ := [256, 512, 1024, 2048, 4096, 8192, 16384]

/-- `_padding_bucket`. -/
def paddingBucket (n : ℕ) : ℕ := (padBuckets.find? fun bucket => n ≤ bucket).getD n

/-- `os.urandom`. -/
abbrev Random := (n : ℕ) → {raw : Bytes // raw.length = n}

/-- `base` with a pad. -/
def wrapper (body pad : String) : Json :=
  .obj [("_type", .str paddedMarker), ("body", .str body), ("pad", .str pad)]

/-- `json.dumps(base, ensure_ascii=False, separators=(",", ":"))`. -/
def wrapperText (body pad : String) : String := String.ofList (chars (wrapper body pad))

/-- `len(raw)`. -/
def rawLength (body : String) : ℕ := (encodeUtf8 (wrapperText body "")).length

/-- `pack_plaintext`.  For the gaps that there are, `int(gap * 0.72)` is what the exact product
gives. -/
def packPlaintext (urandom : Random) (body : String) : String :=
  let target := paddingBucket (rawLength body)
  if rawLength body < target then
    let need := max 1 ((target - rawLength body) * 18 / 25)
    wrapperText body (b64encode (urandom need).1)
  else wrapperText body ""

/-- The octets between the unpadded wrapper and its bucket. -/
def gap (body : String) : ℕ := paddingBucket (rawLength body) - rawLength body

/-- How many groups of four characters the pad of a gap has. -/
def padGroups (gap : ℕ) : ℕ := if gap = 0 then 0 else max 1 ((18 * gap + 50) / 75)

/-- What the pad leaves of a gap. -/
def slack (gap : ℕ) : ℤ := gap - 4 * padGroups gap

/-! ### Lengths -/

theorem le_paddingBucket (n : ℕ) : n ≤ paddingBucket n := by
  unfold paddingBucket
  cases hbucket : padBuckets.find? fun bucket => n ≤ bucket with
  | none => exact le_rfl
  | some bucket => simpa using List.find?_some hbucket

/-- Groups of three octets become groups of four characters. -/
theorem length_b64encode (raw : Bytes) :
    (b64encode raw).toList.length = 4 * ((raw.length + 2) / 3) := by
  have hsextets : (sextets raw).length + (4 - (sextets raw).length % 4) % 4 =
      4 * ((raw.length + 2) / 3) := by
    induction raw using sextets.induct with
    | case1 => rfl
    | case2 a => simp [sextets]
    | case3 a b => simp [sextets]
    | case4 a b c rest ih =>
      simp only [sextets, List.length_cons]
      omega
  rw [b64encode, String.toList_ofList, List.length_append, List.length_map, b64Pads,
    List.length_replicate]
  exact hsextets

theorem stdChar_ne_quote {n : ℕ} (h : n < 64) : stdChar n ≠ '"' ∧ stdChar n ≠ '\\' := by
  revert n
  decide

/-- An encoding needs no escapes in JSON. -/
theorem escChar_b64encode {raw : Bytes} {c : Char} (hc : c ∈ (b64encode raw).toList) :
    escChar c = [c] := by
  have hprintable : 32 ≤ c.toNat := (b64encode_chars raw c hc).1.1.le
  rw [b64encode, String.toList_ofList, List.mem_append] at hc
  rcases hc with hc | hc
  · obtain ⟨n, hn, rfl⟩ := List.mem_map.mp hc
    have hplain := stdChar_ne_quote (sextets_lt raw n hn)
    exact escChar_eq_self hplain.1 hplain.2 hprintable
  · obtain rfl := List.eq_of_mem_replicate hc
    rfl

/-- The wrapper up to the pad. -/
def beforePad (body : String) : List Char :=
  '\x7b' :: '"' :: (strTail "_type".toList ++ ':' :: '"' :: (strTail paddedMarker.toList ++
    ',' :: '"' :: (strTail "body".toList ++ ':' :: '"' :: (strTail body.toList ++
      ',' :: '"' :: (strTail "pad".toList ++ [':', '"'])))))

theorem chars_wrapper (body pad : String) :
    chars (wrapper body pad) = beforePad body ++ (pad.toList.flatMap escChar ++ ['"', '\x7d']) := by
  simp [wrapper, chars, membersTail, beforePad, strTail, List.append_assoc]

theorem length_wrapperText (body pad : String) :
    (encodeUtf8 (wrapperText body pad)).length =
      rawLength body + (encodeUtf8 (String.ofList (pad.toList.flatMap escChar))).length := by
  have hempty : (encodeUtf8 (String.ofList ("".toList.flatMap escChar))).length = 0 := rfl
  rw [rawLength, wrapperText, wrapperText, chars_wrapper, chars_wrapper, length_encodeUtf8_append,
    length_encodeUtf8_append, length_encodeUtf8_append, length_encodeUtf8_append, hempty]
  omega

/-- A pad is as long in the wrapper as on its own. -/
theorem length_pad (raw : Bytes) :
    (encodeUtf8 (String.ofList ((b64encode raw).toList.flatMap escChar))).length =
      4 * ((raw.length + 2) / 3) := by
  have hplain : (b64encode raw).toList.flatMap escChar = (b64encode raw).toList := by
    rw [List.flatMap_congr fun c hc => escChar_b64encode hc, List.flatMap_singleton']
  rw [hplain, length_encodeUtf8, length_b64encode]
  intro c hc
  have hprintable := (b64encode_chars raw c hc).1.2
  omega

/-- **What is packed** has a length that does not depend on the random octets. -/
theorem length_packPlaintext (urandom : Random) (body : String) :
    (encodeUtf8 (packPlaintext urandom body)).length = rawLength body + 4 * padGroups (gap body) := by
  have hle := le_paddingBucket (rawLength body)
  unfold packPlaintext padGroups gap
  dsimp only
  split
  · next hlt =>
    rw [length_wrapperText, length_pad, (urandom _).2, if_neg (by omega)]
    omega
  · next hge =>
    rw [if_pos (by omega)]
    rfl

/-- A gap that the pad does not overrun. -/
theorem slack_nonneg_iff (g : ℕ) :
    0 ≤ slack g ↔ g ∉ [1, 2, 3, 6, 7, 10, 11, 14, 15, 19, 23, 27, 31, 35, 39] := by
  by_cases hg : g < 75
  · revert g
    decide
  · have hsome : padGroups g = max 1 ((18 * g + 50) / 75) := if_neg (by omega)
    have hslack : 0 ≤ slack g := by
      rw [slack, hsome]
      omega
    simp only [hslack, true_iff, List.mem_cons, List.not_mem_nil, or_false, not_or]
    omega

/-! ### Two texts in one bucket -/

/-- The two texts are packed to one length within their bucket, whatever the random octets are. -/
def LengthHidden (body₁ body₂ : String) : Prop :=
  ∀ urandom₁ urandom₂ : Random,
    (encodeUtf8 (packPlaintext urandom₁ body₁)).length =
        (encodeUtf8 (packPlaintext urandom₂ body₂)).length ∧
      (encodeUtf8 (packPlaintext urandom₁ body₁)).length ≤ paddingBucket (rawLength body₁)

/-- Zeros. -/
def zeros : Random := fun n => ⟨List.replicate n 0, List.length_replicate⟩

theorem length_hidden_of_slack {body₁ body₂ : String}
    (hbucket : paddingBucket (rawLength body₁) = paddingBucket (rawLength body₂)) :
    LengthHidden body₁ body₂ ↔
      slack (gap body₁) = slack (gap body₂) ∧ 0 ≤ slack (gap body₁) := by
  have hle₁ := le_paddingBucket (rawLength body₁)
  have hle₂ := le_paddingBucket (rawLength body₂)
  have hlengths : LengthHidden body₁ body₂ ↔
      rawLength body₁ + 4 * padGroups (gap body₁) = rawLength body₂ + 4 * padGroups (gap body₂) ∧
        rawLength body₁ + 4 * padGroups (gap body₁) ≤ paddingBucket (rawLength body₁) := by
    constructor
    · intro h
      have hzeros := h zeros zeros
      rwa [length_packPlaintext, length_packPlaintext] at hzeros
    · intro h urandom₁ urandom₂
      rwa [length_packPlaintext, length_packPlaintext]
  have hgap₁ : rawLength body₁ + gap body₁ = paddingBucket (rawLength body₁) := by
    unfold gap
    omega
  have hgap₂ : rawLength body₂ + gap body₂ = paddingBucket (rawLength body₂) := by
    unfold gap
    omega
  rw [hlengths, slack, slack]
  omega

/-- **When a bucket hides the length.** What the pads leave of the two gaps agrees, and the first
gap is none of those that its pad overruns. -/
theorem length_hidden_iff (body₁ body₂ : String)
    (hbucket : paddingBucket (rawLength body₁) = paddingBucket (rawLength body₂)) :
    LengthHidden body₁ body₂ ↔
      slack (gap body₁) = slack (gap body₂) ∧
        gap body₁ ∉ [1, 2, 3, 6, 7, 10, 11, 14, 15, 19, 23, 27, 31, 35, 39] := by
  rw [length_hidden_of_slack hbucket, slack_nonneg_iff]

/-- Texts that differ by four octets, far from the end of their bucket. -/
theorem length_hidden_four : LengthHidden "" "abcd" := by
  have hfirst : rawLength "" = 53 := by decide +kernel
  have hsecond : rawLength "abcd" = 57 := by decide +kernel
  refine (length_hidden_iff "" "abcd" ?_).mpr ?_
  · rw [hfirst, hsecond]
    rfl
  · rw [gap, gap, hfirst, hsecond]
    decide

/-- One letter more, and one octet more. -/
theorem length_leaks :
    ¬ ∀ body₁ body₂ : String,
      paddingBucket (rawLength body₁) = paddingBucket (rawLength body₂) → LengthHidden body₁ body₂ := by
  intro hall
  have hfirst : rawLength "" = 53 := by decide +kernel
  have hsecond : rawLength "a" = 54 := by decide +kernel
  have hbucket : paddingBucket (rawLength "") = paddingBucket (rawLength "a") := by
    rw [hfirst, hsecond]
    rfl
  have hslack := ((length_hidden_of_slack hbucket).mp (hall "" "a" hbucket)).1
  rw [gap, gap, hfirst, hsecond] at hslack
  exact absurd hslack (by decide)

/-! ### Unpacking -/

theorem wrapper_plain (body pad : String) : (wrapper body pad).Plain := by
  simp [wrapper, Json.Plain, Json.PlainMembers]

theorem startsWith_wrapperText (body pad : String) :
    (wrapperText body pad).startsWith "\x7b" = true := by
  have hsplit : wrapperText body pad = "\x7b" ++ String.ofList ((chars (wrapper body pad)).tail) := by
    rw [← String.toList_inj, String.toList_append, wrapperText, chars_wrapper]
    simp only [String.toList_ofList]
    rfl
  rw [hsplit]
  exact startsWith_append _ _

theorem unpackPlaintext_wrapperText (body pad : String) :
    unpackPlaintext (wrapperText body pad) = body := by
  have hload : loads (encodeUtf8 (wrapperText body pad)) = .ok (wrapper body pad) :=
    loads_dumps (wrapper_plain body pad)
  rw [unpackPlaintext, if_pos (startsWith_wrapperText body pad), hload]
  rfl

/-- **Unpacking inverts packing**, for every text. -/
theorem unpackPlaintext_packPlaintext (urandom : Random) (body : String) :
    unpackPlaintext (packPlaintext urandom body) = body := by
  unfold packPlaintext
  dsimp only
  split
  · exact unpackPlaintext_wrapperText body _
  · exact unpackPlaintext_wrapperText body ""

end SecChat.Padding
