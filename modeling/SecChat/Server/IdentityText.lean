import SecChat.Audit.IdentityState
import SecChat.Library.CText
import SecChat.Server.IdentityStore

/-!
# The texts of identity keys

A key travels as base64, in the standard or the URL-safe alphabet, with or without pads.  The server
compares canonical texts or decodes with OpenSSL, and the client decodes and compares octets.

* `Spelling`, `Spelling.chars`: the four texts of a key;
* `b64DecodeAlloc`: the decoder of the server around `EVP_DecodeBlock`;
* `canonicalIdentity_chars`, `identityBytes_chars`, `b64DecodeAlloc_chars`: what the three
  implementations make of a text;
* `same_key_iff`: they agree with each other and with the octets.
-/

namespace SecChat.IdentityText

open Py IdentityStore

/-! ### Spellings -/

/-- How a key is written. -/
structure Spelling where
  urlsafe : Bool
  padded : Bool
  deriving DecidableEq, Repr

/-- The `n`-th character of the alphabet. -/
def Spelling.char (e : Spelling) (n : ℕ) : Char := if e.urlsafe then b64Char n else stdChar n

/-- The text of a key. -/
def Spelling.chars (e : Spelling) (raw : Bytes) : List Char :=
  (sextets raw).map e.char ++ if e.padded then b64Pads (sextets raw).length else []

/-- The text in Python. -/
def Spelling.str (e : Spelling) (raw : Bytes) : String := String.ofList (e.chars raw)

/-- The text in C. -/
def Spelling.octets (e : Spelling) (raw : Bytes) : Bytes := (e.chars raw).map CText.octet

/-! ### The decoder of the server -/

/-- The alphabet that `EVP_DecodeBlock` knows, without blanks. -/
def normChar (ch : UInt8) : Option UInt8 :=
  if ch = 13 ∨ ch = 10 ∨ ch = 32 ∨ ch = 9 then none
  else if ch = 45 then some 43
  else if ch = 95 then some 47
  else some ch

/-- `b64_decode_alloc`, where `decodeBlock` is `EVP_DecodeBlock`: the octets that it writes, or `none`
when it returns a negative number. -/
def b64DecodeAlloc (decodeBlock : Bytes → Option Bytes) (text : Bytes) : Option Bytes :=
  let norm := text.filterMap normChar
  let rem := norm.length % 4
  if rem = 1 then none
  else
    let norm := norm ++ List.replicate ((4 - rem) % 4) 61
    match decodeBlock norm with
    | none => none
    | some decoded =>
        -- the zero octets for the pads are cut off
        let eq := (norm.reverse.takeWhile fun ch => ch = 61).length
        if decoded.length < eq then none else some (decoded.take (decoded.length - eq))

/-- What `EVP_DecodeBlock` is documented to do: padded base64 in the standard alphabet is decoded, with
a zero octet for each pad. -/
def DecodesPadded (decodeBlock : Bytes → Option Bytes) : Prop :=
  ∀ raw, decodeBlock ((Spelling.mk false true).octets raw) =
    some (raw ++ List.replicate (b64Pads (sextets raw).length).length 0)

/-! ### Characters -/

theorem b64Char_or_stdChar (e : Spelling) {n : ℕ} (h : n < 64) :
    CText.octet (e.char n) = CText.octet (stdChar n) ∨
      CText.octet (e.char n) = 45 ∧ CText.octet (stdChar n) = 43 ∨
      CText.octet (e.char n) = 95 ∧ CText.octet (stdChar n) = 47 := by
  obtain ⟨urlsafe, padded⟩ := e
  cases urlsafe with
  | false => exact .inl rfl
  | true =>
    show CText.octet (b64Char n) = CText.octet (stdChar n) ∨
      CText.octet (b64Char n) = 45 ∧ CText.octet (stdChar n) = 43 ∨
      CText.octet (b64Char n) = 95 ∧ CText.octet (stdChar n) = 47
    revert n
    decide

/-- The octets of the standard alphabet are none of those that are replaced or left out. -/
theorem octet_stdChar {n : ℕ} (h : n < 64) :
    CText.octet (stdChar n) ∉ [45, 95, 61, 13, 10, 32, 9] := by
  revert n
  decide

/-- Whatever replaces `-` and `_` does not tell the two alphabets apart. -/
theorem apply_char {α : Type} (e : Spelling) {g : UInt8 → α} (hminus : g 45 = g 43)
    (hunder : g 95 = g 47) {n : ℕ} (h : n < 64) :
    g (CText.octet (e.char n)) = g (CText.octet (stdChar n)) := by
  rcases b64Char_or_stdChar e h with hsame | ⟨hchar, hplus⟩ | ⟨hchar, hslash⟩
  · rw [hsame]
  · rw [hchar, hplus, hminus]
  · rw [hchar, hslash, hunder]

theorem normChar_char (e : Spelling) {n : ℕ} (h : n < 64) :
    normChar (CText.octet (e.char n)) = some (CText.octet (stdChar n)) := by
  have hstd := octet_stdChar h
  simp only [List.mem_cons, not_or, List.not_mem_nil, not_false_eq_true, and_true] at hstd
  rw [apply_char e (g := normChar) rfl rfl h]
  simp [normChar, hstd]

theorem canonical_char (e : Spelling) {n : ℕ} (h : n < 64) :
    canonicalIdentity [CText.octet (e.char n)] = [CText.octet (stdChar n)] := by
  have hstd := octet_stdChar h
  simp only [List.mem_cons, not_or, List.not_mem_nil, not_false_eq_true, and_true] at hstd
  rw [apply_char e (g := fun ch => canonicalIdentity [ch]) rfl rfl h]
  simp [canonicalIdentity, hstd]

theorem canonicalIdentity_append (s t : Bytes) :
    canonicalIdentity (s ++ t) = canonicalIdentity s ++ canonicalIdentity t := List.filterMap_append ..

/-- The octets that stand for a key in every text. -/
def stdOctets (raw : Bytes) : Bytes := (sextets raw).map fun n => CText.octet (stdChar n)

theorem length_stdOctets (raw : Bytes) : (stdOctets raw).length = (sextets raw).length :=
  List.length_map ..

theorem stdOctets_eq_nil {raw : Bytes} : stdOctets raw = [] ↔ raw = [] := by
  rw [stdOctets, List.map_eq_nil_iff]
  constructor
  · intro h
    have hlen := urlsafeB64encode_eq_empty.mp (show urlsafeB64encode raw = "" by
      rw [urlsafeB64encode, h]
      rfl)
    exact hlen
  · rintro rfl
    rfl

/-- The value of an octet of the standard alphabet. -/
def octetVal (o : UInt8) : ℕ := (b64Val (Char.ofNat o.toNat)).getD 0

theorem octetVal_stdChar {n : ℕ} (h : n < 64) : octetVal (CText.octet (stdChar n)) = n := by
  revert n
  decide

/-- A key can be read off these octets. -/
theorem stdOctets_injective : Function.Injective stdOctets := by
  intro a b h
  have hval : ∀ raw, (stdOctets raw).map octetVal = sextets raw := by
    intro raw
    rw [stdOctets, List.map_map]
    conv_rhs => rw [← List.map_id (sextets raw)]
    exact List.map_congr_left fun n hn => octetVal_stdChar (sextets_lt raw n hn)
  have hsextets : sextets a = sextets b := by rw [← hval a, h, hval b]
  exact urlsafeB64encode_injective (by rw [urlsafeB64encode, urlsafeB64encode, hsextets])

/-- The pads of a text. -/
def Spelling.pads (e : Spelling) (raw : Bytes) : Bytes :=
  if e.padded then List.replicate (b64Pads (sextets raw).length).length 61 else []

theorem Spelling.octets_eq (e : Spelling) (raw : Bytes) :
    e.octets raw = (sextets raw).map (fun n => CText.octet (e.char n)) ++ e.pads raw := by
  unfold Spelling.octets Spelling.chars Spelling.pads
  rw [List.map_append, List.map_map]
  congr 1
  split
  · unfold b64Pads
    rw [List.map_replicate, List.length_replicate]
    rfl
  · rfl

/-! ### The three implementations -/

/-- **The canonical text** of a key is the same for all its texts. -/
theorem canonicalIdentity_chars (e : Spelling) (raw : Bytes) :
    canonicalIdentity (e.octets raw) = stdOctets raw := by
  rw [e.octets_eq, canonicalIdentity_append]
  have hpads : canonicalIdentity (e.pads raw) = [] := by
    unfold Spelling.pads
    split
    · generalize (b64Pads (sextets raw).length).length = n
      induction n with
      | zero => rfl
      | succ n ih => exact ih
    · rfl
  have hchars : ∀ ns : List ℕ, (∀ n ∈ ns, n < 64) →
      canonicalIdentity (ns.map fun n => CText.octet (e.char n)) =
        ns.map fun n => CText.octet (stdChar n) := by
    intro ns hns
    induction ns with
    | nil => rfl
    | cons n ns ih =>
      have hrest := ih fun m hm => hns m (List.mem_cons_of_mem _ hm)
      rw [List.map_cons, List.map_cons, ← hrest, ← List.singleton_append, canonicalIdentity_append,
        canonical_char e (hns n List.mem_cons_self)]
      rfl
  rw [hpads, List.append_nil, hchars _ (sextets_lt raw), stdOctets]

theorem length_b64Pads (n : ℕ) : (b64Pads n).length = (4 - n % 4) % 4 := List.length_replicate ..

/-- The padded text in the standard alphabet. -/
theorem octets_std (raw : Bytes) : (Spelling.mk false true).octets raw =
    stdOctets raw ++ List.replicate ((4 - (sextets raw).length % 4) % 4) 61 := by
  rw [Spelling.octets_eq, stdOctets, Spelling.pads, if_pos rfl, length_b64Pads]
  rfl

/-- The pads come to the text sooner or later. -/
theorem Spelling.chars_append_pads (e : Spelling) (raw : Bytes) :
    e.chars raw ++ b64Pads (e.chars raw).length =
      (sextets raw).map e.char ++ b64Pads (sextets raw).length := by
  unfold Spelling.chars
  split
  · rw [List.length_append, List.length_map, length_b64Pads]
    have hfull : b64Pads ((sextets raw).length + (4 - (sextets raw).length % 4) % 4) = [] := by
      rw [b64Pads, List.replicate_eq_nil_iff]
      omega
    rw [hfull, List.append_nil]
  · rw [List.append_nil, List.length_map]

theorem Spelling.char_range (e : Spelling) {n : ℕ} (h : n < 64) :
    32 < (e.char n).toNat ∧ (e.char n).toNat < 127 := by
  unfold Spelling.char
  split
  · revert n
    decide
  · exact stdChar_range h

theorem Spelling.chars_range (e : Spelling) (raw : Bytes) :
    ∀ c ∈ e.chars raw, 32 < c.toNat ∧ c.toNat < 127 := by
  intro c hc
  rcases List.mem_append.mp hc with hc | hc
  · obtain ⟨n, hn, rfl⟩ := List.mem_map.mp hc
    exact e.char_range (sextets_lt raw n hn)
  · split at hc
    · obtain rfl := List.eq_of_mem_replicate hc
      decide
    · cases hc

/-- The decoder of Python, for either alphabet. -/
theorem a2bBase64_char_pads (e : Spelling) (raw : Bytes) :
    a2bBase64 ⟨[], 0, 0, 0⟩ ((sextets raw).map e.char ++ b64Pads (sextets raw).length) = some raw := by
  have h := a2bBase64_sextets raw [] 0 rfl
  rw [Nat.zero_add, List.nil_append] at h
  obtain ⟨urlsafe, padded⟩ := e
  cases urlsafe with
  | false => exact (a2bBase64_stdChar (sextets_lt raw) _ _).trans h
  | true => exact h

/-- **The client** decodes every text of a key. -/
theorem identityBytes_chars (e : Spelling) (raw : Bytes) : identityBytes (e.str raw) = .ok raw := by
  have hlist : (e.str raw).toList = e.chars raw := String.toList_ofList
  have hstrip : pyStrip (e.str raw) = e.str raw := by
    refine pyStrip_eq_self fun c hc => pySpace_of_range ?_
    rw [hlist] at hc
    exact e.chars_range raw c hc
  have hascii : (e.chars raw).all (·.toNat < 128) = true := by
    rw [List.all_eq_true]
    intro c hc
    have hrange := e.chars_range raw c hc
    exact decide_eq_true (by omega)
  rw [identityBytes, hstrip, b64d, urlsafeB64decode, hlist, if_pos hascii, e.chars_append_pads,
    a2bBase64_char_pads]

/-- Base64 never ends one character after a full group. -/
theorem length_sextets_mod (raw : Bytes) : (sextets raw).length % 4 ≠ 1 := by
  induction raw using sextets.induct with
  | case1 => decide
  | case2 a => exact (by decide : 2 % 4 ≠ 1)
  | case3 a b => exact (by decide : 3 % 4 ≠ 1)
  | case4 a b c rest ih =>
    simp only [sextets, List.length_cons]
    omega

theorem filterMap_normChar (e : Spelling) (raw : Bytes) :
    (e.octets raw).filterMap normChar = stdOctets raw ++ e.pads raw := by
  rw [e.octets_eq, List.filterMap_append]
  congr 1
  · rw [List.filterMap_map, stdOctets, ← List.filterMap_eq_map]
    exact List.filterMap_congr fun n hn => normChar_char e (sextets_lt raw n hn)
  · unfold Spelling.pads
    split
    · exact List.filterMap_replicate_of_some (f := normChar) rfl
    · rfl

/-- The text that `EVP_DecodeBlock` gets. -/
theorem norm_eq (e : Spelling) (raw : Bytes) :
    let norm := (e.octets raw).filterMap normChar
    norm.length % 4 ≠ 1 ∧ norm ++ List.replicate ((4 - norm.length % 4) % 4) 61 =
      (Spelling.mk false true).octets raw := by
  have hmod := length_sextets_mod raw
  rw [filterMap_normChar, octets_std]
  dsimp only
  rw [List.length_append, length_stdOctets]
  unfold Spelling.pads
  split
  · rw [List.length_replicate, length_b64Pads]
    have hfull : ((sextets raw).length + (4 - (sextets raw).length % 4) % 4) % 4 = 0 := by omega
    rw [hfull]
    exact ⟨by decide, List.append_nil _⟩
  · rw [List.length_nil, Nat.add_zero, List.append_nil]
    exact ⟨hmod, rfl⟩

/-- Only the pads are pads. -/
theorem takeWhile_pads (raw : Bytes) (p : ℕ) :
    (((stdOctets raw ++ List.replicate p 61).reverse).takeWhile fun ch => ch = 61).length = p := by
  have hno : ∀ l : Bytes, (∀ ch ∈ l, ch ≠ 61) → (l.takeWhile fun ch => ch = 61) = [] := by
    intro l hl
    cases l with
    | nil => rfl
    | cons ch l => exact List.takeWhile_cons_of_neg (by simpa using hl ch List.mem_cons_self)
  have hlast : ((stdOctets raw).reverse.takeWhile fun ch => ch = 61) = [] := by
    refine hno _ fun ch hch hpad => ?_
    obtain ⟨n, hn, heq⟩ := List.mem_map.mp (List.mem_reverse.mp hch)
    have hnot := octet_stdChar (sextets_lt raw n hn)
    rw [heq, hpad] at hnot
    exact hnot (by decide)
  rw [List.reverse_append, List.reverse_replicate, List.takeWhile_append_of_pos, hlast,
    List.append_nil, List.length_replicate]
  intro ch hch
  exact decide_eq_true (List.eq_of_mem_replicate hch)

/-- **The server** decodes every text of a key. -/
theorem b64DecodeAlloc_chars {decodeBlock : Bytes → Option Bytes} (h : DecodesPadded decodeBlock)
    (e : Spelling) (raw : Bytes) : b64DecodeAlloc decodeBlock (e.octets raw) = some raw := by
  obtain ⟨hmod, hnorm⟩ := norm_eq e raw
  have hpads := takeWhile_pads raw (b64Pads (sextets raw).length).length
  unfold b64DecodeAlloc
  dsimp only
  rw [if_neg hmod, hnorm, h raw]
  dsimp only
  rw [octets_std, ← length_b64Pads, hpads, List.length_append, List.length_replicate, if_neg (by omega),
    Nat.add_sub_cancel, List.take_left]

/-! ### Agreement -/

/-- The comparison of the server. -/
theorem identityB64Equal_iff {a b : Bytes} (ha : a ≠ []) {e e' : Spelling}
    (hfits : (e.chars a).length ≤ 255) (hfits' : (e'.chars b).length ≤ 255) :
    identityB64Equal (e.octets a) (e'.octets b) = true ↔ a = b := by
  have hlen : ∀ (e : Spelling) (raw : Bytes), (e.chars raw).length ≤ 255 →
      (stdOctets raw).take 511 = stdOctets raw := by
    intro e raw h
    refine List.take_of_length_le ?_
    rw [length_stdOctets]
    unfold Spelling.chars at h
    rw [List.length_append, List.length_map] at h
    omega
  unfold identityB64Equal
  dsimp only
  rw [canonicalIdentity_chars, canonicalIdentity_chars, hlen e a hfits, hlen e' b hfits',
    decide_eq_true_iff]
  constructor
  · exact fun h => stdOctets_injective h.2.2
  · rintro rfl
    exact ⟨fun h => ha (stdOctets_eq_nil.mp h), fun h => ha (stdOctets_eq_nil.mp h), rfl⟩

/-- **Server and client agree** on whether two texts are the same key: they are when they stand for the
same octets, and the server gets these octets from each of them. -/
theorem same_key_iff (decodeBlock : Bytes → Option Bytes) (h : DecodesPadded decodeBlock)
    (a b : Bytes) (ha : a ≠ []) (e e' : Spelling)
    (hfits : (e.chars a).length ≤ 255) (hfits' : (e'.chars b).length ≤ 255) :
    (identityB64Equal (e.octets a) (e'.octets b) = true ↔ a = b) ∧
      sameIdentityKey (e.str a) (e'.str b) = identityB64Equal (e.octets a) (e'.octets b) ∧
      b64DecodeAlloc decodeBlock (e.octets a) = some a ∧
      b64DecodeAlloc decodeBlock (e'.octets b) = some b := by
  have hequal := identityB64Equal_iff ha hfits hfits'
  refine ⟨hequal, ?_, b64DecodeAlloc_chars h e a, b64DecodeAlloc_chars h e' b⟩
  rw [sameIdentityKey, identityBytes_chars, identityBytes_chars, Bool.eq_iff_iff, hequal]
  exact decide_eq_true_iff

/-! ### A decoder -/

/-- The value of an octet for `EVP_DecodeBlock`, where a pad counts as zero. -/
def evpVal (o : UInt8) : Option ℕ :=
  if o = 61 then some 0
  else if o = 45 ∨ o = 95 then none
  else b64Val (Char.ofNat o.toNat)

/-- `EVP_DecodeBlock` of a text without blanks. -/
def evpDecodeBlock : Bytes → Option Bytes
  | [] => some []
  | a :: b :: c :: d :: rest =>
      match evpVal a, evpVal b, evpVal c, evpVal d, evpDecodeBlock rest with
      | some w, some x, some y, some z, some out =>
          let n := ((w * 64 + x) * 64 + y) * 64 + z
          some (UInt8.ofNat (n / 65536) :: UInt8.ofNat (n / 256) :: UInt8.ofNat n :: out)
      | _, _, _, _, _ => none
  | _ => none

theorem evpVal_stdChar {n : ℕ} (h : n < 64) : evpVal (CText.octet (stdChar n)) = some n := by
  revert n
  decide

theorem evpDecodeBlock_cons {a b c d : UInt8} {rest out : Bytes} {w x y z : ℕ}
    (ha : evpVal a = some w) (hb : evpVal b = some x) (hc : evpVal c = some y) (hd : evpVal d = some z)
    (hout : evpDecodeBlock rest = some out) {p q r : UInt8}
    (hp : (((w * 64 + x) * 64 + y) * 64 + z) / 65536 % 256 = p.toNat)
    (hq : (((w * 64 + x) * 64 + y) * 64 + z) / 256 % 256 = q.toNat)
    (hr : (((w * 64 + x) * 64 + y) * 64 + z) % 256 = r.toNat) :
    evpDecodeBlock (a :: b :: c :: d :: rest) = some (p :: q :: r :: out) := by
  have hbyte : ∀ {n : ℕ} {o : UInt8}, n % 256 = o.toNat → UInt8.ofNat n = o :=
    fun h => UInt8.toNat_inj.mp (by simpa using h)
  rw [evpDecodeBlock, ha, hb, hc, hd, hout]
  dsimp only
  rw [hbyte hp, hbyte hq, hbyte hr]

/-- This decoder does what is documented. -/
theorem decodesPadded_evpDecodeBlock : DecodesPadded evpDecodeBlock := by
  have hpad : evpVal 61 = some 0 := rfl
  intro raw
  rw [octets_std, length_b64Pads, stdOctets]
  induction raw using sextets.induct with
  | case1 => rfl
  | case2 a =>
    have ha := a.toNat_lt
    exact evpDecodeBlock_cons (p := a) (q := 0) (r := 0) (evpVal_stdChar (by omega))
      (evpVal_stdChar (by omega)) hpad hpad rfl (by omega) (by show _ = 0; omega)
      (by show _ = 0; omega)
  | case3 a b =>
    have ha := a.toNat_lt
    have hb := b.toNat_lt
    exact evpDecodeBlock_cons (p := a) (q := b) (r := 0) (evpVal_stdChar (by omega))
      (evpVal_stdChar (by omega)) (evpVal_stdChar (by omega)) hpad rfl (by omega) (by omega)
      (by show _ = 0; omega)
  | case4 a b c rest ih =>
    have ha := a.toNat_lt
    have hb := b.toNat_lt
    have hc := c.toNat_lt
    have hlen : (sextets (a :: b :: c :: rest)).length = (sextets rest).length + 4 := rfl
    rw [hlen, Nat.add_mod_right]
    exact evpDecodeBlock_cons (evpVal_stdChar (by omega)) (evpVal_stdChar (by omega))
      (evpVal_stdChar (by omega)) (evpVal_stdChar (by omega)) ih (by omega) (by omega) (by omega)

/-- One key in the URL-safe alphabet without pads and in the standard one with them. -/
theorem same_key_iff_two_texts :
    (identityB64Equal ((Spelling.mk true false).octets [251, 239, 190, 255])
        ((Spelling.mk false true).octets [251, 239, 190, 255]) = true ↔
      ([251, 239, 190, 255] : Bytes) = [251, 239, 190, 255]) ∧
      sameIdentityKey ((Spelling.mk true false).str [251, 239, 190, 255])
          ((Spelling.mk false true).str [251, 239, 190, 255]) =
        identityB64Equal ((Spelling.mk true false).octets [251, 239, 190, 255])
          ((Spelling.mk false true).octets [251, 239, 190, 255]) ∧
      b64DecodeAlloc evpDecodeBlock ((Spelling.mk true false).octets [251, 239, 190, 255]) =
        some [251, 239, 190, 255] ∧
      b64DecodeAlloc evpDecodeBlock ((Spelling.mk false true).octets [251, 239, 190, 255]) =
        some [251, 239, 190, 255] :=
  same_key_iff evpDecodeBlock decodesPadded_evpDecodeBlock [251, 239, 190, 255] [251, 239, 190, 255]
    (by decide) ⟨true, false⟩ ⟨false, true⟩ (by decide) (by decide)

end SecChat.IdentityText
