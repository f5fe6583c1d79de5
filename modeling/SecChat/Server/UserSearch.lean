import SecChat.Library.Like
import SecChat.Library.Utf8Text
import SecChat.Server.ListFrames

/-!
# The search for users (`user_repo.c`)

What is searched for goes into a pattern of `LIKE`, and what would be a sign in it gets a backslash.  Names
often have a `_`, which is a sign.

* `likeEsc`, `likePattern`: the pattern, built in buffers of fixed size;
* `sqlRows`: the statement;
* `likePattern_encode`: nothing is cut off, and the characters of the pattern;
* `search_eq`: a search lists those whose names have the text in them, whatever signs it has.

How the collation compares two characters is a parameter.
-/

namespace SecChat.UserSearch

open CText ListFrames Like Utf8Text

/-! ### The pattern -/

/-- `src[i] == '%' || src[i] == '_' || src[i] == '\\'`. -/
def special (c : UInt8) : Bool := c = octet '%' ∨ c = octet '_' ∨ c = octet '\\'

/-- The loop of `like_esc`, from the offset `j` on. -/
def likeEscLoop (dstsz : ℕ) : ℕ → Text → Text
  | _, [] => []
  | j, c :: src =>
      if j + 3 < dstsz then
        if special c then octet '\\' :: c :: likeEscLoop dstsz (j + 2) src
        else c :: likeEscLoop dstsz (j + 1) src
      else []

/-- `like_esc`. -/
def likeEsc (src : Text) (dstsz : ℕ) : Text := likeEscLoop dstsz 0 src

/-- `snprintf(like_pat, 275, "%%%s%%", like_q)`. -/
def likePattern (query : Text) : Text := (octet '%' :: (likeEsc query 270 ++ [octet '%'])).take 274

/-! ### The statement -/

/-- The signs of `LIKE ? ESCAPE '\\'`. -/
def signs : Signs Char := ⟨'%', '_', '\\', by decide⟩

/-- The characters of a text in UTF-8. -/
def decode (t : Text) : Option (List Char) := t.toByteArray.utf8Decode?.map Array.toList

/-- A row of `users`: what a search copies, and the characters of the name. -/
structure Row where
  record : UserRecord
  name : List Char
  isName : encode name = record.username.text

/-- `SELECT ... WHERE username LIKE ? ESCAPE '\\' AND id != ? LIMIT 20`; the rows are in the order in which
the database finds them. -/
def sqlRows (same : Char → Char → Bool) (users : List Row) (excludeUid : ℤ) (pattern : Text) :
    List UserRecord :=
  ((users.filter fun r =>
    (decode pattern).any (fun p => like same (signs.items p) r.name) ∧ r.record.id ≠ excludeUid).take
      20).map Row.record

theorem decode_encode (cs : List Char) : decode (encode cs) = some cs := by
  have h : (encode cs).toByteArray.utf8Decode? = some cs.toArray := List.utf8Decode?_utf8Encode
  rw [decode, h]
  rfl

/-! ### Nothing is cut off -/

/-- What `like_esc` writes into a buffer that is large enough. -/
theorem likeEscLoop_eq {dstsz j : ℕ} {src : Text} (h : j + 2 * src.length + 1 < dstsz) :
    likeEscLoop dstsz j src = src.flatMap fun c => if special c then [octet '\\', c] else [c] := by
  induction src generalizing j with
  | nil => rfl
  | cons c src ih =>
    rw [List.length_cons] at h
    rw [likeEscLoop, if_pos (by omega), List.flatMap_cons]
    split_ifs
    · rw [ih (by omega)]
      rfl
    · rw [ih (by omega)]
      rfl

theorem length_likeEscLoop (dstsz j : ℕ) (src : Text) :
    (likeEscLoop dstsz j src).length ≤ 2 * src.length := by
  induction src generalizing j with
  | nil => exact le_rfl
  | cons c src ih =>
    have h1 := ih (j + 1)
    have h2 := ih (j + 2)
    rw [likeEscLoop]
    split_ifs <;> simp only [List.length_cons, List.length_nil] <;> omega

/-! ### Characters -/

/-- An octet of a sign is the whole of its character. -/
theorem sign_of_special {c : Char} {b : UInt8} (hb : b ∈ String.utf8EncodeChar c) (h : special b = true) :
    c = '%' ∨ c = '_' ∨ c = '\\' := by
  have hchar (d : Char) (hd : String.utf8EncodeChar d = [b]) (hlt : b < 0x80) : c = d :=
    (encodeChar_append_inj (congrArg (· ++ []) ((ascii_octet hb hlt).trans hd.symm))).1
  rw [special, decide_eq_true_iff] at h
  rcases h with rfl | rfl | rfl
  · exact .inl (hchar '%' (by decide) (by decide))
  · exact .inr (.inl (hchar '_' (by decide) (by decide)))
  · exact .inr (.inr (hchar '\\' (by decide) (by decide)))

/-- To escape the octets is to escape the characters. -/
theorem encode_escaped (q : List Char) :
    encode (signs.escaped q) =
      (encode q).flatMap fun c => if special c then [octet '\\', c] else [c] := by
  induction q with
  | nil => rfl
  | cons c q ih =>
    rw [Signs.escaped, List.flatMap_cons, ← Signs.escaped, encode_append, ih, encode_cons, List.flatMap_append]
    refine congrArg (· ++ _) ?_
    split_ifs with hc
    · rcases hc with rfl | rfl | rfl <;> decide
    · have hplain : ∀ b ∈ String.utf8EncodeChar c, special b = false := fun b hb =>
        Bool.eq_false_iff.mpr fun h => hc (sign_of_special hb h)
      rw [List.flatMap_congr fun b hb => if_neg (Bool.not_eq_true _ ▸ hplain b hb), List.flatMap_singleton']
      simp

/-- The pattern as the database reads it. -/
theorem likePattern_encode {q : List Char} (h : (encode q).length < 128) :
    likePattern (encode q) = encode (signs.many :: (signs.escaped q ++ [signs.many])) := by
  have hlen := length_likeEscLoop 270 0 (encode q)
  have hmany : encode [signs.many] = [octet '%'] := by decide
  rw [likePattern, List.take_of_length_le, likeEsc, likeEscLoop_eq (by omega), ← encode_escaped,
    ← List.singleton_append, ← List.singleton_append (x := signs.many), encode_append, encode_append, hmany]
  rw [likeEsc, List.length_cons, List.length_append, List.length_singleton]
  omega

/-- **A search.** Whatever signs the text has that is searched for, those are found whose names have it in
them, up to twenty of them and without the user who searches; a text of less than two octets finds nobody. -/
theorem search_eq (same : Char → Char → Bool) (users : List Row) (me : ℤ) (q : List Char)
    (query : CStr 128) (hq : query.text = encode q) :
    searchRows query.text true (sqlRows same users me (likePattern query.text)) =
      if query.text.length < 2 then []
      else ((users.filter fun r => contains same q r.name ∧ r.record.id ≠ me).take 20).map Row.record := by
  have hlen : (encode q).length < 128 := hq ▸ query.fits
  rw [searchRows, userRepoSearch]
  by_cases h2 : query.text.length < 2
  · rw [if_pos h2, if_pos h2, ite_self]
  · have hne : ¬ (query.text = [] ∨ true = false) := by
      rintro (h | h)
      · exact h2 (by rw [h]; decide)
      · cases h
    rw [if_neg hne, if_neg h2, if_neg h2, fetched, sqlRows, hq, likePattern_encode hlen, decode_encode,
      List.take_of_length_le (by rw [List.length_map]; exact List.length_take_le 20 _)]
    simp only [Option.any_some, like_escaped]

/-- A user whose name has only ASCII characters. -/
def user (id : ℤ) (name : List Char) (h0 : 0 ∉ encode name) (hlen : (encode name).length < 65) : Row :=
  ⟨⟨id, ⟨encode name, h0, hlen⟩, ⟨[], List.not_mem_nil, by decide⟩, .online⟩, name, rfl⟩

/-- The sign is searched for as a character. -/
theorem search_eq_underscore :
    (searchRows (ascii "a_") true (sqlRows (· == ·)
      [user 1 ['a', '_', 'b'] (by decide) (by decide), user 2 ['a', 'c', 'b'] (by decide) (by decide)] 7
      (likePattern (ascii "a_")))).map UserRecord.id = [1] :=
  (congrArg (List.map UserRecord.id) (search_eq (· == ·)
    [user 1 ['a', '_', 'b'] (by decide) (by decide), user 2 ['a', 'c', 'b'] (by decide) (by decide)] 7
    ['a', '_'] ⟨ascii "a_", by decide, by decide⟩ (by decide))).trans (by decide)

end SecChat.UserSearch
