import SecChat.Library.JsonFormat

/-!
# Texts in UTF-8

A text is valid when it is the encoding of some characters.  The encodings of the characters are a prefix
code, and an ASCII octet is never part of a longer one, so an ASCII octet splits a text into two that are
valid exactly when the text is.  A JSON text is held together by such octets.

* `encode`, `Valid`: the octets of some characters;
* `encodeChar_append_inj`, `valid_append_of_valid`: the first character of a text is determined;
* `valid_append_ascii`: an ASCII octet splits a text;
* `valid_objText`, `valid_arrText`, `valid_fmt`, `valid_list`: the texts that are put together.
-/

namespace Utf8Text

open CText JsonReader

/-- The octets of some characters. -/
def encode (cs : List Char) : Text := cs.flatMap String.utf8EncodeChar

/-- Valid UTF-8. -/
def Valid (t : Text) : Prop := ∃ cs, encode cs = t

/-- Only ASCII octets. -/
def Ascii (t : Text) : Prop := ∀ c ∈ t, c < 0x80

instance (t : Text) : Decidable (Ascii t) := List.decidableBAll (· < 0x80) t

@[simp] theorem encode_nil : encode [] = [] := rfl

@[simp] theorem encode_cons (c : Char) (cs : List Char) :
    encode (c :: cs) = String.utf8EncodeChar c ++ encode cs := rfl

@[simp] theorem encode_append (cs ds : List Char) : encode (cs ++ ds) = encode cs ++ encode ds := by
  simp [encode]

theorem valid_encode (cs : List Char) : Valid (encode cs) := ⟨cs, rfl⟩

@[simp] theorem valid_nil : Valid [] := ⟨[], rfl⟩

/-! ### Characters -/

theorem utf8EncodeChar_ne_nil (c : Char) : String.utf8EncodeChar c ≠ [] := by
  intro h
  have hlen := congrArg List.length h
  rw [String.length_utf8EncodeChar] at hlen
  have hpos := c.utf8Size_pos
  simp at hlen
  omega

/-- A character is one octet, or none of its octets is ASCII. -/
theorem ascii_octet {c : Char} {b : UInt8} (hmem : b ∈ String.utf8EncodeChar c) (hb : b < 0x80) :
    String.utf8EncodeChar c = [b] := by
  rw [UInt8.lt_iff_toNat_lt] at hb
  unfold String.utf8EncodeChar at hmem ⊢
  dsimp only at hmem ⊢
  split_ifs at hmem ⊢
  · rw [List.mem_singleton.mp hmem]
  all_goals
    exfalso
    simp only [List.mem_cons, List.not_mem_nil, or_false] at hmem
    rcases hmem with rfl | rfl | rfl | rfl
    all_goals
      simp at hb
      omega

theorem utf8EncodeChar_ascii {b : UInt8} (hb : b < 0x80) :
    String.utf8EncodeChar (Char.ofNat b.toNat) = [b] := by
  rw [UInt8.lt_iff_toNat_lt] at hb
  have hlt : b.toNat < 128 := hb
  have hval : (Char.ofNat b.toNat).val.toNat = b.toNat := by
    rw [Char.ofNat, dif_pos (Or.inl (by omega))]
    rfl
  unfold String.utf8EncodeChar
  dsimp only
  rw [hval, if_pos (by omega), UInt8.ofNat_toNat]

/-- **The encodings are a prefix code.** -/
theorem encodeChar_append_inj {c d : Char} {t u : Text}
    (h : String.utf8EncodeChar c ++ t = String.utf8EncodeChar d ++ u) : c = d ∧ t = u := by
  have hc := @ByteArray.utf8DecodeChar?_utf8EncodeChar_append t.toByteArray c
  have hd := @ByteArray.utf8DecodeChar?_utf8EncodeChar_append u.toByteArray d
  rw [← List.toByteArray_append] at hc hd
  rw [h, hd] at hc
  obtain rfl := Option.some.inj hc
  exact ⟨rfl, List.append_cancel_left h⟩

/-- What follows a valid text is valid exactly when the whole is. -/
theorem valid_append_of_valid {t u : Text} (h : Valid t) : Valid (t ++ u) ↔ Valid u := by
  obtain ⟨cs, rfl⟩ := h
  constructor
  · rintro ⟨ds, hds⟩
    induction cs generalizing ds with
    | nil => exact ⟨ds, hds⟩
    | cons c cs ih =>
      rw [encode_cons, List.append_assoc] at hds
      cases ds with
      | nil => exact absurd (List.append_eq_nil_iff.mp hds.symm).1 (utf8EncodeChar_ne_nil c)
      | cons d ds => exact ih ds (encodeChar_append_inj hds).2
  · rintro ⟨ds, rfl⟩
    rw [← encode_append]
    exact valid_encode _

theorem Valid.append {t u : Text} (ht : Valid t) (hu : Valid u) : Valid (t ++ u) :=
  (valid_append_of_valid ht).mpr hu

/-- A part of the octets of a character is not valid. -/
theorem not_valid_take {c : Char} {n : ℕ} (hpos : 0 < n) (hlt : n < c.utf8Size) :
    ¬ Valid ((String.utf8EncodeChar c).take n) := by
  rintro ⟨ds, hds⟩
  have hlen := congrArg List.length hds
  rw [List.length_take, String.length_utf8EncodeChar] at hlen
  cases ds with
  | nil =>
    simp at hlen
    omega
  | cons d ds =>
    have hsplit : String.utf8EncodeChar c ++ [] =
        String.utf8EncodeChar d ++ (encode ds ++ (String.utf8EncodeChar c).drop n) := by
      rw [← List.append_assoc, ← encode_cons, hds, List.take_append_drop, List.append_nil]
    obtain ⟨rfl, -⟩ := encodeChar_append_inj hsplit
    rw [encode_cons, List.length_append, String.length_utf8EncodeChar] at hlen
    omega

/-! ### ASCII -/

theorem valid_singleton {b : UInt8} (hb : b < 0x80) : Valid [b] :=
  ⟨[Char.ofNat b.toNat], by rw [encode_cons, utf8EncodeChar_ascii hb]; rfl⟩

theorem Ascii.valid {t : Text} (h : Ascii t) : Valid t := by
  induction t with
  | nil => exact valid_nil
  | cons b t ih => exact (valid_singleton (h b (by simp))).append (ih fun c hc => h c (by simp [hc]))

/-- **An ASCII octet splits a text.** -/
theorem valid_append_ascii {b : UInt8} (hb : b < 0x80) (t u : Text) :
    Valid (t ++ b :: u) ↔ Valid t ∧ Valid u := by
  constructor
  · rintro ⟨cs, hcs⟩
    induction cs generalizing t with
    | nil => exact absurd hcs.symm (by simp)
    | cons c cs ih =>
      rw [encode_cons] at hcs
      rcases List.append_eq_append_iff.mp hcs with ⟨t', rfl, hrest⟩ | ⟨t', hc, hrest⟩
      · -- the octet comes after the first character
        obtain ⟨ht', hu⟩ := ih t' hrest
        exact ⟨Valid.append ⟨[c], by simp⟩ ht', hu⟩
      · cases t' with
        | nil =>
          obtain ⟨-, hu⟩ := ih [] hrest.symm
          rw [List.append_nil] at hc
          exact ⟨⟨[c], by simp [hc]⟩, hu⟩
        | cons b' t' =>
          -- the octet is the first character
          obtain ⟨rfl, rfl⟩ := List.cons.inj hrest
          have hone := ascii_octet (c := c) (b := b) (by simp [hc]) hb
          rw [hone] at hc
          obtain ⟨rfl, hnil⟩ : t = [] ∧ t' = [] := by
            have hlen := congrArg List.length hc
            simp only [List.length_append, List.length_cons, List.length_nil] at hlen
            exact ⟨List.length_eq_zero_iff.mp (by omega), List.length_eq_zero_iff.mp (by omega)⟩
          rw [hnil]
          exact ⟨valid_nil, cs, rfl⟩
  · rintro ⟨ht, hu⟩
    exact ht.append ((valid_singleton hb).append hu)

theorem valid_cons_ascii {b : UInt8} (hb : b < 0x80) (t : Text) : Valid (b :: t) ↔ Valid t :=
  valid_append_of_valid (valid_singleton hb)

/-- Some ASCII octets split a text. -/
theorem valid_append_ascii_append {s : Text} (hs : Ascii s) (hne : s ≠ []) (t u : Text) :
    Valid (t ++ (s ++ u)) ↔ Valid t ∧ Valid u := by
  cases s with
  | nil => exact absurd rfl hne
  | cons b s =>
    have hrest : Ascii s := fun c hc => hs c (by simp [hc])
    rw [List.cons_append, valid_append_ascii (hs b (by simp)), valid_append_of_valid hrest.valid]

/-- ASCII octets at the end make no difference. -/
theorem valid_append_of_ascii {u : Text} (h : Ascii u) (t : Text) : Valid (t ++ u) ↔ Valid t := by
  cases u with
  | nil => rw [List.append_nil]
  | cons b u =>
    have hrest : Ascii u := fun c hc => h c (by simp [hc])
    rw [valid_append_ascii (h b (by simp)), and_iff_left hrest.valid]

theorem ascii_digits (n : ℕ) : Ascii (digits n) := by
  induction n using Nat.strong_induction_on with
  | _ n ih =>
    by_cases h : n < 10
    · rw [digits_of_lt h]
      interval_cases n <;> decide
    · have hlast : Ascii (digits (n % 10)) := ih (n % 10) (by omega)
      rw [digits_of_le (by omega)]
      exact fun c hc => (List.mem_append.mp hc).elim (ih (n / 10) (by omega) c) (hlast c)

theorem ascii_dec (n : ℤ) : Ascii (dec n) := by
  cases n with
  | ofNat n => exact ascii_digits n
  | negSucc n => exact List.forall_mem_cons.mpr ⟨by decide, ascii_digits (n + 1)⟩

/-! ### JSON texts -/

theorem valid_quoted (t : Text) : Valid (quoted t) ↔ Valid t := by
  rw [quoted, List.cons_append, valid_cons_ascii (by decide), valid_append_ascii (by decide),
    and_iff_left valid_nil]

theorem valid_memberText (key t : Text) : Valid (memberText key t) ↔ Valid key ∧ Valid t := by
  rw [memberText, valid_append_ascii (by decide), valid_quoted]

theorem valid_append_flatMap (t : Text) (ts : List Text) :
    Valid (t ++ ts.flatMap (comma :: ·)) ↔ Valid t ∧ ∀ u ∈ ts, Valid u := by
  induction ts generalizing t with
  | nil => simp
  | cons u ts ih =>
    rw [List.flatMap_cons, List.cons_append, valid_append_ascii (by decide), ih, List.forall_mem_cons]

theorem valid_join (ts : List Text) : Valid (join ts) ↔ ∀ t ∈ ts, Valid t := by
  cases ts with
  | nil => simp [join]
  | cons t ts => rw [join, valid_append_flatMap, List.forall_mem_cons]

theorem valid_arrText (ts : List Text) : Valid (arrText ts) ↔ ∀ t ∈ ts, Valid t := by
  rw [arrText, valid_cons_ascii (by decide), valid_append_of_ascii (by decide), valid_join]

theorem valid_objText (ms : List (Text × Text)) :
    Valid (objText ms) ↔ ∀ m ∈ ms, Valid m.1 ∧ Valid m.2 := by
  rw [objText, valid_cons_ascii (by decide), valid_append_of_ascii (by decide), valid_join]
  simp only [List.forall_mem_map, valid_memberText]

/-- The text of a value that takes no argument. -/
def literal : Slot → Text
  | .fixed t => ascii t
  | .raw | .str => []

/-- A layout with ASCII keys and ASCII texts between its arguments. -/
def AsciiLayout (l : Layout) : Prop := ∀ m ∈ l, Ascii (ascii m.1) ∧ Ascii (literal m.2)

instance (l : Layout) : Decidable (AsciiLayout l) :=
  inferInstanceAs (Decidable (∀ m ∈ l, Ascii (ascii m.1) ∧ Ascii (literal m.2)))

/-- Members are valid when the arguments are. -/
theorem valid_members {l : Layout} (hl : AsciiLayout l) (args : List Text) (h : args.length = l.arity) :
    (∀ m ∈ l.members args, Valid m.1 ∧ Valid m.2) ↔ ∀ a ∈ args, Valid a := by
  induction l generalizing args with
  | nil =>
    obtain rfl := List.length_eq_zero_iff.mp h
    simp [Layout.members, Layout.keys]
  | cons m l ih =>
    obtain ⟨⟨hkey, hslot⟩, hrest⟩ := List.forall_mem_cons.mp hl
    have hmembers : ∀ args, Layout.members (m :: l) args =
        (ascii m.1, m.2.text args) :: Layout.members l (args.drop m.2.arity) := fun args => rfl
    have harity : Layout.arity (m :: l) = m.2.arity + Layout.arity l := rfl
    rw [hmembers, List.forall_mem_cons, and_iff_right hkey.valid, ih hrest _ (by simp [h, harity])]
    rw [harity] at h
    cases hm : m.2 with
    | fixed t =>
      rw [hm] at hslot
      have hfixed : Valid (ascii t) := Ascii.valid hslot
      simp [Slot.text, Slot.arity, hfixed]
    | raw =>
      rw [hm] at h
      cases args with
      | nil =>
        simp only [List.length_nil, Slot.arity] at h
        omega
      | cons a args => simp [Slot.text, Slot.arity]
    | str =>
      rw [hm] at h
      cases args with
      | nil =>
        simp only [List.length_nil, Slot.arity] at h
        omega
      | cons a args => simp [Slot.text, Slot.arity, valid_quoted]

/-- **A printed object** is valid exactly when its arguments are. -/
theorem valid_fmt {format : String} {cs : List Char} {args : List Text} (l : Layout)
    (hcs : format = String.ofList cs) (h : directives cs = l.directives) (hl : AsciiLayout l)
    (hargs : args.length = l.arity) : Valid (fmt format args) ↔ ∀ a ∈ args, Valid a := by
  rw [fmt_eq_objText l args hcs h, valid_objText, valid_members hl args hargs]

/-- **An object with a list** is valid exactly when its arguments, its rows and what follows them are. -/
theorem valid_list {format key : String} {cs : List Char} {args rows : List Text}
    {rest : List (Text × Text)} (l : Layout) (hcs : format = String.ofList cs)
    (h : directives cs = l.opened key) (hl : AsciiLayout l) (hargs : args.length = l.arity)
    (hkey : Ascii (ascii key)) :
    Valid (listText (fmt format args) rows (closeText rest)) ↔
      (∀ a ∈ args, Valid a) ∧ (∀ row ∈ rows, Valid row) ∧ ∀ m ∈ rest, Valid m.1 ∧ Valid m.2 := by
  rw [listText_eq_objText l args rows rest hcs h, valid_objText, List.forall_mem_append,
    valid_members hl args hargs, List.forall_mem_cons, and_iff_right hkey.valid, valid_arrText]

/-! ### ASCII in formats -/

theorem Ascii.append {t u : Text} (ht : Ascii t) (hu : Ascii u) : Ascii (t ++ u) :=
  fun c hc => (List.mem_append.mp hc).elim (ht c) (hu c)

theorem ascii_fill {ds : List (Option UInt8)} {args : List Text} (hds : ∀ d ∈ ds, d.all (· < 0x80) = true)
    (hargs : ∀ a ∈ args, Ascii a) : Ascii (fill ds args) := by
  induction ds generalizing args with
  | nil => simp [fill, Ascii]
  | cons d ds ih =>
    have hrest : ∀ d ∈ ds, d.all (· < 0x80) = true := fun d hd => hds d (by simp [hd])
    cases d with
    | none =>
      cases args with
      | nil => exact ih hrest (by simp)
      | cons a args =>
        exact (hargs a (by simp)).append (ih hrest fun a ha => hargs a (by simp [ha]))
    | some c =>
      have hc : c < 0x80 := by simpa using hds (some c) (by simp)
      have hone : Ascii [c] := by simpa [Ascii] using hc
      exact hone.append (ih hrest hargs)

/-- An ASCII format of ASCII texts. -/
theorem ascii_fmt {format : String} {cs : List Char} {args : List Text} (hcs : format = String.ofList cs)
    (hds : (directives cs).all (·.all (· < 0x80)) = true) (hargs : ∀ a ∈ args, Ascii a) :
    Ascii (fmt format args) := by
  rw [fmt_ofList hcs]
  exact ascii_fill (List.all_eq_true.mp hds) hargs

theorem ascii_join {ts : List Text} (h : ∀ t ∈ ts, Ascii t) : Ascii (join ts) := by
  cases ts with
  | nil => simp [join, Ascii]
  | cons t ts =>
    refine (h t (by simp)).append fun c hc => ?_
    simp only [List.mem_flatMap, List.mem_cons] at hc
    rcases hc with ⟨u, hu, rfl | hc⟩
    · decide
    · exact h u (by simp [hu]) c hc

/-- A list that is cut off among ASCII rows is valid exactly when all of it is. -/
theorem valid_take_listText {head tail : Text} {rows : List Text} {n : ℕ} (hn : head.length ≤ n)
    (hrows : ∀ row ∈ rows, Ascii row) (htail : Ascii tail) :
    Valid ((listText head rows tail).take n) ↔ Valid (listText head rows tail) := by
  have hrest : Ascii (join rows ++ tail) := (ascii_join hrows).append htail
  have hcut : Ascii ((join rows ++ tail).take (n - head.length)) :=
    fun c hc => hrest c (List.take_subset _ _ hc)
  rw [listText, List.take_append, List.take_of_length_le hn, valid_append_of_ascii hcut,
    valid_append_of_ascii hrest]

end Utf8Text
