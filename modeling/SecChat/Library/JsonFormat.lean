import SecChat.Library.JsonReader

/-!
# Objects printed with a format

A format whose text is an object is described by the keys of its members and by what stands for their
values.  That a format string is the one described is a computation; what the printed text is read as
follows from what its arguments are read as.

* `Slot`, `Layout`: the members of a format;
* `fmt_eq_objText`, `whole_fmt`: a printed object, and its value;
* `fmt_body`, `fmt_rest`: an object that is printed in several pieces;
* `Layout.opened`, `whole_list`: an object with an array whose items are printed one by one;
* `rowParts`, `listWrites`, `parse_writes_iff`: a text printed piece by piece into a buffer.
-/

namespace JsonReader

open CText

/-! ### Members -/

/-- What stands for the value of a member: a fixed text, an argument, or an argument in quotes. -/
inductive Slot
  | fixed (t : String)
  | raw
  | str
  deriving DecidableEq

/-- The members of a format, with their keys. -/
abbrev Layout := List (String × Slot)

/-- The arguments that a value takes. -/
def Slot.arity : Slot → ℕ
  | .fixed _ => 0
  | .raw | .str => 1

/-- The directives of a value. -/
def Slot.directives : Slot → List (Option UInt8)
  | .fixed t => (ascii t).map some
  | .raw => [none]
  | .str => [some quote, none, some quote]

/-- The text of a value. -/
def Slot.text (args : List Text) : Slot → Text
  | .fixed t => ascii t
  | .raw => args.headD []
  | .str => quoted (args.headD [])

/-- The directives of a member. -/
def memberDirectives (m : String × Slot) : List (Option UInt8) :=
  (quoted (ascii m.1) ++ [colon]).map some ++ m.2.directives

/-- The directives of some members with commas before them. -/
def restDirectives : Layout → List (Option UInt8)
  | [] => []
  | m :: ms => some comma :: memberDirectives m ++ restDirectives ms

/-- The directives of an object up to its end. -/
def Layout.body : Layout → List (Option UInt8)
  | [] => [some lbrace]
  | m :: ms => some lbrace :: memberDirectives m ++ restDirectives ms

/-- The directives of an object. -/
def Layout.directives (l : Layout) : List (Option UInt8) := l.body ++ [some rbrace]

/-- The texts of the values. -/
def Layout.texts : Layout → List Text → List Text
  | [], _ => []
  | m :: ms, args => m.2.text args :: Layout.texts ms (args.drop m.2.arity)

/-- The keys. -/
def Layout.keys (l : Layout) : List Text := l.map fun m => ascii m.1

/-- The arguments that are left for what follows the members. -/
def Layout.arity (l : Layout) : ℕ := (l.map fun m => m.2.arity).sum

/-! ### Printing -/

theorem fill_append (ds es : List (Option UInt8)) (args : List Text) :
    fill (ds ++ es) args = fill ds args ++ fill es (args.drop (ds.countP Option.isNone)) := by
  induction ds generalizing args with
  | nil => simp [fill]
  | cons d ds ih =>
    cases d with
    | none =>
      cases args with
      | nil => simp [fill, ih]
      | cons a args => simp [fill, ih]
    | some c => simp [fill, ih]

@[simp] theorem fill_map_some (t : Text) (args : List Text) : fill (t.map some) args = t := by
  induction t with
  | nil => rfl
  | cons c t ih => simp [fill, ih]

theorem countP_map_some (t : Text) : (t.map some).countP Option.isNone = 0 := by
  simp

theorem fill_slot (s : Slot) (args : List Text) : fill s.directives args = s.text args := by
  cases s with
  | fixed t => simp [Slot.directives, Slot.text]
  | raw => cases args <;> simp [Slot.directives, Slot.text, fill]
  | str => cases args <;> simp [Slot.directives, Slot.text, fill, quoted]

theorem countP_slot (s : Slot) : s.directives.countP Option.isNone = s.arity := by
  cases s <;> simp [Slot.directives, Slot.arity]

theorem fill_member (m : String × Slot) (args : List Text) :
    fill (memberDirectives m) args = memberText (ascii m.1) (m.2.text args) := by
  rw [memberDirectives, fill_append, fill_map_some, countP_map_some, List.drop_zero, fill_slot]
  simp [memberText]

theorem countP_member (m : String × Slot) :
    (memberDirectives m).countP Option.isNone = m.2.arity := by
  rw [memberDirectives, List.countP_append, countP_map_some, countP_slot, zero_add]

/-- Members as pairs of texts. -/
def Layout.members (l : Layout) (args : List Text) : List (Text × Text) :=
  l.keys.zip (l.texts args)

theorem fill_rest (ms : Layout) (args : List Text) :
    fill (restDirectives ms) args =
      ((ms.members args).map fun (key, t) => memberText key t).flatMap (comma :: ·) := by
  induction ms generalizing args with
  | nil => rfl
  | cons m ms ih =>
    have hcomma : ∀ ds, fill (some comma :: ds) args = comma :: fill ds args := fun ds => rfl
    rw [restDirectives, List.cons_append, hcomma, fill_append, fill_member, countP_member, ih]
    simp [Layout.members, Layout.keys, Layout.texts]

theorem fill_body (l : Layout) (args : List Text) :
    fill l.body args =
      lbrace :: join ((l.members args).map fun (key, t) => memberText key t) := by
  cases l with
  | nil => rfl
  | cons m ms =>
    have hbrace : ∀ ds, fill (some lbrace :: ds) args = lbrace :: fill ds args := fun ds => rfl
    rw [Layout.body, List.cons_append, hbrace, fill_append, fill_member, countP_member, fill_rest]
    simp [Layout.members, Layout.keys, Layout.texts, join]

/-- **A format with a layout prints an object.** -/
theorem fmt_eq_objText {format : String} {cs : List Char} (l : Layout) (args : List Text)
    (hcs : format = String.ofList cs) (h : directives cs = l.directives) :
    fmt format args = objText (l.members args) := by
  rw [fmt_ofList hcs, h, Layout.directives, fill_append, fill_body]
  rfl

/-- The keys of a layout stand for themselves. -/
def Layout.PlainKeys (l : Layout) : Prop := ∀ key ∈ l.keys, ∀ c ∈ key, Plain c

instance (l : Layout) : Decidable l.PlainKeys :=
  inferInstanceAs (Decidable (∀ key ∈ l.keys, ∀ c ∈ key, Plain c))

theorem memberReads_zip {keys ts : List Text} {vs : List Value} (hk : ∀ key ∈ keys, ∀ c ∈ key, Plain c)
    (h : List.Forall₂ Reads ts vs) : List.Forall₂ MemberReads (keys.zip ts) (keys.zip vs) := by
  induction h generalizing keys with
  | nil => simp
  | @cons t v ts vs hv hvs ih =>
    cases keys with
    | nil => simp
    | cons key keys =>
      simp only [List.zip_cons_cons]
      exact .cons ⟨content_of_plain (hk key (by simp)), hv⟩ (ih fun k hmem => hk k (by simp [hmem]))

/-- **What a printed object is read as.** -/
theorem whole_fmt {format : String} {cs : List Char} {args : List Text} {vs : List Value} (l : Layout)
    (hcs : format = String.ofList cs) (h : directives cs = l.directives) (hk : l.PlainKeys)
    (hvs : List.Forall₂ Reads (l.texts args) vs) :
    Whole (fmt format args) (.obj (l.keys.zip vs)) := by
  rw [fmt_eq_objText l args hcs h]
  exact whole_objText (memberReads_zip hk hvs)

/-! ### An object with a list -/

/-- The directives of an object up to the first item of its last member. -/
def Layout.opened (l : Layout) (key : String) : List (Option UInt8) :=
  Layout.body (l ++ [(key, .fixed "[")])

theorem Layout.members_concat (l : Layout) (m : String × Slot) (args : List Text) :
    Layout.members (l ++ [m]) args =
      l.members args ++ [(ascii m.1, m.2.text (args.drop l.arity))] := by
  induction l generalizing args with
  | nil => rfl
  | cons m' l ih =>
    simp only [members, keys, texts, arity, List.map_append, List.map_cons, List.map_nil,
      List.cons_append, List.zip_cons_cons, List.sum_cons] at ih ⊢
    rw [ih, List.drop_drop]

theorem join_concat_append (ts : List Text) (t u : Text) :
    join (ts ++ [t]) ++ u = join (ts ++ [t ++ u]) := by
  cases ts with
  | nil => simp [join]
  | cons t' ts => simp [join]

/-- Members with commas before them. -/
def restText (ms : List (Text × Text)) : Text :=
  (ms.map fun (key, t) => memberText key t).flatMap (comma :: ·)

/-- The end of a list, with the members that follow it. -/
def closeText (ms : List (Text × Text)) : Text := rbracket :: (restText ms ++ [rbrace])

/-- The rows of a list between its head and its end. -/
def listText (head : Text) (rows : List Text) (tail : Text) : Text := head ++ (join rows ++ tail)

theorem join_append {ts : List Text} (h : ts ≠ []) (us : List Text) :
    join (ts ++ us) = join ts ++ us.flatMap (comma :: ·) := by
  cases ts with
  | nil => exact absurd rfl h
  | cons t ts => simp [join]

/-- A format without the end of its object. -/
theorem fmt_body {format : String} {cs : List Char} (l : Layout) (args : List Text)
    (ms : List (Text × Text)) (hl : l ≠ []) (hcs : format = String.ofList cs)
    (h : directives cs = l.body) :
    fmt format args ++ (restText ms ++ [rbrace]) = objText (l.members args ++ ms) := by
  have hne : (l.members args).map (fun (key, t) => memberText key t) ≠ [] := by
    cases l with
    | nil => exact absurd rfl hl
    | cons m l => simp [Layout.members, Layout.keys, Layout.texts]
  rw [fmt_ofList hcs, h, fill_body, objText, List.map_append, join_append hne, restText]
  simp

/-- A format that goes on with more members. -/
theorem fmt_rest {format : String} {cs : List Char} (l : Layout) (args : List Text)
    (hcs : format = String.ofList cs) (h : directives cs = restDirectives l) :
    fmt format args = restText (l.members args) := by
  rw [fmt_ofList hcs, h, fill_rest, restText]

theorem listText_eq_objText {format key : String} {cs : List Char} (l : Layout)
    (args rows : List Text) (rest : List (Text × Text)) (hcs : format = String.ofList cs)
    (h : directives cs = l.opened key) :
    listText (fmt format args) rows (closeText rest) =
      objText (l.members args ++ (ascii key, arrText rows) :: rest) := by
  have hrow : memberText (ascii key) (ascii "[") ++ (join rows ++ [rbracket]) =
      memberText (ascii key) (arrText rows) := by
    have hopen : ascii "[" = [lbracket] := rfl
    simp [memberText, hopen, arrText]
  have hsplit : join rows ++ closeText rest =
      (join rows ++ [rbracket]) ++ (restText rest ++ [rbrace]) := by simp [closeText]
  have hjoin : join ((l.members args ++ (ascii key, arrText rows) :: rest).map
        fun (key, t) => memberText key t) =
      join ((l.members args).map (fun (key, t) => memberText key t) ++
        [memberText (ascii key) (arrText rows)]) ++ restText rest := by
    rw [restText, ← join_append (by simp)]
    simp
  rw [listText, fmt_ofList hcs, h, Layout.opened, fill_body, Layout.members_concat, List.map_append,
    List.map_singleton, hsplit, List.cons_append, ← List.append_assoc, join_concat_append, objText,
    hjoin, List.append_assoc]
  simp only [Slot.text, hrow]

/-- **What an object with a list is read as.** -/
theorem whole_list {format key : String} {cs : List Char} {args rows : List Text}
    {vs ws : List Value} {rest : List (Text × Text)} {kvs : List (Text × Value)} (l : Layout)
    (hcs : format = String.ofList cs) (h : directives cs = l.opened key) (hk : l.PlainKeys)
    (hkey : ∀ c ∈ ascii key, Plain c) (hvs : List.Forall₂ Reads (l.texts args) vs)
    (hws : List.Forall₂ Reads rows ws) (hrest : List.Forall₂ MemberReads rest kvs) :
    Whole (listText (fmt format args) rows (closeText rest))
      (.obj (l.keys.zip vs ++ (ascii key, .arr ws) :: kvs)) := by
  rw [listText_eq_objText l args rows rest hcs h]
  refine whole_objText (List.rel_append (memberReads_zip hk hvs) (.cons ⟨?_, ?_⟩ hrest))
  · exact content_of_plain hkey
  · exact (whole_arrText hws).reads

theorem closeText_nil : closeText [] = ascii "]\x7d" := rfl

/-- An object with a list at its end. -/
theorem whole_list_end {format key : String} {cs : List Char} {args rows : List Text}
    {vs ws : List Value} (l : Layout) (hcs : format = String.ofList cs)
    (h : directives cs = l.opened key) (hk : l.PlainKeys) (hkey : ∀ c ∈ ascii key, Plain c)
    (hvs : List.Forall₂ Reads (l.texts args) vs) (hws : List.Forall₂ Reads rows ws) :
    Whole (listText (fmt format args) rows (ascii "]\x7d"))
      (.obj (l.keys.zip vs ++ [(ascii key, .arr ws)])) := by
  rw [← closeText_nil]
  exact whole_list l hcs h hk hkey hvs hws .nil

/-! ### Into a buffer -/

/-- Rows that are written in pieces, with a comma before each but the first. -/
def rowParts (first : Bool) : List (List Text) → List Text
  | [] => []
  | row :: rows => (if first then [] else [ascii ","]) ++ row ++ rowParts false rows

/-- Rows that are written in one piece each. -/
def rowWrites (rows : List Text) : List Text := rowParts true (rows.map fun row => [row])

/-- The writes of a list. -/
def listWrites (head : Text) (rows : List Text) (tail : Text) : List Text :=
  head :: rowWrites rows ++ [tail]

theorem flatten_rowParts_false (rows : List (List Text)) :
    (rowParts false rows).flatten = (rows.map List.flatten).flatMap (comma :: ·) := by
  have hcomma : ascii "," = [comma] := rfl
  induction rows with
  | nil => rfl
  | cons row rows ih => simp [rowParts, ih, hcomma]

theorem flatten_rowParts (rows : List (List Text)) :
    (rowParts true rows).flatten = join (rows.map List.flatten) := by
  cases rows with
  | nil => rfl
  | cons row rows => simp [rowParts, join, flatten_rowParts_false]

theorem flatten_rowWrites (rows : List Text) : (rowWrites rows).flatten = join rows := by
  rw [rowWrites, flatten_rowParts, List.map_map]
  simp [Function.comp_def]

theorem flatten_listWrites (head : Text) (rows : List Text) (tail : Text) :
    (listWrites head rows tail).flatten = listText head rows tail := by
  simp [listWrites, listText, flatten_rowWrites]

theorem length_join (ts : List Text) :
    (join ts).length = (ts.map List.length).sum + (ts.length - 1) := by
  cases ts with
  | nil => rfl
  | cons t ts =>
    have hrest : (ts.flatMap (comma :: ·)).length = (ts.map List.length).sum + ts.length := by
      induction ts with
      | nil => rfl
      | cons t' ts ih =>
        simp only [List.flatMap_cons, List.length_append, List.length_cons, List.map_cons,
          List.sum_cons, ih]
        omega
    simp only [join, List.length_append, hrest, List.map_cons, List.sum_cons, List.length_cons]
    omega

/-- The length of a list: its head, its rows, a comma between any two, and its end. -/
theorem length_listText (head : Text) (rows : List Text) (tail : Text) :
    (listText head rows tail).length =
      head.length + (rows.map List.length).sum + (rows.length - 1) + tail.length := by
  simp only [listText, List.length_append, length_join]
  omega

/-- A text whose last bracket or brace is cut off is no JSON text. -/
theorem parse_take_eq_none {t : Text} {v : Value} {n : ℕ} (hv : parse t = some v)
    (hlast : t.getLast? = some rbracket ∨ t.getLast? = some rbrace) (hn : n < t.length) :
    parse (t.take n) = none := by
  rw [← List.take_append_drop n t] at hv
  have hcut : t.getLast? = (t.drop n).getLast? := by
    rw [List.getLast?_drop, if_neg (by omega)]
  refine parse_cut hv ?_
  rw [hcut] at hlast
  exact hlast.imp List.mem_of_getLast? List.mem_of_getLast?

theorem length_arrText (rows : List Text) :
    (arrText rows).length = 2 + (rows.map List.length).sum + (rows.length - 1) := by
  simp only [arrText, List.length_cons, List.length_append, length_join, List.length_nil]
  omega

/-- **An array that is cut off** is read as all of it exactly when nothing is cut off. -/
theorem parse_take_arrText_iff {rows : List Text} {vs : List Value} (h : List.Forall₂ Reads rows vs) (n : ℕ)
    (v : Value) :
    parse ((arrText rows).take n) = some v ↔ (arrText rows).length ≤ n ∧ v = .arr vs := by
  have hparse : parse (arrText rows) = some (.arr vs) := (whole_arrText h).parse
  by_cases hn : (arrText rows).length ≤ n
  · rw [List.take_of_length_le hn, hparse, Option.some.injEq]
    simp [hn, eq_comm]
  · have hlast : (arrText rows).getLast? = some rbracket := by
      rw [arrText, ← List.cons_append, List.getLast?_concat]
    rw [parse_take_eq_none hparse (.inl hlast) (by omega)]
    simp [hn]

/-- **A text that does not fit** is no JSON text in the buffer. -/
theorem parse_writes_eq_none {size : ℕ} {ts : List Text} {last : Text} {v : Value}
    (hv : parse (ts ++ [last]).flatten = some v)
    (hlast : last.getLast? = some rbracket ∨ last.getLast? = some rbrace)
    (hsize : size ≤ (ts ++ [last]).flatten.length) :
    parse ((Buffer.new size).writes (ts ++ [last])).text = none := by
  have hne : last ≠ [] := by
    rintro rfl
    simp at hlast
  have hend : (ts ++ [last]).flatten.getLast? = last.getLast? := by
    simp [List.getLast?_append, List.getLast?_eq_some_getLast hne]
  have hpos : 0 < (ts ++ [last]).flatten.length := by
    rw [List.flatten_append, List.length_append]
    have := List.length_pos_iff.mpr hne
    simp
    omega
  rw [(written_writes _ _).text_eq]
  exact parse_take_eq_none hv (by rwa [hend]) (by omega)

/-- A text that fits is the text of the buffer. -/
theorem text_writes {size : ℕ} {ts : List Text} {last : Text}
    (hsize : (ts ++ [last]).flatten.length < size) :
    ((Buffer.new size).writes (ts ++ [last])).wild = false ∧
      ((Buffer.new size).writes (ts ++ [last])).text = (ts ++ [last]).flatten := by
  have hwild : ((Buffer.new size).writes (ts ++ [last])).wild = false := by
    rw [List.flatten_append, List.length_append] at hsize
    rw [wild_writes_concat, decide_eq_false_iff_not]
    omega
  refine ⟨hwild, ?_⟩
  rw [(written_writes _ _).text_eq, List.take_of_length_le (by omega)]

/-- **A text printed piece by piece** is a JSON text in a buffer exactly when it fits. -/
theorem parse_writes_iff {size : ℕ} {ts : List Text} {last : Text} {v : Value}
    (hv : parse (ts ++ [last]).flatten = some v)
    (hlast : last.getLast? = some rbracket ∨ last.getLast? = some rbrace) :
    (((Buffer.new size).writes (ts ++ [last])).wild = false ∧
        parse ((Buffer.new size).writes (ts ++ [last])).text = some v) ↔
      (ts ++ [last]).flatten.length < size := by
  constructor
  · rintro ⟨-, hparse⟩
    by_contra hlt
    rw [parse_writes_eq_none hv hlast (by omega)] at hparse
    cases hparse
  · intro hlt
    obtain ⟨hwild, htext⟩ := text_writes hlt
    exact ⟨hwild, by rw [htext, hv]⟩

/-- A list is a JSON text in a buffer exactly when it fits. -/
theorem parse_listWrites_iff {size : ℕ} {head : Text} {rows : List Text} {rest : List (Text × Text)}
    {v : Value} (hv : Whole (listText head rows (closeText rest)) v) :
    (((Buffer.new size).writes (listWrites head rows (closeText rest))).wild = false ∧
        parse ((Buffer.new size).writes (listWrites head rows (closeText rest))).text = some v) ↔
      head.length + (rows.map List.length).sum + (rows.length - 1) + (closeText rest).length < size := by
  rw [← length_listText, ← flatten_listWrites]
  refine parse_writes_iff ?_ (.inr ?_)
  · rw [← listWrites, flatten_listWrites]
    exact hv.parse
  · rw [closeText, ← List.cons_append, List.getLast?_append]
    rfl

end JsonReader
