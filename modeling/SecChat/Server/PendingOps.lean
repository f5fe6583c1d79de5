import SecChat.Library.SqlLex

/-!
# Pending group operations

`prepare_group_change` stores a row of `mls_pending_group_ops` under a fresh operation id, and
`apply_group_change` looks it up by the id that the client sends.  Both the lookup and the final
`UPDATE` paste that id into the text of the statement.

The text is cut into tokens by the lexical rules of MySQL; what the tokens mean is up to the
engine, of which only two things are assumed: what the two statements mean when the id is a plain
literal in them.  A collation decides which ids are equal: `key` maps a text to its sort key.

* `fetchPendingOp`, `markPendingApplied`: the two functions, down to the statement's text;
* `Engine.Lawful`: what is assumed of the engine;
* `own_operation_iff`: for which operation ids the two functions are bound to act only on the
  caller's own prepared operation.
-/

open SqlLex

namespace SecChat.PendingOps

/-! ### The table -/

/-- `status`. -/
inductive OpStatus
  | prepared
  | applied
  | rejected
  deriving DecidableEq, Repr

/-- A row of `mls_pending_group_ops`. -/
structure PendingRow where
  operationId : Text
  conversationId : ℤ
  actorId : ℤ
  operation : Text
  targetUserId : Option ℤ
  role : Option Text
  detailsJson : Option Text
  status : OpStatus
  expiresAt : ℤ
  deriving DecidableEq

/-- The selected columns: `conversation_id`, `operation`, and the others with their defaults. -/
structure PendingOp where
  conversationId : ℤ
  operation : Text
  targetUserId : ℤ
  role : Text
  detailsJson : Text
  deriving DecidableEq

/-- The columns of a row, with `COALESCE`. -/
def PendingRow.columns (r : PendingRow) : PendingOp :=
  ⟨r.conversationId, r.operation, r.targetUserId.getD 0, r.role.getD [], r.detailsJson.getD []⟩

/-- The digits of `%02x`, and of `%lld` and `%06d`. -/
def isHexDigit (c : UInt8) : Bool := 0x30 ≤ c ∧ c ≤ 0x39 ∨ 0x61 ≤ c ∧ c ≤ 0x66

def isDigit (c : UInt8) : Bool := 0x30 ≤ c ∧ c ≤ 0x39

/-- What `make_operation_id` can return: sixteen octets in hexadecimal or, without a random source,
the time and a number in decimal. -/
def GeneratedId (id : Text) : Prop :=
  id.length = 32 ∧ id.all isHexDigit = true ∨
    7 ≤ id.length ∧ id.length ≤ 64 ∧ id.all isDigit = true

/-- A table of operations that the server prepared; no two ids are equal under the collation. -/
structure WellFormed (key : Text → Text) (rows : List PendingRow) : Prop where
  generated : ∀ r ∈ rows, GeneratedId r.operationId
  primary : (rows.map fun r => key r.operationId).Nodup

/-! ### The two statements -/

/-- `%d`. -/
def decimal (n : ℤ) : Text := ascii (toString n)

/-- The first part of the lookup, up to the quote. -/
def selectStart : Text :=
  ascii ("SELECT conversation_id,operation,COALESCE(target_user_id,0)," ++
    " COALESCE(role,''),COALESCE(details_json,'')" ++
    " FROM mls_pending_group_ops" ++ " WHERE operation_id=")

/-- The rest of the lookup, after the closing quote. -/
def selectEnd (actorId : ℤ) : Text :=
  ascii " AND actor_id=" ++
    (decimal actorId ++ ascii "   AND status='prepared' AND expires_at > NOW(3) LIMIT 1")

/-- The buffer that `fetch_pending_op` prints into has 512 octets. -/
def selectText (operationId : Text) (actorId : ℤ) : Text :=
  (selectStart ++ (apostrophe :: operationId ++ apostrophe :: selectEnd actorId)).take 511

/-- The `UPDATE`, up to the quote. -/
def updateStart : Text :=
  ascii "UPDATE mls_pending_group_ops SET status='applied' WHERE operation_id="

/-- The buffer that `mark_pending_applied` prints into has 256 octets. -/
def updateText (operationId : Text) : Text :=
  (updateStart ++ (apostrophe :: operationId ++ [apostrophe])).take 255

/-- The tokens of `%d`. -/
def decimalTokens (n : ℤ) : List Token :=
  (if n < 0 then [.char 0x2d] else []) ++ [.word (ascii (toString n.natAbs))]

/-- The tokens of the lookup, up to the literal. -/
def selectHead : List Token := (SqlLex.run .between selectStart).1

/-- The tokens of the lookup, after the literal. -/
def selectTail (actorId : ℤ) : List Token :=
  (SqlLex.run .between (ascii " AND actor_id=")).1 ++ (decimalTokens actorId ++
    (SqlLex.run .between (ascii "   AND status='prepared' AND expires_at > NOW(3) LIMIT ")).1 ++
    [.word (ascii "1")])

/-- The lookup as it is meant: the literal `id` and the actor. -/
def selectShape (id : Text) (actorId : ℤ) : List Token :=
  selectHead ++ .quoted apostrophe id :: selectTail actorId

/-- The `UPDATE` as it is meant. -/
def updateShape (id : Text) : List Token := (SqlLex.run .between updateStart).1 ++ [.quoted apostrophe id]

/-! ### The engine -/

/-- The database: the result of a `SELECT` at a point in time (`none` is an error), and the table
after an `UPDATE`. -/
structure Engine where
  select : List Token → ℤ → List PendingRow → Option (List PendingOp)
  update : List Token → List PendingRow → List PendingRow

/-- The rows that the lookup is meant to find. -/
def matching (key : Text → Text) (id : Text) (actorId now : ℤ) (rows : List PendingRow) :
    List PendingRow :=
  rows.filter fun r =>
    key r.operationId = key id ∧ r.actorId = actorId ∧ r.status = .prepared ∧ now < r.expiresAt

/-- Set the status of the rows with an id. -/
def setApplied (key : Text → Text) (id : Text) (rows : List PendingRow) : List PendingRow :=
  rows.map fun r => if key r.operationId = key id then { r with status := .applied } else r

/-- What the two statements mean when the id is a literal in them. -/
structure Engine.Lawful (key : Text → Text) (E : Engine) : Prop where
  select_shape : ∀ id actorId now rows, E.select (selectShape id actorId) now rows =
    some (((matching key id actorId now rows).take 1).map PendingRow.columns)
  update_shape : ∀ id rows, E.update (updateShape id) rows = setApplied key id rows

/-! ### The functions -/

/-- `jget(buf, "operation_id", operation_id, sizeof(operation_id))`: the octets of the string value
that the handler keeps. -/
def jget (value : Text) (vmax : ℕ) : Text := (value.takeWhile (· ≠ 0)).take (vmax - 1)

/-- `strncpy` into a buffer of `n` octets. -/
def strncpy (n : ℕ) (text : Text) : Text := (text.takeWhile (· ≠ 0)).take (n - 1)

/-- What `fetch_pending_op` copies out of the first row. -/
def PendingOp.copied (op : PendingOp) : PendingOp :=
  { op with operation := strncpy 40 op.operation, role := strncpy 20 op.role }

/-- `fetch_pending_op`. -/
def fetchPendingOp (E : Engine) (now : ℤ) (rows : List PendingRow) (operationId : Text)
    (actorId : ℤ) : Option PendingOp := do
  let tokens ← lex (selectText operationId actorId)
  let found ← E.select tokens now rows
  found.head?.map PendingOp.copied

/-- `mark_pending_applied`; an error of the `UPDATE` goes unnoticed. -/
def markPendingApplied (E : Engine) (rows : List PendingRow) (operationId : Text) :
    List PendingRow :=
  match lex (updateText operationId) with
  | some tokens => E.update tokens rows
  | none => rows

/-! ### Acting on the caller's own operation -/

/-- What `fetch_pending_op` returns comes from a prepared and unexpired row of the caller with
exactly that operation id. -/
def FetchesOwn (E : Engine) (now : ℤ) (rows : List PendingRow) (operationId : Text)
    (actorId : ℤ) : Prop :=
  ∀ op, fetchPendingOp E now rows operationId actorId = some op →
    ∃ r ∈ rows, op = r.columns.copied ∧ r.operationId = operationId ∧ r.actorId = actorId ∧
      r.status = .prepared ∧ now < r.expiresAt

/-- `mark_pending_applied` changes nothing but the status of the row with exactly that id. -/
def MarksOwn (E : Engine) (rows : List PendingRow) (operationId : Text) : Prop :=
  List.Forall₂ (fun r r' => r' = r ∨
    r.operationId = operationId ∧ r' = { r with status := .applied }) rows
    (markPendingApplied E rows operationId)

/-- The text of the lookup is not a statement, or it is the meant one for a literal and an actor
such that every generated id equal to the literal is the operation id itself and the actor is the
caller. -/
def FetchSafe (key : Text → Text) (operationId : Text) (actorId : ℤ) : Prop :=
  ∀ tokens, lex (selectText operationId actorId) = some tokens →
    ∃ id actor, tokens = selectShape id actor ∧
      ∀ h, GeneratedId h → key h = key id → h = operationId ∧ actor = actorId

/-- The same for the `UPDATE`. -/
def MarkSafe (key : Text → Text) (operationId : Text) : Prop :=
  ∀ tokens, lex (updateText operationId) = some tokens →
    ∃ id, tokens = updateShape id ∧ ∀ h, GeneratedId h → key h = key id → h = operationId

/-! ### The text of a number -/

section Decimal

theorem toNat_of_mem_digits {n : ℕ} {c : Char} (h : c ∈ Nat.toDigits 10 n) :
    48 ≤ c.toNat ∧ c.toNat ≤ 57 := by
  have hd := Nat.isDigit_of_mem_toDigits (by decide) (by decide) h
  simp only [Char.isDigit, Bool.and_eq_true, decide_eq_true_eq] at hd
  exact ⟨hd.1, hd.2⟩

theorem exists_of_mem_digits {n : ℕ} {c : UInt8} (h : c ∈ ascii (toString n)) :
    ∃ k, 48 ≤ k ∧ k ≤ 57 ∧ c = UInt8.ofNat k := by
  simp only [ascii, Nat.toString_eq_repr, Nat.toList_repr, List.mem_map] at h
  obtain ⟨d, hd, rfl⟩ := h
  obtain ⟨hlo, hhi⟩ := toNat_of_mem_digits hd
  exact ⟨d.toNat, hlo, hhi, rfl⟩

theorem isWord_of_mem_digits {n : ℕ} {c : UInt8} (h : c ∈ ascii (toString n)) :
    isWord c = true := by
  obtain ⟨k, hlo, hhi, rfl⟩ := exists_of_mem_digits h
  have hall : ∀ k : ℕ, k ≤ 57 → 48 ≤ k → isWord (UInt8.ofNat k) = true := by decide
  exact hall k hhi hlo

theorem next_of_mem_digits {n : ℕ} {c : UInt8} (h : c ∈ ascii (toString n)) :
    next .between c = ([], .word [c]) := by
  obtain ⟨k, hlo, hhi, rfl⟩ := exists_of_mem_digits h
  have hall : ∀ k : ℕ, k ≤ 57 → 48 ≤ k →
      next .between (UInt8.ofNat k) = ([], .word [UInt8.ofNat k]) := by decide
  exact hall k hhi hlo

/-- The digits can be read back. -/
theorem digits_of_ascii (n : ℕ) :
    (ascii (toString n)).map (fun b => Char.ofNat b.toNat) = Nat.toDigits 10 n := by
  simp only [ascii, Nat.toString_eq_repr, Nat.toList_repr, List.map_map]
  refine (List.map_congr_left fun c hc => ?_).trans (List.map_id _)
  obtain ⟨-, hhi⟩ := toNat_of_mem_digits hc
  have hmod : c.toNat % 256 = c.toNat := Nat.mod_eq_of_lt (by omega)
  simp [hmod, Char.ofNat_toNat]

theorem ascii_digits_injective {n m : ℕ} (h : ascii (toString n) = ascii (toString m)) : n = m := by
  have hd : Nat.toDigits 10 n = Nat.toDigits 10 m := by
    rw [← digits_of_ascii n, h, digits_of_ascii m]
  have hn := Nat.ofDigitChars_toDigits (b := 10) (n := n) (by decide) (by decide)
  rw [hd, Nat.ofDigitChars_toDigits (by decide) (by decide)] at hn
  exact hn.symm

theorem ascii_append (s t : String) : ascii (s ++ t) = ascii s ++ ascii t := by simp [ascii]

theorem decimal_eq (n : ℤ) :
    decimal n = (if n < 0 then [0x2d] else []) ++ ascii (toString n.natAbs) := by
  cases n with
  | ofNat m =>
    have hneg : ¬ Int.ofNat m < 0 := by simp
    simp only [hneg, if_false, List.nil_append]
    rfl
  | negSucc m =>
    have hneg : Int.negSucc m < 0 := Int.negSucc_lt_zero m
    simp only [hneg, if_true]
    show ascii ("-" ++ toString (m + 1)) = _
    rw [ascii_append]
    rfl

theorem ascii_digits_ne_nil (n : ℕ) : ascii (toString n) ≠ [] := by
  simp [ascii]

/-- A number in front of a space is one word. -/
theorem run_digits (n : ℕ) (t : Text) :
    SqlLex.run .between (ascii (toString n) ++ 0x20 :: t) =
      (.word (ascii (toString n)) :: (SqlLex.run .between t).1, (SqlLex.run .between t).2) := by
  obtain ⟨d, ds, hds⟩ := List.exists_cons_of_ne_nil (ascii_digits_ne_nil n)
  have hd : next .between d = ([], .word [d]) :=
    next_of_mem_digits (n := n) (hds ▸ List.mem_cons_self)
  have hword : SqlLex.run (.word [d]) ds = ([], .word ([d] ++ ds)) :=
    SqlLex.run_word fun c hc => isWord_of_mem_digits (n := n) (hds ▸ List.mem_cons_of_mem _ hc)
  have hspace : next (.word ([d] ++ ds)) 0x20 = ([.word ([d] ++ ds)], .between) := by
    simp [next, isWord, after, first, isSpace]
  rw [hds]
  simp only [List.cons_append, SqlLex.run, hd]
  rw [SqlLex.run_append, hword]
  simp only [SqlLex.run, hspace]
  simp

/-- The same with a sign. -/
theorem run_decimal (n : ℤ) (t : Text) :
    SqlLex.run .between (decimal n ++ 0x20 :: t) =
      (decimalTokens n ++ (SqlLex.run .between t).1, (SqlLex.run .between t).2) := by
  rw [decimal_eq]
  unfold decimalTokens
  split
  · obtain ⟨d, ds, hds⟩ := List.exists_cons_of_ne_nil (ascii_digits_ne_nil n.natAbs)
    have hd : next .between d = ([], .word [d]) :=
      next_of_mem_digits (n := n.natAbs) (hds ▸ List.mem_cons_self)
    have hne : d ≠ 0x2d := by
      rintro rfl
      exact absurd hd (by decide)
    have hdash : next .dash d = (.char 0x2d :: (next .between d).1, (next .between d).2) := by
      simp [next, hne, after]
    have hrest : ∀ r, SqlLex.run .dash (d :: r) =
        (.char 0x2d :: (SqlLex.run .between (d :: r)).1, (SqlLex.run .between (d :: r)).2) := by
      intro r
      simp only [SqlLex.run, hdash, List.cons_append]
    have hstart : next .between 0x2d = ([], .dash) := by decide
    have hrun := run_digits n.natAbs t
    rw [hds] at hrun ⊢
    simp only [List.cons_append, List.nil_append] at hrun ⊢
    rw [SqlLex.run, hstart, hrest, hrun]
    rfl
  · simpa using run_digits n.natAbs t

theorem length_decimal (n : ℤ) (h : n.natAbs < 10 ^ 10) : (decimal n).length ≤ 11 := by
  have hlen : (ascii (toString n.natAbs)).length ≤ 10 := by
    simpa [ascii] using (Nat.length_toDigits_le_iff (by decide) (by decide)).mpr h
  rw [decimal_eq, List.length_append]
  split <;> simp only [List.length_cons, List.length_nil] <;> omega

theorem decimalTokens_injective {n m : ℤ} (h : decimalTokens n = decimalTokens m) : n = m := by
  have habs : n.natAbs = m.natAbs := by
    have hlast := congrArg List.getLast? h
    simp only [decimalTokens, List.getLast?_append, List.getLast?_singleton, Option.some_or,
      Option.some.injEq, Token.word.injEq] at hlast
    exact ascii_digits_injective hlast
  have hsign : n < 0 ↔ m < 0 := by
    have hlen := congrArg List.length h
    by_cases hn : n < 0 <;> by_cases hm : m < 0
    · exact iff_of_true hn hm
    · simp [decimalTokens, hn, hm] at hlen
    · simp [decimalTokens, hn, hm] at hlen
    · exact iff_of_false hn hm
  omega

end Decimal

/-! ### The statements as they are meant -/

theorem lex_selectEnd (actorId : ℤ) : lex (selectEnd actorId) = some (selectTail actorId) := by
  have hstart : (SqlLex.run .between (ascii " AND actor_id=")).2 = .between := by decide
  have hrest : ascii "   AND status='prepared' AND expires_at > NOW(3) LIMIT 1" =
      0x20 :: (ascii "  AND status='prepared' AND expires_at > NOW(3) LIMIT 1") := by decide
  have htokens : SqlLex.run .between (ascii "  AND status='prepared' AND expires_at > NOW(3) LIMIT 1") =
      ((SqlLex.run .between (ascii "   AND status='prepared' AND expires_at > NOW(3) LIMIT ")).1,
        .word (ascii "1")) := by decide
  unfold selectEnd
  rw [lex_append hstart, hrest]
  unfold lex
  rw [run_decimal, htokens]
  simp [finish, selectTail]

theorem selectTail_injective {n m : ℤ} (h : selectTail n = selectTail m) : n = m := by
  unfold selectTail at h
  have h := List.append_cancel_left h
  rw [List.append_assoc, List.append_assoc] at h
  exact decimalTokens_injective (List.append_cancel_right h)

theorem length_selectStart : selectStart.length = 151 := by decide +kernel

/-- An id without quotes and backslashes is a literal of the lookup. -/
theorem lex_selectText {id : Text} {actorId : ℤ} (hlen : id.length ≤ 79)
    (hactor : actorId.natAbs < 10 ^ 10) (hq : apostrophe ∉ id) (hb : backslash ∉ id) :
    lex (selectText id actorId) = some (selectShape id actorId) := by
  have hfits : selectText id actorId =
      selectStart ++ (apostrophe :: id ++ apostrophe :: selectEnd actorId) := by
    refine List.take_of_length_le ?_
    have hdec := length_decimal actorId hactor
    have hend : (selectEnd actorId).length = 70 + (decimal actorId).length := by
      simp only [selectEnd, List.length_append]
      have h1 : (ascii " AND actor_id=").length = 14 := by decide
      have h2 : (ascii "   AND status='prepared' AND expires_at > NOW(3) LIMIT 1").length = 56 := by
        decide
      omega
    simp only [List.length_append, List.length_cons, length_selectStart, hend]
    omega
  have hhead : (selectEnd actorId).head? ≠ some apostrophe := by
    have : (selectEnd actorId).head? = some 0x20 := rfl
    rw [this]
    decide
  rw [hfits, lex_literal (by decide +kernel) hq hb hhead, lex_selectEnd]
  rfl

/-- And of the `UPDATE`. -/
theorem lex_updateText {id : Text} (hlen : id.length ≤ 79) (hq : apostrophe ∉ id)
    (hb : backslash ∉ id) : lex (updateText id) = some (updateShape id) := by
  have hfits : updateText id = updateStart ++ (apostrophe :: id ++ [apostrophe]) := by
    refine List.take_of_length_le ?_
    have hstart : updateStart.length = 69 := by decide +kernel
    simp only [List.length_append, List.length_cons, List.length_nil, hstart]
    omega
  rw [hfits, lex_literal (by decide +kernel) hq hb (by simp)]
  rfl

/-- The ids that the server handed out itself are safe, and so is every id without quotes and
backslashes that the collation does not confuse with another generated one. -/
theorem safe_of_clean (key : Text → Text) {id : Text} {actorId : ℤ} (hlen : id.length ≤ 79)
    (hactor : actorId.natAbs < 10 ^ 10) (hq : apostrophe ∉ id) (hb : backslash ∉ id)
    (hkey : ∀ h, GeneratedId h → key h = key id → h = id) :
    FetchSafe key id actorId ∧ MarkSafe key id := by
  constructor
  · intro tokens hlex
    rw [lex_selectText hlen hactor hq hb] at hlex
    obtain rfl := Option.some.inj hlex
    exact ⟨id, actorId, rfl, fun h hg hk => ⟨hkey h hg hk, rfl⟩⟩
  · intro tokens hlex
    rw [lex_updateText hlen hq hb] at hlex
    obtain rfl := Option.some.inj hlex
    exact ⟨id, rfl, hkey⟩

/-! ### An engine -/

/-- An engine that knows the two statements, and a lookup by `operation_id` alone. -/
def reference (key : Text → Text) : Engine where
  select tokens now rows :=
    if tokens.take selectHead.length = selectHead then
      match tokens.drop selectHead.length with
      | [.quoted _ id] => some ((rows.filter fun r => key r.operationId = key id).map (·.columns))
      | .quoted _ id :: tail =>
          some (((rows.filter fun r => key r.operationId = key id ∧ tail = selectTail r.actorId ∧
            r.status = .prepared ∧ now < r.expiresAt).take 1).map (·.columns))
      | _ => none
    else none
  update tokens rows :=
    match tokens.drop (SqlLex.run .between updateStart).1.length with
    | [.quoted _ id] => setApplied key id rows
    | _ => rows

theorem reference_lawful (key : Text → Text) : (reference key).Lawful key where
  select_shape id actorId now rows := by
    have htail : selectTail actorId ≠ [] := by simp [selectTail]
    have hmatch : (rows.filter fun r => key r.operationId = key id ∧
        selectTail actorId = selectTail r.actorId ∧ r.status = .prepared ∧ now < r.expiresAt) =
        matching key id actorId now rows := by
      unfold matching
      refine List.filter_congr fun r _ => ?_
      have heq : selectTail actorId = selectTail r.actorId ↔ r.actorId = actorId :=
        ⟨fun h => (selectTail_injective h).symm, fun h => by rw [h]⟩
      simp only [heq]
    obtain ⟨t, ts, hts⟩ := List.exists_cons_of_ne_nil htail
    rw [← hmatch]
    simp only [reference, selectShape, List.take_left, List.drop_left, if_true, hts]
  update_shape id rows := by
    simp only [reference, updateShape, List.drop_left]

/-- An engine that reads one `SELECT` its own way. -/
def Engine.withSelect (E : Engine) (tokens : List Token) (found : List PendingOp) : Engine where
  select t now rows := if t = tokens then some found else E.select t now rows
  update := E.update

/-- An engine that reads one `UPDATE` its own way. -/
def Engine.withUpdate (E : Engine) (tokens : List Token) (after : List PendingRow) : Engine where
  select := E.select
  update t rows := if t = tokens then after else E.update t rows

theorem Engine.Lawful.withSelect {key : Text → Text} {E : Engine} (h : E.Lawful key)
    {tokens : List Token} (found : List PendingOp)
    (hne : ∀ id actorId, selectShape id actorId ≠ tokens) : (E.withSelect tokens found).Lawful key where
  select_shape id actorId now rows := by
    rw [← h.select_shape id actorId now rows]
    simp only [Engine.withSelect, hne id actorId, if_false]
  update_shape := h.update_shape

theorem Engine.Lawful.withUpdate {key : Text → Text} {E : Engine} (h : E.Lawful key)
    {tokens : List Token} (after : List PendingRow) (hne : ∀ id, updateShape id ≠ tokens) :
    (E.withUpdate tokens after).Lawful key where
  select_shape := h.select_shape
  update_shape id rows := by
    rw [← h.update_shape id rows]
    simp only [Engine.withUpdate, hne id, if_false]

/-- A row with some id and actor. -/
def rowOf (id : Text) (actorId : ℤ) : PendingRow where
  operationId := id
  conversationId := 1
  actorId := actorId
  operation := ascii "add_member"
  targetUserId := none
  role := none
  detailsJson := none
  status := .prepared
  expiresAt := 1

theorem wellFormed_rowOf (key : Text → Text) {id : Text} (actorId : ℤ) (h : GeneratedId id) :
    WellFormed key [rowOf id actorId] := by
  constructor
  · intro r hr
    obtain rfl := List.mem_singleton.mp hr
    exact h
  · simp

theorem wellFormed_nil (key : Text → Text) : WellFormed key [] := ⟨by simp, by simp⟩

/-! ### The exact condition -/

/-- What a successful lookup did. -/
theorem fetchPendingOp_eq_some {E : Engine} {now : ℤ} {rows : List PendingRow} {id : Text}
    {actorId : ℤ} {op : PendingOp} :
    fetchPendingOp E now rows id actorId = some op ↔
      ∃ tokens, lex (selectText id actorId) = some tokens ∧ ∃ found,
        E.select tokens now rows = some found ∧ ∃ c, found.head? = some c ∧ c.copied = op := by
  unfold fetchPendingOp
  simp only [bind, Option.bind_eq_some_iff, Option.map_eq_some_iff]

section Iff

variable {key : Text → Text} {operationId : Text} {actorId : ℤ}

theorem FetchSafe.fetchesOwn (h : FetchSafe key operationId actorId) {E : Engine} (hE : E.Lawful key)
    (now : ℤ) {rows : List PendingRow} (hrows : WellFormed key rows) :
    FetchesOwn E now rows operationId actorId := by
  intro op hop
  obtain ⟨tokens, hlex, found, hfound, c, hc, rfl⟩ := fetchPendingOp_eq_some.mp hop
  obtain ⟨id, actor, htokens, hid⟩ := h tokens hlex
  rw [htokens, hE.select_shape] at hfound
  obtain rfl := Option.some.inj hfound
  obtain ⟨r, hr, rfl⟩ := List.mem_map.mp (List.mem_of_mem_head? hc)
  have hr := List.mem_of_mem_take hr
  simp only [matching, List.mem_filter, decide_eq_true_eq] at hr
  obtain ⟨hmem, hkey, hactor, hstatus, hexp⟩ := hr
  obtain ⟨hown, hcaller⟩ := hid _ (hrows.generated r hmem) hkey
  exact ⟨r, hmem, rfl, hown, hactor.trans hcaller, hstatus, hexp⟩

theorem MarkSafe.marksOwn (h : MarkSafe key operationId) {E : Engine} (hE : E.Lawful key)
    {rows : List PendingRow} (hrows : WellFormed key rows) : MarksOwn E rows operationId := by
  unfold MarksOwn markPendingApplied
  cases hlex : lex (updateText operationId) with
  | none => exact List.forall₂_same.mpr fun r _ => .inl rfl
  | some tokens =>
    obtain ⟨id, htokens, hid⟩ := h tokens hlex
    simp only [htokens, hE.update_shape, setApplied]
    rw [List.forall₂_map_right_iff, List.forall₂_same]
    intro r hr
    by_cases hkey : key r.operationId = key id
    · rw [if_pos hkey]
      exact .inr ⟨hid _ (hrows.generated r hr) hkey, rfl⟩
    · rw [if_neg hkey]
      exact .inl rfl

/-- An id that is not safe for the lookup finds something else for some engine and table. -/
theorem fetchSafe_of_forall
    (h : ∀ E : Engine, E.Lawful key → ∀ now rows, WellFormed key rows →
      FetchesOwn E now rows operationId actorId) : FetchSafe key operationId actorId := by
  intro tokens hlex
  by_contra hno
  by_cases hshape : ∃ id actor, tokens = selectShape id actor
  · -- the statement has the right form: a row with the literal as its id is found
    obtain ⟨id, actor, htokens⟩ := hshape
    simp only [not_exists, not_and, not_forall] at hno
    obtain ⟨g, hg, hkey, hne⟩ := hno id actor htokens
    have hmatch : matching key id actor 0 [rowOf g actor] = [rowOf g actor] := by
      simp [matching, rowOf, hkey]
    have hselect : (reference key).select tokens 0 [rowOf g actor] =
        some [(rowOf g actor).columns] := by
      rw [htokens, (reference_lawful key).select_shape, hmatch]
      rfl
    have hfetch := fetchPendingOp_eq_some.mpr ⟨tokens, hlex, _, hselect, _, rfl, rfl⟩
    obtain ⟨r, hr, -, hid, hactor, -⟩ :=
      h _ (reference_lawful key) 0 _ (wellFormed_rowOf key actor hg) _ hfetch
    obtain rfl := List.mem_singleton.mp hr
    exact hne hid hactor
  · -- nothing is known about the statement
    have hne : ∀ id actor, selectShape id actor ≠ tokens :=
      fun id actor heq => hshape ⟨id, actor, heq.symm⟩
    have hE := (reference_lawful key).withSelect [(rowOf [] 0).columns] hne
    have hselect : ((reference key).withSelect tokens [(rowOf [] 0).columns]).select tokens 0 [] =
        some [(rowOf [] 0).columns] := by simp only [Engine.withSelect, if_true]
    have hfetch := fetchPendingOp_eq_some.mpr ⟨tokens, hlex, _, hselect, _, rfl, rfl⟩
    obtain ⟨r, hr, -⟩ := h _ hE 0 [] (wellFormed_nil key) _ hfetch
    cases hr

/-- The same for the `UPDATE`. -/
theorem markSafe_of_forall
    (h : ∀ E : Engine, E.Lawful key → ∀ rows, WellFormed key rows → MarksOwn E rows operationId) :
    MarkSafe key operationId := by
  intro tokens hlex
  by_contra hno
  by_cases hshape : ∃ id, tokens = updateShape id
  · obtain ⟨id, htokens⟩ := hshape
    simp only [not_exists, not_and, not_forall] at hno
    obtain ⟨g, hg, hkey, hne⟩ := hno id htokens
    have hmark := h _ (reference_lawful key) _ (wellFormed_rowOf key 0 hg)
    have hset : setApplied key id [rowOf g 0] = [{ rowOf g 0 with status := .applied }] := by
      simp [setApplied, rowOf, hkey]
    simp only [MarksOwn, markPendingApplied, hlex, htokens, (reference_lawful key).update_shape,
      hset, List.forall₂_cons, List.Forall₂.nil, and_true] at hmark
    rcases hmark with heq | hid
    · exact absurd (congrArg PendingRow.status heq) (by simp [rowOf])
    · exact hne hid
  · have hne : ∀ id, updateShape id ≠ tokens := fun id heq => hshape ⟨id, heq.symm⟩
    have hmark := h _ ((reference_lawful key).withUpdate [rowOf [] 0] hne) [] (wellFormed_nil key)
    simp only [MarksOwn, markPendingApplied, hlex, Engine.withUpdate, if_true,
      List.forall₂_nil_left_iff, reduceCtorEq] at hmark

end Iff

/-- **When `apply_group_change` is bound to act on the caller's own operation.**  Whatever the client
sends as the operation id, the engine's reading of the two statements forces the row found to be
the caller's own prepared operation with exactly that id, and the `UPDATE` to touch no other row,
exactly when the id is safe in both. -/
theorem own_operation_iff (key : Text → Text) (value : Text) (actorId : ℤ) :
    (∀ E : Engine, E.Lawful key → ∀ now rows, WellFormed key rows →
      FetchesOwn E now rows (jget value 80) actorId ∧ MarksOwn E rows (jget value 80)) ↔
      FetchSafe key (jget value 80) actorId ∧ MarkSafe key (jget value 80) := by
  constructor
  · intro h
    exact ⟨fetchSafe_of_forall fun E hE now rows hrows => (h E hE now rows hrows).1,
      markSafe_of_forall fun E hE rows hrows => (h E hE 0 rows hrows).2⟩
  · rintro ⟨hfetch, hmark⟩ E hE now rows hrows
    exact ⟨hfetch.fetchesOwn hE now hrows, hmark.marksOwn hE hrows⟩

/-- The operation of another user, and an id that closes the literal and starts a comment. -/
def victimId : Text := ascii "0123456789abcdef0123456789abcdef"

def injectedId : Text := victimId ++ ascii "'-- "

/-- User 5 gets and uses up the operation that user 7 prepared. -/
theorem foreign_operation_applied :
    ¬ ∀ (key : Text → Text) (E : Engine), E.Lawful key → ∀ (value : Text) (actorId now : ℤ)
      (rows : List PendingRow), WellFormed key rows →
      FetchesOwn E now rows (jget value 80) actorId ∧ MarksOwn E rows (jget value 80) := by
  intro h
  have hown := (h id (reference id) (reference_lawful id) injectedId 5 0 [rowOf victimId 7]
    (wellFormed_rowOf id 7 (by left; decide +kernel))).1
  have hfetch : fetchPendingOp (reference id) 0 [rowOf victimId 7] (jget injectedId 80) 5 =
      some (rowOf victimId 7).columns.copied := by decide +kernel
  obtain ⟨r, hr, -, -, hactor, -⟩ := hown _ hfetch
  obtain rfl := List.mem_singleton.mp hr
  exact absurd hactor (by decide)

end SecChat.PendingOps
