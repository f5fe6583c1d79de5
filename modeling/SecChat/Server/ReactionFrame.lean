import SecChat.Server.Columns

/-!
# The reactions of a message

`message_reactions_json` prints the reactions of a message, one object for each emoji, into a buffer of
4096 octets.  It stops after the row that took the offset to 4000 or beyond, so that a row is printed
whenever the offset is below 4000, however long the row is.

* `messageReactionsJson`: the builder;
* `offset`: the offset after the bracket and some rows;
* `Inside`: every write starts inside the buffer, and the result is an array of rows;
* `rowLoop_eq`: the rows that the loop prints;
* `reactions_inside_iff`: the builder is sound exactly when no row takes an offset below 4000 past 4094.
-/

namespace SecChat.Reactions

open CText JsonReader JsonHelpers Columns

/-- A row of the query: an emoji that `add_reaction` took, how many users chose it, and how often the
viewer did. -/
structure ReactionRow where
  emoji : CStr 32
  count : ℕ
  mine : ℕ
  deriving DecidableEq

def reactionRow (r : ReactionRow) : Text :=
  let ee := jsonEsc r.emoji.text 96
  fmt "\x7b\"emoji\":\"%s\",\"count\":%s,\"me\":%s\x7d"
    [ee, dec r.count, flag (0 < r.mine)]

/-- The loop over the rows. -/
def rowLoop (first : Bool) (b : Buffer) : List ReactionRow → Buffer
  | [] => b
  | r :: rows =>
      let b := if first then b else b.snprintf (ascii ",")
      let b := b.snprintf (reactionRow r)
      if 4000 ≤ b.pos then b else rowLoop false b rows

/-- `message_reactions_json`; a query that fails gives no rows. -/
def messageReactionsJson (rows : Option (List ReactionRow)) : Buffer :=
  match rows with
  | none => (Buffer.new 3).writes [ascii "[]"]
  | some rows => (rowLoop true ((Buffer.new 4096).snprintf (ascii "[")) (rows.take 32)).snprintf (ascii "]")

/-! ### What it should give -/

def reactionValue (r : ReactionRow) : Value :=
  .obj [Columns.field "emoji" (.str (kept r.emoji.text 96)), Columns.field "count" (.int r.count),
    Columns.field "me" (.bool (decide (0 < r.mine)))]

/-- Every write starts inside the buffer, and what is in it lists the first rows. -/
def Inside (b : Buffer) (rows : List ReactionRow) : Prop :=
  b.reach < b.size ∧ ∃ k, parse b.text = some (.arr ((rows.take k).map reactionValue))

/-- The octets of a row. -/
def rowLength (r : ReactionRow) : ℕ :=
  27 + (jsonEsc r.emoji.text 96).length + (dec r.count).length + if 0 < r.mine then 4 else 5

/-- The offset after the bracket, the first `k` rows and the commas between them. -/
def offset (rows : List ReactionRow) (k : ℕ) : ℕ :=
  1 + ((rows.take k).map rowLength).sum + (min k rows.length - 1)

/-! ### Rows -/

def reactionLayout : Layout := [("emoji", .str), ("count", .raw), ("me", .raw)]

theorem reads_reactionRow (r : ReactionRow) : JsonReader.Reads (reactionRow r) (reactionValue r) := by
  have hvs : List.Forall₂ JsonReader.Reads
      (reactionLayout.texts [jsonEsc r.emoji.text 96, dec r.count,
        flag (0 < r.mine)])
      [.str (kept r.emoji.text 96), .int r.count, .bool (decide (0 < r.mine))] :=
    .cons (reads_quoted (content_jsonEsc _ _)) (.cons (reads_dec r.count) (.cons (reads_flag _) .nil))
  exact (whole_fmt reactionLayout rfl rfl (by decide) hvs).reads

theorem length_reactionRow (r : ReactionRow) : (reactionRow r).length = rowLength r := by
  rw [reactionRow, length_fmt 27 rfl rfl rfl, rowLength]
  simp [length_flag]
  omega

/-! ### The loop -/

/-- The writes of some rows, after others or at the beginning. -/
def parts (first : Bool) (rows : List ReactionRow) : List Text :=
  rowParts first (rows.map fun r => [reactionRow r])

theorem flatten_parts (rows : List ReactionRow) :
    (parts true rows).flatten = join (rows.map reactionRow) := by
  rw [parts, flatten_rowParts, List.map_map]
  simp [Function.comp_def]

/-- **The rows that the loop prints**: it goes on as long as the offset is below 4000. -/
theorem rowLoop_eq (first : Bool) (b : Buffer) (rows : List ReactionRow) :
    ∃ m ≤ rows.length, rowLoop first b rows = b.writes (parts first (rows.take m)) ∧
      (∀ k < m, 0 < k → b.pos + (parts first (rows.take k)).flatten.length < 4000) ∧
      (m = rows.length ∨ 4000 ≤ b.pos + (parts first (rows.take m)).flatten.length) := by
  induction rows generalizing first b with
  | nil => exact ⟨0, le_rfl, by cases first <;> rfl, by simp, .inl rfl⟩
  | cons r rows ih =>
    have hone : ∀ k, parts first ((r :: rows).take (k + 1)) =
        ((if first then [] else [ascii ","]) ++ [reactionRow r]) ++ parts false (rows.take k) := by
      intro k
      rw [List.take_succ_cons]
      rfl
    set b' := b.writes ((if first then [] else [ascii ","]) ++ [reactionRow r]) with hb'
    have hstep : rowLoop first b (r :: rows) = if 4000 ≤ b'.pos then b' else rowLoop false b' rows := by
      rw [hb']
      cases first <;> rfl
    have hpos : ∀ ts : List Text,
        b.pos + (((if first then [] else [ascii ","]) ++ [reactionRow r]) ++ ts).flatten.length =
          b'.pos + ts.flatten.length := by
      intro ts
      rw [hb', pos_writes, List.flatten_append, List.length_append]
      omega
    by_cases hbreak : 4000 ≤ b'.pos
    · refine ⟨1, by simp, ?_, fun k hk hk' => by omega, .inr ?_⟩
      · rw [hstep, if_pos hbreak, hone 0]
        simp [parts, rowParts, hb']
      · rw [hone 0, hpos]
        omega
    · obtain ⟨m, hm, heq, hbelow, hend⟩ := ih false b'
      refine ⟨m + 1, by simpa using hm, ?_, ?_, ?_⟩
      · rw [hstep, if_neg hbreak, heq, hone m, writes_append]
      · intro k hk hk'
        obtain ⟨k, rfl⟩ := Nat.exists_eq_succ_of_ne_zero (Nat.pos_iff_ne_zero.mp hk')
        rw [hone k, hpos]
        rcases Nat.eq_zero_or_pos k with rfl | hkpos
        · simpa [parts, rowParts] using not_le.mp hbreak
        · exact hbelow k (by omega) hkpos
      · rw [hone m, hpos]
        rcases hend with rfl | hend
        · exact .inl (by simp)
        · exact .inr hend

/-! ### Offsets -/

theorem length_parts (rows : List ReactionRow) (k : ℕ) :
    1 + (parts true (rows.take k)).flatten.length = offset rows k := by
  have hmap : ((rows.take k).map reactionRow).map List.length = (rows.take k).map rowLength := by
    rw [List.map_map]
    exact List.map_congr_left fun r _ => length_reactionRow r
  rw [flatten_parts, length_join, hmap, offset, List.length_map, List.length_take]
  omega

theorem offset_zero (rows : List ReactionRow) : offset rows 0 = 1 := by
  simp [offset]

theorem offset_mono (rows : List ReactionRow) {j k : ℕ} (h : j ≤ k) : offset rows j ≤ offset rows k := by
  obtain ⟨d, rfl⟩ := Nat.exists_eq_add_of_le h
  simp only [offset, List.take_add, List.map_append, List.sum_append]
  omega

/-- The writes are sound exactly when the offset before the last one leaves room for it. -/
theorem inside_writes_iff (rows : List ReactionRow) (m : ℕ) :
    Inside ((Buffer.new 4096).writes (ascii "[" :: parts true (rows.take m) ++ [ascii "]"])) rows ↔
      offset rows m ≤ 4094 := by
  set ws := ascii "[" :: parts true (rows.take m) with hws
  have hlen : ws.flatten.length = offset rows m := by
    rw [← length_parts, hws, List.flatten_cons, List.length_append]
    rfl
  have htotal : (ws ++ [ascii "]"]).flatten.length = offset rows m + 1 := by
    rw [List.flatten_append, List.length_append, hlen]
    rfl
  have hparse : parse (ws ++ [ascii "]"]).flatten = some (.arr ((rows.take m).map reactionValue)) := by
    have htext : (ws ++ [ascii "]"]).flatten = arrText ((rows.take m).map reactionRow) := by
      have hbr : ascii "[" = [lbracket] ∧ ascii "]" = [rbracket] := ⟨rfl, rfl⟩
      simp [hws, hbr, arrText, flatten_parts]
    rw [htext]
    exact (whole_arrText (reads_rows reads_reactionRow _)).parse
  have hsize : ((Buffer.new 4096).writes (ws ++ [ascii "]"])).size = 4096 := size_writes _ _
  constructor
  · rintro ⟨-, k, hk⟩
    by_contra hlt
    rw [parse_writes_eq_none hparse (.inl rfl) (by omega)] at hk
    cases hk
  · intro hle
    obtain ⟨-, htext⟩ := @text_writes 4096 ws (ascii "]") (by omega)
    refine ⟨?_, m, by rw [htext, hparse]⟩
    rw [hsize, reach_writes_concat, hlen]
    omega

/-- **The reactions stay inside their buffer** exactly when every row that is printed, because the offset
before it is below 4000, leaves room for the closing bracket and the zero. -/
theorem reactions_inside_iff (rows : Option (List ReactionRow)) :
    Inside (messageReactionsJson rows) ((rows.getD []).take 32) ↔
      ∀ k < ((rows.getD []).take 32).length, offset ((rows.getD []).take 32) k < 4000 →
        offset ((rows.getD []).take 32) (k + 1) ≤ 4094 := by
  cases rows with
  | none => exact ⟨fun _ k hk => absurd hk (by simp), fun _ => ⟨by decide, 0, rfl⟩⟩
  | some all =>
    simp only [messageReactionsJson, Option.getD_some]
    set rows := all.take 32
    obtain ⟨m, hm, heq, hbelow, hend⟩ := rowLoop_eq true ((Buffer.new 4096).snprintf (ascii "[")) rows
    have hwrites : (rowLoop true ((Buffer.new 4096).snprintf (ascii "[")) rows).snprintf (ascii "]") =
        (Buffer.new 4096).writes (ascii "[" :: parts true (rows.take m) ++ [ascii "]"]) := by
      rw [heq, writes_append]
      rfl
    have hpos : ((Buffer.new 4096).snprintf (ascii "[")).pos = 1 := rfl
    rw [hwrites, inside_writes_iff]
    constructor
    · intro hle k hk hlt
      have hkm : k < m := by
        by_contra hge
        rcases hend with rfl | hstop
        · omega
        · rw [hpos, length_parts] at hstop
          have := offset_mono rows (show m ≤ k by omega)
          omega
      exact (offset_mono rows hkm).trans hle
    · intro h
      rcases Nat.eq_zero_or_pos m with rfl | hmpos
      · rw [offset_zero]
        omega
      · have hlt : offset rows (m - 1) < 4000 := by
          rcases Nat.eq_zero_or_pos (m - 1) with hzero | hpos'
          · rw [hzero, offset_zero]
            omega
          · have := hbelow (m - 1) (by omega) hpos'
            rwa [hpos, length_parts] at this
        have hlast := h (m - 1) (by omega) hlt
        rwa [Nat.sub_add_cancel hmpos] at hlast

/-- Emoji that share all but one character, and take 93 octets when they are escaped. -/
def longEmoji (i : Fin 32) : CStr 32 where
  text := List.replicate 14 0x01 ++ [0xe4, 0xb8, UInt8.ofNat (0x80 + i)] ++ [0x01]
  noNul := by
    simp only [List.mem_append, List.mem_replicate, List.mem_cons, not_or]
    refine ⟨⟨by decide, by decide, by decide, ?_, by simp⟩, by decide, by simp⟩
    revert i
    decide
  fits := by simp

/-- A hundred users chose each of them. -/
def longRows : List ReactionRow := (List.finRange 32).map fun i => ⟨longEmoji i, 100, 0⟩

/-- The offset is 3999 after 31 different emoji, and one more takes it past the end of the buffer. -/
theorem reactions_leave_buffer :
    (longRows.map ReactionRow.emoji).Nodup ∧ offset longRows 31 = 3999 ∧ offset longRows 32 = 4128 ∧
      (messageReactionsJson (some longRows)).wild = true ∧
      ¬ Inside (messageReactionsJson (some longRows)) longRows := by
  have hwild : (messageReactionsJson (some longRows)).wild = true := by decide +kernel
  refine ⟨by decide +kernel, by decide +kernel, by decide +kernel, hwild, fun h => ?_⟩
  rw [Buffer.wild, decide_eq_true_eq] at hwild
  exact absurd h.1 (by omega)

end SecChat.Reactions
