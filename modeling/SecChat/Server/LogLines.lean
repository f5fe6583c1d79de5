import SecChat.Library.Framing
import SecChat.Server.Columns
import Mathlib.Data.List.TakeWhile

/-!
# The log (`infra/log.c`)

`log_write` prints a line for each call, as a JSON object when `SECCHAT_LOG_JSON` says so. The text of a
call is formatted into an array of 1024 octets, and in a JSON line it is escaped.

* `Config`, `initOnce`: what is read from the environment;
* `logWrite`: what a call prints;
* `json_lines_read`: whoever reads the JSON lines, in pieces of any size, reads the calls;
* `text_lines_read_iff`: in the other form this holds exactly when no text has a line break.
-/

namespace SecChat.LogLines

open CText JsonReader JsonHelpers Columns Framing

def newline : UInt8 := 0x0a

/-- The labels of `log_info`, `log_warn` and `log_error`. -/
inductive Level
  | info
  | warn
  | error
  deriving DecidableEq

def Level.label : Level → Text
  | .info => ascii "INFO "
  | .warn => ascii "WARN "
  | .error => ascii "ERROR"

/-- `level_int`. -/
def levelInt (lvl : Text) : ℕ :=
  if lvl.take 4 = ascii "DEBU" then 0
  else if lvl.take 4 = ascii "INFO" then 1
  else if lvl.take 4 = ascii "WARN" then 2
  else if lvl.take 4 = ascii "ERRO" then 3
  else 1

/-- `g_json_mode` and `g_min_level`. -/
structure Config where
  json : Bool
  minLevel : ℕ

/-- `strncasecmp(text, word, strlen(word)) == 0`. -/
def startsWithNoCase (text word : Text) : Bool :=
  (text.take word.length).map (fun c => if 0x41 ≤ c ∧ c ≤ 0x5a then c + 0x20 else c) =
    word.map fun c => if 0x41 ≤ c ∧ c ≤ 0x5a then c + 0x20 else c

/-- `init_once`, with the values of the two variables. -/
def initOnce (jsonEnv levelEnv : Option Text) : Config where
  json := (jsonEnv.bind List.head?) = some (octet '1')
  minLevel :=
    match levelEnv with
    | none => 1
    | some level =>
        if startsWithNoCase level (ascii "DEBUG") then 0
        else if startsWithNoCase level (ascii "INFO") then 1
        else if startsWithNoCase level (ascii "WARN") then 2
        else if startsWithNoCase level (ascii "ERROR") then 3
        else 1

/-- A call: its level, the time in both forms, and its formatted text. -/
structure Call where
  level : Level
  stamp : Stamp 24
  clock : Stamp 10
  text : Text

/-- `vsnprintf` into `msg[1024]`. -/
def Call.msg (c : Call) : Text := (c.text.takeWhile (· ≠ 0)).take 1023

/-- The label up to its blank. -/
def Call.levelClean (c : Call) : Text := (c.level.label.take 7).takeWhile (· ≠ octet ' ')

/-- `write_json_escaped`. -/
def writeJsonEscaped (s : Text) : Text := s.flatMap escByte

/-- A line in JSON, up to its end. -/
def Call.jsonLine (c : Call) : Text :=
  fmt "\x7b\"ts\":\"%s\",\"level\":\"%s\",\"msg\":\"" [c.stamp.text, c.levelClean] ++
    (writeJsonEscaped c.msg ++ ascii "\"\x7d")

/-- A line in the other form, up to its end. -/
def Call.textLine (c : Call) : Text := fmt "[%s] %s  %s" [c.clock.text, c.level.label, c.msg]

/-- Whether a call is printed. -/
def Call.shown (cfg : Config) (c : Call) : Bool := ¬ levelInt c.level.label < cfg.minLevel

/-- `log_write`. -/
def logWrite (cfg : Config) (c : Call) : Text :=
  if levelInt c.level.label < cfg.minLevel then []
  else if cfg.json then c.jsonLine ++ [newline]
  else c.textLine ++ [newline]

/-- What a JSON line says. -/
def Call.value (c : Call) : Value :=
  .obj [Columns.field "ts" (.str c.stamp.text), Columns.field "level" (.str c.levelClean),
    Columns.field "msg" (.str c.msg)]

/-! ### A line -/

def lineLayout : Layout := [("ts", .str), ("level", .str), ("msg", .str)]

theorem content_writeJsonEscaped (s : Text) : Content (writeJsonEscaped s) s := by
  induction s with
  | nil => exact Content.nil
  | cons c s ih => exact (content_escByte c).append ih

theorem newline_notMem_escByte (c : UInt8) : newline ∉ escByte c := by
  have hdigit : ∀ k < 16, newline ≠ hexChar k := by decide
  have hlt : c.toNat < 256 := c.toNat_lt
  rw [escByte]
  split_ifs with hquote hback hn hr ht hctl
  · decide
  · decide
  · decide
  · decide
  · decide
  · simp only [List.mem_cons, List.not_mem_nil, or_false, not_or]
    exact ⟨by decide, by decide, by decide, by decide, hdigit _ (by omega), hdigit _ (by omega)⟩
  · rw [List.mem_singleton]
    exact fun h => hn h.symm

theorem newline_notMem_plain {t : Text} (h : ∀ c ∈ t, Plain c) : newline ∉ t := by
  intro hmem
  obtain ⟨-, -, hctl⟩ := h _ hmem
  exact hctl (by decide)

theorem plain_levelClean (c : Call) : ∀ o ∈ c.levelClean, Plain o := by
  unfold Call.levelClean
  cases c.level <;> decide

theorem jsonLine_eq (c : Call) :
    c.jsonLine = fmt "\x7b\"ts\":\"%s\",\"level\":\"%s\",\"msg\":\"%s\"\x7d"
      [c.stamp.text, c.levelClean, writeJsonEscaped c.msg] := by
  rw [Call.jsonLine, fmt_ofList rfl, fmt_ofList rfl]
  simp [directives, fill, ascii]

theorem parse_jsonLine (c : Call) : parse c.jsonLine = some c.value := by
  have hvs : List.Forall₂ JsonReader.Reads
      (lineLayout.texts [c.stamp.text, c.levelClean, writeJsonEscaped c.msg])
      [.str c.stamp.text, .str c.levelClean, .str c.msg] :=
    .cons (reads_quoted (content_of_plain c.stamp.plain))
      (.cons (reads_quoted (content_of_plain (plain_levelClean c)))
        (.cons (reads_quoted (content_writeJsonEscaped _)) .nil))
  rw [jsonLine_eq]
  exact (whole_fmt lineLayout rfl rfl (by decide) hvs).parse

theorem newline_notMem_jsonLine (c : Call) : newline ∉ c.jsonLine := by
  have hescaped : newline ∉ writeJsonEscaped c.msg := by
    intro h
    obtain ⟨o, -, ho⟩ := List.mem_flatMap.mp h
    exact newline_notMem_escByte o ho
  have hopen : newline ∉ ascii "\x7b\"ts\":\"" := by decide
  have hlevel : newline ∉ ascii "\",\"level\":\"" := by decide
  have hmsg : newline ∉ ascii "\",\"msg\":\"" := by decide
  have hclose : newline ∉ ascii "\"\x7d" := by decide
  have heq : c.jsonLine = ascii "\x7b\"ts\":\"" ++ (c.stamp.text ++ (ascii "\",\"level\":\"" ++
      (c.levelClean ++ (ascii "\",\"msg\":\"" ++ (writeJsonEscaped c.msg ++ ascii "\"\x7d"))))) := by
    rw [Call.jsonLine, fmt_ofList rfl]
    simp [directives, fill, ascii]
  rw [heq]
  simp only [List.mem_append, not_or]
  exact ⟨hopen, newline_notMem_plain c.stamp.plain, hlevel, newline_notMem_plain (plain_levelClean c),
    hmsg, hescaped, hclose⟩

/-! ### The stream -/

/-- The calls that are printed, one after the other. -/
theorem flatMap_logWrite (cfg : Config) (cs : List Call) :
    cs.flatMap (logWrite cfg) = (cs.filter (Call.shown cfg)).flatMap fun c =>
      (if cfg.json then c.jsonLine else c.textLine) ++ [newline] := by
  induction cs with
  | nil => rfl
  | cons c cs ih =>
    rw [List.flatMap_cons, ih, logWrite]
    by_cases hshown : levelInt c.level.label < cfg.minLevel
    · rw [if_pos hshown, List.filter_cons_of_neg (by simp [Call.shown, hshown])]
      rfl
    · rw [if_neg hshown, List.filter_cons_of_pos (by simp [Call.shown, hshown]), List.flatMap_cons]
      split <;> rfl

/-- **One JSON object for each call.** Whoever reads the log as lines, in pieces of any size, reads for each
call from the smallest level on, in their order, one JSON object with the time, the level and the first
1023 octets of the text, whatever is in it. -/
theorem json_lines_read (cfg : Config) (hjson : cfg.json = true) (cs : List Call) (chunks : List Text)
    (hchunks : chunks.flatten = cs.flatMap (logWrite cfg)) :
    ((lineParser newline).feed (fun _ => false) [] chunks).1.map parse =
      (cs.filter (Call.shown cfg)).map fun c => some c.value := by
  have hread : ((lineParser newline).drain (fun _ => false)
      ((cs.filter (Call.shown cfg)).flatMap fun c => c.jsonLine ++ [newline])).1 =
        ((cs.filter (Call.shown cfg)).map Call.jsonLine).takeWhile fun _ => !false :=
    Parser.drain_flatMap fun c _ u => by
      rw [List.append_assoc]
      exact parse_line (newline_notMem_jsonLine c) u
  rw [Parser.feed_eq, hchunks, flatMap_logWrite]
  simp only [hjson, if_true]
  rw [hread, List.takeWhile_eq_self_iff.mpr (by simp), List.map_map]
  exact List.map_congr_left fun c _ => parse_jsonLine c

/-- A call for examples. -/
def entry (text : String) : Call :=
  ⟨.info, ⟨⟨ascii "2026-05-03T08:33:11Z", by decide, by decide⟩, by decide⟩,
    ⟨⟨ascii "08:33:11", by decide, by decide⟩, by decide⟩, ascii text⟩

/-- A text with a line break, read in two pieces. -/
theorem json_lines_read_break :
    let out := [entry "a\nb"].flatMap (logWrite ⟨true, 1⟩)
    ((lineParser newline).feed (fun _ => false) [] [out.take 9, out.drop 9]).1.map parse =
      [some (entry "a\nb").value] :=
  json_lines_read ⟨true, 1⟩ rfl [entry "a\nb"] _ (by simp)

theorem count_textLine (c : Call) : (c.textLine ++ [newline]).count newline = c.msg.count newline + 1 := by
  have hlabel : newline ∉ c.level.label := by
    cases c.level <;> decide
  have heq : c.textLine = ascii "[" ++ (c.clock.text ++ (ascii "] " ++ (c.level.label ++
      (ascii "  " ++ c.msg)))) := by
    rw [Call.textLine, fmt_ofList rfl]
    simp [directives, fill, ascii]
  rw [heq]
  simp only [List.count_append, List.count_eq_zero_of_not_mem (newline_notMem_plain c.clock.plain),
    List.count_eq_zero_of_not_mem hlabel,
    List.count_eq_zero_of_not_mem (show newline ∉ ascii "[" by decide),
    List.count_eq_zero_of_not_mem (show newline ∉ ascii "] " by decide),
    List.count_eq_zero_of_not_mem (show newline ∉ ascii "  " by decide), List.count_singleton_self,
    Nat.zero_add]

theorem count_textLines (cs : List Call) :
    (cs.flatMap fun c => c.textLine ++ [newline]).count newline =
      cs.length + (cs.map fun c => c.msg.count newline).sum := by
  induction cs with
  | nil => rfl
  | cons c cs ih =>
    rw [List.flatMap_cons, List.count_append, count_textLine, ih, List.length_cons, List.map_cons,
      List.sum_cons]
    omega

/-- **Lines that nobody logged.** In the other form the lines that are read are the calls' exactly when no
text that is printed has a line break. -/
theorem text_lines_read_iff (cfg : Config) (hjson : cfg.json = false) (cs : List Call) (chunks : List Text)
    (hchunks : chunks.flatten = cs.flatMap (logWrite cfg)) :
    ((lineParser newline).feed (fun _ => false) [] chunks).1 =
        (cs.filter (Call.shown cfg)).map Call.textLine ↔
      ∀ c ∈ cs.filter (Call.shown cfg), newline ∉ c.msg := by
  rw [Parser.feed_eq, hchunks, flatMap_logWrite]
  simp only [hjson]
  constructor
  · intro hread
    have hlength := congrArg List.length hread
    have hstream := count_textLines (cs.filter (Call.shown cfg))
    rw [length_drain_lineParser, List.length_map] at hlength
    have hsum : ((cs.filter (Call.shown cfg)).map fun c => c.msg.count newline).sum = 0 := by
      have hsame := hstream.symm.trans hlength
      omega
    intro c hc
    exact List.count_eq_zero.mp (List.sum_eq_zero_iff.mp hsum _ (List.mem_map_of_mem hc))
  · intro hno
    have hline : ∀ c ∈ cs.filter (Call.shown cfg), newline ∉ c.textLine := by
      intro c hc hmem
      have hcount := count_textLine c
      rw [List.count_append, List.count_singleton_self, List.count_eq_zero_of_not_mem (hno c hc)] at hcount
      exact List.count_eq_zero.mp (Nat.add_right_cancel hcount) hmem
    have hread : ((lineParser newline).drain (fun _ => false)
        ((cs.filter (Call.shown cfg)).flatMap fun c => c.textLine ++ [newline])).1 =
          ((cs.filter (Call.shown cfg)).map Call.textLine).takeWhile fun _ => !false :=
      Parser.drain_flatMap fun c hc u => by
        rw [List.append_assoc]
        exact parse_line (hline c hc) u
    exact hread.trans (List.takeWhile_eq_self_iff.mpr (by simp))

/-- A text that brings its own second line. -/
theorem text_lines_read_forged :
    let out := [entry "a\n[08:33:12] WARN   b"].flatMap (logWrite ⟨false, 1⟩)
    ((lineParser newline).feed (fun _ => false) [] [out]).1 ≠
      [(entry "a\n[08:33:12] WARN   b").textLine] := by
  intro out hread
  have hno := (text_lines_read_iff ⟨false, 1⟩ rfl [entry "a\n[08:33:12] WARN   b"] [out]
    (by simp [out])).mp hread
  exact absurd (hno _ (List.mem_filter.mpr ⟨List.mem_singleton_self _, by decide⟩)) (by decide)

end SecChat.LogLines
