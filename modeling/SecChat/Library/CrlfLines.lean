import Mathlib.Data.List.Infix
import Mathlib.Tactic.Basic

/-!
# Lines that end in CR LF

* `cut`: the first line of a text and what follows it;
* `IsLine`: a text that is a line when a CR LF follows;
* `lines`: the lines of a text, without what stands behind the last CR LF;
* `lines_eq_iff`: they are the only way to write the text as lines and a rest without a CR LF.
-/

namespace CrlfLines

/-- An octet string. -/
abbrev Text := List UInt8

def crlf : Text := [0x0d, 0x0a]

/-- `strstr(text, "\r\n")`: the text before the first CR LF, and the text behind it. -/
def cut : Text → Option (Text × Text)
  | [] => none
  | c :: cs =>
    if c = 0x0d ∧ cs.head? = some 0x0a then some ([], cs.drop 1)
    else (cut cs).map fun p => (c :: p.1, p.2)

/-- A CR LF behind `line` is the first one. -/
def IsLine (line : Text) : Prop := ¬ crlf <:+: line ++ [0x0d]

theorem crlf_infix_cons {c : UInt8} {cs : Text} :
    crlf <:+: c :: cs ↔ c = 0x0d ∧ cs.head? = some 0x0a ∨ crlf <:+: cs := by
  rw [List.infix_cons_iff]
  refine or_congr_left ?_
  rw [crlf, List.cons_prefix_cons, eq_comm]
  refine and_congr_right fun _ => ?_
  cases cs with
  | nil => simp
  | cons d ds => simp [List.cons_prefix_cons, eq_comm]

theorem isLine_nil : IsLine [] := by
  rw [IsLine, List.nil_append, crlf_infix_cons]
  rintro (⟨-, h⟩ | h)
  · cases h
  · simpa [crlf] using h.length_le

theorem isLine_cons {c : UInt8} {line : Text} :
    IsLine (c :: line) ↔ ¬ (c = 0x0d ∧ (line ++ [0x0d]).head? = some 0x0a) ∧ IsLine line := by
  rw [IsLine, List.cons_append, crlf_infix_cons, not_or, IsLine]

/-- The first line. -/
theorem cut_append {line : Text} (h : IsLine line) (rest : Text) :
    cut (line ++ crlf ++ rest) = some (line, rest) := by
  induction line with
  | nil => rfl
  | cons c line ih =>
    obtain ⟨hc, hline⟩ := isLine_cons.mp h
    have hhead : (line ++ crlf ++ rest).head? = (line ++ [0x0d]).head? := by
      cases line <;> rfl
    rw [List.cons_append, List.cons_append, cut, hhead, if_neg hc, ih hline]
    rfl

theorem cut_eq_none_iff {text : Text} : cut text = none ↔ ¬ crlf <:+: text := by
  induction text with
  | nil => simp [cut, crlf]
  | cons c cs ih =>
    rw [cut, crlf_infix_cons, not_or]
    split_ifs with h
    · simp [h]
    · simp [h, ih]

theorem eq_of_cut {text line rest : Text} (h : cut text = some (line, rest)) :
    text = line ++ crlf ++ rest ∧ IsLine line := by
  induction text generalizing line with
  | nil => cases h
  | cons c cs ih =>
    rw [cut] at h
    split_ifs at h with hc
    · cases h
      obtain ⟨rfl, hhead⟩ := hc
      cases cs with
      | nil => cases hhead
      | cons d ds =>
        cases hhead
        exact ⟨rfl, isLine_nil⟩
    · obtain ⟨⟨line', rest'⟩, hcut, heq⟩ := Option.map_eq_some_iff.mp h
      cases heq
      obtain ⟨rfl, hline⟩ := ih hcut
      refine ⟨rfl, isLine_cons.mpr ⟨?_, hline⟩⟩
      have hhead : (line' ++ crlf ++ rest').head? = (line' ++ [0x0d]).head? := by
        cases line' <;> rfl
      rwa [hhead] at hc

theorem length_of_cut {text line rest : Text} (h : cut text = some (line, rest)) :
    rest.length < text.length := by
  rw [(eq_of_cut h).1]
  simp only [List.length_append, crlf, List.length_cons, List.length_nil]
  omega

/-- The lines of a text that end in CR LF. -/
def lines (text : Text) : List Text :=
  match _h : cut text with
  | none => []
  | some (line, rest) => line :: lines rest
termination_by text.length
decreasing_by exact length_of_cut _h

theorem lines_of_none {text : Text} (h : cut text = none) : lines text = [] := by
  rw [lines]
  split
  · rfl
  · next hc => rw [h] at hc; cases hc

theorem lines_of_some {text line rest : Text} (h : cut text = some (line, rest)) :
    lines text = line :: lines rest := by
  rw [lines]
  split
  · next hc => rw [h] at hc; cases hc
  · next hc =>
    rw [h] at hc
    cases hc
    rfl

/-- The lines of a text are the one way to cut it. -/
theorem lines_eq_iff {text : Text} {ls : List Text} :
    lines text = ls ↔ ∃ tail, text = ls.flatMap (· ++ crlf) ++ tail ∧ (∀ l ∈ ls, IsLine l) ∧
      ¬ crlf <:+: tail := by
  induction ls generalizing text with
  | nil =>
    cases h : cut text with
    | none =>
      rw [lines_of_none h]
      simpa using cut_eq_none_iff.mp h
    | some p =>
      rw [lines_of_some h]
      have hcut : ¬ cut text = none := by simp [h]
      rw [cut_eq_none_iff, not_not] at hcut
      simpa using hcut
  | cons l ls ih =>
    constructor
    · intro h
      cases hcut : cut text with
      | none =>
        rw [lines_of_none hcut] at h
        cases h
      | some p =>
        obtain ⟨line, rest⟩ := p
        rw [lines_of_some hcut] at h
        obtain ⟨rfl, hrest⟩ := List.cons.inj h
        obtain ⟨htext, hline⟩ := eq_of_cut hcut
        obtain ⟨tail, rfl, hls, htail⟩ := ih.mp hrest
        refine ⟨tail, by simp [htext], ?_, htail⟩
        exact List.forall_mem_cons.mpr ⟨hline, hls⟩
    · rintro ⟨tail, rfl, hls, htail⟩
      obtain ⟨hl, hls⟩ := List.forall_mem_cons.mp hls
      rw [List.flatMap_cons, List.append_assoc, lines_of_some (cut_append hl _)]
      exact congrArg _ (ih.mpr ⟨tail, rfl, hls, htail⟩)

end CrlfLines
