import Mathlib.Data.List.Basic
import Mathlib.Tactic

/-!
# Messages on a stream

A receiver keeps what it has not used yet in a buffer.  When a piece arrives it appends the piece and
takes messages off the front for as long as there is a complete one.

* `Parser`: takes a message off the front, and does not depend on what follows the message;
* `Parser.drain`: the messages at the front of a buffer, up to one that ends the stream;
* `Parser.feed`: the receiver, piece by piece;
* `Parser.feed_eq`: it does not depend on the pieces;
* `Parser.drain_flatMap`: what was encoded is read back;
* `lineParser`, `parse_line`, `length_drain_lineParser`: messages that end with a separator, and how many
  a stream has.
-/

namespace Framing

variable {α β γ : Type*}

/-- Takes a message off the front. -/
structure Parser (α β : Type*) where
  parse : List α → Option (β × List α)
  length_lt : ∀ {t b rest}, parse t = some (b, rest) → rest.length < t.length
  append : ∀ {t b rest} (u : List α), parse t = some (b, rest) → parse (t ++ u) = some (b, rest ++ u)

namespace Parser

variable (P : Parser α β) (stop : β → Bool)

/-- The messages at the front, and what is left; nothing is left after a message that ends the
stream. -/
def drain (t : List α) : List β × Option (List α) :=
  match h : P.parse t with
  | none => ([], some t)
  | some (b, rest) =>
      if stop b then ([], none)
      else
        have := P.length_lt h
        let r := drain rest
        (b :: r.1, r.2)
termination_by t.length

/-- The receiver with `buf` in its buffer. -/
def feed : List α → List (List α) → List β × Option (List α)
  | buf, [] => ([], some buf)
  | buf, c :: cs =>
      match P.drain stop (buf ++ c) with
      | (bs, none) => (bs, none)
      | (bs, some buf) =>
          let r := feed buf cs
          (bs ++ r.1, r.2)

variable {P stop} {t u rest : List α} {b : β}

theorem drain_none (h : P.parse t = none) : P.drain stop t = ([], some t) := by
  rw [drain]
  split
  · rfl
  · next heq => cases h.symm.trans heq

theorem drain_stop (h : P.parse t = some (b, rest)) (hb : stop b = true) :
    P.drain stop t = ([], none) := by
  rw [drain]
  split
  · next heq => cases h.symm.trans heq
  · next heq =>
    obtain ⟨rfl, rfl⟩ := Prod.mk.inj (Option.some.inj (h.symm.trans heq))
    rw [if_pos hb]

theorem drain_cons (h : P.parse t = some (b, rest)) (hb : stop b = false) :
    P.drain stop t = (b :: (P.drain stop rest).1, (P.drain stop rest).2) := by
  rw [drain]
  split
  · next heq => cases h.symm.trans heq
  · next heq =>
    obtain ⟨rfl, rfl⟩ := Prod.mk.inj (Option.some.inj (h.symm.trans heq))
    rw [if_neg (by simp [hb])]

/-- What `drain` does: it stops, or it leaves a buffer without a complete message. -/
theorem drain_left {bs : List β} {r : List α} (h : P.drain stop t = (bs, some r)) :
    P.parse r = none := by
  induction hn : t.length using Nat.strong_induction_on generalizing t bs with
  | _ n ih =>
    cases hparse : P.parse t with
    | none =>
      rw [drain_none hparse] at h
      obtain ⟨-, heq⟩ := Prod.mk.inj h
      rw [← Option.some.inj heq, hparse]
    | some m =>
      obtain ⟨b, rest⟩ := m
      have hlt := P.length_lt hparse
      cases hb : stop b with
      | true =>
        rw [drain_stop hparse hb] at h
        cases (Prod.mk.inj h).2
      | false =>
        rw [drain_cons hparse hb] at h
        exact ih rest.length (by omega) (Prod.ext rfl (Prod.mk.inj h).2) rfl

/-- After the end of the stream nothing changes. -/
theorem drain_append_of_none {bs : List β} (h : P.drain stop t = (bs, none)) (u : List α) :
    P.drain stop (t ++ u) = (bs, none) := by
  induction hn : t.length using Nat.strong_induction_on generalizing t bs with
  | _ n ih =>
    cases hparse : P.parse t with
    | none =>
      rw [drain_none hparse] at h
      cases (Prod.mk.inj h).2
    | some m =>
      obtain ⟨b, rest⟩ := m
      have hlt := P.length_lt hparse
      have happend := P.append u hparse
      cases hb : stop b with
      | true => rw [drain_stop happend hb, ← h, drain_stop hparse hb]
      | false =>
        rw [drain_cons hparse hb] at h
        obtain ⟨rfl, hleft⟩ := Prod.mk.inj h
        rw [drain_cons happend hb, ih rest.length (by omega) (Prod.ext rfl hleft) rfl]

/-- Otherwise the receiver goes on from what is left. -/
theorem drain_append_of_some {bs : List β} {r : List α} (h : P.drain stop t = (bs, some r))
    (u : List α) :
    P.drain stop (t ++ u) = (bs ++ (P.drain stop (r ++ u)).1, (P.drain stop (r ++ u)).2) := by
  induction hn : t.length using Nat.strong_induction_on generalizing t bs with
  | _ n ih =>
    cases hparse : P.parse t with
    | none =>
      rw [drain_none hparse] at h
      obtain ⟨rfl, heq⟩ := Prod.mk.inj h
      obtain rfl := Option.some.inj heq
      rw [List.nil_append]
    | some m =>
      obtain ⟨b, rest⟩ := m
      have hlt := P.length_lt hparse
      have happend := P.append u hparse
      cases hb : stop b with
      | true =>
        rw [drain_stop hparse hb] at h
        cases (Prod.mk.inj h).2
      | false =>
        rw [drain_cons hparse hb] at h
        obtain ⟨rfl, hleft⟩ := Prod.mk.inj h
        rw [drain_cons happend hb, ih rest.length (by omega) (Prod.ext rfl hleft) rfl]
        rfl

theorem feed_of_left {buf : List α} (hbuf : P.parse buf = none) (cs : List (List α)) :
    P.feed stop buf cs = P.drain stop (buf ++ cs.flatten) := by
  induction cs generalizing buf with
  | nil => rw [feed, List.flatten_nil, List.append_nil, drain_none hbuf]
  | cons c cs ih =>
    rw [feed, List.flatten_cons, ← List.append_assoc]
    rcases hc : P.drain stop (buf ++ c) with ⟨bs, _ | r⟩
    · rw [drain_append_of_none hc]
    · rw [drain_append_of_some hc, ← ih (drain_left hc)]

/-- **The pieces do not matter.** -/
theorem feed_eq (cs : List (List α)) : P.feed stop [] cs = P.drain stop cs.flatten := by
  refine feed_of_left ?_ cs
  cases h : P.parse [] with
  | none => rfl
  | some m => exact absurd (P.length_lt h) (Nat.not_lt_zero _)

/-- Of a part of a stream, the first messages are seen. -/
theorem drain_prefix (t u : List α) :
    (P.drain stop t).1 <+: (P.drain stop (t ++ u)).1 := by
  rcases ht : P.drain stop t with ⟨bs, _ | r⟩
  · rw [drain_append_of_none ht]
  · rw [drain_append_of_some ht]
    exact List.prefix_append ..

/-- **What was encoded is read back**, up to the first message that ends the stream. -/
theorem drain_flatMap {encode : γ → List α} {read : γ → β} {cs : List γ}
    (hencode : ∀ c ∈ cs, ∀ u, P.parse (encode c ++ u) = some (read c, u)) :
    (P.drain stop (cs.flatMap encode)).1 = (cs.map read).takeWhile fun b => !stop b := by
  induction cs with
  | nil =>
    rw [List.flatMap_nil]
    cases h : P.parse [] with
    | none => rw [drain_none h]; rfl
    | some m => exact absurd (P.length_lt h) (Nat.not_lt_zero _)
  | cons c cs ih =>
    have hparse := hencode c List.mem_cons_self (cs.flatMap encode)
    rw [List.flatMap_cons, List.map_cons]
    cases hb : stop (read c) with
    | true =>
      rw [drain_stop hparse hb, List.takeWhile_cons_of_neg (by simp [hb])]
    | false =>
      rw [drain_cons hparse hb, List.takeWhile_cons_of_pos (by simp [hb]),
        ih fun c hc => hencode c (List.mem_cons_of_mem _ hc)]

end Parser

/-! ### Lines -/

section Lines

variable [DecidableEq α] {sep : α} {line : List α}

theorem takeWhile_line (h : sep ∉ line) (u : List α) :
    (line ++ sep :: u).takeWhile (· ≠ sep) = line ∧ (line ++ sep :: u).dropWhile (· ≠ sep) = sep :: u := by
  have hkept : ∀ a ∈ line, decide (a ≠ sep) = true := fun a ha => decide_eq_true fun heq => h (heq ▸ ha)
  rw [List.takeWhile_append_of_pos hkept, List.dropWhile_append_of_pos hkept]
  simp

omit [DecidableEq α] in
/-- A stream with a separator in it, from the first one on. -/
theorem exists_line {t : List α} (h : sep ∈ t) : ∃ line u, sep ∉ line ∧ t = line ++ sep :: u := by
  obtain ⟨line, u, rfl, hline⟩ := List.eq_append_cons_of_mem h
  exact ⟨line, u, hline, rfl⟩

variable (sep) in
/-- The messages are lines, each up to a separator. -/
def lineParser : Parser α (List α) where
  parse t := if sep ∈ t then some (t.takeWhile (· ≠ sep), (t.dropWhile (· ≠ sep)).tail) else none
  length_lt := by
    intro t b rest h
    split at h
    next hmem =>
      obtain ⟨line, u, hline, rfl⟩ := exists_line hmem
      obtain ⟨rfl, rfl⟩ := Prod.mk.inj (Option.some.inj h)
      rw [(takeWhile_line hline u).2, List.tail_cons, List.length_append, List.length_cons]
      omega
    next => cases h
  append := by
    intro t b rest v h
    split at h
    next hmem =>
      obtain ⟨line, u, hline, rfl⟩ := exists_line hmem
      obtain ⟨rfl, rfl⟩ := Prod.mk.inj (Option.some.inj h)
      rw [List.append_assoc, List.cons_append, if_pos (by simp), (takeWhile_line hline (u ++ v)).1,
        (takeWhile_line hline (u ++ v)).2, (takeWhile_line hline u).1, (takeWhile_line hline u).2]
      rfl
    next => cases h

theorem parse_line (h : sep ∉ line) (u : List α) :
    (lineParser sep).parse (line ++ sep :: u) = some (line, u) := by
  show (if sep ∈ line ++ sep :: u then _ else _) = _
  rw [if_pos (by simp), (takeWhile_line h u).1, (takeWhile_line h u).2]
  rfl

theorem length_drain_lineParser (t : List α) :
    ((lineParser sep).drain (fun _ => false) t).1.length = t.count sep := by
  induction hn : t.length using Nat.strong_induction_on generalizing t with
  | _ n ih =>
    by_cases hmem : sep ∈ t
    · obtain ⟨line, u, hline, rfl⟩ := exists_line hmem
      have hlt : u.length < n := by
        rw [← hn, List.length_append, List.length_cons]
        omega
      rw [Parser.drain_cons (parse_line hline u) rfl, List.length_cons, ih u.length hlt u rfl,
        List.count_append, List.count_cons_self, List.count_eq_zero_of_not_mem hline]
      omega
    · have hnone : (lineParser sep).parse t = none := if_neg hmem
      rw [Parser.drain_none hnone, List.count_eq_zero_of_not_mem hmem]
      rfl

end Lines

end Framing
