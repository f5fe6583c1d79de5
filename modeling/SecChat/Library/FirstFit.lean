import Mathlib.Tactic
import SecChat.Library.Runs

/-!
# Requests and replies without a number

A client keeps its open requests in a list.  A reply does not say which request it answers: the
client takes the first one in the list that fits it.  A refusal takes nothing out of the list.

* `Desk`, `Desk.step`: requests in the order in which they were made, the list of open ones, and
  what was taken for which reply;
* `OwnTaken`: every reply took the request that it answers;
* `NoneEarlier`: no request made before the one that a reply answers is still in the list and fits;
* `Inv.step`, `Inv.noneEarlier`: the second is exact for the first.
-/

namespace FirstFit

/-- Requests are known by their numbers. -/
structure Desk (α : Type) where
  /-- All requests, in order. -/
  asked : List α
  /-- The list of the client. -/
  waiting : List (α × ℕ)
  granted : List ℕ
  refused : List ℕ
  /-- What each reply took. -/
  taken : List (ℕ × Option (α × ℕ))

/-- What happens: a request is made, and request number `n` is granted or refused. -/
inductive Event (α β : Type)
  | ask (a : α)
  | grant (n : ℕ) (reply : β)
  | refuse (n : ℕ)

variable {α β : Type} (fits : α → β → Bool) (Answers : α → β → Prop)
  [∀ a b, Decidable (Answers a b)]

namespace Desk

/-- A request that was made and not answered. -/
def Open (d : Desk α) (n : ℕ) : Prop := n ∉ d.granted ∧ n ∉ d.refused

/-- A reply that can come. -/
def Due (d : Desk α) (n : ℕ) (reply : β) : Prop :=
  d.Open n ∧ ∃ a, d.asked[n]? = some a ∧ Answers a reply

instance (d : Desk α) (n : ℕ) : Decidable (d.Open n) := inferInstanceAs (Decidable (_ ∧ _))

instance (d : Desk α) (n : ℕ) (reply : β) : Decidable (d.Due Answers n reply) :=
  match h : d.asked[n]? with
  | none => isFalse fun ⟨_, a, ha, _⟩ => by rw [h] at ha; cases ha
  | some a =>
      if hd : d.Open n ∧ Answers a reply then isTrue ⟨hd.1, a, h, hd.2⟩
      else isFalse fun ⟨ho, a', ha, hr⟩ => hd ⟨ho, by rw [h] at ha; exact Option.some.inj ha ▸ hr⟩

/-- One event; replies that cannot come are left out. -/
def step (d : Desk α) : Event α β → Desk α
  | .ask a => { d with asked := d.asked ++ [a], waiting := d.waiting ++ [(a, d.asked.length)] }
  | .grant n reply =>
      if d.Due Answers n reply then
        { d with
          waiting := d.waiting.eraseP fun x => fits x.1 reply
          granted := n :: d.granted
          taken := d.taken ++ [(n, d.waiting.find? fun x => fits x.1 reply)] }
      else d
  | .refuse n => if n < d.asked.length ∧ d.Open n then { d with refused := n :: d.refused } else d

/-- Nothing was asked yet. -/
def empty : Desk α := ⟨[], [], [], [], []⟩

end Desk

/-- Every reply took the request that it answers. -/
def OwnTaken (d : Desk α) : Prop :=
  ∀ x ∈ d.taken, ∃ a, d.asked[x.1]? = some a ∧ x.2 = some (a, x.1)

/-- No earlier request that was refused or is still open fits the reply. -/
def NoneEarlier (d : Desk α) : Event α β → Prop
  | .grant n reply => d.Due Answers n reply → ∀ m a, m < n → d.asked[m]? = some a → m ∉ d.granted →
      fits a reply = false
  | _ => True

/-- The list of the client holds what was not granted. -/
structure Inv (d : Desk α) : Prop where
  waiting : d.waiting = d.asked.zipIdx.filter fun x => x.2 ∉ d.granted
  granted : ∀ n ∈ d.granted, n < d.asked.length
  refused : ∀ n ∈ d.refused, n < d.asked.length
  own : OwnTaken d

section Lists

/-- Of two that fit, the first one in an ordered list is found. -/
theorem find?_le {γ : Type} {R : γ → γ → Prop} {p : γ → Bool} {l : List γ} (hl : l.Pairwise R)
    {x y : γ} (hx : l.find? p = some x) (hy : y ∈ l) (hp : p y = true) : x = y ∨ R x y := by
  induction l with
  | nil => cases hy
  | cons z l ih =>
    obtain ⟨hz, hl⟩ := List.pairwise_cons.mp hl
    rw [List.find?_cons] at hx
    cases hpz : p z with
    | true =>
      rw [hpz] at hx
      obtain rfl := Option.some.inj hx
      rcases List.mem_cons.mp hy with rfl | hy
      · exact .inl rfl
      · exact .inr (hz y hy)
    | false =>
      rw [hpz] at hx
      rcases List.mem_cons.mp hy with rfl | hy
      · rw [hp] at hpz
        cases hpz
      · exact ih hl hx hy

/-- Erasing what is found. -/
theorem eraseP_eq_filter {γ δ : Type} [DecidableEq δ] {key : γ → δ} {p : γ → Bool} {l : List γ}
    (hl : (l.map key).Nodup) {x : γ} (hx : l.find? p = some x) :
    l.eraseP p = l.filter fun y => key y ≠ key x := by
  induction l with
  | nil => cases hx
  | cons z l ih =>
    obtain ⟨hz, hl⟩ := List.nodup_cons.mp hl
    rw [List.find?_cons] at hx
    cases hpz : p z with
    | true =>
      rw [hpz] at hx
      obtain rfl := Option.some.inj hx
      rw [List.eraseP_cons_of_pos hpz, List.filter_cons_of_neg (by simp), eq_comm,
        List.filter_eq_self]
      intro y hy
      have hne : key y ≠ key z := fun he => hz (he ▸ List.mem_map_of_mem hy)
      exact decide_eq_true hne
    | false =>
      rw [hpz] at hx
      have hne : key z ≠ key x := fun he =>
        hz (he ▸ List.mem_map_of_mem (List.mem_of_find?_eq_some hx))
      rw [List.eraseP_cons_of_neg (by simp [hpz]), List.filter_cons_of_pos (by simpa using hne),
        ih hl hx]

theorem zipIdx_pairwise (l : List α) : l.zipIdx.Pairwise fun x y => x.2 < y.2 := by
  have hidx : (l.zipIdx.map Prod.snd).Pairwise (· < ·) := by
    rw [List.zipIdx_map_snd]
    exact List.pairwise_lt_range'
  exact List.pairwise_map.mp hidx

end Lists

variable {fits Answers} {d : Desk α}

theorem inv_empty : Inv (Desk.empty : Desk α) where
  waiting := rfl
  granted _ h := by cases h
  refused _ h := by cases h
  own _ h := by cases h

theorem mem_waiting (h : Inv d) {a : α} {n : ℕ} :
    (a, n) ∈ d.waiting ↔ d.asked[n]? = some a ∧ n ∉ d.granted := by
  rw [h.waiting, List.mem_filter, List.mk_mem_zipIdx_iff_getElem?, decide_eq_true_iff]

theorem waiting_pairwise (h : Inv d) : d.waiting.Pairwise fun x y => x.2 < y.2 := by
  rw [h.waiting]
  exact (zipIdx_pairwise _).filter _

omit [∀ a b, Decidable (Answers a b)] in
/-- What a reply finds, when no earlier request fits it. -/
theorem find?_own (hfits : ∀ a reply, Answers a reply → fits a reply = true) (h : Inv d) {n : ℕ}
    {reply : β} {a : α} (ha : d.asked[n]? = some a) (hopen : d.Open n) (hreply : Answers a reply)
    (hnone : ∀ m a, m < n → d.asked[m]? = some a → m ∉ d.granted → fits a reply = false) :
    d.waiting.find? (fun x => fits x.1 reply) = some (a, n) := by
  have hmem : (a, n) ∈ d.waiting := (mem_waiting h).mpr ⟨ha, hopen.1⟩
  have hp : (fun x : α × ℕ => fits x.1 reply) (a, n) = true := hfits a reply hreply
  cases hfind : d.waiting.find? fun x => fits x.1 reply with
  | none =>
    have hnot := List.find?_eq_none.mp hfind (a, n) hmem
    exact absurd hp hnot
  | some x =>
    obtain ⟨b, m⟩ := x
    obtain ⟨hb, hm⟩ := (mem_waiting h).mp (List.mem_of_find?_eq_some hfind)
    have hbfits := List.find?_some (p := fun x : α × ℕ => fits x.1 reply) hfind
    rcases find?_le (waiting_pairwise h) hfind hmem hp with he | hlt
    · rw [he]
    · rw [hnone m b hlt hb hm] at hbfits
      cases hbfits

theorem ownTaken_append (h : OwnTaken d) {asked : List α} (hasked : d.asked <+: asked) :
    ∀ x ∈ d.taken, ∃ a, asked[x.1]? = some a ∧ x.2 = some (a, x.1) := by
  intro x hx
  obtain ⟨a, ha, hown⟩ := h x hx
  obtain ⟨rest, rfl⟩ := hasked
  refine ⟨a, ?_, hown⟩
  rw [List.getElem?_append_left (List.getElem?_eq_some_iff.mp ha).1]
  exact ha

/-- An event keeps the invariant when no earlier request fits. -/
theorem Inv.step (hfits : ∀ a reply, Answers a reply → fits a reply = true) (h : Inv d)
    {e : Event α β} (he : NoneEarlier fits Answers d e) : Inv (d.step fits Answers e) := by
  cases e with
  | ask a =>
    refine ⟨?_, fun n hn => ?_, fun n hn => ?_, ownTaken_append h.own (List.prefix_append _ _)⟩
    · have hnew : d.asked.length ∉ d.granted := fun hn => lt_irrefl _ (h.granted _ hn)
      simp only [Desk.step, List.zipIdx_append, List.filter_append, h.waiting, zero_add]
      simp [hnew]
    · simp only [Desk.step, List.length_append]
      exact Nat.lt_add_right _ (h.granted n hn)
    · simp only [Desk.step, List.length_append]
      exact Nat.lt_add_right _ (h.refused n hn)
  | grant n reply =>
    simp only [Desk.step]
    split
    next hdue =>
      have hnone := he hdue
      obtain ⟨hopen, a, ha, hreply⟩ := hdue
      have hfind := find?_own hfits h ha hopen hreply hnone
      have hlen : n < d.asked.length := (List.getElem?_eq_some_iff.mp ha).1
      refine ⟨?_, fun m hm => ?_, h.refused, fun x hx => ?_⟩
      · have hnodup : (d.waiting.map Prod.snd).Nodup := by
          refine List.Pairwise.imp ne_of_lt ?_
          exact List.pairwise_map.mpr (waiting_pairwise h)
        rw [eraseP_eq_filter hnodup hfind, h.waiting, List.filter_filter]
        refine List.filter_congr fun x _ => ?_
        by_cases hx : x.2 = n <;> simp [hx]
      · rcases List.mem_cons.mp hm with rfl | hm
        · exact hlen
        · exact h.granted m hm
      · rcases List.mem_append.mp hx with hx | hx
        · exact h.own x hx
        · obtain rfl := List.mem_singleton.mp hx
          exact ⟨a, ha, hfind⟩
    · exact h
  | refuse n =>
    simp only [Desk.step]
    split
    next hn =>
      refine ⟨h.waiting, h.granted, fun m hm => ?_, h.own⟩
      rcases List.mem_cons.mp hm with rfl | hm
      · exact hn.1
      · exact h.refused m hm
    · exact h

/-- A reply that took its own request was met by no earlier one. -/
theorem Inv.noneEarlier (h : Inv d) {e : Event α β}
    (hown : OwnTaken (d.step fits Answers e)) : NoneEarlier fits Answers d e := by
  cases e with
  | ask a => trivial
  | refuse n => trivial
  | grant n reply =>
    intro hdue m a hlt ha hm
    simp only [Desk.step, if_pos hdue] at hown
    obtain ⟨b, -, htaken⟩ := hown (n, _) (List.mem_append_right _ (List.mem_singleton.mpr rfl))
    by_contra hfit
    have hfit : (fun x : α × ℕ => fits x.1 reply) (a, m) = true := by
      simpa using hfit
    rcases find?_le (waiting_pairwise h) htaken ((mem_waiting h).mpr ⟨ha, hm⟩) hfit with he | hlt'
    · exact absurd (Prod.mk.inj he).2 (by omega)
    · have hnm : n < m := hlt'
      omega

end FirstFit
