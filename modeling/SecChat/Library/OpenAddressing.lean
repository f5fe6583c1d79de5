import Mathlib.Data.Fintype.Card
import Mathlib.Data.List.Induction
import Mathlib.Logic.Function.Basic

/-!
# Open addressing

A table of buckets is searched for a key along a sequence of slots, up to the first empty one.  A
bucket that is no longer used is not empty: it keeps the searches of other keys going.

* `Scheme`: which buckets are empty, the key that a bucket is used for, and where a key is searched;
* `Scheme.Sound`: no key is used twice, and every key that is used is found;
* `Sound.mono`, `Sound.rewrite`, `Sound.insert`: the writes that keep a table sound;
* `Sound.absent`: a search that ends at an empty slot has seen everything;
* `Scheme.Holds`, `holds_update_self`, `holds_update_of_ne`: the bucket of a key, and writing one;
* `Scheme.rebuild`, `Sound.rebuilt`: a new table with given buckets;
* `Scheme.occupied`: the number of slots that are not empty.
-/

namespace OpenAddressing

/-- How a table is read. -/
structure Scheme (σ β κ : Type*) where
  isEmpty : β → Bool
  keyOf : β → Option κ
  order : κ → List σ
  keyOf_of_isEmpty : ∀ b, isEmpty b = true → keyOf b = none
  mem_order : ∀ k s, s ∈ order k

variable {σ β κ : Type*} {S : Scheme σ β κ} {t : σ → β}

/-- No key is used twice, and on the way to a key that is used no slot is empty. -/
structure Scheme.Sound (S : Scheme σ β κ) (t : σ → β) : Prop where
  unique : ∀ s s' k, S.keyOf (t s) = some k → S.keyOf (t s') = some k → s = s'
  placed : ∀ s k, S.keyOf (t s) = some k → ∃ pre post, S.order k = pre ++ s :: post ∧
    ∀ s' ∈ pre, S.isEmpty (t s') = false

theorem Scheme.not_isEmpty_of_keyOf {b : β} {k : κ} (h : S.keyOf b = some k) :
    S.isEmpty b = false := by
  rw [← Bool.not_eq_true]
  intro hempty
  rw [S.keyOf_of_isEmpty b hempty] at h
  cases h

theorem Scheme.sound_of_empty (h : ∀ s, S.isEmpty (t s) = true) : S.Sound t where
  unique s s' k hk := by
    rw [S.keyOf_of_isEmpty _ (h s)] at hk
    cases hk
  placed s k hk := by
    rw [S.keyOf_of_isEmpty _ (h s)] at hk
    cases hk

/-- Keys may get out of use, but slots do not become empty. -/
theorem Scheme.Sound.mono (h : S.Sound t) {t' : σ → β}
    (hkeys : ∀ s k, S.keyOf (t' s) = some k → S.keyOf (t s) = some k)
    (hfull : ∀ s, S.isEmpty (t s) = false → S.isEmpty (t' s) = false) : S.Sound t' where
  unique s s' k hk hk' := h.unique s s' k (hkeys s k hk) (hkeys s' k hk')
  placed s k hk := by
    obtain ⟨pre, post, horder, hpre⟩ := h.placed s k (hkeys s k hk)
    exact ⟨pre, post, horder, fun s' hs' => hfull s' (hpre s' hs')⟩

/-- A search that ends at an empty slot without the key has shown that it is not used. -/
theorem Scheme.Sound.absent (h : S.Sound t) {k : κ} {pre post : List σ} {v : σ}
    (horder : S.order k = pre ++ v :: post) (hv : S.isEmpty (t v) = true)
    (hpre : ∀ s ∈ pre, S.keyOf (t s) ≠ some k) (s : σ) : S.keyOf (t s) ≠ some k := by
  intro hk
  obtain ⟨front, back, horder', hfront⟩ := h.placed s k hk
  rw [horder] at horder'
  -- either the empty slot comes before `s`, or `s` is among the slots that were seen
  rcases List.append_eq_append_iff.mp horder' with ⟨mid, hfront', hmid⟩ | ⟨mid, hpre', hmid⟩
  · cases mid with
    | nil =>
      rw [List.nil_append] at hmid
      obtain ⟨rfl, -⟩ := List.cons.inj hmid
      rw [S.keyOf_of_isEmpty _ hv] at hk
      cases hk
    | cons first mid =>
      rw [List.cons_append] at hmid
      obtain ⟨rfl, -⟩ := List.cons.inj hmid
      have hseen := hfront v (by rw [hfront']; simp)
      rw [hv] at hseen
      cases hseen
  · cases mid with
    | nil =>
      rw [List.nil_append] at hmid
      obtain ⟨rfl, -⟩ := List.cons.inj hmid
      rw [S.keyOf_of_isEmpty _ hv] at hk
      cases hk
    | cons first mid =>
      rw [List.cons_append] at hmid
      obtain ⟨rfl, -⟩ := List.cons.inj hmid
      exact hpre s (by rw [hpre']; simp) hk

/-! ### Counting -/

/-- The number of slots that are not empty. -/
def Scheme.occupied [Fintype σ] (S : Scheme σ β κ) (t : σ → β) : ℕ :=
  (Finset.univ.filter fun s => S.isEmpty (t s) = false).card

theorem Scheme.occupied_of_empty [Fintype σ] (h : ∀ s, S.isEmpty (t s) = true) :
    S.occupied t = 0 := by
  rw [occupied, Finset.card_eq_zero, Finset.filter_eq_empty_iff]
  intro s _ hs
  rw [h s] at hs
  cases hs

/-- While not every slot is occupied, some slot is empty. -/
theorem Scheme.exists_isEmpty [Fintype σ] (h : S.occupied t < Fintype.card σ) :
    ∃ s, S.isEmpty (t s) = true := by
  by_contra hnone
  push Not at hnone
  refine h.ne ?_
  rw [occupied, Finset.filter_true_of_mem fun s _ => Bool.eq_false_of_not_eq_true (hnone s),
    Finset.card_univ]

/-! ### Writes -/

variable [DecidableEq σ]

/-- A slot that gets a bucket stays on the way of other keys. -/
theorem isEmpty_update {s s' : σ} {b : β} (hb : S.isEmpty b = false)
    (h : S.isEmpty (t s') = false) : S.isEmpty (Function.update t s b s') = false := by
  by_cases hs : s' = s
  · rw [hs, Function.update_self]
    exact hb
  · rw [Function.update_of_ne hs]
    exact h

/-- A bucket is rewritten, for the same key or for none. -/
theorem Scheme.Sound.rewrite (h : S.Sound t) {s : σ} {b : β} (hb : S.isEmpty b = false)
    (hkey : ∀ k, S.keyOf b = some k → S.keyOf (t s) = some k) :
    S.Sound (Function.update t s b) := by
  refine h.mono (fun s' k hk => ?_) fun s' hs' => isEmpty_update hb hs'
  by_cases hs : s' = s
  · subst hs
    rw [Function.update_self] at hk
    exact hkey k hk
  · rwa [Function.update_of_ne hs] at hk

/-- A key that is not used is put on its way, no later than the first empty slot. -/
theorem Scheme.Sound.insert (h : S.Sound t) {k : κ} {pre post : List σ} {v a : σ} {b : β}
    (horder : S.order k = pre ++ v :: post) (hpre : ∀ s ∈ pre, S.isEmpty (t s) = false)
    (ha : a ∈ pre ∨ a = v) (hfree : S.keyOf (t a) = none) (hb : S.keyOf b = some k)
    (habsent : ∀ s, S.keyOf (t s) ≠ some k) : S.Sound (Function.update t a b) := by
  have hfull : S.isEmpty b = false := Scheme.not_isEmpty_of_keyOf hb
  have hold : ∀ s k', s ≠ a → S.keyOf (Function.update t a b s) = some k' →
      S.keyOf (t s) = some k' := fun s k' hs hk' => by rwa [Function.update_of_ne hs] at hk'
  have hat : ∀ k', S.keyOf (Function.update t a b a) = some k' → k' = k := by
    intro k' hk'
    rw [Function.update_self, hb] at hk'
    exact (Option.some.inj hk').symm
  constructor
  · intro s s' k' hk hk'
    by_cases hs : s = a
    · subst hs
      obtain rfl := hat k' hk
      by_contra hne
      exact habsent s' (hold s' _ (Ne.symm hne) hk')
    · by_cases hs' : s' = a
      · subst hs'
        obtain rfl := hat k' hk'
        exact absurd (hold s _ hs hk) (habsent s)
      · exact h.unique s s' k' (hold s k' hs hk) (hold s' k' hs' hk')
  · intro s k' hk
    by_cases hs : s = a
    · subst hs
      obtain rfl := hat k' hk
      rcases ha with ha | rfl
      · obtain ⟨front, back, rfl⟩ := List.append_of_mem ha
        refine ⟨front, back ++ v :: post, by rw [horder, List.append_assoc, List.cons_append], ?_⟩
        exact fun s' hs' => isEmpty_update hfull (hpre s' (List.mem_append_left _ hs'))
      · exact ⟨pre, post, horder, fun s' hs' => isEmpty_update hfull (hpre s' hs')⟩
    · obtain ⟨front, back, horder', hfront⟩ := h.placed s k' (hold s k' hs hk)
      exact ⟨front, back, horder', fun s' hs' => isEmpty_update hfull (hfront s' hs')⟩

/-- The bucket of a key. -/
def Scheme.Holds (S : Scheme σ β κ) (t : σ → β) (k : κ) (b : β) : Prop :=
  ∃ s, t s = b ∧ S.keyOf b = some k

/-- The only slot of a key is written. -/
theorem Scheme.holds_update_self {s : σ} {b b' : β} {k : κ} (hb : S.keyOf b = some k)
    (hs : ∀ s', S.keyOf (t s') = some k → s' = s) :
    S.Holds (Function.update t s b) k b' ↔ b' = b := by
  constructor
  · rintro ⟨s', rfl, hk⟩
    by_cases heq : s' = s
    · rw [heq, Function.update_self]
    · rw [Function.update_of_ne heq] at hk
      exact absurd (hs s' hk) heq
  · rintro rfl
    exact ⟨s, Function.update_self .., hb⟩

/-- Other keys keep their buckets. -/
theorem Scheme.holds_update_of_ne {s : σ} {b b' : β} {k k' : κ} (hb : S.keyOf b = some k)
    (hs : ∀ k', S.keyOf (t s) = some k' → k' = k) (hne : k' ≠ k) :
    S.Holds (Function.update t s b) k' b' ↔ S.Holds t k' b' := by
  constructor
  · rintro ⟨s', rfl, hk⟩
    have hother : s' ≠ s := by
      rintro rfl
      rw [Function.update_self, hb] at hk
      exact hne (Option.some.inj hk).symm
    rw [Function.update_of_ne hother] at hk ⊢
    exact ⟨s', rfl, hk⟩
  · rintro ⟨s', rfl, hk⟩
    have hother : s' ≠ s := by
      rintro rfl
      exact hne (hs k' hk)
    exact ⟨s', Function.update_of_ne hother .., hk⟩

theorem Scheme.occupied_update [Fintype σ] {s : σ} {b : β} (hb : S.isEmpty b = false) :
    S.occupied (Function.update t s b) =
      if S.isEmpty (t s) = true then S.occupied t + 1 else S.occupied t := by
  have hset : (Finset.univ.filter fun s' => S.isEmpty (Function.update t s b s') = false) =
      insert s (Finset.univ.filter fun s' => S.isEmpty (t s') = false) := by
    ext s'
    by_cases hs : s' = s
    · subst hs
      simp [hb]
    · simp [hs]
  rw [occupied, occupied, hset]
  split
  · next hempty => exact Finset.card_insert_of_notMem (by simp [hempty])
  · next hfull =>
    rw [Finset.insert_eq_of_mem]
    simpa using hfull

/-! ### A new table -/

/-- A bucket is put into the first empty slot of its key. -/
def Scheme.place (S : Scheme σ β κ) (t : σ → β) (k : κ) (b : β) : σ → β :=
  match (S.order k).find? fun s => S.isEmpty (t s) with
  | some s => Function.update t s b
  | none => t

/-- The buckets one after the other. -/
def Scheme.rebuild (S : Scheme σ β κ) (key : β → κ) (t : σ → β) (bs : List β) : σ → β :=
  bs.foldl (fun t b => S.place t (key b) b) t

@[simp] theorem Scheme.rebuild_nil (key : β → κ) (t : σ → β) : S.rebuild key t [] = t := rfl

theorem Scheme.rebuild_cons (key : β → κ) (t : σ → β) (b : β) (bs : List β) :
    S.rebuild key t (b :: bs) = S.rebuild key (S.place t (key b) b) bs := rfl

/-- What a table looks like after it was rebuilt with some buckets. -/
structure Rebuilt (S : Scheme σ β κ) [Fintype σ] (t : σ → β) (bs : List β) : Prop where
  sound : S.Sound t
  only : ∀ s, S.isEmpty (t s) = true ∨ t s ∈ bs
  all : ∀ b ∈ bs, ∃ s, t s = b
  count : S.occupied t = bs.length

theorem Scheme.place_eq [Fintype σ] (hroom : S.occupied t < Fintype.card σ) (k : κ) (b : β) :
    ∃ s pre post, S.place t k b = Function.update t s b ∧ S.order k = pre ++ s :: post ∧
      S.isEmpty (t s) = true ∧ ∀ s' ∈ pre, S.isEmpty (t s') = false := by
  obtain ⟨e, he⟩ := Scheme.exists_isEmpty hroom
  have hfound : ((S.order k).find? fun s => S.isEmpty (t s)).isSome = true :=
    List.find?_isSome.mpr ⟨e, S.mem_order k e, he⟩
  obtain ⟨s, hs⟩ := Option.isSome_iff_exists.mp hfound
  obtain ⟨hempty, pre, post, horder, hpre⟩ := List.find?_eq_some_iff_append.mp hs
  refine ⟨s, pre, post, by rw [place, hs], horder, hempty, fun s' hs' => ?_⟩
  simpa using hpre s' hs'

/-- **A rebuilt table is sound.** It has the given buckets, if their keys differ and there is room
for them. -/
theorem Scheme.rebuilt [Fintype σ] {key : β → κ} {e : β} (he : S.isEmpty e = true) {bs : List β}
    (hkeys : ∀ b ∈ bs, S.keyOf b = some (key b)) (hdistinct : (bs.map key).Nodup)
    (hroom : bs.length ≤ Fintype.card σ) : Rebuilt S (S.rebuild key (fun _ => e) bs) bs := by
  induction bs using List.reverseRecOn with
  | nil =>
    exact ⟨Scheme.sound_of_empty fun _ => he, fun _ => .inl he,
      fun b hb => absurd hb List.not_mem_nil, Scheme.occupied_of_empty fun _ => he⟩
  | append_singleton bs b ih =>
    rw [List.length_append, List.length_singleton] at hroom
    rw [List.map_append, List.map_singleton] at hdistinct
    have hbs := ih (fun b' hb' => hkeys b' (List.mem_append_left _ hb'))
      (List.nodup_append.mp hdistinct).1 (Nat.le_of_succ_le hroom)
    have hkey : S.keyOf b = some (key b) :=
      hkeys b (List.mem_append_right _ (List.mem_singleton_self b))
    have hstep : S.rebuild key (fun _ => e) (bs ++ [b]) =
        S.place (S.rebuild key (fun _ => e) bs) (key b) b := by
      rw [rebuild, List.foldl_append]
      rfl
    obtain ⟨s, pre, post, hplace, horder, hempty, hpre⟩ :=
      Scheme.place_eq (S := S) (t := S.rebuild key (fun _ => e) bs)
        (by rw [hbs.count]; exact hroom) (key b) b
    have hfull : S.isEmpty b = false := Scheme.not_isEmpty_of_keyOf hkey
    have habsent : ∀ s', S.keyOf (S.rebuild key (fun _ => e) bs s') ≠ some (key b) := by
      intro s' hs'
      have hmem := (hbs.only s').resolve_left (by
        rw [Scheme.not_isEmpty_of_keyOf hs']
        exact Bool.false_ne_true)
      rw [hkeys _ (List.mem_append_left _ hmem)] at hs'
      exact (List.nodup_append.mp hdistinct).2.2 _ (List.mem_map_of_mem hmem) _
        (List.mem_singleton_self _) (Option.some.inj hs')
    rw [hstep, hplace]
    refine ⟨hbs.sound.insert horder hpre (.inr rfl) (S.keyOf_of_isEmpty _ hempty) hkey habsent,
      fun s' => ?_, fun b' hb' => ?_, ?_⟩
    · by_cases hs : s' = s
      · rw [hs, Function.update_self]
        exact .inr (List.mem_append_right _ (List.mem_singleton_self b))
      · rw [Function.update_of_ne hs]
        exact (hbs.only s').imp_right (List.mem_append_left _)
    · rcases List.mem_append.mp hb' with hb' | hb'
      · obtain ⟨s', hs'⟩ := hbs.all b' hb'
        refine ⟨s', ?_⟩
        rw [Function.update_of_ne, hs']
        rintro rfl
        have hkey' := hkeys b' (List.mem_append_left _ hb')
        rw [← hs', S.keyOf_of_isEmpty _ hempty] at hkey'
        cases hkey'
      · exact ⟨s, by rw [Function.update_self, List.mem_singleton.mp hb']⟩
    · rw [Scheme.occupied_update hfull, if_pos hempty, hbs.count, List.length_append,
        List.length_singleton]

end OpenAddressing
