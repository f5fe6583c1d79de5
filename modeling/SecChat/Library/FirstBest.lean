import Mathlib.Data.List.Pairwise
import Mathlib.Tactic

/-!
# The first best entry of every key

A loop that keeps one entry for each key: the first one of those with the best quality.

* `keepBest`: one turn of the loop, on the items of a dictionary in the order of insertion;
* `FirstBest`: an entry of a list is the first best one of its key;
* `keepsFirstBest_foldl`: the loop keeps exactly these, in the order in which their keys come first;
* `KeepsFirstBest.last_iff`: the last of them that an observer sees.
-/

namespace SecChat

variable {α β κ : Type} (key : α → κ) (quality : α → ℕ)

/-! ### First best entries -/

/-- The entry is better than all entries of its key before it, and no worse than those after it. -/
def FirstBest (l : List α) (a : α) : Prop :=
  ∃ u v, l = u ++ a :: v ∧ (∀ x ∈ u, key x = key a → quality x < quality a) ∧
    ∀ x ∈ v, key x = key a → quality x ≤ quality a

variable {key quality} {l : List α} {a b : α}

theorem FirstBest.mem (h : FirstBest key quality l a) : a ∈ l := by
  obtain ⟨u, v, rfl, -, -⟩ := h
  exact List.mem_append_right u List.mem_cons_self

theorem FirstBest.le (h : FirstBest key quality l a) (hb : b ∈ l) (hkey : key b = key a) :
    quality b ≤ quality a := by
  obtain ⟨u, v, rfl, hu, hv⟩ := h
  rcases List.mem_append.mp hb with hb | hb
  · exact (hu b hb hkey).le
  · rcases List.mem_cons.mp hb with rfl | hb
    · exact le_rfl
    · exact hv b hb hkey

/-- A key has one first best entry. -/
theorem FirstBest.unique (ha : FirstBest key quality l a) (hb : FirstBest key quality l b)
    (hkey : key a = key b) : a = b := by
  have hab := ha.le hb.mem hkey.symm
  have hba := hb.le ha.mem hkey
  obtain ⟨u, v, rfl, hu, -⟩ := ha
  obtain ⟨u', v', heq, hu', -⟩ := hb
  rcases List.append_eq_append_iff.mp heq with ⟨w, rfl, hw⟩ | ⟨w, rfl, hw⟩
  · cases w with
    | nil => exact (List.cons.inj hw).1
    | cons x w =>
      obtain rfl := (List.cons.inj hw).1
      have hlt := hu' a (List.mem_append_right u List.mem_cons_self) hkey
      omega
  · cases w with
    | nil => exact ((List.cons.inj hw).1).symm
    | cons x w =>
      obtain rfl := (List.cons.inj hw).1
      have hlt := hu b (List.mem_append_right u' List.mem_cons_self) hkey.symm
      omega

theorem FirstBest.append_of_le (h : FirstBest key quality l b)
    (hle : key a = key b → quality a ≤ quality b) : FirstBest key quality (l ++ [a]) b := by
  obtain ⟨u, v, rfl, hu, hv⟩ := h
  refine ⟨u, v ++ [a], by simp, hu, fun x hx hkey => ?_⟩
  rcases List.mem_append.mp hx with hx | hx
  · exact hv x hx hkey
  · obtain rfl := List.mem_singleton.mp hx
    exact hle hkey

theorem firstBest_append (h : ∀ x ∈ l, key x = key a → quality x < quality a) :
    FirstBest key quality (l ++ [a]) a :=
  ⟨l, [], rfl, h, by simp⟩

/-! ### The loop -/

section Loop

variable [DecidableEq κ]

variable (key quality) in
/-- One turn: an entry replaces the entry of its key if it is better. -/
def keepBest (kept : List (κ × α)) (a : α) : List (κ × α) :=
  match kept.lookup (key a) with
  | none => kept ++ [(key a, a)]
  | some b =>
      if quality b < quality a then kept.map fun p => if p.1 = key a then (key a, a) else p
      else kept

variable (key) in
/-- The place where the key of an entry comes first. -/
def mention (l : List α) (a : α) : ℕ := (l.map key).idxOf (key a)

variable (key quality) in
/-- The items are the first best entries, in the order in which their keys come first. -/
structure KeepsFirstBest (l : List α) (kept : List (κ × α)) : Prop where
  ordered : (kept.map Prod.fst).Pairwise fun g g' => (l.map key).idxOf g < (l.map key).idxOf g'
  best : ∀ p ∈ kept, p.1 = key p.2 ∧ FirstBest key quality l p.2
  covers : ∀ a ∈ l, key a ∈ kept.map Prod.fst

theorem keepsFirstBest_nil : KeepsFirstBest key quality ([] : List α) [] where
  ordered := .nil
  best := by simp
  covers := by simp

theorem idxOf_append_key {g : κ} (hg : g ∈ l.map key) (a : α) :
    ((l ++ [a]).map key).idxOf g = (l.map key).idxOf g := by
  rw [List.map_append, List.idxOf_append, if_pos hg]

theorem KeepsFirstBest.key_mem {kept : List (κ × α)} (h : KeepsFirstBest key quality l kept)
    {g : κ} (hg : g ∈ kept.map Prod.fst) : g ∈ l.map key := by
  obtain ⟨p, hp, rfl⟩ := List.mem_map.mp hg
  obtain ⟨hkey, hbest⟩ := h.best p hp
  rw [hkey]
  exact List.mem_map_of_mem hbest.mem

theorem mem_of_lookup {kept : List (κ × α)} {g : κ} (h : kept.lookup g = some b) :
    (g, b) ∈ kept := by
  obtain ⟨u, v, rfl, -⟩ := List.lookup_eq_some_iff.mp h
  exact List.mem_append_right u List.mem_cons_self

/-- One turn keeps the first best entry of every key. -/
theorem KeepsFirstBest.append {kept : List (κ × α)} (h : KeepsFirstBest key quality l kept)
    (a : α) : KeepsFirstBest key quality (l ++ [a]) (keepBest key quality kept a) := by
  have hidx : ∀ g ∈ kept.map Prod.fst, ((l ++ [a]).map key).idxOf g = (l.map key).idxOf g :=
    fun g hg => idxOf_append_key (h.key_mem hg) a
  have hordered : (kept.map Prod.fst).Pairwise fun g g' =>
      ((l ++ [a]).map key).idxOf g < ((l ++ [a]).map key).idxOf g' := by
    refine h.ordered.imp_of_mem fun hg hg' hlt => ?_
    rw [hidx _ hg, hidx _ hg']
    exact hlt
  unfold keepBest
  cases hlookup : kept.lookup (key a) with
  | none =>
    -- no entry of the list has this key, and the new one goes to the end
    have hnew : ∀ p ∈ kept, p.1 ≠ key a := by
      intro p hp heq
      have hne := List.lookup_eq_none_iff.mp hlookup p hp
      rw [heq, bne_self_eq_false] at hne
      cases hne
    have hfirst : ∀ x ∈ l, key x ≠ key a := by
      intro x hx heq
      obtain ⟨p, hp, hpx⟩ := List.mem_map.mp (h.covers x hx)
      exact hnew p hp (hpx.trans heq)
    have hfst : (kept ++ [(key a, a)]).map Prod.fst = kept.map Prod.fst ++ [key a] := by simp
    show KeepsFirstBest key quality (l ++ [a]) (kept ++ [(key a, a)])
    refine ⟨?_, fun p hp => ?_, fun x hx => ?_⟩
    · rw [hfst]
      refine List.pairwise_append.mpr ⟨hordered, List.pairwise_singleton _ _, fun g hg g' hg' => ?_⟩
      obtain rfl := List.mem_singleton.mp hg'
      have hnot : key a ∉ l.map key := by
        intro hmem
        obtain ⟨x, hx, heq⟩ := List.mem_map.mp hmem
        exact hfirst x hx heq
      rw [hidx g hg, List.map_append, List.idxOf_append, if_neg hnot]
      exact Nat.lt_add_left _ (List.idxOf_lt_length_of_mem (h.key_mem hg))
    · rcases List.mem_append.mp hp with hp | hp
      · obtain ⟨hkey, hbest⟩ := h.best p hp
        exact ⟨hkey, hbest.append_of_le fun heq => absurd (hkey.trans heq.symm) (hnew p hp)⟩
      · obtain rfl := List.mem_singleton.mp hp
        exact ⟨rfl, firstBest_append fun x hx heq => absurd heq (hfirst x hx)⟩
    · rw [hfst]
      rcases List.mem_append.mp hx with hx | hx
      · exact List.mem_append_left _ (h.covers x hx)
      · obtain rfl := List.mem_singleton.mp hx
        exact List.mem_append_right _ List.mem_cons_self
  | some b =>
    have hb := mem_of_lookup hlookup
    obtain ⟨hkeyb, hbest⟩ := h.best _ hb
    have hcovers : ∀ x ∈ l ++ [a], key x ∈ kept.map Prod.fst := by
      intro x hx
      rcases List.mem_append.mp hx with hx | hx
      · exact h.covers x hx
      · obtain rfl := List.mem_singleton.mp hx
        exact List.mem_map_of_mem hb
    simp only
    by_cases hlt : quality b < quality a
    · -- a better entry takes the place of the kept one, so the order of the keys stays
      rw [if_pos hlt]
      have hfst : (kept.map fun p => if p.1 = key a then (key a, a) else p).map Prod.fst =
          kept.map Prod.fst := by
        rw [List.map_map]
        refine List.map_congr_left fun p _ => ?_
        by_cases hp : p.1 = key a
        · simp [hp]
        · simp [hp]
      refine ⟨?_, fun p hp => ?_, fun x hx => ?_⟩
      · rw [hfst]
        exact hordered
      · obtain ⟨q, hq, rfl⟩ := List.mem_map.mp hp
        obtain ⟨hkey, hold⟩ := h.best q hq
        by_cases hqa : q.1 = key a
        · rw [if_pos hqa]
          refine ⟨rfl, firstBest_append fun x hx heq => ?_⟩
          exact (hbest.le hx (heq.trans hkeyb)).trans_lt hlt
        · rw [if_neg hqa]
          exact ⟨hkey, hold.append_of_le fun heq => absurd (hkey.trans heq.symm) hqa⟩
      · rw [hfst]
        exact hcovers x hx
    · -- of two entries as good as each other the first one stays
      rw [if_neg hlt]
      refine ⟨hordered, fun p hp => ?_, hcovers⟩
      obtain ⟨hkey, hold⟩ := h.best p hp
      refine ⟨hkey, hold.append_of_le fun heq => ?_⟩
      rw [hold.unique hbest (heq.symm.trans hkeyb)]
      exact not_lt.mp hlt

variable (key quality) in
/-- **The loop keeps the first best entry of every key.** -/
theorem keepsFirstBest_foldl (l : List α) :
    KeepsFirstBest key quality l (l.foldl (keepBest key quality) []) := by
  induction l using List.reverseRecOn with
  | nil => exact keepsFirstBest_nil
  | append_singleton l a ih =>
    rw [List.foldl_append]
    exact ih.append a

/-! ### What an observer sees -/

theorem KeepsFirstBest.mem_iff {kept : List (κ × α)} (h : KeepsFirstBest key quality l kept) :
    a ∈ kept.map Prod.snd ↔ FirstBest key quality l a := by
  constructor
  · intro hmem
    obtain ⟨p, hp, rfl⟩ := List.mem_map.mp hmem
    exact (h.best p hp).2
  · intro hbest
    obtain ⟨p, hp, hkey⟩ := List.mem_map.mp (h.covers a hbest.mem)
    obtain ⟨hpkey, hpbest⟩ := h.best p hp
    rw [hbest.unique hpbest (hkey.symm.trans hpkey)]
    exact List.mem_map_of_mem hp

theorem KeepsFirstBest.pairwise {kept : List (κ × α)} (h : KeepsFirstBest key quality l kept) :
    (kept.map Prod.snd).Pairwise fun x y => mention key l x < mention key l y := by
  have hordered := List.pairwise_map.mp h.ordered
  refine List.pairwise_map.mpr (hordered.imp_of_mem fun hp hq hlt => ?_)
  rw [(h.best _ hp).1, (h.best _ hq).1] at hlt
  exact hlt

/-- The last entry that is seen is the first best one of the key that comes first last. -/
theorem KeepsFirstBest.last_iff {kept : List (κ × α)} (h : KeepsFirstBest key quality l kept)
    (see : α → Option β) {y : β} :
    (∃ u a v, kept.map Prod.snd = u ++ a :: v ∧ see a = some y ∧ ∀ x ∈ v, see x = none) ↔
      ∃ a, FirstBest key quality l a ∧ see a = some y ∧
        ∀ x, FirstBest key quality l x → (see x).isSome → mention key l x ≤ mention key l a := by
  constructor
  · rintro ⟨u, a, v, heq, hsee, hlast⟩
    have hpairwise := h.pairwise
    rw [heq] at hpairwise
    obtain ⟨-, -, hbefore⟩ := List.pairwise_append.mp hpairwise
    refine ⟨a, h.mem_iff.mp (heq ▸ List.mem_append_right u List.mem_cons_self), hsee,
      fun x hx hsome => ?_⟩
    have hmem := h.mem_iff.mpr hx
    rw [heq] at hmem
    rcases List.mem_append.mp hmem with hmem | hmem
    · exact (hbefore x hmem a List.mem_cons_self).le
    · rcases List.mem_cons.mp hmem with rfl | hmem
      · exact le_rfl
      · rw [hlast x hmem] at hsome
        cases hsome
  · rintro ⟨a, hbest, hsee, hlast⟩
    obtain ⟨u, v, heq⟩ := List.append_of_mem (h.mem_iff.mpr hbest)
    refine ⟨u, a, v, heq, hsee, fun x hx => ?_⟩
    have hpairwise := h.pairwise
    rw [heq] at hpairwise
    obtain ⟨-, hafter, -⟩ := List.pairwise_append.mp hpairwise
    have hlt := (List.pairwise_cons.mp hafter).1 x hx
    have hxbest : FirstBest key quality l x := by
      refine h.mem_iff.mp ?_
      rw [heq]
      exact List.mem_append_right u (List.mem_cons_of_mem a hx)
    by_contra hne
    have hle := hlast x hxbest (Option.isSome_iff_ne_none.mpr hne)
    omega

end Loop

end SecChat
