import SecChat.Python.JsonText

/-!
# Dictionaries

What `d[k] = v` does to a dictionary, and which values survive a round trip.

* `lookup_dictSet`, `getD_dictSet`: reading after a write;
* `lookup_eq_some_iff_mem`: with distinct keys;
* `nodup_keys_dictSet`, `plain_dictSet`: keys stay distinct, and a plain dictionary stays plain.
-/

namespace Py

variable {kvs : List (String × Json)} {kv : String × Json}

theorem lookup_map_replace (kvs : List (String × Json)) (k : String) (v : Json) (q : String) :
    (kvs.map fun p => if p.1 = k then (k, v) else p).lookup q =
      if q = k then (kvs.lookup k).map fun _ => v else kvs.lookup q := by
  induction kvs with
  | nil => simp
  | cons p kvs ih =>
    obtain ⟨k', v'⟩ := p
    rw [List.map_cons]
    dsimp only
    by_cases hk : k' = k
    · subst hk
      by_cases hq : q = k'
      · subst hq
        simp
      · simpa [List.lookup_cons, hq, beq_eq_false_iff_ne.mpr hq] using ih
    · rw [if_neg hk]
      by_cases hq : q = k'
      · subst hq
        simp [hk]
      · have hq' : (q == k') = false := beq_eq_false_iff_ne.mpr hq
        have hk' : (k == k') = false := beq_eq_false_iff_ne.mpr fun h => hk h.symm
        simp [List.lookup_cons, hq', hk', ih]

theorem lookup_dictSet (kvs : List (String × Json)) (kv : String × Json) (q : String) :
    (dictSet kvs kv).lookup q = if q = kv.1 then some kv.2 else kvs.lookup q := by
  obtain ⟨k, v⟩ := kv
  unfold dictSet
  by_cases hk : k ∈ kvs.map Prod.fst
  · rw [if_pos hk, lookup_map_replace]
    by_cases hq : q = k
    · obtain ⟨w, hw⟩ : ∃ w, kvs.lookup k = some w := by
        obtain ⟨⟨k', w⟩, hmem, rfl⟩ := List.mem_map.mp hk
        exact Option.isSome_iff_exists.mp (List.lookup_isSome_iff.mpr ⟨_, hmem, by simp⟩)
      simp [hq, hw]
    · simp [hq]
  · rw [if_neg hk, List.lookup_append]
    by_cases hq : q = k
    · subst hq
      have hnone : kvs.lookup q = none := by
        rw [List.lookup_eq_none_iff]
        intro p hp
        have hne : q ≠ p.1 := fun h => hk (List.mem_map.mpr ⟨p, hp, h.symm⟩)
        simpa using hne
      simp [hnone]
    · simp [hq, List.lookup_cons, beq_eq_false_iff_ne.mpr hq]

/-- `d.get(key, default)` after `d[k] = v`. -/
@[simp] theorem getD_dictSet (kvs : List (String × Json)) (k : String) (v : Json) (key : String)
    (d : Json) :
    (Json.obj (dictSet kvs (k, v))).getD key d =
      if key = k then .ok v else (Json.obj kvs).getD key d := by
  simp only [Json.getD, lookup_dictSet]
  split <;> rfl

theorem plainItems_iff {xs : List Json} : Json.PlainItems xs ↔ ∀ x ∈ xs, x.Plain := by
  induction xs with
  | nil => simp [Json.PlainItems]
  | cons x xs ih => simp [Json.PlainItems, ih]

theorem plainMembers_iff {kvs : List (String × Json)} :
    Json.PlainMembers kvs ↔ ∀ p ∈ kvs, p.2.Plain := by
  induction kvs with
  | nil => simp
  | cons p kvs ih =>
    obtain ⟨k, v⟩ := p
    simp [ih]

/-- Keys stay distinct. -/
theorem nodup_keys_dictSet (h : (kvs.map Prod.fst).Nodup) :
    ((dictSet kvs kv).map Prod.fst).Nodup := by
  unfold dictSet
  split
  · next hmem =>
    have hkeys : (kvs.map fun p => if p.1 = kv.1 then kv else p).map Prod.fst =
        kvs.map Prod.fst := by
      rw [List.map_map]
      refine List.map_congr_left fun p _ => ?_
      show (if p.1 = kv.1 then kv else p).1 = p.1
      split
      · next heq => exact heq.symm
      · rfl
    rwa [hkeys]
  · next hmem =>
    rw [List.map_append, List.nodup_append]
    refine ⟨h, List.nodup_singleton _, ?_⟩
    rintro k hk k' hk' rfl
    rw [List.map_singleton, List.mem_singleton] at hk'
    exact hmem (hk' ▸ hk)

/-- An item is new or was there before. -/
theorem mem_dictSet {p : String × Json} (h : p ∈ dictSet kvs kv) : p = kv ∨ p ∈ kvs := by
  unfold dictSet at h
  split at h
  · obtain ⟨q, hq, rfl⟩ := List.mem_map.mp h
    split
    · exact .inl rfl
    · exact .inr hq
  · rcases List.mem_append.mp h with h | h
    · exact .inr h
    · exact .inl (List.mem_singleton.mp h)

theorem plain_dictSet (h : (Json.obj kvs).Plain) (hv : kv.2.Plain) :
    (Json.obj (dictSet kvs kv)).Plain := by
  obtain ⟨hnodup, hmembers⟩ := (Json.plain_obj kvs).mp h
  rw [plainMembers_iff] at hmembers
  refine (Json.plain_obj _).mpr ⟨nodup_keys_dictSet hnodup, plainMembers_iff.mpr fun p hp => ?_⟩
  rcases mem_dictSet hp with rfl | hp
  · exact hv
  · exact hmembers p hp

/-- With distinct keys the items are what is looked up. -/
theorem lookup_eq_some_iff_mem (h : (kvs.map Prod.fst).Nodup) {k : String} {v : Json} :
    kvs.lookup k = some v ↔ (k, v) ∈ kvs := by
  induction kvs with
  | nil => simp
  | cons p kvs ih =>
    obtain ⟨k', v'⟩ := p
    obtain ⟨hk', h⟩ := List.nodup_cons.mp h
    rw [List.lookup_cons, List.mem_cons]
    by_cases hk : k = k'
    · subst hk
      have hnot : (k, v) ∉ kvs := fun hmem => hk' (List.mem_map.mpr ⟨_, hmem, rfl⟩)
      simp [hnot, eq_comm]
    · have hbeq : (k == k') = false := beq_eq_false_iff_ne.mpr hk
      simp [hbeq, ih h, hk]

end Py
