import Mathlib.Data.Finset.Card
import Mathlib.Order.Interval.Finset.Nat
import Mathlib.Tactic

/-!
# Gaps in numbered streams

Items arrive out of order on several numbered streams.  A receiver that meets item `n` of a stream
has to remember the items below `n` that are still missing.

* `gaps O`: the items below an arrived item of the same stream that have not arrived themselves;
* `IsHighWater`: the first index above everything that arrived on a stream;
* `gaps_insert_of_mem`, `gaps_insert_of_highWater_le`: what one more arrival does to the gaps.
-/

namespace Gaps

variable {κ : Type} [DecidableEq κ]

/-- The items that are missing below an arrived one. -/
def gaps (O : Finset (κ × ℕ)) : Finset (κ × ℕ) :=
  (O.biUnion fun d => (Finset.range d.2).image fun i => (d.1, i)) \ O

theorem mem_gaps {O : Finset (κ × ℕ)} {c : κ} {i : ℕ} :
    (c, i) ∈ gaps O ↔ (∃ j, i < j ∧ (c, j) ∈ O) ∧ (c, i) ∉ O := by
  simp only [gaps, Finset.mem_sdiff, Finset.mem_biUnion, Finset.mem_image, Finset.mem_range,
    Prod.mk.injEq, Prod.exists]
  constructor
  · rintro ⟨⟨c', j, hj, i', hi, rfl, rfl⟩, hn⟩
    exact ⟨⟨j, hi, hj⟩, hn⟩
  · rintro ⟨⟨j, hi, hj⟩, hn⟩
    exact ⟨⟨c, j, hj, i, hi, rfl, rfl⟩, hn⟩

/-- `hw` is the first index above everything that arrived on stream `c`. -/
def IsHighWater (O : Finset (κ × ℕ)) (c : κ) (hw : ℕ) : Prop :=
  ∀ i, i < hw ↔ ∃ j, i ≤ j ∧ (c, j) ∈ O

omit [DecidableEq κ] in
/-- A stream on which nothing arrived. -/
theorem isHighWater_zero {O : Finset (κ × ℕ)} {c : κ} (h : ∀ j, (c, j) ∉ O) :
    IsHighWater O c 0 := by
  intro i
  constructor
  · intro hi
    omega
  · rintro ⟨j, -, hj⟩
    exact absurd hj (h j)

/-- An arrival at or above the high-water mark moves it. -/
theorem isHighWater_insert {O : Finset (κ × ℕ)} {c : κ} {hw n : ℕ} (h : IsHighWater O c hw)
    (hn : hw ≤ n) : IsHighWater (insert (c, n) O) c (n + 1) := by
  intro i
  constructor
  · intro hi
    exact ⟨n, by omega, Finset.mem_insert_self _ _⟩
  · rintro ⟨j, hij, hj⟩
    rcases Finset.mem_insert.mp hj with hj | hj
    · have := (Prod.mk.inj hj).2
      omega
    · have := (h i).mpr ⟨j, hij, hj⟩
      omega

/-- An arrival on another stream, or below the mark, leaves the mark. -/
theorem isHighWater_insert_of_lt {O : Finset (κ × ℕ)} {c c' : κ} {hw n : ℕ} (h : IsHighWater O c hw)
    (hn : c' = c → n < hw) : IsHighWater (insert (c', n) O) c hw := by
  intro i
  constructor
  · intro hi
    obtain ⟨j, hij, hj⟩ := (h i).mp hi
    exact ⟨j, hij, Finset.mem_insert_of_mem hj⟩
  · rintro ⟨j, hij, hj⟩
    rcases Finset.mem_insert.mp hj with hj | hj
    · obtain ⟨hc, rfl⟩ := Prod.mk.inj hj
      have := hn hc.symm
      omega
    · exact (h i).mpr ⟨j, hij, hj⟩

/-- A missing item that arrives closes its gap. -/
theorem gaps_insert_of_mem {O : Finset (κ × ℕ)} {c : κ} {n : ℕ} (h : (c, n) ∈ gaps O) :
    gaps (insert (c, n) O) = (gaps O).erase (c, n) := by
  obtain ⟨⟨m, hm, hmO⟩, -⟩ := mem_gaps.mp h
  ext ⟨d, i⟩
  rw [Finset.mem_erase, mem_gaps, mem_gaps]
  constructor
  · rintro ⟨⟨j, hij, hj⟩, hn⟩
    rw [Finset.mem_insert, not_or] at hn
    refine ⟨hn.1, ?_, hn.2⟩
    rcases Finset.mem_insert.mp hj with hj | hj
    · obtain ⟨rfl, rfl⟩ := Prod.mk.inj hj
      exact ⟨m, by omega, hmO⟩
    · exact ⟨j, hij, hj⟩
  · rintro ⟨hne, ⟨j, hij, hj⟩, hn⟩
    refine ⟨⟨j, hij, Finset.mem_insert_of_mem hj⟩, ?_⟩
    rw [Finset.mem_insert, not_or]
    exact ⟨hne, hn⟩

/-- An item above the mark opens gaps between the mark and itself. -/
theorem gaps_insert_of_highWater_le {O : Finset (κ × ℕ)} {c : κ} {hw n : ℕ}
    (h : IsHighWater O c hw) (hn : hw ≤ n) :
    gaps (insert (c, n) O) = gaps O ∪ (Finset.Ico hw n).image fun i => (c, i) := by
  ext ⟨d, i⟩
  rw [Finset.mem_union, mem_gaps, mem_gaps, Finset.mem_image]
  constructor
  · rintro ⟨⟨j, hij, hj⟩, hni⟩
    rw [Finset.mem_insert, not_or] at hni
    rcases Finset.mem_insert.mp hj with hj | hj
    · obtain ⟨rfl, rfl⟩ := Prod.mk.inj hj
      by_cases hi : i < hw
      · obtain ⟨l, hil, hl⟩ := (h i).mp hi
        have hne : i ≠ l := by
          rintro rfl
          exact hni.2 hl
        exact .inl ⟨⟨l, by omega, hl⟩, hni.2⟩
      · exact .inr ⟨i, Finset.mem_Ico.mpr ⟨by omega, hij⟩, rfl⟩
    · exact .inl ⟨⟨j, hij, hj⟩, hni.2⟩
  · rintro (⟨⟨j, hij, hj⟩, hni⟩ | ⟨l, hl, hlc⟩)
    · refine ⟨⟨j, hij, Finset.mem_insert_of_mem hj⟩, ?_⟩
      rw [Finset.mem_insert, not_or]
      refine ⟨?_, hni⟩
      intro he
      obtain ⟨rfl, rfl⟩ := Prod.mk.inj he
      have := (h i).mpr ⟨j, by omega, hj⟩
      omega
    · obtain ⟨rfl, rfl⟩ := Prod.mk.inj hlc
      rw [Finset.mem_Ico] at hl
      refine ⟨⟨n, hl.2, Finset.mem_insert_self _ _⟩, ?_⟩
      rw [Finset.mem_insert, not_or]
      refine ⟨fun he => ?_, fun hO => ?_⟩
      · have := (Prod.mk.inj he).2
        omega
      · have := (h l).mpr ⟨l, le_rfl, hO⟩
        omega

/-- The gaps that an arrival opens are new. -/
theorem disjoint_gaps_of_highWater {O : Finset (κ × ℕ)} {c : κ} {hw n : ℕ}
    (h : IsHighWater O c hw) :
    Disjoint (gaps O) ((Finset.Ico hw n).image fun i => (c, i)) := by
  rw [Finset.disjoint_right]
  intro x hx hg
  obtain ⟨i, hi, rfl⟩ := Finset.mem_image.mp hx
  obtain ⟨⟨j, hij, hj⟩, -⟩ := mem_gaps.mp hg
  have := (h i).mpr ⟨j, by omega, hj⟩
  rw [Finset.mem_Ico] at hi
  omega

theorem card_gaps_insert_of_highWater_le {O : Finset (κ × ℕ)} {c : κ} {hw n : ℕ}
    (h : IsHighWater O c hw) (hn : hw ≤ n) :
    (gaps (insert (c, n) O)).card = (gaps O).card + (n - hw) := by
  rw [gaps_insert_of_highWater_le h hn, Finset.card_union_of_disjoint (disjoint_gaps_of_highWater h),
    Finset.card_image_of_injective _ fun i j hij => (Prod.mk.inj hij).2, Nat.card_Ico]

/-- Below the mark an item has arrived or is missing. -/
theorem mem_gaps_of_lt_highWater {O : Finset (κ × ℕ)} {c : κ} {hw i : ℕ} (h : IsHighWater O c hw)
    (hi : i < hw) (hn : (c, i) ∉ O) : (c, i) ∈ gaps O := by
  obtain ⟨j, hij, hj⟩ := (h i).mp hi
  have hne : i ≠ j := by
    rintro rfl
    exact hn hj
  exact mem_gaps.mpr ⟨⟨j, by omega, hj⟩, hn⟩

end Gaps
