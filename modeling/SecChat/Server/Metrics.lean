import SecChat.Library.OrderStatistics
import Mathlib.Data.Fin.VecNotation

/-!
# Latencies (`metrics.c`)

Each latency is counted in one of twelve buckets, and the percentiles that are reported are estimated
from the counts.

* `Histogram`, `histObs`: the counts, and one more observation;
* `histPctile`: the estimate;
* `nearestRank`: the percentile itself, of all that was observed;
* `histPctile_eq`: the estimate is the bound of the bucket in which the percentile lies.
-/

namespace SecChat.Metrics

open OrderStatistics

/-! ### Buckets -/

scoped instance instLinearOrder : LinearOrder UInt64 where
  le_refl := UInt64.le_refl
  le_trans _ _ _ := UInt64.le_trans
  le_antisymm _ _ := UInt64.le_antisymm
  lt_iff_le_not_ge a b := by
    rw [← UInt64.not_le]
    exact ⟨fun h => ⟨(UInt64.le_total _ _).resolve_left h, h⟩, And.right⟩
  le_total := UInt64.le_total
  toDecidableLE := inferInstance

/-- `BOUNDS_US`. -/
def boundsUs : Fin 12 → UInt64 :=
  ![100, 250, 500, 1000, 2500, 5000, 10000, 25000, 50000, 100000, 1000000, 0xffffffffffffffff]

/-- `Histogram`. -/
structure Histogram where
  counts : Fin 12 → UInt64
  sumUs : UInt64
  total : UInt64

/-- `{0}`. -/
def Histogram.zero : Histogram := ⟨fun _ => 0, 0, 0⟩

/-- The bucket of an observation: the first whose bound it does not exceed, or the last. -/
def bucketOf (us : UInt64) : Fin 12 :=
  match (List.finRange 11).find? fun i => us ≤ boundsUs i.castSucc with
  | some i => i.castSucc
  | none => 11

/-- `hist_obs`. -/
def histObs (h : Histogram) (us : UInt64) : Histogram :=
  { counts := Function.update h.counts (bucketOf us) (h.counts (bucketOf us) + 1)
    sumUs := h.sumUs + us
    total := h.total + 1 }

/-- What is reported for a bucket; the last one has no bound. -/
def reported (i : Fin 12) : UInt64 := if boundsUs i = 0xffffffffffffffff then 10000000 else boundsUs i

/-- The loop of `hist_pctile`. -/
def pctileLoop (h : Histogram) (target : UInt64) : UInt64 → List (Fin 12) → UInt64
  | _, [] => boundsUs 11
  | cum, i :: is =>
    if target ≤ cum + h.counts i then reported i else pctileLoop h target (cum + h.counts i) is

/-- `hist_pctile`. -/
def histPctile (h : Histogram) (p : ℕ) : UInt64 :=
  if h.total = 0 then 0
  else pctileLoop h ((h.total * UInt64.ofNat p + 99) / 100) 0 (List.finRange 12)

/-- How many observations are not larger than the percentile. -/
def rank (n p : ℕ) : ℕ := (n * p + 99) / 100

/-- The percentile of what was observed. -/
def nearestRank (obs : List UInt64) (p : ℕ) : Option UInt64 := kth obs (rank obs.length p - 1)

/-! ### The bucket of an observation -/

theorem monotone_boundsUs : Monotone boundsUs := by
  have hall : ∀ i j : Fin 12, i ≤ j → boundsUs i ≤ boundsUs j := by decide
  exact fun i j hij => hall i j hij

theorem bucketOf_le_iff (us : UInt64) (i : Fin 12) : bucketOf us ≤ i ↔ us ≤ boundsUs i := by
  have hlast : us ≤ boundsUs 11 := UInt64.le_iff_toNat_le.mpr (Nat.le_of_lt_succ us.toNat_lt)
  rw [bucketOf]
  split
  next j hj =>
    obtain ⟨hle, front, rest, hsplit, hfront⟩ := List.find?_eq_some_iff_append.mp hj
    constructor
    · exact fun hji => (of_decide_eq_true hle).trans (monotone_boundsUs hji)
    · intro hus
      by_contra hij
      rw [not_le] at hij
      -- the bucket `i` would have been found before `j`
      have hi : i = (⟨i, lt_trans hij j.isLt⟩ : Fin 11).castSucc := rfl
      have hmem : (⟨i, lt_trans hij j.isLt⟩ : Fin 11) ∈ front := by
        have hsorted : (front ++ j :: rest).Pairwise (· < ·) :=
          hsplit ▸ List.pairwise_lt_finRange 11
        have hin : (⟨i, lt_trans hij j.isLt⟩ : Fin 11) ∈ front ++ j :: rest :=
          hsplit ▸ List.mem_finRange _
        rcases List.mem_append.mp hin with hin | hin
        · exact hin
        · rcases List.mem_cons.mp hin with hin | hin
          · exact absurd hij (by rw [hi, hin]; exact lt_irrefl _)
          · have hlt := (List.pairwise_cons.mp (List.pairwise_append.mp hsorted).2.1).1 _ hin
            exact absurd hij (not_lt.mpr (le_of_lt hlt))
      have hnot := hfront _ hmem
      rw [Bool.not_eq_true', decide_eq_false_iff_not] at hnot
      exact hnot hus
  next hnone =>
    rw [List.find?_eq_none] at hnone
    constructor
    · intro hle
      rwa [le_antisymm (Fin.le_last i) hle]
    · intro hus
      by_contra hlt
      rw [not_le] at hlt
      have hnot := hnone ⟨i, hlt⟩ (List.mem_finRange _)
      exact hnot (decide_eq_true hus)

theorem monotone_bucketOf : Monotone bucketOf := fun a b hab =>
  (bucketOf_le_iff a _).mpr (hab.trans ((bucketOf_le_iff b _).mp le_rfl))

/-! ### Counts -/

theorem counts_foldl (obs : List UInt64) (h : Histogram) (i : Fin 12) :
    (obs.foldl histObs h).counts i =
      h.counts i + UInt64.ofNat (obs.countP fun us => bucketOf us = i) := by
  induction obs generalizing h with
  | nil => simp
  | cons us obs ih =>
    rw [List.foldl_cons, ih, List.countP_cons]
    by_cases hi : bucketOf us = i
    · subst hi
      have hcount : (histObs h us).counts (bucketOf us) = h.counts (bucketOf us) + 1 :=
        Function.update_self ..
      rw [hcount, if_pos (decide_eq_true rfl), UInt64.ofNat_add, UInt64.add_assoc, UInt64.add_comm 1]
      rfl
    · simp [histObs, Function.update_of_ne (Ne.symm hi), hi]

theorem total_foldl (obs : List UInt64) (h : Histogram) :
    (obs.foldl histObs h).total = h.total + UInt64.ofNat obs.length := by
  induction obs generalizing h with
  | nil => simp
  | cons us obs ih =>
    rw [List.foldl_cons, ih]
    simp [histObs, UInt64.add_assoc, UInt64.add_comm]

/-- The observations in the buckets before one and those in it. -/
theorem countP_lt_add_eq (obs : List UInt64) (i : Fin 12) :
    (obs.countP fun us => (bucketOf us : ℕ) < i) + (obs.countP fun us => bucketOf us = i) =
      obs.countP fun us => bucketOf us ≤ i := by
  induction obs with
  | nil => rfl
  | cons us obs ih =>
    simp only [List.countP_cons, decide_eq_true_eq]
    have hsplit : (if (bucketOf us : ℕ) < i then 1 else 0) + (if bucketOf us = i then 1 else 0) =
        if bucketOf us ≤ i then 1 else 0 := by
      split_ifs <;> omega
    omega

/-! ### The estimate -/

/-- The loop from a bucket on. -/
theorem pctileLoop_drop {obs : List UInt64} {x : UInt64} {target : UInt64} (hlen : obs.length < 2 ^ 64)
    (hpos : 0 < target.toNat) (hx : kth obs (target.toNat - 1) = some x) (n i : ℕ) (hi : i + n = 12)
    (hbucket : i ≤ (bucketOf x : ℕ)) {cum : UInt64}
    (hcum : cum.toNat = obs.countP fun us => (bucketOf us : ℕ) < i) :
    pctileLoop (obs.foldl histObs .zero) target cum ((List.finRange 12).drop i) =
      reported (bucketOf x) := by
  induction n generalizing i cum with
  | zero => exact absurd (bucketOf x).isLt (by omega)
  | succ n ih =>
    have hlt : i < (List.finRange 12).length := by
      rw [List.length_finRange]
      omega
    rw [List.drop_eq_getElem_cons hlt, List.getElem_finRange, pctileLoop]
    set b : Fin 12 := Fin.cast List.length_finRange ⟨i, hlt⟩ with hb
    have hbi : (b : ℕ) = i := rfl
    have hsum : (cum + (obs.foldl histObs .zero).counts b).toNat =
        obs.countP fun us => bucketOf us ≤ b := by
      have hle : (obs.countP fun us => bucketOf us ≤ b) ≤ obs.length := List.countP_le_length
      have hcount := countP_lt_add_eq obs b
      rw [counts_foldl, UInt64.toNat_add, hcum]
      simp only [Histogram.zero, UInt64.zero_add, UInt64.toNat_ofNat', hbi] at hcount ⊢
      rw [Nat.mod_eq_of_lt (show (obs.countP fun us => bucketOf us = b) < 2 ^ 64 by omega), hcount,
        Nat.mod_eq_of_lt (by omega)]
    have hiff : target ≤ cum + (obs.foldl histObs .zero).counts b ↔ bucketOf x ≤ b := by
      rw [UInt64.le_iff_toNat_le, hsum, bucket_kth_le_iff monotone_bucketOf hx]
      omega
    by_cases hle : bucketOf x ≤ b
    · rw [if_pos (hiff.mpr hle)]
      exact congrArg reported (le_antisymm hbucket hle)
    · rw [if_neg (mt hiff.mp hle)]
      rw [not_le] at hle
      refine ih (i + 1) (by omega) hle ?_
      rw [hsum]
      refine congrArg (fun q => obs.countP q) (funext fun us => ?_)
      rw [decide_eq_decide]
      exact Nat.lt_succ_iff.symm

/-- **The reported percentiles.** For any latencies, fewer than overflow the product, what is reported
as a percentile is the bound of the bucket in which the percentile of the latencies lies. -/
theorem histPctile_eq (obs : List UInt64) (hobs : obs ≠ []) (p : ℕ) (hp : 1 ≤ p) (hp' : p ≤ 100)
    (hlen : obs.length * p + 99 < 2 ^ 64) :
    ∃ x, nearestRank obs p = some x ∧
      histPctile (obs.foldl histObs .zero) p = reported (bucketOf x) := by
  have hn : 0 < obs.length := List.length_pos_of_ne_nil hobs
  have hle : obs.length ≤ obs.length * p := Nat.le_mul_of_pos_right _ hp
  have hle' : obs.length * p ≤ obs.length * 100 := Nat.mul_le_mul_left _ hp'
  have hrank : 0 < rank obs.length p ∧ rank obs.length p ≤ obs.length := by
    rw [rank]
    omega
  obtain ⟨x, hx⟩ := exists_kth (l := obs) (k := rank obs.length p - 1) (by omega)
  refine ⟨x, hx, ?_⟩
  have htotal : (obs.foldl histObs .zero).total.toNat = obs.length := by
    rw [total_foldl]
    simp only [Histogram.zero, UInt64.zero_add, UInt64.toNat_ofNat']
    exact Nat.mod_eq_of_lt (by omega)
  have htarget : (((obs.foldl histObs .zero).total * UInt64.ofNat p + 99) / 100).toNat =
      rank obs.length p := by
    rw [UInt64.toNat_div, UInt64.toNat_add, UInt64.toNat_mul, htotal, UInt64.toNat_ofNat',
      Nat.mod_eq_of_lt (show p < 2 ^ 64 by omega), Nat.mod_eq_of_lt (show obs.length * p < 2 ^ 64 by omega)]
    show (obs.length * p + 99) % 2 ^ 64 / 100 = _
    rw [Nat.mod_eq_of_lt (by omega), rank]
  rw [histPctile, if_neg fun h0 => by rw [h0] at htotal; simp at htotal; omega]
  exact pctileLoop_drop (by omega) (htarget ▸ hrank.1) (htarget ▸ hx) 12 0 rfl (Nat.zero_le _)
    (by simp)

/-- Five queries, and the one that half of them do not exceed. -/
theorem histPctile_eq_five :
    ∃ x, nearestRank [90, 3000, 120, 2000000, 700] 50 = some x ∧
      histPctile ([90, 3000, 120, 2000000, 700].foldl histObs .zero) 50 = reported (bucketOf x) :=
  histPctile_eq [90, 3000, 120, 2000000, 700] (by decide) 50 (by decide) (by decide) (by decide)

end SecChat.Metrics
