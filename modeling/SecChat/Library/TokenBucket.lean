import Mathlib.Data.List.Pairwise
import Mathlib.Tactic

/-!
# Token buckets

A bucket holds a number of tokens up to a capacity and gets one more in each unit of time.  A call
takes a token, and is refused when there is none.

* `Bucket`, `take`: a bucket and a call;
* `Spends`: what the calls at some times got, from a credit that grows with the time at most;
* `Spends.count_le`: how many calls between two times can be allowed.
-/

namespace TokenBucket

/-- A bucket and the time up to which it is filled. -/
structure Bucket where
  tokens : ℕ
  last : ℤ
  deriving DecidableEq, Repr

variable (capacity : ℕ)

/-- A new bucket. -/
def full (now : ℤ) : Bucket := ⟨capacity, now⟩

/-- The tokens since the last call come in. -/
def Bucket.refill (b : Bucket) (now : ℤ) : Bucket :=
  ⟨min capacity (b.tokens + (now - b.last).toNat), max b.last now⟩

/-- A call, for which a bucket is made when there is none. -/
def take (b : Option Bucket) (now : ℤ) : Bucket × Bool :=
  let b := (b.getD (full capacity now)).refill capacity now
  if 0 < b.tokens then ({ b with tokens := b.tokens - 1 }, true) else (b, false)

/-- Calls with their results, made with a credit at a time.  What a call leaves and takes is what there
was and came in since, and never more than the capacity. -/
inductive Spends : ℕ → ℤ → List (ℤ × Bool) → Prop
  | nil {credit : ℕ} {last : ℤ} : Spends credit last []
  | cons {credit rest : ℕ} {last now : ℤ} {ok : Bool} {log : List (ℤ × Bool)}
      (funded : rest + ok.toNat ≤ min capacity (credit + (now - last).toNat))
      (later : Spends rest now log) : Spends credit last ((now, ok) :: log)

variable {capacity} {credit : ℕ} {last : ℤ} {log : List (ℤ × Bool)}

/-- The calls between two times that were allowed. -/
def allowedIn (a b : ℤ) (log : List (ℤ × Bool)) : ℕ :=
  log.countP fun call => a ≤ call.1 ∧ call.1 ≤ b ∧ call.2

theorem allowedIn_cons (a b now : ℤ) (ok : Bool) (log : List (ℤ × Bool)) :
    allowedIn a b ((now, ok) :: log) =
      allowedIn a b log + if a ≤ now ∧ now ≤ b then ok.toNat else 0 := by
  unfold allowedIn
  rw [List.countP_cons]
  congr 1
  by_cases hin : a ≤ now ∧ now ≤ b
  · rw [if_pos hin]
    cases ok <;> simp [hin]
  · rw [if_neg hin, if_neg]
    rw [decide_eq_true_eq]
    exact fun h => hin ⟨h.1, h.2.1⟩

/-- After its last time nothing is counted. -/
theorem allowedIn_eq_zero {a b : ℤ} (h : ∀ call ∈ log, b < call.1) : allowedIn a b log = 0 := by
  refine List.countP_eq_zero.mpr fun call hcall => ?_
  have hlt := h call hcall
  simp only [decide_eq_true_eq]
  omega

/-- From the start of the log on: the credit, and one for each unit of time. -/
theorem Spends.count_le_credit (h : Spends capacity credit last log) {a b : ℤ}
    (hsorted : log.Pairwise fun call call' => call.1 ≤ call'.1)
    (hlast : ∀ call ∈ log, last ≤ call.1) (hle : last ≤ b) :
    (allowedIn a b log : ℤ) ≤ credit + (b - last) := by
  induction h with
  | nil =>
    simp only [allowedIn, List.countP_nil]
    omega
  | @cons credit rest last now ok log funded later ih =>
    obtain ⟨hnow, hsorted⟩ := List.pairwise_cons.mp hsorted
    have hstart : last ≤ now := hlast _ List.mem_cons_self
    rw [allowedIn_cons]
    by_cases hin : now ≤ b
    · have hrest := ih hsorted hnow hin
      split <;> omega
    · -- time is over
      rw [if_neg fun hab => hin hab.2, allowedIn_eq_zero fun call hcall => ?_]
      · omega
      · have := hnow call hcall
        omega

/-- **The bound.** Between two times no more calls are allowed than the capacity and one for each unit
of time. -/
theorem Spends.count_le (h : Spends capacity credit last log) {a b : ℤ} (hab : a ≤ b)
    (hsorted : log.Pairwise fun call call' => call.1 ≤ call'.1) :
    (allowedIn a b log : ℤ) ≤ capacity + (b - a) := by
  induction h with
  | nil =>
    simp only [allowedIn, List.countP_nil]
    omega
  | @cons credit rest last now ok log funded later ih =>
    obtain ⟨hnow, hsorted⟩ := List.pairwise_cons.mp hsorted
    rw [allowedIn_cons]
    by_cases hin : a ≤ now ∧ now ≤ b
    · -- the first call that counts finds a full bucket at most
      have hrest := later.count_le_credit (a := a) hsorted hnow hin.2
      rw [if_pos hin]
      omega
    · rw [if_neg hin]
      exact ih hsorted

end TokenBucket
