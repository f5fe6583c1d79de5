import Mathlib.Data.List.AList
import Mathlib.Data.Finset.Sort
import Mathlib.Order.Bounds.Basic

/-!
# Dictionaries that join what is said about a key

A list of statements about keys is read into a dictionary from left to right; a statement about a
key that is already there is joined with what the dictionary has.  What the dictionary then says
depends on the set of the statements alone: it has the keys that a statement is about, each with
the least upper bound of what is said about it.
-/

namespace KeyedJoin

variable {K V : Type*} [DecidableEq K] [SemilatticeSup V]

/-- What a dictionary has for a key once `v` is said about it. -/
def joined (old : Option V) (v : V) : V := old.elim v (· ⊔ v)

/-- Take one statement in. -/
def put (d : AList fun _ : K => V) (p : K × V) : AList fun _ : K => V :=
  d.insert p.1 (joined (d.lookup p.1) p.2)

/-- Read a list of statements. -/
def gather (xs : List (K × V)) : AList fun _ : K => V := xs.foldl put ∅

/-- `d` has the keys that `S` says something about, with the least upper bounds. -/
structure Holds (d : AList fun _ : K => V) (S : K → Set V) : Prop where
  absent : ∀ {k}, d.lookup k = none → S k = ∅
  nonempty : ∀ {k v}, d.lookup k = some v → (S k).Nonempty
  lub : ∀ {k v}, d.lookup k = some v → IsLUB (S k) v

theorem holds_empty : Holds (∅ : AList fun _ : K => V) fun _ => ∅ where
  absent := fun _ => rfl
  nonempty := fun h => by simp at h
  lub := fun h => by simp at h

theorem isLUB_joined {S : Set V} {old : Option V} (v : V) (hnone : old = none → S = ∅)
    (hsome : ∀ {w}, old = some w → IsLUB S w) : IsLUB (insert v S) (joined old v) := by
  cases old with
  | none => simp [joined, hnone rfl]
  | some w =>
    rw [joined, Option.elim_some, sup_comm]
    exact (hsome rfl).insert v

/-- One statement. -/
theorem Holds.put {d : AList fun _ : K => V} {S : K → Set V} (h : Holds d S) (p : K × V) :
    Holds (put d p) (Function.update S p.1 (insert p.2 (S p.1))) where
  absent := by
    intro k hk
    by_cases hp : k = p.1
    · subst hp
      simp [KeyedJoin.put] at hk
    · rw [KeyedJoin.put, AList.lookup_insert_ne hp] at hk
      rw [Function.update_of_ne hp, h.absent hk]
  nonempty := by
    intro k v hk
    by_cases hp : k = p.1
    · subst hp
      simp
    · rw [KeyedJoin.put, AList.lookup_insert_ne hp] at hk
      rw [Function.update_of_ne hp]
      exact h.nonempty hk
  lub := by
    intro k v hk
    by_cases hp : k = p.1
    · subst hp
      rw [KeyedJoin.put, AList.lookup_insert, Option.some_inj] at hk
      rw [Function.update_self, ← hk]
      exact isLUB_joined p.2 h.absent h.lub
    · rw [KeyedJoin.put, AList.lookup_insert_ne hp] at hk
      rw [Function.update_of_ne hp]
      exact h.lub hk

section Said

omit [SemilatticeSup V]

/-- What a list of statements says about each key. -/
def said (xs : List (K × V)) (k : K) : Set V := {v | (k, v) ∈ xs}

theorem said_concat (xs : List (K × V)) (p : K × V) :
    said (xs ++ [p]) = Function.update (said xs) p.1 (insert p.2 (said xs p.1)) := by
  funext k
  ext v
  by_cases hk : k = p.1
  · subst hk
    simp [said, Prod.ext_iff, or_comm]
  · simp [said, Prod.ext_iff, hk]

end Said

/-- All statements. -/
theorem holds_gather (xs : List (K × V)) : Holds (gather xs) (said xs) := by
  induction xs using List.reverseRecOn with
  | nil =>
    have hnil : said ([] : List (K × V)) = fun _ => ∅ := by
      funext k
      simp [said]
    rw [hnil]
    exact holds_empty
  | append_singleton xs p ih =>
    rw [said_concat, gather, List.foldl_append]
    exact ih.put p

end KeyedJoin
