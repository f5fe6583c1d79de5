import SecChat.Protocol.RatchetSpec

/-!
# The key schedule of a session

The root secrets of a session form a sequence: each is derived from the one before it and a shared
secret, together with the chain key of one direction.  `rootAt` and `chainAt` are that sequence for
given shared secrets.  Under the symbolic laws of HKDF no key comes twice in it:

* `rootAt_injective`, `chainAt_injective`: epochs have different root and chain keys;
* `messageKey_chainAt_inj`: messages have different keys.
-/

namespace SecChat

open Py

variable (P : Prims)

/-- Not an output of the root ratchet. -/
def NotRk (c : Bytes) : Prop := ∀ z root i, c ≠ P.hkdfBlock z "SecChat-DR-rk" (some root) i

/-- Not an output of the chain ratchet. -/
def NotCk (c : Bytes) : Prop := ∀ ck i, c ≠ P.hkdfBlock ck "SecChat-DR-ck" none i

/-- The root secret of epoch `k`, with the shared secret of each step. -/
def rootAt (root : Bytes) (z : ℕ → Bytes) : ℕ → Bytes
  | 0 => root
  | k + 1 => (kdfRk P (rootAt root z k) (z k)).1

/-- The chain key that epoch `k` starts with. -/
def chainAt (root : Bytes) (z : ℕ → Bytes) : ℕ → Bytes
  | 0 => hkdf P root "SecChat-DR-init-left"
  | k + 1 => (kdfRk P (rootAt P root z k) (z k)).2

variable {P} {root : Bytes} {z z' : ℕ → Bytes}

/-- A root secret depends on the shared secrets before it only. -/
theorem rootAt_congr {k : ℕ} (h : ∀ i < k, z i = z' i) : rootAt P root z k = rootAt P root z' k := by
  induction k with
  | zero => rfl
  | succ k ih => rw [rootAt, rootAt, ih fun i hi => h i (by omega), h k (by omega)]

theorem chainAt_congr {k : ℕ} (h : ∀ i < k, z i = z' i) :
    chainAt P root z k = chainAt P root z' k := by
  cases k with
  | zero => rfl
  | succ k => rw [chainAt, chainAt, rootAt_congr fun i hi => h i (by omega), h k (by omega)]

/-! ### No key comes twice -/

theorem kdfRk_inj (hP : P.Symbolic) {r r' y y' : Bytes} (h : (kdfRk P r y).2 = (kdfRk P r' y').2) :
    r = r' ∧ y = y' := by
  obtain ⟨hy, -, hs, -⟩ := hP.hkdf_injective h
  exact ⟨Option.some.inj hs, hy⟩

theorem kdfRk_root_inj (hP : P.Symbolic) {r r' y y' : Bytes}
    (h : (kdfRk P r y).1 = (kdfRk P r' y').1) : r = r' ∧ y = y' := by
  obtain ⟨hy, -, hs, -⟩ := hP.hkdf_injective h
  exact ⟨Option.some.inj hs, hy⟩

theorem rootAt_injective (hP : P.Symbolic) (hroot : NotRk P root) :
    Function.Injective (rootAt P root z) := by
  intro k
  induction k with
  | zero =>
    intro l h
    cases l with
    | zero => rfl
    | succ l => exact absurd h (hroot _ _ _)
  | succ k ih =>
    intro l h
    cases l with
    | zero => exact absurd h.symm (hroot _ _ _)
    | succ l => rw [ih (kdfRk_root_inj hP h).1]

/-- A chain key is made by the root ratchet from the root secret before it, or is the first one. -/
theorem kdfRk_ne_init (hP : P.Symbolic) (r y : Bytes) :
    (kdfRk P r y).2 ≠ hkdf P root "SecChat-DR-init-left" := by
  intro h
  obtain ⟨-, hi, -⟩ := hP.hkdf_injective h
  exact absurd hi (by decide)

theorem chainAt_injective (hP : P.Symbolic) (hroot : NotRk P root) :
    Function.Injective (chainAt P root z) := by
  intro k l h
  cases k with
  | zero =>
    cases l with
    | zero => rfl
    | succ l => exact absurd h.symm (kdfRk_ne_init hP _ _)
  | succ k =>
    cases l with
    | zero => exact absurd h (kdfRk_ne_init hP _ _)
    | succ l => rw [rootAt_injective hP hroot (kdfRk_inj hP h).1]

/-- A new chain is none of the chains before it. -/
theorem kdfRk_ne_chainAt (hP : P.Symbolic) (hroot : NotRk P root) {k t : ℕ} (hk : k ≤ t) (y : Bytes) :
    (kdfRk P (rootAt P root z t) y).2 ≠ chainAt P root z k := by
  intro h
  cases k with
  | zero => exact kdfRk_ne_init hP _ _ h
  | succ k =>
    have := rootAt_injective hP hroot (kdfRk_inj hP h).1
    omega

theorem notCk_chainAt (hP : P.Symbolic) (k : ℕ) : NotCk P (chainAt P root z k) := by
  intro ck i h
  cases k with
  | zero =>
    obtain ⟨-, hi, -⟩ := hP.hkdf_injective h
    exact absurd hi (by decide)
  | succ k =>
    obtain ⟨-, hi, -⟩ := hP.hkdf_injective h
    exact absurd hi (by decide)

theorem notCk_kdfRk (hP : P.Symbolic) (r y : Bytes) : NotCk P (kdfRk P r y).2 := by
  intro ck i h
  obtain ⟨-, hi, -⟩ := hP.hkdf_injective h
  exact absurd hi (by decide)

theorem chainKey_inj (hP : P.Symbolic) {c d : Bytes} (hc : NotCk P c) (hd : NotCk P d) {i j : ℕ}
    (h : chainKey P c i = chainKey P d j) : c = d ∧ i = j := by
  induction i generalizing j with
  | zero =>
    cases j with
    | zero => exact ⟨h, rfl⟩
    | succ j =>
      rw [chainKey_succ] at h
      exact absurd h (hc _ _)
  | succ i ih =>
    cases j with
    | zero =>
      rw [chainKey_succ] at h
      exact absurd h.symm (hd _ _)
    | succ j =>
      rw [chainKey_succ, chainKey_succ] at h
      obtain ⟨rfl, rfl⟩ := ih (hP.hkdf_injective h).1
      exact ⟨rfl, rfl⟩

theorem messageKey_inj (hP : P.Symbolic) {c d : Bytes} (hc : NotCk P c) (hd : NotCk P d) {i j : ℕ}
    (h : messageKey P c i = messageKey P d j) : c = d ∧ i = j :=
  chainKey_inj hP hc hd (hP.hkdf_injective h).1

/-- **Different messages of a session have different keys.** -/
theorem messageKey_chainAt_inj (hP : P.Symbolic) (hroot : NotRk P root) {k l i j : ℕ}
    (h : messageKey P (chainAt P root z k) i = messageKey P (chainAt P root z l) j) :
    k = l ∧ i = j := by
  obtain ⟨hc, hij⟩ := messageKey_inj hP (notCk_chainAt hP k) (notCk_chainAt hP l) h
  exact ⟨chainAt_injective hP hroot hc, hij⟩

end SecChat
