import SecChat.Python.Method

/-!
# Rules for methods

Facts about the object that a method leaves behind, also where it raises, and about how often it
does some kind of step.

* `ofExcept_bind_eq_ok`: a computation that does not touch the object comes first;
* `Keeps I x`: the method keeps an invariant of the object;
* `Counts b x y`: `x` does what `y` does, and counts at most `b` steps on the way.
-/

namespace Py.Method

variable {σ α β : Type} {I : σ → Prop}

/-- A sequence that returned after a first part that leaves the object alone. -/
theorem ofExcept_bind_eq_ok {x : Except Exn α} {f : α → Method σ β} {s s' : σ} {b : β}
    (h : (ofExcept x >>= f) s = (.ok b, s')) : ∃ a, x = .ok a ∧ f a s = (.ok b, s') := by
  obtain ⟨a, t, hrun, h⟩ := bind_eq_ok h
  rw [ofExcept_run] at hrun
  obtain ⟨hx, rfl⟩ := Prod.mk.inj hrun
  exact ⟨a, hx, h⟩

/-- The method keeps the invariant, whether it returns or raises. -/
def Keeps (I : σ → Prop) (x : Method σ α) : Prop := ∀ s, I s → I (x s).2

theorem Keeps.pure (a : α) : Keeps I (pure a : Method σ α) := fun _ h => h

theorem Keeps.ofExcept (r : Except Exn α) : Keeps I (ofExcept r) := fun _ h => h

theorem Keeps.raise (e : Exn) : Keeps I (raise e : Method σ α) := fun _ h => h

theorem Keeps.modify {f : σ → σ} (h : ∀ s, I s → I (f s)) : Keeps I (modify f) := h

theorem Keeps.bind {x : Method σ α} {f : α → Method σ β} (hx : Keeps I x)
    (hf : ∀ a, Keeps I (f a)) : Keeps I (x >>= f) := by
  intro s hs
  have hmid := hx s hs
  rw [bind_run]
  rcases hxs : x s with ⟨r, s'⟩
  rw [hxs] at hmid
  cases r with
  | error e => exact hmid
  | ok a => exact hf a s' hmid

/-- What is read off the object is known to meet the invariant. -/
theorem Keeps.get_bind {f : σ → Method σ β} (hf : ∀ s, I s → I (f s s).2) :
    Keeps I (get >>= f) := hf

/-- A method on the object alone, next to a counter. -/
def uncounted (x : Method σ α) : Method (σ × ℕ) α := fun s => ((x s.1).1, (x s.1).2, s.2)

/-- One step is counted. -/
def tick : Method (σ × ℕ) Unit := modify fun s => (s.1, s.2 + 1)

/-- `x` does what `y` does, and counts at most `b` steps. -/
def Counts (b : ℕ) (x : Method (σ × ℕ) α) (y : Method σ α) : Prop :=
  ∀ s k, ∃ n ≤ b, x (s, k) = ((y s).1, (y s).2, k + n)

theorem Counts.uncounted (x : Method σ α) : Counts 0 (uncounted x) x :=
  fun _ _ => ⟨0, le_rfl, rfl⟩

theorem Counts.pure (a : α) : Counts 0 (pure a : Method (σ × ℕ) α) (pure a) :=
  fun _ _ => ⟨0, le_rfl, rfl⟩

theorem Counts.tick : Counts 1 (tick : Method (σ × ℕ) Unit) (Pure.pure ()) :=
  fun _ _ => ⟨1, le_rfl, rfl⟩

theorem Counts.mono {b b' : ℕ} {x : Method (σ × ℕ) α} {y : Method σ α} (h : Counts b x y)
    (hle : b ≤ b') : Counts b' x y := fun s k => by
  obtain ⟨n, hn, hx⟩ := h s k
  exact ⟨n, hn.trans hle, hx⟩

theorem Counts.bind {b b' : ℕ} {x : Method (σ × ℕ) α} {y : Method σ α}
    {f : α → Method (σ × ℕ) β} {g : α → Method σ β} (hx : Counts b x y)
    (hf : ∀ a, Counts b' (f a) (g a)) : Counts (b + b') (x >>= f) (y >>= g) := by
  intro s k
  obtain ⟨n, hn, hxs⟩ := hx s k
  rw [bind_run, bind_run, hxs]
  rcases y s with ⟨r, s'⟩
  cases r with
  | error e => exact ⟨n, hn.trans (Nat.le_add_right b b'), rfl⟩
  | ok a =>
    obtain ⟨n', hn', hfs⟩ := hf a s' (k + n)
    exact ⟨n + n', Nat.add_le_add hn hn', by rw [← Nat.add_assoc]; exact hfs⟩

/-- Nothing is counted after an exception. -/
theorem Counts.raise_bind (e : Exn) (f : α → Method (σ × ℕ) β) (g : α → Method σ β) :
    Counts 0 (Method.uncounted (raise e) >>= f) (raise e >>= g) := fun _ _ => ⟨0, le_rfl, rfl⟩

/-- A loop that counts each of its turns. -/
theorem Counts.iterate (f : σ → σ) (n : ℕ) :
    Counts n (Method.modify (fun s : σ × ℕ => (f s.1, s.2 + 1))^[n]) (Method.modify f^[n]) := by
  have hiterate : ∀ s k, (fun s : σ × ℕ => (f s.1, s.2 + 1))^[n] (s, k) = (f^[n] s, k + n) := by
    induction n with
    | zero => exact fun _ _ => rfl
    | succ n ih =>
      intro s k
      rw [Function.iterate_succ_apply, Function.iterate_succ_apply, ih, Nat.add_right_comm]
      rfl
  intro s k
  exact ⟨n, le_rfl, by rw [modify_run, modify_run, hiterate]⟩

end Py.Method
