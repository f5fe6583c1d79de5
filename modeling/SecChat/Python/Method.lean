import Mathlib.Tactic

/-!
# Exceptions and methods

`Exn` lists the exceptions that the modelled code raises or lets through.  A `Method σ α` is the
body of a Python method on an object of type `σ`: it returns a value or raises, and in both cases
leaves an object behind.  What was assigned before a `raise` stays assigned; undoing it is up to
the caller.
-/

namespace Py

/-- The exceptions of the modelled code. -/
inductive Exn
  | valueError (msg : String)
  | keyError (key : String)
  | typeError
  | attributeError
  | unicodeError
  | binasciiError
  | jsonDecodeError
  | overflowError
  | fileNotFound (path : String)
  | runtimeError (msg : String)
  | invalidTag
  | invalidSignature
  deriving DecidableEq, Repr

/-- A method body: the object before the call, to the result and the object after it. -/
def Method (σ α : Type) := σ → Except Exn α × σ

namespace Method

variable {σ τ α β : Type}

/-- Run `f` on what `x` returned, or pass on what `x` raised. -/
def andThen (x : Method σ α) (f : α → Method σ β) : Method σ β := fun s =>
  match x s with
  | (.ok a, s') => f a s'
  | (.error e, s') => (.error e, s')

instance : Monad (Method σ) where
  pure a := fun s => (.ok a, s)
  bind := andThen

/-- The object itself. -/
def get : Method σ σ := fun s => (.ok s, s)

/-- Assign to attributes of the object. -/
def modify (f : σ → σ) : Method σ Unit := fun s => (.ok (), f s)

/-- Read something off the object. -/
def gets (f : σ → α) : Method σ α := fun s => (.ok (f s), s)

/-- `raise e`. -/
def raise (e : Exn) : Method σ α := fun s => (.error e, s)

/-- A computation that may raise but does not touch the object. -/
def ofExcept (x : Except Exn α) : Method σ α := fun s => (x, s)

@[simp] theorem pure_run (a : α) (s : σ) : (pure a : Method σ α) s = (.ok a, s) := rfl

theorem bind_run (x : Method σ α) (f : α → Method σ β) (s : σ) :
    (x >>= f) s = match x s with
      | (.ok a, s') => f a s'
      | (.error e, s') => (.error e, s') := rfl

theorem bind_ok {x : Method σ α} {f : α → Method σ β} {s s' : σ} {a : α}
    (h : x s = (.ok a, s')) : (x >>= f) s = f a s' := by
  rw [bind_run, h]

theorem bind_error {x : Method σ α} {f : α → Method σ β} {s s' : σ} {e : Exn}
    (h : x s = (.error e, s')) : (x >>= f) s = (.error e, s') := by
  rw [bind_run, h]

theorem bind_assoc {γ : Type} (x : Method σ α) (f : α → Method σ β) (g : β → Method σ γ) :
    (x >>= f) >>= g = x >>= fun a => f a >>= g := by
  funext s
  rw [bind_run, bind_run, bind_run]
  rcases x s with ⟨r, s'⟩
  cases r with
  | error e => rfl
  | ok a => rfl

/-- What a sequence that returned did: its first part returned too. -/
theorem bind_eq_ok {x : Method σ α} {f : α → Method σ β} {s s'' : σ} {b : β}
    (h : (x >>= f) s = (.ok b, s'')) : ∃ a s', x s = (.ok a, s') ∧ f a s' = (.ok b, s'') := by
  rw [bind_run] at h
  split at h
  · next a s' hx => exact ⟨a, s', hx, h⟩
  · cases h

@[simp] theorem get_bind (f : σ → Method σ β) (s : σ) : (get >>= f) s = f s s := rfl

@[simp] theorem gets_bind (g : σ → α) (f : α → Method σ β) (s : σ) :
    (gets g >>= f) s = f (g s) s := rfl

@[simp] theorem modify_bind (g : σ → σ) (f : Unit → Method σ β) (s : σ) :
    (modify g >>= f) s = f () (g s) := rfl

@[simp] theorem modify_run (g : σ → σ) (s : σ) : modify g s = (.ok (), g s) := rfl

@[simp] theorem raise_run (e : Exn) (s : σ) : (raise e : Method σ α) s = (.error e, s) := rfl

@[simp] theorem raise_bind (e : Exn) (f : α → Method σ β) (s : σ) :
    ((raise e : Method σ α) >>= f) s = (.error e, s) := rfl

@[simp] theorem ofExcept_run (x : Except Exn α) (s : σ) : ofExcept x s = (x, s) := rfl

@[simp] theorem ofExcept_ok_bind (a : α) (f : α → Method σ β) (s : σ) :
    (ofExcept (.ok a) >>= f) s = f a s := rfl

@[simp] theorem ofExcept_error_bind (e : Exn) (f : α → Method σ β) (s : σ) :
    ((ofExcept (.error e) : Method σ α) >>= f) s = (.error e, s) := rfl

@[simp] theorem pure_bind_run (a : α) (f : α → Method σ β) (s : σ) :
    ((pure a : Method σ α) >>= f) s = f a s := rfl

end Method

section Except

variable {ε α β : Type}

@[simp] theorem ok_bind (a : α) (f : α → Except ε β) : (Except.ok a >>= f) = f a := rfl

@[simp] theorem error_bind (e : ε) (f : α → Except ε β) :
    ((Except.error e : Except ε α) >>= f) = .error e := rfl

@[simp] theorem pure_eq_ok (a : α) : (pure a : Except ε α) = .ok a := rfl

/-- A sequence returns exactly when its first part does and the rest does on its value. -/
theorem bind_eq_ok_iff {x : Except ε α} {f : α → Except ε β} {b : β} :
    (x >>= f) = .ok b ↔ ∃ a, x = .ok a ∧ f a = .ok b := by
  cases x <;> simp

/-- A loop that returned did so in every turn. -/
theorem mapM_eq_ok {f : α → Except ε β} {l : List α} {l' : List β}
    (h : l.mapM f = .ok l') : List.Forall₂ (fun a b => f a = .ok b) l l' := by
  induction l generalizing l' with
  | nil =>
    rw [List.mapM_nil] at h
    cases h
    exact .nil
  | cons a l ih =>
    rw [List.mapM_cons] at h
    obtain ⟨b, hb, h⟩ := bind_eq_ok_iff.mp h
    obtain ⟨bs, hbs, h⟩ := bind_eq_ok_iff.mp h
    cases h
    exact .cons hb (ih hbs)

theorem forall₂_mem_right {R : α → β → Prop} {l : List α} {l' : List β}
    (h : List.Forall₂ R l l') : ∀ b ∈ l', ∃ a ∈ l, R a b := by
  induction h with
  | nil => simp
  | @cons a b l l' hab _ ih =>
    intro c hc
    rcases List.mem_cons.mp hc with rfl | hc
    · exact ⟨a, List.mem_cons_self, hab⟩
    · obtain ⟨x, hx, hr⟩ := ih c hc
      exact ⟨x, List.mem_cons_of_mem _ hx, hr⟩

end Except

end Py
