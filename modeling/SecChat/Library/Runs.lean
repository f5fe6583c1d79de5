import Mathlib.Logic.Function.Basic
import Mathlib.Tactic.Basic

/-!
# Runs of a deterministic machine

A machine is a total function `step` of a state and an event, and a run is a list of events.

* `Always P s es`: `P` holds at the start of a run and after each of its events;
* `Each C s es`: every event of a run meets `C` in the state before it;
* `collect out s es`: what the events of a run put out;
* `always_of_each`, `each_of_each`: the invariant rule, for states and for events;
* `always_iff_each_of_inv`, `always_iff_each`, `always_and_each_iff`: a condition that is exact for one
  event is exact for a run;
* `collect_eq_of_simulation`, `each_iff_of_simulation`: two machines side by side;
* `keyed`, `collect_keyed`, `collect_keyed_of_forall`: one machine for each key, and what the machine of
  a key puts out.
-/

namespace Runs

variable {σ ε : Type} (step : σ → ε → σ)

/-- `P` holds in the first state and after each event. -/
def Always (P : σ → Prop) : σ → List ε → Prop
  | s, [] => P s
  | s, e :: es => P s ∧ Always P (step s e) es

/-- Every event meets `C` in the state before it. -/
def Each (C : σ → ε → Prop) : σ → List ε → Prop
  | _, [] => True
  | s, e :: es => C s e ∧ Each C (step s e) es

/-- What the events put out, each in the state before it. -/
def collect {α : Type} (out : σ → ε → List α) : σ → List ε → List α
  | _, [] => []
  | s, e :: es => out s e ++ collect out (step s e) es

variable {step} {P Q : σ → Prop} {C : σ → ε → Prop} {s : σ} {es : List ε}

theorem each_nil : Each step C s [] ↔ True := Iff.rfl

theorem each_cons {e : ε} : Each step C s (e :: es) ↔ C s e ∧ Each step C (step s e) es := Iff.rfl

theorem Always.head (h : Always step P s es) : P s := by
  cases es with
  | nil => exact h
  | cons e es => exact h.1

theorem each_append {later : List ε} :
    Each step C s (es ++ later) ↔ Each step C s es ∧ Each step C (es.foldl step s) later := by
  induction es generalizing s with
  | nil => exact ⟨fun h => ⟨trivial, h⟩, And.right⟩
  | cons first es ih =>
    rw [List.cons_append, each_cons, ih, each_cons, and_assoc]
    rfl

theorem each_concat {e : ε} :
    Each step C s (es ++ [e]) ↔ Each step C s es ∧ C (es.foldl step s) e := by
  rw [each_append, each_cons, each_nil, and_true]

theorem collect_append {α : Type} {out : σ → ε → List α} {later : List ε} :
    collect step out s (es ++ later) =
      collect step out s es ++ collect step out (es.foldl step s) later := by
  induction es generalizing s with
  | nil => rfl
  | cons e es ih =>
    show out s e ++ collect step out (step s e) (es ++ later) = _
    rw [ih, ← List.append_assoc]
    rfl

theorem collect_concat {α : Type} {out : σ → ε → List α} {e : ε} :
    collect step out s (es ++ [e]) = collect step out s es ++ out (es.foldl step s) e := by
  rw [collect_append]
  exact congrArg _ (List.append_nil _)

/-- What is put out, taken further. -/
theorem map_collect {α β : Type} (f : α → β) (out : σ → ε → List α) (s : σ) (es : List ε) :
    (collect step out s es).map f = collect step (fun s e => (out s e).map f) s es := by
  induction es generalizing s with
  | nil => rfl
  | cons e es ih => simp only [collect, List.map_append, ih]

/-- A condition on the events alone. -/
theorem each_of_forall {D : ε → Prop} (h : ∀ e ∈ es, D e) : Each step (fun _ e => D e) s es := by
  induction es generalizing s with
  | nil => trivial
  | cons e es ih => exact ⟨h e List.mem_cons_self, ih fun e' he' => h e' (List.mem_cons_of_mem _ he')⟩

/-- Two conditions at once. -/
theorem Each.and {D : σ → ε → Prop} (hC : Each step C s es) (hD : Each step D s es) :
    Each step (fun s e => C s e ∧ D s e) s es := by
  induction es generalizing s with
  | nil => trivial
  | cons e es ih => exact ⟨⟨hC.1, hD.1⟩, ih hC.2 hD.2⟩

/-- `Always` in terms of the prefixes of the run. -/
theorem always_iff_prefixes :
    Always step P s es ↔ ∀ pre, pre <+: es → P (pre.foldl step s) := by
  induction es generalizing s with
  | nil =>
    constructor
    · intro h pre hpre
      obtain rfl := List.prefix_nil.mp hpre
      exact h
    · exact fun h => h [] (List.prefix_refl _)
  | cons e es ih =>
    constructor
    · rintro ⟨hs, h⟩ pre hpre
      cases pre with
      | nil => exact hs
      | cons e' pre =>
        obtain ⟨rfl, htail⟩ := List.cons_prefix_cons.mp hpre
        exact ih.mp h pre htail
    · intro h
      refine ⟨h [] List.nil_prefix, ih.mpr fun pre hpre => ?_⟩
      exact h (e :: pre) (List.cons_prefix_cons.mpr ⟨rfl, hpre⟩)

theorem Always.imp (himp : ∀ s, P s → Q s) (h : Always step P s es) : Always step Q s es := by
  rw [always_iff_prefixes] at h ⊢
  exact fun pre hpre => himp _ (h pre hpre)

/-- **The invariant rule.** -/
theorem always_of_each (hstep : ∀ s e, P s → C s e → P (step s e)) (hs : P s)
    (hC : Each step C s es) : Always step P s es := by
  induction es generalizing s with
  | nil => exact hs
  | cons e es ih => exact ⟨hs, ih (hstep s e hs hC.1) hC.2⟩

/-- The invariant rule for the last state of a run, when the condition is on the events alone. -/
theorem foldl_of_forall {D : ε → Prop} (hstep : ∀ s e, P s → D e → P (step s e)) (hs : P s)
    (hD : ∀ e ∈ es, D e) : P (es.foldl step s) := by
  induction es generalizing s with
  | nil => exact hs
  | cons e es ih =>
    exact ih (hstep s e hs (hD e List.mem_cons_self)) fun e' he' => hD e' (List.mem_cons_of_mem _ he')

/-- The invariant rule for what holds of every event. -/
theorem each_of_each {D : σ → ε → Prop} (hstep : ∀ s e, P s → C s e → P (step s e))
    (hevent : ∀ s e, P s → C s e → D s e) (hs : P s) (hC : Each step C s es) :
    Each step D s es := by
  induction es generalizing s with
  | nil => trivial
  | cons e es ih => exact ⟨hevent s e hs hC.1, ih (hstep s e hs hC.1) hC.2⟩

/-- An invariant `P` that is kept under `C` gives `Q` always, and an event after which `Q` holds met `C`:
then `C` is exact for `Q`. -/
theorem always_iff_each_of_inv (hPQ : ∀ s, P s → Q s) (hstep : ∀ s e, P s → C s e → P (step s e))
    (hback : ∀ s e, P s → Q (step s e) → C s e) (hs : P s) :
    Always step Q s es ↔ Each step C s es := by
  induction es generalizing s with
  | nil => exact iff_of_true (hPQ s hs) trivial
  | cons e es ih =>
    constructor
    · intro h
      have hC : C s e := hback s e hs h.2.head
      exact ⟨hC, (ih (hstep s e hs hC)).mp h.2⟩
    · intro h
      exact ⟨hPQ s hs, (ih (hstep s e hs h.1)).mpr h.2⟩

/-- An exact condition for one event is an exact condition for a run. -/
theorem always_iff_each (hstep : ∀ s e, P s → (P (step s e) ↔ C s e)) (hs : P s) :
    Always step P s es ↔ Each step C s es :=
  always_iff_each_of_inv (fun _ hs => hs) (fun s e hs => (hstep s e hs).mpr)
    (fun s e hs => (hstep s e hs).mp) hs

/-- A condition that is exact for what one event leaves and for what it puts out is exact for a run of
events that are all in `D`. -/
theorem always_and_each_iff {D : ε → Prop} {out : σ → ε → Prop}
    (hstep : ∀ s e, P s → D e → (P (step s e) ∧ out s e ↔ C s e)) (hs : P s) (hD : ∀ e ∈ es, D e) :
    Always step P s es ∧ Each step out s es ↔ Each step C s es := by
  induction es generalizing s with
  | nil => exact iff_of_true ⟨hs, trivial⟩ trivial
  | cons e es ih =>
    have he : D e := hD e List.mem_cons_self
    have hrest : ∀ f ∈ es, D f := fun f hf => hD f (List.mem_cons_of_mem _ hf)
    constructor
    · rintro ⟨⟨-, halways⟩, hout, heach⟩
      have hnext : P (step s e) := halways.head
      exact ⟨(hstep s e hs he).mp ⟨hnext, hout⟩, (ih hnext hrest).mp ⟨halways, heach⟩⟩
    · rintro ⟨hC, hmore⟩
      obtain ⟨hnext, hout⟩ := (hstep s e hs he).mpr hC
      obtain ⟨halways, heach⟩ := (ih hnext hrest).mpr hmore
      exact ⟨⟨hs, halways⟩, hout, heach⟩

/-! ### Two machines -/

section Simulation

variable {τ α : Type} {step' : τ → ε → τ} {R : σ → τ → Prop} {t : τ}

theorem foldl_of_simulation (hstep : ∀ s t e, R s t → C s e → R (step s e) (step' t e)) (hR : R s t)
    (hC : Each step C s es) : R (es.foldl step s) (es.foldl step' t) := by
  induction es generalizing s t with
  | nil => exact hR
  | cons e es ih => exact ih (hstep s t e hR hC.1) hC.2

/-- Machines that stay related put out the same. -/
theorem collect_eq_of_simulation {out : σ → ε → List α} {out' : τ → ε → List α}
    (hout : ∀ s t e, R s t → C s e → out s e = out' t e)
    (hstep : ∀ s t e, R s t → C s e → R (step s e) (step' t e)) (hR : R s t)
    (hC : Each step C s es) : collect step out s es = collect step' out' t es := by
  induction es generalizing s t with
  | nil => rfl
  | cons e es ih =>
    show out s e ++ _ = out' t e ++ _
    rw [hout s t e hR hC.1, ih (hstep s t e hR hC.1) hC.2]

/-- Machines that stay related meet the same conditions. -/
theorem each_iff_of_simulation {D : σ → ε → Prop} {D' : τ → ε → Prop}
    (hD : ∀ s t e, R s t → C s e → (D s e ↔ D' t e))
    (hstep : ∀ s t e, R s t → C s e → R (step s e) (step' t e)) (hR : R s t)
    (hC : Each step C s es) : Each step D s es ↔ Each step' D' t es := by
  induction es generalizing s t with
  | nil => exact Iff.rfl
  | cons e es ih =>
    rw [each_cons, each_cons, hD s t e hR hC.1, ih (hstep s t e hR hC.1) hC.2]

end Simulation

/-! ### One machine for each key -/

section Keyed

variable {κ α : Type} [DecidableEq κ]

/-- An event is for the machine of its key. -/
def keyed (key : ε → κ) (step : σ → ε → σ) (m : κ → σ) (e : ε) : κ → σ :=
  Function.update m (key e) (step (m (key e)) e)

/-- The machine of a key sees the events of its key only. -/
theorem collect_keyed (key : ε → κ) (out : σ → ε → List α) (k : κ) (m : κ → σ) (es : List ε) :
    collect (keyed key step) (fun m e => if key e = k then out (m k) e else []) m es =
      collect step out (m k) (es.filter fun e => key e = k) := by
  induction es generalizing m with
  | nil => rfl
  | cons e es ih =>
    have hrest := ih (keyed key step m e)
    by_cases hk : key e = k
    · have hm : keyed key step m e k = step (m k) e := by
        subst hk
        exact Function.update_self ..
      rw [hm] at hrest
      rw [List.filter_cons_of_pos (by simpa using hk)]
      show (if key e = k then out (m k) e else []) ++ _ = out (m k) e ++ _
      rw [if_pos hk, hrest]
    · have hm : keyed key step m e k = m k := Function.update_of_ne (Ne.symm hk) ..
      rw [hm] at hrest
      rw [List.filter_cons_of_neg (by simpa using hk), ← hrest]
      show (if key e = k then out (m k) e else []) ++ _ = _
      rw [if_neg hk, List.nil_append]

/-- Events of one key are for one machine. -/
theorem collect_keyed_of_forall (key : ε → κ) (out : σ → ε → List α) {k : κ} (m : κ → σ)
    {es : List ε} (h : ∀ e ∈ es, key e = k) :
    collect (keyed key step) (fun m e => out (m (key e)) e) m es = collect step out (m k) es := by
  induction es generalizing m with
  | nil => rfl
  | cons e es ih =>
    obtain ⟨hk, hrest⟩ := List.forall_mem_cons.mp h
    have hm : keyed key step m e k = step (m k) e := by
      subst hk
      exact Function.update_self ..
    show out (m (key e)) e ++ _ = out (m k) e ++ _
    rw [ih _ hrest, hm, hk]

end Keyed

end Runs
