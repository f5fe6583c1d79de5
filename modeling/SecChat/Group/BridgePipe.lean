import SecChat.Library.Runs
import Mathlib.Tactic

/-!
# Commands through the pipe of the bridge (`openmls_bridge.py`, `serve` of `main.rs`)

The threads of the client share one `MlsBridge`. `command` starts the process when there is none, and then,
under a lock, writes one line and reads one line; `serve` answers each line with one line and keeps one
state. Starting and stopping are not under the lock, so that there may be several processes.

* `Proc`, `Proc.serve`: a process, with the lines it was asked and the replies that were read;
* `Phase`, `Machine`, `step`: the threads in the middle of `command`, in any order of their steps;
* `exec`, `trace`: the lines handled one after the other, by nobody else;
* `Pipe`, `Inv`: what is in the pipes of a process;
* `replies_of_run`: each reply that is read is the reply to the reader's own line, in one order.

What a line does to the state of the bridge is a parameter.
-/

namespace SecChat.BridgePipe

open Runs

variable {T S Line Reply : Type} [DecidableEq T]

/-- A process: its state and its pipes. `served` are the lines it handled, `received` the lines of the
threads that read a reply, with the reply. -/
structure Proc (S Line Reply : Type) where
  alive : Bool
  state : S
  stdin : List Line
  stdout : List Reply
  served : List Line
  received : List (Line × Reply)

/-- `Popen([binary, "serve"])`. -/
def Proc.spawned (s₀ : S) : Proc S Line Reply := ⟨true, s₀, [], [], [], []⟩

/-- One turn of the loop of `serve`. A blank line is skipped. -/
def Proc.serve (blank : Line → Bool) (handle : S → Line → S × Reply) (p : Proc S Line Reply) :
    Proc S Line Reply :=
  match p.stdin with
  | [] => p
  | line :: rest =>
      if blank line then { p with stdin := rest }
      else
        { p with
          state := (handle p.state line).1
          stdin := rest
          stdout := p.stdout ++ [(handle p.state line).2]
          served := p.served ++ [line] }

/-- The process ends. What it has printed can still be read. -/
def Proc.die (p : Proc S Line Reply) : Proc S Line Reply := { p with alive := false, stdin := [] }

/-- Its streams are closed on this side too. -/
def Proc.closed (p : Proc S Line Reply) : Proc S Line Reply := { p.die with stdout := [] }

/-- A line that `command` writes: `json.dumps` of a dictionary is not blank. -/
abbrev Request (blank : Line → Bool) := { line : Line // blank line = false }

/-- Where a thread is in `command`. -/
inductive Phase {Line : Type} (blank : Line → Bool)
  | idle
  /-- `start` has not looked at the process yet. -/
  | looking (line : Request blank)
  /-- `start` found no process and is to start one. -/
  | spawning (line : Request blank)
  /-- `start` is through. -/
  | started (line : Request blank)
  /-- `proc = self._proc`. -/
  | ready (line : Request blank) (proc : ℕ)
  /-- The line is written and the lock is held. -/
  | reading (line : Request blank) (proc : ℕ)

/-- The processes started so far, `self._proc`, the lock and the threads. -/
structure Machine (T S Reply : Type) {Line : Type} (blank : Line → Bool) where
  procs : ℕ → Proc S Line Reply
  count : ℕ
  current : Option ℕ
  lock : Option T
  threads : T → Phase blank

/-- A thread makes its next step, or a process does. `crash` ends a process, in the middle of a line or
not, and `close` is `MlsBridge.close`. -/
inductive Event (T : Type) {Line : Type} (blank : Line → Bool)
  | call (t : T) (line : Request blank)
  | look (t : T)
  | spawn (t : T)
  | grab (t : T)
  | write (t : T)
  | read (t : T)
  | serve (proc : ℕ)
  | crash (proc : ℕ) (handled : Bool)
  | close

variable {blank : Line → Bool} (handle : S → Line → S × Reply) (s₀ : S)

variable (T Reply blank) in
/-- Before the first command. -/
def start : Machine T S Reply blank := ⟨fun _ => (Proc.spawned s₀).die, 0, none, none, fun _ => .idle⟩

/-- The thread goes on to another phase. -/
def Machine.goto (σ : Machine T S Reply blank) (t : T) (phase : Phase blank) : Machine T S Reply blank :=
  { σ with threads := Function.update σ.threads t phase }

/-- A process changes. -/
def Machine.setProc (σ : Machine T S Reply blank) (p : ℕ) (proc : Proc S Line Reply) :
    Machine T S Reply blank :=
  { σ with procs := Function.update σ.procs p proc }

/-- `proc.stdin.write` and `flush` once the lock is free. To a process that is gone they fail, and the
command ends. -/
def Machine.write (σ : Machine T S Reply blank) (t : T) (line : Request blank) (p : ℕ) :
    Machine T S Reply blank :=
  if (σ.procs p).alive then
    { (σ.setProc p { σ.procs p with stdin := (σ.procs p).stdin ++ [line.1] }).goto t (.reading line p) with
      lock := some t }
  else σ.goto t .idle

/-- `proc.stdout.readline`. It waits for a line as long as the process lives. -/
def Machine.read (σ : Machine T S Reply blank) (t : T) (line : Request blank) (p : ℕ) :
    Machine T S Reply blank :=
  match (σ.procs p).stdout with
  | reply :: rest =>
      { (σ.setProc p { σ.procs p with
          stdout := rest
          received := (σ.procs p).received ++ [(line.1, reply)] }).goto t .idle with lock := none }
  | [] => if (σ.procs p).alive then σ else { σ.goto t .idle with lock := none }

/-- One step. What cannot happen leaves the state. -/
def step (σ : Machine T S Reply blank) : Event T blank → Machine T S Reply blank
  | .call t line =>
      match σ.threads t with
      | .idle => σ.goto t (.looking line)
      | _ => σ
  | .look t =>
      match σ.threads t with
      | .looking line =>
          if σ.current.any fun p => (σ.procs p).alive then σ.goto t (.started line)
          else σ.goto t (.spawning line)
      | _ => σ
  | .spawn t =>
      match σ.threads t with
      | .spawning line =>
          { (σ.setProc σ.count (.spawned s₀)).goto t (.started line) with
            count := σ.count + 1
            current := some σ.count }
      | _ => σ
  | .grab t =>
      match σ.threads t, σ.current with
      | .started line, some p => σ.goto t (.ready line p)
      | .started _, none => σ.goto t .idle
      | _, _ => σ
  | .write t =>
      match σ.threads t, σ.lock with
      | .ready line p, none => σ.write t line p
      | _, _ => σ
  | .read t =>
      match σ.threads t with
      | .reading line p => σ.read t line p
      | _ => σ
  | .serve p => if (σ.procs p).alive then σ.setProc p ((σ.procs p).serve blank handle) else σ
  | .crash p handled =>
      -- a line may be handled and its reply lost
      if handled ∧ (σ.procs p).alive then
        σ.setProc p { ((σ.procs p).serve blank handle).die with stdout := (σ.procs p).stdout }
      else σ.setProc p (σ.procs p).die
  | .close =>
      match σ.current with
      | none => σ
      | some p => { σ.setProc p (σ.procs p).closed with current := none }

/-! ### One line after the other -/

/-- The state after some lines. -/
def exec (s : S) (lines : List Line) : S := lines.foldl (fun s line => (handle s line).1) s

/-- Each line with the reply to it. -/
def trace : S → List Line → List (Line × Reply)
  | _, [] => []
  | s, line :: lines => (line, (handle s line).2) :: trace (handle s line).1 lines

variable {handle s₀}

theorem exec_concat (s : S) (lines : List Line) (line : Line) :
    exec handle s (lines ++ [line]) = (handle (exec handle s lines) line).1 := by
  rw [exec, List.foldl_append]
  rfl

theorem trace_concat (s : S) (lines : List Line) (line : Line) :
    trace handle s (lines ++ [line]) =
      trace handle s lines ++ [(line, (handle (exec handle s lines) line).2)] := by
  induction lines generalizing s with
  | nil => rfl
  | cons first lines ih =>
    rw [List.cons_append, trace, ih]
    rfl

/-! ### What is in the pipes -/

/-- The line for whose reply a thread waits at a process. -/
def Phase.waitsFor (phase : Phase blank) (p : ℕ) : Option (Request blank) :=
  match phase with
  | .reading line q => if q = p then some line else none
  | _ => none

/-- The line for whose reply the holder of the lock waits at a process. -/
def asker (lock : Option T) (threads : T → Phase blank) (p : ℕ) : Option (Request blank) :=
  lock.bind fun t => (threads t).waitsFor p

/-- The pipes of a process, with the line of the thread that waits there. -/
inductive Pipe (handle : S → Line → S × Reply) (s₀ : S) :
    Option (Request blank) → Proc S Line Reply → Prop
  /-- Nobody waits, or for a process that is gone. -/
  | quiet {asks : Option (Request blank)} {p : Proc S Line Reply} (halive : asks = none ∨ p.alive = false)
      (hin : p.stdin = []) (hout : p.stdout = []) (htrace : trace handle s₀ p.served = p.received) :
      Pipe handle s₀ asks p
  /-- The line is in `stdin`. -/
  | asked {line : Request blank} {p : Proc S Line Reply} (halive : p.alive = true)
      (hin : p.stdin = [line.1]) (hout : p.stdout = [])
      (htrace : trace handle s₀ p.served = p.received) : Pipe handle s₀ (some line) p
  /-- The reply is in `stdout`. -/
  | answered {line : Request blank} {p : Proc S Line Reply} {reply : Reply} (hin : p.stdin = [])
      (hout : p.stdout = [reply]) (htrace : trace handle s₀ p.served = p.received ++ [(line.1, reply)]) :
      Pipe handle s₀ (some line) p
  /-- The process is gone and its last reply was not read. -/
  | lost {asks : Option (Request blank)} {p : Proc S Line Reply} {last : Line × Reply}
      (halive : p.alive = false) (hin : p.stdin = []) (hout : p.stdout = [])
      (htrace : trace handle s₀ p.served = p.received ++ [last]) : Pipe handle s₀ asks p

variable {asks : Option (Request blank)} {p : Proc S Line Reply}

theorem Pipe.serve (h : Pipe handle s₀ asks p) (hstate : p.state = exec handle s₀ p.served)
    (halive : p.alive = true) : Pipe handle s₀ asks (p.serve blank handle) := by
  cases h with
  | quiet hquiet hin hout htrace =>
    rw [Proc.serve, hin]
    exact .quiet hquiet hin hout htrace
  | @asked line _ _ hin hout htrace =>
    have hserved : trace handle s₀ (p.served ++ [line.1]) =
        p.received ++ [(line.1, (handle p.state line.1).2)] := by
      rw [trace_concat, htrace, hstate]
    simp only [Proc.serve, hin, line.2, Bool.false_eq_true, if_false]
    exact .answered rfl (by rw [hout]; rfl) hserved
  | answered hin hout htrace =>
    rw [Proc.serve, hin]
    exact .answered hin hout htrace
  | lost hdead =>
    rw [halive] at hdead
    cases hdead

theorem state_serve (hstate : p.state = exec handle s₀ p.served) :
    (p.serve blank handle).state = exec handle s₀ (p.serve blank handle).served := by
  rw [Proc.serve]
  cases p.stdin with
  | nil => exact hstate
  | cons line rest =>
    by_cases hblank : blank line = true
    · simp only [hblank, if_true]
      exact hstate
    · simp only [hblank]
      show (handle p.state line).1 = _
      rw [hstate]
      exact (exec_concat s₀ p.served line).symm

theorem Pipe.die (h : Pipe handle s₀ asks p) : Pipe handle s₀ asks p.die := by
  cases h with
  | quiet hquiet hin hout htrace => exact .quiet (Or.inr rfl) rfl hout htrace
  | asked halive hin hout htrace => exact .quiet (Or.inr rfl) rfl hout htrace
  | answered hin hout htrace => exact .answered rfl hout htrace
  | lost hdead hin hout htrace => exact .lost rfl rfl hout htrace

theorem Pipe.closed (h : Pipe handle s₀ asks p) : Pipe handle s₀ asks p.closed := by
  cases h with
  | quiet hquiet hin hout htrace => exact .quiet (Or.inr rfl) rfl rfl htrace
  | asked halive hin hout htrace => exact .quiet (Or.inr rfl) rfl rfl htrace
  | answered hin hout htrace => exact .lost rfl rfl rfl htrace
  | lost hdead hin hout htrace => exact .lost rfl rfl rfl htrace

/-- The process handles its line and ends before it prints the reply. -/
theorem Pipe.crash (h : Pipe handle s₀ asks p) (hstate : p.state = exec handle s₀ p.served) :
    Pipe handle s₀ asks { (p.serve blank handle).die with stdout := p.stdout } := by
  cases h with
  | quiet hquiet hin hout htrace =>
    rw [Proc.serve, hin]
    exact .quiet (Or.inr rfl) rfl hout htrace
  | @asked line _ _ hin hout htrace =>
    have hserved : trace handle s₀ (p.served ++ [line.1]) =
        p.received ++ [(line.1, (handle p.state line.1).2)] := by
      rw [trace_concat, htrace, hstate]
    simp only [Proc.serve, hin, line.2, Bool.false_eq_true, if_false]
    exact .lost rfl rfl hout hserved
  | answered hin hout htrace =>
    rw [Proc.serve, hin]
    exact .answered rfl hout htrace
  | lost hdead hin hout htrace =>
    rw [Proc.serve, hin]
    exact .lost rfl rfl hout htrace

theorem Pipe.write {line : Request blank} (h : Pipe handle s₀ (none : Option (Request blank)) p)
    (halive : p.alive = true) : Pipe handle s₀ (some line) { p with stdin := p.stdin ++ [line.1] } := by
  cases h with
  | quiet _ hin hout htrace => exact .asked halive (by rw [hin]; rfl) hout htrace
  | lost hdead =>
    rw [halive] at hdead
    cases hdead

/-- Who reads a reply reads the one to its own line. -/
theorem Pipe.read {line : Request blank} {reply : Reply} {rest : List Reply}
    (h : Pipe handle s₀ (some line) p) (hout : p.stdout = reply :: rest) :
    Pipe handle s₀ (none : Option (Request blank))
      { p with stdout := rest, received := p.received ++ [(line.1, reply)] } := by
  cases h with
  | answered hin hanswer htrace =>
    rw [hanswer] at hout
    obtain ⟨rfl, rfl⟩ := List.cons.inj hout
    exact .quiet (Or.inl rfl) hin rfl htrace
  | quiet _ _ hempty => rw [hempty] at hout; cases hout
  | asked _ _ hempty => rw [hempty] at hout; cases hout
  | lost _ _ hempty => rw [hempty] at hout; cases hout

/-- Who reads nothing has a process that is gone. -/
theorem Pipe.giveUp (h : Pipe handle s₀ asks p) (hout : p.stdout = []) (hdead : p.alive = false) :
    Pipe handle s₀ (none : Option (Request blank)) p := by
  cases h with
  | quiet _ hin hout htrace => exact .quiet (Or.inl rfl) hin hout htrace
  | lost _ hin hout htrace => exact .lost hdead hin hout htrace
  | asked halive =>
    rw [halive] at hdead
    cases hdead
  | answered _ hanswer =>
    rw [hanswer] at hout
    cases hout

/-- At most one reply is not read. -/
theorem Pipe.unread (h : Pipe handle s₀ asks p) :
    ∃ unread, unread.length ≤ 1 ∧ trace handle s₀ p.served = p.received ++ unread := by
  cases h with
  | quiet _ _ _ htrace => exact ⟨[], Nat.zero_le _, by rw [List.append_nil, htrace]⟩
  | asked _ _ _ htrace => exact ⟨[], Nat.zero_le _, by rw [List.append_nil, htrace]⟩
  | answered _ _ htrace => exact ⟨_, le_rfl, htrace⟩
  | lost _ _ _ htrace => exact ⟨_, le_rfl, htrace⟩

/-! ### The invariant -/

/-- A phase in which the lock is not held. -/
def Phase.Free (phase : Phase blank) : Prop := ∀ line p, phase ≠ .reading line p

variable {lock : Option T} {threads : T → Phase blank} {t : T} {phase : Phase blank} {line : Request blank}

theorem waitsFor_of_free (h : phase.Free) (p : ℕ) : phase.waitsFor p = none := by
  cases phase with
  | reading line q => exact absurd rfl (h line q)
  | _ => rfl

theorem asker_update (ht : (threads t).Free) (hphase : phase.Free) (p : ℕ) :
    asker lock (Function.update threads t phase) p = asker lock threads p := by
  cases lock with
  | none => rfl
  | some u =>
    show (Function.update threads t phase u).waitsFor p = (threads u).waitsFor p
    by_cases hu : u = t
    · subst hu
      rw [Function.update_self, waitsFor_of_free hphase, waitsFor_of_free ht]
    · rw [Function.update_of_ne hu]

omit [DecidableEq T] in
theorem asker_reading {p : ℕ} (h : threads t = .reading line p) (q : ℕ) :
    asker (some t) threads q = if p = q then some line else none := by
  rw [asker, Option.bind_some, h, Phase.waitsFor]

/-- The pipes of each process hold what its reader waits for, and processes are known before they are
used. -/
structure Inv (handle : S → Line → S × Reply) (s₀ : S) (σ : Machine T S Reply blank) : Prop where
  pipes : ∀ p, Pipe handle s₀ (asker σ.lock σ.threads p) (σ.procs p)
  states : ∀ p, (σ.procs p).state = exec handle s₀ (σ.procs p).served
  locked : ∀ t line p, σ.threads t = .reading line p → σ.lock = some t
  known : ∀ t line p, σ.threads t = .ready line p ∨ σ.threads t = .reading line p → p < σ.count
  current : ∀ p, σ.current = some p → p < σ.count

variable {σ : Machine T S Reply blank}

/-- A thread goes from one phase without the lock to another. -/
theorem Inv.goto (h : Inv handle s₀ σ) (ht : (σ.threads t).Free) (hphase : phase.Free)
    (hknown : ∀ line p, phase = .ready line p → p < σ.count) : Inv handle s₀ (σ.goto t phase) where
  pipes p := by
    show Pipe handle s₀ (asker σ.lock (Function.update σ.threads t phase) p) (σ.procs p)
    rw [asker_update ht hphase]
    exact h.pipes p
  states := h.states
  locked u line p hu := by
    replace hu : Function.update σ.threads t phase u = .reading line p := hu
    by_cases hut : u = t
    · subst hut
      rw [Function.update_self] at hu
      exact absurd hu (hphase line p)
    · rw [Function.update_of_ne hut] at hu
      exact h.locked u line p hu
  known u line p hu := by
    replace hu : Function.update σ.threads t phase u = .ready line p ∨
      Function.update σ.threads t phase u = .reading line p := hu
    by_cases hut : u = t
    · subst hut
      rw [Function.update_self] at hu
      exact hknown line p (hu.resolve_right (hphase line p))
    · rw [Function.update_of_ne hut] at hu
      exact h.known u line p hu
  current := h.current

omit [DecidableEq T] in
/-- A process changes, and its pipes stay right. -/
theorem Inv.setProc (h : Inv handle s₀ σ) {p : ℕ} {proc : Proc S Line Reply}
    (hpipe : Pipe handle s₀ (asker σ.lock σ.threads p) proc)
    (hstate : proc.state = exec handle s₀ proc.served) : Inv handle s₀ (σ.setProc p proc) where
  pipes q := by
    show Pipe handle s₀ (asker σ.lock σ.threads q) (Function.update σ.procs p proc q)
    by_cases hq : q = p
    · subst hq
      rwa [Function.update_self]
    · rw [Function.update_of_ne hq]
      exact h.pipes q
  states q := by
    show (Function.update σ.procs p proc q).state = exec handle s₀ (Function.update σ.procs p proc q).served
    by_cases hq : q = p
    · subst hq
      rwa [Function.update_self]
    · rw [Function.update_of_ne hq]
      exact h.states q
  locked := h.locked
  known := h.known
  current := h.current

omit [DecidableEq T] in
/-- Nobody waits at a process that was not started. -/
theorem Inv.asker_count (h : Inv handle s₀ σ) : asker σ.lock σ.threads σ.count = none := by
  cases hlock : σ.lock with
  | none => rfl
  | some u =>
    show (σ.threads u).waitsFor σ.count = none
    cases hu : σ.threads u with
    | reading line q =>
      have hq : q < σ.count := h.known u line q (Or.inr hu)
      rw [Phase.waitsFor, if_neg hq.ne]
    | _ => rfl

theorem Inv.spawn (h : Inv handle s₀ σ) (ht : (σ.threads t).Free) :
    Inv handle s₀ { (σ.setProc σ.count (.spawned s₀)).goto t (.started line) with
      count := σ.count + 1
      current := some σ.count } := by
  have hproc : Inv handle s₀ (σ.setProc σ.count (.spawned s₀)) := by
    refine h.setProc ?_ rfl
    rw [h.asker_count]
    exact .quiet (Or.inl rfl) rfl rfl rfl
  have hgoto := hproc.goto ht (show (Phase.started line).Free by simp [Phase.Free]) (by simp)
  refine ⟨hgoto.pipes, hgoto.states, hgoto.locked, fun u l p hu => ?_, fun p hp => ?_⟩
  · exact Nat.lt_succ_of_lt (hgoto.known u l p hu)
  · obtain rfl := Option.some.inj hp
    exact Nat.lt_succ_self _

theorem Inv.write (h : Inv handle s₀ σ) {p : ℕ} (ht : σ.threads t = .ready line p) (hlock : σ.lock = none) :
    Inv handle s₀ (σ.write t line p) := by
  have hfree : (σ.threads t).Free := by
    rw [ht]
    simp [Phase.Free]
  rw [Machine.write]
  split
  next halive =>
    -- nobody holds the lock, so nobody waits anywhere
    have hnobody : ∀ q, asker σ.lock σ.threads q = none := by
      intro q
      rw [hlock]
      rfl
    have hasker : ∀ q, asker (some t) (Function.update σ.threads t (.reading line p)) q =
        if p = q then some line else none := asker_reading (Function.update_self ..)
    constructor
    case pipes =>
      intro q
      show Pipe handle s₀ (asker (some t) (Function.update σ.threads t (.reading line p)) q)
        (Function.update σ.procs p { σ.procs p with stdin := (σ.procs p).stdin ++ [line.1] } q)
      have hpipe := h.pipes q
      rw [hnobody] at hpipe
      rw [hasker]
      by_cases hq : q = p
      · subst hq
        rw [if_pos rfl, Function.update_self]
        exact hpipe.write halive
      · rw [if_neg (Ne.symm hq), Function.update_of_ne hq]
        exact hpipe
    case states =>
      intro q
      show (Function.update σ.procs p { σ.procs p with stdin := (σ.procs p).stdin ++ [line.1] } q).state =
        exec handle s₀ (Function.update σ.procs p { σ.procs p with
          stdin := (σ.procs p).stdin ++ [line.1] } q).served
      by_cases hq : q = p
      · subst hq
        rw [Function.update_self]
        exact h.states q
      · rw [Function.update_of_ne hq]
        exact h.states q
    case locked =>
      intro u l q hu
      replace hu : Function.update σ.threads t (.reading line p) u = .reading l q := hu
      by_cases hut : u = t
      · rw [hut]
      · rw [Function.update_of_ne hut] at hu
        rw [h.locked u l q hu] at hlock
        cases hlock
    case known =>
      intro u l q hu
      replace hu : Function.update σ.threads t (.reading line p) u = .ready l q ∨
        Function.update σ.threads t (.reading line p) u = .reading l q := hu
      by_cases hut : u = t
      · subst hut
        rw [Function.update_self] at hu
        rcases hu with hu | hu
        · cases hu
        · cases hu
          exact h.known u line p (Or.inl ht)
      · rw [Function.update_of_ne hut] at hu
        exact h.known u l q hu
    case current => exact h.current
  next => exact h.goto hfree (by simp [Phase.Free]) (by simp)

/-- A thread is through with the process it waited for. -/
theorem Inv.leave (h : Inv handle s₀ σ) {p : ℕ} {proc : Proc S Line Reply}
    (ht : σ.threads t = .reading line p)
    (hpipe : Pipe handle s₀ (none : Option (Request blank)) proc)
    (hstate : proc.state = exec handle s₀ proc.served) :
    Inv handle s₀ { (σ.setProc p proc).goto t .idle with lock := none } := by
  have hlock : σ.lock = some t := h.locked t line p ht
  constructor
  case pipes =>
    intro q
    show Pipe handle s₀ none (Function.update σ.procs p proc q)
    by_cases hq : q = p
    · subst hq
      rwa [Function.update_self]
    · have hother := h.pipes q
      rw [hlock, asker_reading ht, if_neg (Ne.symm hq)] at hother
      rwa [Function.update_of_ne hq]
  case states =>
    intro q
    show (Function.update σ.procs p proc q).state = exec handle s₀ (Function.update σ.procs p proc q).served
    by_cases hq : q = p
    · subst hq
      rwa [Function.update_self]
    · rw [Function.update_of_ne hq]
      exact h.states q
  case locked =>
    intro u l q hu
    replace hu : Function.update σ.threads t .idle u = .reading l q := hu
    by_cases hut : u = t
    · subst hut
      rw [Function.update_self] at hu
      cases hu
    · rw [Function.update_of_ne hut] at hu
      exact absurd (Option.some.inj ((h.locked u l q hu).symm.trans hlock)) hut
  case known =>
    intro u l q hu
    replace hu : Function.update σ.threads t .idle u = .ready l q ∨
      Function.update σ.threads t .idle u = .reading l q := hu
    by_cases hut : u = t
    · subst hut
      rw [Function.update_self] at hu
      rcases hu with hu | hu <;> cases hu
    · rw [Function.update_of_ne hut] at hu
      exact h.known u l q hu
  case current => exact h.current

theorem Inv.read (h : Inv handle s₀ σ) {p : ℕ} (ht : σ.threads t = .reading line p) :
    Inv handle s₀ (σ.read t line p) := by
  have hpipe := h.pipes p
  rw [h.locked t line p ht, asker_reading ht, if_pos rfl] at hpipe
  rw [Machine.read]
  cases hout : (σ.procs p).stdout with
  | cons reply rest => exact h.leave ht (hpipe.read hout) (h.states p)
  | nil =>
    by_cases halive : (σ.procs p).alive = true
    · simp only [halive, if_true]
      exact h
    · simp only [halive]
      have hleave := h.leave ht (hpipe.giveUp hout (Bool.eq_false_iff.mpr halive)) (h.states p)
      have hsame : σ.setProc p (σ.procs p) = σ := by
        rw [Machine.setProc, Function.update_eq_self]
      rwa [hsame] at hleave

theorem step_inv (σ : Machine T S Reply blank) (e : Event T blank) (h : Inv handle s₀ σ) :
    Inv handle s₀ (step handle s₀ σ e) := by
  cases e with
  | call t line =>
    cases ht : σ.threads t <;> simp only [step, ht]
    case idle => exact h.goto (by simp [ht, Phase.Free]) (by simp [Phase.Free]) (by simp)
    all_goals exact h
  | look t =>
    cases ht : σ.threads t <;> simp only [step, ht]
    case looking line =>
      split
      · exact h.goto (by simp [ht, Phase.Free]) (by simp [Phase.Free]) (by simp)
      · exact h.goto (by simp [ht, Phase.Free]) (by simp [Phase.Free]) (by simp)
    all_goals exact h
  | spawn t =>
    cases ht : σ.threads t <;> simp only [step, ht]
    case spawning line => exact h.spawn (by simp [ht, Phase.Free])
    all_goals exact h
  | grab t =>
    cases ht : σ.threads t <;> cases hcurrent : σ.current <;> simp only [step, ht, hcurrent]
    case started.none => exact h.goto (by simp [ht, Phase.Free]) (by simp [Phase.Free]) (by simp)
    case started.some line p =>
      refine h.goto (by simp [ht, Phase.Free]) (by simp [Phase.Free]) fun l q hq => ?_
      cases hq
      exact h.current p hcurrent
    all_goals exact h
  | write t =>
    cases ht : σ.threads t <;> cases hlock : σ.lock <;> simp only [step, ht, hlock]
    case ready.none line p => exact h.write ht hlock
    all_goals exact h
  | read t =>
    cases ht : σ.threads t <;> simp only [step, ht]
    case reading line p => exact h.read ht
    all_goals exact h
  | serve p =>
    rw [step]
    split
    next halive => exact h.setProc ((h.pipes p).serve (h.states p) halive) (state_serve (h.states p))
    next => exact h
  | crash p handled =>
    rw [step]
    split
    next => exact h.setProc ((h.pipes p).crash (h.states p)) (state_serve (h.states p))
    next => exact h.setProc (h.pipes p).die (h.states p)
  | close =>
    cases hcurrent : σ.current <;> simp only [step, hcurrent]
    case none => exact h
    case some p =>
      have hclosed := h.setProc (h.pipes p).closed (h.states p)
      exact ⟨hclosed.pipes, hclosed.states, hclosed.locked, hclosed.known, fun q hq => by cases hq⟩

omit [DecidableEq T] in
theorem inv_start : Inv handle s₀ (start T Reply blank s₀) where
  pipes p := .quiet (Or.inl rfl) rfl rfl rfl
  states p := rfl
  locked t line p ht := by cases ht
  known t line p ht := by rcases ht with ht | ht <;> cases ht
  current p hp := by cases hp

/-- **Each reply is the reader's.** In whatever order threads and processes make their steps, crashes and
`close` among them: for each process the threads read, one after the other, the replies that its lines get
when they are handled one after the other from the first state on, each thread the reply to its own line;
at most the last one is not read. -/
theorem replies_of_run (handle : S → Line → S × Reply) (s₀ : S) (es : List (Event T blank)) (p : ℕ) :
    let proc := (es.foldl (step handle s₀) (start T Reply blank s₀)).procs p
    proc.state = exec handle s₀ proc.served ∧
      ∃ unread, unread.length ≤ 1 ∧ trace handle s₀ proc.served = proc.received ++ unread := by
  intro proc
  have h : Inv handle s₀ (es.foldl (step handle s₀) (start T Reply blank s₀)) :=
    foldl_of_forall (D := fun _ => True) (fun σ e h _ => step_inv σ e h) inv_start fun _ _ => trivial
  exact ⟨h.states p, (h.pipes p).unread⟩

/-- Two threads that look at the same time start two processes, each with a state of its own. -/
example :
    let handle : ℕ → ℕ → ℕ × ℕ := fun s line => (s + line, s + line)
    let es : List (Event Bool fun _ : ℕ => false) :=
      [.call true ⟨5, rfl⟩, .call false ⟨7, rfl⟩, .look true, .look false, .spawn true, .grab true,
        .write true, .serve 0, .read true, .spawn false, .grab false, .write false, .serve 1, .read false]
    let σ := es.foldl (step handle 0) (start Bool ℕ _ 0)
    (σ.procs 0).received = [(5, 5)] ∧ (σ.procs 1).received = [(7, 7)] ∧ (σ.procs 0).alive = true := by
  decide

end SecChat.BridgePipe
