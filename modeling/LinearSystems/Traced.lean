import LinearSystems.Fault

/-!
# Computations with a log of diagnostics

The solver reports what it does: which rows the elimination swaps, which systems it enters, and
how each search for a solution ended. A `Diagnostic` is one such report, and `Traced α` is a
computation that returns an `α` or a fault together with the diagnostics in the order in which
they arose. A fault keeps the log written before it.

`Traced.outcome` forgets the log. It carries `pure` and `bind` to those of `Except Fault`
(`outcome_pure`, `outcome_bind`), so a statement about results alone never has to mention a log.
-/

namespace LinearSystems

/-- What a computation reports about its course. -/
inductive Diagnostic where
  /-- A system with the given coefficient matrix is about to be solved. -/
  | solving (nrows ncols : Nat)
  /-- The solution set of an augmented matrix is about to be computed. -/
  | reducing (nrows nvars : Nat)
  /-- Two flats of a space of the given dimension are about to be intersected. -/
  | intersecting (dim : Nat)
  /-- The elimination fetches the pivot of a column from a lower row. -/
  | rowSwap (col lower upper : Nat)
  /-- A row demands that zero be a non-zero constant. -/
  | inconsistentRow (row : Nat)
  /-- The system has exactly one solution. -/
  | uniqueSolution
  /-- The solutions form a family with the given number of free parameters. -/
  | parametrizedSolution (rank free : Nat)
  /-- The flats have no common point. -/
  | disjointFlats
  /-- The flats meet in one point. -/
  | singlePoint
  deriving DecidableEq, Repr

namespace Diagnostic

/-- How much attention a diagnostic asks for. -/
inductive Level where
  | info
  | debug
  | trace
  deriving DecidableEq, Repr

/-- The word by which a level is shown. -/
def Level.text : Level → String
  | info => "INFO"
  | debug => "DEBUG"
  | trace => "TRACE"

/-- A diagnostic either opens a stretch of work or notes a single occurrence. -/
def opensSpan : Diagnostic → Bool
  | solving .. | reducing .. | intersecting .. => true
  | _ => false

/-- The name of a stretch of work, or the sentence that describes an occurrence. -/
def title : Diagnostic → String
  | solving .. => "solve"
  | reducing .. => "solution"
  | intersecting .. => "intersection"
  | rowSwap .. => "swapping pivot row"
  | inconsistentRow .. => "inconsistent row"
  | uniqueSolution => "unique solution"
  | parametrizedSolution .. => "parametrized solution"
  | disjointFlats => "the subspaces do not intersect"
  | singlePoint => "the intersection is a single point"

/-- The level at which a diagnostic is reported. -/
def level : Diagnostic → Level
  | solving .. | intersecting .. => .info
  | rowSwap .. => .trace
  | _ => .debug

/-- The numbers that a diagnostic carries, with their names. -/
def fields : Diagnostic → List (String × Nat)
  | solving nrows ncols => [("nrows", nrows), ("ncols", ncols)]
  | reducing nrows nvars => [("nrows", nrows), ("nvars", nvars)]
  | intersecting dim => [("dim", dim)]
  | rowSwap col lower upper => [("col", col), ("from", lower), ("to", upper)]
  | inconsistentRow row => [("row", row)]
  | parametrizedSolution rank free => [("rank", rank), ("free", free)]
  | uniqueSolution | disjointFlats | singlePoint => []

end Diagnostic

/-- A computation that may stop with a fault and that logs diagnostics as it goes. -/
structure Traced (α : Type) where
  /-- The diagnostics, oldest first. -/
  log : List Diagnostic
  /-- The result, or the fault that ended the computation. -/
  outcome : Except Fault α

namespace Traced

variable {α β γ : Type}

/-- Two computations agree if their logs and their outcomes do. -/
@[ext] theorem ext {x y : Traced α} (hlog : x.log = y.log) (houtcome : x.outcome = y.outcome) :
    x = y := by
  cases x; cases y; simp_all

/-- Run `next` on the result of `first`; its diagnostics follow those of `first`. -/
def bind (first : Traced α) (next : α → Traced β) : Traced β :=
  match first.outcome with
  | .error fault => ⟨first.log, .error fault⟩
  | .ok a =>
    let rest := next a
    ⟨first.log ++ rest.log, rest.outcome⟩

instance : Monad Traced where
  pure a := ⟨[], .ok a⟩
  bind := bind

instance : LawfulMonad Traced := LawfulMonad.mk' Traced
  (by
    intro α x
    rcases x with ⟨log, _ | a⟩ <;> simp [Functor.map, bind])
  (by intro α β a f; simp [Bind.bind, Pure.pure, bind])
  (by
    intro α β γ x f g
    rcases x with ⟨log, _ | a⟩
    · simp [Bind.bind, bind]
    · simp only [Bind.bind, bind]
      rcases (f a).outcome with _ | b <;> simp [List.append_assoc])

/-- A computation without diagnostics. -/
instance : MonadLift (Except Fault) Traced where
  monadLift outcome := ⟨[], outcome⟩

/-- Stop with a fault. -/
def fail (fault : Fault) : Traced α :=
  ⟨[], .error fault⟩

/-- Run a computation and hand its outcome on, whether it is a result or a fault. -/
def attempt (x : Traced α) : Traced (Except Fault α) :=
  ⟨x.log, .ok x.outcome⟩

/-- Report one diagnostic. -/
def report (d : Diagnostic) : Traced Unit :=
  ⟨[d], .ok ()⟩

/-- Report diagnostics in their order. -/
def reportAll (ds : List Diagnostic) : Traced Unit :=
  ⟨ds, .ok ()⟩

@[simp] theorem outcome_pure (a : α) : (pure a : Traced α).outcome = .ok a := rfl

@[simp] theorem log_pure (a : α) : (pure a : Traced α).log = [] := rfl

/-- Forgetting the log carries sequencing to sequencing. -/
@[simp] theorem outcome_bind (x : Traced α) (f : α → Traced β) :
    (x >>= f).outcome = x.outcome >>= fun a => (f a).outcome := by
  change (bind x f).outcome = _
  unfold bind
  cases x.outcome <;> rfl

/-- A computation that succeeds passes its log on in front. -/
theorem log_bind_of_ok {x : Traced α} {a : α} (h : x.outcome = .ok a) (f : α → Traced β) :
    (x >>= f).log = x.log ++ (f a).log := by
  change (bind x f).log = _
  simp only [bind, h]

/-- A fault keeps the log written before it and adds nothing. -/
theorem log_bind_of_error {x : Traced α} {fault : Fault} (h : x.outcome = .error fault)
    (f : α → Traced β) : (x >>= f).log = x.log := by
  change (bind x f).log = _
  simp only [bind, h]

@[simp] theorem outcome_lift (x : Except Fault α) :
    (monadLift x : Traced α).outcome = x := rfl

@[simp] theorem log_lift (x : Except Fault α) : (monadLift x : Traced α).log = [] := rfl

@[simp] theorem outcome_fail (fault : Fault) :
    (fail fault : Traced α).outcome = .error fault := rfl

@[simp] theorem outcome_map (f : α → β) (x : Traced α) :
    (f <$> x).outcome = f <$> x.outcome := by
  rw [← bind_pure_comp, outcome_bind]
  cases x.outcome <;> rfl

@[simp] theorem outcome_report (d : Diagnostic) : (report d).outcome = .ok () := rfl

@[simp] theorem log_report (d : Diagnostic) : (report d).log = [d] := rfl

@[simp] theorem outcome_reportAll (ds : List Diagnostic) : (reportAll ds).outcome = .ok () := rfl

@[simp] theorem log_reportAll (ds : List Diagnostic) : (reportAll ds).log = ds := rfl

end Traced

end LinearSystems
