import LinearSystems.DenseMatrix.Elimination
import LinearSystems.DenseMatrix.Operations
import LinearSystems.Flat.Basic
import LinearSystems.LinearSystem.LinearForm

/-!
# Linear systems and their solutions

The system `A * x = b` is stored as its augmented matrix `[A|b]`. There is one unknown for each
column but the last, which holds the constants.

The solutions of a linear system form the empty set, a point, or a flat with one direction for
each free unknown. `LinearSystem.solution` reduces the augmented matrix, looks for a row that
demands the impossible, recognizes the identity, and otherwise expresses every unknown by the free
ones: rows are resolved from the last one upwards, so that whatever stands to the right of a pivot
is already resolved when it is substituted.

The order in which the terms of a form are visited during a substitution is a parameter `visit` of
`solutionVia`. The solution proper visits them as they are stored.
-/

namespace LinearSystems

/-- A linear system, given by its augmented matrix. -/
structure LinearSystem (K : Type) where
  matrix : DenseMatrix K
  deriving DecidableEq, Repr

namespace LinearSystem

variable {K : Type}

/-- The system `a * x = b`. -/
def of (a : DenseMatrix K) (b : DenseVector K) : Except Fault (LinearSystem K) :=
  mk <$> a.augment b

/-- The system whose constants are the last column of a matrix. -/
def ofMatrix (m : DenseMatrix K) : Except Fault (LinearSystem K) :=
  if m.ncols = 0 then .error (.shape .noColumns) else .ok ⟨m⟩

/-- The number of unknowns. -/
def nvars (s : LinearSystem K) : Nat :=
  s.matrix.ncols - 1

/-- The matrix of the coefficients. -/
def coefficients (s : LinearSystem K) : Except Fault (DenseMatrix K) :=
  Prod.fst <$> s.matrix.splitAtCol s.nvars

/-- The constants on the right-hand side. -/
def constants (s : LinearSystem K) : Except Fault (DenseVector K) :=
  s.matrix.colVector s.nvars

/-- Whether there is a solution, that is, whether the coefficients alone have the same rank as the
augmented matrix. -/
def isConsistent [Scalar K] (s : LinearSystem K) : Traced Bool := do
  let coefficients ← s.coefficients
  let inner ← coefficients.rank
  let outer ← s.matrix.rank
  return inner == outer

end LinearSystem

/-! ### Solution sets -/

/-- The set of the solutions of a system, or the common points of two flats. -/
inductive SolutionSet (K : Type) where
  | empty
  | point (p : DenseVector K)
  | space (f : Flat K)
  deriving DecidableEq, Repr

namespace SolutionSet

variable {K : Type}

/-- Whether there is no solution. -/
def isEmpty : SolutionSet K → Bool
  | empty => true
  | _ => false

/-- The solution, if the set was given as a point. -/
def point? : SolutionSet K → Option (DenseVector K)
  | point p => some p
  | _ => none

/-- The number of free parameters, if there is a solution. -/
def dimension? : SolutionSet K → Option Nat
  | empty => none
  | point _ => some 0
  | space f => some f.span.size

/-- The set with a flat without directions given as a point. -/
def collapsed : SolutionSet K → SolutionSet K
  | space f => if f.span.directions.isEmpty then point f.offset else space f
  | s => s

end SolutionSet

namespace LinearSystem

variable {K : Type} [Scalar K]

/-- What a first look at the rows of a reduced system shows. -/
inductive Verdict where
  /-- The given row demands that zero be a non-zero constant. -/
  | inconsistent (row : Nat)
  /-- There are solutions, and the given number of rows is not zero. -/
  | consistent (rank : Nat)
  deriving DecidableEq, Repr

/-- Look at `count` rows from row `r` on, of which there were `rank` non-zero ones above. -/
def inspect (a : DenseMatrix K) (x : DenseVector K) (r rank : Nat) : Nat → Except Fault Verdict
  | 0 => .ok (.consistent rank)
  | count + 1 => do
    let row ← a.row r
    if row.all Scalar.isZero then
      if Scalar.isZero (← x.get r) then inspect a x (r + 1) rank count
      else return .inconsistent r
    else inspect a x (r + 1) (rank + 1) count

/-- Subtract from a form the resolved unknowns to the right of a pivot, each multiplied by its
coefficient in the row. -/
def substitute (visit : LinearForm K → List (Parameter × K)) (forms : List (LinearForm K))
    (resolved : LinearForm K) (term : K × Nat) : Except Fault (LinearForm K) :=
  if Scalar.isZero term.1 then .ok resolved
  else
    match forms[term.2]? with
    | some form => .ok (resolved.addScaled visit form (Scalar.neg term.1))
    | none => .error (.breach .positionOutOfRange)

/-- Replace the form of an unknown. -/
def setForm (forms : List (LinearForm K)) (unknown : Nat) (form : LinearForm K) :
    Except Fault (List (LinearForm K)) :=
  if unknown < forms.length then .ok (forms.set unknown form)
  else .error (.breach .positionOutOfRange)

/-- Resolve the unknown of the pivot of row `r`. A zero row resolves nothing. -/
def resolveRow (visit : LinearForm K → List (Parameter × K)) (a : DenseMatrix K)
    (x : DenseVector K) (forms : List (LinearForm K)) (r : Nat) :
    Except Fault (List (LinearForm K)) := do
  let row ← a.row r
  match row.findIdx? fun e => !Scalar.isZero e with
  | none => return forms
  | some pivot =>
    let constant := LinearForm.constant (← x.get r)
    let resolved ← (row.zipIdx.drop (pivot + 1)).foldlM (substitute visit forms) constant
    setForm forms pivot resolved

/-- Resolve the unknowns of the first `count` rows, from the last of them upwards. -/
def resolveRows (visit : LinearForm K → List (Parameter × K)) (a : DenseMatrix K)
    (x : DenseVector K) (forms : List (LinearForm K)) : Nat → Except Fault (List (LinearForm K))
  | 0 => .ok forms
  | count + 1 => do resolveRows visit a x (← resolveRow visit a x forms count) count

/-- The unknowns of a reduced and consistent system, in terms of the free ones. -/
def resolve (visit : LinearForm K → List (Parameter × K)) (a : DenseMatrix K)
    (x : DenseVector K) : Except Fault (List (LinearForm K)) :=
  resolveRows visit a x ((List.range a.ncols).map LinearForm.free) a.nrows

/-- The flat that unknowns trace out when the free parameters run through all scalars. -/
def flatOfForms (forms : List (LinearForm K)) : Flat K :=
  let along (p : Parameter) : DenseVector K := ⟨forms.map fun f => f.coefficient p⟩
  let directions := (List.range forms.length).map fun j => along (.free j)
  ⟨SpanningSet.ofDirections directions, along .constant⟩

/-- All solutions of a system, with a given way to resolve the unknowns. -/
def solutionWith (resolve : DenseMatrix K → DenseVector K → Except Fault (List (LinearForm K)))
    (s : LinearSystem K) : Traced (SolutionSet K) := do
  Traced.report (.reducing s.matrix.nrows s.nvars)
  let reduced ← s.matrix.reducedRowEchelonForm
  let (a, rest) ← reduced.splitAtCol s.nvars
  let x : DenseVector K := ⟨rest.entries.toList⟩
  match ← inspect a x 0 0 a.nrows with
  | .inconsistent row =>
    Traced.report (.inconsistentRow row)
    return .empty
  | .consistent rank =>
    if a.ncols ≤ a.nrows ∧ a.isIdentity then
      Traced.report .uniqueSolution
      return .point ⟨← x.initial s.nvars⟩
    else
      let flat := flatOfForms (← resolve a x)
      Traced.report (.parametrizedSolution rank flat.span.size)
      return .space flat

/-- All solutions of a system, with the terms of linear forms visited in the order of `visit`. -/
def solutionVia (visit : LinearForm K → List (Parameter × K)) (s : LinearSystem K) :
    Traced (SolutionSet K) :=
  s.solutionWith (resolve visit)

/-- All solutions of a system. -/
def solution (s : LinearSystem K) : Traced (SolutionSet K) :=
  s.solutionVia LinearForm.terms

end LinearSystem

/-- All solutions of `a * x = b`. -/
def DenseMatrix.solve {K : Type} [Scalar K] (a : DenseMatrix K) (b : DenseVector K) :
    Traced (SolutionSet K) := do
  Traced.report (.solving a.nrows a.ncols)
  (← LinearSystem.of a b).solution

end LinearSystems
