import LinearSystems.Flat.Basic
import LinearSystems.LinearSystem.Solution

/-!
# Texts of vectors, matrices, flats and systems

A vector is written as a braced list, or in LaTeX as a `pmatrix` of one row. A matrix is written as
a braced list of braced rows, in LaTeX as a `pmatrix`, or, where a wide layout is wanted, with one
bracketed line per row. In the wide layout the entries of a column end at the same place: each is
padded on the left to the width of the widest one. A column that is wider than `layoutLimit` has no
such layout.

A flat is written in one of two ways: `Flat.format` names the offset and the span, and
`Flat.parametricText` writes the offset plus each direction with its free parameter in front. A
system is written with one equation per line: the coefficients, a bar and the constant, with blanks
between them.
-/

namespace LinearSystems

/-- The LaTeX environment around the rows of a matrix or the entries of a vector. -/
def pmatrix (body : String) : String :=
  "\\begin\x7bpmatrix\x7d" ++ body ++ "\\end\x7bpmatrix\x7d"

/-- A text in braces. -/
def braced (body : String) : String :=
  "\x7b" ++ body ++ "\x7d"

namespace DenseVector

/-- The texts of the entries, put together. -/
def layout (opts : PrintOptions) (entries : List String) : String :=
  if opts.isLatex then pmatrix (" & ".intercalate entries)
  else braced (",".intercalate entries)

variable {K : Type} [ScalarText K]

/-- The vector in a given style. -/
def format (opts : PrintOptions) (v : DenseVector K) : Except Fault String :=
  layout opts <$> v.entries.mapM (ScalarText.format opts)

/-- The vector in the standard style. -/
def display (request : TextRequest) (v : DenseVector K) : Except Fault String := do
  v.format (← PrintOptions.standard.updatedBy request)

end DenseVector

/-! ### Matrices -/

namespace DenseMatrix

/-- A text padded on the left with blanks. -/
def padLeft (width : Nat) (s : String) : String :=
  String.ofList (List.replicate (width - s.length) ' ') ++ s

/-- The widths of the columns, given the rows of a table. -/
def columnWidths : List (List String) → List Nat
  | [] => []
  | row :: rows =>
    rows.foldl (fun widths r => List.zipWith max widths (r.map String.length))
      (row.map String.length)

/-- A row of a table in brackets, with padded entries. -/
def alignedLine (widths : List Nat) (row : List String) : String :=
  "[" ++ String.join (List.zipWith (fun w e => " " ++ padLeft w e) widths row) ++ " ]"

/-- The rows of a table, one per line, with aligned columns. -/
def alignedText (rows : List (List String)) : Except Fault String :=
  let widths := columnWidths rows
  match widths.find? (layoutLimit < ·) with
  | some width => .error (.breach (.columnTooWide width))
  | none => .ok ("\n".intercalate (rows.map (alignedLine widths)))

/-- The texts of the entries, row by row, put together. -/
def layout (opts : PrintOptions) (rows : List (List String)) : Except Fault String :=
  if opts.isLatex then .ok (pmatrix ("\\\\".intercalate (rows.map (" & ".intercalate ·))))
  else if opts.prettyMatrix then alignedText rows
  else .ok (braced (",".intercalate (rows.map fun r => braced (",".intercalate r))))

variable {K : Type} [ScalarText K]

/-- The matrix in a given style. -/
def format (opts : PrintOptions) (m : DenseMatrix K) : Except Fault String := do
  layout opts (← m.rowChunks.mapM fun r => r.mapM (ScalarText.format opts))

/-- The matrix in the standard style. -/
def display (request : TextRequest) (m : DenseMatrix K) : Except Fault String := do
  m.format (← PrintOptions.standard.updatedBy request)

end DenseMatrix

/-! ### Flats -/

variable {K : Type} [ScalarText K]

namespace SpanningSet

/-- The span as a list of directions. -/
def format (opts : PrintOptions) (s : SpanningSet K) : Except Fault String := do
  let directions ← s.directions.mapM (DenseVector.format opts)
  return "span[" ++ ", ".intercalate directions ++ "]"

/-- The span in the standard style. -/
def display (request : TextRequest) (s : SpanningSet K) : Except Fault String := do
  s.format (← PrintOptions.standard.updatedBy request)

end SpanningSet

namespace Flat

/-- The flat as an offset and a span. -/
def format (opts : PrintOptions) (f : Flat K) : Except Fault String := do
  return (← f.offset.format opts) ++ " + " ++ (← f.span.format opts)

/-- The flat in the standard style. -/
def display (request : TextRequest) (f : Flat K) : Except Fault String := do
  f.format (← PrintOptions.standard.updatedBy request)

/-- A direction with its parameter, as a summand. -/
def summandText (opts : PrintOptions) (colors : Bool) (d : DenseVector K) (index : Nat) :
    Except Fault String := do
  return " + " ++ opts.parameterText colors index ++ (if opts.isLatex then " " else "*")
    ++ (← d.format opts)

/-- The flat in parametric form. The names of the parameters are colored if the options allow it
and the terminal shows `colors`. -/
def parametricText (opts : PrintOptions) (colors : Bool) (f : Flat K) :
    Except Fault String := do
  let offset ← f.offset.format opts
  let summands ← f.span.directions.zipIdx.mapM fun (d, i) => summandText opts colors d i
  return offset ++ String.join summands

end Flat

/-! ### Systems and their solutions -/

namespace LinearSystem

/-- An equation: each coefficient is followed by a blank, and the constant by nothing. -/
def equationText (opts : PrintOptions) (nvars : Nat) (row : List K) : Except Fault String :=
  String.join <$> row.zipIdx.mapM fun (e, j) => do
    return (if j = nvars then "| " else "") ++ (← ScalarText.format opts e)
      ++ (if j < nvars then " " else "")

/-- The system in a given style. -/
def format (opts : PrintOptions) (s : LinearSystem K) : Except Fault String :=
  "\n".intercalate
    <$> (s.matrix.rowChunks.take s.matrix.nrows).mapM (equationText opts s.nvars)

/-- The system in the standard style. -/
def display (request : TextRequest) (s : LinearSystem K) : Except Fault String := do
  s.format (← PrintOptions.standard.updatedBy request)

end LinearSystem

namespace SolutionSet

/-- The solutions in a given style. -/
def format (opts : PrintOptions) : SolutionSet K → Except Fault String
  | empty => .ok "no solution"
  | point p => p.format opts
  | space f => f.format opts

/-- The solutions in the standard style. -/
def display (request : TextRequest) (s : SolutionSet K) : Except Fault String := do
  s.format (← PrintOptions.standard.updatedBy request)

end SolutionSet

end LinearSystems
