import LinearSystems.Fault

/-!
# Print options

How a number, a vector or a matrix is written depends on two things. The `PrintOptions` are
chosen by whoever sets the style of a document; a `TextRequest` comes from the place where the
text is asked for and can ask for a precision or for the wide layout. A request is laid over the
options by `PrintOptions.updatedBy`: it can add to them and cannot take anything back.

A precision is a wish until a text is made. `layoutLimit` bounds what can be granted, and
`checkPrecision` refuses the rest: a request at once, the options only where a text depends on
their precision.
-/

namespace LinearSystems

/-- The notation in which values are written. -/
inductive PrintMode where
  | plain
  | latex
  | mathematica
  deriving DecidableEq, Repr

/-- The style of a printed value. -/
structure PrintOptions where
  mode : PrintMode := .plain
  /-- The number of digits behind the point of a floating-point entry; by default as many as are
  needed. -/
  precision : Option Nat := none
  /-- Print one row per line, with aligned columns. -/
  prettyMatrix : Bool := false
  /-- Whether the names of free parameters may be colored. -/
  colorParameters : Bool := true
  /-- The letter of the free parameters; their index follows it. -/
  parameterName : Char := 't'
  deriving DecidableEq, Repr

/-- What is asked for where a text is needed. -/
structure TextRequest where
  /-- The number of digits behind the point. -/
  precision : Option Nat := none
  /-- Whether the wide layout is wanted. -/
  wide : Bool := false
  deriving DecidableEq, Repr

/-- The largest number of digits behind the point, and the largest width to which a text is
padded. -/
def layoutLimit : Nat := 65535

/-- Refuse more digits behind the point than a layout allows. -/
def checkPrecision (precision : Option Nat) : Except Fault Unit :=
  match precision with
  | some places =>
    if places ≤ layoutLimit then .ok () else .error (.breach (.precisionTooLarge places))
  | none => .ok ()

/-- Exactly the precisions up to the limit are granted. -/
theorem checkPrecision_eq_ok_iff {precision : Option Nat} :
    checkPrecision precision = .ok () ↔ ∀ places ∈ precision, places ≤ layoutLimit := by
  cases precision <;> simp [checkPrecision]

namespace PrintOptions

/-- The style for a terminal. -/
def standard : PrintOptions := {}

/-- The style for a file: no colors. -/
def file : PrintOptions := { colorParameters := false }

/-- The style for LaTeX input. -/
def latex : PrintOptions := { mode := .latex, colorParameters := false }

/-- The style for Mathematica input. -/
def mathematica : PrintOptions := { mode := .mathematica, colorParameters := false }

/-- Whether the notation is that of LaTeX. -/
def isLatex (opts : PrintOptions) : Bool :=
  decide (opts.mode = .latex)

/-- The options with a request laid over them. -/
def updatedBy (opts : PrintOptions) (request : TextRequest) : Except Fault PrintOptions := do
  checkPrecision request.precision
  return { opts with
    precision := request.precision.or opts.precision
    prettyMatrix := opts.prettyMatrix || request.wide }

/-- A request without wishes changes nothing. -/
@[simp] theorem updatedBy_empty (opts : PrintOptions) : opts.updatedBy {} = .ok opts := by
  cases opts
  simp [updatedBy, checkPrecision, bind, Except.bind, pure, Except.pure]

/-- The name of the free parameter `index`. It is shown in cyan if the options allow it and the
reader's terminal shows `colors`. -/
def parameterText (opts : PrintOptions) (colors : Bool) (index : Nat) : String :=
  let letter := String.singleton opts.parameterName
  let name :=
    if opts.isLatex then letter ++ "_\x7b" ++ index.repr ++ "\x7d" else letter ++ index.repr
  if opts.colorParameters && colors then "\x1b[36m" ++ name ++ "\x1b[0m" else name

end PrintOptions

end LinearSystems
