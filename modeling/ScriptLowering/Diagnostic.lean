import ScriptLowering.Lowering.Compile

/-
  What a user is told about an error. If the source text is
  at hand and reaches to the end of the error's span, the
  error is shown in the source; otherwise it is one line.

  Key definitions include:
    * `Label`
    * `CompileError.label`
    * `CompileError.plain`
    * `Diagnostic`
-/

namespace ScriptLowering

-----
-- Labels
-----

/- The part of the source that an error points at. -/
structure Label where
  title : Text
  offset : Nat
  length : Nat
deriving DecidableEq, Repr

def CompileError.label (error : CompileError) : Label :=
  ⟨error.kind.title, error.span.start.toNat, error.span.length⟩

-----
-- Plain Texts
-----

/- Where an error is; the unit is left out if it has no path. -/
def CompileError.location (error : CompileError) : Text :=
  let place : Text :=
    Text.ofNat error.position.line ++ ":" ++ Text.ofNat error.position.column
  if error.unit = [] then
    place
  else
    error.unit ++ ":" ++ place

/- The error in one line. -/
def CompileError.plain (error : CompileError) : Text :=
  "error[" ++ error.kind.code ++ "]: " ++ error.location ++ ": " ++ error.message

-----
-- Diagnostics
-----

/- One line, or the error shown in its source. -/
inductive Diagnostic where
  | plain (text : Text)
  | report (source : Text) (error : CompileError)
deriving DecidableEq, Repr

/- A source that an error can be shown in. -/
def CompileError.isShownIn (error : CompileError) (source : Text) : Bool :=
  !source.isEmpty && error.span.stop.toNat ≤ source.byteSize

/- The diagnostic of an error, given the source of its unit. -/
def CompileError.diagnostic (error : CompileError) (source? : Option Text) : Diagnostic :=
  match source? with
  | some source =>
      if error.isShownIn source then
        .report source error
      else
        .plain error.plain
  | none => .plain error.plain

namespace Diagnostic

/- Without blanks at the end of the line. -/
def trimmed : Diagnostic → Diagnostic
  | plain text => plain text.trimEnd
  | report source error => report source error

/- The line that a diagnostic is told by. -/
def text : Diagnostic → Text
  | plain line => line
  | report _ error => error.plain

end Diagnostic

/- The source of the first unit with a path. -/
def Program.sourceAt? (program : Program) (path : Text) : Option Text :=
  (program.units.find? fun unit => unit.path = path).map fun unit =>
    unit.source

/- The diagnostic of an error of a program. -/
def Program.diagnostic (program : Program) (error : CompileError) : Diagnostic :=
  (error.diagnostic (program.sourceAt? error.unit)).trimmed

end ScriptLowering
