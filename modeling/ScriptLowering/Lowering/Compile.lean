import ScriptLowering.Lowering.TopLevel
import ScriptLowering.Target.Printer
import ScriptLowering.Types.Emission

/-
  Compilation of a whole program to the text of one C++ file.

  Key definitions include:
    * `Program.lower`
    * `Program.compileFrom`
    * `Program.compile`
-/

namespace ScriptLowering

-----
-- Code Files
-----

/- The code file of lowered items; only used structs are in it. -/
def codeFile (types : TypeTable) (items : List Target.Item) : Target.CodeFile :=
  let order := types.registry.emissionOrder
  ⟨forwardDeclarations order, order, items⟩

namespace Program

/- The site of the unit that a program starts at. -/
def entrySite? (program : Program) (entry : UnitId) : Option Site :=
  (program.unit? entry).map fun unit =>
    ⟨program, entry, unit, none⟩

/- Lower a program that starts at a unit. -/
def lower (program : Program) (entry : UnitId) :
    Except CompileError Target.CodeFile :=
  match program.entrySite? entry with
  | none => .error (CompileError.ofFault (.missingEntry entry))
  | some site =>
      match lowerSteps (program.steps site) LowerState.start with
      | .ok items state => .ok (codeFile state.types items)
      | .error error _ => .error error

-----
-- Texts
-----

/- The C++ text of a program that starts at a unit. -/
def compileFrom
    (program : Program) (config : LayoutConfig) (entry : UnitId) : Except CompileError Text :=
  (program.lower entry).map fun unit => unit.text config

/- The C++ text of a program, which must have a unit. -/
def compile (program : Program) (config : LayoutConfig) : Except CompileError Text :=
  match program.entryUnit? with
  | some entry => program.compileFrom config entry
  | none => .error (CompileError.ofFault .noUnits)

end Program

end ScriptLowering
