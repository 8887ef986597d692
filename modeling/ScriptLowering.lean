import ScriptLowering.Main
import ScriptLowering.Proofs.AliasExpansion
import ScriptLowering.Proofs.BlankLines
import ScriptLowering.Proofs.BracketedOutput
import ScriptLowering.Proofs.BuiltPrograms
import ScriptLowering.Proofs.DecidedParts
import ScriptLowering.Proofs.ExposedMarks
import ScriptLowering.Proofs.FailedDeclarations
import ScriptLowering.Proofs.FixedSpellings
import ScriptLowering.Proofs.FunctionOrder
import ScriptLowering.Proofs.Interning
import ScriptLowering.Proofs.LayoutOptions
import ScriptLowering.Proofs.LiteralTypes
import ScriptLowering.Proofs.PageScroll
import ScriptLowering.Proofs.PrefixOperators
import ScriptLowering.Proofs.ProgramCoding
import ScriptLowering.Proofs.ProgramEmission
import ScriptLowering.Proofs.ReachedUnits
import ScriptLowering.Proofs.RepeatedDefinitions
import ScriptLowering.Proofs.ScopeArena
import ScriptLowering.Proofs.SourcePositions
import ScriptLowering.Proofs.StructSection
import ScriptLowering.Proofs.TopologicalOrder
import ScriptLowering.Proofs.WrappedShapes
