import ScriptLowering.Text.Basic

/-
  Emitted names of what other units declare: the name behind
  a mark made from the specifier that the unit was imported
  by.

  Key definitions include:
    * `mangleModule`
-/

namespace ScriptLowering

/- Endings that do not belong to a module's name. -/
def sourceExtensions : List Text :=
  [".ts", ".tsx", ".mts", ".cts", ".js"]

/- A specifier without the first of these endings that it has. -/
def moduleStem (specifier : Text) : Text :=
  (sourceExtensions.findSome? specifier.dropEnd?).getD specifier

/- A character that may stand in a name, or an underscore. -/
def nameChar (c : Char) : Char :=
  if c.isAlphanum || c == '_' then c else '_'

/-
  The mark of a module: steps to a parent and to the current
  directory are spelled out, all else that cannot stand in a
  name becomes an underscore.
-/
def mangleModule (specifier : Text) : Text :=
  if specifier.isEmpty then
    []
  else
    let stem := moduleStem specifier
    let relative :=
      Text.replaceAll "./" "cd_" (Text.replaceAll "../" "pd_" stem)
    "_" ++ relative.map nameChar ++ "_"

end ScriptLowering
