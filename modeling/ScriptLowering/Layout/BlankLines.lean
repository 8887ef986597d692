import ScriptLowering.Text.Basic

/-
  Blank lines of a finished text: of a run of line breaks
  two are kept, and the text ends with exactly one.

  Key definitions include:
    * `Text.collapseBreaks`
    * `Text.dropLastBreaks`
    * `Text.normalizeBlankLines`
-/

namespace ScriptLowering

namespace Text

/- Keep two line breaks of a run of which some were seen. -/
def collapseBreaks (seen : Nat) : Text → Text
  | [] => []
  | c :: rest =>
      if c = '\n' then
        if seen < 2 then
          c :: collapseBreaks (seen + 1) rest
        else
          collapseBreaks (seen + 1) rest
      else
        c :: collapseBreaks 0 rest

/- The text without line breaks at its end. -/
def dropLastBreaks (text : Text) : Text :=
  (text.reverse.dropWhile (· == '\n')).reverse

/- Collapse runs of line breaks and end with one. -/
def normalizeBlankLines (text : Text) : Text :=
  dropLastBreaks (collapseBreaks 0 text) ++ "\n"

end Text

end ScriptLowering
