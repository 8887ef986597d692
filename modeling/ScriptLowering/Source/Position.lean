import ScriptLowering.Text.Basic

/-
  Spans and positions. A span counts UTF-8 bytes of the
  source text; a position counts lines and characters, both
  from one.

  Key definitions include:
    * `Span`
    * `Span.merge`
    * `Position`
    * `Position.advance`
-/

namespace ScriptLowering

-----
-- Spans
-----

/- A range of bytes of the source text. -/
structure Span where
  start : UInt64
  stop : UInt64
deriving DecidableEq, Repr

namespace Span

/- The span of nodes that stand nowhere in the source. -/
def nowhere : Span :=
  ⟨0, 0⟩

/- The least span around two spans. -/
def merge (left right : Span) : Span :=
  ⟨min left.start right.start, max left.stop right.stop⟩

/- The number of bytes, zero when the span ends too early. -/
def length (span : Span) : Nat :=
  span.stop.toNat - span.start.toNat

end Span

-----
-- Positions
-----

/- A line and a column, both counted from one. -/
structure Position where
  line : Nat
  column : Nat
deriving DecidableEq, Repr

namespace Position

/- The position of the first character. -/
def first : Position :=
  ⟨1, 1⟩

/- The position behind a character. -/
def advance (position : Position) (c : Char) : Position :=
  if c = '\n' then
    ⟨position.line + 1, 1⟩
  else
    ⟨position.line, position.column + 1⟩

end Position

namespace Text

/-
  The position of a byte offset, walking on from a known
  byte and its position.
-/
def positionFrom (offset byte : Nat) (position : Position) : Text → Position
  | [] => position
  | c :: rest =>
      if offset ≤ byte then
        position
      else
        positionFrom offset (byte + c.utf8Size) (position.advance c) rest

/-
  The position of a byte offset: that of the first character
  that starts at the offset or later, or of the end.
-/
def positionAt (source : Text) (offset : Nat) : Position :=
  positionFrom offset 0 Position.first source

end Text

end ScriptLowering
