import ScriptLowering.DepthFirst
import ScriptLowering.Layout.BlankLines

/-
  A page under construction. Lines are written into buffers;
  a buffer may reserve places for other buffers, which are
  filled later. The root buffer holds the whole page.

  Key definitions include:
    * `Segment`
    * `Buffer`
    * `Page`
    * `Page.write`
-/

namespace ScriptLowering

-----
-- Buffers
-----

/- A closed line, or the place of another buffer. -/
inductive Segment where
  | line (text : Text)
  | place (buffer : Nat)
deriving DecidableEq, Repr

def Segment.line? : Segment → Option Text
  | .line text => some text
  | .place _ => none

def Segment.place? : Segment → Option Nat
  | .line _ => none
  | .place buffer => some buffer

/-
  The closed segments of a buffer, the latest first, the
  line that is still open, and the depth of indentation.
-/
structure Buffer where
  latest : List Segment
  openLine : Text
  level : Nat
deriving DecidableEq, Repr

namespace Buffer

def empty : Buffer :=
  ⟨[], [], 0⟩

/- The closed segments in the order of writing. -/
def segments (buffer : Buffer) : List Segment :=
  buffer.latest.reverse

/- All segments, the open line included if it has text. -/
def allSegments (buffer : Buffer) : List Segment :=
  if buffer.openLine.isEmpty then
    buffer.segments
  else
    buffer.segments ++ [.line buffer.openLine]

/- Add text to the open line, indented if it is the first. -/
def write (width : Nat) (text : Text) (buffer : Buffer) : Buffer :=
  if text.isEmpty then
    buffer
  else if buffer.openLine.isEmpty then
    { buffer with
      openLine :=
        List.replicate (buffer.level * width) ' ' ++ text }
  else
    { buffer with openLine := buffer.openLine ++ text }

/- Close the open line; an empty one becomes a blank line. -/
def endLine (buffer : Buffer) : Buffer :=
  { buffer with
    latest := .line buffer.openLine :: buffer.latest
    openLine := [] }

def indent (buffer : Buffer) : Buffer :=
  { buffer with level := buffer.level + 1 }

def dedent (buffer : Buffer) : Buffer :=
  { buffer with level := buffer.level - 1 }

/- Reserve a place between whole lines. -/
def reserve (place : Nat) (buffer : Buffer) : Buffer :=
  let closed :=
    if buffer.openLine.isEmpty then
      buffer
    else
      buffer.endLine
  { closed with latest := .place place :: closed.latest }

/- The last closed line, if no text follows it. -/
def lastLine? (buffer : Buffer) : Option Text :=
  if buffer.openLine.isEmpty then
    buffer.latest.head?.bind Segment.line?
  else
    none

/- Drop the last closed line, if no text follows it. -/
def removeLine (buffer : Buffer) : Buffer :=
  match buffer.lastLine? with
  | some _ => { buffer with latest := buffer.latest.tail }
  | none => buffer

end Buffer

-----
-- Pages
-----

/-
  The buffers of a page, the root first, the buffers that
  writing was redirected to, the latest first, and the
  number of blanks for one level of indentation.
-/
structure Page where
  buffers : List Buffer
  targets : List Nat
  width : Nat
deriving DecidableEq, Repr

namespace Page

def empty (width : Nat) : Page :=
  ⟨[Buffer.empty], [], width⟩

/- The buffer that is written to. -/
def target (page : Page) : Nat :=
  page.targets.headD 0

def current (page : Page) : Buffer :=
  page.buffers[page.target]?.getD Buffer.empty

/- Change the buffer that is written to. -/
def update (page : Page) (change : Buffer → Buffer) : Page :=
  { page with
    buffers := page.buffers.modify page.target change }

/- Whether the open line has text. -/
def lineIsOpen (page : Page) : Bool :=
  !page.current.openLine.isEmpty

def write (text : Text) (page : Page) : Page :=
  page.update (Buffer.write page.width text)

def endLine (page : Page) : Page :=
  page.update Buffer.endLine

def writeLine (text : Text) (page : Page) : Page :=
  (page.write text).endLine

def indent (page : Page) : Page :=
  page.update Buffer.indent

def dedent (page : Page) : Page :=
  page.update Buffer.dedent

/- The number of the buffer that is reserved next. -/
def nextPlace (page : Page) : Nat :=
  page.buffers.length

/- Reserve a place for a new buffer. -/
def reserve (page : Page) : Page :=
  let reserved := page.update (Buffer.reserve page.nextPlace)
  { reserved with buffers := reserved.buffers ++ [Buffer.empty] }

/- Write into another buffer from now on. -/
def pushTarget (buffer : Nat) (page : Page) : Page :=
  { page with targets := buffer :: page.targets }

/- Write into the buffer before again; the root stays. -/
def popTarget (page : Page) : Page :=
  { page with targets := page.targets.tail }

/- The line that `removeLine` drops. -/
def lastLine? (page : Page) : Option Text :=
  page.current.lastLine?

/- Drop the last closed line, if no text follows it. -/
def removeLine (page : Page) : Page :=
  page.update Buffer.removeLine

-----
-- Finished Text
-----

/- A place is replaced by the segments of its buffer. -/
def expansion (page : Page) : Expansion Segment where
  asks := Segment.place?
  tasksOf place _ :=
    (page.buffers[place]?.map Buffer.allSegments).getD []

/- All lines of the page in order. -/
def lines (page : Page) : List Text :=
  let trace :=
    page.expansion.run page.buffers.length [] [.place 0]
  trace.emitted.filterMap Segment.line?

/- The lines, each with its line break. -/
def rawText (page : Page) : Text :=
  page.lines.flatMap fun line => line ++ "\n"

/- The finished text. -/
def finish (page : Page) : Text :=
  page.rawText.normalizeBlankLines

end Page

end ScriptLowering
