import ScriptLowering.Text.Basic

/-
  Paths as texts, and the names that they are made of.

  Key definitions include:
    * `Path.names`
    * `Path.isRooted`
    * `Path.endsOpen`
    * `Path.fits`
-/

namespace ScriptLowering

namespace Path

-----
-- Names
-----

/- Cut a path at its slashes; names may be empty. -/
def segments : Text → List Text
  | [] => [[]]
  | c :: rest =>
      if c = '/' then
        [] :: segments rest
      else
        match segments rest with
        | [] => [[c]]
        | first :: others => (c :: first) :: others

/- The names that a path leads through. -/
def names (path : Text) : List Text :=
  (segments path).filter fun name => name ≠ [] ∧ name ≠ ['.']

/- Whether a path starts at the root. -/
def isRooted (path : Text) : Bool :=
  path.head? == some '/'

/- Whether a path ends with a slash. -/
def endsOpen (path : Text) : Bool :=
  path.getLast? == some '/'

/- Whether a path ends with a name, and not with one or two dots. -/
def endsNamed (path : Text) : Bool :=
  match (segments path).reverse.find? fun name => name ≠ [] with
  | some name => name ≠ ['.'] ∧ name ≠ ['.', '.']
  | none => false

-----
-- Limits
-----

/- A path must have fewer bytes than this. -/
def sizeLimit : Nat :=
  4096

/- A name must not have more bytes than this. -/
def maxNameSize : Nat :=
  255

/- Whether a path is short enough to be used. -/
def fits (path : Text) : Bool :=
  path.byteSize < sizeLimit

/- Whether a name is short enough to be looked up. -/
def nameFits (name : Text) : Bool :=
  name.byteSize ≤ maxNameSize

-----
-- Parents
-----

/-
  Take slashes and single dots from the end of a path, which
  is given backwards. The root and a first dot stay.
-/
def trimBackwards : Text → Text
  | ['/'] => ['/']
  | '/' :: rest => trimBackwards rest
  | '.' :: '/' :: rest => trimBackwards ('/' :: rest)
  | path => path

/-
  The path of the directory that a path is in. A single name
  is in the directory of the empty path.
-/
def parent? (path : Text) : Option Text :=
  match trimBackwards path.reverse with
  | [] => none
  | ['/'] => none
  | trimmed =>
      some (trimBackwards (trimmed.dropWhile (· ≠ '/'))).reverse

/- A path with all the paths it is in, from the inside. -/
def ancestors (bound : Nat) (path : Text) : List Text :=
  match bound with
  | 0 => [path]
  | bound + 1 =>
      match parent? path with
      | none => [path]
      | some parent => path :: ancestors bound parent

end Path

end ScriptLowering
