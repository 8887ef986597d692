import ScriptLowering.CommandLine.Path

/-
  Access to files, and a tree of files that it can be run on.

  Key definitions include:
    * `FileError`
    * `FileAccess`
    * `FileAccess.makePath`
    * `FileTree`
-/

namespace ScriptLowering

-----
-- Errors
-----

inductive FileError where
  | notFound
  | exists
  | notDirectory
  | isDirectory
  | nameTooLong
  | nulByte
  | other (message : Text)
deriving DecidableEq, Repr

def FileError.message : FileError → Text
  | notFound => "No such file or directory (os error 2)"
  | .exists => "File exists (os error 17)"
  | notDirectory => "Not a directory (os error 20)"
  | isDirectory => "Is a directory (os error 21)"
  | nameTooLong => "File name too long (os error 36)"
  | nulByte => "file name contained an unexpected NUL byte"
  | other message => message

-----
-- Access
-----

/- What can be done with files in a monad. -/
structure FileAccess (m : Type → Type) where
  isDirectory : Text → m (Except FileError Bool)
  read : Text → m (Except FileError Text)
  makeDirectory : Text → m (Except FileError Unit)
  write : Text → Text → m (Except FileError Unit)

namespace FileAccess

variable {m : Type → Type} [Monad m]

/-
  Make one directory. It is no error if the directory is
  there already.
-/
def ensureDirectory (files : FileAccess m) (path : Text) : m (Except FileError Unit) := do
  match ← files.makeDirectory path with
  | .ok _ => return .ok ()
  | .error error =>
      match ← files.isDirectory path with
      | .ok true => return .ok ()
      | _ => return .error error

/-
  Make the first of the given directories, each of which is
  in the next one, with those that it is in. The empty path
  is there always.
-/
def makeFrom (files : FileAccess m) :
    List Text → m (Except FileError Unit)
  | [] => return .error .notFound
  | path :: parents => do
      if path = [] then
        return .ok ()
      else
        match ← files.ensureDirectory path with
        | .error .notFound =>
            match ← files.makeFrom parents with
            | .ok _ => files.ensureDirectory path
            | .error error => return .error error
        | result => return result

/- Make a directory with all the directories it is in. -/
def makePath (files : FileAccess m) (path : Text) : m (Except FileError Unit) :=
  files.makeFrom (Path.ancestors path.length path)

end FileAccess

-----
-- Trees
-----

/- A directory, or a file with its text. -/
inductive FileEntry where
  | directory
  | file (content : Text)
deriving DecidableEq, Repr

/-
  The entries of a file system by the names that lead to them
  from the root, and the directory that work is done in. The
  root is a directory always.
-/
structure FileTree where
  working : List Text
  entries : List (List Text × FileEntry)
deriving DecidableEq, Repr

namespace FileTree

def entry? (tree : FileTree) (place : List Text) : Option FileEntry :=
  if place = [] then
    some .directory
  else
    tree.entries.lookup place

/- Set an entry, in its old position if there is one. -/
def insert (tree : FileTree) (place : List Text) (entry : FileEntry) : FileTree :=
  if tree.entries.any fun old => old.1 = place then
    { tree with
      entries := tree.entries.map fun old =>
        if old.1 = place then (place, entry) else old }
  else
    { tree with entries := tree.entries ++ [(place, entry)] }

/- The place that a path starts from. -/
def start (tree : FileTree) (path : Text) : List Text :=
  if Path.isRooted path then
    []
  else
    tree.working

/- Check that there is a directory at a place. -/
def checkDirectory (tree : FileTree) (place : List Text) : Except FileError Unit :=
  match tree.entry? place with
  | none => .error .notFound
  | some (.file _) => .error .notDirectory
  | some .directory => .ok ()

/- Go on from a place, which must be a directory, by one name. -/
def descend (tree : FileTree) (place : List Text) (name : Text) : Except FileError (List Text) := do
  tree.checkDirectory place
  if name = ['.', '.'] then
    return place.dropLast
  else if Path.nameFits name then
    return place ++ [name]
  else
    .error .nameTooLong

/- Check that a path can be used at all. -/
def checkPath (path : Text) : Except FileError Unit :=
  if path.contains '\x00' then
    .error .nulByte
  else if Path.fits path then
    .ok ()
  else
    .error .nameTooLong

/- The place that a path leads to, whether something is there or not. -/
def place (tree : FileTree) (path : Text) : Except FileError (List Text) := do
  checkPath path
  (Path.names path).foldlM tree.descend (tree.start path)

/- Check that the last name of a path would be in a directory. -/
def checkParent (tree : FileTree) (path : Text) : Except FileError Unit := do
  checkPath path
  let parent ←
    (Path.names path).dropLast.foldlM tree.descend (tree.start path)
  tree.checkDirectory parent

/-
  The entry at the end of a path. A path that does not end
  with a name leads to a directory only.
-/
def find (tree : FileTree) (path : Text) : Except FileError FileEntry := do
  let place ← tree.place path
  match tree.entry? place with
  | none => .error .notFound
  | some (.file content) =>
      if Path.endsOpen path || !Path.endsNamed path then
        .error .notDirectory
      else
        .ok (.file content)
  | some .directory => .ok .directory

def isDirectory (tree : FileTree) (path : Text) : Except FileError Bool := do
  let entry ← tree.find path
  return entry = .directory

def read (tree : FileTree) (path : Text) : Except FileError Text := do
  match ← tree.find path with
  | .file content => return content
  | .directory => .error .isDirectory

/- Make a directory where nothing is. -/
def makeDirectory (tree : FileTree) (path : Text) : Except FileError FileTree := do
  if Path.endsNamed path then do
    let place ← tree.place path
    if (tree.entry? place).isSome then
      .error .exists
    else
      return tree.insert place .directory
  else do
    let _ ← tree.find path
    .error .exists

/-
  Write a file. A path that ends with a slash names no file,
  whatever its last name is.
-/
def write (tree : FileTree) (path : Text) (content : Text) : Except FileError FileTree := do
  if Path.endsNamed path && Path.endsOpen path then do
    tree.checkParent path
    .error .isDirectory
  else do
    let place ← tree.place path
    match tree.entry? place with
    | none =>
        if Path.endsNamed path then
          return tree.insert place (.file content)
        else
          .error .notFound
    | some .directory => .error .isDirectory
    | some (.file _) =>
        if Path.endsNamed path then
          return tree.insert place (.file content)
        else
          .error .notDirectory

-----
-- Access To Trees
-----

/- Keep the tree if the change of it fails. -/
def change (step : FileTree → Except FileError FileTree) :
    StateM FileTree (Except FileError Unit) :=
  fun tree =>
    match step tree with
    | .ok changed => (.ok (), changed)
    | .error error => (.error error, tree)

def access : FileAccess (StateM FileTree) where
  isDirectory path := do return (← get).isDirectory path
  read path := do return (← get).read path
  makeDirectory path := change fun tree => tree.makeDirectory path
  write path content := change fun tree => tree.write path content

end FileTree

end ScriptLowering
