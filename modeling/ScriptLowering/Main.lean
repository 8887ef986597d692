import ScriptLowering.CommandLine.Run

/-
  The command line program: files are those of the disk, and
  what a command comes to is printed.

  Key definitions include:
    * `diskFiles`
    * `Outcome.print`
    * `main`
-/

namespace ScriptLowering

-----
-- Files
-----

/- The file error that a failed operation reports. -/
def FileError.ofSystem : IO.Error → FileError
  | .noFileOrDirectory _ _ _ => .notFound
  | .alreadyExists _ _ _ => .exists
  | .inappropriateType _ 20 _ => .notDirectory
  | .inappropriateType _ 21 _ => .isDirectory
  | .invalidArgument _ 36 _ => .nameTooLong
  | error => .other (toString error).toList

/- Run an operation on files and keep its error as a value. -/
def attempt {α : Type} (action : IO α) : IO (Except FileError α) := do
  match ← action.toBaseIO with
  | .ok value => return .ok value
  | .error error => return .error (.ofSystem error)

/-
  Access to the files of the disk. A path is opened before it
  is resolved, since opening tells why it leads nowhere.
-/
def diskFiles : FileAccess IO where
  isDirectory path := attempt do
    let _ ← IO.FS.Handle.mk (String.ofList path) .read
    (← IO.FS.realPath (String.ofList path)).isDir
  read path := attempt do
    return (← IO.FS.readFile (String.ofList path)).toList
  makeDirectory path := attempt do
    IO.FS.createDir (String.ofList path)
  write path content := attempt do
    IO.FS.writeFile (String.ofList path) (String.ofList content)

-----
-- Printing
-----

def usage : String :=
  "Usage: emit <PROGRAM> [-o <FILE>] [OPTIONS]\n" ++
  "       check <PROGRAM> [OPTIONS]\n\n" ++
  "Options:\n" ++
  "      --runtime-include <PATH>  Header to include\n" ++
  "      --namespace <NS>          Namespace of the native types\n" ++
  "      --indent <N>              Spaces per indentation level\n" ++
  "      --no-section-comments     Omit the section labels\n" ++
  "  -h, --help                    Print help\n"

def versionText : String :=
  "0.1.0\n"

/- Print what a command line comes to. -/
def Outcome.print : Outcome → IO Unit
  | stopped .help => IO.print usage
  | stopped .version => IO.print versionText
  | stopped _ => IO.eprint usage
  | failed failure => IO.eprintln (String.ofList failure.message)
  | succeeded output => IO.print (String.ofList output)

end ScriptLowering

/- Run the command line and exit with the code of its outcome. -/
def main (args : List String) : IO UInt32 := do
  let outcome ←
    ScriptLowering.run ScriptLowering.diskFiles (args.map String.toList)
  outcome.print
  return outcome.exitCode.toUInt32
