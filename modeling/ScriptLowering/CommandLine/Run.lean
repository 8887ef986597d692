import ScriptLowering.CommandLine.Arguments
import ScriptLowering.CommandLine.Files
import ScriptLowering.Diagnostic
import ScriptLowering.Source.Decode

/-
  Running a command: read a program, compile it, and write
  the C++ text to a file or to the output.

  Key definitions include:
    * `Failure`
    * `Outcome`
    * `Command.run`
    * `run`
-/

namespace ScriptLowering

-----
-- Outcomes
-----

/- Why a command fails. -/
inductive Failure where
  | access (path : Text) (error : FileError)
  | reading (path : Text) (error : FileError)
  | invalidProgram (path : Text)
  | compiling (diagnostic : Diagnostic)
  | makingDirectory (path : Text) (error : FileError)
  | writing (path : Text) (error : FileError)
deriving DecidableEq, Repr

/- A path as it is shown in messages. -/
def quotedPath (path : Text) : Text :=
  "'" ++ path ++ "'"

def Failure.message : Failure → Text
  | access path error =>
      "Cannot access file " ++ quotedPath path ++ ": " ++ error.message
  | reading path error =>
      "Error reading file " ++ quotedPath path ++ ": " ++ error.message
  | invalidProgram path =>
      "Invalid program file " ++ quotedPath path
  | compiling diagnostic => diagnostic.text
  | makingDirectory path error =>
      "Error creating directory " ++ quotedPath path ++ ": " ++ error.message
  | writing path error =>
      "Error writing " ++ quotedPath path ++ ": " ++ error.message

/- What a command line comes to. -/
inductive Outcome where
  | stopped (stop : Stop)
  | failed (failure : Failure)
  | succeeded (output : Text)
deriving DecidableEq, Repr

def Outcome.exitCode : Outcome → Nat
  | stopped stop => stop.exitCode
  | failed _ => 1
  | succeeded _ => 0

-----
-- Commands
-----

/- Read a program from its text and compile it. -/
def compileText (path : Text) (config : LayoutConfig) (text : Text) : Except Failure Text :=
  match Program.read? text with
  | none => .error (.invalidProgram path)
  | some program =>
      match program.compile config with
      | .ok code => .ok code
      | .error error =>
          .error (.compiling (program.diagnostic error))

variable {m : Type → Type} [Monad m]

/- Read and compile the program at a path. -/
def compileFile
    (files : FileAccess m) (path : Text) (config : LayoutConfig) : m (Except Failure Text) := do
  match ← files.isDirectory path with
  | .error error => return .error (.access path error)
  | .ok _ =>
      match ← files.read path with
      | .error error => return .error (.reading path error)
      | .ok text => return compileText path config text

/- Make the directory that a file is to be in. -/
def makeParent (files : FileAccess m) (path : Text) : m (Except Failure Unit) :=
  match Path.parent? path with
  | none => return .ok ()
  | some parent => do
      match ← files.makePath parent with
      | .ok _ => return .ok ()
      | .error error => return .error (.makingDirectory parent error)

/- Write a file, with the directories it is in. -/
def writeFile (files : FileAccess m) (path : Text) (content : Text) : m (Except Failure Unit) := do
  match ← makeParent files path with
  | .error failure => return .error failure
  | .ok _ =>
      match ← files.write path content with
      | .ok _ => return .ok ()
      | .error error => return .error (.writing path error)

/- Bring out compiled code as a command asks. -/
def Command.deliver (files : FileAccess m) (command : Command) (code : Text) : m Outcome :=
  match command.action, command.settings.output? with
  | .check, _ =>
      return .succeeded ("✓ " ++ command.program ++ " compiles\n")
  | .emit, none => return .succeeded code
  | .emit, some path => do
      match ← writeFile files path code with
      | .ok _ => return .succeeded []
      | .error failure => return .failed failure

def Command.run (files : FileAccess m) (command : Command) : m Outcome := do
  match ← compileFile files command.program
      command.settings.layout with
  | .ok code => command.deliver files code
  | .error failure => return .failed failure

/- Run a command line. -/
def run (files : FileAccess m) (args : List Text) : m Outcome :=
  match Command.read args with
  | .error stop => return .stopped stop
  | .ok command => command.run files

end ScriptLowering
