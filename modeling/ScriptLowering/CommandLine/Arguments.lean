import ScriptLowering.Target.Printer

/-
  The words of a command line. A word that a value or the
  program's path was read from is not examined at once: it is
  pending until the next word is known to be acceptable, so an
  unknown word is reported before a bad value in front of it.

  Key definitions include:
    * `Stop`
    * `Stop.exitCode`
    * `Settings`
    * `Command`
-/

namespace ScriptLowering

-----
-- Results
-----

/- Why no command is run. -/
inductive Stop where
  | help
  | version
  | noCommand
  | unknownCommand
  | unknownArgument
  | missingProgram
  | missingValue
  | invalidNumber
  | repeatedOption
  | unexpectedValue
deriving DecidableEq, Repr

/- Asking for help or for the version is no mistake. -/
def Stop.exitCode : Stop → Nat
  | help => 0
  | version => 0
  | _ => 2

/- What a command is asked to do. -/
inductive Action where
  | emit
  | check
deriving DecidableEq, Repr

/- The values of the options; an option not given has none. -/
structure Settings where
  output? : Option Text
  header? : Option Text
  namespaceName? : Option Text
  indentWidth? : Option Nat
  noSectionComments : Bool
deriving DecidableEq, Repr

def Settings.empty : Settings :=
  ⟨none, none, none, none, false⟩

/- The layout that the options ask for. -/
def Settings.layout (settings : Settings) : LayoutConfig :=
  ⟨settings.header?.getD LayoutConfig.standard.header,
    settings.namespaceName?.getD LayoutConfig.standard.namespaceName,
    settings.indentWidth?.getD LayoutConfig.standard.indentWidth,
    !settings.noSectionComments⟩

structure Command where
  action : Action
  program : Text
  settings : Settings
deriving DecidableEq, Repr

-----
-- Options
-----

/- An option with a value. -/
inductive ValueOption where
  | output
  | header
  | namespaceName
  | indentWidth
deriving DecidableEq, Repr

/- What an option's name stands for. -/
inductive OptionName where
  | value (option : ValueOption)
  | noSectionComments
  | help
deriving DecidableEq, Repr

/- The output of a check cannot be written. -/
def Action.longOption? (action : Action) (name : Text) : Option OptionName :=
  if name = "output" ∧ action = .emit then
    some (.value .output)
  else if name = "runtime-include" then
    some (.value .header)
  else if name = "namespace" then
    some (.value .namespaceName)
  else if name = "indent" then
    some (.value .indentWidth)
  else if name = "no-section-comments" then
    some .noSectionComments
  else if name = "help" then
    some .help
  else
    none

def Action.shortOption? (action : Action) (letter : Char) : Option OptionName :=
  if letter = 'o' ∧ action = .emit then
    some (.value .output)
  else if letter = 'h' then
    some .help
  else
    none

/- Indentation widths have at most sixty-four bits. -/
def indentWidthLimit : Nat :=
  UInt64.size

/- A path must have a character. -/
def readPath (text : Text) : Except Stop Text :=
  if text = [] then
    .error .missingValue
  else
    .ok text

def readIndentWidth (text : Text) : Except Stop Nat :=
  match Text.readUnsigned? 10 indentWidthLimit text with
  | some width => .ok width
  | none => .error .invalidNumber

/- Give an option its value; an option takes one value only. -/
def Settings.assign
    (settings : Settings) (option : ValueOption) (text : Text) : Except Stop Settings :=
  match option with
  | .output =>
      if settings.output?.isSome then
        .error .repeatedOption
      else do
        let path ← readPath text
        return { settings with output? := some path }
  | .header =>
      if settings.header?.isSome then
        .error .repeatedOption
      else
        .ok { settings with header? := some text }
  | .namespaceName =>
      if settings.namespaceName?.isSome then
        .error .repeatedOption
      else
        .ok { settings with namespaceName? := some text }
  | .indentWidth =>
      if settings.indentWidth?.isSome then
        .error .repeatedOption
      else do
        let width ← readIndentWidth text
        return { settings with indentWidth? := some width }

/- Leave out the section comments; this may be said once. -/
def Settings.dropSectionComments (settings : Settings) : Except Stop Settings :=
  if settings.noSectionComments then
    .error .repeatedOption
  else
    .ok { settings with noSectionComments := true }

-----
-- Words
-----

/- The forms of a word. -/
inductive WordForm where
  | escape
  | long (name : Text) (value? : Option Text)
  | short (letter : Char) (rest : Text)
  | plain
deriving DecidableEq, Repr

/- Cut a text at its first equals sign. -/
def cutEquals : Text → Text × Option Text
  | [] => ([], none)
  | c :: rest =>
      if c = '=' then
        ([], some rest)
      else
        let cut := cutEquals rest
        (c :: cut.1, cut.2)

/- A lone dash is plain. -/
def WordForm.ofText : Text → WordForm
  | ['-', '-'] => .escape
  | '-' :: '-' :: rest =>
      let cut := cutEquals rest
      .long cut.1 cut.2
  | '-' :: letter :: rest => .short letter rest
  | _ => .plain

/- A value right behind a letter may follow an equals sign. -/
def attachedValue? : Text → Option Text
  | [] => none
  | '=' :: rest => some rest
  | rest => some rest

-----
-- Reading Arguments
-----

/- What was read last and is not examined yet. -/
inductive Pending where
  | none
  | option (option : ValueOption) (value? : Option Text)
  | program (path : Text)
deriving DecidableEq, Repr

/-
  The arguments read so far. After an escape every word is
  plain. A program counts as given as soon as it was read.
-/
structure Arguments where
  settings : Settings
  program? : Option Text
  pending : Pending
  escaped : Bool
deriving DecidableEq, Repr

namespace Arguments

def empty : Arguments :=
  ⟨Settings.empty, none, .none, false⟩

/- Examine what is pending. -/
def settle (arguments : Arguments) : Except Stop Arguments :=
  match arguments.pending with
  | .none => .ok arguments
  | .option _ none => .error .missingValue
  | .option option (some value) => do
      let settings ← arguments.settings.assign option value
      return { arguments with settings := settings, pending := .none }
  | .program path => do
      let path ← readPath path
      return { arguments with program? := some path, pending := .none }

/- An option that still waits for its value. -/
def awaiting? (arguments : Arguments) : Option ValueOption :=
  match arguments.pending with
  | .option option none => some option
  | _ => none

def hasProgram (arguments : Arguments) : Bool :=
  match arguments.pending with
  | .program _ => true
  | _ => arguments.program?.isSome

/- Read an option with the value attached to it, if any. -/
def readOption
    (arguments : Arguments) (option : ValueOption)
    (value? : Option Text) : Except Stop Arguments := do
  let arguments ← arguments.settle
  match value? with
  | none => return { arguments with pending := .option option none }
  | some value => do
      let settings ← arguments.settings.assign option value
      return { arguments with settings := settings }

/- Read an option without a value. -/
def readFlag (arguments : Arguments) (flag : Settings → Except Stop Settings) :
    Except Stop Arguments := do
  let arguments ← arguments.settle
  let settings ← flag arguments.settings
  return { arguments with settings := settings }

/- Read a word that is no option. There is one program only. -/
def readPlain (arguments : Arguments) (word : Text) : Except Stop Arguments :=
  if arguments.hasProgram then
    .error .unknownArgument
  else do
    let arguments ← arguments.settle
    return { arguments with pending := .program word }

/- Read an option by its name. -/
def readLong
    (action : Action) (arguments : Arguments) (name : Text)
    (value? : Option Text) : Except Stop Arguments :=
  match action.longOption? name, value? with
  | none, _ => .error .unknownArgument
  | some (.value option), value? => arguments.readOption option value?
  | some .noSectionComments, none =>
      arguments.readFlag Settings.dropSectionComments
  | some .help, none => arguments.readFlag fun _ => .error .help
  | some _, some _ => .error .unexpectedValue

/- Read an option by its letter. -/
def readShort
    (action : Action) (arguments : Arguments) (letter : Char)
    (rest : Text) : Except Stop Arguments :=
  match action.shortOption? letter with
  | some (.value option) =>
      arguments.readOption option (attachedValue? rest)
  | some .noSectionComments =>
      arguments.readFlag Settings.dropSectionComments
  | some .help => arguments.readFlag fun _ => .error .help
  | none => .error .unknownArgument

/- Read one more word. -/
def step (action : Action) (arguments : Arguments) (word : Text) : Except Stop Arguments :=
  if arguments.escaped then
    arguments.readPlain word
  else
    match WordForm.ofText word with
    | .escape => .ok { arguments with escaped := true }
    | .long name value? => readLong action arguments name value?
    | .short letter rest => readShort action arguments letter rest
    | .plain =>
        match arguments.awaiting? with
        | some option =>
            .ok { arguments with pending := .option option (some word) }
        | none => arguments.readPlain word

/- The command that all words make up. -/
def command (action : Action) (arguments : Arguments) : Except Stop Command := do
  let arguments ← arguments.settle
  match arguments.program? with
  | some program => return ⟨action, program, arguments.settings⟩
  | none => .error .missingProgram

end Arguments

-----
-- Reading Commands
-----

/- Read the words behind the name of a command. -/
def Action.read (action : Action) (words : List Text) : Except Stop Command := do
  let arguments ← words.foldlM (Arguments.step action) Arguments.empty
  arguments.command action

def Action.ofName? (name : Text) : Option Action :=
  if name = "emit" then
    some .emit
  else if name = "check" then
    some .check
  else
    none

/- Help is given on the program, on a command, or on help itself. -/
def readHelp : List Text → Stop
  | [] => .help
  | [topic] =>
      if topic = "help" ∨ (Action.ofName? topic).isSome then
        .help
      else
        .unknownCommand
  | _ => .unknownCommand

/- A word in front of any command that is not a command's name. -/
def readFirst (word : Text) : Stop :=
  match WordForm.ofText word with
  | .long name value? =>
      if name = "help" ∨ name = "version" then
        if value?.isSome then
          .unexpectedValue
        else if name = "help" then
          .help
        else
          .version
      else
        .unknownArgument
  | .short letter _ =>
      if letter = 'h' then
        .help
      else if letter = 'V' then
        .version
      else
        .unknownArgument
  | _ => .unknownCommand

/- No command can be named after an escape. -/
def readEscaped : List Text → Stop
  | [] => .noCommand
  | word :: _ =>
      if word = "help" ∨ (Action.ofName? word).isSome then
        .unknownArgument
      else
        .unknownCommand

/- The command of a command line, without the program's own name. -/
def Command.read : List Text → Except Stop Command
  | [] => .error .noCommand
  | word :: rest =>
      match Action.ofName? word with
      | some action => action.read rest
      | none =>
          if word = "help" then
            .error (readHelp rest)
          else if word = "--" then
            .error (readEscaped rest)
          else
            .error (readFirst word)

end ScriptLowering
