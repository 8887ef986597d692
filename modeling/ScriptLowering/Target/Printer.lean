import ScriptLowering.Layout.Page
import ScriptLowering.Target.Literal
import ScriptLowering.Target.Tree

/-
  The text of a C++ program. Expressions are texts of one
  line; statements are written onto a page.

  Key definitions include:
    * `LayoutConfig`
    * `Target.Expr.text`
    * `Target.Stmt.write`
    * `Target.Signature.text`
-/

namespace ScriptLowering

-----
-- Configuration
-----

/- What may be chosen about the emitted text. -/
structure LayoutConfig where
  header : Text
  namespaceName : Text
  indentWidth : Nat
  sectionComments : Bool
deriving DecidableEq, Repr

def LayoutConfig.standard : LayoutConfig :=
  ⟨Native.defaultInclude, Native.defaultNamespace, 4, true⟩

namespace Target

-----
-- Expressions
-----

/- The texts of a list with commas between them. -/
def commaList (texts : List Text) : Text :=
  Text.joinWith ", " texts

/- Type arguments in angle brackets, or nothing. -/
def typeArgsText : List TypeName → Text
  | [] => []
  | types => "<" ++ commaList (types.map TypeName.render) ++ ">"

def Access.text : Access → Text
  | .value => "."
  | .pointer => "->"

mutual

def Expr.text : Expr → Text
  | .name text => text
  | .number text => text
  | .bool true => "true"
  | .bool false => "false"
  | .string value => Literal.string value
  | .format quasis values =>
      Native.stringFormat ++ "(\"" ++ Literal.formatText quasis values.length ++ "\"" ++
        trailingTexts values ++ ")"
  | .array type [] => type.render ++ "(\x7b\x7d, 0)"
  | .array type (first :: rest) =>
      type.render ++ "(\x7b " ++ first.text ++ trailingTexts rest ++ " \x7d, " ++
        Text.ofNat (rest.length + 1) ++ ")"
  | .record [] => "\x7b\x7d"
  | .record (first :: rest) =>
      "\x7b " ++ first.text ++ trailingFields rest ++ " \x7d"
  | .paren inner => "(" ++ inner.text ++ ")"
  | .index object index =>
      object.text ++ "[" ++ index.text ++ "]"
  | .address pointer => "(void*)" ++ pointer.text
  | .pointee pointer => "(*" ++ pointer.text ++ ")"
  | .field object access property =>
      object.text ++ access.text ++ property
  | .accessor object property =>
      object.text ++ "." ++ property ++ "()"
  | .addressOf type operand =>
      "(" ++ type.render ++ ")&" ++ operand.text
  | .numberText number radix? =>
      Native.numberToString ++ "(" ++ number.text ++ trailingText? radix? ++ ")"
  | .call callee typeArgs args =>
      callee.text ++ typeArgsText typeArgs ++ "(" ++ listText args ++ ")"
  | .conditional condition thenExpr elseExpr =>
      condition.text ++ " ? " ++ thenExpr.text ++ " : " ++
        elseExpr.text
  | .cast type operand =>
      "(" ++ type.render ++ ")" ++ operand.text
  | .unary op operand => op ++ operand.text
  | .step operand op => operand.text ++ op
  | .binary left op right =>
      left.text ++ " " ++ op ++ " " ++ right.text

/- Expressions with commas between them. -/
def listText : List Expr → Text
  | [] => []
  | first :: rest => first.text ++ trailingTexts rest

/- Expressions with a comma in front of each. -/
def trailingTexts : List Expr → Text
  | [] => []
  | expr :: rest => ", " ++ expr.text ++ trailingTexts rest

def trailingText? : Option Expr → Text
  | none => []
  | some expr => ", " ++ expr.text

def FieldInit.text : FieldInit → Text
  | .mk name value => "." ++ name ++ " = " ++ value.text

def trailingFields : List FieldInit → Text
  | [] => []
  | field :: rest => ", " ++ field.text ++ trailingFields rest

end

/- A name, with its initial value if it has one. -/
def Declarator.text (declarator : Declarator) : Text :=
  match declarator.init? with
  | none => declarator.name
  | some init => declarator.name ++ " = " ++ init.text

/- A declared type and name as a statement. -/
def declarationText (type : TypeName) (declarator : Declarator) : Text :=
  type.render ++ " " ++ declarator.text ++ ";"

def Signature.text (signature : Signature) : Text :=
  signature.returnType.render ++ " " ++ signature.name ++ "(" ++
    commaList
      (signature.params.map fun param =>
        param.2.render ++ " " ++ param.1) ++ ")"

-----
-- Statements
-----

def ForInit.text : ForInit → Text
  | .none => []
  | .expr value => value.text
  | .declare type declarators =>
      type.render ++ " " ++ commaList (declarators.map Declarator.text)

/- A further part of the header of a `for` loop. -/
def headerPart : Option Expr → Text
  | none => ";"
  | some expr => "; " ++ expr.text

/- An opening brace, the body one level deeper, and the end. -/
def writeBraced (body : Page → Page) (page : Page) : Page :=
  ((body (page.writeLine "\x7b").indent).dedent).write "\x7d"

mutual

/- Write a statement from the start of a line to its end. -/
def Stmt.write : Stmt → Page → Page
  | .block body => fun page =>
      (writeBraced (writeStmts body) page).endLine
  | .branch condition body rest => fun page =>
      (rest.write
        (writeBraced (writeStmts body) (page.write ("if (" ++ condition.text ++ ") ")))).endLine
  | .whileLoop condition body => fun page =>
      (writeBraced (writeStmts body) (page.write ("while (" ++ condition.text ++ ") "))).endLine
  | .doLoop body condition => fun page =>
      (writeBraced (writeStmts body) (page.write "do ")).writeLine
        (" while (" ++ condition.text ++ ");")
  | .forLoop init condition? update? body => fun page =>
      (writeBraced (writeStmts body)
        (page.write
          ("for (" ++ init.text ++ headerPart condition? ++ headerPart update? ++ ") "))).endLine
  | .ret none => Page.writeLine "return;"
  | .ret (some value) =>
      Page.writeLine ("return " ++ value.text ++ ";")
  | .expr value => Page.writeLine (value.text ++ ";")
  | .declare type declarator =>
      Page.writeLine (declarationText type declarator)
  | .breakLoop => Page.writeLine "break;"
  | .continueLoop => Page.writeLine "continue;"

def writeStmts : List Stmt → Page → Page
  | [] => id
  | stmt :: rest => fun page => writeStmts rest (stmt.write page)

/- Write what follows the closing brace of an `if`. -/
def Else.write : Else → Page → Page
  | .none => id
  | .body body => fun page =>
      writeBraced (writeStmts body) (page.write " else ")
  | .branch condition body rest => fun page =>
      rest.write
        (writeBraced (writeStmts body) (page.write (" else if (" ++ condition.text ++ ") ")))

end

-----
-- Code Files
-----

/- Write a function's body, or a variable. -/
def Item.write : Item → Page → Page
  | .function signature (some body) => fun page =>
      (writeBraced (writeStmts body) (page.write (signature.text ++ " "))).endLine.endLine
  | .function _ none => id
  | .global type declarator =>
      Page.writeLine (declarationText type declarator)

/- Write lines one after the other. -/
def writeLines (lines : List Text) (page : Page) : Page :=
  lines.foldl (fun page line => page.writeLine line) page

/- Write the definition of a struct and a blank line. -/
def writeStruct (struct : Struct) (page : Page) : Page :=
  let fields : List Text :=
    struct.fields.map fun field =>
      field.2.render ++ " " ++ field.1 ++ ";"
  let opened :=
    (page.writeLine ("struct " ++ struct.name ++ " \x7b")).indent
  ((writeLines fields opened).dedent.writeLine "\x7d;").endLine

/- A section is written under its label, unless it is empty. -/
def writeLabel (config : LayoutConfig) (label : Text) (page : Page) : Page :=
  if config.sectionComments then
    page.writeLine label
  else
    page

def writeForward (names : List Text) (page : Page) : Page :=
  if names.isEmpty then
    page
  else
    (writeLines (names.map fun name => "struct " ++ name ++ ";") page).endLine

def writeStructSection (config : LayoutConfig) (unit : CodeFile) (page : Page) : Page :=
  if unit.structs.isEmpty then
    page
  else
    unit.structs.foldl (fun page struct => writeStruct struct page)
      (writeForward unit.forward (writeLabel config "// Structs" page))

def writePrototypeSection (config : LayoutConfig) (unit : CodeFile) (page : Page) : Page :=
  if unit.signatures.isEmpty then
    page
  else
    (writeLines (unit.signatures.map fun signature => signature.text ++ ";")
      (writeLabel config "// Functions" page)).endLine

/- What every program begins with. -/
def writePreamble (config : LayoutConfig) (page : Page) : Page :=
  ((page.writeLine ("#include <" ++ config.header ++ ">")).writeLine
    ("using namespace " ++ config.namespaceName ++ ";")).endLine

def writeItems (items : List Item) (page : Page) : Page :=
  items.foldl (fun page item => item.write page) page

/- Write all of a program. -/
def CodeFile.write (config : LayoutConfig) (unit : CodeFile) (page : Page) : Page :=
  writeItems unit.items
    (writePrototypeSection config unit (writeStructSection config unit (writePreamble config page)))

/- The text of a program. -/
def CodeFile.text (config : LayoutConfig) (unit : CodeFile) : Text :=
  (unit.write config (Page.empty config.indentWidth)).finish

end Target

end ScriptLowering
