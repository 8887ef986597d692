import ScriptLowering.Types.Registry

/-
  The emitted C++ program as a tree. Names are already those
  of the C++ text, types are native types, and parentheses
  stand where they are written.

  Key definitions include:
    * `Target.Expr`
    * `Target.Stmt`
    * `Target.Signature`
    * `Target.Item`
-/

namespace ScriptLowering

namespace Target

-----
-- Expressions
-----

/- How a property of an object is reached. -/
inductive Access where
  | value
  | pointer
deriving DecidableEq, Repr

mutual

inductive Expr where
  | name (text : Text)
  | number (text : Text)
  | bool (value : Bool)
  | string (value : Text)
  | format (quasis : List Text) (values : List Expr)
  | array (type : TypeName) (elements : List Expr)
  | record (fields : List FieldInit)
  | paren (inner : Expr)
  | index (object : Expr) (index : Expr)
  | address (pointer : Expr)
  | pointee (pointer : Expr)
  | field (object : Expr) (access : Access) (property : Text)
  | accessor (object : Expr) (property : Text)
  | addressOf (type : TypeName) (operand : Expr)
  | numberText (number : Expr) (radix? : Option Expr)
  | call (callee : Expr) (typeArgs : List TypeName)
      (args : List Expr)
  | conditional (condition : Expr) (thenExpr : Expr)
      (elseExpr : Expr)
  | cast (type : TypeName) (operand : Expr)
  | unary (op : Text) (operand : Expr)
  | step (operand : Expr) (op : Text)
  | binary (left : Expr) (op : Text) (right : Expr)

/- The value of one field of a struct. -/
inductive FieldInit where
  | mk (name : Text) (value : Expr)

end

/- A declared name with its initial value. -/
structure Declarator where
  name : Text
  init? : Option Expr

-----
-- Statements
-----

/- The first part of the header of a `for` loop. -/
inductive ForInit where
  | none
  | expr (value : Expr)
  | declare (type : TypeName) (declarators : List Declarator)

mutual

inductive Stmt where
  | block (body : List Stmt)
  | branch (condition : Expr) (body : List Stmt) (rest : Else)
  | whileLoop (condition : Expr) (body : List Stmt)
  | doLoop (body : List Stmt) (condition : Expr)
  | forLoop (init : ForInit) (condition? : Option Expr)
      (update? : Option Expr) (body : List Stmt)
  | ret (value? : Option Expr)
  | expr (value : Expr)
  | declare (type : TypeName) (declarator : Declarator)
  | breakLoop
  | continueLoop

/- What follows the body of an `if`. -/
inductive Else where
  | none
  | body (body : List Stmt)
  | branch (condition : Expr) (body : List Stmt) (rest : Else)

end

-----
-- Code Files
-----

/- A function's name, parameters and return type. -/
structure Signature where
  name : Text
  params : List (Text × TypeName)
  returnType : TypeName
deriving DecidableEq, Repr

/- A function, with its body if it has one, or a variable. -/
inductive Item where
  | function (signature : Signature)
      (body? : Option (List Stmt))
  | global (type : TypeName) (declarator : Declarator)

def Item.signature? : Item → Option Signature
  | .function signature _ => some signature
  | .global _ _ => none

/-
  A whole C++ program: the structs with those declared in
  front, and the functions and variables in order.
-/
structure CodeFile where
  forward : List Text
  structs : List Struct
  items : List Item

/- The functions that get a prototype. -/
def CodeFile.signatures (unit : CodeFile) : List Signature :=
  unit.items.filterMap Item.signature?

end Target

end ScriptLowering
