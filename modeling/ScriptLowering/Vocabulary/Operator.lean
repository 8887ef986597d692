import ScriptLowering.Text.Basic

/-
  Operators of the script language. An operator has a name
  in program files, a spelling in the script, and a spelling
  in C++ if it can be lowered at all.

  Key definitions include:
    * `BinaryOp`
    * `BinaryOp.all`
    * `BinaryOp.spelling`
    * `BinaryOp.target?`
-/

namespace ScriptLowering

-----
-- Binary Operators
-----

inductive BinaryOp where
  | plus
  | minus
  | star
  | slash
  | percent
  | starStar
  | eqEq
  | notEq
  | strictEq
  | strictNotEq
  | lt
  | ltEq
  | gt
  | gtEq
  | andAnd
  | orOr
  | questionQuestion
  | amp
  | pipe
  | caret
  | shl
  | shr
  | assign
  | plusEq
  | minusEq
  | starEq
  | slashEq
  | percentEq
  | isIn
  | instanceOf
deriving DecidableEq, Repr

namespace BinaryOp

/- All binary operators, in the order of the table. -/
def all : List BinaryOp :=
  [ plus, minus, star, slash, percent, starStar, eqEq, notEq,
    strictEq, strictNotEq, lt, ltEq, gt, gtEq, andAnd, orOr,
    questionQuestion, amp, pipe, caret, shl, shr, assign,
    plusEq, minusEq, starEq, slashEq, percentEq, isIn,
    instanceOf ]

/- The operator's name in program files. -/
def name : BinaryOp → Text
  | plus => "Plus"
  | minus => "Minus"
  | star => "Star"
  | slash => "Slash"
  | percent => "Percent"
  | starStar => "StarStar"
  | eqEq => "EqEq"
  | notEq => "NotEq"
  | strictEq => "StrictEq"
  | strictNotEq => "StrictNotEq"
  | lt => "Lt"
  | ltEq => "LtEq"
  | gt => "Gt"
  | gtEq => "GtEq"
  | andAnd => "AndAnd"
  | orOr => "OrOr"
  | questionQuestion => "QuestionQuestion"
  | amp => "Amp"
  | pipe => "Pipe"
  | caret => "Caret"
  | shl => "Shl"
  | shr => "Shr"
  | assign => "Assign"
  | plusEq => "PlusEq"
  | minusEq => "MinusEq"
  | starEq => "StarEq"
  | slashEq => "SlashEq"
  | percentEq => "PercentEq"
  | isIn => "In"
  | instanceOf => "InstanceOf"

/- The operator as the script writes it. -/
def spelling : BinaryOp → Text
  | plus => "+"
  | minus => "-"
  | star => "*"
  | slash => "/"
  | percent => "%"
  | starStar => "**"
  | eqEq => "=="
  | notEq => "!="
  | strictEq => "==="
  | strictNotEq => "!=="
  | lt => "<"
  | ltEq => "<="
  | gt => ">"
  | gtEq => ">="
  | andAnd => "&&"
  | orOr => "||"
  | questionQuestion => "??"
  | amp => "&"
  | pipe => "|"
  | caret => "^"
  | shl => "<<"
  | shr => ">>"
  | assign => "="
  | plusEq => "+="
  | minusEq => "-="
  | starEq => "*="
  | slashEq => "/="
  | percentEq => "%="
  | isIn => "in"
  | instanceOf => "instanceof"

/-
  The operator in C++. Values have one static type there, so
  strict comparison is plain comparison.
-/
def target? : BinaryOp → Option Text
  | starStar => none
  | questionQuestion => none
  | isIn => none
  | instanceOf => none
  | strictEq => some eqEq.spelling
  | strictNotEq => some notEq.spelling
  | op => some op.spelling

def isAssignment : BinaryOp → Bool
  | assign => true
  | plusEq => true
  | minusEq => true
  | starEq => true
  | slashEq => true
  | percentEq => true
  | _ => false

def ofSpelling? (text : Text) : Option BinaryOp :=
  all.find? (·.spelling == text)

def ofName? (text : Text) : Option BinaryOp :=
  all.find? (·.name == text)

end BinaryOp

-----
-- Unary Operators
-----

/- Operators written in front of their operand. -/
inductive UnaryOp where
  | not
  | minus
  | plus
  | tilde
  | increment
  | decrement
  | typeOf
  | void
  | delete
deriving DecidableEq, Repr

namespace UnaryOp

def all : List UnaryOp :=
  [ not, minus, plus, tilde, increment, decrement, typeOf, void, delete ]

/- The operator's name in program files. -/
def name : UnaryOp → Text
  | not => "Not"
  | minus => "Minus"
  | plus => "Plus"
  | tilde => "Tilde"
  | increment => "Increment"
  | decrement => "Decrement"
  | typeOf => "TypeOf"
  | void => "Void"
  | delete => "Delete"

/- The operator as the script writes it. -/
def spelling : UnaryOp → Text
  | not => "!"
  | minus => "-"
  | plus => "+"
  | tilde => "~"
  | increment => "++"
  | decrement => "--"
  | typeOf => "typeof"
  | void => "void"
  | delete => "delete"

/- The operator in C++, if there is one. -/
def target? : UnaryOp → Option Text
  | typeOf => none
  | void => none
  | delete => none
  | op => some op.spelling

def ofName? (text : Text) : Option UnaryOp :=
  all.find? (·.name == text)

end UnaryOp

-----
-- Step Operators
-----

/- Operators written behind their operand. -/
inductive StepOp where
  | increment
  | decrement
deriving DecidableEq, Repr

namespace StepOp

def all : List StepOp :=
  [increment, decrement]

/- The operator's name in program files. -/
def name : StepOp → Text
  | increment => "Increment"
  | decrement => "Decrement"

/- The operator, in the script and in C++. -/
def spelling : StepOp → Text
  | increment => "++"
  | decrement => "--"

def ofName? (text : Text) : Option StepOp :=
  all.find? (·.name == text)

end StepOp

end ScriptLowering
