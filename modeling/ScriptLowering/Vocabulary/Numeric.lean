import ScriptLowering.Text.Basic

/-
  The numeric types of fixed width.

  Key definitions include:
    * `NumericKind`
    * `NumericKind.all`
    * `NumericKind.ofName?`
    * `NumericKind.bits`
-/

namespace ScriptLowering

inductive NumericKind where
  | i8
  | i16
  | i32
  | i64
  | u8
  | u16
  | u32
  | u64
  | f32
  | f64
deriving DecidableEq, Repr

namespace NumericKind

/- All numeric types, in the order of the table. -/
def all : List NumericKind :=
  [i8, i16, i32, i64, u8, u16, u32, u64, f32, f64]

def name : NumericKind → Text
  | i8 => "i8"
  | i16 => "i16"
  | i32 => "i32"
  | i64 => "i64"
  | u8 => "u8"
  | u16 => "u16"
  | u32 => "u32"
  | u64 => "u64"
  | f32 => "f32"
  | f64 => "f64"

def bits : NumericKind → Nat
  | i8 => 8
  | i16 => 16
  | i32 => 32
  | i64 => 64
  | u8 => 8
  | u16 => 16
  | u32 => 32
  | u64 => 64
  | f32 => 32
  | f64 => 64

def isFloat : NumericKind → Bool
  | f32 => true
  | f64 => true
  | _ => false

def isSigned : NumericKind → Bool
  | u8 => false
  | u16 => false
  | u32 => false
  | u64 => false
  | _ => true

/- The numeric type that a name spells, case included. -/
def ofName? (text : Text) : Option NumericKind :=
  all.find? (·.name == text)

/- The type of an integer literal and of the host's `number`. -/
def defaultInteger : NumericKind :=
  i32

/- The type of a literal with a fraction. -/
def defaultFloat : NumericKind :=
  f64

end NumericKind

end ScriptLowering
