import ScriptLowering.Vocabulary.Spelling

/-
  Names that the emitted C++ takes from the native library,
  and the script names that have a meaning of their own.

  Key definitions include:
    * `Native.globals`
    * `Native.isSupportedRadix`
    * `Native.hasAccessorProperties`
-/

namespace ScriptLowering

namespace Native

def defaultInclude : Text :=
  "TypeSlang/runtime.cpp"

def defaultNamespace : Text :=
  "JS"

/- Formats a number: `Number::toString(value, radix)`. -/
def numberToString : Text :=
  "Number::toString"

/- Formats by position: `String::format(format, values)`. -/
def stringFormat : Text :=
  "String::format"

/- Builds a string from its bytes and their number. -/
def stringConstructor : Text :=
  "String"

/- Stands for one value in a format string. -/
def placeholder : Text :=
  "\x7b\x7d"

/- Called like a function to take a value's address. -/
def pointerConstructor : Text :=
  "Pointer"

def toStringMethod : Text :=
  "toString"

/- Property of a pointer: the address it holds. -/
def addressOf : Text :=
  "addressOf"

/- Property of a pointer: the value it points to. -/
def dereference : Text :=
  "dereference"

/- Names that every program can use, with their types. -/
def globals : List (Text × Text) :=
  [("console", "Console")]

/- The radixes that number formatting accepts as literals. -/
def supportedRadixes : List Nat :=
  [2, 8, 10, 16]

def isSupportedRadix (radix : Nat) : Bool :=
  supportedRadixes.contains radix

/-
  Whether properties of a type are methods without arguments
  in C++: those of strings and arrays are, struct fields are
  not.
-/
def hasAccessorProperties (type : Text) : Bool :=
  type == Spelling.string || (("Array<" : Text).isPrefixOf type)

end Native

end ScriptLowering
