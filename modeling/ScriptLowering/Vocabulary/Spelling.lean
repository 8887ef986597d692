import ScriptLowering.Text.Word
import ScriptLowering.Vocabulary.Numeric

/-
  Words with a fixed meaning in type spellings: the native
  builtin types, the host words that stand for them, and the
  host words without a native type.

  Key definitions include:
    * `Spelling.hostWord`
    * `Spelling.nativeForm`
    * `Spelling.targetWord`
    * `Spelling.isBoolean`

  Key theorems include:
    * `Spelling.markCount_nativeForm`
-/

namespace ScriptLowering

namespace Spelling

-----
-- Builtin Types
-----

def bool : Text :=
  "bool"

def string : Text :=
  "string"

def void : Text :=
  "void"

/- Head of the array type `Array<T>`. -/
def array : Text :=
  "Array"

/- Head of the pointer type `Pointer<T>`. -/
def pointer : Text :=
  "Pointer"

/- The type that names of functions are bound to. -/
def function : Text :=
  "function"

-----
-- Host Words
-----

/- The native word that a host word stands for. -/
def hostWord (word : Text) : Option Text :=
  if word = "number" then
    some NumericKind.defaultInteger.name
  else if word = "bigint" then
    some NumericKind.i64.name
  else if word = "ptr" then
    some pointer
  else
    none

/- A type spelling with native words for host words. -/
def nativeForm (text : Text) : Text :=
  text.mapWords hostWord

/- Spellings of the boolean type and of its two values. -/
def isBoolean (text : Text) : Bool :=
  text == "boolean" || text == "true" || text == "false"

/- Dynamic types, which no static type can stand for. -/
def isDisallowed (text : Text) : Bool :=
  text == "any" || text == "const"

/- Host types without a native counterpart. -/
def isHostOnly (text : Text) : Bool :=
  text == "unknown" || text == "undefined" || text == "null" || text == "never" ||
    text == "object" || text == "symbol"

/- The C++ word for a builtin type, where it differs. -/
def targetWord (word : Text) : Option Text :=
  if word = string then
    some "String"
  else
    none

theorem hostWord_all_isWordChar (word replacement : Text) (h : hostWord word = some replacement) :
    replacement.all Text.isWordChar = true := by
  unfold hostWord at h
  split at h
  · cases h
    decide
  · split at h
    · cases h
      decide
    · split at h
      · cases h
        decide
      · cases h

/- Native words take the place of host words between the same marks. -/
theorem markCount_nativeForm (text : Text) :
    (nativeForm text).markCount = text.markCount :=
  Text.markCount_mapWords hostWord_all_isWordChar text

end Spelling

end ScriptLowering
