import ScriptLowering.Types.Application
import ScriptLowering.Types.Shape
import ScriptLowering.Vocabulary.Spelling

/-
  Type spellings read as terms. The outermost form of a
  spelling names the spellings of its parts; reading those in
  turn gives the term. Reading never fails: what has no
  native type, or a shape with a fault in it, is a term of
  its own, which fails only when it is evaluated.

  Key definitions include:
    * `TypeForm`
    * `TypeForm.ofText`
    * `TypeTerm`
    * `TypeTerm.ofText`

  Key theorems include:
    * `TypeForm.markCount_lt_of_mem_parts`
    * `TypeTerm.ofText_eq_term`
-/

namespace ScriptLowering

-----
-- Classes Of Spellings
-----

namespace Spelling

/- A literal type in one of the three kinds of quotes. -/
def isQuoted (text : Text) : Bool :=
  2 ≤ text.length &&
    ['"', '\'', '`'].any fun quote =>
      text.head? == some quote && text.getLast? == some quote

/- A literal type such as `12`, `-3` or `12.34`. -/
def isNumeral (text : Text) : Bool :=
  let digits :=
    match text with
    | '-' :: rest => rest
    | other => other
  digits.head?.any Char.isDigit && digits.all fun c => c.isAlphanum || c == '.' || c == '_'

/-
  Spellings that no native type stands for: host types,
  unions, intersections, and function types.
-/
def isUndecidable (native : Text) : Bool :=
  isHostOnly native || native.containsTopLevel '|' || native.containsTopLevel '&' ||
    Text.containsText "=>" native ||
    native.head? == some '('

end Spelling

-----
-- Forms
-----

/-
  The outermost form of a type spelling, with the spellings
  of its parts.
-/
inductive TypeForm where
  | undecided
  | disallowed (word : Text)
  | malformed (shape : Text) (fault : ShapeFault)
  | string
  | bool
  | numeral (fraction : Bool)
  | shape (fields : List (Text × Text))
  | array (element : Text)
  | applied (head : Text) (args : List Text)
  | named (name : Text)
deriving DecidableEq, Repr

namespace TypeForm

/- The form of a spelling in native words. -/
def ofNative (native : Text) : TypeForm :=
  if Spelling.isBoolean native then
    .bool
  else if Spelling.isDisallowed native then
    .disallowed native
  else if Spelling.isUndecidable native then
    .undecided
  else
    match native.dropEnd? "[]" with
    | some element => .array element
    | none =>
        match Application.ofText? native with
        | some application =>
            .applied application.head application.args
        | none => .named native

/- The form of a spelling without blanks at its ends. -/
def ofTrimmed (text : Text) : TypeForm :=
  if text.isEmpty then
    .undecided
  else if Spelling.isQuoted text then
    .string
  else if Shape.isBraced text then
    match Shape.read text with
    | .error fault => .malformed text fault
    | .ok fields => .shape fields
  else if Spelling.isNumeral text then
    .numeral (text.contains '.')
  else
    ofNative (Spelling.nativeForm text)

def ofText (raw : Text) : TypeForm :=
  ofTrimmed (Text.trim raw)

/- The spellings that a form leaves to be read. -/
def parts : TypeForm → List Text
  | .shape fields => fields.map Prod.snd
  | .array element => [element]
  | .applied _ args => args
  | _ => []

theorem markCount_lt_of_dropEnd? {text inner : Text} (h : text.dropEnd? "[]" = some inner) :
    inner.markCount < text.markCount := by
  rw [Text.dropEnd?_eq_some h, Text.markCount_append]
  have hTwo : Text.markCount ("[]" : Text) = 2 := by decide
  omega

/- Forms that are told without a name or a part. -/
def isFixed : TypeForm → Bool
  | .shape _ => false
  | .array _ => false
  | .applied _ _ => false
  | .named _ => false
  | _ => true

theorem parts_of_isFixed {form : TypeForm} (h : form.isFixed = true) :
    form.parts = [] := by
  cases form with
  | shape | array | applied | named => cases h
  | _ => rfl

/- What is known of a trimmed spelling by its form. -/
inductive IsRead (text : Text) : TypeForm → Prop
  | fixed {form : TypeForm} (hFixed : form.isFixed = true) :
      IsRead text form
  | shape
      {fields : List (Text × Text)} (hBraced : Shape.isBraced text = true)
      (hShape : Shape.read text = .ok fields) :
      IsRead text (.shape fields)
  | array
      {element : Text}
      (hArray :
        (Spelling.nativeForm text).dropEnd? "[]" = some element) :
      IsRead text (.array element)
  | applied
      {application : Application}
      (hApplied :
        Application.ofText? (Spelling.nativeForm text) = some application) :
      IsRead text (.applied application.head application.args)
  | named
      (hBoolean :
        Spelling.isBoolean (Spelling.nativeForm text) = false)
      (hDisallowed :
        Spelling.isDisallowed (Spelling.nativeForm text) = false)
      (hUndecidable :
        Spelling.isUndecidable (Spelling.nativeForm text) = false) :
      IsRead text (.named (Spelling.nativeForm text))

theorem isRead_ofNative (text : Text) :
    IsRead text (ofNative (Spelling.nativeForm text)) := by
  unfold ofNative
  split
  · exact .fixed rfl
  · next hBoolean =>
    split
    · exact .fixed rfl
    · next hDisallowed =>
      split
      · exact .fixed rfl
      · next hUndecidable =>
        split
        · next hArray => exact .array hArray
        · split
          · next hApplied => exact .applied hApplied
          · rw [Bool.not_eq_true] at hBoolean hDisallowed hUndecidable
            exact .named hBoolean hDisallowed hUndecidable

theorem isRead_ofTrimmed (text : Text) :
    IsRead text (ofTrimmed text) := by
  unfold ofTrimmed
  split
  · exact .fixed rfl
  · split
    · exact .fixed rfl
    · split
      · next hBraced =>
        split
        · exact .fixed rfl
        · next hShape => exact .shape hBraced hShape
      · split
        · exact .fixed rfl
        · exact isRead_ofNative text

/- A part has fewer characters outside words than the whole. -/
theorem markCount_lt_of_mem_parts {raw part : Text} (h : part ∈ (ofText raw).parts) :
    part.markCount < raw.markCount := by
  refine Nat.lt_of_lt_of_le ?_ (Text.markCount_le_of_sublist (Text.trim_sublist raw))
  have hRead := isRead_ofTrimmed (Text.trim raw)
  unfold ofText at h
  generalize ofTrimmed (Text.trim raw) = form at h hRead
  cases hRead with
  | fixed hFixed =>
      rw [parts_of_isFixed hFixed] at h
      cases h
  | shape _ hShape =>
      obtain ⟨field, hField, hEq⟩ := List.mem_map.1 h
      subst hEq
      exact Shape.markCount_lt_of_mem_read hShape hField
  | array hArray =>
      rw [List.mem_singleton.1 h, ← Spelling.markCount_nativeForm (Text.trim raw)]
      exact markCount_lt_of_dropEnd? hArray
  | applied hApplied =>
      rw [← Spelling.markCount_nativeForm (Text.trim raw)]
      exact Application.markCount_lt_of_mem_args hApplied h
  | named => cases h

end TypeForm

-----
-- Terms
-----

/-
  A type spelling by its structure. Where evaluation may
  fail, the term keeps the spelling it was read from.
-/
inductive TypeTerm where
  | undecided (raw : Text)
  | disallowed (word : Text)
  | malformed (shape : Text) (fault : ShapeFault)
  | string
  | bool
  | numeral (fraction : Bool)
  | shape (members : List (Text × TypeTerm))
  | array (raw : Text) (element : TypeTerm)
  | applied (raw : Text) (head : Text) (args : List TypeTerm)
  | named (raw : Text) (name : Text)
deriving Repr

namespace TypeTerm

/- Read a type spelling. -/
def ofText (raw : Text) : TypeTerm :=
  match _hForm : TypeForm.ofText raw with
  | .undecided => .undecided raw
  | .disallowed word => .disallowed word
  | .malformed text fault => .malformed text fault
  | .string => .string
  | .bool => .bool
  | .numeral fraction => .numeral fraction
  | .shape fields =>
      .shape
        (fields.attach.map fun field =>
          (field.val.1, ofText field.val.2))
  | .array element => .array raw (ofText element)
  | .applied head args =>
      .applied raw head (args.attach.map fun arg => ofText arg.val)
  | .named name => .named raw name
termination_by raw.markCount
decreasing_by
  · exact TypeForm.markCount_lt_of_mem_parts (_hForm ▸ List.mem_map_of_mem field.property)
  · exact TypeForm.markCount_lt_of_mem_parts (_hForm ▸ List.mem_singleton_self element)
  · exact TypeForm.markCount_lt_of_mem_parts (_hForm ▸ arg.property)

end TypeTerm

/- The term of a spelling whose form is known. -/
def TypeForm.term (raw : Text) : TypeForm → TypeTerm
  | .undecided => .undecided raw
  | .disallowed word => .disallowed word
  | .malformed text fault => .malformed text fault
  | .string => .string
  | .bool => .bool
  | .numeral fraction => .numeral fraction
  | .shape fields =>
      .shape
        (fields.map fun field =>
          (field.1, TypeTerm.ofText field.2))
  | .array element => .array raw (TypeTerm.ofText element)
  | .applied head args =>
      .applied raw head (args.map TypeTerm.ofText)
  | .named name => .named raw name

/- Parts are read as spellings of their own. -/
theorem TypeTerm.ofText_eq_term (raw : Text) :
    ofText raw = (TypeForm.ofText raw).term raw := by
  rw [ofText]
  split <;> simp [*, TypeForm.term, List.map_attach_eq_pmap]

end ScriptLowering
