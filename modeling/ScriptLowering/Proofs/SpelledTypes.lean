import ScriptLowering.Proofs.Splitting
import ScriptLowering.Types.Term

/-
  Types as they are meant and as they are spelled. A spelled
  type is a type with all that a spelling may choose: blanks,
  separators and modifiers. Brackets are closed in its text,
  and replacing host words in the text is the same as
  replacing them in the type.

  Key theorems include:
    * `SpelledType.tight_print`
    * `SpelledType.nativeForm_print`
-/

namespace ScriptLowering

open Text Spelling List

-----
-- Types By Their Structure
-----

/- A type without regard to how it is spelled. -/
inductive TypeExpr where
  | word (name : Text)
  | array (element : TypeExpr)
  | applied (head : Text) (args : List TypeExpr)
  | shape (fields : List (Text × TypeExpr))

-----
-- Spelled Types
-----

abbrev Blanks :=
  { text : Text // ∀ c ∈ text, isBlank c = true }

abbrev Identifier :=
  { text : Text // text.isIdentifier = true }

/- The words that are replaced by native ones. -/
def hostWords : List Text :=
  ["number", "bigint", "ptr"]

/- The name of a field must not be replaced. -/
abbrev FieldName :=
  { text : Text // text.isIdentifier = true ∧ text ∉ hostWords }

/- Members are separated by semicolons or commas. -/
def memberSeparators : List Char :=
  [';', ',']

theorem all_isDelimiter_memberSeparators :
    memberSeparators.all isDelimiter = true :=
  rfl

theorem class_of_mem_memberSeparators {c : Char} (h : c ∈ memberSeparators) :
    isFlat c = true ∧ isWordChar c = false ∧ isBlank c = false :=
  of_isDelimiter (all_eq_true.mp all_isDelimiter_memberSeparators c h)

abbrev Separator :=
  { c : Char // c ∈ memberSeparators }

/- Blanks and separators without a member between them. -/
abbrev Filler :=
  { text : Text //
    ∀ c ∈ text, isBlank c = true ∨ c ∈ memberSeparators }

/- What stands behind a member that others may follow. -/
structure Divider where
  gap : Blanks
  separator : Separator
  filler : Filler

def Divider.text (divider : Divider) : Text :=
  divider.gap.val ++ divider.separator.val :: divider.filler.val

/- A member up to its type, with the modifier if it has one. -/
structure MemberHead where
  modifier? : Option Blanks
  name : FieldName
  gap : Blanks

namespace MemberHead

def modifier (head : MemberHead) : Text :=
  match head.modifier? with
  | some gap => "readonly " ++ gap.val
  | none => []

def text (head : MemberHead) : Text :=
  head.modifier ++ (head.name.val ++ ':' :: head.gap.val)

end MemberHead

mutual

inductive SpelledType where
  | word (name : Identifier)
  | array (element : SpelledType) (gap : Blanks)
  | applied (head : Identifier) (args : SpelledArgs)
  | shape (filler : Filler) (members : SpelledMembers)

/- One argument or more, each of them between blanks. -/
inductive SpelledArgs where
  | last (before : Blanks) (arg : SpelledType) (after : Blanks)
  | more (before : Blanks) (arg : SpelledType) (after : Blanks)
      (rest : SpelledArgs)

/- One member or more; separators may follow the last one. -/
inductive SpelledMembers where
  | last (head : MemberHead) (type : SpelledType) (gap : Blanks)
  | closed (head : MemberHead) (type : SpelledType)
      (divider : Divider)
  | more (head : MemberHead) (type : SpelledType)
      (divider : Divider) (rest : SpelledMembers)

end

mutual

/- The type that is spelled. -/
def SpelledType.expr : SpelledType → TypeExpr
  | .word name => .word name.val
  | .array element _ => .array element.expr
  | .applied head args => .applied head.val args.exprs
  | .shape _ members => .shape members.exprs

def SpelledArgs.exprs : SpelledArgs → List TypeExpr
  | .last _ arg _ => [arg.expr]
  | .more _ arg _ rest => arg.expr :: rest.exprs

def SpelledMembers.exprs : SpelledMembers → List (Text × TypeExpr)
  | .last head type _ => [(head.name.val, type.expr)]
  | .closed head type _ => [(head.name.val, type.expr)]
  | .more head type _ rest =>
      (head.name.val, type.expr) :: rest.exprs

end

section Printing

variable (render : Text → Text)

mutual

/- The text of a type whose words are rendered in some way. -/
def SpelledType.print : SpelledType → Text
  | .word name => render name.val
  | .array element gap => element.print ++ (gap.val ++ ['[', ']'])
  | .applied head args =>
      render head.val ++ '<' :: (args.print ++ ['>'])
  | .shape filler members =>
      '{' :: (filler.val ++ members.print ++ ['}'])

def SpelledArgs.print : SpelledArgs → Text
  | .last before arg after =>
      before.val ++ (arg.print ++ after.val)
  | .more before arg after rest =>
      before.val ++ (arg.print ++ after.val) ++ ',' :: rest.print

def SpelledMembers.print : SpelledMembers → Text
  | .last head type gap => head.text ++ (type.print ++ gap.val)
  | .closed head type divider =>
      head.text ++ (type.print ++ divider.text)
  | .more head type divider rest =>
      head.text ++ (type.print ++ (divider.text ++ rest.print))

end

/- The texts of the arguments. -/
def SpelledArgs.texts : SpelledArgs → List Text
  | .last _ arg _ => [arg.print render]
  | .more _ arg _ rest => arg.print render :: rest.texts

/- The names of the members with the texts of their types. -/
def SpelledMembers.texts : SpelledMembers → List (Text × Text)
  | .last head type _ => [(head.name.val, type.print render)]
  | .closed head type _ => [(head.name.val, type.print render)]
  | .more head type _ rest =>
      (head.name.val, type.print render) :: rest.texts

end Printing

def SpelledType.text (spelled : SpelledType) : Text :=
  spelled.print id

-----
-- Native Words
-----

/- A word with its native replacement, if it has one. -/
def nativeWord (word : Text) : Text :=
  replaceWord hostWord word

/- Words are kept, or replaced by native ones. -/
structure Renders (render : Text → Text) : Prop where
  identifier :
    ∀ name, name.isIdentifier = true → (render name).isIdentifier = true
  native : ∀ name, nativeWord (render name) = nativeWord name

theorem renders_id :
    Renders id :=
  ⟨fun _ h => h, fun _ => rfl⟩

theorem hostWord_cases (word : Text) :
    hostWord word = none ∨
      ∃ native ∈ [("i32" : Text), "i64", "Pointer"], hostWord word = some native := by
  unfold hostWord
  split
  · exact .inr ⟨_, by decide, rfl⟩
  · split
    · exact .inr ⟨_, by decide, rfl⟩
    · split
      · exact .inr ⟨_, by decide, rfl⟩
      · exact .inl rfl

theorem renders_nativeWord :
    Renders nativeWord := by
  have hNative :
      ∀ native ∈ [("i32" : Text), "i64", "Pointer"],
        isIdentifier native = true ∧ nativeWord native = native := by
    decide
  constructor
  · intro name hName
    rcases hostWord_cases name with hNone | ⟨native, hMem, hSome⟩
    · simpa [nativeWord, replaceWord, hNone] using hName
    · simpa [nativeWord, replaceWord, hSome] using (hNative native hMem).1
  · intro name
    rcases hostWord_cases name with hNone | ⟨native, hMem, hSome⟩
    · have hSame : nativeWord name = name := by simp [nativeWord, replaceWord, hNone]
      rw [hSame, hSame]
    · have hReplaced : nativeWord name = native := by simp [nativeWord, replaceWord, hSome]
      rw [hReplaced, (hNative native hMem).2]

theorem nativeForm_word {word : Text} (h : word.isIdentifier = true) :
    nativeForm word = nativeWord word :=
  mapWords_word _ (.of_isIdentifier h)

theorem nativeWord_fieldName (name : FieldName) :
    nativeWord name.val = name.val := by
  have hNone : hostWord name.val = none := by
    have hName := name.property.2
    simp only [hostWords, mem_cons, not_mem_nil, or_false, not_or] at hName
    unfold hostWord
    rw [if_neg hName.1, if_neg hName.2.1, if_neg hName.2.2]
  simp [nativeWord, replaceWord, hNone]

-----
-- Texts Of Spelled Types
-----

theorem nested_filler {filler : Text} (h : ∀ c ∈ filler, isBlank c = true ∨ c ∈ memberSeparators) :
    Nested true filler := by
  apply Nested.of_forall
  intro c hMem
  rcases h c hMem with hBlank | hSeparator
  · exact .inr (.inl hBlank)
  · have hMember :
        (memberSeparators.all fun c => [',', ';', ':'].contains c) =
          true := rfl
    have hListed := all_eq_true.mp hMember c hSeparator
    exact .inr (.inr ⟨rfl, contains_iff_mem.mp hListed⟩)

theorem Divider.filler_text (divider : Divider) :
    ∀ c ∈ divider.text, isBlank c = true ∨ c ∈ memberSeparators := by
  intro c hMem
  rcases mem_append.mp hMem with hGap | hRest
  · exact .inl (divider.gap.property c hGap)
  · rcases mem_cons.mp hRest with rfl | hFiller
    · exact .inr divider.separator.property
    · exact divider.filler.property c hFiller

theorem Divider.nested_text (divider : Divider) :
    Nested true divider.text :=
  nested_filler divider.filler_text

theorem MemberHead.nested_modifier (head : MemberHead) {inside : Bool} :
    Nested inside head.modifier := by
  unfold MemberHead.modifier
  split
  · next gap _ =>
    have hWord : Text.IsWord "readonly" := .of_isIdentifier rfl
    have hBlank : Nested inside [' '] := .flat (.inr (.inl rfl))
    have hModifier : Nested inside ("readonly" ++ [' ']) := (Nested.of_isWord hWord).append hBlank
    exact hModifier.append (.of_blanks gap.property)
  · exact .nil

theorem MemberHead.nested_text (head : MemberHead) :
    Nested true head.text := by
  apply head.nested_modifier.append
  apply Nested.append
  · exact .of_isWord (.of_isIdentifier head.name.property.1)
  · have hColon : Nested true [':'] := .flat (.inr (.inr ⟨rfl, by decide⟩))
    exact hColon.append (.of_blanks head.gap.property)

section Texts

variable {render : Text → Text}

mutual

/- Brackets are closed, and separators stand inside of them. -/
theorem SpelledType.nested_print (hRender : Renders render) (spelled : SpelledType) :
    Nested false (spelled.print render) := by
  cases spelled with
  | word name => exact .of_isWord (.of_isIdentifier (hRender.identifier name.val name.property))
  | array element gap =>
    have hBrackets : Nested false ['[', ']'] := Nested.bracket (by decide) .nil
    apply (element.nested_print hRender).append
    exact .append (.of_blanks gap.property) hBrackets
  | applied head args =>
    apply Nested.append
    · exact .of_isWord (.of_isIdentifier (hRender.identifier head.val head.property))
    · exact .bracket (by decide) (args.nested_print hRender)
  | shape filler members =>
    apply Nested.bracket (by decide)
    exact (nested_filler filler.property).append (members.nested_print hRender)

theorem SpelledArgs.nested_print (hRender : Renders render) (args : SpelledArgs) :
    Nested true (args.print render) := by
  cases args with
  | last before arg after =>
    apply Nested.append (.of_blanks before.property)
    apply (arg.nested_print hRender).within.append
    exact .of_blanks after.property
  | more before arg after rest =>
    have hComma : Nested true [','] := .flat (.inr (.inr ⟨rfl, by decide⟩))
    apply Nested.append
    · apply Nested.append (.of_blanks before.property)
      apply (arg.nested_print hRender).within.append
      exact .of_blanks after.property
    · exact hComma.append (rest.nested_print hRender)

theorem SpelledMembers.nested_print (hRender : Renders render) (members : SpelledMembers) :
    Nested true (members.print render) := by
  cases members with
  | last head type gap =>
    apply head.nested_text.append
    apply (type.nested_print hRender).within.append
    exact .of_blanks gap.property
  | closed head type divider =>
    apply head.nested_text.append
    apply (type.nested_print hRender).within.append
    exact divider.nested_text
  | more head type divider rest =>
    apply head.nested_text.append
    apply (type.nested_print hRender).within.append
    apply divider.nested_text.append
    exact rest.nested_print hRender

end

/- Where the text of a type starts. -/
theorem SpelledType.head?_print (hRender : Renders render) (spelled : SpelledType) :
    ∃ c, (spelled.print render).head? = some c ∧ (isWordStart c = true ∨ c = '{') := by
  have hIdentifier :
      ∀ name : Identifier, ∃ c, (render name.val).head? = some c ∧ isWordStart c = true := by
    intro name
    have hName := hRender.identifier name.val name.property
    cases hText : render name.val with
    | nil =>
      rw [hText] at hName
      cases hName
    | cons c =>
      rw [hText, isIdentifier, Bool.and_eq_true] at hName
      exact ⟨c, rfl, hName.1⟩
  cases spelled with
  | word name =>
    rcases hIdentifier name with ⟨c, hHead, hStart⟩
    exact ⟨c, hHead, .inl hStart⟩
  | array element =>
    rcases element.head?_print hRender with ⟨c, hHead, hStart⟩
    refine ⟨c, ?_, hStart⟩
    rw [SpelledType.print, head?_append, hHead]
    rfl
  | applied head =>
    rcases hIdentifier head with ⟨c, hHead, hStart⟩
    refine ⟨c, ?_, .inl hStart⟩
    rw [SpelledType.print, head?_append, hHead]
    rfl
  | shape => exact ⟨'{', rfl, .inr rfl⟩

theorem SpelledType.getLast?_print (hRender : Renders render) (spelled : SpelledType) :
    ∃ c, (spelled.print render).getLast? = some c ∧
      (isWordChar c = true ∨ c = ']' ∨ c = '>' ∨
        c = '}' ∧ ∃ filler members, spelled = .shape filler members) := by
  cases spelled with
  | word name =>
    have hWord := Text.IsWord.of_isIdentifier (hRender.identifier name.val name.property)
    refine ⟨_, getLast?_eq_some_getLast hWord.1, .inl ?_⟩
    exact all_eq_true.mp hWord.2 _ (getLast_mem hWord.1)
  | array =>
    refine ⟨']', ?_, .inr (.inl rfl)⟩
    simp [SpelledType.print]
  | applied =>
    refine ⟨'>', ?_, .inr (.inr (.inl rfl))⟩
    simp [SpelledType.print, getLast?_cons]
  | shape =>
    refine ⟨'}', ?_, .inr (.inr (.inr ⟨rfl, _, _, rfl⟩))⟩
    simp [SpelledType.print, getLast?_cons]

theorem isWordChar_of_isWordStart {c : Char} (h : isWordStart c = true) :
    isWordChar c = true := by
  have hIdentifier : isIdentifier [c] = true := by simp [isIdentifier, h]
  exact all_eq_true.mp (Text.IsWord.of_isIdentifier hIdentifier).2 c mem_cons_self

theorem SpelledType.tight_print (hRender : Renders render) (spelled : SpelledType) :
    Text.Tight (spelled.print render) := by
  rcases spelled.head?_print hRender with ⟨first, hHead, hFirst⟩
  rcases spelled.getLast?_print hRender with ⟨last, hEnd, hLast⟩
  refine ⟨⟨first, hHead, ?_⟩, ⟨last, hEnd, ?_⟩⟩
  · rcases hFirst with hStart | rfl
    · exact isBlank_eq_false_of_isWordChar (isWordChar_of_isWordStart hStart)
    · decide
  · rcases hLast with hWord | rfl | rfl | ⟨rfl, _⟩
    · exact isBlank_eq_false_of_isWordChar hWord
    · decide
    · decide
    · decide

end Texts

-----
-- Replacing Host Words
-----

theorem forall_isWordChar_of_blanks {blanks : Text} (h : ∀ c ∈ blanks, isBlank c = true) :
    ∀ c ∈ blanks, isWordChar c = false := by
  intro c hMem
  exact isWordChar_eq_false_of_isBlank (h c hMem)

theorem forall_isWordChar_of_filler
    {filler : Text} (h : ∀ c ∈ filler, isBlank c = true ∨ c ∈ memberSeparators) :
    ∀ c ∈ filler, isWordChar c = false := by
  intro c hMem
  rcases h c hMem with hBlank | hSeparator
  · exact isWordChar_eq_false_of_isBlank hBlank
  · exact (class_of_mem_memberSeparators hSeparator).2.1

/- Neither the modifier nor the name of a member is replaced. -/
theorem MemberHead.nativeForm_append (head : MemberHead) (rest : Text) :
    nativeForm (head.text ++ rest) = head.text ++ nativeForm rest := by
  have hName : nativeForm head.name.val = head.name.val := by
    rw [nativeForm_word head.name.property.1, nativeWord_fieldName]
  have hGap := forall_isWordChar_of_blanks head.gap.property
  have hField :
      nativeForm (head.name.val ++ ':' :: (head.gap.val ++ rest)) =
        head.name.val ++ ':' :: (head.gap.val ++ nativeForm rest) := by
    unfold nativeForm at hName ⊢
    rw [mapWords_append_mark _ rfl, hName, mapWords_marks_append _ hGap]
  have hText :
      ∀ text : Text,
        head.text ++ text = head.modifier ++ (head.name.val ++ ':' :: (head.gap.val ++ text)) := by
    simp [MemberHead.text]
  rw [hText, hText]
  cases hModifier : head.modifier? with
  | none =>
    simp only [MemberHead.modifier, hModifier, nil_append]
    exact hField
  | some gap =>
    have hBlanks := forall_isWordChar_of_blanks gap.property
    have hReadonly : mapWords hostWord "readonly" = "readonly" := by decide
    simp only [MemberHead.modifier, hModifier, append_assoc]
    unfold nativeForm at hField ⊢
    show mapWords _ ("readonly".toList ++ ' ' :: (gap.val ++ _)) =
      "readonly".toList ++ ' ' :: (gap.val ++ _)
    rw [mapWords_append_mark _ rfl, hReadonly, mapWords_marks_append _ hBlanks, hField]

theorem Divider.nativeForm_append (divider : Divider) (front back : Text) :
    nativeForm (front ++ (divider.text ++ back)) =
      nativeForm front ++ (divider.text ++ nativeForm back) := by
  have hMarks := forall_isWordChar_of_filler divider.filler_text
  have hNonempty : divider.text ≠ [] := by simp [Divider.text]
  unfold nativeForm
  rw [mapWords_append _ _ ((Text.Apart.of_marks hMarks).append hNonempty),
    mapWords_marks_append _ hMarks]

section Native

variable {render : Text → Text}

mutual

/- Replacing host words in a text replaces them in the type. -/
theorem SpelledType.nativeForm_print (hRender : Renders render) (spelled : SpelledType) :
    nativeForm (spelled.print render) = spelled.print nativeWord := by
  cases spelled with
  | word name =>
    simp only [SpelledType.print]
    rw [nativeForm_word (hRender.identifier name.val name.property), hRender.native]
  | array element gap =>
    have hMarks : ∀ c ∈ gap.val ++ ['[', ']'], isWordChar c = false :=
      forall_mem_append.mpr
        ⟨forall_isWordChar_of_blanks gap.property,
          forall_mem_cons.mpr ⟨rfl, forall_mem_singleton.mpr rfl⟩⟩
    have hElement := element.nativeForm_print hRender
    unfold nativeForm at hElement ⊢
    simp only [SpelledType.print]
    rw [mapWords_append _ _ (.of_marks hMarks), mapWords_marks _ hMarks, hElement]
  | applied head args =>
    have hHead : nativeForm (render head.val) = nativeWord head.val := by
      rw [nativeForm_word (hRender.identifier head.val head.property), hRender.native]
    have hArgs := args.nativeForm_print hRender
    unfold nativeForm at hHead hArgs ⊢
    simp only [SpelledType.print]
    rw [mapWords_append_mark _ rfl, hHead, mapWords_append_mark _ rfl, hArgs]
    rfl
  | shape filler members =>
    have hMarks : ∀ c ∈ '{' :: filler.val, isWordChar c = false :=
      forall_mem_cons.mpr ⟨rfl, forall_isWordChar_of_filler filler.property⟩
    have hMembers := members.nativeForm_print hRender
    have hText :
        ∀ text : Text,
          '{' :: (filler.val ++ text ++ ['}']) = '{' :: filler.val ++ (text ++ '}' :: []) := by
      simp
    unfold nativeForm at hMembers ⊢
    simp only [SpelledType.print]
    rw [hText, mapWords_marks_append _ hMarks, mapWords_append_mark _ rfl, hMembers, hText]
    rfl

theorem SpelledArgs.nativeForm_print (hRender : Renders render) (args : SpelledArgs) :
    nativeForm (args.print render) = args.print nativeWord := by
  cases args with
  | last before arg after =>
    have hArg := arg.nativeForm_print hRender
    unfold nativeForm at hArg ⊢
    simp only [SpelledArgs.print]
    rw [mapWords_between _ (forall_isWordChar_of_blanks before.property) _
        (forall_isWordChar_of_blanks after.property),
      hArg]
  | more before arg after rest =>
    have hArg := arg.nativeForm_print hRender
    have hRest := rest.nativeForm_print hRender
    unfold nativeForm at hArg hRest ⊢
    simp only [SpelledArgs.print]
    rw [mapWords_append_mark _ rfl, hRest,
      mapWords_between _ (forall_isWordChar_of_blanks before.property) _
        (forall_isWordChar_of_blanks after.property),
      hArg]

theorem SpelledMembers.nativeForm_print (hRender : Renders render) (members : SpelledMembers) :
    nativeForm (members.print render) = members.print nativeWord := by
  cases members with
  | last head type gap =>
    have hType := type.nativeForm_print hRender
    have hGap := forall_isWordChar_of_blanks gap.property
    simp only [SpelledMembers.print]
    rw [head.nativeForm_append]
    unfold nativeForm at hType ⊢
    rw [mapWords_append _ _ (.of_marks hGap), mapWords_marks _ hGap, hType]
  | closed head type divider =>
    have hNative := divider.nativeForm_append (type.print render) []
    simp only [append_nil] at hNative
    simp only [SpelledMembers.print]
    rw [head.nativeForm_append, hNative, type.nativeForm_print hRender]
    simp [nativeForm, mapWords, pieces]
  | more head type divider rest =>
    simp only [SpelledMembers.print]
    rw [head.nativeForm_append, divider.nativeForm_append,
      type.nativeForm_print hRender, rest.nativeForm_print hRender]

end

end Native

end ScriptLowering
