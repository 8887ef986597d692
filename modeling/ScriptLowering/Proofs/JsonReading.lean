import Mathlib.Data.List.Chain
import Mathlib.Data.List.TakeWhile
import ScriptLowering.Json.Reader
import ScriptLowering.Json.Writer

/-
  A JSON text that was written is read as the value it was
  written for. Tokens are found again because no two atoms
  stand side by side, and because every literal ends at the
  first quote that no backslash precedes. Values are found
  again because their tokens leave the reader where a
  finished value of its stack would leave it.

  Key theorems include:
    * `JsonState.run?_tokens`
    * `Json.read?_render`
-/

namespace ScriptLowering

open Text Json List

-----
-- Numbers
-----

namespace Text

/- Decimal digits are read as the number they spell. -/
theorem readDigits?_of_isDigit {text : Text} (h : ∀ c ∈ text, c.isDigit = true) (value : Nat) :
    readDigits? 10 value text = some (Nat.ofDigitChars 10 text value) := by
  induction text generalizing value with
  | nil => rfl
  | cons c _ ih =>
    have hDigit := h c (by simp)
    have hBelow : c.toNat - '0'.toNat < 10 := by
      simp only [Char.isDigit, Bool.and_eq_true, decide_eq_true_eq] at hDigit
      have hUpper : c.toNat ≤ 57 := hDigit.2
      have hZero : '0'.toNat = 48 := rfl
      omega
    have hRest := ih fun d hMem => h d (by simp [hMem])
    simp only [readDigits?, digitValue?, if_pos hDigit, if_pos hBelow, hRest]
    simp [Nat.ofDigitChars, Nat.mul_comm]

theorem isDigit_of_mem_ofNat {n : Nat} {c : Char} (h : c ∈ ofNat n) :
    c.isDigit = true :=
  Nat.isDigit_of_mem_toDigits (by omega) (by omega) h

theorem ofNat_ne_nil (n : Nat) :
    ofNat n ≠ [] :=
  Nat.toDigits_ne_nil

theorem readDigits?_ofNat (n : Nat) :
    readDigits? 10 0 (ofNat n) = some n := by
  rw [readDigits?_of_isDigit fun c => isDigit_of_mem_ofNat]
  simp [ofNat]

/- A number above zero begins with another digit than zero. -/
theorem head?_ofNat_ne_zero {n : Nat} (h : 0 < n) :
    (ofNat n).head? ≠ some '0' := by
  induction n using Nat.strongRecOn with
  | ind n ih =>
    have hDigits := Nat.toDigits_eq_if (b := 10) (n := n) (by omega)
    by_cases hSmall : n < 10
    · have hNonzero : ∀ d < 10, 0 < d → [d.digitChar].head? ≠ some '0' := by decide
      rw [ofNat, hDigits, if_pos hSmall]
      exact hNonzero n hSmall h
    · rw [ofNat, hDigits, if_neg hSmall, head?_append_of_ne_nil _ Nat.toDigits_ne_nil]
      exact ih (n / 10) (by omega) (by omega)

end Text

namespace JsonText

theorem isMagnitude_ofNat (n : Nat) :
    isMagnitude (ofNat n) = true := by
  have hDigits : ∀ c ∈ ofNat n, c.isDigit = true := fun c => isDigit_of_mem_ofNat
  have hTake : (ofNat n).takeWhile Char.isDigit = ofNat n := takeWhile_eq_self_iff.mpr hDigits
  have hDrop : (ofNat n).dropWhile Char.isDigit = [] := dropWhile_eq_nil_iff.mpr hDigits
  have hWhole : isWhole (ofNat n) = true := by
    have hLeading : (ofNat n).length = 1 ∨ (ofNat n).head? ≠ some '0' := by
      rcases Nat.eq_zero_or_pos n with rfl | hPositive
      · exact .inl rfl
      · exact .inr (head?_ofNat_ne_zero hPositive)
    have hSome : (ofNat n).isEmpty = false := by simpa using ofNat_ne_nil n
    have hAll : (ofNat n).all Char.isDigit = true := by simpa using hDigits
    simpa [isWhole, isDigits, hSome, hAll] using hLeading
  rw [isMagnitude, hTake, hDrop, hWhole]
  rfl

theorem all_isDigit_ofNat (n : Nat) :
    (ofNat n).all Char.isDigit = true :=
  all_eq_true.mpr fun _ => isDigit_of_mem_ofNat

/- An integer is read back from its digits. -/
theorem readNumber?_ofInt (value : Int) :
    readNumber? (ofInt value) = some (.integer value) := by
  cases value with
  | ofNat n =>
    have hUnsigned : ∀ rest, ofNat n ≠ '-' :: rest := by
      intro rest hText
      have hDigit : '-'.isDigit = true := isDigit_of_mem_ofNat (n := n) (by simp [hText])
      cases hDigit
    rw [ofInt, readNumber?]
    · simp [isMagnitude_ofNat, all_isDigit_ofNat, readDigits?_ofNat]
    · exact hUnsigned
  | negSucc n =>
    change readNumber? ('-' :: ofNat (n + 1)) = _
    simp only [readNumber?, isMagnitude_ofNat, all_isDigit_ofNat, readDigits?_ofNat, if_true]
    rfl

end JsonText

-----
-- Tokens
-----

/-
  Tokens that are read as they are written: literals whose
  escapes are well formed, and the words and integers.
-/
def JsonToken.IsLegible : JsonToken → Prop
  | .literal text => JsonText.isLiteral text = true
  | .atom .null => True
  | .atom (.bool _) => True
  | .atom (.integer _) => True
  | .atom _ => False
  | _ => True

@[simp] theorem JsonToken.isLegible_literal (text : Text) :
    (literal text).IsLegible ↔ JsonText.isLiteral text = true :=
  Iff.rfl

@[simp] theorem JsonToken.isLegible_punctuation :
    beginArray.IsLegible ∧ endArray.IsLegible ∧ beginObject.IsLegible ∧ endObject.IsLegible ∧
      comma.IsLegible ∧ colon.IsLegible :=
  ⟨trivial, trivial, trivial, trivial, trivial, trivial⟩

def JsonToken.IsAtom : JsonToken → Prop
  | .atom _ => True
  | _ => False

/- Whether two tokens need no blank between them. -/
def JsonToken.Abut (left right : JsonToken) : Prop :=
  left.IsAtom → ¬ right.IsAtom

namespace JsonMode

open JsonText

/- Characters that only lengthen a token are collected. -/
theorem tokensFrom?_collect
    {mode : Text → JsonMode} {part : Text}
    (h : ∀ c ∈ part, ∀ seen, (mode seen).step? c = some (mode (c :: seen), [])) (seen : Text)
    (reversed : List JsonToken) (rest : Text) :
    tokensFrom? (mode seen) reversed (part ++ rest) =
      tokensFrom? (mode (part.reverse ++ seen)) reversed rest := by
  induction part generalizing seen with
  | nil => rfl
  | cons c _ ih =>
    have hRest := ih fun d hMem => h d (by simp [hMem])
    rw [cons_append, tokensFrom?, h c (by simp) seen]
    simp [hRest]

variable {c : Char} {rest : Text} {value : Json}

/-
  An atom ends where the text ends, or at a character that
  does not belong to it, which is then read afresh.
-/
theorem tokensFrom?_atom
    {mode : Text → JsonMode} {part : Text} (hStart : start? c = some (mode [c], []))
    (hCollect : ∀ d ∈ part, ∀ seen, (mode seen).step? d = some (mode (d :: seen), []))
    (hFinish : (mode (c :: part).reverse).finish? = some [.atom value])
    (hStop : ∀ d ∈ rest.head?, (mode (c :: part).reverse).step? d = startAfter? (some value) d)
    (reversed : List JsonToken) :
    tokensFrom? .between reversed (c :: part ++ rest) =
      tokensFrom? .between (.atom value :: reversed) rest := by
  rw [reverse_cons] at hFinish hStop
  rw [cons_append, tokensFrom?, step?, hStart]
  simp only [reverse_nil, nil_append, tokensFrom?_collect hCollect]
  cases rest with
  | nil =>
    rw [tokensFrom?, tokensFrom?, hFinish]
    simp [finish?]
  | cons d =>
    rw [tokensFrom?, tokensFrom?, hStop d rfl]
    cases hNext : start? d with
    | none | some => simp [startAfter?, step?, hNext]

/- The characters that tokens other than atoms begin with. -/
def marks : Text :=
  ['[', ']', '\x7b', '\x7d', ',', ':', '"']

theorem not_collected_of_mem_marks (h : c ∈ marks) :
    c.isLower = false ∧ isNumberChar c = false := by
  have hAll :
      marks.all (fun c => !c.isLower && !isNumberChar c) =
        true := rfl
  simpa using all_eq_true.mp hAll c h

theorem head?_render_mem_marks {token : JsonToken} (h : ¬ token.IsAtom) (rest : Text) :
    ∃ c ∈ marks, (token.render ++ rest).head? = some c := by
  cases token with
  | atom => exact absurd trivial h
  | beginArray => exact ⟨'[', by simp [marks], rfl⟩
  | endArray => exact ⟨']', by simp [marks], rfl⟩
  | beginObject => exact ⟨'\x7b', by simp [marks], rfl⟩
  | endObject => exact ⟨'\x7d', by simp [marks], rfl⟩
  | comma => exact ⟨',', by simp [marks], rfl⟩
  | colon => exact ⟨':', by simp [marks], rfl⟩
  | literal => exact ⟨'"', by simp [marks], rfl⟩

/- A word is read when a mark or nothing follows. -/
theorem tokensFrom?_word
    {part : Text} (hStart : start? c = some (.word [c], [])) (hLower : part.all Char.isLower = true)
    (hRead : readWord? (c :: part) = some value) (hRest : ∀ d ∈ rest.head?, d ∈ marks)
    (reversed : List JsonToken) :
    tokensFrom? .between reversed (c :: part ++ rest) =
      tokensFrom? .between (.atom value :: reversed) rest := by
  refine tokensFrom?_atom hStart ?_ ?_ ?_ reversed
  · intro d hMem _
    simp [step?, all_eq_true.mp hLower d hMem]
  · simp [finish?, hRead]
  · intro d hHead
    simp [step?, hRead, (not_collected_of_mem_marks (hRest d hHead)).1]

/- So is a number. -/
theorem tokensFrom?_number
    {part : Text} (hStart : start? c = some (.number [c], []))
    (hChars : part.all isNumberChar = true) (hRead : readNumber? (c :: part) = some value)
    (hRest : ∀ d ∈ rest.head?, d ∈ marks) (reversed : List JsonToken) :
    tokensFrom? .between reversed (c :: part ++ rest) =
      tokensFrom? .between (.atom value :: reversed) rest := by
  refine tokensFrom?_atom hStart ?_ ?_ ?_ reversed
  · intro d hMem _
    simp [step?, all_eq_true.mp hChars d hMem]
  · simp [finish?, hRead]
  · intro d hHead
    simp [step?, hRead, (not_collected_of_mem_marks (hRest d hHead)).2]

theorem start?_of_isDigit (h : c.isDigit = true) :
    start? c = some (.number [c], []) := by
  have hNe : ∀ d : Char, d.isDigit = false → c ≠ d := by
    rintro d hNot rfl
    exact Bool.false_ne_true (hNot.symm.trans h)
  simp [start?, isBlank, h, hNe ' ' rfl, hNe '\t' rfl,
    hNe '\n' rfl, hNe '\r' rfl, hNe '[' rfl, hNe ']' rfl,
    hNe '\x7b' rfl, hNe '\x7d' rfl, hNe ',' rfl, hNe ':' rfl,
    hNe '"' rfl]

theorem tokensFrom?_integer
    (value : Int) (hRest : ∀ d ∈ rest.head?, d ∈ marks) (reversed : List JsonToken) :
    tokensFrom? .between reversed (ofInt value ++ rest) =
      tokensFrom? .between (.atom (.integer value) :: reversed)
        rest := by
  have hRead := readNumber?_ofInt value
  have hChars : ∀ n, (ofNat n).all isNumberChar = true := fun n =>
    all_eq_true.mpr fun _ hMem => by simp [isNumberChar, isDigit_of_mem_ofNat hMem]
  cases value with
  | ofNat n =>
    rcases exists_cons_of_ne_nil (ofNat_ne_nil n) with ⟨c, _, hText⟩
    have hDigit : c.isDigit = true := isDigit_of_mem_ofNat (n := n) (by simp [hText])
    have hPart := hChars n
    rw [ofInt] at hRead ⊢
    rw [hText] at hRead hPart ⊢
    rw [all_cons, Bool.and_eq_true] at hPart
    exact tokensFrom?_number (start?_of_isDigit hDigit) hPart.2 hRead hRest reversed
  | negSucc n => exact tokensFrom?_number rfl (hChars (n + 1)) hRead hRest reversed

/- Inside quotes, such characters are collected one by one. -/
theorem step?_string (hQuote : c ≠ '"') (hSlash : c ≠ '\\') (seen : Text) :
    (string seen).step? c = some (string (c :: seen), []) := by
  simp [step?, hQuote, hSlash]

theorem hexValue?_of_hexUnit? {a b d : Char} {unit : Nat} (h : hexUnit? a b c d = some unit) :
    ∀ e ∈ [a, b, c, d], (hexValue? e).isSome = true := by
  simp only [hexUnit?, Option.bind_eq_bind, Option.bind_eq_some_iff] at h
  rcases h with ⟨_, hA, _, hB, _, hC, _, hD, _⟩
  simp [hA, hB, hC, hD]

/- Inside quotes a well formed literal is collected whole. -/
theorem tokensFrom?_units
    {literal : Text} (h : isLiteral literal = true) (seen : Text) (reversed : List JsonToken)
    (rest : Text) :
    tokensFrom? (.string seen) reversed (literal ++ rest) =
      tokensFrom? (.string (literal.reverse ++ seen)) reversed
        rest := by
  rw [isLiteral] at h
  fun_induction units? literal generalizing seen with
  | case1 => rfl
  | case2 a b c d literal ih =>
    cases hUnit : hexUnit? a b c d with
    | none => simp [hUnit] at h
    | some =>
      have hHex := hexValue?_of_hexUnit? hUnit
      have hCollect :
          ∀ e ∈ [a, b, c, d], ∀ seen, (string seen).step? e = some (string (e :: seen), []) := by
        intro e hMem
        have hDigit := hHex e hMem
        exact step?_string (by rintro rfl; cases hDigit) (by rintro rfl; cases hDigit)
      have hDigits := tokensFrom?_collect hCollect ('u' :: '\\' :: seen) reversed (literal ++ rest)
      have hLater := ih (by simpa [hUnit] using h)
      change tokensFrom? (.string ('u' :: '\\' :: seen)) reversed
        ([a, b, c, d] ++ (literal ++ rest)) = _
      rw [hDigits, hLater]
      simp
  | case3 letter literal _ ih =>
    cases hLetter : unescape? letter with
    | none => simp [hLetter] at h
    | some =>
      have hLater := ih (by simpa [hLetter] using h)
      change tokensFrom? (.string (letter :: '\\' :: seen)) reversed (literal ++ rest) = _
      rw [hLater]
      simp
  | case4 _ _ _ _ hPlain ih =>
    have hLater := ih (by simpa using h)
    simp only [isPlain, Bool.and_eq_true, bne_iff_ne] at hPlain
    rw [cons_append, tokensFrom?, step?_string hPlain.1.1 hPlain.1.2]
    simp [hLater]
  | case5 => cases h

theorem tokensFrom?_literal
    {literal : Text} (h : isLiteral literal = true) (reversed : List JsonToken) (rest : Text) :
    tokensFrom? .between reversed ((JsonToken.literal literal).render ++ rest) =
      tokensFrom? .between (.literal literal :: reversed)
        rest := by
  have hBegin : (JsonToken.literal literal).render ++ rest = '"' :: (literal ++ '"' :: rest) := by
    simp [JsonToken.render]
  have hEnd : (string literal.reverse).step? '"' = some (.between, [.literal literal]) := by
    simp [step?, endString?, h]
  have hQuote : between.step? '"' = some (.string [], []) := rfl
  rw [hBegin, tokensFrom?, hQuote]
  simp only [reverse_nil, nil_append]
  rw [tokensFrom?_units h, append_nil, tokensFrom?, hEnd]
  rfl

/- One token is read; behind an atom, a mark must follow. -/
theorem tokensFrom?_token
    {token : JsonToken} (hLegible : token.IsLegible)
    (hRest : token.IsAtom → ∀ d ∈ rest.head?, d ∈ marks) (reversed : List JsonToken) :
    tokensFrom? .between reversed (token.render ++ rest) =
      tokensFrom? .between (token :: reversed) rest := by
  cases token with
  | literal => exact tokensFrom?_literal hLegible reversed rest
  | atom value =>
    have hMark := hRest trivial
    cases value with
    | null => exact tokensFrom?_word (c := 'n') rfl rfl rfl hMark reversed
    | bool value =>
      cases value with
      | true => exact tokensFrom?_word (c := 't') rfl rfl rfl hMark reversed
      | false => exact tokensFrom?_word (c := 'f') rfl rfl rfl hMark reversed
    | integer value => exact tokensFrom?_integer value hMark reversed
    | _ => exact absurd hLegible id
  | _ => rfl

/-
  Tokens are read back from their texts when no two atoms
  stand side by side.
-/
theorem tokensFrom?_render
    {tokens : List JsonToken} (hLegible : ∀ token ∈ tokens, token.IsLegible)
    (hAbut : tokens.IsChain JsonToken.Abut) (reversed : List JsonToken) :
    tokensFrom? .between reversed (tokens.flatMap JsonToken.render) =
      some (reversed.reverse ++ tokens) := by
  induction tokens generalizing reversed with
  | nil => simp [tokensFrom?, finish?]
  | cons token rest ih =>
    have hLater :=
      ih (fun other hMem => hLegible other (by simp [hMem])) hAbut.tail (token :: reversed)
    have hMark : token.IsAtom → ∀ d ∈ (rest.flatMap JsonToken.render).head?, d ∈ marks := by
      intro hAtom d hHead
      cases rest with
      | nil => cases hHead
      | cons next rest =>
        have hNext : ¬ next.IsAtom := (isChain_cons_cons.mp hAbut).1 hAtom
        rcases head?_render_mem_marks hNext (rest.flatMap JsonToken.render) with ⟨_, hMem, hRender⟩
        rw [flatMap_cons, hRender] at hHead
        cases hHead
        exact hMem
    rw [flatMap_cons, tokensFrom?_token (hLegible token (by simp)) hMark, hLater]
    simp

end JsonMode

-----
-- Tokens Of A Value
-----

namespace Json

/- Values all of whose tokens are read as they are written. -/
def IsLegible (json : Json) : Prop :=
  ∀ token ∈ json.tokens, token.IsLegible

theorem isLegible_ofText (text : Text) :
    (ofText text).IsLegible := by
  simp [IsLegible, ofText, tokens, JsonText.isLiteral_encode]

theorem legible_tokensOfLaterItems (items : List Json) :
    (∀ token ∈ tokensOfLaterItems items, token.IsLegible) ↔ ∀ item ∈ items, item.IsLegible := by
  induction items with
  | nil => simp [tokensOfLaterItems]
  | cons _ _ ih =>
    simp only [tokensOfLaterItems, cons_append, forall_mem_cons, forall_mem_append, ih,
      JsonToken.isLegible_punctuation, true_and, IsLegible]

/- An array is as legible as its items. -/
theorem isLegible_array (items : List Json) :
    (array items).IsLegible ↔ ∀ item ∈ items, item.IsLegible := by
  cases items with
  | nil => simp [IsLegible, tokens, tokensOfItems]
  | cons =>
    simp only [IsLegible, tokens, tokensOfItems, forall_mem_cons, forall_mem_append,
      legible_tokensOfLaterItems,
      JsonToken.isLegible_punctuation, true_and]

theorem legible_tokensOfLaterMembers (members : List (Text × Json)) :
    (∀ token ∈ tokensOfLaterMembers members, token.IsLegible) ↔
      ∀ member ∈ members, JsonText.isLiteral member.1 = true ∧ member.2.IsLegible := by
  induction members with
  | nil => simp [tokensOfLaterMembers]
  | cons _ _ ih =>
    simp only [tokensOfLaterMembers, cons_append, forall_mem_cons, forall_mem_append, ih,
      JsonToken.isLegible_punctuation,
      JsonToken.isLegible_literal, true_and, IsLegible,
      and_assoc]

/- An object is as legible as its keys and values. -/
theorem isLegible_object (members : List (Text × Json)) :
    (object members).IsLegible ↔
      ∀ member ∈ members, JsonText.isLiteral member.1 = true ∧ member.2.IsLegible := by
  cases members with
  | nil => simp [IsLegible, tokens, tokensOfMembers]
  | cons =>
    simp only [IsLegible, tokens, tokensOfMembers, cons_append, forall_mem_cons,
      forall_mem_append, legible_tokensOfLaterMembers,
      JsonToken.isLegible_punctuation,
      JsonToken.isLegible_literal, true_and, and_assoc]

theorem isChain_cons
    {token : JsonToken} {rest : List JsonToken} (hToken : ¬ token.IsAtom)
    (hRest : rest.IsChain JsonToken.Abut) :
    (token :: rest).IsChain JsonToken.Abut :=
  List.isChain_cons.mpr ⟨fun _ _ hAtom => absurd hAtom hToken, hRest⟩

theorem isChain_append
    {tokens rest : List JsonToken} (hTokens : tokens.IsChain JsonToken.Abut)
    (hRest : rest.IsChain JsonToken.Abut) (hHead : ∀ token ∈ rest.head?, ¬ token.IsAtom) :
    (tokens ++ rest).IsChain JsonToken.Abut :=
  List.isChain_append.mpr ⟨hTokens, hRest, fun _ _ token hMem _ => hHead token hMem⟩

mutual

/- No two atoms of a value stand side by side. -/
theorem isChain_tokens :
    ∀ json : Json, json.tokens.IsChain JsonToken.Abut
  | .null => .singleton _
  | .bool _ => .singleton _
  | .integer _ => .singleton _
  | .real _ => .singleton _
  | .string _ => .singleton _
  | .array [] => isChain_cons id (.singleton _)
  | .array (item :: rest) => isChain_cons id (isChain_tokensOfLaterItems (item :: rest)).tail
  | .object [] => isChain_cons id (.singleton _)
  | .object (member :: rest) => isChain_cons id (isChain_tokensOfLaterMembers (member :: rest)).tail

theorem isChain_tokensOfLaterItems :
    ∀ items : List Json, (tokensOfLaterItems items).IsChain JsonToken.Abut
  | [] => .singleton _
  | item :: rest =>
    isChain_cons id
      (isChain_append (isChain_tokens item) (isChain_tokensOfLaterItems rest)
        (by cases rest <;> rintro _ ⟨⟩ <;> exact id))

theorem isChain_tokensOfLaterMembers :
    ∀ members : List (Text × Json), (tokensOfLaterMembers members).IsChain JsonToken.Abut
  | [] => .singleton _
  | (_, value) :: rest =>
    isChain_cons id
      (isChain_cons id
        (isChain_cons id
          (isChain_append (isChain_tokens value) (isChain_tokensOfLaterMembers rest)
            (by cases rest <;> rintro _ ⟨⟩ <;> exact id))))

end

end Json

-----
-- Values
-----

namespace JsonState

theorem run?_cons (state : JsonState) (token : JsonToken) (rest : List JsonToken) :
    state.run? (token :: rest) = (state.step? token).bind fun next => next.run? rest := by
  rw [run?]
  cases state.step? token <;> rfl

/-
  The tokens of a value leave the reader where the finished
  value leaves it. Behind an item or a member, the parts
  read before it stand in reverse on the stack.
-/
mutual

theorem run?_tokens :
    ∀ (json : Json) (stack : List JsonFrame) (rest : List JsonToken),
      run? ⟨stack, .value⟩ (json.tokens ++ rest) =
        (accept? json stack).bind fun next => next.run? rest
  | .null, stack, rest => run?_cons _ _ rest
  | .bool _, stack, rest => run?_cons _ _ rest
  | .integer _, stack, rest => run?_cons _ _ rest
  | .real _, stack, rest => run?_cons _ _ rest
  | .string _, stack, rest => run?_cons _ _ rest
  | .array [], stack, rest => run?_cons _ _ rest
  | .array (item :: items), stack, rest => by
    -- Where an item may come, a value is read as anywhere else.
    refine Eq.trans ?_ (run?_tokensOfLaterItems (item :: items) [] stack rest)
    cases item <;> rfl
  | .object [], stack, rest => run?_cons _ _ rest
  | .object (member :: members), stack, rest =>
    run?_tokensOfLaterMembers (member :: members) [] stack rest

theorem run?_tokensOfLaterItems :
    ∀ (items seen : List Json) (stack : List JsonFrame) (rest : List JsonToken),
      run? ⟨.array seen :: stack, .separator⟩ (tokensOfLaterItems items ++ rest) =
        (accept? (.array (seen.reverse ++ items)) stack).bind fun next => next.run? rest
  | [], seen, stack, rest => by
    rw [append_nil]
    exact run?_cons _ _ rest
  | item :: items, seen, stack, rest => by
    have hItem := run?_tokens item (.array seen :: stack) (tokensOfLaterItems items ++ rest)
    have hLater := run?_tokensOfLaterItems items (item :: seen) stack rest
    simp only [tokensOfLaterItems, cons_append, append_assoc]
    change run? ⟨.array seen :: stack, .value⟩ _ = _
    rw [reverse_cons, append_assoc] at hLater
    rw [hItem]
    exact hLater

theorem run?_tokensOfLaterMembers :
    ∀ (members seen : List (Text × Json)) (stack : List JsonFrame) (rest : List JsonToken),
      run? ⟨.object seen :: stack, .separator⟩ (tokensOfLaterMembers members ++ rest) =
        (accept? (.object (seen.reverse ++ members)) stack).bind fun next => next.run? rest
  | [], seen, stack, rest => by
    rw [append_nil]
    exact run?_cons _ _ rest
  | (key, value) :: members, seen, stack, rest => by
    have hValue :=
      run?_tokens value (.field key seen :: stack) (tokensOfLaterMembers members ++ rest)
    have hLater := run?_tokensOfLaterMembers members ((key, value) :: seen) stack rest
    simp only [tokensOfLaterMembers, cons_append, append_assoc]
    change run? ⟨.field key seen :: stack, .value⟩ _ = _
    rw [reverse_cons, append_assoc] at hLater
    rw [hValue]
    exact hLater

end

end JsonState

/- A legible value is read back from its text. -/
theorem Json.read?_render {json : Json} (h : json.IsLegible) :
    read? json.render = some json := by
  have hTokens : JsonText.tokenize? json.render = some json.tokens :=
    JsonMode.tokensFrom?_render h json.isChain_tokens []
  have hRun := JsonState.run?_tokens json [] []
  rw [append_nil] at hRun
  rw [read?, hTokens]
  change (JsonState.start.run? json.tokens).bind _ = _
  rw [JsonState.start, hRun]
  rfl

end ScriptLowering
