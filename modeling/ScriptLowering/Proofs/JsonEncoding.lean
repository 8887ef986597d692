import Mathlib.Data.List.Forall2
import ScriptLowering.Proofs.JsonReading
import ScriptLowering.Source.Decode
import ScriptLowering.Source.Encode

/-
  Values as JSON that a decoder gives back. An encoding is
  legible, and its decoder gives the value as soon as it is
  told of as many levels as the encoding has. A record is an
  object of all its fields in order. Each field comes with
  what reads it, and a decoder that reads just these fields
  gives the value that is built from theirs.

  Key theorems include:
    * `Encodes.option`
    * `Encodes.record`
-/

namespace ScriptLowering

open Json List

variable {name : Text} {members : List (Text × Json)}

-----
-- Encodings
-----

/-
  A legible value that a decoder gives `value` for, whenever
  it is told of enough levels.
-/
structure Encodes {α : Type} (decode : Nat → Json → Option α) (json : Json) (value : α) : Prop where
  legible : json.IsLegible
  decoded :
    ∀ depth, json.depth ≤ depth → decode depth json = some value

namespace Json

@[simp] theorem isLegible_null : null.IsLegible := by
  simp [IsLegible, tokens, JsonToken.IsLegible]

@[simp] theorem isLegible_bool (value : Bool) :
    (bool value).IsLegible := by
  simp [IsLegible, tokens, JsonToken.IsLegible]

@[simp] theorem isLegible_ofNat (n : Nat) :
    (ofNat n).IsLegible := by
  simp [IsLegible, ofNat, tokens, JsonToken.IsLegible]

attribute [simp] isLegible_ofText

@[simp] theorem toText?_ofText (text : Text) :
    (ofText text).toText? = some text :=
  JsonText.decode?_encode text

@[simp] theorem toUInt32?_ofNat (n : UInt32) :
    (ofNat n.toNat).toUInt32? = some n := by
  have hBelow : n.toNat < UInt32.size := n.toNat_lt_size
  simp [ofNat, toUInt32?, toNatBelow?, hBelow]

@[simp] theorem toUInt64?_ofNat (n : UInt64) :
    (ofNat n.toNat).toUInt64? = some n := by
  have hBelow : n.toNat < UInt64.size := n.toNat_lt_size
  simp [ofNat, toUInt64?, toNatBelow?, hBelow]

end Json

-----
-- Lists And Options
-----

theorem mapM_eq_some
    {α β : Type} {decode : α → Option β} {items : List α} {values : List β}
    (h : List.Forall₂ (fun item value => decode item = some value) items values) :
    items.mapM decode = some values := by
  induction h with
  | nil => rfl
  | cons hHead _ ih => simp [mapM_cons, hHead, ih]

/- A value that may be `null`. -/
def Json.toOption? {α : Type} (decode : Json → Option α) : Json → Option (Option α)
  | .null => some none
  | json => (decode json).map some

namespace JsonRecord

variable {α : Type}

theorem optional_self (name : Text) (json : Json) (rest : JsonRecord) (decode : Json → Option α) :
    optional ((name, json) :: rest) name decode = json.toOption? decode := by
  cases json <;> simp [optional, toOption?]

end JsonRecord

-----
-- Forms Of Encodings
-----

namespace Json

theorem depth_le_of_mem_members {member : Text × Json} (h : member ∈ members) :
    member.2.depth ≤ depthOfMembers members := by
  induction members with
  | nil => cases h
  | cons _ _ ih =>
    rcases mem_cons.mp h with rfl | hRest
    · exact Nat.le_max_left _ _
    · exact Nat.le_trans (ih hRest) (Nat.le_max_right _ _)

theorem depth_le_of_mem_items {items : List Json} {item : Json} (h : item ∈ items) :
    item.depth ≤ depthOfItems items := by
  induction items with
  | nil => cases h
  | cons _ _ ih =>
    rcases mem_cons.mp h with rfl | hRest
    · exact Nat.le_max_left _ _
    · exact Nat.le_trans (ih hRest) (Nat.le_max_right _ _)

end Json

namespace Encodes

variable {α : Type} {decode : Nat → Json → Option α} {value : α}
variable {items : List Json} {values : List α}

/-
  An object is decoded with one level less for the values of
  its members.
-/
theorem object
    {members : List (Text × Json)}
    (hNames : members.all (fun member => JsonText.isLiteral member.1) = true)
    (hLegible : ∀ member ∈ members, member.2.IsLegible)
    (hDecoded : ∀ depth, (∀ member ∈ members, member.2.depth ≤ depth) →
      decode (depth + 1) (.object members) = some value) :
    Encodes decode (.object members) value := by
  constructor
  · rw [isLegible_object]
    intro member hMem
    exact ⟨all_eq_true.mp hNames member hMem, hLegible member hMem⟩
  · intro depth hDepth
    rw [Json.depth] at hDepth
    cases depth with
    | zero => cases hDepth
    | succ depth =>
      refine hDecoded depth ?_
      intro member hMem
      have hMember := depth_le_of_mem_members hMem
      omega

/- A value is built from the one that its encoding gives. -/
theorem map {β : Type} {json : Json} (build : α → β) (h : Encodes decode json value) :
    Encodes (fun depth json => (decode depth json).bind fun value => .some (build value))
      json (build value) := by
  refine ⟨h.legible, ?_⟩
  intro depth hDepth
  simp [h.decoded depth hDepth]

/- A variant is decoded as the decoder of its name does. -/
theorem variant
    {inner : Nat → Json → Option α} {content : Json} (hName : JsonText.isLiteral name = true)
    (h : Encodes inner content value)
    (hDecode : ∀ depth, decode (depth + 1) (.object [(name, content)]) = inner depth content) :
    Encodes decode (variant name content) value := by
  refine object (by simpa using hName) (by simpa using h.legible) ?_
  intro depth hDepth
  rw [hDecode]
  exact h.decoded depth (by simpa using hDepth)

theorem legible_of_forall₂ (h : List.Forall₂ (Encodes decode) items values) :
    ∀ item ∈ items, item.IsLegible := by
  induction h with
  | nil => simp
  | cons hHead _ ih => simpa using ⟨hHead.legible, ih⟩

theorem decoded_of_forall₂
    {depth : Nat} (h : List.Forall₂ (Encodes decode) items values)
    (hDepth : ∀ item ∈ items, item.depth ≤ depth) :
    items.mapM (decode depth) = some values := by
  refine mapM_eq_some ?_
  induction h with
  | nil => exact .nil
  | cons hHead _ ih =>
    rw [forall_mem_cons] at hDepth
    exact .cons (hHead.decoded depth hDepth.1) (ih hDepth.2)

/- The items of an array are decoded one after the other. -/
theorem array
    {decodeAll : Nat → Json → Option (List α)}
    (hAll : ∀ depth, decodeAll (depth + 1) (.array items) = items.mapM (decode depth))
    (h : List.Forall₂ (Encodes decode) items values) :
    Encodes decodeAll (.array items) values := by
  constructor
  · rw [isLegible_array]
    exact legible_of_forall₂ h
  · intro depth hDepth
    rw [Json.depth] at hDepth
    cases depth with
    | zero => cases hDepth
    | succ =>
      rw [hAll]
      refine decoded_of_forall₂ h ?_
      intro item hMem
      have hItem := depth_le_of_mem_items hMem
      omega

/- An array of values that are all encoded in one way. -/
theorem list
    {encode : α → Json} (h : ∀ value, Encodes decode (encode value) value) (values : List α) :
    Encodes (toList? decode) (.array (values.map encode))
      values := by
  refine array (fun _ => rfl) ?_
  rw [forall₂_map_left_iff, forall₂_same]
  exact fun value _ => h value

theorem none :
    Encodes (fun depth => toOption? (decode depth)) .null
      none :=
  ⟨isLegible_null, fun _ _ => rfl⟩

theorem some {json : Json} (hNull : json ≠ .null) (h : Encodes decode json value) :
    Encodes (fun depth => toOption? (decode depth)) json (some value) := by
  refine ⟨h.legible, ?_⟩
  intro depth hDepth
  have hDecoded := h.decoded depth hDepth
  cases json with
  | null => exact absurd rfl hNull
  | _ => simp [toOption?, hDecoded]

/- An optional value, none of which is encoded as `null`. -/
theorem option
    {encode : α → Json} (hNull : ∀ value, encode value ≠ .null)
    (h : ∀ value, Encodes decode (encode value) value) (value? : Option α) :
    Encodes (fun depth => toOption? (decode depth)) (ofOption encode value?) value? := by
  cases value? with
  | none => exact .none
  | some value => exact .some (hNull value) (h value)

end Encodes

theorem encodes_text (text : Text) :
    Encodes (fun _ => toText?) (.ofText text) text :=
  ⟨isLegible_ofText text, fun _ _ => toText?_ofText text⟩

theorem encodes_bool (value : Bool) :
    Encodes (fun _ => toBool?) (.bool value) value :=
  ⟨isLegible_bool value, fun _ _ => rfl⟩

theorem encodes_uint32 (n : UInt32) :
    Encodes (fun _ => toUInt32?) (.ofNat n.toNat) n :=
  ⟨isLegible_ofNat _, fun _ _ => toUInt32?_ofNat n⟩

theorem encodes_uint64 (n : UInt64) :
    Encodes (fun _ => toUInt64?) (.ofNat n.toNat) n :=
  ⟨isLegible_ofNat _, fun _ _ => toUInt64?_ofNat n⟩

/- Operators and keywords are told by their names. -/
theorem encodes_unit
    {α : Type} {decode : Nat → Json → Option α} {ofName? : Text → Option α} {value : α}
    (hDecode : ∀ depth json, decode depth json = (json.toUnitVariant? depth).bind ofName?)
    (hName : ofName? name = some value) :
    Encodes decode (.ofText name) value := by
  refine ⟨isLegible_ofText _, ?_⟩
  intro depth _
  simp [hDecode, toUnitVariant?, toVariant?, ofText, JsonText.decode?_encode, hName]

-----
-- Fields Of Records
-----

/-
  A field of a record: its name, what encodes its value, and
  how the decoder of the record reads it.
-/
structure EncodedField where
  {α : Type}
  name : Text
  json : Json
  read : Nat → Option α
  value : α
  legible : json.IsLegible
  reads : ∀ depth, json.depth ≤ depth → read depth = some value

namespace EncodedField

variable {α β : Type} {decode : Nat → Json → Option α} {json : Json}

def of (name : Text) {value : α} (h : Encodes decode json value) : EncodedField where
  name := name
  json := json
  read := fun depth => decode depth json
  value := value
  legible := h.legible
  reads := h.decoded

/- A field that may be missing or `null`. -/
def optional
    (name : Text) {value? : Option α}
    (h : Encodes (fun depth => toOption? (decode depth)) json value?) :
    EncodedField where
  name := name
  json := json
  read := fun depth =>
    JsonRecord.optional [(name, json)] name (decode depth)
  value := value?
  legible := h.legible
  reads := by
    intro depth hDepth
    rw [JsonRecord.optional_self]
    exact h.decoded depth hDepth

def member (field : EncodedField) : Text × Json :=
  (field.name, field.json)

/- What makes a value out of those of the fields. -/
def Builder (β : Type) : List EncodedField → Type
  | [] => β
  | field :: rest => field.α → Builder β rest

/- The value that is built once all fields are read. -/
def readAll (depth : Nat) :
    (fields : List EncodedField) → Builder β fields → Option β
  | [], value => some value
  | field :: rest, build =>
      (field.read depth).bind fun value => readAll depth rest (build value)

def build :
    (fields : List EncodedField) → Builder β fields → β
  | [], value => value
  | field :: rest, make => build rest (make field.value)

theorem readAll_eq
    {depth : Nat} (fields : List EncodedField) (make : Builder β fields)
    (h : ∀ field ∈ fields, field.json.depth ≤ depth) :
    readAll depth fields make = some (build fields make) := by
  induction fields with
  | nil => rfl
  | cons field _ ih =>
    rw [forall_mem_cons] at h
    rw [readAll, field.reads depth h.1]
    exact ih (make field.value) h.2

end EncodedField

/- A record whose decoder reads the given fields in order. -/
theorem Encodes.record
    {α : Type} {decode : Nat → Json → Option α} (fields : List EncodedField)
    (make : EncodedField.Builder α fields)
    (hNames : fields.all (fun field => JsonText.isLiteral field.name) = true)
    (hDecode : ∀ depth,
      decode (depth + 1) (.object (fields.map EncodedField.member)) =
        EncodedField.readAll depth fields make) :
    Encodes decode (.object (fields.map EncodedField.member)) (EncodedField.build fields make) := by
  refine object ?_ ?_ ?_
  · rwa [all_map]
  · rw [forall_mem_map]
    exact fun field _ => field.legible
  · intro depth hDepth
    rw [forall_mem_map] at hDepth
    rw [hDecode]
    exact EncodedField.readAll_eq fields make hDepth

end ScriptLowering
