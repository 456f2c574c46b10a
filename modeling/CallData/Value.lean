import CallData.Schema
import CallData.Value.Address
import CallData.Value.Amount
import CallData.Value.Metadata

/-!
# Typed values

A `Value` holds what its type allows, together with what is needed to decode another value of the
same type in its place: the item type of a sequence, the table of an enum, the names open to an
explicit enum, the item type of an option. The last three may be unknown. Each type has a
placeholder, which is zero, empty or absent all over.

Two values are the same (`==`) when they hold the same; what they carry for decoding does not
count.
-/

namespace CallData

/-- A typed value. -/
inductive Value where
  /-- An integer of a fixed width. -/
  | int (value : FixedInt)
  /-- An integer of any size. -/
  | big (value : BigInteger)
  /-- A truth value. -/
  | bool (value : Bool)
  /-- A byte string. -/
  | bytes (value : Bytes)
  /-- A text. -/
  | str (value : String)
  /-- An account address. -/
  | address (value : Address)
  /-- A decimal. -/
  | decimal (value : Amount)
  /-- The metadata of a contract's code. -/
  | metadata (value : CodeMetadata)
  /-- A sequence whose length is its own. -/
  | list (itemType : ValueType) (items : List Value)
  /-- A sequence whose length its type declares. -/
  | array (itemType : ValueType) (length : Nat) (items : List Value)
  /-- Named fields. -/
  | struct (name : String) (fields : List (Field Value))
  /-- Items told apart by their position. -/
  | tuple (items : List Value)
  /-- A variant and its fields. -/
  | enum (table : Option EnumType) (discriminant : UInt8) (fields : List (Field Value))
  /-- A name. -/
  | explicit (variants : Option (List String)) (name : String)
  /-- A value that may be absent. -/
  | option (itemType : Option ValueType) (held : Option Value)

/-! ### Placeholders -/

mutual

/-- The value of a type that is zero, empty or absent all over; an enum holds its first variant. -/
def ValueType.placeholder : ValueType → Value
  | .int width signed => .int (.zero width signed)
  | .big signed => .big (.zero signed)
  | .bool => .bool false
  | .bytes => .bytes []
  | .str => .str ""
  | .address => .address .zero
  | .decimal scale => .decimal (.zero scale)
  | .metadata => .metadata .none
  | .list item => .list item []
  | .array item length => .array item length (List.replicate length item.placeholder)
  | .struct name fields => .struct name (placeholderFields fields)
  | .tuple items => .tuple (placeholderItems items)
  | .enum table => .enum (some table) table.firstDiscriminant (placeholderTable table).firstFields
  | .explicit _ variants => .explicit (some variants) (variants.headD "")
  | .option item => .option (some item) none

/-- Placeholders under the names of typed fields. -/
def placeholderFields : List (Field ValueType) → List (Field Value)
  | [] => []
  | ⟨name, type⟩ :: fields => ⟨name, type.placeholder⟩ :: placeholderFields fields

/-- Placeholders of some types. -/
def placeholderItems : List ValueType → List Value
  | [] => []
  | type :: types => type.placeholder :: placeholderItems types

/-- Placeholders throughout a table. -/
def placeholderTable : EnumTable ValueType → EnumTable Value
  | ⟨name, variants⟩ => ⟨name, placeholderVariants variants⟩

/-- Placeholders for the fields of some variants. -/
def placeholderVariants : List (Variant ValueType) → List (Variant Value)
  | [] => []
  | ⟨discriminant, name, fields⟩ :: variants =>
    ⟨discriminant, name, placeholderFields fields⟩ :: placeholderVariants variants

end

namespace Value

/-! ### Sameness -/

mutual

/-- Whether two values hold the same. -/
def same : Value → Value → Bool
  | .int a, .int b => a == b
  | .big a, .big b => a == b
  | .bool a, .bool b => a == b
  | .bytes a, .bytes b => a == b
  | .str a, .str b => a == b
  | .address a, .address b => a == b
  | .decimal a, .decimal b => a == b
  | .metadata a, .metadata b => a == b
  | .list _ as, .list _ bs => sameItems as bs
  | .array _ m as, .array _ n bs => m == n && sameItems as bs
  | .struct a as, .struct b bs => a == b && sameFields as bs
  | .tuple as, .tuple bs => sameItems as bs
  | .enum _ a as, .enum _ b bs => a == b && sameFields as bs
  | .explicit _ a, .explicit _ b => a == b
  | .option _ none, .option _ none => true
  | .option _ (some a), .option _ (some b) => same a b
  | _, _ => false

/-- Whether two sequences hold the same values in the same order. -/
def sameItems : List Value → List Value → Bool
  | [], [] => true
  | a :: as, b :: bs => same a b && sameItems as bs
  | _, _ => false

/-- Whether two rows of fields hold the same values under the same names in the same order. -/
def sameFields : List (Field Value) → List (Field Value) → Bool
  | [], [] => true
  | ⟨m, a⟩ :: as, ⟨n, b⟩ :: bs => m == n && same a b && sameFields as bs
  | _, _ => false

end

instance : BEq Value :=
  ⟨same⟩

/-! ### Names and parts -/

/-- The kind of a value, in words. -/
def kindName : Value → String
  | int _ => "fixed-width integer"
  | big _ => "big integer"
  | bool _ => "bool"
  | bytes _ => "bytes"
  | str _ => "string"
  | address _ => "address"
  | decimal _ => "decimal"
  | metadata _ => "code metadata"
  | list .. => "list"
  | array .. => "array"
  | struct .. => "struct"
  | tuple _ => "tuple"
  | enum .. => "enum"
  | explicit .. => "explicit enum"
  | option .. => "option"

/-- The name of the variant that an enum value with this table and discriminant shows, if its
table is known and has one. -/
def variantName? (table : Option EnumType) (discriminant : UInt8) : Option String := do
  let v ← (← table).variants.find? fun v => v.discriminant == discriminant
  return v.name

/-! ### Checked construction -/

/-- A sequence of a declared length. -/
def ofArray (itemType : ValueType) (length : Nat) (items : List Value) :
    Except CodecError Value := do
  checkLength length items.length
  return .array itemType length items

/-- Checks that fields go by the names that a variant declares, in the same order. -/
def checkNames : List (Field ValueType) → List (Field Value) → Except CodecError Unit
  | d :: ds, f :: fs => if d.name = f.name then checkNames ds fs else fail (.missingField d.name)
  | _, _ => .ok ()

/-- The variant of a table with a discriminant, with the given values for its fields. -/
def ofVariant (table : EnumType) (discriminant : UInt8) (fields : List (Field Value)) :
    Except CodecError Value := do
  let v ← table.variant discriminant
  checkLength v.fields.length fields.length
  checkNames v.fields fields
  return .enum (some table) discriminant fields

/-- An enum value turned to a discriminant: with the fields held, or with placeholders. -/
def ofSelection (table : Option EnumType) (current : UInt8) (held : List (Field Value))
    (discriminant : UInt8) : Except CodecError Value := do
  let fields ← EnumTable.select (table.map placeholderTable) current held discriminant
  return .enum table discriminant fields

/-- The value that an explicit enum takes on with a name, which has to be among the names open to
it where these are known. -/
def ofName (variants : Option (List String)) (name : String) : Except CodecError Value :=
  match variants with
  | some names =>
    if name ∈ names then .ok (.explicit variants name) else fail (.unknownVariant s!"`{name}`")
  | none => .ok (.explicit none name)

/-- The value of the first field of a name. -/
def field? (fields : List (Field Value)) (name : String) : Option Value :=
  (fields.find? fun f => f.name == name).map Field.value

end Value

end CallData
