import CallData.Native
import CallData.Value.Decode

/-!
# Typed values and native values

Native values fill typed values in: by type, or in place of a value that carries what its type
leaves to it. Fields come from a record by their names or from a sequence by their positions; an
enum further names its variant, in a record under `Value.discriminantKey` and in a sequence at
the front, and a variant without fields may be given by that name alone.
-/

namespace CallData

open NativeValue

/-- A way to make a value of one type from a native value. -/
abbrev Filler := NativeValue → Except CodecError Value

/-! ### Single values -/

/-- Puts the integer that a native value is in place of the one held, if it is within the
bounds. -/
def FixedInt.assignNative (n : NativeValue) : Update Unit := do
  assign (← lift n.toInt)

namespace Value

/-- An integer of a fixed width from a native value. -/
def intOfNative (width : IntWidth) (signed : Bool) (n : NativeValue) :
    Except CodecError Value := do
  return .int (← (FixedInt.zero width signed).updated (FixedInt.assignNative n))

/-- An integer of any size from a native value. -/
def bigOfNative (signed : Bool) (n : NativeValue) : Except CodecError Value := do
  return .big (← BigInteger.ofInt signed (← n.toInt))

/-- The truth value that a native value has to be. -/
def flagOfNative (n : NativeValue) : Except CodecError Bool :=
  match n with
  | .bool b => .ok b
  | _ => n.mismatch "bool"

/-- A byte string from native bytes, or from the UTF-8 form of a text. -/
def bytesOfNative (n : NativeValue) : Except CodecError Value :=
  match n with
  | .bytes bs => .ok (.bytes bs)
  | .str s => .ok (.bytes (Utf8.encode s))
  | _ => n.mismatch "bytes"

/-- A text from a native text, or from its UTF-8 form. -/
def strOfNative (n : NativeValue) : Except CodecError Value :=
  match n with
  | .str s => .ok (.str s)
  | .bytes bs => return .str (← textOfTop bs)
  | _ => n.mismatch "string"

/-- An address from its bytes, or from their hexadecimal form. -/
def addressOfNative (n : NativeValue) : Except CodecError Value :=
  match n with
  | .bytes bs => return .address (← Address.ofBytes bs)
  | .str s => return .address (← Address.ofHex s)
  | _ => n.mismatch "address"

/-- A decimal from a native decimal, from the text of one, or from a whole number. -/
def decimalOfNative (scale : Option UInt32) (n : NativeValue) : Except CodecError Value :=
  match n with
  | .decimal d => .ok (.decimal (.ofDecimal scale d))
  | .str s => return .decimal (.ofDecimal scale (← Decimal.parse s))
  | .int i => do
    checkBounds i 0 none
    return .decimal (.ofDecimal scale (.ofNat i.toNat (scale.getD 0)))
  | _ => n.mismatch "decimal"

/-- Sets the given flags one after the other to what a record says of them. -/
def flagsOfRecord (r : Record NativeValue) :
    List MetadataFlag → CodeMetadata → Except CodecError CodeMetadata
  | [], m => .ok m
  | f :: flags, m => do
    let n ← require r f.name
    let on ← inside (.field f.name) (flagOfNative n)
    flagsOfRecord r flags (m.set f on)

/-- Code metadata from its two bytes, or from a record of all its flags. -/
def metadataOfNative (n : NativeValue) : Except CodecError Value :=
  match n with
  | .bytes bs =>
    match CodeMetadata.ofBytes? bs with
    | some m => .ok (.metadata m)
    | none => fail (.lengthMismatch 2 bs.length)
  | .record r => return .metadata (← flagsOfRecord r MetadataFlag.all .none)
  | _ => n.mismatch "code metadata"

/-- An explicit enum from the name of its variant. -/
def explicitOfNative (variants : Option (List String)) (n : NativeValue) :
    Except CodecError Value :=
  match n with
  | .str s => ofName variants s
  | _ => n.mismatch "variant name"

/-! ### Values made of others -/

/-- Makes a value from each native value, the first of them at index `i`. -/
def eachOfNative {α : Type} (fill : NativeValue → Except CodecError α) (i : Nat) :
    List NativeValue → Except CodecError (List α)
  | [] => .ok []
  | n :: natives => do
    let v ← inside (.index i) (fill n)
    return v :: (← eachOfNative fill (i + 1) natives)

/-- The items of a list or an array. Bytes stand for a sequence of byte-sized numbers. -/
def itemsOfNative (itemType : ValueType) (fill : Filler) (n : NativeValue) :
    Except CodecError (List Value) :=
  match n, itemType with
  | .seq natives, _ => eachOfNative fill 0 natives
  | .bytes bs, .int .w8 false => .ok (bs.map fun b => .int (.ofOctet b))
  | _, _ => n.mismatch "sequence"

/-- Makes values from as many native values, the first of them at index `i`. -/
def zipItems {α : Type} (i : Nat) :
    List (NativeValue → Except CodecError α) → List NativeValue → Except CodecError (List α)
  | fill :: fillers, n :: natives => do
    let v ← inside (.index i) (fill n)
    return v :: (← zipItems (i + 1) fillers natives)
  | _, _ => .ok []

/-- Values told apart by their position, from a sequence of as many native values. -/
def itemsByPosition {α : Type} (fillers : List (NativeValue → Except CodecError α))
    (n : NativeValue) : Except CodecError (List α) := do
  let natives ← n.items
  checkLength fillers.length natives.length
  zipItems 0 fillers natives

/-- Makes fields from as many native values. -/
def zipFields : List (Field Filler) → List NativeValue → Except CodecError (List (Field Value))
  | ⟨name, fill⟩ :: fields, n :: natives => do
    let v ← inside (.field name) (fill n)
    return ⟨name, v⟩ :: (← zipFields fields natives)
  | _, _ => .ok []

/-- Fields from as many native values, by position. -/
def fieldsByPosition (fields : List (Field Filler)) (natives : List NativeValue) :
    Except CodecError (List (Field Value)) := do
  checkLength fields.length natives.length
  zipFields fields natives

/-- Fields from a record, by name. -/
def fieldsByName (r : Record NativeValue) :
    List (Field Filler) → Except CodecError (List (Field Value))
  | [] => .ok []
  | ⟨name, fill⟩ :: fields => do
    let n ← require r name
    let v ← inside (.field name) (fill n)
    return ⟨name, v⟩ :: (← fieldsByName r fields)

/-- Fields from a record by name, or from a sequence by position. -/
def fieldsOfNative (fields : List (Field Filler)) (n : NativeValue) :
    Except CodecError (List (Field Value)) :=
  match n with
  | .record r => fieldsByName r fields
  | .seq natives => fieldsByPosition fields natives
  | _ => n.mismatch "record"

/-- The name under which a record holds the variant of an enum. -/
def discriminantKey : String :=
  "__discriminant__"

/-- The discriminant that a native value gives: as the name of a variant where the table is known,
or else as a number. -/
def discriminantOfNative (type : Option EnumType) (n : NativeValue) : Except CodecError UInt8 :=
  match n, type with
  | .str name, some e => (e.variantNamed name).map Variant.discriminant
  | _, _ => n.toOctet

/-- The discriminant that a native value gives, and the fields to which it turns an enum. -/
def chosenOfNative (type : Option EnumType)
    (select : UInt8 → Except CodecError (List (Field Filler))) (n : NativeValue) :
    Except CodecError (UInt8 × List (Field Filler)) := do
  let discriminant ← discriminantOfNative type n
  return (discriminant, ← select discriminant)

/-- An enum from a native value, given the fields to which each discriminant turns it. -/
def enumOfNative (type : Option EnumType)
    (select : UInt8 → Except CodecError (List (Field Filler))) (n : NativeValue) :
    Except CodecError Value :=
  match n with
  | .record r => do
    let key ← require r discriminantKey
    let (discriminant, fields) ←
      inside (.field discriminantKey) (chosenOfNative type select key)
    return .enum type discriminant (← fieldsByName r fields)
  | .seq [] => fail (.missingField discriminantKey)
  | .seq (first :: rest) => do
    let (discriminant, fields) ← inside (.index 0) (chosenOfNative type select first)
    return .enum type discriminant (← fieldsByPosition fields rest)
  | .int _ | .str _ => do
    let (discriminant, fields) ← chosenOfNative type select n
    match fields with
    | [] => return .enum type discriminant []
    | f :: _ => fail (.missingField f.name)
  | _ => n.mismatch "enum"

/-- An option from a native value: `null` is absent. -/
def optionOfNative (itemType : Option ValueType) (fill : Filler) (n : NativeValue) :
    Except CodecError Value :=
  match n with
  | .null => .ok (.option itemType none)
  | _ => return .option itemType (some (← fill n))

end Value

/-! ### By type -/

open Value

mutual

/-- A value of a type from a native value. -/
def ValueType.ofNative : ValueType → Filler
  | .int width signed => intOfNative width signed
  | .big signed => bigOfNative signed
  | .bool => fun n => return .bool (← flagOfNative n)
  | .bytes => bytesOfNative
  | .str => strOfNative
  | .address => addressOfNative
  | .decimal scale => decimalOfNative scale
  | .metadata => metadataOfNative
  | .list item => fun n => return .list item (← itemsOfNative item item.ofNative n)
  | .array item length => fun n => do
    ofArray item length (← itemsOfNative item item.ofNative n)
  | .struct name fields => fun n => return .struct name (← fieldsOfNative (fieldFillers fields) n)
  | .tuple items => fun n => return .tuple (← itemsByPosition (itemFillers items) n)
  | .enum table => enumOfNative (some table) (EnumTable.select (some (tableFillers table)) 0 [])
  | .explicit _ variants => explicitOfNative (some variants)
  | .option item => optionOfNative (some item) item.ofNative

/-- The fillers of some types. -/
def itemFillers : List ValueType → List Filler
  | [] => []
  | type :: types => type.ofNative :: itemFillers types

/-- The fillers of typed fields. -/
def fieldFillers : List (Field ValueType) → List (Field Filler)
  | [] => []
  | ⟨name, type⟩ :: fields => ⟨name, type.ofNative⟩ :: fieldFillers fields

/-- The fillers throughout a table. -/
def tableFillers : EnumTable ValueType → EnumTable Filler
  | ⟨name, variants⟩ => ⟨name, variantFillers variants⟩

/-- The fillers for the fields of some variants. -/
def variantFillers : List (Variant ValueType) → List (Variant Filler)
  | [] => []
  | ⟨discriminant, name, fields⟩ :: variants =>
    ⟨discriminant, name, fieldFillers fields⟩ :: variantFillers variants

end

/-! ### Into a value -/

namespace Value

mutual

/-- A value from a native value, in place of another. -/
def fill : Value → Filler
  | .int x => intOfNative x.width x.signed
  | .big x => bigOfNative x.signed
  | .bool _ => fun n => return .bool (← flagOfNative n)
  | .bytes _ => bytesOfNative
  | .str _ => strOfNative
  | .address _ => addressOfNative
  | .decimal a => decimalOfNative a.fixedScale?
  | .metadata _ => metadataOfNative
  | .list item _ => fun n => return .list item (← itemsOfNative item item.ofNative n)
  | .array item length _ => fun n => do
    ofArray item length (← itemsOfNative item item.ofNative n)
  | .struct name fields => fun n => return .struct name (← fieldsOfNative (fillFields fields) n)
  | .tuple items => fun n => return .tuple (← itemsByPosition (fillItems items) n)
  | .enum table current fields =>
    enumOfNative table (EnumTable.select (table.map tableFillers) current (fillFields fields))
  | .explicit variants _ => explicitOfNative variants
  | .option (some type) _ => optionOfNative (some type) type.ofNative
  | .option none (some v) => optionOfNative none (fill v)
  | .option none none => optionOfNative none fun _ => fail (.missingPlaceholder "option")

/-- The fillers in place of some values. -/
def fillItems : List Value → List Filler
  | [] => []
  | v :: items => fill v :: fillItems items

/-- The fillers in place of the values of fields. -/
def fillFields : List (Field Value) → List (Field Filler)
  | [] => []
  | ⟨name, v⟩ :: fields => ⟨name, fill v⟩ :: fillFields fields

end

end Value

/-! ### Into a placeholder -/

/-- Tables of fillers are in the order of the types that they are made from. -/
theorem firstDiscriminant_tableFillers (table : EnumType) :
    (tableFillers table).firstDiscriminant = table.firstDiscriminant := by
  obtain ⟨_, variants⟩ := table
  cases variants <;> rfl

mutual

/-- Filling the placeholder of a type is making a value of the type. -/
theorem ValueType.fill_placeholder (type : ValueType) :
    type.placeholder.fill = type.ofNative := by
  match type with
  | .int .. | .big _ | .bool | .bytes | .str | .address | .metadata => rfl
  | .list _ | .array .. | .explicit .. | .option _ => rfl
  | .decimal scale => cases scale <;> rfl
  | .struct name fields =>
    rw [ValueType.placeholder, Value.fill, ValueType.ofNative,
      fillFields_placeholderFields fields]
  | .tuple items =>
    rw [ValueType.placeholder, Value.fill, ValueType.ofNative, fillItems_placeholderItems items]
  | .enum table =>
    rw [ValueType.placeholder, Value.fill, ValueType.ofNative]
    congr 1
    funext discriminant
    rw [Option.map_some, fillFields_firstFields table, ← firstDiscriminant_tableFillers,
      EnumTable.select_first, EnumTable.select_nil]

theorem fillItems_placeholderItems (types : List ValueType) :
    Value.fillItems (placeholderItems types) = itemFillers types := by
  match types with
  | [] => rfl
  | type :: types =>
    rw [placeholderItems, Value.fillItems, itemFillers, type.fill_placeholder,
      fillItems_placeholderItems types]

theorem fillFields_placeholderFields (fields : List (Field ValueType)) :
    Value.fillFields (placeholderFields fields) = fieldFillers fields := by
  match fields with
  | [] => rfl
  | ⟨_, type⟩ :: fields =>
    rw [placeholderFields, Value.fillFields, fieldFillers, type.fill_placeholder,
      fillFields_placeholderFields fields]

theorem fillFields_firstFields (table : EnumType) :
    Value.fillFields (placeholderTable table).firstFields = (tableFillers table).firstFields := by
  match table with
  | ⟨_, []⟩ => rfl
  | ⟨_, ⟨_, _, fields⟩ :: _⟩ => exact fillFields_placeholderFields fields

end

/-! ### Back to native values -/

namespace Value

/-- The record of the flags of code metadata. -/
def flagRecord (m : CodeMetadata) : Record NativeValue :=
  .ofList (MetadataFlag.all.map fun f => ⟨f.name, .bool (m.has f)⟩)

mutual

/-- The native value that stands for a value. -/
def toNative : Value → NativeValue
  | .int x => .int x.value
  | .big x => .int x.value
  | .bool b => .bool b
  | .bytes bs => .bytes bs
  | .str s => .str s
  | .address a => .bytes a.bytes
  | .decimal a => .decimal a.value
  | .metadata m => .record (flagRecord m)
  | .list _ items => .seq (nativeItems items)
  | .array _ _ items => .seq (nativeItems items)
  | .struct _ fields => .record (.ofList (nativeFields fields))
  | .tuple items => .seq (nativeItems items)
  | .enum _ discriminant fields =>
    .record (.ofList (⟨discriminantKey, .int discriminant.toNat⟩ :: nativeFields fields))
  | .explicit _ name => .str name
  | .option _ none => .null
  | .option _ (some v) => toNative v

/-- The native values that stand for some values. -/
def nativeItems : List Value → List NativeValue
  | [] => []
  | v :: items => toNative v :: nativeItems items

/-- The native values that stand for the values of fields. -/
def nativeFields : List (Field Value) → List (Field NativeValue)
  | [] => []
  | ⟨name, v⟩ :: fields => ⟨name, toNative v⟩ :: nativeFields fields

end

end Value

end CallData
