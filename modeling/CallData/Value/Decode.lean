import CallData.Value

/-!
# Decoding values

A decoder of a type reads what an encoder of that type wrote. Decoding into a value instead keeps
to what that value carries: where it knows a type, the type decides; where it does not, the value
held serves as the pattern of the value to come. Decoding into the placeholder of a type is the
same as decoding by the type.
-/

namespace CallData

open ByteReader

/-- Reads the marker of an option, and behind it the value if one is present. -/
def readOption (itemType : Option ValueType) (item : ByteReader Value) : ByteReader Value := do
  match ← octet with
  | 0 => return .option itemType none
  | 1 => return .option itemType (some (← item))
  | b => throw (.of (.invalidMarker b))

/-- Reads items in turn, the first of them at index `i`. -/
def readItems (i : Nat) : List (ByteReader Value) → ByteReader (List Value)
  | [] => return []
  | item :: items => do
    let v ← insideM (.index i) item
    return v :: (← readItems (i + 1) items)

/-- Reads fields in turn. -/
def readFields : List (Field (ByteReader Value)) → ByteReader (List (Field Value))
  | [] => return []
  | ⟨name, item⟩ :: fields => do
    let v ← insideM (.field name) item
    return ⟨name, v⟩ :: (← readFields fields)

/-- Reads a discriminant, and behind it the fields to which it turns an enum with the given table,
discriminant and fields. -/
def readEnum (type : Option EnumType) (table : Option (EnumTable (ByteReader Value)))
    (current : UInt8) (held : List (Field (ByteReader Value))) : ByteReader Value := do
  let discriminant ← octet
  let fields ← lift (EnumTable.select table current held discriminant)
  return .enum type discriminant (← readFields fields)

/-! ### By type -/

mutual

/-- Reads a nested value of a type. -/
def ValueType.readNested : ValueType → ByteReader Value
  | .int width signed => return .int (← FixedInt.readNested width signed)
  | .big signed => return .big (← BigInteger.readNested signed)
  | .bool => return .bool (← ByteReader.bool)
  | .bytes => return .bytes (← framed)
  | .str => return .str (← text)
  | .address => return .address (← Address.read)
  | .decimal scale => return .decimal (← Amount.readNested scale)
  | .metadata => return .metadata (← CodeMetadata.read)
  | .list item => do
    let n ← count
    return .list item (← replicate n item.readNested)
  | .array item length => return .array item length (← replicate length item.readNested)
  | .struct name fields => return .struct name (← readFields (fieldReaders fields))
  | .tuple items => return .tuple (← readItems 0 (itemReaders items))
  | .enum table => readEnum (some table) (some (tableReaders table)) 0 []
  | .explicit _ variants => do lift (Value.ofName (some variants) (← text))
  | .option item => readOption (some item) item.readNested

/-- The readers of some types. -/
def itemReaders : List ValueType → List (ByteReader Value)
  | [] => []
  | type :: types => type.readNested :: itemReaders types

/-- The readers of typed fields. -/
def fieldReaders : List (Field ValueType) → List (Field (ByteReader Value))
  | [] => []
  | ⟨name, type⟩ :: fields => ⟨name, type.readNested⟩ :: fieldReaders fields

/-- The readers throughout a table. -/
def tableReaders : EnumTable ValueType → EnumTable (ByteReader Value)
  | ⟨name, variants⟩ => ⟨name, variantReaders variants⟩

/-- The readers for the fields of some variants. -/
def variantReaders : List (Variant ValueType) → List (Variant (ByteReader Value))
  | [] => []
  | ⟨discriminant, name, fields⟩ :: variants =>
    ⟨discriminant, name, fieldReaders fields⟩ :: variantReaders variants

end

/-! ### Into a value -/

namespace Value

mutual

/-- Reads a nested value in place of another. -/
def readNested : Value → ByteReader Value
  | .int x => return .int (← FixedInt.readNested x.width x.signed)
  | .big x => return .big (← BigInteger.readNested x.signed)
  | .bool _ => return .bool (← ByteReader.bool)
  | .bytes _ => return .bytes (← framed)
  | .str _ => return .str (← text)
  | .address _ => return .address (← Address.read)
  | .decimal a => return .decimal (← Amount.readNested a.fixedScale?)
  | .metadata _ => return .metadata (← CodeMetadata.read)
  | .list item _ => do
    let n ← count
    return .list item (← replicate n item.readNested)
  | .array item length _ => return .array item length (← replicate length item.readNested)
  | .struct name fields => return .struct name (← readFields (heldFields fields))
  | .tuple items => return .tuple (← readItems 0 (heldItems items))
  | .enum table current fields =>
    readEnum table (table.map tableReaders) current (heldFields fields)
  | .explicit variants _ => do lift (ofName variants (← text))
  | .option (some type) _ => readOption (some type) type.readNested
  | .option none (some v) => readOption none (readNested v)
  | .option none none => readOption none (throw (.of (.missingPlaceholder "option")))

/-- The readers in place of some values. -/
def heldItems : List Value → List (ByteReader Value)
  | [] => []
  | v :: items => readNested v :: heldItems items

/-- The readers in place of the values of fields. -/
def heldFields : List (Field Value) → List (Field (ByteReader Value))
  | [] => []
  | ⟨name, v⟩ :: fields => ⟨name, readNested v⟩ :: heldFields fields

end

end Value

/-! ### Into a placeholder -/

/-- Tables of readers are in the order of the types that they are made from. -/
theorem firstDiscriminant_tableReaders (table : EnumType) :
    (tableReaders table).firstDiscriminant = table.firstDiscriminant := by
  obtain ⟨_, variants⟩ := table
  cases variants <;> rfl

mutual

/-- Reading into the placeholder of a type is reading by the type. -/
theorem ValueType.readNested_placeholder (type : ValueType) :
    type.placeholder.readNested = type.readNested := by
  match type with
  | .int .. | .big _ | .bool | .bytes | .str | .address | .metadata => rfl
  | .list _ | .array .. | .explicit .. | .option _ => rfl
  | .decimal scale => cases scale <;> rfl
  | .struct name fields =>
    rw [ValueType.placeholder, Value.readNested, ValueType.readNested,
      heldFields_placeholderFields fields]
  | .tuple items =>
    rw [ValueType.placeholder, Value.readNested, ValueType.readNested,
      heldItems_placeholderItems items]
  | .enum table =>
    simp only [ValueType.placeholder, Value.readNested, ValueType.readNested, readEnum,
      Option.map_some, heldFields_firstFields table, ← firstDiscriminant_tableReaders,
      EnumTable.select_first, EnumTable.select_nil]

theorem heldItems_placeholderItems (types : List ValueType) :
    Value.heldItems (placeholderItems types) = itemReaders types := by
  match types with
  | [] => rfl
  | type :: types =>
    rw [placeholderItems, Value.heldItems, itemReaders, type.readNested_placeholder,
      heldItems_placeholderItems types]

theorem heldFields_placeholderFields (fields : List (Field ValueType)) :
    Value.heldFields (placeholderFields fields) = fieldReaders fields := by
  match fields with
  | [] => rfl
  | ⟨_, type⟩ :: fields =>
    rw [placeholderFields, Value.heldFields, fieldReaders, type.readNested_placeholder,
      heldFields_placeholderFields fields]

theorem heldFields_firstFields (table : EnumType) :
    Value.heldFields (placeholderTable table).firstFields = (tableReaders table).firstFields := by
  match table with
  | ⟨_, []⟩ => rfl
  | ⟨_, ⟨_, _, fields⟩ :: _⟩ => exact heldFields_placeholderFields fields

end

/-! ### Top level -/

namespace Value

/-- Reads a truth value that has a byte string for itself. -/
def boolOfTop : Bytes → Except CodecError Bool
  | [] => .ok false
  | [0] => .ok false
  | [1] => .ok true
  | b :: _ => fail (.invalidBool b)

/-- Reads a text that has a byte string for itself. -/
def textOfTop (bs : Bytes) : Except CodecError String :=
  match Utf8.decode bs with
  | .ok s => .ok s
  | .error fault => fail (.invalidUtf8 fault)

/-- The variant that an empty byte string stands for: variant zero, which may have no fields where
the table is known. -/
def emptyVariant (table : Option EnumType) : Except CodecError Value := do
  if let some e := table then
    let v ← e.variant 0
    unless v.fields.isEmpty do fail (.unexpectedEnd 0 1 0)
  return .enum table 0 []

/-- Reads a value that has a byte string for itself, in place of another. -/
def readTop (v : Value) (bs : Bytes) : Except CodecError Value :=
  match v with
  | .int x => return .int (← FixedInt.ofTop x.width x.signed bs)
  | .big x => return .big (BigInteger.ofTop x.signed bs)
  | .bool _ => return .bool (← boolOfTop bs)
  | .bytes _ => return .bytes bs
  | .str _ => return .str (← textOfTop bs)
  | .address _ => return .address (← Address.ofBytes bs)
  | .decimal a => return .decimal (← Amount.ofTop a.fixedScale? bs)
  | .list item _ => return .list item (← many item.readNested bs)
  | .array item length _ => return .array item length (← many item.readNested bs)
  | .enum table _ _ => if bs.isEmpty then emptyVariant table else exactly (readNested v) bs
  | .explicit variants _ => do ofName variants (← textOfTop bs)
  | .option item _ => if bs.isEmpty then .ok (.option item none) else exactly (readNested v) bs
  | .metadata _ | .struct .. | .tuple _ => exactly (readNested v) bs

end Value

end CallData
