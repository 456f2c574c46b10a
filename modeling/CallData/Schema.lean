import CallData.Record
import CallData.Value.Integer

/-!
# Types of values and arguments

A `ValueType` describes a typed value as plain data, and an `ArgType` an argument of a call.
Enum types are tables of variants, looked up by discriminant or by name; where entries of a table
repeat, the first counts.
-/

namespace CallData

/-! ### Tables of variants -/

/-- A variant of an enum, with what each of its fields stands for. -/
structure Variant (α : Type) where
  discriminant : UInt8
  name : String
  fields : List (Field α)
deriving Repr, DecidableEq

/-- A named table of variants. -/
structure EnumTable (α : Type) where
  name : String
  variants : List (Variant α)
deriving Repr, DecidableEq

namespace EnumTable

variable {α : Type}

/-- The cause of a failed look-up by discriminant. -/
def unknown (table : String) (discriminant : UInt8) : Cause :=
  .unknownVariant s!"{discriminant} of enum `{table}`"

/-- The first variant with a discriminant. -/
def variant (e : EnumTable α) (discriminant : UInt8) : Except CodecError (Variant α) :=
  match e.variants.find? fun v => v.discriminant == discriminant with
  | some v => .ok v
  | none => fail (unknown e.name discriminant)

/-- The first variant with a name. -/
def variantNamed (e : EnumTable α) (name : String) : Except CodecError (Variant α) :=
  match e.variants.find? fun v => v.name == name with
  | some v => .ok v
  | none =>
    let table := e.name
    fail (.unknownVariant s!"`{name}` of enum `{table}`")

/-- The discriminant of the first variant; zero in an empty table. -/
def firstDiscriminant (e : EnumTable α) : UInt8 :=
  match e.variants with
  | [] => 0
  | v :: _ => v.discriminant

/-- The fields of the first variant; none in an empty table. -/
def firstFields (e : EnumTable α) : List (Field α) :=
  match e.variants with
  | [] => []
  | v :: _ => v.fields

/-- The fields with which an enum turns to a discriminant. Where it already has that discriminant
and some fields, it keeps them; any other variant comes from the table, which has to be known. -/
def select (table : Option (EnumTable α)) (current : UInt8) (held : List (Field α))
    (discriminant : UInt8) : Except CodecError (List (Field α)) :=
  match table with
  | some e =>
    if discriminant == current && !held.isEmpty then .ok held
    else (e.variant discriminant).map Variant.fields
  | none =>
    if discriminant == current then .ok held else fail (.missingPlaceholder "enum variant")

/-- An enum without fields takes every variant from its table. -/
@[simp]
theorem select_nil (e : EnumTable α) (current discriminant : UInt8) :
    select (some e) current [] discriminant = (e.variant discriminant).map Variant.fields := by
  simp [select]

/-- An enum that holds the first variant of its table ends up with what the table says, whichever
way it turns. -/
theorem select_first (e : EnumTable α) (discriminant : UInt8) :
    select (some e) e.firstDiscriminant e.firstFields discriminant =
      (e.variant discriminant).map Variant.fields := by
  obtain ⟨name, variants⟩ := e
  cases variants with
  | nil => simp [select, firstDiscriminant, firstFields]
  | cons v variants =>
    by_cases h : discriminant = v.discriminant
    · simp [select, firstDiscriminant, firstFields, variant, h, Except.map]
    · simp [select, firstDiscriminant, firstFields, h]

end EnumTable

/-! ### Types -/

/-- The type of a value. -/
inductive ValueType where
  /-- An integer of a fixed width. -/
  | int (width : IntWidth) (signed : Bool)
  /-- An integer of any size. -/
  | big (signed : Bool)
  /-- A truth value. -/
  | bool
  /-- A byte string. -/
  | bytes
  /-- A text. -/
  | str
  /-- An account address. -/
  | address
  /-- A decimal at a fixed scale, or at a scale of its own. -/
  | decimal (scale : Option UInt32)
  /-- The metadata of a contract's code. -/
  | metadata
  /-- Any number of items of one type. -/
  | list (item : ValueType)
  /-- A given number of items of one type. -/
  | array (item : ValueType) (length : Nat)
  /-- Named fields. -/
  | struct (name : String) (fields : List (Field ValueType))
  /-- Items told apart by their position. -/
  | tuple (items : List ValueType)
  /-- One variant out of a table, with its fields. -/
  | enum (table : EnumTable ValueType)
  /-- One name out of a list. -/
  | explicit (name : String) (variants : List String)
  /-- A value that may be absent. -/
  | option (item : ValueType)
deriving Repr

/-- An enum type: a table of variants with typed fields. -/
abbrev EnumType := EnumTable ValueType

/-- The type of an argument. -/
inductive ArgType where
  /-- One value. -/
  | single (type : ValueType)
  /-- Some arguments in a row. -/
  | multi (items : List ArgType)
  /-- An argument that may be left out. -/
  | optional (item : ArgType)
  /-- Any number of arguments, up to the end. -/
  | variadic (item : ArgType)
  /-- Any number of arguments behind their count. -/
  | counted (item : ArgType)
deriving Repr

end CallData
