import CallData.Decimal
import CallData.Record
import CallData.Text.Blank
import CallData.Text.Numeral

/-!
# Native values

A `NativeValue` is what the caller of the library works with: data whose shape says what it is,
without a type beside it. Typed values are filled in from native values and turned back into them.
-/

namespace CallData

/-- A value of the caller. -/
inductive NativeValue where
  /-- Nothing. -/
  | null
  /-- A truth value. -/
  | bool (value : Bool)
  /-- An integer. -/
  | int (value : Int)
  /-- A decimal. -/
  | decimal (value : Decimal)
  /-- A text. -/
  | str (value : String)
  /-- A byte string. -/
  | bytes (value : Bytes)
  /-- Values in order. -/
  | seq (items : List NativeValue)
  /-- Values by name. -/
  | record (record : Record NativeValue)
deriving Repr

namespace NativeValue

/-- The kind of a native value, in words. -/
def kindName : NativeValue → String
  | null => "null"
  | bool _ => "bool"
  | int _ => "integer"
  | decimal _ => "decimal"
  | str _ => "string"
  | bytes _ => "bytes"
  | seq _ => "sequence"
  | record _ => "record"

/-! ### Views -/

/-- The integer that a native value is. -/
def int? : NativeValue → Option Int
  | int i => some i
  | _ => none

/-- The text that a native value is. -/
def str? : NativeValue → Option String
  | str s => some s
  | _ => none

/-- The byte string that a native value is. -/
def bytes? : NativeValue → Option Bytes
  | bytes bs => some bs
  | _ => none

/-- The values in order that a native value is. -/
def seq? : NativeValue → Option (List NativeValue)
  | seq items => some items
  | _ => none

/-- The values by name that a native value is. -/
def record? : NativeValue → Option (Record NativeValue)
  | record r => some r
  | _ => none

/-! ### Demands -/

/-- Fails because something else was expected in the place of a native value. -/
def mismatch {α : Type} (expected : String) (n : NativeValue) : Except CodecError α :=
  fail (.typeMismatch expected n.kindName)

/-- The values in order that a native value has to be. -/
def items (n : NativeValue) : Except CodecError (List NativeValue) :=
  match n with
  | seq items => .ok items
  | _ => n.mismatch "sequence"

/-- The integer that a native value is or writes out as text. -/
def toInt (n : NativeValue) : Except CodecError Int :=
  match n with
  | int i => .ok i
  | str s =>
    match Text.integer? (Text.trim s.toList) with
    | some i => .ok i
    | none => n.mismatch "integer"
  | _ => n.mismatch "integer"

/-- The integer that a native value is or writes out, which has to fit a byte. -/
def toOctet (n : NativeValue) : Except CodecError UInt8 := do
  let i ← n.toInt
  checkBounds i 0 (some 255)
  return UInt8.ofNat i.toNat

/-- The value that a record has to have for a name. -/
def require (r : Record NativeValue) (name : String) : Except CodecError NativeValue :=
  match r.get? name with
  | some n => .ok n
  | none => fail (.missingField name)

end NativeValue

end CallData
