import CallData.Native

/-!
# Native values as JSON

The compact JSON text of a native value. JSON has no exact decimals and no byte strings: these are
written as strings, and so are integers beyond the range of 64 bits, with or without a sign.
-/

namespace CallData

namespace Json

/-- The spelling of a character inside a JSON string. -/
def escaped (c : Char) : List Char :=
  if c = '\x22' then ['\x5c', '\x22']
  else if c = '\x5c' then ['\x5c', '\x5c']
  else if c = '\x08' then ['\x5c', 'b']
  else if c = '\x0c' then ['\x5c', 'f']
  else if c = '\n' then ['\x5c', 'n']
  else if c = '\r' then ['\x5c', 'r']
  else if c = '\t' then ['\x5c', 't']
  else if c.toNat < 0x20 then ['\x5c', 'u', '0', '0'] ++ Hex.digits (UInt8.ofNat c.toNat)
  else [c]

/-- The characters of a JSON string. -/
def string (cs : List Char) : List Char :=
  '\x22' :: cs.flatMap escaped ++ ['\x22']

/-- The characters of a JSON integer: a number between `-2 ^ 63` and `2 ^ 64 - 1`, or else a
string. -/
def integer (i : Int) : List Char :=
  let digits := (toString i).toList
  if -Int.pow 2 63 ≤ i ∧ i < Int.pow 2 64 then digits else string digits

mutual

/-- The characters of the JSON text of a native value. -/
def chars : NativeValue → List Char
  | .null => "null".toList
  | .bool b => if b then "true".toList else "false".toList
  | .int i => integer i
  | .decimal d => string d.chars
  | .str s => string s.toList
  | .bytes bs => string (bs.flatMap Hex.digits)
  | .seq items => '[' :: itemChars items ++ [']']
  | .record ⟨fields⟩ => '\x7b' :: fieldChars fields ++ ['\x7d']

/-- The items of a sequence, with commas between them. -/
def itemChars : List NativeValue → List Char
  | [] => []
  | [n] => chars n
  | n :: items => chars n ++ ',' :: itemChars items

/-- The fields of a record, with commas between them. -/
def fieldChars : List (Field NativeValue) → List Char
  | [] => []
  | [⟨name, n⟩] => string name.toList ++ ':' :: chars n
  | ⟨name, n⟩ :: fields => string name.toList ++ ':' :: chars n ++ ',' :: fieldChars fields

end

end Json

namespace NativeValue

/-- The JSON text of a native value. -/
def json (n : NativeValue) : String :=
  String.ofList (Json.chars n)

end NativeValue

end CallData
