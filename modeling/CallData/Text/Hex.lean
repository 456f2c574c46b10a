import CallData.Bytes

/-!
# Hexadecimal text

Two digits stand for each octet. Lowercase digits are written; digits of either case are read.
-/

namespace CallData

namespace Hex

/-- Why a text is no hexadecimal form of a byte string; the text is kept whole. -/
inductive Fault where
  /-- Its UTF-8 form has an odd number of octets. -/
  | oddLength (text : String)
  /-- Some character is not a digit. -/
  | notHex (text : String)
deriving Repr, DecidableEq

namespace Fault

/-- The wording of a fault, without the text at fault. -/
def message : Fault → String
  | oddLength _ => "hex-conversion failed on odd-length string"
  | notHex _ => "hex-conversion failed on non-hex character"

/-- The wording of a fault that quotes the text at fault. -/
def explanation : Fault → String
  | oddLength s => s!"non-even length-parity for string `{s}`"
  | notHex s => s!"non-hex character found in string `{s}`"

end Fault

/-- The value of a hexadecimal digit of either case. -/
def digit? (c : Char) : Option Nat :=
  if '0' ≤ c ∧ c ≤ '9' then some (c.toNat - '0'.toNat)
  else if 'a' ≤ c ∧ c ≤ 'f' then some (c.toNat - 'a'.toNat + 10)
  else if 'A' ≤ c ∧ c ≤ 'F' then some (c.toNat - 'A'.toNat + 10)
  else none

/-- The two digits of an octet. -/
def digits (b : UInt8) : List Char :=
  [Nat.digitChar (b.toNat / 16), Nat.digitChar (b.toNat % 16)]

/-- The octets that a row of digits stands for. -/
def octets? : List Char → Option Bytes
  | [] => some []
  | [_] => none
  | c :: d :: rest => do
    let high ← digit? c
    let low ← digit? d
    let bs ← octets? rest
    return UInt8.ofNat (16 * high + low) :: bs

/-- The hexadecimal form of a byte string. -/
def encode (bs : Bytes) : String :=
  String.ofList (bs.flatMap digits)

/-- The hexadecimal form of a byte string as a literal that names what it is. -/
def literal (bs : Bytes) : String :=
  "hex!(\"" ++ encode bs ++ "\")"

/-- The byte string that a text is a hexadecimal form of. The parity of the length is looked at
before any character. -/
def decode (s : String) : Except Fault Bytes :=
  if s.utf8ByteSize % 2 = 1 then .error (.oddLength s)
  else
    match octets? s.toList with
    | some bs => .ok bs
    | none => .error (.notHex s)

end Hex

end CallData
