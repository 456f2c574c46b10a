import CallData.Error
import CallData.Text.Blank
import CallData.Text.Numeral

/-!
# Exact decimals

A decimal is a natural number of units of `10 ^ -scale`. Sums, differences and products are exact;
only going to a smaller scale drops digits. The text of a decimal has one digit behind the point
for each unit of scale, and reading it gives the same digits at the same scale.
-/

namespace CallData

/-- The number `digits / 10 ^ scale`. -/
structure Decimal where
  digits : Nat
  scale : UInt32
deriving Repr, DecidableEq

namespace Decimal

/-! ### Powers of ten -/

/-- The largest scale whose power of ten is kept at hand. -/
def tableScale : Nat :=
  36

/-- The powers of ten kept at hand, by their scales. -/
def powersOfTen : List Nat :=
  (List.range (tableScale + 1)).map (Nat.pow 10)

/-- The number of units of a scale that make one: a power of ten kept at hand, or one computed. -/
def powerOfTen (scale : UInt32) : Nat :=
  match powersOfTen[scale.toNat]? with
  | some p => p
  | none => Nat.pow 10 scale.toNat

/-! ### Arithmetic -/

/-- Zero, at a given scale. -/
def zero (scale : UInt32) : Decimal :=
  ⟨0, scale⟩

/-- A whole number, at a given scale. -/
def ofNat (n : Nat) (scale : UInt32) : Decimal :=
  ⟨n * powerOfTen scale, scale⟩

/-- Whether a decimal is zero. -/
def isZero (d : Decimal) : Bool :=
  d.digits == 0

/-- The whole part. -/
def trunc (d : Decimal) : Nat :=
  d.digits / powerOfTen d.scale

/-- The number at another scale; digits that the new scale has no room for are dropped. -/
def rescale (d : Decimal) (scale : UInt32) : Decimal :=
  if d.scale ≤ scale then ⟨d.digits * powerOfTen (scale - d.scale), scale⟩
  else ⟨d.digits / powerOfTen (d.scale - scale), scale⟩

/-- The larger of two scales. -/
def commonScale (a b : Decimal) : UInt32 :=
  if a.scale ≤ b.scale then b.scale else a.scale

/-- The sum, at the larger scale. -/
def add (a b : Decimal) : Decimal :=
  let scale := commonScale a b
  ⟨(a.rescale scale).digits + (b.rescale scale).digits, scale⟩

/-- The difference, at the larger scale, unless it is negative. -/
def sub? (a b : Decimal) : Option Decimal :=
  let scale := commonScale a b
  let x := (a.rescale scale).digits
  let y := (b.rescale scale).digits
  if x < y then none else some ⟨x - y, scale⟩

/-- The product, at the sum of the scales, unless that is no scale any more. -/
def mul? (a b : Decimal) : Option Decimal :=
  if a.scale.toNat + b.scale.toNat < UInt32.size then
    some ⟨a.digits * b.digits, a.scale + b.scale⟩
  else none

/-! ### Text -/

/-- The characters of a decimal: its digits with a point in front of the last `scale` of them,
filled up with zeros so that at least one digit stands in front of the point. A scale of zero has
no point. -/
def chars (d : Decimal) : List Char :=
  let ds := Text.digits d.digits
  let scale := d.scale.toNat
  if scale = 0 then ds
  else if scale < ds.length then
    ds.take (ds.length - scale) ++ '.' :: ds.drop (ds.length - scale)
  else '0' :: '.' :: List.replicate (scale - ds.length) '0' ++ ds

/-- The text of a decimal. -/
def text (d : Decimal) : String :=
  String.ofList d.chars

/-- The decimal that characters write: digits, and then at most one point and more digits, with
a digit on one side of it at least. The digits behind the point give the scale. -/
def ofChars? (cs : List Char) : Option Decimal :=
  let whole := cs.takeWhile (· != '.')
  let fraction := (cs.dropWhile (· != '.')).drop 1
  if whole.isEmpty && fraction.isEmpty then none
  else if whole.all Char.isDigit && fraction.all Char.isDigit then
    if fraction.length < UInt32.size then
      some ⟨Text.digitsValue (whole ++ fraction), UInt32.ofNat fraction.length⟩
    else none
  else none

/-- Reads a decimal from a text, past the white space around it. -/
def parse (s : String) : Except CodecError Decimal :=
  match ofChars? (Text.trim s.toList) with
  | some d => .ok d
  | none => fail (.typeMismatch "decimal string" "malformed string")

/-- Reads a decimal from a text and brings it to a scale. -/
def parseAt (s : String) (scale : UInt32) : Except CodecError Decimal :=
  (parse s).map fun d => d.rescale scale

end Decimal

end CallData
