import CallData.Bytes.Cursor
import CallData.Bytes.Sink
import CallData.Decimal

/-!
# Amounts

An amount is a decimal as a typed value. Either its type fixes the scale, and the wire carries
the digits alone, or it has a scale of its own, which the wire carries behind the digits.
-/

namespace CallData

/-- A decimal as a typed value. -/
inductive Amount where
  /-- At the scale that its type fixes. -/
  | fixed (value : Decimal)
  /-- At a scale of its own. -/
  | floating (value : Decimal)
deriving Repr, DecidableEq

namespace Amount

/-- The number held. -/
def value : Amount → Decimal
  | fixed d => d
  | floating d => d

/-- The scale that the type fixes, if it fixes one. -/
def fixedScale? : Amount → Option UInt32
  | fixed d => some d.scale
  | floating _ => none

/-- Whether an amount has a scale of its own. -/
def isFloating (a : Amount) : Bool :=
  a.fixedScale?.isNone

/-- A decimal brought to the scale that the type fixes, if it fixes one. -/
def ofDecimal (scale : Option UInt32) (d : Decimal) : Amount :=
  match scale with
  | some s => fixed (d.rescale s)
  | none => floating d

/-- Zero, at scale zero unless the type fixes another. -/
def zero : Option UInt32 → Amount
  | some s => fixed (.zero s)
  | none => floating (.zero 0)

/-- Another decimal in place of the one held; a fixed scale stays. -/
def set (a : Amount) (d : Decimal) : Amount :=
  ofDecimal a.fixedScale? d

/-- The shortest byte string that spells the digits. -/
def digitBytes (a : Amount) : Bytes :=
  Bytes.shortest false a.value.digits

variable {σ : Type} [Sink σ]

/-- Nested, the digits stand behind their length, and a scale that is not fixed behind them. -/
def putNested (a : Amount) : Put σ :=
  match a with
  | fixed _ => .framed a.digitBytes
  | floating d => .framed a.digitBytes ++ .count d.scale.toNat

/-- At top level, a fixed scale leaves the bare digits; else all stays as it is nested. -/
def putTop (a : Amount) : Put σ :=
  match a with
  | fixed _ => .block a.digitBytes
  | floating _ => a.putNested

/-- Reads an amount as it stands nested. -/
def readNested (scale : Option UInt32) : ByteReader Amount := do
  let digits ← ByteReader.framed
  match scale with
  | some s => return fixed ⟨digits.toNat, s⟩
  | none => return floating ⟨digits.toNat, UInt32.ofNat (← ByteReader.count)⟩

/-- Reads a whole byte string as an amount. The empty string is zero. -/
def ofTop (scale : Option UInt32) (bs : Bytes) : Except CodecError Amount :=
  match scale with
  | some s => .ok (fixed ⟨bs.toNat, s⟩)
  | none => if bs.isEmpty then .ok (zero none) else (readNested none).exactly bs

end Amount

end CallData
