import CallData.Bytes.Cursor
import CallData.Bytes.Sink

/-!
# Integers

A `FixedInt` has a width and a signedness, and stays within the bounds that these set; a
`BigInteger` has a signedness alone. At top level both are written as the shortest byte string
that spells them. Nested, a `FixedInt` fills its width and a `BigInteger` stands behind its length.
-/

namespace CallData

/-! ### Widths -/

/-- The width of a fixed-width integer. -/
inductive IntWidth where
  | w8
  | w16
  | w32
  | w64
deriving Repr, DecidableEq

namespace IntWidth

/-- A width in bytes. -/
def bytes : IntWidth → Nat
  | w8 => 1
  | w16 => 2
  | w32 => 4
  | w64 => 8

theorem bytes_ne_zero (w : IntWidth) : w.bytes ≠ 0 := by
  cases w <;> decide

/-- The least integer of a width. -/
def min (w : IntWidth) (signed : Bool) : Int :=
  if signed then -Int.pow 2 (8 * w.bytes - 1) else 0

/-- The greatest integer of a width. -/
def max (w : IntWidth) (signed : Bool) : Int :=
  if signed then Int.pow 2 (8 * w.bytes - 1) - 1 else Int.pow 2 (8 * w.bytes) - 1

end IntWidth

/-! ### Integers of a fixed width -/

/-- An integer of a fixed width. -/
structure FixedInt where
  width : IntWidth
  signed : Bool
  value : Int
deriving Repr, DecidableEq

namespace FixedInt

/-- Zero. -/
def zero (width : IntWidth) (signed : Bool) : FixedInt :=
  ⟨width, signed, 0⟩

/-- The byte with a given value. -/
def ofOctet (b : UInt8) : FixedInt :=
  ⟨.w8, false, b.toNat⟩

/-! #### In place -/

/-- A step that works on an integer in place. One that fails leaves an integer behind as well. -/
abbrev Update := EStateM CodecError FixedInt

/-- What a step makes of an integer, if it succeeds. -/
def updated (x : FixedInt) (step : Update Unit) : Except CodecError FixedInt :=
  match step x with
  | .ok _ y => .ok y
  | .error e _ => .error e

/-- A number as one of 128 bits in two's complement, if these have room for it. -/
def word? (i : Int) : Option Int :=
  if -Int.pow 2 127 ≤ i ∧ i < Int.pow 2 127 then some i else none

/-- Puts a number in place of the one held, if it is within the bounds. -/
def assign (i : Int) : Update Unit := do
  let x ← get
  lift (checkBounds i (x.width.min x.signed) (some (x.width.max x.signed)))
  match word? i with
  | some v => modify fun x => { x with value := v }
  | none => pure () -- There is no such number within the bounds.

/-- Puts the number that a byte string of any length spells in place of the one held, if it is
within the bounds. -/
def assignTop (bs : Bytes) : Update Unit := do
  assign (Bytes.toInteger (← get).signed bs)

/-- A number as an integer of a fixed width, if it is within the bounds. -/
def ofInt (width : IntWidth) (signed : Bool) (i : Int) : Except CodecError FixedInt :=
  (zero width signed).updated (assign i)

/-- Another number in place of the one held. -/
def set (x : FixedInt) (i : Int) : Except CodecError FixedInt :=
  x.updated (assign i)

/-- Reads a byte string of any length as one integer, which has to be within the bounds. -/
def ofTop (width : IntWidth) (signed : Bool) (bs : Bytes) : Except CodecError FixedInt :=
  (zero width signed).updated (assignTop bs)

/-- The number that comes of shifting octets one after the other into a word of 128 bits, which at
first is filled with the sign that the leading octet shows. -/
def shiftIn (signed : Bool) (bs : Bytes) : Int :=
  let sign : BitVec 128 := if signed && bs.headD 0 &&& 0x80 != 0 then .allOnes 128 else 0
  (bs.foldl (fun (acc : BitVec 128) b => acc <<< 8 ||| b.toBitVec.setWidth 128) sign).toInt

/-- Reads an integer that fills its width. -/
def readNested (width : IntWidth) (signed : Bool) : ByteReader FixedInt := do
  let bs ← ByteReader.take width.bytes
  return ⟨width, signed, shiftIn signed bs⟩

/-- Reads an integer that fills its width in place of the one held. Answers where the reader is
then. -/
def assignNested (c : Cursor) : Update Cursor := fun x =>
  match readNested x.width x.signed c with
  | .ok y c' => .ok c' y
  | .error e _ => .error e x

/-! #### Encodings -/

/-- The word of 128 bits that an integer is held in, as octets. -/
def word (x : FixedInt) : Bytes :=
  Bytes.ofInt 16 x.value

/-- The number of octets that a number other than zero takes up in two's complement: its magnitude
and one bit for the sign have to go in. -/
def signedLength (i : Int) : Nat :=
  (Bytes.magnitudeBits i + 1 + 7) / 8

/-- The octets of the word that are left when it is cut short as far as it can be. -/
def topBytes (x : FixedInt) : Bytes :=
  if x.value = 0 then []
  else if x.signed then x.word.drop (16 - signedLength x.value)
  else x.word.dropWhile (· == 0)

variable {σ : Type} [Sink σ]

/-- Nested, an integer fills its width. -/
def putNested (x : FixedInt) : Put σ :=
  .block (x.word.drop (16 - x.width.bytes))

/-- At top level, an integer is written as short as possible. -/
def putTop (x : FixedInt) : Put σ :=
  .block x.topBytes

end FixedInt

/-! ### Integers of any size -/

/-- An integer of any size, or a natural number of any size. -/
structure BigInteger where
  signed : Bool
  value : Int
deriving Repr, DecidableEq

namespace BigInteger

/-- Zero. -/
def zero (signed : Bool) : BigInteger :=
  ⟨signed, 0⟩

/-- A number as an integer of any size; without a sign it has to be non-negative. -/
def ofInt (signed : Bool) (i : Int) : Except CodecError BigInteger := do
  unless signed do checkBounds i 0 none
  return ⟨signed, i⟩

/-- Another number in place of the one held. -/
def set (x : BigInteger) (i : Int) : Except CodecError BigInteger :=
  ofInt x.signed i

variable {σ : Type} [Sink σ]

/-- Nested, the shortest byte string stands behind its length. -/
def putNested (x : BigInteger) : Put σ :=
  .framed (Bytes.shortest x.signed x.value)

/-- At top level, an integer is written as short as possible. -/
def putTop (x : BigInteger) : Put σ :=
  .block (Bytes.shortest x.signed x.value)

/-- Reads a byte string of any length as one integer. -/
def ofTop (signed : Bool) (bs : Bytes) : BigInteger :=
  ⟨signed, Bytes.toInteger signed bs⟩

/-- Reads an integer that stands behind its length. -/
def readNested (signed : Bool) : ByteReader BigInteger := do
  return ofTop signed (← ByteReader.framed)

end BigInteger

end CallData
