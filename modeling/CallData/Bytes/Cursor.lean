import CallData.Error

/-!
# Reading bytes with a cursor

A cursor stands in a byte string, with the bytes still to be read behind it. A `ByteReader` reads
from it and leaves it further on; all readers are made from `take`, which reads a given number of
bytes or, where fewer are left, fails and stays where it is.
-/

namespace CallData

/-- A place in a byte string. -/
structure Cursor where
  /-- The number of bytes read so far. -/
  offset : Nat
  /-- The bytes still to be read. -/
  rest : Bytes
deriving Repr, DecidableEq

namespace Cursor

/-- The cursor in front of a byte string. -/
def start (bs : Bytes) : Cursor :=
  ⟨0, bs⟩

/-- The number of bytes still to be read. -/
def remaining (c : Cursor) : Nat :=
  c.rest.length

/-- The number of bytes read and still to be read together. -/
def viewLength (c : Cursor) : Nat :=
  c.offset + c.remaining

/-- Whether every byte has been read. -/
def isAtEnd (c : Cursor) : Bool :=
  c.rest.isEmpty

end Cursor

/-- A step that reads bytes. A failing step leaves the cursor where it noticed the error. -/
abbrev ByteReader := EStateM CodecError Cursor

namespace ByteReader

/-- Reads the next `n` bytes. -/
def take (n : Nat) : ByteReader Bytes := fun c =>
  if n ≤ c.remaining then .ok (c.rest.take n) ⟨c.offset + n, c.rest.drop n⟩
  else .error (.of (.unexpectedEnd c.offset n c.remaining)) c

/-- Reads the next byte. -/
def octet : ByteReader UInt8 := do
  return (← take 1).headD 0

/-- Reads four bytes as a number. -/
def count : ByteReader Nat := do
  return (← take 4).toNat

/-- Reads as many bytes as the four in front of them say. -/
def framed : ByteReader Bytes := do
  take (← count)

/-- Reads a truth value from one byte. -/
def bool : ByteReader Bool := do
  match ← octet with
  | 0 => return false
  | 1 => return true
  | b => throw (.of (.invalidBool b))

/-- Reads all that is left. -/
def takeRest : ByteReader Bytes := fun c =>
  .ok c.rest ⟨c.offset + c.remaining, []⟩

/-- Reads UTF-8 text that stands behind its length. -/
def text : ByteReader String := do
  match Utf8.decode (← framed) with
  | .ok s => return s
  | .error fault => throw (.of (.invalidUtf8 fault))

/-! ### Sequences -/

/-- Reads `n` items in turn, the first of them at index `i`. -/
def replicateFrom {α : Type} (item : ByteReader α) : (n i : Nat) → ByteReader (List α)
  | 0, _ => return []
  | n + 1, i => do
    let a ← insideM (.index i) item
    let rest ← replicateFrom item n (i + 1)
    return a :: rest

/-- Reads `n` items in turn. -/
def replicate {α : Type} (n : Nat) (item : ByteReader α) : ByteReader (List α) :=
  replicateFrom item n 0

/-- Reads items, the first of them at index `i`, until nothing is left. An item that takes no
byte can never bring the end nearer: what is left then stays unread. -/
def manyFrom {α : Type} (item : ByteReader α) (i : Nat) (c : Cursor) :
    Except CodecError (List α) :=
  if c.isAtEnd then .ok []
  else
    match insideM (.index i) item c with
    | .error e _ => .error e
    | .ok a c' =>
      if c'.remaining < c.remaining then (manyFrom item (i + 1) c').map (a :: ·)
      else fail (.unconsumed (.bytes c'.remaining))
termination_by c.remaining

/-- The items that a byte string is made of, with nothing between or behind them. -/
def many {α : Type} (item : ByteReader α) (bs : Bytes) : Except CodecError (List α) :=
  manyFrom item 0 (Cursor.start bs)

/-! ### Whole byte strings -/

/-- The outcome of reading from the front of a byte string. -/
def runOn {α : Type} (r : ByteReader α) (bs : Bytes) : Except CodecError (α × Cursor) :=
  match r (Cursor.start bs) with
  | .ok a c => .ok (a, c)
  | .error e _ => .error e

/-- The outcome of reading a byte string that has to end where the reader does. -/
def exactly {α : Type} (r : ByteReader α) (bs : Bytes) : Except CodecError α :=
  match r (Cursor.start bs) with
  | .error e _ => .error e
  | .ok a c => if c.isAtEnd then .ok a else fail (.unconsumed (.bytes c.remaining))

end ByteReader

end CallData
