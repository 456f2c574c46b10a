import CallData.Bytes.Cursor

/-!
# Reading a slice

A slice is a whole byte string with the number of bytes that have been read of it. What is left is
found by subtracting, and what is taken is cut out from one offset to another. All that can be asked
of a slice comes down to `SliceReader.consume`. The cursor of a slice is the place where it stands,
without the bytes behind it, so that any reader of bytes runs on a slice as well.
-/

namespace CallData

/-- A byte string, and the number of its bytes that have been read. -/
structure Slice where
  buffer : Bytes
  offset : Nat
deriving Repr, DecidableEq

namespace Slice

/-- A byte string of which nothing has been read. -/
def start (bs : Bytes) : Slice :=
  ⟨bs, 0⟩

/-- The length of the whole byte string. -/
def viewLength (s : Slice) : Nat :=
  s.buffer.length

/-- The number of bytes still to be read. -/
def remainder (s : Slice) : Nat :=
  s.viewLength - s.offset

/-- Whether every byte has been read. -/
def isExhausted (s : Slice) : Bool :=
  s.remainder == 0

/-- The place where a slice stands. -/
def cursor (s : Slice) : Cursor :=
  ⟨s.offset, s.buffer.drop s.offset⟩

end Slice

/-- A step that reads from a slice. -/
abbrev SliceReader := EStateM CodecError Slice

namespace SliceReader

/-- Reads the next `n` bytes, unless fewer are left. -/
def consume (n : Nat) : SliceReader Bytes := fun s =>
  if s.remainder < n then .error (.of (.unexpectedEnd s.offset n s.remainder)) s
  else .ok (s.buffer.extract s.offset (s.offset + n)) ⟨s.buffer, s.offset + n⟩

/-- Reads the next `n` bytes into a copy of their own. -/
def copy (n : Nat) : SliceReader Bytes :=
  consume n

/-- Reads the next `n` bytes into an array of this length. -/
def array (n : Nat) : SliceReader Bytes :=
  consume n

/-- Reads the next byte. -/
def octet : SliceReader UInt8 := do
  return (← consume 1).headD 0

/-- Reads four bytes as a number. -/
def count : SliceReader Nat := do
  return (← array 4).toNat

/-- Reads a truth value from one byte. -/
def bool : SliceReader Bool := do
  match ← octet with
  | 0 => return false
  | 1 => return true
  | b => throw (.of (.invalidBool b))

/-- Reads as many bytes as are left; if that many could not be read, it would answer none. -/
def takeRest : SliceReader Bytes := fun s =>
  match copy s.remainder s with
  | .ok bs t => .ok bs t
  | .error _ t => .ok [] t

/-- Runs a reader of bytes from where a slice stands. -/
def ofReader {α : Type} (r : ByteReader α) : SliceReader α := fun s =>
  match r s.cursor with
  | .ok a c => .ok a ⟨s.buffer, c.offset⟩
  | .error e c => .error e ⟨s.buffer, c.offset⟩

end SliceReader

end CallData
