import CallData.Bytes.Cursor
import CallData.Bytes.Sink
import CallData.Text.Pieces

/-!
# Part buffers

A call carries its arguments as parts: byte strings in order. A `PartBuffer` is a row of parts
with one of them in focus. Writing appends to the row, or to its last part; reading looks at the
part in focus and moves the focus on. The focus ends up one place beyond the last part.

As text, a row of parts is the hexadecimal form of each, with a separator between neighbours.
-/

namespace CallData

/-- Parts in order, and the number of parts that have been read. -/
structure PartBuffer where
  parts : List Bytes
  focused : Nat
deriving Repr, DecidableEq

/-- A step that writes to a part buffer or reads from it. -/
abbrev PartStep := EStateM CodecError PartBuffer

namespace PartBuffer

/-- The buffer without parts. -/
def empty : PartBuffer :=
  ⟨[], 0⟩

/-- A buffer of parts, the first of them in focus. -/
def ofParts (parts : List Bytes) : PartBuffer :=
  ⟨parts, 0⟩

/-- The number of parts. -/
def size (b : PartBuffer) : Nat :=
  b.parts.length

/-- Whether there are no parts. -/
def isEmpty (b : PartBuffer) : Bool :=
  b.parts.isEmpty

/-- The number of parts from the focus on. -/
def remaining (b : PartBuffer) : Nat :=
  b.size - b.focused

/-- Whether the focus is beyond the last part. -/
def isAtEnd (b : PartBuffer) : Bool :=
  b.size ≤ b.focused

/-! ### Writing -/

/-- Appends a part without bytes, which becomes the last part. -/
def appendEmpty : PartStep Unit :=
  modify fun b => ⟨b.parts ++ [[]], b.focused⟩

/-- Writes to the end of the last part, and answers the number of bytes written. -/
def writeLast (p : Put Bytes) : PartStep Nat := fun b =>
  match b.parts.getLast? with
  | none => .error (.of .noPart) b
  | some last =>
    let (bs, n) := p.run last
    .ok n ⟨b.parts.dropLast ++ [bs], b.focused⟩

/-- Writes bytes to the end of the last part. -/
def appendToLast (bs : Bytes) : PartStep Unit := do
  let _ ← writeLast (.block bs)

/-- Appends a part that a step writes. -/
def appendPart (p : Put Bytes) : PartStep Unit := do
  appendEmpty
  let _ ← writeLast p

/-! ### Reading -/

/-- What it means to go past the last part. -/
def pastEnd (b : PartBuffer) : CodecError :=
  .of (.unexpectedEnd b.focused 1 0)

/-- The part in focus. -/
def focusedPart : PartStep Bytes := fun b =>
  match b.parts[b.focused]? with
  | some part => .ok part b
  | none => .error b.pastEnd b

/-- Moves the focus to the next part. -/
def focusNext : PartStep Unit := fun b =>
  if b.isAtEnd then .error b.pastEnd b else .ok () ⟨b.parts, b.focused + 1⟩

/-- Checks that every part has been read. -/
def checkAtEnd (b : PartBuffer) : Except CodecError Unit :=
  match b.remaining with
  | 0 => .ok ()
  | n => fail (.unconsumed (.parts n))

/-- Reads the part in focus as a whole, and moves the focus on. -/
def readPart {α : Type} (read : Bytes → Except CodecError α) : PartStep α := do
  let part ← focusedPart
  let a ← lift (read part)
  focusNext
  return a

/-- Reads items, the first of them at index `i`, until the focus is beyond the last part. An item
that reads no part is the last one. -/
def manyFrom {α : Type} (item : PartStep α) (i : Nat) : PartStep (List α) := fun b =>
  if b.isAtEnd then .ok [] b
  else
    match insideM (.index i) item b with
    | .error e b' => .error e b'
    | .ok a b' =>
      if b'.remaining < b.remaining then
        match manyFrom item (i + 1) b' with
        | .error e b'' => .error e b''
        | .ok rest b'' => .ok (a :: rest) b''
      else .ok [a] b'
termination_by b => b.remaining

/-- Reads `n` items, the first of them at index `i`. -/
def replicateFrom {α : Type} (item : PartStep α) : (n i : Nat) → PartStep (List α)
  | 0, _ => return []
  | n + 1, i => do
    let a ← insideM (.index i) item
    return a :: (← replicateFrom item n (i + 1))

/-! ### Text -/

/-- The text of the parts, with a separator between neighbours. -/
def toText (b : PartBuffer) (separator : String) : String :=
  String.ofList (Text.join separator.toList (b.parts.map fun part => part.flatMap Hex.digits))

/-- The parts whose hexadecimal forms are given, the first of them at index `i`. -/
def partsOfPieces (i : Nat) : List (List Char) → Except CodecError (List Bytes)
  | [] => .ok []
  | piece :: pieces => do
    let part ← inside (.index i)
      ((Hex.decode (String.ofList piece)).mapError fun fault => .of (.invalidHex fault))
    return part :: (← partsOfPieces (i + 1) pieces)

/-- The buffer whose parts a text spells out. A text without separator is one part, even when it
is empty. -/
def ofText (text separator : String) : Except CodecError PartBuffer := do
  return ofParts (← partsOfPieces 0 (Text.pieces separator.toList text.toList))

end PartBuffer

end CallData
