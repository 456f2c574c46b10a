import CallData.Argument

/-!
# Calls

The arguments of a call go into parts one after the other, and the parts into a text with a
separator between neighbours; a `Separator` is a text that can never be mistaken for part of a
part. The other way, parts fill a list of arguments in, and have to be used up by it.
-/

namespace CallData

/-! ### Separators -/

/-- A text that stands between parts: not empty, and without hexadecimal digits. -/
structure Separator where
  text : String
  ne_empty : text ≠ ""
  no_digit : ∀ c ∈ text.toList, Hex.digit? c = none
deriving DecidableEq

namespace Separator

/-- The usual separator. -/
def standard : Separator :=
  ⟨"@", by decide, by simp [Hex.digit?]⟩

/-- A text as a separator, if it can be one. -/
def ofString (s : String) : Except CodecError Separator :=
  if h : s ≠ "" ∧ s.toList.all fun c => (Hex.digit? c).isNone then
    .ok ⟨s, h.1, fun c hc => Option.isNone_iff_eq_none.mp (List.all_eq_true.mp h.2 c hc)⟩
  else fail (.invalidSeparator s)

end Separator

/-! ### Encoding -/

namespace Argument

/-- Appends the parts of arguments, the first of them at index `i`. -/
def writeFrom (i : Nat) : List Argument → PartStep Unit
  | [] => return ()
  | a :: args => do
    insideM (.argument i) a.write
    writeFrom (i + 1) args

/-- The parts of the arguments of a call. -/
def encode (args : List Argument) : Except CodecError PartBuffer := do
  checkOrder args
  match writeFrom 0 args PartBuffer.empty with
  | .ok _ b => return b
  | .error e _ => throw e

/-- The parts of the arguments of a call. -/
def toParts (args : List Argument) : Except CodecError (List Bytes) :=
  (encode args).map PartBuffer.parts

/-- The text of the arguments of a call. -/
def toText (separator : Separator) (args : List Argument) : Except CodecError String :=
  (encode args).map fun b => b.toText separator.text

/-! ### Decoding -/

/-- Reads arguments in place of others, the first of them at index `i`. -/
def readFrom (i : Nat) : List Argument → PartStep (List Argument)
  | [] => return []
  | held :: args => do
    let a ← insideM (.argument i) held.read
    return a :: (← readFrom (i + 1) args)

/-- Reads the arguments of a call in place of others. -/
def decode (args : List Argument) (b : PartBuffer) : Except CodecError (List Argument) := do
  checkOrder args
  match readFrom 0 args b with
  | .ok decoded rest =>
    rest.checkAtEnd
    return decoded
  | .error e _ => throw e

/-- Reads the arguments of a call from its parts, in place of others. -/
def ofParts (args : List Argument) (parts : List Bytes) : Except CodecError (List Argument) :=
  decode args (PartBuffer.ofParts parts)

/-- Reads the arguments of a call from its text, in place of others. -/
def ofText (separator : Separator) (args : List Argument) (text : String) :
    Except CodecError (List Argument) := do
  decode args (← PartBuffer.ofText text separator.text)

end Argument

end CallData
