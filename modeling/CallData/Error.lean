import CallData.Text.Hex
import CallData.Text.Quoted
import CallData.Text.Utf8

/-!
# Errors

Every operation that can fail answers a `CodecError`: a `Cause`, under the path of positions that
leads to it from the outside. `CodecError.message` words the whole, outermost position first.
-/

namespace CallData

/-! ### Positions -/

/-- A position within a value, an argument or an argument list. -/
inductive Locator where
  /-- A named field. -/
  | field (name : String)
  /-- An item of a sequence. -/
  | index (i : Nat)
  /-- An argument of a call. -/
  | argument (i : Nat)
deriving Repr, DecidableEq

namespace Locator

/-- The wording of a position. -/
def message : Locator → String
  | field name => s!"field `{name}`"
  | index i => s!"index {i}"
  | argument i => s!"argument {i}"

end Locator

/-! ### Details of a cause -/

/-- A number on the wrong side of a bound. -/
inductive BoundsFault where
  | underflow (min val : Int)
  | overflow (max val : Int)
deriving Repr, DecidableEq

namespace BoundsFault

/-- The wording of a fault. -/
def message : BoundsFault → String
  | underflow min val => s!"provided value {val} less than minimum bound {min}"
  | overflow max val => s!"provided value {val} greater than maximum bound {max}"

end BoundsFault

/-- What a decoder leaves unread. -/
inductive Leftover where
  | bytes (n : Nat)
  | parts (n : Nat)
deriving Repr, DecidableEq

namespace Leftover

/-- The wording of a leftover. -/
def message : Leftover → String
  | bytes n => s!"{n} unconsumed byte(s)"
  | parts n => s!"{n} unconsumed part(s)"

end Leftover

/-! ### Causes -/

/-- What went wrong, without the position. -/
inductive Cause where
  /-- More was asked for than was left. -/
  | unexpectedEnd (offset requested available : Nat)
  /-- A number lies outside of its range. -/
  | outOfRange (fault : BoundsFault)
  /-- An octet is no truth value. -/
  | invalidBool (octet : UInt8)
  /-- An octet marks neither an absent nor a present value. -/
  | invalidMarker (octet : UInt8)
  /-- An address has the wrong number of octets. -/
  | addressLength (exact actual : Nat)
  /-- A text is not well-formed UTF-8. -/
  | invalidUtf8 (fault : Utf8.Fault)
  /-- A sequence has the wrong number of items. -/
  | lengthMismatch (exact actual : Nat)
  /-- The type of what is to be decoded is not known. -/
  | missingPlaceholder (what : String)
  /-- An argument that only the end delimits stands before another. -/
  | misplaced (kind : String) (position count : Nat)
  /-- A decoder finished before its input did. -/
  | unconsumed (leftover : Leftover)
  /-- A native value does not have the shape of the value that it should become. -/
  | typeMismatch (expected found : String)
  /-- A record lacks a field. -/
  | missingField (name : String)
  /-- There is no part to write to. -/
  | noPart
  /-- A text is not hexadecimal. -/
  | invalidHex (fault : Hex.Fault)
  /-- An enum has no such variant. -/
  | unknownVariant (what : String)
  /-- A separator is empty, or may occur within a part. -/
  | invalidSeparator (separator : String)
deriving Repr, DecidableEq

/-- The class of a cause. -/
inductive ErrorKind where
  | unexpectedEnd
  | outOfRange
  | invalidBool
  | invalidMarker
  | addressLength
  | invalidUtf8
  | lengthMismatch
  | missingPlaceholder
  | misplaced
  | unconsumed
  | typeMismatch
  | missingField
  | noPart
  | invalidHex
  | unknownVariant
  | invalidSeparator
deriving Repr, DecidableEq

namespace Cause

/-- The class of a cause. -/
def kind : Cause → ErrorKind
  | unexpectedEnd .. => .unexpectedEnd
  | outOfRange _ => .outOfRange
  | invalidBool _ => .invalidBool
  | invalidMarker _ => .invalidMarker
  | addressLength .. => .addressLength
  | invalidUtf8 _ => .invalidUtf8
  | lengthMismatch .. => .lengthMismatch
  | missingPlaceholder _ => .missingPlaceholder
  | misplaced .. => .misplaced
  | unconsumed _ => .unconsumed
  | typeMismatch .. => .typeMismatch
  | missingField _ => .missingField
  | noPart => .noPart
  | invalidHex _ => .invalidHex
  | unknownVariant _ => .unknownVariant
  | invalidSeparator _ => .invalidSeparator

/-- The wording of the detail that a cause wraps, for the causes that wrap one. -/
def detail? : Cause → Option String
  | outOfRange fault => some fault.message
  | addressLength exact actual =>
    some s!"{actual}-byte value violated requirement of {exact} bytes"
  | invalidUtf8 fault => some fault.message
  | lengthMismatch exact actual =>
    some s!"{actual}-element value violated requirement of {exact} elements"
  | invalidHex fault => some fault.message
  | _ => none

/-- The wording of a cause. -/
def message (c : Cause) : String :=
  let detail := c.detail?.getD ""
  match c with
  | unexpectedEnd offset requested available =>
    "unexpected end of data: " ++
      s!"requested {requested} at offset {offset} with only {available} remaining"
  | outOfRange _ => s!"value out of range: {detail}"
  | invalidBool octet =>
    let digits := Hex.encode [octet]
    s!"invalid boolean encoding 0x{digits}"
  | invalidMarker octet =>
    let digits := Hex.encode [octet]
    s!"invalid option marker 0x{digits} (expected 0x00 or 0x01)"
  | addressLength .. => s!"invalid address: {detail}"
  | invalidUtf8 _ => s!"invalid UTF-8 in string payload: {detail}"
  | lengthMismatch .. => s!"length mismatch: {detail}"
  | missingPlaceholder what => s!"cannot decode {what} without a placeholder for its inner type"
  | misplaced kind position count =>
    s!"{kind} must be the last argument, found at position {position} of {count}"
  | unconsumed leftover => "decoding finished with " ++ leftover.message
  | typeMismatch expected found => s!"type mismatch: expected {expected}, found {found}"
  | missingField name => s!"missing field `{name}`"
  | noPart => "no part to write to"
  | invalidHex _ => detail
  | unknownVariant what => s!"unknown enum variant {what}"
  | invalidSeparator separator =>
    let separator := Text.quoted separator
    s!"invalid part separator {separator}: must be non-empty and contain no hex digits"

end Cause

/-! ### Errors -/

/-- A cause, and the positions that lead to it, outermost first. -/
structure CodecError where
  path : List Locator
  cause : Cause
deriving Repr, DecidableEq

namespace CodecError

/-- An error at the position where it is noticed. -/
def of (c : Cause) : CodecError :=
  ⟨[], c⟩

/-- The same error, seen from one position further out. -/
def inside (l : Locator) (e : CodecError) : CodecError :=
  ⟨l :: e.path, e.cause⟩

/-- The class of an error is that of its cause. -/
def kind (e : CodecError) : ErrorKind :=
  e.cause.kind

/-- The wording of a cause under a path. -/
def messageUnder (c : Cause) : List Locator → String
  | [] => c.message
  | l :: path => l.message ++ ": " ++ messageUnder c path

/-- The wording of an error: its positions, outermost first, and its cause. -/
def message (e : CodecError) : String :=
  messageUnder e.cause e.path

/-- The wordings of a cause under each inner part of a path, and at last that of the detail
which the cause wraps. -/
def traceUnder (c : Cause) : List Locator → List String
  | [] => c.detail?.toList
  | _ :: path => messageUnder c path :: traceUnder c path

/-- The wordings of what an error comes from, one step inwards at a time. -/
def trace (e : CodecError) : List String :=
  traceUnder e.cause e.path

end CodecError

/-! ### Checks -/

/-- Fails with a cause. -/
def fail {α : Type} (c : Cause) : Except CodecError α :=
  .error (.of c)

/-- Puts the error of a step under a position. -/
def inside {α : Type} (l : Locator) (r : Except CodecError α) : Except CodecError α :=
  r.mapError (CodecError.inside l)

/-- Puts the error of a step with state under a position. -/
def insideM {σ α : Type} (l : Locator) (x : EStateM CodecError σ α) : EStateM CodecError σ α :=
  x.adaptExcept (CodecError.inside l)

/-- A step that leaves the state alone. -/
def lift {σ α : Type} (r : Except CodecError α) : EStateM CodecError σ α :=
  match r with
  | .ok a => pure a
  | .error e => throw e

/-- Checks that a number is at least `min`, and then that it is at most `max` if there is one. -/
def checkBounds (val min : Int) (max : Option Int) : Except CodecError Unit :=
  if val < min then fail (.outOfRange (.underflow min val))
  else
    match max with
    | some m => if m < val then fail (.outOfRange (.overflow m val)) else .ok ()
    | none => .ok ()

/-- Checks the number of items of a sequence. -/
def checkLength (exact actual : Nat) : Except CodecError Unit :=
  if exact = actual then .ok () else fail (.lengthMismatch exact actual)

end CallData
