import CallData.Parts
import CallData.Value.Decode
import CallData.Value.Encode

/-!
# Arguments

An argument of a call is one value, or a combination of arguments that only argument lists know:
some in a row, one that may be left out, any number up to the end, any number behind their count.
Each contributes some parts to the call. Only the end of the parts delimits an optional or a
variadic argument, so these have to come last (`Argument.checkOrder`).

As with values, an argument carries what is needed to decode another in its place, and sameness
(`==`) looks only at what it holds.
-/

namespace CallData

/-- An argument of a call. -/
inductive Argument where
  /-- One value. -/
  | single (value : Value)
  /-- Some arguments in a row. -/
  | multi (items : List Argument)
  /-- An argument that may be left out. -/
  | optional (itemType : Option ArgType) (held : Option Argument)
  /-- Any number of arguments, up to the end. -/
  | variadic (itemType : ArgType) (items : List Argument)
  /-- Any number of arguments behind their count. -/
  | counted (itemType : ArgType) (items : List Argument)

/-! ### Placeholders -/

mutual

/-- The argument of a type in which every value is a placeholder, what may be left out is, and
nothing is repeated. -/
def ArgType.placeholder : ArgType → Argument
  | .single type => .single type.placeholder
  | .multi items => .multi (placeholderArguments items)
  | .optional item => .optional (some item) none
  | .variadic item => .variadic item []
  | .counted item => .counted item []

/-- Placeholders of some argument types. -/
def placeholderArguments : List ArgType → List Argument
  | [] => []
  | type :: types => type.placeholder :: placeholderArguments types

end

namespace Argument

/-! ### Sameness -/

mutual

/-- Whether two arguments hold the same. -/
def same : Argument → Argument → Bool
  | .single a, .single b => a == b
  | .multi as, .multi bs => sameArguments as bs
  | .optional _ none, .optional _ none => true
  | .optional _ (some a), .optional _ (some b) => same a b
  | .variadic _ as, .variadic _ bs => sameArguments as bs
  | .counted _ as, .counted _ bs => sameArguments as bs
  | _, _ => false

/-- Whether two rows of arguments hold the same in the same order. -/
def sameArguments : List Argument → List Argument → Bool
  | [], [] => true
  | a :: as, b :: bs => same a b && sameArguments as bs
  | _, _ => false

end

instance : BEq Argument :=
  ⟨same⟩

/-! ### Order -/

/-- The kind of an argument, in words. -/
def kindName : Argument → String
  | single _ => "single value"
  | multi _ => "multi-value"
  | optional .. => "optional value"
  | variadic .. => "variadic values"
  | counted .. => "counted variadic values"

mutual

/-- Checks one of `count` arguments, at `position`; `isTail` tells whether nothing comes behind
it in the whole call. -/
def checkPlace (position count : Nat) (isTail : Bool) : Argument → Except CodecError Unit
  | .single _ => .ok ()
  | .multi items =>
    inside (.index position) (checkPlaces 0 items.length isTail items)
  | .optional _ held =>
    if isTail then checkHeld isTail held
    else fail (.misplaced "optional value" position count)
  | .variadic _ items =>
    if isTail then checkItems 0 items
    else fail (.misplaced "variadic values" position count)
  | .counted _ items => checkItems 0 items

/-- Checks the argument that an optional one holds. -/
def checkHeld (isTail : Bool) : Option Argument → Except CodecError Unit
  | none => .ok ()
  | some a => checkPlace 0 1 isTail a

/-- Checks the last of `count` arguments, from `position` on. -/
def checkPlaces (position count : Nat) (isTail : Bool) : List Argument → Except CodecError Unit
  | [] => .ok ()
  | a :: args => do
    checkPlace position count (isTail && args.isEmpty) a
    checkPlaces (position + 1) count isTail args

/-- Checks repeated arguments, the first of them at index `i`. Other items come behind each, or
may come. -/
def checkItems (i : Nat) : List Argument → Except CodecError Unit
  | [] => .ok ()
  | a :: args => do
    inside (.index i) (checkPlace 0 1 false a)
    checkItems (i + 1) args

end

/-- Checks that optional and variadic arguments come last in a call. -/
def checkOrder (args : List Argument) : Except CodecError Unit :=
  checkPlaces 0 args.length true args

/-! ### Encoding -/

mutual

/-- Appends the parts of an argument. -/
def write : Argument → PartStep Unit
  | .single v => PartBuffer.appendPart v.putTop
  | .multi items => writeAll items
  | .optional _ none => return ()
  | .optional _ (some a) => write a
  | .variadic _ items => writeAll items
  | .counted _ items => do
    PartBuffer.appendPart (.block (Bytes.shortest false (items.length % UInt32.size : Nat)))
    writeAll items

/-- Appends the parts of some arguments. -/
def writeAll : List Argument → PartStep Unit
  | [] => return ()
  | a :: args => do
    write a
    writeAll args

end

end Argument

/-! ### Decoding by type -/

/-- Reads the part that holds a count. -/
def readCount : PartStep Nat := do
  let n ← PartBuffer.readPart (FixedInt.ofTop .w32 false)
  return n.value.toNat

/-- Reads an argument that may be left out, and is where no part is left. -/
def readOptional (itemType : Option ArgType) (item : PartStep Argument) : PartStep Argument := do
  if (← get).isAtEnd then return .optional itemType none
  else return .optional itemType (some (← item))

/-- Reads arguments in turn, the first of them at index `i`. -/
def readRow (i : Nat) : List (PartStep Argument) → PartStep (List Argument)
  | [] => return []
  | item :: items => do
    let a ← insideM (.index i) item
    return a :: (← readRow (i + 1) items)

mutual

/-- Reads an argument of a type. -/
def ArgType.read : ArgType → PartStep Argument
  | .single type => return .single (← PartBuffer.readPart type.placeholder.readTop)
  | .multi items => return .multi (← readRow 0 (rowReaders items))
  | .optional item => readOptional (some item) item.read
  | .variadic item => return .variadic item (← PartBuffer.manyFrom item.read 0)
  | .counted item => do
    let n ← readCount
    return .counted item (← PartBuffer.replicateFrom item.read n 0)

/-- The readers of some argument types. -/
def rowReaders : List ArgType → List (PartStep Argument)
  | [] => []
  | type :: types => type.read :: rowReaders types

end

/-! ### Decoding into an argument -/

namespace Argument

mutual

/-- Reads an argument in place of another. -/
def read : Argument → PartStep Argument
  | .single v => return .single (← PartBuffer.readPart v.readTop)
  | .multi items => return .multi (← readRow 0 (heldReaders items))
  | .optional (some type) _ => readOptional (some type) type.read
  | .optional none (some a) => readOptional none (read a)
  | .optional none none =>
    readOptional none (throw (.of (.missingPlaceholder "optional argument")))
  | .variadic item _ => return .variadic item (← PartBuffer.manyFrom item.read 0)
  | .counted item _ => do
    let n ← readCount
    return .counted item (← PartBuffer.replicateFrom item.read n 0)

/-- The readers in place of some arguments. -/
def heldReaders : List Argument → List (PartStep Argument)
  | [] => []
  | a :: args => read a :: heldReaders args

end

end Argument

/-! ### Decoding into a placeholder -/

mutual

/-- Reading into the placeholder of a type is reading by the type. -/
theorem ArgType.read_placeholder (type : ArgType) : type.placeholder.read = type.read := by
  match type with
  | .single _ | .optional _ | .variadic _ | .counted _ => rfl
  | .multi items =>
    rw [ArgType.placeholder, Argument.read, ArgType.read, heldReaders_placeholderArguments items]

theorem heldReaders_placeholderArguments (types : List ArgType) :
    Argument.heldReaders (placeholderArguments types) = rowReaders types := by
  match types with
  | [] => rfl
  | type :: types =>
    rw [placeholderArguments, Argument.heldReaders, rowReaders, type.read_placeholder,
      heldReaders_placeholderArguments types]

end

end CallData
