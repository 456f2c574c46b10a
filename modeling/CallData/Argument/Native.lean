import CallData.Argument
import CallData.Value.Native

/-!
# Arguments and native values

A single value fills as it does elsewhere; rows of arguments fill from sequences, and `null` leaves
out what may be left out. A whole argument list fills from a list of native values, in which
`null` stands for each that is missing at the end.
-/

namespace CallData

/-- A way to make an argument of one type from a native value. -/
abbrev ArgFiller := NativeValue → Except CodecError Argument

/-! ### By type -/

/-- An argument that may be left out, from a native value: `null` leaves it out. -/
def optionalOfNative (itemType : Option ArgType) (fill : ArgFiller) (n : NativeValue) :
    Except CodecError Argument :=
  match n with
  | .null => .ok (.optional itemType none)
  | _ => return .optional itemType (some (← fill n))

/-- Repeated arguments, one for each native value of a sequence. -/
def repeatedOfNative (fill : ArgFiller) (n : NativeValue) : Except CodecError (List Argument) := do
  Value.eachOfNative fill 0 (← n.items)

mutual

/-- An argument of a type from a native value. -/
def ArgType.ofNative : ArgType → ArgFiller
  | .single type => fun n => return .single (← type.ofNative n)
  | .multi items => fun n => return .multi (← Value.itemsByPosition (rowFillers items) n)
  | .optional item => optionalOfNative (some item) item.ofNative
  | .variadic item => fun n => return .variadic item (← repeatedOfNative item.ofNative n)
  | .counted item => fun n => return .counted item (← repeatedOfNative item.ofNative n)

/-- The fillers of some argument types. -/
def rowFillers : List ArgType → List ArgFiller
  | [] => []
  | type :: types => type.ofNative :: rowFillers types

end

/-! ### Into an argument -/

namespace Argument

mutual

/-- An argument from a native value, in place of another. -/
def fill : Argument → ArgFiller
  | .single v => fun n => return .single (← v.fill n)
  | .multi items => fun n => return .multi (← Value.itemsByPosition (fillAll items) n)
  | .optional (some type) _ => optionalOfNative (some type) type.ofNative
  | .optional none (some a) => optionalOfNative none (fill a)
  | .optional none none =>
    optionalOfNative none fun _ => CallData.fail (.missingPlaceholder "optional argument")
  | .variadic item _ => fun n => return .variadic item (← repeatedOfNative item.ofNative n)
  | .counted item _ => fun n => return .counted item (← repeatedOfNative item.ofNative n)

/-- The fillers in place of some arguments. -/
def fillAll : List Argument → List ArgFiller
  | [] => []
  | a :: args => fill a :: fillAll args

end

end Argument

/-! ### Into a placeholder -/

mutual

/-- Filling the placeholder of a type is making an argument of the type. -/
theorem ArgType.fill_placeholder (type : ArgType) : type.placeholder.fill = type.ofNative := by
  match type with
  | .single type =>
    rw [ArgType.placeholder, Argument.fill, ArgType.ofNative, type.fill_placeholder]
  | .optional _ | .variadic _ | .counted _ => rfl
  | .multi items =>
    rw [ArgType.placeholder, Argument.fill, ArgType.ofNative, fillAll_placeholderArguments items]

theorem fillAll_placeholderArguments (types : List ArgType) :
    Argument.fillAll (placeholderArguments types) = rowFillers types := by
  match types with
  | [] => rfl
  | type :: types =>
    rw [placeholderArguments, Argument.fillAll, rowFillers, type.fill_placeholder,
      fillAll_placeholderArguments types]

end

/-! ### Argument lists -/

namespace Argument

/-- Fills arguments, the first of them at index `i`, from native values; `null` stands for those
that are missing. -/
def fillFrom (i : Nat) : List Argument → List NativeValue → Except CodecError (List Argument)
  | [], _ => .ok []
  | a :: args, natives => do
    let filled ← inside (.argument i) (a.fill (natives.headD .null))
    return filled :: (← fillFrom (i + 1) args natives.tail)

/-- Fills an argument list from native values. Only when all arguments are filled does it count
against the native values that there are more of them. -/
def fillList (args : List Argument) (natives : List NativeValue) :
    Except CodecError (List Argument) := do
  let filled ← fillFrom 0 args natives
  if args.length < natives.length then CallData.fail (.lengthMismatch args.length natives.length)
  return filled

/-! ### Back to native values -/

mutual

/-- The native value that stands for an argument. -/
def toNative : Argument → NativeValue
  | .single v => v.toNative
  | .multi items => .seq (toNatives items)
  | .optional _ none => .null
  | .optional _ (some a) => toNative a
  | .variadic _ items => .seq (toNatives items)
  | .counted _ items => .seq (toNatives items)

/-- The native values that stand for some arguments. -/
def toNatives : List Argument → List NativeValue
  | [] => []
  | a :: args => toNative a :: toNatives args

end

end Argument

end CallData
