import CallData.Value

/-!
# Encoding values

Every value has two encodings. The nested one tells where it ends, and stands wherever a value is
part of another. The top-level one has a byte string for itself, and leaves out what the end of
the byte string tells: the length of a payload, the number of items of a list, the zero that is
all of a number, an absent option, a variant zero without fields.
-/

namespace CallData

namespace Value

variable {σ : Type} [Sink σ]

/-! ### Nested -/

mutual

/-- Writes a value so that a reader of its type can tell where it ends. -/
def putNested : Value → Put σ
  | .int i => i.putNested
  | .big i => i.putNested
  | .bool b => .octet b.toUInt8
  | .bytes bs => .framed bs
  | .str s => .framed (Utf8.encode s)
  | .address a => a.put
  | .decimal a => a.putNested
  | .metadata m => m.put
  | .list _ items => .count items.length ++ putItems items
  | .array _ _ items => putItems items
  | .struct _ fields => putFields fields
  | .tuple items => putItems items
  | .enum _ discriminant fields => .octet discriminant ++ putFields fields
  | .explicit _ name => .framed (Utf8.encode name)
  | .option _ none => .octet 0
  | .option _ (some v) => .octet 1 ++ putNested v

/-- Writes values one after the other. -/
def putItems : List Value → Put σ
  | [] => .nothing
  | v :: items => putNested v ++ putItems items

/-- Writes the values of fields one after the other. -/
def putFields : List (Field Value) → Put σ
  | [] => .nothing
  | ⟨_, v⟩ :: fields => putNested v ++ putFields fields

end

/-- The nested encoding. -/
def nested (v : Value) : Bytes :=
  (putNested v).bytes

/-- The length of the nested encoding, found without keeping it. -/
def nestedLength (v : Value) : Nat :=
  (putNested v).size

/-! ### Top level -/

/-- Writes a value that has a byte string for itself. -/
def putTop (v : Value) : Put σ :=
  match v with
  | .int i => i.putTop
  | .big i => i.putTop
  | .bool b => if b then .octet 1 else .nothing
  | .bytes bs => .block bs
  | .str s => .block (Utf8.encode s)
  | .decimal a => a.putTop
  | .list _ items => putItems items
  | .enum _ 0 [] => .nothing
  | .explicit _ name => .block (Utf8.encode name)
  | .option _ none => .nothing
  | _ => putNested v

/-- The top-level encoding. -/
def top (v : Value) : Bytes :=
  (putTop v).bytes

end Value

end CallData
