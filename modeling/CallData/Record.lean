/-!
# Named fields and records

A `Field` is a name with what it stands for. A `Record` is a map from names that remembers the
order in which they first came: inserting a name anew changes its value and leaves its place.
-/

namespace CallData

/-- A name, and what it stands for. -/
structure Field (α : Type) where
  name : String
  value : α
deriving Repr, DecidableEq

/-- Fields in the order of their first insertion. -/
structure Record (α : Type) where
  fields : List (Field α)
deriving Repr, DecidableEq

namespace Record

variable {α : Type}

/-- The record without fields. -/
def empty : Record α :=
  ⟨[]⟩

/-- Gives the first field of a name its value, or makes a new last field. -/
def put (name : String) (value : α) : List (Field α) → List (Field α)
  | [] => [⟨name, value⟩]
  | f :: fs => if f.name = name then ⟨name, value⟩ :: fs else f :: put name value fs

/-- Sets the value of a name. -/
def insert (r : Record α) (name : String) (value : α) : Record α :=
  ⟨put name value r.fields⟩

/-- The value of a name. -/
def get? (r : Record α) (name : String) : Option α :=
  (r.fields.find? fun f => f.name == name).map Field.value

/-- The number of names. -/
def size (r : Record α) : Nat :=
  r.fields.length

/-- Whether a record has no names. -/
def isEmpty (r : Record α) : Bool :=
  r.fields.isEmpty

/-- The record made by inserting fields one after the other. -/
def ofList (fs : List (Field α)) : Record α :=
  fs.foldl (fun r f => r.insert f.name f.value) empty

end Record

end CallData
