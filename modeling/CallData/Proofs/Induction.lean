import CallData.Value
import Mathlib.Data.List.Forall2
import Mathlib.Tactic.Ring

/-!
# Induction over types and values

Types and values hold lists of others, bare or under names. Their induction principles, which
`induction` takes up, assume of each the property of everything in those lists.
-/

namespace CallData

set_option linter.unusedSectionVars false

/-! ### Types -/

section Types

variable {P : ValueType → Prop}
  (int : ∀ width signed, P (.int width signed))
  (big : ∀ signed, P (.big signed))
  (bool : P .bool)
  (bytes : P .bytes)
  (str : P .str)
  (address : P .address)
  (decimal : ∀ scale, P (.decimal scale))
  (metadata : P .metadata)
  (list : ∀ item, P item → P (.list item))
  (array : ∀ item length, P item → P (.array item length))
  (struct : ∀ name fields, (∀ f ∈ fields, P f.value) → P (.struct name fields))
  (tuple : ∀ types, (∀ T ∈ types, P T) → P (.tuple types))
  (enum : ∀ table, (∀ v ∈ table.variants, ∀ f ∈ v.fields, P f.value) → P (.enum table))
  (explicit : ∀ name variants, P (.explicit name variants))
  (option : ∀ item, P item → P (.option item))

include int big bool bytes str address decimal metadata list array struct tuple enum explicit option

mutual

/-- A type has a property when each has it whose parts have it. -/
@[induction_eliminator]
theorem ValueType.induct (T : ValueType) : P T := by
  match T with
  | .int width signed => exact int width signed
  | .big signed => exact big signed
  | .bool => exact bool
  | .bytes => exact bytes
  | .str => exact str
  | .address => exact address
  | .decimal scale => exact decimal scale
  | .metadata => exact metadata
  | .list item => exact list item item.induct
  | .array item length => exact array item length item.induct
  | .struct name fields => exact struct name fields (ValueType.induct_fields fields)
  | .tuple types => exact tuple types (ValueType.induct_items types)
  | .enum ⟨name, variants⟩ => exact enum ⟨name, variants⟩ (ValueType.induct_variants variants)
  | .explicit name variants => exact explicit name variants
  | .option item => exact option item item.induct

/-- The part of the recursion that goes through the items of a tuple. -/
private theorem ValueType.induct_items (types : List ValueType) : ∀ T ∈ types, P T := by
  match types with
  | [] => simp
  | T :: types => exact List.forall_mem_cons.mpr ⟨T.induct, ValueType.induct_items types⟩

private theorem ValueType.induct_fields (fields : List (Field ValueType)) :
    ∀ f ∈ fields, P f.value := by
  match fields with
  | [] => simp
  | ⟨_, T⟩ :: fields =>
    exact List.forall_mem_cons.mpr ⟨T.induct, ValueType.induct_fields fields⟩

/-- The part of the recursion that goes through the variants of a table. -/
private theorem ValueType.induct_variants (variants : List (Variant ValueType)) :
    ∀ v ∈ variants, ∀ f ∈ v.fields, P f.value := by
  match variants with
  | [] => simp
  | ⟨_, _, fields⟩ :: variants =>
    exact List.forall_mem_cons.mpr
      ⟨ValueType.induct_fields fields, ValueType.induct_variants variants⟩

end

end Types

/-! ### Values -/

section Values

variable {P : Value → Prop}
  (int : ∀ x, P (.int x))
  (big : ∀ x, P (.big x))
  (bool : ∀ b, P (.bool b))
  (bytes : ∀ bs, P (.bytes bs))
  (str : ∀ s, P (.str s))
  (address : ∀ a, P (.address a))
  (decimal : ∀ a, P (.decimal a))
  (metadata : ∀ m, P (.metadata m))
  (list : ∀ item items, (∀ v ∈ items, P v) → P (.list item items))
  (array : ∀ item length items, (∀ v ∈ items, P v) → P (.array item length items))
  (struct : ∀ name fields, (∀ f ∈ fields, P f.value) → P (.struct name fields))
  (tuple : ∀ items, (∀ v ∈ items, P v) → P (.tuple items))
  (enum : ∀ table discriminant fields, (∀ f ∈ fields, P f.value) →
    P (.enum table discriminant fields))
  (explicit : ∀ variants name, P (.explicit variants name))
  (absent : ∀ item, P (.option item none))
  (present : ∀ item v, P v → P (.option item (some v)))

include int big bool bytes str address decimal metadata list array struct tuple enum explicit
include absent present

mutual

/-- A value has a property when each has it whose parts have it. -/
@[induction_eliminator]
theorem Value.induct (v : Value) : P v := by
  match v with
  | .int x => exact int x
  | .big x => exact big x
  | .bool b => exact bool b
  | .bytes bs => exact bytes bs
  | .str s => exact str s
  | .address a => exact address a
  | .decimal a => exact decimal a
  | .metadata m => exact metadata m
  | .list item items => exact list item items (Value.induct_items items)
  | .array item length items => exact array item length items (Value.induct_items items)
  | .struct name fields => exact struct name fields (Value.induct_fields fields)
  | .tuple items => exact tuple items (Value.induct_items items)
  | .enum table discriminant fields =>
    exact enum table discriminant fields (Value.induct_fields fields)
  | .explicit variants name => exact explicit variants name
  | .option item none => exact absent item
  | .option item (some v) => exact present item v v.induct

/-- The part of the recursion that goes through items. -/
private theorem Value.induct_items (items : List Value) : ∀ v ∈ items, P v := by
  match items with
  | [] => simp
  | v :: items => exact List.forall_mem_cons.mpr ⟨v.induct, Value.induct_items items⟩

private theorem Value.induct_fields (fields : List (Field Value)) : ∀ f ∈ fields, P f.value := by
  match fields with
  | [] => simp
  | ⟨_, v⟩ :: fields => exact List.forall_mem_cons.mpr ⟨v.induct, Value.induct_fields fields⟩

end

end Values

end CallData
