import CallData.Native.Json
import CallData.Text.Pieces
import Mathlib.Algebra.Order.Ring.Int
import Mathlib.Data.List.Basic

/-!
# What JSON keeps of native values

JSON has strings in the place of decimals, of bytes and of the integers that do not fit its numbers.
`NativeValue.viaJson` is a native value with these strings in it: nothing in it has to be replaced
any more (`NativeValue.isJson_viaJson`), and it is written as the native value itself is
(`Json.chars_viaJson`).
-/

namespace CallData

/-! ### Induction -/

section Induction

set_option linter.unusedSectionVars false

variable {P : NativeValue → Prop}
  (null : P .null)
  (bool : ∀ b, P (.bool b))
  (int : ∀ i, P (.int i))
  (decimal : ∀ d, P (.decimal d))
  (str : ∀ s, P (.str s))
  (bytes : ∀ bs, P (.bytes bs))
  (seq : ∀ items, (∀ n ∈ items, P n) → P (.seq items))
  (record : ∀ fields : List (Field NativeValue), (∀ f ∈ fields, P f.value) → P (.record ⟨fields⟩))

include null bool int decimal str bytes seq record

mutual

/-- A native value has a property when each has it whose parts have it. -/
@[induction_eliminator]
theorem NativeValue.induct (n : NativeValue) : P n := by
  match n with
  | .null => exact null
  | .bool b => exact bool b
  | .int i => exact int i
  | .decimal d => exact decimal d
  | .str s => exact str s
  | .bytes bs => exact bytes bs
  | .seq items => exact seq items (NativeValue.induct_items items)
  | .record ⟨fields⟩ => exact record fields (NativeValue.induct_fields fields)

/-- The part of the recursion that goes through a sequence. -/
private theorem NativeValue.induct_items (items : List NativeValue) : ∀ n ∈ items, P n := by
  match items with
  | [] => simp
  | n :: items => exact List.forall_mem_cons.mpr ⟨n.induct, NativeValue.induct_items items⟩

private theorem NativeValue.induct_fields (fields : List (Field NativeValue)) :
    ∀ f ∈ fields, P f.value := by
  match fields with
  | [] => simp
  | ⟨_, n⟩ :: fields =>
    exact List.forall_mem_cons.mpr ⟨n.induct, NativeValue.induct_fields fields⟩

end

end Induction

/-! ### Strings in the place of others -/

namespace NativeValue

mutual

/-- What is left of a native value on the way over JSON: integers that are no 64-bit numbers, with
or without a sign, are strings of their numerals, decimals are strings of their texts, and bytes are
strings of their hexadecimal forms. -/
def viaJson : NativeValue → NativeValue
  | .int i => if -2 ^ 63 ≤ i ∧ i < 2 ^ 64 then .int i else .str (toString i)
  | .decimal d => .str d.text
  | .bytes bs => .str (Hex.encode bs)
  | .seq items => .seq (itemsViaJson items)
  | .record ⟨fields⟩ => .record ⟨fieldsViaJson fields⟩
  | n => n

/-- What is left of some native values. -/
def itemsViaJson : List NativeValue → List NativeValue
  | [] => []
  | n :: items => viaJson n :: itemsViaJson items

/-- What is left of the values of fields. -/
def fieldsViaJson : List (Field NativeValue) → List (Field NativeValue)
  | [] => []
  | ⟨name, n⟩ :: fields => ⟨name, viaJson n⟩ :: fieldsViaJson fields

end

theorem itemsViaJson_eq_map (items : List NativeValue) :
    itemsViaJson items = items.map viaJson := by
  induction items with
  | nil => rfl
  | cons n items ih => rw [itemsViaJson, ih, List.map_cons]

theorem fieldsViaJson_eq_map (fields : List (Field NativeValue)) :
    fieldsViaJson fields = fields.map fun f => ⟨f.name, f.value.viaJson⟩ := by
  induction fields with
  | nil => rfl
  | cons f fields ih => rw [fieldsViaJson, ih, List.map_cons]

/-- Nothing in a native value has to be replaced by a string. -/
inductive IsJson : NativeValue → Prop where
  | null : IsJson .null
  | bool (b : Bool) : IsJson (.bool b)
  | int {i : Int} (h : -2 ^ 63 ≤ i ∧ i < 2 ^ 64) : IsJson (.int i)
  | str (s : String) : IsJson (.str s)
  | seq {items : List NativeValue} (h : ∀ n ∈ items, IsJson n) : IsJson (.seq items)
  | record {fields : List (Field NativeValue)} (h : ∀ f ∈ fields, IsJson f.value) :
    IsJson (.record ⟨fields⟩)

/-- Everything that JSON has no form for is a string afterwards, at any depth. -/
theorem isJson_viaJson (n : NativeValue) : n.viaJson.IsJson := by
  induction n with
  | null => exact .null
  | bool b => exact .bool b
  | int i =>
    rw [viaJson]
    by_cases h : -2 ^ 63 ≤ i ∧ i < 2 ^ 64
    · rw [if_pos h]
      exact .int h
    · rw [if_neg h]
      exact .str _
  | decimal d => exact .str _
  | str s => exact .str s
  | bytes bs => exact .str _
  | seq items ih =>
    rw [viaJson, itemsViaJson_eq_map]
    exact .seq (List.forall_mem_map.mpr ih)
  | record fields ih =>
    rw [viaJson, fieldsViaJson_eq_map]
    exact .record (List.forall_mem_map.mpr ih)

end NativeValue

namespace Json

/-! ### What is written -/

theorem integer_of_bounds {i : Int} (h : -2 ^ 63 ≤ i ∧ i < 2 ^ 64) :
    integer i = (toString i).toList :=
  if_pos h

/-- An integer beyond the numbers of 64 bits is written as the string of its numeral. -/
theorem integer_of_not_bounds {i : Int} (h : ¬ (-2 ^ 63 ≤ i ∧ i < 2 ^ 64)) :
    integer i = string (toString i).toList :=
  if_neg h

/-- The characters of a field of a record. -/
def field (f : Field NativeValue) : List Char :=
  string f.name.toList ++ ':' :: chars f.value

theorem itemChars_eq_join (items : List NativeValue) :
    itemChars items = Text.join [','] (items.map chars) := by
  induction items with
  | nil => rfl
  | cons n items ih =>
    cases items with
    | nil => rw [itemChars, List.map_singleton, Text.join, List.intercalate_singleton]
    | cons m items =>
      rw [itemChars, ih]
      · simp [Text.join, List.intercalate_cons_cons]
      · exact List.cons_ne_nil m items

/-- Commas stand between the fields of a record, and nothing else does. -/
theorem fieldChars_eq_join (fields : List (Field NativeValue)) :
    fieldChars fields = Text.join [','] (fields.map field) := by
  induction fields with
  | nil => rfl
  | cons f fields ih =>
    cases fields with
    | nil => rw [fieldChars, List.map_singleton, Text.join, List.intercalate_singleton, field]
    | cons g fields =>
      rw [fieldChars, ih]
      · simp [Text.join, List.intercalate_cons_cons, field]
      · exact List.cons_ne_nil g fields

/-- A sequence with a text behind it, opened up to its bracket. -/
theorem chars_seq_append (items : List NativeValue) (rest : List Char) :
    chars (.seq items) ++ rest = '[' :: (Text.join [','] (items.map chars) ++ ']' :: rest) := by
  rw [chars, itemChars_eq_join, List.cons_append, List.cons_append, List.append_assoc,
    List.singleton_append]

/-- A record with a text behind it, opened up to its brace. -/
theorem chars_record_append (fields : List (Field NativeValue)) (rest : List Char) :
    chars (.record ⟨fields⟩) ++ rest =
      '\x7b' :: (Text.join [','] (fields.map field) ++ '\x7d' :: rest) := by
  rw [chars, fieldChars_eq_join, List.cons_append, List.cons_append, List.append_assoc,
    List.singleton_append]

/-- What is replaced by a string is written as that string. -/
theorem chars_viaJson (n : NativeValue) : chars n.viaJson = chars n := by
  induction n with
  | int i =>
    rw [NativeValue.viaJson, chars]
    by_cases h : -2 ^ 63 ≤ i ∧ i < 2 ^ 64
    · rw [if_pos h, chars]
    · rw [if_neg h, chars, integer_of_not_bounds h]
  | decimal d => rw [NativeValue.viaJson, chars, chars, Decimal.text, String.toList_ofList]
  | bytes bs => rw [NativeValue.viaJson, chars, chars, Hex.encode, String.toList_ofList]
  | seq items ih =>
    have hitems : items.map (chars ∘ NativeValue.viaJson) = items.map chars :=
      List.map_congr_left ih
    rw [NativeValue.viaJson, NativeValue.itemsViaJson_eq_map, chars, chars, itemChars_eq_join,
      itemChars_eq_join, List.map_map, hitems]
  | record fields ih =>
    have hfields : fields.map (field ∘ fun f => ⟨f.name, f.value.viaJson⟩) = fields.map field :=
      List.map_congr_left fun f hf => by rw [Function.comp_apply, field, field, ih f hf]
    rw [NativeValue.viaJson, NativeValue.fieldsViaJson_eq_map, chars, chars, fieldChars_eq_join,
      fieldChars_eq_join, List.map_map, hfields]
  | _ => rfl

end Json

end CallData
