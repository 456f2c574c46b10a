import CallData.Proofs.Sameness

/-!
# Values of a type

`ValueType.Has` says which values a type has: they are shaped as it declares, within its bounds,
and carry what it says for decoding. A value *conforms* to a type (`ValueType.Conforms`) when it is
the same as a value of the type; what it carries itself does not count.

A value *fits* the wire (`Value.Fits`) when four bytes have room for the length of each payload
and the number of items of each list in it. A type is of *zero width* (`ValueType.IsZeroWidth`)
when its values are written without any byte (`ValueType.Has.nested_eq_nil_iff`).
-/

namespace CallData

/-! ### Conformance -/

/-- The values of a type. -/
inductive ValueType.Has : ValueType → Value → Prop where
  | int {width : IntWidth} {signed : Bool} {i : Int} (hmin : width.min signed ≤ i)
      (hmax : i ≤ width.max signed) : Has (.int width signed) (.int ⟨width, signed, i⟩)
  | big {signed : Bool} {i : Int} (h : signed = false → 0 ≤ i) :
      Has (.big signed) (.big ⟨signed, i⟩)
  | bool (b : Bool) : Has .bool (.bool b)
  | bytes (bs : Bytes) : Has .bytes (.bytes bs)
  | str (s : String) : Has .str (.str s)
  | address (a : Address) : Has .address (.address a)
  | fixed (digits : Nat) (scale : UInt32) :
      Has (.decimal (some scale)) (.decimal (.fixed ⟨digits, scale⟩))
  | floating (d : Decimal) : Has (.decimal none) (.decimal (.floating d))
  | metadata (m : CodeMetadata) : Has .metadata (.metadata m)
  | list {item : ValueType} {items : List Value} (h : ∀ v ∈ items, Has item v) :
      Has (.list item) (.list item items)
  | array {item : ValueType} {length : Nat} {items : List Value} (hlen : items.length = length)
      (h : ∀ v ∈ items, Has item v) : Has (.array item length) (.array item length items)
  | struct {name : String} {fields : List (Field ValueType)} {values : List (Field Value)}
      (h : List.Forall₂ (Field.Rel Has) fields values) :
      Has (.struct name fields) (.struct name values)
  | tuple {types : List ValueType} {items : List Value} (h : List.Forall₂ Has types items) :
      Has (.tuple types) (.tuple items)
  | enum {table : EnumType} {discriminant : UInt8} {variant : Variant ValueType}
      {values : List (Field Value)} (hvariant : table.variant discriminant = .ok variant)
      (h : List.Forall₂ (Field.Rel Has) variant.fields values) :
      Has (.enum table) (.enum (some table) discriminant values)
  | explicit (type : String) {names : List String} {name : String} (h : name ∈ names) :
      Has (.explicit type names) (.explicit (some names) name)
  | absent (item : ValueType) : Has (.option item) (.option (some item) none)
  | present {item : ValueType} {v : Value} (h : Has item v) :
      Has (.option item) (.option (some item) (some v))

/-- A value conforms to a type when it is the same as a value of the type. -/
def ValueType.Conforms (T : ValueType) (v : Value) : Prop :=
  ∃ w, T.Has w ∧ (v == w) = true

/-! ### Room on the wire -/

namespace Value

/-- Four bytes have room for the length of every payload, and for the number of items of every
list, in the nested encoding of a value. -/
inductive Fits : Value → Prop where
  | int (x : FixedInt) : Fits (.int x)
  | big {x : BigInteger} (h : (Bytes.shortest x.signed x.value).length < 2 ^ 32) : Fits (.big x)
  | bool (b : Bool) : Fits (.bool b)
  | bytes {bs : Bytes} (h : bs.length < 2 ^ 32) : Fits (.bytes bs)
  | str {s : String} (h : (Utf8.encode s).length < 2 ^ 32) : Fits (.str s)
  | address (a : Address) : Fits (.address a)
  | decimal {a : Amount} (h : a.digitBytes.length < 2 ^ 32) : Fits (.decimal a)
  | metadata (m : CodeMetadata) : Fits (.metadata m)
  | list {item : ValueType} {items : List Value} (hlen : items.length < 2 ^ 32)
      (h : ∀ v ∈ items, Fits v) : Fits (.list item items)
  | array {item : ValueType} {length : Nat} {items : List Value} (h : ∀ v ∈ items, Fits v) :
      Fits (.array item length items)
  | struct {name : String} {fields : List (Field Value)} (h : ∀ f ∈ fields, Fits f.value) :
      Fits (.struct name fields)
  | tuple {items : List Value} (h : ∀ v ∈ items, Fits v) : Fits (.tuple items)
  | enum {table : Option EnumType} {discriminant : UInt8} {fields : List (Field Value)}
      (h : ∀ f ∈ fields, Fits f.value) : Fits (.enum table discriminant fields)
  | explicit {variants : Option (List String)} {name : String}
      (h : (Utf8.encode name).length < 2 ^ 32) : Fits (.explicit variants name)
  | absent (item : Option ValueType) : Fits (.option item none)
  | present {item : Option ValueType} {v : Value} (h : Fits v) : Fits (.option item (some v))

/-- The same of the top-level encoding, which leaves out the outermost length or number. -/
def FitsTop : Value → Prop
  | .list _ items => ∀ v ∈ items, v.Fits
  | .big _ | .bytes _ | .str _ | .explicit .. | .decimal (.fixed _) => True
  | v => v.Fits

/-- What fits where it is part of another value fits at top level, where less is written. -/
theorem Fits.fitsTop {v : Value} (h : v.Fits) : v.FitsTop := by
  match v, h with
  | .list .., .list _ hitems => exact hitems
  | .big _, _ | .bytes _, _ | .str _, _ | .explicit .., _ | .decimal (.fixed _), _ => trivial
  | .int _, h | .bool _, h | .address _, h | .decimal (.floating _), h | .metadata _, h
  | .array .., h | .struct .., h | .tuple _, h | .enum .., h | .option .., h => exact h

/-- Whether a value fits depends only on what it holds. -/
theorem Fits.of_same {a b : Value} (h : same a b = true) : a.Fits → b.Fits := by
  have items : ∀ as bs : List Value, List.Forall₂ (fun a b => a.Fits → b.Fits) as bs →
      (∀ a ∈ as, a.Fits) → ∀ b ∈ bs, b.Fits := fun as bs h =>
    forall_mem_of_forall₂ h fun _ _ hab => hab
  have fields : ∀ as bs : List (Field Value),
      List.Forall₂ (Field.Rel fun a b => a.Fits → b.Fits) as bs →
      (∀ f ∈ as, f.value.Fits) → ∀ f ∈ bs, f.value.Fits := fun as bs h =>
    forall_mem_of_forall₂ h fun _ _ ⟨hab⟩ => hab
  apply same_induct (Q := fun a b => a.Fits → b.Fits) (h := h)
  case list =>
    refine fun s t as bs ih => fun | .list hlen hitems => ?_
    exact .list (ih.length_eq ▸ hlen) (items as bs ih hitems)
  case array => exact fun s t n as bs ih => fun | .array hitems => .array (items as bs ih hitems)
  case struct => exact fun name as bs ih => fun | .struct h => .struct (fields as bs ih h)
  case tuple => exact fun as bs ih => fun | .tuple hitems => .tuple (items as bs ih hitems)
  case enum => exact fun s t d as bs ih => fun | .enum h => .enum (fields as bs ih h)
  case explicit => exact fun s t name => fun | .explicit hname => .explicit hname
  case absent => exact fun _ t _ => .absent t
  case present => exact fun s t a b ih => fun | .present ha => .present (ih ha)
  all_goals exact fun _ => id

/-- Whether a value fits at top level depends only on what it holds. -/
theorem FitsTop.of_same {a b : Value} (h : same a b = true) (ha : a.FitsTop) : b.FitsTop := by
  suffices hfits : same a b = true → a.FitsTop → b.FitsTop from hfits h ha
  apply same_induct (Q := fun a b => same a b = true → a.FitsTop → b.FitsTop) (h := h)
  case list =>
    intro s t as bs _ h ha
    exact forall_mem_of_forall₂ (sameItems_iff.mp h) (fun _ _ => Fits.of_same) ha
  case explicit =>
    intros
    trivial
  case array | struct | tuple | enum | absent | present =>
    intros
    exact Fits.of_same ‹_› ‹_›
  all_goals
    intros
    assumption

end Value

/-! ### Types of zero width -/

/-- The types whose values are written without any byte. -/
inductive ValueType.IsZeroWidth : ValueType → Prop where
  | empty (item : ValueType) : IsZeroWidth (.array item 0)
  | array {item : ValueType} (length : Nat) (h : IsZeroWidth item) :
      IsZeroWidth (.array item length)
  | struct (name : String) {fields : List (Field ValueType)}
      (h : ∀ f ∈ fields, IsZeroWidth f.value) : IsZeroWidth (.struct name fields)
  | tuple {types : List ValueType} (h : ∀ T ∈ types, IsZeroWidth T) : IsZeroWidth (.tuple types)

namespace ValueType

/-- An array has no bytes where it has no items or these have none. -/
theorem isZeroWidth_array_iff {item : ValueType} {length : Nat} :
    (array item length).IsZeroWidth ↔ length = 0 ∨ item.IsZeroWidth := by
  constructor
  · intro h
    match h with
    | .empty _ => exact .inl rfl
    | .array _ h => exact .inr h
  · rintro (rfl | h)
    · exact .empty item
    · exact .array length h

/-- A struct has no bytes where none of its fields has any; so a struct without fields has none. -/
theorem isZeroWidth_struct_iff {name : String} {fields : List (Field ValueType)} :
    (struct name fields).IsZeroWidth ↔ ∀ f ∈ fields, f.value.IsZeroWidth :=
  ⟨fun | .struct _ h => h, .struct name⟩

theorem isZeroWidth_tuple_iff {types : List ValueType} :
    (tuple types).IsZeroWidth ↔ ∀ T ∈ types, T.IsZeroWidth :=
  ⟨fun | .tuple h => h, .tuple⟩

/-- A value is written without any byte exactly when its type is of zero width. -/
theorem Has.nested_eq_nil_iff {T : ValueType} {v : Value} (h : T.Has v) :
    v.nested = [] ↔ T.IsZeroWidth := by
  induction T generalizing v with
  | array item length ih =>
    have @Has.array _ _ items hlen hitems := h
    rw [Value.nested_array, List.flatMap_eq_nil_iff, isZeroWidth_array_iff, ← hlen,
      List.length_eq_zero_iff]
    constructor
    · intro hnil
      by_cases hempty : items = []
      · exact .inl hempty
      · obtain ⟨v, hv⟩ := List.exists_mem_of_ne_nil items hempty
        exact .inr ((ih (hitems v hv)).mp (hnil v hv))
    · rintro (rfl | hzero) v hv
      · exact absurd hv List.not_mem_nil
      · exact (ih (hitems v hv)).mpr hzero
  | struct name fields ih =>
    have .struct h := h
    have hfields := forall₂_imp_of_mem h fun f hf _ _ hfg => (ih f hf hfg.value).symm
    rw [Value.nested_struct, List.flatMap_eq_nil_iff, isZeroWidth_struct_iff]
    exact (forall_mem_iff_of_forall₂ hfields).symm
  | tuple types ih =>
    have .tuple h := h
    have hitems := forall₂_imp_of_mem h fun T hT _ _ hv => (ih T hT hv).symm
    rw [Value.nested_tuple, List.flatMap_eq_nil_iff, isZeroWidth_tuple_iff]
    exact (forall_mem_iff_of_forall₂ hitems).symm
  | _ =>
    -- Every other type writes a marker, a length or a number of some width in front.
    refine iff_of_false (fun hnil => ?_) nofun
    have hlen := congrArg List.length hnil
    cases h
    all_goals simp [IntWidth.bytes_ne_zero, Address.length_bytes, CodeMetadata.bytes] at hlen

end ValueType

end CallData
