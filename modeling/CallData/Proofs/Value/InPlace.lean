import CallData.Proofs.Value.Top

/-!
# Reading in place of a value of a type

Reading in place of a value keeps to what that value carries. Where this is all that a type says
(`ValueType.CarriedBy`), reading in its place is reading by the type, whatever it holds
(`ValueType.CarriedBy.readNested_eq`). A value of a type carries it, so the same goes for these:
nested (`ValueType.Has.readNested_eq`), and from a byte string of its own
(`ValueType.HasTop.readTop_eq`). An enum is where this has a reason of its own, for it hands on the
fields that it holds instead of looking them up in its table (`EnumTable.select_fields`).
-/

namespace CallData

/-- The first variant of a table is the first with its discriminant. -/
theorem EnumTable.variant_head {α : Type} (name : String) (v : Variant α)
    (variants : List (Variant α)) : variant ⟨name, v :: variants⟩ v.discriminant = .ok v := by
  simp [variant]

/-- An enum that holds the fields of its own variant ends up with what the table says, whichever
way it turns. -/
theorem EnumTable.select_fields {α : Type} {e : EnumTable α} {current : UInt8} {v : Variant α}
    (h : e.variant current = .ok v) (discriminant : UInt8) :
    select (some e) current v.fields discriminant =
      (e.variant discriminant).map Variant.fields := by
  by_cases hsame : discriminant = current
  · -- Whether the fields are kept or looked up, they are those of the variant.
    subst hsame
    rw [select, h]
    exact ite_self (Except.ok v.fields)
  · simp [select, hsame]

/-- An enum that holds what stands in the place of the fields of its variant turns as one does that
holds none. -/
theorem EnumTable.select_map_fields {α β : Type} (g : Variant α → Variant β)
    (hg : ∀ v, (g v).discriminant = v.discriminant) {e : EnumTable α} {current : UInt8}
    {v : Variant α} (h : e.variant current = .ok v) :
    select (some (e.map g)) current (g v).fields = select (some (e.map g)) 0 [] := by
  have hcurrent : (e.map g).variant current = .ok (g v) := by
    rw [variant_map g hg, h]
    rfl
  funext discriminant
  rw [select_nil]
  exact select_fields hcurrent discriminant

/-! ### Rows -/

theorem heldItems_eq_itemReaders {types : List ValueType} {items : List Value}
    (h : List.Forall₂ (fun T v => v.readNested = T.readNested) types items) :
    Value.heldItems items = itemReaders types := by
  induction h with
  | nil => rfl
  | cons hv _ ih => rw [Value.heldItems, itemReaders, hv, ih]

theorem heldFields_eq_fieldReaders {fields : List (Field ValueType)} {values : List (Field Value)}
    (h : List.Forall₂ (Field.Rel fun T v => v.readNested = T.readNested) fields values) :
    Value.heldFields values = fieldReaders fields := by
  induction h with
  | nil => rfl
  | cons hv _ ih =>
    obtain ⟨hv⟩ := hv
    rw [Value.heldFields, fieldReaders, hv, ih]

theorem readEnum_fieldReaders {table : EnumType} {discriminant : UInt8}
    {variant : Variant ValueType} (hvariant : table.variant discriminant = .ok variant) :
    readEnum (some table) (some (tableReaders table)) discriminant (fieldReaders variant.fields) =
      readEnum (some table) (some (tableReaders table)) 0 [] := by
  have hselect : EnumTable.select (some (tableReaders table)) discriminant
      (fieldReaders variant.fields) = EnumTable.select (some (tableReaders table)) 0 [] := by
    rw [tableReaders_eq_map]
    exact EnumTable.select_map_fields variantReader (fun _ => rfl) hvariant
  rw [readEnum, readEnum, hselect]

/-! ### Types carried -/

/-- A value carries a type when it has all that the type says for decoding. What else it holds may
be anything: a number beyond the bounds, or items of another type. -/
inductive ValueType.CarriedBy : ValueType → Value → Prop where
  | int (x : FixedInt) : CarriedBy (.int x.width x.signed) (.int x)
  | big (x : BigInteger) : CarriedBy (.big x.signed) (.big x)
  | bool (b : Bool) : CarriedBy .bool (.bool b)
  | bytes (bs : Bytes) : CarriedBy .bytes (.bytes bs)
  | str (s : String) : CarriedBy .str (.str s)
  | address (a : Address) : CarriedBy .address (.address a)
  | decimal (a : Amount) : CarriedBy (.decimal a.fixedScale?) (.decimal a)
  | metadata (m : CodeMetadata) : CarriedBy .metadata (.metadata m)
  | list (item : ValueType) (items : List Value) : CarriedBy (.list item) (.list item items)
  | array (item : ValueType) (length : Nat) (items : List Value) :
      CarriedBy (.array item length) (.array item length items)
  | struct {name : String} {fields : List (Field ValueType)} {values : List (Field Value)}
      (h : List.Forall₂ (Field.Rel CarriedBy) fields values) :
      CarriedBy (.struct name fields) (.struct name values)
  | tuple {types : List ValueType} {items : List Value} (h : List.Forall₂ CarriedBy types items) :
      CarriedBy (.tuple types) (.tuple items)
  | unit (table : EnumType) (discriminant : UInt8) :
      CarriedBy (.enum table) (.enum (some table) discriminant [])
  | enum {table : EnumType} {discriminant : UInt8} {variant : Variant ValueType}
      {values : List (Field Value)} (hvariant : table.variant discriminant = .ok variant)
      (h : List.Forall₂ (Field.Rel CarriedBy) variant.fields values) :
      CarriedBy (.enum table) (.enum (some table) discriminant values)
  | explicit (type : String) (names : List String) (name : String) :
      CarriedBy (.explicit type names) (.explicit (some names) name)
  | option (item : ValueType) (held : Option Value) :
      CarriedBy (.option item) (.option (some item) held)

namespace ValueType

/-- Reading in place of a value that carries a type is reading by the type. -/
theorem CarriedBy.readNested_eq {T : ValueType} {v : Value} (h : T.CarriedBy v) :
    v.readNested = T.readNested := by
  induction T generalizing v with
  | struct name fields ih =>
    have .struct h := h
    have hfields := heldFields_eq_fieldReaders
      (forall₂_field_imp_of_mem h fun f hf _ _ hv => ih f hf hv)
    rw [Value.readNested, ValueType.readNested, hfields]
  | tuple types ih =>
    have .tuple h := h
    have hitems := heldItems_eq_itemReaders (forall₂_imp_of_mem h fun T hT _ _ hv => ih T hT hv)
    rw [Value.readNested, ValueType.readNested, hitems]
  | enum table ih =>
    cases h with
    | unit _ discriminant =>
      rw [Value.readNested, ValueType.readNested, Value.heldFields, Option.map_some, readEnum,
        readEnum]
      simp only [EnumTable.select_nil]
    | enum hvariant h =>
      have hvariants := ih _ (mem_of_variant_eq_ok hvariant)
      have hfields := heldFields_eq_fieldReaders
        (forall₂_field_imp_of_mem h fun f hf _ _ hv => hvariants f hf hv)
      rw [Value.readNested, ValueType.readNested, hfields]
      exact readEnum_fieldReaders hvariant
  | _ =>
    -- Any other value carries its type, or what it needs of it.
    cases h
    all_goals rfl

/-- A value of a type carries it. -/
theorem Has.carriedBy {T : ValueType} {v : Value} (h : T.Has v) : T.CarriedBy v := by
  induction T generalizing v with
  | int width signed =>
    have .int _ _ := h
    exact .int ⟨width, signed, _⟩
  | big signed =>
    have .big _ := h
    exact .big ⟨signed, _⟩
  | decimal scale =>
    match h with
    | .fixed digits scale => exact .decimal (.fixed ⟨digits, scale⟩)
    | .floating d => exact .decimal (.floating d)
  | option item ih =>
    match h with
    | .absent _ => exact .option item none
    | .present _ => exact .option item _
  | struct name fields ih =>
    have .struct h := h
    exact .struct (forall₂_field_imp_of_mem h fun f hf _ _ hv => ih f hf hv)
  | tuple types ih =>
    have .tuple h := h
    exact .tuple (forall₂_imp_of_mem h fun T hT _ _ hv => ih T hT hv)
  | enum table ih =>
    have .enum hvariant h := h
    have hvariants := ih _ (mem_of_variant_eq_ok hvariant)
    exact .enum hvariant (forall₂_field_imp_of_mem h fun f hf _ _ hv => hvariants f hf hv)
  | _ =>
    cases h
    constructor

theorem forall₂_placeholderFields {R : ValueType → Value → Prop} {fields : List (Field ValueType)}
    (h : ∀ f ∈ fields, R f.value f.value.placeholder) :
    List.Forall₂ (Field.Rel R) fields (placeholderFields fields) := by
  induction fields with
  | nil => exact .nil
  | cons f fields ih =>
    rw [List.forall_mem_cons] at h
    exact .cons (.mk h.1) (ih h.2)

/-- A placeholder carries its type. -/
theorem placeholder_carriedBy (T : ValueType) : T.CarriedBy T.placeholder := by
  induction T with
  | int width signed => exact .int (.zero width signed)
  | big signed => exact .big (.zero signed)
  | decimal scale =>
    match scale with
    | some scale => exact .decimal (.fixed (.zero scale))
    | none => exact .decimal (.floating (.zero 0))
  | struct name fields ih => exact .struct (forall₂_placeholderFields ih)
  | tuple types ih =>
    have hitems : List.Forall₂ CarriedBy types (placeholderItems types) := by
      induction types with
      | nil => exact .nil
      | cons T types ih' =>
        rw [List.forall_mem_cons] at ih
        exact .cons ih.1 (ih' ih.2)
    exact .tuple hitems
  | enum table ih =>
    match table with
    | ⟨name, []⟩ => exact .unit _ _
    | ⟨name, v :: variants⟩ =>
      have hfields := forall₂_placeholderFields (ih v List.mem_cons_self)
      exact .enum (EnumTable.variant_head name v variants) hfields
  | _ => constructor

/-! ### All types -/

/-- Reading in place of a value of a type is reading by the type. -/
theorem Has.readNested_eq {T : ValueType} {v : Value} (h : T.Has v) :
    v.readNested = T.readNested :=
  h.carriedBy.readNested_eq

theorem Has.exactly_readNested_eq {T : ValueType} {v : Value} (h : T.Has v) :
    ByteReader.exactly v.readNested = ByteReader.exactly T.placeholder.readNested := by
  rw [h.readNested_eq, T.readNested_placeholder]

/-- Reading a byte string in place of what a type may be read as is reading it by the type. -/
theorem HasTop.readTop_eq {T : ValueType} {v : Value} (h : T.HasTop v) (bs : Bytes) :
    v.readTop bs = T.placeholder.readTop bs := by
  match h with
  | .array length _ => rfl
  | .has h =>
    have hexactly := congrFun h.exactly_readNested_eq bs
    cases h with
    | struct _ => exact hexactly
    | tuple _ => exact hexactly
    | enum _ _ => exact congrArg (fun r => if bs.isEmpty then _ else r) hexactly
    | absent item => exact congrArg (fun r => if bs.isEmpty then _ else r) hexactly
    | present _ => exact congrArg (fun r => if bs.isEmpty then _ else r) hexactly
    | _ => rfl

end ValueType

end CallData
