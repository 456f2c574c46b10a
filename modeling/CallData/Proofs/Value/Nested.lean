import CallData.Proofs.Scalar

/-!
# Reading nested encodings

A value of a type that fits the wire is read back from its nested encoding by the reader of the
type (`ValueType.Has.reads`), and every value that this reader answers is such a value
(`ValueType.readNested_yields`). So a value that conforms to a type is read back, as far as it
holds anything, in front of any other bytes (`ValueType.Conforms.readNested_placeholder_nested`).
-/

namespace CallData

open ByteReader

/-! ### Rows of readers -/

/-- Items are read from their encodings, each by the reader of its type. -/
theorem readItems_reads {types : List ValueType} {items : List Value}
    (h : List.Forall₂ (fun T v => T.readNested.Reads v.nested v) types items) (i : Nat) :
    (readItems i (itemReaders types)).Reads (items.flatMap Value.nested) items := by
  induction h generalizing i with
  | nil => exact Reads.pure []
  | @cons T v types items hv _ ih =>
    exact (hv.insideM (.index i)).bind ((ih (i + 1)).map (v :: ·))

/-- As many items are read as there are types, each related to its own. -/
theorem readItems_yields {R : ValueType → Value → Prop} {types : List ValueType}
    (h : ∀ T ∈ types, T.readNested.Yields (R T)) (i : Nat) :
    (readItems i (itemReaders types)).Yields (List.Forall₂ R types) := by
  induction types generalizing i with
  | nil => exact Yields.pure .nil
  | cons T types ih =>
    rw [List.forall_mem_cons] at h
    exact (h.1.insideM (.index i)).bind fun v hv => (ih h.2 (i + 1)).map fun _ => .cons hv

theorem readFields_reads {fields : List (Field ValueType)} {values : List (Field Value)}
    (h : List.Forall₂ (Field.Rel fun T v => T.readNested.Reads v.nested v) fields values) :
    (readFields (fieldReaders fields)).Reads (values.flatMap fun f => f.value.nested) values := by
  induction h with
  | nil => exact Reads.pure []
  | cons hv _ ih =>
    obtain @⟨name, T, v, hv⟩ := hv
    exact (hv.insideM (.field name)).bind (ih.map (⟨name, v⟩ :: ·))

/-- The fields of a type are read in its order and under its names. -/
theorem readFields_yields {R : ValueType → Value → Prop} {fields : List (Field ValueType)}
    (h : ∀ f ∈ fields, f.value.readNested.Yields (R f.value)) :
    (readFields (fieldReaders fields)).Yields (List.Forall₂ (Field.Rel R) fields) := by
  induction fields with
  | nil => exact Yields.pure .nil
  | cons f fields ih =>
    obtain ⟨name, T⟩ := f
    rw [List.forall_mem_cons] at h
    exact (h.1.insideM (.field name)).bind fun v hv => (ih h.2).map fun _ => .cons (.mk hv)

/-! ### Tables of readers -/

section Tables

variable {α β : Type} (g : Variant α → Variant β)

/-- The table that has something else in the place of each variant. -/
def EnumTable.map (e : EnumTable α) : EnumTable β :=
  ⟨e.name, e.variants.map g⟩

/-- A table whose variants keep their discriminants is searched as before. -/
theorem EnumTable.variant_map (hg : ∀ v, (g v).discriminant = v.discriminant) (e : EnumTable α)
    (discriminant : UInt8) : (e.map g).variant discriminant = (e.variant discriminant).map g := by
  have hfind : (e.variants.map g).find? (fun v => v.discriminant == discriminant) =
      (e.variants.find? fun v => v.discriminant == discriminant).map g := by
    simp only [List.find?_map, Function.comp_def, hg]
  unfold EnumTable.variant EnumTable.map
  rw [hfind]
  cases e.variants.find? fun v => v.discriminant == discriminant <;> rfl

/-- An enum that holds no fields turns to what stands in the place of the variant that its table
declares. -/
theorem EnumTable.select_map_eq_ok_iff (hg : ∀ v, (g v).discriminant = v.discriminant)
    {e : EnumTable α} {discriminant : UInt8} {fields : List (Field β)} :
    select (some (e.map g)) 0 [] discriminant = .ok fields ↔
      ∃ variant, e.variant discriminant = .ok variant ∧ (g variant).fields = fields := by
  rw [select_nil, variant_map g hg]
  simp only [except_map_eq_ok]
  constructor
  · rintro ⟨_, ⟨variant, hvariant, rfl⟩, rfl⟩
    exact ⟨variant, hvariant, rfl⟩
  · rintro ⟨variant, hvariant, rfl⟩
    exact ⟨_, ⟨variant, hvariant, rfl⟩, rfl⟩

end Tables

/-- A variant with the readers of its fields. -/
def variantReader (v : Variant ValueType) : Variant (ByteReader Value) :=
  ⟨v.discriminant, v.name, fieldReaders v.fields⟩

theorem variantReaders_eq_map (variants : List (Variant ValueType)) :
    variantReaders variants = variants.map variantReader := by
  induction variants with
  | nil => rfl
  | cons v variants ih =>
    rw [variantReaders, ih]
    rfl

theorem tableReaders_eq_map (table : EnumType) : tableReaders table = table.map variantReader := by
  rw [tableReaders, variantReaders_eq_map]
  rfl

/-- A variant that a table is searched for comes from the table. -/
theorem mem_of_variant_eq_ok {table : EnumType} {discriminant : UInt8} {v : Variant ValueType}
    (h : table.variant discriminant = .ok v) : v ∈ table.variants := by
  rw [EnumTable.variant] at h
  rcases hfind : table.variants.find? fun v => v.discriminant == discriminant with _ | w
  · rw [hfind] at h
    exact absurd h fail_ne_ok
  · rw [hfind] at h
    obtain ⟨⟩ := h
    exact List.mem_of_find?_eq_some hfind

/-- With no fields at hand to keep, a discriminant has the readers of the variant that the table has
for it. -/
theorem select_tableReaders_eq_ok_iff {table : EnumType} {discriminant : UInt8}
    {readers : List (Field (ByteReader Value))} :
    EnumTable.select (some (tableReaders table)) 0 [] discriminant = .ok readers ↔
      ∃ variant, table.variant discriminant = .ok variant ∧
        fieldReaders variant.fields = readers := by
  rw [tableReaders_eq_map]
  exact EnumTable.select_map_eq_ok_iff variantReader fun _ => rfl

/-- An enum is read from the octet of its discriminant and the fields of the variant behind it. -/
theorem readEnum_reads {table : EnumType} {discriminant : UInt8} {variant : Variant ValueType}
    {values : List (Field Value)} (hvariant : table.variant discriminant = .ok variant)
    (h : (readFields (fieldReaders variant.fields)).Reads
      (values.flatMap fun f => f.value.nested) values) :
    (readEnum (some table) (some (tableReaders table)) 0 []).Reads
      (discriminant :: values.flatMap fun f => f.value.nested)
      (.enum (some table) discriminant values) := by
  have hselect := select_tableReaders_eq_ok_iff.mpr ⟨variant, hvariant, rfl⟩
  refine (octet_reads discriminant).bind ?_
  exact (Reads.lift hselect).bind (h.map (Value.enum (some table) discriminant))

/-- Whatever is read is a variant of the table, with all its fields. -/
theorem readEnum_yields {R : ValueType → Value → Prop} {table : EnumType}
    (h : ∀ v ∈ table.variants, ∀ f ∈ v.fields, f.value.readNested.Yields (R f.value)) :
    (readEnum (some table) (some (tableReaders table)) 0 []).Yields fun v =>
      ∃ discriminant variant values, table.variant discriminant = .ok variant ∧
        List.Forall₂ (Field.Rel R) variant.fields values ∧
        v = .enum (some table) discriminant values := by
  intro c v c' hv
  obtain ⟨discriminant, t, -, hv⟩ := bind_eq_ok.mp hv
  obtain ⟨readers, t', hselect, hv⟩ := bind_eq_ok.mp hv
  obtain ⟨variant, hvariant, rfl⟩ := select_tableReaders_eq_ok_iff.mp (lift_eq_ok.mp hselect).1
  obtain ⟨values, t'', hvalues, hv⟩ := bind_eq_ok.mp hv
  have hfields := readFields_yields (h variant (mem_of_variant_eq_ok hvariant))
  exact ⟨discriminant, variant, values, hvariant, hfields t' values t'' hvalues,
    (pure_eq_ok.mp hv).1⟩

/-! ### Options and names -/

/-- What is read as an option is absent, or has something in it that its item may be. -/
theorem readOption_yields {P : Value → Prop} {itemType : Option ValueType}
    {item : ByteReader Value} (h : item.Yields P) : (readOption itemType item).Yields fun v =>
      v = .option itemType none ∨ ∃ w, P w ∧ v = .option itemType (some w) := by
  intro c v c' hv
  obtain ⟨marker, t, -, hv⟩ := bind_eq_ok.mp hv
  split at hv
  case h_1 => exact .inl (pure_eq_ok.mp hv).1
  case h_2 =>
    obtain ⟨w, t', hw, hv⟩ := bind_eq_ok.mp hv
    exact .inr ⟨w, h t w t' hw, (pure_eq_ok.mp hv).1⟩
  case h_3 => exact absurd hv throw_ne_ok

theorem Value.ofName_eq_ok_iff {names : List String} {name : String} {v : Value} :
    Value.ofName (some names) name = .ok v ↔ name ∈ names ∧ v = .explicit (some names) name := by
  rw [Value.ofName, except_ite_eq_ok, Except.ok.injEq, eq_comm (b := v)]

/-! ### All types -/

namespace ValueType

/-- A value of a type that fits the wire is read back from its nested encoding. -/
theorem Has.reads {T : ValueType} {v : Value} (h : T.Has v) (hfits : v.Fits) :
    T.readNested.Reads v.nested v := by
  -- Readers are made along the type, and so is the induction; what follows a part is at hand in
  -- `Reads`, which holds in front of any bytes.
  induction T generalizing v with
  | int width signed =>
    match h with
    | .int hmin hmax =>
      rw [Value.nested_int]
      exact (FixedInt.readNested_reads hmin hmax).map Value.int
  | big signed =>
    match h, hfits with
    | .big hsign, .big hlen =>
      rw [Value.nested_big]
      exact (BigInteger.readNested_reads hsign hlen).map Value.big
  | bool =>
    match h with
    | .bool b => exact (bool_reads b).map Value.bool
  | bytes =>
    match h, hfits with
    | .bytes bs, .bytes hlen =>
      rw [Value.nested_bytes]
      exact (framed_reads hlen).map Value.bytes
  | str =>
    match h, hfits with
    | .str s, .str hlen =>
      rw [Value.nested_str]
      exact (text_reads hlen).map Value.str
  | address =>
    match h with
    | .address a => exact a.read_reads.map Value.address
  | decimal scale =>
    match h, hfits with
    | .fixed .., .decimal hlen => exact (Amount.readNested_reads hlen).map Value.decimal
    | .floating _, .decimal hlen => exact (Amount.readNested_reads hlen).map Value.decimal
  | metadata =>
    match h with
    | .metadata m => exact m.read_reads.map Value.metadata
  | list item ih =>
    match h, hfits with
    | .list hitems, .list hlen hfit =>
      have hread := replicateFrom_reads (fun v hv => ih (hitems v hv) (hfit v hv)) 0
      rw [Value.nested_list]
      exact (count_reads hlen).bind (hread.map (Value.list item))
  | array item length ih =>
    match h, hfits with
    | .array hlen hitems, .array hfit =>
      have hread := replicateFrom_reads (fun v hv => ih (hitems v hv) (hfit v hv)) 0
      rw [hlen] at hread
      rw [Value.nested_array]
      exact hread.map (Value.array item length)
  | struct name fields ih =>
    match h, hfits with
    | .struct hfields, .struct hfit =>
      rw [Value.nested_struct]
      refine (readFields_reads (forall₂_field_imp_of_mem hfields ?_)).map (Value.struct name)
      exact fun f hf g hg h => ih f hf h (hfit g hg)
  | tuple types ih =>
    match h, hfits with
    | .tuple hitems, .tuple hfit =>
      rw [Value.nested_tuple]
      have hread := forall₂_imp_of_mem hitems fun T hT v hv h => ih T hT h (hfit v hv)
      exact (readItems_reads hread 0).map Value.tuple
  | enum table ih =>
    match h, hfits with
    | .enum hvariant hfields, .enum hfit =>
      have hvariants := ih _ (mem_of_variant_eq_ok hvariant)
      rw [Value.nested_enum]
      refine readEnum_reads hvariant (readFields_reads (forall₂_field_imp_of_mem hfields ?_))
      exact fun f hf g hg h => hvariants f hf h (hfit g hg)
  | explicit name names =>
    match h, hfits with
    | .explicit _ hname, .explicit hlen =>
      rw [Value.nested_explicit, ← List.append_nil (Bytes.ofNat 4 _ ++ _)]
      exact (text_reads hlen).bind (Reads.lift (Value.ofName_eq_ok_iff.mpr ⟨hname, rfl⟩))
  | option item ih =>
    match h, hfits with
    | .absent _, _ => exact (octet_reads 0).bind (Reads.pure _)
    | .present hv, .present hfit =>
      rw [Value.nested_present]
      exact (octet_reads 1).bind ((ih hv hfit).map fun v => Value.option (some item) (some v))

/-- Whatever is read as a value of a type is one, and fits the wire. -/
theorem readNested_yields (T : ValueType) : T.readNested.Yields fun v => T.Has v ∧ v.Fits := by
  induction T with
  | int width signed =>
    exact (FixedInt.readNested_yields width signed).map fun x hx => ⟨hx, .int x⟩
  | big signed => exact (BigInteger.readNested_yields signed).map fun x hx => hx
  | bool =>
    intro c v c' h
    obtain ⟨b, _, -, h⟩ := bind_eq_ok.mp h
    rw [(pure_eq_ok.mp h).1]
    exact ⟨.bool b, .bool b⟩
  | bytes => exact framed_yields.map fun bs hbs => ⟨.bytes bs, .bytes hbs⟩
  | str => exact text_yields.map fun s hs => ⟨.str s, .str hs⟩
  | address =>
    intro c v c' h
    obtain ⟨a, _, -, h⟩ := bind_eq_ok.mp h
    rw [(pure_eq_ok.mp h).1]
    exact ⟨.address a, .address a⟩
  | decimal scale => exact (Amount.readNested_yields scale).map fun a ha => ha
  | metadata =>
    intro c v c' h
    obtain ⟨m, _, -, h⟩ := bind_eq_ok.mp h
    rw [(pure_eq_ok.mp h).1]
    exact ⟨.metadata m, .metadata m⟩
  | list item ih =>
    refine count_yields.bind fun n hn => (replicateFrom_yields ih n 0).map fun items hitems => ?_
    obtain ⟨hlen, hitems⟩ := hitems
    exact ⟨.list fun v hv => (hitems v hv).1, .list (hlen ▸ hn) fun v hv => (hitems v hv).2⟩
  | array item length ih =>
    refine (replicateFrom_yields ih length 0).map fun items hitems => ?_
    obtain ⟨hlen, hitems⟩ := hitems
    exact ⟨.array hlen fun v hv => (hitems v hv).1, .array fun v hv => (hitems v hv).2⟩
  | struct name fields ih =>
    refine (readFields_yields (R := fun T v => T.Has v ∧ v.Fits) ih).map fun values hvalues => ?_
    obtain ⟨hhas, hfit⟩ := forall₂_field_and_right hvalues
    exact ⟨.struct hhas, .struct hfit⟩
  | tuple types ih =>
    refine (readItems_yields (R := fun T v => T.Has v ∧ v.Fits) ih 0).map fun items hitems => ?_
    obtain ⟨hhas, hfit⟩ := forall₂_and_right hitems
    exact ⟨.tuple hhas, .tuple hfit⟩
  | enum table ih =>
    refine (readEnum_yields (R := fun T v => T.Has v ∧ v.Fits) ih).mono ?_
    rintro _ ⟨discriminant, variant, values, hvariant, hvalues, rfl⟩
    obtain ⟨hhas, hfit⟩ := forall₂_field_and_right hvalues
    exact ⟨.enum hvariant hhas, .enum hfit⟩
  | explicit name names =>
    refine text_yields.bind fun s hs => Yields.lift fun v hv => ?_
    obtain ⟨hmem, rfl⟩ := Value.ofName_eq_ok_iff.mp hv
    exact ⟨.explicit name hmem, .explicit hs⟩
  | option item ih =>
    refine (readOption_yields ih).mono ?_
    rintro _ (rfl | ⟨w, hw, rfl⟩)
    · exact ⟨.absent item, .absent _⟩
    · exact ⟨.present hw.1, .present hw.2⟩

/-- A reader of a type of zero width leaves the cursor where it is. -/
theorem IsZeroWidth.cursor_eq {T : ValueType} (hT : T.IsZeroWidth) {v : Value} {c c' : Cursor}
    (h : T.readNested c = .ok v c') : c' = c := by
  -- What was read spells no byte, so it can be read again from none, at the same place.
  obtain ⟨hhas, hfits⟩ := T.readNested_yields c v c' h
  have hread := hhas.reads hfits
  rw [hhas.nested_eq_nil_iff.mpr hT] at hread
  exact (hread.eq_of_ok h).2

/-- A value that conforms to a type and fits the wire is read back, as far as it holds anything,
from its nested encoding: whatever comes behind that is left unread. -/
theorem Conforms.readNested_placeholder_nested {T : ValueType} {v : Value} (hv : T.Conforms v)
    (hfits : v.Fits) (o : Nat) (rest : Bytes) :
    ∃ w, T.placeholder.readNested ⟨o, v.nested ++ rest⟩ = .ok w ⟨o + v.nested.length, rest⟩ ∧
      (v == w) = true ∧ T.Has w := by
  obtain ⟨w, hhas, hsame⟩ := hv
  refine ⟨w, ?_, hsame, hhas⟩
  rw [T.readNested_placeholder, Value.nested_eq_of_same hsame]
  exact hhas.reads (hfits.of_same hsame) o rest

end ValueType

/-- The type of an order: some lines, and a state that may carry an amount. -/
def orderType : ValueType :=
  .struct "Order" [⟨"lines", .list (.tuple [.int .w16 true, .option .str])⟩,
    ⟨"state", .enum ⟨"State", [⟨0, "Open", []⟩, ⟨1, "Paid", [⟨"amount", .decimal none⟩]⟩]⟩⟩]

/-- An order that carries none of the types it was declared with. -/
def order : Value :=
  .struct "Order"
    [⟨"lines", .list .bool [.tuple [.int ⟨.w16, true, -2⟩, .option none (some (.str "é"))]]⟩,
      ⟨"state", .enum none 1 [⟨"amount", .decimal (.floating ⟨250, 2⟩)⟩]⟩]

/-- The order is of its type, whatever types its own list and option carry. -/
theorem order_conforms : orderType.Conforms order := by
  have hline : (ValueType.tuple [.int .w16 true, .option .str]).Has
      (.tuple [.int ⟨.w16, true, -2⟩, .option (some .str) (some (.str "é"))]) :=
    .tuple (.cons (.int (by decide) (by decide)) (.cons (.present (.str "é")) .nil))
  have hlines := ValueType.Has.list (List.forall_mem_singleton.mpr hline)
  have hstate : (ValueType.enum ⟨"State", [⟨0, "Open", []⟩,
      ⟨1, "Paid", [⟨"amount", .decimal none⟩]⟩]⟩).Has (.enum (some _) 1 [⟨"amount", _⟩]) :=
    .enum rfl (.cons (.mk (.floating ⟨250, 2⟩)) .nil)
  exact ⟨_, .struct (.cons (.mk hlines) (.cons (.mk hstate) .nil)), by decide⟩

theorem order_fits : order.Fits := by
  have hline : (Value.tuple [.int ⟨.w16, true, -2⟩, .option none (some (.str "é"))]).Fits := by
    refine .tuple (List.forall_mem_cons.mpr ⟨.int _, List.forall_mem_singleton.mpr ?_⟩)
    exact .present (.str (by decide))
  have hamount : (Value.decimal (.floating ⟨250, 2⟩)).Fits := .decimal (by decide)
  refine .struct (List.forall_mem_cons.mpr ⟨?_, List.forall_mem_singleton.mpr ?_⟩)
  · exact .list (by decide) (List.forall_mem_singleton.mpr hline)
  · exact .enum (List.forall_mem_singleton.mpr hamount)

/-- The order is read back with another byte behind it, which stays where it is. -/
theorem readNested_order : orderType.Conforms order ∧ order.Fits ∧
    ∃ w, orderType.placeholder.readNested ⟨0, order.nested ++ [7]⟩ =
      .ok w ⟨0 + order.nested.length, [7]⟩ ∧ (order == w) = true ∧ orderType.Has w :=
  ⟨order_conforms, order_fits, order_conforms.readNested_placeholder_nested order_fits 0 [7]⟩

/-- The type of some readings, each of which may be missing. -/
def readingsType : ValueType :=
  .list (.option (.int .w16 true))

/-- Three readings, the second of which is missing. -/
def readings : Value :=
  .list (.option (.int .w16 true)) [.option (some (.int .w16 true)) (some (.int ⟨.w16, true, -2⟩)),
    .option (some (.int .w16 true)) none,
    .option (some (.int .w16 true)) (some (.int ⟨.w16, true, 7⟩))]

/-- The bytes of these readings, and one that belongs to something else. -/
def readingsBytes : Bytes :=
  [0, 0, 0, 3, 1, 0xff, 0xfe, 0, 1, 0, 7, 5]

/-- The readings are read, and the byte that belongs to something else is left. -/
theorem readNested_readingsBytes :
    readingsType.placeholder.readNested (.start readingsBytes) = .ok readings ⟨11, [5]⟩ :=
  rfl

end CallData
