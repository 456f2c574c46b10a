import CallData.Proofs.Value.InPlace
import CallData.Value.Native

/-!
# Filling values in

Whatever a type is filled in with from a native value is a value of the type
(`ValueType.ofNative_has`), and filling in a value of a type is filling in the type, whatever the
value holds (`ValueType.Has.fill_eq`). As with reading, an enum is where the second has a reason of
its own.
-/

namespace CallData

open Value

/-! ### Rows -/

section Rows

variable {σ α : Type} {as : List α}

/-- A row is filled exactly when each native value of it fills on its own; the index that the row
starts at is only for errors. -/
theorem Value.eachOfNative_eq_ok_iff {fill : NativeValue → Except CodecError α} {i : Nat}
    {natives : List NativeValue} : eachOfNative fill i natives = .ok as ↔
      List.Forall₂ (fun n a => fill n = .ok a) natives as := by
  induction natives generalizing i as with
  | nil =>
    rw [eachOfNative, List.forall₂_nil_left_iff, Except.ok.injEq, eq_comm]
  | cons n natives ih =>
    rw [eachOfNative, except_cons_eq_ok, List.forall₂_cons_left_iff]
    simp only [inside_eq_ok, ih]

/-- What the filler makes of any one native value, each member of the row is. -/
theorem Value.eachOfNative_yields {fill : NativeValue → Except CodecError α} {P : α → Prop}
    {i : Nat} {natives : List NativeValue} (h : ∀ n a, fill n = .ok a → P a)
    (has : eachOfNative fill i natives = .ok as) : ∀ a ∈ as, P a :=
  forall_mem_of_forall₂ (P := fun _ => True) (eachOfNative_eq_ok_iff.mp has)
    (fun n a ha _ => h n a ha) fun _ _ => trivial

/-- One round of a row with a filler for each position. -/
theorem Value.zipItems_cons_eq_ok_iff {fill : NativeValue → Except CodecError α}
    {fillers : List (NativeValue → Except CodecError α)} {n : NativeValue} {i : Nat}
    {natives : List NativeValue} : zipItems i (fill :: fillers) (n :: natives) = .ok as ↔
      ∃ a rest, fill n = .ok a ∧ zipItems (i + 1) fillers natives = .ok rest ∧ as = a :: rest := by
  rw [zipItems, except_cons_eq_ok]
  simp only [inside_eq_ok]

/-- Where there are as many native values as fillers, members and positions go together one by one.
-/
theorem Value.zipItems_yields {f : σ → NativeValue → Except CodecError α} {R : σ → α → Prop}
    {ss : List σ} {natives : List NativeValue} {i : Nat}
    (h : ∀ s ∈ ss, ∀ n a, f s n = .ok a → R s a) (hlen : ss.length = natives.length)
    (has : zipItems i (ss.map f) natives = .ok as) : List.Forall₂ R ss as := by
  induction ss generalizing natives i as with
  | nil =>
    obtain ⟨⟩ := has
    exact .nil
  | cons s ss ih =>
    rw [List.forall_mem_cons] at h
    obtain ⟨n, natives, rfl⟩ := List.exists_cons_of_length_eq_add_one hlen.symm
    obtain ⟨a, rest, ha, hrest, rfl⟩ := zipItems_cons_eq_ok_iff.mp has
    exact .cons (h.1 n a ha) (ih h.2 (Nat.succ.inj hlen) hrest)

theorem NativeValue.items_eq_ok_iff {n : NativeValue} {natives : List NativeValue} :
    n.items = .ok natives ↔ n = .seq natives := by
  cases n <;> simp [items, mismatch, fail]

/-- Values told apart by position are filled from nothing but a sequence, and from one of their
length. -/
theorem Value.itemsByPosition_eq_ok_iff {fillers : List (NativeValue → Except CodecError α)}
    {n : NativeValue} : itemsByPosition fillers n = .ok as ↔
      ∃ natives, n = .seq natives ∧ fillers.length = natives.length ∧
        zipItems 0 fillers natives = .ok as := by
  rw [itemsByPosition, except_bind_eq_ok]
  simp only [except_seq_eq_ok, NativeValue.items_eq_ok_iff, checkLength_eq_ok_iff]

/-- That the lengths agree is checked in front, so no position is left without a value. -/
theorem Value.itemsByPosition_yields {f : σ → NativeValue → Except CodecError α}
    {R : σ → α → Prop} {ss : List σ} {n : NativeValue}
    (h : ∀ s ∈ ss, ∀ n a, f s n = .ok a → R s a)
    (has : itemsByPosition (ss.map f) n = .ok as) : List.Forall₂ R ss as := by
  obtain ⟨natives, -, hlen, hzip⟩ := itemsByPosition_eq_ok_iff.mp has
  exact zipItems_yields h (List.length_map f ▸ hlen) hzip

/-- Native values from which the members of a row are filled in one by one fill in the row. -/
theorem Value.itemsByPosition_of_forall₂ {β : Type} {f : σ → NativeValue → Except CodecError α}
    {native : β → NativeValue} {filled : β → α} {ss : List σ} {bs : List β}
    (h : List.Forall₂ (fun s b => f s (native b) = .ok (filled b)) ss bs) :
    itemsByPosition (ss.map f) (.seq (bs.map native)) = .ok (bs.map filled) := by
  have hzip : ∀ i, zipItems i (ss.map f) (bs.map native) = .ok (bs.map filled) := by
    induction h with
    | nil => exact fun i => rfl
    | cons hb _ ih =>
      exact fun i => zipItems_cons_eq_ok_iff.mpr ⟨_, _, hb, ih (i + 1), List.map_cons⟩
  refine itemsByPosition_eq_ok_iff.mpr ⟨_, rfl, ?_, hzip 0⟩
  rw [List.length_map, List.length_map, h.length_eq]

end Rows

theorem itemFillers_eq_map (types : List ValueType) :
    itemFillers types = types.map ValueType.ofNative := by
  induction types with
  | nil => rfl
  | cons T types ih => rw [itemFillers, ih, List.map_cons]

/-! ### Fields -/

theorem fieldFillers_eq_map (fields : List (Field ValueType)) :
    fieldFillers fields = fields.map fun f => ⟨f.name, f.value.ofNative⟩ := by
  induction fields with
  | nil => rfl
  | cons f fields ih => rw [fieldFillers, ih, List.map_cons]

theorem length_fieldFillers (fields : List (Field ValueType)) :
    (fieldFillers fields).length = fields.length := by
  rw [fieldFillers_eq_map, List.length_map]

section Fields

variable {values : List (Field Value)} {R : ValueType → Value → Prop}
  {fields : List (Field ValueType)}

/-- Fields are filled in by name when the record has a native value for each of them. -/
theorem Value.fieldsByName_eq_ok_iff {r : Record NativeValue} :
    fieldsByName r (fieldFillers fields) = .ok values ↔
      List.Forall₂ (fun f g => g.name = f.name ∧
        ∃ n, NativeValue.require r f.name = .ok n ∧ f.value.ofNative n = .ok g.value)
        fields values := by
  induction fields generalizing values with
  | nil =>
    rw [fieldFillers, fieldsByName, List.forall₂_nil_left_iff, Except.ok.injEq, eq_comm]
  | cons f fields ih =>
    rw [fieldFillers, fieldsByName, List.forall₂_cons_left_iff]
    simp only [except_bind_eq_ok, inside_eq_ok, ih]
    constructor
    · rintro ⟨n, hn, v, hv, rest, hrest, ⟨⟩⟩
      exact ⟨⟨f.name, v⟩, rest, ⟨rfl, n, hn, hv⟩, hrest, rfl⟩
    · rintro ⟨⟨_, v⟩, rest, ⟨rfl, n, hn, hv⟩, hrest, rfl⟩
      exact ⟨n, hn, v, hv, rest, hrest, rfl⟩

/-- Fields from a record stand in the order of the type, whatever the order in the record. -/
theorem Value.fieldsByName_yields {r : Record NativeValue}
    (h : ∀ f ∈ fields, ∀ n v, f.value.ofNative n = .ok v → R f.value v)
    (hvalues : fieldsByName r (fieldFillers fields) = .ok values) :
    List.Forall₂ (Field.Rel R) fields values := by
  refine forall₂_imp_of_mem (fieldsByName_eq_ok_iff.mp hvalues) fun f hf g _ hfg => ?_
  obtain ⟨name, T⟩ := f
  obtain ⟨_, v⟩ := g
  obtain ⟨rfl, n, -, hv⟩ := hfg
  exact .mk (h _ hf n v hv)

/-- One round of fields by position: they get their names from the type. -/
theorem Value.zipFields_cons_eq_ok_iff {name : String} {fill : Filler}
    {fillers : List (Field Filler)} {n : NativeValue} {natives : List NativeValue} :
    zipFields (⟨name, fill⟩ :: fillers) (n :: natives) = .ok values ↔
      ∃ v rest, fill n = .ok v ∧ zipFields fillers natives = .ok rest ∧
        values = ⟨name, v⟩ :: rest := by
  rw [zipFields, except_cons_eq_ok]
  simp only [inside_eq_ok]

/-- Fields by position come out with the same names as those from a record. -/
theorem Value.fieldsByPosition_yields {natives : List NativeValue}
    (h : ∀ f ∈ fields, ∀ n v, f.value.ofNative n = .ok v → R f.value v)
    (hvalues : fieldsByPosition (fieldFillers fields) natives = .ok values) :
    List.Forall₂ (Field.Rel R) fields values := by
  rw [fieldsByPosition, except_seq_eq_ok, checkLength_eq_ok_iff, length_fieldFillers] at hvalues
  obtain ⟨hlen, hzip⟩ := hvalues
  induction fields generalizing natives values with
  | nil =>
    obtain ⟨⟩ := hzip
    exact .nil
  | cons f fields ih =>
    rw [List.forall_mem_cons] at h
    obtain ⟨n, natives, rfl⟩ := List.exists_cons_of_length_eq_add_one hlen.symm
    obtain ⟨v, rest, hv, hrest, rfl⟩ := zipFields_cons_eq_ok_iff.mp hzip
    exact .cons (.mk (h.1 n v hv)) (ih h.2 (Nat.succ.inj hlen) hrest)

/-- From a record or from a sequence, what is filled are the fields of the type, in its order. -/
theorem Value.fieldsOfNative_yields {n : NativeValue}
    (h : ∀ f ∈ fields, ∀ n v, f.value.ofNative n = .ok v → R f.value v)
    (hvalues : fieldsOfNative (fieldFillers fields) n = .ok values) :
    List.Forall₂ (Field.Rel R) fields values := by
  match n, hvalues with
  | .record r, hvalues => exact fieldsByName_yields h hvalues
  | .seq natives, hvalues => exact fieldsByPosition_yields h hvalues

/-! ### Enums -/

/-- A variant with the fillers of its fields. -/
def variantFiller (v : Variant ValueType) : Variant Filler :=
  ⟨v.discriminant, v.name, fieldFillers v.fields⟩

/-- The fillers of a table are those of its variants, under the same discriminants and names. -/
theorem variantFillers_eq_map (variants : List (Variant ValueType)) :
    variantFillers variants = variants.map variantFiller := by
  induction variants with
  | nil => rfl
  | cons v variants ih =>
    rw [variantFillers, ih]
    rfl

theorem tableFillers_eq_map (table : EnumType) : tableFillers table = table.map variantFiller := by
  rw [tableFillers, variantFillers_eq_map]
  rfl

/-- With no fields at hand to keep, a discriminant has the fillers of the variant that the table has
for it. -/
theorem select_tableFillers_eq_ok_iff {table : EnumType} {discriminant : UInt8}
    {fillers : List (Field Filler)} :
    EnumTable.select (some (tableFillers table)) 0 [] discriminant = .ok fillers ↔
      ∃ variant, table.variant discriminant = .ok variant ∧
        fieldFillers variant.fields = fillers := by
  rw [tableFillers_eq_map]
  exact EnumTable.select_map_eq_ok_iff variantFiller fun _ => rfl

/-- What a native value chooses is a discriminant, and with it the fields to fill. -/
theorem Value.chosenOfNative_eq_ok_iff {type : Option EnumType}
    {select : UInt8 → Except CodecError (List (Field Filler))} {n : NativeValue}
    {chosen : UInt8 × List (Field Filler)} : chosenOfNative type select n = .ok chosen ↔
      discriminantOfNative type n = .ok chosen.1 ∧ select chosen.1 = .ok chosen.2 := by
  rw [chosenOfNative]
  simp only [except_bind_eq_ok]
  constructor
  · rintro ⟨d, hd, fillers, hselect, ⟨⟩⟩
    exact ⟨hd, hselect⟩
  · rintro ⟨hd, hselect⟩
    exact ⟨_, hd, _, hselect, rfl⟩

/-- Whichever way an enum is filled, by record, sequence, number or name, it comes out as a variant
of its table with all the fields of that variant. -/
theorem Value.enumOfNative_yields {table : EnumType} {n : NativeValue} {v : Value}
    (h : ∀ v ∈ table.variants, ∀ f ∈ v.fields, ∀ n v, f.value.ofNative n = .ok v → R f.value v)
    (hv : enumOfNative (some table) (EnumTable.select (some (tableFillers table)) 0 []) n =
      .ok v) :
    ∃ discriminant variant values, table.variant discriminant = .ok variant ∧
      List.Forall₂ (Field.Rel R) variant.fields values ∧
        v = .enum (some table) discriminant values := by
  -- All three forms choose a variant first; they differ in where the fields come from.
  have chosen : ∀ {n d fillers}, chosenOfNative (some table)
      (EnumTable.select (some (tableFillers table)) 0 []) n = .ok (d, fillers) →
      ∃ variant, table.variant d = .ok variant ∧ fieldFillers variant.fields = fillers ∧
        ∀ f ∈ variant.fields, ∀ n v, f.value.ofNative n = .ok v → R f.value v := by
    intro n d fillers hchosen
    obtain ⟨variant, hvariant, hfillers⟩ :=
      select_tableFillers_eq_ok_iff.mp (chosenOfNative_eq_ok_iff.mp hchosen).2
    exact ⟨variant, hvariant, hfillers, h variant (mem_of_variant_eq_ok hvariant)⟩
  match n, hv with
  | .record r, hv =>
    obtain ⟨key, -, hv⟩ := except_bind_eq_ok.mp hv
    obtain ⟨⟨d, fillers⟩, hchosen, hv⟩ := except_bind_eq_ok.mp hv
    obtain ⟨values, hvalues, ⟨⟩⟩ := except_bind_eq_ok.mp hv
    obtain ⟨variant, hvariant, rfl, hfields⟩ := chosen (inside_eq_ok.mp hchosen)
    exact ⟨d, variant, values, hvariant, fieldsByName_yields hfields hvalues, rfl⟩
  | .seq (first :: rest), hv =>
    obtain ⟨⟨d, fillers⟩, hchosen, hv⟩ := except_bind_eq_ok.mp hv
    obtain ⟨values, hvalues, ⟨⟩⟩ := except_bind_eq_ok.mp hv
    obtain ⟨variant, hvariant, rfl, hfields⟩ := chosen (inside_eq_ok.mp hchosen)
    exact ⟨d, variant, values, hvariant, fieldsByPosition_yields hfields hvalues, rfl⟩
  | .int _, hv | .str _, hv =>
    obtain ⟨⟨d, fillers⟩, hchosen, hv⟩ := except_bind_eq_ok.mp hv
    obtain ⟨variant, hvariant, hfillers, -⟩ := chosen hchosen
    match fillers, hv with
    | [], hv =>
      obtain ⟨⟩ := hv
      -- A variant that is given alone has no fields to fill.
      have hnil : variant.fields = [] := by
        rw [← List.length_eq_zero_iff, ← length_fieldFillers, hfillers, List.length_nil]
      exact ⟨d, variant, [], hvariant, hnil ▸ .nil, rfl⟩

end Fields

/-! ### Other kinds -/

/-- A native value that is an integer is assigned as that integer. -/
theorem FixedInt.assignNative_eq_of_ok {n : NativeValue} {i : Int} (h : n.toInt = .ok i)
    (x : FixedInt) : assignNative n x = assign i x :=
  bind_of_ok (lift_eq_ok.mpr ⟨h, rfl⟩)

/-- A native value that is no integer leaves the old one where it was. -/
theorem FixedInt.assignNative_eq_of_error {n : NativeValue} {e : CodecError}
    (h : n.toInt = .error e) (x : FixedInt) : assignNative n x = .error e x := by
  refine bind_of_error ?_
  rw [h]
  rfl

/-- Integers of fixed width are filled from integers within their bounds and from nothing else. -/
theorem Value.intOfNative_eq_ok_iff {width : IntWidth} {signed : Bool} {n : NativeValue}
    {v : Value} : intOfNative width signed n = .ok v ↔
      ∃ i, n.toInt = .ok i ∧ (width.min signed ≤ i ∧ i ≤ width.max signed) ∧
        v = .int ⟨width, signed, i⟩ := by
  rw [intOfNative, except_bind_eq_ok]
  simp only [FixedInt.updated_eq_ok_iff]
  constructor
  · rintro ⟨x, hx, ⟨⟩⟩
    rcases h : n.toInt with e | i
    · rw [FixedInt.assignNative_eq_of_error h] at hx
      exact nomatch hx
    · rw [FixedInt.assignNative_eq_of_ok h, ← FixedInt.updated_eq_ok_iff] at hx
      obtain ⟨hbounds, rfl⟩ := FixedInt.ofInt_eq_ok_iff.mp hx
      exact ⟨i, rfl, hbounds, rfl⟩
  · rintro ⟨i, hi, hbounds, rfl⟩
    refine ⟨_, ?_, rfl⟩
    rw [FixedInt.assignNative_eq_of_ok hi, ← FixedInt.updated_eq_ok_iff]
    exact FixedInt.ofInt_eq_ok_iff.mpr ⟨hbounds, rfl⟩

/-- Only the sign can be wrong with an integer of any size. -/
theorem BigInteger.ofInt_eq_ok_iff {signed : Bool} {i : Int} {x : BigInteger} :
    ofInt signed i = .ok x ↔ (signed = false → 0 ≤ i) ∧ x = ⟨signed, i⟩ := by
  have hok : (pure ⟨signed, i⟩ : Except CodecError BigInteger) = .ok x ↔ x = ⟨signed, i⟩ :=
    ⟨fun | rfl => rfl, fun | rfl => rfl⟩
  cases signed with
  | true => exact hok.trans (and_iff_right nofun).symm
  | false =>
    refine except_seq_eq_ok.trans (and_congr ?_ hok)
    rw [checkBounds_none_eq_ok_iff, forall_prop_of_true rfl]

/-- A decimal is brought to the scale of the type where it has one, and keeps its own otherwise. -/
theorem Amount.ofDecimal_has (scale : Option UInt32) (d : Decimal) :
    (ValueType.decimal scale).Has (.decimal (.ofDecimal scale d)) := by
  match scale with
  | some s =>
    rw [Amount.ofDecimal, Decimal.rescale]
    by_cases hle : d.scale ≤ s
    · rw [if_pos hle]
      exact .fixed _ s
    · rw [if_neg hle]
      exact .fixed _ s
  | none => exact .floating d

/-- All the spellings of a decimal come out with the scale of the type. -/
theorem Value.decimalOfNative_has {scale : Option UInt32} {n : NativeValue} {v : Value}
    (h : decimalOfNative scale n = .ok v) : (ValueType.decimal scale).Has v := by
  match n, h with
  | .decimal d, h =>
    obtain ⟨⟩ := h
    exact Amount.ofDecimal_has scale d
  | .str s, h =>
    obtain ⟨d, -, ⟨⟩⟩ := except_bind_eq_ok.mp h
    exact Amount.ofDecimal_has scale d
  | .int i, h =>
    obtain ⟨-, ⟨⟩⟩ := except_seq_eq_ok.mp h
    exact Amount.ofDecimal_has scale _

/-- An octet is within the bounds of the type that bytes stand for. -/
theorem FixedInt.ofOctet_has (b : UInt8) : (ValueType.int .w8 false).Has (.int (.ofOctet b)) := by
  have hmax : (b.toNat : Int) ≤ IntWidth.max .w8 false := by
    have hlt := b.toNat_lt
    change (b.toNat : Int) ≤ 255
    omega
  exact .int (Int.natCast_nonneg _) hmax

/-- A sequence is filled in with items of its type, also where these are octets. -/
theorem Value.itemsOfNative_has {item : ValueType} {n : NativeValue} {items : List Value}
    (h : ∀ n v, item.ofNative n = .ok v → item.Has v)
    (hitems : itemsOfNative item item.ofNative n = .ok items) : ∀ v ∈ items, item.Has v := by
  match n, item, hitems with
  | .seq natives, _, hitems => exact eachOfNative_yields h hitems
  | .bytes bs, .int .w8 false, hitems =>
    obtain ⟨⟩ := hitems
    exact List.forall_mem_map.mpr fun b _ => FixedInt.ofOctet_has b

/-- Items make an array if there are as many as the type declares. -/
theorem Value.ofArray_eq_ok_iff {item : ValueType} {length : Nat} {items : List Value} {v : Value} :
    ofArray item length items = .ok v ↔ length = items.length ∧ v = .array item length items := by
  rw [ofArray, except_seq_eq_ok, checkLength_eq_ok_iff]
  exact and_congr_right fun _ => ⟨fun | rfl => rfl, fun | rfl => rfl⟩

/-- Anything but `null` fills in what an option holds. -/
theorem Value.optionOfNative_of_ne_null {item : Option ValueType} {fill : Filler} {n : NativeValue}
    (h : n ≠ .null) : optionOfNative item fill n = (fill n).map fun v => .option item (some v) := by
  cases n with
  | null => exact absurd rfl h
  | _ => exact except_bind_pure

/-! ### By type -/

namespace ValueType

/-- Whatever a type is filled in with is a value of the type. -/
theorem ofNative_has {T : ValueType} {n : NativeValue} {v : Value} (h : T.ofNative n = .ok v) :
    T.Has v := by
  induction T generalizing n v with
  | int width signed =>
    obtain ⟨i, -, ⟨hmin, hmax⟩, rfl⟩ := intOfNative_eq_ok_iff.mp h
    exact .int hmin hmax
  | big signed =>
    obtain ⟨i, -, h⟩ := except_bind_eq_ok.mp h
    obtain ⟨x, hx, ⟨⟩⟩ := except_bind_eq_ok.mp h
    obtain ⟨hsign, rfl⟩ := BigInteger.ofInt_eq_ok_iff.mp hx
    exact .big hsign
  | bool =>
    obtain ⟨b, -, ⟨⟩⟩ := except_bind_eq_ok.mp h
    exact .bool b
  | bytes =>
    -- Only some kinds of native values are taken; for the others there is no answer to speak of.
    match n, h with
    | .bytes bs, h =>
      obtain ⟨⟩ := h
      exact .bytes bs
    | .str s, h =>
      obtain ⟨⟩ := h
      exact .bytes _
  | str =>
    match n, h with
    | .str s, h =>
      obtain ⟨⟩ := h
      exact .str s
    | .bytes bs, h =>
      obtain ⟨s, -, ⟨⟩⟩ := except_bind_eq_ok.mp h
      exact .str s
  | address =>
    match n, h with
    | .bytes bs, h =>
      obtain ⟨a, -, ⟨⟩⟩ := except_bind_eq_ok.mp h
      exact .address a
    | .str s, h =>
      obtain ⟨a, -, ⟨⟩⟩ := except_bind_eq_ok.mp h
      exact .address a
  | decimal scale => exact decimalOfNative_has h
  | metadata =>
    match n, h with
    | .bytes [a, b], h =>
      obtain ⟨⟩ := h
      exact .metadata ⟨a, b⟩
    | .record r, h =>
      obtain ⟨m, -, ⟨⟩⟩ := except_bind_eq_ok.mp h
      exact .metadata m
  | list item ih =>
    obtain ⟨items, hitems, ⟨⟩⟩ := except_bind_eq_ok.mp h
    exact .list (itemsOfNative_has (fun _ _ => ih) hitems)
  | array item length ih =>
    obtain ⟨items, hitems, h⟩ := except_bind_eq_ok.mp h
    obtain ⟨hlen, rfl⟩ := ofArray_eq_ok_iff.mp h
    exact .array hlen.symm (itemsOfNative_has (fun _ _ => ih) hitems)
  | struct name fields ih =>
    obtain ⟨values, hvalues, ⟨⟩⟩ := except_bind_eq_ok.mp h
    exact .struct (fieldsOfNative_yields (fun f hf n v => ih f hf) hvalues)
  | tuple types ih =>
    obtain ⟨items, hitems, ⟨⟩⟩ := except_bind_eq_ok.mp h
    rw [itemFillers_eq_map] at hitems
    exact .tuple (itemsByPosition_yields (fun T hT n v => ih T hT) hitems)
  | enum table ih =>
    obtain ⟨discriminant, variant, values, hvariant, hvalues, rfl⟩ :=
      enumOfNative_yields (fun v hv f hf n w => ih v hv f hf) h
    exact .enum hvariant hvalues
  | explicit type names =>
    match n, h with
    | .str s, h =>
      obtain ⟨hmem, rfl⟩ := ofName_eq_ok_iff.mp h
      exact .explicit type hmem
  | option item ih =>
    -- Absent for `null`, and present for anything that the item takes.
    by_cases hnull : n = .null
    · subst hnull
      obtain ⟨⟩ := h
      exact .absent item
    · obtain ⟨w, hw, rfl⟩ := except_map_eq_ok.mp ((optionOfNative_of_ne_null hnull).symm.trans h)
      exact .present (ih hw)

end ValueType

/-! ### In place of a value -/

/-- Held items that fill as their types do fill, as a row, as the row of types does. -/
theorem fillItems_eq_itemFillers {types : List ValueType} {items : List Value}
    (h : List.Forall₂ (fun T v => v.fill = T.ofNative) types items) :
    fillItems items = itemFillers types := by
  induction h with
  | nil => rfl
  | cons hv _ ih => rw [fillItems, itemFillers, hv, ih]

/-- Held fields that fill as their types do fill, with the names of the type, as its fields do. -/
theorem fillFields_eq_fieldFillers {fields : List (Field ValueType)} {values : List (Field Value)}
    (h : List.Forall₂ (Field.Rel fun T v => v.fill = T.ofNative) fields values) :
    fillFields values = fieldFillers fields := by
  induction h with
  | nil => rfl
  | cons hv _ ih =>
    obtain ⟨hv⟩ := hv
    rw [fillFields, fieldFillers, hv, ih]

/-- It makes no difference to a filler whether an enum keeps the fields that it has or gets new
ones, since both are fields of the variant chosen. -/
theorem select_fieldFillers {table : EnumType} {discriminant : UInt8}
    {variant : Variant ValueType} (hvariant : table.variant discriminant = .ok variant) :
    EnumTable.select (some (tableFillers table)) discriminant (fieldFillers variant.fields) =
      EnumTable.select (some (tableFillers table)) 0 [] := by
  rw [tableFillers_eq_map]
  exact EnumTable.select_map_fields variantFiller (fun _ => rfl) hvariant

namespace ValueType

/-- Filling in a value of a type is filling in the type. -/
theorem Has.fill_eq {T : ValueType} {v : Value} (h : T.Has v) : v.fill = T.ofNative := by
  induction T generalizing v with
  | struct name fields ih =>
    have .struct h := h
    have hfields := fillFields_eq_fieldFillers
      (forall₂_field_imp_of_mem h fun f hf _ _ hv => ih f hf hv)
    rw [Value.fill, ValueType.ofNative, hfields]
  | tuple types ih =>
    have .tuple h := h
    have hitems := fillItems_eq_itemFillers (forall₂_imp_of_mem h fun T hT _ _ hv => ih T hT hv)
    rw [Value.fill, ValueType.ofNative, hitems]
  | enum table ih =>
    have .enum hvariant h := h
    have hvariants := ih _ (mem_of_variant_eq_ok hvariant)
    have hfields := fillFields_eq_fieldFillers
      (forall₂_field_imp_of_mem h fun f hf _ _ hv => hvariants f hf hv)
    rw [Value.fill, ValueType.ofNative, hfields, Option.map_some, select_fieldFillers hvariant]
  | _ =>
    -- Any other value carries its type, or what it needs of it.
    cases h
    all_goals rfl

/-- The same of what a type may be read as: an array forgets how many items it holds. -/
theorem HasTop.fill_eq {T : ValueType} {v : Value} (h : T.HasTop v) : v.fill = T.ofNative := by
  match h with
  | .has h => exact h.fill_eq
  | .array length _ => rfl

/-- Values that a decoder at top level may answer read the nested encoding as their type does. -/
theorem HasTop.readNested_eq {T : ValueType} {v : Value} (h : T.HasTop v) :
    v.readNested = T.readNested := by
  match h with
  | .has h => exact h.readNested_eq
  | .array length _ => rfl

end ValueType

end CallData
