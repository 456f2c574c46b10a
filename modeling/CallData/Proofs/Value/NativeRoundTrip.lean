import CallData.Proofs.Record
import CallData.Proofs.Value.Filling
import CallData.Proofs.Value.ViaNative

/-!
# Native values and back

A native value is filled into the type of the value that it stands for, and gives back what native
values keep of that (`ValueType.Has.ofNative_toNative`). The fields of a record are found by their
names, so the names that stand beside one another in a type have to be told apart
(`ValueType.Unambiguous`).
-/

namespace CallData

open Value

/-! ### Records -/

/-- In a record made of fields with different names, each is found under its own. -/
theorem NativeValue.require_of_mem {fs : List (Field NativeValue)} (h : (fs.map Field.name).Nodup)
    {f : Field NativeValue} (hf : f ∈ fs) : require (.ofList fs) f.name = .ok f.value := by
  rw [require, Record.ofList_of_nodup h, Record.get?, Record.find?_name_of_mem h hf]
  rfl

/-! ### Names that are told apart -/

namespace ValueType

/-- The types that stand directly in a type. -/
def parts : ValueType → List ValueType
  | .list item | .array item _ | .option item => [item]
  | .struct _ fields => fields.map Field.value
  | .tuple types => types
  | .enum table => table.variants.flatMap fun v => v.fields.map Field.value
  | _ => []

/-- Something holds of a type and of every type in it. -/
inductive Everywhere (P : ValueType → Prop) : ValueType → Prop where
  | intro {T : ValueType} (h : P T) (hparts : ∀ S ∈ T.parts, Everywhere P S) : Everywhere P T

/-- The names that a type gives to its fields are different, and no field of a variant goes by the
name under which a record holds the variant. -/
def HasDistinctNames : ValueType → Prop
  | .struct _ fields => (fields.map Field.name).Nodup
  | .enum table => ∀ v ∈ table.variants, (discriminantKey :: v.fields.map Field.name).Nodup
  | _ => True

/-- The names in a type tell its fields apart. -/
def Unambiguous : ValueType → Prop :=
  Everywhere HasDistinctNames

/-- No type inside an unambiguous one is ambiguous, so the induction over types can go on with them.
-/
theorem Unambiguous.parts {T : ValueType} (h : T.Unambiguous) : ∀ S ∈ T.parts, S.Unambiguous := by
  have .intro _ hparts := h
  exact hparts

/-- The names that a type itself gives are told apart where it is unambiguous. -/
theorem Unambiguous.names {T : ValueType} (h : T.Unambiguous) : T.HasDistinctNames := by
  have .intro hnames _ := h
  exact hnames

end ValueType

/-! ### Values made of others -/

/-- Items come back from their sequence as each comes back on its own. -/
theorem itemsOfNative_nativeItems (item : ValueType) {fill : Filler} {items : List Value}
    (h : ∀ v ∈ items, fill v.toNative = .ok v.viaNative) :
    itemsOfNative item fill (.seq (nativeItems items)) = .ok (itemsViaNative items) := by
  rw [nativeItems_eq_map, itemsViaNative_eq_map]
  refine eachOfNative_eq_ok_iff.mpr ?_
  rw [List.forall₂_map_left_iff, List.forall₂_map_right_iff]
  exact List.forall₂_same.mpr h

/-- The items of a tuple come back from their sequence, each by the filler of its own type. -/
theorem itemsByPosition_nativeItems {types : List ValueType} {items : List Value}
    (h : List.Forall₂ (fun T v => T.ofNative v.toNative = .ok v.viaNative) types items) :
    itemsByPosition (itemFillers types) (.seq (nativeItems items)) =
      .ok (itemsViaNative items) := by
  rw [itemFillers_eq_map, nativeItems_eq_map, itemsViaNative_eq_map]
  exact itemsByPosition_of_forall₂ h

/-- Fields are filled in again from a record of their own, in which others may stand in front. -/
theorem fieldsByName_nativeFields {fields : List (Field ValueType)} {values : List (Field Value)}
    (others : List (Field NativeValue))
    (hnames : (others.map Field.name ++ fields.map Field.name).Nodup)
    (h : List.Forall₂ (Field.Rel fun T v => T.ofNative v.toNative = .ok v.viaNative)
      fields values) :
    fieldsByName (.ofList (others ++ nativeFields values)) (fieldFillers fields) =
      .ok (fieldsViaNative values) := by
  have hnodup : ((others ++ nativeFields values).map Field.name).Nodup := by
    rw [map_name_eq_of_forall₂ h] at hnames
    rw [nativeFields_eq_map, List.map_append, List.map_map]
    exact hnames
  rw [fieldsByName_eq_ok_iff, fieldsViaNative_eq_map, List.forall₂_map_right_iff]
  refine forall₂_imp_of_mem h fun f _ g hg hfg => ?_
  obtain @⟨name, T, v, hv⟩ := hfg
  have hmem : ⟨name, v.toNative⟩ ∈ others ++ nativeFields values := by
    rw [nativeFields_eq_map]
    exact List.mem_append_right _ (List.mem_map.mpr ⟨_, hg, rfl⟩)
  exact ⟨rfl, v.toNative, NativeValue.require_of_mem hnodup hmem, hv⟩

/-- A discriminant is found under its own name, and turns the enum to the fields of its variant. -/
theorem enumOfNative_nativeFields {table : EnumType} {discriminant : UInt8}
    {variant : Variant ValueType} {values : List (Field Value)}
    (hvariant : table.variant discriminant = .ok variant)
    (hnames : (discriminantKey :: variant.fields.map Field.name).Nodup)
    (h : List.Forall₂ (Field.Rel fun T v => T.ofNative v.toNative = .ok v.viaNative)
      variant.fields values) :
    enumOfNative (some table) (EnumTable.select (some (tableFillers table)) 0 [])
      (enum (some table) discriminant values).toNative =
        .ok (.enum (some table) discriminant (fieldsViaNative values)) := by
  have hkey : NativeValue.require
      (.ofList (⟨discriminantKey, .int discriminant.toNat⟩ :: nativeFields values))
      discriminantKey = .ok (.int discriminant.toNat) := by
    refine NativeValue.require_of_mem (f := ⟨discriminantKey, _⟩) ?_ List.mem_cons_self
    rw [map_name_eq_of_forall₂ h] at hnames
    rw [nativeFields_eq_map, List.map_cons, List.map_map]
    exact hnames
  have hoctet : discriminantOfNative (some table) (.int discriminant.toNat) = .ok discriminant := by
    have hbounds : checkBounds (discriminant.toNat : Int) 0 (some 255) = .ok () := by
      have hlt := discriminant.toNat_lt
      exact checkBounds_eq_ok_iff.mpr ⟨Int.natCast_nonneg _, by omega⟩
    refine except_bind_eq_ok.mpr ⟨_, rfl, except_seq_eq_ok.mpr ⟨hbounds, ?_⟩⟩
    rw [Int.toNat_natCast, UInt8.ofNat_toNat]
    rfl
  have hchosen : chosenOfNative (some table) (EnumTable.select (some (tableFillers table)) 0 [])
      (.int discriminant.toNat) = .ok (discriminant, fieldFillers variant.fields) :=
    chosenOfNative_eq_ok_iff.mpr
      ⟨hoctet, select_tableFillers_eq_ok_iff.mpr ⟨variant, hvariant, rfl⟩⟩
  -- The discriminant stands in front of the fields, so these are looked up behind it.
  have hfields :=
    fieldsByName_nativeFields [⟨discriminantKey, .int discriminant.toNat⟩] hnames h
  refine except_bind_eq_ok.mpr ⟨_, hkey, except_bind_eq_ok.mpr ⟨_, inside_eq_ok.mpr hchosen, ?_⟩⟩
  exact except_bind_eq_ok.mpr ⟨_, hfields, rfl⟩

/-! ### Code metadata -/

/-- Of the two octets, the first has the bits of upgradeable and readable and the second the bits of
payable and payable by contract. -/
theorem CodeMetadata.ofFlags_eq (upgradeable readable payable payableByContract : Bool) :
    ofFlags upgradeable readable payable payableByContract =
      ⟨(if upgradeable then 1 else 0) ||| (if readable then 4 else 0),
        (if payable then 2 else 0) ||| (if payableByContract then 4 else 0)⟩ := by
  decide +revert

theorem octet_and_or (b m n : UInt8) : b &&& (m ||| n) = b &&& m ||| b &&& n :=
  UInt8.toBitVec_inj.mp BitVec.and_or_distrib_left

/-- A flag is a bit of an octet. -/
theorem octet_and_bit {bit : UInt8} (hbit : bit ∈ [1, 2, 4]) (b : UInt8) :
    (if (b &&& bit) != 0 then bit else 0) = b &&& bit := by
  have hall : ∀ m ∈ [1, 2, 4], ∀ n < 256,
      (if (UInt8.ofNat n &&& m) != 0 then m else 0) = UInt8.ofNat n &&& m := by
    decide +kernel
  have hb := hall bit hbit b.toNat b.toNat_lt
  rwa [UInt8.ofNat_toNat] at hb

/-- The flags of code metadata say all about it but the bits without a name. -/
theorem CodeMetadata.ofFlags_has (m : CodeMetadata) :
    ofFlags (m.has .upgradeable) (m.has .readable) (m.has .payable) (m.has .payableByContract) =
      m.named := by
  simp only [ofFlags_eq, has, MetadataFlag.mask, UInt8.and_zero, bne_self_eq_false, Bool.or_false,
    Bool.false_or]
  rw [octet_and_bit (by decide), octet_and_bit (by decide), octet_and_bit (by decide),
    octet_and_bit (by decide), ← octet_and_or, ← octet_and_or]
  rfl

/-- A record with all the flags sets each of them to what it says, in whatever order the flags are
taken. -/
theorem flagsOfRecord_of_require {r : Record NativeValue} {on : MetadataFlag → Bool}
    {flags : List MetadataFlag} (h : ∀ f ∈ flags, NativeValue.require r f.name = .ok (.bool (on f)))
    (m : CodeMetadata) :
    flagsOfRecord r flags m = .ok (flags.foldl (fun m f => m.set f (on f)) m) := by
  induction flags generalizing m with
  | nil => rfl
  | cons f flags ih =>
    rw [List.forall_mem_cons] at h
    rw [flagsOfRecord, h.1, List.foldl_cons, ← ih h.2]
    rfl

/-- Code metadata comes back from its flags without the bits that have no name. -/
theorem metadataOfNative_flagRecord (m : CodeMetadata) :
    metadataOfNative (metadata m).toNative = .ok (.metadata m.named) := by
  have hrequire : ∀ f ∈ MetadataFlag.all,
      NativeValue.require (flagRecord m) f.name = .ok (.bool (m.has f)) := by
    intro f hf
    refine NativeValue.require_of_mem (f := ⟨f.name, .bool (m.has f)⟩) ?_ (List.mem_map_of_mem hf)
    rw [List.map_map]
    change (MetadataFlag.all.map MetadataFlag.name).Nodup
    decide
  refine except_bind_eq_ok.mpr ⟨_, flagsOfRecord_of_require hrequire .none, ?_⟩
  exact congrArg (fun m => Except.ok (Value.metadata m)) m.ofFlags_has

/-! ### All types -/

theorem Decimal.rescale_self (d : Decimal) : d.rescale d.scale = d := by
  rw [rescale, if_pos (UInt32.le_refl _), UInt32.sub_self]
  exact congrArg (Decimal.mk · d.scale) (Nat.mul_one _)

namespace ValueType

/-- A value of a type is filled in again from the native value that stands for it, but for what
native values leave out. -/
theorem Has.ofNative_toNative {T : ValueType} {v : Value} (h : T.Has v) (hT : T.Unambiguous) :
    T.ofNative v.toNative = .ok v.viaNative := by
  induction T generalizing v with
  | int width signed =>
    have .int hmin hmax := h
    exact Value.intOfNative_eq_ok_iff.mpr ⟨_, rfl, ⟨hmin, hmax⟩, rfl⟩
  | big signed =>
    have .big hsign := h
    have hint := BigInteger.ofInt_eq_ok_iff.mpr ⟨hsign, rfl⟩
    exact except_bind_eq_ok.mpr ⟨_, rfl, except_bind_eq_ok.mpr ⟨_, hint, rfl⟩⟩
  | bool =>
    have .bool _ := h
    rfl
  | bytes =>
    have .bytes _ := h
    rfl
  | str =>
    have .str _ := h
    rfl
  | address =>
    have .address a := h
    exact except_bind_eq_ok.mpr ⟨a, a.ofBytes_bytes, rfl⟩
  | decimal scale =>
    match h with
    | .fixed digits s =>
      have hscale := Decimal.rescale_self ⟨digits, s⟩
      exact congrArg (fun d => Except.ok (Value.decimal (.fixed d))) hscale
    | .floating _ => rfl
  | metadata =>
    have .metadata m := h
    exact metadataOfNative_flagRecord m
  | list item ih =>
    -- Rows come back member by member; what each type adds is the check of its own shape.
    have .list hitems := h
    have hitem := hT.parts item (List.mem_singleton_self item)
    have hrow := itemsOfNative_nativeItems item fun v hv => ih (hitems v hv) hitem
    exact except_bind_eq_ok.mpr ⟨_, hrow, rfl⟩
  | array item length ih =>
    have .array hlen hitems := h
    have hitem := hT.parts item (List.mem_singleton_self item)
    have hrow := itemsOfNative_nativeItems item fun v hv => ih (hitems v hv) hitem
    refine except_bind_eq_ok.mpr ⟨_, hrow, ofArray_eq_ok_iff.mpr ⟨?_, rfl⟩⟩
    rw [itemsViaNative_eq_map, List.length_map, hlen]
  | struct name fields ih =>
    have @Has.struct _ _ values hvalues := h
    have hrow : List.Forall₂ (Field.Rel fun T v => T.ofNative v.toNative = .ok v.viaNative)
        fields values :=
      forall₂_field_imp_of_mem hvalues fun f hf _ _ hv =>
        ih f hf hv (hT.parts _ (List.mem_map_of_mem hf))
    exact except_bind_eq_ok.mpr ⟨_, fieldsByName_nativeFields [] hT.names hrow, rfl⟩
  | tuple types ih =>
    have .tuple hitems := h
    have hrow := forall₂_imp_of_mem hitems fun T hmem _ _ hv => ih T hmem hv (hT.parts T hmem)
    exact except_bind_eq_ok.mpr ⟨_, itemsByPosition_nativeItems hrow, rfl⟩
  | enum table ih =>
    -- The hypothesis on parts is stated of all variants, of which the value has one.
    have @Has.enum _ discriminant variant values hvariant hvalues := h
    have hmem := mem_of_variant_eq_ok hvariant
    have hparts : ∀ f ∈ variant.fields, f.value.Unambiguous := fun f hf =>
      hT.parts _ (List.mem_flatMap.mpr ⟨variant, hmem, List.mem_map_of_mem hf⟩)
    have hrow : List.Forall₂ (Field.Rel fun T v => T.ofNative v.toNative = .ok v.viaNative)
        variant.fields values :=
      forall₂_field_imp_of_mem hvalues fun f hf _ _ hv => ih variant hmem f hf hv (hparts f hf)
    exact enumOfNative_nativeFields hvariant (hT.names variant hmem) hrow
  | explicit type names =>
    have .explicit _ hname := h
    exact ofName_eq_ok_iff.mpr ⟨hname, rfl⟩
  | option item ih =>
    match h with
    | .absent _ => rfl
    | @Has.present _ v hv =>
      have hitem := ih hv (hT.parts item (List.mem_singleton_self item))
      -- What is held may itself stand for nothing, and then the option comes back absent.
      have hnull := isNull_toNative v
      rcases hends : v.endsAbsent
      · have hne : v.toNative ≠ .null := by
          rw [ne_eq, ← NativeValue.isNull_iff, hnull, hends]
          exact Bool.false_ne_true
        rw [viaNative_present hends]
        refine (optionOfNative_of_ne_null hne).trans ?_
        rw [hitem]
        rfl
      · rw [hends, NativeValue.isNull_iff] at hnull
        rw [viaNative_present_of_endsAbsent hends, toNative, hnull]
        rfl

end ValueType

end CallData
