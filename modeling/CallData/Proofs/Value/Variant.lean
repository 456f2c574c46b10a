import CallData.Proofs.Consuming
import CallData.Proofs.Value.InPlace

/-!
# Enums that are read into

An enum is read in place of one that is held, and what this carries decides how. With a table, the
discriminant that is read names the fields; only the fields that are held under that very
discriminant are patterns of their own. These have the names that the table declares, and need not
have the types: where they have not, the table alone does not decide what is read
(`EnumType.readNested_of_makes`, `EnumType.misled_busy`). Without a table, the fields held are the
only patterns there are, so no other discriminant is read; but an empty byte string turns every such
enum to variant zero without fields (`Value.read_bareEnum`, `Value.readTop_nil_bareJob`).
-/

namespace CallData

open ByteReader

/-! ### Selection -/

/-- The fields held count for nothing where the enum turns to another discriminant. -/
theorem EnumTable.select_of_ne {α : Type} {e : EnumTable α} {current discriminant : UInt8}
    {held : List (Field α)} (h : discriminant ≠ current) :
    select (some e) current held discriminant = select (some e) 0 [] discriminant := by
  rw [select_nil]
  simp [select, h]

/-- An enum with a table keeps the fields that it holds, or takes what the table says. -/
theorem EnumTable.select_eq_ok {α : Type} {e : EnumTable α} {current discriminant : UInt8}
    {held fields : List (Field α)} (h : select (some e) current held discriminant = .ok fields) :
    (discriminant = current ∧ held ≠ [] ∧ fields = held) ∨
      select (some e) 0 [] discriminant = .ok fields := by
  by_cases hsame : discriminant = current
  · by_cases hnil : held = []
    · right
      rw [hnil, select_nil] at h
      rw [select_nil, h]
    · have hheld : select (some e) current held discriminant = .ok held := by
        simp [select, hsame, hnil]
      obtain ⟨rfl⟩ := hheld.symm.trans h
      exact .inl ⟨hsame, hnil, rfl⟩
  · right
    rwa [select_of_ne hsame] at h

/-- An enum without a table stays as it is, and turns to no other discriminant. -/
theorem EnumTable.select_none_eq_ok_iff {α : Type} {current discriminant : UInt8}
    {held fields : List (Field α)} :
    select none current held discriminant = .ok fields ↔
      discriminant = current ∧ fields = held := by
  rw [select, except_ite_eq_ok, beq_iff_eq]
  exact and_congr_right fun _ => ⟨fun h => (Except.ok.inj h).symm, congrArg _ ∘ Eq.symm⟩

/-! ### Names of fields -/

theorem heldFields_names (fields : List (Field Value)) :
    (Value.heldFields fields).map Field.name = fields.map Field.name := by
  induction fields with
  | nil => rfl
  | cons f fields ih => rw [Value.heldFields, List.map_cons, List.map_cons, ih]

theorem fieldReaders_names (fields : List (Field ValueType)) :
    (fieldReaders fields).map Field.name = fields.map Field.name := by
  induction fields with
  | nil => rfl
  | cons f fields ih => rw [fieldReaders, List.map_cons, List.map_cons, ih]

/-- Fields are read under the names of their readers. -/
theorem readFields_names (readers : List (Field (ByteReader Value))) :
    (readFields readers).Yields fun values => values.map Field.name = readers.map Field.name := by
  induction readers with
  | nil => exact Yields.pure rfl
  | cons r readers ih =>
    have hvalue : ByteReader.Yields (insideM (.field r.name) r.value) fun _ => True :=
      fun _ _ _ _ => trivial
    refine hvalue.bind fun v _ => ih.map fun values hvalues => ?_
    rw [List.map_cons, List.map_cons, hvalues]

theorem Value.checkNames_eq_ok_iff {types : List (Field ValueType)} {fields : List (Field Value)}
    (h : types.length = fields.length) :
    checkNames types fields = .ok () ↔ types.map Field.name = fields.map Field.name := by
  induction types generalizing fields with
  | nil =>
    obtain rfl := List.length_eq_zero_iff.mp h.symm
    exact iff_of_true rfl rfl
  | cons t types ih =>
    match fields with
    | f :: fields =>
      rw [checkNames, except_ite_eq_ok, ih (Nat.succ_inj.mp h), List.map_cons, List.map_cons,
        List.cons.injEq]

/-- An enum is made of a variant when its fields go by the names that the variant declares. -/
theorem Value.ofVariant_eq_ok_iff {table : EnumType} {discriminant : UInt8}
    {fields : List (Field Value)} {v : Value} :
    ofVariant table discriminant fields = .ok v ↔
      (∃ variant, table.variant discriminant = .ok variant ∧
        variant.fields.map Field.name = fields.map Field.name) ∧
      v = .enum (some table) discriminant fields := by
  rw [ofVariant, except_bind_eq_ok]
  constructor
  · rintro ⟨variant, hvariant, h⟩
    obtain ⟨hlen, h⟩ := except_seq_eq_ok.mp h
    obtain ⟨hnames, ⟨⟩⟩ := except_seq_eq_ok.mp h
    have hlen := checkLength_eq_ok_iff.mp hlen
    exact ⟨⟨variant, hvariant, (checkNames_eq_ok_iff hlen).mp hnames⟩, rfl⟩
  · rintro ⟨⟨variant, hvariant, hnames⟩, rfl⟩
    have hlen : variant.fields.length = fields.length := by
      rw [← List.length_map, hnames, List.length_map]
    refine ⟨variant, hvariant, except_seq_eq_ok.mpr ⟨checkLength_eq_ok_iff.mpr hlen, ?_⟩⟩
    exact except_seq_eq_ok.mpr ⟨(checkNames_eq_ok_iff hlen).mpr hnames, rfl⟩

/-! ### Reading an enum -/

/-- What is read as an enum begins with a discriminant, and its fields are read as those to which
this turns the enum that is held. -/
theorem readEnum_eq_ok {type : Option EnumType} {table : Option (EnumTable (ByteReader Value))}
    {current : UInt8} {held : List (Field (ByteReader Value))} {c c' : Cursor} {v : Value}
    (h : readEnum type table current held c = .ok v c') :
    ∃ discriminant readers fields, c.rest.head? = some discriminant ∧
      EnumTable.select table current held discriminant = .ok readers ∧
      fields.map Field.name = readers.map Field.name ∧ v = .enum type discriminant fields := by
  obtain ⟨discriminant, t, hoctet, h⟩ := bind_eq_ok.mp h
  obtain ⟨readers, t', hselect, h⟩ := bind_eq_ok.mp h
  obtain ⟨fields, t'', hfields, h⟩ := bind_eq_ok.mp h
  obtain ⟨_, hrest, -, rfl⟩ := octet_consumes c discriminant t hoctet
  refine ⟨discriminant, readers, fields, ?_, (lift_eq_ok.mp hselect).1, ?_, (pure_eq_ok.mp h).1⟩
  · rw [hrest]
    rfl
  · exact readFields_names readers t' fields t'' hfields

/-- Where another discriminant comes, an enum is read as one that holds no fields. -/
theorem readEnum_of_ne {type : Option EnumType} {table : EnumTable (ByteReader Value)}
    {current : UInt8} {held : List (Field (ByteReader Value))} {c : Cursor}
    (h : c.rest.head? ≠ some current) :
    readEnum type (some table) current held c = readEnum type (some table) 0 [] c := by
  match c, h with
  | ⟨o, []⟩, _ => rfl
  | ⟨o, b :: rest⟩, h =>
    have hoctet : octet ⟨o, b :: rest⟩ = .ok b ⟨o + 1, rest⟩ := octet_reads b o rest
    have hb : b ≠ current := fun hb => h (congrArg some hb)
    rw [readEnum, readEnum, bind_of_ok hoctet, bind_of_ok hoctet, EnumTable.select_of_ne hb]

/-! ### With a table -/

/-- The enum values that come with a table: the placeholder, and those made of a variant. -/
inductive EnumType.Makes (E : EnumType) : Value → Prop where
  | placeholder : Makes E (ValueType.enum E).placeholder
  | ofVariant {discriminant : UInt8} {fields : List (Field Value)} {v : Value}
      (h : Value.ofVariant E discriminant fields = .ok v) : Makes E v

/-- An enum value misleads a reader that comes to the discriminant held, if it holds fields under
it that do not carry the types which the table declares. -/
def EnumType.Misled (E : EnumType) (v : Value) (c : Cursor) : Prop :=
  ∃ discriminant fields, v = .enum (some E) discriminant fields ∧
    c.rest.head? = some discriminant ∧ ¬ (ValueType.enum E).CarriedBy v

namespace EnumType

variable {E : EnumType} {v w : Value} {c c' : Cursor}

/-- An enum value that comes with a table has no fields, or fields by the names of a variant. -/
theorem Makes.exists_eq_enum (h : E.Makes v) :
    ∃ discriminant fields, v = .enum (some E) discriminant fields ∧
      (fields = [] ∨ ∃ variant, E.variant discriminant = .ok variant ∧
        variant.fields.map Field.name = fields.map Field.name) := by
  cases h with
  | placeholder =>
    refine ⟨_, _, rfl, ?_⟩
    match E with
    | ⟨name, []⟩ => exact .inl rfl
    | ⟨name, variant :: variants⟩ =>
      have hfields : List.Forall₂ (Field.Rel fun _ _ => True) variant.fields
          (placeholderFields variant.fields) :=
        ValueType.forall₂_placeholderFields fun _ _ => trivial
      refine .inr ⟨variant, EnumTable.variant_head name variant variants, ?_⟩
      exact map_name_eq_of_forall₂ hfields
  | ofVariant h =>
    obtain ⟨hvariant, rfl⟩ := Value.ofVariant_eq_ok_iff.mp h
    exact ⟨_, _, rfl, .inr hvariant⟩

theorem not_misled_of_carriedBy (h : (ValueType.enum E).CarriedBy v) (c : Cursor) :
    ¬ E.Misled v c :=
  fun ⟨_, _, _, _, hnot⟩ => hnot h

/-- Where it does not mislead, an enum value is read into as its table says. -/
theorem Makes.readNested_eq (h : E.Makes v) (hv : ¬ E.Misled v c) :
    v.readNested c = (ValueType.enum E).readNested c := by
  obtain ⟨discriminant, fields, rfl, -⟩ := h.exists_eq_enum
  by_cases hhead : c.rest.head? = some discriminant
  · have hcarried : (ValueType.enum E).CarriedBy (.enum (some E) discriminant fields) := by
      by_contra hnot
      exact hv ⟨discriminant, fields, rfl, hhead, hnot⟩
    rw [hcarried.readNested_eq]
  · exact readEnum_of_ne hhead

/-- Whatever is read in place of an enum value that comes with a table, it is a variant of the
table, with fields by the names that this declares. -/
theorem Makes.names_of_readNested (h : E.Makes v) (hw : v.readNested c = .ok w c') :
    ∃ discriminant variant fields, c.rest.head? = some discriminant ∧
      E.variant discriminant = .ok variant ∧ w = .enum (some E) discriminant fields ∧
      fields.map Field.name = variant.fields.map Field.name := by
  obtain ⟨current, held, rfl, hheld⟩ := h.exists_eq_enum
  obtain ⟨discriminant, readers, fields, hhead, hselect, hnames, rfl⟩ := readEnum_eq_ok hw
  suffices hvariant : ∃ variant, E.variant discriminant = .ok variant ∧
      readers.map Field.name = variant.fields.map Field.name by
    obtain ⟨variant, hvariant, hreaders⟩ := hvariant
    exact ⟨discriminant, variant, fields, hhead, hvariant, rfl, hnames.trans hreaders⟩
  rcases EnumTable.select_eq_ok hselect with ⟨rfl, hne, rfl⟩ | hlooked
  · -- The fields held are kept, and go by the names of their variant.
    have hne : held ≠ [] := fun h => hne (congrArg Value.heldFields h)
    obtain ⟨variant, hvariant, hvariantNames⟩ := hheld.resolve_left hne
    exact ⟨variant, hvariant, (heldFields_names held).trans hvariantNames.symm⟩
  · obtain ⟨variant, hvariant, rfl⟩ := select_tableReaders_eq_ok_iff.mp hlooked
    exact ⟨variant, hvariant, fieldReaders_names variant.fields⟩

/-- What an enum value that comes with a table is read as. Where it does not mislead, the table
alone decides: any two such values are read into in the same way, to a variant of the table with
fields of the types that this declares. In any case what is read is a variant of the table, with
fields by the names that this declares. -/
theorem readNested_of_makes (E : EnumType) (c : Cursor) :
    (∀ v w, E.Makes v → E.Makes w → ¬ E.Misled v c → ¬ E.Misled w c →
      v.readNested c = w.readNested c) ∧
    ∀ v w c', E.Makes v → v.readNested c = .ok w c' →
      ∃ discriminant variant fields, c.rest.head? = some discriminant ∧
        E.variant discriminant = .ok variant ∧ w = .enum (some E) discriminant fields ∧
        fields.map Field.name = variant.fields.map Field.name ∧
        (¬ E.Misled v c → List.Forall₂ (Field.Rel ValueType.Has) variant.fields fields) := by
  refine ⟨fun v w hv hw hv' hw' => ?_, fun v w c' hv hread => ?_⟩
  · rw [hv.readNested_eq hv', hw.readNested_eq hw']
  · obtain ⟨discriminant, variant, fields, hhead, hvariant, rfl, hnames⟩ :=
      hv.names_of_readNested hread
    refine ⟨discriminant, variant, fields, hhead, hvariant, rfl, hnames, fun hv' => ?_⟩
    rw [hv.readNested_eq hv'] at hread
    have .enum hvariant' hfields := ((ValueType.enum E).readNested_yields c _ c' hread).1
    obtain ⟨⟩ := hvariant.symm.trans hvariant'
    exact hfields

end EnumType

/-- The states of a worker: idle, or busy with a job. -/
def status : EnumType :=
  ⟨"Status", [⟨0, "Idle", []⟩, ⟨5, "Busy", [⟨"job", .int .w16 false⟩, ⟨"urgent", .bool⟩]⟩]⟩

/-- Busy with a job, whose number is held in a width that may not be the one declared. -/
def busy (width : IntWidth) (job : Int) (urgent : Bool) : Value :=
  .enum (some status) 5 [⟨"job", .int ⟨width, false, job⟩⟩, ⟨"urgent", .bool urgent⟩]

theorem status_makes_busy (width : IntWidth) (job : Int) (urgent : Bool) :
    status.Makes (busy width job urgent) := by
  have hbusy : Value.ofVariant status 5 [⟨"job", .int ⟨width, false, job⟩⟩,
      ⟨"urgent", .bool urgent⟩] = .ok (busy width job urgent) := rfl
  exact .ofVariant hbusy

theorem status_has_busy {job : Int} {urgent : Bool} (hmin : IntWidth.w16.min false ≤ job)
    (hmax : job ≤ IntWidth.w16.max false) : (ValueType.enum status).Has (busy .w16 job urgent) :=
  .enum rfl (.cons (.mk (.int hmin hmax)) (.cons (.mk (.bool urgent)) .nil))

theorem EnumType.readNested_busy : status.Makes (busy .w16 7 false) ∧
    ¬ status.Misled (busy .w16 7 false) (.start [5, 1, 1, 1]) ∧
    (busy .w16 7 false).readNested (.start [5, 1, 1, 1]) =
      (ValueType.enum status).placeholder.readNested (.start [5, 1, 1, 1]) ∧
    ∃ discriminant variant fields, status.variant discriminant = .ok variant ∧
      busy .w16 257 true = .enum (some status) discriminant fields ∧
      List.Forall₂ (Field.Rel ValueType.Has) variant.fields fields := by
  have hmakes := status_makes_busy .w16 7 false
  have hhas : (ValueType.enum status).Has (busy .w16 7 false) :=
    status_has_busy (by decide) (by decide)
  have hmisled := EnumType.not_misled_of_carriedBy hhas.carriedBy (.start [5, 1, 1, 1])
  have hplaceholder := EnumType.not_misled_of_carriedBy
    (ValueType.enum status).placeholder_carriedBy (.start [5, 1, 1, 1])
  obtain ⟨hsame, hyields⟩ := EnumType.readNested_of_makes status (.start [5, 1, 1, 1])
  obtain ⟨discriminant, variant, fields, -, hvariant, hbusy, -, hfields⟩ :=
    hyields _ (busy .w16 257 true) ⟨4, []⟩ hmakes rfl
  exact ⟨hmakes, hmisled,
    hsame _ _ hmakes .placeholder hmisled hplaceholder,
    discriminant, variant, fields, hvariant, hbusy, hfields hmisled⟩

/-- A number that is held in a narrower width than the table declares stays in that width. -/
theorem EnumType.misled_busy : status.Makes (busy .w8 1 true) ∧
    status.Makes (ValueType.enum status).placeholder ∧
    (busy .w8 1 true).readNested (.start [5, 1, 1, 1]) = .ok (busy .w8 1 true) ⟨3, [1]⟩ ∧
    (ValueType.enum status).placeholder.readNested (.start [5, 1, 1, 1]) =
      .ok (busy .w16 257 true) ⟨4, []⟩ ∧
    (busy .w8 1 true == busy .w16 257 true) = false ∧
    ¬ (ValueType.enum status).Has (busy .w8 1 true) := by
  refine ⟨status_makes_busy .w8 1 true, .placeholder, rfl, rfl, rfl, fun h => ?_⟩
  have .enum hvariant hfields := h
  obtain ⟨⟩ := hvariant
  obtain ⟨⟨hjob⟩, -⟩ := List.forall₂_cons.mp hfields
  cases hjob

/-! ### Without a table -/

/-- What an enum value without a table is read as. A nested value, and a byte string of its own
that has any bytes, is read only at the discriminant held, into fields by the names held. An empty
byte string passes this by: whatever the enum held, it turns to variant zero without fields. -/
theorem Value.read_bareEnum (current : UInt8) (held : List (Field Value)) :
    (∀ c v c', (Value.enum none current held).readNested c = .ok v c' →
      c.rest.head? = some current ∧
        ∃ fields, v = .enum none current fields ∧ fields.map Field.name = held.map Field.name) ∧
    (∀ bs v, bs ≠ [] → (Value.enum none current held).readTop bs = .ok v →
      bs.head? = some current ∧
        ∃ fields, v = .enum none current fields ∧ fields.map Field.name = held.map Field.name) ∧
    (Value.enum none current held).readTop [] = .ok (.enum none 0 []) := by
  have hnested : ∀ c v c', (Value.enum none current held).readNested c = .ok v c' →
      c.rest.head? = some current ∧
        ∃ fields, v = .enum none current fields ∧
          fields.map Field.name = held.map Field.name := by
    intro c v c' hv
    obtain ⟨discriminant, readers, fields, hhead, hselect, hnames, rfl⟩ := readEnum_eq_ok hv
    obtain ⟨rfl, rfl⟩ := EnumTable.select_none_eq_ok_iff.mp hselect
    exact ⟨hhead, fields, rfl, hnames.trans (heldFields_names held)⟩
  refine ⟨hnested, fun bs v hne hv => ?_, rfl⟩
  rw [Value.readTop, if_neg (by simpa using hne)] at hv
  obtain ⟨c, hv, -⟩ := exactly_eq_ok_iff.mp hv
  exact hnested (.start bs) v c hv

/-- A job that is held under discriminant five, without a table. -/
def bareJob (job : Int) : Value :=
  .enum none 5 [⟨"job", .int ⟨.w16, false, job⟩⟩]

theorem Value.read_bareJob :
    (bareJob 7).readNested (.start [5, 1, 1, 9]) = .ok (bareJob 257) ⟨3, [9]⟩ ∧
    (bareJob 7).readTop [5, 1, 1] = .ok (bareJob 257) ∧
    (∃ fields, bareJob 257 = .enum none 5 fields ∧ fields.map Field.name = ["job"]) ∧
    (bareJob 7).readTop [] = .ok (.enum none 0 []) := by
  obtain ⟨-, htop, hempty⟩ := Value.read_bareEnum 5 [⟨"job", .int ⟨.w16, false, 7⟩⟩]
  exact ⟨rfl, rfl, (htop [5, 1, 1] (bareJob 257) (by decide) rfl).2, hempty⟩

/-- Discriminant zero, which is refused where it is written out, is taken from no bytes at all. -/
theorem Value.readTop_nil_bareJob :
    (bareJob 7).readTop [0] = .error (.of (.missingPlaceholder "enum variant")) ∧
    (bareJob 7).readNested (.start [0]) =
      .error (.of (.missingPlaceholder "enum variant")) ⟨1, []⟩ ∧
    (bareJob 7).readTop [] = .ok (.enum none 0 []) :=
  ⟨rfl, rfl, rfl⟩

end CallData
