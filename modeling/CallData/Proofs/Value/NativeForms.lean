import CallData.Proofs.Value.Filling

/-!
# Records and sequences

Fields are filled in from a record by their names, or from a sequence by their positions, and it
makes no difference which: a record fills in what the sequence of its values for these names does,
or is refused in the same words (`ValueType.fill_record_eq_fill_seq`). The order of the record and
what else is in it do not count. Where a name is missing, the first field that the record does not
fill in is to blame (`Value.FirstFault`). An enum takes its variant from a number or from a name
(`EnumType.Picks`), and then its fields as a struct does.
-/

namespace CallData

open Value

/-! ### Fields -/

/-- A record has some values for the names of fields, in the order of the fields. -/
def Record.Lists {α β : Type} (r : Record α) (fields : List (Field β)) (values : List α) : Prop :=
  List.Forall₂ (fun f v => r.get? f.name = some v) fields values

theorem NativeValue.require_eq_ok_iff {r : Record NativeValue} {name : String} {n : NativeValue} :
    require r name = .ok n ↔ r.get? name = some n := by
  rw [require]
  cases r.get? name <;> simp [fail]

/-- A field that is required is missing where nothing is found under its name, which the error says.
-/
theorem NativeValue.require_eq_error_iff {r : Record NativeValue} {name : String}
    {e : CodecError} :
    require r name = .error e ↔ r.get? name = none ∧ e = .of (.missingField name) := by
  rw [require]
  cases r.get? name <;> simp [fail, eq_comm]

theorem Record.Lists.fieldFillers {r : Record NativeValue} {fields : List (Field ValueType)}
    {natives : List NativeValue} (h : r.Lists fields natives) :
    r.Lists (fieldFillers fields) natives := by
  rw [Lists, fieldFillers_eq_map, List.forall₂_map_left_iff]
  exact h

namespace Value

variable {r r' : Record NativeValue}

/-- What a record has for the names of fields fills them in by position as well. -/
theorem fieldsByName_eq_fieldsByPosition {fillers : List (Field Filler)}
    {natives : List NativeValue} (h : r.Lists fillers natives) :
    fieldsByName r fillers = fieldsByPosition fillers natives := by
  suffices hzip : fieldsByName r fillers = zipFields fillers natives by
    rw [fieldsByPosition, checkLength_eq_ok_iff.mpr h.length_eq, hzip]
    rfl
  induction h with
  | nil => rfl
  | cons hn _ ih =>
    rw [fieldsByName, zipFields, NativeValue.require_eq_ok_iff.mpr hn, ih]
    rfl

/-- Nothing in a record but the values for the names of the fields counts. -/
theorem fieldsByName_congr {fields : List (Field ValueType)}
    (h : ∀ f ∈ fields, r.get? f.name = r'.get? f.name) :
    fieldsByName r (fieldFillers fields) = fieldsByName r' (fieldFillers fields) := by
  induction fields with
  | nil => rfl
  | cons f fields ih =>
    rw [List.forall_mem_cons] at h
    have hrequire : NativeValue.require r f.name = NativeValue.require r' f.name := by
      rw [NativeValue.require, NativeValue.require, h.1]
    rw [fieldFillers, fieldsByName, fieldsByName, hrequire, ih h.2]

/-- What is wrong with the first field that a record does not fill in: the record lacks it, or has
something for it that is refused. -/
def FirstFault (r : Record NativeValue) (fields : List (Field ValueType)) (e : CodecError) :
    Prop :=
  ∃ before f after, fields = before ++ f :: after ∧
    (∀ g ∈ before, ∃ n v, r.get? g.name = some n ∧ g.value.placeholder.fill n = .ok v) ∧
    (r.get? f.name = none ∧ e = .of (.missingField f.name) ∨
      ∃ n fault, r.get? f.name = some n ∧ f.value.placeholder.fill n = .error fault ∧
        e = fault.inside (.field f.name))

/-- The first field to blame is the one at the front, for being missing or for its value, or else
the first of the others. -/
theorem firstFault_cons_iff {f : Field ValueType} {fields : List (Field ValueType)}
    {e : CodecError} : FirstFault r (f :: fields) e ↔
      (r.get? f.name = none ∧ e = .of (.missingField f.name)) ∨
      ∃ n, r.get? f.name = some n ∧
        ((∃ fault, f.value.placeholder.fill n = .error fault ∧ e = fault.inside (.field f.name)) ∨
          (∃ v, f.value.placeholder.fill n = .ok v) ∧ FirstFault r fields e) := by
  constructor
  · rintro ⟨before, g, after, hfields, hbefore, hg⟩
    rcases before with _ | ⟨g', before⟩
    · obtain ⟨rfl, rfl⟩ := List.cons.inj hfields
      rcases hg with hmissing | ⟨n, fault, hn, hfault, he⟩
      · exact .inl hmissing
      · exact .inr ⟨n, hn, .inl ⟨fault, hfault, he⟩⟩
    · obtain ⟨rfl, rfl⟩ := List.cons.inj hfields
      rw [List.forall_mem_cons] at hbefore
      obtain ⟨⟨n, v, hn, hv⟩, hbefore⟩ := hbefore
      exact .inr ⟨n, hn, .inr ⟨⟨v, hv⟩, before, g, after, rfl, hbefore, hg⟩⟩
  · rintro (hmissing | ⟨n, hn, ⟨fault, hfault, he⟩ | ⟨⟨v, hv⟩, before, g, after, rfl, hbefore, hg⟩⟩)
    · exact ⟨[], f, fields, rfl, List.forall_mem_nil _, .inl hmissing⟩
    · exact ⟨[], f, fields, rfl, List.forall_mem_nil _, .inr ⟨n, fault, hn, hfault, he⟩⟩
    · exact ⟨f :: before, g, after, rfl, List.forall_mem_cons.mpr ⟨⟨n, v, hn, hv⟩, hbefore⟩, hg⟩

/-- The first field that a record does not fill in is the one to blame. -/
theorem fieldsByName_eq_error_iff {fields : List (Field ValueType)} {e : CodecError} :
    fieldsByName r (fieldFillers fields) = .error e ↔ FirstFault r fields e := by
  induction fields with
  | nil => simp [fieldFillers, fieldsByName, FirstFault]
  | cons f fields ih =>
    rw [fieldFillers, fieldsByName, firstFault_cons_iff, ← ih]
    simp only [except_bind_pure, except_bind_eq_error, except_map_eq_error, inside_eq_error,
      inside_eq_ok, NativeValue.require_eq_error_iff, NativeValue.require_eq_ok_iff,
      ValueType.fill_placeholder, exists_and_right, @eq_comm _ e]

/-- Fields are not filled in from a record that lacks one of them. -/
theorem exists_firstFault {fields : List (Field ValueType)}
    (h : ∃ f ∈ fields, r.get? f.name = none) : ∃ e, FirstFault r fields e := by
  obtain ⟨f, hf, hmissing⟩ := h
  rcases hfill : fieldsByName r (fieldFillers fields) with e | values
  · exact ⟨e, fieldsByName_eq_error_iff.mp hfill⟩
  · have hall : ∀ g ∈ fields, r.get? g.name ≠ none :=
      forall_mem_of_forall₂ (P := fun _ => True) (fieldsByName_eq_ok_iff.mp hfill).flip
        (fun _ g ⟨_, n, hn, _⟩ _ => by simp [NativeValue.require_eq_ok_iff.mp hn])
        fun _ _ => trivial
    exact absurd hmissing (hall f hf)

end Value

/-! ### Variants -/

/-- A native value picks a discriminant and a variant out of a table: as a number, or as the name
of a variant, of which the first that goes by it lends its discriminant. -/
inductive EnumType.Picks (table : EnumType) : NativeValue → UInt8 → Variant ValueType → Prop where
  | number {discriminant : UInt8} {v : Variant ValueType}
      (h : table.variant discriminant = .ok v) :
      Picks table (.int discriminant.toNat) discriminant v
  | name {s : String} {named v : Variant ValueType} (hnamed : table.variantNamed s = .ok named)
      (h : table.variant named.discriminant = .ok v) : Picks table (.str s) named.discriminant v

/-- The discriminant of a variant that is found by its name is one of the table. -/
theorem EnumTable.exists_variant_of_variantNamed {α : Type} {e : EnumTable α} {s : String}
    {named : Variant α} (h : e.variantNamed s = .ok named) :
    ∃ v, e.variant named.discriminant = .ok v := by
  have hmem : named ∈ e.variants := by
    rw [variantNamed] at h
    rcases hfind : e.variants.find? fun v => v.name == s with _ | w
    · rw [hfind] at h
      exact absurd h fail_ne_ok
    · rw [hfind] at h
      obtain ⟨⟩ := h
      exact List.mem_of_find?_eq_some hfind
  have hfound : (e.variants.find? fun v => v.discriminant == named.discriminant).isSome = true :=
    List.find?_isSome.mpr ⟨named, hmem, beq_self_eq_true _⟩
  obtain ⟨v, hv⟩ := Option.isSome_iff_exists.mp hfound
  exact ⟨v, by rw [variant, hv]⟩

/-- A number is a discriminant if it is one of an octet. -/
theorem NativeValue.toOctet_int_eq_ok_iff {i : Int} {b : UInt8} :
    (int i).toOctet = .ok b ↔ i = b.toNat := by
  have hchecked : (int i).toOctet = .ok b ↔
      (0 ≤ i ∧ i ≤ 255) ∧ UInt8.ofNat i.toNat = b := by
    refine except_seq_eq_ok.trans (and_congr checkBounds_eq_ok_iff ?_)
    exact ⟨fun | rfl => rfl, fun | rfl => rfl⟩
  rw [hchecked]
  constructor
  · rintro ⟨⟨hmin, hmax⟩, rfl⟩
    have hlt : i.toNat < 256 := by omega
    rw [UInt8.toNat_ofNat_of_lt' hlt, Int.toNat_of_nonneg hmin]
  · rintro rfl
    have hlt := b.toNat_lt
    refine ⟨by omega, ?_⟩
    rw [Int.toNat_natCast, UInt8.ofNat_toNat]

namespace EnumType

variable {table : EnumType} {n : NativeValue} {discriminant : UInt8}

/-- A discriminant is given by its number or by the name of a variant. -/
theorem discriminantOfNative_eq_ok_iff :
    discriminantOfNative (some table) n = .ok discriminant ↔ n = .int discriminant.toNat ∨
      ∃ s named, n = .str s ∧ table.variantNamed s = .ok named ∧
        named.discriminant = discriminant := by
  cases n with
  | int i => simp [discriminantOfNative, NativeValue.toOctet_int_eq_ok_iff]
  | str s => simp [discriminantOfNative, except_map_eq_ok]
  | _ =>
    -- Nothing else is an integer.
    exact iff_of_false fail_ne_ok (by simp)

/-- An enum turns to what a native value picks. -/
theorem chosenOfNative_eq_ok_iff_picks {fillers : List (Field Filler)} :
    chosenOfNative (some table) (EnumTable.select (some (tableFillers table)) 0 []) n =
        .ok (discriminant, fillers) ↔
      ∃ v, table.Picks n discriminant v ∧ fieldFillers v.fields = fillers := by
  rw [chosenOfNative_eq_ok_iff, select_tableFillers_eq_ok_iff, discriminantOfNative_eq_ok_iff]
  constructor
  · rintro ⟨rfl | ⟨s, named, rfl, hnamed, rfl⟩, v, hv, hfillers⟩
    · exact ⟨v, .number hv, hfillers⟩
    · exact ⟨v, .name hnamed hv, hfillers⟩
  · rintro ⟨v, hv | ⟨hnamed, hv⟩, hfillers⟩
    · exact ⟨.inl rfl, v, hv, hfillers⟩
    · exact ⟨.inr ⟨_, _, rfl, hnamed, rfl⟩, v, hv, hfillers⟩

/-- The name of a variant picks what its discriminant does. -/
theorem chosenOfNative_name {s : String} {named : Variant ValueType}
    (h : table.variantNamed s = .ok named)
    (select : UInt8 → Except CodecError (List (Field Filler))) :
    chosenOfNative (some table) select (.str s) =
      chosenOfNative (some table) select (.int named.discriminant.toNat) := by
  have hname : discriminantOfNative (some table) (.str s) = .ok named.discriminant :=
    discriminantOfNative_eq_ok_iff.mpr (.inr ⟨s, named, rfl, h, rfl⟩)
  have hnumber : discriminantOfNative (some table) (.int named.discriminant.toNat) =
      .ok named.discriminant :=
    discriminantOfNative_eq_ok_iff.mpr (.inl rfl)
  rw [chosenOfNative, chosenOfNative, hname, hnumber]

end EnumType

/-! ### Structs and enums -/

namespace ValueType

variable {r r' : Record NativeValue}

theorem fill_struct_placeholder (name : String) (fields : List (Field ValueType))
    (n : NativeValue) : (struct name fields).placeholder.fill n =
      (fieldsOfNative (fieldFillers fields) n).map (.struct name) := by
  rw [fill_placeholder, ofNative]
  exact except_bind_pure

/-- A struct is refused a record for the first of its fields that is to blame. -/
theorem fill_struct_record_eq_error_iff {name : String} {fields : List (Field ValueType)}
    {e : CodecError} :
    (struct name fields).placeholder.fill (.record r) = .error e ↔ FirstFault r fields e := by
  rw [fill_struct_placeholder, except_map_eq_error]
  exact fieldsByName_eq_error_iff

section Enum

variable {table : EnumType} {n : NativeValue} {discriminant : UInt8} {v : Variant ValueType}

/-- With the variant picked, an enum takes the other fields of the record by name. -/
theorem fill_enum_record (hkey : r.get? discriminantKey = some n)
    (hpicks : table.Picks n discriminant v) :
    (enum table).placeholder.fill (.record r) =
      (fieldsByName r (fieldFillers v.fields)).map (.enum (some table) discriminant) := by
  have hrequire := NativeValue.require_eq_ok_iff.mpr hkey
  have hchosen := EnumType.chosenOfNative_eq_ok_iff_picks.mpr ⟨v, hpicks, rfl⟩
  rw [fill_placeholder, ofNative, enumOfNative]
  refine (except_bind_of_ok hrequire).trans ?_
  refine (except_bind_of_ok (inside_eq_ok.mpr hchosen)).trans ?_
  exact except_bind_pure

/-- In a sequence the variant is picked at the front, and its fields come behind by position. -/
theorem fill_enum_seq (hpicks : table.Picks n discriminant v) (rest : List NativeValue) :
    (enum table).placeholder.fill (.seq (n :: rest)) =
      (fieldsByPosition (fieldFillers v.fields) rest).map (.enum (some table) discriminant) := by
  have hchosen := EnumType.chosenOfNative_eq_ok_iff_picks.mpr ⟨v, hpicks, rfl⟩
  rw [fill_placeholder, ofNative, enumOfNative]
  refine (except_bind_of_ok (inside_eq_ok.mpr hchosen)).trans ?_
  exact except_bind_pure

/-- A name may stand for the discriminant that the variant of this name has. -/
theorem fill_enum_name {s : String} {named : Variant ValueType}
    (h : table.variantNamed s = .ok named) :
    (enum table).placeholder.fill (.str s) =
        (enum table).placeholder.fill (.int named.discriminant.toNat) ∧
      ∀ rest, (enum table).placeholder.fill (.seq (.str s :: rest)) =
        (enum table).placeholder.fill (.seq (.int named.discriminant.toNat :: rest)) := by
  have hchosen := EnumType.chosenOfNative_name h
    (EnumTable.select (some (tableFillers table)) 0 [])
  rw [fill_placeholder, ofNative]
  refine ⟨?_, fun rest => ?_⟩
  · simp only [enumOfNative, hchosen]
  · simp only [enumOfNative, hchosen]

/-- Records that give the same variant, and the same to its fields, fill in the same. -/
theorem fill_enum_record_congr {n' : NativeValue} (hkey : r.get? discriminantKey = some n)
    (hkey' : r'.get? discriminantKey = some n') (hpicks : table.Picks n discriminant v)
    (hpicks' : table.Picks n' discriminant v)
    (hfields : ∀ f ∈ v.fields, r.get? f.name = r'.get? f.name) :
    (enum table).placeholder.fill (.record r) = (enum table).placeholder.fill (.record r') := by
  rw [fill_enum_record hkey hpicks, fill_enum_record hkey' hpicks', fieldsByName_congr hfields]

end Enum

/-- Records and sequences fill in the same. A struct is filled in from a record as from the sequence
of what the record has for the names of its fields, in whatever order the record has it and whatever
else is there; where it is refused, the first field that is missing or is refused is to blame. An
enum is filled in from a record as from the sequence that has the picked variant in front. The name
of a variant, wherever it stands for a number, does what the discriminant of this variant does. -/
theorem fill_record_eq_fill_seq :
    (∀ (name : String) (fields : List (Field ValueType)) (r : Record NativeValue),
      (∀ natives, r.Lists fields natives → (struct name fields).placeholder.fill (.record r) =
        (struct name fields).placeholder.fill (.seq natives)) ∧
      (∀ r' : Record NativeValue, (∀ f ∈ fields, r.get? f.name = r'.get? f.name) →
        (struct name fields).placeholder.fill (.record r) =
          (struct name fields).placeholder.fill (.record r')) ∧
      (∀ e, (struct name fields).placeholder.fill (.record r) = .error e ↔
        FirstFault r fields e) ∧
      ((∃ f ∈ fields, r.get? f.name = none) → ∃ e, FirstFault r fields e)) ∧
    (∀ (table : EnumType) (r : Record NativeValue) (n : NativeValue) (discriminant : UInt8)
        (v : Variant ValueType), r.get? discriminantKey = some n → table.Picks n discriminant v →
      (∀ natives, r.Lists v.fields natives → (enum table).placeholder.fill (.record r) =
        (enum table).placeholder.fill (.seq (n :: natives))) ∧
      ∀ e, (enum table).placeholder.fill (.record r) = .error e ↔ FirstFault r v.fields e) ∧
    ∀ (table : EnumType) (s : String) (named : Variant ValueType),
      table.variantNamed s = .ok named → ∃ v, table.variant named.discriminant = .ok v ∧
        table.Picks (.str s) named.discriminant v ∧
        table.Picks (.int named.discriminant.toNat) named.discriminant v ∧
        (enum table).placeholder.fill (.str s) =
          (enum table).placeholder.fill (.int named.discriminant.toNat) ∧
        (∀ rest, (enum table).placeholder.fill (.seq (.str s :: rest)) =
          (enum table).placeholder.fill (.seq (.int named.discriminant.toNat :: rest))) ∧
        ∀ r r' : Record NativeValue, r.get? discriminantKey = some (.str s) →
          r'.get? discriminantKey = some (.int named.discriminant.toNat) →
          (∀ f ∈ v.fields, r.get? f.name = r'.get? f.name) →
          (enum table).placeholder.fill (.record r) =
            (enum table).placeholder.fill (.record r') := by
  refine ⟨fun name fields r => ⟨fun natives hnatives => ?_, fun r' hr' => ?_,
      fun e => fill_struct_record_eq_error_iff, exists_firstFault⟩,
    fun table r n discriminant v hkey hpicks => ⟨fun natives hnatives => ?_, fun e => ?_⟩,
    fun table s named hnamed => ?_⟩
  · rw [fill_struct_placeholder, fill_struct_placeholder, fieldsOfNative, fieldsOfNative,
      fieldsByName_eq_fieldsByPosition hnatives.fieldFillers]
  · rw [fill_struct_placeholder, fill_struct_placeholder, fieldsOfNative, fieldsOfNative,
      fieldsByName_congr hr']
  · rw [fill_enum_record hkey hpicks, fill_enum_seq hpicks,
      fieldsByName_eq_fieldsByPosition hnatives.fieldFillers]
  · rw [fill_enum_record hkey hpicks, except_map_eq_error, fieldsByName_eq_error_iff]
  · obtain ⟨v, hv⟩ := EnumTable.exists_variant_of_variantNamed hnamed
    -- The first variant of the discriminant is picked, which need not be the one of the name.
    have hname : table.Picks (.str s) named.discriminant v := .name hnamed hv
    have hnumber : table.Picks (.int named.discriminant.toNat) named.discriminant v := .number hv
    obtain ⟨hfill, hseq⟩ := fill_enum_name hnamed
    exact ⟨v, hv, hname, hnumber, hfill, hseq, fun r r' hkey hkey' hfields =>
      fill_enum_record_congr hkey hkey' hname hnumber hfields⟩

end ValueType

/-- The fields of a payment. -/
def paymentFields : List (Field ValueType) :=
  [⟨"amount", .int .w8 false⟩, ⟨"memo", .option .str⟩]

/-- A payment of a given amount, with a memo in front and a date that no field asks for. -/
def paymentRecord (amount : NativeValue) : Record NativeValue :=
  ⟨[⟨"memo", .str "rent"⟩, ⟨"date", .null⟩, ⟨"amount", amount⟩]⟩

/-- A payment of seven. -/
def payment : Value :=
  .struct "Payment"
    [⟨"amount", .int ⟨.w8, false, 7⟩⟩, ⟨"memo", .option (some .str) (some (.str "rent"))⟩]

/-- What a vehicle is told to do. -/
def command : EnumType :=
  ⟨"Command", [⟨0, "Stop", []⟩, ⟨1, "Move", [⟨"steps", .int .w16 false⟩]⟩]⟩

/-- The command to move, under a native value that picks it. -/
def moveRecord (key : NativeValue) : Record NativeValue :=
  ⟨[⟨"steps", .int 300⟩, ⟨discriminantKey, key⟩]⟩

/-- A payment by name and by position, the same payment without its amount or with one that is no
number, and a command under its name, under its number and as a sequence. -/
theorem ValueType.fill_payment_and_command :
    ((paymentRecord (.int 7)).Lists paymentFields [.int 7, .str "rent"] ∧
      (struct "Payment" paymentFields).placeholder.fill (.record (paymentRecord (.int 7))) =
        (struct "Payment" paymentFields).placeholder.fill (.seq [.int 7, .str "rent"]) ∧
      (struct "Payment" paymentFields).placeholder.fill (.seq [.int 7, .str "rent"]) =
        .ok payment) ∧
    FirstFault ⟨[⟨"memo", .str "rent"⟩]⟩ paymentFields (.of (.missingField "amount")) ∧
    FirstFault (paymentRecord (.bool true)) paymentFields
      ⟨[.field "amount"], .typeMismatch "integer" "bool"⟩ ∧
    (enum command).placeholder.fill (.record (moveRecord (.str "Move"))) =
      .ok (.enum (some command) 1 [⟨"steps", .int ⟨.w16, false, 300⟩⟩]) ∧
    (enum command).placeholder.fill (.record (moveRecord (.str "Move"))) =
      (enum command).placeholder.fill (.seq [.str "Move", .int 300]) ∧
    (enum command).placeholder.fill (.record (moveRecord (.str "Move"))) =
      (enum command).placeholder.fill (.record (moveRecord (.int 1))) := by
  have hlists : (paymentRecord (.int 7)).Lists paymentFields [.int 7, .str "rent"] :=
    .cons rfl (.cons rfl .nil)
  obtain ⟨hstructs, henums, hnames⟩ := fill_record_eq_fill_seq
  obtain ⟨v, hv, hpicks, -, -, -, hrecords⟩ := hnames command "Move" _ rfl
  obtain ⟨⟩ := hv
  refine ⟨⟨hlists, (hstructs "Payment" paymentFields _).1 _ hlists, rfl⟩,
    ((hstructs "Payment" paymentFields _).2.2.1 _).mp rfl,
    ((hstructs "Payment" paymentFields _).2.2.1 _).mp rfl, rfl,
    (henums command _ _ _ _ rfl hpicks).1 _ (.cons rfl .nil), ?_⟩
  exact hrecords _ _ rfl rfl (List.forall_mem_singleton.mpr rfl)

end CallData
