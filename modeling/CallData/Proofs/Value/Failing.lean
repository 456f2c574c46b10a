import CallData.Proofs.Conformance
import CallData.Proofs.Failing
import CallData.Proofs.FixedInt
import CallData.Proofs.Value.Readers

/-!
# Where reading a value fails

The path of an error leads from the type that was read to a type within it
(`ValueType.Leads`), and what went wrong there is something that a type of this form can raise
(`ValueType.Raises`). An option, a marker, a length and a discriminant are no positions of their
own: an error in them, or behind the marker of an option, is noticed where the whole value stands.
So no position in a value, nested or at top level, is that of an argument
(`ValueType.readTop_inArgument`).
-/

namespace CallData

open ByteReader

namespace ValueType

/-! ### Types within a type -/

/-- The positions of a path lead from a type to one within it. -/
inductive Leads : ValueType → List Locator → ValueType → Prop where
  | here (T : ValueType) : Leads T [] T
  | list {item U : ValueType} {path : List Locator} (i : Nat) (h : Leads item path U) :
      Leads (.list item) (.index i :: path) U
  | array {item U : ValueType} {path : List Locator} {length i : Nat} (hi : i < length)
      (h : Leads item path U) : Leads (.array item length) (.index i :: path) U
  | struct (name : String) {fields : List (Field ValueType)} {f : Field ValueType} {U : ValueType}
      {path : List Locator} (hf : f ∈ fields) (h : Leads f.value path U) :
      Leads (.struct name fields) (.field f.name :: path) U
  | tuple {types : List ValueType} {T U : ValueType} {path : List Locator} {i : Nat}
      (hT : types[i]? = some T) (h : Leads T path U) : Leads (.tuple types) (.index i :: path) U
  | enum {table : EnumType} {v : Variant ValueType} {f : Field ValueType} {U : ValueType}
      {path : List Locator} (hv : v ∈ table.variants) (hf : f ∈ v.fields)
      (h : Leads f.value path U) : Leads (.enum table) (.field f.name :: path) U
  | option {item U : ValueType} {path : List Locator} (h : Leads item path U) :
      Leads (.option item) path U

/-- The errors that a type can raise of itself, rather than a type within it. -/
inductive Raises : ValueType → ErrorKind → Prop where
  | bool : Raises .bool .invalidBool
  | marker (item : ValueType) : Raises (.option item) .invalidMarker
  | text : Raises .str .invalidUtf8
  | nameText (name : String) (variants : List String) :
      Raises (.explicit name variants) .invalidUtf8
  | variant (table : EnumType) : Raises (.enum table) .unknownVariant
  | name (name : String) (variants : List String) :
      Raises (.explicit name variants) .unknownVariant
  | ending {T : ValueType} (h : ¬ T.IsZeroWidth) : Raises T .unexpectedEnd

/-- A type may fail with an error whose path leads to a type that can raise it. -/
def MayFail (T : ValueType) (e : CodecError) : Prop :=
  ∃ U, T.Leads e.path U ∧ U.Raises e.kind

/-- A type only raises the errors that reading knows. -/
theorem Raises.mem {T : ValueType} {k : ErrorKind} (h : T.Raises k) :
    k ∈ [ErrorKind.unexpectedEnd, .invalidBool, .invalidMarker, .invalidUtf8, .unknownVariant] := by
  cases h <;> simp

/-- No position in a type is that of an argument. -/
theorem Leads.argument_not_mem {T U : ValueType} {path : List Locator} (h : T.Leads path U)
    (i : Nat) : .argument i ∉ path := by
  induction h with
  | here => exact List.not_mem_nil
  | option _ ih => exact ih
  | list | array | struct | tuple | enum => simpa using ‹_›

/-- What a type raises itself is one of the errors that reading it may end in. -/
theorem Raises.holdsAt {T : ValueType} {k : ErrorKind} (h : T.Raises k) : HoldsAt T.MayFail k := by
  rintro c rfl
  exact ⟨T, .here T, h⟩

/-- A type with bytes can be cut off. -/
theorem holdsAt_end (T : ValueType) (h : ¬ T.IsZeroWidth) : HoldsAt T.MayFail .unexpectedEnd :=
  (Raises.ending h).holdsAt

end ValueType

/-! ### Rows -/

section Rows

variable {E : CodecError → Prop}

/-- Values in turn fail as one of them does at its index. -/
theorem readItems_failsOnly {types : List ValueType} {i : Nat}
    (h : ∀ j T, types[j]? = some T →
      FailsOnly (fun e => E (e.inside (.index (i + j)))) T.readNested) :
    FailsOnly E (readItems i (itemReaders types)) := by
  induction types generalizing i with
  | nil => exact .pure []
  | cons T types ih =>
    have hrest : FailsOnly E (readItems (i + 1) (itemReaders types)) := by
      refine ih fun j U hU => ?_
      rw [Nat.add_right_comm]
      exact h (j + 1) U hU
    exact (h 0 T rfl).insideM.bind fun v => hrest.map (v :: ·)

/-- Fields in turn fail as one of them does under its name. -/
theorem readFields_failsOnly {fields : List (Field ValueType)}
    (h : ∀ f ∈ fields, FailsOnly (fun e => E (e.inside (.field f.name))) f.value.readNested) :
    FailsOnly E (readFields (fieldReaders fields)) := by
  induction fields with
  | nil => exact .pure []
  | cons f fields ih =>
    obtain ⟨name, T⟩ := f
    rw [List.forall_mem_cons] at h
    exact h.1.insideM.bind fun v => (ih h.2).map (⟨name, v⟩ :: ·)

/-- An enum fails for want of its octet, for an unknown discriminant, or in a field of the variant.
-/
theorem readEnum_failsOnly {table : EnumType} (hend : HoldsAt E .unexpectedEnd)
    (hunknown : HoldsAt E .unknownVariant)
    (h : ∀ v ∈ table.variants, ∀ f ∈ v.fields,
      FailsOnly (fun e => E (e.inside (.field f.name))) f.value.readNested) :
    FailsOnly E (readEnum (some table) (some (tableReaders table)) 0 []) := by
  refine (octet_failsOnly hend).bind fun discriminant => ?_
  refine FailsOnly.bind_of_ok (.lift fun e he => ?_) fun c readers c' hreaders => ?_
  · rw [EnumTable.select_nil, except_map_eq_error] at he
    rw [EnumTable.eq_of_variant_eq_error he]
    exact hunknown _ rfl
  · have hselect := (lift_eq_ok.mp hreaders).1
    obtain ⟨variant, hvariant, rfl⟩ := select_tableReaders_eq_ok_iff.mp hselect
    exact (readFields_failsOnly (h variant (mem_of_variant_eq_ok hvariant))).map _

/-- An option fails for want of its octet, for another one than zero and one, or in what it holds.
-/
theorem readOption_failsOnly {item : ByteReader Value} (hend : HoldsAt E .unexpectedEnd)
    (hmarker : HoldsAt E .invalidMarker) (h : FailsOnly E item) (itemType : Option ValueType) :
    FailsOnly E (readOption itemType item) := by
  refine (octet_failsOnly hend).bind fun marker => ?_
  split
  · exact .pure _
  · exact h.map _
  · exact .throw (hmarker _ rfl)

/-- As many bytes as an address has are always an address. -/
theorem Address.read_failsOnly (hend : HoldsAt E .unexpectedEnd) : FailsOnly E Address.read := by
  refine (take_failsOnly hend 32).bind_of_ok fun c bs c' hbs => .lift fun e he => ?_
  rw [ofBytes, dif_pos (take_yields 32 c bs c' hbs)] at he
  cases he

/-- A decimal can only be cut off, be it in the digits or in the scale. -/
theorem Amount.readNested_failsOnly (hend : HoldsAt E .unexpectedEnd) (scale : Option UInt32) :
    FailsOnly E (Amount.readNested scale) := by
  refine (framed_failsOnly hend).bind fun digits => ?_
  match scale with
  | some _ => exact .pure _
  | none => exact (count_failsOnly hend).map _

end Rows

/-! ### All types -/

namespace ValueType

/-- A type is read with no other errors than those that it may fail with. -/
theorem readNested_failsOnly (T : ValueType) : FailsOnly T.MayFail T.readNested := by
  -- The readers above fail only as a condition allows, whatever it is. Here it is what the whole
  -- type may fail with, and under the position of a part the part may fail with no more.
  induction T with
  | int width signed =>
    exact ((take_failsOnly (holdsAt_end (.int width signed) nofun) _).map _).map _
  | big signed => exact ((framed_failsOnly (holdsAt_end (.big signed) nofun)).map _).map _
  | bool => exact (bool_failsOnly (holdsAt_end .bool nofun) Raises.bool.holdsAt).map _
  | bytes => exact (framed_failsOnly (holdsAt_end .bytes nofun)).map _
  | str => exact (text_failsOnly (holdsAt_end .str nofun) Raises.text.holdsAt).map _
  | address => exact (Address.read_failsOnly (holdsAt_end .address nofun)).map _
  | decimal scale =>
    exact (Amount.readNested_failsOnly (holdsAt_end (.decimal scale) nofun) scale).map _
  | metadata => exact ((take_failsOnly (holdsAt_end .metadata nofun) 2).map _).map _
  | list item ih =>
    refine (count_failsOnly (holdsAt_end (.list item) nofun)).bind fun n => .map ?_ _
    exact replicateFrom_failsOnly fun j _ => ih.mono fun e ⟨U, hU, he⟩ => ⟨U, .list j hU, he⟩
  | array item length ih =>
    refine .map (replicateFrom_failsOnly fun j hj => ?_) _
    rw [Nat.zero_add] at hj
    exact ih.mono fun e ⟨U, hU, he⟩ => ⟨U, .array hj hU, he⟩
  | struct name fields ih =>
    refine .map (readFields_failsOnly fun f hf => ?_) _
    exact (ih f hf).mono fun e ⟨U, hU, he⟩ => ⟨U, .struct name hf hU, he⟩
  | tuple types ih =>
    refine .map (readItems_failsOnly fun j T hT => ?_) _
    rw [Nat.zero_add]
    exact (ih T (List.mem_of_getElem? hT)).mono fun e ⟨U, hU, he⟩ => ⟨U, .tuple hT hU, he⟩
  | enum table ih =>
    refine readEnum_failsOnly (holdsAt_end (.enum table) nofun) (Raises.variant table).holdsAt ?_
    exact fun v hv f hf => (ih v hv f hf).mono fun e ⟨U, hU, he⟩ => ⟨U, .enum hv hf hU, he⟩
  | explicit name names =>
    have htext : FailsOnly (explicit name names).MayFail text :=
      text_failsOnly (holdsAt_end (.explicit name names) nofun) (Raises.nameText name names).holdsAt
    refine htext.bind fun s => .lift fun e he => ?_
    rw [Value.eq_of_ofName_eq_error he]
    exact (Raises.name name names).holdsAt _ rfl
  | option item ih =>
    refine readOption_failsOnly (holdsAt_end (.option item) nofun) (Raises.marker item).holdsAt ?_ _
    exact ih.mono fun e ⟨U, hU, he⟩ => ⟨U, .option hU, he⟩

/-- Where a nested value cannot be read in place of the placeholder of a type, the error is of one
of five kinds, and its path leads from the type to one within it that can raise this kind. -/
theorem path_leads_of_readNested_placeholder_eq_error {T : ValueType} {c c' : Cursor}
    {e : CodecError} (h : T.placeholder.readNested c = .error e c') :
    e.kind ∈ [ErrorKind.unexpectedEnd, .invalidBool, .invalidMarker, .invalidUtf8,
        .unknownVariant] ∧
      ∃ U, T.Leads e.path U ∧ U.Raises e.kind := by
  rw [T.readNested_placeholder] at h
  obtain ⟨U, hleads, hraises⟩ := T.readNested_failsOnly c e c' h
  exact ⟨hraises.mem, U, hleads, hraises⟩

/-- The bytes of an order whose only line has a marker that is none. -/
def brokenOrderBytes : Bytes :=
  [0, 0, 0, 1, 0xff, 0xfe, 7, 0]

/-- The error leads to the second item of the first line. -/
theorem path_leads_of_readNested_brokenOrderBytes :
    orderType.placeholder.readNested (.start brokenOrderBytes) =
      .error ⟨[.field "lines", .index 0, .index 1], .invalidMarker 7⟩ ⟨7, [0]⟩ ∧
    ErrorKind.invalidMarker ∈ [ErrorKind.unexpectedEnd, .invalidBool, .invalidMarker, .invalidUtf8,
        .unknownVariant] ∧
      ∃ U, orderType.Leads [.field "lines", .index 0, .index 1] U ∧ U.Raises .invalidMarker :=
  ⟨rfl, path_leads_of_readNested_placeholder_eq_error
    (c := .start brokenOrderBytes) (T := orderType) rfl⟩

end ValueType

/-! ### Positions of arguments -/

/-- No position of an error is that of an argument of a call. -/
def CodecError.InArgument (e : CodecError) : Prop :=
  ∀ i, .argument i ∉ e.path

namespace CodecError.InArgument

theorem of (c : Cause) : (CodecError.of c).InArgument :=
  fun _ => List.not_mem_nil

/-- An index in front of a path is no position of an argument. -/
theorem index {e : CodecError} (h : e.InArgument) (i : Nat) : (e.inside (.index i)).InArgument := by
  intro j hj
  obtain hj | hj := List.mem_cons.mp hj
  · cases hj
  · exact h j hj

theorem holdsAt (k : ErrorKind) : HoldsAt InArgument k :=
  fun c _ => of c

end CodecError.InArgument

/-- No type leads through the position of an argument. -/
theorem ValueType.readNested_inArgument (T : ValueType) :
    FailsOnly CodecError.InArgument T.readNested :=
  T.readNested_failsOnly.mono fun _ ⟨_, hleads, _⟩ => hleads.argument_not_mem

namespace Value

/-- A truth value at top level fails in its own bytes, so there is no path to tell. -/
theorem exists_of_boolOfTop_eq_error {bs : Bytes} {e : CodecError}
    (h : boolOfTop bs = .error e) : ∃ c, e = .of c := by
  unfold boolOfTop at h
  split at h
  case h_4 =>
    cases h
    exact ⟨_, rfl⟩
  all_goals cases h

theorem exists_of_textOfTop_eq_error {bs : Bytes} {e : CodecError}
    (h : textOfTop bs = .error e) : ∃ c, e = .of c := by
  rw [textOfTop] at h
  rcases hs : Utf8.decode bs with fault | s
  · rw [hs] at h
    cases h
    exact ⟨_, rfl⟩
  · rw [hs] at h
    cases h

/-- An enum that the empty byte string is read as fails without a path as well. -/
theorem exists_of_emptyVariant_eq_error {table : EnumType} {e : CodecError}
    (h : emptyVariant (some table) = .error e) : ∃ c, e = .of c := by
  simp only [emptyVariant] at h
  obtain h | ⟨v, -, h⟩ := except_bind_eq_error.mp h
  · exact ⟨_, EnumTable.eq_of_variant_eq_error h⟩
  · by_cases hempty : v.fields.isEmpty
    · cases (if_pos hempty).symm.trans h
    · cases (if_neg hempty).symm.trans h
      exact ⟨_, rfl⟩

end Value

/-- The same of a value that has a byte string for itself. -/
theorem ValueType.readTop_inArgument {T : ValueType} {bs : Bytes} {e : CodecError}
    (h : T.placeholder.readTop bs = .error e) : e.InArgument := by
  have hof (h : ∃ c, e = .of c) : e.InArgument := by
    obtain ⟨c, rfl⟩ := h
    exact .of c
  have hexactly (h : T.placeholder.readNested.exactly bs = .error e) : e.InArgument := by
    rw [T.readNested_placeholder] at h
    exact exactly_failsOnly T.readNested_inArgument (CodecError.InArgument.holdsAt _) h
  have hmany {item : ValueType} (h : many item.readNested bs = .error e) : e.InArgument := by
    refine manyFrom_failsOnly (fun i => ?_) (CodecError.InArgument.holdsAt _) h
    exact item.readNested_inArgument.mono fun _ he => he.index i
  match T with
  | .int width signed =>
    obtain ⟨fault, rfl⟩ := FixedInt.exists_of_ofTop_eq_error (except_bind_pure_eq_error.mp h)
    exact .of _
  | .big _ | .bytes | .decimal (some _) => cases h
  | .bool => exact hof (Value.exists_of_boolOfTop_eq_error (except_bind_pure_eq_error.mp h))
  | .str => exact hof (Value.exists_of_textOfTop_eq_error (except_bind_pure_eq_error.mp h))
  | .address => exact hof ⟨_, Address.eq_of_ofBytes_eq_error (except_bind_pure_eq_error.mp h)⟩
  | .decimal none =>
    have hamount := except_bind_pure_eq_error.mp h
    by_cases hbs : bs.isEmpty
    · cases (if_pos hbs).symm.trans hamount
    · have hread := (if_neg hbs).symm.trans hamount
      refine hexactly ((exactly_map _ _ _).trans ?_)
      exact except_map_eq_error.mpr hread
  | .metadata | .struct .. | .tuple _ => exact hexactly h
  | .list _ | .array .. => exact hmany (except_bind_pure_eq_error.mp h)
  | .enum table =>
    by_cases hbs : bs.isEmpty
    · exact hof (Value.exists_of_emptyVariant_eq_error ((if_pos hbs).symm.trans h))
    · exact hexactly ((if_neg hbs).symm.trans h)
  | .explicit _ names =>
    obtain h | ⟨s, -, h⟩ := except_bind_eq_error.mp h
    · exact hof (Value.exists_of_textOfTop_eq_error h)
    · exact hof ⟨_, Value.eq_of_ofName_eq_error h⟩
  | .option item =>
    by_cases hbs : bs.isEmpty
    · cases (if_pos hbs).symm.trans h
    · exact hexactly ((if_neg hbs).symm.trans h)

end CallData
