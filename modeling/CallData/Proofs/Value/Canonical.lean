import CallData.Proofs.Consuming
import CallData.Proofs.Value.Nested

/-!
# Bytes that nested values are read from

A value that is read from some bytes is written to no more bytes than these, and to exactly these
where no part of its type can be padded (`ValueType.Unpadded`): only the numerals of integers of
any size and of decimals leave a choice. Both come from one induction over types, which relates
what a value is written to and what it was read from by any relation that passes from the parts of
a byte string to the whole (`ValueType.readNested_consumes`).
-/

namespace CallData

open ByteReader

/-! ### Types without padding -/

/-- The types with no integer of any size and no decimal in them. -/
inductive ValueType.Unpadded : ValueType → Prop where
  | int (width : IntWidth) (signed : Bool) : Unpadded (.int width signed)
  | bool : Unpadded .bool
  | bytes : Unpadded .bytes
  | str : Unpadded .str
  | address : Unpadded .address
  | metadata : Unpadded .metadata
  | list {item : ValueType} (h : Unpadded item) : Unpadded (.list item)
  | array {item : ValueType} (length : Nat) (h : Unpadded item) : Unpadded (.array item length)
  | struct (name : String) {fields : List (Field ValueType)} (h : ∀ f ∈ fields, Unpadded f.value) :
      Unpadded (.struct name fields)
  | tuple {types : List ValueType} (h : ∀ T ∈ types, Unpadded T) : Unpadded (.tuple types)
  | enum {table : EnumType} (h : ∀ v ∈ table.variants, ∀ f ∈ v.fields, Unpadded f.value) :
      Unpadded (.enum table)
  | explicit (name : String) (variants : List String) : Unpadded (.explicit name variants)
  | option {item : ValueType} (h : Unpadded item) : Unpadded (.option item)

/-- A byte string behind its length. -/
def Bytes.frame (bs : Bytes) : Bytes :=
  Bytes.ofNat 4 bs.length ++ bs

theorem Bytes.length_frame (bs : Bytes) : bs.frame.length = 4 + bs.length := by
  rw [frame, List.length_append, length_ofNat]

/-! ### Values without parts -/

/-- Two's complement of a given width has one numeral for each number. -/
theorem FixedInt.readNested_consumes (width : IntWidth) (signed : Bool) :
    (FixedInt.readNested width signed).Consumes fun bs x => (Value.int x).nested = bs := by
  refine (take_consumes width.bytes).map fun bs as has => ?_
  obtain ⟨rfl, hlen⟩ := has
  rw [Value.nested_int, FixedInt.shiftIn_eq signed hlen]
  exact Bytes.ofInt_toInteger signed hlen

theorem Address.read_consumes : Address.read.Consumes fun bs a => a.bytes = bs := by
  refine (take_consumes 32).bind fun bs as has => .lift fun a ha => ?_
  obtain ⟨rfl, hlen⟩ := has
  rw [Address.ofBytes, dif_pos hlen] at ha
  obtain ⟨⟩ := ha
  exact (List.append_nil bs).symm

theorem CodeMetadata.read_consumes : CodeMetadata.read.Consumes fun bs m => m.bytes = bs := by
  refine (take_consumes 2).map fun bs as has => ?_
  obtain ⟨rfl, hlen⟩ := has
  obtain ⟨a, b, rfl⟩ := List.length_eq_two.mp hlen
  rfl

section Parts

variable {R : Bytes → Bytes → Prop}

/-! ### Values with padding -/

/-- A numeral in a frame may be longer than the shortest one; how the two frames compare is up to
the relation. -/
theorem BigInteger.readNested_consumes {signed : Bool}
    (hframe : ∀ bs, R (Bytes.shortest signed (Bytes.toInteger signed bs)).frame bs.frame) :
    (BigInteger.readNested signed).Consumes fun bs x => R (Value.big x).nested bs := by
  refine framed_consumes.map fun bs as has => ?_
  rw [Value.nested_big, ← has]
  exact hframe as

/-- The digits of an amount may be padded, its scale may not. -/
theorem Amount.readNested_consumes (hR : Bytes.Compatible R)
    (hframe : ∀ bs : Bytes, R (Bytes.shortest false bs.toNat).frame bs.frame)
    (scale : Option UInt32) :
    (Amount.readNested scale).Consumes fun bs a => R (Value.decimal a).nested bs := by
  refine framed_consumes.bind fun bs digits hdigits => ?_
  subst hdigits
  match scale with
  | some s =>
    refine .pure ?_
    rw [Value.nested_fixed, List.append_nil]
    exact hframe digits
  | none =>
    refine (Consumes.and_yields count_consumes count_yields).map fun bs n hn => ?_
    obtain ⟨rfl, hlt⟩ := hn
    rw [Value.nested_floating, UInt32.toNat_ofNat_of_lt' hlt]
    exact hR.append (hframe digits) (hR.refl _)

/-! ### Values with parts -/

/-- Items are written one behind the other, and that is how they were read. -/
theorem readItems_consumes (hR : Bytes.Compatible R) {types : List ValueType}
    (h : ∀ T ∈ types, T.readNested.Consumes fun bs v => R v.nested bs) (i : Nat) :
    (readItems i (itemReaders types)).Consumes fun bs items =>
      R (items.flatMap Value.nested) bs := by
  induction types generalizing i with
  | nil => exact .pure (hR.refl [])
  | cons T types ih =>
    rw [List.forall_mem_cons] at h
    refine (h.1.insideM (.index i)).bind fun bs v hv => ?_
    refine (ih h.2 (i + 1)).map fun bs' items hitems => ?_
    rw [List.flatMap_cons]
    exact hR.append hv hitems

theorem readFields_consumes (hR : Bytes.Compatible R) {fields : List (Field ValueType)}
    (h : ∀ f ∈ fields, f.value.readNested.Consumes fun bs v => R v.nested bs) :
    (readFields (fieldReaders fields)).Consumes fun bs values =>
      R (values.flatMap fun f => f.value.nested) bs := by
  induction fields with
  | nil => exact .pure (hR.refl [])
  | cons f fields ih =>
    obtain ⟨name, T⟩ := f
    rw [List.forall_mem_cons] at h
    refine (h.1.insideM (.field name)).bind fun bs v hv => (ih h.2).map fun bs' values hvalues => ?_
    rw [List.flatMap_cons]
    exact hR.append hv hvalues

/-- An enum was read from the octet of its discriminant and from the fields of the variant. -/
theorem readEnum_consumes (hR : Bytes.Compatible R) {table : EnumType}
    (h : ∀ v ∈ table.variants, ∀ f ∈ v.fields,
      f.value.readNested.Consumes fun bs v => R v.nested bs) :
    (readEnum (some table) (some (tableReaders table)) 0 []).Consumes fun bs v =>
      R v.nested bs := by
  refine octet_consumes.bind fun bs discriminant hd => ?_
  refine .lift_bind fun readers hreaders => ?_
  obtain ⟨variant, hvariant, rfl⟩ := select_tableReaders_eq_ok_iff.mp hreaders
  have hfields := readFields_consumes hR (h variant (mem_of_variant_eq_ok hvariant))
  refine hfields.map fun bs' values hvalues => ?_
  rw [Value.nested_enum, ← hd, ← List.singleton_append]
  exact hR.append (hR.refl _) hvalues

/-- No other octets than zero and one stand in front of an option. -/
theorem readOption_consumes (hR : Bytes.Compatible R) {item : ByteReader Value}
    (h : item.Consumes fun bs v => R v.nested bs) (itemType : Option ValueType) :
    (readOption itemType item).Consumes fun bs v => R v.nested bs := by
  refine octet_consumes.bind fun bs marker hmarker => ?_
  subst hmarker
  split
  · refine .pure ?_
    rw [Value.nested_absent]
    exact hR.refl _
  · refine h.map fun bs v hv => ?_
    rw [Value.nested_present, ← List.singleton_append]
    exact hR.append (hR.refl _) hv
  · exact .throw

/-! ### All types -/

/-- What a nested value is written to is related to what it was read from, if each numeral that a
reader may meet is so related to the shortest one. -/
theorem ValueType.readNested_consumes (hR : Bytes.Compatible R) (T : ValueType)
    (hT : T.Unpadded ∨
      ∀ signed bs, R (Bytes.shortest signed (Bytes.toInteger signed bs)).frame bs.frame) :
    T.readNested.Consumes fun bs v => R v.nested bs := by
  have same : ∀ as bs : Bytes, as = bs → R as bs := fun as bs h => h ▸ hR.refl as
  induction T with
  | int width signed =>
    exact (FixedInt.readNested_consumes width signed).map fun bs x hx => same _ _ hx
  | big signed =>
    obtain h | hframe := hT
    · nomatch h
    exact (BigInteger.readNested_consumes (hframe signed)).map fun bs x hx => hx
  | bool => exact bool_consumes.map fun bs b hb => same _ _ hb
  | bytes => exact framed_consumes.map fun bs as has => same _ _ ((Value.nested_bytes as).trans has)
  | str => exact text_consumes.map fun bs s hs => same _ _ ((Value.nested_str s).trans hs)
  | address => exact Address.read_consumes.map fun bs a ha => same _ _ ha
  | decimal scale =>
    obtain h | hframe := hT
    · nomatch h
    exact (Amount.readNested_consumes hR (hframe false) scale).map fun bs a ha => ha
  | metadata => exact CodeMetadata.read_consumes.map fun bs m hm => same _ _ hm
  | list item ih =>
    have hitem := ih (hT.imp_left fun | .list h => h)
    refine count_consumes.bind fun bs n hn => ?_
    refine (replicateFrom_consumes hR hitem n 0).map fun bs' items hitems => ?_
    rw [Value.nested_list, hitems.1, hn]
    exact hR.append (hR.refl bs) hitems.2
  | array item length ih =>
    have hitem := ih (hT.imp_left fun | .array _ h => h)
    refine (replicateFrom_consumes hR hitem length 0).map fun bs items hitems => ?_
    rw [Value.nested_array]
    exact hitems.2
  | struct name fields ih =>
    have hfields := readFields_consumes hR fun f hf =>
      ih f hf (hT.imp_left fun | .struct _ h => h f hf)
    refine hfields.map fun bs values hvalues => ?_
    rw [Value.nested_struct]
    exact hvalues
  | tuple types ih =>
    have hitems := readItems_consumes hR (fun T hT' =>
      ih T hT' (hT.imp_left fun | .tuple h => h T hT')) 0
    refine hitems.map fun bs items hitems => ?_
    rw [Value.nested_tuple]
    exact hitems
  | enum table ih =>
    exact readEnum_consumes hR fun v hv f hf =>
      ih v hv f hf (hT.imp_left fun | .enum h => h v hv f hf)
  | explicit name names =>
    refine text_consumes.bind fun bs s hs => .lift fun v hv => ?_
    obtain ⟨-, rfl⟩ := Value.ofName_eq_ok_iff.mp hv
    rw [Value.nested_explicit, hs, List.append_nil]
    exact hR.refl bs
  | option item ih =>
    exact readOption_consumes hR (ih (hT.imp_left fun | .option h => h)) (some item)

end Parts

/-- Lengths are compared piece by piece. -/
theorem Bytes.compatible_length_le :
    Bytes.Compatible fun as bs => as.length ≤ bs.length where
  refl _ := le_rfl
  append ha hb := by
    rw [List.length_append, List.length_append]
    exact Nat.add_le_add ha hb

theorem Bytes.compatible_eq : Bytes.Compatible (· = ·) where
  refl _ := rfl
  append ha hb := congrArg₂ (· ++ ·) ha hb

namespace ValueType

/-- The nested encoding of a value is no longer than the bytes that it was read from, and is read
as the same value. By a type without padding it is these bytes. -/
theorem readNested_placeholder_canonical (T : ValueType) {b rest : Bytes} {v : Value} {k : Nat}
    (h : T.placeholder.readNested (.start b) = .ok v ⟨k, rest⟩) :
    v.nested.length ≤ k ∧
      T.placeholder.readNested (.start v.nested) = .ok v ⟨v.nested.length, []⟩ ∧
      (T.Unpadded → k ≤ b.length ∧ v.nested = b.take k) := by
  rw [T.readNested_placeholder] at h ⊢
  obtain ⟨hhas, hfits⟩ := T.readNested_yields _ v _ h
  refine ⟨?_, ?_, fun hT => ?_⟩
  · have hframe : ∀ (signed : Bool) (bs : Bytes),
        (Bytes.shortest signed (Bytes.toInteger signed bs)).frame.length ≤ bs.frame.length := by
      intro signed bs
      rw [Bytes.length_frame, Bytes.length_frame]
      exact Nat.add_le_add_left (Bytes.length_shortest_toInteger_le signed bs) 4
    obtain ⟨bs, -, hk, hle⟩ :=
      readNested_consumes Bytes.compatible_length_le T (.inr hframe) _ v _ h
    exact hle.trans (hk.trans (Nat.zero_add _)).ge
  · have hread := hhas.reads hfits 0 []
    rwa [List.append_nil, Nat.zero_add] at hread
  · obtain ⟨bs, hb, hk, hv⟩ := readNested_consumes Bytes.compatible_eq T (.inl hT) _ v _ h
    obtain rfl : k = bs.length := hk.trans (Nat.zero_add _)
    obtain rfl : b = bs ++ rest := hb
    rw [List.take_left, List.length_append]
    exact ⟨Nat.le_add_right _ _, hv⟩

/-- A number whose numeral is padded is written to fewer bytes; readings are written to the bytes
that they were read from. -/
theorem big_and_readings_canonical :
    ((big true).placeholder.readNested (.start [0, 0, 0, 3, 0xff, 0xff, 0xfe, 9]) =
        .ok (.big ⟨true, -2⟩) ⟨7, [9]⟩ ∧
      (Value.big ⟨true, -2⟩).nested.length ≤ 7 ∧
      (big true).placeholder.readNested (.start (Value.big ⟨true, -2⟩).nested) =
        .ok (.big ⟨true, -2⟩) ⟨(Value.big ⟨true, -2⟩).nested.length, []⟩) ∧
    readingsType.placeholder.readNested (.start readingsBytes) = .ok readings ⟨11, [5]⟩ ∧
      readingsType.Unpadded ∧ readings.nested = readingsBytes.take 11 := by
  have hbig : (big true).placeholder.readNested (.start [0, 0, 0, 3, 0xff, 0xff, 0xfe, 9]) =
      .ok (.big ⟨true, -2⟩) ⟨7, [9]⟩ := rfl
  have hunpadded : readingsType.Unpadded := .list (.option (.int .w16 true))
  obtain ⟨hle, hread, -⟩ := (big true).readNested_placeholder_canonical hbig
  obtain ⟨-, -, htake⟩ := readingsType.readNested_placeholder_canonical readNested_readingsBytes
  exact ⟨⟨hbig, hle, hread⟩, readNested_readingsBytes, hunpadded, (htake hunpadded).2⟩

end ValueType

end CallData
