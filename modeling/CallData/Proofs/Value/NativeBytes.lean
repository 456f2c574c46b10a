import CallData.Proofs.Value.Canonical
import CallData.Proofs.Value.Filling
import CallData.Proofs.Value.Top

/-!
# Native byte strings

A native byte string means what it means at top level. The types that take one are filled in from it
where they are read from it, with the same value (`ValueType.fill_bytes_eq_ok_iff_readTop`); only
an array has to be of its length to be filled in. For a sequence of octets, a byte string stands
for the numbers that its octets are.
-/

namespace CallData

open ByteReader Value

/-! ### Code metadata -/

/-- Code metadata is made of two octets, and of any two. -/
theorem CodeMetadata.ofBytes?_eq_some_iff {bs : Bytes} {m : CodeMetadata} :
    ofBytes? bs = some m ↔ m.bytes = bs := by
  match bs with
  | [] | [_] | _ :: _ :: _ :: _ => simp [ofBytes?, bytes]
  | [a, b] =>
    obtain ⟨first, second⟩ := m
    simp [ofBytes?, bytes, eq_comm]

/-- The two bytes of code metadata are all that it is read from. -/
theorem CodeMetadata.exactly_read_eq_ok_iff {bs : Bytes} {m : CodeMetadata} :
    read.exactly bs = .ok m ↔ m.bytes = bs := by
  constructor
  · intro h
    obtain ⟨c, hread, hend⟩ := exactly_eq_ok_iff.mp h
    obtain ⟨as, hrest, -, has⟩ := read_consumes _ _ _ hread
    rw [has, ← List.append_nil as, ← hend]
    exact hrest.symm
  · rintro rfl
    exact m.read_reads.exactly

/-- Filled in from bytes, code metadata takes those two octets. -/
theorem Value.metadataOfNative_bytes_eq_ok_iff {bs : Bytes} {v : Value} :
    metadataOfNative (.bytes bs) = .ok v ↔ ∃ m : CodeMetadata, m.bytes = bs ∧ metadata m = v := by
  simp only [← CodeMetadata.ofBytes?_eq_some_iff, metadataOfNative]
  cases CodeMetadata.ofBytes? bs <;> simp [fail]

/-- At top level it is read from those two, whatever was held before. -/
theorem Value.readTop_metadata_eq_ok_iff {held : CodeMetadata} {bs : Bytes} {v : Value} :
    (metadata held).readTop bs = .ok v ↔ ∃ m : CodeMetadata, m.bytes = bs ∧ metadata m = v := by
  have hread : (metadata held).readTop bs = (CodeMetadata.read.exactly bs).map metadata :=
    exactly_map CodeMetadata.read metadata bs
  rw [hread, except_map_eq_ok]
  simp only [CodeMetadata.exactly_read_eq_ok_iff]

/-! ### Octets -/

/-- The type of a sequence of octets has these as its items. -/
abbrev ValueType.octet : ValueType :=
  .int .w8 false

namespace Value

/-- The octets of a byte string as values. -/
def octets (bs : Bytes) : List Value :=
  bs.map fun b => .int (.ofOctet b)

theorem nested_ofOctet (b : UInt8) : (int (.ofOctet b)).nested = [b] := by
  have hspell : Bytes.toInteger false [b] = b.toNat := by simp [Bytes.toInteger, Bytes.toNat]
  have hlength : [b].length = 1 := rfl
  rw [nested_int, ← Bytes.ofInt_toInteger false hlength, hspell]
  rfl

/-- A byte string is read as the octets in it. -/
theorem many_readNested_octet (bs : Bytes) :
    many ValueType.octet.readNested bs = .ok (octets bs) := by
  have hspell : (octets bs).flatMap nested = bs := by
    rw [octets, List.flatMap_map]
    simp only [nested_ofOctet, List.flatMap_singleton']
  have hhas : ∀ v ∈ octets bs, ValueType.octet.Has v :=
    List.forall_mem_map.mpr fun b _ => FixedInt.ofOctet_has b
  have hfits : ∀ v ∈ octets bs, v.Fits := List.forall_mem_map.mpr fun b _ => .int _
  have hread := ValueType.many_readNested hhas hfits fun h => nomatch h.1
  rwa [hspell] at hread

/-- The number of an octet is within the bounds of one. -/
theorem intOfNative_octet (b : UInt8) :
    ValueType.octet.ofNative (.int b.toNat) = .ok (.int (.ofOctet b)) := by
  have .int hmin hmax := FixedInt.ofOctet_has b
  exact intOfNative_eq_ok_iff.mpr ⟨b.toNat, rfl, ⟨hmin, hmax⟩, rfl⟩

/-- A byte string stands for the numbers that its octets are. -/
theorem itemsOfNative_octet_bytes (bs : Bytes) :
    itemsOfNative .octet ValueType.octet.ofNative (.bytes bs) =
      itemsOfNative .octet ValueType.octet.ofNative (.seq (bs.map fun b => .int b.toNat)) := by
  have hrow : List.Forall₂ (fun n v => ValueType.octet.ofNative n = .ok v)
      (bs.map fun b => .int b.toNat) (octets bs) := by
    rw [octets, List.forall₂_map_left_iff, List.forall₂_map_right_iff]
    exact List.forall₂_same.mpr fun b _ => intOfNative_octet b
  exact (eachOfNative_eq_ok_iff.mpr hrow).symm

end Value

/-! ### All that take bytes -/

namespace ValueType

theorem fill_list_placeholder (item : ValueType) (n : NativeValue) :
    (list item).placeholder.fill n = (itemsOfNative item item.ofNative n).map (.list item) :=
  except_bind_pure

/-- An array takes the items of a list and then counts them. -/
theorem fill_array_placeholder (item : ValueType) (length : Nat) (n : NativeValue) :
    (array item length).placeholder.fill n =
      itemsOfNative item item.ofNative n >>= ofArray item length :=
  rfl

/-- A native byte string is filled in where it is read at top level, and as the same value. An array
is read from any number of octets, but filled in only with as many as its type declares. Lists and
arrays of octets are filled in from a byte string as from the sequence of the numbers in it. -/
theorem fill_bytes_eq_ok_iff_readTop (bs : Bytes) :
    (∀ T ∈ [bytes, str, address, metadata, list octet], ∀ v,
      T.placeholder.fill (.bytes bs) = .ok v ↔ T.placeholder.readTop bs = .ok v) ∧
    (∀ length v, (array octet length).placeholder.fill (.bytes bs) = .ok v ↔
      (array octet length).placeholder.readTop bs = .ok v ∧ bs.length = length) ∧
    (list octet).placeholder.fill (.bytes bs) =
      (list octet).placeholder.fill (.seq (bs.map fun b => .int b.toNat)) ∧
    ∀ length, (array octet length).placeholder.fill (.bytes bs) =
      (array octet length).placeholder.fill (.seq (bs.map fun b => .int b.toNat)) := by
  -- Any byte string is read as its octets, by a list and by an array of whatever length.
  have hlist : (list octet).placeholder.readTop bs = .ok (.list octet (octets bs)) :=
    except_bind_of_ok (many_readNested_octet bs)
  have harray : ∀ length, (array octet length).placeholder.readTop bs =
      .ok (.array octet length (octets bs)) :=
    fun length => except_bind_of_ok (many_readNested_octet bs)
  refine ⟨fun T hT v => ?_, fun length v => ?_, ?_, fun length => ?_⟩
  · simp only [List.mem_cons, List.not_mem_nil, or_false] at hT
    obtain rfl | rfl | rfl | rfl | rfl := hT
    · exact Iff.rfl
    · exact Iff.rfl
    · exact Iff.rfl
    · exact metadataOfNative_bytes_eq_ok_iff.trans readTop_metadata_eq_ok_iff.symm
    · rw [hlist]
      exact Iff.rfl
  · rw [harray length, Except.ok.injEq]
    refine ofArray_eq_ok_iff.trans ?_
    rw [octets, List.length_map, and_comm, @eq_comm _ v, @eq_comm _ length]
  · rw [fill_list_placeholder, fill_list_placeholder, itemsOfNative_octet_bytes]
  · rw [fill_array_placeholder, fill_array_placeholder, itemsOfNative_octet_bytes]

theorem fill_bytes_metadata_and_str :
    metadata ∈ [bytes, str, address, metadata, list octet] ∧
      metadata.placeholder.fill (.bytes [1, 6]) = .ok (.metadata ⟨1, 6⟩) ∧
    str ∈ [bytes, str, address, metadata, list octet] ∧
      (∀ v, str.placeholder.fill (.bytes [0xc3, 0x28]) ≠ .ok v) ∧
    (array octet 3).placeholder.readTop [1, 6] = .ok (.array octet 3 (octets [1, 6])) ∧
      (∀ v, (array octet 3).placeholder.fill (.bytes [1, 6]) ≠ .ok v) := by
  have hmetadata : metadata ∈ [bytes, str, address, metadata, list octet] := by simp
  have hstr : str ∈ [bytes, str, address, metadata, list octet] := by simp
  refine ⟨hmetadata, ((fill_bytes_eq_ok_iff_readTop _).1 _ hmetadata _).mpr rfl, hstr,
    fun v h => ?_, except_bind_of_ok (many_readNested_octet _), fun v h => ?_⟩
  · cases ((fill_bytes_eq_ok_iff_readTop _).1 _ hstr v).mp h
  · cases (((fill_bytes_eq_ok_iff_readTop _).2.1 3 v).mp h).2

end ValueType

end CallData
