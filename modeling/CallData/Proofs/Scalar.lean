import CallData.Proofs.Conformance
import CallData.Proofs.Reading
import CallData.Value.Decode

/-!
# Values without parts

Each kind of value that is not made of others is read back from its nested encoding, and whatever
is read as one is a value of the type that fits the wire.
-/

namespace CallData

open ByteReader

/-! ### Integers -/

/-- An integer within the bounds of its type is read from as many octets as the type is wide. -/
theorem FixedInt.readNested_reads {width : IntWidth} {signed : Bool} {i : Int}
    (hmin : width.min signed ≤ i) (hmax : i ≤ width.max signed) :
    (FixedInt.readNested width signed).Reads (Bytes.ofInt width.bytes i) ⟨width, signed, i⟩ := by
  have hlen := Bytes.length_ofInt width.bytes i
  have h := (take_reads hlen).map fun bs => FixedInt.mk width signed (FixedInt.shiftIn signed bs)
  rwa [FixedInt.shiftIn_eq signed hlen, width.toInteger_ofInt signed hmin hmax] at h

/-- Whatever the octets are, what is read from them is within the bounds. -/
theorem FixedInt.readNested_yields (width : IntWidth) (signed : Bool) :
    (FixedInt.readNested width signed).Yields fun x =>
      (ValueType.int width signed).Has (.int x) := by
  refine (take_yields width.bytes).map fun bs hbs => ?_
  obtain ⟨hmin, hmax⟩ := width.bounds_toInteger signed hbs
  rw [FixedInt.shiftIn_eq signed hbs]
  exact .int hmin hmax

/-- An integer of any size is read from its frame, provided the length of the numeral fits its four
octets and an unsigned type gets no negative one. -/
theorem BigInteger.readNested_reads {signed : Bool} {i : Int} (h : signed = false → 0 ≤ i)
    (hfits : (Bytes.shortest signed i).length < 2 ^ 32) :
    (BigInteger.readNested signed).Reads
      (Bytes.ofNat 4 (Bytes.shortest signed i).length ++ Bytes.shortest signed i) ⟨signed, i⟩ := by
  have hread := (framed_reads hfits).map (BigInteger.ofTop signed)
  rwa [BigInteger.ofTop, Bytes.toInteger_shortest h] at hread

/-- Any byte string is a big integer of either signedness. -/
theorem BigInteger.ofTop_has (signed : Bool) (bs : Bytes) :
    (ValueType.big signed).Has (.big (BigInteger.ofTop signed bs)) :=
  .big fun h => h ▸ Bytes.toInteger_unsigned_nonneg bs

/-- What is read is of the type, and its shortest numeral is no longer than the frame it was read
from. -/
theorem BigInteger.readNested_yields (signed : Bool) :
    (BigInteger.readNested signed).Yields fun x =>
      (ValueType.big signed).Has (.big x) ∧ (Value.big x).Fits := by
  refine framed_yields.map fun bs hbs => ⟨BigInteger.ofTop_has signed bs, .big ?_⟩
  exact (Bytes.length_shortest_toInteger_le signed bs).trans_lt hbs

/-! ### Addresses and code metadata -/

theorem Address.ofBytes_bytes (a : Address) : Address.ofBytes a.bytes = .ok a :=
  dif_pos a.length_bytes

theorem Address.read_reads (a : Address) : Address.read.Reads a.bytes a := by
  rw [← List.append_nil a.bytes]
  exact (take_reads a.length_bytes).bind (Reads.lift a.ofBytes_bytes)

theorem CodeMetadata.read_reads (m : CodeMetadata) : CodeMetadata.read.Reads m.bytes m := by
  have h : (take 2).Reads m.bytes m.bytes := take_reads rfl
  exact h.map fun bs => (CodeMetadata.ofBytes? bs).getD .none

/-! ### Decimals -/

/-- A decimal is read from its encoding by the reader that knows of its scale as much as its type
does. -/
theorem Amount.readNested_reads {a : Amount} (h : a.digitBytes.length < 2 ^ 32) :
    (Amount.readNested a.fixedScale?).Reads (Value.decimal a).nested a := by
  have hdigits : a.digitBytes.toNat = a.value.digits := Bytes.toNat_shortest _
  match a with
  | .fixed d =>
    rw [Value.nested_fixed, ← List.append_nil (Bytes.ofNat 4 _ ++ _)]
    refine (framed_reads h).bind ?_
    rw [hdigits]
    exact Reads.pure _
  | .floating d =>
    have hscale : d.scale.toNat < 2 ^ 32 := d.scale.toNat_lt
    have hread := (count_reads hscale).map fun n => Amount.floating ⟨d.digits, UInt32.ofNat n⟩
    rw [UInt32.ofNat_toNat] at hread
    rw [Value.nested_floating]
    refine (framed_reads h).bind ?_
    rw [hdigits]
    exact hread

/-- What is read as a decimal is of the type: with the scale of the type where it has one, or else
with the one that was read. -/
theorem Amount.readNested_yields (scale : Option UInt32) : (Amount.readNested scale).Yields fun a =>
    (ValueType.decimal scale).Has (.decimal a) ∧ (Value.decimal a).Fits := by
  -- The digits may be padded: written again, they take no more bytes.
  have hfits : ∀ bs : Bytes, (Bytes.shortest false bs.toNat).length ≤ bs.length :=
    Bytes.length_shortest_toInteger_le false
  refine framed_yields.bind fun bs hbs => ?_
  match scale with
  | some s => exact Yields.pure ⟨.fixed bs.toNat s, .decimal ((hfits bs).trans_lt hbs)⟩
  | none =>
    refine count_yields.map fun n _ => ?_
    exact ⟨.floating _, .decimal ((hfits bs).trans_lt hbs)⟩

end CallData
