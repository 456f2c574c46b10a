import CallData.Bytes.Cursor
import CallData.Bytes.Sink

/-!
# Code metadata

Two bytes of flags that say what may be done with a contract. Four of the sixteen bits have a
name; the others are carried along.
-/

namespace CallData

/-- The bits of a contract's code metadata. -/
structure CodeMetadata where
  first : UInt8
  second : UInt8
deriving Repr, DecidableEq

/-- A bit of the code metadata that has a name. -/
inductive MetadataFlag where
  | upgradeable
  | readable
  | payable
  | payableByContract
deriving Repr, DecidableEq

namespace MetadataFlag

/-- The flags in the order in which they are listed. -/
def all : List MetadataFlag :=
  [upgradeable, readable, payable, payableByContract]

/-- The name of a flag in a record. -/
def name : MetadataFlag → String
  | upgradeable => "upgradeable"
  | readable => "readable"
  | payable => "payable"
  | payableByContract => "payable_by_sc"

/-- The metadata in which a flag alone is set. -/
def mask : MetadataFlag → CodeMetadata
  | upgradeable => ⟨0x01, 0x00⟩
  | readable => ⟨0x04, 0x00⟩
  | payable => ⟨0x00, 0x02⟩
  | payableByContract => ⟨0x00, 0x04⟩

end MetadataFlag

namespace CodeMetadata

/-- The metadata in which no bit is set. -/
def none : CodeMetadata :=
  ⟨0, 0⟩

/-- Whether a flag is set. -/
def has (m : CodeMetadata) (f : MetadataFlag) : Bool :=
  (m.first &&& f.mask.first) != 0 || (m.second &&& f.mask.second) != 0

/-- The metadata with a flag set or cleared, and all else as it was. -/
def set (m : CodeMetadata) (f : MetadataFlag) (on : Bool) : CodeMetadata :=
  if on then ⟨m.first ||| f.mask.first, m.second ||| f.mask.second⟩
  else ⟨m.first &&& ~~~f.mask.first, m.second &&& ~~~f.mask.second⟩

/-- The metadata with the given flags and no other bit set. -/
def ofFlags (upgradeable readable payable payableByContract : Bool) : CodeMetadata :=
  (((none.set .upgradeable upgradeable).set .readable readable).set .payable payable).set
    .payableByContract payableByContract

/-- The metadata with the given bytes, if they are two. -/
def ofBytes? : Bytes → Option CodeMetadata
  | [a, b] => some ⟨a, b⟩
  | _ => Option.none

/-- The bytes of the metadata. -/
def bytes (m : CodeMetadata) : Bytes :=
  [m.first, m.second]

/-- Writes the bytes of the metadata. -/
def put {σ : Type} [Sink σ] (m : CodeMetadata) : Put σ :=
  .block m.bytes

/-- Reads the bytes of the metadata. -/
def read : ByteReader CodeMetadata := do
  return ((ofBytes? (← ByteReader.take 2)).getD none)

end CodeMetadata

end CallData
