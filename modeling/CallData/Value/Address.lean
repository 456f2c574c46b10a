import CallData.Bytes.Cursor
import CallData.Bytes.Sink

/-!
# Addresses

An address is 32 bytes, written in the same way nested and at top level: bare.
-/

namespace CallData

/-- The address of an account. -/
structure Address where
  bytes : Bytes
  length_bytes : bytes.length = 32
deriving DecidableEq

namespace Address

/-- The address whose bytes are all zero. -/
def zero : Address :=
  ⟨List.replicate 32 0, rfl⟩

/-- The address with the given bytes, if they are 32. -/
def ofBytes (bs : Bytes) : Except CodecError Address :=
  if h : bs.length = 32 then .ok ⟨bs, h⟩ else fail (.addressLength 32 bs.length)

/-- The address that a text gives in hexadecimal. -/
def ofHex (s : String) : Except CodecError Address := do
  match Hex.decode s with
  | .ok bs => ofBytes bs
  | .error fault => fail (.invalidHex fault)

/-- The hexadecimal form of an address. -/
def toHex (a : Address) : String :=
  Hex.encode a.bytes

/-- The hexadecimal form of an address, with the word for what it is. -/
def label (a : Address) : String :=
  let digits := a.toHex
  s!"Address({digits})"

/-- Writes the bytes of an address. -/
def put {σ : Type} [Sink σ] (a : Address) : Put σ :=
  .block a.bytes

/-- Reads the bytes of an address. -/
def read : ByteReader Address := do
  lift (ofBytes (← ByteReader.take 32))

end Address

end CallData
