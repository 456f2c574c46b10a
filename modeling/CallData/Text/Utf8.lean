import CallData.Bytes

/-!
# UTF-8 text

`Utf8.encode` and `Utf8.decode` go between text and its UTF-8 octets. Where decoding fails,
`Utf8.stop` tells where: the octets are read one at a time against the ranges that each leading
octet allows for those behind it, and reading stops at the first octet out of its range or at
the end of the input.
-/

namespace CallData

namespace Utf8

/-- Why reading stopped, and behind how many octets of whole characters. -/
structure Fault where
  /-- The number of octets taken up by whole characters. -/
  validLength : Nat
  /-- The number of octets of the ill-formed sequence there, or `none` where the input ends. -/
  badLength : Option Nat
deriving Repr, DecidableEq

namespace Fault

/-- The wording of a fault. -/
def message (f : Fault) : String :=
  match f.badLength with
  | some n => s!"invalid utf-8 sequence of {n} bytes from index {f.validLength}"
  | none => s!"incomplete utf-8 byte sequence from index {f.validLength}"

end Fault

/-- A range of octets, both ends included. -/
structure Range where
  first : UInt8
  last : UInt8

/-- Any continuation octet. -/
def Range.continuation : Range := ⟨0x80, 0xbf⟩

/-- The ranges of the octets that follow a leading octet, or `none` for an octet that leads no
character. The narrower ranges shut out overlong forms, surrogates and what lies beyond the last
code point. -/
def followers (lead : UInt8) : Option (List Range) :=
  if lead < 0x80 then some []
  else if lead < 0xc2 then none
  else if lead < 0xe0 then some [.continuation]
  else if lead = 0xe0 then some [⟨0xa0, 0xbf⟩, .continuation]
  else if lead = 0xed then some [⟨0x80, 0x9f⟩, .continuation]
  else if lead < 0xf0 then some [.continuation, .continuation]
  else if lead = 0xf0 then some [⟨0x90, 0xbf⟩, .continuation, .continuation]
  else if lead < 0xf4 then some [.continuation, .continuation, .continuation]
  else if lead = 0xf4 then some [⟨0x80, 0x8f⟩, .continuation, .continuation]
  else none

/-- Reads on with `done` octets in whole characters, `seen` octets of an unfinished one behind
them, and `due` for the ranges of the octets that it still lacks. -/
def stopFrom (done seen : Nat) (due : List Range) : Bytes → Fault
  | [] => ⟨done, none⟩
  | b :: rest =>
    match due with
    | [] =>
      match followers b with
      | none => ⟨done, some 1⟩
      | some [] => stopFrom (done + 1) 0 [] rest
      | some ranges => stopFrom done 1 ranges rest
    | [r] =>
      if r.first ≤ b ∧ b ≤ r.last then stopFrom (done + seen + 1) 0 [] rest
      else ⟨done, some seen⟩
    | r :: ranges =>
      if r.first ≤ b ∧ b ≤ r.last then stopFrom done (seen + 1) ranges rest
      else ⟨done, some seen⟩

/-- Where reading a byte string as UTF-8 stops. -/
def stop (bs : Bytes) : Fault :=
  stopFrom 0 0 [] bs

/-- The UTF-8 octets of a text. -/
def encode (s : String) : Bytes :=
  s.toUTF8.data.toList

/-- The text that a byte string is the UTF-8 form of. -/
def decode (bs : Bytes) : Except Fault String :=
  match String.fromUTF8? ⟨bs.toArray⟩ with
  | some s => .ok s
  | none => .error (stop bs)

/-! ### Laws -/

/-- A text is read back from its octets. -/
theorem decode_encode (s : String) : decode (encode s) = .ok s := by
  have h : (⟨(encode s).toArray⟩ : ByteArray) = s.toByteArray := by simp [encode]
  simp [decode, h, String.fromUTF8?, s.isValidUTF8, String.fromUTF8]

/-- Only its own octets are read as a text. -/
theorem encode_of_decode_eq_ok {bs : Bytes} {s : String} (h : decode bs = .ok s) :
    encode s = bs := by
  unfold decode String.fromUTF8? at h
  split at h
  case h_1 t ht =>
    split at ht
    case isTrue =>
      cases ht
      cases h
      simp [encode, String.fromUTF8]
    case isFalse => cases ht
  case h_2 => cases h

end Utf8

end CallData
