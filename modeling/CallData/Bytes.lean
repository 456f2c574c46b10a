/-!
# Byte strings and big-endian numerals

A byte string is a list of octets. Read in base 256, most significant octet first, it spells a
natural number (`Bytes.toNat`) or, as two's complement, an integer (`Bytes.toInt`). The other
way, `Bytes.ofNat` and `Bytes.ofInt` write a number in a given width, and `Bytes.shortest`
chooses the least width from which the number can be read back.
-/

namespace CallData

/-- A byte string. -/
abbrev Bytes := List UInt8

namespace Bytes

/-! ### Numerals of a given width -/

/-- The number that a byte string spells in base 256; the empty string spells zero. -/
def toNat (bs : Bytes) : Nat :=
  bs.foldl (fun n b => 256 * n + b.toNat) 0

/-- The last `w` digits of `n` in base 256, in front of `rest`. -/
def ofNatOnto (rest : Bytes) : (w n : Nat) → Bytes
  | 0, _ => rest
  | w + 1, n => ofNatOnto (UInt8.ofNat n :: rest) w (n / 256)

/-- The last `w` digits of `n` in base 256. -/
def ofNat (w n : Nat) : Bytes :=
  ofNatOnto [] w n

/-- The integer that a byte string spells in two's complement: the number it spells in base 256,
less `256 ^ length` when its leading bit is set. -/
def toInt (bs : Bytes) : Int :=
  if Nat.pow 256 bs.length ≤ 2 * bs.toNat then bs.toNat - Int.pow 256 bs.length else bs.toNat

/-- The `w`-octet two's complement of `i`: the numeral of `i` modulo `256 ^ w`. -/
def ofInt (w : Nat) (i : Int) : Bytes :=
  ofNat w (i % Int.pow 256 w).toNat

/-! ### Shortest numerals -/

/-- The number of binary digits of `n`; zero has none. -/
def bitLength (n : Nat) : Nat :=
  if n = 0 then 0 else n.log2 + 1

/-- The number of binary digits of a non-negative integer, or of the complement `-i - 1` of a
negative one. -/
def magnitudeBits : Int → Nat
  | .ofNat n => bitLength n
  | .negSucc n => bitLength n

/-- The least width from which `i` can be read back. Zero takes no octet; a signed integer needs
one bit more than its magnitude, for the sign. -/
def shortestWidth (signed : Bool) (i : Int) : Nat :=
  if i = 0 then 0
  else if signed then (magnitudeBits i + 8) / 8
  else (magnitudeBits i + 7) / 8

/-- The shortest byte string that spells `i`, in two's complement when `signed`. -/
def shortest (signed : Bool) (i : Int) : Bytes :=
  ofInt (shortestWidth signed i) i

/-- The integer that a byte string spells, in two's complement when `signed`. -/
def toInteger (signed : Bool) (bs : Bytes) : Int :=
  if signed then bs.toInt else bs.toNat

/-! ### Laws -/

@[simp]
theorem length_ofNatOnto (rest : Bytes) (w n : Nat) :
    (ofNatOnto rest w n).length = w + rest.length := by
  induction w generalizing rest n with
  | zero => simp [ofNatOnto]
  | succ w ih => simp [ofNatOnto, ih, Nat.add_assoc, Nat.add_comm 1]

@[simp]
theorem length_ofNat (w n : Nat) : (ofNat w n).length = w := by
  simp [ofNat]

@[simp]
theorem length_ofInt (w : Nat) (i : Int) : (ofInt w i).length = w := by
  simp [ofInt]

end Bytes

end CallData
