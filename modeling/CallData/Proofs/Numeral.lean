import CallData.Value.Integer
import Mathlib.Data.List.Induction
import Mathlib.Tactic.Linarith
import Mathlib.Tactic.Ring

/-!
# What numerals spell

A numeral of a given width spells the number it was written for, as far as the width has room:
`toNat_ofNat` without a sign and `toInt_ofInt` in two's complement. The shortest numeral of a
number spells it in full (`toInteger_shortest`), and no byte string that spells the same number
is shorter (`length_shortest_toInteger_le`) or another of that length (`eq_shortest`). It has no
leading octet to spare, neither a zero (`head?_shortest_ne_zero`) nor one that only shows the sign
(`not_repeatsSign_shortest`).
-/

namespace CallData

namespace Bytes

/-! ### Without a sign -/

/-- An octet behind a numeral counts for itself, and those in front of it 256 times as much as
before. -/
theorem toNat_concat (bs : Bytes) (b : UInt8) : (bs ++ [b]).toNat = 256 * bs.toNat + b.toNat := by
  simp [toNat]

/-- A numeral in front of another counts by the power of 256 with the length of that. -/
theorem toNat_append (as bs : Bytes) :
    (as ++ bs).toNat = 256 ^ bs.length * as.toNat + bs.toNat := by
  -- The digits are folded from the left, so the last one is the one to take off.
  induction bs using List.reverseRecOn with
  | nil => simp [toNat]
  | append_singleton bs b ih =>
    rw [← List.append_assoc, toNat_concat, toNat_concat, ih, List.length_append,
      List.length_singleton, pow_succ]
    ring

theorem toNat_cons (b : UInt8) (bs : Bytes) :
    toNat (b :: bs) = 256 ^ bs.length * b.toNat + bs.toNat := by
  rw [← List.singleton_append, toNat_append]
  simp [toNat]

theorem toNat_ofNatOnto (rest : Bytes) (w n : Nat) :
    (ofNatOnto rest w n).toNat = 256 ^ rest.length * (n % 256 ^ w) + rest.toNat := by
  induction w generalizing rest n with
  | zero => simp [ofNatOnto, Nat.mod_one]
  | succ w ih =>
    have front : toNat (UInt8.ofNat n :: rest) = 256 ^ rest.length * (n % 256) + rest.toNat := by
      rw [toNat_cons, UInt8.toNat_ofNat']
    rw [ofNatOnto, ih, front, List.length_cons, pow_succ 256 w, Nat.mul_comm (256 ^ w),
      Nat.mod_mul, pow_succ]
    ring

/-- A numeral of width `w` spells what fits into the width. -/
theorem toNat_ofNat (w n : Nat) : (ofNat w n).toNat = n % 256 ^ w := by
  rw [ofNat, toNat_ofNatOnto]
  simp [toNat]

/-- The octets of a numeral are those that its number is written with, at their number. -/
theorem ofNatOnto_toNat (rest bs : Bytes) : ofNatOnto rest bs.length bs.toNat = bs ++ rest := by
  induction bs using List.reverseRecOn generalizing rest with
  | nil => rfl
  | append_singleton bs b ih =>
    have hb : b.toNat < 256 := b.toNat_lt
    have hlast : UInt8.ofNat (256 * toNat bs + b.toNat) = b := by
      rw [← UInt8.toNat_inj, UInt8.toNat_ofNat']
      omega
    have hfront : (256 * toNat bs + b.toNat) / 256 = toNat bs := by omega
    rw [List.length_append, List.length_singleton, toNat_concat, ofNatOnto, hlast, hfront, ih,
      List.append_assoc, List.singleton_append]

/-- A byte string is the numeral, of its own length, of the number that it spells. -/
theorem ofNat_toNat {w : Nat} {bs : Bytes} (h : bs.length = w) : ofNat w bs.toNat = bs := by
  rw [← h, ofNat, ofNatOnto_toNat, List.append_nil]

/-- A numeral spells a number below the power of 256 with its length. -/
theorem toNat_lt (bs : Bytes) : bs.toNat < 256 ^ bs.length := by
  induction bs using List.reverseRecOn with
  | nil => simp [toNat]
  | append_singleton bs b ih =>
    have hb : b.toNat < 256 := b.toNat_lt
    rw [toNat_concat, List.length_append, List.length_singleton, pow_succ]
    omega

/-- Byte strings of one length that spell the same number are the same. -/
theorem eq_of_toNat_eq {as bs : Bytes} (hlen : as.length = bs.length)
    (h : as.toNat = bs.toNat) : as = bs := by
  rw [← ofNat_toNat hlen, h, ofNat_toNat rfl]

/-- The last octets spell the remainder by what the others count. -/
theorem toNat_drop {bs : Bytes} {w : Nat} (h : w ≤ bs.length) :
    toNat (bs.drop (bs.length - w)) = bs.toNat % 256 ^ w := by
  have hlen : (bs.drop (bs.length - w)).length = w := by
    rw [List.length_drop]
    omega
  have hlt := toNat_lt (bs.drop (bs.length - w))
  have hsplit := toNat_append (bs.take (bs.length - w)) (bs.drop (bs.length - w))
  rw [List.take_append_drop] at hsplit
  rw [hlen] at hlt hsplit
  rw [hsplit, Nat.mul_add_mod, Nat.mod_eq_of_lt hlt]

/-! ### Two's complement -/

/-- Two's complement: a numeral of the upper half stands for its number less the whole range. -/
theorem toInt_eq (bs : Bytes) :
    bs.toInt = if 256 ^ bs.length ≤ 2 * bs.toNat then (bs.toNat : Int) - 256 ^ bs.length
      else bs.toNat :=
  rfl

theorem ofInt_eq (w : Nat) (i : Int) : ofInt w i = ofNat w (i % 256 ^ w).toNat :=
  rfl

/-- What is written of an integer is its remainder by the range of the width. -/
theorem toNat_ofInt (w : Nat) (i : Int) : ((ofInt w i).toNat : Int) = i % 256 ^ w := by
  have hpos : (0 : Int) < 256 ^ w := by positivity
  rw [ofInt_eq, toNat_ofNat]
  push_cast
  rw [Int.toNat_of_nonneg (Int.emod_nonneg _ hpos.ne'), Int.emod_emod_of_dvd _ dvd_rfl]

/-- Half of the values of a width spell negative numbers. -/
theorem toInt_bounds (bs : Bytes) :
    -256 ^ bs.length ≤ 2 * bs.toInt ∧ 2 * bs.toInt < 256 ^ bs.length := by
  have hlt : (bs.toNat : Int) < 256 ^ bs.length := by exact_mod_cast bs.toNat_lt
  rw [toInt_eq]
  split
  case isTrue h =>
    have hle : (256 : Int) ^ bs.length ≤ 2 * bs.toNat := by exact_mod_cast h
    constructor <;> linarith
  case isFalse h =>
    have hle : 2 * (bs.toNat : Int) < 256 ^ bs.length := by exact_mod_cast not_le.mp h
    constructor <;> linarith

/-- A number that fits into a width is read back from its two's complement. -/
theorem toInt_ofInt {w : Nat} {i : Int} (hle : -256 ^ w ≤ 2 * i) (hlt : 2 * i < 256 ^ w) :
    (ofInt w i).toInt = i := by
  have hpos : (0 : Int) < 256 ^ w := by positivity
  have hspell := toNat_ofInt w i
  have hcast : ((256 ^ w : Nat) : Int) = 256 ^ w := by push_cast; rfl
  rw [toInt_eq, length_ofInt]
  -- A negative number is spelt modulo the power, in the upper half: the power is taken off again.
  rcases lt_or_ge i 0 with hneg | hnonneg
  · have hmod : i % 256 ^ w = i + 256 ^ w := by
      rw [← Int.add_emod_right, Int.emod_eq_of_lt] <;> linarith
    rw [hmod] at hspell
    rw [if_pos (by zify; linarith), hspell]
    ring
  · have hmod : i % 256 ^ w = i := Int.emod_eq_of_lt hnonneg (by linarith)
    rw [hmod] at hspell
    rw [if_neg (by zify; linarith), hspell]

/-- A byte string is the two's complement, of its own width, of the number that it spells. -/
theorem ofInt_toInteger (signed : Bool) {w : Nat} {bs : Bytes} (h : bs.length = w) :
    ofInt w (toInteger signed bs) = bs := by
  -- In two's complement the power of the width may have been taken off.
  have hmod : toInteger signed bs % 256 ^ w = bs.toNat := by
    have hlt : (bs.toNat : Int) < 256 ^ w := by
      rw [← h]
      exact_mod_cast bs.toNat_lt
    have hnat : (bs.toNat : Int) % 256 ^ w = bs.toNat :=
      Int.emod_eq_of_lt (Int.natCast_nonneg _) hlt
    match signed with
    | false => exact hnat
    | true =>
      change bs.toInt % 256 ^ w = bs.toNat
      rw [toInt_eq, h]
      split
      · rwa [Int.sub_emod_right]
      · exact hnat
  rw [ofInt_eq, hmod, Int.toNat_natCast, ofNat_toNat h]

/-- The last octets of a two's complement are one. -/
theorem drop_ofInt {v w : Nat} (h : w ≤ v) (i : Int) :
    (ofInt v i).drop (v - w) = ofInt w i := by
  have hdrop := toNat_drop (h.trans_eq (length_ofInt v i).symm)
  rw [length_ofInt] at hdrop
  refine eq_of_toNat_eq ?_ ?_
  · rw [List.length_drop, length_ofInt, length_ofInt]
    omega
  · zify
    rw [hdrop, toNat_ofInt w]
    push_cast
    rw [toNat_ofInt v, Int.emod_emod_of_dvd _ (pow_dvd_pow 256 h)]

/-- The highest bit is set in the octets from 128 on. -/
theorem and_eq_decide (b : UInt8) : (b &&& 0x80 != 0) = decide (128 ≤ b.toNat) := by
  have hall : ∀ n < 256, (UInt8.ofNat n &&& 0x80 != 0) = decide (128 ≤ n) := by decide +kernel
  have hb := hall b.toNat b.toNat_lt
  rwa [UInt8.ofNat_toNat] at hb

/-- The leading octet is in the upper half where the numeral is. -/
theorem le_headD_iff (bs : Bytes) :
    128 ≤ (bs.headD 0).toNat ↔ 256 ^ bs.length ≤ 2 * bs.toNat := by
  match bs with
  | [] => decide
  | b :: bs =>
    have hlt := toNat_lt bs
    rw [List.headD_cons, toNat_cons, List.length_cons, pow_succ]
    constructor
    · intro h
      have hle := Nat.mul_le_mul_left (256 ^ bs.length) h
      omega
    · intro h
      by_contra hsmall
      have hle := Nat.mul_le_mul_left (256 ^ bs.length) (Nat.le_of_lt_succ (not_le.mp hsmall))
      omega

/-- The leading bit is set in the upper half of the numerals. -/
theorem headD_and_eq (bs : Bytes) :
    (bs.headD 0 &&& 0x80 != 0) = decide (256 ^ bs.length ≤ 2 * bs.toNat) := by
  rw [and_eq_decide, decide_eq_decide, le_headD_iff]

/-- The leading octet does no more than to repeat the sign that the others show. -/
def RepeatsSign : Bytes → Prop
  | [] => False
  | b :: bs => (b = 0 ∧ ¬ 128 ≤ (bs.headD 0).toNat) ∨ (b = 255 ∧ 128 ≤ (bs.headD 0).toNat)

/-- An octet in front that only repeats the sign does not change the number. -/
theorem toInt_cons_of_repeatsSign {b : UInt8} {bs : Bytes} (h : RepeatsSign (b :: bs)) :
    toInt (b :: bs) = bs.toInt := by
  have hlt := toNat_lt bs
  rw [toInt_eq, toInt_eq, toNat_cons, List.length_cons, pow_succ]
  rcases h with ⟨rfl, h⟩ | ⟨rfl, h⟩
  · rw [le_headD_iff] at h
    rw [if_neg h, UInt8.toNat_zero, Nat.mul_zero, Nat.zero_add, if_neg (by omega)]
  · rw [le_headD_iff] at h
    have hones : (255 : UInt8).toNat = 255 := rfl
    rw [if_pos h, hones, if_pos (by omega)]
    push_cast
    ring

/-! ### Shortest numerals -/

/-- A number has no more bits than the least power of two above it says. -/
theorem bitLength_le_iff {n k : Nat} : bitLength n ≤ k ↔ n < 2 ^ k := by
  rw [bitLength]
  by_cases h : n = 0
  · simp [h]
  · rw [if_neg h, Nat.succ_le_iff, Nat.log2_lt h]

/-- With the bits of its magnitude and one for the sign, an integer is in two's complement. -/
theorem magnitudeBits_le_iff {i : Int} {k : Nat} :
    magnitudeBits i ≤ k ↔ -2 ^ k ≤ i ∧ i < 2 ^ k := by
  have hpos : (0 : Int) < 2 ^ k := by positivity
  match i with
  | .ofNat n =>
    have hcast : (n < 2 ^ k) ↔ ((n : Int) < 2 ^ k) := by exact_mod_cast Iff.rfl
    rw [magnitudeBits, bitLength_le_iff, hcast, Int.ofNat_eq_natCast]
    constructor
    · intro h
      constructor <;> linarith [Int.natCast_nonneg n]
    · exact fun h => h.2
  | .negSucc n =>
    have hcast : (n < 2 ^ k) ↔ ((n : Int) < 2 ^ k) := by exact_mod_cast Iff.rfl
    rw [magnitudeBits, bitLength_le_iff, hcast, Int.negSucc_eq]
    constructor
    · intro h
      constructor <;> linarith [Int.natCast_nonneg n]
    · intro h
      linarith [h.1]

/-- A width has room for an integer in two's complement exactly when it is no less than the
shortest one. -/
theorem shortestWidth_signed_le_iff {i : Int} {w : Nat} :
    shortestWidth true i ≤ w ↔ -256 ^ w ≤ 2 * i ∧ 2 * i < 256 ^ w := by
  rw [shortestWidth]
  by_cases h : i = 0
  · subst h
    simp
  · rw [if_neg h, if_pos rfl]
    -- Octets have room for eight bits each, but one of all these is the sign.
    match w with
    | 0 =>
      rw [pow_zero]
      exact iff_of_false (by omega) (by omega)
    | w + 1 =>
      have hpow : (256 : Int) ^ (w + 1) = 2 * 2 ^ (8 * w + 7) := by
        rw [show (256 : Int) = 2 ^ 8 by norm_num, ← pow_mul, ← pow_succ']
        congr 1
      have hbits : (magnitudeBits i + 8) / 8 ≤ w + 1 ↔ magnitudeBits i ≤ 8 * w + 7 := by omega
      rw [hbits, magnitudeBits_le_iff, hpow]
      constructor
      · rintro ⟨hle, hlt⟩
        constructor <;> linarith
      · rintro ⟨hle, hlt⟩
        constructor <;> linarith

/-- A width has room for a natural number exactly when it is no less than the shortest one. -/
theorem shortestWidth_unsigned_le_iff {n w : Nat} :
    shortestWidth false n ≤ w ↔ n < 256 ^ w := by
  have hpow : 256 ^ w = 2 ^ (8 * w) := by rw [pow_mul]; norm_num
  rw [shortestWidth]
  by_cases h : (n : Int) = 0
  · obtain rfl : n = 0 := by exact_mod_cast h
    simp
  · have hbits : (magnitudeBits n + 7) / 8 ≤ w ↔ magnitudeBits n ≤ 8 * w := by omega
    rw [if_neg h, if_neg Bool.false_ne_true, hbits, hpow]
    exact bitLength_le_iff

@[simp]
theorem length_shortest (signed : Bool) (i : Int) :
    (shortest signed i).length = shortestWidth signed i :=
  length_ofInt _ _

/-- The shortest numeral of a natural number spells it. -/
theorem toNat_shortest (n : Nat) : (shortest false n).toNat = n := by
  have hlt : n < 256 ^ shortestWidth false n := shortestWidth_unsigned_le_iff.mp le_rfl
  have hmod : (n : Int) % 256 ^ shortestWidth false n = n :=
    Int.emod_eq_of_lt (Int.natCast_nonneg n) (by exact_mod_cast hlt)
  rw [shortest, ofInt_eq, hmod, toNat_ofNat, Int.toNat_natCast, Nat.mod_eq_of_lt hlt]

/-- The shortest numeral of an integer spells it; without a sign there are no negative ones. -/
theorem toInteger_shortest {signed : Bool} {i : Int} (h : signed = false → 0 ≤ i) :
    toInteger signed (shortest signed i) = i := by
  match signed with
  | true =>
    obtain ⟨hle, hlt⟩ := shortestWidth_signed_le_iff.mp (le_refl (shortestWidth true i))
    exact toInt_ofInt hle hlt
  | false =>
    obtain ⟨n, rfl⟩ := Int.eq_ofNat_of_zero_le (h rfl)
    exact congrArg Nat.cast (toNat_shortest n)

theorem toInteger_unsigned_nonneg (bs : Bytes) : 0 ≤ toInteger false bs :=
  Int.natCast_nonneg bs.toNat

/-- Among the byte strings that spell a number, the shortest numeral is the shortest. -/
theorem length_shortest_toInteger_le (signed : Bool) (bs : Bytes) :
    (shortest signed (toInteger signed bs)).length ≤ bs.length := by
  rw [length_shortest]
  match signed with
  | true => exact shortestWidth_signed_le_iff.mpr bs.toInt_bounds
  | false => exact shortestWidth_unsigned_le_iff.mpr bs.toNat_lt

/-- No other byte string of the least width spells the number. -/
theorem eq_shortest {signed : Bool} {bs : Bytes} {i : Int} (hspell : toInteger signed bs = i)
    (hlen : bs.length = shortestWidth signed i) : bs = shortest signed i := by
  rw [shortest, ← hlen, ← hspell, ofInt_toInteger signed rfl]

/-- No octet of the shortest numeral can be left off. -/
theorem toInteger_ne_of_shortest_eq_cons {signed : Bool} {i : Int} {b : UInt8} {bs : Bytes}
    (h : shortest signed i = b :: bs) : toInteger signed bs ≠ i := by
  rintro rfl
  have hle := length_shortest_toInteger_le signed bs
  rw [h, List.length_cons] at hle
  omega

/-- Zero is the only number without octets. -/
theorem shortest_eq_nil_iff {signed : Bool} {i : Int} (h : signed = false → 0 ≤ i) :
    shortest signed i = [] ↔ i = 0 := by
  constructor
  · intro hnil
    have hspell := toInteger_shortest h
    rw [hnil] at hspell
    rw [← hspell]
    cases signed <;> rfl
  · rintro rfl
    rfl

/-- The shortest numeral of a natural number has no leading zero. -/
theorem head?_shortest_ne_zero {i : Int} (h : 0 ≤ i) : (shortest false i).head? ≠ some 0 := by
  intro hhead
  obtain ⟨bs, hbs⟩ := List.head?_eq_some_iff.mp hhead
  have hspell : toInteger false (shortest false i) = i := toInteger_shortest fun _ => h
  refine toInteger_ne_of_shortest_eq_cons hbs ?_
  rw [← hspell, hbs]
  change (toNat bs : Int) = toNat (0 :: bs)
  rw [toNat_cons, UInt8.toNat_zero, Nat.mul_zero, Nat.zero_add]

/-- The shortest numeral of an integer does not repeat its sign. -/
theorem not_repeatsSign_shortest (i : Int) : ¬ RepeatsSign (shortest true i) := by
  intro hrepeats
  have hspell : toInteger true (shortest true i) = i := toInteger_shortest nofun
  rcases hbs : shortest true i with _ | ⟨b, bs⟩
  · rw [hbs] at hrepeats
    exact hrepeats
  · rw [hbs] at hrepeats hspell
    exact toInteger_ne_of_shortest_eq_cons hbs
      ((toInt_cons_of_repeatsSign hrepeats).symm.trans hspell)

/-- Without its leading zeros, a byte string is the shortest numeral of what it spells. -/
theorem dropWhile_eq_shortest (bs : Bytes) : bs.dropWhile (· == 0) = shortest false bs.toNat := by
  induction bs with
  | nil => rfl
  | cons b bs ih =>
    rw [List.dropWhile_cons]
    by_cases hb : b = 0
    · subst hb
      rw [if_pos (beq_self_eq_true 0), ih, toNat_cons, UInt8.toNat_zero, Nat.mul_zero, Nat.zero_add]
    · -- The leading digit counts at least once the power that fewer octets have no room for.
      have hdigit : 0 < b.toNat := Nat.pos_of_ne_zero fun h => hb (UInt8.toNat_inj.mp h)
      have hle : 256 ^ bs.length ≤ toNat (b :: bs) := by
        rw [toNat_cons]
        exact le_add_right (Nat.le_mul_of_pos_right _ hdigit)
      have hwidth : bs.length < shortestWidth false (toNat (b :: bs)) :=
        not_le.mp fun h => not_lt.mpr hle (shortestWidth_unsigned_le_iff.mp h)
      rw [if_neg (by simpa using hb)]
      refine eq_shortest rfl (le_antisymm hwidth ?_)
      exact shortestWidth_unsigned_le_iff.mpr (toNat_lt (b :: bs))

end Bytes

/-! ### Integers of a fixed width -/

namespace IntWidth

/-- The least signed integer of a width is half the range below zero. -/
theorem two_mul_min_signed (w : IntWidth) : 2 * w.min true = -256 ^ w.bytes := by
  cases w <;> decide

theorem max_unsigned_add_one (w : IntWidth) : w.max false + 1 = 256 ^ w.bytes := by
  cases w <;> decide

theorem two_mul_max_signed_add_two (w : IntWidth) : 2 * w.max true + 2 = 256 ^ w.bytes := by
  cases w <;> decide

/-- The bounds of a width are those of the numbers that its bytes spell. -/
theorem bounds_toInteger (w : IntWidth) (signed : Bool) {bs : Bytes} (h : bs.length = w.bytes) :
    w.min signed ≤ Bytes.toInteger signed bs ∧ Bytes.toInteger signed bs ≤ w.max signed := by
  match signed with
  | true =>
    obtain ⟨hle, hlt⟩ := bs.toInt_bounds
    rw [h] at hle hlt
    have hmin := w.two_mul_min_signed
    have hmax := w.two_mul_max_signed_add_two
    change w.min true ≤ bs.toInt ∧ bs.toInt ≤ w.max true
    omega
  | false =>
    have hlt : (bs.toNat : Int) < 256 ^ w.bytes := by
      rw [← h]
      exact_mod_cast bs.toNat_lt
    have hmax := w.max_unsigned_add_one
    refine ⟨Bytes.toInteger_unsigned_nonneg bs, ?_⟩
    change (bs.toNat : Int) ≤ w.max false
    omega

/-- A number within the bounds of a width is read back from its two's complement of that width. -/
theorem toInteger_ofInt (w : IntWidth) (signed : Bool) {i : Int} (hle : w.min signed ≤ i)
    (hlt : i ≤ w.max signed) : Bytes.toInteger signed (Bytes.ofInt w.bytes i) = i := by
  match signed with
  | true =>
    have hmin := w.two_mul_min_signed
    have hmax := w.two_mul_max_signed_add_two
    exact Bytes.toInt_ofInt (by omega) (by omega)
  | false =>
    have hmax := w.max_unsigned_add_one
    have hnonneg : 0 ≤ i := hle
    have hmod : i % 256 ^ w.bytes = i := Int.emod_eq_of_lt hnonneg (by omega)
    have hfit : i.toNat < 256 ^ w.bytes := by
      zify
      omega
    have hspell : (Bytes.ofInt w.bytes i).toNat = i.toNat := by
      rw [Bytes.ofInt_eq, hmod, Bytes.toNat_ofNat, Nat.mod_eq_of_lt hfit]
    change ((Bytes.ofInt w.bytes i).toNat : Int) = i
    rw [hspell]
    exact Int.toNat_of_nonneg hnonneg

end IntWidth

end CallData
