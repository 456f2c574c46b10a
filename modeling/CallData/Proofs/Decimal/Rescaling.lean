import CallData.Decimal
import Mathlib.Algebra.Order.Floor.Semifield
import Mathlib.Data.Rat.Floor

/-!
# Decimals at other scales

A decimal is a rational number (`Decimal.val`) of which the scale says in what units it is counted.
To bring it to another scale is to count the whole units of that scale in it
(`Decimal.digits_rescale`). So nothing is lost on the way to a finer scale, what is dropped on the
way to a coarser one is less than a unit, and a number that comes to a scale over others which have
room for it is the same as on the direct way (`Decimal.rescale_rescale`).
-/

namespace CallData

namespace Decimal

/-! ### Powers of ten -/

/-- It makes no difference whether a power of ten is kept at hand. -/
theorem powerOfTen_eq (scale : UInt32) : powerOfTen scale = 10 ^ scale.toNat := by
  rw [powerOfTen]
  by_cases hkept : scale.toNat < tableScale + 1
  · rw [powersOfTen, List.getElem?_map, List.getElem?_range hkept]
    rfl
  · rw [powersOfTen, List.getElem?_map, List.getElem?_eq_none (by simpa using hkept)]
    rfl

/-! ### Values -/

/-- The number that a decimal stands for. -/
def val (d : Decimal) : ℚ :=
  d.digits / 10 ^ d.scale.toNat

theorem val_nonneg (d : Decimal) : 0 ≤ d.val :=
  div_nonneg (Nat.cast_nonneg _) (pow_nonneg (by norm_num) _)

/-- The units of a decimal are counted by its digits. -/
theorem val_mul_pow (d : Decimal) : d.val * 10 ^ d.scale.toNat = d.digits :=
  div_mul_cancel₀ _ (pow_ne_zero _ (by norm_num))

/-- At one scale, decimals are in the order of their digits. -/
theorem val_le_val_iff {d e : Decimal} (h : d.scale = e.scale) :
    d.val ≤ e.val ↔ d.digits ≤ e.digits := by
  rw [val, val, h, div_le_div_iff_of_pos_right (pow_pos (by norm_num) _), Nat.cast_le]

/-- At one scale, decimals of one value are the same. -/
theorem eq_of_val_eq {d e : Decimal} (hscale : d.scale = e.scale) (h : d.val = e.val) : d = e := by
  have hle := (val_le_val_iff hscale).mp h.le
  have hge := (val_le_val_iff hscale.symm).mp h.ge
  obtain ⟨digits, scale⟩ := d
  obtain rfl : scale = e.scale := hscale
  rw [show digits = e.digits from Nat.le_antisymm hle hge]

/-! ### Other scales -/

@[simp]
theorem scale_rescale (d : Decimal) (s : UInt32) : (d.rescale s).scale = s := by
  rw [rescale]
  split <;> rfl

theorem digits_rescale_of_le {d : Decimal} {s : UInt32} (h : d.scale ≤ s) :
    (d.rescale s).digits = d.digits * 10 ^ (s.toNat - d.scale.toNat) := by
  rw [rescale, if_pos h, powerOfTen_eq, UInt32.toNat_sub_of_le _ _ h]

theorem digits_rescale_of_lt {d : Decimal} {s : UInt32} (h : s < d.scale) :
    (d.rescale s).digits = d.digits / 10 ^ (d.scale.toNat - s.toNat) := by
  rw [rescale, if_neg (UInt32.not_le.mpr h), powerOfTen_eq,
    UInt32.toNat_sub_of_le _ _ (UInt32.le_of_lt h)]

/-- A finer scale has room for the whole number. -/
theorem val_rescale_of_le {d : Decimal} {s : UInt32} (h : d.scale ≤ s) :
    (d.rescale s).val = d.val := by
  have hsplit : (10 : ℚ) ^ s.toNat = 10 ^ (s.toNat - d.scale.toNat) * 10 ^ d.scale.toNat := by
    rw [← pow_add, Nat.sub_add_cancel (UInt32.le_iff_toNat_le.mp h)]
  rw [val, scale_rescale, digits_rescale_of_le h, hsplit, val, Nat.cast_mul, Nat.cast_pow,
    Nat.cast_ofNat, mul_comm (10 ^ _), mul_div_mul_right _ _ (pow_ne_zero _ (by norm_num))]

/-- To bring a decimal to a scale is to count the whole units of the scale in it. -/
theorem digits_rescale (d : Decimal) (s : UInt32) :
    (d.rescale s).digits = ⌊d.val * 10 ^ s.toNat⌋₊ := by
  by_cases hfiner : d.scale ≤ s
  · rw [← val_rescale_of_le hfiner]
    have hunits := (d.rescale s).val_mul_pow
    rw [scale_rescale] at hunits
    rw [hunits, Nat.floor_natCast]
  · have hcoarser : s < d.scale := UInt32.not_le.mp hfiner
    have hsplit : d.scale.toNat = d.scale.toNat - s.toNat + s.toNat :=
      (Nat.sub_add_cancel (UInt32.lt_iff_toNat_lt.mp hcoarser).le).symm
    have hunits : d.val * 10 ^ s.toNat =
        (d.digits : ℚ) / ↑(10 ^ (d.scale.toNat - s.toNat) : ℕ) := by
      rw [val, hsplit, pow_add, ← div_div, div_mul_cancel₀ _ (pow_ne_zero _ (by norm_num)),
        Nat.add_sub_cancel, Nat.cast_pow, Nat.cast_ofNat]
    rw [digits_rescale_of_lt hcoarser, hunits, Nat.floor_div_eq_div]

theorem rescale_eq (d : Decimal) (s : UInt32) :
    d.rescale s = ⟨⌊d.val * 10 ^ s.toNat⌋₊, s⟩ := by
  rw [← digits_rescale]
  exact congrArg (mk (d.rescale s).digits) (scale_rescale d s)

/-- Nothing is added on the way to another scale. -/
theorem val_rescale_le (d : Decimal) (s : UInt32) : (d.rescale s).val ≤ d.val := by
  have hfloor : ((d.rescale s).digits : ℚ) ≤ d.val * 10 ^ s.toNat := by
    rw [digits_rescale]
    exact Nat.floor_le (mul_nonneg d.val_nonneg (pow_nonneg (by norm_num) _))
  rw [val, scale_rescale]
  exact div_le_of_le_mul₀ (pow_nonneg (by norm_num) _) d.val_nonneg hfloor

/-- No decimal of a scale lies between a number and what this becomes at the scale. -/
theorem val_le_val_rescale {d e : Decimal} (h : e.val ≤ d.val) :
    e.val ≤ (d.rescale e.scale).val := by
  rw [val_le_val_iff (scale_rescale d e.scale).symm, digits_rescale]
  refine Nat.le_floor ?_
  rw [← val_mul_pow]
  exact mul_le_mul_of_nonneg_right h (pow_nonneg (by norm_num) _)

theorem val_rescale_mono {d e : Decimal} (h : d.val ≤ e.val) (s : UInt32) :
    (d.rescale s).val ≤ (e.rescale s).val := by
  have hle := val_le_val_rescale ((d.val_rescale_le s).trans h)
  rwa [scale_rescale] at hle

/-- What a number becomes at a scale does not depend on how it is written. -/
theorem rescale_eq_of_val_eq {d e : Decimal} (h : d.val = e.val) (s : UInt32) :
    d.rescale s = e.rescale s :=
  eq_of_val_eq (by rw [scale_rescale, scale_rescale])
    (le_antisymm (val_rescale_mono h.le s) (val_rescale_mono h.ge s))

/-- On the way to a scale, another that has room for the number or is finer leaves no trace. -/
theorem rescale_rescale {d : Decimal} {s t : UInt32} (h : d.scale ≤ s ∨ t ≤ s) :
    (d.rescale s).rescale t = d.rescale t := by
  by_cases hroom : d.scale ≤ s
  · exact rescale_eq_of_val_eq (val_rescale_of_le hroom) t
  · have hfiner : t ≤ s := h.resolve_left hroom
    -- What counts for `t` are the numbers of its scale below `d`, which are of the scale `s` too.
    refine eq_of_val_eq (by rw [scale_rescale, scale_rescale]) (le_antisymm ?_ ?_)
    · exact val_rescale_mono (d.val_rescale_le s) t
    · have hbelow := val_rescale_mono (d.val_rescale_le t) s
      rw [val_rescale_of_le (by rwa [scale_rescale])] at hbelow
      have hle := val_le_val_rescale hbelow
      rwa [scale_rescale] at hle

end Decimal

end CallData
