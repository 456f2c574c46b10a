import CallData.Proofs.Decimal.Rescaling

/-!
# Sums, differences and products

Decimals are added, subtracted and multiplied as the rational numbers that they stand for
(`Decimal.exact_arithmetic`). Both operands of a sum or a difference are brought to the larger of
their scales first, at which nothing of them is lost; at one scale decimals of the same value are
the same, so that the laws of rational numbers are laws of decimals.
-/

namespace CallData

namespace Decimal

variable {a b d : Decimal}

/-! ### The larger scale -/

/-- The scale of a sum or difference is the larger of the two. -/
theorem toNat_commonScale (a b : Decimal) :
    (commonScale a b).toNat = max a.scale.toNat b.scale.toNat := by
  rw [commonScale]
  by_cases h : a.scale ≤ b.scale
  · rw [if_pos h, max_eq_right (UInt32.le_iff_toNat_le.mp h)]
  · rw [if_neg h, max_eq_left (UInt32.lt_iff_toNat_lt.mp (UInt32.not_le.mp h)).le]

/-- Neither operand loses anything when both are brought to their common scale. -/
theorem val_rescale_commonScale (a b : Decimal) :
    (a.rescale (commonScale a b)).val = a.val ∧ (b.rescale (commonScale a b)).val = b.val := by
  have htoNat := toNat_commonScale a b
  constructor <;> refine val_rescale_of_le (UInt32.le_iff_toNat_le.mpr ?_) <;> omega

/-- At one scale, digits are added where values are. -/
theorem val_mk_add (m n : Nat) (s : UInt32) : val ⟨m + n, s⟩ = val ⟨m, s⟩ + val ⟨n, s⟩ := by
  rw [val, val, val, Nat.cast_add, add_div]

/-! ### Sums -/

/-- Addition is exact. -/
theorem val_add (a b : Decimal) : (a.add b).val = a.val + b.val := by
  obtain ⟨ha, hb⟩ := val_rescale_commonScale a b
  rw [← ha, ← hb, add, val_mk_add]
  congr 1 <;> rw [val, val, scale_rescale]

theorem scale_add (a b : Decimal) : (a.add b).scale = commonScale a b :=
  rfl

/-- Addition is commutative, in the value and in the scale. -/
theorem add_comm (a b : Decimal) : a.add b = b.add a := by
  refine eq_of_val_eq (UInt32.toNat_inj.mp ?_) (by rw [val_add, val_add, Rat.add_comm])
  rw [scale_add, scale_add, toNat_commonScale, toNat_commonScale, max_comm]

/-- Addition is associative: in the end the scale is the largest of the three. -/
theorem add_assoc (a b c : Decimal) : (a.add b).add c = a.add (b.add c) := by
  refine eq_of_val_eq (UInt32.toNat_inj.mp ?_) ?_
  · simp only [scale_add, toNat_commonScale, max_assoc]
  · simp only [val_add, Rat.add_assoc]

/-! ### Differences -/

/-- At the larger scale, operands are in the order of their digits. -/
theorem digits_lt_digits_iff (a b : Decimal) :
    (a.rescale (commonScale a b)).digits < (b.rescale (commonScale a b)).digits ↔
      a.val < b.val := by
  obtain ⟨ha, hb⟩ := val_rescale_commonScale a b
  rw [← not_le, ← not_le, ← ha, ← hb, val_le_val_iff (by rw [scale_rescale, scale_rescale])]

/-- A difference is refused exactly where it would be negative. -/
theorem sub?_eq_none_iff : a.sub? b = none ↔ a.val < b.val := by
  rw [← digits_lt_digits_iff, sub?]
  by_cases h : (a.rescale (commonScale a b)).digits < (b.rescale (commonScale a b)).digits
  · exact iff_of_true (if_pos h) h
  · exact iff_of_false (by simp [h]) h

theorem scale_of_sub? (h : a.sub? b = some d) : d.scale = commonScale a b := by
  rw [sub?, Option.ite_none_left_eq_some] at h
  obtain ⟨-, ⟨⟩⟩ := h
  rfl

/-- What is left is what has to be added again. -/
theorem val_of_sub? (h : a.sub? b = some d) : d.val = a.val - b.val := by
  obtain ⟨ha, hb⟩ := val_rescale_commonScale a b
  rw [sub?, Option.ite_none_left_eq_some] at h
  obtain ⟨hle, ⟨⟩⟩ := h
  have hsum := val_mk_add ((a.rescale (commonScale a b)).digits -
    (b.rescale (commonScale a b)).digits) (b.rescale (commonScale a b)).digits (commonScale a b)
  rw [Nat.sub_add_cancel (not_lt.mp hle)] at hsum
  rw [← ha, ← hb, eq_sub_iff_add_eq, val, val, val, scale_rescale, scale_rescale]
  exact hsum.symm

/-- To take away what was added gives back the decimal itself, at the scale of the sum. -/
theorem sub?_add (a b : Decimal) : (a.add b).sub? b = some (a.rescale (commonScale a b)) := by
  have hle : ¬ (a.add b).val < b.val := by
    rw [val_add, not_lt]
    exact le_add_of_nonneg_left a.val_nonneg
  obtain ⟨d, hd⟩ := Option.ne_none_iff_exists'.mp (mt sub?_eq_none_iff.mp hle)
  have hscale : d.scale = commonScale a b := by
    rw [scale_of_sub? hd, ← UInt32.toNat_inj, toNat_commonScale, scale_add, toNat_commonScale,
      max_assoc, max_self]
  rw [hd, Option.some_inj]
  refine eq_of_val_eq (by rw [hscale, scale_rescale]) ?_
  rw [val_of_sub? hd, val_add, add_sub_cancel_right, (val_rescale_commonScale a b).1]

/-! ### Products and whole parts -/

/-- A product is refused only because its scale does not fit 32 bits. -/
theorem mul?_eq_none_iff : a.mul? b = none ↔ 2 ^ 32 ≤ a.scale.toNat + b.scale.toNat := by
  rw [mul?, ← not_lt]
  by_cases h : a.scale.toNat + b.scale.toNat < UInt32.size
  · exact iff_of_false (by simp [h]) (not_not.mpr h)
  · exact iff_of_true (if_neg h) h

/-- The scales of the factors add up. -/
theorem scale_of_mul? (h : a.mul? b = some d) :
    d.scale.toNat = a.scale.toNat + b.scale.toNat := by
  rw [mul?, Option.ite_none_right_eq_some] at h
  obtain ⟨hlt, ⟨⟩⟩ := h
  rw [UInt32.toNat_add, Nat.mod_eq_of_lt hlt]

/-- Multiplication is exact where it is not refused. -/
theorem val_of_mul? (h : a.mul? b = some d) : d.val = a.val * b.val := by
  have hscale := scale_of_mul? h
  rw [mul?, Option.ite_none_right_eq_some] at h
  obtain ⟨-, ⟨⟩⟩ := h
  rw [val, hscale, Nat.cast_mul, pow_add, mul_div_mul_comm, val, val]

/-- What is left without the fraction is the floor of the value. -/
theorem trunc_eq (a : Decimal) : a.trunc = ⌊a.val⌋₊ := by
  rw [trunc, powerOfTen_eq, val, ← Nat.floor_div_eq_div (K := ℚ), Nat.cast_pow, Nat.cast_ofNat]

/-! ### Exactness -/

/-- Decimals are added, subtracted and multiplied as the numbers that they stand for, and truncated
to the whole part. Sums and differences are at the larger of the two scales, products at the sum of
both. Only a difference that would be negative does not exist, nor a product whose scale would be
too large. So addition of decimals is commutative and associative, and what was added can be taken
off again. -/
theorem exact_arithmetic (a b : Decimal) :
    (commonScale a b).toNat = max a.scale.toNat b.scale.toNat ∧
    ((a.add b).val = a.val + b.val ∧ (a.add b).scale = commonScale a b) ∧
    ((a.sub? b = none ↔ a.val < b.val) ∧
      ∀ d, a.sub? b = some d → d.val = a.val - b.val ∧ d.scale = commonScale a b) ∧
    ((a.mul? b = none ↔ 2 ^ 32 ≤ a.scale.toNat + b.scale.toNat) ∧
      ∀ d, a.mul? b = some d →
        d.val = a.val * b.val ∧ d.scale.toNat = a.scale.toNat + b.scale.toNat) ∧
    (a.trunc : ℤ) = ⌊a.val⌋ ∧
    a.add b = b.add a ∧
    (∀ c, (a.add b).add c = a.add (b.add c)) ∧
    (a.add b).sub? b = some (a.rescale (commonScale a b)) := by
  refine ⟨toNat_commonScale a b, ⟨val_add a b, scale_add a b⟩, ⟨sub?_eq_none_iff, fun d hd => ?_⟩,
    ⟨mul?_eq_none_iff, fun d hd => ?_⟩, ?_, add_comm a b, add_assoc a b, sub?_add a b⟩
  · exact ⟨val_of_sub? hd, scale_of_sub? hd⟩
  · exact ⟨val_of_mul? hd, scale_of_mul? hd⟩
  · rw [trunc_eq, Int.natCast_floor_eq_floor a.val_nonneg]

/-- One and a half, and a quarter at a scale for which no power of ten is at hand. -/
theorem exact_arithmetic_quarter :
    let a : Decimal := ⟨15, 1⟩
    let b : Decimal := ⟨25 * 10 ^ 38, 40⟩
    (sub? a b = some ⟨125 * 10 ^ 38, 40⟩ ∧ val ⟨125 * 10 ^ 38, 40⟩ = a.val - b.val) ∧
    (mul? a b = some ⟨375 * 10 ^ 38, 41⟩ ∧ val ⟨375 * 10 ^ 38, 41⟩ = a.val * b.val) ∧
    (sub? b a = none ∧ b.val < a.val) := by
  intro a b
  obtain ⟨-, -, ⟨-, hsub⟩, ⟨-, hmul⟩, -⟩ := exact_arithmetic a b
  obtain ⟨-, -, ⟨hnone, -⟩, -⟩ := exact_arithmetic b a
  have hdifference : sub? a b = some ⟨125 * 10 ^ 38, 40⟩ := by decide
  have hproduct : mul? a b = some ⟨375 * 10 ^ 38, 41⟩ := by decide
  have hnegative : sub? b a = none := by decide
  exact ⟨⟨hdifference, (hsub _ hdifference).1⟩, ⟨hproduct, (hmul _ hproduct).1⟩, hnegative,
    hnone.mp hnegative⟩

end Decimal

end CallData
