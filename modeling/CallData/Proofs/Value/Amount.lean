import CallData.Proofs.Decimal.Rescaling
import CallData.Proofs.Text.Decimal
import CallData.Value.Native

/-!
# Amounts at a fixed scale

An amount whose type fixes the scale holds the whole units of the scale in a number
(`Amount.floorAt`), whatever the number comes from: a decimal of any scale, the text of one, or an
integer. What stands behind its last digit is dropped once, and no other scale on the way to it
makes a difference (`Amount.truncates_once`).
-/

namespace CallData

/-! ### Whole numbers -/

namespace Decimal

theorem val_mk_zero (n : Nat) : val ⟨n, 0⟩ = n := by
  rw [val, UInt32.toNat_zero, pow_zero, div_one]

/-- A whole number has its value at any scale. -/
theorem val_ofNat (n : Nat) (s : UInt32) : (ofNat n s).val = n := by
  rw [val, ofNat, powerOfTen_eq, Nat.cast_mul, Nat.cast_pow, Nat.cast_ofNat,
    mul_div_cancel_right₀ _ (pow_ne_zero _ (by norm_num))]

/-- A natural number is written as the decimal without digits behind the point. -/
theorem parse_toString (n : Nat) : parse (toString (n : ℤ)) = .ok ⟨n, 0⟩ :=
  parse_text ⟨n, 0⟩

/-- A sign is no part of a decimal. -/
theorem exists_parse_toString_eq_error (n : Nat) :
    ∃ e, parse (toString (Int.negSucc n)) = .error e := by
  rcases hread : parse (toString (Int.negSucc n)) with e | d
  · exact ⟨e, rfl⟩
  exfalso
  obtain ⟨whole, fraction, hspells, -⟩ := parse_eq_ok_iff.mp hread
  have hsign : '-' ∈ (toString (Int.negSucc n)).toList := by
    have happend : toString (Int.negSucc n) = "-" ++ toString (n + 1) := rfl
    rw [happend, String.toList_append]
    exact List.mem_append_left _ (List.mem_singleton_self _)
  -- Trimming takes off white space only, so the sign is among what is spelled.
  obtain ⟨left, right, hleft, hright, hbetween⟩ :=
    (Text.trimmed_trim (toString (Int.negSucc n)).toList).between
  rw [hbetween, List.append_assoc, List.mem_append, List.mem_append] at hsign
  rcases hsign with hblank | hspelled | hblank
  · exact absurd (hleft _ hblank) (by decide)
  · rcases hspells.isDigit_or_eq hspelled with hdigit | hpoint
    · exact absurd hdigit (by decide)
    · exact absurd hpoint (by decide)
  · exact absurd (hright _ hblank) (by decide)

end Decimal

/-! ### Amounts -/

namespace Amount

/-- The whole units of a scale in a number, as an amount at this scale. -/
def floorAt (x : ℚ) (s : UInt32) : Amount :=
  .fixed ⟨⌊x * 10 ^ s.toNat⌋₊, s⟩

/-- To bring a decimal to a scale is to take the largest amount at that scale which does not exceed
it. -/
theorem ofDecimal_eq (s : UInt32) (d : Decimal) : ofDecimal (some s) d = floorAt d.val s :=
  congrArg fixed (d.rescale_eq s)

section Filling

variable {held d : Decimal}

/-- A native decimal is brought to the scale of the amount that it fills in. -/
theorem fill_decimal (held d : Decimal) : (Value.decimal (.fixed held)).fill (.decimal d) =
    .ok (.decimal (floorAt d.val held.scale)) :=
  congrArg (fun a => Except.ok (Value.decimal a)) (ofDecimal_eq held.scale d)

/-- The text of a decimal fills in what the decimal does. -/
theorem fill_str {s : String} (h : Decimal.parse s = .ok d) :
    (Value.decimal (.fixed held)).fill (.str s) = (Value.decimal (.fixed held)).fill (.decimal d) :=
  except_bind_of_ok h

/-- An integer fills in what the decimal at scale zero does. -/
theorem fill_int (held : Decimal) (n : Nat) : (Value.decimal (.fixed held)).fill (.int n) =
    (Value.decimal (.fixed held)).fill (.decimal ⟨n, 0⟩) := by
  have hcheck : checkBounds n 0 none = .ok () :=
    checkBounds_none_eq_ok_iff.mpr (Int.natCast_nonneg n)
  have hval : (Decimal.ofNat n held.scale).val = (Decimal.mk n 0).val := by
    rw [Decimal.val_ofNat, Decimal.val_mk_zero]
  refine (except_bind_of_ok hcheck).trans ?_
  exact congrArg (fun d => Except.ok (Value.decimal (.fixed d)))
    (Decimal.rescale_eq_of_val_eq hval held.scale)

/-- There are no negative amounts. -/
theorem fill_int_of_neg (held : Decimal) {i : ℤ} (h : i < 0) :
    ∃ e, (Value.decimal (.fixed held)).fill (.int i) = .error e := by
  have hcheck : checkBounds i 0 none = fail (.outOfRange (.underflow 0 i)) := if_pos h
  exact ⟨_, except_bind_eq_error.mpr (.inl hcheck)⟩

end Filling

/-- To bring a decimal to a scale is to truncate it there, once: it becomes the largest decimal of
the scale that does not exceed it, in the order of the numbers, and comes to the same on the way
over any scale that is not coarser than both ends. So an amount at a fixed scale that is made of a
decimal, set to one or filled in from it or its text holds the whole units of its scale in the
number. A natural number, its text and the decimal without digits behind the point that it is fill
in the same; of a negative number, neither it nor its text fills in anything. -/
theorem truncates_once :
    (∀ (d : Decimal) (s : UInt32), (d.rescale s).scale = s ∧ (d.rescale s).val ≤ d.val ∧
      ∀ e : Decimal, e.scale = s → e.val ≤ d.val → e.val ≤ (d.rescale s).val) ∧
    (∀ (d : Decimal) (s t : UInt32), min d.scale.toNat t.toNat ≤ s.toNat →
      (d.rescale s).rescale t = d.rescale t) ∧
    (∀ (d e : Decimal) (s : UInt32), d.val ≤ e.val → (d.rescale s).val ≤ (e.rescale s).val) ∧
    (∀ held d : Decimal,
      ofDecimal (some held.scale) d = floorAt d.val held.scale ∧
      (fixed held).set d = floorAt d.val held.scale ∧
      (Value.decimal (.fixed held)).fill (.decimal d) =
        .ok (.decimal (floorAt d.val held.scale)) ∧
      Decimal.parse d.text = .ok d ∧
      ∀ s, Decimal.parse s = .ok d → (Value.decimal (.fixed held)).fill (.str s) =
        .ok (.decimal (floorAt d.val held.scale))) ∧
    ∀ (held : Decimal) (i : ℤ),
      (0 ≤ i →
        (Value.decimal (.fixed held)).fill (.int i) = .ok (.decimal (floorAt i held.scale)) ∧
        (Value.decimal (.fixed held)).fill (.str (toString i)) =
          .ok (.decimal (floorAt i held.scale)) ∧
        (Value.decimal (.fixed held)).fill (.decimal ⟨i.toNat, 0⟩) =
          .ok (.decimal (floorAt i held.scale))) ∧
      (i < 0 → (∃ e, (Value.decimal (.fixed held)).fill (.int i) = .error e) ∧
        ∃ e, (Value.decimal (.fixed held)).fill (.str (toString i)) = .error e) := by
  refine ⟨fun d s => ⟨d.scale_rescale s, d.val_rescale_le s, ?_⟩, fun d s t h => ?_,
    fun d e s h => Decimal.val_rescale_mono h s, fun held d => ?_, fun held i => ⟨fun h => ?_, ?_⟩⟩
  · rintro e rfl
    exact Decimal.val_le_val_rescale
  · refine Decimal.rescale_rescale ?_
    rw [UInt32.le_iff_toNat_le, UInt32.le_iff_toNat_le]
    omega
  · exact ⟨ofDecimal_eq held.scale d, ofDecimal_eq held.scale d, fill_decimal held d,
      Decimal.parse_text d, fun s hs => (fill_str hs).trans (fill_decimal held d)⟩
  · -- All three forms fill in as the decimal of that number at scale zero.
    obtain ⟨n, rfl⟩ := Int.eq_ofNat_of_zero_le h
    have hfill := fill_decimal held ⟨n, 0⟩
    rw [Decimal.val_mk_zero] at hfill
    exact ⟨(fill_int held n).trans hfill, (fill_str (Decimal.parse_toString n)).trans hfill, hfill⟩
  · intro h
    obtain ⟨n, rfl⟩ := Int.eq_negSucc_of_lt_zero h
    obtain ⟨e, he⟩ := Decimal.exists_parse_toString_eq_error n
    exact ⟨fill_int_of_neg held h, e, except_bind_eq_error.mpr (.inl he)⟩

/-- A price with three digits behind the point, where there is room for two, and then for one. -/
theorem truncates_once_price :
    let d : Decimal := ⟨1999, 3⟩
    let amount : Value := .decimal (.fixed ⟨0, 2⟩)
    (Decimal.val ⟨199, 2⟩ ≤ d.val ∧ Decimal.val ⟨199, 2⟩ ≤ (d.rescale 2).val) ∧
    (d.rescale 2).rescale 1 = d.rescale 1 ∧
    (d.rescale 2).val ≤ (Decimal.rescale ⟨2, 0⟩ 2).val ∧
    (Decimal.parse "1.999" = .ok d ∧
      amount.fill (.str "1.999") = .ok (.decimal (floorAt d.val 2)) ∧
      floorAt d.val 2 = .fixed ⟨199, 2⟩) ∧
    (amount.fill (.int 7) = .ok (.decimal (floorAt 7 2)) ∧
      ∃ e, amount.fill (.int (-7)) = .error e) := by
  intro d amount
  obtain ⟨hlargest, hway, hmono, hheld, hint⟩ := truncates_once
  have hbelow : Decimal.val ⟨199, 2⟩ ≤ d.val := by
    change (199 : ℚ) / 10 ^ 2 ≤ 1999 / 10 ^ 3
    norm_num
  have habove : d.val ≤ Decimal.val ⟨2, 0⟩ := by
    change (1999 : ℚ) / 10 ^ 3 ≤ 2 / 10 ^ 0
    norm_num
  have hread : Decimal.parse "1.999" = .ok d := by decide
  obtain ⟨hmade, -, -, -, htext⟩ := hheld ⟨0, 2⟩ d
  exact ⟨⟨hbelow, (hlargest d 2).2.2 _ rfl hbelow⟩, hway d 2 1 (by decide), hmono _ _ 2 habove,
    ⟨hread, htext _ hread, hmade.symm.trans (by decide)⟩,
    ((hint ⟨0, 2⟩ 7).1 (by decide)).1, ((hint ⟨0, 2⟩ (-7)).2 (by decide)).1⟩

end Amount

end CallData
