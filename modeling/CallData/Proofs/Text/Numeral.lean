import CallData.Proofs.Text.Digits

/-!
# Numerals of integers

An integer is written with its digits, behind a minus sign where it is negative, and that is what it
is read from (`Text.integer?_toString`). So a numeral with something behind it that could not go on
with it can be told from any other (`Text.numeral_append_inj`).
-/

namespace CallData

namespace Text

/-! ### Writing -/

theorem toList_toString_ofNat (n : Nat) : (toString (Int.ofNat n)).toList = digits n :=
  Nat.toList_repr

/-- Below zero, the digits are those of the number without its sign. -/
theorem toList_toString_negSucc (n : Nat) :
    (toString (Int.negSucc n)).toList = '-' :: digits (n + 1) := by
  have happend : toString (Int.negSucc n) = "-" ++ toString (n + 1) := rfl
  rw [happend, String.toList_append]
  exact congrArg ('-' :: ·) Nat.toList_repr

/-- There is a digit in every numeral, also in that of zero. -/
theorem exists_digits_eq_cons (n : Nat) : ∃ c cs, digits n = c :: cs ∧ c.isDigit = true := by
  have hne : digits n ≠ [] := Nat.toDigits_ne_nil
  obtain ⟨c, cs, hcons⟩ := List.exists_cons_of_ne_nil hne
  exact ⟨c, cs, hcons, isDigits_digits n c (hcons ▸ List.mem_cons_self)⟩

/-! ### Reading -/

/-- The digits of a natural number are read as that number. -/
theorem natural?_digits (n : Nat) : natural? (digits n) = some n := by
  have hdigits := isDigits_digits n
  obtain ⟨c, cs, hcons, hc⟩ := exists_digits_eq_cons n
  rw [hcons] at hdigits
  have hcs : ∀ d ∈ cs, d.isDigit = true := (isDigits_cons_iff.mp hdigits).2
  have hall : (cs.all fun d => d.isDigit || d == '_') = true :=
    List.all_eq_true.mpr fun d hd => by rw [hcs d hd, Bool.true_or]
  rw [hcons, natural?, hc, hall, List.filter_eq_self.mpr hcs, ← hcons, digitsValue_digits]
  rfl

/-- Every integer is read from its numeral. -/
theorem integer?_toString (i : Int) : integer? (toString i).toList = some i := by
  cases i with
  | ofNat n =>
    obtain ⟨c, cs, hcons, hc⟩ := exists_digits_eq_cons n
    have hminus : c ≠ '-' := fun h => absurd (h ▸ hc) (by decide)
    have hplus : c ≠ '+' := fun h => absurd (h ▸ hc) (by decide)
    rw [toList_toString_ofNat, hcons, integer?, ← hcons, natural?_digits]
    · rfl
    · exact fun rest h => hminus (List.cons.inj h).1
    · exact fun rest h => hplus (List.cons.inj h).1
  | negSucc n =>
    rw [toList_toString_negSucc, integer?, natural?_digits]
    rfl

/-! ### With something behind -/

/-- Whether a character may stand in the numeral of an integer. -/
def isNumeral (c : Char) : Bool :=
  c.isDigit || c == '-'

/-- Nothing but digits and the minus sign stands in a numeral. -/
theorem isNumeral_of_mem {i : Int} {c : Char} (h : c ∈ (toString i).toList) :
    isNumeral c = true := by
  have hdigit : ∀ {n}, c ∈ digits n → isNumeral c = true := fun hc => by
    rw [isNumeral, isDigits_digits _ c hc, Bool.true_or]
  cases i with
  | ofNat n =>
    rw [toList_toString_ofNat] at h
    exact hdigit h
  | negSucc n =>
    rw [toList_toString_negSucc] at h
    obtain rfl | h := List.mem_cons.mp h
    · rfl
    · exact hdigit h

theorem exists_toString_eq_cons (i : Int) :
    ∃ c cs, (toString i).toList = c :: cs ∧ isNumeral c = true := by
  have hne : (toString i).toList ≠ [] := by
    cases i with
    | ofNat n =>
      rw [toList_toString_ofNat]
      exact Nat.toDigits_ne_nil
    | negSucc n =>
      rw [toList_toString_negSucc]
      exact List.cons_ne_nil _ _
  obtain ⟨c, cs, hcons⟩ := List.exists_cons_of_ne_nil hne
  exact ⟨c, cs, hcons, isNumeral_of_mem (hcons ▸ List.mem_cons_self)⟩

/-- Nothing at the front of a text could go on with a numeral. -/
def EndsNumeral (cs : List Char) : Prop :=
  ∀ c, cs.head? = some c → isNumeral c = false

theorem endsNumeral_cons {c : Char} (h : isNumeral c = false) (cs : List Char) :
    EndsNumeral (c :: cs) := by
  rintro d ⟨⟩
  exact h

/-- A numeral ends where the first character stands that could not go on with one. -/
theorem takeWhile_numeral (i : Int) {cs : List Char} (h : EndsNumeral cs) :
    ((toString i).toList ++ cs).takeWhile isNumeral = (toString i).toList := by
  rw [List.takeWhile_append_of_pos fun c hc => isNumeral_of_mem hc]
  cases cs with
  | nil => exact List.append_nil _
  | cons c cs => rw [List.takeWhile_cons_of_neg (by simp [h c rfl]), List.append_nil]

/-- A numeral that ends where it ends can be told from any other. -/
theorem numeral_append_inj {i j : Int} {cs ds : List Char} (hcs : EndsNumeral cs)
    (hds : EndsNumeral ds) (h : (toString i).toList ++ cs = (toString j).toList ++ ds) :
    i = j ∧ cs = ds := by
  have hnumeral : (toString i).toList = (toString j).toList := by
    rw [← takeWhile_numeral i hcs, h, takeWhile_numeral j hds]
  have hread := integer?_toString i
  rw [hnumeral, integer?_toString] at hread
  rw [hnumeral] at h
  exact ⟨(Option.some.inj hread).symm, List.append_cancel_left h⟩

end Text

end CallData
