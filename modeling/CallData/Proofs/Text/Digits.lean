import CallData.Text.Blank
import CallData.Text.Numeral
import Mathlib.Data.List.DropRight
import Mathlib.Tactic.Ring

/-!
# Runs of digits, and white space around them

A run of digits spells a number below the power of ten with its length (`Text.digitsValue_lt`), and
no other run of that length spells it (`Text.eq_of_digitsValue_eq`). So a number has one run without
superfluous zeros in front, which is the one it is written with: writing what a run spells takes
these zeros off (`Text.digits_digitsValue`). `Text.Trimmed` says what is left of a text without the
white space at its ends, which is what trimming leaves (`Text.trim_eq_iff`).
-/

namespace CallData

namespace Text

/-! ### White space at the ends -/

/-- What is left behind the characters of a kind at the front. -/
theorem dropWhile_eq_iff {p : Char → Bool} {cs t : List Char} : cs.dropWhile p = t ↔
    (∃ left, (∀ c ∈ left, p c = true) ∧ cs = left ++ t) ∧ ∀ c, t.head? = some c → p c = false := by
  constructor
  · rintro rfl
    refine ⟨⟨cs.takeWhile p, fun c => List.mem_takeWhile_imp, List.takeWhile_append_dropWhile.symm⟩,
      fun c hc => ?_⟩
    have hnot := List.head?_dropWhile_not p cs
    rw [hc] at hnot
    exact hnot
  · rintro ⟨⟨left, hleft, rfl⟩, ht⟩
    rw [List.dropWhile_append_of_pos hleft]
    cases t with
    | nil => rfl
    | cons c t => exact List.dropWhile_cons_of_neg (by simp [ht c rfl])

/-- A text is another without the white space at both ends. -/
structure Trimmed (cs t : List Char) : Prop where
  between : ∃ left right, (∀ c ∈ left, isBlank c = true) ∧ (∀ c ∈ right, isBlank c = true) ∧
    cs = left ++ t ++ right
  head : ∀ c, t.head? = some c → isBlank c = false
  last : ∀ c, t.getLast? = some c → isBlank c = false

/-- Trimming at the front and then, in reverse, at the end leaves what is between. -/
theorem trim_eq_iff {cs t : List Char} : trim cs = t ↔ Trimmed cs t := by
  rw [trim, List.reverse_eq_iff, dropWhile_eq_iff, List.head?_reverse]
  constructor
  · rintro ⟨⟨right, hright, hmid⟩, hlast⟩
    rw [List.reverse_eq_iff, List.reverse_append, List.reverse_reverse, dropWhile_eq_iff] at hmid
    obtain ⟨⟨left, hleft, rfl⟩, hhead⟩ := hmid
    refine ⟨⟨left, right.reverse, hleft, by simpa using hright, (List.append_assoc _ _ _).symm⟩,
      fun c hc => hhead c ?_, hlast⟩
    rw [List.head?_append, hc, Option.some_or]
  · rintro ⟨⟨left, right, hleft, hright, rfl⟩, hhead, hlast⟩
    refine ⟨?_, hlast⟩
    rw [List.append_assoc, List.dropWhile_append_of_pos hleft]
    cases t with
    | nil => exact ⟨[], List.forall_mem_nil _, by simpa using hright⟩
    | cons c t =>
      refine ⟨right.reverse, by simpa using hright, ?_⟩
      rw [List.cons_append, List.dropWhile_cons_of_neg (by simp [hhead c rfl]), ← List.cons_append,
        List.reverse_append]

theorem trimmed_trim (cs : List Char) : Trimmed cs (trim cs) :=
  trim_eq_iff.mp rfl

/-! ### Runs of digits -/

/-- Whether all characters are digits. -/
def IsDigits (cs : List Char) : Prop :=
  ∀ c ∈ cs, c.isDigit = true

theorem isDigits_append_iff {cs ds : List Char} :
    IsDigits (cs ++ ds) ↔ IsDigits cs ∧ IsDigits ds :=
  List.forall_mem_append

theorem isDigits_cons_iff {c : Char} {cs : List Char} :
    IsDigits (c :: cs) ↔ c.isDigit = true ∧ IsDigits cs :=
  List.forall_mem_cons

theorem isDigits_replicate_zero (n : Nat) : IsDigits (List.replicate n '0') := by
  intro c hc
  rw [List.eq_of_mem_replicate hc]
  rfl

theorem isDigits_digits (n : Nat) : IsDigits (digits n) :=
  fun _ => Nat.isDigit_of_mem_toDigits (by decide) (by decide)

/-- No digit is white space, so trimming stops in front of a number. -/
theorem isBlank_of_isDigit {c : Char} (h : c.isDigit = true) : isBlank c = false := by
  have hbounds := Char.isDigit_iff_toNat.mp h
  simp only [Char.reduceToNat] at hbounds
  simp [isBlank, blankRanges]
  omega

/-- The digits that a number is written with spell that number. -/
@[simp]
theorem digitsValue_digits (n : Nat) : digitsValue (digits n) = n :=
  Nat.ofDigitChars_ten_toDigits

/-- A run in front of another counts by the power of ten with the length of that. -/
theorem digitsValue_append (cs ds : List Char) :
    digitsValue (cs ++ ds) = 10 ^ ds.length * digitsValue cs + digitsValue ds := by
  rw [digitsValue, Nat.ofDigitChars_append, Nat.ofDigitChars_eq_ofDigitChars_zero]
  rfl

/-- A digit in front of a run counts by the power of ten with the length of that. -/
theorem digitsValue_cons (c : Char) (cs : List Char) :
    digitsValue (c :: cs) = 10 ^ cs.length * (c.toNat - 48) + digitsValue cs := by
  rw [← List.singleton_append, digitsValue_append]
  simp [digitsValue, Nat.ofDigitChars_cons]

/-- A run spells a number below the power of ten with its length. -/
theorem digitsValue_lt {cs : List Char} (h : IsDigits cs) : digitsValue cs < 10 ^ cs.length := by
  induction cs with
  | nil => decide
  | cons c cs ih =>
    obtain ⟨hc, hcs⟩ := isDigits_cons_iff.mp h
    have hdigit : c.toNat - 48 ≤ 9 := Nat.sub_le_of_le_add (Char.isDigit_iff_toNat.mp hc).2
    calc digitsValue (c :: cs) = 10 ^ cs.length * (c.toNat - 48) + digitsValue cs :=
          digitsValue_cons c cs
      _ < 10 ^ cs.length * 9 + 10 ^ cs.length :=
          Nat.add_lt_add_of_le_of_lt (Nat.mul_le_mul_left _ hdigit) (ih hcs)
      _ = 10 ^ (c :: cs).length := by rw [List.length_cons]; ring

/-- Runs of one length that spell the same number are the same. -/
theorem eq_of_digitsValue_eq {cs ds : List Char} (hcs : IsDigits cs) (hds : IsDigits ds)
    (hlen : cs.length = ds.length) (h : digitsValue cs = digitsValue ds) : cs = ds := by
  induction cs generalizing ds with
  | nil => exact (List.length_eq_zero_iff.mp hlen.symm).symm
  | cons c cs ih =>
    obtain ⟨d, ds, rfl⟩ := List.exists_cons_of_length_eq_add_one hlen.symm
    obtain ⟨hc, hcs⟩ := isDigits_cons_iff.mp hcs
    obtain ⟨hd, hds⟩ := isDigits_cons_iff.mp hds
    have htail : cs.length = ds.length := Nat.succ_inj.mp hlen
    rw [digitsValue_cons, digitsValue_cons, htail] at h
    -- The tails spell less than the power of ten that the first digit counts.
    have hcs_lt : digitsValue cs < 10 ^ ds.length := htail ▸ digitsValue_lt hcs
    have hds_lt : digitsValue ds < 10 ^ ds.length := digitsValue_lt hds
    have hdiv := congrArg (· / 10 ^ ds.length) h
    simp only [Nat.mul_add_div (Nat.pow_pos (by decide : 0 < 10)), Nat.div_eq_of_lt hcs_lt,
      Nat.div_eq_of_lt hds_lt, Nat.add_zero] at hdiv
    have hcd : c.toNat = d.toNat := by
      have hc48 : 48 ≤ c.toNat := (Char.isDigit_iff_toNat.mp hc).1
      have hd48 : 48 ≤ d.toNat := (Char.isDigit_iff_toNat.mp hd).1
      omega
    rw [hdiv] at h
    rw [Char.toNat_inj.mp hcd, ih hcs hds htail (Nat.add_left_cancel h)]

/-! ### Superfluous zeros -/

/-- A run without superfluous zeros in front; one digit is left at least. -/
def unpadded : List Char → List Char
  | [] => ['0']
  | c :: cs => if c = '0' then unpadded cs else c :: cs

@[simp]
theorem unpadded_zero_cons (cs : List Char) : unpadded ('0' :: cs) = unpadded cs :=
  if_pos rfl

theorem unpadded_cons_of_ne {c : Char} (h : c ≠ '0') (cs : List Char) :
    unpadded (c :: cs) = c :: cs :=
  if_neg h

/-- Of zeros alone, one is left. -/
theorem unpadded_ne_nil (cs : List Char) : unpadded cs ≠ [] := by
  induction cs with
  | nil => simp [unpadded]
  | cons c cs ih =>
    rw [unpadded]
    split
    · exact ih
    · exact List.cons_ne_nil c cs

/-- Behind zeros only, the zeros in front of a run are as superfluous as the others. -/
theorem unpadded_append_of_zeros {cs : List Char} (h : ∀ c ∈ cs, c = '0') (ds : List Char) :
    unpadded (cs ++ ds) = unpadded ds := by
  induction cs with
  | nil => rfl
  | cons c cs ih =>
    obtain ⟨rfl, hcs⟩ := List.forall_mem_cons.mp h
    rw [List.cons_append, unpadded_zero_cons, ih hcs]

/-- No digit behind one that is not zero is superfluous. -/
theorem unpadded_append_of_not_zeros {cs : List Char} (h : ¬ ∀ c ∈ cs, c = '0') (ds : List Char) :
    unpadded (cs ++ ds) = unpadded cs ++ ds := by
  induction cs with
  | nil => exact absurd (List.forall_mem_nil _) h
  | cons c cs ih =>
    rw [List.cons_append]
    by_cases hc : c = '0'
    · subst hc
      rw [unpadded_zero_cons, unpadded_zero_cons]
      exact ih fun hcs => h (List.forall_mem_cons.mpr ⟨rfl, hcs⟩)
    · rw [unpadded_cons_of_ne hc, unpadded_cons_of_ne hc, List.cons_append]

/-- A run is what is left of it, with zeros in front. -/
theorem exists_eq_replicate_append_unpadded {cs : List Char} (h : cs ≠ []) :
    ∃ n, cs = List.replicate n '0' ++ unpadded cs := by
  induction cs with
  | nil => exact absurd rfl h
  | cons c cs ih =>
    by_cases hc : c = '0'
    · subst hc
      rw [unpadded_zero_cons]
      by_cases hcs : cs = []
      · exact ⟨0, by rw [hcs]; rfl⟩
      · obtain ⟨n, hn⟩ := ih hcs
        exact ⟨n + 1, congrArg ('0' :: ·) hn⟩
    · exact ⟨0, (unpadded_cons_of_ne hc cs).symm⟩

/-- What a run spells is written without its superfluous zeros. -/
theorem digits_digitsValue {cs : List Char} (h : IsDigits cs) :
    digits (digitsValue cs) = unpadded cs := by
  induction cs with
  | nil => rfl
  | cons c cs ih =>
    by_cases hc : c = '0'
    · subst hc
      rw [unpadded_zero_cons, ← ih (isDigits_cons_iff.mp h).2, digitsValue_cons]
      simp
    · rw [unpadded_cons_of_ne hc]
      -- The first digit counts at least once the power that fewer digits have no room for.
      have hdigit : 1 ≤ c.toNat - 48 := by
        have hne : c.toNat ≠ 48 := fun h48 => hc (Char.toNat_inj.mp h48)
        have hle : 48 ≤ c.toNat := (Char.isDigit_iff_toNat.mp (isDigits_cons_iff.mp h).1).1
        omega
      have hge : 10 ^ cs.length ≤ digitsValue (c :: cs) := by
        rw [digitsValue_cons]
        exact Nat.le_add_right_of_le (Nat.le_mul_of_pos_right _ hdigit)
      have hshort : (digits (digitsValue (c :: cs))).length ≤ cs.length + 1 :=
        (Nat.length_toDigits_le_iff (by decide) (Nat.succ_pos _)).mpr (digitsValue_lt h)
      have hlong : cs.length < (digits (digitsValue (c :: cs))).length := by
        have hlt := digitsValue_lt (isDigits_digits (digitsValue (c :: cs)))
        rw [digitsValue_digits] at hlt
        exact (Nat.pow_lt_pow_iff_right (by decide)).mp (hge.trans_lt hlt)
      exact eq_of_digitsValue_eq (isDigits_digits _) h (Nat.le_antisymm hshort hlong)
        (digitsValue_digits _)

theorem isDigits_unpadded {cs : List Char} (h : IsDigits cs) : IsDigits (unpadded cs) :=
  digits_digitsValue h ▸ isDigits_digits _

/-- Zeros in front count for nothing. -/
theorem digitsValue_unpadded {cs : List Char} (h : IsDigits cs) :
    digitsValue (unpadded cs) = digitsValue cs := by
  rw [← digits_digitsValue h, digitsValue_digits]

end Text

end CallData
