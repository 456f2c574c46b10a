import CallData.Decimal
import CallData.Proofs.Outcome
import CallData.Proofs.Text.Digits

/-!
# The text of a decimal

Which texts are read as decimals, as which, and how these are written (`Decimal.text_grammar`). A
decimal is written with the digits in front of the point and those behind it; as many stand behind
it as the scale says, and either side may be without digits, though not both. What is read keeps all
of them: it is written the same again, but for superfluous zeros in front, and without the point
where nothing stands behind it. So every decimal is read back from its own text.
-/

namespace CallData

namespace Decimal

/-! ### Digits on both sides of the point -/

/-- The point with the digits behind it, if there are any. -/
def pointed (fraction : List Char) : List Char :=
  if fraction = [] then [] else '.' :: fraction

/-- Characters write the digits in front of a point and those behind it. The point may be left out
where nothing stands behind it, and there is a digit on one side of it at least. -/
structure Spells (whole fraction cs : List Char) : Prop where
  whole_digits : Text.IsDigits whole
  fraction_digits : Text.IsDigits fraction
  some_digit : whole ++ fraction ≠ []
  written : cs = whole ++ '.' :: fraction ∨ fraction = [] ∧ cs = whole

/-- A decimal has these digits in front of its point and behind it. -/
structure HasDigits (d : Decimal) (whole fraction : List Char) : Prop where
  whole_digits : Text.IsDigits whole
  fraction_digits : Text.IsDigits fraction
  length_fraction : fraction.length = d.scale.toNat
  value : Text.digitsValue (whole ++ fraction) = d.digits

variable {d : Decimal} {whole fraction cs : List Char}

theorem HasDigits.unpadded (h : d.HasDigits whole fraction) :
    d.HasDigits (Text.unpadded whole) fraction where
  whole_digits := Text.isDigits_unpadded h.whole_digits
  fraction_digits := h.fraction_digits
  length_fraction := h.length_fraction
  value := by
    rw [Text.digitsValue_append, Text.digitsValue_unpadded h.whole_digits,
      ← Text.digitsValue_append, h.value]

/-- Any decimal has digits in front of its point and behind it. -/
theorem exists_hasDigits (d : Decimal) : ∃ whole fraction, d.HasDigits whole fraction := by
  -- As many zeros in front as the whole scale takes.
  let ds := List.replicate d.scale.toNat '0' ++ Text.digits d.digits
  have hlen : d.scale.toNat ≤ ds.length := by
    simp [ds]
  have hvalue : Text.digitsValue ds = d.digits := by
    rw [Text.digitsValue_append, Text.digitsValue_digits, Text.digitsValue,
      Nat.ofDigitChars_replicate_zero, Nat.mul_zero, Nat.mul_zero, Nat.zero_add]
  have hds : Text.IsDigits ds :=
    Text.isDigits_append_iff.mpr ⟨Text.isDigits_replicate_zero _, Text.isDigits_digits _⟩
  rw [← List.take_append_drop (ds.length - d.scale.toNat) ds] at hds hvalue
  rw [Text.isDigits_append_iff] at hds
  refine ⟨_, _, hds.1, hds.2, ?_, hvalue⟩
  rw [List.length_drop]
  omega

/-! ### Writing -/

/-- A decimal is written with its digits, but for superfluous zeros in front. -/
theorem HasDigits.chars_eq (h : d.HasDigits whole fraction) :
    d.chars = Text.unpadded whole ++ pointed fraction := by
  have hdigits : Text.digits d.digits = Text.unpadded (whole ++ fraction) := by
    rw [← h.value]
    exact Text.digits_digitsValue (Text.isDigits_append_iff.mpr ⟨h.whole_digits, h.fraction_digits⟩)
  rw [chars, hdigits, ← h.length_fraction]
  by_cases hfraction : fraction = []
  · subst hfraction
    simp [pointed]
  rw [if_neg (mt List.length_eq_zero_iff.mp hfraction), pointed, if_neg hfraction]
  by_cases hzeros : ∀ c ∈ whole, c = '0'
  · -- The digits do not reach past the point.
    obtain ⟨n, hn⟩ := Text.exists_eq_replicate_append_unpadded hfraction
    have hlen : fraction.length = n + (Text.unpadded fraction).length := by
      simpa using congrArg List.length hn
    have hwhole : Text.unpadded whole = ['0'] := by
      rw [← List.append_nil whole, Text.unpadded_append_of_zeros hzeros, Text.unpadded]
    rw [Text.unpadded_append_of_zeros hzeros, hwhole, if_neg (by omega), hlen, Nat.add_sub_cancel,
      List.cons_append, List.cons_append, ← hn]
    rfl
  · have hpos : 0 < (Text.unpadded whole).length :=
      List.length_pos_iff.mpr (Text.unpadded_ne_nil whole)
    rw [Text.unpadded_append_of_not_zeros hzeros, List.length_append, if_pos (by omega),
      Nat.add_sub_cancel, List.take_left, List.drop_left]

/-- What a decimal is written as spells its digits. -/
theorem HasDigits.spells_chars (h : d.HasDigits whole fraction) :
    Spells (Text.unpadded whole) fraction d.chars where
  whole_digits := Text.isDigits_unpadded h.whole_digits
  fraction_digits := h.fraction_digits
  some_digit := List.append_ne_nil_of_left_ne_nil (Text.unpadded_ne_nil whole) fraction
  written := by
    rw [h.chars_eq, pointed]
    by_cases hfraction : fraction = []
    · exact .inr ⟨hfraction, by rw [if_pos hfraction, List.append_nil]⟩
    · exact .inl (by rw [if_neg hfraction])

/-! ### Reading -/

theorem ne_point_of_isDigit {c : Char} (h : c.isDigit = true) : (c != '.') = true := by
  rw [bne_iff_ne]
  rintro rfl
  exact absurd h (by decide)

/-- There is one way to part a text at its point. -/
theorem Spells.parts_eq (h : Spells whole fraction cs) :
    cs.takeWhile (· != '.') = whole ∧ (cs.dropWhile (· != '.')).drop 1 = fraction := by
  have hwhole : ∀ c ∈ whole, (c != '.') = true :=
    fun c hc => ne_point_of_isDigit (h.whole_digits c hc)
  obtain rfl | ⟨rfl, rfl⟩ := h.written
  · rw [List.takeWhile_append_of_pos hwhole, List.dropWhile_append_of_pos hwhole]
    simp
  · rw [List.takeWhile_eq_self_iff.mpr hwhole, List.dropWhile_eq_nil_iff.mpr hwhole]
    exact ⟨rfl, rfl⟩

/-- A text is what stands in front of its first point and behind it. -/
theorem parts_written (cs : List Char) :
    cs = cs.takeWhile (· != '.') ++ '.' :: (cs.dropWhile (· != '.')).drop 1 ∨
      (cs.dropWhile (· != '.')).drop 1 = [] ∧ cs = cs.takeWhile (· != '.') := by
  have hsplit : cs.takeWhile (· != '.') ++ cs.dropWhile (· != '.') = cs :=
    List.takeWhile_append_dropWhile
  rcases hrest : cs.dropWhile (· != '.') with _ | ⟨c, rest⟩
  · rw [hrest, List.append_nil] at hsplit
    exact .inr ⟨rfl, hsplit.symm⟩
  · have hc : (c != '.') = false := (Text.dropWhile_eq_iff.mp hrest).2 c rfl
    rw [bne_eq_false_iff_eq] at hc
    rw [hrest, hc] at hsplit
    exact .inl hsplit.symm

/-- Characters are read as the decimal whose digits they spell. -/
theorem ofChars?_eq_some_iff : ofChars? cs = some d ↔
    ∃ whole fraction, Spells whole fraction cs ∧ d.HasDigits whole fraction := by
  constructor
  · intro h
    have hwritten := parts_written cs
    rw [ofChars?] at h
    generalize cs.takeWhile (· != '.') = whole at h hwritten
    generalize (cs.dropWhile (· != '.')).drop 1 = fraction at h hwritten
    simp only [Option.ite_none_left_eq_some, Option.ite_none_right_eq_some, Option.some.injEq,
      Bool.and_eq_true, List.isEmpty_iff, List.all_eq_true] at h
    obtain ⟨hsome, ⟨hwhole, hfraction⟩, hlt, rfl⟩ := h
    exact ⟨whole, fraction, ⟨hwhole, hfraction, mt List.append_eq_nil_iff.mp hsome, hwritten⟩,
      hwhole, hfraction, (UInt32.toNat_ofNat_of_lt' hlt).symm, rfl⟩
  · rintro ⟨whole, fraction, hspells, h⟩
    obtain ⟨hwhole, hfraction⟩ := hspells.parts_eq
    have hlt : fraction.length < UInt32.size := h.length_fraction ▸ d.scale.toNat_lt
    have hsome : ¬ (whole = [] ∧ fraction = []) := mt List.append_eq_nil_iff.mpr hspells.some_digit
    rw [ofChars?, hwhole, hfraction]
    simp only [Option.ite_none_left_eq_some, Option.ite_none_right_eq_some, Option.some.injEq,
      Bool.and_eq_true, List.isEmpty_iff, List.all_eq_true]
    refine ⟨hsome, ⟨h.whole_digits, h.fraction_digits⟩, hlt, ?_⟩
    rw [h.value, h.length_fraction, UInt32.ofNat_toNat]

theorem parse_eq_ok_iff {s : String} : parse s = .ok d ↔
    ∃ whole fraction, Spells whole fraction (Text.trim s.toList) ∧ d.HasDigits whole fraction := by
  rw [← ofChars?_eq_some_iff, parse]
  cases ofChars? (Text.trim s.toList) with
  | none => simp [fail]
  | some d' => simp

theorem Spells.isDigit_or_eq (h : Spells whole fraction cs) {c : Char} (hc : c ∈ cs) :
    c.isDigit = true ∨ c = '.' := by
  obtain rfl | ⟨rfl, rfl⟩ := h.written
  · rw [List.mem_append, List.mem_cons] at hc
    rcases hc with hc | rfl | hc
    · exact .inl (h.whole_digits c hc)
    · exact .inr rfl
    · exact .inl (h.fraction_digits c hc)
  · exact .inl (h.whole_digits c hc)

/-- White space is no part of what is spelled. -/
theorem Spells.isBlank_eq (h : Spells whole fraction cs) {c : Char} (hc : c ∈ cs) :
    Text.isBlank c = false := by
  rcases h.isDigit_or_eq hc with hdigit | rfl
  · exact Text.isBlank_of_isDigit hdigit
  · decide

theorem Spells.trimmed (h : Spells whole fraction cs) : Text.Trimmed cs cs where
  between := ⟨[], [], List.forall_mem_nil _, List.forall_mem_nil _, by simp⟩
  head _ hc := h.isBlank_eq (List.mem_of_head? hc)
  last _ hc := h.isBlank_eq (List.mem_of_getLast? hc)

/-- Every decimal is read back from its text. -/
theorem parse_text (d : Decimal) : parse d.text = .ok d := by
  obtain ⟨whole, fraction, h⟩ := d.exists_hasDigits
  rw [parse_eq_ok_iff, text, String.toList_ofList, Text.trim_eq_iff.mpr h.spells_chars.trimmed]
  exact ⟨_, _, h.spells_chars, h.unpadded⟩

/-- A text that spells digits is read as the decimal that has them. -/
theorem Spells.hasDigits {s : String} (hspells : Spells whole fraction (Text.trim s.toList))
    (h : parse s = .ok d) : d.HasDigits whole fraction := by
  obtain ⟨whole', fraction', hspells', hdigits⟩ := parse_eq_ok_iff.mp h
  obtain ⟨hwhole, hfraction⟩ := hspells.parts_eq
  obtain ⟨hwhole', hfraction'⟩ := hspells'.parts_eq
  rwa [← hwhole, ← hfraction, hwhole', hfraction']

/-- Decimals and their texts. Every decimal has a text that it is read back from, with as many
digits behind the point as its scale says. The other way, a text is read, past the white space
around it, exactly when it is made of digits with at most one point among them, and has one digit at
least and no more behind the point than a scale can count. All of these are the digits of the
decimal, those behind the point are counted by its scale, and it is written with the same digits
again, but for superfluous zeros in front. -/
theorem text_grammar :
    (∀ d : Decimal, parse d.text = .ok d ∧ ∃ whole fraction, Text.IsDigits whole ∧ whole ≠ [] ∧
      Text.IsDigits fraction ∧ fraction.length = d.scale.toNat ∧
        d.text = String.ofList (whole ++ pointed fraction)) ∧
    ∀ s : String, ∃ t, Text.Trimmed s.toList t ∧
      ((∃ d, parse s = .ok d) ↔ ∃ whole fraction, Spells whole fraction t ∧
        fraction.length < 2 ^ 32) ∧
      ∀ d whole fraction, parse s = .ok d → Spells whole fraction t →
        d.scale.toNat = fraction.length ∧ d.digits = Text.digitsValue (whole ++ fraction) ∧
          d.text = String.ofList (Text.unpadded whole ++ pointed fraction) := by
  refine ⟨fun d => ⟨parse_text d, ?_⟩, fun s => ⟨_, Text.trimmed_trim s.toList, ?_, ?_⟩⟩
  · obtain ⟨whole, fraction, h⟩ := d.exists_hasDigits
    exact ⟨_, fraction, Text.isDigits_unpadded h.whole_digits, Text.unpadded_ne_nil whole,
      h.fraction_digits, h.length_fraction, congrArg String.ofList h.chars_eq⟩
  · constructor
    · rintro ⟨d, hd⟩
      obtain ⟨whole, fraction, hspells, h⟩ := parse_eq_ok_iff.mp hd
      exact ⟨whole, fraction, hspells, h.length_fraction ▸ d.scale.toNat_lt⟩
    · rintro ⟨whole, fraction, hspells, hlt⟩
      refine ⟨⟨Text.digitsValue (whole ++ fraction), UInt32.ofNat fraction.length⟩, ?_⟩
      exact parse_eq_ok_iff.mpr ⟨whole, fraction, hspells, hspells.whole_digits,
        hspells.fraction_digits, (UInt32.toNat_ofNat_of_lt' hlt).symm, rfl⟩
  · intro d whole fraction hd hspells
    have h := hspells.hasDigits hd
    exact ⟨h.length_fraction.symm, h.value.symm, congrArg String.ofList h.chars_eq⟩

/-- A text with white space around it and superfluous zeros on both sides: those behind the point
are kept. -/
theorem text_grammar_padded : parse "\t007.250 " = .ok ⟨7250, 3⟩ ∧
    Spells ['0', '0', '7'] ['2', '5', '0'] "007.250".toList ∧
    (3 : UInt32).toNat = ['2', '5', '0'].length ∧
    7250 = Text.digitsValue (['0', '0', '7'] ++ ['2', '5', '0']) ∧
    text ⟨7250, 3⟩ = String.ofList (Text.unpadded ['0', '0', '7'] ++ pointed ['2', '5', '0']) := by
  have hread : parse "\t007.250 " = .ok ⟨7250, 3⟩ := by decide
  have hspells : Spells ['0', '0', '7'] ['2', '5', '0'] "007.250".toList :=
    ⟨by simp [Text.IsDigits], by simp [Text.IsDigits], by decide, .inl (by decide)⟩
  obtain ⟨t, ht, -, hresult⟩ := text_grammar.2 "\t007.250 "
  obtain rfl : "007.250".toList = t :=
    (show Text.trim "\t007.250 ".toList = "007.250".toList by decide).symm.trans
      (Text.trim_eq_iff.mpr ht)
  exact ⟨hread, hspells, hresult _ _ _ hread hspells⟩

/-- Without a whole part a zero is written for it, and without digits behind it no point. -/
example : (parse ".5").map text = .ok "0.5" ∧ (parse "5.").map text = .ok "5" ∧
    parse "." = fail (.typeMismatch "decimal string" "malformed string") := by
  decide

end Decimal

end CallData
