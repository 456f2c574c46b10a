import CallData.Proofs.Numeral
import CallData.Proofs.Outcome

/-!
# Integers of a fixed width

An integer of a fixed width lives in a word of 128 bits, which has room for all that the bounds of
a width allow. A number is taken in exactly when it is within these bounds, and else nothing changes
(`FixedInt.assign_of_bounds`, `FixedInt.exists_assign_eq_error`). What the word is filled with octet
by octet is the number that the octets spell (`FixedInt.shiftIn_eq`), and what it is cut down to is
the numeral of a width (`FixedInt.drop_word`) or the shortest one (`FixedInt.topBytes_eq_shortest`).
-/

namespace CallData

/-! ### Room in the word -/

namespace IntWidth

theorem bytes_le (w : IntWidth) : w.bytes ≤ 8 := by
  cases w <;> decide

/-- The bounds of every width leave room in a word of 128 bits. -/
theorem word_bounds (w : IntWidth) (signed : Bool) :
    -2 ^ 127 ≤ w.min signed ∧ w.max signed < 2 ^ 127 := by
  cases w <;> cases signed <;> decide

end IntWidth

namespace FixedInt

/-- The number held is within the bounds of the width. -/
def InBounds (x : FixedInt) : Prop :=
  x.width.min x.signed ≤ x.value ∧ x.value ≤ x.width.max x.signed

theorem word?_eq_some_iff {i j : Int} :
    word? i = some j ↔ (-2 ^ 127 ≤ i ∧ i < 2 ^ 127) ∧ i = j := by
  have hpow : Int.pow 2 127 = 2 ^ 127 := rfl
  rw [word?, hpow, Option.ite_none_right_eq_some, Option.some.injEq]

/-- An integer within the bounds of any width fits the word of 128 bits. -/
theorem word?_of_bounds {w : IntWidth} {signed : Bool} {i : Int} (hmin : w.min signed ≤ i)
    (hmax : i ≤ w.max signed) : word? i = some i := by
  obtain ⟨hle, hlt⟩ := w.word_bounds signed
  exact word?_eq_some_iff.mpr ⟨⟨hle.trans hmin, hmax.trans_lt hlt⟩, rfl⟩

/-! ### In place -/

/-- A step on a copy answers the copy where the step succeeds. -/
theorem updated_eq_ok_iff {x y : FixedInt} {step : Update Unit} :
    x.updated step = .ok y ↔ step x = .ok () y := by
  unfold updated
  cases h : step x <;> simp

/-- A number within the bounds takes the place of the one held. -/
theorem assign_of_bounds {x : FixedInt} {i : Int} (hmin : x.width.min x.signed ≤ i)
    (hmax : i ≤ x.width.max x.signed) : assign i x = .ok () { x with value := i } := by
  have hcheck := checkBounds_eq_ok_iff.mpr ⟨hmin, hmax⟩
  refine bind_eq_ok.mpr ⟨x, x, rfl, bind_eq_ok.mpr ⟨(), x, lift_eq_ok.mpr ⟨hcheck, rfl⟩, ?_⟩⟩
  rw [word?_of_bounds hmin hmax]
  rfl

/-- Any other number is out of range, and the one held stays. -/
theorem exists_assign_eq_error {x : FixedInt} {i : Int}
    (h : ¬ (x.width.min x.signed ≤ i ∧ i ≤ x.width.max x.signed)) :
    ∃ fault, assign i x = .error (.of (.outOfRange fault)) x := by
  obtain ⟨fault, hcheck⟩ := exists_checkBounds_eq_fail h
  refine ⟨fault, ?_⟩
  have hlift : lift (checkBounds i (x.width.min x.signed) (some (x.width.max x.signed))) x =
      .error (.of (.outOfRange fault)) x := by
    rw [hcheck]
    rfl
  exact (bind_of_ok (x := get) rfl).trans (bind_of_error hlift)

/-- An integer of fixed width is made of any integer within the bounds. -/
theorem ofInt_eq_ok_iff {width : IntWidth} {signed : Bool} {i : Int} {x : FixedInt} :
    ofInt width signed i = .ok x ↔
      (width.min signed ≤ i ∧ i ≤ width.max signed) ∧ x = ⟨width, signed, i⟩ := by
  rw [ofInt, updated_eq_ok_iff]
  by_cases h : width.min signed ≤ i ∧ i ≤ width.max signed
  · rw [assign_of_bounds (x := zero width signed) h.1 h.2]
    simp [h, zero, eq_comm]
  · obtain ⟨fault, hfault⟩ := exists_assign_eq_error (x := zero width signed) h
    rw [hfault]
    exact iff_of_false nofun fun hx => h hx.1

/-- An integer that is made is within its bounds. -/
theorem ofInt_inBounds {width : IntWidth} {signed : Bool} {i : Int} {x : FixedInt}
    (h : ofInt width signed i = .ok x) : x.InBounds := by
  obtain ⟨hbounds, rfl⟩ := ofInt_eq_ok_iff.mp h
  exact hbounds

/-- Any numeral is read at top level, of whatever length, if its number is within the bounds. -/
theorem ofTop_eq_ok_iff {width : IntWidth} {signed : Bool} {bs : Bytes} {x : FixedInt} :
    ofTop width signed bs = .ok x ↔
      (width.min signed ≤ Bytes.toInteger signed bs ∧
        Bytes.toInteger signed bs ≤ width.max signed) ∧
      x = ⟨width, signed, Bytes.toInteger signed bs⟩ := by
  have hofInt : ofTop width signed bs = ofInt width signed (Bytes.toInteger signed bs) := rfl
  rw [hofInt, ofInt_eq_ok_iff]

/-- What is not read is out of range. -/
theorem exists_of_ofTop_eq_error {width : IntWidth} {signed : Bool} {bs : Bytes} {e : CodecError}
    (h : ofTop width signed bs = .error e) : ∃ fault, e = .of (.outOfRange fault) := by
  have hupdated : ofTop width signed bs =
      (zero width signed).updated (assign (Bytes.toInteger signed bs)) := rfl
  rw [hupdated, updated] at h
  by_cases hbounds : width.min signed ≤ Bytes.toInteger signed bs ∧
      Bytes.toInteger signed bs ≤ width.max signed
  · rw [assign_of_bounds (x := zero width signed) hbounds.1 hbounds.2] at h
    cases h
  · obtain ⟨fault, hfault⟩ := exists_assign_eq_error (x := zero width signed) hbounds
    rw [hfault] at h
    cases h
    exact ⟨fault, rfl⟩

/-! ### Octets shifted in -/

/-- To shift an octet into a word is to put a digit behind the number. -/
theorem shift_or_eq (i : Int) (b : UInt8) :
    (BitVec.ofInt 128 i) <<< 8 ||| b.toBitVec.setWidth 128 =
      BitVec.ofInt 128 (256 * i + b.toNat) := by
  have hdigit : b.toBitVec.setWidth 128 = BitVec.ofInt 128 b.toNat := by
    rw [BitVec.ofInt_natCast]
    exact (BitVec.ofNat_toNat 128 b.toBitVec).symm
  have hshift : (BitVec.ofInt 128 i) <<< 8 = BitVec.ofInt 128 (256 * i) := by
    rw [BitVec.shiftLeft_eq_mul_twoPow, BitVec.ofInt_mul, BitVec.mul_comm]
    rfl
  have hdisjoint : (BitVec.ofInt 128 i) <<< 8 &&& b.toBitVec.setWidth 128 = 0#128 := by
    apply BitVec.eq_of_getLsbD_eq
    intro k hk
    by_cases hlow : k < 8
    · simp [hlow]
    · simp [BitVec.getLsbD_of_ge b.toBitVec k (not_lt.mp hlow)]
  rw [← BitVec.add_eq_or_of_and_eq_zero _ _ hdisjoint, hshift, hdigit, BitVec.ofInt_add]

/-- Shifting in octets one after the other comes to the number that they spell, behind what was in
the word before. -/
theorem foldl_shift_or (bs : Bytes) (i : Int) :
    bs.foldl (fun (acc : BitVec 128) b => acc <<< 8 ||| b.toBitVec.setWidth 128)
      (BitVec.ofInt 128 i) = BitVec.ofInt 128 (256 ^ bs.length * i + bs.toNat) := by
  induction bs generalizing i with
  | nil => simp [Bytes.toNat]
  | cons b bs ih =>
    rw [List.foldl_cons, shift_or_eq, ih, Bytes.toNat_cons, List.length_cons, pow_succ]
    congr 1
    push_cast
    ring

/-- A word with octets to spare is filled with the number that the octets spell. -/
theorem shiftIn_eq_of_le (signed : Bool) {bs : Bytes} (h : bs.length ≤ 15) :
    shiftIn signed bs = Bytes.toInteger signed bs := by
  -- The sign that the word starts with ends up where it counts as the power of the width.
  have hsign : (if signed && bs.headD 0 &&& 0x80 != 0 then .allOnes 128 else 0 : BitVec 128) =
      BitVec.ofInt 128 (if signed && decide (256 ^ bs.length ≤ 2 * bs.toNat) then -1 else 0) := by
    rw [Bytes.headD_and_eq]
    split <;> rfl
  have hspell : 256 ^ bs.length *
      (if signed && decide (256 ^ bs.length ≤ 2 * bs.toNat) then -1 else 0) + (bs.toNat : Int) =
        Bytes.toInteger signed bs := by
    match signed with
    | false => simp [Bytes.toInteger]
    | true =>
      change _ = bs.toInt
      rw [Bytes.toInt_eq, Bool.true_and]
      by_cases hlead : 256 ^ bs.length ≤ 2 * bs.toNat
      · rw [decide_eq_true hlead, if_pos rfl, if_pos hlead]
        ring
      · rw [decide_eq_false hlead, if_neg Bool.false_ne_true, if_neg hlead]
        ring
  have hroom : (256 : Int) ^ bs.length ≤ 256 ^ 15 := pow_le_pow_right₀ (by norm_num) h
  have hlt : (bs.toNat : Int) < 256 ^ bs.length := by exact_mod_cast bs.toNat_lt
  have hbounds : -256 ^ 15 ≤ Bytes.toInteger signed bs ∧ Bytes.toInteger signed bs < 256 ^ 15 := by
    match signed with
    | false => exact ⟨by linarith [Bytes.toInteger_unsigned_nonneg bs], hlt.trans_le hroom⟩
    | true =>
      obtain ⟨hle', hlt'⟩ := bs.toInt_bounds
      change -256 ^ 15 ≤ bs.toInt ∧ bs.toInt < 256 ^ 15
      constructor <;> linarith
  rw [shiftIn, hsign, foldl_shift_or, hspell, BitVec.toInt_ofInt_eq_self (by decide)]
  · exact le_trans (by norm_num) hbounds.1
  · exact hbounds.2.trans (by norm_num)

/-- The octets of any width leave some to spare. -/
theorem shiftIn_eq {width : IntWidth} (signed : Bool) {bs : Bytes} (h : bs.length = width.bytes) :
    shiftIn signed bs = Bytes.toInteger signed bs :=
  shiftIn_eq_of_le signed (h.trans_le (width.bytes_le.trans (by decide)))

/-! ### Words cut short -/

/-- The last octets of the word are the numeral of that width in two's complement. -/
theorem drop_word {x : FixedInt} {w : Nat} (h : w ≤ 16) :
    x.word.drop (16 - w) = Bytes.ofInt w x.value :=
  Bytes.drop_ofInt h x.value

/-- A word is cut down to the shortest numeral of the number that it holds. -/
theorem topBytes_eq_shortest {x : FixedInt} (hmin : -2 ^ 127 ≤ x.value) (hmax : x.value < 2 ^ 127)
    (hsign : x.signed = false → 0 ≤ x.value) :
    x.topBytes = Bytes.shortest x.signed x.value := by
  obtain ⟨width, signed, i⟩ := x
  rw [topBytes]
  by_cases hzero : i = 0
  · subst hzero
    rw [if_pos rfl]
    rfl
  rw [if_neg hzero]
  match signed with
  | true =>
    have hlen : signedLength i = Bytes.shortestWidth true i := by
      rw [signedLength, Bytes.shortestWidth, if_neg hzero, if_pos rfl]
    have hwidth : Bytes.shortestWidth true i ≤ 16 := by
      refine Bytes.shortestWidth_signed_le_iff.mpr ⟨?_, ?_⟩ <;> dsimp only at hmin hmax <;> omega
    rw [if_pos rfl, hlen, drop_word hwidth]
    rfl
  | false =>
    have hnonneg : 0 ≤ i := hsign rfl
    have hspell : ((Bytes.ofInt 16 i).toNat : Int) = i := by
      rw [Bytes.toNat_ofInt, Int.emod_eq_of_lt hnonneg]
      exact lt_trans hmax (by norm_num)
    rw [if_neg Bool.false_ne_true, word, Bytes.dropWhile_eq_shortest, hspell]

/-- What is taken off in front of the word leaves the shortest numeral. -/
theorem InBounds.topBytes_eq {x : FixedInt} (h : x.InBounds) :
    x.topBytes = Bytes.shortest x.signed x.value := by
  obtain ⟨hle, hlt⟩ := x.width.word_bounds x.signed
  refine topBytes_eq_shortest (hle.trans h.1) (h.2.trans_lt hlt) fun hsign => ?_
  have hmin := h.1
  rwa [hsign] at hmin

end FixedInt

end CallData
