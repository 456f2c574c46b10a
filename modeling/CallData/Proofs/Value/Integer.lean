import CallData.Proofs.Value.Filling
import Mathlib.Data.Nat.Size

/-!
# Integers as they are written and read

At top level an integer is written as the one shortest byte string that spells it, whether it is
held in a width or not (`Value.top_integers`). Of the integers of a fixed width, each takes in a
number exactly when this is within its bounds (`FixedInt.assign_spec`), from wherever the number
comes; so whatever is done to one, and whether it succeeds or not, it stays within the bounds
(`FixedInt.foldl_after`), and the word of 128 bits always has room for it.
-/

namespace CallData

/-! ### Shortest encodings -/

namespace Bytes

/-- The shortest of the byte strings that spell a number, which is the only one of its length. -/
structure IsShortest (signed : Bool) (i : Int) (bs : Bytes) : Prop where
  spells : toInteger signed bs = i
  length_le (as : Bytes) (h : toInteger signed as = i) : bs.length ≤ as.length
  eq_of_length_eq (as : Bytes) (h : toInteger signed as = i) (hlen : as.length = bs.length) :
    as = bs

theorem isShortest_shortest {signed : Bool} {i : Int} (h : signed = false → 0 ≤ i) :
    IsShortest signed i (shortest signed i) where
  spells := toInteger_shortest h
  length_le as has := by
    rw [← has]
    exact length_shortest_toInteger_le signed as
  eq_of_length_eq as has hlen := eq_shortest has (hlen.trans (length_shortest signed i))

/-- The magnitude of a negative number is that of its complement. -/
theorem magnitudeBits_eq_size (i : Int) :
    magnitudeBits i = Nat.size (i + if i < 0 then 1 else 0).natAbs := by
  have hsize (n : Nat) : bitLength n = Nat.size n :=
    eq_of_forall_ge_iff fun k => by rw [bitLength_le_iff, Nat.size_le]
  match i with
  | .ofNat n =>
    have hnonneg : ¬ Int.ofNat n < 0 := not_lt.mpr (Int.natCast_nonneg n)
    rw [magnitudeBits, hsize, if_neg hnonneg, Int.add_zero]
    rfl
  | .negSucc n =>
    have hcomplement : (Int.negSucc n + 1).natAbs = n := by omega
    rw [magnitudeBits, hsize, if_pos (Int.negSucc_lt_zero n), hcomplement]

/-- The magnitude and one bit for the sign are rounded up to whole octets. -/
theorem length_shortest_signed {i : Int} (h : i ≠ 0) : (shortest true i).length =
    (Nat.size (i + if i < 0 then 1 else 0).natAbs + 1 + 7) / 8 := by
  rw [length_shortest, shortestWidth, if_neg h, if_pos rfl, magnitudeBits_eq_size]

end Bytes

/-- A number within the bounds of a width takes up no more at top level. -/
theorem IntWidth.length_shortest_le {width : IntWidth} {signed : Bool} {i : Int}
    (hmin : width.min signed ≤ i) (hmax : i ≤ width.max signed) :
    (Bytes.shortest signed i).length ≤ width.bytes := by
  have hle := Bytes.length_shortest_toInteger_le signed (Bytes.ofInt width.bytes i)
  rwa [width.toInteger_ofInt signed hmin hmax, Bytes.length_ofInt] at hle

/-- At top level, integers of either kind are written as the one shortest byte string that spells
the number: no bytes for zero, and none at the front that could be spared. What a signed integer
takes up is its magnitude and one bit for the sign, rounded up to whole octets. -/
theorem Value.top_integers {signed : Bool} {n : Int} (h : signed = false → 0 ≤ n) :
    BigInteger.ofInt signed n = .ok ⟨signed, n⟩ ∧
    Bytes.IsShortest signed n (big ⟨signed, n⟩).top ∧
    ((big ⟨signed, n⟩).top = [] ↔ n = 0) ∧
    (signed = false → (big ⟨signed, n⟩).top.head? ≠ some 0) ∧
    (signed = true → ¬ Bytes.RepeatsSign (big ⟨signed, n⟩).top) ∧
    ∀ width : IntWidth, width.min signed ≤ n → n ≤ width.max signed →
      FixedInt.ofInt width signed n = .ok ⟨width, signed, n⟩ ∧
      (int ⟨width, signed, n⟩).top = (big ⟨signed, n⟩).top ∧
      (int ⟨width, signed, n⟩).top.length ≤ width.bytes ∧
      (signed = true → n ≠ 0 → (int ⟨width, signed, n⟩).top.length =
        (Nat.size (n + if n < 0 then 1 else 0).natAbs + 1 + 7) / 8) := by
  rw [top_big]
  refine ⟨BigInteger.ofInt_eq_ok_iff.mpr ⟨h, rfl⟩, Bytes.isShortest_shortest h,
    Bytes.shortest_eq_nil_iff h, ?_, ?_, fun width hmin hmax => ?_⟩
  · rintro rfl
    exact Bytes.head?_shortest_ne_zero (h rfl)
  · rintro rfl
    exact Bytes.not_repeatsSign_shortest n
  · rw [top_int ⟨hmin, hmax⟩]
    refine ⟨FixedInt.ofInt_eq_ok_iff.mpr ⟨⟨hmin, hmax⟩, rfl⟩, rfl,
      IntWidth.length_shortest_le hmin hmax, ?_⟩
    rintro rfl hne
    exact Bytes.length_shortest_signed hne

/-- The least number for which one octet is enough. -/
theorem Value.top_integers_octet : (int ⟨.w16, true, -128⟩).top = [0x80] ∧
    (big ⟨true, -128⟩).top = [0x80] ∧ Bytes.IsShortest true (-128) [0x80] ∧
    (int ⟨.w16, true, -128⟩).top.length = (Nat.size 127 + 1 + 7) / 8 := by
  obtain ⟨-, hshortest, -, -, -, hint⟩ := @Value.top_integers true (-128) nofun
  obtain ⟨-, htop, -, hlength⟩ := hint .w16 (by decide) (by decide)
  exact ⟨rfl, rfl, hshortest, hlength rfl (by decide)⟩

/-! ### Integers of a fixed width -/

namespace FixedInt

/-- A number takes the place of the one held, or the integer stays as it is. -/
theorem assign_spec (x : FixedInt) (i : Int) :
    (InBounds { x with value := i } ∧ assign i x = .ok () { x with value := i }) ∨
      ∃ e, assign i x = .error e x := by
  by_cases h : InBounds { x with value := i }
  · exact .inl ⟨h, assign_of_bounds h.1 h.2⟩
  · obtain ⟨fault, hfault⟩ := exists_assign_eq_error (x := x) (i := i) h
    exact .inr ⟨_, hfault⟩

/-- As many octets as the width has are read as the number that they spell. -/
theorem assignNested_of_length (x : FixedInt) {bs : Bytes} (h : bs.length = x.width.bytes)
    (o : Nat) (rest : Bytes) : assignNested ⟨o, bs ++ rest⟩ x =
      .ok ⟨o + bs.length, rest⟩ { x with value := Bytes.toInteger x.signed bs } := by
  have hread := (ByteReader.take_reads h).map fun bs =>
    FixedInt.mk x.width x.signed (shiftIn x.signed bs)
  have hread : readNested x.width x.signed ⟨o, bs ++ rest⟩ = _ := hread o rest
  rw [assignNested, hread, shiftIn_eq x.signed h]

/-- What may be done to an integer that is held. -/
inductive Call where
  | set (i : Int)
  | readTop (bs : Bytes)
  | readNested (c : Cursor)
  | fill (n : NativeValue)

/-- The step on the integer that a call takes. -/
def Call.step : Call → Update Unit
  | set i => assign i
  | readTop bs => assignTop bs
  | readNested c => do let _ ← assignNested c
  | fill n => assignNative n

/-- A call puts a number within the bounds in place of the one held, or it fails and the integer
stays as it is. -/
theorem Call.step_spec (call : Call) (x : FixedInt) :
    (∃ i, InBounds { x with value := i } ∧ call.step x = .ok () { x with value := i }) ∨
      ∃ e, call.step x = .error e x := by
  cases call with
  | set i => exact (x.assign_spec i).imp_left fun h => ⟨i, h⟩
  | readTop bs => exact (x.assign_spec (Bytes.toInteger x.signed bs)).imp_left fun h => ⟨_, h⟩
  | fill n =>
    rcases hn : n.toInt with e | i
    · exact .inr ⟨e, assignNative_eq_of_error hn x⟩
    · rw [Call.step, assignNative_eq_of_ok hn]
      exact (x.assign_spec i).imp_left fun h => ⟨i, h⟩
  | readNested c =>
    rcases hread : FixedInt.readNested x.width x.signed c with ⟨y, c'⟩ | ⟨e, c'⟩
    · have hassign : assignNested c x = .ok c' y := by rw [assignNested, hread]
      have .int hmin hmax := readNested_yields x.width x.signed c y c' hread
      exact .inl ⟨_, ⟨hmin, hmax⟩, bind_of_ok hassign⟩
    · have hassign : assignNested c x = .error e x := by rw [assignNested, hread]
      exact .inr ⟨e, bind_of_error hassign⟩

/-- The integer that a call leaves behind, whether it fails or not. -/
def after (x : FixedInt) (call : Call) : FixedInt :=
  match call.step x with
  | .ok _ y => y
  | .error _ y => y

theorem after_spec {x : FixedInt} (h : x.InBounds) (call : Call) :
    ∃ i, InBounds { x with value := i } ∧ x.after call = { x with value := i } := by
  rcases call.step_spec x with ⟨i, hbounds, hstep⟩ | ⟨e, hstep⟩
  · exact ⟨i, hbounds, by rw [after, hstep]⟩
  · exact ⟨x.value, h, by rw [after, hstep]⟩

/-- Whatever is done to an integer, the number that it holds in the end is within its bounds. -/
theorem foldl_after {x : FixedInt} (h : x.InBounds) (calls : List Call) :
    ∃ i, InBounds { x with value := i } ∧ calls.foldl after x = { x with value := i } := by
  induction calls generalizing x with
  | nil => exact ⟨x.value, h, rfl⟩
  | cons call calls ih =>
    obtain ⟨i, hbounds, hafter⟩ := after_spec h call
    rw [List.foldl_cons, hafter]
    exact ih hbounds

/-- An integer of a fixed width takes in what a byte string of any length spells, if this is within
its bounds, and else stays as it is. As many octets as its width has are always taken in, nested and
at top level alike, and are what it is written to again. Whatever is done to an integer that was
made, it stays within its bounds; and a number that passes the check of these has room in the
word. -/
theorem reads_within_bounds (x : FixedInt) :
    (∀ bs i, Bytes.toInteger x.signed bs = i →
      (x.width.min x.signed ≤ i ∧ i ≤ x.width.max x.signed →
        assignTop bs x = .ok () { x with value := i }) ∧
      (¬ (x.width.min x.signed ≤ i ∧ i ≤ x.width.max x.signed) →
        ∃ fault, assignTop bs x = .error (.of (.outOfRange fault)) x)) ∧
    (∀ bs : Bytes, bs.length = x.width.bytes → ∃ y, assignTop bs x = .ok () y ∧
      (∀ o rest, assignNested ⟨o, bs ++ rest⟩ x = .ok ⟨o + bs.length, rest⟩ y) ∧
      (Value.int y).nested = bs) ∧
    ∀ (i : Int) (calls : List Call) (y : FixedInt), ofInt x.width x.signed i = .ok x →
      calls.foldl after x = y →
      y.width = x.width ∧ y.signed = x.signed ∧ y.InBounds ∧
        ∀ j, checkBounds j (y.width.min y.signed) (some (y.width.max y.signed)) = .ok () →
          word? j = some j := by
  refine ⟨?_, fun bs hlen => ?_, ?_⟩
  · rintro bs i rfl
    exact ⟨fun h => assign_of_bounds h.1 h.2, exists_assign_eq_error⟩
  · -- As many octets as the width has cannot spell a number out of bounds.
    obtain ⟨hmin, hmax⟩ := x.width.bounds_toInteger x.signed hlen
    refine ⟨_, assign_of_bounds hmin hmax, x.assignNested_of_length hlen, ?_⟩
    rw [Value.nested_int]
    exact Bytes.ofInt_toInteger x.signed hlen
  · rintro i calls y hx rfl
    obtain ⟨k, hbounds, hrun⟩ := foldl_after (ofInt_inBounds hx) calls
    rw [hrun]
    refine ⟨rfl, rfl, hbounds, fun j hcheck => ?_⟩
    obtain ⟨hmin, hmax⟩ := checkBounds_eq_ok_iff.mp hcheck
    exact word?_of_bounds hmin hmax

theorem reads_within_bounds_octet :
    assignTop [0, 0, 127] ⟨.w8, true, 5⟩ = .ok () ⟨.w8, true, 127⟩ ∧
    (∃ fault, assignTop [0, 128] ⟨.w8, true, 5⟩ =
      .error (.of (.outOfRange fault)) ⟨.w8, true, 5⟩) ∧
    (∃ y, assignTop [0x80] ⟨.w8, true, 5⟩ = .ok () y ∧ (Value.int y).nested = [0x80]) ∧
    ofInt .w8 true 5 = .ok ⟨.w8, true, 5⟩ ∧
    [Call.set 300, .readTop [0x80], .readNested (.start []), .fill .null].foldl after
      ⟨.w8, true, 5⟩ = ⟨.w8, true, -128⟩ ∧
    InBounds ⟨.w8, true, -128⟩ := by
  obtain ⟨htop, hfull, hrun⟩ := reads_within_bounds ⟨.w8, true, 5⟩
  obtain ⟨y, hread, -, hnested⟩ := hfull [0x80] rfl
  obtain ⟨-, -, hbounds, -⟩ :=
    hrun 5 [.set 300, .readTop [0x80], .readNested (.start []), .fill .null] _ rfl rfl
  exact ⟨(htop [0, 0, 127] 127 rfl).1 (by decide), (htop [0, 128] 128 rfl).2 (by decide),
    ⟨y, hread, hnested⟩, rfl, rfl, hbounds⟩

end FixedInt

end CallData
