import CallData.Text.Hex
import Mathlib.Data.List.Basic
import Mathlib.Data.List.Forall2
import Mathlib.Tactic.ByContra

/-!
# Reading hexadecimal text

A text is read as octets when it is made of hexadecimal digits of either case, even in number
(`Hex.isSome_octets?_iff`), and these octets are written as the same text in lower case
(`Hex.flatMap_digits_of_octets?`). The parity that is looked at first is that of the UTF-8 form, in
which each digit takes one octet. So a byte string is read back from its hexadecimal form
(`Hex.decode_encode`).
-/

namespace CallData

theorem utf8ByteSize_ofList_cons (c : Char) (cs : List Char) :
    (String.ofList (c :: cs)).utf8ByteSize = c.utf8Size + (String.ofList cs).utf8ByteSize := by
  rw [← List.singleton_append, String.ofList_append, String.utf8ByteSize_append,
    ← String.singleton_eq_ofList, String.utf8ByteSize_singleton]

namespace Hex

/-! ### Digits that are written -/

/-- The digits that are written are read, too. -/
theorem digit?_digitChar {n : Nat} (h : n < 16) : digit? (Nat.digitChar n) = some n := by
  decide +revert

/-- The two digits of an octet, and what they say about it. -/
theorem exists_digits_eq (b : UInt8) : ∃ m < 16, ∃ n < 16,
    digits b = [Nat.digitChar m, Nat.digitChar n] ∧ UInt8.ofNat (16 * m + n) = b := by
  have hlt := b.toNat_lt
  refine ⟨b.toNat / 16, by omega, b.toNat % 16, by omega, rfl, ?_⟩
  rw [Nat.div_add_mod, UInt8.ofNat_toNat]

/-- Every character of a hexadecimal form is a digit. -/
theorem isSome_digit? {bs : Bytes} {c : Char} (h : c ∈ bs.flatMap digits) :
    (digit? c).isSome = true := by
  obtain ⟨b, -, hc⟩ := List.mem_flatMap.mp h
  obtain ⟨m, hm, n, hn, hdigits, -⟩ := exists_digits_eq b
  rw [hdigits, List.mem_pair] at hc
  obtain rfl | rfl := hc
  · rw [digit?_digitChar hm, Option.isSome_some]
  · rw [digit?_digitChar hn, Option.isSome_some]

/-- Octets come back from their digits, two by two. -/
theorem octets?_flatMap_digits (bs : Bytes) : octets? (bs.flatMap digits) = some bs := by
  induction bs with
  | nil => rfl
  | cons b bs ih =>
    obtain ⟨m, hm, n, hn, hdigits, hb⟩ := exists_digits_eq b
    rw [List.flatMap_cons, hdigits, List.cons_append, List.cons_append, List.nil_append, octets?,
      digit?_digitChar hm, digit?_digitChar hn, ih]
    exact congrArg (fun b => some (b :: bs)) hb

/-! ### Digits of either case -/

theorem lt_128_of_le {c d : Char} (h : c ≤ d) (hd : d.toNat < 128) : c.toNat < 128 := by
  have hle : c.toNat ≤ d.toNat := UInt32.le_iff_toNat_le.mp h
  omega

theorem digit?_of_ge {c : Char} (hc : 128 ≤ c.toNat) : digit? c = none := by
  have hnot : ∀ d : Char, d.toNat < 128 → ¬ c ≤ d := fun d hd h => by
    have hlt := lt_128_of_le h hd
    omega
  rw [digit?, if_neg (mt And.right (hnot '9' (by decide))),
    if_neg (mt And.right (hnot 'f' (by decide))), if_neg (mt And.right (hnot 'F' (by decide)))]

/-- A digit is one octet in UTF-8, and it is written in lower case. -/
theorem digit?_spec {c : Char} {n : Nat} (h : digit? c = some n) :
    n < 16 ∧ Nat.digitChar n = c.toLower ∧ c.utf8Size = 1 := by
  have hall : ∀ m < 128, ∀ n ∈ digit? (Char.ofNat m), n < 16 ∧
      Nat.digitChar n = (Char.ofNat m).toLower ∧ (Char.ofNat m).utf8Size = 1 := by
    decide
  have hlt : c.toNat < 128 := by
    by_contra hge
    rw [digit?_of_ge (by omega)] at h
    exact nomatch h
  have hc := hall c.toNat hlt n
  rw [Char.ofNat_toNat] at hc
  exact hc h

/-- Either case of a letter is the same digit. -/
theorem digit?_toLower (c : Char) : digit? c.toLower = digit? c := by
  by_cases hlt : c.toNat < 128
  · have hall : ∀ m < 128, digit? (Char.ofNat m).toLower = digit? (Char.ofNat m) := by
      decide
    have hc := hall c.toNat hlt
    rwa [Char.ofNat_toNat] at hc
  · have hlower : c.toLower = c := dif_neg fun h => hlt (lt_128_of_le (d := 'Z') h.2 (by decide))
    rw [hlower]

/-! ### Texts -/

/-- A text of hexadecimal digits, even in number. -/
def IsText (cs : List Char) : Prop :=
  cs.length % 2 = 0 ∧ ∀ c ∈ cs, (digit? c).isSome = true

/-- A text stands for octets when it is one of digits. -/
theorem isSome_octets?_iff {cs : List Char} : (octets? cs).isSome = true ↔ IsText cs := by
  rw [IsText]
  induction cs using octets?.induct with
  | case1 => simp [octets?]
  | case2 c => simp [octets?]
  | case3 c d cs ih =>
    have hlen : (c :: d :: cs).length % 2 = cs.length % 2 := by
      simp only [List.length_cons]
      omega
    rw [octets?, hlen]
    cases hc : digit? c with
    | none => simp [hc]
    | some m =>
      cases hd : digit? d with
      | none => simp [hd]
      | some n =>
        cases hcs : octets? cs with
        | none => simpa [hc, hd, hcs] using ih
        | some bs => simpa [hc, hd, hcs] using ih

theorem octets?_cons_eq_some_iff {c d : Char} {cs : List Char} {bs : Bytes} :
    octets? (c :: d :: cs) = some bs ↔ ∃ m n bs', digit? c = some m ∧ digit? d = some n ∧
      octets? cs = some bs' ∧ bs = UInt8.ofNat (16 * m + n) :: bs' := by
  rw [octets?]
  simp only [Option.bind_eq_bind, Option.bind_eq_some_iff, Option.pure_def, Option.some.injEq]
  constructor
  · rintro ⟨m, hc, n, hd, bs', hcs, rfl⟩
    exact ⟨m, n, bs', hc, hd, hcs, rfl⟩
  · rintro ⟨m, n, bs', hc, hd, hcs, rfl⟩
    exact ⟨m, hc, n, hd, bs', hcs, rfl⟩

/-- An octet is written with the digits of its two halves. -/
theorem digits_ofNat {m n : Nat} (hm : m < 16) (hn : n < 16) :
    digits (UInt8.ofNat (16 * m + n)) = [Nat.digitChar m, Nat.digitChar n] := by
  have hlt : (UInt8.ofNat (16 * m + n)).toNat = 16 * m + n := UInt8.toNat_ofNat_of_lt' (by
    change _ < 256
    omega)
  have hdiv : (16 * m + n) / 16 = m := by omega
  have hmod : (16 * m + n) % 16 = n := by omega
  rw [digits, hlt, hdiv, hmod]

/-- The octets that a text stands for are written as the text in lower case. -/
theorem flatMap_digits_of_octets? {cs : List Char} {bs : Bytes} (h : octets? cs = some bs) :
    bs.flatMap digits = cs.map Char.toLower := by
  induction cs using octets?.induct generalizing bs with
  | case1 =>
    obtain ⟨⟩ := h
    rfl
  | case2 c => exact nomatch h
  | case3 c d cs ih =>
    obtain ⟨m, n, bs, hc, hd, hcs, rfl⟩ := octets?_cons_eq_some_iff.mp h
    obtain ⟨hm, hlowc, -⟩ := digit?_spec hc
    obtain ⟨hn, hlowd, -⟩ := digit?_spec hd
    rw [List.flatMap_cons, digits_ofNat hm hn, ih hcs, hlowc, hlowd]
    rfl

/-- Only what digits stand for counts, and not their case. -/
theorem octets?_eq_of_forall₂ {cs ds : List Char}
    (h : List.Forall₂ (fun c d => digit? c = digit? d) cs ds) : octets? cs = octets? ds := by
  induction cs using octets?.induct generalizing ds with
  | case1 =>
    obtain ⟨⟩ := h
    rfl
  | case2 c =>
    obtain _ | ⟨_, ⟨⟩⟩ := h
    rfl
  | case3 c d cs ih =>
    obtain _ | ⟨hc, _ | ⟨hd, h⟩⟩ := h
    rw [octets?, octets?, hc, hd, ih h]

/-- In a text of digits, each character is one octet, so the two lengths agree. -/
theorem utf8ByteSize_ofList {cs : List Char} (h : ∀ c ∈ cs, (digit? c).isSome = true) :
    (String.ofList cs).utf8ByteSize = cs.length := by
  induction cs with
  | nil => rfl
  | cons c cs ih =>
    rw [List.forall_mem_cons] at h
    obtain ⟨n, hn⟩ := Option.isSome_iff_exists.mp h.1
    rw [utf8ByteSize_ofList_cons, (digit?_spec hn).2.2, ih h.2, List.length_cons, Nat.add_comm]

/-- A text is read as the octets that its digits stand for. -/
theorem decode_eq_ok_iff {s : String} {bs : Bytes} :
    decode s = .ok bs ↔ octets? s.toList = some bs := by
  constructor
  · intro h
    rw [decode] at h
    by_cases hodd : s.utf8ByteSize % 2 = 1
    · rw [if_pos hodd] at h
      exact nomatch h
    · rw [if_neg hodd] at h
      cases hcs : octets? s.toList with
      | none =>
        rw [hcs] at h
        exact nomatch h
      | some bs' =>
        rw [hcs] at h
        obtain ⟨⟩ := h
        rfl
  · intro h
    obtain ⟨heven, hdigits⟩ := isSome_octets?_iff.mp (Option.isSome_of_eq_some h)
    have hsize := utf8ByteSize_ofList hdigits
    rw [String.ofList_toList] at hsize
    have hnot : ¬ s.utf8ByteSize % 2 = 1 := by omega
    rw [decode, if_neg hnot, h]

theorem decode_ofList_eq_ok_iff {cs : List Char} {bs : Bytes} :
    decode (String.ofList cs) = .ok bs ↔ octets? cs = some bs := by
  rw [decode_eq_ok_iff, String.toList_ofList]

/-- A byte string is read back from its hexadecimal form. -/
theorem decode_encode (bs : Bytes) : decode (encode bs) = .ok bs := by
  rw [encode, decode_ofList_eq_ok_iff, octets?_flatMap_digits]

end Hex

end CallData
