import CallData.Proofs.Text.Hex
import CallData.Text.Utf8

/-!
# The hexadecimal form is exact

Byte strings and their hexadecimal forms determine each other, but for the case of letters, and a
text that is no hexadecimal form is refused for its length in UTF-8, where that is odd, or else for
some character (`Hex.exact_conversion`). Two octets of a text that stand side by side may belong to
one character or to two, so to read a text by its characters is not at once to read it by its
octets, two at a time. It comes to the same (`Hex.decode_eq_decodeOctets`): a character that takes
more than one octet is no digit, and its last octet is not the number of one.
-/

namespace CallData

/-! ### Octets of characters -/

namespace Utf8

/-- The octets of a text are those of its characters, one behind the other. -/
theorem encode_eq_flatMap (s : String) : encode s = s.toList.flatMap String.utf8EncodeChar := by
  rw [encode, ← String.ofList_toList (s := s), String.toUTF8_eq_toByteArray,
    String.toByteArray_ofList, List.utf8Encode, List.toList_data_toByteArray, String.toList_ofList]

/-- A character below 128 is its own octet. -/
theorem utf8EncodeChar_of_lt {c : Char} (h : c.toNat < 128) :
    String.utf8EncodeChar c = [UInt8.ofNat c.toNat] :=
  if_pos (Nat.le_of_lt_succ h)

/-- The last octet of any other character is none of these. -/
theorem exists_octet_ge {c : Char} (h : 128 ≤ c.toNat) :
    ∃ b ∈ String.utf8EncodeChar c, 128 ≤ b.toNat := by
  have hmem : UInt8.ofNat (c.toNat % 64 + 128) ∈ String.utf8EncodeChar c := by
    have hnot : ¬ c.val.toNat ≤ 0x7f := Nat.not_le_of_lt h
    rw [String.utf8EncodeChar, if_neg hnot]
    -- Two octets, three or four: the last is the same.
    by_cases htwo : c.val.toNat ≤ 0x7ff
    · rw [if_pos htwo]
      exact .tail _ (.head _)
    · rw [if_neg htwo]
      by_cases hthree : c.val.toNat ≤ 0xffff
      · rw [if_pos hthree]
        exact .tail _ (.tail _ (.head _))
      · rw [if_neg hthree]
        exact .tail _ (.tail _ (.tail _ (.head _)))
  have hlt : c.toNat % 64 + 128 < UInt8.size := by
    change _ < 256
    omega
  refine ⟨_, hmem, ?_⟩
  rw [UInt8.toNat_ofNat_of_lt' hlt]
  exact Nat.le_add_left 128 _

/-- The characters whose numbers are the octets of a text. -/
def octetChars (s : String) : List Char :=
  (encode s).map fun b => Char.ofNat b.toNat

/-- A text of characters below 128 is its octets. -/
theorem octetChars_of_lt {s : String} (h : ∀ c ∈ s.toList, c.toNat < 128) :
    octetChars s = s.toList := by
  rw [octetChars, encode_eq_flatMap]
  generalize s.toList = cs at h
  induction cs with
  | nil => rfl
  | cons c cs ih =>
    rw [List.forall_mem_cons] at h
    have hc : (UInt8.ofNat c.toNat).toNat = c.toNat :=
      UInt8.toNat_ofNat_of_lt' (Nat.lt_trans h.1 (by decide))
    rw [List.flatMap_cons, utf8EncodeChar_of_lt h.1, List.map_append, ih h.2, List.map_singleton,
      hc, Char.ofNat_toNat, List.singleton_append]

/-- In any other text some octet is the number of no such character. -/
theorem exists_mem_octetChars {s : String} {c : Char} (hc : c ∈ s.toList) (h : 128 ≤ c.toNat) :
    ∃ d ∈ octetChars s, 128 ≤ d.toNat := by
  obtain ⟨b, hb, hge⟩ := exists_octet_ge h
  refine ⟨Char.ofNat b.toNat, ?_, ?_⟩
  · rw [octetChars, encode_eq_flatMap]
    exact List.mem_map_of_mem (List.mem_flatMap_of_mem hc hb)
  · have hvalid : b.toNat.isValidChar := .inl (Nat.lt_trans b.toNat_lt (by decide))
    rwa [Char.ofNat, dif_pos hvalid]

end Utf8

namespace Hex

variable {c : Char} {s : String}

/-! ### Digits -/

/-- A digit is a single octet in UTF-8. -/
theorem lt_128_of_isSome_digit? (h : (digit? c).isSome = true) : c.toNat < 128 := by
  by_contra hge
  rw [digit?_of_ge (Nat.le_of_not_lt hge)] at h
  exact Bool.false_ne_true h

theorem isSome_digit?_iff :
    (digit? c).isSome = true ↔ c ∈ "0123456789abcdefABCDEF".toList := by
  have hlist : ("0123456789abcdefABCDEF".toList.all fun d => (digit? d).isSome) = true := by
    decide
  have hall : ∀ m < 128, (digit? (Char.ofNat m)).isSome = true →
      Char.ofNat m ∈ "0123456789abcdefABCDEF".toList := by
    decide +kernel
  refine ⟨fun h => ?_, List.all_eq_true.mp hlist c⟩
  have hc := hall c.toNat (lt_128_of_isSome_digit? h)
  rw [Char.ofNat_toNat] at hc
  exact hc h

/-- What is written has no capital letters. -/
theorem mem_of_mem_digits {b : UInt8} (h : c ∈ digits b) : c ∈ "0123456789abcdef".toList := by
  have hall : ∀ n < 16, Nat.digitChar n ∈ "0123456789abcdef".toList := by
    decide
  obtain ⟨m, hm, n, hn, hdigits, -⟩ := exists_digits_eq b
  rw [hdigits, List.mem_pair] at h
  obtain rfl | rfl := h
  · exact hall m hm
  · exact hall n hn

theorem length_encode (bs : Bytes) : (encode bs).length = 2 * bs.length := by
  rw [encode, String.length_ofList]
  induction bs with
  | nil => rfl
  | cons b bs ih =>
    have htwo : (digits b).length = 2 := rfl
    rw [List.flatMap_cons, List.length_append, ih, List.length_cons, htwo]
    omega

/-! ### Octets two at a time -/

/-- The byte string that a text is a hexadecimal form of, read by the octets of the text: two of
them stand for one, where the characters of their numbers are digits. -/
def decodeOctets (s : String) : Except Fault Bytes :=
  if s.utf8ByteSize % 2 = 1 then .error (.oddLength s)
  else (octets? (Utf8.octetChars s)).elim (.error (.notHex s)) .ok

/-- No digit is beyond 127. -/
theorem octets?_eq_none_of_ge {cs : List Char} (hc : c ∈ cs) (h : 128 ≤ c.toNat) :
    octets? cs = none := by
  rw [← Option.not_isSome_iff_eq_none, isSome_octets?_iff]
  exact fun htext => Nat.not_lt_of_le h (lt_128_of_isSome_digit? (htext.2 c hc))

/-- What is read of the octets of a text is what is read of its characters. -/
theorem octets?_octetChars (s : String) : octets? (Utf8.octetChars s) = octets? s.toList := by
  by_cases h : ∀ c ∈ s.toList, c.toNat < 128
  · rw [Utf8.octetChars_of_lt h]
  · -- A character beyond is no digit, and neither is the last of its octets.
    simp only [not_forall, Nat.not_lt] at h
    obtain ⟨c, hc, hge⟩ := h
    obtain ⟨d, hd, hge'⟩ := Utf8.exists_mem_octetChars hc hge
    rw [octets?_eq_none_of_ge hc hge, octets?_eq_none_of_ge hd hge']

/-- It makes no difference whether a text is read by its characters or by its octets. -/
theorem decode_eq_decodeOctets (s : String) : decode s = decodeOctets s := by
  rw [decode, decodeOctets, octets?_octetChars]
  cases octets? s.toList <;> rfl

/-! ### What is refused -/

/-- A text is read if its length in UTF-8 is even and it has nothing but digits. -/
theorem exists_decode_eq_ok_iff : (∃ bs, decode s = .ok bs) ↔
    s.utf8ByteSize % 2 = 0 ∧ ∀ c ∈ s.toList, c ∈ "0123456789abcdefABCDEF".toList := by
  simp only [decode_eq_ok_iff, ← isSome_digit?_iff]
  rw [← Option.isSome_iff_exists, isSome_octets?_iff, IsText]
  refine and_congr_left fun hdigits => ?_
  rw [← utf8ByteSize_ofList hdigits, String.ofList_toList]

/-- An odd length is what a text is refused for first. -/
theorem decode_eq_error_iff {fault : Fault} : decode s = .error fault ↔
    s.utf8ByteSize % 2 = 1 ∧ fault = .oddLength s ∨
      s.utf8ByteSize % 2 = 0 ∧ (∃ c ∈ s.toList, c ∉ "0123456789abcdefABCDEF".toList) ∧
        fault = .notHex s := by
  by_cases hodd : s.utf8ByteSize % 2 = 1
  · rw [decode, if_pos hodd]
    simp [hodd, eq_comm]
  have heven : s.utf8ByteSize % 2 = 0 := Nat.mod_two_ne_one.mp hodd
  have hread := exists_decode_eq_ok_iff (s := s)
  simp only [decode_eq_ok_iff] at hread
  rw [decode, if_neg hodd]
  rcases hcs : octets? s.toList with _ | bs
  · have hchar : ∃ c ∈ s.toList, c ∉ "0123456789abcdefABCDEF".toList := by
      by_contra hall
      obtain ⟨bs, hbs⟩ := hread.mpr ⟨heven, fun c hc => by_contra fun hnot => hall ⟨c, hc, hnot⟩⟩
      rw [hcs] at hbs
      cases hbs
    simp only [heven, hchar, Except.error.injEq, eq_comm, true_and, Nat.zero_ne_one, false_and,
      false_or]
  · have hall := (hread.mp ⟨bs, hcs⟩).2
    refine iff_of_false (fun h => by cases h) ?_
    rintro (⟨h, -⟩ | ⟨-, ⟨c, hc, hnot⟩, -⟩)
    · exact hodd h
    · exact hnot (hall c hc)

theorem encode_of_decode_eq_ok {bs : Bytes} (h : decode s = .ok bs) : encode bs = s.toLower := by
  have hlower : s.toLower.toList = s.toList.map Char.toLower := String.toList_map
  rw [← String.toList_inj, hlower, encode, String.toList_ofList,
    flatMap_digits_of_octets? (decode_eq_ok_iff.mp h)]

/-- The hexadecimal form is exact. Every byte string is read back from its own, which has two digits
for each octet and no capital letters. The other way, a text is read, by its characters or by its
octets, exactly when its length in UTF-8 is even and it has nothing but digits of either case, and
what is read is written as the same text in lower case. It is refused for an odd length before
anything else, and otherwise for some character, and the text itself is handed back. -/
theorem exact_conversion :
    (∀ bs : Bytes, decode (encode bs) = .ok bs ∧ (encode bs).length = 2 * bs.length ∧
      ∀ c ∈ (encode bs).toList, c ∈ "0123456789abcdef".toList) ∧
    ∀ s : String, decode s = decodeOctets s ∧
      ((∃ bs, decode s = .ok bs) ↔
        s.utf8ByteSize % 2 = 0 ∧ ∀ c ∈ s.toList, c ∈ "0123456789abcdefABCDEF".toList) ∧
      (∀ bs, decode s = .ok bs → encode bs = s.toLower) ∧
      ∀ fault, decode s = .error fault ↔
        s.utf8ByteSize % 2 = 1 ∧ fault = .oddLength s ∨
          s.utf8ByteSize % 2 = 0 ∧ (∃ c ∈ s.toList, c ∉ "0123456789abcdefABCDEF".toList) ∧
            fault = .notHex s := by
  refine ⟨fun bs => ⟨decode_encode bs, length_encode bs, fun c hc => ?_⟩, fun s =>
    ⟨decode_eq_decodeOctets s, exists_decode_eq_ok_iff, fun bs => encode_of_decode_eq_ok,
      fun fault => decode_eq_error_iff⟩⟩
  rw [encode, String.toList_ofList] at hc
  obtain ⟨b, -, hc⟩ := List.mem_flatMap.mp hc
  exact mem_of_mem_digits hc

/-- Letters of both cases, a character of two octets that leaves the length even, and one that makes
it odd. -/
theorem exact_conversion_accented :
    decode "dEaD" = .ok [0xde, 0xad] ∧ encode [0xde, 0xad] = "dEaD".toLower ∧
    decode "é" = .error (.notHex "é") ∧ decode "é1" = .error (.oddLength "é1") := by
  have hread : decode "dEaD" = .ok [0xde, 0xad] := by decide
  obtain ⟨-, htexts⟩ := exact_conversion
  refine ⟨hread, (htexts "dEaD").2.2.1 _ hread, ((htexts "é").2.2.2 _).mpr (.inr ?_),
    ((htexts "é1").2.2.2 _).mpr (.inl ?_)⟩
  · exact ⟨by decide, ⟨'é', by decide, by decide⟩, rfl⟩
  · exact ⟨by decide, rfl⟩

end Hex

end CallData
