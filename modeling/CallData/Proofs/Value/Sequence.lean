import CallData.Proofs.Uniformity
import CallData.Proofs.Value.Locality

/-!
# Items up to the end of a byte string

A sequence, be it a list or an array (`Value.sequence`), is read at top level item by item up to the
end of the bytes, whatever length an array declares. As the reader of every type is both local and
uniform, the bytes of two sequences joined are read as the items of the one and then the other, and
what is wrong with the second is found at the same item of it (`Value.readTop_sequence_append`).
Items of zero width bring the end no nearer, so that only the empty byte string is a sequence of
them; all other items do bring it nearer (`ValueType.remaining_lt_of_readNested`).
-/

namespace CallData

open ByteReader

/-! ### Progress -/

namespace ValueType

theorem readNested_isUniform (T : ValueType) : T.readNested.IsUniform :=
  T.readNested_of_compositional isUniform_compositional

/-- A type of zero width has a value: nothing in it has to be chosen. -/
theorem IsZeroWidth.exists_has {T : ValueType} (hT : T.IsZeroWidth) : ∃ v, T.Has v ∧ v.Fits := by
  induction hT with
  | empty item => exact ⟨.array item 0 [], .array rfl (by simp), .array (by simp)⟩
  | @array item length h ih =>
    obtain ⟨v, hv, hfits⟩ := ih
    refine ⟨.array item length (List.replicate length v), .array List.length_replicate ?_,
      .array ?_⟩
    all_goals
      intro w hw
      rwa [List.eq_of_mem_replicate hw]
  | @struct name fields h ih =>
    have hfields : ∀ f ∈ fields, ∃ g, Field.Rel (fun T v => Has T v ∧ v.Fits) f g := fun f hf =>
      (ih f hf).elim fun v hv => ⟨⟨f.name, v⟩, .mk hv⟩
    obtain ⟨values, hvalues⟩ := exists_forall₂_of_forall hfields
    obtain ⟨hhas, hfits⟩ := forall₂_field_and_right hvalues
    exact ⟨.struct name values, .struct hhas, .struct hfits⟩
  | tuple h ih =>
    obtain ⟨items, hitems⟩ := exists_forall₂_of_forall ih
    obtain ⟨hhas, hfits⟩ := forall₂_and_right hitems
    exact ⟨.tuple items, .tuple hhas, .tuple hfits⟩

/-- A type of zero width reads a value out of no bytes. -/
theorem IsZeroWidth.exists_reads {T : ValueType} (hT : T.IsZeroWidth) :
    ∃ v, T.readNested.Reads [] v := by
  obtain ⟨v, hhas, hfits⟩ := hT.exists_has
  exact ⟨v, hhas.nested_eq_nil_iff.mpr hT ▸ hhas.reads hfits⟩

/-- A type of any other width never reads a value out of no bytes. -/
theorem remaining_lt_of_readNested {T : ValueType} (hT : ¬ T.IsZeroWidth) {c c' : Cursor}
    {v : Value} (h : T.readNested c = .ok v c') : c'.remaining < c.remaining := by
  obtain ⟨hhas, hfits⟩ := T.readNested_yields c v c' h
  obtain ⟨bs, hrest, -, hreads, -⟩ := T.readNested_isLocal c v c' h
  have hbs : bs ≠ [] := by
    rintro rfl
    -- The value would be read both from no bytes and from those that it is written to.
    have hread := (hhas.reads hfits).eq_of_ok (hreads 0 (v.nested ++ []))
    obtain ⟨-, hcursor⟩ := hread
    have hnil : v.nested ++ [] = [] := congrArg Cursor.rest hcursor
    rw [List.append_nil] at hnil
    exact hT (hhas.nested_eq_nil_iff.mp hnil)
  have hpos : 0 < bs.length := List.length_pos_iff.mpr hbs
  rw [Cursor.remaining, Cursor.remaining, hrest, List.length_append]
  omega

end ValueType

/-! ### Sequences -/

namespace Value

/-- A sequence with items of a type: an array where a length is declared, and else a list. -/
def sequence (item : ValueType) : Option Nat → List Value → Value
  | none, items => .list item items
  | some length, items => .array item length items

theorem sequence_inj {item : ValueType} {length : Option Nat} {as bs : List Value} :
    sequence item length as = sequence item length bs ↔ as = bs := by
  cases length <;> simp [sequence]

/-- Neither the items held nor the length declared have a say in what is read. -/
theorem readTop_sequence (item : ValueType) (length : Option Nat) (held : List Value) (bs : Bytes) :
    (sequence item length held).readTop bs =
      (many item.readNested bs).map (sequence item length) := by
  cases length <;> exact except_bind_pure

theorem readTop_sequence_eq_ok_iff {item : ValueType} {length : Option Nat}
    {held items : List Value} {bs : Bytes} : (sequence item length held).readTop bs = .ok (sequence item length items) ↔
      many item.readNested bs = .ok items := by
  rw [readTop_sequence, except_map_eq_ok]
  simp only [sequence_inj, exists_eq_right]

/-- Behind bytes that are read as a sequence, others are read as the items that follow, or fail at
the same of their items and for the same cause. A sequence has no more items than bytes. Where its
items are of zero width, it has none, and no bytes; where they are not, what is wrong is always
wrong with an item. -/
theorem readTop_sequence_append (T : ValueType) (length : Option Nat) (held : List Value) :
    (∀ b₁ items₁, (sequence T length held).readTop b₁ = .ok (sequence T length items₁) → ∀ b₂,
      (∀ v, (sequence T length held).readTop (b₁ ++ b₂) = .ok v ↔
        ∃ items₂, (sequence T length held).readTop b₂ = .ok (sequence T length items₂) ∧
          v = sequence T length (items₁ ++ items₂)) ∧
      ∀ k path cause,
        (sequence T length held).readTop b₂ = .error ⟨.index k :: path, cause⟩ →
          (sequence T length held).readTop (b₁ ++ b₂) =
            .error ⟨.index (items₁.length + k) :: path, cause.moved b₁.length⟩ ∧
          (cause.moved b₁.length).kind = cause.kind) ∧
    (∀ b v, (sequence T length held).readTop b = .ok v →
      ∃ items, v = sequence T length items ∧ items.length ≤ b.length) ∧
    (T.IsZeroWidth → ∀ b, (sequence T length held).readTop b =
      if b = [] then .ok (sequence T length []) else fail (.unconsumed (.bytes b.length))) ∧
    (¬ T.IsZeroWidth → ∀ b e, (sequence T length held).readTop b = .error e →
      ∃ k path, e.path = .index k :: path) := by
  refine ⟨fun b₁ items₁ h₁ b₂ => ?_, fun b v h => ?_, fun hT b => ?_, fun hT b e he => ?_⟩
  · -- The first bytes settle their own items, and moved behind them the others read as before.
    have happend := many_append T.readNested_isLocal T.readNested_isUniform
      (readTop_sequence_eq_ok_iff.mp h₁) b₂
    refine ⟨fun v => ?_, fun k path cause h₂ => ⟨?_, cause.kind_moved _⟩⟩
    · simp only [readTop_sequence T length held (b₁ ++ b₂), happend, except_map_eq_ok,
        mapError_eq_ok, readTop_sequence_eq_ok_iff]
      constructor
      · rintro ⟨_, ⟨items₂, h₂, rfl⟩, rfl⟩
        exact ⟨items₂, h₂, rfl⟩
      · rintro ⟨items₂, h₂, rfl⟩
        exact ⟨_, ⟨items₂, h₂, rfl⟩, rfl⟩
    · rw [readTop_sequence, except_map_eq_error] at h₂
      rw [readTop_sequence, happend, h₂, Nat.add_comm]
      rfl
  · rw [readTop_sequence, except_map_eq_ok] at h
    obtain ⟨items, hitems, rfl⟩ := h
    exact ⟨items, rfl, length_le_of_manyFrom hitems⟩
  · -- An item of zero width is read once and takes nothing, which ends the loop.
    obtain ⟨v, hv⟩ := hT.exists_reads
    rw [readTop_sequence]
    by_cases hb : b = []
    · rw [if_pos hb, hb, many_nil]
      rfl
    · rw [if_neg hb, many_of_reads_nil hv hb]
      rfl
  · rw [readTop_sequence, except_map_eq_error] at he
    exact exists_index_of_manyFrom_eq_error
      (fun _ _ _ hread => ValueType.remaining_lt_of_readNested hT hread) he

/-- Two numbers in front of a third, and in front of a third and half a fourth; an array of two
units is not to be had from any byte. -/
theorem readTop_sequence_append_numbers :
    (sequence (.int .w16 false) none []).readTop [0, 1, 0, 2] =
        .ok (sequence (.int .w16 false) none [.int ⟨.w16, false, 1⟩, .int ⟨.w16, false, 2⟩]) ∧
      (sequence (.int .w16 false) none []).readTop ([0, 1, 0, 2] ++ [0, 3]) =
        .ok (sequence (.int .w16 false) none
          ([.int ⟨.w16, false, 1⟩, .int ⟨.w16, false, 2⟩] ++ [.int ⟨.w16, false, 3⟩])) ∧
      (sequence (.int .w16 false) none []).readTop ([0, 1, 0, 2] ++ [0, 3, 0]) =
        .error ⟨[.index (2 + 1)], .unexpectedEnd 6 2 1⟩ ∧
      (ValueType.tuple []).IsZeroWidth ∧
      (sequence (.tuple []) (some 2) []).readTop [1] = fail (.unconsumed (.bytes 1)) := by
  have htwo : (sequence (.int .w16 false) none []).readTop [0, 1, 0, 2] =
      .ok (sequence (.int .w16 false) none [.int ⟨.w16, false, 1⟩, .int ⟨.w16, false, 2⟩]) := by
    cbv
  have hunit : (ValueType.tuple []).IsZeroWidth := .tuple (by simp)
  obtain ⟨happend, -, -, -⟩ := readTop_sequence_append (.int .w16 false) none []
  obtain ⟨-, -, hzero, -⟩ := readTop_sequence_append (.tuple []) (some 2) []
  refine ⟨htwo, ?_, ?_, hunit, (hzero hunit [1]).trans (if_neg (by simp))⟩
  · exact ((happend _ _ htwo [0, 3]).1 _).mpr ⟨[.int ⟨.w16, false, 3⟩], by cbv, rfl⟩
  · exact ((happend _ _ htwo [0, 3, 0]).2 1 [] (.unexpectedEnd 2 2 1) (by cbv)).1

end Value

end CallData
