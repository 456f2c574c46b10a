import CallData.Proofs.Locality
import CallData.Proofs.Value.Readers

/-!
# Where nested values end

The reader of every type is local (`ValueType.readNested_isLocal`): the bytes of a nested value
settle what is read, and no proper beginning of them is taken for anything but cut-off input
(`ValueType.readNested_placeholder_delimited`). So a value that stands at top level as it does
nested (`ValueType.NestedAtTop`) has bytes to which none can be added, and of which none can be
missing (`ValueType.NestedAtTop.readTop_placeholder_extent`).
-/

namespace CallData

open ByteReader

namespace ValueType

/-- Nested decoding looks at the bytes that it consumes and at no others, and where some of these
are missing it says so, rather than finding fault with those that are there. -/
theorem readNested_isLocal (T : ValueType) : T.readNested.IsLocal :=
  T.readNested_of_compositional isLocal_compositional

/-- Where a nested value of a type is read from the front of a byte string, it is read from the
same bytes wherever they stand and whatever comes behind them, and no fewer of them will do: cut
off anywhere, they end before the reader has what it asks for. -/
theorem readNested_placeholder_delimited (T : ValueType) {b rest : Bytes} {v : Value} {k : Nat}
    (h : T.placeholder.readNested (.start b) = .ok v ⟨k, rest⟩) :
    (k ≤ b.length ∧ rest = b.drop k) ∧
    (∀ o x, T.placeholder.readNested ⟨o, b.take k ++ x⟩ = .ok v ⟨o + k, x⟩) ∧
    ∀ o j, j < k → ∃ e c, T.placeholder.readNested ⟨o, b.take j⟩ = .error e c ∧
      e.kind = .unexpectedEnd ∧ ∃ offset requested available,
        e.cause = .unexpectedEnd offset requested available ∧ available < requested ∧
          offset + available = o + j := by
  rw [T.readNested_placeholder] at h ⊢
  obtain ⟨bs, hb, hk, hread, hstarves⟩ := T.readNested_isLocal _ v _ h
  obtain rfl : k = bs.length := hk.trans (Nat.zero_add _)
  obtain rfl : b = bs ++ rest := hb
  have htake : ∀ j ≤ bs.length, (bs ++ rest).take j = bs.take j := fun j hj =>
    List.take_append_of_le_length hj
  refine ⟨⟨?_, List.drop_left.symm⟩, fun o x => ?_, fun o j hj => ?_⟩
  · rw [List.length_append]
    exact Nat.le_add_right _ _
  · rw [List.take_left]
    exact hread o x
  · obtain ⟨e, c, he, offset, requested, available, hcause, hshort⟩ := hstarves o j hj
    rw [htake j hj.le]
    refine ⟨e, c, he, ?_, offset, requested, available, hcause, hshort⟩
    rw [CodecError.kind, hcause]
    rfl

theorem readings_delimited :
    readingsType.placeholder.readNested (.start readingsBytes) = .ok readings ⟨11, [5]⟩ ∧
      (11 ≤ readingsBytes.length ∧ [5] = readingsBytes.drop 11) ∧
      (∀ o x, readingsType.placeholder.readNested ⟨o, readingsBytes.take 11 ++ x⟩ =
        .ok readings ⟨o + 11, x⟩) ∧
      ∀ o j, j < 11 → ∃ e c, readingsType.placeholder.readNested ⟨o, readingsBytes.take j⟩ =
        .error e c ∧ e.kind = .unexpectedEnd ∧ ∃ offset requested available,
          e.cause = .unexpectedEnd offset requested available ∧ available < requested ∧
            offset + available = o + j :=
  ⟨readNested_readingsBytes,
    readingsType.readNested_placeholder_delimited readNested_readingsBytes⟩

/-! ### Whole byte strings -/

/-- The types whose values stand at top level as they do nested, save one that may be left out. -/
inductive NestedAtTop : ValueType → Prop where
  | metadata : NestedAtTop .metadata
  | floating : NestedAtTop (.decimal none)
  | struct (name : String) (fields : List (Field ValueType)) : NestedAtTop (.struct name fields)
  | tuple (types : List ValueType) : NestedAtTop (.tuple types)
  | enum (table : EnumType) : NestedAtTop (.enum table)
  | option (item : ValueType) : NestedAtTop (.option item)

/-- The types that read something out of the empty byte string: zero, variant zero, an absent
option. -/
inductive LeavesOut : ValueType → Prop where
  | floating : LeavesOut (.decimal none)
  | enum (table : EnumType) : LeavesOut (.enum table)
  | option (item : ValueType) : LeavesOut (.option item)

theorem NestedAtTop.readTop_eq {T : ValueType} (hT : T.NestedAtTop) {bs : Bytes}
    (hbs : T.LeavesOut → bs ≠ []) : T.placeholder.readTop bs = exactly T.readNested bs := by
  have hmore : T.LeavesOut → ¬ bs.isEmpty = true := fun h => mt List.isEmpty_iff.mp (hbs h)
  rw [← T.readNested_placeholder]
  cases hT with
  | metadata | struct | tuple => rfl
  | enum table => exact if_neg (hmore (.enum table))
  | option item => exact if_neg (hmore (.option item))
  | floating =>
    have htop : Amount.ofTop none bs = (Amount.readNested none).exactly bs :=
      if_neg (hmore .floating)
    rw [(decimal none).readNested_placeholder, readNested, exactly_map, ← htop]
    exact except_bind_pure

/-- Where all of a byte string is read as a value that stands as it does nested, nothing may come
behind the bytes and none may be missing: what is added is left over, and what is cut off is
missed, whatever it leaves. -/
theorem NestedAtTop.readTop_placeholder_extent {T : ValueType} (hT : T.NestedAtTop) {b : Bytes}
    {v : Value} (hb : T.LeavesOut → b ≠ []) (h : T.placeholder.readTop b = .ok v) :
    (∀ x, x ≠ [] → T.placeholder.readTop (b ++ x) = fail (.unconsumed (.bytes x.length))) ∧
    ∀ b', b' <+: b → b' ≠ b → (T.LeavesOut → b' ≠ []) →
      ∃ e, T.placeholder.readTop b' = .error e ∧ e.kind = .unexpectedEnd ∧ e.IsShort b'.length := by
  rw [hT.readTop_eq hb] at h
  obtain ⟨hreads, hstarves⟩ := T.readNested_isLocal.of_exactly h
  refine ⟨fun x hx => ?_, fun b' hprefix hne hb' => ?_⟩
  · rw [hT.readTop_eq fun _ => List.append_ne_nil_of_right_ne_nil b hx]
    exact hreads.exactly_append hx
  · have hlen : b'.length < b.length :=
      lt_of_le_of_ne hprefix.length_le (mt hprefix.eq_of_length hne)
    obtain ⟨e, he, hshort⟩ := hstarves.exactly_take hlen
    rw [← List.prefix_iff_eq_take.mp hprefix] at he
    exact ⟨e, (hT.readTop_eq hb').trans he, hshort.kind_eq, hshort⟩

/-- The bytes of an order with one line, whose state is that an amount has been paid. -/
def orderBytes : Bytes :=
  [0, 0, 0, 1, 0xff, 0xfe, 1, 0, 0, 0, 2, 0xc3, 0xa9, 1, 0, 0, 0, 1, 250, 0, 0, 0, 2]

/-- The bytes of an order end where its state does. A present truth value needs both of its bytes,
while none at all are an absent one. -/
theorem readTop_extent_order_and_present :
    (orderType.NestedAtTop ∧ ∃ v, orderType.placeholder.readTop orderBytes = .ok v ∧
      (∀ x, x ≠ [] →
        orderType.placeholder.readTop (orderBytes ++ x) = fail (.unconsumed (.bytes x.length))) ∧
      ∀ b', b' <+: orderBytes → b' ≠ orderBytes → (orderType.LeavesOut → b' ≠ []) →
        ∃ e, orderType.placeholder.readTop b' = .error e ∧ e.kind = .unexpectedEnd ∧
          e.IsShort b'.length) ∧
    (option .bool).placeholder.readTop [1, 1] = .ok (.option (some .bool) (some (.bool true))) ∧
      (option .bool).placeholder.readTop ([1, 1] ++ [7]) = fail (.unconsumed (.bytes 1)) ∧
      (∃ e, (option .bool).placeholder.readTop [1] = .error e ∧ e.kind = .unexpectedEnd ∧
        e.IsShort 1) ∧
      (option .bool).placeholder.readTop [] = .ok (.option (some .bool) none) := by
  have horder : orderType.placeholder.readTop orderBytes = .ok _ := rfl
  have hpresent : (option .bool).placeholder.readTop [1, 1] =
      .ok (.option (some .bool) (some (.bool true))) := rfl
  obtain ⟨hmore, hless⟩ :=
    (NestedAtTop.option .bool).readTop_placeholder_extent (by simp) hpresent
  have hstruct : orderType.NestedAtTop := .struct _ _
  refine ⟨⟨hstruct, _, horder, hstruct.readTop_placeholder_extent nofun horder⟩, hpresent,
    hmore [7] (by simp), hless [1] ⟨[1], rfl⟩ (by simp) (by simp), rfl⟩

end ValueType

end CallData
