import CallData.Proofs.Value.Nested

/-!
# Reading top-level encodings

A value that has a byte string for itself is read from it with no regard to the length that an
array declares: `ValueType.HasTop` are the values that a type may so be read as. Each of them is
read back from its top-level encoding (`ValueType.HasTop.readTop_top`) unless it *loses its items*
(`ValueType.LosesItems`): items of zero width leave no trace in a sequence that tells neither
their number nor where they end. Whatever is read as a value of a type is one of these, and loses
nothing (`ValueType.hasTop_of_readTop`).
-/

namespace CallData

open ByteReader

/-! ### What is read, and what is lost -/

/-- What a byte string may be read as by a type: its values, and for an array any number of
items. -/
inductive ValueType.HasTop : ValueType → Value → Prop where
  | has {T : ValueType} {v : Value} (h : T.Has v) : HasTop T v
  | array {item : ValueType} (length : Nat) {items : List Value} (h : ∀ v ∈ items, item.Has v) :
      HasTop (.array item length) (.array item length items)

/-- A sequence has items, and these take no byte. -/
def ValueType.LosesItems : ValueType → Value → Prop
  | .list item, .list _ items => item.IsZeroWidth ∧ items ≠ []
  | .array item _, .array _ _ items => item.IsZeroWidth ∧ items ≠ []
  | _, _ => False

/-- The same sequence with no items. -/
def Value.withoutItems : Value → Value
  | .list item _ => .list item []
  | .array item length _ => .array item length []
  | v => v

/-- Whether items are lost depends only on what a value holds. -/
theorem ValueType.losesItems_iff_of_same (T : ValueType) {v w : Value} (h : v.same w = true) :
    T.LosesItems v ↔ T.LosesItems w := by
  apply Value.same_induct (Q := fun v w => T.LosesItems v ↔ T.LosesItems w) (h := h)
  case list =>
    intro s t as bs hitems
    have hnil := eq_nil_iff_of_forall₂ hitems
    cases T <;> simp only [LosesItems, ne_eq, hnil]
  case array =>
    intro s t n as bs hitems
    have hnil := eq_nil_iff_of_forall₂ hitems
    cases T <;> simp only [LosesItems, ne_eq, hnil]
  all_goals
    intros
    cases T <;> exact Iff.rfl

/-- Without its items a value has none to lose. -/
theorem ValueType.not_losesItems_withoutItems (T : ValueType) (v : Value) :
    ¬ T.LosesItems v.withoutItems := by
  intro h
  cases T <;> cases v <;> simp [LosesItems, Value.withoutItems] at h

theorem Value.withoutItems_same {v w : Value} (h : v.same w = true) :
    v.withoutItems.same w.withoutItems = true := by
  suffices hsame : v.same w = true → v.withoutItems.same w.withoutItems = true from hsame h
  apply Value.same_induct (h := h)
    (Q := fun v w => v.same w = true → v.withoutItems.same w.withoutItems = true)
  case list =>
    intro s t as bs _ _
    rfl
  case array =>
    intro s t n as bs _ _
    exact Bool.and_eq_true_iff.mpr ⟨beq_self_eq_true n, rfl⟩
  all_goals
    intros
    assumption

/-! ### Values without parts -/

/-- An integer within the bounds is read from its shortest numeral. -/
theorem FixedInt.ofTop_shortest {width : IntWidth} {signed : Bool} {i : Int}
    (hmin : width.min signed ≤ i) (hmax : i ≤ width.max signed) :
    FixedInt.ofTop width signed (Bytes.shortest signed i) = .ok ⟨width, signed, i⟩ := by
  have hsign : signed = false → 0 ≤ i := by
    rintro rfl
    exact hmin
  rw [FixedInt.ofTop_eq_ok_iff, Bytes.toInteger_shortest hsign]
  exact ⟨⟨hmin, hmax⟩, rfl⟩

/-- A byte string is a text if it is the UTF-8 form of one. -/
theorem Value.textOfTop_eq_ok_iff {bs : Bytes} {s : String} :
    textOfTop bs = .ok s ↔ Utf8.encode s = bs := by
  rw [textOfTop]
  constructor
  · intro h
    rcases hdecode : Utf8.decode bs with fault | t
    · rw [hdecode] at h
      exact absurd h fail_ne_ok
    · rw [hdecode] at h
      obtain ⟨⟩ := h
      exact Utf8.encode_of_decode_eq_ok hdecode
  · rintro rfl
    rw [Utf8.decode_encode]

/-- An empty byte string is read as variant zero where the table says that this has no fields. -/
theorem Value.emptyVariant_eq_ok_iff {table : EnumType} {v : Value} :
    emptyVariant (some table) = .ok v ↔
      (∃ variant, table.variant 0 = .ok variant ∧ variant.fields = []) ∧
        v = .enum (some table) 0 [] := by
  simp only [emptyVariant]
  constructor
  · intro h
    obtain ⟨variant, hvariant, h⟩ := except_bind_eq_ok.mp h
    obtain ⟨hempty, ⟨⟩⟩ := except_ite_eq_ok.mp h
    exact ⟨⟨variant, hvariant, List.isEmpty_iff.mp hempty⟩, rfl⟩
  · rintro ⟨⟨variant, hvariant, hempty⟩, rfl⟩
    refine except_bind_eq_ok.mpr ⟨variant, hvariant, ?_⟩
    exact except_ite_eq_ok.mpr ⟨List.isEmpty_iff.mpr hempty, rfl⟩

/-- A decimal with its own scale is read at top level as it is elsewhere, up to the end. -/
theorem Amount.ofTop_floating {d : Decimal}
    (h : (Amount.floating d).digitBytes.length < 2 ^ 32) :
    Amount.ofTop none (Value.decimal (.floating d)).nested = .ok (.floating d) := by
  have hne : ((Value.decimal (.floating d)).nested).isEmpty = false := by
    rw [Value.nested_floating, List.isEmpty_eq_false_iff]
    exact List.ne_nil_of_length_pos (by simp)
  rw [Amount.ofTop, hne]
  exact (Amount.readNested_reads h).exactly

/-! ### From a value -/

namespace ValueType

/-- Where items do take bytes, a sequence of them is read back with no count. -/
theorem many_readNested {item : ValueType} {items : List Value} (h : ∀ v ∈ items, item.Has v)
    (hfits : ∀ v ∈ items, v.Fits) (hkept : ¬ (item.IsZeroWidth ∧ items ≠ [])) :
    many item.readNested (items.flatMap Value.nested) = .ok items := by
  refine many_of_reads (fun v hv => (h v hv).reads (hfits v hv)) fun v hv hnil => hkept ?_
  exact ⟨(h v hv).nested_eq_nil_iff.mp hnil, List.ne_nil_of_mem hv⟩

/-- A value with a byte string for itself is read from its nested encoding alone. -/
theorem Has.exactly_readNested {T : ValueType} {v : Value} (h : T.Has v) (hfits : v.Fits) :
    exactly T.placeholder.readNested v.nested = .ok v := by
  rw [T.readNested_placeholder]
  exact (h.reads hfits).exactly

/-- With bytes of its own, a value cannot be taken for one that the empty byte string stands for. -/
theorem Has.not_isEmpty_nested {T : ValueType} {v : Value} (h : T.Has v) (hT : ¬ T.IsZeroWidth) :
    ¬ v.nested.isEmpty = true := by
  rw [List.isEmpty_iff]
  exact mt h.nested_eq_nil_iff.mp hT

/-- A value of a type is read back from its top-level encoding, if it keeps its items. -/
theorem Has.readTop_top {T : ValueType} {v : Value} (h : T.Has v) (hfits : v.FitsTop)
    (hkept : ¬ T.LosesItems v) : T.placeholder.readTop v.top = .ok v := by
  -- The whole is needed again wherever the nested encoding is what is read.
  have hhas := h
  cases h with
  | int hmin hmax =>
    rw [Value.top_int ⟨hmin, hmax⟩]
    exact except_bind_eq_ok.mpr ⟨_, FixedInt.ofTop_shortest hmin hmax, rfl⟩
  | big hsign =>
    have hspell := Bytes.toInteger_shortest hsign
    exact congrArg (fun i => Except.ok (Value.big ⟨_, i⟩)) hspell
  | bool b => cases b <;> rfl
  | bytes bs => rfl
  | str s =>
    rw [Value.top_str]
    exact except_bind_eq_ok.mpr ⟨s, Value.textOfTop_eq_ok_iff.mpr rfl, rfl⟩
  | address a => exact except_bind_eq_ok.mpr ⟨a, a.ofBytes_bytes, rfl⟩
  | fixed digits scale =>
    have hspell := Bytes.toNat_shortest digits
    exact congrArg (fun n => Except.ok (Value.decimal (.fixed ⟨n, scale⟩))) hspell
  | floating d =>
    have .decimal hlen := hfits
    rw [Value.top_floating]
    exact except_bind_eq_ok.mpr ⟨_, Amount.ofTop_floating hlen, rfl⟩
  | metadata m => exact hhas.exactly_readNested hfits
  | list hitems =>
    rw [Value.top_list]
    exact except_bind_eq_ok.mpr ⟨_, many_readNested hitems hfits hkept, rfl⟩
  | array hlen hitems =>
    have .array hfit := hfits
    rw [Value.top_array]
    exact except_bind_eq_ok.mpr ⟨_, many_readNested hitems hfit hkept, rfl⟩
  | struct hfields => exact hhas.exactly_readNested hfits
  | tuple hitems => exact hhas.exactly_readNested hfits
  | @enum table d _ values hvariant hfields =>
    rw [Value.top_enum]
    by_cases hunit : d = 0 ∧ values = []
    · obtain ⟨rfl, rfl⟩ := hunit
      have hnil := (eq_nil_iff_of_forall₂ hfields).mpr rfl
      exact Value.emptyVariant_eq_ok_iff.mpr ⟨⟨_, hvariant, hnil⟩, rfl⟩
    · rw [if_neg hunit]
      exact (if_neg (hhas.not_isEmpty_nested nofun)).trans (hhas.exactly_readNested hfits)
  | @explicit _ _ name hname =>
    have htext : Value.textOfTop (Utf8.encode name) = .ok name :=
      Value.textOfTop_eq_ok_iff.mpr rfl
    rw [Value.top_explicit]
    exact except_bind_eq_ok.mpr ⟨name, htext, Value.ofName_eq_ok_iff.mpr ⟨hname, rfl⟩⟩
  | absent item => rfl
  | present hv =>
    exact (if_neg (hhas.not_isEmpty_nested nofun)).trans (hhas.exactly_readNested hfits)

/-- So is anything else that the type may be read as. -/
theorem HasTop.readTop_top {T : ValueType} {v : Value} (h : T.HasTop v) (hfits : v.FitsTop)
    (hkept : ¬ T.LosesItems v) : T.placeholder.readTop v.top = .ok v := by
  match h with
  | .has h => exact h.readTop_top hfits hkept
  | .array length hitems =>
    have .array hfit := hfits
    rw [Value.top_array]
    exact except_bind_eq_ok.mpr ⟨_, many_readNested hitems hfit hkept, rfl⟩

/-- A value that loses its items is read back without them. -/
theorem Has.readTop_top_of_losesItems {T : ValueType} {v : Value} (h : T.Has v)
    (hloses : T.LosesItems v) : T.placeholder.readTop v.top = .ok v.withoutItems := by
  have hnil : ∀ {item : ValueType} {items : List Value}, (∀ v ∈ items, item.Has v) →
      item.IsZeroWidth ∧ items ≠ [] → items.flatMap Value.nested = [] := by
    intro item items hitems hloses
    exact List.flatMap_eq_nil_iff.mpr fun v hv => (hitems v hv).nested_eq_nil_iff.mpr hloses.1
  cases h with
  | list hitems =>
    rw [Value.top_list, hnil hitems hloses]
    exact except_bind_eq_ok.mpr ⟨[], many_nil _, rfl⟩
  | array hlen hitems =>
    rw [Value.top_array, hnil hitems hloses]
    exact except_bind_eq_ok.mpr ⟨[], many_nil _, rfl⟩
  | _ => exact hloses.elim

/-- A value that conforms to a type and fits the wire is read back, as far as it holds anything,
from its top-level encoding, unless it is a sequence of items that take no byte: this is read back
without its items. -/
theorem Conforms.readTop_placeholder_top {T : ValueType} {v : Value} (hv : T.Conforms v)
    (hfits : v.FitsTop) :
    ∃ w, T.placeholder.readTop v.top = .ok w ∧ ((v == w) = true ↔ ¬ T.LosesItems v) ∧
      (T.LosesItems v → (v.withoutItems == w) = true) := by
  obtain ⟨w, hhas, hsame⟩ := hv
  have hloses := T.losesItems_iff_of_same hsame
  rw [Value.top_eq_of_same hsame]
  by_cases hv : T.LosesItems v
  · refine ⟨w.withoutItems, hhas.readTop_top_of_losesItems (hloses.mp hv), ?_, fun _ => ?_⟩
    · refine iff_of_false (fun hback => ?_) (not_not_intro hv)
      exact T.not_losesItems_withoutItems w ((T.losesItems_iff_of_same hback).mp hv)
    · exact Value.withoutItems_same hsame
  · refine ⟨w, hhas.readTop_top (hfits.of_same hsame) (mt hloses.mpr hv), ?_, fun h => absurd h hv⟩
    exact iff_of_true hsame hv

/-- An order is read back; a list of one unit is read back as the empty list. -/
theorem readTop_order_and_unit :
    (∃ w, orderType.placeholder.readTop order.top = .ok w ∧ (order == w) = true) ∧
      ∃ w, (list (.tuple [])).placeholder.readTop (Value.list (.tuple []) [.tuple []]).top = .ok w ∧
        (Value.list (.tuple []) [] == w) = true := by
  have hunit : (tuple []).Has (.tuple []) := .tuple .nil
  have hunits : (list (.tuple [])).Conforms (.list (.tuple []) [.tuple []]) :=
    ⟨_, .list (List.forall_mem_singleton.mpr hunit), Value.same_refl _⟩
  have hfits : (Value.tuple []).Fits := .tuple (by simp)
  constructor
  · obtain ⟨w, hw, hsame, -⟩ := order_conforms.readTop_placeholder_top order_fits.fitsTop
    exact ⟨w, hw, hsame.mpr nofun⟩
  · obtain ⟨w, hw, -, hsame⟩ :=
      hunits.readTop_placeholder_top (List.forall_mem_singleton.mpr hfits)
    exact ⟨w, hw, hsame ⟨.tuple (by simp), by simp⟩⟩

/-! ### From any byte string -/

/-- Items that a byte string is read as are not of zero width. -/
theorem forall_mem_of_many_readNested {item : ValueType} {bs : Bytes} {items : List Value}
    (h : many item.readNested bs = .ok items) :
    (∀ v ∈ items, item.Has v) ∧ (∀ v ∈ items, v.Fits) ∧ ¬ (item.IsZeroWidth ∧ items ≠ []) := by
  have hread := exists_of_mem_many h
  have hyields : ∀ v ∈ items, item.Has v ∧ v.Fits := by
    intro v hv
    obtain ⟨t, t', ht, -⟩ := hread v hv
    exact item.readNested_yields t v t' ht
  refine ⟨fun v hv => (hyields v hv).1, fun v hv => (hyields v hv).2, ?_⟩
  -- Each item brought the end nearer, which none of zero width does.
  rintro ⟨hzero, hne⟩
  obtain ⟨v, hv⟩ := List.exists_mem_of_ne_nil items hne
  obtain ⟨t, t', ht, hless⟩ := hread v hv
  rw [hzero.cursor_eq ht] at hless
  exact absurd hless (lt_irrefl _)

theorem has_and_fits_of_exactly {T : ValueType} {bs : Bytes} {v : Value}
    (h : exactly T.placeholder.readNested bs = .ok v) : T.Has v ∧ v.Fits := by
  rw [T.readNested_placeholder] at h
  exact T.readNested_yields.exactly h

/-- Whatever a byte string is read as by a type is something that it may be read as, fits the
wire, and keeps its items. -/
theorem hasTop_of_readTop {T : ValueType} {bs : Bytes} {v : Value}
    (h : T.placeholder.readTop bs = .ok v) : T.HasTop v ∧ v.FitsTop ∧ ¬ T.LosesItems v := by
  match T with
  | .int width signed =>
    obtain ⟨x, hx, ⟨⟩⟩ := except_bind_eq_ok.mp h
    obtain ⟨⟨hmin, hmax⟩, rfl⟩ := FixedInt.ofTop_eq_ok_iff.mp hx
    exact ⟨.has (.int hmin hmax), .int _, nofun⟩
  | .big signed =>
    obtain ⟨⟩ := h
    exact ⟨.has (BigInteger.ofTop_has signed bs), trivial, nofun⟩
  | .bool =>
    obtain ⟨b, -, ⟨⟩⟩ := except_bind_eq_ok.mp h
    exact ⟨.has (.bool b), .bool b, nofun⟩
  | .bytes =>
    obtain ⟨⟩ := h
    exact ⟨.has (.bytes bs), trivial, nofun⟩
  | .str =>
    obtain ⟨s, -, ⟨⟩⟩ := except_bind_eq_ok.mp h
    exact ⟨.has (.str s), trivial, nofun⟩
  | .address =>
    obtain ⟨a, -, ⟨⟩⟩ := except_bind_eq_ok.mp h
    exact ⟨.has (.address a), .address a, nofun⟩
  | .decimal (some scale) =>
    obtain ⟨⟩ := h
    exact ⟨.has (.fixed bs.toNat scale), trivial, nofun⟩
  | .decimal none =>
    obtain ⟨a, ha, ⟨⟩⟩ := except_bind_eq_ok.mp h
    -- The empty byte string stands for zero; any other is read like a nested decimal.
    change (if bs.isEmpty then _ else _) = _ at ha
    split at ha
    case isTrue =>
      obtain ⟨⟩ := ha
      exact ⟨.has (.floating (.zero 0)), .decimal (by decide), nofun⟩
    case isFalse =>
      obtain ⟨hhas, hfits⟩ := (Amount.readNested_yields none).exactly ha
      exact ⟨.has hhas, hfits.fitsTop, nofun⟩
  | .metadata | .struct .. | .tuple _ =>
    obtain ⟨hhas, hfits⟩ := has_and_fits_of_exactly h
    exact ⟨.has hhas, hfits.fitsTop, nofun⟩
  | .list item =>
    obtain ⟨items, hmany, ⟨⟩⟩ := except_bind_eq_ok.mp h
    -- Items are read while there are bytes, so each of them has some.
    obtain ⟨hhas, hfits, hkept⟩ := forall_mem_of_many_readNested hmany
    exact ⟨.has (.list hhas), hfits, hkept⟩
  | .array item length =>
    obtain ⟨items, hmany, ⟨⟩⟩ := except_bind_eq_ok.mp h
    obtain ⟨hhas, hfits, hkept⟩ := forall_mem_of_many_readNested hmany
    exact ⟨.array length hhas, .array hfits, hkept⟩
  | .enum table =>
    change (if bs.isEmpty then _ else _) = _ at h
    split at h
    case isTrue =>
      obtain ⟨⟨variant, hvariant, hempty⟩, rfl⟩ := Value.emptyVariant_eq_ok_iff.mp h
      exact ⟨.has (.enum hvariant (hempty ▸ .nil)), .enum (by simp), nofun⟩
    case isFalse =>
      obtain ⟨hhas, hfits⟩ := has_and_fits_of_exactly h
      exact ⟨.has hhas, hfits.fitsTop, nofun⟩
  | .explicit type names =>
    obtain ⟨s, -, hname⟩ := except_bind_eq_ok.mp h
    obtain ⟨hmem, rfl⟩ := Value.ofName_eq_ok_iff.mp hname
    exact ⟨.has (.explicit type hmem), trivial, nofun⟩
  | .option item =>
    change (if bs.isEmpty then _ else _) = _ at h
    split at h
    case isTrue =>
      obtain ⟨⟩ := h
      exact ⟨.has (.absent item), .absent _, nofun⟩
    case isFalse =>
      obtain ⟨hhas, hfits⟩ := has_and_fits_of_exactly h
      exact ⟨.has hhas, hfits.fitsTop, nofun⟩

/-! ### Loss without a type -/

end ValueType

/-- A sequence has items, and these are written without any byte. -/
def Value.LosesItems : Value → Prop
  | .list _ items => items ≠ [] ∧ ∀ v ∈ items, v.nested = []
  | .array _ _ items => items ≠ [] ∧ ∀ v ∈ items, v.nested = []
  | _ => False

/-- A value loses its items by its type when it does so by itself. -/
theorem ValueType.HasTop.losesItems_iff {T : ValueType} {v : Value} (h : T.HasTop v) :
    T.LosesItems v ↔ v.LosesItems := by
  have hrow : ∀ {item : ValueType} {items : List Value}, (∀ v ∈ items, item.Has v) →
      (item.IsZeroWidth ∧ items ≠ [] ↔ items ≠ [] ∧ ∀ v ∈ items, v.nested = []) := by
    intro item items hitems
    rw [and_comm]
    refine and_congr_right fun hne => ⟨fun hzero v hv => ?_, fun hnil => ?_⟩
    · exact (hitems v hv).nested_eq_nil_iff.mpr hzero
    · obtain ⟨v, hv⟩ := List.exists_mem_of_ne_nil items hne
      exact (hitems v hv).nested_eq_nil_iff.mp (hnil v hv)
  cases h with
  | array length hitems => exact hrow hitems
  | has h =>
    cases h with
    | list hitems => exact hrow hitems
    | array hlen hitems => exact hrow hitems
    | _ => exact Iff.rfl

theorem Value.losesItems_iff_of_same {v w : Value} (h : v.same w = true) :
    v.LosesItems ↔ w.LosesItems := by
  have hrow : ∀ {as bs : List Value}, sameItems as bs = true →
      (as ≠ [] ∧ (∀ v ∈ as, v.nested = []) ↔ bs ≠ [] ∧ ∀ w ∈ bs, w.nested = []) := by
    intro as bs h
    have hsame := sameItems_iff.mp h
    have hnested := hsame.imp fun v w hvw => congrArg (· = []) (nested_eq_of_same hvw)
    rw [ne_eq, ne_eq, eq_nil_iff_of_forall₂ hsame]
    exact and_congr_right fun _ =>
      forall_mem_iff_of_forall₂ (hnested.imp fun _ _ hvw => iff_of_eq hvw)
  suffices hloses : v.same w = true → (v.LosesItems ↔ w.LosesItems) from hloses h
  apply same_induct (h := h) (Q := fun v w => v.same w = true → (v.LosesItems ↔ w.LosesItems))
  case list => exact fun s t as bs _ h => hrow h
  case array => exact fun s t n as bs _ h => hrow (Bool.and_eq_true_iff.mp h).2
  all_goals
    intros
    exact Iff.rfl

end CallData
