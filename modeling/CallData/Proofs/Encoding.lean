import CallData.Proofs.FixedInt
import CallData.Proofs.Induction
import CallData.Value.Encode

/-!
# What encoders write

Whatever the sink, writing a value is writing one block, its encoding (`Value.putNested_eq_block`,
`Value.putTop_eq_block`), and encodings are made of those of the parts. Encoders therefore append to
the bytes that are there and answer how many they append, a length that can be had without keeping
the bytes (`Value.run_encoders`).
-/

namespace CallData

/-! ### Blocks -/

namespace Put

section

variable {σ : Type} [Sink σ]

theorem nothing_eq_block : (nothing : Put σ) = block [] := by
  simp [nothing, block, Sink.push_nil]

/-- Two blocks one after the other leave what the one block of all their bytes leaves, in the sink
and in the count. -/
theorem block_append_block (as bs : Bytes) :
    (block as ++ block bs : Put σ) = block (as ++ bs) := by
  change Put.append _ _ = _
  simp [Put.append, block, Sink.push_append]

/-- Where the length ends and the payload begins leaves no trace in the sink. -/
theorem framed_eq_block (bs : Bytes) :
    (framed bs : Put σ) = block (Bytes.ofNat 4 bs.length ++ bs) :=
  block_append_block _ _

theorem run_block (bs : Bytes) (s : σ) : (block bs).run s = (Sink.push s bs, bs.length) :=
  rfl

end

@[simp]
theorem bytes_block (bs : Bytes) : (block bs).bytes = bs :=
  List.nil_append bs

theorem size_block (bs : Bytes) : (block bs).size = bs.length :=
  rfl

/-- The frame of a byte string: four octets for its length, and the bytes themselves. -/
theorem bytes_framed (bs : Bytes) : (framed bs).bytes = Bytes.ofNat 4 bs.length ++ bs := by
  rw [framed_eq_block, bytes_block]

end Put

namespace Value

/-! ### Nested encodings -/

section

variable {σ : Type} [Sink σ]

/-- A value that is written as the same block to every sink is written as its encoding, which is
what it leaves in an empty byte string. -/
private theorem eq_block_nested {v : Value} {bs : Bytes}
    (h : ∀ (σ : Type) [Sink σ], (putNested v : Put σ) = .block bs) :
    (putNested v : Put σ) = .block v.nested := by
  rw [h, nested, h, Put.bytes_block]

/-- Items are one block if each is one, the step behind `putNested_eq_block` for every kind of row.
-/
private theorem putItems_eq_block_of {items : List Value}
    (h : ∀ v ∈ items, (putNested v : Put σ) = .block v.nested) :
    (putItems items : Put σ) = .block (items.flatMap nested) := by
  induction items with
  | nil => exact Put.nothing_eq_block
  | cons v items ih =>
    rw [List.forall_mem_cons] at h
    rw [putItems, h.1, ih h.2, Put.block_append_block, List.flatMap_cons]

private theorem putFields_eq_block_of {fields : List (Field Value)}
    (h : ∀ f ∈ fields, (putNested f.value : Put σ) = .block f.value.nested) :
    (putFields fields : Put σ) = .block (fields.flatMap fun f => f.value.nested) := by
  induction fields with
  | nil => exact Put.nothing_eq_block
  | cons f fields ih =>
    rw [List.forall_mem_cons] at h
    rw [putFields, h.1, ih h.2, Put.block_append_block, List.flatMap_cons]

/-- Whatever the sink, a value is written as one block. -/
theorem putNested_eq_block (v : Value) : (putNested v : Put σ) = .block v.nested := by
  -- For a part, the statement is wanted both of the sink at hand and of the one that `nested` uses.
  induction v generalizing σ with
  | int x | bool b | address a | metadata m | absent t => exact eq_block_nested fun _ _ => rfl
  | big x => exact eq_block_nested fun _ _ => Put.framed_eq_block _
  | bytes bs => exact eq_block_nested fun _ _ => Put.framed_eq_block _
  | str s => exact eq_block_nested fun _ _ => Put.framed_eq_block _
  | explicit variants name => exact eq_block_nested fun _ _ => Put.framed_eq_block _
  | decimal a =>
    match a with
    | .fixed d => exact eq_block_nested fun _ _ => Put.framed_eq_block _
    | .floating d =>
      apply eq_block_nested
      intro σ _
      rw [putNested, Amount.putNested, Put.framed_eq_block, Put.count, Put.block_append_block]
  | list item items ih =>
    apply eq_block_nested
    intro σ _
    rw [putNested, putItems_eq_block_of fun v hv => ih v hv, Put.count, Put.block_append_block]
  | array item length items ih =>
    apply eq_block_nested
    intro σ _
    rw [putNested, putItems_eq_block_of fun v hv => ih v hv]
  | struct name fields ih =>
    apply eq_block_nested
    intro σ _
    rw [putNested, putFields_eq_block_of fun f hf => ih f hf]
  | tuple items ih =>
    apply eq_block_nested
    intro σ _
    rw [putNested, putItems_eq_block_of fun v hv => ih v hv]
  | enum table discriminant fields ih =>
    apply eq_block_nested
    intro σ _
    rw [putNested, putFields_eq_block_of fun f hf => ih f hf, Put.octet, Put.block_append_block]
  | present item v ih =>
    apply eq_block_nested
    intro σ _
    rw [putNested, ih, Put.octet, Put.block_append_block]

/-- Items stand one behind the other, with nothing between them. -/
theorem putItems_eq_block (items : List Value) :
    (putItems items : Put σ) = .block (items.flatMap nested) :=
  putItems_eq_block_of fun v _ => v.putNested_eq_block

/-- Fields stand one behind the other in the order of the record, without their names. -/
theorem putFields_eq_block (fields : List (Field Value)) :
    (putFields fields : Put σ) = .block (fields.flatMap fun f => f.value.nested) :=
  putFields_eq_block_of fun f _ => f.value.putNested_eq_block

end

/-- An integer of fixed width takes all of its width, in two's complement, highest octet first. -/
@[simp]
theorem nested_int (x : FixedInt) : (int x).nested = Bytes.ofInt x.width.bytes x.value :=
  FixedInt.drop_word (x.width.bytes_le.trans (by decide))

@[simp]
theorem nested_bool (b : Bool) : (bool b).nested = [b.toUInt8] :=
  rfl

@[simp]
theorem nested_address (a : Address) : (address a).nested = a.bytes :=
  rfl

@[simp]
theorem nested_metadata (m : CodeMetadata) : (metadata m).nested = m.bytes :=
  rfl

/-- An integer of any size is its shortest numeral behind the length of it. -/
@[simp]
theorem nested_big (x : BigInteger) : (big x).nested =
    Bytes.ofNat 4 (Bytes.shortest x.signed x.value).length ++ Bytes.shortest x.signed x.value :=
  Put.bytes_framed _

@[simp]
theorem nested_bytes (bs : Bytes) : (bytes bs).nested = Bytes.ofNat 4 bs.length ++ bs :=
  Put.bytes_framed bs

/-- The length in front of a text is that of its UTF-8 octets, not the number of its characters. -/
@[simp]
theorem nested_str (s : String) :
    (str s).nested = Bytes.ofNat 4 (Utf8.encode s).length ++ Utf8.encode s :=
  Put.bytes_framed _

/-- A variant that goes by its name is that name as a text. -/
@[simp]
theorem nested_explicit (variants : Option (List String)) (name : String) :
    (explicit variants name).nested =
      Bytes.ofNat 4 (Utf8.encode name).length ++ Utf8.encode name :=
  Put.bytes_framed _

/-- A decimal whose type has its scale is written as its digits alone, like an integer of any size.
-/
@[simp]
theorem nested_fixed (d : Decimal) : (decimal (.fixed d)).nested =
    Bytes.ofNat 4 (Bytes.shortest false d.digits).length ++ Bytes.shortest false d.digits :=
  Put.bytes_framed _

/-- A decimal without a scale in its type has the scale behind the digits, in four octets. -/
@[simp]
theorem nested_floating (d : Decimal) : (decimal (.floating d)).nested =
    Bytes.ofNat 4 (Bytes.shortest false d.digits).length ++ Bytes.shortest false d.digits ++
      Bytes.ofNat 4 d.scale.toNat := by
  change (Put.framed (Bytes.shortest false d.digits) ++ Put.count d.scale.toNat).bytes = _
  rw [Put.framed_eq_block, Put.count, Put.block_append_block, Put.bytes_block]

/-- A list is the only row with its number of items in front. -/
@[simp]
theorem nested_list (item : ValueType) (items : List Value) :
    (list item items).nested = Bytes.ofNat 4 items.length ++ items.flatMap nested := by
  change (Put.count items.length ++ putItems items).bytes = _
  rw [putItems_eq_block, Put.count, Put.block_append_block, Put.bytes_block]

/-- The number of items of an array is part of its type and is not written. -/
@[simp]
theorem nested_array (item : ValueType) (length : Nat) (items : List Value) :
    (array item length items).nested = items.flatMap nested := by
  change (putItems items).bytes = _
  rw [putItems_eq_block, Put.bytes_block]

@[simp]
theorem nested_tuple (items : List Value) : (tuple items).nested = items.flatMap nested := by
  change (putItems items).bytes = _
  rw [putItems_eq_block, Put.bytes_block]

@[simp]
theorem nested_struct (name : String) (fields : List (Field Value)) :
    (struct name fields).nested = fields.flatMap fun f => f.value.nested := by
  change (putFields fields).bytes = _
  rw [putFields_eq_block, Put.bytes_block]

/-- An enum is the octet of its discriminant and the fields of that variant. -/
@[simp]
theorem nested_enum (table : Option EnumType) (discriminant : UInt8)
    (fields : List (Field Value)) : (enum table discriminant fields).nested =
      discriminant :: fields.flatMap fun f => f.value.nested := by
  change (Put.block [discriminant] ++ putFields fields).bytes = _
  rw [putFields_eq_block, Put.block_append_block, Put.bytes_block, List.singleton_append]

@[simp]
theorem nested_absent (item : Option ValueType) : (option item none).nested = [0] :=
  rfl

/-- A present option is the octet one in front of what it holds. -/
@[simp]
theorem nested_present (item : Option ValueType) (v : Value) :
    (option item (some v)).nested = 1 :: v.nested := by
  change (Put.block [1] ++ putNested v).bytes = _
  rw [putNested_eq_block, Put.block_append_block, Put.bytes_block, List.singleton_append]

/-! ### Top-level encodings -/

/-- Only variant zero without fields is written in another way than nested. -/
theorem putTop_enum {σ : Type} [Sink σ] (table : Option EnumType) (discriminant : UInt8)
    (fields : List (Field Value)) : (putTop (enum table discriminant fields) : Put σ) =
      if discriminant = 0 ∧ fields = [] then .nothing
      else putNested (enum table discriminant fields) := by
  by_cases h : discriminant = 0 ∧ fields = []
  · obtain ⟨rfl, rfl⟩ := h
    rfl
  · have hother : ∀ t, enum table discriminant fields = enum t 0 [] → False := by
      rintro t ⟨⟩
      exact h ⟨rfl, rfl⟩
    rw [if_neg h, putTop]
    all_goals first | exact hother | nofun

/-- There is a block that a value is written as at top level, the same one for every sink. -/
private theorem exists_putTop_eq_block (v : Value) :
    ∃ bs, ∀ (σ : Type) [Sink σ], (putTop v : Put σ) = .block bs := by
  match v with
  | int _ | big _ | bytes _ | str _ | explicit .. => exact ⟨_, fun _ _ => rfl⟩
  | decimal (.fixed _) | bool true => exact ⟨_, fun _ _ => rfl⟩
  | bool false | option _ none => exact ⟨_, fun _ _ => Put.nothing_eq_block⟩
  | list _ items => exact ⟨_, fun _ _ => putItems_eq_block items⟩
  | enum table discriminant fields =>
    by_cases h : discriminant = 0 ∧ fields = []
    · exact ⟨_, fun _ _ => (putTop_enum ..).trans ((if_pos h).trans Put.nothing_eq_block)⟩
    · exact ⟨_, fun _ _ => (putTop_enum ..).trans ((if_neg h).trans (putNested_eq_block _))⟩
  | decimal (.floating d) => exact ⟨_, fun _ _ => (decimal (.floating d)).putNested_eq_block⟩
  | address _ | metadata _ | array .. | struct .. | tuple _ | option _ (some _) =>
    exact ⟨_, fun _ _ => putNested_eq_block _⟩

/-- Whatever the sink, a value that has a byte string for itself is written as one block too. -/
theorem putTop_eq_block {σ : Type} [Sink σ] (v : Value) : (putTop v : Put σ) = .block v.top := by
  obtain ⟨bs, h⟩ := v.exists_putTop_eq_block
  rw [h, top, h, Put.bytes_block]

/-- Within the bounds of its width, an integer at top level is its shortest numeral: leading octets
that only repeat the sign are left out. -/
theorem top_int {x : FixedInt} (h : x.InBounds) : (int x).top = Bytes.shortest x.signed x.value :=
  h.topBytes_eq

/-- At top level the length of the numeral is that of the byte string. -/
theorem top_big (x : BigInteger) : (big x).top = Bytes.shortest x.signed x.value :=
  rfl

/-- At top level only truth is written. -/
theorem top_bool (b : Bool) : (bool b).top = if b then [1] else [] := by
  cases b <;> rfl

theorem top_bytes (bs : Bytes) : (bytes bs).top = bs :=
  rfl

theorem top_str (s : String) : (str s).top = Utf8.encode s :=
  rfl

/-- The digits of a decimal of fixed scale have the byte string for themselves. -/
theorem top_fixed (d : Decimal) : (decimal (.fixed d)).top = Bytes.shortest false d.digits :=
  rfl

/-- A decimal without a scale in its type needs the frame at top level as well, for the scale stands
behind the digits. -/
theorem top_floating (d : Decimal) : (decimal (.floating d)).top = (decimal (.floating d)).nested :=
  rfl

/-- At top level the number of items is left out. -/
theorem top_list (item : ValueType) (items : List Value) :
    (list item items).top = items.flatMap nested := by
  rw [top, putTop, putItems_eq_block, Put.bytes_block]

theorem top_array (item : ValueType) (length : Nat) (items : List Value) :
    (array item length items).top = items.flatMap nested :=
  nested_array item length items

theorem top_explicit (variants : Option (List String)) (name : String) :
    (explicit variants name).top = Utf8.encode name :=
  rfl

/-- An absent option at top level is the empty byte string. -/
theorem top_absent (item : Option ValueType) : (option item none).top = [] :=
  rfl

/-- A present option keeps its octet in front, which tells it from an absent one. -/
theorem top_present (item : Option ValueType) (v : Value) :
    (option item (some v)).top = (option item (some v)).nested :=
  rfl

/-- Only the variant zero without fields is shorter at top level: it is the empty byte string. -/
theorem top_enum (table : Option EnumType) (discriminant : UInt8) (fields : List (Field Value)) :
    (enum table discriminant fields).top =
      if discriminant = 0 ∧ fields = [] then [] else (enum table discriminant fields).nested := by
  rw [top, putTop_enum, apply_ite Put.bytes]
  rfl

/-! ### Counts -/

/-- Whatever bytes are there, both encoders append to them what they write to none, and answer its
length. The length of the nested encoding is found without keeping any bytes. -/
theorem run_encoders (v : Value) :
    (∀ p : Bytes, v.putNested.run p = (p ++ v.nested, v.nested.length)) ∧
      (∀ p : Bytes, v.putTop.run p = (p ++ v.top, v.top.length)) ∧
      v.nestedLength = v.nested.length := by
  refine ⟨fun p => ?_, fun p => ?_, ?_⟩
  · rw [putNested_eq_block, Put.run_block]
    rfl
  · rw [putTop_eq_block, Put.run_block]
    rfl
  · rw [nestedLength, putNested_eq_block, Put.size_block]

end Value

end CallData
