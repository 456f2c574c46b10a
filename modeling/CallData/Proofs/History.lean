import CallData.Proofs.Argument.Filling

/-!
# Values and arguments that have a history

A placeholder is read into and filled in again and again, and each time takes in what the operation
answers. What it holds on the way, and may hand on, leaves no mark: on whatever a placeholder has
become, each operation does what it does on the placeholder
(`ValueType.Reaches.governs`, `ArgType.Reaches.governs`). Most of this is known of the values of the
type; a byte string of its own may leave an array with any number of items, which the next operation
looks past.
-/

namespace CallData

/-! ### Values -/

/-- The values that the placeholder of a type becomes by operations that succeed. -/
inductive ValueType.Reaches (T : ValueType) : Value → Prop where
  | placeholder : Reaches T T.placeholder
  | readNested {v w : Value} {c c' : Cursor} (hv : Reaches T v) (h : v.readNested c = .ok w c') :
      Reaches T w
  | readTop {v w : Value} {bs : Bytes} (hv : Reaches T v) (h : v.readTop bs = .ok w) : Reaches T w
  | fill {v w : Value} {n : NativeValue} (hv : Reaches T v) (h : v.fill n = .ok w) : Reaches T w

/-- Each operation on a value does what it does on the placeholder of a type. -/
structure ValueType.Governs (T : ValueType) (v : Value) : Prop where
  readNested_eq : v.readNested = T.placeholder.readNested
  readTop_eq : v.readTop = T.placeholder.readTop
  fill_eq : v.fill = T.placeholder.fill

namespace ValueType

variable {T : ValueType} {v w : Value}

theorem governs_placeholder (T : ValueType) : T.Governs T.placeholder :=
  ⟨rfl, rfl, rfl⟩

/-- What a type may have become at top level is governed by the type: all three operations look past
what is held. -/
theorem HasTop.governs (h : T.HasTop v) : T.Governs v := by
  refine ⟨?_, funext h.readTop_eq, ?_⟩
  · rw [h.readNested_eq, T.readNested_placeholder]
  · rw [h.fill_eq, T.fill_placeholder]

/-- Reading in place of what a type governs answers a value of the type. -/
theorem Governs.has_of_readNested (h : T.Governs v) {c c' : Cursor}
    (hw : v.readNested c = .ok w c') : T.Has w := by
  rw [h.readNested_eq, T.readNested_placeholder] at hw
  exact (T.readNested_yields c w c' hw).1

/-- From a byte string of its own, it answers what a decoder at top level may. -/
theorem Governs.hasTop_of_readTop (h : T.Governs v) {bs : Bytes} (hw : v.readTop bs = .ok w) :
    T.HasTop w := by
  rw [h.readTop_eq] at hw
  exact (ValueType.hasTop_of_readTop hw).1

/-- Filling in answers a value of the type, whatever was held. -/
theorem Governs.has_of_fill (h : T.Governs v) {n : NativeValue} (hw : v.fill n = .ok w) :
    T.Has w := by
  rw [h.fill_eq, T.fill_placeholder] at hw
  exact ofNative_has hw

/-- Whatever the placeholder of a type has become is governed by the type. -/
theorem Reaches.governs (h : T.Reaches v) : T.Governs v := by
  induction h with
  | placeholder => exact T.governs_placeholder
  | readNested _ hw ih => exact (HasTop.has (ih.has_of_readNested hw)).governs
  | readTop _ hw ih => exact (ih.hasTop_of_readTop hw).governs
  | fill _ hw ih => exact (HasTop.has (ih.has_of_fill hw)).governs

end ValueType

/-! ### Arguments -/

/-- The arguments that the placeholder of a type becomes by operations that succeed. -/
inductive ArgType.Reaches (S : ArgType) : Argument → Prop where
  | placeholder : Reaches S S.placeholder
  | read {a c : Argument} {b b' : PartBuffer} (ha : Reaches S a) (h : a.read b = .ok c b') :
      Reaches S c
  | fill {a c : Argument} {n : NativeValue} (ha : Reaches S a) (h : a.fill n = .ok c) : Reaches S c

/-- Each operation on an argument does what it does on the placeholder of a type. -/
structure ArgType.Governs (S : ArgType) (a : Argument) : Prop where
  read_eq : a.read = S.placeholder.read
  fill_eq : a.fill = S.placeholder.fill

namespace ArgType

variable {S : ArgType} {a c : Argument}

theorem governs_placeholder (S : ArgType) : S.Governs S.placeholder :=
  ⟨rfl, rfl⟩

/-- An argument that holds nothing but values which types may have become is governed by its own
type. -/
theorem Holds.governs (h : S.Holds ValueType.HasTop a) : S.Governs a := by
  constructor
  · rw [h.read_eq, S.read_placeholder]
  · rw [h.fill_eq, S.fill_placeholder]

/-- Reading parts in place of an argument that a type governs answers an argument of the type, whose
values are what types may have become. -/
theorem Governs.holds_of_read (h : S.Governs a) {b b' : PartBuffer} (hc : a.read b = .ok c b') :
    S.Holds ValueType.HasTop c := by
  rw [h.read_eq, S.read_placeholder] at hc
  exact S.read_yields b c b' hc

/-- Filling in an argument that a type governs answers one with values of the types alone. -/
theorem Governs.holds_of_fill (h : S.Governs a) {n : NativeValue} (hc : a.fill n = .ok c) :
    S.Holds ValueType.Has c := by
  rw [h.fill_eq, S.fill_placeholder] at hc
  exact ofNative_holds hc

/-- Whatever the placeholder of a type has become is governed by the type. -/
theorem Reaches.governs (h : S.Reaches a) : S.Governs a := by
  induction h with
  | placeholder => exact S.governs_placeholder
  | read _ hc ih => exact (ih.holds_of_read hc).governs
  | fill _ hc ih => exact ((ih.holds_of_fill hc).mono fun _ _ => .has).governs

end ArgType

/-! ### Nothing but the type counts -/

/-- Whatever a placeholder has become, reading into it and filling it in come to the same as with
the placeholder itself, answers and errors alike, and each answer is a value of the type; only a
byte string of its own may give an array another number of items than its type declares. -/
theorem outcomes_of_reaches :
    (∀ (T : ValueType) (v : Value), T.Reaches v →
      (∀ c, v.readNested c = T.placeholder.readNested c) ∧
      (∀ bs, v.readTop bs = T.placeholder.readTop bs) ∧
      (∀ n, v.fill n = T.placeholder.fill n) ∧
      (∀ c w c', v.readNested c = .ok w c' → T.Has w) ∧
      (∀ bs w, v.readTop bs = .ok w → T.HasTop w) ∧ ∀ n w, v.fill n = .ok w → T.Has w) ∧
    ∀ (S : ArgType) (a : Argument), S.Reaches a →
      (∀ b, a.read b = S.placeholder.read b) ∧ ∀ n, a.fill n = S.placeholder.fill n := by
  refine ⟨fun T v hv => ?_, fun S a ha => ?_⟩
  · have h := hv.governs
    exact ⟨congrFun h.readNested_eq, congrFun h.readTop_eq, congrFun h.fill_eq,
      fun c w c' => h.has_of_readNested, fun bs w => h.hasTop_of_readTop, fun n w => h.has_of_fill⟩
  · exact ⟨congrFun ha.governs.read_eq, congrFun ha.governs.fill_eq⟩

/-- The type of two octets. -/
def pairType : ValueType :=
  .array (.int .w8 false) 2

/-- Three octets in the place of two. -/
def triple : Value :=
  .array (.int .w8 false) 2 [.int (.ofOctet 1), .int (.ofOctet 2), .int (.ofOctet 3)]

/-- Three octets are no value of the type, and yet read by it. -/
theorem pairType_reaches_triple : pairType.Reaches triple := by
  have hhas : pairType.HasTop triple := by
    refine .array 2 (List.forall_mem_cons.mpr ⟨FixedInt.ofOctet_has 1, ?_⟩)
    refine List.forall_mem_cons.mpr ⟨FixedInt.ofOctet_has 2, ?_⟩
    exact List.forall_mem_singleton.mpr (FixedInt.ofOctet_has 3)
  have hfits : triple.FitsTop := by
    refine .array (List.forall_mem_cons.mpr ⟨.int _, List.forall_mem_cons.mpr ⟨.int _, ?_⟩⟩)
    exact List.forall_mem_singleton.mpr (.int _)
  have hkept : ¬ pairType.LosesItems triple := fun h => nomatch h.1
  exact .readTop .placeholder (hhas.readTop_top hfits hkept)

/-- The type of a flag that may be left out. -/
def flagType : ArgType :=
  .optional (.single .bool)

/-- A flag that is set. -/
def flag : Argument :=
  .optional (some (.single .bool)) (some (.single (.bool true)))

theorem flagType_reaches_flag : flagType.Reaches flag := by
  have hread : flagType.placeholder.read (.ofParts [[1]]) = .ok flag ⟨[[1]], 1⟩ := rfl
  exact .read .placeholder hread

/-- Three octets where two belong, and a flag that is there, are read into and filled in like the
placeholders of their types. -/
theorem outcomes_triple_and_flag :
    (pairType.Reaches triple ∧ (∀ c, triple.readNested c = pairType.placeholder.readNested c) ∧
      (∀ bs, triple.readTop bs = pairType.placeholder.readTop bs) ∧
      (∀ n, triple.fill n = pairType.placeholder.fill n) ∧
      (∀ c w c', triple.readNested c = .ok w c' → pairType.Has w) ∧
      (∀ bs w, triple.readTop bs = .ok w → pairType.HasTop w) ∧
      ∀ n w, triple.fill n = .ok w → pairType.Has w) ∧
    flagType.Reaches flag ∧ (∀ b, flag.read b = flagType.placeholder.read b) ∧
      ∀ n, flag.fill n = flagType.placeholder.fill n :=
  ⟨⟨pairType_reaches_triple, outcomes_of_reaches.1 _ _ pairType_reaches_triple⟩,
    flagType_reaches_flag, outcomes_of_reaches.2 _ _ flagType_reaches_flag⟩

end CallData
