import CallData.Proofs.Sameness
import CallData.Value.Native

/-!
# What native values keep

A native value says nothing of the type that it stands for, and of a value itself it leaves out two
things: how deep in options an absent one lies, and the bits of code metadata that have no name.
`Value.viaNative` is a value without them. It depends only on what the value holds
(`Value.viaNative_same`), and so does the native value itself (`Value.toNative_eq_of_same`).
-/

namespace CallData

/-! ### Nothing -/

/-- Whether a native value is `null`. -/
def NativeValue.isNull : NativeValue → Bool
  | null => true
  | _ => false

theorem NativeValue.isNull_iff {n : NativeValue} : n.isNull = true ↔ n = .null := by
  cases n <;> simp [isNull]

/-- The metadata with no other bits than those that have a name. -/
def CodeMetadata.named (m : CodeMetadata) : CodeMetadata :=
  ⟨m.first &&& 0x05, m.second &&& 0x06⟩

namespace Value

/-- Whether a value is an option that is absent, or present with such an option in it. -/
def endsAbsent : Value → Bool
  | .option _ none => true
  | .option _ (some v) => endsAbsent v
  | _ => false

mutual

/-- What is left of a value on the way over a native value: options that end in an absent one are
absent, and code metadata has no bit without a name. -/
def viaNative : Value → Value
  | .metadata m => .metadata m.named
  | .list item items => .list item (itemsViaNative items)
  | .array item length items => .array item length (itemsViaNative items)
  | .struct name fields => .struct name (fieldsViaNative fields)
  | .tuple items => .tuple (itemsViaNative items)
  | .enum table discriminant fields => .enum table discriminant (fieldsViaNative fields)
  | .option item (some v) => .option item (if v.endsAbsent then none else some (viaNative v))
  | v => v

/-- What is left of some values. -/
def itemsViaNative : List Value → List Value
  | [] => []
  | v :: items => viaNative v :: itemsViaNative items

/-- What is left of the values of fields. -/
def fieldsViaNative : List (Field Value) → List (Field Value)
  | [] => []
  | ⟨name, v⟩ :: fields => ⟨name, viaNative v⟩ :: fieldsViaNative fields

end

/-! ### Rows -/

theorem itemsViaNative_eq_map (items : List Value) :
    itemsViaNative items = items.map viaNative := by
  induction items with
  | nil => rfl
  | cons v items ih => rw [itemsViaNative, ih, List.map_cons]

theorem fieldsViaNative_eq_map (fields : List (Field Value)) :
    fieldsViaNative fields = fields.map fun f => ⟨f.name, f.value.viaNative⟩ := by
  induction fields with
  | nil => rfl
  | cons f fields ih => rw [fieldsViaNative, ih, List.map_cons]

theorem nativeItems_eq_map (items : List Value) : nativeItems items = items.map toNative := by
  induction items with
  | nil => rfl
  | cons v items ih => rw [nativeItems, ih, List.map_cons]

theorem nativeFields_eq_map (fields : List (Field Value)) :
    nativeFields fields = fields.map fun f => ⟨f.name, f.value.toNative⟩ := by
  induction fields with
  | nil => rfl
  | cons f fields ih => rw [nativeFields, ih, List.map_cons]

/-! ### Absence -/

/-- An option that ends in an absent one stands for nothing, and no other value does. -/
theorem isNull_toNative (v : Value) : v.toNative.isNull = v.endsAbsent := by
  induction v with
  | present item v ih => exact ih
  | _ => rfl

/-- However deep in options nothing lies, what is left is one absent option. -/
theorem viaNative_present_of_endsAbsent {v : Value} (h : v.endsAbsent = true)
    (item : Option ValueType) : (option item (some v)).viaNative = .option item none := by
  rw [viaNative, if_pos h]

/-- An option with a value at its end is kept, with all the options in it. -/
theorem viaNative_present {v : Value} (h : v.endsAbsent = false) (item : Option ValueType) :
    (option item (some v)).viaNative = .option item (some v.viaNative) := by
  rw [viaNative, h, if_neg Bool.false_ne_true]

/-! ### Sameness -/

/-- Values that are the same have the same native value. -/
theorem toNative_eq_of_same {a b : Value} (h : same a b = true) : a.toNative = b.toNative := by
  have items : ∀ as bs : List Value, List.Forall₂ (fun a b => a.toNative = b.toNative) as bs →
      nativeItems as = nativeItems bs := by
    intro as bs h
    rw [nativeItems_eq_map, nativeItems_eq_map, map_eq_of_forall₂ h fun _ _ h => h]
  have fields : ∀ as bs : List (Field Value),
      List.Forall₂ (Field.Rel fun a b => a.toNative = b.toNative) as bs →
      nativeFields as = nativeFields bs := by
    intro as bs h
    rw [nativeFields_eq_map, nativeFields_eq_map]
    exact map_eq_of_forall₂ h fun _ _ ⟨h⟩ => congrArg (Field.mk _) h
  apply same_induct (Q := fun a b => a.toNative = b.toNative) (h := h)
  case list => exact fun s t as bs ih => congrArg NativeValue.seq (items as bs ih)
  case array => exact fun s t n as bs ih => congrArg NativeValue.seq (items as bs ih)
  case struct =>
    exact fun name as bs ih =>
      congrArg (fun fs => NativeValue.record (.ofList fs)) (fields as bs ih)
  case tuple => exact fun as bs ih => congrArg NativeValue.seq (items as bs ih)
  case enum =>
    exact fun s t d as bs ih =>
      congrArg (fun fs => NativeValue.record (.ofList (_ :: fs))) (fields as bs ih)
  case present => exact fun s t a b ih => ih
  all_goals
    intros
    rfl

/-- What is left of values that are the same is the same. -/
theorem viaNative_same {a b : Value} (h : same a b = true) :
    same a.viaNative b.viaNative = true := by
  -- An option is left as it is or becomes absent: the two have to do so together.
  suffices hboth : a.endsAbsent = b.endsAbsent ∧ same a.viaNative b.viaNative = true from hboth.2
  have items : ∀ as bs : List Value, List.Forall₂ (fun a b =>
      a.endsAbsent = b.endsAbsent ∧ same a.viaNative b.viaNative = true) as bs →
      sameItems (itemsViaNative as) (itemsViaNative bs) = true := by
    intro as bs h
    rw [sameItems_iff, itemsViaNative_eq_map, itemsViaNative_eq_map, List.forall₂_map_left_iff,
      List.forall₂_map_right_iff]
    exact h.imp fun _ _ hab => hab.2
  have fields : ∀ as bs : List (Field Value), List.Forall₂ (Field.Rel fun a b =>
      a.endsAbsent = b.endsAbsent ∧ same a.viaNative b.viaNative = true) as bs →
      sameFields (fieldsViaNative as) (fieldsViaNative bs) = true := by
    intro as bs h
    rw [sameFields_iff, fieldsViaNative_eq_map, fieldsViaNative_eq_map, List.forall₂_map_left_iff,
      List.forall₂_map_right_iff]
    exact h.imp fun _ _ ⟨hab⟩ => .mk hab.2
  apply same_induct (h := h)
    (Q := fun a b => a.endsAbsent = b.endsAbsent ∧ same a.viaNative b.viaNative = true)
  case list => exact fun s t as bs ih => ⟨rfl, items as bs ih⟩
  case array =>
    exact fun s t n as bs ih =>
      ⟨rfl, Bool.and_eq_true_iff.mpr ⟨beq_self_eq_true n, items as bs ih⟩⟩
  case struct =>
    exact fun name as bs ih =>
      ⟨rfl, Bool.and_eq_true_iff.mpr ⟨beq_self_eq_true name, fields as bs ih⟩⟩
  case tuple => exact fun as bs ih => ⟨rfl, items as bs ih⟩
  case enum =>
    exact fun s t d as bs ih =>
      ⟨rfl, Bool.and_eq_true_iff.mpr ⟨beq_self_eq_true d, fields as bs ih⟩⟩
  case present =>
    refine fun s t a b ih => ⟨ih.1, ?_⟩
    rcases hends : a.endsAbsent
    · rw [viaNative_present hends, viaNative_present (ih.1 ▸ hends)]
      exact ih.2
    · rw [viaNative_present_of_endsAbsent hends, viaNative_present_of_endsAbsent (ih.1 ▸ hends)]
      rfl
  case explicit => exact fun s t name => ⟨rfl, beq_self_eq_true name⟩
  case absent => exact fun s t => ⟨rfl, rfl⟩
  all_goals
    intros
    exact ⟨rfl, same_refl _⟩

end Value

end CallData
