import CallData.Proofs.Argument.Order
import CallData.Proofs.Value.Top

/-!
# Arguments of a type

`ArgType.Holds` says which arguments a type of arguments has, given which values each type of
values has. An argument *conforms* to a type (`ArgType.Conforms`) when it is the same as one that
is made throughout of values of their types.

Two more properties stand between an argument and its parts. It *fits* the wire
(`Argument.Fits`) when its values and its counts do. It *leaves a trace* (`Argument.LeavesTrace`)
when nothing in it is lost for want of a part, or of a byte, to show for it.
-/

namespace CallData

/-! ### Shapes -/

/-- The arguments of a type, made of values that are related to their types. -/
inductive ArgType.Holds (P : ValueType → Value → Prop) : ArgType → Argument → Prop where
  | single {type : ValueType} {v : Value} (h : P type v) : Holds P (.single type) (.single v)
  | multi {types : List ArgType} {items : List Argument} (h : List.Forall₂ (Holds P) types items) :
      Holds P (.multi types) (.multi items)
  | absent (item : ArgType) : Holds P (.optional item) (.optional (some item) none)
  | present {item : ArgType} {a : Argument} (h : Holds P item a) :
      Holds P (.optional item) (.optional (some item) (some a))
  | variadic {item : ArgType} {items : List Argument} (h : ∀ a ∈ items, Holds P item a) :
      Holds P (.variadic item) (.variadic item items)
  | counted {item : ArgType} {items : List Argument} (h : ∀ a ∈ items, Holds P item a) :
      Holds P (.counted item) (.counted item items)

/-- An argument conforms to a type when it is the same as an argument of the type. -/
def ArgType.Conforms (S : ArgType) (a : Argument) : Prop :=
  ∃ b, S.Holds ValueType.Has b ∧ (a == b) = true

/-- Arguments that conform to some types are, in a row, the same as arguments of these types. -/
theorem exists_sameArguments_of_conforms {types : List ArgType} {args : List Argument}
    (h : List.Forall₂ ArgType.Conforms types args) :
    ∃ bs, List.Forall₂ (ArgType.Holds ValueType.Has) types bs ∧
      Argument.sameArguments args bs = true := by
  obtain ⟨bs, hbs, hsame⟩ := exists_forall₂_of_forall₂ h
  exact ⟨bs, hbs, Argument.sameArguments_iff.mpr hsame⟩

theorem placeholderArguments_eq_map (types : List ArgType) :
    placeholderArguments types = types.map ArgType.placeholder := by
  induction types with
  | nil => rfl
  | cons S types ih => rw [placeholderArguments, ih, List.map_cons]

namespace ArgType.Holds

variable {P : ValueType → Value → Prop}

/-! ### Order -/

/-- An argument of a delimited type is delimited. -/
theorem delimited {S : ArgType} {a : Argument} (h : S.Holds P a) (hS : S.Delimited) :
    a.Delimited := by
  induction S generalizing a with
  | single type =>
    have .single _ := h
    exact .single _
  | multi types ih =>
    have .multi h := h
    have .multi hS := hS
    have hitems := forall₂_imp_of_mem h fun S hS a _ ha => ih S hS ha
    exact .multi (forall_mem_of_forall₂ hitems (fun _ _ ha => ha) hS)
  | optional item ih => nomatch hS
  | variadic item ih => nomatch hS
  | counted item ih =>
    have .counted h := h
    have .counted hS := hS
    exact .counted item fun a ha => ih (h a ha) hS

/-- An argument of a trailing type is trailing. -/
theorem trailing {S : ArgType} {a : Argument} (h : S.Holds P a) (hS : S.Trailing) :
    a.Trailing := by
  induction S generalizing a with
  | single type =>
    have .single _ := h
    exact .single _
  | multi types ih =>
    have .multi h := h
    have .multi hS := hS
    refine .multi (hS.of_forall₂ (forall₂_imp_of_mem h fun S hS a _ ha => ?_))
    exact ⟨ha.delimited, ih S hS ha⟩
  | optional item ih =>
    have .optional hS := hS
    match h with
    | .absent _ => exact .absent _
    | .present h => exact .present _ (ih h hS)
  | variadic item ih =>
    have .variadic h := h
    have .variadic hS := hS
    exact .variadic item fun a ha => (h a ha).delimited hS
  | counted item ih =>
    have .counted h := h
    have .counted hS := hS
    exact .counted item fun a ha => (h a ha).delimited hS

/-- The placeholder of a type is in order wherever an argument of the type is: it has the shape of
the type, and no items that could be out of order. -/
theorem placeholder_delimited_and_trailing {S : ArgType} {a : Argument} (h : S.Holds P a) :
    (a.Delimited → S.placeholder.Delimited) ∧ (a.Trailing → S.placeholder.Trailing) := by
  induction S generalizing a with
  | single type => exact ⟨fun _ => .single _, fun _ => .single _⟩
  | multi types ih =>
    have @Holds.multi _ _ items h := h
    have hrow : List.Forall₂ (fun a p : Argument =>
        (a.Delimited → p.Delimited) ∧ (a.Trailing → p.Trailing)) items
        (placeholderArguments types) := by
      rw [placeholderArguments_eq_map, List.forall₂_map_right_iff]
      exact (forall₂_imp_of_mem h fun S hS a _ ha => ih S hS ha).flip
    refine ⟨fun | .multi hitems => ?_, fun | .multi hitems => ?_⟩
    · exact .multi (forall_mem_of_forall₂ hrow (fun _ _ ha => ha.1) hitems)
    · exact .multi (hitems.of_forall₂ hrow)
  | optional item ih =>
    refine ⟨fun ha => ?_, fun _ => .absent _⟩
    match h with
    | .absent _ | .present _ => nomatch ha
  | variadic item ih =>
    have .variadic _ := h
    exact ⟨nofun, fun _ => .variadic item (by simp)⟩
  | counted item ih => exact ⟨fun _ => .counted item (by simp), fun _ => .counted item (by simp)⟩

end ArgType.Holds

/-- Where arguments of some types are in order, so are the placeholders of the types. -/
theorem checkOrder_placeholderArguments {P : ValueType → Value → Prop} {types : List ArgType}
    {args : List Argument} (h : List.Forall₂ (ArgType.Holds P) types args)
    (horder : Argument.checkOrder args = .ok ()) :
    Argument.checkOrder (placeholderArguments types) = .ok () := by
  rw [Argument.checkOrder_eq_ok_iff] at horder ⊢
  have hmulti : (ArgType.multi types).Holds P (.multi args) := .multi h
  have .multi htypes := hmulti.placeholder_delimited_and_trailing.2 (.multi horder)
  exact htypes

/-! ### Room and trace -/

namespace Argument

/-- Four bytes have room for every count and, where this is written, for the length of every
payload and the number of items of every list in an argument. -/
def Fits : Argument → Prop :=
  Everywhere fun
    | single v => v.FitsTop
    | counted _ items => items.length < 2 ^ 32
    | _ => True

/-- Whatever an argument holds shows in its parts: every optional argument that is present and
every item of a variadic one contributes some part, and no value loses its items. -/
def LeavesTrace : Argument → Prop :=
  Everywhere fun
    | single v => ¬ v.LosesItems
    | optional _ (some a) => a.flat ≠ []
    | variadic _ items => ∀ a ∈ items, a.flat ≠ []
    | _ => True

/-- What holds at each node of an argument holds at each node of one that is the same, if it
depends only on what is held there. -/
theorem Everywhere.of_same {P : Argument → Prop} (hP : ∀ a b, same a b = true → P a → P b)
    {a b : Argument} (h : same a b = true) (ha : a.Everywhere P) : b.Everywhere P := by
  suffices hboth : same a b = true ∧ (a.Everywhere P → b.Everywhere P) from hboth.2 ha
  have row : ∀ {as bs : List Argument}, List.Forall₂ (fun a b =>
      same a b = true ∧ (a.Everywhere P → b.Everywhere P)) as bs →
      sameArguments as bs = true ∧
        ((∀ a ∈ as, a.Everywhere P) → ∀ b ∈ bs, b.Everywhere P) := fun h =>
    ⟨sameArguments_iff.mpr (h.imp fun _ _ hab => hab.1),
      forall_mem_of_forall₂ h fun _ _ hab => hab.2⟩
  apply same_induct (h := h)
    (Q := fun a b => same a b = true ∧ (a.Everywhere P → b.Everywhere P))
  case single =>
    exact fun v w h => ⟨h, fun | .single hv => .single (hP (.single v) (.single w) h hv)⟩
  case multi =>
    refine fun as bs ih => ⟨(row ih).1, fun | .multi has hitems => ?_⟩
    exact .multi (hP (.multi as) (.multi bs) (row ih).1 has) ((row ih).2 hitems)
  case absent =>
    exact fun s t => ⟨rfl, fun | .absent hs => .absent (hP _ (.optional t none) rfl hs)⟩
  case present =>
    refine fun s t a b ih => ⟨ih.1, fun | .present hs ha => ?_⟩
    exact .present (hP (.optional s (some a)) (.optional t (some b)) ih.1 hs) (ih.2 ha)
  case variadic =>
    refine fun s t as bs ih => ⟨(row ih).1, fun | .variadic has hitems => ?_⟩
    exact .variadic (hP (.variadic s as) (.variadic t bs) (row ih).1 has) ((row ih).2 hitems)
  case counted =>
    refine fun s t as bs ih => ⟨(row ih).1, fun | .counted has hitems => ?_⟩
    exact .counted (hP (.counted s as) (.counted t bs) (row ih).1 has) ((row ih).2 hitems)

/-- Whether an argument fits the wire depends only on what it holds. -/
theorem Fits.of_same {a b : Argument} (h : same a b = true) (ha : a.Fits) : b.Fits := by
  refine Everywhere.of_same (fun a b h => ?_) h ha
  match a, b, h with
  | .single v, .single w, h => exact Value.FitsTop.of_same h
  | .counted s as, .counted t bs, h =>
    intro has
    change bs.length < 2 ^ 32
    rwa [← (sameArguments_iff.mp h).length_eq]
  | .multi _, .multi _, _ | .optional _ none, .optional _ none, _
  | .optional _ (some _), .optional _ (some _), _ | .variadic .., .variadic .., _ =>
    exact fun _ => trivial

theorem LeavesTrace.of_same {a b : Argument} (h : same a b = true) (ha : a.LeavesTrace) :
    b.LeavesTrace := by
  refine Everywhere.of_same (fun a b h => ?_) h ha
  match a, b, h with
  | .single v, .single w, h => exact mt (Value.losesItems_iff_of_same h).mpr
  | .optional _ (some a), .optional _ (some b), h =>
    intro ha
    change b.flat ≠ []
    rwa [← flat_eq_of_same (a := a) (b := b) h]
  | .variadic s as, .variadic t bs, h =>
    refine forall_mem_of_forall₂ (sameArguments_iff.mp h) fun a b hab ha => ?_
    rwa [← flat_eq_of_same hab]
  | .multi _, .multi _, _ | .optional _ none, .optional _ none, _ | .counted .., .counted .., _ =>
    exact fun _ => trivial

end Argument

end CallData
