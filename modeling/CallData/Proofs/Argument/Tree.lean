import CallData.Argument
import CallData.Proofs.Sameness

/-!
# Trees of arguments

Types of arguments, and arguments, hold rows of others; their induction principles, which
`induction` takes up, assume of each the property of everything in those rows.
`Argument.Everywhere` says that something holds at each node of an argument, and
`Argument.same_induct` reasons along two arguments that hold the same.
-/

namespace CallData

/-! ### Induction -/

section Types

set_option linter.unusedSectionVars false

variable {P : ArgType → Prop}
  (single : ∀ type, P (.single type))
  (multi : ∀ types, (∀ S ∈ types, P S) → P (.multi types))
  (optional : ∀ item, P item → P (.optional item))
  (variadic : ∀ item, P item → P (.variadic item))
  (counted : ∀ item, P item → P (.counted item))

include single multi optional variadic counted

mutual

/-- A type of arguments has a property when each has it whose parts have it. -/
@[induction_eliminator]
theorem ArgType.induct (S : ArgType) : P S := by
  match S with
  | .single type => exact single type
  | .multi types => exact multi types (ArgType.induct_row types)
  | .optional item => exact optional item item.induct
  | .variadic item => exact variadic item item.induct
  | .counted item => exact counted item item.induct

/-- The part of the recursion that goes through a row of types. -/
private theorem ArgType.induct_row (types : List ArgType) : ∀ S ∈ types, P S := by
  match types with
  | [] => simp
  | S :: types => exact List.forall_mem_cons.mpr ⟨S.induct, ArgType.induct_row types⟩

end

end Types

section Arguments

set_option linter.unusedSectionVars false

variable {P : Argument → Prop}
  (single : ∀ v, P (.single v))
  (multi : ∀ items, (∀ a ∈ items, P a) → P (.multi items))
  (absent : ∀ itemType, P (.optional itemType none))
  (present : ∀ itemType a, P a → P (.optional itemType (some a)))
  (variadic : ∀ itemType items, (∀ a ∈ items, P a) → P (.variadic itemType items))
  (counted : ∀ itemType items, (∀ a ∈ items, P a) → P (.counted itemType items))

include single multi absent present variadic counted

mutual

/-- An argument has a property when each has it whose parts have it. -/
@[induction_eliminator]
theorem Argument.induct (a : Argument) : P a := by
  match a with
  | .single v => exact single v
  | .multi items => exact multi items (Argument.induct_row items)
  | .optional itemType none => exact absent itemType
  | .optional itemType (some a) => exact present itemType a a.induct
  | .variadic itemType items => exact variadic itemType items (Argument.induct_row items)
  | .counted itemType items => exact counted itemType items (Argument.induct_row items)

private theorem Argument.induct_row (items : List Argument) : ∀ a ∈ items, P a := by
  match items with
  | [] => simp
  | a :: items => exact List.forall_mem_cons.mpr ⟨a.induct, Argument.induct_row items⟩

end

end Arguments

namespace Argument

/-! ### Nodes -/

/-- Something holds of an argument and of every argument in it. -/
inductive Everywhere (P : Argument → Prop) : Argument → Prop where
  | single {v : Value} (h : P (.single v)) : Everywhere P (.single v)
  | multi {items : List Argument} (h : P (.multi items)) (hitems : ∀ a ∈ items, Everywhere P a) :
      Everywhere P (.multi items)
  | absent {itemType : Option ArgType} (h : P (.optional itemType none)) :
      Everywhere P (.optional itemType none)
  | present {itemType : Option ArgType} {a : Argument} (h : P (.optional itemType (some a)))
      (hheld : Everywhere P a) : Everywhere P (.optional itemType (some a))
  | variadic {itemType : ArgType} {items : List Argument} (h : P (.variadic itemType items))
      (hitems : ∀ a ∈ items, Everywhere P a) : Everywhere P (.variadic itemType items)
  | counted {itemType : ArgType} {items : List Argument} (h : P (.counted itemType items))
      (hitems : ∀ a ∈ items, Everywhere P a) : Everywhere P (.counted itemType items)

/-! ### Sameness -/

/-- Rows are the same if they are as long and the same member by member. -/
theorem sameArguments_iff {as bs : List Argument} :
    sameArguments as bs = true ↔ List.Forall₂ (fun a b => same a b = true) as bs := by
  induction as generalizing bs with
  | nil => cases bs <;> simp [sameArguments]
  | cons a as ih => cases bs <;> simp [sameArguments, ih]

/-- A relation holds between all arguments that are the same when it passes from their parts, in
pairs, to the whole. -/
theorem same_induct {Q : Argument → Argument → Prop}
    (single : ∀ v w, v.same w = true → Q (.single v) (.single w))
    (multi : ∀ as bs, List.Forall₂ Q as bs → Q (.multi as) (.multi bs))
    (absent : ∀ s t, Q (.optional s none) (.optional t none))
    (present : ∀ s t a b, Q a b → Q (.optional s (some a)) (.optional t (some b)))
    (variadic : ∀ s t as bs, List.Forall₂ Q as bs → Q (.variadic s as) (.variadic t bs))
    (counted : ∀ s t as bs, List.Forall₂ Q as bs → Q (.counted s as) (.counted t bs))
    {a b : Argument} (h : same a b = true) : Q a b := by
  have row : ∀ {as bs : List Argument}, (∀ a ∈ as, ∀ {b}, same a b = true → Q a b) →
      sameArguments as bs = true → List.Forall₂ Q as bs := fun ih h =>
    forall₂_imp_of_mem (sameArguments_iff.mp h) fun a ha _ _ hab => ih a ha hab
  induction a generalizing b with
  | single v =>
    match b, h with
    | .single w, h => exact single v w h
  | multi as ih =>
    match b, h with
    | .multi bs, h => exact multi as bs (row ih h)
  | absent s =>
    match b, h with
    | .optional t none, _ => exact absent s t
  | present s a ih =>
    match b, h with
    | .optional t (some b), h => exact present s t a b (ih h)
  | variadic s as ih =>
    match b, h with
    | .variadic t bs, h => exact variadic s t as bs (row ih h)
  | counted s as ih =>
    match b, h with
    | .counted t bs, h => exact counted s t as bs (row ih h)

end Argument

end CallData
