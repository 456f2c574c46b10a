import CallData.Argument.Native
import CallData.Proofs.Argument.InPlace
import CallData.Proofs.Value.Filling

/-!
# Filling arguments in

As with values, whatever a type of arguments is filled in with from a native value is an argument of
the type (`ArgType.ofNative_holds`), and filling in an argument of a type is filling in the type
(`ArgType.Holds.fill_eq`).
-/

namespace CallData

open Value

theorem rowFillers_eq_map (types : List ArgType) :
    rowFillers types = types.map ArgType.ofNative := by
  induction types with
  | nil => rfl
  | cons S types ih => rw [rowFillers, ih, List.map_cons]

/-- Anything but `null` fills in what an optional argument holds. -/
theorem optionalOfNative_of_ne_null {item : Option ArgType} {fill : ArgFiller} {n : NativeValue}
    (h : n ≠ .null) :
    optionalOfNative item fill n = (fill n).map fun a => .optional item (some a) := by
  cases n with
  | null => exact absurd rfl h
  | _ => exact except_bind_pure

/-- Repeated arguments are filled in from a sequence, each from its own member. -/
theorem repeatedOfNative_eq_ok_iff {fill : ArgFiller} {n : NativeValue} {args : List Argument} :
    repeatedOfNative fill n = .ok args ↔
      ∃ natives, n = .seq natives ∧ List.Forall₂ (fun n a => fill n = .ok a) natives args := by
  rw [repeatedOfNative, except_bind_eq_ok]
  simp only [NativeValue.items_eq_ok_iff, eachOfNative_eq_ok_iff]

/-- Held arguments that fill as their types do fill, as a row, as the row of types does. -/
theorem fillAll_eq_rowFillers {types : List ArgType} {args : List Argument}
    (h : List.Forall₂ (fun S a => a.fill = S.ofNative) types args) :
    Argument.fillAll args = rowFillers types := by
  induction h with
  | nil => rfl
  | cons ha _ ih => rw [Argument.fillAll, rowFillers, ha, ih]

namespace ArgType

/-- What holds between a type and what is repeated holds of repeated arguments filled in. -/
theorem repeatedOfNative_yields {item : ArgType} {P : Argument → Prop} {n : NativeValue}
    {args : List Argument} (h : ∀ n a, item.ofNative n = .ok a → P a)
    (hargs : repeatedOfNative item.ofNative n = .ok args) : ∀ a ∈ args, P a := by
  obtain ⟨natives, -, hargs⟩ := repeatedOfNative_eq_ok_iff.mp hargs
  exact eachOfNative_yields h (eachOfNative_eq_ok_iff (i := 0).mpr hargs)

/-- Whatever a type is filled in with is an argument of the type. -/
theorem ofNative_holds {S : ArgType} {n : NativeValue} {a : Argument} (h : S.ofNative n = .ok a) :
    S.Holds ValueType.Has a := by
  induction S generalizing n a with
  | single type =>
    obtain ⟨v, hv, ⟨⟩⟩ := except_bind_eq_ok.mp h
    exact .single (ValueType.ofNative_has hv)
  | multi types ih =>
    obtain ⟨items, hitems, ⟨⟩⟩ := except_bind_eq_ok.mp h
    rw [rowFillers_eq_map] at hitems
    exact .multi (itemsByPosition_yields (fun S hS n a => ih S hS) hitems)
  | optional item ih =>
    by_cases hnull : n = .null
    · subst hnull
      obtain ⟨⟩ := h
      exact .absent item
    · obtain ⟨b, hb, rfl⟩ := except_map_eq_ok.mp ((optionalOfNative_of_ne_null hnull).symm.trans h)
      exact .present (ih hb)
  | variadic item ih =>
    obtain ⟨items, hitems, ⟨⟩⟩ := except_bind_eq_ok.mp h
    exact .variadic (repeatedOfNative_yields (fun n a => ih) hitems)
  | counted item ih =>
    obtain ⟨items, hitems, ⟨⟩⟩ := except_bind_eq_ok.mp h
    exact .counted (repeatedOfNative_yields (fun n a => ih) hitems)

/-- What is known of the values of a type may be weakened throughout an argument. -/
theorem Holds.mono {P Q : ValueType → Value → Prop} (hPQ : ∀ T v, P T v → Q T v) {S : ArgType}
    {a : Argument} (h : S.Holds P a) : S.Holds Q a := by
  induction S generalizing a with
  | single type =>
    have .single h := h
    exact .single (hPQ _ _ h)
  | multi types ih =>
    have .multi h := h
    exact .multi (forall₂_imp_of_mem h fun S hS a _ ha => ih S hS ha)
  | optional item ih =>
    match h with
    | .absent _ => exact .absent item
    | .present h => exact .present (ih h)
  | variadic item ih =>
    have .variadic h := h
    exact .variadic fun a ha => ih (h a ha)
  | counted item ih =>
    have .counted h := h
    exact .counted fun a ha => ih (h a ha)

/-- Filling in an argument of a type is filling in the type. -/
theorem Holds.fill_eq {S : ArgType} {a : Argument} (h : S.Holds ValueType.HasTop a) :
    a.fill = S.ofNative := by
  induction S generalizing a with
  | single type =>
    have .single h := h
    rw [Argument.fill, ArgType.ofNative, h.fill_eq]
  | multi types ih =>
    have .multi h := h
    have hrow := fillAll_eq_rowFillers (forall₂_imp_of_mem h fun S hS _ _ ha => ih S hS ha)
    rw [Argument.fill, ArgType.ofNative, hrow]
  | optional item ih =>
    match h with
    | .absent _ | .present _ => rfl
  | variadic item ih =>
    have .variadic _ := h
    rfl
  | counted item ih =>
    have .counted _ := h
    rfl

end ArgType

/-! ### Argument lists -/

namespace Argument

variable {as bs : List Argument} {natives : List NativeValue}

/-- Each argument is filled in from its own native value, or from `null` when there is none left. -/
theorem fillFrom_cons_eq_ok_iff {a : Argument} {i : Nat} :
    fillFrom i (a :: as) natives = .ok bs ↔ ∃ b rest, a.fill (natives.headD .null) = .ok b ∧
      fillFrom (i + 1) as natives.tail = .ok rest ∧ bs = b :: rest := by
  rw [fillFrom, except_cons_eq_ok]
  simp only [inside_eq_ok]

/-- Only with all arguments filled in does it count that there are more native values. -/
theorem fillList_eq_ok_iff :
    fillList as natives = .ok bs ↔ fillFrom 0 as natives = .ok bs ∧ natives.length ≤ as.length := by
  rw [fillList, except_bind_eq_ok]
  constructor
  · rintro ⟨filled, hfilled, h⟩
    by_cases hlt : as.length < natives.length
    · rw [if_pos hlt] at h
      exact absurd h fail_ne_ok
    · rw [if_neg hlt] at h
      obtain ⟨⟩ := h
      exact ⟨hfilled, not_lt.mp hlt⟩
  · rintro ⟨hfilled, hle⟩
    refine ⟨bs, hfilled, ?_⟩
    rw [if_neg (not_lt.mpr hle)]
    rfl

end Argument

end CallData
