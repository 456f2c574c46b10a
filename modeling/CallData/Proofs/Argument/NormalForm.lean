import CallData.Proofs.Argument.RoundTrip

/-!
# Arguments in normal form

An argument that fits the wire may lose something on the way over its parts: an optional argument
that has no part to show for it, or the items of a value that take no byte. There is always one that
loses nothing and *replaces* it (`Argument.ReplacedBy`): it contributes the same parts, and it may
stand wherever the other may (`ArgType.Holds.exists_restores`). So arguments in order are read, if
not as what they were, as arguments with the same parts (`Argument.exists_ofParts_flatMap_flat`).
-/

namespace CallData

/-! ### Values -/

/-- Items without bytes leave no trace at top level, so the value is written as it would be without
them. -/
theorem Value.top_withoutItems {v : Value} (h : v.LosesItems) : v.withoutItems.top = v.top := by
  match v, h with
  | .list item items, h =>
    rw [withoutItems, top_list, top_list, List.flatMap_eq_nil_iff.mpr h.2]
    rfl
  | .array item length items, h =>
    rw [withoutItems, top_array, top_array, List.flatMap_eq_nil_iff.mpr h.2]
    rfl

/-- The top-level encoding of a value of a type that fits the wire is that of one that is read back
from it. -/
theorem ValueType.Has.exists_readTop_top {T : ValueType} {v : Value} (h : T.Has v)
    (hfits : v.FitsTop) : ∃ w, T.placeholder.readTop w.top = .ok w ∧ w.top = v.top := by
  by_cases hloses : T.LosesItems v
  · have htop := Value.top_withoutItems ((HasTop.has h).losesItems_iff.mp hloses)
    have hread := h.readTop_top_of_losesItems hloses
    rw [← htop] at hread
    exact ⟨v.withoutItems, hread, htop⟩
  · exact ⟨v, h.readTop_top hfits hloses, rfl⟩

namespace Argument

/-! ### Replacing arguments -/

/-- An argument is replaced by one that contributes the same parts and may stand wherever it may. -/
structure ReplacedBy (a b : Argument) : Prop where
  flat_eq : a.flat = b.flat
  delimited : a.Delimited → b.Delimited
  trailing : a.Trailing → b.Trailing

theorem ReplacedBy.refl (a : Argument) : a.ReplacedBy a :=
  ⟨rfl, id, id⟩

section Rows

variable {as bs : List Argument} (h : List.Forall₂ ReplacedBy as bs)

include h

/-- What takes the place of an argument has the same parts. -/
theorem flatMap_flat_eq_of_replacedBy : as.flatMap flat = bs.flatMap flat :=
  flatMap_eq_of_forall₂ h fun _ _ hab => hab.flat_eq

theorem forall_delimited_of_replacedBy (has : ∀ a ∈ as, a.Delimited) : ∀ b ∈ bs, b.Delimited :=
  forall_mem_of_forall₂ h (fun _ _ hab => hab.delimited) has

/-- A call stays in order when its arguments are replaced. -/
theorem endsIn_of_replacedBy (has : EndsIn Delimited Trailing as) : EndsIn Delimited Trailing bs :=
  has.of_forall₂ (h.imp fun _ _ hab => ⟨hab.delimited, hab.trailing⟩)

end Rows

/-- Leaving out arguments that contribute no part leaves the parts as they are. -/
theorem flatMap_flat_filter (as : List Argument) :
    (as.filter fun a => !a.flat.isEmpty).flatMap flat = as.flatMap flat := by
  induction as with
  | nil => rfl
  | cons a as ih =>
    by_cases hnil : a.flat = []
    · rw [List.filter_cons_of_neg (by simp [hnil]), List.flatMap_cons, hnil, ih]
      rfl
    · rw [List.filter_cons_of_pos (by simp [hnil]), List.flatMap_cons, List.flatMap_cons, ih]

end Argument

open Argument

/-! ### Normal forms -/

/-- An argument of a type that fits the wire is replaced by one that the type restores. -/
theorem ArgType.Holds.exists_restores {S : ArgType} {a : Argument} (h : S.Holds ValueType.Has a)
    (hfits : a.Fits) : ∃ b, S.Restores b ∧ a.ReplacedBy b := by
  have items : ∀ {S : ArgType} {as : List Argument},
      (∀ a ∈ as, ∃ b, S.Restores b ∧ a.ReplacedBy b) →
      ∃ bs, (∀ b ∈ bs, S.Restores b) ∧ List.Forall₂ ReplacedBy as bs := by
    intro S as has
    obtain ⟨bs, hbs, hreplaced⟩ := exists_forall₂_of_forall₂ (List.forall₂_same.mpr has)
    exact ⟨bs, forall_mem_of_forall₂ hbs (fun _ _ hb _ => hb) fun _ _ => trivial, hreplaced⟩
  induction S generalizing a with
  | single type =>
    have @single _ _ v h := h
    have .single hfits := hfits
    obtain ⟨w, hread, htop⟩ := h.exists_readTop_top hfits
    refine ⟨.single w, .single hread, ?_, fun _ => .single w, fun _ => .single w⟩
    rw [flat_single, flat_single, htop]
  | multi types ih =>
    have @multi _ _ as h := h
    have .multi _ hfits := hfits
    obtain ⟨bs, hbs, hreplaced⟩ := exists_forall₂_of_forall₂
      (forall₂_imp_of_mem h fun S hS a ha hSa => ih S hS hSa (hfits a ha))
    refine ⟨.multi bs, .multi hbs, ?_, fun | .multi has => ?_, fun | .multi has => ?_⟩
    · rw [flat_multi, flat_multi, flatMap_flat_eq_of_replacedBy hreplaced]
    · exact .multi (forall_delimited_of_replacedBy hreplaced has)
    · exact .multi (endsIn_of_replacedBy hreplaced has)
  | optional item ih =>
    match h with
    | .absent _ => exact ⟨_, .absent item, .refl _⟩
    | @present _ _ a h =>
      have .present _ hfits := hfits
      obtain ⟨b, hb, hreplaced⟩ := ih h hfits
      by_cases hnil : b.flat = []
      · -- Nothing shows that the argument is there.
        refine ⟨_, .absent item, ?_, nofun, fun _ => .absent _⟩
        rw [flat_present, hreplaced.flat_eq, hnil, flat_absent]
      · refine ⟨_, .present hb hnil, hreplaced.flat_eq, nofun, fun | .present _ ha => ?_⟩
        exact .present _ (hreplaced.trailing ha)
  | variadic item ih =>
    have @variadic _ _ as h := h
    have .variadic _ hfits := hfits
    obtain ⟨bs, hbs, hreplaced⟩ := items fun a ha => ih (h a ha) (hfits a ha)
    -- Items that contribute no part are left out.
    have hmem : ∀ b ∈ bs.filter fun b => !b.flat.isEmpty, b ∈ bs ∧ b.flat ≠ [] := by simp
    refine ⟨.variadic item (bs.filter fun b => !b.flat.isEmpty), ?_, ?_, nofun, ?_⟩
    · exact .variadic (fun b hb => hbs b (hmem b hb).1) fun b hb => (hmem b hb).2
    · rw [flat_variadic, flat_variadic, flatMap_flat_filter,
        flatMap_flat_eq_of_replacedBy hreplaced]
    · refine fun | .variadic _ has => .variadic item fun b hb => ?_
      exact forall_delimited_of_replacedBy hreplaced has b (hmem b hb).1
  | counted item ih =>
    have @counted _ _ as h := h
    have .counted hlen hfits := hfits
    obtain ⟨bs, hbs, hreplaced⟩ := items fun a ha => ih (h a ha) (hfits a ha)
    have hlength := hreplaced.length_eq
    refine ⟨.counted item bs, .counted hbs (hlength ▸ hlen), ?_, fun | .counted _ has => ?_,
      fun | .counted _ has => ?_⟩
    · rw [flat_counted, flat_counted, hlength, flatMap_flat_eq_of_replacedBy hreplaced]
    · exact .counted item (forall_delimited_of_replacedBy hreplaced has)
    · exact .counted item (forall_delimited_of_replacedBy hreplaced has)

/-- Arguments in order that conform to some types and fit the wire are read, from their parts, as
arguments with the same parts. -/
theorem Argument.exists_ofParts_flatMap_flat {types : List ArgType} {args : List Argument}
    (h : List.Forall₂ ArgType.Conforms types args) (horder : checkOrder args = .ok ())
    (hfits : ∀ a ∈ args, a.Fits) :
    ∃ bs, ofParts (placeholderArguments types) (args.flatMap flat) = .ok bs ∧
      checkOrder bs = .ok () ∧ bs.flatMap flat = args.flatMap flat := by
  obtain ⟨as, has, hsame⟩ := exists_sameArguments_of_conforms h
  have hfits' := forall_mem_of_forall₂ (sameArguments_iff.mp hsame) (fun _ _ => Fits.of_same) hfits
  -- The arguments of the types are replaced in turn by what they are read as.
  obtain ⟨bs, hbs, hreplaced⟩ := exists_forall₂_of_forall₂
    (forall₂_imp_of_mem has fun S _ a ha hSa => hSa.exists_restores (hfits' a ha))
  have horder' : checkOrder bs = .ok () := by
    have hends := (checkOrder_eq_ok_iff as).mp (checkOrder_eq_ok_of_same hsame horder)
    exact (checkOrder_eq_ok_iff bs).mpr (endsIn_of_replacedBy hreplaced hends)
  rw [flatMap_flat_eq_of_same hsame, flatMap_flat_eq_of_replacedBy hreplaced]
  exact ⟨bs, ofParts_flatMap_flat hbs horder', horder', rfl⟩

end CallData
