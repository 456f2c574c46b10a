import CallData.Proofs.Argument.Filling
import CallData.Proofs.Value.NativeRoundTrip

/-!
# Native arguments and back

Arguments come back from their native values as their values do, with one more loss: an argument
that may be left out is left out when what it holds stands for nothing (`Argument.viaNative`). That
is all that is lost (`ArgType.Holds.ofNative_toNative`).
-/

namespace CallData

open Value

/-! ### What native values keep -/

namespace Argument

mutual

/-- What is left of an argument on the way over a native value. -/
def viaNative : Argument → Argument
  | .single v => .single v.viaNative
  | .multi items => .multi (allViaNative items)
  | .optional item none => .optional item none
  | .optional item (some a) =>
    .optional item (if (toNative a).isNull then none else some (viaNative a))
  | .variadic item items => .variadic item (allViaNative items)
  | .counted item items => .counted item (allViaNative items)

/-- What is left of some arguments. -/
def allViaNative : List Argument → List Argument
  | [] => []
  | a :: args => viaNative a :: allViaNative args

end

theorem allViaNative_eq_map (args : List Argument) : allViaNative args = args.map viaNative := by
  induction args with
  | nil => rfl
  | cons a args ih => rw [allViaNative, ih, List.map_cons]

theorem toNatives_eq_map (args : List Argument) : toNatives args = args.map toNative := by
  induction args with
  | nil => rfl
  | cons a args ih => rw [toNatives, ih, List.map_cons]

/-- A present argument that stands for nothing comes back absent. -/
theorem viaNative_present_of_isNull {a : Argument} (h : a.toNative.isNull = true)
    (item : Option ArgType) : (optional item (some a)).viaNative = .optional item none := by
  rw [viaNative, if_pos h]

/-- A present argument that stands for something comes back present, with what is left of it inside.
-/
theorem viaNative_present {a : Argument} (h : a.toNative.isNull = false) (item : Option ArgType) :
    (optional item (some a)).viaNative = .optional item (some a.viaNative) := by
  rw [viaNative, h, if_neg Bool.false_ne_true]

/-! ### Sameness -/

/-- Arguments that are the same have the same native value, and the same is left of them. -/
theorem toNative_eq_and_viaNative_same {a b : Argument} (h : same a b = true) :
    a.toNative = b.toNative ∧ same a.viaNative b.viaNative = true := by
  have row : ∀ as bs : List Argument, List.Forall₂ (fun a b =>
      a.toNative = b.toNative ∧ same a.viaNative b.viaNative = true) as bs →
      toNatives as = toNatives bs ∧
        sameArguments (allViaNative as) (allViaNative bs) = true := by
    intro as bs h
    rw [toNatives_eq_map, toNatives_eq_map, sameArguments_iff, allViaNative_eq_map,
      allViaNative_eq_map, List.forall₂_map_left_iff, List.forall₂_map_right_iff]
    exact ⟨map_eq_of_forall₂ h fun _ _ hab => hab.1, h.imp fun _ _ hab => hab.2⟩
  have seq : ∀ as bs : List Argument, toNatives as = toNatives bs →
      NativeValue.seq (toNatives as) = .seq (toNatives bs) := fun _ _ => congrArg NativeValue.seq
  apply same_induct (h := h)
    (Q := fun a b => a.toNative = b.toNative ∧ same a.viaNative b.viaNative = true)
  case single => exact fun v w h => ⟨toNative_eq_of_same h, viaNative_same h⟩
  case multi => exact fun as bs ih => ⟨seq as bs (row as bs ih).1, (row as bs ih).2⟩
  case absent => exact fun s t => ⟨rfl, rfl⟩
  case present =>
    refine fun s t a b ih => ⟨ih.1, ?_⟩
    rcases hnull : a.toNative.isNull
    · rw [viaNative_present hnull, viaNative_present (ih.1 ▸ hnull)]
      exact ih.2
    · rw [viaNative_present_of_isNull hnull, viaNative_present_of_isNull (ih.1 ▸ hnull)]
      rfl
  case variadic => exact fun s t as bs ih => ⟨seq as bs (row as bs ih).1, (row as bs ih).2⟩
  case counted => exact fun s t as bs ih => ⟨seq as bs (row as bs ih).1, (row as bs ih).2⟩

end Argument

open Argument

/-! ### All types -/

/-- Something holds of every type of values in a type of arguments. -/
inductive ArgType.Over (P : ValueType → Prop) : ArgType → Prop where
  | single {type : ValueType} (h : P type) : Over P (.single type)
  | multi {types : List ArgType} (h : ∀ S ∈ types, Over P S) : Over P (.multi types)
  | optional {item : ArgType} (h : Over P item) : Over P (.optional item)
  | variadic {item : ArgType} (h : Over P item) : Over P (.variadic item)
  | counted {item : ArgType} (h : Over P item) : Over P (.counted item)

/-- Repeated arguments come back from their sequence as each comes back on its own. -/
theorem repeatedOfNative_toNatives {fill : ArgFiller} {args : List Argument}
    (h : ∀ a ∈ args, fill a.toNative = .ok a.viaNative) :
    repeatedOfNative fill (.seq (toNatives args)) = .ok (allViaNative args) := by
  refine repeatedOfNative_eq_ok_iff.mpr ⟨_, rfl, ?_⟩
  rw [toNatives_eq_map, allViaNative_eq_map, List.forall₂_map_left_iff,
    List.forall₂_map_right_iff]
  exact List.forall₂_same.mpr h

/-- An argument of a type is filled in again from the native value that stands for it, but for what
native values leave out. -/
theorem ArgType.Holds.ofNative_toNative {S : ArgType} {a : Argument}
    (h : S.Holds ValueType.Has a) (hS : S.Over ValueType.Unambiguous) :
    S.ofNative a.toNative = .ok a.viaNative := by
  induction S generalizing a with
  | single type =>
    have .single hv := h
    have .single hT := hS
    exact except_bind_eq_ok.mpr ⟨_, hv.ofNative_toNative hT, rfl⟩
  | multi types ih =>
    have @Holds.multi _ _ items hitems := h
    have .multi hS := hS
    have hrow := itemsByPosition_of_forall₂
      (forall₂_imp_of_mem hitems fun S hmem _ _ ha => ih S hmem ha (hS S hmem))
    rw [← rowFillers_eq_map, ← toNatives_eq_map, ← allViaNative_eq_map] at hrow
    exact except_bind_eq_ok.mpr ⟨_, hrow, rfl⟩
  | optional item ih =>
    have .optional hS := hS
    match h with
    | .absent _ => rfl
    | @Holds.present _ _ a ha =>
      rcases hnull : a.toNative.isNull
      · have hne : a.toNative ≠ .null := by
          rw [ne_eq, ← NativeValue.isNull_iff, hnull]
          exact Bool.false_ne_true
        rw [viaNative_present hnull]
        refine (optionalOfNative_of_ne_null hne).trans ?_
        rw [ih ha hS]
        rfl
      · rw [viaNative_present_of_isNull hnull, Argument.toNative, NativeValue.isNull_iff.mp hnull]
        rfl
  | variadic item ih =>
    have .variadic hitems := h
    have .variadic hS := hS
    have hrow := repeatedOfNative_toNatives fun a ha => ih (hitems a ha) hS
    exact except_bind_eq_ok.mpr ⟨_, hrow, rfl⟩
  | counted item ih =>
    have .counted hitems := h
    have .counted hS := hS
    have hrow := repeatedOfNative_toNatives fun a ha => ih (hitems a ha) hS
    exact except_bind_eq_ok.mpr ⟨_, hrow, rfl⟩

/-! ### Argument lists -/

namespace Argument

/-- Arguments come back from as many native values, and none of these has to be made up. -/
theorem fillFrom_toNatives {types : List ArgType} {args : List Argument}
    (h : List.Forall₂ (fun S a => S.ofNative a.toNative = .ok a.viaNative) types args) (i : Nat) :
    fillFrom i (placeholderArguments types) (toNatives args) = .ok (allViaNative args) := by
  induction h generalizing i with
  | nil => rfl
  | @cons S a types args ha _ ih =>
    have hfill : S.placeholder.fill a.toNative = .ok a.viaNative := by
      rw [S.fill_placeholder, ha]
    exact fillFrom_cons_eq_ok_iff.mpr ⟨_, _, hfill, ih (i + 1), rfl⟩

/-- With one native value for each argument, the check of their number is passed. -/
theorem fillList_toNatives {types : List ArgType} {args : List Argument}
    (h : List.Forall₂ (fun S a => S.ofNative a.toNative = .ok a.viaNative) types args) :
    fillList (placeholderArguments types) (toNatives args) = .ok (allViaNative args) := by
  refine fillList_eq_ok_iff.mpr ⟨fillFrom_toNatives h 0, ?_⟩
  rw [placeholderArguments_eq_map, toNatives_eq_map, List.length_map, List.length_map, h.length_eq]

end Argument

/-- A value that conforms to a type is filled in, by the type, from the native value that stands for
it, and is the same again but for absence deep in options and for bits of code metadata without a
name. So are arguments, where what may be left out is left out if it stands for nothing. -/
theorem native_round_trip :
    (∀ (T : ValueType) (v : Value), T.Unambiguous → T.Conforms v →
      ∃ w, T.placeholder.fill v.toNative = .ok w ∧ (v.viaNative == w) = true ∧ T.Has w) ∧
    ∀ (types : List ArgType) (args : List Argument),
      (∀ S ∈ types, S.Over ValueType.Unambiguous) → List.Forall₂ ArgType.Conforms types args →
      ∃ bs, fillList (placeholderArguments types) (toNatives args) = .ok bs ∧
        sameArguments (allViaNative args) bs = true ∧
        List.Forall₂ (ArgType.Holds ValueType.Has) types bs := by
  refine ⟨fun T v hT hv => ?_, fun types args htypes hargs => ?_⟩
  · obtain ⟨w, hw, hsame⟩ := hv
    have hfill := hw.ofNative_toNative hT
    refine ⟨w.viaNative, ?_, viaNative_same hsame, ValueType.ofNative_has hfill⟩
    rw [T.fill_placeholder, toNative_eq_of_same hsame, hfill]
  · obtain ⟨as, has, hsame⟩ := exists_sameArguments_of_conforms hargs
    -- The native values are those of arguments of the types, which are filled in again.
    have hrow := (sameArguments_iff.mp hsame).imp fun _ _ => toNative_eq_and_viaNative_same
    have hnatives : toNatives args = toNatives as := by
      rw [toNatives_eq_map, toNatives_eq_map, map_eq_of_forall₂ hrow fun _ _ hab => hab.1]
    have hfill := forall₂_imp_of_mem has fun S hS _ _ ha => ha.ofNative_toNative (htypes S hS)
    refine ⟨allViaNative as, ?_, ?_, ?_⟩
    · rw [hnatives, fillList_toNatives hfill]
    · rw [sameArguments_iff, allViaNative_eq_map, allViaNative_eq_map, List.forall₂_map_left_iff,
        List.forall₂_map_right_iff]
      exact hrow.imp fun _ _ hab => hab.2
    · rw [allViaNative_eq_map, List.forall₂_map_right_iff]
      exact hfill.imp fun S a ha => ArgType.ofNative_holds ha

/-- The type of a contract: its metadata, and a name that may be missing in two ways. -/
def contractType : ValueType :=
  .struct "Contract" [⟨"metadata", .metadata⟩, ⟨"name", .option (.option .str)⟩]

/-- A contract with every bit of the metadata, and a name that is missing in the second way. -/
def contract : Value :=
  .struct "Contract" [⟨"metadata", .metadata ⟨0xff, 0xff⟩⟩,
    ⟨"name", .option none (some (.option none none))⟩]

theorem optionStr_unambiguous : (ValueType.option .str).Unambiguous := by
  have hstr : ValueType.str.Unambiguous := .intro trivial (List.forall_mem_nil _)
  exact .intro trivial (List.forall_mem_singleton.mpr hstr)

theorem contractType_unambiguous : contractType.Unambiguous := by
  have hmetadata : ValueType.metadata.Unambiguous := .intro trivial (List.forall_mem_nil _)
  have hname : (ValueType.option (.option .str)).Unambiguous :=
    .intro trivial (List.forall_mem_singleton.mpr optionStr_unambiguous)
  have hnames : contractType.HasDistinctNames := by
    change ["metadata", "name"].Nodup
    decide
  exact .intro hnames (List.forall_mem_cons.mpr ⟨hmetadata, List.forall_mem_singleton.mpr hname⟩)

/-- Sameness does not look at the types that options carry, so the contract needs none in its own.
-/
theorem contractType_conforms : contractType.Conforms contract := by
  have hname := ValueType.Has.present (.absent .str)
  exact ⟨_, .struct (.cons (.mk (.metadata ⟨0xff, 0xff⟩)) (.cons (.mk hname) .nil)), by decide⟩

/-- A contract loses the bits without a name and the second way of missing. -/
example : contract.viaNative = .struct "Contract" [⟨"metadata", .metadata ⟨0x05, 0x06⟩⟩,
    ⟨"name", .option none none⟩] := rfl

/-- Types for a contract and, at will, for a name that may itself be missing. -/
def deployTypes : List ArgType :=
  [.single contractType, .optional (.single (.option .str))]

/-- A contract, and a name that is missing. -/
def deploy : List Argument :=
  [.single contract, .optional none (some (.single (.option none none)))]

/-- Both arguments are of their types: the contract, and one that is present and holds an absent
name. -/
theorem deploy_conforms : List.Forall₂ ArgType.Conforms deployTypes deploy := by
  obtain ⟨w, hw, hsame⟩ := contractType_conforms
  have hname := ArgType.Holds.present (.single (ValueType.Has.absent .str))
  exact .cons ⟨_, .single hw, hsame⟩ (.cons ⟨_, hname, by decide⟩ .nil)

theorem deployTypes_unambiguous : ∀ S ∈ deployTypes, S.Over ValueType.Unambiguous := by
  refine List.forall_mem_cons.mpr ⟨.single contractType_unambiguous, ?_⟩
  exact List.forall_mem_singleton.mpr (.optional (.single optionStr_unambiguous))

/-- A contract whose metadata has a bit without a name, and a call with an option that ends in an
absent one: both normalizations take place. -/
theorem contract_and_deploy_round_trip :
    (contractType.Unambiguous ∧ contractType.Conforms contract ∧
      ∃ w, contractType.placeholder.fill contract.toNative = .ok w ∧
        (contract.viaNative == w) = true ∧ contractType.Has w) ∧
    (∀ S ∈ deployTypes, S.Over ValueType.Unambiguous) ∧
      List.Forall₂ ArgType.Conforms deployTypes deploy ∧
      ∃ bs, fillList (placeholderArguments deployTypes) (toNatives deploy) = .ok bs ∧
        sameArguments (allViaNative deploy) bs = true ∧
        List.Forall₂ (ArgType.Holds ValueType.Has) deployTypes bs :=
  ⟨⟨contractType_unambiguous, contractType_conforms,
      native_round_trip.1 _ _ contractType_unambiguous contractType_conforms⟩,
    deployTypes_unambiguous, deploy_conforms,
    native_round_trip.2 _ _ deployTypes_unambiguous deploy_conforms⟩

end CallData
