import CallData.Proofs.Argument.RoundTrip
import CallData.Proofs.Value.InPlace

/-!
# Reading in place of what was read

Whatever is read by a type of arguments is an argument of the type, also where the order of the type
is wrong (`ArgType.read_yields`), and reading in its place is reading by the type again
(`ArgType.Holds.read_eq`). So parts that were read once are read a second time as the same
arguments, unless these do not pass the check of the order that the first reading started with
(`Argument.ofParts_of_ofParts`). That happens: the check looks at the arguments that are held, and a
placeholder holds none of the items that it is going to have.
-/

namespace CallData

/-! ### What steps answer -/

namespace PartStep

open PartBuffer

variable {α β : Type}

/-- Every value that a step answers has a property. -/
def Yields (r : PartStep α) (P : α → Prop) : Prop :=
  ∀ b a b', r b = .ok a b' → P a

theorem Yields.bind {r : PartStep α} {f : α → PartStep β} {P : α → Prop} {Q : β → Prop}
    (h : Yields r P) (h' : ∀ a, P a → Yields (f a) Q) : Yields (r >>= f) Q := by
  intro b c b' hc
  obtain ⟨a, t, ha, hf⟩ := bind_eq_ok.mp hc
  exact h' a (h b a t ha) t c b' hf

theorem Yields.pure {P : α → Prop} {a : α} (h : P a) : Yields (pure a) P := by
  intro b c b' hc
  rwa [(pure_eq_ok.mp hc).1]

theorem Yields.map {r : PartStep α} {P : α → Prop} {Q : β → Prop} {f : α → β} (h : Yields r P)
    (h' : ∀ a, P a → Q (f a)) : Yields (r >>= fun x => Pure.pure (f x)) Q :=
  h.bind fun a ha => Yields.pure (h' a ha)

theorem Yields.insideM {r : PartStep α} {P : α → Prop} (h : Yields r P) (l : Locator) :
    Yields (insideM l r) P :=
  fun b a b' ha => h b a b' (insideM_eq_ok.mp ha)

/-- What is read from a part has the property that the reader of byte strings gives it. -/
theorem readPart_yields {read : Bytes → Except CodecError α} {P : α → Prop}
    (h : ∀ bs a, read bs = .ok a → P a) : Yields (readPart read) P := by
  intro b a b' ha
  obtain ⟨⟨part, -, hread⟩, -⟩ := readPart_eq_ok ha
  exact h part a hread

theorem replicateFrom_yields {item : PartStep α} {P : α → Prop} (h : Yields item P) (n i : Nat) :
    Yields (replicateFrom item n i) fun as => ∀ a ∈ as, P a := by
  induction n generalizing i with
  | zero => exact .pure (by simp)
  | succ n ih =>
    refine (h.insideM (.index i)).bind fun a ha => (ih (i + 1)).map fun as has => ?_
    exact List.forall_mem_cons.mpr ⟨ha, has⟩

theorem manyFrom_yields {item : PartStep α} {P : α → Prop} (h : Yields item P) (i : Nat) :
    Yields (manyFrom item i) fun as => ∀ a ∈ as, P a := by
  intro b as b' has
  apply manyFrom_induct (h := has) (Q := fun _ as _ => ∀ a ∈ as, P a)
  case finished => exact fun _ _ => by simp
  case stuck => exact fun b a t _ hread _ => List.forall_mem_singleton.mpr (h b a t hread)
  case more =>
    exact fun b a t rest b' hread _ hrest => List.forall_mem_cons.mpr ⟨h b a t hread, hrest⟩

end PartStep

open Argument PartStep

/-! ### What types answer -/

/-- In a row with a type for each place, each argument is related to the type of its place. -/
theorem readRow_yields {R : ArgType → Argument → Prop} {types : List ArgType}
    (h : ∀ S ∈ types, Yields S.read (R S)) (i : Nat) :
    Yields (readRow i (rowReaders types)) (List.Forall₂ R types) := by
  induction types generalizing i with
  | nil => exact .pure .nil
  | cons S types ih =>
    rw [List.forall_mem_cons] at h
    exact (h.1.insideM (.index i)).bind fun a ha => (ih h.2 (i + 1)).map fun _ => .cons ha

/-- An argument that may be left out is left out, or holds what its item may be. -/
theorem readOptional_yields {itemType : Option ArgType} {item : PartStep Argument}
    {P : Argument → Prop} (h : Yields item P) : Yields (readOptional itemType item) fun a =>
      a = .optional itemType none ∨ ∃ b, P b ∧ a = .optional itemType (some b) := by
  intro b a b' ha
  obtain ⟨t, t', -, ha⟩ := bind_eq_ok.mp ha
  split at ha
  case isTrue => exact .inl (pure_eq_ok.mp ha).1
  case isFalse =>
    obtain ⟨c, t'', hc, ha⟩ := bind_eq_ok.mp ha
    exact .inr ⟨c, h t' c t'' hc, (pure_eq_ok.mp ha).1⟩

/-- Held arguments that read as their types do read, as a row, as the row of types does. -/
theorem heldReaders_eq_rowReaders {types : List ArgType} {args : List Argument}
    (h : List.Forall₂ (fun S a => a.read = S.read) types args) :
    heldReaders args = rowReaders types := by
  induction h with
  | nil => rfl
  | cons ha _ ih => rw [heldReaders, rowReaders, ha, ih]

namespace ArgType

/-- Whatever is read by a type is an argument of it. -/
theorem read_yields (S : ArgType) : Yields S.read (S.Holds ValueType.HasTop) := by
  induction S with
  | single type =>
    refine (readPart_yields fun bs v hv => ?_).map fun _ => Holds.single
    exact (ValueType.hasTop_of_readTop hv).1
  | multi types ih => exact (readRow_yields ih 0).map fun _ => .multi
  | optional item ih =>
    intro b a b' ha
    obtain rfl | ⟨c, hc, rfl⟩ := readOptional_yields ih b a b' ha
    · exact .absent item
    · exact .present hc
  | variadic item ih => exact (manyFrom_yields ih 0).map fun _ => .variadic
  | counted item ih =>
    have hcount : Yields readCount fun _ => True := fun _ _ _ _ => trivial
    exact hcount.bind fun n _ => (replicateFrom_yields ih n 0).map fun _ => .counted

/-- Reading in place of an argument of a type is reading by the type. -/
theorem Holds.read_eq {S : ArgType} {a : Argument} (h : S.Holds ValueType.HasTop a) :
    a.read = S.read := by
  induction S generalizing a with
  | single type =>
    have @Holds.single _ _ v h := h
    have hread : v.readTop = type.placeholder.readTop := funext h.readTop_eq
    rw [Argument.read, ArgType.read, hread]
  | multi types ih =>
    have @Holds.multi _ _ items h := h
    have hrow := heldReaders_eq_rowReaders (forall₂_imp_of_mem h fun S hS _ _ ha => ih S hS ha)
    rw [Argument.read, ArgType.read, hrow]
  | optional item ih =>
    match h with
    | .absent _ | .present _ => rfl
  | variadic item ih =>
    have .variadic _ := h
    rfl
  | counted item ih =>
    have .counted _ := h
    rfl

end ArgType

/-! ### Reading again -/

namespace Argument

/-- Arguments that were read from parts are in order where their types are. Only if they are in
order do they have parts again, and are they read again, in place of themselves, from the parts
that they were read from: nothing else can go wrong, and nothing changes. -/
theorem ofParts_of_ofParts {types : List ArgType} {parts : List Bytes} {args : List Argument}
    (h : ofParts (placeholderArguments types) parts = .ok args) :
    (EndsIn ArgType.Delimited ArgType.Trailing types → checkOrder args = .ok ()) ∧
      ((∃ parts', toParts args = .ok parts') ↔ checkOrder args = .ok ()) ∧
      ofParts args parts = (checkOrder args).map fun _ => args := by
  obtain ⟨-, b, hread, hend⟩ := ofParts_eq_ok_iff.mp h
  rw [heldReaders_placeholderArguments] at hread
  have hholds := readRow_yields (fun S _ => S.read_yields) 0 _ args b hread
  refine ⟨fun htypes => ?_, ?_, ?_⟩
  · rw [checkOrder_eq_ok_iff]
    exact htypes.of_forall₂ (hholds.imp fun S a ha => ⟨ha.delimited, ha.trailing⟩)
  · rw [toParts_eq]
    simp only [except_map_eq_ok]
    exact ⟨fun ⟨_, (), horder, _⟩ => horder, fun horder => ⟨_, (), horder, rfl⟩⟩
  · rcases horder : checkOrder args with e | ⟨⟩
    · rw [ofParts, decode, horder]
      rfl
    · rw [← heldReaders_eq_rowReaders (hholds.imp fun S a ha => ha.read_eq)] at hread
      exact ofParts_eq_ok_iff.mpr ⟨horder, b, hread, hend⟩

/-- A number and a flag that were read, and are read again in place of themselves. -/
theorem ofParts_flagged : ofParts (placeholderArguments flaggedTypes) [[0, 5], [0]] = .ok flagged ∧
    (EndsIn ArgType.Delimited ArgType.Trailing flaggedTypes → checkOrder flagged = .ok ()) ∧
      ((∃ parts', toParts flagged = .ok parts') ↔ checkOrder flagged = .ok ()) ∧
      ofParts flagged [[0, 5], [0]] = (checkOrder flagged).map fun _ => flagged := by
  have hread : ofParts (placeholderArguments flaggedTypes) [[0, 5], [0]] = .ok flagged := rfl
  exact ⟨hread, ofParts_of_ofParts hread⟩

/-- Types for flags behind their count, each of which may be left out: these are out of order as
soon as there is one. -/
def voteTypes : List ArgType :=
  [.counted (.optional (.single .bool))]

/-- Arguments for these types, with one flag. -/
def votes : List Argument :=
  [.counted (.optional (.single .bool))
    [.optional (some (.single .bool)) (some (.single (.bool true)))]]

/-- What is wrong with the order of these arguments. -/
def misplacedVote : CodecError :=
  .inside (.index 0) (.of (.misplaced "optional value" 0 1))

/-- The check that passes for the placeholders fails for what is read into them. -/
theorem ofParts_votes : ofParts (placeholderArguments voteTypes) [[1], [1]] = .ok votes ∧
    checkOrder votes = .error misplacedVote ∧ toParts votes = .error misplacedVote ∧
      ofParts votes [[1], [1]] = .error misplacedVote :=
  ⟨rfl, rfl, rfl, rfl⟩

end Argument

end CallData
