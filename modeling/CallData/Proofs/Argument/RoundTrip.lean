import CallData.Proofs.Argument.Restores

/-!
# Arguments of a call and back

The parts of the arguments of a call are read back as arguments that are the same
(`Argument.conforms_round_trip`). Parts that are read as arguments need not be those that the
arguments are written to, but these are as many and are read as the same arguments
(`Argument.toParts_of_ofParts`).
-/

namespace CallData

open PartStep

namespace Argument

/-! ### Calls -/

/-- The arguments of a call are read like those in a row. -/
theorem readFrom_eq_ok_iff {i : Nat} (j : Nat) {args as : List Argument} {b b' : PartBuffer} :
    readFrom i args b = .ok as b' ↔ readRow j (heldReaders args) b = .ok as b' := by
  induction args generalizing i j as b b' with
  | nil => exact Iff.rfl
  | cons held args ih =>
    rw [readFrom, heldReaders, readRow]
    simp only [bind_eq_ok, insideM_eq_ok, ih (j + 1)]

/-- Parts are read as arguments if what is read into is in order, and all parts are used up. -/
theorem ofParts_eq_ok_iff {args as : List Argument} {parts : List Bytes} :
    ofParts args parts = .ok as ↔ checkOrder args = .ok () ∧
      ∃ b, readRow 0 (heldReaders args) (PartBuffer.ofParts parts) = .ok as b ∧ b.ahead = [] := by
  rw [ofParts, decode, except_seq_eq_ok]
  refine and_congr_right fun _ => ?_
  simp only [← readFrom_eq_ok_iff (i := 0) 0]
  rcases readFrom 0 args (PartBuffer.ofParts parts) with ⟨bs, b⟩ | ⟨e, b⟩
  · rw [except_seq_eq_ok, PartBuffer.checkAtEnd_eq_ok_iff]
    constructor
    · rintro ⟨hb, ⟨⟩⟩
      exact ⟨b, rfl, hb⟩
    · rintro ⟨b, ⟨⟩, hb⟩
      exact ⟨hb, rfl⟩
  · simp

/-- Arguments in order that their types restore are read back from their parts. -/
theorem ofParts_flatMap_flat {types : List ArgType} {args : List Argument}
    (h : List.Forall₂ ArgType.Restores types args) (horder : checkOrder args = .ok ()) :
    ofParts (placeholderArguments types) (args.flatMap flat) = .ok args := by
  have hholds := h.imp fun S a ha => ha.holds
  have hreads := h.imp fun S a ha => ha.reads
  have hread := readRow_reads_of_endsIn hreads ((checkOrder_eq_ok_iff args).mp horder) 0
    (PartBuffer.ofParts (args.flatMap flat)) [] (fun _ => rfl) (List.append_nil _).symm
  rw [← heldReaders_placeholderArguments] at hread
  refine ofParts_eq_ok_iff.mpr ⟨checkOrder_placeholderArguments hholds horder, _, hread, ?_⟩
  rw [PartBuffer.ahead_moved]
  exact List.drop_length

/-! ### From arguments to parts and back -/

/-- Arguments that conform to types are read back by them as the same, though not as what they
carried for decoding. -/
theorem exists_ofParts_of_conforms {types : List ArgType} {args : List Argument}
    (h : List.Forall₂ ArgType.Conforms types args) (horder : checkOrder args = .ok ())
    (hfits : ∀ a ∈ args, a.Fits) (htrace : ∀ a ∈ args, a.LeavesTrace) :
    ∃ bs, ofParts (placeholderArguments types) (args.flatMap flat) = .ok bs ∧
      sameArguments args bs = true := by
  -- What is read back are the arguments that carry the types: they leave the same parts.
  obtain ⟨bs, hbs, hsame⟩ := exists_sameArguments_of_conforms h
  have hrow := sameArguments_iff.mp hsame
  have hfits' := forall_mem_of_forall₂ hrow (fun _ _ => Fits.of_same) hfits
  have htrace' := forall_mem_of_forall₂ hrow (fun _ _ => LeavesTrace.of_same) htrace
  have hrestores : List.Forall₂ ArgType.Restores types bs :=
    forall₂_imp_of_mem hbs fun S _ b hb h => h.restores (hfits' b hb) (htrace' b hb)
  rw [flatMap_flat_eq_of_same hsame]
  exact ⟨bs, ofParts_flatMap_flat hrestores (checkOrder_eq_ok_of_same hsame horder), hsame⟩

/-- A delimited one is read back whatever parts come behind its own. -/
theorem exists_reads_of_conforms {S : ArgType} {a : Argument} (h : S.Conforms a)
    (hdelimited : a.Delimited) (hfits : a.Fits) (htrace : a.LeavesTrace) :
    ∃ b, Reads false S.read a.flat b ∧ (a == b) = true := by
  obtain ⟨b, hb, hsame⟩ := h
  have hrestores := hb.restores (hfits.of_same hsame) (htrace.of_same hsame)
  rw [flat_eq_of_same hsame]
  exact ⟨b, hrestores.reads.1 (hdelimited.of_same hsame), hsame⟩

/-- Arguments in order that conform to some types, fit the wire and leave a trace are read back
from their parts. A delimited one among such arguments is read back by itself from its parts,
whatever stands around them, and the focus moves to what comes behind. -/
theorem conforms_round_trip :
    (∀ types args, List.Forall₂ ArgType.Conforms types args → checkOrder args = .ok () →
      (∀ a ∈ args, a.Fits) → (∀ a ∈ args, a.LeavesTrace) →
      ∃ parts bs, toParts args = .ok parts ∧
        ofParts (placeholderArguments types) parts = .ok bs ∧ sameArguments args bs = true) ∧
    ∀ S a, ArgType.Conforms S a → a.Delimited → a.Fits → a.LeavesTrace →
      ∃ parts b, toParts [a] = .ok parts ∧ (a == b) = true ∧
        ∀ pre more, S.placeholder.read ⟨pre ++ (parts ++ more), pre.length⟩ =
          .ok b ⟨pre ++ (parts ++ more), pre.length + parts.length⟩ := by
  refine ⟨fun types args h horder hfits htrace => ?_, fun S a h hdelimited hfits htrace => ?_⟩
  · obtain ⟨bs, hread, hsame⟩ := exists_ofParts_of_conforms h horder hfits htrace
    exact ⟨args.flatMap flat, bs, toParts_eq_ok horder, hread, hsame⟩
  · obtain ⟨b, hreads, hsame⟩ := exists_reads_of_conforms h hdelimited hfits htrace
    have horder : checkOrder [a] = .ok () :=
      (checkOrder_eq_ok_iff [a]).mpr (.last hdelimited.trailing)
    refine ⟨a.flat, b, ?_, hsame, fun pre more => ?_⟩
    · rw [toParts_eq_ok horder, List.flatMap_singleton]
    · rw [S.read_placeholder]
      exact hreads _ more nofun List.drop_left

/-- Types for a call: an order, some flags, and at will a flag with remarks. -/
def callTypes : List ArgType :=
  [.single orderType, .counted (.single .bool),
    .optional (.multi [.single .bool, .variadic (.single .str)])]

/-- The flags of a call. -/
def callFlags : Argument :=
  .counted (.single .bool) [.single (.bool true), .single (.bool false)]

/-- A call for these types. -/
def call : List Argument :=
  [.single order, callFlags, .optional none
    (some (.multi [.single (.bool false), .variadic (.single .str) [.single (.str "é")]]))]

theorem callFlags_conforms : (ArgType.counted (.single .bool)).Conforms callFlags := by
  have hflag : ∀ b, (ArgType.single .bool).Holds ValueType.Has (.single (.bool b)) := fun b =>
    .single (.bool b)
  refine ⟨callFlags, .counted ?_, by decide⟩
  rw [List.forall_mem_cons, List.forall_mem_singleton]
  exact ⟨hflag true, hflag false⟩

theorem callFlags_fits : callFlags.Fits := by
  have hflag : ∀ b, (single (.bool b)).Fits := fun b => Everywhere.single (Value.Fits.bool b)
  refine Everywhere.counted (by decide) ?_
  rw [List.forall_mem_cons, List.forall_mem_singleton]
  exact ⟨hflag true, hflag false⟩

theorem callFlags_leavesTrace : callFlags.LeavesTrace := by
  have hflag : ∀ b, (single (.bool b)).LeavesTrace := fun b => Everywhere.single id
  refine Everywhere.counted trivial ?_
  rw [List.forall_mem_cons, List.forall_mem_singleton]
  exact ⟨hflag true, hflag false⟩

theorem call_conforms : List.Forall₂ ArgType.Conforms callTypes call := by
  obtain ⟨w, hw, hsame⟩ := order_conforms
  have horder : (ArgType.single orderType).Conforms (.single order) :=
    ⟨.single w, .single hw, hsame⟩
  have hremark : ∀ s, (ArgType.single .str).Holds ValueType.Has (.single (.str s)) := fun s =>
    .single (.str s)
  have hremarks : (ArgType.variadic (.single .str)).Holds ValueType.Has
      (.variadic (.single .str) [.single (.str "é")]) :=
    .variadic (List.forall_mem_singleton.mpr (hremark "é"))
  have hflag : (ArgType.single .bool).Holds ValueType.Has (.single (.bool false)) :=
    .single (.bool false)
  have hlast := ArgType.Holds.multi (.cons hflag (.cons hremarks .nil))
  exact .cons horder (.cons callFlags_conforms (.cons ⟨_, .present hlast, by decide⟩ .nil))

theorem call_fits : ∀ a ∈ call, a.Fits := by
  have hremark : (single (.str "é")).Fits := Everywhere.single trivial
  have hflag : (single (.bool false)).Fits := Everywhere.single (Value.Fits.bool false)
  have hremarks : (variadic (.single .str) [.single (.str "é")]).Fits :=
    Everywhere.variadic trivial (List.forall_mem_singleton.mpr hremark)
  have hlast := List.forall_mem_cons.mpr ⟨hflag, List.forall_mem_singleton.mpr hremarks⟩
  refine List.forall_mem_cons.mpr ⟨Everywhere.single order_fits.fitsTop, ?_⟩
  refine List.forall_mem_cons.mpr ⟨callFlags_fits, List.forall_mem_singleton.mpr ?_⟩
  exact Everywhere.present trivial (Everywhere.multi trivial hlast)

/-- The optional argument of the call has the part of its flag, and the remark a part of its own. -/
theorem call_leavesTrace : ∀ a ∈ call, a.LeavesTrace := by
  have hremark : (single (.str "é")).LeavesTrace := Everywhere.single id
  have hflag : (single (.bool false)).LeavesTrace := Everywhere.single id
  have hremarks : (variadic (.single .str) [.single (.str "é")]).LeavesTrace := by
    refine Everywhere.variadic ?_ (List.forall_mem_singleton.mpr hremark)
    exact List.forall_mem_singleton.mpr (List.cons_ne_nil _ _)
  have hlast := List.forall_mem_cons.mpr ⟨hflag, List.forall_mem_singleton.mpr hremarks⟩
  refine List.forall_mem_cons.mpr ⟨Everywhere.single id, ?_⟩
  refine List.forall_mem_cons.mpr ⟨callFlags_leavesTrace, List.forall_mem_singleton.mpr ?_⟩
  exact Everywhere.present (List.cons_ne_nil _ _) (Everywhere.multi trivial hlast)

/-- A call with counted arguments and, at its end, an optional row that ends in repeated ones; and
the counted arguments alone, in the middle of any parts. -/
theorem call_round_trip :
    (∃ parts bs, toParts call = .ok parts ∧
      ofParts (placeholderArguments callTypes) parts = .ok bs ∧ sameArguments call bs = true) ∧
    ∃ parts b, toParts [callFlags] = .ok parts ∧ (callFlags == b) = true ∧
      ∀ pre more, (ArgType.counted (.single .bool)).placeholder.read
        ⟨pre ++ (parts ++ more), pre.length⟩ =
          .ok b ⟨pre ++ (parts ++ more), pre.length + parts.length⟩ := by
  have hdelimited : callFlags.Delimited := by
    refine .counted _ (List.forall_mem_cons.mpr ⟨.single _, ?_⟩)
    exact List.forall_mem_singleton.mpr (.single _)
  exact ⟨conforms_round_trip.1 _ _ call_conforms rfl call_fits call_leavesTrace,
    conforms_round_trip.2 _ _ callFlags_conforms hdelimited callFlags_fits callFlags_leavesTrace⟩

/-! ### From parts to arguments and back -/

/-- Parts that arguments of types in order are read from are no fewer and no more than those that
the arguments are written to, and from these the same arguments are read. -/
theorem toParts_of_ofParts {types : List ArgType} {parts : List Bytes} {args : List Argument}
    (htypes : EndsIn ArgType.Delimited ArgType.Trailing types)
    (h : ofParts (placeholderArguments types) parts = .ok args) :
    ∃ parts', toParts args = .ok parts' ∧ parts'.length = parts.length ∧
      ofParts (placeholderArguments types) parts' = .ok args := by
  obtain ⟨-, b, hread, hend⟩ := ofParts_eq_ok_iff.mp h
  rw [heldReaders_placeholderArguments] at hread
  obtain ⟨rfl, hle, hrestores⟩ :=
    readRow_takes_of_endsIn (fun S _ => S.takes) htypes 0 _ args b hread
  have hrestores := hrestores fun _ => hend
  have horder : checkOrder args = .ok () := by
    rw [checkOrder_eq_ok_iff]
    exact htypes.of_forall₂ (hrestores.imp fun S a ha => ⟨ha.holds.delimited, ha.holds.trailing⟩)
  -- No part is left, so the arguments took all there were.
  have hge : parts.length ≤ (args.flatMap flat).length := by
    rw [PartBuffer.ahead_moved] at hend
    exact List.drop_eq_nil_iff.mp hend
  exact ⟨args.flatMap flat, toParts_eq_ok horder, Nat.le_antisymm hle hge,
    ofParts_flatMap_flat hrestores horder⟩

/-- Types for a number and, at will, a flag. -/
def flaggedTypes : List ArgType :=
  [.single (.int .w16 false), .optional (.single .bool)]

/-- Arguments for these types. -/
def flagged : List Argument :=
  [.single (.int ⟨.w16, false, 5⟩), .optional (some (.single .bool)) (some (.single (.bool false)))]

/-- A number with a leading zero and a flag that is false: other parts are written, the same
arguments are read. -/
theorem toParts_flagged : ofParts (placeholderArguments flaggedTypes) [[0, 5], [0]] = .ok flagged ∧
    ∃ parts', toParts flagged = .ok parts' ∧ parts'.length = [[0, 5], [0]].length ∧
      ofParts (placeholderArguments flaggedTypes) parts' = .ok flagged := by
  have htypes : EndsIn ArgType.Delimited ArgType.Trailing flaggedTypes :=
    .cons (.single _) (.last (.optional (.single _)))
  have hread : ofParts (placeholderArguments flaggedTypes) [[0, 5], [0]] = .ok flagged := rfl
  exact ⟨hread, toParts_of_ofParts htypes hread⟩

/-- The parts that are written carry no padding. -/
example : toParts flagged = .ok [[5], []] := by decide

end Argument

end CallData
