import CallData.Proofs.Argument.NormalForm
import CallData.Proofs.Text.Framing

/-!
# The text of a call and back

The text of arguments that fit the wire is read back as arguments with the same text, if they
contribute a part at all. A call without parts has the empty text, which is read as one empty part
(`Argument.conforms_text_round_trip`). Neither exception can be spared
(`Argument.text_not_round_trip`).
-/

namespace CallData

namespace Argument

/-- Reading the text of some parts is reading these parts. -/
theorem ofText_toText (separator : Separator) {parts : List Bytes} (h : parts ≠ [])
    (args : List Argument) :
    ofText separator args ((PartBuffer.ofParts parts).toText separator.text) =
      ofParts args parts := by
  rw [ofText, PartBuffer.ofText_toText separator h]
  rfl

/-- The empty text is one part without bytes, and not no part. -/
theorem ofText_empty (separator : Separator) (args : List Argument) :
    ofText separator args "" = ofParts args [[]] := by
  rw [ofText, PartBuffer.ofText_empty]
  rfl

/-- The text of arguments that conform to some types and fit the wire is read back as arguments
with the same text, unless they contribute no part: the text is then empty, and it is read as one
empty part. -/
theorem conforms_text_round_trip {separator : Separator} {types : List ArgType}
    {args : List Argument} {text : String} (h : List.Forall₂ ArgType.Conforms types args)
    (hfits : ∀ a ∈ args, a.Fits) (htext : toText separator args = .ok text) :
    (toParts args ≠ .ok [] → ∃ bs, ofText separator (placeholderArguments types) text = .ok bs ∧
      toText separator bs = .ok text) ∧
    (toParts args = .ok [] → text = "" ∧
      ofText separator (placeholderArguments types) text =
        ofParts (placeholderArguments types) [[]]) := by
  rw [toText_eq] at htext
  obtain ⟨⟨⟩, horder, rfl⟩ := except_map_eq_ok.mp htext
  rw [toParts_eq_ok horder, ne_eq, Except.ok.injEq]
  constructor
  · intro hne
    obtain ⟨bs, hread, hbs, hflat⟩ := exists_ofParts_flatMap_flat h horder hfits
    refine ⟨bs, ?_, ?_⟩
    · rw [ofText_toText separator hne]
      exact hread
    · rw [toText_eq, hbs, hflat]
      rfl
  · intro hnil
    rw [hnil]
    exact ⟨rfl, ofText_empty separator _⟩

theorem flagged_conforms : List.Forall₂ ArgType.Conforms flaggedTypes flagged := by
  have hnumber : (ArgType.single (.int .w16 false)).Holds ValueType.Has
      (.single (.int ⟨.w16, false, 5⟩)) :=
    .single (.int (by decide) (by decide))
  have hflag : (ArgType.optional (.single .bool)).Holds ValueType.Has
      (.optional (some (.single .bool)) (some (.single (.bool false)))) :=
    .present (.single (.bool false))
  exact .cons ⟨_, hnumber, by decide⟩ (.cons ⟨_, hflag, by decide⟩ .nil)

theorem flagged_fits : ∀ a ∈ flagged, a.Fits := by
  refine List.forall_mem_cons.mpr ⟨Everywhere.single (Value.Fits.int _), ?_⟩
  refine List.forall_mem_singleton.mpr (Everywhere.present trivial ?_)
  exact Everywhere.single (Value.Fits.bool false)

/-- A number and a flag are read back from their text; the text of a flag that is left out is read
as that of one that is not set. -/
theorem flagged_text_round_trip :
    (toText .standard flagged = .ok "05@" ∧
      ∃ bs, ofText .standard (placeholderArguments flaggedTypes) "05@" = .ok bs ∧
        toText .standard bs = .ok "05@") ∧
    toText .standard [.optional (some (.single .bool)) none] = .ok "" ∧
      ofText .standard (placeholderArguments [.optional (.single .bool)]) "" =
        ofParts (placeholderArguments [.optional (.single .bool)]) [[]] := by
  have htext : toText .standard flagged = .ok "05@" := rfl
  have hempty : toText .standard [.optional (some (.single .bool)) none] = .ok "" := rfl
  have hnone : (ArgType.optional (.single .bool)).Conforms
      (.optional (some (.single .bool)) none) :=
    ⟨_, .absent _, by decide⟩
  refine ⟨⟨htext, ?_⟩, hempty, ?_⟩
  · exact (conforms_text_round_trip flagged_conforms flagged_fits htext).1 (by decide)
  · have hfits : (optional (some (.single .bool)) none).Fits := Everywhere.absent trivial
    have hread := conforms_text_round_trip (.cons hnone .nil)
      (List.forall_mem_singleton.mpr hfits) hempty
    exact (hread.2 rfl).2

/-! ### Too large for the wire -/

/-- The type of a byte string in a tuple, which makes it carry its length. -/
def packedType : ArgType :=
  .single (.tuple [.bytes])

/-- A byte string in a tuple. -/
def packed (bs : Bytes) : Argument :=
  .single (.tuple [.bytes bs])

theorem packed_conforms (bs : Bytes) : packedType.Conforms (packed bs) :=
  ⟨packed bs, .single (.tuple (.cons (.bytes bs) .nil)), Value.same_refl _⟩

/-- A byte string on its own passes the check of the order, so it is written, however long it is. -/
theorem toText_packed (separator : Separator) (bs : Bytes) : toText separator [packed bs] =
    .ok ((PartBuffer.ofParts (packed bs).flat).toText separator.text) := by
  rw [toText_eq, List.flatMap_singleton]
  rfl

/-- Of a length of more than four bytes, the last four are written: a byte string of `2 ^ 32` bytes
is announced as an empty one, and cannot be read back. -/
theorem ofParts_packed_ne_ok {bs : Bytes} (hbs : bs.length = 2 ^ 32) (args : List Argument) :
    ofParts (placeholderArguments [packedType]) (packed bs).flat ≠ .ok args := by
  intro h
  obtain ⟨-, b, hread, -⟩ := ofParts_eq_ok_iff.mp h
  obtain ⟨a, t, ha, -⟩ := bind_eq_ok.mp hread
  obtain ⟨v, t', hv, -⟩ := bind_eq_ok.mp (insideM_eq_ok.mp ha)
  obtain ⟨⟨part, ⟨⟩, hv⟩, -⟩ := PartStep.readPart_eq_ok hv
  obtain ⟨c, hc, hend⟩ := ByteReader.exactly_eq_ok_iff.mp hv
  have hempty : (ValueType.tuple [.bytes]).Has (.tuple [.bytes []]) :=
    .tuple (.cons (.bytes []) .nil)
  have hfits : (Value.tuple [.bytes []]).Fits :=
    .tuple (List.forall_mem_singleton.mpr (.bytes (by decide)))
  have hspell : (Value.tuple [.bytes bs]).top = (Value.tuple [.bytes []]).nested ++ bs := by
    change (Value.tuple [.bytes bs]).nested = _
    rw [Value.nested_tuple, Value.nested_tuple, List.flatMap_singleton, List.flatMap_singleton,
      Value.nested_bytes, Value.nested_bytes, hbs]
    rfl
  rw [hspell, ValueType.readNested_placeholder] at hc
  obtain ⟨-, rfl⟩ := (hempty.reads hfits).eq_of_ok hc
  -- What is left is the byte string itself.
  have hnil : bs = [] := hend
  rw [hnil] at hbs
  exact absurd hbs (by decide)

/-- Not every text is read back: no arguments have the text of one part, and a byte string may be
too large for its length to be told. -/
theorem text_not_round_trip :
    (toText .standard [] = .ok "" ∧
      ofText .standard (placeholderArguments []) "" = .error (.of (.unconsumed (.parts 1)))) ∧
    ∃ text, packedType.Conforms (packed (List.replicate (2 ^ 32) 0)) ∧
      toText .standard [packed (List.replicate (2 ^ 32) 0)] = .ok text ∧
      ∀ args, ofText .standard (placeholderArguments [packedType]) text ≠ .ok args := by
  have hlength : (List.replicate (2 ^ 32) 0 : Bytes).length = 2 ^ 32 := List.length_replicate
  generalize (List.replicate (2 ^ 32) 0 : Bytes) = bs at hlength
  have hne : (packed bs).flat ≠ [] := List.cons_ne_nil _ _
  refine ⟨⟨rfl, rfl⟩, _, packed_conforms bs, toText_packed .standard bs, fun args => ?_⟩
  rw [ofText_toText .standard hne]
  exact ofParts_packed_ne_ok hlength args

end Argument

end CallData
