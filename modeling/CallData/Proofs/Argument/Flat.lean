import CallData.Call
import CallData.Proofs.Argument.Tree
import CallData.Proofs.Outcome

/-!
# Parts of arguments

Each argument contributes the same parts whatever is there already: its *flat* form
(`Argument.flat`). Writing appends it (`Argument.write_eq`), and so the parts of the arguments of
a call are their flat forms in a row, provided that the order of the arguments is right
(`Argument.encode_eq`, `Argument.writes_flat`). Arguments that are the same contribute the same
(`Argument.flat_eq_of_same`).
-/

namespace CallData

/-- A new part holds what is written to an empty byte string. -/
theorem PartBuffer.appendPart_eq (p : Put Bytes) (b : PartBuffer) :
    appendPart p b = .ok () ⟨b.parts ++ [p.bytes], b.focused⟩ := by
  have hempty : appendEmpty b = .ok () ⟨b.parts ++ [[]], b.focused⟩ := rfl
  refine bind_eq_ok.mpr ⟨(), _, hempty, bind_eq_ok.mpr ⟨(p.run []).2, _, ?_, rfl⟩⟩
  rw [writeLast]
  simp only [List.getLast?_concat, List.dropLast_concat]
  rfl

namespace Argument

mutual

/-- The parts that an argument contributes. -/
def flat : Argument → List Bytes
  | .single v => [v.top]
  | .multi items => flatAll items
  | .optional _ none => []
  | .optional _ (some a) => flat a
  | .variadic _ items => flatAll items
  | .counted _ items => Bytes.shortest false (items.length % UInt32.size : Nat) :: flatAll items

/-- The parts that some arguments contribute. -/
def flatAll : List Argument → List Bytes
  | [] => []
  | a :: args => flat a ++ flatAll args

end

@[simp]
theorem flatAll_eq_flatMap (args : List Argument) : flatAll args = args.flatMap flat := by
  induction args with
  | nil => rfl
  | cons a args ih => rw [flatAll, ih, List.flatMap_cons]

/-- A value is one part, its top-level encoding; so it has a part also where that is empty. -/
@[simp]
theorem flat_single (v : Value) : (single v).flat = [v.top] :=
  rfl

/-- A row of arguments is its members and leaves no other trace. -/
@[simp]
theorem flat_multi (items : List Argument) : (multi items).flat = items.flatMap flat :=
  flatAll_eq_flatMap items

@[simp]
theorem flat_absent (itemType : Option ArgType) : (optional itemType none).flat = [] :=
  rfl

/-- That an argument which may be left out is there does not show but in its own parts. -/
@[simp]
theorem flat_present (itemType : Option ArgType) (a : Argument) :
    (optional itemType (some a)).flat = a.flat :=
  rfl

/-- Repeated arguments do not tell their number. -/
@[simp]
theorem flat_variadic (itemType : ArgType) (items : List Argument) :
    (variadic itemType items).flat = items.flatMap flat :=
  flatAll_eq_flatMap items

/-- The number of counted arguments stands in a part in front, which has no more than 32 bits of it.
-/
@[simp]
theorem flat_counted (itemType : ArgType) (items : List Argument) :
    (counted itemType items).flat =
      Bytes.shortest false (items.length % UInt32.size : Nat) :: items.flatMap flat := by
  rw [flat, flatAll_eq_flatMap]

/-- A number that fits 32 bits is told as it is. -/
theorem flat_counted_of_lt {items : List Argument} (h : items.length < 2 ^ 32)
    (itemType : ArgType) : (counted itemType items).flat =
      Bytes.shortest false items.length :: items.flatMap flat := by
  have hcount : items.length % UInt32.size = items.length := Nat.mod_eq_of_lt h
  rw [flat_counted, hcount]

/-! ### Writing -/

/-- If each of some arguments appends its parts, all in turn append theirs in this order. -/
theorem writeAll_eq {args : List Argument}
    (h : ∀ a ∈ args, ∀ b, a.write b = .ok () ⟨b.parts ++ a.flat, b.focused⟩) (b : PartBuffer) :
    writeAll args b = .ok () ⟨b.parts ++ args.flatMap flat, b.focused⟩ := by
  induction args generalizing b with
  | nil =>
    rw [List.flatMap_nil, List.append_nil]
    rfl
  | cons a args ih =>
    rw [List.forall_mem_cons] at h
    refine bind_eq_ok.mpr ⟨(), _, h.1 b, ?_⟩
    rw [ih h.2, List.flatMap_cons, List.append_assoc]

/-- An argument leaves the parts that are there, and appends its own. -/
theorem write_eq (a : Argument) (b : PartBuffer) :
    a.write b = .ok () ⟨b.parts ++ a.flat, b.focused⟩ := by
  induction a generalizing b with
  | single v => exact PartBuffer.appendPart_eq v.putTop b
  | multi items ih =>
    rw [flat_multi]
    exact writeAll_eq ih b
  | absent itemType =>
    rw [flat_absent, List.append_nil]
    rfl
  | present itemType a ih => exact ih b
  | variadic itemType items ih =>
    rw [flat_variadic]
    exact writeAll_eq ih b
  | counted itemType items ih =>
    refine bind_eq_ok.mpr ⟨(), _, PartBuffer.appendPart_eq _ b, ?_⟩
    rw [writeAll_eq ih, flat_counted, Put.bytes_block, List.append_assoc, List.singleton_append]

/-- The index that arguments start at is for errors, and writing has none once the order is checked.
-/
theorem writeFrom_eq (i : Nat) (args : List Argument) (b : PartBuffer) :
    writeFrom i args b = .ok () ⟨b.parts ++ args.flatMap flat, b.focused⟩ := by
  induction args generalizing i b with
  | nil =>
    rw [List.flatMap_nil, List.append_nil]
    rfl
  | cons a args ih =>
    refine bind_eq_ok.mpr ⟨(), _, insideM_eq_ok.mpr (a.write_eq b), ?_⟩
    rw [ih, List.flatMap_cons, List.append_assoc]

/-- Only the order of its arguments can keep a call from having parts. -/
theorem encode_eq (args : List Argument) :
    encode args = (checkOrder args).map fun _ => PartBuffer.ofParts (args.flatMap flat) := by
  rw [encode, writeFrom_eq]
  cases checkOrder args <;> rfl

/-- The check of the order decides whether anything is written at all; what is written does not
depend on it. -/
theorem toParts_eq (args : List Argument) :
    toParts args = (checkOrder args).map fun _ => args.flatMap flat := by
  rw [toParts, encode_eq]
  cases checkOrder args <;> rfl

theorem toParts_eq_ok {args : List Argument} (horder : checkOrder args = .ok ()) :
    toParts args = .ok (args.flatMap flat) := by
  rw [toParts_eq, horder]
  rfl

theorem toParts_eq_error {args : List Argument} {e : CodecError} (h : checkOrder args = .error e) :
    toParts args = .error e := by
  rw [toParts_eq, h]
  rfl

/-- The text of arguments in order is that of their parts. -/
theorem toText_eq (separator : Separator) (args : List Argument) : toText separator args =
    (checkOrder args).map fun _ =>
      (PartBuffer.ofParts (args.flatMap flat)).toText separator.text := by
  rw [toText, encode_eq]
  cases checkOrder args <;> rfl

/-- Writing an argument cannot fail: it leaves the focus and the parts that are there, and appends
those that the argument contributes, where counted items stand behind their number as far as four
bytes hold it. So a call has the parts of its arguments in a row, unless their order is wrong; then
it has none, and the error is that of the order. -/
theorem writes_flat :
    (∀ (a : Argument) (b : PartBuffer), a.write b = .ok () ⟨b.parts ++ a.flat, b.focused⟩) ∧
      (∀ itemType items, items.length < 2 ^ 32 → (counted itemType items).flat =
        Bytes.shortest false items.length :: items.flatMap flat) ∧
      ∀ args, (checkOrder args = .ok () → toParts args = .ok (args.flatMap flat)) ∧
        ∀ e, checkOrder args = .error e → toParts args = .error e :=
  ⟨write_eq, fun itemType _ h => flat_counted_of_lt h itemType, fun _ =>
    ⟨toParts_eq_ok, fun _ => toParts_eq_error⟩⟩

/-- Two flags behind their count and a payload that might be left out, and the same the other way
round. -/
theorem writes_flat_flags :
    let flags := counted (.single .bool) [single (.bool true), single (.bool false)]
    let payload := optional none (some (single (.bytes [7])))
    flags.write ⟨[[9]], 1⟩ = .ok () ⟨[[9], [2], [1], []], 1⟩ ∧
      toParts [flags, payload] = .ok [[2], [1], [], [7]] ∧
      toParts [payload, flags] = fail (.misplaced "optional value" 0 2) := by
  obtain ⟨hwrite, hcount, hparts⟩ := writes_flat
  have hflags := hcount (.single .bool) [single (.bool true), single (.bool false)] (by decide)
  refine ⟨?_, ?_, (hparts _).2 _ rfl⟩
  · exact (hwrite _ _).trans (by rw [hflags]; rfl)
  · exact ((hparts _).1 rfl).trans (by rw [List.flatMap_cons, hflags]; rfl)

/-! ### Sameness -/

/-- Arguments that are the same contribute the same parts. -/
theorem flat_eq_of_same {a b : Argument} (h : same a b = true) : a.flat = b.flat := by
  have row : ∀ as bs : List Argument, List.Forall₂ (fun a b => a.flat = b.flat) as bs →
      as.flatMap flat = bs.flatMap flat := fun as bs h =>
    flatMap_eq_of_forall₂ h fun _ _ h => h
  apply same_induct (Q := fun a b => a.flat = b.flat) (h := h)
  case single =>
    intro v w h
    rw [flat_single, flat_single, Value.top_eq_of_same h]
  case multi =>
    intro as bs ih
    rw [flat_multi, flat_multi, row as bs ih]
  case absent => exact fun _ _ => rfl
  case present => exact fun _ _ _ _ ih => ih
  case variadic =>
    intro s t as bs ih
    rw [flat_variadic, flat_variadic, row as bs ih]
  case counted =>
    intro s t as bs ih
    rw [flat_counted, flat_counted, row as bs ih, ih.length_eq]

/-- Rows of arguments that are the same have the same parts. -/
theorem flatMap_flat_eq_of_same {as bs : List Argument} (h : sameArguments as bs = true) :
    as.flatMap flat = bs.flatMap flat :=
  flatMap_eq_of_forall₂ (sameArguments_iff.mp h) fun _ _ => flat_eq_of_same

end Argument

end CallData
