import CallData.Call
import CallData.Proofs.Outcome
import CallData.Proofs.Text.Hex

/-!
# Parts and their text

A text that pieces are joined to is cut into these pieces again when none of them holds the first
character of the separator (`Text.pieces_join`). Hexadecimal digits are never part of a separator,
so parts are read back from their text (`PartBuffer.ofText_toText`), if there are any: no parts have
the text of a single empty part (`PartBuffer.ofText_empty`).
-/

namespace CallData

/-! ### Cutting -/

namespace Text

variable {s : Char} {sep : List Char}

/-- Characters in front of pieces extend the first of them. -/
theorem foldr_extendFirst (p q : List Char) (ps : List (List Char)) :
    p.foldr extendFirst (q :: ps) = (p ++ q) :: ps := by
  induction p with
  | nil => rfl
  | cons c p ih => rw [List.foldr_cons, ih, extendFirst, List.cons_append]

/-- A character that is not the first of the separator belongs to the piece at the front. -/
theorem piecesAfter_of_ne {c : Char} (h : c ≠ s) (t : List Char) :
    piecesAfter (s :: sep) 0 (c :: t) = extendFirst c (piecesAfter (s :: sep) 0 t) := by
  have hprefix : (s :: sep).isPrefixOf (c :: t) = false := by simp [List.isPrefixOf, h.symm]
  rw [piecesAfter, hprefix, if_neg Bool.false_ne_true]

/-- Where no separator can begin, everything goes to the first piece. -/
theorem piecesAfter_append {p : List Char} (h : s ∉ p) (t : List Char) :
    piecesAfter (s :: sep) 0 (p ++ t) = p.foldr extendFirst (piecesAfter (s :: sep) 0 t) := by
  induction p with
  | nil => rfl
  | cons c p ih =>
    rw [List.mem_cons, not_or] at h
    rw [List.cons_append, piecesAfter_of_ne (Ne.symm h.1), ih h.2, List.foldr_cons]

theorem piecesAfter_length_append (skipped t : List Char) :
    piecesAfter sep skipped.length (skipped ++ t) = piecesAfter sep 0 t := by
  induction skipped with
  | nil => rfl
  | cons c skipped ih => rw [List.length_cons, List.cons_append, piecesAfter, ih]

/-- A separator ends the piece in front of it. -/
theorem piecesAfter_separator (t : List Char) :
    piecesAfter (s :: sep) 0 (s :: sep ++ t) = [] :: piecesAfter (s :: sep) 0 t := by
  have hprefix : (s :: sep).isPrefixOf (s :: (sep ++ t)) = true :=
    List.isPrefixOf_iff_prefix.mpr (List.prefix_append (s :: sep) t)
  rw [List.cons_append, piecesAfter, if_pos hprefix, List.length_cons, Nat.add_sub_cancel,
    piecesAfter_length_append]

/-- Pieces, one at least, are cut out of the text that they are joined to, if no separator can
begin in any of them. -/
theorem pieces_join {ps : List (List Char)} (hne : ps ≠ []) (h : ∀ p ∈ ps, s ∉ p) :
    pieces (s :: sep) (join (s :: sep) ps) = ps := by
  change piecesAfter (s :: sep) 0 (join (s :: sep) ps) = ps
  induction ps with
  | nil => exact absurd rfl hne
  | cons p ps ih =>
    rw [List.forall_mem_cons] at h
    match ps with
    | [] =>
      rw [join, List.intercalate_singleton, ← List.append_nil p, piecesAfter_append h.1,
        piecesAfter, foldr_extendFirst]
    | q :: ps =>
      have hrest := ih (List.cons_ne_nil q ps) h.2
      rw [join, List.intercalate_cons_cons, List.append_assoc, piecesAfter_append h.1,
        piecesAfter_separator, foldr_extendFirst, List.append_nil]
      exact congrArg (p :: ·) hrest

end Text

/-! ### Parts -/

/-- A separator begins with a character that is no digit. -/
theorem Separator.exists_toList_eq (separator : Separator) :
    ∃ s sep, separator.text.toList = s :: sep ∧ Hex.digit? s = none := by
  obtain ⟨s, sep, hsep⟩ : ∃ s sep, separator.text.toList = s :: sep :=
    List.exists_cons_of_ne_nil (mt String.toList_eq_nil_iff.mp separator.ne_empty)
  exact ⟨s, sep, hsep, separator.no_digit s (by simp [hsep])⟩

namespace PartBuffer

/-- The hexadecimal forms of parts are read as these parts. -/
theorem partsOfPieces_map (i : Nat) (parts : List Bytes) :
    partsOfPieces i (parts.map fun part => part.flatMap Hex.digits) = .ok parts := by
  induction parts generalizing i with
  | nil => rfl
  | cons part parts ih =>
    have hpart : Hex.decode (String.ofList (part.flatMap Hex.digits)) = .ok part :=
      Hex.decode_encode part
    rw [List.map_cons, partsOfPieces, hpart, ih]
    rfl

/-- Parts, one at least, are read back from their text. -/
theorem ofText_toText (separator : Separator) {b : PartBuffer} (h : b.parts ≠ []) :
    ofText (b.toText separator.text) separator.text = .ok (ofParts b.parts) := by
  obtain ⟨s, sep, hsep, hs⟩ := separator.exists_toList_eq
  have hnot : ∀ p ∈ b.parts.map (fun part => part.flatMap Hex.digits), s ∉ p := by
    intro p hp hmem
    obtain ⟨part, -, rfl⟩ := List.mem_map.mp hp
    have hdigit := Hex.isSome_digit? hmem
    rw [hs] at hdigit
    exact nomatch hdigit
  have hpieces := @Text.pieces_join s sep _ (mt List.map_eq_nil_iff.mp h) hnot
  rw [ofText, toText, hsep, String.toList_ofList, hpieces, partsOfPieces_map]
  rfl

/-- The empty text is one part, which is empty. -/
theorem ofText_empty (separator : Separator) : ofText "" separator.text = .ok (ofParts [[]]) := by
  obtain ⟨s, sep, hsep, -⟩ := separator.exists_toList_eq
  rw [ofText, hsep]
  rfl

end PartBuffer

end CallData
