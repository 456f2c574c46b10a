import CallData.Proofs.Text.Cutting

/-!
# Texts that parts are read from

Which texts are read as parts, as which, and what is said of the others
(`PartBuffer.text_bijection`). The text is cut at its separators, and each piece has to be a
hexadecimal text; the parts are written as the same text in lower case. Letters of either case are
the same digits, and no separator has any of them, so texts that differ in nothing else are read as
the same parts.
-/

namespace CallData

/-- A text is accepted as a separator as it is. -/
theorem Separator.ofString_eq_ok_iff {s : String} {separator : Separator} :
    Separator.ofString s = .ok separator ↔ separator.text = s := by
  rw [Separator.ofString]
  constructor
  · intro h
    by_cases hs : s ≠ "" ∧ (s.toList.all fun c => (Hex.digit? c).isNone) = true
    · rw [dif_pos hs] at h
      obtain ⟨⟩ := h
      rfl
    · rw [dif_neg hs] at h
      exact absurd h fail_ne_ok
  · rintro rfl
    have hdigit : (separator.text.toList.all fun c => (Hex.digit? c).isNone) = true := by
      rw [List.all_eq_true]
      exact fun c hc => Option.isNone_iff_eq_none.mpr (separator.no_digit c hc)
    exact dif_pos ⟨separator.ne_empty, hdigit⟩

/-! ### Letters of either case -/

/-- A character is another, or the same hexadecimal digit in the other case. -/
def Hex.CaseVariant (c d : Char) : Prop :=
  c = d ∨ (digit? c).isSome = true ∧ c.toLower = d.toLower

theorem Hex.CaseVariant.digit?_eq {c d : Char} (h : CaseVariant c d) : digit? c = digit? d := by
  rcases h with rfl | ⟨-, hlower⟩
  · rfl
  · rw [← digit?_toLower c, hlower, digit?_toLower d]

/-- No separator is lost or found when digits change their case. -/
theorem Separator.spares (separator : Separator) :
    Text.Spares Hex.CaseVariant separator.text.toList := by
  intro s hs c d hcd
  have hnone := separator.no_digit s hs
  rcases hcd with rfl | ⟨hdigit, hlower⟩
  · rfl
  · have hd : Hex.digit? c = Hex.digit? d := Hex.CaseVariant.digit?_eq (.inr ⟨hdigit, hlower⟩)
    refine iff_of_false ?_ ?_
    · rintro rfl
      simp [hnone] at hdigit
    · rintro rfl
      simp [hd, hnone] at hdigit

namespace PartBuffer

/-! ### Pieces -/

/-- Parts are read from as many pieces, each from its own. -/
theorem partsOfPieces_eq_ok_iff {ps : List (List Char)} {parts : List Bytes} {i : Nat} :
    partsOfPieces i ps = .ok parts ↔
      List.Forall₂ (fun p part => Hex.octets? p = some part) ps parts := by
  induction ps generalizing parts i with
  | nil => rw [partsOfPieces, List.forall₂_nil_left_iff, Except.ok.injEq, eq_comm]
  | cons p ps ih =>
    rw [partsOfPieces, except_cons_eq_ok, List.forall₂_cons_left_iff]
    simp only [inside_eq_ok, mapError_eq_ok, Hex.decode_ofList_eq_ok_iff, ih]

theorem exists_partsOfPieces_iff {ps : List (List Char)} {i : Nat} :
    (∃ parts, partsOfPieces i ps = .ok parts) ↔ ∀ p ∈ ps, Hex.IsText p := by
  simp only [partsOfPieces_eq_ok_iff]
  induction ps with
  | nil => simp
  | cons p ps ih =>
    rw [List.forall_mem_cons, ← ih, ← Hex.isSome_octets?_iff, Option.isSome_iff_exists]
    constructor
    · rintro ⟨_, _ | ⟨hpart, hparts⟩⟩
      exact ⟨⟨_, hpart⟩, _, hparts⟩
    · rintro ⟨⟨part, hpart⟩, parts, hparts⟩
      exact ⟨part :: parts, .cons hpart hparts⟩

/-- What is wrong is wrong with the first piece that is no hexadecimal text. -/
theorem partsOfPieces_eq_error {ps : List (List Char)} {i : Nat} {e : CodecError}
    (h : partsOfPieces i ps = .error e) :
    ∃ pre p post fault, ps = pre ++ p :: post ∧ (∀ q ∈ pre, Hex.IsText q) ∧ ¬ Hex.IsText p ∧
      Hex.decode (String.ofList p) = .error fault ∧
        e = ⟨[.index (i + pre.length)], .invalidHex fault⟩ := by
  induction ps generalizing i with
  | nil => cases h
  | cons p ps ih =>
    rw [partsOfPieces, except_bind_eq_error] at h
    rcases h with h | ⟨part, hpart, h⟩
    · obtain ⟨_, hpart, rfl⟩ := inside_eq_error.mp h
      obtain ⟨fault, hfault, rfl⟩ := mapError_eq_error.mp hpart
      refine ⟨[], p, ps, fault, rfl, List.forall_mem_nil _, fun htext => ?_, hfault, rfl⟩
      obtain ⟨part, hpart⟩ := Option.isSome_iff_exists.mp (Hex.isSome_octets?_iff.mpr htext)
      rw [Hex.decode_ofList_eq_ok_iff.mpr hpart] at hfault
      cases hfault
    · rw [inside_eq_ok, mapError_eq_ok, Hex.decode_ofList_eq_ok_iff] at hpart
      rcases except_bind_eq_error.mp h with h | ⟨_, _, h⟩
      · obtain ⟨pre, q, post, fault, rfl, hpre, hq, hfault, rfl⟩ := ih h
        have hp := Hex.isSome_octets?_iff.mp (Option.isSome_of_eq_some hpart)
        refine ⟨p :: pre, q, post, fault, rfl, List.forall_mem_cons.mpr ⟨hp, hpre⟩, hq, hfault, ?_⟩
        rw [List.length_cons, Nat.add_right_comm, Nat.add_assoc]
      · cases h

/-! ### Texts -/

/-- A text is read as the parts that its pieces are read as, with the first in focus. -/
theorem ofText_eq (text separator : String) : ofText text separator =
    (partsOfPieces 0 (Text.pieces separator.toList text.toList)).map ofParts :=
  except_bind_pure

/-- Parts are written as the pieces that they were read from, in lower case. -/
theorem map_digits_of_forall₂ {ps : List (List Char)} {parts : List Bytes}
    (h : List.Forall₂ (fun p part => Hex.octets? p = some part) ps parts) :
    parts.map (fun part => part.flatMap Hex.digits) = ps.map fun p => p.map Char.toLower := by
  induction h with
  | nil => rfl
  | cons hpart _ ih => rw [List.map_cons, List.map_cons, ih, Hex.flatMap_digits_of_octets? hpart]

/-- Pieces that differ in the case of digits are read as the same parts. -/
theorem partsOfPieces_of_caseVariant {ps qs : List (List Char)} {parts : List Bytes} {i : Nat}
    (hpqs : List.Forall₂ (List.Forall₂ Hex.CaseVariant) ps qs)
    (h : partsOfPieces i ps = .ok parts) : partsOfPieces i qs = .ok parts := by
  rw [partsOfPieces_eq_ok_iff] at h ⊢
  induction hpqs generalizing parts with
  | nil => exact h
  | @cons p q ps qs hpq _ ih =>
    obtain _ | ⟨hpart, hparts⟩ := h
    have hoctets := Hex.octets?_eq_of_forall₂ (hpq.imp fun _ _ hcd => hcd.digit?_eq)
    exact .cons (hoctets ▸ hpart) (ih hparts)

/-- Text and parts determine each other, but for the case of digits. Whatever parts are written as,
a separator between neighbours, they are read from. The other way, a text is cut at its separators
in one way, and read where every piece is hexadecimal: the parts are written as the same text in
lower case, and digits of either case may stand for one another. Where a text is not read, the first
piece that is not hexadecimal is to blame. -/
theorem text_bijection {s : String} {separator : Separator}
    (hs : Separator.ofString s = .ok separator) :
    (∀ b : PartBuffer, b.parts ≠ [] → ofText (b.toText s) s = .ok (ofParts b.parts)) ∧
    ∀ text : String, ∃ ps, (∀ qs, Text.CutInto s.toList text.toList qs ↔ qs = ps) ∧
      Text.join s.toList ps = text.toList ∧
      ((∃ b, ofText text s = .ok b) ↔ ∀ p ∈ ps, Hex.IsText p) ∧
      (∀ b, ofText text s = .ok b → b.focused = 0 ∧
        b.toText s = String.ofList (Text.join s.toList (ps.map fun p => p.map Char.toLower)) ∧
        ∀ text' : String, List.Forall₂ Hex.CaseVariant text.toList text'.toList →
          ofText text' s = .ok b) ∧
      ∀ e, ofText text s = .error e → ∃ pre p post fault, ps = pre ++ p :: post ∧
        (∀ q ∈ pre, Hex.IsText q) ∧ ¬ Hex.IsText p ∧
        Hex.decode (String.ofList p) = .error fault ∧
          e = ⟨[.index pre.length], .invalidHex fault⟩ := by
  obtain rfl := Separator.ofString_eq_ok_iff.mp hs
  refine ⟨fun b hb => ofText_toText separator hb, fun text => ?_⟩
  -- A separator has no digits in it, so it stays in place when their case changes.
  have hspares := separator.spares
  obtain ⟨s, sep, hsep, -⟩ := separator.exists_toList_eq
  simp only [ofText_eq, except_map_eq_ok, except_map_eq_error]
  rw [hsep] at hspares ⊢
  refine ⟨Text.pieces (s :: sep) text.toList, fun qs => ?_, ?_, ?_, ?_, ?_⟩
  · rw [Text.cutInto_iff, eq_comm]
  · exact (Text.cutInto_iff.mpr rfl).join_eq
  · rw [← exists_partsOfPieces_iff (i := 0)]
    constructor
    · rintro ⟨_, parts, hparts, rfl⟩
      exact ⟨parts, hparts⟩
    · rintro ⟨parts, hparts⟩
      exact ⟨_, parts, hparts, rfl⟩
  · rintro _ ⟨parts, hparts, rfl⟩
    refine ⟨rfl, ?_, fun text' htext => ⟨parts, ?_, rfl⟩⟩
    · rw [toText, hsep]
      exact congrArg (fun ps => String.ofList (Text.join (s :: sep) ps))
        (map_digits_of_forall₂ (partsOfPieces_eq_ok_iff.mp hparts))
    · exact partsOfPieces_of_caseVariant (Text.forall₂_piecesAfter hspares htext 0) hparts
  · intro e he
    obtain ⟨pre, p, post, fault, hps, hpre, hp, hfault, rfl⟩ := partsOfPieces_eq_error he
    rw [Nat.zero_add]
    exact ⟨pre, p, post, fault, hps, hpre, hp, hfault, rfl⟩

/-- A separator that may overlap itself. -/
def doubled : Separator :=
  ⟨"@@", by decide, by simp [Hex.digit?]⟩

/-- Text and parts determine each other also where occurrences of the separator may overlap. -/
theorem text_bijection_doubled : Separator.ofString "@@" = .ok doubled ∧
    (∀ b : PartBuffer, b.parts ≠ [] → ofText (b.toText "@@") "@@" = .ok (ofParts b.parts)) ∧
    ∀ text : String, ∃ ps, (∀ qs, Text.CutInto "@@".toList text.toList qs ↔ qs = ps) ∧
      Text.join "@@".toList ps = text.toList ∧
      ((∃ b, ofText text "@@" = .ok b) ↔ ∀ p ∈ ps, Hex.IsText p) ∧
      (∀ b, ofText text "@@" = .ok b → b.focused = 0 ∧
        b.toText "@@" = String.ofList (Text.join "@@".toList (ps.map fun p => p.map Char.toLower)) ∧
        ∀ text' : String, List.Forall₂ Hex.CaseVariant text.toList text'.toList →
          ofText text' "@@" = .ok b) ∧
      ∀ e, ofText text "@@" = .error e → ∃ pre p post fault, ps = pre ++ p :: post ∧
        (∀ q ∈ pre, Hex.IsText q) ∧ ¬ Hex.IsText p ∧
        Hex.decode (String.ofList p) = .error fault ∧
          e = ⟨[.index pre.length], .invalidHex fault⟩ := by
  have hs : Separator.ofString "@@" = .ok doubled := Separator.ofString_eq_ok_iff.mpr rfl
  exact ⟨hs, text_bijection hs⟩

/-- Where occurrences of the separator would overlap, the leftmost counts, and what is left of the
others belongs to the next piece. -/
example : ofText "@@@@aB" "@@" = .ok (ofParts [[], [], [0xab]]) ∧
    ofText "@@@@@aB" "@@" = .error ⟨[.index 2], .invalidHex (.oddLength "@aB")⟩ := by
  decide

end PartBuffer

end CallData
