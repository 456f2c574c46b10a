import CallData.Proofs.Text.Framing

/-!
# Cutting at the leftmost separator

`Text.CutInto` says what it is to cut a text at a separator, with no word of how this is done: a
text in which the separator does not occur is one piece, and any other is cut at the first place
where it does, and again behind it. The separator may overlap itself; what is behind an occurrence
is all that counts for the next. `Text.pieces` finds these pieces, and there are no others
(`Text.cutInto_iff`).
-/

namespace CallData

namespace Text

/-- A text is cut into pieces at the occurrences of a separator, from the left and without
overlap. -/
inductive CutInto (sep : List Char) : List Char → List (List Char) → Prop where
  | whole {t : List Char} (h : ¬ sep <:+: t) : CutInto sep t [t]
  | first {p t : List Char} {ps : List (List Char)}
      (hleft : ∀ q u, p ++ (sep ++ t) = q ++ (sep ++ u) → p.length ≤ q.length)
      (h : CutInto sep t ps) : CutInto sep (p ++ (sep ++ t)) (p :: ps)

section Pieces

variable {s : Char} {sep t : List Char} {ps : List (List Char)}

/-- A character that no separator starts at belongs to the piece at the front. -/
theorem piecesAfter_cons_of_not_separator {c : Char} (h : ¬ s :: sep <+: c :: t) :
    piecesAfter (s :: sep) 0 (c :: t) = extendFirst c (piecesAfter (s :: sep) 0 t) := by
  have hprefix : ¬ (s :: sep).isPrefixOf (c :: t) = true := mt List.isPrefixOf_iff_prefix.mp h
  rw [piecesAfter, if_neg hprefix]

/-- A text in which the separator does not occur is one piece. -/
theorem piecesAfter_of_not_infix (h : ¬ s :: sep <:+: t) : piecesAfter (s :: sep) 0 t = [t] := by
  induction t with
  | nil => rfl
  | cons c t ih =>
    rw [List.infix_cons_iff, not_or] at h
    rw [piecesAfter_cons_of_not_separator h.1, ih h.2, extendFirst]

/-- Where the separator occurs for the first time, the first piece ends. -/
theorem piecesAfter_of_leftmost {p : List Char}
    (hleft : ∀ q u, p ++ (s :: sep ++ t) = q ++ (s :: sep ++ u) → p.length ≤ q.length) :
    piecesAfter (s :: sep) 0 (p ++ (s :: sep ++ t)) = p :: piecesAfter (s :: sep) 0 t := by
  induction p with
  | nil => exact piecesAfter_separator t
  | cons c p ih =>
    have hprefix : ¬ s :: sep <+: c :: (p ++ (s :: sep ++ t)) := by
      rintro ⟨u, hu⟩
      have hle := hleft [] u hu.symm
      simp at hle
    have hrest := ih fun q u hq => by
      have hle := hleft (c :: q) u (congrArg (c :: ·) hq)
      simpa using hle
    rw [List.cons_append, piecesAfter_cons_of_not_separator hprefix, hrest, extendFirst]

/-- A cut is found from the front, since each of its separators is the leftmost of the text behind
the one before. -/
theorem piecesAfter_of_cutInto (h : CutInto (s :: sep) t ps) : piecesAfter (s :: sep) 0 t = ps := by
  induction h with
  | whole h => exact piecesAfter_of_not_infix h
  | first hleft _ ih => rw [piecesAfter_of_leftmost hleft, ih]

/-- A character in front makes the first piece longer, unless a separator begins there. -/
theorem CutInto.extend {c : Char} (h : CutInto (s :: sep) t ps) (hc : ¬ s :: sep <+: c :: t) :
    CutInto (s :: sep) (c :: t) (extendFirst c ps) := by
  cases h with
  | whole h => exact .whole (by rw [List.infix_cons_iff, not_or]; exact ⟨hc, h⟩)
  | @first p t ps hleft h =>
    refine .first (p := c :: p) (fun q u hq => ?_) h
    cases q with
    | nil => exact absurd ⟨u, hq.symm⟩ hc
    | cons d q =>
      have hle := hleft q u (List.cons.inj hq).2
      simpa using hle

/-- The pieces that are found make up a cut at the leftmost separators. -/
theorem cutInto_piecesAfter (s : Char) (sep t : List Char) :
    CutInto (s :: sep) t (piecesAfter (s :: sep) 0 t) := by
  -- What is behind a separator is shorter by more than the character it begins with.
  induction hn : t.length using Nat.strong_induction_on generalizing t with
  | _ n ih =>
  subst hn
  cases t with
  | nil => exact .whole (by simp)
  | cons c t =>
    by_cases hc : s :: sep <+: c :: t
    · obtain ⟨u, hu⟩ := hc
      rw [← hu, piecesAfter_separator]
      have hless : u.length < (c :: t).length := by
        rw [← hu, List.length_append, List.length_cons]
        omega
      exact .first (p := []) (fun _ _ _ => Nat.zero_le _) (ih _ hless u rfl)
    · rw [piecesAfter_cons_of_not_separator hc]
      exact (ih _ (Nat.lt_succ_self _) t rfl).extend hc

/-- A text has one way to be cut at a separator, and it is found. -/
theorem cutInto_iff : CutInto (s :: sep) t ps ↔ pieces (s :: sep) t = ps := by
  change _ ↔ piecesAfter (s :: sep) 0 t = ps
  refine ⟨piecesAfter_of_cutInto, ?_⟩
  rintro rfl
  exact cutInto_piecesAfter s sep t

/-- Pieces joined again are the text that was cut. -/
theorem CutInto.join_eq (h : CutInto sep t ps) : join sep ps = t := by
  induction h with
  | whole _ => exact List.intercalate_singleton
  | @first p t ps _ h ih =>
    obtain ⟨q, qs, rfl⟩ : ∃ q qs, ps = q :: qs := by
      cases h with
      | whole _ => exact ⟨_, _, rfl⟩
      | first _ _ => exact ⟨_, _, rfl⟩
    rw [join, List.intercalate_cons_cons, List.append_assoc, ← join, ih]

end Pieces

/-! ### Characters that may be exchanged -/

section Variants

variable {R : Char → Char → Prop} {s : Char} {sep t u : List Char}

/-- Characters are exchanged for others that are in a separator no more than they are. -/
def Spares (R : Char → Char → Prop) (sep : List Char) : Prop :=
  ∀ s ∈ sep, ∀ c d, R c d → (s = c ↔ s = d)

/-- A separator that is spared stands in front of both texts or of neither. -/
theorem isPrefixOf_eq_of_forall₂ (hsep : Spares R sep) (h : List.Forall₂ R t u) :
    sep.isPrefixOf t = sep.isPrefixOf u := by
  induction sep generalizing t u with
  | nil => simp
  | cons s sep ih =>
    have hrest : Spares R sep := fun s hs => hsep s (List.mem_cons_of_mem _ hs)
    cases h with
    | nil => rfl
    | @cons c d t u hcd h =>
      have hs : (s == c) = (s == d) := by
        rw [Bool.eq_iff_iff, beq_iff_eq, beq_iff_eq]
        exact hsep s List.mem_cons_self c d hcd
      simp only [List.isPrefixOf, hs, ih hrest h]

theorem forall₂_extendFirst {c d : Char} {ps qs : List (List Char)} (hcd : R c d)
    (h : List.Forall₂ (List.Forall₂ R) ps qs) :
    List.Forall₂ (List.Forall₂ R) (extendFirst c ps) (extendFirst d qs) := by
  cases h with
  | nil => exact .cons (.cons hcd .nil) .nil
  | cons hp hps => exact .cons (.cons hcd hp) hps

/-- Texts whose characters are exchanged are cut alike. -/
theorem forall₂_piecesAfter (hsep : Spares R sep) (h : List.Forall₂ R t u) (skip : Nat) :
    List.Forall₂ (List.Forall₂ R) (piecesAfter sep skip t) (piecesAfter sep skip u) := by
  induction h generalizing skip with
  | nil => cases skip <;> exact .cons .nil .nil
  | @cons c d t u hcd h ih =>
    cases skip with
    | succ skip => exact ih skip
    | zero =>
      have hprefix := isPrefixOf_eq_of_forall₂ hsep (.cons hcd h)
      rw [piecesAfter, piecesAfter, hprefix]
      by_cases hd : sep.isPrefixOf (d :: u) = true
      · rw [if_pos hd, if_pos hd]
        exact .cons .nil (ih _)
      · rw [if_neg hd, if_neg hd]
        exact forall₂_extendFirst hcd (ih 0)

end Variants

end Text

end CallData
