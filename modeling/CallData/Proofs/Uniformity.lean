import CallData.Proofs.Locality

/-!
# Reading elsewhere

A reader is *uniform* (`ByteReader.IsUniform`) when it does the same wherever the bytes stand: so
many bytes further on it answers the same, or fails with the same error, but for the offset at which
bytes are missed. Items that are read until nothing is left can then be taken apart. Behind bytes
that are read as items of their own, the others are read as they are by themselves, or fail in the
same way, only so many bytes and items further on (`ByteReader.many_append`).
-/

namespace CallData

/-! ### Further on -/

/-- The same bytes to read, behind so many more. -/
def Cursor.moved (k : Nat) (c : Cursor) : Cursor :=
  ⟨c.offset + k, c.rest⟩

@[simp]
theorem Cursor.remaining_moved (k : Nat) (c : Cursor) : (c.moved k).remaining = c.remaining :=
  rfl

/-- The same cause, met so many bytes further on. -/
def Cause.moved (k : Nat) : Cause → Cause
  | .unexpectedEnd offset requested available => .unexpectedEnd (offset + k) requested available
  | c => c

@[simp]
theorem Cause.kind_moved (k : Nat) (c : Cause) : (c.moved k).kind = c.kind := by
  cases c <;> rfl

namespace CodecError

/-- The same error, met so many bytes further on. -/
def moved (k : Nat) (e : CodecError) : CodecError :=
  ⟨e.path, e.cause.moved k⟩

/-- Only an error that says that bytes are missing tells where. -/
theorem moved_of_kind_ne {e : CodecError} (h : e.kind ≠ .unexpectedEnd) (k : Nat) :
    e.moved k = e := by
  obtain ⟨path, cause⟩ := e
  cases cause with
  | unexpectedEnd => exact absurd rfl h
  | _ => rfl

/-- The same error in a sequence, met so many items further on. -/
def renumbered (n : Nat) : CodecError → CodecError
  | ⟨.index i :: path, cause⟩ => ⟨.index (i + n) :: path, cause⟩
  | e => e

end CodecError

namespace ByteReader

variable {α β : Type}

/-- The same outcome, so many bytes further on. -/
def moved (k : Nat) : EStateM.Result CodecError Cursor α → EStateM.Result CodecError Cursor α
  | .ok a c => .ok a (c.moved k)
  | .error e c => .error (e.moved k) (c.moved k)

/-- A reader does the same wherever the bytes stand. -/
def IsUniform (r : ByteReader α) : Prop :=
  ∀ k c, r (c.moved k) = moved k (r c)

/-! ### Chains -/

/-- What a reader answers in one place, it answers of the same bytes in another. -/
theorem IsUniform.of_ok {r : ByteReader α} (h : r.IsUniform) {c t : Cursor} {a : α}
    (hread : r c = .ok a t) (k : Nat) : r (c.moved k) = .ok a (t.moved k) := by
  rw [h, hread, moved]

/-- Where a reader fails, it fails further on, too, with an error that says of the place what is
true there. -/
theorem IsUniform.of_error {r : ByteReader α} (h : r.IsUniform) {c t : Cursor} {e : CodecError}
    (hread : r c = .error e t) (k : Nat) : r (c.moved k) = .error (e.moved k) (t.moved k) := by
  rw [h, hread, moved]

theorem IsUniform.pure (a : α) : IsUniform (pure a) :=
  fun _ _ => rfl

/-- Of all errors only the one of missing bytes names a place. -/
theorem IsUniform.throw {e : CodecError} (h : e.kind ≠ .unexpectedEnd) :
    IsUniform (throw e : ByteReader α) := by
  intro k c
  change EStateM.Result.error e (c.moved k) = .error (e.moved k) (c.moved k)
  rw [e.moved_of_kind_ne h]

/-- Two steps in turn do the same further on if each of them does. -/
theorem IsUniform.bind {r : ByteReader α} {f : α → ByteReader β} (h : r.IsUniform)
    (h' : ∀ a, (f a).IsUniform) : (r >>= f).IsUniform := by
  intro k c
  rcases hread : r c with ⟨a, t⟩ | ⟨e, t⟩
  · rw [bind_of_ok hread, bind_of_ok (h.of_ok hread k), h' a]
  · rw [bind_of_error hread, bind_of_error (h.of_error hread k), moved]

theorem IsUniform.insideM {r : ByteReader α} (h : r.IsUniform) (l : Locator) :
    IsUniform (insideM l r) := by
  intro k c
  rcases hread : r c with ⟨a, t⟩ | ⟨e, t⟩
  · rw [insideM_eq_ok.mpr hread, insideM_eq_ok.mpr (h.of_ok hread k), moved]
  · rw [insideM_of_error hread, insideM_of_error (h.of_error hread k)]
    rfl

/-! ### Pieces of a byte string -/

/-- To take bytes is the step whose error names the place where they were missing. -/
theorem take_isUniform (n : Nat) : (take n).IsUniform := by
  intro k c
  rw [take, take, Cursor.remaining_moved]
  by_cases hn : n ≤ c.remaining
  · rw [if_pos hn, if_pos hn, moved, Cursor.moved, Cursor.moved, Nat.add_right_comm]
  · rw [if_neg hn, if_neg hn]
    rfl

/-- Taking bytes is uniform, and so is whatever is made of it. -/
theorem isUniform_compositional : Compositional IsUniform where
  take := take_isUniform
  pure := .pure
  throw := .throw
  bind := .bind
  insideM := .insideM

/-! ### Items up to the end -/

section Many

variable {item : ByteReader α} {as : List α}

/-- Items that stand further on, behind others, are read as they are in front; where they are not,
the error is as much further on. -/
theorem manyFrom_moved (h : item.IsUniform) (n k i : Nat) (c : Cursor) :
    manyFrom item (i + n) (c.moved k) =
      (manyFrom item i c).mapError fun e => (e.renumbered n).moved k := by
  apply manyFrom_induct (Q := fun i c r =>
    manyFrom item (i + n) (c.moved k) = r.mapError fun e => (e.renumbered n).moved k)
  case finished => exact fun i c hend => manyFrom_of_end (c := c.moved k) hend (i + n)
  case failed =>
    exact fun i c e t hend hread =>
      manyFrom_of_error (c := c.moved k) hend (h.of_error hread k) (i + n)
  case stuck =>
    intro i c a t hend hread hless
    rw [manyFrom_of_ok (c := c.moved k) hend (h.of_ok hread k), Cursor.remaining_moved,
      Cursor.remaining_moved, if_neg hless]
    rfl
  case more =>
    intro i c a t hend hread hless ih
    rw [manyFrom_of_ok (c := c.moved k) hend (h.of_ok hread k), Cursor.remaining_moved,
      Cursor.remaining_moved, if_pos hless, Nat.add_right_comm, ih]
    cases manyFrom item (i + 1) t <;> rfl

/-- Bytes behind those of some items are left to the items that follow these. -/
theorem manyFrom_append (h : item.IsLocal) {i o : Nat} {b₁ : Bytes}
    (has : manyFrom item i ⟨o, b₁⟩ = .ok as) (b₂ : Bytes) :
    manyFrom item i ⟨o, b₁ ++ b₂⟩ =
      (manyFrom item (i + as.length) ⟨o + b₁.length, b₂⟩).map (as ++ ·) := by
  induction as generalizing i o b₁ with
  | nil =>
    obtain rfl : b₁ = [] := manyFrom_eq_ok_nil_iff.mp has
    rw [List.nil_append, List.length_nil, List.length_nil, Nat.add_zero, Nat.add_zero]
    cases manyFrom item i ⟨o, b₂⟩ <;> rfl
  | cons a as ih =>
    obtain ⟨hmore, ⟨o', rest⟩, hread, hless, hrest⟩ := manyFrom_eq_ok_cons_iff.mp has
    obtain ⟨bs, hb, ho, hreads, -⟩ := h _ a _ hread
    obtain rfl : b₁ = bs ++ rest := hb
    obtain rfl : o' = o + bs.length := ho
    have hbs : bs ≠ [] := by
      rintro rfl
      exact lt_irrefl _ hless
    have hindex : i + (as.length + 1) = i + 1 + as.length := by omega
    have hoffset : o + (bs ++ rest).length = o + bs.length + rest.length := by
      rw [List.length_append, Nat.add_assoc]
    rw [List.append_assoc, hreads.manyFrom_eq hbs, ih hrest, hoffset, List.length_cons, hindex]
    cases manyFrom item (i + 1 + as.length) ⟨o + bs.length + rest.length, b₂⟩ <;> rfl

/-- Behind bytes that are read as items, others are read as they are by themselves, or fail in the
same way, so many items and bytes further on. -/
theorem many_append (hlocal : item.IsLocal) (huniform : item.IsUniform) {b₁ : Bytes}
    (h : many item b₁ = .ok as) (b₂ : Bytes) :
    many item (b₁ ++ b₂) = ((many item b₂).mapError fun e =>
      (e.renumbered as.length).moved b₁.length).map (as ++ ·) := by
  have hmoved := manyFrom_moved huniform as.length b₁.length 0 (.start b₂)
  exact (manyFrom_append hlocal h b₂).trans (congrArg (Except.map (as ++ ·)) hmoved)

/-- Where each item brings the end nearer, what is wrong is wrong with one of them. -/
theorem exists_index_of_manyFrom_eq_error
    (h : ∀ c a t, item c = .ok a t → t.remaining < c.remaining) {i : Nat} {c : Cursor}
    {e : CodecError} (he : manyFrom item i c = .error e) : ∃ k path, e.path = .index k :: path := by
  suffices hall : ∀ e, manyFrom item i c = .error e → ∃ k path, e.path = .index k :: path from
    hall e he
  apply manyFrom_induct (Q := fun _ _ r => ∀ e, r = .error e → ∃ k path, e.path = .index k :: path)
  case finished =>
    intro i c _ e he
    cases he
  case failed =>
    rintro i c e t _ _ _ ⟨⟩
    exact ⟨i, e.path, rfl⟩
  case stuck => exact fun i c a t _ hread hless => absurd (h c a t hread) hless
  case more => exact fun i c a t _ _ _ ih e he => ih e (except_map_eq_error.mp he)

/-- An item that takes no byte leaves all the bytes there are. -/
theorem many_of_reads_nil {a : α} (h : item.Reads [] a) {bs : Bytes} (hbs : bs ≠ []) :
    many item bs = fail (.unconsumed (.bytes bs.length)) :=
  (manyFrom_of_ok hbs (h 0 bs) 0).trans (if_neg (lt_irrefl _))

/-- No item is read from nothing, so there are no more of them than bytes. -/
theorem length_le_of_manyFrom {i : Nat} {c : Cursor} (h : manyFrom item i c = .ok as) :
    as.length ≤ c.remaining := by
  induction as generalizing i c with
  | nil => exact Nat.zero_le _
  | cons a as ih =>
    obtain ⟨-, t, -, hless, hrest⟩ := manyFrom_eq_ok_cons_iff.mp h
    exact (Nat.succ_le_succ (ih hrest)).trans hless

end Many

end ByteReader

end CallData
