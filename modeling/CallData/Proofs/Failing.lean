import CallData.Proofs.Reading

/-!
# How steps fail

A step *fails only* with errors that satisfy a condition (`FailsOnly`) when it answers no other
error, wherever it starts. The errors of a chain are those of its links, and a position that a step
is put under stands in front of the path of each of its errors.
-/

namespace CallData

/-! ### Chains -/

section Steps

variable {σ α β : Type} {E F : CodecError → Prop}

/-- Every error that a step can answer satisfies a condition. -/
def FailsOnly (E : CodecError → Prop) (x : EStateM CodecError σ α) : Prop :=
  ∀ s e s', x s = .error e s' → E e

namespace FailsOnly

theorem mono {x : EStateM CodecError σ α} (h : FailsOnly E x) (hEF : ∀ e, E e → F e) :
    FailsOnly F x :=
  fun s e s' he => hEF e (h s e s' he)

theorem pure (a : α) : FailsOnly E (pure a : EStateM CodecError σ α) := by
  intro s e s' he
  cases he

theorem throw {e : CodecError} (h : E e) : FailsOnly E (throw e : EStateM CodecError σ α) := by
  intro s e' s' he
  cases he
  exact h

/-- A chain fails as its first link does, or as its second does on an answer of the first. -/
theorem bind_of_ok {x : EStateM CodecError σ α} {f : α → EStateM CodecError σ β}
    (h : FailsOnly E x) (h' : ∀ s a s', x s = .ok a s' → FailsOnly E (f a)) :
    FailsOnly E (x >>= f) := by
  intro s e s' he
  obtain he | ⟨a, t, ha, he⟩ := bind_eq_error.mp he
  · exact h s e s' he
  · exact h' s a t ha t e s' he

theorem bind {x : EStateM CodecError σ α} {f : α → EStateM CodecError σ β} (h : FailsOnly E x)
    (h' : ∀ a, FailsOnly E (f a)) : FailsOnly E (x >>= f) :=
  h.bind_of_ok fun _ a _ _ => h' a

/-- A last step that only makes a value of what was read. -/
theorem map {x : EStateM CodecError σ α} (h : FailsOnly E x) (f : α → β) :
    FailsOnly E (x >>= fun a => Pure.pure (f a)) :=
  h.bind fun a => pure (f a)

/-- The condition is asked of the errors inside, with the position in front of their paths. -/
theorem insideM {x : EStateM CodecError σ α} {l : Locator}
    (h : FailsOnly (fun e => E (e.inside l)) x) : FailsOnly E (insideM l x) := by
  intro s e s' he
  obtain ⟨e', hx, rfl⟩ := insideM_eq_error.mp he
  exact h s e' s' hx

/-- A step that is a check fails as the check does. -/
theorem lift {r : Except CodecError α} (h : ∀ e, r = .error e → E e) :
    FailsOnly E (lift r : EStateM CodecError σ α) := by
  cases r with
  | ok a => exact pure a
  | error e => exact throw (h e rfl)

end FailsOnly

/-- An error of some kind satisfies a condition wherever it is noticed. -/
def HoldsAt (E : CodecError → Prop) (k : ErrorKind) : Prop :=
  ∀ c : Cause, c.kind = k → E (.of c)

end Steps

/-! ### Readers of bytes -/

namespace ByteReader

variable {α : Type} {E : CodecError → Prop}

section Pieces

variable (hend : HoldsAt E .unexpectedEnd)
include hend

/-- To take bytes fails in one way: with fewer of them left. -/
theorem take_failsOnly (n : Nat) : FailsOnly E (take n) := by
  intro c e c' he
  rw [take] at he
  by_cases hn : n ≤ c.remaining
  · rw [if_pos hn] at he
    cases he
  · rw [if_neg hn] at he
    cases he
    exact hend _ rfl

theorem octet_failsOnly : FailsOnly E octet :=
  (take_failsOnly hend 1).map _

theorem count_failsOnly : FailsOnly E count :=
  (take_failsOnly hend 4).map _

/-- A frame is refused only where its length or its payload is cut off. -/
theorem framed_failsOnly : FailsOnly E framed :=
  (count_failsOnly hend).bind (take_failsOnly hend)

/-- An octet may be missing, or be none of a truth value. -/
theorem bool_failsOnly (hbool : HoldsAt E .invalidBool) : FailsOnly E ByteReader.bool := by
  refine (octet_failsOnly hend).bind fun b => ?_
  split
  · exact .pure false
  · exact .pure true
  · exact .throw (hbool _ rfl)

/-- A frame may be cut off, or have no UTF-8 in it. -/
theorem text_failsOnly (hutf8 : HoldsAt E .invalidUtf8) : FailsOnly E text := by
  refine (framed_failsOnly hend).bind fun bs => ?_
  split
  · exact .pure _
  · exact .throw (hutf8 _ rfl)

end Pieces

/-- Items in turn fail as one does at its index. -/
theorem replicateFrom_failsOnly {item : ByteReader α} {n i : Nat}
    (h : ∀ j, j < i + n → FailsOnly (fun e => E (e.inside (.index j))) item) :
    FailsOnly E (replicateFrom item n i) := by
  induction n generalizing i with
  | zero => exact .pure []
  | succ n ih =>
    have hrest : FailsOnly E (replicateFrom item n (i + 1)) := ih fun j hj => h j (by omega)
    exact (h i (by omega)).insideM.bind fun a => hrest.map (a :: ·)

/-! ### Whole byte strings -/

/-- To read a byte string up to its end may fail in one more way: with bytes left. -/
theorem exactly_failsOnly {r : ByteReader α} (h : FailsOnly E r) (hleft : HoldsAt E .unconsumed)
    {bs : Bytes} {e : CodecError} (he : r.exactly bs = .error e) : E e := by
  rw [ByteReader.exactly] at he
  rcases hread : r (.start bs) with ⟨a, c⟩ | ⟨e', c⟩
  · rw [hread] at he
    by_cases hend : c.isAtEnd
    · cases (if_pos hend).symm.trans he
    · cases (if_neg hend).symm.trans he
      exact hleft _ rfl
  · rw [hread] at he
    cases he
    exact h _ _ _ hread

/-- Items up to the end fail as one does at its index, or leave bytes over. -/
theorem manyFrom_failsOnly {item : ByteReader α}
    (h : ∀ i, FailsOnly (fun e => E (e.inside (.index i))) item) (hleft : HoldsAt E .unconsumed)
    {i : Nat} {c : Cursor} {e : CodecError} (he : manyFrom item i c = .error e) : E e := by
  suffices hall : ∀ e, manyFrom item i c = .error e → E e from hall e he
  apply manyFrom_induct (Q := fun _ _ r => ∀ e, r = .error e → E e)
  case finished =>
    intro i c _ e he
    cases he
  case failed =>
    rintro i c e t _ hread _ ⟨⟩
    exact h i c e t hread
  case stuck =>
    rintro i c a t _ _ _ _ ⟨⟩
    exact hleft _ rfl
  case more => exact fun i c a t _ _ _ ih e he => ih e (except_map_eq_error.mp he)

end ByteReader

end CallData
