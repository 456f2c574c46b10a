import CallData.Proofs.Composition
import CallData.Proofs.Consuming

/-!
# Where readers stop

A reader *starves* on a byte string (`ByteReader.Starves`) when on every proper beginning of it the
reader asks for more than is left, before it finds any other fault. It is *local*
(`ByteReader.IsLocal`) when it reads the bytes that it moves over as the same value whatever stands
around them, and starves on them: they settle its answer, and it needs them all.
-/

namespace CallData

/-- An error that says that more was asked for than was left up to the end, which is at `stop`. -/
def CodecError.IsShort (e : CodecError) (stop : Nat) : Prop :=
  ∃ offset requested available, e.cause = .unexpectedEnd offset requested available ∧
    available < requested ∧ offset + available = stop

theorem CodecError.IsShort.kind_eq {e : CodecError} {stop : Nat} (h : e.IsShort stop) :
    e.kind = .unexpectedEnd := by
  obtain ⟨offset, requested, available, hcause, -⟩ := h
  rw [kind, hcause]
  rfl

namespace ByteReader

variable {α β : Type}

/-! ### Chains -/

/-- On every proper beginning of a byte string a reader asks for more than is left. -/
def Starves (r : ByteReader α) (bs : Bytes) : Prop :=
  ∀ o j, j < bs.length → ∃ e c, r ⟨o, bs.take j⟩ = .error e c ∧ e.IsShort (o + j)

/-- What a reader answers is settled by the bytes that it moves over, all of which it needs. -/
def IsLocal (r : ByteReader α) : Prop :=
  r.Consumes fun bs a => r.Reads bs a ∧ r.Starves bs

theorem Starves.nil (r : ByteReader α) : r.Starves [] :=
  fun _ _ h => absurd h (Nat.not_lt_zero _)

/-- Two steps in turn starve on their bytes: before the end of what the first reads, the first does,
and behind it the second. -/
theorem Starves.bind {r : ByteReader α} {f : α → ByteReader β} {as bs : Bytes} {a : α}
    (hread : r.Reads as a) (h : r.Starves as) (h' : (f a).Starves bs) :
    (r >>= f).Starves (as ++ bs) := by
  intro o j hj
  rw [List.take_append]
  -- The input ends within what the first step needs, or within what the second one does.
  by_cases hfirst : j < as.length
  · obtain ⟨e, c, he, hshort⟩ := h o j hfirst
    rw [Nat.sub_eq_zero_of_le hfirst.le, List.take_zero, List.append_nil]
    exact ⟨e, c, bind_of_error he, hshort⟩
  · have hsecond : j - as.length < bs.length := by
      rw [List.length_append] at hj
      omega
    obtain ⟨e, c, he, hshort⟩ := h' (o + as.length) (j - as.length) hsecond
    rw [List.take_of_length_le (not_lt.mp hfirst)]
    refine ⟨e, c, ?_, ?_⟩
    · rw [bind_of_ok (hread o _)]
      exact he
    · rwa [Nat.add_assoc, Nat.add_sub_cancel' (not_lt.mp hfirst)] at hshort

/-- Where an error is said to be makes no difference to what is missing. -/
theorem Starves.insideM {r : ByteReader α} {bs : Bytes} (h : r.Starves bs) (l : Locator) :
    Starves (insideM l r) bs := by
  intro o j hj
  obtain ⟨e, c, he, hshort⟩ := h o j hj
  exact ⟨e.inside l, c, insideM_of_error he, hshort⟩

theorem IsLocal.pure (a : α) : IsLocal (pure a) :=
  Consumes.pure ⟨Reads.pure a, Starves.nil _⟩

/-- A reader that never answers is local: nothing is asked of its errors. -/
theorem IsLocal.throw (e : CodecError) : IsLocal (throw e : ByteReader α) :=
  Consumes.throw

theorem IsLocal.insideM {r : ByteReader α} (h : r.IsLocal) (l : Locator) :
    IsLocal (insideM l r) :=
  (Consumes.insideM h l).mono fun _ _ hbs => ⟨hbs.1.insideM l, hbs.2.insideM l⟩

/-- What each of two steps needs, both in turn need, one piece behind the other. -/
theorem IsLocal.bind {r : ByteReader α} {f : α → ByteReader β} (h : r.IsLocal)
    (h' : ∀ a, (f a).IsLocal) : (r >>= f).IsLocal := by
  refine Consumes.bind h fun as a has => (h' a).mono fun bs b hbs => ?_
  exact ⟨has.1.bind hbs.1, Starves.bind has.1 has.2 hbs.2⟩

/-! ### Pieces of a byte string -/

/-- To take bytes is to ask for all of them at once, so with one of them missing it fails. -/
theorem take_starves {bs : Bytes} {n : Nat} (h : bs.length = n) : (take n).Starves bs := by
  intro o j hj
  have hlen : (bs.take j).length = j := by rw [List.length_take, Nat.min_eq_left hj.le]
  have hshort : ¬ n ≤ (bs.take j).length := by omega
  refine ⟨_, _, if_neg hshort, o, n, j, ?_, h ▸ hj, rfl⟩
  rw [Cursor.remaining, hlen]
  rfl

theorem take_isLocal (n : Nat) : (take n).IsLocal := by
  refine (take_consumes n).mono fun bs as has => ?_
  obtain ⟨rfl, hlen⟩ := has
  exact ⟨take_reads hlen, take_starves hlen⟩

/-- Taking bytes is local, and so is whatever is made of it. -/
theorem isLocal_compositional : Compositional IsLocal where
  take := take_isLocal
  pure := .pure
  throw _ := .throw _
  bind := .bind
  insideM := .insideM

/-! ### Whole byte strings -/

section Whole

variable {r : ByteReader α} {bs : Bytes} {a : α}

/-- More bytes than a reader needs are told by their number. -/
theorem Reads.exactly_append (h : r.Reads bs a) {x : Bytes} (hx : x ≠ []) :
    r.exactly (bs ++ x) = fail (.unconsumed (.bytes x.length)) := by
  have hmore : ¬ (Cursor.isAtEnd ⟨0 + bs.length, x⟩ = true) := mt List.isEmpty_iff.mp hx
  rw [ByteReader.exactly, Cursor.start, h 0 x]
  exact if_neg hmore

/-- Fewer bytes than a reader needs are told as an unexpected end, at the end of the input. -/
theorem Starves.exactly_take (h : r.Starves bs) {j : Nat} (hj : j < bs.length) :
    ∃ e, r.exactly (bs.take j) = .error e ∧ e.IsShort j := by
  obtain ⟨e, c, he, hshort⟩ := h 0 j hj
  refine ⟨e, ?_, Nat.zero_add j ▸ hshort⟩
  rw [ByteReader.exactly, Cursor.start, he]

/-- The bytes that a local reader reads as a whole settle its answer, and it needs them all. -/
theorem IsLocal.of_exactly (h : r.IsLocal) (ha : r.exactly bs = .ok a) :
    r.Reads bs a ∧ r.Starves bs := by
  obtain ⟨c, hread, hend⟩ := exactly_eq_ok_iff.mp ha
  obtain ⟨as, hrest, -, hlocal⟩ := h _ a c hread
  rw [hend, List.append_nil] at hrest
  obtain rfl : bs = as := hrest
  exact hlocal

end Whole

end ByteReader

end CallData
