import CallData.Error
import Mathlib.Tactic.Ring

/-!
# Chains of steps

What the outcome of a chain of steps says about its links: a chain succeeds where each link does, on
what the one before it left behind, and fails where one of them fails behind others that succeed.
-/

namespace CallData

section Steps

variable {σ α β : Type} {x : EStateM CodecError σ α} {s s' : σ}

theorem pure_eq_ok {a b : α} :
    (pure a : EStateM CodecError σ α) s = .ok b s' ↔ b = a ∧ s' = s := by
  constructor
  · rintro ⟨⟩
    exact ⟨rfl, rfl⟩
  · rintro ⟨rfl, rfl⟩
    rfl

theorem throw_ne_ok {e : CodecError} {a : α} :
    (throw e : EStateM CodecError σ α) s ≠ .ok a s' :=
  nofun

/-- Once the first of two steps has answered, the second goes on from the state behind it. -/
theorem bind_of_ok {f : α → EStateM CodecError σ β} {a : α} (h : x s = .ok a s') :
    (x >>= f) s = f a s' := by
  change EStateM.bind x f s = _
  unfold EStateM.bind
  rw [h]

theorem bind_of_error {f : α → EStateM CodecError σ β} {e : CodecError} (h : x s = .error e s') :
    (x >>= f) s = .error e s' := by
  change EStateM.bind x f s = _
  unfold EStateM.bind
  rw [h]

/-- Two steps in turn answer exactly when each of them does, the second in the state that the first
one leaves. This is how a chain of steps is taken apart. -/
theorem bind_eq_ok {f : α → EStateM CodecError σ β} {b : β} :
    (x >>= f) s = .ok b s' ↔ ∃ a t, x s = .ok a t ∧ f a t = .ok b s' := by
  constructor
  · intro h
    rcases hx : x s with ⟨a, t⟩ | ⟨e, t⟩
    · exact ⟨a, t, rfl, (bind_of_ok hx).symm.trans h⟩
    · rw [bind_of_error hx] at h
      exact nomatch h
  · rintro ⟨a, t, hx, hf⟩
    rw [bind_of_ok hx]
    exact hf

/-- A chain fails where its first link does, or the second on an answer of the first. -/
theorem bind_eq_error {f : α → EStateM CodecError σ β} {e : CodecError} :
    (x >>= f) s = .error e s' ↔ x s = .error e s' ∨ ∃ a t, x s = .ok a t ∧ f a t = .error e s' := by
  rcases hx : x s with ⟨a, t⟩ | ⟨e', t⟩
  · rw [bind_of_ok hx]
    constructor
    · exact fun h => .inr ⟨a, t, rfl, h⟩
    · rintro (h | ⟨_, _, ⟨⟩, h⟩)
      · cases h
      · exact h
  · rw [bind_of_error hx]
    constructor
    · rintro ⟨⟩
      exact .inl rfl
    · rintro (h | ⟨_, _, h, -⟩)
      · cases h
        rfl
      · cases h

theorem insideM_eq_ok {l : Locator} {a : α} : insideM l x s = .ok a s' ↔ x s = .ok a s' := by
  unfold insideM EStateM.adaptExcept
  cases hx : x s <;> simp

/-- An error that leaves a step has the locator of the step in front of its path. -/
theorem insideM_of_error {l : Locator} {e : CodecError} (h : x s = .error e s') :
    insideM l x s = .error (e.inside l) s' := by
  unfold insideM EStateM.adaptExcept
  rw [h]

/-- What is said of an error outside is what was said of it inside, one place deeper. -/
theorem insideM_eq_error {l : Locator} {e : CodecError} :
    insideM l x s = .error e s' ↔ ∃ e', x s = .error e' s' ∧ e = e'.inside l := by
  unfold insideM EStateM.adaptExcept
  cases hx : x s <;> simp [eq_comm, and_comm]

/-- A check leaves the state as it was. -/
theorem lift_eq_ok {r : Except CodecError α} {a : α} :
    lift r s = .ok a s' ↔ r = .ok a ∧ s' = s := by
  cases r with
  | ok b => simp only [lift, pure_eq_ok, Except.ok.injEq, eq_comm (a := a)]
  | error e => simp [lift, throw_ne_ok]

theorem lift_eq_error {r : Except CodecError α} {e : CodecError} :
    lift r s = .error e s' ↔ r = .error e ∧ s' = s := by
  cases r with
  | ok a => exact iff_of_false nofun fun h => nomatch h.1
  | error e' =>
    constructor
    · rintro ⟨⟩
      exact ⟨rfl, rfl⟩
    · rintro ⟨⟨⟩, rfl⟩
      rfl

end Steps

section Checks

variable {α β : Type} {r : Except CodecError α}

/-- Two checks in turn succeed exactly when both of them do. -/
theorem except_bind_eq_ok {f : α → Except CodecError β} {b : β} :
    (r >>= f) = .ok b ↔ ∃ a, r = .ok a ∧ f a = .ok b := by
  cases r <;> simp [bind, Except.bind]

/-- A check that is known to succeed can be left out of a chain. -/
theorem except_bind_of_ok {f : α → Except CodecError β} {a : α} (h : r = .ok a) :
    (r >>= f) = f a := by
  rw [h]
  rfl

/-- A last step that only makes something of an answer. -/
theorem except_bind_pure {f : α → β} : (r >>= fun a => pure (f a)) = r.map f := by
  cases r <;> rfl

/-- A check in front of anything has to pass. -/
theorem except_seq_eq_ok {x : Except CodecError Unit} {b : α} :
    (x >>= fun _ => r) = .ok b ↔ x = .ok () ∧ r = .ok b := by
  rw [except_bind_eq_ok]
  exact ⟨fun ⟨_, hx, hr⟩ => ⟨hx, hr⟩, fun ⟨hx, hr⟩ => ⟨(), hx, hr⟩⟩

/-- A row is made of its first member and of the others, each on its own. -/
theorem except_cons_eq_ok {rs : Except CodecError (List β)} {f : α → β} {row : List β} :
    (r >>= fun a => rs >>= fun rest => pure (f a :: rest)) = .ok row ↔
      ∃ a rest, r = .ok a ∧ rs = .ok rest ∧ row = f a :: rest := by
  simp only [except_bind_eq_ok]
  constructor
  · rintro ⟨a, ha, rest, hrest, ⟨⟩⟩
    exact ⟨a, rest, ha, hrest, rfl⟩
  · rintro ⟨a, rest, ha, hrest, rfl⟩
    exact ⟨a, ha, rest, hrest, rfl⟩

/-- What is made of an answer is an answer exactly where there was one. -/
theorem except_map_eq_ok {f : α → β} {b : β} : r.map f = .ok b ↔ ∃ a, r = .ok a ∧ f a = b := by
  cases r <;> simp [Except.map]

/-- To say an error in other words makes no difference to an answer. -/
theorem mapError_eq_ok {ε : Type} {r : Except ε α} {f : ε → CodecError} {a : α} :
    r.mapError f = .ok a ↔ r = .ok a := by
  cases r <;> simp [Except.mapError]

theorem inside_eq_ok {l : Locator} {a : α} : inside l r = .ok a ↔ r = .ok a := by
  cases r <;> simp [inside, Except.mapError]

/-- A chain fails where a link does, behind others that succeed. -/
theorem except_bind_eq_error {f : α → Except CodecError β} {e : CodecError} :
    (r >>= f) = .error e ↔ r = .error e ∨ ∃ a, r = .ok a ∧ f a = .error e := by
  cases r <;> simp [bind, Except.bind]

/-- What is done to answers makes no difference to an error. -/
theorem except_map_eq_error {f : α → β} {e : CodecError} : r.map f = .error e ↔ r = .error e := by
  cases r <;> simp [Except.map]

theorem except_bind_pure_eq_error {f : α → β} {e : CodecError} :
    (r >>= fun a => pure (f a)) = .error e ↔ r = .error e := by
  rw [except_bind_pure, except_map_eq_error]

theorem mapError_eq_error {ε : Type} {r : Except ε α} {f : ε → CodecError} {e : CodecError} :
    r.mapError f = .error e ↔ ∃ fault, r = .error fault ∧ f fault = e := by
  cases r <;> simp [Except.mapError]

theorem inside_eq_error {l : Locator} {e : CodecError} :
    inside l r = .error e ↔ ∃ e', r = .error e' ∧ e'.inside l = e :=
  mapError_eq_error

theorem fail_ne_ok {c : Cause} {a : α} : fail c ≠ .ok a :=
  nofun

/-- A condition in front of anything has to hold. -/
theorem except_ite_eq_ok {p : Prop} [Decidable p] {c : Cause} {b : α} :
    (if p then r else fail c) = .ok b ↔ p ∧ r = .ok b := by
  by_cases h : p
  · rw [if_pos h, and_iff_right h]
  · rw [if_neg h]
    exact iff_of_false fail_ne_ok fun h' => h h'.1

/-- The check of bounds on both sides admits the bounds themselves. -/
theorem checkBounds_eq_ok_iff {i min max : Int} :
    checkBounds i min (some max) = .ok () ↔ min ≤ i ∧ i ≤ max := by
  rw [checkBounds]
  by_cases hmin : i < min
  · rw [if_pos hmin]
    exact iff_of_false fail_ne_ok (by omega)
  rw [if_neg hmin]
  by_cases hmax : max < i
  · simp only [if_pos hmax]
    exact iff_of_false fail_ne_ok (by omega)
  · simp only [if_neg hmax]
    exact iff_of_true trivial (by omega)

/-- A number that is not within the bounds is beyond one of them. -/
theorem exists_checkBounds_eq_fail {i min max : Int} (h : ¬ (min ≤ i ∧ i ≤ max)) :
    ∃ fault, checkBounds i min (some max) = fail (.outOfRange fault) := by
  rw [checkBounds]
  by_cases hmin : i < min
  · exact ⟨_, if_pos hmin⟩
  · rw [if_neg hmin]
    exact ⟨_, if_pos (by omega)⟩

theorem checkBounds_none_eq_ok_iff {i min : Int} : checkBounds i min none = .ok () ↔ min ≤ i := by
  rw [checkBounds]
  by_cases hmin : i < min
  · rw [if_pos hmin]
    exact iff_of_false fail_ne_ok (by omega)
  · rw [if_neg hmin]
    exact iff_of_true rfl (by omega)

/-- A length is checked to be exactly as declared, neither less nor more. -/
theorem checkLength_eq_ok_iff {exact actual : Nat} :
    checkLength exact actual = .ok () ↔ exact = actual := by
  rw [checkLength, except_ite_eq_ok, and_iff_left rfl]

end Checks

end CallData
