import CallData.Call
import CallData.Proofs.History

/-!
# Native values that are left out

An argument list is filled in from one native value for each argument, and `null` stands for those
that are missing at the end. So an argument does without a native value of its own if it takes
`null`, and it is absent then. An argument that may be left out does; of all the others, only a
single value does that is an option (`ArgType.LeftOut`). There is no other way to be filled in from
fewer native values, and none from more (`Argument.fillList_eq_ok_iff_leftOut`).
-/

namespace CallData

/-! ### What takes `null` -/

/-- Of all types, only an option is filled in from `null`. -/
theorem ValueType.ofNative_null_eq_ok_iff {T : ValueType} {v : Value} :
    T.ofNative .null = .ok v ↔ ∃ item, T = .option item ∧ v = .option (some item) none := by
  cases T with
  | option item =>
    have hnull : (option item).ofNative .null = .ok (.option (some item) none) := rfl
    simp [hnull, eq_comm]
  | _ => exact iff_of_false fail_ne_ok (by simp)

/-- What becomes of an argument of a type without a native value. -/
inductive ArgType.LeftOut : ArgType → Argument → Prop where
  | optional (item : ArgType) : LeftOut (.optional item) (.optional (some item) none)
  | option (item : ValueType) :
      LeftOut (.single (.option item)) (.single (.option (some item) none))

theorem ArgType.ofNative_null_eq_ok_iff {S : ArgType} {a : Argument} :
    S.ofNative .null = .ok a ↔ S.LeftOut a := by
  constructor
  · intro h
    cases S with
    | single T =>
      obtain ⟨v, hv, ⟨⟩⟩ := except_bind_eq_ok.mp h
      obtain ⟨item, rfl, rfl⟩ := ValueType.ofNative_null_eq_ok_iff.mp hv
      exact .option item
    | optional item =>
      obtain ⟨⟩ := h
      exact .optional item
    | _ => exact absurd h fail_ne_ok
  · rintro (item | item) <;> rfl

/-! ### Argument lists -/

namespace Argument

variable {types : List ArgType} {as bs : List Argument} {natives : List NativeValue}

/-- Arguments are filled in each from its own native value, as long as there are any. -/
theorem fillFrom_eq_ok_iff_leftOut (h : List.Forall₂ (fun S a => a.fill = S.ofNative) types as)
    (hle : natives.length ≤ types.length) (i : Nat) : fillFrom i as natives = .ok bs ↔
      List.Forall₂ (fun (p : ArgType × NativeValue) b => p.1.ofNative p.2 = .ok b)
        (types.zip natives) (bs.take natives.length) ∧
      List.Forall₂ ArgType.LeftOut (types.drop natives.length) (bs.drop natives.length) := by
  induction h generalizing natives bs i with
  | nil =>
    obtain rfl := List.length_eq_zero_iff.mp (Nat.le_zero.mp hle)
    simp [fillFrom, eq_comm]
  | @cons S a types as ha _ ih =>
    rw [fillFrom_cons_eq_ok_iff, ha]
    cases natives with
    | nil =>
      -- What is left has no native value either.
      simp [ih, ArgType.ofNative_null_eq_ok_iff, List.forall₂_cons_left_iff]
    | cons n natives =>
      have hle := Nat.le_of_succ_le_succ hle
      cases bs with
      | nil => simp
      | cons b bs => simp [ih hle, List.forall₂_cons, and_assoc]

/-- An argument list that comes of placeholders is filled in from native values if there are no more
of them than arguments, each fills in the argument in its place, and the arguments behind these are
such as may go without one. Those end up absent. -/
theorem fillList_eq_ok_iff_leftOut (h : List.Forall₂ ArgType.Reaches types as) :
    fillList as natives = .ok bs ↔ natives.length ≤ as.length ∧
      List.Forall₂ (fun (p : ArgType × NativeValue) b => p.1.placeholder.fill p.2 = .ok b)
        (types.zip natives) (bs.take natives.length) ∧
      List.Forall₂ ArgType.LeftOut (types.drop natives.length) (bs.drop natives.length) := by
  have hrow : List.Forall₂ (fun S a => a.fill = S.ofNative) types as :=
    h.imp fun S a ha => ha.governs.fill_eq.trans S.fill_placeholder
  rw [fillList_eq_ok_iff, and_comm]
  refine and_congr_right fun hle => ?_
  simp only [ArgType.fill_placeholder]
  exact fillFrom_eq_ok_iff_leftOut hrow (h.length_eq ▸ hle) 0

end Argument

/-- A price, and a tip that may be left out. -/
def tippedTypes : List ArgType :=
  [.single (.int .w8 false), .optional (.single (.int .w16 false))]

/-- A given price, with a tip of nine if there is one. -/
def tipped (price : Int) (tip : Bool) : List Argument :=
  [.single (.int ⟨.w8, false, price⟩),
    .optional (some (.single (.int .w16 false)))
      (if tip then some (.single (.int ⟨.w16, false, 9⟩)) else none)]

theorem tippedTypes_reaches_tipped :
    List.Forall₂ ArgType.Reaches tippedTypes (tipped 0 true) :=
  .cons .placeholder (.cons (.fill (n := .int 9) .placeholder rfl) .nil)

/-- A tip that was there before goes when a price comes alone. -/
theorem Argument.fillList_tipped :
    List.Forall₂ ArgType.Reaches tippedTypes (tipped 0 true) ∧
      fillList (tipped 0 true) [.int 5] = .ok (tipped 5 false) ∧
      List.Forall₂ ArgType.LeftOut (tippedTypes.drop 1) ((tipped 5 false).drop 1) ∧
      ∀ bs, fillList (tipped 0 true) [.int 5, .int 6, .null] ≠ .ok bs := by
  have hfill : fillList (tipped 0 true) [.int 5] = .ok (tipped 5 false) := rfl
  refine ⟨tippedTypes_reaches_tipped, hfill,
    ((fillList_eq_ok_iff_leftOut tippedTypes_reaches_tipped).mp hfill).2.2, fun bs h => ?_⟩
  have hle := ((fillList_eq_ok_iff_leftOut tippedTypes_reaches_tipped).mp h).1
  exact absurd hle (by decide)

/-- A bonus, which every call has, though it may be absent. -/
def bonusTypes : List ArgType :=
  [.single (.option (.int .w8 false))]

/-- A single value that is an option does without a native value, and its part is written as though
`null` had been given for it. In a row of arguments the same is refused. -/
theorem Argument.fillList_nil_bonus :
    fillList (placeholderArguments bonusTypes) [] =
        .ok [.single (.option (some (.int .w8 false)) none)] ∧
      (∀ item held, Argument.single (.option (some (.int .w8 false)) none) ≠
        .optional item held) ∧
      toParts [.single (.option (some (.int .w8 false)) none)] = .ok [[]] ∧
      (ArgType.multi bonusTypes).placeholder.fill (.seq []) =
        .error (.of (.lengthMismatch 1 0)) :=
  ⟨rfl, nofun, rfl, rfl⟩

end CallData
