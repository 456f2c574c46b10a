import CallData.Proofs.Argument.Flat

/-!
# The order of arguments

An argument is *delimited* when it has no optional and no variadic argument in it: its parts tell
where it ends. It is *trailing* when it has some only where nothing comes behind them. The order
of the arguments of a call is right exactly when all but the last are delimited and the last is
trailing (`Argument.checkOrder_eq_ok_iff`). Types of arguments are told apart in the same way.
-/

namespace CallData

/-! ### Rows with a special end -/

/-- All members of a row but the last have one property, and the last has another. -/
inductive EndsIn {α : Type} (P Q : α → Prop) : List α → Prop where
  | nil : EndsIn P Q []
  | last {a : α} (h : Q a) : EndsIn P Q [a]
  | cons {a b : α} {as : List α} (h : P a) (hs : EndsIn P Q (b :: as)) : EndsIn P Q (a :: b :: as)

/-- Such a row goes over into another, member by member. -/
theorem EndsIn.of_forall₂ {α β : Type} {P Q : α → Prop} {P' Q' : β → Prop} {as : List α}
    {bs : List β} (h : List.Forall₂ (fun a b => (P a → P' b) ∧ (Q a → Q' b)) as bs)
    (has : EndsIn P Q as) : EndsIn P' Q' bs := by
  induction has generalizing bs with
  | nil =>
    obtain ⟨⟩ := h
    exact .nil
  | last ha =>
    obtain ⟨⟩ | ⟨hab, ⟨⟩⟩ := h
    exact .last (hab.2 ha)
  | cons ha _ ih =>
    obtain ⟨⟩ | ⟨hab, hs⟩ := h
    have hrest := ih hs
    -- Only now is the second row told to go on as well.
    obtain ⟨⟩ | ⟨_, hs⟩ := hs
    exact .cons (hab.1 ha) hrest

theorem EndsIn.of_forall {α : Type} {P Q : α → Prop} {as : List α} (hP : ∀ a ∈ as, P a)
    (hQ : ∀ a ∈ as, Q a) : EndsIn P Q as := by
  induction as with
  | nil => exact .nil
  | cons a as ih =>
    rw [List.forall_mem_cons] at hP hQ
    match as with
    | [] => exact .last hQ.1
    | b :: as => exact .cons hP.1 (ih hP.2 hQ.2)

/-- A member in front of others is not the last one. -/
theorem EndsIn.cons_iff {α : Type} {P Q : α → Prop} {a : α} {as : List α} (h : as ≠ []) :
    EndsIn P Q (a :: as) ↔ P a ∧ EndsIn P Q as := by
  match as, h with
  | b :: as, _ => exact ⟨fun | .cons ha has => ⟨ha, has⟩, fun ⟨ha, has⟩ => .cons ha has⟩

/-- In front of others, all members of a row have the property of those that are not the last. -/
theorem EndsIn.append_iff {α : Type} {P Q : α → Prop} {as bs : List α} (h : bs ≠ []) :
    EndsIn P Q (as ++ bs) ↔ (∀ a ∈ as, P a) ∧ EndsIn P Q bs := by
  induction as with
  | nil => simp
  | cons a as ih =>
    rw [List.cons_append, cons_iff (by simp [h]), ih, List.forall_mem_cons, and_assoc]

/-- A row may stand in front if all its members have the property of those that are not the last;
the last of them is that of the whole where nothing else comes behind. -/
theorem EndsIn.append {α : Type} {P Q : α → Prop} {as bs : List α} (hPQ : ∀ a ∈ as, P a → Q a)
    (has : ∀ a ∈ as, P a) (hbs : EndsIn P Q bs) : EndsIn P Q (as ++ bs) := by
  by_cases hnil : bs = []
  · rw [hnil, List.append_nil]
    exact .of_forall has fun a ha => hPQ a ha (has a ha)
  · exact (append_iff hnil).mpr ⟨has, hbs⟩

/-! ### Types -/

/-- A type of arguments with no optional and no variadic type in it. -/
inductive ArgType.Delimited : ArgType → Prop where
  | single (type : ValueType) : Delimited (.single type)
  | multi {types : List ArgType} (h : ∀ S ∈ types, Delimited S) : Delimited (.multi types)
  | counted {item : ArgType} (h : Delimited item) : Delimited (.counted item)

/-- A type of arguments that has optional and variadic types in it only at its end, and in no
repeated type. -/
inductive ArgType.Trailing : ArgType → Prop where
  | single (type : ValueType) : Trailing (.single type)
  | multi {types : List ArgType} (h : EndsIn Delimited Trailing types) : Trailing (.multi types)
  | optional {item : ArgType} (h : Trailing item) : Trailing (.optional item)
  | variadic {item : ArgType} (h : item.Delimited) : Trailing (.variadic item)
  | counted {item : ArgType} (h : item.Delimited) : Trailing (.counted item)

/-! ### Arguments -/

namespace Argument

/-- An argument with no optional and no variadic argument in it. -/
inductive Delimited : Argument → Prop where
  | single (v : Value) : Delimited (.single v)
  | multi {items : List Argument} (h : ∀ a ∈ items, Delimited a) : Delimited (.multi items)
  | counted (itemType : ArgType) {items : List Argument} (h : ∀ a ∈ items, Delimited a) :
      Delimited (.counted itemType items)

/-- An argument that has optional and variadic arguments in it only at its end, and in no repeated
argument. -/
inductive Trailing : Argument → Prop where
  | single (v : Value) : Trailing (.single v)
  | multi {items : List Argument} (h : EndsIn Delimited Trailing items) : Trailing (.multi items)
  | absent (itemType : Option ArgType) : Trailing (.optional itemType none)
  | present (itemType : Option ArgType) {a : Argument} (h : Trailing a) :
      Trailing (.optional itemType (some a))
  | variadic (itemType : ArgType) {items : List Argument} (h : ∀ a ∈ items, a.Delimited) :
      Trailing (.variadic itemType items)
  | counted (itemType : ArgType) {items : List Argument} (h : ∀ a ∈ items, a.Delimited) :
      Trailing (.counted itemType items)

/-- A delimited argument may stand at the end as well as anywhere else. -/
theorem Delimited.trailing {a : Argument} (h : a.Delimited) : a.Trailing := by
  induction a with
  | single v => exact .single v
  | multi items ih =>
    have .multi h := h
    exact .multi (.of_forall h fun a ha => ih a ha (h a ha))
  | absent itemType => exact .absent itemType
  | present itemType a ih => nomatch h
  | variadic itemType items ih => nomatch h
  | counted itemType items ih =>
    have .counted _ h := h
    exact .counted itemType h

/-- One round of the check: an argument counts as the last of the call if nothing comes behind it in
this row and nothing behind the row. -/
theorem checkPlaces_cons_eq_ok_iff {p n : Nat} {isTail : Bool} {a : Argument}
    {args : List Argument} : checkPlaces p n isTail (a :: args) = .ok () ↔
      checkPlace p n (isTail && args.isEmpty) a = .ok () ∧
        checkPlaces (p + 1) n isTail args = .ok () := by
  rw [checkPlaces, except_seq_eq_ok]

/-- In front of other arguments, all members of a row have to be delimited. -/
theorem checkPlaces_false_eq_ok_iff {items : List Argument}
    (h : ∀ a ∈ items, ∀ p n, checkPlace p n false a = .ok () ↔ a.Delimited) (p n : Nat) :
    checkPlaces p n false items = .ok () ↔ ∀ a ∈ items, a.Delimited := by
  induction items generalizing p with
  | nil => exact iff_of_true rfl (by simp)
  | cons a items ih =>
    rw [List.forall_mem_cons] at h
    rw [checkPlaces_cons_eq_ok_iff, Bool.false_and, h.1 p n, ih h.2, List.forall_mem_cons]

/-- Repeated arguments have to be delimited, the last of them too, as others might come behind it.
-/
theorem checkItems_eq_ok_iff {items : List Argument}
    (h : ∀ a ∈ items, ∀ p n, checkPlace p n false a = .ok () ↔ a.Delimited) (i : Nat) :
    checkItems i items = .ok () ↔ ∀ a ∈ items, a.Delimited := by
  induction items generalizing i with
  | nil => exact iff_of_true rfl (by simp)
  | cons a items ih =>
    rw [List.forall_mem_cons] at h
    rw [checkItems, except_seq_eq_ok, inside_eq_ok, h.1 0 1, ih h.2, List.forall_mem_cons]

/-- With something behind it, an argument is in place when it is delimited. -/
theorem checkPlace_false_eq_ok_iff (a : Argument) (p n : Nat) :
    checkPlace p n false a = .ok () ↔ a.Delimited := by
  induction a generalizing p n with
  | single v => exact iff_of_true rfl (.single v)
  | multi items ih =>
    rw [checkPlace, inside_eq_ok, checkPlaces_false_eq_ok_iff ih]
    exact ⟨.multi, fun | .multi h => h⟩
  | absent itemType => exact iff_of_false fail_ne_ok nofun
  | present itemType a ih => exact iff_of_false fail_ne_ok nofun
  | variadic itemType items ih => exact iff_of_false fail_ne_ok nofun
  | counted itemType items ih =>
    rw [checkPlace, checkItems_eq_ok_iff ih]
    exact ⟨.counted itemType, fun | .counted _ h => h⟩

/-- At the end of a call, the last member of a row is at the end as well. -/
theorem checkPlaces_true_eq_ok_iff {items : List Argument}
    (h : ∀ a ∈ items, ∀ p n, checkPlace p n true a = .ok () ↔ a.Trailing) (p n : Nat) :
    checkPlaces p n true items = .ok () ↔ EndsIn Delimited Trailing items := by
  induction items generalizing p with
  | nil => exact iff_of_true rfl .nil
  | cons a items ih =>
    rw [List.forall_mem_cons] at h
    rw [checkPlaces_cons_eq_ok_iff, ih h.2]
    -- The end of the row is where the check of a member changes.
    match items with
    | [] =>
      rw [List.isEmpty_nil, Bool.and_true, h.1 p n, and_iff_left .nil]
      exact ⟨.last, fun | .last h => h⟩
    | b :: items =>
      rw [List.isEmpty_cons, Bool.and_false, a.checkPlace_false_eq_ok_iff p n]
      exact ⟨fun ⟨ha, hs⟩ => .cons ha hs, fun | .cons ha hs => ⟨ha, hs⟩⟩

/-- With nothing behind it, an argument is in place when it is trailing. -/
theorem checkPlace_true_eq_ok_iff (a : Argument) (p n : Nat) :
    checkPlace p n true a = .ok () ↔ a.Trailing := by
  have hitems : ∀ items i, checkItems i items = .ok () ↔ ∀ a ∈ items, a.Delimited :=
    fun items => checkItems_eq_ok_iff fun a _ => a.checkPlace_false_eq_ok_iff
  induction a generalizing p n with
  | single v => exact iff_of_true rfl (.single v)
  | multi items ih =>
    rw [checkPlace, inside_eq_ok, checkPlaces_true_eq_ok_iff ih]
    exact ⟨.multi, fun | .multi h => h⟩
  | absent itemType => exact iff_of_true rfl (.absent itemType)
  | present itemType a ih => exact (ih 0 1).trans ⟨.present itemType, fun | .present _ h => h⟩
  | variadic itemType items ih =>
    exact (hitems items 0).trans ⟨.variadic itemType, fun | .variadic _ h => h⟩
  | counted itemType items ih =>
    exact (hitems items 0).trans ⟨.counted itemType, fun | .counted _ h => h⟩

/-- The order of the arguments of a call is right when all but the last are delimited and the last
is trailing. -/
theorem checkOrder_eq_ok_iff (args : List Argument) :
    checkOrder args = .ok () ↔ EndsIn Delimited Trailing args :=
  checkPlaces_true_eq_ok_iff (fun a _ => a.checkPlace_true_eq_ok_iff) 0 args.length

/-! ### Sameness -/

/-- Whether an argument is in order depends only on what it holds, and not on the types that it
carries for decoding. -/
theorem delimited_and_trailing_of_same {a b : Argument} (h : same a b = true) :
    (a.Delimited → b.Delimited) ∧ (a.Trailing → b.Trailing) := by
  have row : ∀ {as bs : List Argument}, List.Forall₂ (fun a b =>
      (a.Delimited → b.Delimited) ∧ (a.Trailing → b.Trailing)) as bs →
      (∀ a ∈ as, a.Delimited) → ∀ b ∈ bs, b.Delimited := fun h =>
    forall_mem_of_forall₂ h fun _ _ hab => hab.1
  apply same_induct (h := h)
    (Q := fun a b => (a.Delimited → b.Delimited) ∧ (a.Trailing → b.Trailing))
  case single => exact fun v w _ => ⟨fun _ => .single w, fun _ => .single w⟩
  case multi =>
    refine fun as bs ih => ⟨fun | .multi hitems => ?_, fun | .multi hitems => ?_⟩
    · exact .multi (row ih hitems)
    · exact .multi (hitems.of_forall₂ ih)
  case absent => exact fun s t => ⟨nofun, fun _ => .absent t⟩
  case present =>
    refine fun s t a b ih => ⟨nofun, fun | .present _ hheld => ?_⟩
    exact .present t (ih.2 hheld)
  case variadic =>
    refine fun s t as bs ih => ⟨nofun, fun | .variadic _ hitems => ?_⟩
    exact .variadic t (row ih hitems)
  case counted =>
    refine fun s t as bs ih => ⟨fun | .counted _ hitems => ?_, fun | .counted _ hitems => ?_⟩
    · exact .counted t (row ih hitems)
    · exact .counted t (row ih hitems)

theorem Delimited.of_same {a b : Argument} (h : same a b = true) (ha : a.Delimited) :
    b.Delimited :=
  (delimited_and_trailing_of_same h).1 ha

/-- Whether the order of arguments is right depends only on what they hold. -/
theorem checkOrder_eq_ok_of_same {as bs : List Argument} (h : sameArguments as bs = true)
    (has : checkOrder as = .ok ()) : checkOrder bs = .ok () := by
  rw [checkOrder_eq_ok_iff] at has ⊢
  exact has.of_forall₂ ((sameArguments_iff.mp h).imp fun _ _ => delimited_and_trailing_of_same)

end Argument

end CallData
