import CallData.Argument
import CallData.Proofs.Parts
import CallData.Proofs.Value.Top

/-!
# Reading parts

A step *reads* some parts as a value (`PartStep.Reads`) when it does so wherever they are ahead of
the focus, and moves the focus beyond them. The other way, a step *takes* the parts of its answers
(`PartStep.Takes`) when it moves the focus over as many, and what is answered has a property.
Either may depend on the end of the parts: at the tail, parts are read only where nothing comes
behind them, and an answer has the property only where no part is left.
-/

namespace CallData

namespace PartBuffer

/-! ### Parts ahead -/

/-- The parts from the focus on. -/
def ahead (b : PartBuffer) : List Bytes :=
  b.parts.drop b.focused

/-- The same buffer with the focus some parts further on. -/
def moved (b : PartBuffer) (n : Nat) : PartBuffer :=
  ⟨b.parts, b.focused + n⟩

@[simp]
theorem moved_moved (b : PartBuffer) (m n : Nat) : (b.moved m).moved n = b.moved (m + n) := by
  rw [moved, moved, moved, Nat.add_assoc]

/-- The parts ahead are those that were not moved over. -/
@[simp]
theorem ahead_moved (b : PartBuffer) (n : Nat) : (b.moved n).ahead = b.ahead.drop n :=
  List.drop_drop.symm

/-- Behind the parts of one argument are those of the next. -/
theorem ahead_moved_of_append {b : PartBuffer} {ps post : List Bytes} (h : b.ahead = ps ++ post) :
    (b.moved ps.length).ahead = post := by
  rw [ahead_moved, h, List.drop_left]

theorem length_ahead (b : PartBuffer) : b.ahead.length = b.remaining :=
  List.length_drop

theorem isAtEnd_iff (b : PartBuffer) : b.isAtEnd = true ↔ b.ahead = [] := by
  rw [isAtEnd, ahead, decide_eq_true_iff, size, List.drop_eq_nil_iff]

theorem isAtEnd_of_ne_nil {b : PartBuffer} (h : b.ahead ≠ []) : b.isAtEnd = false := by
  rw [Bool.eq_false_iff, ne_eq, isAtEnd_iff]
  exact h

theorem checkAtEnd_eq_ok_iff (b : PartBuffer) : b.checkAtEnd = .ok () ↔ b.ahead = [] := by
  rw [checkAtEnd_eq_ok_iff_remaining, ← length_ahead, List.length_eq_zero_iff]

/-- The part in focus is the first one ahead. -/
theorem getElem?_focused (b : PartBuffer) : b.parts[b.focused]? = b.ahead.head? := by
  rw [ahead, List.head?_drop]

end PartBuffer

open PartBuffer

namespace PartStep

variable {α β : Type} {isTail : Bool}

/-- A step reads some parts as a value; at the tail, only where nothing comes behind them. -/
def Reads (isTail : Bool) (r : PartStep α) (ps : List Bytes) (a : α) : Prop :=
  ∀ b post, (isTail = true → post = []) → b.ahead = ps ++ post → r b = .ok a (b.moved ps.length)

/-- A step that succeeds takes the parts of its answer, and this has a property; at the tail, only
where no part is left. -/
def Takes (isTail : Bool) (r : PartStep α) (put : α → List Bytes) (P : α → Prop) : Prop :=
  ∀ b a b', r b = .ok a b' → b' = b.moved (put a).length ∧ (put a).length ≤ b.ahead.length ∧
    ((isTail = true → b'.ahead = []) → P a)

/-! ### Chains -/

/-- What is read whatever is behind is read at the tail. -/
theorem Reads.tail {r : PartStep α} {ps : List Bytes} {a : α} (h : Reads false r ps a) :
    Reads isTail r ps a :=
  fun b post _ hb => h b post nofun hb

theorem Reads.pure (a : α) : Reads isTail (pure a) [] a :=
  fun _ _ _ _ => rfl

/-- Of two steps in turn only the second can be at the tail, since its parts are behind those of the
first. -/
theorem Reads.bind {r : PartStep α} {f : α → PartStep β} {ps qs : List Bytes} {a : α} {c : β}
    (h : Reads false r ps a) (h' : Reads isTail (f a) qs c) :
    Reads isTail (r >>= f) (ps ++ qs) c := by
  intro b post htail hb
  rw [List.append_assoc] at hb
  refine bind_eq_ok.mpr ⟨a, _, h b _ nofun hb, ?_⟩
  rw [h' _ post htail (ahead_moved_of_append hb), moved_moved, List.length_append]

/-- A last step that only makes a value of what was read. -/
theorem Reads.map {r : PartStep α} {ps : List Bytes} {a : α} (h : Reads isTail r ps a)
    (f : α → β) : Reads isTail (r >>= fun x => Pure.pure (f x)) ps (f a) :=
  fun b post htail hb => bind_eq_ok.mpr ⟨a, _, h b post htail hb, rfl⟩

theorem Reads.insideM {r : PartStep α} {ps : List Bytes} {a : α} (h : Reads isTail r ps a)
    (l : Locator) : Reads isTail (insideM l r) ps a :=
  fun b post htail hb => insideM_eq_ok.mpr (h b post htail hb)

/-- What holds of an answer with parts left holds where none are. -/
theorem Takes.tail {r : PartStep α} {put : α → List Bytes} {P : α → Prop}
    (h : Takes false r put P) : Takes isTail r put P := by
  intro b a b' ha
  obtain ⟨hmoved, hle, hP⟩ := h b a b' ha
  exact ⟨hmoved, hle, fun _ => hP nofun⟩

theorem Takes.mono {r : PartStep α} {put : α → List Bytes} {P Q : α → Prop}
    (h : Takes isTail r put P) (hPQ : ∀ a, P a → Q a) : Takes isTail r put Q := by
  intro b a b' ha
  obtain ⟨hmoved, hle, hP⟩ := h b a b' ha
  exact ⟨hmoved, hle, fun hend => hPQ a (hP hend)⟩

/-- A last step may turn the answer into something else that has the same parts. -/
theorem Takes.map {r : PartStep α} {put : α → List Bytes} {put' : β → List Bytes} {P : α → Prop}
    {Q : β → Prop} {f : α → β} (h : Takes isTail r put P) (hput : ∀ a, put' (f a) = put a)
    (hPQ : ∀ a, P a → Q (f a)) : Takes isTail (r >>= fun x => Pure.pure (f x)) put' Q := by
  intro b c b' hc
  obtain ⟨a, t, ha, hc⟩ := bind_eq_ok.mp hc
  obtain ⟨rfl, rfl⟩ := pure_eq_ok.mp hc
  obtain ⟨hmoved, hle, hP⟩ := h b a b' ha
  rw [hput a]
  exact ⟨hmoved, hle, fun hend => hPQ a (hP hend)⟩

theorem Takes.insideM {r : PartStep α} {put : α → List Bytes} {P : α → Prop}
    (h : Takes isTail r put P) (l : Locator) : Takes isTail (insideM l r) put P :=
  fun b a b' ha => h b a b' (insideM_eq_ok.mp ha)

/-- A step takes the parts of what it puts in front of a row that another step takes. -/
theorem Takes.cons {r : PartStep α} {rs : PartStep (List α)} {put : α → List Bytes}
    {P : α → Prop} {Q R : List α → Prop} (h : Takes false r put P)
    (h' : Takes isTail rs (List.flatMap put) Q) (hR : ∀ a as, P a → Q as → R (a :: as)) :
    Takes isTail (do let a ← r; return a :: (← rs)) (List.flatMap put) R := by
  intro b as b' has
  obtain ⟨a, t, ha, has⟩ := bind_eq_ok.mp has
  obtain ⟨rest, t', hrest, has⟩ := bind_eq_ok.mp has
  obtain ⟨rfl, rfl⟩ := pure_eq_ok.mp has
  obtain ⟨rfl, hle, hP⟩ := h b a t ha
  obtain ⟨rfl, hle', hQ⟩ := h' _ rest _ hrest
  rw [ahead_moved, List.length_drop] at hle'
  rw [moved_moved, List.flatMap_cons, List.length_append] at *
  exact ⟨rfl, by omega, fun hend => hR a rest (hP nofun) (hQ hend)⟩

/-! ### One part -/

/-- A part is read as whatever its bytes are read as. -/
theorem readPart_reads {read : Bytes → Except CodecError α} {part : Bytes} {a : α}
    (h : read part = .ok a) : Reads isTail (readPart read) [part] a := by
  intro b post _ hb
  have hpart : focusedPart b = .ok part b := by
    rw [focusedPart, getElem?_focused, hb]
    rfl
  have hnext : focusNext b = .ok () (b.moved 1) := by
    rw [focusNext, isAtEnd_of_ne_nil (by simp [hb])]
    rfl
  refine bind_eq_ok.mpr ⟨part, b, hpart, bind_eq_ok.mpr ⟨a, b, lift_eq_ok.mpr ⟨h, rfl⟩, ?_⟩⟩
  exact bind_eq_ok.mpr ⟨(), _, hnext, rfl⟩

/-- The part that is looked at is still ahead afterwards. -/
theorem focusedPart_eq_ok {b b' : PartBuffer} {part : Bytes} (h : focusedPart b = .ok part b') :
    b.ahead.head? = some part ∧ b' = b := by
  rw [focusedPart, getElem?_focused] at h
  rcases hpart : b.ahead.head? with _ | p
  · rw [hpart] at h
    cases h
  · rw [hpart] at h
    cases h
    exact ⟨rfl, rfl⟩

/-- The focus moves over one part, and there was one. -/
theorem focusNext_eq_ok {b b' : PartBuffer} {u : Unit} (h : focusNext b = .ok u b') :
    b' = b.moved 1 ∧ b.ahead ≠ [] := by
  rw [focusNext] at h
  by_cases hend : b.isAtEnd
  · rw [if_pos hend] at h
    exact nomatch h
  · rw [if_neg hend] at h
    obtain ⟨⟩ := h
    exact ⟨rfl, mt (isAtEnd_iff b).mpr hend⟩

/-- Where a part is read, there was one ahead, and the focus moved over it. -/
theorem readPart_eq_ok {read : Bytes → Except CodecError α} {b b' : PartBuffer} {a : α}
    (h : readPart read b = .ok a b') :
    (∃ part, b.ahead.head? = some part ∧ read part = .ok a) ∧ b' = b.moved 1 ∧ b.ahead ≠ [] := by
  obtain ⟨part, t, hpart, h⟩ := bind_eq_ok.mp h
  obtain ⟨c, t', hlift, h⟩ := bind_eq_ok.mp h
  obtain ⟨u, t'', hnext, h⟩ := bind_eq_ok.mp h
  obtain ⟨rfl, rfl⟩ := pure_eq_ok.mp h
  obtain ⟨hread, rfl⟩ := lift_eq_ok.mp hlift
  obtain ⟨hhead, rfl⟩ := focusedPart_eq_ok hpart
  exact ⟨⟨part, hhead, hread⟩, focusNext_eq_ok hnext⟩

/-- A part that was read is one part passed, whatever the bytes of its answer would be. -/
theorem readPart_takes {read : Bytes → Except CodecError α} {put : α → List Bytes} {P : α → Prop}
    (hput : ∀ a, (put a).length = 1) (h : ∀ bs a, read bs = .ok a → P a) :
    Takes isTail (readPart read) put P := by
  intro b a b' ha
  obtain ⟨⟨part, -, hread⟩, hmoved, hne⟩ := readPart_eq_ok ha
  rw [hput]
  exact ⟨hmoved, List.length_pos_iff.mpr hne, fun _ => h part a hread⟩

/-! ### Rows -/

section Rows

variable {put : α → List Bytes} {item : PartStep α} {as : List α}

/-- Items are read in turn where each is read from parts of its own. -/
theorem replicateFrom_reads (h : ∀ a ∈ as, Reads false item (put a) a) (i : Nat) :
    Reads isTail (replicateFrom item as.length i) (as.flatMap put) as := by
  induction as generalizing i with
  | nil => exact Reads.pure []
  | cons a as ih =>
    rw [List.forall_mem_cons] at h
    rw [List.length_cons, List.flatMap_cons]
    exact (h.1.insideM (.index i)).bind ((ih h.2 (i + 1)).map (a :: ·))

/-- Items that were asked for are as many, and take the parts of each in turn. -/
theorem replicateFrom_takes {P : α → Prop} (h : Takes false item put P) (n i : Nat) :
    Takes isTail (replicateFrom item n i) (List.flatMap put)
      fun as => as.length = n ∧ ∀ a ∈ as, P a := by
  induction n generalizing i with
  | zero =>
    intro b as b' has
    obtain ⟨rfl, rfl⟩ := pure_eq_ok.mp has
    exact ⟨rfl, Nat.zero_le _, fun _ => ⟨rfl, by simp⟩⟩
  | succ n ih =>
    refine (h.insideM (.index i)).cons (ih (i + 1)) fun a as ha has => ?_
    exact ⟨congrArg (· + 1) has.1, List.forall_mem_cons.mpr ⟨ha, has.2⟩⟩

/-- With no parts ahead there are no more items. -/
theorem manyFrom_of_end {b : PartBuffer} (h : b.ahead = []) (i : Nat) :
    manyFrom item i b = .ok [] b := by
  rw [manyFrom, if_pos ((isAtEnd_iff b).mpr h)]

/-- Where a part is left, an item is read, and others behind it if the item took a part. -/
theorem manyFrom_of_ne_nil {b : PartBuffer} (h : b.ahead ≠ []) (i : Nat) :
    manyFrom item i b = (insideM (.index i) item >>= fun a t =>
      if t.ahead.length < b.ahead.length then
        (manyFrom item (i + 1) >>= fun rest => Pure.pure (a :: rest)) t
      else .ok [a] t) b := by
  rw [manyFrom, isAtEnd_of_ne_nil h, if_neg Bool.false_ne_true]
  rcases hread : insideM (.index i) item b with ⟨a, t⟩ | ⟨e, t⟩
  · refine Eq.trans ?_ (bind_of_ok hread).symm
    refine if_congr (by rw [length_ahead, length_ahead]) ?_ rfl
    rcases hrest : manyFrom item (i + 1) t with ⟨rest, t'⟩ | ⟨e, t'⟩
    · rw [bind_of_ok hrest]
      rfl
    · rw [bind_of_error hrest]
  · exact (bind_of_error hread).symm

/-- Where each item is read from parts of its own, one at least, parts are read as items up to the
end. -/
theorem manyFrom_reads (h : ∀ a ∈ as, Reads false item (put a) a) (hne : ∀ a ∈ as, put a ≠ [])
    (i : Nat) : Reads true (manyFrom item i) (as.flatMap put) as := by
  induction as generalizing i with
  | nil =>
    intro b post htail hb
    have hend : b.ahead = [] := by
      rw [hb, htail rfl]
      rfl
    exact manyFrom_of_end hend i
  | cons a as ih =>
    rw [List.forall_mem_cons] at h hne
    intro b post htail hb
    rw [List.flatMap_cons, List.append_assoc] at hb
    have hmore : b.ahead ≠ [] := by simp [hb, hne.1]
    have hread := h.1.insideM (.index i) b _ nofun hb
    have hrest := ih h.2 hne.2 (i + 1) _ post htail (ahead_moved_of_append hb)
    have hless : (b.moved (put a).length).ahead.length < b.ahead.length := by
      have hpos : 0 < (put a).length := List.length_pos_iff.mpr hne.1
      rw [ahead_moved, List.length_drop, hb, List.length_append]
      omega
    rw [manyFrom_of_ne_nil hmore]
    refine bind_eq_ok.mpr ⟨a, _, hread, ?_⟩
    rw [if_pos hless, List.flatMap_cons, List.length_append, ← moved_moved]
    exact bind_eq_ok.mpr ⟨as, _, hrest, rfl⟩

/-- What holds of no items where no part is left, of an item that fails, of one item that takes no
part, and of an item in front of others of which it holds, holds of every reading up to the end. -/
theorem manyFrom_outcome_induct
    {Q : PartBuffer → EStateM.Result CodecError PartBuffer (List α) → Prop}
    (finished : ∀ b, b.ahead = [] → Q b (.ok [] b))
    (failed : ∀ b i e t, insideM (.index i) item b = .error e t → Q b (.error e t))
    (stuck : ∀ b a t, b.ahead ≠ [] → item b = .ok a t →
      ¬ t.ahead.length < b.ahead.length → Q b (.ok [a] t))
    (more : ∀ b a t i, item b = .ok a t → t.ahead.length < b.ahead.length →
      Q t (manyFrom item i t) → Q b ((manyFrom item i >>= fun rest => Pure.pure (a :: rest)) t))
    (i : Nat) (b : PartBuffer) : Q b (manyFrom item i b) := by
  -- Each item moves the focus on, so the number of parts ahead bounds the run.
  induction hn : b.ahead.length using Nat.strong_induction_on generalizing i b with
  | _ n ih =>
  subst hn
  by_cases hend : b.ahead = []
  · rw [manyFrom_of_end hend]
    exact finished b hend
  rcases hread : insideM (.index i) item b with ⟨a, t⟩ | ⟨e, t⟩
  · have hmany := (manyFrom_of_ne_nil hend i).trans (bind_of_ok hread)
    rw [insideM_eq_ok] at hread
    by_cases hless : t.ahead.length < b.ahead.length
    · rw [hmany, if_pos hless]
      exact more b a t (i + 1) hread hless (ih _ hless (i + 1) t rfl)
    · rw [hmany, if_neg hless]
      exact stuck b a t hend hread hless
  · have hmany := (manyFrom_of_ne_nil hend i).trans (bind_of_error hread)
    rw [hmany]
    exact failed b i e t hread

/-- The same of readings that succeed. -/
theorem manyFrom_induct {Q : PartBuffer → List α → PartBuffer → Prop}
    (finished : ∀ b, b.ahead = [] → Q b [] b)
    (stuck : ∀ b a t, b.ahead ≠ [] → item b = .ok a t →
      ¬ t.ahead.length < b.ahead.length → Q b [a] t)
    (more : ∀ b a t rest b', item b = .ok a t → t.ahead.length < b.ahead.length →
      Q t rest b' → Q b (a :: rest) b')
    {i : Nat} {b b' : PartBuffer} (h : manyFrom item i b = .ok as b') : Q b as b' := by
  suffices hall : ∀ as b', manyFrom item i b = .ok as b' → Q b as b' from hall as b' h
  apply manyFrom_outcome_induct (Q := fun b r => ∀ as b', r = .ok as b' → Q b as b')
  case finished =>
    rintro b hend _ _ ⟨⟩
    exact finished b hend
  case failed => exact fun _ _ _ _ _ _ _ h => by cases h
  case stuck =>
    rintro b a t hend hread hless _ _ ⟨⟩
    exact stuck b a t hend hread hless
  case more =>
    intro b a t i hread hless ih as b' h
    obtain ⟨rest, t', hrest, h⟩ := bind_eq_ok.mp h
    obtain ⟨rfl, rfl⟩ := pure_eq_ok.mp h
    exact more b a t rest _ hread hless (ih rest _ hrest)

/-- Items that are read up to the end take the parts there are, each at least one. -/
theorem manyFrom_takes {P : α → Prop} (h : Takes false item put P) (i : Nat) :
    Takes true (manyFrom item i) (List.flatMap put) fun as => ∀ a ∈ as, P a ∧ put a ≠ [] := by
  intro b as b' has
  apply manyFrom_induct (h := has) (Q := fun b as b' =>
    b' = b.moved (as.flatMap put).length ∧ (as.flatMap put).length ≤ b.ahead.length ∧
      ((true = true → b'.ahead = []) → ∀ a ∈ as, P a ∧ put a ≠ []))
  case finished => exact fun b _ => ⟨rfl, Nat.zero_le _, fun _ => by simp⟩
  case stuck =>
    intro b a t hend hread hless
    obtain ⟨rfl, hle, hP⟩ := h b a t hread
    -- An item without parts was read in front of some: these are left.
    have hpos : 0 < b.ahead.length := List.length_pos_iff.mpr hend
    rw [ahead_moved, List.length_drop] at hless
    have hzero : (put a).length = 0 := by omega
    rw [List.flatMap_singleton, hzero]
    exact ⟨rfl, Nat.zero_le _, fun hnil => absurd (hnil rfl) hend⟩
  case more =>
    intro b a t rest b' hread hless hrest
    obtain ⟨rfl, hle, hP⟩ := h b a t hread
    obtain ⟨rfl, hle', hPs⟩ := hrest
    rw [ahead_moved, List.length_drop] at hless hle'
    have hne : put a ≠ [] := List.ne_nil_of_length_pos (by omega)
    rw [moved_moved, List.flatMap_cons, List.length_append] at *
    exact ⟨rfl, by omega, fun hend => List.forall_mem_cons.mpr ⟨⟨hP nofun, hne⟩, hPs hend⟩⟩

end Rows

end PartStep

end CallData
