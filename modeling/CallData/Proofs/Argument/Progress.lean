import CallData.Proofs.Argument.Grouping
import CallData.Proofs.FixedInt

/-!
# How far reading goes

Whether an argument is read or an error stops the reading, the parts stay as they are and the focus
moves over some of those ahead (`ArgType.read_movesOn`). A type that is made of nothing but empty
rows (`ArgType.PartFree`) leaves the focus where it is; every other type takes a part wherever one
is ahead (`ArgType.read_progresses`), so repeated arguments of it use up all the parts there are.
-/

namespace CallData

open PartBuffer

/-! ### Buffers further on -/

/-- A buffer is another with the focus moved over some of the parts ahead. -/
def PartBuffer.Reaches (b b' : PartBuffer) : Prop :=
  ∃ n, n ≤ b.ahead.length ∧ b' = b.moved n

namespace PartBuffer.Reaches

variable {b b' b'' : PartBuffer}

theorem refl (b : PartBuffer) : b.Reaches b :=
  ⟨0, Nat.zero_le _, rfl⟩

theorem trans (h : b.Reaches b') (h' : b'.Reaches b'') : b.Reaches b'' := by
  obtain ⟨m, hm, rfl⟩ := h
  obtain ⟨n, hn, rfl⟩ := h'
  rw [ahead_moved, List.length_drop] at hn
  exact ⟨m + n, by omega, moved_moved b m n⟩

theorem length_ahead_le (h : b.Reaches b') : b'.ahead.length ≤ b.ahead.length := by
  obtain ⟨n, -, rfl⟩ := h
  rw [ahead_moved, List.length_drop]
  exact Nat.sub_le _ _

theorem parts_eq (h : b.Reaches b') : b'.parts = b.parts := by
  obtain ⟨n, -, rfl⟩ := h
  rfl

/-- The focus does not move backwards, nor beyond the end. -/
theorem focused_le (h : b.Reaches b') (hb : b.focused ≤ b.size) :
    b.focused ≤ b'.focused ∧ b'.focused ≤ b.size := by
  obtain ⟨n, hn, rfl⟩ := h
  rw [length_ahead, remaining] at hn
  dsimp only [moved]
  omega

end PartBuffer.Reaches

/-! ### What steps leave behind -/

namespace PartStep

section Steps

variable {α β : Type} {r : PartStep α} {f : α → PartStep β} {b b' : PartBuffer}

/-- Where the first of two steps succeeds, both leave behind what the second does. -/
theorem after_bind_of_ok {a : α} (h : r b = .ok a b') : after (r >>= f) b = after (f a) b' := by
  rw [after, bind_of_ok h]
  rfl

theorem after_bind_of_error {e : CodecError} (h : r b = .error e b') :
    after (r >>= f) b = b' :=
  after_of_error (bind_of_error h)

theorem after_congr {r' : PartStep α} (h : r b = r' b') : after r b = after r' b' := by
  rw [after, h, after]

/-- To make something of an answer leaves the same buffer behind. -/
theorem after_map (f : α → β) : after (r >>= fun a => pure (f a)) b = after r b := by
  rcases h : r b with ⟨a, t⟩ | ⟨e, t⟩
  · rw [after_of_ok h, after_bind_of_ok h]
    rfl
  · rw [after_of_error h, after_bind_of_error h]

theorem after_insideM (l : Locator) : after (insideM l r) b = after r b := by
  rcases h : r b with ⟨a, t⟩ | ⟨e, t⟩
  · rw [after_of_ok h, after_of_ok (insideM_eq_ok.mpr h)]
  · rw [after_of_error h, after_of_error (insideM_of_error h)]

/-- A step only moves the focus over some of the parts ahead, also where it fails. -/
def MovesOn (r : PartStep α) : Prop :=
  ∀ b : PartBuffer, b.Reaches (after r b)

/-- A step that succeeds moves the focus on where a part is ahead. -/
def Progresses (r : PartStep α) : Prop :=
  ∀ b a b', b.ahead ≠ [] → r b = .ok a b' → b'.ahead.length < b.ahead.length

/-- A step that succeeds leaves the buffer as it is. -/
def Stays (r : PartStep α) : Prop :=
  ∀ b a b', r b = .ok a b' → b' = b

/-- What is known of a step that fails or not is known of one that succeeds. -/
theorem MovesOn.reaches (h : MovesOn r) {a : α} (ha : r b = .ok a b') : b.Reaches b' := by
  rw [← after_of_ok ha]
  exact h b

theorem MovesOn.pure (a : α) : MovesOn (pure a) :=
  fun b => .refl b

/-- Of two steps, each only moves the focus on, so both together do; if the first fails, it alone.
-/
theorem MovesOn.bind (h : MovesOn r) (h' : ∀ a, MovesOn (f a)) : MovesOn (r >>= f) := by
  intro b
  have hb := h b
  rcases hr : r b with ⟨a, t⟩ | ⟨e, t⟩
  · rw [after_of_ok hr] at hb
    rw [after_bind_of_ok hr]
    exact hb.trans (h' a t)
  · rw [after_of_error hr] at hb
    rw [after_bind_of_error hr]
    exact hb

theorem MovesOn.map (h : MovesOn r) (f : α → β) : MovesOn (r >>= fun a => Pure.pure (f a)) :=
  h.bind fun a => .pure (f a)

theorem MovesOn.insideM (h : MovesOn r) (l : Locator) : MovesOn (insideM l r) := by
  intro b
  rw [after_insideM]
  exact h b

/-- A chain moves on where its first link does. -/
theorem Progresses.bind (h : Progresses r) (h' : ∀ a, MovesOn (f a)) : Progresses (r >>= f) := by
  intro b c b' hb hc
  obtain ⟨a, t, ha, hc⟩ := bind_eq_ok.mp hc
  exact Nat.lt_of_le_of_lt ((h' a).reaches hc).length_ahead_le (h b a t hb ha)

/-- A chain moves on where its second link does: a part that the first does not take is ahead of the
second. -/
theorem MovesOn.bind_progresses (h : MovesOn r) (h' : ∀ a, MovesOn (f a))
    (hf : ∀ a, Progresses (f a)) : Progresses (r >>= f) := by
  intro b c b' hb hc
  obtain ⟨a, t, ha, hc⟩ := bind_eq_ok.mp hc
  have hle := ((h' a).reaches hc).length_ahead_le
  by_cases ht : t.ahead = []
  · rw [ht] at hle
    exact Nat.lt_of_le_of_lt hle (List.length_pos_iff.mpr hb)
  · exact Nat.lt_of_lt_of_le (hf a t c b' ht hc) (h.reaches ha).length_ahead_le

theorem Progresses.insideM (h : Progresses r) (l : Locator) : Progresses (insideM l r) :=
  fun b a b' hb ha => h b a b' hb (insideM_eq_ok.mp ha)

theorem Stays.map (h : Stays r) (f : α → β) : Stays (r >>= fun a => Pure.pure (f a)) := by
  intro b c b' hc
  obtain ⟨a, t, ha, hc⟩ := bind_eq_ok.mp hc
  rw [(pure_eq_ok.mp hc).2]
  exact h b a t ha

/-! ### One part -/

/-- A part whose bytes are refused is not passed over. -/
theorem readPart_movesOn (read : Bytes → Except CodecError α) : MovesOn (readPart read) := by
  have hfocused : MovesOn focusedPart := by
    intro b
    rw [after, focusedPart]
    cases b.parts[b.focused]? <;> exact .refl b
  have hlift (x : Except CodecError α) : MovesOn (lift x) := by
    intro b
    cases x <;> exact .refl b
  have hnext : MovesOn focusNext := by
    intro b
    rw [after, focusNext]
    by_cases hend : b.isAtEnd
    · rw [if_pos hend]
      exact .refl b
    · rw [if_neg hend]
      exact ⟨1, List.length_pos_iff.mpr (mt (isAtEnd_iff b).mpr hend), rfl⟩
  exact hfocused.bind fun part => (hlift (read part)).bind fun a => hnext.map fun _ => a

theorem readPart_progresses (read : Bytes → Except CodecError α) :
    Progresses (readPart read) := by
  intro b a b' hb ha
  obtain ⟨-, rfl, -⟩ := readPart_eq_ok ha
  have hpos := List.length_pos_iff.mpr hb
  rw [ahead_moved, List.length_drop]
  omega

end Steps

/-! ### Repeated items -/

section Items

variable {α : Type} {item : PartStep α} {as : List α} {b b' : PartBuffer}

/-- However many items are asked for, what fails behind some of them leaves these read. -/
theorem replicateFrom_movesOn (h : MovesOn item) (n i : Nat) :
    MovesOn (replicateFrom item n i) := by
  induction n generalizing i with
  | zero => exact .pure []
  | succ n ih => exact (h.insideM (.index i)).bind fun a => (ih (i + 1)).map (a :: ·)

theorem length_of_replicateFrom {n i : Nat} (h : replicateFrom item n i b = .ok as b') :
    as.length = n := by
  induction n generalizing i as b with
  | zero =>
    obtain ⟨rfl, -⟩ := pure_eq_ok.mp h
    rfl
  | succ n ih =>
    obtain ⟨a, t, -, h⟩ := bind_eq_ok.mp h
    obtain ⟨rest, t', hrest, h⟩ := bind_eq_ok.mp h
    obtain ⟨rfl, rfl⟩ := pure_eq_ok.mp h
    rw [List.length_cons, ih hrest]

/-- As many items as there are move the focus on, and what fails behind some of them leaves these
read. -/
theorem manyFrom_movesOn (h : MovesOn item) (i : Nat) : MovesOn (manyFrom item i) := by
  intro b
  apply manyFrom_outcome_induct (Q := fun b r => b.Reaches (after (fun _ => r) b))
  case finished => exact fun b _ => .refl b
  case failed =>
    intro b i e t he
    have hb := h.insideM (.index i) b
    rwa [after_of_error he] at hb
  case stuck => exact fun b a t _ hread _ => h.reaches hread
  case more =>
    intro b a t i hread _ ih
    have hrest := after_map (r := manyFrom item i) (b := t) (a :: ·)
    exact (h.reaches hread).trans (hrest ▸ ih)

/-- Items that move the focus on are read up to the end, and are no more than the parts. -/
theorem manyFrom_of_progresses (h : Progresses item) {i : Nat}
    (has : manyFrom item i b = .ok as b') : b'.ahead = [] ∧ as.length ≤ b.ahead.length := by
  apply manyFrom_induct (h := has) (Q := fun b as b' =>
    b'.ahead = [] ∧ as.length ≤ b.ahead.length)
  case finished => exact fun b hb => ⟨hb, Nat.zero_le _⟩
  case stuck => exact fun b a t hb hread hless => absurd (h b a t hb hread) hless
  case more =>
    intro b a t rest b' _ hless hrest
    rw [List.length_cons]
    exact ⟨hrest.1, by omega⟩

/-- Of items that take no part, one is read where a part is left. -/
theorem manyFrom_of_stays (h : Stays item) {i : Nat} (has : manyFrom item i b = .ok as b') :
    b' = b ∧ as.length = if b.isAtEnd then 0 else 1 := by
  apply manyFrom_induct (h := has) (Q := fun b as b' =>
    b' = b ∧ as.length = if b.isAtEnd then 0 else 1)
  case finished =>
    intro b hb
    rw [(isAtEnd_iff b).mpr hb]
    exact ⟨rfl, rfl⟩
  case stuck =>
    intro b a t hb hread _
    rw [isAtEnd_of_ne_nil hb]
    exact ⟨h b a t hread, rfl⟩
  case more =>
    intro b a t rest b' hread hless _
    rw [h b a t hread] at hless
    exact absurd hless (Nat.lt_irrefl _)

end Items

end PartStep

open PartStep

/-! ### Combinations of arguments -/

section Arguments

variable {types : List ArgType} {item : PartStep Argument} {itemType : Option ArgType}
  {b b' : PartBuffer}

/-- With no parts ahead, an argument that may be left out is left out. -/
theorem readOptional_of_end (h : b.ahead = []) :
    readOptional itemType item b = .ok (.optional itemType none) b := by
  have hend := (isAtEnd_iff b).mpr h
  refine (bind_of_ok (x := get) (s := b) rfl).trans ?_
  rw [if_pos hend]
  rfl

theorem readOptional_of_ne_nil (h : b.ahead ≠ []) : readOptional itemType item b =
    (item >>= fun a => pure (.optional itemType (some a))) b := by
  refine (bind_of_ok (x := get) (s := b) rfl).trans ?_
  rw [isAtEnd_of_ne_nil h, if_neg Bool.false_ne_true]

theorem readOptional_movesOn (h : MovesOn item) : MovesOn (readOptional itemType item) := by
  intro b
  by_cases hend : b.ahead = []
  · rw [after_of_ok (readOptional_of_end hend)]
    exact .refl b
  · rw [after_congr (readOptional_of_ne_nil hend), after_map]
    exact h b

/-- A row moves on with each of its members. -/
theorem readRow_movesOn (h : ∀ S ∈ types, MovesOn S.read) (i : Nat) :
    MovesOn (readRow i (rowReaders types)) := by
  induction types generalizing i with
  | nil => exact .pure []
  | cons S types ih =>
    rw [List.forall_mem_cons] at h
    exact (h.1.insideM (.index i)).bind fun a => (ih h.2 (i + 1)).map (a :: ·)

/-- A row moves on where one of its arguments does. -/
theorem readRow_progresses {S : ArgType} (hS : S ∈ types) (h : ∀ S ∈ types, MovesOn S.read)
    (hprogress : Progresses S.read) (i : Nat) : Progresses (readRow i (rowReaders types)) := by
  induction types generalizing i with
  | nil => exact absurd hS List.not_mem_nil
  | cons T types ih =>
    rw [List.forall_mem_cons] at h
    have hrest (a : Argument) : MovesOn (do return a :: (← readRow (i + 1) (rowReaders types))) :=
      (readRow_movesOn h.2 (i + 1)).map (a :: ·)
    obtain rfl | hS := List.mem_cons.mp hS
    · exact (hprogress.insideM (.index i)).bind hrest
    · refine (h.1.insideM (.index i)).bind_progresses hrest fun a => ?_
      exact (ih hS h.2 (i + 1)).bind fun as => .pure (a :: as)

/-- A row of types that have no parts has none. -/
theorem readRow_stays (h : ∀ S ∈ types, Stays S.read) (i : Nat) :
    Stays (readRow i (rowReaders types)) := by
  intro b as b' has
  induction types generalizing i as b with
  | nil => exact (pure_eq_ok.mp has).2
  | cons S types ih =>
    rw [List.forall_mem_cons] at h
    obtain ⟨a, t, rest, hread, hrest, -⟩ := readRow_cons_eq_ok_iff.mp has
    rw [ih h.2 (i + 1) t rest hrest]
    exact h.1 b a t hread

end Arguments

namespace ArgType

/-! ### Types without parts -/

/-- The types that are made of empty rows: rows of such types, and such types left out or
repeated. -/
inductive PartFree : ArgType → Prop where
  | multi {types : List ArgType} (h : ∀ S ∈ types, PartFree S) : PartFree (.multi types)
  | optional {item : ArgType} (h : PartFree item) : PartFree (.optional item)
  | variadic {item : ArgType} (h : PartFree item) : PartFree (.variadic item)

/-- Arguments are read by moving over parts, also where this fails. -/
theorem read_movesOn (S : ArgType) : MovesOn S.read := by
  induction S with
  | single type => exact (readPart_movesOn _).map _
  | multi types ih => exact (readRow_movesOn ih 0).map _
  | optional item ih => exact readOptional_movesOn ih
  | variadic item ih => exact (manyFrom_movesOn ih 0).map _
  | counted item ih =>
    have hcount : MovesOn readCount := (readPart_movesOn _).map _
    exact hcount.bind fun n => (replicateFrom_movesOn ih n 0).map _

/-- A type without parts takes none. -/
theorem PartFree.read_stays {S : ArgType} (h : S.PartFree) : Stays S.read := by
  induction h with
  | multi _ ih => exact (readRow_stays ih 0).map _
  | @optional item _ ih =>
    intro b a b' ha
    by_cases hend : b.ahead = []
    · rw [ArgType.read, readOptional_of_end hend] at ha
      cases ha
      rfl
    · rw [ArgType.read, readOptional_of_ne_nil hend] at ha
      exact ih.map _ b a b' ha
  | variadic _ ih => exact Stays.map (fun b as b' has => (manyFrom_of_stays ih has).1) _

/-- Every other type takes a part where one is ahead. -/
theorem read_progresses {S : ArgType} (h : ¬ S.PartFree) : Progresses S.read := by
  induction S with
  | single type => exact (readPart_progresses _).bind fun v => .pure _
  | multi types ih =>
    -- A row of types without parts is one itself, so some type of this row has parts.
    obtain ⟨S, hS, hfree⟩ : ∃ S ∈ types, ¬ S.PartFree := by
      by_contra hnone
      exact h (.multi fun S hS => by_contra fun hfree => hnone ⟨S, hS, hfree⟩)
    have hrow := readRow_progresses hS (fun S _ => S.read_movesOn) (ih S hS hfree) 0
    exact hrow.bind fun items => .pure _
  | optional item ih =>
    intro b a b' hb ha
    rw [ArgType.read, readOptional_of_ne_nil hb] at ha
    exact (ih (mt .optional h)).bind (fun a => .pure _) b a b' hb ha
  | variadic item ih =>
    intro b a b' hb ha
    obtain ⟨as, t, has, ha⟩ := bind_eq_ok.mp ha
    obtain ⟨-, rfl⟩ := pure_eq_ok.mp ha
    rw [(manyFrom_of_progresses (ih (mt .variadic h)) has).1]
    exact List.length_pos_iff.mpr hb
  | counted item ih =>
    have hcount : Progresses readCount := (readPart_progresses _).bind fun n => .pure _
    exact hcount.bind fun n => (replicateFrom_movesOn item.read_movesOn n 0).map _

/-! ### Repeated arguments -/

/-- Repeated arguments of a type without parts are none or one; of any other type they use up the
parts. -/
theorem read_variadic_eq_ok {item : ArgType} {a : Argument} {b b' : PartBuffer}
    (h : (variadic item).read b = .ok a b') : ∃ items, a = .variadic item items ∧
      (item.PartFree ∧ b' = b ∧ items.length = (if b.isAtEnd then 0 else 1) ∨
        ¬ item.PartFree ∧ b'.isAtEnd = true ∧ items.length ≤ b.remaining) := by
  obtain ⟨items, t, hitems, h⟩ := bind_eq_ok.mp h
  obtain ⟨rfl, rfl⟩ := pure_eq_ok.mp h
  refine ⟨items, rfl, ?_⟩
  by_cases hfree : item.PartFree
  · exact .inl ⟨hfree, manyFrom_of_stays hfree.read_stays hitems⟩
  · obtain ⟨hend, hle⟩ := manyFrom_of_progresses (read_progresses hfree) hitems
    rw [length_ahead] at hle
    exact .inr ⟨hfree, (isAtEnd_iff b').mpr hend, hle⟩

/-- Any numeral of a count is read, also one that is longer than need be. -/
theorem readCount_eq_ok {n : Nat} {b b' : PartBuffer} (h : readCount b = .ok n b') :
    ∃ part, b.parts[b.focused]? = some part ∧ n = part.toNat ∧ b' = b.moved 1 := by
  obtain ⟨x, t, hx, h⟩ := bind_eq_ok.mp h
  obtain ⟨rfl, rfl⟩ := pure_eq_ok.mp h
  obtain ⟨⟨part, hpart, hread⟩, hmoved, -⟩ := readPart_eq_ok hx
  obtain ⟨-, rfl⟩ := FixedInt.ofTop_eq_ok_iff.mp hread
  rw [← getElem?_focused] at hpart
  exact ⟨part, hpart, Int.toNat_natCast _, hmoved⟩

/-- Counted arguments are as many as their count says, and each value among them takes one part. -/
theorem read_counted_eq_ok {item : ArgType} {a : Argument} {b b' : PartBuffer}
    (h : (counted item).read b = .ok a b') : ∃ part items, b.parts[b.focused]? = some part ∧
      a = .counted item items ∧ items.length = part.toNat ∧
        ∀ type, item = .single type → b' = b.moved (1 + items.length) := by
  obtain ⟨n, t, hn, h⟩ := bind_eq_ok.mp h
  obtain ⟨items, t', hitems, h⟩ := bind_eq_ok.mp h
  obtain ⟨rfl, rfl⟩ := pure_eq_ok.mp h
  obtain ⟨part, hpart, rfl, rfl⟩ := readCount_eq_ok hn
  have hlen := length_of_replicateFrom hitems
  refine ⟨part, items, hpart, rfl, hlen, ?_⟩
  rintro type rfl
  have hpart : Takes false (readPart type.placeholder.readTop) (fun _ => [[]]) fun _ => True :=
    readPart_takes (fun _ => rfl) fun _ _ _ => trivial
  have hsingle : Takes false (single type).read (fun _ => [[]]) fun _ => True :=
    hpart.map (fun _ => rfl) fun _ _ => trivial
  have hrow : Takes false _ _ _ := replicateFrom_takes hsingle part.toNat 0
  obtain ⟨hmoved, -, -⟩ := hrow _ items b' hitems
  rw [hmoved, moved_moved, List.length_flatMap]
  simp

/-- Whether reading in place of a placeholder succeeds or fails, the parts stay as they are, and the
focus moves neither backwards nor beyond the end. Repeated arguments that are read are none or one
if their type takes no part, and use up the parts otherwise; counted ones are as many as their count
says. -/
theorem read_placeholder_consumes (S : ArgType) {b : PartBuffer} (hb : b.focused ≤ b.size) :
    ((after S.placeholder.read b).parts = b.parts ∧
      b.focused ≤ (after S.placeholder.read b).focused ∧
      (after S.placeholder.read b).focused ≤ b.size) ∧
    (∀ item a b', S = .variadic item → S.placeholder.read b = .ok a b' →
      ∃ items, a = .variadic item items ∧
        (item.PartFree ∧ b' = b ∧ items.length = (if b.isAtEnd then 0 else 1) ∨
          ¬ item.PartFree ∧ b'.isAtEnd = true ∧ items.length ≤ b.remaining)) ∧
    (∀ item a b', S = .counted item → S.placeholder.read b = .ok a b' →
      ∃ part items, b.parts[b.focused]? = some part ∧ a = .counted item items ∧
        items.length = part.toNat ∧
        ∀ type, item = .single type → b' = b.moved (1 + items.length)) := by
  have hreach := S.read_movesOn b
  rw [S.read_placeholder]
  refine ⟨⟨hreach.parts_eq, hreach.focused_le hb⟩, ?_, ?_⟩
  · rintro item a b' rfl ha
    exact read_variadic_eq_ok ha
  · rintro item a b' rfl ha
    exact read_counted_eq_ok ha

/-- The parts of two counted octets, and one that belongs to something else. -/
def countedParts : PartBuffer :=
  .ofParts [[2], [5], [], [7]]

/-- Two octets are read behind their count, and the last part is left. -/
theorem read_placeholder_countedParts :
    (counted (.single (.int .w8 false))).placeholder.read countedParts =
        .ok (.counted (.single (.int .w8 false))
          [.single (.int ⟨.w8, false, 5⟩), .single (.int ⟨.w8, false, 0⟩)])
          ⟨countedParts.parts, 3⟩ ∧
      countedParts.focused ≤ countedParts.size ∧
      (after (counted (.single (.int .w8 false))).placeholder.read countedParts).focused ≤
        countedParts.size ∧
      ∃ part items, countedParts.parts[countedParts.focused]? = some part ∧
        Argument.counted (.single (.int .w8 false))
          [.single (.int ⟨.w8, false, 5⟩), .single (.int ⟨.w8, false, 0⟩)] =
            .counted (.single (.int .w8 false)) items ∧
        items.length = part.toNat ∧
        ∀ type, ArgType.single (.int .w8 false) = .single type →
          PartBuffer.mk countedParts.parts 3 = countedParts.moved (1 + items.length) := by
  have hb : countedParts.focused ≤ countedParts.size := by decide
  obtain ⟨⟨-, -, hle⟩, -, hcounted⟩ :=
    read_placeholder_consumes (counted (.single (.int .w8 false))) hb
  exact ⟨rfl, hb, hle, hcounted _ _ _ rfl rfl⟩

end ArgType

end CallData
