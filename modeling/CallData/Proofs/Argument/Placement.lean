import CallData.Proofs.Argument.Flat

/-!
# Where arguments stand

An *address* is the list of places that lead from an argument to one within it (`Argument.node?`),
and of two addresses the one met first comes first in dictionary order. Taking the last of a group,
or what an optional argument holds, one stays *at the tail* (`Argument.AtTail`): nothing comes
behind the parts that are contributed there (`Argument.AtTail.partsBefore_append_flat`).

The order of the arguments of a call is right exactly when each optional and each variadic argument
is at the tail, and otherwise the error names the first that is not
(`Argument.checkOrder_tells_first_misplaced`).
-/

namespace CallData

namespace Argument

/-! ### Addresses -/

/-- The arguments directly within an argument. -/
def inner : Argument → List Argument
  | single _ => []
  | multi items => items
  | optional _ held => held.toList
  | variadic _ items => items
  | counted _ items => items

/-- The argument at an address: the place of an argument directly within, the place of one directly
within that, and so on. -/
def node? (a : Argument) : (address : List Nat) → Option Argument
  | [] => some a
  | i :: address => a.inner[i]?.bind fun b => b.node? address

/-- An argument that only the end of the parts delimits. -/
inductive OpenEnded : Argument → Prop where
  | optional (itemType : Option ArgType) (held : Option Argument) :
      OpenEnded (.optional itemType held)
  | variadic (itemType : ArgType) (items : List Argument) : OpenEnded (.variadic itemType items)

/-- An address is reached by taking nothing but the last of a group, or what an optional argument
holds. -/
inductive AtTail : Argument → List Nat → Prop where
  | here (a : Argument) : AtTail a []
  | last {items : List Argument} {a : Argument} {i : Nat} {address : List Nat}
      (ha : items[i]? = some a) (hlast : i + 1 = items.length) (h : AtTail a address) :
      AtTail (.multi items) (i :: address)
  | held {itemType : Option ArgType} {a : Argument} {address : List Nat} (h : AtTail a address) :
      AtTail (.optional itemType (some a)) (0 :: address)

/-- The first place of an address is one directly within. -/
theorem node?_cons_eq_some_iff {a b : Argument} {i : Nat} {address : List Nat} :
    a.node? (i :: address) = some b ↔
      ∃ c, a.inner[i]? = some c ∧ c.node? address = some b :=
  Option.bind_eq_some_iff

/-! ### Misplaced arguments -/

/-- At an address stands an argument that only the end of the parts delimits, though something may
come behind it: it is not at the tail of the whole, or the whole is not at the tail of a call. -/
def Misplaces (isTail : Bool) (a : Argument) (address : List Nat) (b : Argument) : Prop :=
  a.node? address = some b ∧ b.OpenEnded ∧ ¬ (isTail = true ∧ a.AtTail address)

/-- What only the end delimits is misplaced itself where something may come behind it. -/
theorem Misplaces.here {a : Argument} (h : a.OpenEnded) : a.Misplaces false [] a :=
  ⟨rfl, h, nofun⟩

/-- At the tail, or where something else delimits it, an argument is not misplaced itself. -/
theorem not_misplaces_nil {isTail : Bool} {a b : Argument} (h : a.OpenEnded → isTail = true) :
    ¬ a.Misplaces isTail [] b := by
  rintro ⟨⟨⟩, hopen, hplace⟩
  exact hplace ⟨h hopen, .here a⟩

/-- What is misplaced in a group is so in one of its members, the last of which is as near to the
end as the group. -/
theorem misplaces_multi_cons_iff {isTail : Bool} {items : List Argument} {b : Argument} {i : Nat}
    {address : List Nat} : (multi items).Misplaces isTail (i :: address) b ↔
      ∃ a, items[i]? = some a ∧ a.Misplaces (isTail && i + 1 == items.length) address b := by
  rw [Misplaces, node?_cons_eq_some_iff]
  simp only [Misplaces, Bool.and_eq_true, beq_iff_eq, inner]
  constructor
  · rintro ⟨⟨a, ha, hb⟩, hopen, hplace⟩
    exact ⟨a, ha, hb, hopen, fun ⟨⟨htail, hlast⟩, h⟩ => hplace ⟨htail, .last ha hlast h⟩⟩
  · rintro ⟨a, ha, hb, hopen, hplace⟩
    refine ⟨⟨a, ha, hb⟩, hopen, fun ⟨htail, h⟩ => ?_⟩
    cases h with
    | last ha' hlast h =>
      obtain ⟨⟩ := ha.symm.trans ha'
      exact hplace ⟨⟨htail, hlast⟩, h⟩

/-- The first member of a group is at the tail if it is the only one. -/
theorem misplaces_multi_zero_cons_iff {isTail : Bool} {a b : Argument} {args : List Argument}
    {address : List Nat} : (multi (a :: args)).Misplaces isTail (0 :: address) b ↔
      a.Misplaces (isTail && args.isEmpty) address b := by
  rw [misplaces_multi_cons_iff]
  cases args <;> simp

/-- For those behind it, the first member might as well not be there. -/
theorem misplaces_multi_succ_cons_iff {isTail : Bool} {a b : Argument} {args : List Argument}
    {i : Nat} {address : List Nat} :
    (multi (a :: args)).Misplaces isTail ((i + 1) :: address) b ↔
      (multi args).Misplaces isTail (i :: address) b := by
  rw [misplaces_multi_cons_iff, misplaces_multi_cons_iff]
  simp

/-- What comes behind a repeated argument, or may come, keeps all in it from the tail. -/
theorem misplaces_cons_iff_of_repeated {isTail : Bool} {a b : Argument} {i : Nat}
    {address : List Nat} (h : ∀ p, ¬ a.AtTail (i :: p)) :
    a.Misplaces isTail (i :: address) b ↔ (multi a.inner).Misplaces false (i :: address) b := by
  rw [Misplaces, Misplaces, node?_cons_eq_some_iff, node?_cons_eq_some_iff]
  simp [inner, h]

/-- What an optional argument holds is placed as it is in a group of its own. -/
theorem misplaces_present_cons_iff {itemType : Option ArgType} {a b : Argument} {i : Nat}
    {address : List Nat} : (optional itemType (some a)).Misplaces true (i :: address) b ↔
      (multi [a]).Misplaces true (i :: address) b := by
  have htail : (optional itemType (some a)).AtTail (i :: address) ↔
      (multi [a]).AtTail (i :: address) := by
    constructor
    · rintro (_ | _ | h)
      exact .last rfl rfl h
    · intro h
      cases h with
      | last ha hlast h =>
        obtain rfl : i = 0 := by simpa using hlast
        obtain ⟨⟩ := ha
        exact .held h
  rw [Misplaces, Misplaces, node?_cons_eq_some_iff, node?_cons_eq_some_iff, htail]
  rfl

/-! ### What checks report -/

/-- Of all addresses at which something is at fault, one comes first. -/
def IsFirst (M : List Nat → Argument → Prop) (address : List Nat) (a : Argument) : Prop :=
  M address a ∧ ∀ other b, M other b → other ≠ address → List.Lex (· < ·) address other

/-- A check passes where nothing is at fault, and otherwise names the kind of the first argument
that is. -/
def Reports (M : List Nat → Argument → Prop) : Except CodecError Unit → Prop
  | .ok () => ∀ address a, ¬ M address a
  | .error e => ∃ address a position count, IsFirst M address a ∧
      e.cause = .misplaced a.kindName position count

/-- A position in front of the path leaves the kind and the address as they are. -/
theorem Reports.inside {M : List Nat → Argument → Prop} {r : Except CodecError Unit}
    (h : Reports M r) (l : Locator) : Reports M (inside l r) := by
  cases r with
  | ok => exact h
  | error e => exact h

/-- An argument that is at fault itself comes before all within it. -/
theorem Reports.here {a : Argument} (h : a.OpenEnded) (position count : Nat) :
    Reports (a.Misplaces false) (fail (.misplaced a.kindName position count)) := by
  refine ⟨[], a, position, count, ⟨.here h, fun other _ _ hne => ?_⟩, rfl⟩
  obtain ⟨i, address, rfl⟩ := List.exists_cons_of_ne_nil hne
  exact .nil

/-- What is at fault in the first of some arguments comes before what is at fault in the others. -/
theorem Reports.cons {isTail : Bool} {a : Argument} {args : List Argument}
    {r rs : Except CodecError Unit} (h : Reports (a.Misplaces (isTail && args.isEmpty)) r)
    (hs : Reports ((multi args).Misplaces isTail) rs) :
    Reports ((multi (a :: args)).Misplaces isTail) (r >>= fun _ => rs) := by
  rcases r with e | ⟨⟩
  · -- The first argument is at fault, and its places come before those of all others.
    obtain ⟨address, b, position, count, ⟨hb, hfirst⟩, hcause⟩ := h
    refine ⟨0 :: address, b, position, count, ⟨misplaces_multi_zero_cons_iff.mpr hb, ?_⟩, hcause⟩
    rintro (_ | ⟨_ | i, other⟩) c hc hne
    · exact absurd hc (not_misplaces_nil nofun)
    · refine .cons (hfirst other c (misplaces_multi_zero_cons_iff.mp hc) ?_)
      rintro rfl
      exact hne rfl
    · exact .rel i.succ_pos
  · rcases rs with e | ⟨⟩
    · -- It is not, so what is at fault stands behind it, one place further on than without it.
      obtain ⟨address, b, position, count, ⟨hb, hfirst⟩, hcause⟩ := hs
      obtain _ | ⟨i, address⟩ := address
      · exact absurd hb (not_misplaces_nil nofun)
      refine ⟨(i + 1) :: address, b, position, count,
        ⟨misplaces_multi_succ_cons_iff.mpr hb, ?_⟩, hcause⟩
      rintro (_ | ⟨_ | j, other⟩) c hc hne
      · exact absurd hc (not_misplaces_nil nofun)
      · exact absurd (misplaces_multi_zero_cons_iff.mp hc) (h other c)
      · have hne' : j :: other ≠ i :: address := by
          rintro ⟨⟩
          exact hne rfl
        have hlex := hfirst (j :: other) c (misplaces_multi_succ_cons_iff.mp hc) hne'
        cases hlex with
        | rel hij => exact .rel (Nat.succ_lt_succ hij)
        | cons hrest => exact .cons hrest
    · intro address b hb
      obtain _ | ⟨_ | i, address⟩ := address
      · exact absurd hb (not_misplaces_nil nofun)
      · exact h address b (misplaces_multi_zero_cons_iff.mp hb)
      · exact hs (i :: address) b (misplaces_multi_succ_cons_iff.mp hb)

/-- Where an argument is in place itself, what is misplaced in it is misplaced among the arguments
directly within. -/
theorem Reports.of_inner {a : Argument} {isTail isTail' : Bool} {r : Except CodecError Unit}
    (h : Reports ((multi a.inner).Misplaces isTail') r) (hnil : a.OpenEnded → isTail = true)
    (hcons : ∀ i address b, a.Misplaces isTail (i :: address) b ↔
      (multi a.inner).Misplaces isTail' (i :: address) b) : Reports (a.Misplaces isTail) r := by
  have hiff : a.Misplaces isTail = (multi a.inner).Misplaces isTail' := by
    funext address b
    cases address with
    | nil => exact propext (iff_of_false (not_misplaces_nil hnil) (not_misplaces_nil nofun))
    | cons i address => exact propext (hcons i address b)
  rwa [hiff]

/-! ### All arguments -/

theorem reports_nil (isTail : Bool) : Reports ((multi []).Misplaces isTail) (.ok ()) := by
  rintro (_ | ⟨i, address⟩) b hb
  · exact absurd hb (not_misplaces_nil nofun)
  · obtain ⟨a, ha, -⟩ := misplaces_multi_cons_iff.mp hb
    cases ha

/-- A row is checked from the front, and reports what the first of its members reports that is not
in order. -/
theorem checkPlaces_reports {items : List Argument}
    (h : ∀ a ∈ items, ∀ p n isTail, Reports (a.Misplaces isTail) (checkPlace p n isTail a))
    (p n : Nat) (isTail : Bool) :
    Reports ((multi items).Misplaces isTail) (checkPlaces p n isTail items) := by
  induction items generalizing p with
  | nil => exact reports_nil isTail
  | cons a items ih =>
    rw [List.forall_mem_cons] at h
    exact .cons (h.1 p n _) (ih h.2 (p + 1))

/-- Repeated arguments are checked from the front as well, but none of them is at the tail. -/
theorem checkItems_reports {items : List Argument}
    (h : ∀ a ∈ items, ∀ p n isTail, Reports (a.Misplaces isTail) (checkPlace p n isTail a))
    (i : Nat) : Reports ((multi items).Misplaces false) (checkItems i items) := by
  induction items generalizing i with
  | nil => exact reports_nil false
  | cons a items ih =>
    rw [List.forall_mem_cons] at h
    exact .cons ((h.1 0 1 false).inside (.index i)) (ih h.2 (i + 1))

theorem checkPlaces_singleton (p n : Nat) (isTail : Bool) (a : Argument) :
    checkPlaces p n isTail [a] = checkPlace p n isTail a := by
  rw [checkPlaces, List.isEmpty_nil, Bool.and_true]
  cases checkPlace p n isTail a <;> rfl

/-- The check of an argument reports the first one in it that is misplaced. -/
theorem checkPlace_reports (a : Argument) (p n : Nat) (isTail : Bool) :
    Reports (a.Misplaces isTail) (checkPlace p n isTail a) := by
  induction a generalizing p n isTail with
  | single v =>
    exact (reports_nil false).of_inner nofun fun _ _ _ => misplaces_cons_iff_of_repeated nofun
  | multi items ih => exact (checkPlaces_reports ih 0 items.length isTail).inside (.index p)
  | absent itemType =>
    cases isTail with
    | false => exact .here (.optional itemType none) p n
    | true =>
      refine (reports_nil false).of_inner (fun _ => rfl) fun _ _ _ => ?_
      exact misplaces_cons_iff_of_repeated nofun
  | present itemType a ih =>
    cases isTail with
    | false => exact .here (.optional itemType (some a)) p n
    | true =>
      have hheld := checkPlaces_reports (List.forall_mem_singleton.mpr ih) 0 1 true
      rw [checkPlaces_singleton] at hheld
      exact hheld.of_inner (fun _ => rfl) fun _ _ _ => misplaces_present_cons_iff
  | variadic itemType items ih =>
    cases isTail with
    | false => exact .here (.variadic itemType items) p n
    | true =>
      refine (checkItems_reports ih 0).of_inner (fun _ => rfl) fun _ _ _ => ?_
      exact misplaces_cons_iff_of_repeated nofun
  | counted itemType items ih =>
    exact (checkItems_reports ih 0).of_inner nofun fun _ _ _ => misplaces_cons_iff_of_repeated nofun

/-- The check of the arguments of a call, taken as a group, reports the first that is misplaced. -/
theorem checkOrder_reports (args : List Argument) :
    Reports ((multi args).Misplaces true) (checkOrder args) :=
  checkPlaces_reports (fun a _ => a.checkPlace_reports) 0 args.length true

/-! ### Parts -/

/-- The parts that an argument contributes in front of those of the arguments within it. -/
def own : Argument → List Bytes
  | single v => [v.top]
  | counted _ items => [Bytes.shortest false (items.length % UInt32.size : Nat)]
  | _ => []

/-- The parts of an argument that are contributed before those of the one at an address. -/
def partsBefore (a : Argument) : (address : List Nat) → List Bytes
  | [] => []
  | i :: address => a.own ++ (a.inner.take i).flatMap flat ++
      (a.inner[i]?.map fun b => b.partsBefore address).getD []

/-- The parts of an argument are one of its own, if it is single or counted, and those of the
arguments within. -/
theorem flat_eq_own_append (a : Argument) : a.flat = a.own ++ a.inner.flatMap flat := by
  cases a with
  | single v => exact (flat_single v).trans (List.append_nil _).symm
  | multi items => exact flat_multi items
  | optional itemType held =>
    cases held with
    | none => rfl
    | some a => exact (List.flatMap_singleton flat a).symm
  | variadic itemType items => exact flat_variadic itemType items
  | counted itemType items => exact flat_counted itemType items

/-- In front of what stands deeper are the own part of the argument, the arguments within that come
first, and what is in front of it in the one where it stands. -/
theorem partsBefore_cons {a b : Argument} {i : Nat} (h : a.inner[i]? = some b)
    (address : List Nat) : a.partsBefore (i :: address) =
      a.own ++ (a.inner.take i).flatMap flat ++ b.partsBefore address := by
  rw [partsBefore, h]
  rfl

/-- The parts of an argument, cut where those of one directly within it begin and end. -/
theorem flat_eq_of_getElem? {a b : Argument} {i : Nat} (h : a.inner[i]? = some b) :
    a.flat = a.own ++ (a.inner.take i).flatMap flat ++ b.flat ++
      (a.inner.drop (i + 1)).flatMap flat := by
  obtain ⟨hi, rfl⟩ := List.getElem?_eq_some_iff.mp h
  have hrow : a.inner.flatMap flat = (a.inner.take i).flatMap flat ++
      (a.inner[i].flat ++ (a.inner.drop (i + 1)).flatMap flat) := by
    rw [← List.flatMap_cons, ← List.drop_eq_getElem_cons hi, ← List.flatMap_append,
      List.take_append_drop]
  rw [flat_eq_own_append, hrow]
  simp only [List.append_assoc]

/-- The parts of the argument at an address stand behind those that are contributed before it. -/
theorem isPrefix_partsBefore_append_flat {a b : Argument} {address : List Nat}
    (h : a.node? address = some b) : a.partsBefore address ++ b.flat <+: a.flat := by
  induction address generalizing a with
  | nil =>
    obtain ⟨⟩ := h
    exact List.prefix_rfl
  | cons i address ih =>
    obtain ⟨c, hc, hb⟩ := node?_cons_eq_some_iff.mp h
    obtain ⟨post, hpost⟩ := ih hb
    rw [partsBefore_cons hc, flat_eq_of_getElem? hc, ← hpost]
    exact ⟨post ++ (a.inner.drop (i + 1)).flatMap flat, by simp⟩

/-- Nothing comes behind the parts of an argument that is at the tail. -/
theorem AtTail.partsBefore_append_flat {a b : Argument} {address : List Nat}
    (htail : a.AtTail address) (h : a.node? address = some b) :
    a.partsBefore address ++ b.flat = a.flat := by
  induction htail with
  | here a =>
    obtain ⟨⟩ := h
    rfl
  | @last items a i address ha hlast _ ih =>
    obtain ⟨c, hc, hb⟩ := node?_cons_eq_some_iff.mp h
    obtain ⟨⟩ := ha.symm.trans hc
    have hdrop : items.drop (i + 1) = [] := List.drop_of_length_le hlast.ge
    rw [partsBefore_cons hc, List.append_assoc, ih hb, flat_eq_of_getElem? hc, inner, hdrop,
      List.flatMap_nil, List.append_nil]
  | @held itemType a address _ ih =>
    obtain ⟨c, hc, hb⟩ := node?_cons_eq_some_iff.mp h
    obtain ⟨⟩ := hc
    exact ih hb

/-- The order of the arguments of a call is right exactly when each that only the end of the parts
delimits is reached by taking nothing but the last argument, the last of a group, and what an
optional argument holds; where it is wrong, the error names the kind of the first that is not, each
argument coming before those in it. Where the order is right, the parts of each such argument are
the last ones of the call. -/
theorem checkOrder_tells_first_misplaced (args : List Argument) :
    (checkOrder args = .ok () ↔ ∀ address a, (multi args).node? address = some a →
      a.OpenEnded → (multi args).AtTail address) ∧
    (∀ e, checkOrder args = .error e → ∃ address a position count,
      IsFirst (fun address a => (multi args).node? address = some a ∧ a.OpenEnded ∧
        ¬ (multi args).AtTail address) address a ∧
      e.cause = .misplaced a.kindName position count) ∧
    (checkOrder args = .ok () → ∃ parts, toParts args = .ok parts ∧
      ∀ address a, (multi args).node? address = some a →
        (multi args).partsBefore address ++ a.flat <+: parts ∧
        (a.OpenEnded → (multi args).partsBefore address ++ a.flat = parts)) := by
  have hreports := checkOrder_reports args
  -- A whole call is at its own tail, so only the address has a say in what is misplaced.
  have hmisplaces : ∀ address a, (multi args).Misplaces true address a ↔
      (multi args).node? address = some a ∧ a.OpenEnded ∧ ¬ (multi args).AtTail address := by
    simp [Misplaces]
  simp only [IsFirst, ← hmisplaces]
  rcases horder : checkOrder args with e | ⟨⟩
  · rw [horder] at hreports
    obtain ⟨address, a, position, count, hfirst, hcause⟩ := hreports
    refine ⟨iff_of_false nofun fun hall => ?_, ?_, nofun⟩
    · obtain ⟨hnode, hopen, hplace⟩ := (hmisplaces address a).mp hfirst.1
      exact hplace (hall address a hnode hopen)
    · rintro _ ⟨⟩
      exact ⟨address, a, position, count, hfirst, hcause⟩
  · rw [horder] at hreports
    have hall : ∀ address a, (multi args).node? address = some a → a.OpenEnded →
        (multi args).AtTail address := fun address a hnode hopen =>
      by_contra fun hplace =>
        hreports address a ((hmisplaces address a).mpr ⟨hnode, hopen, hplace⟩)
    refine ⟨iff_of_true rfl hall, nofun, fun _ => ⟨_, toParts_eq_ok horder, ?_⟩⟩
    rw [← flat_multi]
    exact fun address a hnode => ⟨isPrefix_partsBefore_append_flat hnode, fun hopen =>
      (hall address a hnode hopen).partsBefore_append_flat hnode⟩

/-- A flag, and behind it a group that may be left out, with byte strings up to the end of it. -/
def letter : List Argument :=
  [single (.bool true), optional none (some (multi [single (.bytes [7]),
    variadic (.single .bytes) [single (.bytes [8]), single (.bytes [9])]]))]

/-- A group that ends in byte strings up to the end, in front of an argument that may be left
out. -/
def scrambled : List Argument :=
  [multi [single (.bool true), multi [variadic (.single .bytes) []]], optional none none]

/-- The byte strings at the end of the letter are its last parts. Of the two arguments that are
misplaced in the other call, the one deep in the group comes first. -/
theorem checkOrder_tells_first_misplaced_letter_and_scrambled :
    (checkOrder letter = .ok () ∧ (multi letter).AtTail [1, 0, 1] ∧
      ∃ parts, toParts letter = .ok parts ∧
        (multi letter).partsBefore [1, 0, 1] ++ [[8], [9]] = parts) ∧
    checkOrder scrambled = .error ⟨[.index 0, .index 1], .misplaced "variadic values" 0 1⟩ ∧
    ∃ address a position count,
      IsFirst (fun address a => (multi scrambled).node? address = some a ∧ a.OpenEnded ∧
        ¬ (multi scrambled).AtTail address) address a ∧
      Cause.misplaced "variadic values" 0 1 = .misplaced a.kindName position count := by
  have hletter : checkOrder letter = .ok () := rfl
  have hscrambled : checkOrder scrambled =
      .error ⟨[.index 0, .index 1], .misplaced "variadic values" 0 1⟩ := rfl
  obtain ⟨hiff, -, hparts⟩ := checkOrder_tells_first_misplaced letter
  obtain ⟨-, herror, -⟩ := checkOrder_tells_first_misplaced scrambled
  have hopen := OpenEnded.variadic (.single .bytes) [single (.bytes [8]), single (.bytes [9])]
  obtain ⟨parts, hok, hnodes⟩ := hparts hletter
  exact ⟨⟨hletter, hiff.mp hletter [1, 0, 1] _ rfl hopen, parts, hok,
    (hnodes [1, 0, 1] _ rfl).2 hopen⟩, hscrambled, herror _ hscrambled⟩

end Argument

end CallData
