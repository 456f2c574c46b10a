import CallData.Proofs.Argument.RoundTrip

/-!
# Arguments in a group

Some arguments in a row make up a group (`Argument.multi`), and a group stands for them: its order
is right where that of the row is, unless the row is empty and leaves the argument in front of it as
the last (`Argument.checkOrder_multi_iff`), and it has the parts of the row. The other way, the same
parts are read as a group and as the row (`Argument.ofParts_multi_iff`). So where arguments are
grouped makes no difference to a call (`Argument.multi_transparent`).
-/

namespace CallData

namespace Argument

/-! ### Order -/

theorem delimited_multi_iff {items : List Argument} :
    (multi items).Delimited ↔ ∀ a ∈ items, a.Delimited :=
  ⟨fun | .multi h => h, .multi⟩

theorem trailing_multi_iff {items : List Argument} :
    (multi items).Trailing ↔ EndsIn Delimited Trailing items :=
  ⟨fun | .multi h => h, .multi⟩

/-- A row with a group at its front ends in the right way exactly if it does with the group taken
apart. -/
theorem endsIn_multi_iff {items post : List Argument} :
    EndsIn Delimited Trailing (multi items :: post) ↔
      EndsIn Delimited Trailing (items ++ post) := by
  cases post with
  | nil =>
    rw [List.append_nil]
    exact ⟨fun | .last h => trailing_multi_iff.mp h, fun h => .last (trailing_multi_iff.mpr h)⟩
  | cons b post =>
    have hne : b :: post ≠ [] := List.cons_ne_nil b post
    rw [EndsIn.cons_iff hne, EndsIn.append_iff hne, delimited_multi_iff]

/-- The order of arguments with a group among them is right where that of the arguments without the
group is, and those in front of it are delimited. -/
theorem checkOrder_multi_iff {pre items post : List Argument} :
    checkOrder (pre ++ multi items :: post) = .ok () ↔
      (∀ a ∈ pre, a.Delimited) ∧ checkOrder (items ++ post) = .ok () := by
  rw [checkOrder_eq_ok_iff, EndsIn.append_iff (List.cons_ne_nil _ post), endsIn_multi_iff,
    checkOrder_eq_ok_iff]

/-- Taking a group apart keeps the order right. -/
theorem checkOrder_append_of_multi {pre items post : List Argument}
    (h : checkOrder (pre ++ multi items :: post) = .ok ()) :
    checkOrder (pre ++ items ++ post) = .ok () := by
  obtain ⟨hpre, hrest⟩ := checkOrder_multi_iff.mp h
  rw [checkOrder_eq_ok_iff] at hrest ⊢
  rw [List.append_assoc]
  exact .append (fun _ _ ha => ha.trailing) hpre hrest

/-- The order stays right when arguments are grouped, unless nothing is in the group and nothing
behind it. -/
theorem checkOrder_multi_of_append {pre items post : List Argument} (hne : items ≠ [] ∨ post ≠ [])
    (h : checkOrder (pre ++ items ++ post) = .ok ()) :
    checkOrder (pre ++ multi items :: post) = .ok () := by
  have hrest : items ++ post ≠ [] := by
    rw [ne_eq, List.append_eq_nil_iff, Classical.not_and_iff_not_or_not]
    exact hne
  rw [checkOrder_eq_ok_iff, List.append_assoc, EndsIn.append_iff hrest] at h
  rwa [checkOrder_multi_iff, checkOrder_eq_ok_iff]

/-- An empty group would come behind an optional argument, where without it nothing does. -/
example : checkOrder ([optional none none] ++ []) = .ok () ∧
    checkOrder ([optional none none] ++ [multi []]) = fail (.misplaced "optional value" 0 2) := by
  decide

/-! ### Parts -/

/-- Arguments have the same parts with a group among them as without it. -/
theorem flatMap_flat_multi (pre items post : List Argument) :
    (pre ++ multi items :: post).flatMap flat = (pre ++ items ++ post).flatMap flat := by
  simp only [List.flatMap_append, List.flatMap_cons, flat_multi, List.append_assoc]

end Argument

/-! ### Reading -/

section Rows

variable {rs rs' : List (PartStep Argument)} {as : List Argument} {b b' : PartBuffer}

/-- One round of a row, without the index that is for errors. -/
theorem readRow_cons_eq_ok_iff {i : Nat} {r : PartStep Argument} :
    readRow i (r :: rs) b = .ok as b' ↔
      ∃ a t rest, r b = .ok a t ∧ readRow (i + 1) rs t = .ok rest b' ∧ a :: rest = as := by
  rw [readRow]
  simp only [bind_eq_ok, insideM_eq_ok, pure_eq_ok]
  constructor
  · rintro ⟨a, t, hread, rest, t', hrest, rfl, rfl⟩
    exact ⟨a, t, rest, hread, hrest, rfl⟩
  · rintro ⟨a, t, rest, hread, hrest, rfl⟩
    exact ⟨a, t, hread, rest, b', hrest, rfl, rfl⟩

/-- What is read in a row does not depend on where the row starts. -/
theorem readRow_eq_ok_iff_of_start (i j : Nat) :
    readRow i rs b = .ok as b' ↔ readRow j rs b = .ok as b' := by
  induction rs generalizing i j as b with
  | nil => exact Iff.rfl
  | cons r rs ih => simp only [readRow_cons_eq_ok_iff, ih (i + 1) (j + 1)]

/-- A row has as many arguments as readers. -/
theorem length_of_readRow {i : Nat} (h : readRow i rs b = .ok as b') : as.length = rs.length := by
  induction rs generalizing i as b with
  | nil =>
    obtain ⟨rfl, -⟩ := pure_eq_ok.mp h
    rfl
  | cons r rs ih =>
    obtain ⟨a, t, rest, -, hrest, rfl⟩ := readRow_cons_eq_ok_iff.mp h
    rw [List.length_cons, List.length_cons, ih hrest]

/-- A row is read in two pieces, the second from where the first ends. -/
theorem readRow_append_eq_ok_iff (i j : Nat) :
    readRow i (rs ++ rs') b = .ok as b' ↔ ∃ as₁ t as₂, readRow i rs b = .ok as₁ t ∧
      readRow j rs' t = .ok as₂ b' ∧ as₁ ++ as₂ = as := by
  induction rs generalizing i as b with
  | nil =>
    rw [List.nil_append, readRow_eq_ok_iff_of_start i j]
    constructor
    · exact fun h => ⟨[], b, as, rfl, h, rfl⟩
    · rintro ⟨_, _, as₂, ⟨⟩, h, rfl⟩
      exact h
  | cons r rs ih =>
    simp only [List.cons_append, readRow_cons_eq_ok_iff, ih]
    constructor
    · rintro ⟨a, t, _, hread, ⟨as₁, t', as₂, h₁, h₂, rfl⟩, rfl⟩
      exact ⟨a :: as₁, t', as₂, ⟨a, t, as₁, hread, h₁, rfl⟩, h₂, rfl⟩
    · rintro ⟨_, t', as₂, ⟨a, t, as₁, hread, h₁, rfl⟩, h₂, rfl⟩
      exact ⟨a, t, as₁ ++ as₂, hread, ⟨as₁, t', as₂, h₁, h₂, rfl⟩, rfl⟩

end Rows

theorem rowReaders_eq_map (types : List ArgType) : rowReaders types = types.map ArgType.read := by
  induction types with
  | nil => rfl
  | cons S types ih => rw [rowReaders, ih, List.map_cons]

/-- A group at the front of a row is read as its own row, and the others from where that ends. -/
theorem readRow_multi_eq_ok_iff {types : List ArgType} {rs : List (PartStep Argument)}
    {as : List Argument} {b b' : PartBuffer} (i j : Nat) :
    readRow i ((ArgType.multi types).read :: rs) b = .ok as b' ↔ ∃ items t bs,
      readRow 0 (rowReaders types) b = .ok items t ∧ readRow j rs t = .ok bs b' ∧
        .multi items :: bs = as := by
  rw [readRow_cons_eq_ok_iff, ArgType.read]
  simp only [readRow_eq_ok_iff_of_start (i + 1) j, bind_eq_ok, pure_eq_ok]
  constructor
  · rintro ⟨_, t, bs, ⟨items, _, hitems, rfl, rfl⟩, hbs, rfl⟩
    exact ⟨items, _, bs, hitems, hbs, rfl⟩
  · rintro ⟨items, t, bs, hitems, hbs, rfl⟩
    exact ⟨.multi items, t, bs, ⟨items, t, hitems, rfl, rfl⟩, hbs, rfl⟩

namespace Argument

/-- Parts are read as three rows of arguments, one behind the other, and are used up by them. -/
def ReadsInTurn (pre types post : List ArgType) (parts : List Bytes)
    (as items bs : List Argument) : Prop :=
  ∃ t t' b, readRow 0 (rowReaders pre) (PartBuffer.ofParts parts) = .ok as t ∧
    readRow 0 (rowReaders types) t = .ok items t' ∧
    readRow 0 (rowReaders post) t' = .ok bs b ∧ b.ahead = []

section Calls

variable {pre types post : List ArgType} {parts : List Bytes} {as items bs args : List Argument}

/-- How many arguments come from which types is settled by their number. -/
theorem ReadsInTurn.length_eq (h : ReadsInTurn pre types post parts as items bs) :
    as.length = pre.length ∧ items.length = types.length := by
  obtain ⟨t, t', b, has, hitems, -, -⟩ := h
  simp only [length_of_readRow has, length_of_readRow hitems, rowReaders_eq_map, List.length_map,
    and_self]

/-- A row of types in three pieces reads the arguments of each piece in turn. -/
theorem ofParts_append_iff :
    ofParts (placeholderArguments (pre ++ types ++ post)) parts = .ok args ↔
      checkOrder (placeholderArguments (pre ++ types ++ post)) = .ok () ∧
        ∃ as items bs, ReadsInTurn pre types post parts as items bs ∧
          as ++ items ++ bs = args := by
  rw [ofParts_eq_ok_iff, heldReaders_placeholderArguments, rowReaders_eq_map, List.map_append,
    List.map_append]
  simp only [← rowReaders_eq_map, readRow_append_eq_ok_iff 0 0]
  refine and_congr_right fun _ => ⟨?_, ?_⟩
  · rintro ⟨b, ⟨_, t', bs, ⟨as, t, items, has, hitems, rfl⟩, hbs, rfl⟩, hend⟩
    exact ⟨as, items, bs, ⟨t, t', b, has, hitems, hbs, hend⟩, rfl⟩
  · rintro ⟨as, items, bs, ⟨t, t', b, has, hitems, hbs, hend⟩, rfl⟩
    exact ⟨b, ⟨as ++ items, t', bs, ⟨as, t, items, has, hitems, rfl⟩, hbs, rfl⟩, hend⟩

/-- A group is read where its members are read in a row, between what is in front of it and what is
behind. -/
theorem ofParts_multi_iff :
    ofParts (placeholderArguments (pre ++ .multi types :: post)) parts = .ok args ↔
      checkOrder (placeholderArguments (pre ++ .multi types :: post)) = .ok () ∧
        ∃ as items bs, ReadsInTurn pre types post parts as items bs ∧
          as ++ multi items :: bs = args := by
  rw [ofParts_eq_ok_iff, heldReaders_placeholderArguments, rowReaders_eq_map, List.map_append,
    List.map_cons]
  simp only [← rowReaders_eq_map, readRow_append_eq_ok_iff 0 0, readRow_multi_eq_ok_iff 0 0]
  refine and_congr_right fun _ => ⟨?_, ?_⟩
  · rintro ⟨b, ⟨as, t, _, has, ⟨items, t', bs, hitems, hbs, rfl⟩, rfl⟩, hend⟩
    exact ⟨as, items, bs, ⟨t, t', b, has, hitems, hbs, hend⟩, rfl⟩
  · rintro ⟨as, items, bs, ⟨t, t', b, has, hitems, hbs, hend⟩, rfl⟩
    exact ⟨b, ⟨as, t, multi items :: bs, has, ⟨items, t', bs, hitems, hbs, rfl⟩, rfl⟩, hend⟩

/-- What holds of arguments holds of the placeholders of types: without the group, the order stays
right. -/
theorem checkOrder_placeholderArguments_append
    (h : checkOrder (placeholderArguments (pre ++ .multi types :: post)) = .ok ()) :
    checkOrder (placeholderArguments (pre ++ types ++ post)) = .ok () := by
  rw [placeholderArguments_eq_map, List.map_append, List.map_cons, ArgType.placeholder,
    placeholderArguments_eq_map] at h
  rw [placeholderArguments_eq_map, List.map_append, List.map_append]
  exact checkOrder_append_of_multi h

/-- Where arguments are grouped makes no difference to a call: with a group it has the same parts as
without, and the same parts are read as the same arguments, those of the group in it. Only an empty
group behind all others is in the way of the order. -/
theorem multi_transparent :
    (∀ pre items post : List Argument,
      (checkOrder (pre ++ multi items :: post) = .ok () →
        checkOrder (pre ++ items ++ post) = .ok () ∧
          ∃ parts, toParts (pre ++ multi items :: post) = .ok parts ∧
            toParts (pre ++ items ++ post) = .ok parts) ∧
      (items ≠ [] ∨ post ≠ [] → checkOrder (pre ++ items ++ post) = .ok () →
        checkOrder (pre ++ multi items :: post) = .ok ())) ∧
    ∀ (pre types post : List ArgType) (parts : List Bytes),
      checkOrder (placeholderArguments (pre ++ .multi types :: post)) = .ok () →
      (∀ as items bs, as.length = pre.length → items.length = types.length →
        (ofParts (placeholderArguments (pre ++ .multi types :: post)) parts =
            .ok (as ++ multi items :: bs) ↔
          ofParts (placeholderArguments (pre ++ types ++ post)) parts =
            .ok (as ++ items ++ bs))) ∧
      (∀ args, ofParts (placeholderArguments (pre ++ .multi types :: post)) parts = .ok args →
        ∃ as items bs, as.length = pre.length ∧ items.length = types.length ∧
          as ++ multi items :: bs = args) ∧
      ∀ args, ofParts (placeholderArguments (pre ++ types ++ post)) parts = .ok args →
        ∃ as items bs, as.length = pre.length ∧ items.length = types.length ∧
          as ++ items ++ bs = args := by
  refine ⟨fun pre items post => ⟨fun horder => ?_, checkOrder_multi_of_append⟩,
    fun pre types post parts horder => ⟨fun as items bs has hitems => ?_, fun args h => ?_,
      fun args h => ?_⟩⟩
  · have horder' := checkOrder_append_of_multi horder
    refine ⟨horder', _, toParts_eq_ok horder, ?_⟩
    rw [toParts_eq_ok horder', flatMap_flat_multi]
  · -- Both sides come to the same reading in turn; the lengths say where each piece ends.
    rw [ofParts_multi_iff, and_iff_right horder, ofParts_append_iff,
      and_iff_right (checkOrder_placeholderArguments_append horder)]
    constructor
    · rintro ⟨as', items', bs', hreads, heq⟩
      obtain ⟨rfl, hgroup⟩ := List.append_inj heq (hreads.length_eq.1.trans has.symm)
      obtain ⟨⟨⟩, rfl⟩ := List.cons.inj hgroup
      exact ⟨as', items, bs', hreads, rfl⟩
    · rintro ⟨as', items', bs', hreads, heq⟩
      rw [List.append_assoc, List.append_assoc] at heq
      obtain ⟨rfl, hrest⟩ := List.append_inj heq (hreads.length_eq.1.trans has.symm)
      obtain ⟨rfl, rfl⟩ := List.append_inj hrest (hreads.length_eq.2.trans hitems.symm)
      exact ⟨as', items', bs', hreads, rfl⟩
  · obtain ⟨-, as, items, bs, hreads, rfl⟩ := ofParts_multi_iff.mp h
    exact ⟨as, items, bs, hreads.length_eq.1, hreads.length_eq.2, rfl⟩
  · obtain ⟨-, as, items, bs, hreads, rfl⟩ := ofParts_append_iff.mp h
    exact ⟨as, items, bs, hreads.length_eq.1, hreads.length_eq.2, rfl⟩

/-- A flag, and behind it a number with a flag at will, in a group. -/
theorem multi_transparent_flagged :
    (checkOrder (single (.bool true) :: flagged) = .ok () ∧
      ∃ parts, toParts [single (.bool true), multi flagged] = .ok parts ∧
        toParts (single (.bool true) :: flagged) = .ok parts) ∧
    checkOrder [single (.bool true), multi flagged] = .ok () ∧
    (ofParts (placeholderArguments [.single .bool, .multi flaggedTypes]) [[1], [0, 5], [0]] =
        .ok [single (.bool true), multi flagged] ↔
      ofParts (placeholderArguments (.single .bool :: flaggedTypes)) [[1], [0, 5], [0]] =
        .ok (single (.bool true) :: flagged)) ∧
    (∃ as items bs, as.length = 1 ∧ items.length = flaggedTypes.length ∧
      as ++ multi items :: bs = [single (.bool true), multi flagged]) ∧
    ∃ as items bs, as.length = 1 ∧ items.length = flaggedTypes.length ∧
      as ++ items ++ bs = single (.bool true) :: flagged := by
  have hgroup : ofParts (placeholderArguments [.single .bool, .multi flaggedTypes])
      [[1], [0, 5], [0]] = .ok [single (.bool true), multi flagged] := rfl
  have hrow : ofParts (placeholderArguments (.single .bool :: flaggedTypes)) [[1], [0, 5], [0]] =
      .ok (single (.bool true) :: flagged) := rfl
  obtain ⟨hpack, hunpack⟩ := multi_transparent.1 [single (.bool true)] flagged []
  obtain ⟨hiff, hgroups, hrows⟩ :=
    multi_transparent.2 [.single .bool] flaggedTypes [] [[1], [0, 5], [0]] rfl
  exact ⟨hpack rfl, hunpack (.inl (List.cons_ne_nil _ _)) rfl,
    hiff [single (.bool true)] flagged [] rfl rfl, hgroups _ hgroup, hrows _ hrow⟩

end Calls

end Argument

end CallData
