import CallData.Proofs.Argument.Conformance
import CallData.Proofs.Argument.Reading

/-!
# Arguments that are read back

A type *restores* an argument (`ArgType.Restores`) when nothing in it is lost on the way over its
parts. The parts of such an argument are read as it if it is delimited, and if it is trailing and
nothing comes behind them (`ArgType.Restores.reads`). Whatever is read from parts that are used up
by it is such an argument (`ArgType.takes`).
-/

namespace CallData

open Argument PartStep

/-- A type has an argument, and the argument can be told from its parts: each value is read back
from its part, some part shows for whatever is optional or variadic, and the counts fit. -/
inductive ArgType.Restores : ArgType → Argument → Prop where
  | single {type : ValueType} {v : Value} (h : type.placeholder.readTop v.top = .ok v) :
      Restores (.single type) (.single v)
  | multi {types : List ArgType} {items : List Argument} (h : List.Forall₂ Restores types items) :
      Restores (.multi types) (.multi items)
  | absent (item : ArgType) : Restores (.optional item) (.optional (some item) none)
  | present {item : ArgType} {a : Argument} (h : Restores item a) (hne : a.flat ≠ []) :
      Restores (.optional item) (.optional (some item) (some a))
  | variadic {item : ArgType} {items : List Argument} (h : ∀ a ∈ items, Restores item a)
      (hne : ∀ a ∈ items, a.flat ≠ []) : Restores (.variadic item) (.variadic item items)
  | counted {item : ArgType} {items : List Argument} (h : ∀ a ∈ items, Restores item a)
      (hlen : items.length < 2 ^ 32) : Restores (.counted item) (.counted item items)

namespace ArgType

/-- What a type restores it has, with values that come back from their top-level encodings. -/
theorem Restores.holds {S : ArgType} {a : Argument} (h : S.Restores a) :
    S.Holds (fun T v => T.placeholder.readTop v.top = .ok v) a := by
  induction S generalizing a with
  | single type =>
    have .single h := h
    exact .single h
  | multi types ih =>
    have .multi h := h
    exact .multi (forall₂_imp_of_mem h fun S hS a _ ha => ih S hS ha)
  | optional item ih =>
    match h with
    | .absent _ => exact .absent item
    | .present h _ => exact .present (ih h)
  | variadic item ih =>
    have .variadic h _ := h
    exact .variadic fun a ha => ih (h a ha)
  | counted item ih =>
    have .counted h _ := h
    exact .counted fun a ha => ih (h a ha)

/-- A type restores its arguments that fit the wire and leave a trace. -/
theorem Holds.restores {S : ArgType} {a : Argument} (h : S.Holds ValueType.Has a)
    (hfits : a.Fits) (htrace : a.LeavesTrace) : S.Restores a := by
  induction S generalizing a with
  | single type =>
    have .single h := h
    have .single hfits := hfits
    have .single htrace := htrace
    have hkept := mt (ValueType.HasTop.has h).losesItems_iff.mp htrace
    exact .single (h.readTop_top hfits hkept)
  | multi types ih =>
    have .multi h := h
    have .multi _ hfits := hfits
    have .multi _ htrace := htrace
    refine .multi (forall₂_imp_of_mem h fun S hS a ha hSa => ?_)
    exact ih S hS hSa (hfits a ha) (htrace a ha)
  | optional item ih =>
    match h with
    | .absent _ => exact .absent item
    | .present h =>
      have .present _ hfits := hfits
      have .present hne htrace := htrace
      exact .present (ih h hfits htrace) hne
  | variadic item ih =>
    have .variadic h := h
    have .variadic _ hfits := hfits
    have .variadic hne htrace := htrace
    exact .variadic (fun a ha => ih (h a ha) (hfits a ha) (htrace a ha)) hne
  | counted item ih =>
    have .counted h := h
    have .counted hlen hfits := hfits
    have .counted _ htrace := htrace
    exact .counted (fun a ha => ih (h a ha) (hfits a ha) (htrace a ha)) hlen

end ArgType

/-! ### Parts of each kind -/

section Steps

variable {isTail : Bool}

/-- A count is a part of its own, with the shortest numeral of it. -/
theorem readCount_reads {n : Nat} (h : n < 2 ^ 32) :
    Reads isTail readCount [Bytes.shortest false n] n := by
  have hmax : (n : Int) ≤ IntWidth.max .w32 false := by
    change (n : Int) ≤ 2 ^ 32 - 1
    omega
  have hread : FixedInt.ofTop .w32 false (Bytes.shortest false n) = .ok ⟨.w32, false, n⟩ :=
    FixedInt.ofTop_shortest (Int.natCast_nonneg n) hmax
  exact (readPart_reads hread).map fun x => x.value.toNat

/-- A count takes one part. What the part spells may have zeros in front, so the bytes of it are not
settled. -/
theorem readCount_takes :
    Takes isTail readCount (fun n => [Bytes.shortest false n]) fun n => n < 2 ^ 32 := by
  have hbounds : ∀ bs x, FixedInt.ofTop .w32 false bs = .ok x → x.value.toNat < 2 ^ 32 := by
    intro bs x hx
    obtain ⟨⟨-, hmax⟩, rfl⟩ := FixedInt.ofTop_eq_ok_iff.mp hx
    change Bytes.toInteger false bs ≤ 2 ^ 32 - 1 at hmax
    dsimp only
    omega
  have hpart : Takes isTail (PartBuffer.readPart (FixedInt.ofTop .w32 false))
      (fun x => [Bytes.shortest false x.value.toNat]) fun x => x.value.toNat < 2 ^ 32 :=
    readPart_takes (fun _ => rfl) hbounds
  exact hpart.map (fun _ => rfl) fun _ hx => hx

/-- What is left out at the end of a call is read from no parts, as the end itself says. -/
theorem readOptional_reads_absent (itemType : Option ArgType) (item : PartStep Argument) :
    Reads true (readOptional itemType item) [] (.optional itemType none) := by
  intro b post htail hb
  have hend : b.isAtEnd = true := b.isAtEnd_iff.mpr (hb.trans (htail rfl))
  refine bind_eq_ok.mpr ⟨b, b, rfl, ?_⟩
  rw [if_pos hend]
  rfl

/-- What is there is told by its first part, so it has to have one. -/
theorem readOptional_reads_present {itemType : Option ArgType} {item : PartStep Argument}
    {ps : List Bytes} {a : Argument} (h : Reads true item ps a) (hne : ps ≠ []) :
    Reads true (readOptional itemType item) ps (.optional itemType (some a)) := by
  intro b post htail hb
  have hmore : b.isAtEnd = false := PartBuffer.isAtEnd_of_ne_nil (by simp [hb, hne])
  refine bind_eq_ok.mpr ⟨b, b, rfl, ?_⟩
  rw [hmore, if_neg Bool.false_ne_true]
  exact h.map (fun a => Argument.optional itemType (some a)) b post htail hb

/-- What is read as being there took a part. -/
theorem readOptional_takes {itemType : Option ArgType} {item : PartStep Argument}
    {P : Argument → Prop} (h : Takes true item flat P) :
    Takes true (readOptional itemType item) flat fun a => a = .optional itemType none ∨
      ∃ b, P b ∧ b.flat ≠ [] ∧ a = .optional itemType (some b) := by
  intro b a b' ha
  obtain ⟨t, t', hget, ha⟩ := bind_eq_ok.mp ha
  obtain ⟨⟩ := hget
  split at ha
  case isTrue =>
    obtain ⟨rfl, rfl⟩ := pure_eq_ok.mp ha
    exact ⟨rfl, Nat.zero_le _, fun _ => .inl rfl⟩
  case isFalse hmore =>
    obtain ⟨c, t'', hc, ha⟩ := bind_eq_ok.mp ha
    obtain ⟨rfl, rfl⟩ := pure_eq_ok.mp ha
    obtain ⟨rfl, hle, hP⟩ := h _ c _ hc
    refine ⟨rfl, hle, fun hend => .inr ⟨c, hP hend, fun hnil => hmore ?_, rfl⟩⟩
    -- An argument without parts would leave the ones that are there.
    rw [hnil] at hend
    exact (PartBuffer.isAtEnd_iff _).mpr (hend rfl)

/-- Counted arguments tell where they end, so they are read whatever is behind them. -/
theorem readCounted_reads {item : ArgType} {items : List Argument} (hlen : items.length < 2 ^ 32)
    (h : ∀ a ∈ items, Reads false item.read a.flat a) :
    Reads isTail (ArgType.counted item).read (counted item items).flat (.counted item items) := by
  rw [flat_counted_of_lt hlen]
  exact (readCount_reads hlen).bind ((replicateFrom_reads h 0).map (Argument.counted item))

theorem readCounted_takes {item : ArgType} {P : Argument → Prop}
    (h : Takes false item.read flat P) : Takes isTail (ArgType.counted item).read flat fun a =>
      ∃ items, (∀ b ∈ items, P b) ∧ items.length < 2 ^ 32 ∧ a = .counted item items := by
  intro b a b' ha
  -- The count takes one part, and as many items as it says take theirs behind it.
  obtain ⟨n, t, hn, ha⟩ := bind_eq_ok.mp ha
  obtain ⟨items, t', hitems, ha⟩ := bind_eq_ok.mp ha
  obtain ⟨rfl, rfl⟩ := pure_eq_ok.mp ha
  have hcount : Takes false readCount _ _ := readCount_takes
  have hrow : Takes false _ _ _ := replicateFrom_takes h n 0
  obtain ⟨hmoved, hle, hlt⟩ := hcount b n t hn
  obtain ⟨hmoved', hle', hP⟩ := hrow t items b' hitems
  obtain ⟨hlen, hP⟩ := hP nofun
  have hflat : (counted item items).flat.length = 1 + (items.flatMap flat).length := by
    rw [flat_counted, List.length_cons, Nat.add_comm]
  rw [List.length_singleton] at hmoved hle
  rw [hmoved, PartBuffer.ahead_moved, List.length_drop] at hle'
  refine ⟨?_, by omega, fun _ => ⟨items, hP, hlen ▸ hlt nofun, rfl⟩⟩
  rw [hmoved', hmoved, PartBuffer.moved_moved, hflat]

/-! ### Rows -/

/-- A row whose members all tell where they end, one behind the other. -/
theorem readRow_reads {types : List ArgType} {args : List Argument}
    (h : List.Forall₂ (fun S a => Reads false S.read a.flat a) types args) (i : Nat) :
    Reads isTail (readRow i (rowReaders types)) (args.flatMap flat) args := by
  induction h generalizing i with
  | nil => exact Reads.pure []
  | @cons S a types args ha _ ih =>
    exact (ha.insideM (.index i)).bind ((ih (i + 1)).map (a :: ·))

/-- The last of some arguments may be read up to the end. -/
theorem readRow_reads_of_endsIn {P Q : Argument → Prop} {types : List ArgType}
    {args : List Argument} (h : List.Forall₂ (fun S a => (P a → Reads false S.read a.flat a) ∧
      (Q a → Reads true S.read a.flat a)) types args) (hargs : EndsIn P Q args) (i : Nat) :
    Reads true (readRow i (rowReaders types)) (args.flatMap flat) args := by
  induction hargs generalizing types i with
  | nil =>
    obtain ⟨⟩ := h
    exact Reads.pure []
  | @last a ha =>
    obtain _ | ⟨hread, ⟨⟩⟩ := h
    rw [List.flatMap_singleton]
    exact ((hread.2 ha).insideM (.index i)).map fun a => [a]
  | @cons a b args ha _ ih =>
    obtain _ | ⟨hread, hs⟩ := h
    exact ((hread.1 ha).insideM (.index i)).bind ((ih hs (i + 1)).map (a :: ·))

/-- A row takes the parts of its members in turn, whatever is left behind them. -/
theorem readRow_takes {R : ArgType → Argument → Prop} {types : List ArgType}
    (h : ∀ S ∈ types, Takes false S.read flat (R S)) (i : Nat) :
    Takes isTail (readRow i (rowReaders types)) (List.flatMap flat) (List.Forall₂ R types) := by
  induction types generalizing i with
  | nil =>
    intro b as b' has
    obtain ⟨rfl, rfl⟩ := pure_eq_ok.mp has
    exact ⟨rfl, Nat.zero_le _, fun _ => .nil⟩
  | cons S types ih =>
    rw [List.forall_mem_cons] at h
    exact (h.1.insideM (.index i)).cons (ih h.2 (i + 1)) fun _ _ => .cons

/-- Only the last of a row needs to know that nothing is behind it. -/
theorem readRow_takes_of_endsIn {P Q : ArgType → Prop} {R : ArgType → Argument → Prop}
    {types : List ArgType} (h : ∀ S ∈ types, (P S → Takes false S.read flat (R S)) ∧
      (Q S → Takes true S.read flat (R S))) (htypes : EndsIn P Q types) (i : Nat) :
    Takes true (readRow i (rowReaders types)) (List.flatMap flat) (List.Forall₂ R types) := by
  induction htypes generalizing i with
  | nil => exact readRow_takes (by simp) i
  | @last S hS =>
    rw [List.forall_mem_singleton] at h
    have hrow := ((h.2 hS).insideM (.index i)).map (f := fun a => [a])
      (fun a => List.flatMap_singleton (f := flat) (x := a)) fun a ha => List.Forall₂.cons ha .nil
    exact hrow
  | @cons S S' types hS _ ih =>
    rw [List.forall_mem_cons] at h
    exact ((h.1.1 hS).insideM (.index i)).cons (ih h.2 (i + 1)) fun _ _ => .cons

end Steps

/-! ### All types -/

namespace ArgType

/-- An argument that is delimited is read from its parts, whatever comes behind them; one that is
trailing, where nothing does. -/
theorem Restores.reads {S : ArgType} {a : Argument} (h : S.Restores a) :
    (a.Delimited → Reads false S.read a.flat a) ∧ (a.Trailing → Reads true S.read a.flat a) := by
  induction S generalizing a with
  | single type =>
    have .single h := h
    exact ⟨fun _ => (readPart_reads h).map Argument.single,
      fun _ => (readPart_reads h).map Argument.single⟩
  | multi types ih =>
    have .multi h := h
    have hrow := forall₂_imp_of_mem h fun S hS a _ ha => ih S hS ha
    rw [flat_multi]
    refine ⟨fun | .multi hitems => ?_, fun | .multi hitems => ?_⟩
    · have hreads := forall₂_imp_of_mem hrow fun S _ a ha hread => hread.1 (hitems a ha)
      exact (readRow_reads hreads 0).map Argument.multi
    · exact (readRow_reads_of_endsIn hrow hitems 0).map Argument.multi
  | optional item ih =>
    match h with
    | .absent _ => exact ⟨nofun, fun _ => readOptional_reads_absent (some item) item.read⟩
    | .present h hne =>
      -- An optional argument is never delimited, so it is read at the tail alone.
      refine ⟨nofun, fun | .present _ htrailing => ?_⟩
      exact readOptional_reads_present ((ih h).2 htrailing) hne
  | variadic item ih =>
    have .variadic h hne := h
    refine ⟨nofun, fun | .variadic _ hitems => ?_⟩
    have hreads := manyFrom_reads (fun a ha => (ih (h a ha)).1 (hitems a ha)) hne 0
    rw [flat_variadic]
    exact hreads.map (Argument.variadic item)
  | counted item ih =>
    have .counted h hlen := h
    refine ⟨fun | .counted _ hitems => ?_, fun | .counted _ hitems => ?_⟩
    · exact readCounted_reads hlen fun a ha => (ih (h a ha)).1 (hitems a ha)
    · exact readCounted_reads hlen fun a ha => (ih (h a ha)).1 (hitems a ha)

/-- What is read by a delimited type takes its own parts and is restored by the type. The same
holds of a trailing type where no part is left. -/
theorem takes (S : ArgType) : (S.Delimited → Takes false S.read flat S.Restores) ∧
    (S.Trailing → Takes true S.read flat S.Restores) := by
  induction S with
  | single type =>
    -- What was read at top level keeps its items, so it is read again from what it is written to.
    have hstable : ∀ bs v, type.placeholder.readTop bs = .ok v →
        type.placeholder.readTop v.top = .ok v := by
      intro bs v hv
      obtain ⟨hhas, hfits, hkept⟩ := ValueType.hasTop_of_readTop hv
      exact hhas.readTop_top hfits hkept
    have hpart : Takes false (PartBuffer.readPart type.placeholder.readTop)
        (fun v => [v.top]) fun v => type.placeholder.readTop v.top = .ok v :=
      readPart_takes (fun _ => rfl) hstable
    have hsingle : Takes false (single type).read flat (single type).Restores :=
      hpart.map flat_single fun _ => .single
    exact ⟨fun _ => hsingle, fun _ => hsingle.tail⟩
  | multi types ih =>
    refine ⟨fun | .multi htypes => ?_, fun | .multi htypes => ?_⟩
    · have hrow : Takes false _ _ _ := readRow_takes (fun S hS => (ih S hS).1 (htypes S hS)) 0
      exact hrow.map flat_multi fun _ => .multi
    · exact (readRow_takes_of_endsIn ih htypes 0).map flat_multi fun _ => .multi
  | optional item ih =>
    -- No optional and no variadic type is delimited, which leaves the tail.
    refine ⟨nofun, fun | .optional hitem => (readOptional_takes (ih.2 hitem)).mono ?_⟩
    rintro _ (rfl | ⟨a, ha, hne, rfl⟩)
    · exact .absent item
    · exact .present ha hne
  | variadic item ih =>
    refine ⟨nofun, fun | .variadic hitem => ?_⟩
    refine (manyFrom_takes (ih.1 hitem) 0).map (flat_variadic item) fun items hitems => ?_
    exact .variadic (fun a ha => (hitems a ha).1) fun a ha => (hitems a ha).2
  | counted item ih =>
    have hcounted : ∀ a, (∃ items, (∀ b ∈ items, item.Restores b) ∧ items.length < 2 ^ 32 ∧
        a = .counted item items) → (counted item).Restores a := by
      rintro _ ⟨items, hitems, hlen, rfl⟩
      exact .counted hitems hlen
    refine ⟨fun | .counted hitem => ?_, fun | .counted hitem => ?_⟩
    · exact (readCounted_takes (ih.1 hitem)).mono hcounted
    · exact (readCounted_takes (ih.1 hitem)).mono hcounted

end ArgType

end CallData
