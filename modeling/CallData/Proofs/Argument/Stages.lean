import CallData.Proofs.Argument.Progress
import CallData.Proofs.Argument.RoundTrip
import CallData.Proofs.Text.Parsing
import CallData.Proofs.Value.Failing

/-!
# The stages of reading a call

A text is read as the arguments of a call in four stages: its pieces are read as parts, the order of
the arguments is checked, the arguments are read in turn, and every part has to be used up by then.
What is reported is what goes wrong in the first stage where something does
(`Argument.ofText_tells_first_failure`). Within an argument no position is that of an argument
(`ArgType.read_inArgument`), so an error has at most one such position, and this is the outermost.
-/

namespace CallData

open PartBuffer PartStep CodecError

/-! ### Arguments -/

section Parts

variable {α : Type}

/-- Reading a part adds no position of its own to what is wrong with the bytes in it. -/
theorem readPart_inArgument {read : Bytes → Except CodecError α}
    (h : ∀ bs e, read bs = .error e → e.InArgument) : FailsOnly InArgument (readPart read) := by
  have hfocused : FailsOnly InArgument focusedPart := by
    intro b e b' he
    rw [focusedPart] at he
    rcases hpart : b.parts[b.focused]? with _ | part
    · rw [hpart] at he
      cases he
      exact .of _
    · rw [hpart] at he
      cases he
  have hnext : FailsOnly InArgument focusNext := by
    intro b e b' he
    rw [focusNext] at he
    by_cases hend : b.isAtEnd
    · rw [if_pos hend] at he
      cases he
      exact .of _
    · rw [if_neg hend] at he
      cases he
  exact hfocused.bind fun part => (FailsOnly.lift (h part)).bind fun a => hnext.map fun _ => a

theorem insideM_inArgument {item : PartStep α} (h : FailsOnly InArgument item) (i : Nat) :
    FailsOnly InArgument (insideM (.index i) item) :=
  FailsOnly.insideM (h.mono fun _ he => he.index i)

theorem replicateFrom_inArgument {item : PartStep α} (h : FailsOnly InArgument item) (n i : Nat) :
    FailsOnly InArgument (replicateFrom item n i) := by
  induction n generalizing i with
  | zero => exact .pure []
  | succ n ih => exact (insideM_inArgument h i).bind fun a => (ih (i + 1)).map (a :: ·)

theorem manyFrom_inArgument {item : PartStep α} (h : FailsOnly InArgument item) (i : Nat) :
    FailsOnly InArgument (manyFrom item i) := by
  intro b
  apply manyFrom_outcome_induct (Q := fun _ r => ∀ e t, r = .error e t → e.InArgument)
  case finished => exact fun b _ e t he => by cases he
  case failed =>
    rintro b i e t he _ _ ⟨⟩
    exact insideM_inArgument h i b e _ he
  case stuck => exact fun b a t _ _ _ e t' he => by cases he
  case more =>
    intro b a t i _ _ ih e t' he
    obtain he | ⟨rest, t'', -, he⟩ := bind_eq_error.mp he
    · exact ih e t' he
    · cases he

/-- The members of a row have an index as well, and no position in the call. -/
theorem readRow_inArgument {types : List ArgType}
    (h : ∀ S ∈ types, FailsOnly InArgument S.read) (i : Nat) :
    FailsOnly InArgument (readRow i (rowReaders types)) := by
  induction types generalizing i with
  | nil => exact .pure []
  | cons S types ih =>
    rw [List.forall_mem_cons] at h
    exact (insideM_inArgument h.1 i).bind fun a => (ih h.2 (i + 1)).map (a :: ·)

end Parts

/-- An argument of a type is read with no other errors than those within it. -/
theorem ArgType.read_inArgument (S : ArgType) : FailsOnly InArgument S.read := by
  induction S with
  | single type => exact (readPart_inArgument fun bs e => ValueType.readTop_inArgument).map _
  | multi types ih => exact (readRow_inArgument ih 0).map _
  | optional item ih =>
    intro b e b' he
    by_cases hend : b.ahead = []
    · rw [ArgType.read, readOptional_of_end hend] at he
      cases he
    · rw [ArgType.read, readOptional_of_ne_nil hend] at he
      exact ih.map _ b e b' he
  | variadic item ih => exact (manyFrom_inArgument ih 0).map _
  | counted item ih =>
    have hcount : FailsOnly InArgument readCount := by
      refine (readPart_inArgument fun bs e he => ?_).map _
      obtain ⟨fault, rfl⟩ := FixedInt.exists_of_ofTop_eq_error he
      exact .of _
    exact hcount.bind fun n => (replicateFrom_inArgument ih n 0).map _

namespace Argument

/-! ### Arguments in turn -/

/-- Arguments are read in place of others, each from where the one before it left the focus. -/
inductive AllRead : List Argument → PartBuffer → List Argument → PartBuffer → Prop where
  | nil (b : PartBuffer) : AllRead [] b [] b
  | cons {held a : Argument} {args as : List Argument} {b t b' : PartBuffer}
      (ha : held.read b = .ok a t) (has : AllRead args t as b') :
      AllRead (held :: args) b (a :: as) b'

/-- The index that the arguments start at is only for errors. -/
theorem readFrom_eq_ok_iff_allRead {args as : List Argument} {b b' : PartBuffer} {i : Nat} :
    readFrom i args b = .ok as b' ↔ AllRead args b as b' := by
  induction args generalizing i b b' as with
  | nil =>
    constructor
    · intro h
      obtain ⟨rfl, rfl⟩ := pure_eq_ok.mp h
      exact .nil _
    · rintro ⟨⟩
      rfl
  | cons held args ih =>
    rw [readFrom]
    simp only [bind_eq_ok, insideM_eq_ok, pure_eq_ok, ih]
    constructor
    · rintro ⟨a, t, ha, as, _, has, rfl, rfl⟩
      exact .cons ha has
    · rintro (_ | ⟨ha, has⟩)
      exact ⟨_, _, ha, _, _, has, rfl, rfl⟩

/-- Where arguments are not read in turn, one of them fails behind others that are. -/
theorem readFrom_eq_error_iff {args : List Argument} {b b' : PartBuffer} {i : Nat}
    {e : CodecError} : readFrom i args b = .error e b' ↔
      ∃ pre held post as t e', args = pre ++ held :: post ∧ AllRead pre b as t ∧
        held.read t = .error e' b' ∧ e = e'.inside (.argument (i + pre.length)) := by
  induction args generalizing i b with
  | nil =>
    refine iff_of_false nofun ?_
    rintro ⟨pre, held, post, as, t, e', h, -⟩
    exact List.append_ne_nil_of_right_ne_nil pre (List.cons_ne_nil held post) h.symm
  | cons held args ih =>
    rw [readFrom, bind_eq_error, insideM_eq_error]
    constructor
    · -- The argument at the front fails, or it is read and one behind it fails.
      rintro (⟨e', he, rfl⟩ | ⟨a, t, ha, h⟩)
      · exact ⟨[], held, args, [], b, e', rfl, .nil b, he, rfl⟩
      · rw [insideM_eq_ok] at ha
        obtain h | ⟨as, t', -, h⟩ := bind_eq_error.mp h
        · obtain ⟨pre, held', post, as, t', e', rfl, has, he, rfl⟩ := ih.mp h
          refine ⟨held :: pre, held', post, a :: as, t', e', rfl, .cons ha has, he, ?_⟩
          rw [List.length_cons, Nat.add_right_comm, Nat.add_assoc]
        · cases h
    · rintro ⟨pre, held', post, as, t, e', h, has, he, rfl⟩
      cases has with
      | nil =>
        obtain ⟨rfl, rfl⟩ := List.cons.inj h
        exact .inl ⟨e', he, rfl⟩
      | @cons _ a pre as _ t' _ ha has =>
        obtain ⟨rfl, rfl⟩ := List.cons.inj h
        refine .inr ⟨a, t', insideM_eq_ok.mpr ha, bind_eq_error.mpr (.inl (ih.mpr ?_))⟩
        refine ⟨pre, held', post, as, t, e', rfl, has, he, ?_⟩
        rw [List.length_cons, Nat.add_right_comm, Nat.add_assoc]

/-- Placeholders are read by moving the focus over parts. -/
theorem AllRead.reaches {types : List ArgType} {as : List Argument} {b b' : PartBuffer}
    (h : AllRead (placeholderArguments types) b as b') : b.Reaches b' := by
  induction types generalizing b as with
  | nil =>
    cases h
    exact .refl _
  | cons S types ih =>
    obtain _ | ⟨ha, has⟩ := h
    rw [S.read_placeholder] at ha
    exact (S.read_movesOn.reaches ha).trans (ih has)

/-! ### Calls -/

/-- A call is read if it is in order, its arguments are read in turn, and no part is left. -/
theorem decode_eq_ok_iff {args as : List Argument} {b : PartBuffer} :
    decode args b = .ok as ↔
      checkOrder args = .ok () ∧ ∃ t, AllRead args b as t ∧ t.checkAtEnd = .ok () := by
  rw [decode, except_seq_eq_ok]
  refine and_congr_right fun _ => ?_
  simp only [← readFrom_eq_ok_iff_allRead (i := 0)]
  rcases readFrom 0 args b with ⟨bs, t⟩ | ⟨e, t⟩
  · rw [except_seq_eq_ok]
    constructor
    · rintro ⟨ht, ⟨⟩⟩
      exact ⟨t, rfl, ht⟩
    · rintro ⟨_, ⟨⟩, ht⟩
      exact ⟨ht, rfl⟩
  · constructor
    · intro h
      cases h
    · rintro ⟨_, h, -⟩
      cases h

/-- A call is refused for the order of its arguments, for the first of them that fails, or for parts
that are left, whichever comes first. -/
theorem decode_eq_error_iff {args : List Argument} {b : PartBuffer} {e : CodecError} :
    decode args b = .error e ↔ checkOrder args = .error e ∨ checkOrder args = .ok () ∧
      ((∃ t, readFrom 0 args b = .error e t) ∨
        ∃ as t, AllRead args b as t ∧ t.checkAtEnd = .error e) := by
  rw [decode, except_bind_eq_error]
  refine or_congr_right ?_
  simp only [← readFrom_eq_ok_iff_allRead (i := 0)]
  constructor
  · rintro ⟨_, horder, h⟩
    refine ⟨horder, ?_⟩
    rcases hread : readFrom 0 args b with ⟨as, t⟩ | ⟨e', t⟩
    · rw [hread] at h
      exact .inr ⟨as, t, rfl, except_bind_pure_eq_error.mp h⟩
    · rw [hread] at h
      cases h
      exact .inl ⟨t, rfl⟩
  · rintro ⟨horder, ⟨t, hread⟩ | ⟨as, t, hread, hend⟩⟩
    · rw [hread]
      exact ⟨(), horder, rfl⟩
    · rw [hread]
      exact ⟨(), horder, except_bind_pure_eq_error.mpr hend⟩

end Argument

/-! ### Texts -/

/-- The first piece that is no hexadecimal form is reported, by its index, whatever comes behind it.
-/
theorem PartBuffer.partsOfPieces_append_of_error {pre post : List (List Char)} {p : List Char}
    {fault : Hex.Fault} {i : Nat} (hpre : ∀ q ∈ pre, Hex.IsText q)
    (hp : Hex.decode (String.ofList p) = .error fault) :
    partsOfPieces i (pre ++ p :: post) = .error ⟨[.index (i + pre.length)], .invalidHex fault⟩ := by
  induction pre generalizing i with
  | nil =>
    rw [List.nil_append, partsOfPieces, hp]
    rfl
  | cons q pre ih =>
    rw [List.forall_mem_cons] at hpre
    obtain ⟨part, hpart⟩ := Option.isSome_iff_exists.mp (Hex.isSome_octets?_iff.mpr hpre.1)
    have hi : i + (pre.length + 1) = i + 1 + pre.length := by omega
    rw [List.cons_append, partsOfPieces, Hex.decode_ofList_eq_ok_iff.mpr hpart, ih hpre.2,
      List.length_cons, hi]
    rfl

namespace Separator

/-- The pieces of a text, with the separators between them left out. -/
def pieces (separator : Separator) (text : String) : List (List Char) :=
  Text.pieces separator.text.toList text.toList

/-- A text spells some parts out, a piece each. -/
def Spells (separator : Separator) (text : String) (parts : List Bytes) : Prop :=
  List.Forall₂ (fun p part => Hex.octets? p = some part) (separator.pieces text) parts

variable {separator : Separator} {text : String}

/-- Text is read as the parts that it spells, the first of them in focus. -/
theorem ofText_eq_ok_iff {b : PartBuffer} : PartBuffer.ofText text separator.text = .ok b ↔
    ∃ parts, separator.Spells text parts ∧ b = ofParts parts := by
  rw [ofText_eq]
  simp only [except_map_eq_ok, partsOfPieces_eq_ok_iff, eq_comm (a := b)]
  rfl

/-- The first piece that is not hexadecimal is to blame. -/
theorem ofText_eq_error_iff {e : CodecError} : PartBuffer.ofText text separator.text = .error e ↔
    ∃ pre p post fault, separator.pieces text = pre ++ p :: post ∧ (∀ q ∈ pre, Hex.IsText q) ∧
      ¬ Hex.IsText p ∧ Hex.decode (String.ofList p) = .error fault ∧
        e = ⟨[.index pre.length], .invalidHex fault⟩ := by
  rw [ofText_eq, except_map_eq_error]
  change partsOfPieces 0 (separator.pieces text) = .error e ↔ _
  constructor
  · intro h
    have hfirst := partsOfPieces_eq_error h
    simpa only [Nat.zero_add] using hfirst
  · rintro ⟨pre, p, post, fault, hpieces, hpre, -, hfault, rfl⟩
    rw [hpieces, partsOfPieces_append_of_error hpre hfault, Nat.zero_add]

end Separator

namespace Argument

/-- What goes wrong in the first stage of reading a text as arguments in which something does. -/
inductive FirstFailure (separator : Separator) (args : List Argument) (text : String) :
    CodecError → Prop where
  /-- Some piece is not hexadecimal, and the first such piece is reported. -/
  | piece {pre post : List (List Char)} {p : List Char} {fault : Hex.Fault}
      (hpieces : separator.pieces text = pre ++ p :: post) (hpre : ∀ q ∈ pre, Hex.IsText q)
      (hp : ¬ Hex.IsText p) (hfault : Hex.decode (String.ofList p) = .error fault) :
      FirstFailure separator args text ⟨[.index pre.length], .invalidHex fault⟩
  /-- The arguments are not in order. -/
  | order {parts : List Bytes} {e : CodecError} (hparts : separator.Spells text parts)
      (horder : checkOrder args = .error e) : FirstFailure separator args text e
  /-- Some argument is not read where those in front of it left the focus. -/
  | argument {parts : List Bytes} {pre post as : List Argument} {held : Argument}
      {t t' : PartBuffer} {e : CodecError} (hparts : separator.Spells text parts)
      (horder : checkOrder args = .ok ()) (hargs : args = pre ++ held :: post)
      (hpre : AllRead pre (.ofParts parts) as t) (hheld : held.read t = .error e t')
      (hwithin : e.InArgument) :
      FirstFailure separator args text (e.inside (.argument pre.length))
  /-- Some pieces are left when all arguments are read. -/
  | leftover {parts : List Bytes} {as : List Argument} {t : PartBuffer}
      (hparts : separator.Spells text parts) (horder : checkOrder args = .ok ())
      (hargs : AllRead args (.ofParts parts) as t)
      (hleft : t.focused < (separator.pieces text).length) :
      FirstFailure separator args text
        ⟨[], .unconsumed (.parts ((separator.pieces text).length - t.focused))⟩

section Placeholders

variable {types : List ArgType} {parts : List Bytes} {as : List Argument} {t : PartBuffer}

/-- Arguments that are read from parts leave these as they are, and the focus within them. -/
theorem AllRead.size_eq (h : AllRead (placeholderArguments types) (.ofParts parts) as t) :
    t.size = parts.length ∧ t.focused ≤ parts.length := by
  obtain ⟨-, hle⟩ := h.reaches.focused_le (Nat.zero_le _)
  rw [size, h.reaches.parts_eq]
  exact ⟨rfl, hle⟩

/-- For placeholders of types, no part is left exactly where the focus is behind as many parts as
there are. -/
theorem decode_placeholderArguments_eq_ok_iff :
    decode (placeholderArguments types) (.ofParts parts) = .ok as ↔
      checkOrder (placeholderArguments types) = .ok () ∧
        ∃ t, AllRead (placeholderArguments types) (.ofParts parts) as t ∧
          t.focused = parts.length := by
  rw [decode_eq_ok_iff]
  refine and_congr_right fun _ => exists_congr fun t => and_congr_right fun has => ?_
  obtain ⟨hsize, hle⟩ := has.size_eq
  rw [checkAtEnd_eq_ok_iff, ← isAtEnd_iff, isAtEnd, decide_eq_true_iff, hsize]
  omega

/-- Each argument of a type fails with an error within it. -/
theorem readFrom_placeholderArguments_eq_error_iff {b b' : PartBuffer} {e : CodecError} :
    readFrom 0 (placeholderArguments types) b = .error e b' ↔
      ∃ pre held post as t e', placeholderArguments types = pre ++ held :: post ∧
        AllRead pre b as t ∧ held.read t = .error e' b' ∧ e'.InArgument ∧
          e = e'.inside (.argument pre.length) := by
  rw [readFrom_eq_error_iff]
  constructor
  · rintro ⟨pre, held, post, as, t, e', hargs, has, he, rfl⟩
    have hmem : held ∈ placeholderArguments types := by
      rw [hargs]
      exact List.mem_append_right pre List.mem_cons_self
    rw [placeholderArguments_eq_map] at hmem
    obtain ⟨S, -, rfl⟩ := List.mem_map.mp hmem
    have hwithin := he
    rw [S.read_placeholder] at hwithin
    refine ⟨pre, _, post, as, t, e', hargs, has, he, S.read_inArgument t e' b' hwithin, ?_⟩
    rw [Nat.zero_add]
  · rintro ⟨pre, held, post, as, t, e', hargs, has, he, -, rfl⟩
    exact ⟨pre, held, post, as, t, e', hargs, has, he, by rw [Nat.zero_add]⟩

variable {separator : Separator} {text : String} {e : CodecError}

/-- Whatever is reported comes from the first stage where something goes wrong. -/
theorem firstFailure_of_ofText_eq_error
    (h : ofText separator (placeholderArguments types) text = .error e) :
    FirstFailure separator (placeholderArguments types) text e := by
  obtain h | ⟨b, hb, h⟩ := except_bind_eq_error.mp h
  · obtain ⟨pre, p, post, fault, hpieces, hpre, hp, hfault, rfl⟩ :=
      Separator.ofText_eq_error_iff.mp h
    exact .piece hpieces hpre hp hfault
  obtain ⟨parts, hparts, rfl⟩ := Separator.ofText_eq_ok_iff.mp hb
  obtain horder | ⟨horder, ⟨t', hread⟩ | ⟨as, t, has, hend⟩⟩ := decode_eq_error_iff.mp h
  · exact .order hparts horder
  · obtain ⟨pre, held, post, as, t, e', hargs, has, hheld, hwithin, rfl⟩ :=
      readFrom_placeholderArguments_eq_error_iff.mp hread
    exact .argument hparts horder hargs has hheld hwithin
  · obtain ⟨hleft, rfl⟩ := checkAtEnd_eq_error_iff.mp hend
    rw [has.size_eq.1, ← hparts.length_eq] at hleft ⊢
    exact .leftover hparts horder has hleft

/-- What goes wrong first is what is reported. -/
theorem FirstFailure.ofText_eq (h : FirstFailure separator (placeholderArguments types) text e) :
    ofText separator (placeholderArguments types) text = .error e := by
  have hdecode {parts : List Bytes} {e : CodecError} (hparts : separator.Spells text parts)
      (h : decode (placeholderArguments types) (.ofParts parts) = .error e) :
      ofText separator (placeholderArguments types) text = .error e :=
    except_bind_eq_error.mpr (.inr ⟨_, Separator.ofText_eq_ok_iff.mpr ⟨parts, hparts, rfl⟩, h⟩)
  cases h with
  | @piece pre post p fault hpieces hpre hp hfault =>
    refine except_bind_eq_error.mpr (.inl (Separator.ofText_eq_error_iff.mpr ?_))
    exact ⟨pre, p, post, fault, hpieces, hpre, hp, hfault, rfl⟩
  | order hparts horder => exact hdecode hparts (decode_eq_error_iff.mpr (.inl horder))
  | argument hparts horder hargs has hheld hwithin =>
    have hread := readFrom_placeholderArguments_eq_error_iff.mpr
      ⟨_, _, _, _, _, _, hargs, has, hheld, hwithin, rfl⟩
    exact hdecode hparts (decode_eq_error_iff.mpr (.inr ⟨horder, .inl ⟨_, hread⟩⟩))
  | @leftover parts as t hparts horder has hleft =>
    rw [hparts.length_eq, ← has.size_eq.1] at hleft ⊢
    have hend := checkAtEnd_eq_error_iff.mpr ⟨hleft, rfl⟩
    exact hdecode hparts (decode_eq_error_iff.mpr (.inr ⟨horder, .inr ⟨as, t, has, hend⟩⟩))

/-- A text is read if none of the stages goes wrong. -/
theorem ofText_placeholderArguments_eq_ok_iff :
    ofText separator (placeholderArguments types) text = .ok as ↔
      ∃ parts t, separator.Spells text parts ∧ checkOrder (placeholderArguments types) = .ok () ∧
        AllRead (placeholderArguments types) (.ofParts parts) as t ∧
          t.focused = (separator.pieces text).length := by
  rw [ofText, except_bind_eq_ok]
  constructor
  · rintro ⟨b, hb, h⟩
    obtain ⟨parts, hparts, rfl⟩ := Separator.ofText_eq_ok_iff.mp hb
    obtain ⟨horder, t, has, ht⟩ := decode_placeholderArguments_eq_ok_iff.mp h
    exact ⟨parts, t, hparts, horder, has, ht.trans hparts.length_eq.symm⟩
  · rintro ⟨parts, t, hparts, horder, has, ht⟩
    refine ⟨_, Separator.ofText_eq_ok_iff.mpr ⟨parts, hparts, rfl⟩, ?_⟩
    exact decode_placeholderArguments_eq_ok_iff.mpr ⟨horder, t, has, ht.trans hparts.length_eq⟩

end Placeholders

/-- A text is read in place of placeholders where its pieces are hexadecimal, the order of the
arguments is right, and each is read in turn up to the end of the pieces. Everywhere else the error
is what goes wrong first: in the first piece that is not hexadecimal, in the order, within the first
argument that is not read from where those in front of it left off, or with the pieces that no
argument takes. -/
theorem ofText_tells_first_failure (separator : Separator) (types : List ArgType) (text : String) :
    (∀ e, ofText separator (placeholderArguments types) text = .error e ↔
      FirstFailure separator (placeholderArguments types) text e) ∧
    ∀ as, ofText separator (placeholderArguments types) text = .ok as ↔
      ∃ parts t, separator.Spells text parts ∧ checkOrder (placeholderArguments types) = .ok () ∧
        AllRead (placeholderArguments types) (.ofParts parts) as t ∧
          t.focused = (separator.pieces text).length := by
  refine ⟨fun e => ⟨firstFailure_of_ofText_eq_error, FirstFailure.ofText_eq⟩, fun as => ?_⟩
  exact ofText_placeholderArguments_eq_ok_iff

/-- A count that promises more than there is, and one that promises less. -/
example :
    ofText .standard (placeholderArguments [.single .bool, .counted (.single .bool)]) "01@02@" =
        .error ⟨[.argument 1, .index 1], .unexpectedEnd 3 1 0⟩ ∧
      ofText .standard (placeholderArguments [.single .bool, .counted (.single .bool)]) "01@@" =
        .error ⟨[], .unconsumed (.parts 1)⟩ :=
  ⟨by cbv, rfl⟩

end Argument

end CallData
