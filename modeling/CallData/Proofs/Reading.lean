import CallData.Proofs.Numeral
import CallData.Proofs.Outcome

/-!
# What readers read

A reader *reads* a byte string as a value (`ByteReader.Reads`) when it does so wherever the bytes
stand and whatever comes behind them, and it *yields* a property (`ByteReader.Yields`) when every
value that it ever answers has it. Both pass from the parts of a reader to the whole, so that a
reader made from others is known by what is known of them.
-/

namespace CallData

namespace ByteReader

variable {α β : Type}

/-- A reader reads a byte string as a value, whatever comes behind. -/
def Reads (r : ByteReader α) (bs : Bytes) (a : α) : Prop :=
  ∀ o rest, r ⟨o, bs ++ rest⟩ = .ok a ⟨o + bs.length, rest⟩

/-- Every value that a reader answers has a property. -/
def Yields (r : ByteReader α) (P : α → Prop) : Prop :=
  ∀ c a c', r c = .ok a c' → P a

/-! ### Chains -/

theorem Reads.pure (a : α) : Reads (pure a) [] a :=
  fun _ _ => rfl

/-- Two steps in turn read what each of them reads, one piece behind the other. -/
theorem Reads.bind {r : ByteReader α} {f : α → ByteReader β} {as bs : Bytes} {a : α} {b : β}
    (h : r.Reads as a) (h' : (f a).Reads bs b) : (r >>= f).Reads (as ++ bs) b := by
  intro o rest
  refine bind_eq_ok.mpr ⟨a, ⟨o + as.length, bs ++ rest⟩, ?_, ?_⟩
  · rw [List.append_assoc]
    exact h o (bs ++ rest)
  · rw [List.length_append, ← Nat.add_assoc]
    exact h' (o + as.length) rest

/-- A last step that only makes a value of what was read. -/
theorem Reads.map {r : ByteReader α} {bs : Bytes} {a : α} (h : r.Reads bs a) (f : α → β) :
    Reads (r >>= fun x => Pure.pure (f x)) bs (f a) := by
  rw [← List.append_nil bs]
  exact h.bind (Reads.pure (f a))

/-- A locator is for errors, and there are none. -/
theorem Reads.insideM {r : ByteReader α} {bs : Bytes} {a : α} (h : r.Reads bs a) (l : Locator) :
    Reads (insideM l r) bs a :=
  fun o rest => insideM_eq_ok.mpr (h o rest)

theorem Reads.lift {r : Except CodecError α} {a : α} (h : r = .ok a) : Reads (lift r) [] a :=
  fun _ _ => lift_eq_ok.mpr ⟨h, rfl⟩

/-- What a reader reads bytes as is settled by the bytes. -/
theorem Reads.eq_of_ok {r : ByteReader α} {bs : Bytes} {a b : α} {o : Nat} {rest : Bytes}
    {c : Cursor} (h : r.Reads bs a) (hb : r ⟨o, bs ++ rest⟩ = .ok b c) :
    b = a ∧ c = ⟨o + bs.length, rest⟩ := by
  rw [h o rest] at hb
  obtain ⟨⟩ := hb
  exact ⟨rfl, rfl⟩

theorem Yields.pure {P : α → Prop} {a : α} (h : P a) : Yields (pure a) P := by
  intro c b c' hb
  rwa [(pure_eq_ok.mp hb).1]

/-- Of the second step, the property is needed only for what the first one may answer. -/
theorem Yields.bind {r : ByteReader α} {f : α → ByteReader β} {P : α → Prop} {Q : β → Prop}
    (h : r.Yields P) (h' : ∀ a, P a → (f a).Yields Q) : (r >>= f).Yields Q := by
  intro c b c' hb
  obtain ⟨a, t, ha, hf⟩ := bind_eq_ok.mp hb
  exact h' a (h c a t ha) t b c' hf

/-- What is made of an answer has the property if it is made of one that may occur. -/
theorem Yields.map {r : ByteReader α} {P : α → Prop} {Q : β → Prop} {f : α → β}
    (h : r.Yields P) (h' : ∀ a, P a → Q (f a)) :
    Yields (r >>= fun x => Pure.pure (f x)) Q :=
  h.bind fun a ha => Yields.pure (h' a ha)

theorem Yields.insideM {r : ByteReader α} {P : α → Prop} (h : r.Yields P) (l : Locator) :
    Yields (insideM l r) P :=
  fun c a c' ha => h c a c' (insideM_eq_ok.mp ha)

theorem Yields.lift {r : Except CodecError α} {P : α → Prop} (h : ∀ a, r = .ok a → P a) :
    Yields (lift r) P :=
  fun _ a _ ha => h a (lift_eq_ok.mp ha).1

theorem Yields.throw {P : α → Prop} {e : CodecError} : Yields (throw e) P :=
  fun _ _ _ h => absurd h throw_ne_ok

theorem Yields.mono {r : ByteReader α} {P Q : α → Prop} (h : r.Yields P) (hPQ : ∀ a, P a → Q a) :
    r.Yields Q :=
  fun c a c' ha => hPQ a (h c a c' ha)

/-! ### Pieces of a byte string -/

theorem take_reads {bs : Bytes} {n : Nat} (h : bs.length = n) : (take n).Reads bs bs := by
  intro o rest
  subst h
  simp [take, Cursor.remaining]

/-- Bytes that are taken are those in front, and as many as were asked for. -/
theorem take_eq_ok {n : Nat} {c c' : Cursor} {bs : Bytes} (h : take n c = .ok bs c') :
    c.rest = bs ++ c'.rest ∧ c'.offset = c.offset + n ∧ bs.length = n := by
  rw [take] at h
  by_cases hn : n ≤ c.remaining
  · rw [if_pos hn] at h
    obtain ⟨⟩ := h
    have hlen : (c.rest.take n).length = n := by rwa [List.length_take, Nat.min_eq_left]
    exact ⟨(List.take_append_drop n c.rest).symm, rfl, hlen⟩
  · rw [if_neg hn] at h
    cases h

theorem take_yields (n : Nat) : (take n).Yields fun bs => bs.length = n :=
  fun _ _ _ h => (take_eq_ok h).2.2

theorem octet_reads (b : UInt8) : octet.Reads [b] b := by
  have h : (take 1).Reads [b] [b] := take_reads rfl
  exact h.map fun bs => bs.headD 0

/-- A number that fits four octets is read from them. -/
theorem count_reads {n : Nat} (h : n < 2 ^ 32) : count.Reads (Bytes.ofNat 4 n) n := by
  have hspell : (Bytes.ofNat 4 n).toNat = n := by
    rw [Bytes.toNat_ofNat]
    exact Nat.mod_eq_of_lt (by omega)
  have := (take_reads (Bytes.length_ofNat 4 n)).map Bytes.toNat
  rwa [hspell] at this

/-- What is read from four octets would fit them again. -/
theorem count_yields : count.Yields fun n => n < 2 ^ 32 := by
  refine (take_yields 4).map fun bs hbs => ?_
  have hlt := bs.toNat_lt
  rw [hbs] at hlt
  omega

/-- A byte string is read from behind its length, if that fits. -/
theorem framed_reads {bs : Bytes} (h : bs.length < 2 ^ 32) :
    framed.Reads (Bytes.ofNat 4 bs.length ++ bs) bs :=
  (count_reads h).bind (take_reads rfl)

/-- What is read from a frame would fit one again. -/
theorem framed_yields : framed.Yields fun bs => bs.length < 2 ^ 32 :=
  count_yields.bind fun n hn => (take_yields n).mono fun bs hbs => by rwa [hbs]

/-- Truth values are read from the octets zero and one. -/
theorem bool_reads (b : Bool) : ByteReader.bool.Reads [b.toUInt8] b := by
  have h := octet_reads b.toUInt8
  match b with
  | false => exact h.bind (Reads.pure false)
  | true => exact h.bind (Reads.pure true)

/-- A text is read from its frame, whose length is that of the UTF-8 octets. -/
theorem text_reads {s : String} (h : (Utf8.encode s).length < 2 ^ 32) :
    text.Reads (Bytes.ofNat 4 (Utf8.encode s).length ++ Utf8.encode s) s := by
  rw [← List.append_nil (Bytes.ofNat 4 _ ++ _)]
  refine (framed_reads h).bind ?_
  rw [Utf8.decode_encode]
  exact Reads.pure s

/-- What is read as text is written in as many octets as it was read from, so it would fit again. -/
theorem text_yields : text.Yields fun s => (Utf8.encode s).length < 2 ^ 32 := by
  refine framed_yields.bind fun bs hbs => ?_
  rcases hs : Utf8.decode bs with fault | s
  · exact Yields.throw
  · have hlen : (Utf8.encode s).length < 2 ^ 32 := by rwa [Utf8.encode_of_decode_eq_ok hs]
    exact Yields.pure hlen

/-! ### Sequences -/

section Sequences

variable {item : ByteReader α} {as : List α}

/-- Items are read in turn where each is read from bytes of its own. -/
theorem replicateFrom_reads {put : α → Bytes} (h : ∀ a ∈ as, item.Reads (put a) a) (i : Nat) :
    (replicateFrom item as.length i).Reads (as.flatMap put) as := by
  induction as generalizing i with
  | nil => exact Reads.pure []
  | cons a as ih =>
    rw [List.forall_mem_cons] at h
    rw [List.length_cons, List.flatMap_cons]
    exact (h.1.insideM (.index i)).bind ((ih h.2 (i + 1)).map (a :: ·))

/-- As many items are read as were asked for, each of them as the reader of one answers. -/
theorem replicateFrom_yields {P : α → Prop} (h : item.Yields P) (n i : Nat) :
    (replicateFrom item n i).Yields fun as => as.length = n ∧ ∀ a ∈ as, P a := by
  induction n generalizing i with
  | zero => exact Yields.pure ⟨rfl, by simp⟩
  | succ n ih =>
    refine (h.insideM (.index i)).bind fun a ha => (ih (i + 1)).map fun as has => ?_
    exact ⟨congrArg (· + 1) has.1, List.forall_mem_cons.mpr ⟨ha, has.2⟩⟩

theorem manyFrom_of_end {c : Cursor} (hend : c.rest = []) (i : Nat) :
    manyFrom item i c = .ok [] := by
  rw [manyFrom]
  exact if_pos (List.isEmpty_iff.mpr hend)

/-- An item that takes some bytes has the others behind it; one that takes none is the last. -/
theorem manyFrom_of_ok {c t : Cursor} {a : α} (hmore : c.rest ≠ []) (hread : item c = .ok a t)
    (i : Nat) : manyFrom item i c =
      if t.remaining < c.remaining then (manyFrom item (i + 1) t).map (a :: ·)
      else fail (.unconsumed (.bytes t.remaining)) := by
  rw [manyFrom, insideM_eq_ok.mpr hread]
  exact if_neg (mt List.isEmpty_iff.mp hmore)

/-- An item that is read from bytes of its own stands in front of the others. -/
theorem Reads.manyFrom_eq {bs : Bytes} {a : α} (h : item.Reads bs a) (hbs : bs ≠ []) (i o : Nat)
    (rest : Bytes) : manyFrom item i ⟨o, bs ++ rest⟩ =
      (manyFrom item (i + 1) ⟨o + bs.length, rest⟩).map (a :: ·) := by
  have hmore : bs ++ rest ≠ [] := List.append_ne_nil_of_left_ne_nil hbs rest
  have hless : rest.length < (bs ++ rest).length := by
    have hpos : 0 < bs.length := List.length_pos_iff.mpr hbs
    rw [List.length_append]
    omega
  rw [manyFrom_of_ok hmore (h o rest)]
  exact if_pos hless

/-- An item that fails ends the loop, and the error has the index of the item. -/
theorem manyFrom_of_error {c t : Cursor} {e : CodecError} (hmore : c.rest ≠ [])
    (hread : item c = .error e t) (i : Nat) :
    manyFrom item i c = .error (e.inside (.index i)) := by
  rw [manyFrom, insideM_of_error hread]
  exact if_neg (mt List.isEmpty_iff.mp hmore)

/-- What holds of no items where nothing is left, of an item that fails, of one that takes no byte,
and of an item in front of others of which it holds, holds of every reading up to the end. -/
theorem manyFrom_induct {Q : Nat → Cursor → Except CodecError (List α) → Prop}
    (finished : ∀ i c, c.rest = [] → Q i c (.ok []))
    (failed : ∀ i c e t, c.rest ≠ [] → item c = .error e t → Q i c (.error (e.inside (.index i))))
    (stuck : ∀ i c a t, c.rest ≠ [] → item c = .ok a t → ¬ t.remaining < c.remaining →
      Q i c (fail (.unconsumed (.bytes t.remaining))))
    (more : ∀ i c a t, c.rest ≠ [] → item c = .ok a t → t.remaining < c.remaining →
      Q (i + 1) t (manyFrom item (i + 1) t) → Q i c ((manyFrom item (i + 1) t).map (a :: ·)))
    (i : Nat) (c : Cursor) : Q i c (manyFrom item i c) := by
  -- Each item leaves fewer bytes to the others, whatever their index.
  induction hlen : c.remaining using Nat.strong_induction_on generalizing i c with
  | _ _ ih =>
  subst hlen
  by_cases hend : c.rest = []
  · rw [manyFrom_of_end hend]
    exact finished i c hend
  rcases hread : item c with ⟨a, t⟩ | ⟨e, t⟩
  · rw [manyFrom_of_ok hend hread]
    by_cases hless : t.remaining < c.remaining
    · rw [if_pos hless]
      exact more i c a t hend hread hless (ih _ hless (i + 1) t rfl)
    · rw [if_neg hless]
      exact stuck i c a t hend hread hless
  · rw [manyFrom_of_error hend hread]
    exact failed i c e t hend hread

/-- The first of some items is read from bytes of its own, and the others behind it. -/
theorem manyFrom_eq_ok_cons_iff {i : Nat} {c : Cursor} {a : α} :
    manyFrom item i c = .ok (a :: as) ↔ c.rest ≠ [] ∧ ∃ t, item c = .ok a t ∧
      t.remaining < c.remaining ∧ manyFrom item (i + 1) t = .ok as := by
  by_cases hend : c.rest = []
  · rw [manyFrom_of_end hend]
    exact iff_of_false nofun fun h => h.1 hend
  rw [and_iff_right hend]
  rcases hread : item c with ⟨b, t⟩ | ⟨e, t⟩
  · rw [manyFrom_of_ok hend hread, except_ite_eq_ok, except_map_eq_ok]
    constructor
    · rintro ⟨hless, bs, hrest, ⟨⟩⟩
      exact ⟨t, rfl, hless, hrest⟩
    · rintro ⟨t', ⟨⟩, hless, hrest⟩
      exact ⟨hless, as, hrest, rfl⟩
  · rw [manyFrom_of_error hend hread]
    refine iff_of_false nofun ?_
    rintro ⟨t', ⟨⟩, -⟩

/-- No items are read from the empty input and from no other: where bytes are left, an item is
tried. -/
theorem manyFrom_eq_ok_nil_iff {i : Nat} {c : Cursor} :
    manyFrom item i c = .ok [] ↔ c.rest = [] := by
  refine ⟨fun h => by_contra fun hend => ?_, fun hend => manyFrom_of_end hend i⟩
  rcases hread : item c with ⟨b, t⟩ | ⟨e, t⟩
  · rw [manyFrom_of_ok hend hread, except_ite_eq_ok, except_map_eq_ok] at h
    obtain ⟨-, bs, -, ⟨⟩⟩ := h
  · rw [manyFrom_of_error hend hread] at h
    exact nomatch h

/-- Items that are written with some bytes each are read up to the end of the input. -/
theorem manyFrom_of_reads {put : α → Bytes} (h : ∀ a ∈ as, item.Reads (put a) a)
    (hne : ∀ a ∈ as, put a ≠ []) (i o : Nat) :
    manyFrom item i ⟨o, as.flatMap put⟩ = .ok as := by
  induction as generalizing i o with
  | nil => exact manyFrom_of_end rfl i
  | cons a as ih =>
    rw [List.forall_mem_cons] at h hne
    rw [List.flatMap_cons, h.1.manyFrom_eq hne.1, ih h.2 hne.2]
    rfl

/-- A byte string made of the bytes of items, none of them empty, is read as these items. -/
theorem many_of_reads {put : α → Bytes} (h : ∀ a ∈ as, item.Reads (put a) a)
    (hne : ∀ a ∈ as, put a ≠ []) : many item (as.flatMap put) = .ok as :=
  manyFrom_of_reads h hne 0 0

theorem many_nil (item : ByteReader α) : many item [] = .ok [] :=
  manyFrom_of_end rfl 0

/-- Every item comes from a round of the loop that took some bytes. -/
theorem exists_of_mem_manyFrom {i : Nat} {c : Cursor} (h : manyFrom item i c = .ok as) :
    ∀ a ∈ as, ∃ t t', item t = .ok a t' ∧ t'.remaining < t.remaining := by
  induction as generalizing i c with
  | nil => simp
  | cons a as ih =>
    obtain ⟨-, t, hread, hless, hrest⟩ := manyFrom_eq_ok_cons_iff.mp h
    rw [List.forall_mem_cons]
    exact ⟨⟨c, t, hread, hless⟩, ih hrest⟩

/-- Where a byte string is read as items, each of them was read from bytes of its own. -/
theorem exists_of_mem_many {bs : Bytes} (h : many item bs = .ok as) :
    ∀ a ∈ as, ∃ t t', item t = .ok a t' ∧ t'.remaining < t.remaining :=
  exists_of_mem_manyFrom h

end Sequences

/-! ### Whole byte strings -/

/-- A byte string for itself has to be read up to its end. -/
theorem exactly_eq_ok_iff {r : ByteReader α} {bs : Bytes} {a : α} :
    r.exactly bs = .ok a ↔ ∃ c, r (.start bs) = .ok a c ∧ c.rest = [] := by
  rw [ByteReader.exactly]
  rcases r (.start bs) with ⟨b, c⟩ | ⟨e, c⟩
  · rw [except_ite_eq_ok, Cursor.isAtEnd, List.isEmpty_iff]
    constructor
    · rintro ⟨hend, ⟨⟩⟩
      exact ⟨c, rfl, hend⟩
    · rintro ⟨c, ⟨⟩, hend⟩
      exact ⟨hend, rfl⟩
  · refine iff_of_false nofun ?_
    rintro ⟨c, ⟨⟩, -⟩

/-- It makes no difference whether a value is made of the answer before or after the end is checked.
-/
theorem exactly_map (r : ByteReader α) (f : α → β) (bs : Bytes) :
    exactly (r >>= fun a => pure (f a)) bs = (r.exactly bs).map f := by
  rw [ByteReader.exactly, ByteReader.exactly]
  rcases hread : r (.start bs) with ⟨a, c⟩ | ⟨e, c⟩
  · rw [bind_of_ok hread]
    change _ = Except.map f (if c.isAtEnd then .ok a else fail _)
    rw [apply_ite (Except.map f)]
    rfl
  · rw [bind_of_error hread]
    rfl

/-- What a reader reads whatever is behind, it reads where nothing is. -/
theorem Reads.exactly {r : ByteReader α} {bs : Bytes} {a : α} (h : r.Reads bs a) :
    r.exactly bs = .ok a := by
  have hread := h 0 []
  rw [List.append_nil] at hread
  exact exactly_eq_ok_iff.mpr ⟨_, hread, rfl⟩

/-- What holds of every answer holds of those that are read up to the end. -/
theorem Yields.exactly {r : ByteReader α} {P : α → Prop} (h : r.Yields P) {bs : Bytes} {a : α}
    (ha : r.exactly bs = .ok a) : P a := by
  obtain ⟨c, hread, -⟩ := exactly_eq_ok_iff.mp ha
  exact h _ a c hread

end ByteReader

end CallData
