import CallData.Proofs.Reading

/-!
# What readers consume

A reader *consumes* bytes in a relation to its answers (`ByteReader.Consumes`) when the bytes that
it moves the cursor over stand in that relation to what it answers. For the pieces that encodings
are made of, these bytes are those that the answer is written to.
-/

namespace CallData

/-- A relation between byte strings that each has to itself, and that passes to joined ones. -/
structure Bytes.Compatible (R : Bytes → Bytes → Prop) : Prop where
  refl (bs : Bytes) : R bs bs
  append {as as' bs bs' : Bytes} (ha : R as as') (hb : R bs bs') : R (as ++ bs) (as' ++ bs')

namespace ByteReader

variable {α β : Type}

/-- The bytes that a reader moves over stand in a relation to its answer. -/
def Consumes (r : ByteReader α) (Q : Bytes → α → Prop) : Prop :=
  ∀ c a c', r c = .ok a c' →
    ∃ bs, c.rest = bs ++ c'.rest ∧ c'.offset = c.offset + bs.length ∧ Q bs a

/-! ### Chains -/

theorem Consumes.mono {r : ByteReader α} {P Q : Bytes → α → Prop} (h : r.Consumes P)
    (hPQ : ∀ bs a, P bs a → Q bs a) : r.Consumes Q := by
  intro c a c' ha
  obtain ⟨bs, hrest, hoffset, hP⟩ := h c a c' ha
  exact ⟨bs, hrest, hoffset, hPQ bs a hP⟩

/-- What every answer has holds of it beside its relation to the bytes. -/
theorem Consumes.and_yields {r : ByteReader α} {Q : Bytes → α → Prop} {P : α → Prop}
    (h : r.Consumes Q) (hP : r.Yields P) : r.Consumes fun bs a => Q bs a ∧ P a := by
  intro c a c' ha
  obtain ⟨bs, hrest, hoffset, hQ⟩ := h c a c' ha
  exact ⟨bs, hrest, hoffset, hQ, hP c a c' ha⟩

theorem Consumes.pure {Q : Bytes → α → Prop} {a : α} (h : Q [] a) : Consumes (pure a) Q := by
  intro c b c' hb
  obtain ⟨rfl, rfl⟩ := pure_eq_ok.mp hb
  exact ⟨[], rfl, rfl, h⟩

theorem Consumes.throw {Q : Bytes → α → Prop} {e : CodecError} : Consumes (throw e) Q :=
  fun _ _ _ h => absurd h throw_ne_ok

/-- Two readers in turn consume what the first consumes and behind it what the second does. -/
theorem Consumes.bind {r : ByteReader α} {f : α → ByteReader β} {P : Bytes → α → Prop}
    {Q : Bytes → β → Prop} (h : r.Consumes P)
    (h' : ∀ as a, P as a → (f a).Consumes fun bs b => Q (as ++ bs) b) :
    (r >>= f).Consumes Q := by
  intro c b c' hb
  obtain ⟨a, t, ha, hf⟩ := bind_eq_ok.mp hb
  obtain ⟨as, hrest, hoffset, hP⟩ := h c a t ha
  obtain ⟨bs, hrest', hoffset', hQ⟩ := h' as a hP t b c' hf
  refine ⟨as ++ bs, ?_, ?_, hQ⟩
  · rw [hrest, hrest', List.append_assoc]
  · rw [hoffset', hoffset, List.length_append, Nat.add_assoc]

/-- A last step that only makes a value of what was read. -/
theorem Consumes.map {r : ByteReader α} {P : Bytes → α → Prop} {Q : Bytes → β → Prop} {f : α → β}
    (h : r.Consumes P) (hPQ : ∀ bs a, P bs a → Q bs (f a)) :
    Consumes (r >>= fun x => Pure.pure (f x)) Q := by
  refine h.bind fun bs a ha => Consumes.pure ?_
  rw [List.append_nil]
  exact hPQ bs a ha

theorem Consumes.insideM {r : ByteReader α} {Q : Bytes → α → Prop} (h : r.Consumes Q)
    (l : Locator) : Consumes (insideM l r) Q :=
  fun c a c' ha => h c a c' (insideM_eq_ok.mp ha)

/-- A check reads nothing, so it stands for its answer with the empty byte string. -/
theorem Consumes.lift {r : Except CodecError α} {Q : Bytes → α → Prop}
    (h : ∀ a, r = .ok a → Q [] a) : Consumes (lift r) Q := by
  intro c a c' ha
  obtain ⟨hr, rfl⟩ := lift_eq_ok.mp ha
  exact ⟨[], rfl, rfl, h a hr⟩

/-- What does not read leaves all bytes to what comes behind it. -/
theorem Consumes.lift_bind {r : Except CodecError α} {f : α → ByteReader β}
    {Q : Bytes → β → Prop} (h : ∀ a, r = .ok a → (f a).Consumes Q) :
    Consumes (CallData.lift r >>= f) Q := by
  have hlift : Consumes (CallData.lift r) fun bs a => bs = [] ∧ r = .ok a :=
    Consumes.lift fun a ha => ⟨rfl, ha⟩
  refine hlift.bind fun bs a ha => ?_
  obtain ⟨rfl, ha⟩ := ha
  exact h a ha

/-! ### Pieces of a byte string -/

/-- Bytes that are taken are those that are answered. -/
theorem take_consumes (n : Nat) : (take n).Consumes fun bs as => bs = as ∧ as.length = n := by
  intro c as c' h
  obtain ⟨hrest, hoffset, hlen⟩ := take_eq_ok h
  exact ⟨as, hrest, by rw [hoffset, hlen], rfl, hlen⟩

theorem octet_consumes : octet.Consumes fun bs b => [b] = bs := by
  refine (take_consumes 1).map fun bs as has => ?_
  obtain ⟨rfl, hlen⟩ := has
  obtain ⟨b, rfl⟩ := List.length_eq_one_iff.mp hlen
  rfl

/-- Four octets are what the number in them is written to. -/
theorem count_consumes : count.Consumes fun bs n => Bytes.ofNat 4 n = bs := by
  refine (take_consumes 4).map fun bs as has => ?_
  obtain ⟨rfl, hlen⟩ := has
  exact Bytes.ofNat_toNat hlen

/-- A frame that was read is the frame of what was read. -/
theorem framed_consumes : framed.Consumes fun bs as => Bytes.ofNat 4 as.length ++ as = bs := by
  refine count_consumes.bind fun bs n hn => (take_consumes n).mono fun bs' as has => ?_
  obtain ⟨rfl, hlen⟩ := has
  rw [hlen, hn]

/-- No other octets than those of truth values are accepted. -/
theorem bool_consumes : ByteReader.bool.Consumes fun bs b => [b.toUInt8] = bs := by
  refine octet_consumes.bind fun bs b hb => ?_
  subst hb
  split
  · exact .pure rfl
  · exact .pure rfl
  · exact .throw

/-- UTF-8 has one form for a text, so what was read is what would be written. -/
theorem text_consumes : text.Consumes fun bs s =>
    Bytes.ofNat 4 (Utf8.encode s).length ++ Utf8.encode s = bs := by
  refine framed_consumes.bind fun bs as has => ?_
  rcases hs : Utf8.decode as with fault | s
  · exact .throw
  · refine .pure ?_
    rw [Utf8.encode_of_decode_eq_ok hs, has, List.append_nil]

/-- Items in turn are as many as asked for, and what relates each to the bytes it is read from
relates all to all the bytes. -/
theorem replicateFrom_consumes {item : ByteReader α} {put : α → Bytes}
    {R : Bytes → Bytes → Prop} (hR : Bytes.Compatible R)
    (h : item.Consumes fun bs a => R (put a) bs) (n i : Nat) :
    (replicateFrom item n i).Consumes fun bs as => as.length = n ∧ R (as.flatMap put) bs := by
  induction n generalizing i with
  | zero => exact .pure ⟨rfl, hR.refl []⟩
  | succ n ih =>
    refine (h.insideM (.index i)).bind fun bs a ha => (ih (i + 1)).map fun bs' as has => ?_
    rw [List.flatMap_cons]
    exact ⟨congrArg (· + 1) has.1, hR.append ha has.2⟩

end ByteReader

end CallData
