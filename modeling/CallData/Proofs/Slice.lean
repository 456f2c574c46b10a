import CallData.Bytes.Slice
import CallData.Proofs.Composition
import CallData.Proofs.Reading

/-!
# Slices are read once, in order

Whatever is asked of a slice, it answers with the bytes that come next, as many as were asked for,
or it says that fewer are left and stays where it is (`Slice.Call.step_of_le`,
`Slice.Call.step_of_lt`). So any calls in turn take the bytes in front of the place that they lead
to, each of them once (`Slice.run_spec`, `Slice.reads_in_order`). A reader that sees only the bytes
still to be read does the same on a slice as the call that it stands for
(`Slice.Call.step_eq_ofReader`).
-/

namespace CallData

namespace Slice

variable {s : Slice} {n : Nat}

/-! ### Further on -/

/-- The next `n` bytes. -/
def next (s : Slice) (n : Nat) : Bytes :=
  (s.buffer.drop s.offset).take n

/-- The same slice with `n` more bytes read. -/
def moved (s : Slice) (n : Nat) : Slice :=
  ⟨s.buffer, s.offset + n⟩

theorem next_zero (s : Slice) : s.next 0 = [] :=
  List.take_zero

theorem moved_zero (s : Slice) : s.moved 0 = s :=
  rfl

/-- As many bytes come next as are asked for, if they are there. -/
theorem length_next (h : n ≤ s.remainder) : (s.next n).length = n := by
  rw [next, List.length_take, List.length_drop]
  exact Nat.min_eq_left h

theorem next_remainder (s : Slice) : s.next s.remainder = s.buffer.drop s.offset :=
  List.take_of_length_le (by rw [List.length_drop]; rfl)

/-- What comes next, and then what comes next behind it. -/
theorem next_append_next (s : Slice) (m n : Nat) :
    s.next m ++ (s.moved m).next n = s.next (m + n) := by
  rw [next, next, next, List.take_add, List.drop_drop]
  rfl

theorem moved_moved (s : Slice) (m n : Nat) : (s.moved m).moved n = s.moved (m + n) := by
  rw [moved, moved, moved, Nat.add_assoc]

theorem remainder_moved (s : Slice) (n : Nat) : (s.moved n).remainder = s.remainder - n :=
  Nat.sub_add_eq _ _ _

theorem isExhausted_iff : s.isExhausted = true ↔ s.remainder = 0 :=
  beq_iff_eq

/-! ### Calls -/

/-- What may be asked of a slice. -/
inductive Call where
  | consume (n : Nat)
  | copy (n : Nat)
  | array (n : Nat)
  | octet
  | count
  | bool
  | rest

/-- What a call is answered with. -/
inductive Answer where
  | bytes (bs : Bytes)
  | octet (b : UInt8)
  | count (n : Nat)
  | bool (b : Bool)

/-- The bytes that an answer is made of. -/
def Answer.toBytes : Answer → Bytes
  | bytes bs => bs
  | octet b => [b]
  | count n => Bytes.ofNat 4 n
  | bool b => [b.toUInt8]

namespace Call

/-- The step on the slice that a call takes. -/
def step : Call → SliceReader Answer
  | consume n => do return .bytes (← SliceReader.consume n)
  | copy n => do return .bytes (← SliceReader.copy n)
  | array n => do return .bytes (← SliceReader.array n)
  | octet => do return .octet (← SliceReader.octet)
  | count => do return .count (← SliceReader.count)
  | bool => do return .bool (← SliceReader.bool)
  | rest => do return .bytes (← SliceReader.takeRest)

/-- The number of bytes that a call asks for. -/
def requested (s : Slice) : Call → Nat
  | consume n => n
  | copy n => n
  | array n => n
  | octet => 1
  | count => 4
  | bool => 1
  | rest => s.remainder

/-- A call is answered with the next bytes, as many as it asks for. -/
def Reads (call : Call) (s : Slice) : Prop :=
  ∃ a, call.step s = .ok a (s.moved (call.requested s)) ∧ a.toBytes = s.next (call.requested s)

/-- The next byte is asked for as a truth value and is none. -/
def Refuses (call : Call) (s : Slice) : Prop :=
  call = .bool ∧ ∃ b, s.next 1 = [b] ∧ b ≠ 0 ∧ b ≠ 1 ∧
    call.step s = .error (.of (.invalidBool b)) (s.moved 1)

end Call

/-! ### Single steps -/

/-- Bytes are cut out of the buffer at the offset, so they are those that come next. -/
theorem consume_of_le (h : n ≤ s.remainder) :
    SliceReader.consume n s = .ok (s.next n) (s.moved n) := by
  rw [SliceReader.consume, if_neg (Nat.not_lt.mpr h), List.extract_eq_take_drop,
    Nat.add_sub_cancel_left]
  rfl

theorem consume_of_lt (h : s.remainder < n) :
    SliceReader.consume n s = .error (.of (.unexpectedEnd s.offset n s.remainder)) s :=
  if_pos h

theorem exists_next_eq_singleton (h : 1 ≤ s.remainder) : ∃ b, s.next 1 = [b] :=
  List.length_eq_one_iff.mp (length_next h)

theorem octet_eq {b : UInt8} (h : 1 ≤ s.remainder) (hb : s.next 1 = [b]) :
    SliceReader.octet s = .ok b (s.moved 1) := by
  refine (bind_of_ok (consume_of_le h)).trans ?_
  rw [hb]
  rfl

/-- To read the rest cannot fail: no more is asked for than is left. -/
theorem takeRest_eq (s : Slice) :
    SliceReader.takeRest s = .ok (s.next s.remainder) (s.moved s.remainder) := by
  have hcopy : SliceReader.copy s.remainder s = _ := consume_of_le le_rfl
  rw [SliceReader.takeRest, hcopy]

/-- A byte that is no truth value has been passed over when it is refused. -/
theorem bool_of_ne {b : UInt8} (h : 1 ≤ s.remainder) (hb : s.next 1 = [b]) (h0 : b ≠ 0)
    (h1 : b ≠ 1) :
    SliceReader.bool s = .error (.of (.invalidBool b)) (s.moved 1) := by
  refine (bind_of_ok (octet_eq h hb)).trans ?_
  split
  · exact absurd rfl h0
  · exact absurd rfl h1
  · rfl

namespace Call

/-- The next byte is a truth value, or it is refused. -/
theorem bool_step (h : 1 ≤ s.remainder) : Reads .bool s ∨ Refuses .bool s := by
  obtain ⟨b, hb⟩ := exists_next_eq_singleton h
  have hoctet := octet_eq h hb
  by_cases h0 : b = 0
  · subst h0
    exact .inl ⟨.bool false, bind_of_ok (bind_of_ok hoctet), hb.symm⟩
  by_cases h1 : b = 1
  · subst h1
    exact .inl ⟨.bool true, bind_of_ok (bind_of_ok hoctet), hb.symm⟩
  · exact .inr ⟨rfl, b, hb, h0, h1, bind_of_error (bool_of_ne h hb h0 h1)⟩

/-- What is asked for is read where as much is left. -/
theorem step_of_le (call : Call) (h : call.requested s ≤ s.remainder) :
    call.Reads s ∨ call.Refuses s := by
  cases call with
  | consume n => exact .inl ⟨_, bind_of_ok (consume_of_le h), rfl⟩
  | copy n => exact .inl ⟨_, bind_of_ok (consume_of_le h), rfl⟩
  | array n => exact .inl ⟨_, bind_of_ok (consume_of_le h), rfl⟩
  | octet =>
    obtain ⟨b, hb⟩ := exists_next_eq_singleton h
    exact .inl ⟨_, bind_of_ok (octet_eq h hb), hb.symm⟩
  | count =>
    refine .inl ⟨_, bind_of_ok (bind_of_ok (consume_of_le h)), ?_⟩
    exact Bytes.ofNat_toNat (length_next h)
  | bool => exact bool_step h
  | rest => exact .inl ⟨_, bind_of_ok (takeRest_eq s), rfl⟩

/-- Where less is left, nothing happens, and the error says what was missing where. -/
theorem step_of_lt (call : Call) (h : s.remainder < call.requested s) : call.step s =
    .error (.of (.unexpectedEnd s.offset (call.requested s) s.remainder)) s := by
  cases call with
  | consume n => exact bind_of_error (consume_of_lt h)
  | copy n => exact bind_of_error (consume_of_lt h)
  | array n => exact bind_of_error (consume_of_lt h)
  | octet => exact bind_of_error (bind_of_error (consume_of_lt h))
  | count => exact bind_of_error (bind_of_error (consume_of_lt h))
  | bool => exact bind_of_error (bind_of_error (bind_of_error (consume_of_lt h)))
  | rest => exact absurd h (Nat.lt_irrefl _)

end Call

/-! ### Calls in turn -/

/-- The bytes that an error is about, which were read before it was noticed. -/
def refused (e : CodecError) : Bytes :=
  match e.cause with
  | .invalidBool b => [b]
  | _ => []

/-- The bytes that a call takes, whether it succeeds or fails, and the slice behind it. -/
def Call.run (call : Call) (s : Slice) : Bytes × Slice :=
  match call.step s with
  | .ok a t => (a.toBytes, t)
  | .error e t => (refused e, t)

/-- The bytes that calls take in turn, and the slice behind them. -/
def run (s : Slice) : List Call → Bytes × Slice
  | [] => ([], s)
  | call :: calls =>
    let (bs, t) := call.run s
    let (bs', t') := run t calls
    (bs ++ bs', t')

/-- A call takes the next bytes, and no others. -/
theorem Call.run_spec (call : Call) (s : Slice) :
    ∃ n, n ≤ s.remainder ∧ call.run s = (s.next n, s.moved n) := by
  rcases Nat.lt_or_ge s.remainder (call.requested s) with hless | hle
  · refine ⟨0, Nat.zero_le _, ?_⟩
    rw [run, call.step_of_lt hless, next_zero, moved_zero]
    rfl
  refine ⟨call.requested s, hle, ?_⟩
  rcases call.step_of_le hle with ⟨a, hstep, hbytes⟩ | ⟨rfl, b, hb, -, -, hstep⟩
  · rw [run, hstep, ← hbytes]
  · rw [run, hstep, requested, hb]
    rfl

/-- Calls in turn take the next bytes, and no others. -/
theorem run_spec (calls : List Call) (s : Slice) :
    ∃ n, n ≤ s.remainder ∧ run s calls = (s.next n, s.moved n) := by
  induction calls generalizing s with
  | nil => exact ⟨0, Nat.zero_le _, rfl⟩
  | cons call calls ih =>
    obtain ⟨m, hm, hcall⟩ := call.run_spec s
    obtain ⟨n, hn, hcalls⟩ := ih (s.moved m)
    rw [remainder_moved] at hn
    refine ⟨m + n, by omega, ?_⟩
    rw [run, hcall]
    dsimp only
    rw [hcalls, moved_moved, next_append_next]

end Slice

/-! ### Readers of bytes -/

namespace ByteReader

variable {α β : Type} {r : ByteReader α}

/-- What a reader leaves behind is the same slice, seen from another offset. -/
def StaysIn (r : ByteReader α) : Prop :=
  ∀ (s : Slice) (a : α) (c : Cursor), r s.cursor = .ok a c → c = Slice.cursor ⟨s.buffer, c.offset⟩

/-- Taking bytes leaves the offset at the end of them and the rest of the buffer behind it. -/
theorem take_staysIn (n : Nat) : (take n).StaysIn := by
  intro s bs c h
  rw [take] at h
  by_cases hn : n ≤ s.cursor.remaining
  · rw [if_pos hn] at h
    cases h
    rw [Slice.cursor, Slice.cursor, List.drop_drop]
  · rw [if_neg hn] at h
    cases h

/-- Two readers in turn leave the same slice behind if each of them does. -/
theorem StaysIn.bind {f : α → ByteReader β} (h : r.StaysIn) (h' : ∀ a, (f a).StaysIn) :
    (r >>= f).StaysIn := by
  intro s b c hb
  obtain ⟨a, t, ha, hf⟩ := bind_eq_ok.mp hb
  rw [h s a t ha] at hf
  exact h' a ⟨s.buffer, t.offset⟩ b c hf

/-- The reader that takes all there is leaves the end of the buffer behind. -/
theorem takeRest_staysIn : takeRest.StaysIn := by
  intro s bs c h
  cases h
  have hend : s.buffer.length ≤ s.offset + (s.buffer.drop s.offset).length := by
    rw [List.length_drop]
    omega
  exact congrArg (Cursor.mk _) (List.drop_eq_nil_of_le hend).symm

/-- Taking bytes leaves the same slice behind, and so does whatever is made of it. -/
theorem staysIn_compositional : Compositional StaysIn where
  take := take_staysIn
  pure a s b c h := by
    rw [(pure_eq_ok.mp h).2]
    rfl
  throw _ _ _ _ h := absurd h throw_ne_ok
  bind := .bind
  insideM h _ s a c ha := h s a c (insideM_eq_ok.mp ha)

end ByteReader

namespace SliceReader

variable {α β : Type} {r : ByteReader α}

/-- To take bytes is what a slice does when it is asked for them, and it fails in the same way. -/
theorem ofReader_take (n : Nat) : ofReader (.take n) = consume n := by
  funext s
  have hremaining : s.cursor.remaining = s.remainder := List.length_drop
  rcases Nat.lt_or_ge s.remainder n with h | h
  · have htake : ByteReader.take n s.cursor = _ := if_neg (Nat.not_le.mpr (hremaining ▸ h))
    rw [Slice.consume_of_lt h, ofReader, htake, hremaining]
    rfl
  · have htake : ByteReader.take n s.cursor = _ := if_pos (hremaining ▸ h)
    rw [Slice.consume_of_le h, ofReader, htake]
    rfl

/-- An answer on what is left of a slice is one on the slice, with the offset moved on. -/
theorem ofReader_of_ok {s : Slice} {a : α} {c : Cursor} (h : r s.cursor = .ok a c) :
    ofReader r s = .ok a ⟨s.buffer, c.offset⟩ := by
  rw [ofReader, h]

/-- An error on what is left of a slice is one on the slice, with the offset where it was noticed.
-/
theorem ofReader_of_error {s : Slice} {e : CodecError} {c : Cursor} (h : r s.cursor = .error e c) :
    ofReader r s = .error e ⟨s.buffer, c.offset⟩ := by
  rw [ofReader, h]

/-- Two readers in turn run on a slice one behind the other. -/
theorem ofReader_bind (h : r.StaysIn) (f : α → ByteReader β) :
    ofReader (r >>= f) = ofReader r >>= fun a => ofReader (f a) := by
  funext s
  rcases hread : r s.cursor with ⟨a, c⟩ | ⟨e, c⟩
  · have hchain : (r >>= f) s.cursor = f a (Slice.cursor ⟨s.buffer, c.offset⟩) := by
      rw [bind_of_ok hread, ← h s a c hread]
    rw [bind_of_ok (ofReader_of_ok hread), ofReader, hchain, ofReader]
  · rw [bind_of_error (ofReader_of_error hread), ofReader_of_error (bind_of_error hread)]

theorem ofReader_octet : ofReader .octet = octet := by
  refine (ofReader_bind (ByteReader.take_staysIn 1) _).trans ?_
  rw [ofReader_take]
  rfl

theorem ofReader_count : ofReader .count = count := by
  refine (ofReader_bind (ByteReader.take_staysIn 4) _).trans ?_
  rw [ofReader_take]
  rfl

/-- Both readers of truth values know two octets, and refuse all others with the octet in the error.
-/
theorem ofReader_bool : ofReader .bool = bool := by
  refine (ofReader_bind ByteReader.staysIn_compositional.octet _).trans ?_
  rw [ofReader_octet]
  refine congrArg (octet >>= ·) (funext fun b => ?_)
  by_cases hzero : b = 0
  · subst hzero
    rfl
  by_cases hone : b = 1
  · subst hone
    rfl
  · -- Any other byte is refused on both sides.
    simp only
    rfl

/-- A slice answers for its rest with the bytes that a cursor has in front of it. -/
theorem ofReader_takeRest : ofReader .takeRest = takeRest := by
  funext s
  rw [Slice.takeRest_eq, Slice.next_remainder]
  have hremaining : s.cursor.remaining = s.remainder := List.length_drop
  change EStateM.Result.ok _ (Slice.mk s.buffer (s.offset + s.cursor.remaining)) = _
  rw [hremaining]
  rfl

end SliceReader

namespace Slice

/-- The reader of bytes that reads what a call asks for. -/
def Call.reader : Call → ByteReader Answer
  | consume n => do return .bytes (← ByteReader.take n)
  | copy n => do return .bytes (← ByteReader.take n)
  | array n => do return .bytes (← ByteReader.take n)
  | octet => do return .octet (← ByteReader.octet)
  | count => do return .count (← ByteReader.count)
  | bool => do return .bool (← ByteReader.bool)
  | rest => do return .bytes (← ByteReader.takeRest)

/-- A call does on the slice what its reader does that sees only the bytes still to be read. -/
theorem Call.step_eq_ofReader (call : Call) : call.step = SliceReader.ofReader call.reader := by
  have hP := ByteReader.staysIn_compositional
  cases call with
  | consume n | copy n | array n =>
    refine .trans ?_ (SliceReader.ofReader_bind (hP.take n) _).symm
    rw [SliceReader.ofReader_take]
    rfl
  | octet =>
    refine .trans ?_ (SliceReader.ofReader_bind hP.octet _).symm
    rw [SliceReader.ofReader_octet]
    rfl
  | count =>
    refine .trans ?_ (SliceReader.ofReader_bind hP.count _).symm
    rw [SliceReader.ofReader_count]
    rfl
  | bool =>
    refine .trans ?_ (SliceReader.ofReader_bind hP.bool _).symm
    rw [SliceReader.ofReader_bool]
    rfl
  | rest =>
    refine .trans ?_ (SliceReader.ofReader_bind ByteReader.takeRest_staysIn _).symm
    rw [SliceReader.ofReader_takeRest]
    rfl

/-! ### A whole run -/

/-- Whatever has been called on a slice, the bytes taken are those in front of its offset, which has
not gone beyond the end; a call reads what it asks for where as much is left, only a byte that is no
truth value being taken without an answer, and does nothing where less is left; and asking for the
rest leaves nothing behind. -/
theorem reads_in_order {buf bs : Bytes} {calls : List Call} {s : Slice}
    (h : run (start buf) calls = (bs, s)) :
    s.buffer = buf ∧ s.offset ≤ s.viewLength ∧
      s.remainder + s.offset = s.viewLength ∧ (s.isExhausted = true ↔ s.remainder = 0) ∧
      bs = buf.take s.offset ∧
      (∀ call : Call,
        (call.requested s ≤ s.remainder → call.Reads s ∨ call.Refuses s) ∧
        (s.remainder < call.requested s → call.step s =
          .error (.of (.unexpectedEnd s.offset (call.requested s) s.remainder)) s) ∧
        call.step s = SliceReader.ofReader call.reader s) ∧
      ∃ t, SliceReader.takeRest s = .ok (buf.drop s.offset) t ∧ t.isExhausted = true := by
  obtain ⟨n, hn, hrun⟩ := run_spec calls (start buf)
  obtain ⟨rfl, rfl⟩ := Prod.mk.inj (h.symm.trans hrun)
  have hoffset : ((start buf).moved n).offset = n := Nat.zero_add n
  have hle : n ≤ buf.length := hn
  have hin : ((start buf).moved n).offset ≤ buf.length := hoffset.le.trans hle
  have hrest := takeRest_eq ((start buf).moved n)
  rw [next_remainder] at hrest
  refine ⟨rfl, hin, Nat.sub_add_cancel hin, isExhausted_iff, ?_, fun call => ⟨call.step_of_le,
    call.step_of_lt, congrFun call.step_eq_ofReader _⟩, _, hrest, ?_⟩
  · rw [hoffset]
    rfl
  · rw [isExhausted_iff, remainder_moved, Nat.sub_self]

/-- Two bytes, three of two, a truth value that is none, and what is left. -/
theorem reads_in_order_refused_twice :
    let s := run (start [0xde, 0xad, 0x02, 0xef]) [.consume 2, .consume 3, .bool]
    s.1 = [0xde, 0xad, 0x02] ∧ s.2.remainder = 1 ∧
      ∃ t, SliceReader.takeRest s.2 = .ok [0xef] t ∧ t.isExhausted = true :=
  ⟨rfl, rfl, (reads_in_order rfl).2.2.2.2.2.2⟩

end Slice

end CallData
