import CallData.Parts
import CallData.Proofs.Outcome
import Mathlib.Data.List.Basic

/-!
# Part buffers as lists with a cursor

What is written to a part buffer and what is read from it may take turns in any way. A call either
does one thing to the row of parts or to the focus, or it fails and does nothing
(`PartBuffer.Call.outcome`). So whatever is done, the parts that were there are still there, with
nothing but more bytes at the end of the last (`PartBuffer.GrowsTo`), and the focus is on a part, or
one place beyond the last, where reading fails until another part is appended
(`PartBuffer.row_and_focus`).
-/

namespace CallData

/-! ### What steps leave behind -/

namespace PartStep

variable {α : Type} {r : PartStep α} {b b' : PartBuffer}

/-- The buffer after a step, whether it succeeded or failed. -/
def after (r : PartStep α) (b : PartBuffer) : PartBuffer :=
  match r b with
  | .ok _ b' => b'
  | .error _ b' => b'

theorem after_of_ok {a : α} (h : r b = .ok a b') : after r b = b' := by
  rw [after, h]

theorem after_of_error {e : CodecError} (h : r b = .error e b') : after r b = b' := by
  rw [after, h]

end PartStep

namespace PartBuffer

variable {b b' b'' : PartBuffer} {bs : Bytes}

/-! ### Writing -/

/-- Without parts, there is none to append to. -/
theorem appendToLast_of_nil (h : b.parts = []) : appendToLast bs b = .error (.of .noPart) b := by
  have hwrite : writeLast (.block bs) b = .error (.of .noPart) b := by
    rw [writeLast, h]
    rfl
  exact bind_of_error hwrite

/-- Bytes go to the end of the last part; the parts in front of it and the focus stay as they are.
-/
theorem appendToLast_of_concat {front : List Bytes} {last : Bytes} (h : b.parts = front ++ [last]) :
    appendToLast bs b = .ok () ⟨front ++ [last ++ bs], b.focused⟩ := by
  have hwrite : writeLast (.block bs) b = .ok bs.length ⟨front ++ [last ++ bs], b.focused⟩ := by
    rw [writeLast, h]
    simp only [List.getLast?_concat, List.dropLast_concat]
    rfl
  exact bind_of_ok hwrite

/-- That there is no part is all that can go wrong with writing. -/
theorem appendToLast_fails_iff : (∃ e b', appendToLast bs b = .error e b') ↔ b.size = 0 := by
  rw [size, List.length_eq_zero_iff]
  constructor
  · rintro ⟨e, b', he⟩
    rcases List.eq_nil_or_concat' b.parts with hnil | ⟨front, last, hparts⟩
    · exact hnil
    · rw [appendToLast_of_concat hparts] at he
      cases he
  · exact fun hnil => ⟨_, _, appendToLast_of_nil hnil⟩

/-! ### Reading -/

theorem isAtEnd_eq_true_iff : b.isAtEnd = true ↔ b.size ≤ b.focused :=
  decide_eq_true_iff

theorem focusedPart_of_lt (h : b.focused < b.size) :
    focusedPart b = .ok (b.parts.get ⟨b.focused, h⟩) b := by
  rw [focusedPart, List.getElem?_eq_getElem h]
  rfl

theorem focusedPart_of_le (h : b.size ≤ b.focused) : focusedPart b = .error b.pastEnd b := by
  rw [focusedPart, List.getElem?_eq_none h]

theorem focusNext_of_lt (h : b.focused < b.size) :
    focusNext b = .ok () ⟨b.parts, b.focused + 1⟩ :=
  if_neg (mt isAtEnd_eq_true_iff.mp (Nat.not_le.mpr h))

/-- The focus does not move further than one place beyond the last part. -/
theorem focusNext_of_le (h : b.size ≤ b.focused) : focusNext b = .error b.pastEnd b :=
  if_pos (isAtEnd_eq_true_iff.mpr h)

theorem remaining_eq_zero_iff : b.remaining = 0 ↔ b.size ≤ b.focused :=
  Nat.sub_eq_zero_iff_le

theorem checkAtEnd_eq_ok_iff_remaining : b.checkAtEnd = .ok () ↔ b.remaining = 0 := by
  rw [checkAtEnd]
  match b.remaining with
  | 0 => exact iff_of_true rfl rfl
  | n + 1 => exact iff_of_false fail_ne_ok n.succ_ne_zero

/-- What has not been read is told by the number of parts. -/
theorem checkAtEnd_eq_error_iff {e : CodecError} : b.checkAtEnd = .error e ↔
    b.focused < b.size ∧ e = ⟨[], .unconsumed (.parts (b.size - b.focused))⟩ := by
  have hremaining : b.size - b.focused = b.remaining := rfl
  rw [← Nat.sub_pos_iff_lt, hremaining, checkAtEnd]
  cases b.remaining with
  | zero =>
    constructor
    · intro h
      cases h
    · intro h
      exact absurd h.1 (lt_irrefl 0)
  | succ n =>
    rw [and_iff_right n.succ_pos]
    constructor
    · intro h
      cases h
      rfl
    · rintro rfl
      rfl

/-! ### Calls -/

/-- What may be asked of a part buffer. -/
inductive Call where
  | appendEmpty
  | append (bs : Bytes)
  | read
  | next
  | finish

namespace Call

/-- The step that a call takes. -/
def step : Call → PartStep Unit
  | appendEmpty => PartBuffer.appendEmpty
  | append bs => appendToLast bs
  | read => do let _ ← focusedPart
  | next => focusNext
  | finish => do lift (← get).checkAtEnd

/-- What a call does where it succeeds. -/
inductive Does : Call → PartBuffer → PartBuffer → Prop
  | appendEmpty (b : PartBuffer) : Does .appendEmpty b ⟨b.parts ++ [[]], b.focused⟩
  | append (front : List Bytes) (last bs : Bytes) (focused : Nat) :
    Does (.append bs) ⟨front ++ [last], focused⟩ ⟨front ++ [last ++ bs], focused⟩
  | read {b : PartBuffer} (h : b.focused < b.size) : Does .read b b
  | next {b : PartBuffer} (h : b.focused < b.size) : Does .next b ⟨b.parts, b.focused + 1⟩
  | finish {b : PartBuffer} (h : b.size ≤ b.focused) : Does .finish b b

/-- A call does what it is for, or it fails and does nothing. -/
theorem outcome (call : Call) (b : PartBuffer) :
    (∃ b', call.step b = .ok () b' ∧ call.Does b b') ∨ ∃ e, call.step b = .error e b := by
  cases call with
  | appendEmpty => exact .inl ⟨_, rfl, .appendEmpty b⟩
  | append bs =>
    obtain ⟨parts, focused⟩ := b
    rcases List.eq_nil_or_concat' parts with rfl | ⟨front, last, rfl⟩
    · exact .inr ⟨_, appendToLast_of_nil rfl⟩
    · exact .inl ⟨_, appendToLast_of_concat rfl, .append front last bs focused⟩
  | read =>
    rcases Nat.lt_or_ge b.focused b.size with h | h
    · exact .inl ⟨b, bind_of_ok (focusedPart_of_lt h), .read h⟩
    · exact .inr ⟨_, bind_of_error (focusedPart_of_le h)⟩
  | next =>
    rcases Nat.lt_or_ge b.focused b.size with h | h
    · exact .inl ⟨_, focusNext_of_lt h, .next h⟩
    · exact .inr ⟨_, focusNext_of_le h⟩
  | finish =>
    rcases Nat.lt_or_ge b.focused b.size with h | h
    · have hleft := checkAtEnd_eq_error_iff.mpr ⟨h, rfl⟩
      exact .inr ⟨_, lift_eq_error.mpr ⟨hleft, rfl⟩⟩
    · have hend := checkAtEnd_eq_ok_iff_remaining.mpr (remaining_eq_zero_iff.mpr h)
      exact .inl ⟨b, lift_eq_ok.mpr ⟨hend, rfl⟩, .finish h⟩

/-- A call that succeeds has done what it is for. -/
theorem does_of_ok (call : Call) {u : Unit} (h : call.step b = .ok u b') : call.Does b b' := by
  rcases call.outcome b with ⟨t, hstep, hdoes⟩ | ⟨e, hstep⟩
  · rw [hstep] at h
    cases h
    exact hdoes
  · rw [hstep] at h
    cases h

theorem eq_of_error (call : Call) {e : CodecError} (h : call.step b = .error e b') : b' = b := by
  rcases call.outcome b with ⟨t, hstep, -⟩ | ⟨e', hstep⟩
  · rw [hstep] at h
    cases h
  · rw [hstep] at h
    cases h
    rfl

/-- The buffer after a call, whether it succeeded or failed. -/
def after (b : PartBuffer) (call : Call) : PartBuffer :=
  PartStep.after call.step b

theorem after_spec (call : Call) (b : PartBuffer) :
    call.Does b (after b call) ∨ after b call = b := by
  rcases call.outcome b with ⟨b', hstep, hdoes⟩ | ⟨e, hstep⟩
  · rw [after, PartStep.after_of_ok hstep]
    exact .inl hdoes
  · exact .inr (PartStep.after_of_error hstep)

end Call

/-! ### Rows that grow -/

/-- A buffer holds the parts of an earlier one in their places, with more bytes at most at the end
of what was the last, and its focus is no less far on. -/
structure GrowsTo (b b' : PartBuffer) : Prop where
  focused_le : b.focused ≤ b'.focused
  getElem? (i : Nat) (part : Bytes) (h : b.parts[i]? = some part) :
    ∃ more, b'.parts[i]? = some (part ++ more) ∧ (i + 1 < b.size → more = [])

/-- To move the focus on is to let a row grow by nothing. -/
theorem GrowsTo.of_parts_eq (hparts : b'.parts = b.parts) (hfocused : b.focused ≤ b'.focused) :
    b.GrowsTo b' where
  focused_le := hfocused
  getElem? i part h := ⟨[], by rw [hparts, List.append_nil, h], fun _ => rfl⟩

/-- A part that gets more bytes later has still the first of them in front. -/
theorem GrowsTo.trans (h : b.GrowsTo b') (h' : b'.GrowsTo b'') : b.GrowsTo b'' where
  focused_le := h.focused_le.trans h'.focused_le
  getElem? i part hpart := by
    obtain ⟨more, hmore, hlast⟩ := h.getElem? i part hpart
    obtain ⟨more', hmore', hlast'⟩ := h'.getElem? i _ hmore
    refine ⟨more ++ more', by rw [hmore', List.append_assoc], fun hi => ?_⟩
    -- A part that is not the last has another behind it, later on as well.
    obtain ⟨_, hnext, -⟩ := h.getElem? (i + 1) _ (List.getElem?_eq_getElem hi)
    rw [hlast hi, hlast' (List.getElem?_eq_some_iff.mp hnext).1, List.append_nil]

/-- Of all calls, only the two that write touch the row, and both at its end. -/
theorem Call.Does.growsTo {call : Call} (h : call.Does b b') : b.GrowsTo b' := by
  cases h with
  | appendEmpty =>
    refine ⟨le_rfl, fun i part hpart => ⟨[], ?_, fun _ => rfl⟩⟩
    rw [List.getElem?_append_left (List.getElem?_eq_some_iff.mp hpart).1, List.append_nil, hpart]
  | append front last bs focused =>
    refine ⟨le_rfl, fun i part hpart => ?_⟩
    rcases Nat.lt_or_ge i front.length with hi | hi
    · rw [List.getElem?_append_left hi] at hpart
      exact ⟨[], by rw [List.getElem?_append_left hi, List.append_nil, hpart], fun _ => rfl⟩
    · rw [List.getElem?_append_right hi, List.getElem?_singleton] at hpart
      obtain ⟨hzero, ⟨⟩⟩ := Option.ite_none_right_eq_some.mp hpart
      refine ⟨bs, ?_, fun hbefore => ?_⟩
      · rw [List.getElem?_append_right hi, List.getElem?_singleton, if_pos hzero]
      · rw [size, List.length_append, List.length_singleton] at hbefore
        omega
  | read => exact .of_parts_eq rfl le_rfl
  | next => exact .of_parts_eq rfl (Nat.le_succ _)
  | finish => exact .of_parts_eq rfl le_rfl

/-- A call that fails lets a row grow, too: by nothing. -/
theorem Call.after_growsTo (call : Call) (b : PartBuffer) : b.GrowsTo (after b call) := by
  rcases call.after_spec b with hdoes | hsame
  · exact hdoes.growsTo
  · rw [hsame]
    exact .of_parts_eq rfl le_rfl

/-- Whatever is done to a buffer, its parts stay in their places. -/
theorem growsTo_foldl_after (calls : List Call) (b : PartBuffer) :
    b.GrowsTo (calls.foldl Call.after b) := by
  induction calls generalizing b with
  | nil => exact .of_parts_eq rfl le_rfl
  | cons call calls ih => exact (call.after_growsTo b).trans (ih _)

/-! ### The focus -/

/-- No call moves the focus further than one place beyond the last part. -/
theorem Call.Does.focused_le {call : Call} (h : call.Does b b') (hb : b.focused ≤ b.size) :
    b'.focused ≤ b'.size := by
  cases h with
  | appendEmpty =>
    rw [size, List.length_append]
    exact Nat.le_add_right_of_le hb
  | append front last bs focused =>
    rw [size, List.length_append] at hb ⊢
    exact hb
  | read => exact hb
  | next hlt => exact hlt
  | finish => exact hb

theorem Call.focused_after_le (call : Call) (hb : b.focused ≤ b.size) :
    (after b call).focused ≤ (after b call).size := by
  rcases call.after_spec b with hdoes | hsame
  · exact hdoes.focused_le hb
  · rwa [hsame]

/-- No calls, one after the other, move the focus further than one place beyond the last part. -/
theorem focused_foldl_after_le (calls : List Call) (hb : b.focused ≤ b.size) :
    (calls.foldl Call.after b).focused ≤ (calls.foldl Call.after b).size := by
  induction calls generalizing b with
  | nil => exact hb
  | cons call calls ih => exact ih (call.focused_after_le hb)

/-- Blocks that are appended in turn make up the last part. -/
theorem foldl_append (front : List Bytes) (last : Bytes) (focused : Nat) (blocks : List Bytes) :
    (blocks.map Call.append).foldl Call.after ⟨front ++ [last], focused⟩ =
      ⟨front ++ [last ++ blocks.flatten], focused⟩ := by
  induction blocks generalizing last with
  | nil =>
    rw [List.flatten_nil, List.append_nil]
    rfl
  | cons bs blocks ih =>
    have happend : Call.after ⟨front ++ [last], focused⟩ (.append bs) =
        ⟨front ++ [last ++ bs], focused⟩ :=
      PartStep.after_of_ok (appendToLast_of_concat rfl)
    rw [List.map_cons, List.foldl_cons, happend, ih, List.flatten_cons, List.append_assoc]

/-- A row of parts with a focus, under calls that may succeed or fail in any order. The focus is on
a part or one place beyond the last, and tells how many parts are left. Whatever comes later, parts
keep their places, and all but the last their bytes, to which the last one only adds at its end. A
call that fails changes nothing: bytes are not appended where there is no part, and the focus is
neither read nor moved where no part is left, of which the error tells the place. Once all parts
are read, those bytes that are appended to a new part are what is read next, and nothing else. -/
theorem row_and_focus {start : PartBuffer} (hstart : start = empty ∨ ∃ parts, start = ofParts parts)
    {calls : List Call} {b : PartBuffer} (hb : calls.foldl Call.after start = b) :
    b.focused ≤ b.size ∧ b.remaining + b.focused = b.size ∧
    (b.isAtEnd = true ↔ b.remaining = 0) ∧ (b.checkAtEnd = .ok () ↔ b.remaining = 0) ∧
    (∀ later : List Call, b.GrowsTo (later.foldl Call.after b)) ∧
    (∀ call b', Call.step call b = .ok () b' → call.Does b b') ∧
    (∀ call e b', Call.step call b = .error e b' → b' = b) ∧
    (∀ bs, (∃ e b', appendToLast bs b = .error e b') ↔ b.size = 0) ∧
    (b.focused < b.size → ∃ part, b.parts[b.focused]? = some part ∧
      focusedPart b = .ok part b ∧ focusNext b = .ok () ⟨b.parts, b.focused + 1⟩) ∧
    (b.focused = b.size → focusedPart b = .error (.of (.unexpectedEnd b.size 1 0)) b ∧
      focusNext b = .error (.of (.unexpectedEnd b.size 1 0)) b) ∧
    (b.focused = b.size → ∀ blocks : List Bytes, ∃ b',
      (.appendEmpty :: blocks.map Call.append).foldl Call.after b = b' ∧ b'.remaining = 1 ∧
      focusedPart b' = .ok blocks.flatten b' ∧ (Call.after b' .next).isAtEnd = true) := by
  -- Everything else follows from the place of the focus, which all calls keep.
  have hle : b.focused ≤ b.size := by
    rw [← hb]
    refine focused_foldl_after_le calls ?_
    obtain rfl | ⟨parts, rfl⟩ := hstart
    · exact le_rfl
    · exact Nat.zero_le _
  refine ⟨hle, Nat.sub_add_cancel hle, ?_, checkAtEnd_eq_ok_iff_remaining,
    fun later => growsTo_foldl_after later b, fun call b' h => call.does_of_ok h,
    fun call e b' h => call.eq_of_error h, fun bs => appendToLast_fails_iff, ?_, ?_, ?_⟩
  · rw [isAtEnd_eq_true_iff, remaining_eq_zero_iff]
  · intro h
    exact ⟨_, List.getElem?_eq_getElem h, focusedPart_of_lt h, focusNext_of_lt h⟩
  · intro h
    have hpast : b.pastEnd = .of (.unexpectedEnd b.size 1 0) := by rw [pastEnd, h]
    rw [← hpast]
    exact ⟨focusedPart_of_le h.ge, focusNext_of_le h.ge⟩
  · intro h blocks
    -- The blocks make up one part, which is the last and the one in focus.
    have hrow := foldl_append b.parts [] b.focused blocks
    rw [List.nil_append] at hrow
    have hfocused : b.focused = b.parts.length := h
    refine ⟨_, hrow, ?_, ?_, ?_⟩
    · rw [remaining, size, List.length_append, hfocused]
      exact Nat.add_sub_cancel_left _ 1
    · rw [focusedPart, hfocused, List.getElem?_concat_length]
    · have hlt : b.focused < (b.parts ++ [blocks.flatten]).length := by
        rw [List.length_append, hfocused]
        exact Nat.lt_add_one _
      have hnext : Call.after ⟨b.parts ++ [blocks.flatten], b.focused⟩ .next = _ :=
        PartStep.after_of_ok (focusNext_of_lt hlt)
      rw [hnext, isAtEnd_eq_true_iff, size, List.length_append, hfocused]
      exact le_rfl

/-- Two parts, the last of which grows while the first is read, and a third once both are read. -/
theorem row_and_focus_third_part :
    let b : PartBuffer := ⟨[[1], [2, 7]], 2⟩
    [Call.next, .append [7], .next, .read].foldl Call.after (ofParts [[1], [2]]) = b ∧
    b.focused = b.size ∧ focusNext b = .error (.of (.unexpectedEnd 2 1 0)) b ∧
    ∃ b', [Call.appendEmpty, .append [8], .append [9]].foldl Call.after b = b' ∧
      focusedPart b' = .ok [8, 9] b' := by
  intro b
  have hb : [Call.next, .append [7], .next, .read].foldl Call.after (ofParts [[1], [2]]) = b := rfl
  obtain ⟨-, -, -, -, -, -, -, -, -, hend, hnew⟩ := row_and_focus (.inr ⟨_, rfl⟩) hb
  obtain ⟨b', hb', -, hread, -⟩ := hnew rfl [[8], [9]]
  exact ⟨hb, rfl, (hend rfl).2, b', hb', hread⟩

end PartBuffer

end CallData
