import CallData.Proofs.Native.ViaJson
import CallData.Proofs.Text.Numeral
import Mathlib.Data.List.Infix

/-!
# Native values told apart by JSON

Two native values have the same JSON text exactly when nothing tells them apart but the strings that
JSON has in the place of others (`NativeValue.json_eq_json_iff`).

That a text is written for one native value only is shown from its front, with anything behind it.
The first character tells what kind of native value is written (`Json.kindOf`); then a word, a
string or a row in brackets ends by itself, and a number ends where something is behind it that
could not go on with it, as commas and brackets are (`Json.ToldBy`).
-/

namespace CallData

namespace Json

/-! ### Strings -/

/-- The characters that a string has escapes for. -/
def escapedChars : List Char :=
  '\x22' :: '\x5c' :: (List.range 0x20).map Char.ofNat

/-- These are the quote, the backslash and all control characters below the blank. -/
theorem mem_escapedChars {c : Char} :
    c ∈ escapedChars ↔ c = '\x22' ∨ c = '\x5c' ∨ c.toNat < 0x20 := by
  have hcontrol : c ∈ (List.range 0x20).map Char.ofNat ↔ c.toNat < 0x20 := by
    rw [List.mem_map]
    constructor
    · rintro ⟨n, hn, rfl⟩
      have hvalid : n.isValidChar := .inl (Nat.lt_trans (List.mem_range.mp hn) (by decide))
      rw [Char.ofNat, dif_pos hvalid]
      exact List.mem_range.mp hn
    · exact fun hlt => ⟨c.toNat, List.mem_range.mpr hlt, Char.ofNat_toNat c⟩
  rw [escapedChars, List.mem_cons, List.mem_cons, hcontrol]

theorem escaped_of_not_mem {c : Char} (h : c ∉ escapedChars) : escaped c = [c] := by
  rw [mem_escapedChars, not_or, not_or] at h
  obtain ⟨hquote, hbackslash, hcontrol⟩ := h
  have hne : ∀ d : Char, d.toNat < 0x20 → c ≠ d := by
    rintro d hd rfl
    exact hcontrol hd
  rw [escaped, if_neg hquote, if_neg hbackslash, if_neg (hne '\x08' (by decide)),
    if_neg (hne '\x0c' (by decide)), if_neg (hne '\n' (by decide)), if_neg (hne '\r' (by decide)),
    if_neg (hne '\t' (by decide)), if_neg hcontrol]

/-- The spelling of a character starts with a backslash where it is an escape, and with the
character itself otherwise. -/
theorem head?_escaped (c : Char) :
    (escaped c).head? = some (if c ∈ escapedChars then '\x5c' else c) := by
  by_cases h : c ∈ escapedChars
  · have hall : (escapedChars.all fun c => (escaped c).head? == some '\x5c') = true := by
      decide +kernel
    rw [if_pos h, eq_of_beq (List.all_eq_true.mp hall c h)]
  · rw [if_neg h, escaped_of_not_mem h, List.head?_cons]

/-- No spelling of a character is the start of another. -/
theorem eq_of_escaped_isPrefix {c d : Char} (h : escaped c <+: escaped d) : c = d := by
  have hhead : (if c ∈ escapedChars then '\x5c' else c) =
      if d ∈ escapedChars then '\x5c' else d := by
    obtain ⟨cs, hcs⟩ := h
    have hd := head?_escaped d
    rw [← hcs, List.head?_append, head?_escaped c, Option.some_or] at hd
    exact Option.some.inj hd
  have hbackslash : '\x5c' ∈ escapedChars := mem_escapedChars.mpr (.inr (.inl rfl))
  by_cases hc : c ∈ escapedChars
  · by_cases hd : d ∈ escapedChars
    · -- Two escapes: there are few enough of them to compare each with each.
      have hall : (escapedChars.all fun c => escapedChars.all fun d =>
          c == d || !(escaped c).isPrefixOf (escaped d)) = true := by
        decide +kernel
      have hcd := List.all_eq_true.mp (List.all_eq_true.mp hall c hc) d hd
      rw [List.isPrefixOf_iff_prefix.mpr h, Bool.not_true, Bool.or_false] at hcd
      exact eq_of_beq hcd
    · rw [if_pos hc, if_neg hd] at hhead
      exact absurd (hhead ▸ hbackslash) hd
  · by_cases hd : d ∈ escapedChars
    · rw [if_neg hc, if_pos hd] at hhead
      exact absurd (hhead ▸ hbackslash) hc
    · rwa [if_neg hc, if_neg hd] at hhead

/-- At the front of a text, the spelling of a character tells the character and where it ends. -/
theorem escaped_append_inj {c d : Char} {cs ds : List Char}
    (h : escaped c ++ cs = escaped d ++ ds) : c = d ∧ cs = ds := by
  have hcd : c = d := by
    have hd : escaped d <+: escaped c ++ cs := h ▸ List.prefix_append (escaped d) ds
    rcases List.prefix_or_prefix_of_prefix (List.prefix_append (escaped c) cs) hd with hcd | hdc
    · exact eq_of_escaped_isPrefix hcd
    · exact (eq_of_escaped_isPrefix hdc).symm
  subst hcd
  exact ⟨rfl, List.append_cancel_left h⟩

/-- No spelling of a character starts with a quote. -/
theorem quote_cons_ne_escaped_append (c : Char) (cs ds : List Char) :
    '\x22' :: cs ≠ escaped c ++ ds := by
  intro h
  have hhead := congrArg List.head? h
  rw [List.head?_append, head?_escaped c, List.head?_cons, Option.some_or,
    Option.some.injEq] at hhead
  by_cases hc : c ∈ escapedChars
  · rw [if_pos hc] at hhead
    exact absurd hhead (by decide)
  · rw [if_neg hc] at hhead
    exact hc (mem_escapedChars.mpr (.inl hhead.symm))

/-- A string ends by itself, and is the string of some characters only. -/
theorem string_append_inj {cs ds rest rest' : List Char}
    (h : string cs ++ rest = string ds ++ rest') : cs = ds ∧ rest = rest' := by
  simp only [string, List.cons_append, List.append_assoc, List.nil_append, List.cons.injEq,
    true_and] at h
  induction cs generalizing ds with
  | nil =>
    cases ds with
    | nil => exact ⟨rfl, (List.cons.inj h).2⟩
    | cons d ds =>
      rw [List.flatMap_cons, List.append_assoc] at h
      exact absurd h (quote_cons_ne_escaped_append d _ _)
  | cons c cs ih =>
    rw [List.flatMap_cons, List.append_assoc] at h
    cases ds with
    | nil => exact absurd h.symm (quote_cons_ne_escaped_append c _ _)
    | cons d ds =>
      rw [List.flatMap_cons, List.append_assoc] at h
      obtain ⟨rfl, hrest⟩ := escaped_append_inj h
      obtain ⟨rfl, rfl⟩ := ih hrest
      exact ⟨rfl, rfl⟩

/-! ### Rows -/

/-- Of the things with some property, only `a` has what is written for `a` at the front of a text,
and it ends there, if nothing behind it could go on with a numeral. -/
def ToldBy {α : Type} (write : α → List Char) (P : α → Prop) (a : α) : Prop :=
  ∀ b, P b → ∀ rest rest', Text.EndsNumeral rest → Text.EndsNumeral rest' →
    write a ++ rest = write b ++ rest' → a = b ∧ rest = rest'

/-- What is behind a piece of a row: the others, each behind a comma, and the bracket that closes
the row. -/
def behind (close : Char) (rest : List Char) : List (List Char) → List Char
  | [] => close :: rest
  | p :: ps => ',' :: (p ++ behind close rest ps)

/-- A row that is not empty is its first piece, with the others behind it up to the bracket. -/
theorem join_cons_append (close : Char) (rest p : List Char) (ps : List (List Char)) :
    Text.join [','] (p :: ps) ++ close :: rest = p ++ behind close rest ps := by
  induction ps generalizing p with
  | nil => rw [Text.join, List.intercalate_singleton, behind]
  | cons q ps ih =>
    rw [Text.join, List.intercalate_cons_cons, ← Text.join, List.append_assoc, List.append_assoc,
      ih, behind, List.singleton_append]

section Rows

variable {α : Type} {write : α → List Char} {P : α → Prop} {close : Char} {as bs : List α}
  {rest rest' : List Char}

/-- What is behind a piece of a row starts with a comma or a bracket, and neither could go on with a
numeral. -/
theorem endsNumeral_behind (hclose : Text.isNumeral close = false) (rest : List Char)
    (ps : List (List Char)) : Text.EndsNumeral (behind close rest ps) := by
  cases ps with
  | nil => exact Text.endsNumeral_cons hclose rest
  | cons p ps => exact Text.endsNumeral_cons (by decide) _

/-- What is behind a piece of a row is told from its front: the comma or the bracket says whether
the row goes on. -/
theorem behind_inj (hclose : Text.isNumeral close = false) (hcomma : close ≠ ',')
    (has : ∀ a ∈ as, ToldBy write P a) (hbs : ∀ b ∈ bs, P b)
    (h : behind close rest (as.map write) = behind close rest' (bs.map write)) :
    as = bs ∧ rest = rest' := by
  induction as generalizing bs with
  | nil =>
    cases bs with
    | nil => exact ⟨rfl, (List.cons.inj h).2⟩
    | cons b bs => exact absurd (List.cons.inj h).1 hcomma
  | cons a as ih =>
    cases bs with
    | nil => exact absurd (List.cons.inj h).1.symm hcomma
    | cons b bs =>
      rw [List.forall_mem_cons] at has hbs
      obtain ⟨rfl, hrest⟩ := has.1 b hbs.1 _ _ (endsNumeral_behind hclose _ _)
        (endsNumeral_behind hclose _ _) (List.cons.inj h).2
      obtain ⟨rfl, rfl⟩ := ih has.2 hbs.2 hrest
      exact ⟨rfl, rfl⟩

/-- A row in brackets ends by itself, and is the row of some things only, if these are told by what
is written for them and the closing bracket is not the first character of any. -/
theorem row_append_inj (hclose : Text.isNumeral close = false) (hcomma : close ≠ ',')
    (hopen : ∀ a, P a → ∃ c cs, write a = c :: cs ∧ c ≠ close)
    (has : ∀ a ∈ as, P a ∧ ToldBy write P a) (hbs : ∀ b ∈ bs, P b)
    (h : Text.join [','] (as.map write) ++ close :: rest =
      Text.join [','] (bs.map write) ++ close :: rest') : as = bs ∧ rest = rest' := by
  have hclosed : ∀ {a cs ds}, P a → close :: cs ≠ write a ++ ds := by
    intro a cs ds ha heq
    obtain ⟨c, _, hwrite, hne⟩ := hopen a ha
    rw [hwrite] at heq
    exact hne (List.cons.inj heq).1.symm
  cases as with
  | nil =>
    cases bs with
    | nil => exact ⟨rfl, (List.cons.inj h).2⟩
    | cons b bs =>
      rw [List.map_cons, join_cons_append] at h
      exact absurd h (hclosed (List.forall_mem_cons.mp hbs).1)
  | cons a as =>
    rw [List.forall_mem_cons] at has
    rw [List.map_cons, join_cons_append] at h
    cases bs with
    | nil => exact absurd h.symm (hclosed has.1.1)
    | cons b bs =>
      rw [List.forall_mem_cons] at hbs
      rw [List.map_cons, join_cons_append] at h
      obtain ⟨rfl, hrest⟩ := has.1.2 b hbs.1 _ _ (endsNumeral_behind hclose _ _)
        (endsNumeral_behind hclose _ _) h
      obtain ⟨rfl, rfl⟩ := behind_inj hclose hcomma (fun a ha => (has.2 a ha).2) hbs.2 hrest
      exact ⟨rfl, rfl⟩

end Rows

/-- A field is told by its name and its value. -/
theorem toldBy_field {f : Field NativeValue} (h : ToldBy chars NativeValue.IsJson f.value) :
    ToldBy field (fun f => f.value.IsJson) f := by
  intro g hg rest rest' hrest hrest' heq
  rw [field, field, List.append_assoc, List.append_assoc] at heq
  obtain ⟨hname, hbehind⟩ := string_append_inj heq
  obtain ⟨hvalue, rfl⟩ := h g.value hg rest rest' hrest hrest' (List.cons.inj hbehind).2
  obtain ⟨name, n⟩ := f
  obtain rfl : name = g.name := String.toList_inj.mp hname
  exact ⟨congrArg (Field.mk g.name) hvalue, rfl⟩

/-! ### Native values -/

/-- The kind of native value, in words, that is written with a character at the front. -/
def kindOf (c : Char) : Option String :=
  if Text.isNumeral c then some "integer"
  else if c = '\x22' then some "string"
  else if c = '[' then some "sequence"
  else if c = '\x7b' then some "record"
  else if c = 'n' then some "null"
  else if c = 't' ∨ c = 'f' then some "bool"
  else none

end Json

namespace NativeValue.IsJson

open Json

variable {n : NativeValue}

/-- Something is written for every native value, and its first character tells the kind. -/
theorem exists_chars_eq_cons (h : n.IsJson) :
    ∃ c cs, chars n = c :: cs ∧ kindOf c = some n.kindName := by
  cases h with
  | null => exact ⟨'n', _, rfl, rfl⟩
  | bool b =>
    cases b with
    | false => exact ⟨'f', _, rfl, rfl⟩
    | true => exact ⟨'t', _, rfl, rfl⟩
  | @int i hi =>
    obtain ⟨c, cs, hcons, hc⟩ := Text.exists_toString_eq_cons i
    exact ⟨c, cs, by rw [chars, integer_of_bounds hi, hcons], if_pos hc⟩
  | str s => exact ⟨'\x22', _, by rw [chars, string, List.cons_append], rfl⟩
  | seq _ => exact ⟨'[', _, by rw [chars, List.cons_append], rfl⟩
  | record _ => exact ⟨'\x7b', _, by rw [chars, List.cons_append], rfl⟩

/-- Native values of different kinds are told by the first character. -/
theorem toldBy_chars_of_kind (h : n.IsJson)
    (hkind : ToldBy chars (fun m => m.IsJson ∧ n.kindName = m.kindName) n) :
    ToldBy chars IsJson n := by
  intro m hm rest rest' hrest hrest' heq
  refine hkind m ⟨hm, ?_⟩ rest rest' hrest hrest' heq
  obtain ⟨c, cs, hn, hc⟩ := h.exists_chars_eq_cons
  obtain ⟨d, ds, hm, hd⟩ := hm.exists_chars_eq_cons
  rw [hn, hm] at heq
  rw [(List.cons.inj heq).1, hd] at hc
  exact (Option.some.inj hc).symm

theorem toldBy_null : ToldBy chars IsJson .null := by
  refine toldBy_chars_of_kind .null ?_
  rintro m ⟨hm, hkind⟩ rest rest' - - heq
  cases hm with
  | null => exact ⟨rfl, List.append_cancel_left heq⟩
  | _ => simp [kindName] at hkind

theorem toldBy_bool (b : Bool) : ToldBy chars IsJson (.bool b) := by
  refine toldBy_chars_of_kind (.bool b) ?_
  rintro m ⟨hm, hkind⟩ rest rest' - - heq
  cases hm with
  | bool b' =>
    -- The first characters of the two words differ.
    have hb : b = b' := by
      cases b <;> cases b' <;> simp [chars] at heq ⊢
    subst hb
    exact ⟨rfl, List.append_cancel_left heq⟩
  | _ => simp [kindName] at hkind

/-- Of all values, numbers alone need to know what is behind them. -/
theorem toldBy_int {i : Int} (hi : -2 ^ 63 ≤ i ∧ i < 2 ^ 64) : ToldBy chars IsJson (.int i) := by
  refine toldBy_chars_of_kind (.int hi) ?_
  rintro m ⟨hm, hkind⟩ rest rest' hrest hrest' heq
  cases hm with
  | @int j hj =>
    rw [chars, chars, integer_of_bounds hi, integer_of_bounds hj] at heq
    obtain ⟨rfl, rfl⟩ := Text.numeral_append_inj hrest hrest' heq
    exact ⟨rfl, rfl⟩
  | _ => simp [kindName] at hkind

theorem toldBy_str (s : String) : ToldBy chars IsJson (.str s) := by
  refine toldBy_chars_of_kind (.str s) ?_
  rintro m ⟨hm, hkind⟩ rest rest' - - heq
  cases hm with
  | str s' =>
    rw [chars, chars] at heq
    obtain ⟨hs, rfl⟩ := string_append_inj heq
    exact ⟨congrArg NativeValue.str (String.toList_inj.mp hs), rfl⟩
  | _ => simp [kindName] at hkind

/-- A sequence is told if its items are. The closing bracket is not the front of any item, so a
sequence without items is told from all others. -/
theorem toldBy_seq {items : List NativeValue}
    (h : ∀ n ∈ items, n.IsJson ∧ ToldBy chars IsJson n) : ToldBy chars IsJson (.seq items) := by
  have hopen : ∀ n : NativeValue, n.IsJson → ∃ c cs, chars n = c :: cs ∧ c ≠ ']' := by
    intro n hn
    obtain ⟨c, cs, hcons, hc⟩ := hn.exists_chars_eq_cons
    refine ⟨c, cs, hcons, ?_⟩
    rintro rfl
    cases hc
  refine toldBy_chars_of_kind (.seq fun n hn => (h n hn).1) ?_
  rintro m ⟨hm, hkind⟩ rest rest' - - heq
  cases hm with
  | seq hitems =>
    rw [chars_seq_append, chars_seq_append] at heq
    obtain ⟨rfl, rfl⟩ := row_append_inj (by decide) (by decide) hopen h hitems
      (List.cons.inj heq).2
    exact ⟨rfl, rfl⟩
  | _ => simp [kindName] at hkind

/-- A record is told if the values of its fields are: the quote in front of a name tells a field
from the closing brace. -/
theorem toldBy_record {fields : List (Field NativeValue)}
    (h : ∀ f ∈ fields, f.value.IsJson ∧ ToldBy chars IsJson f.value) :
    ToldBy chars IsJson (.record ⟨fields⟩) := by
  refine toldBy_chars_of_kind (.record fun f hf => (h f hf).1) ?_
  rintro m ⟨hm, hkind⟩ rest rest' - - heq
  cases hm with
  | record hfields =>
    rw [chars_record_append, chars_record_append] at heq
    obtain ⟨rfl, rfl⟩ := row_append_inj (by decide) (by decide)
      (fun f _ => ⟨'\x22', _, rfl, by decide⟩)
      (fun f hf => ⟨(h f hf).1, toldBy_field (h f hf).2⟩) hfields (List.cons.inj heq).2
    exact ⟨rfl, rfl⟩
  | _ => simp [kindName] at hkind

/-- A native value with nothing to be replaced is told by what is written for it. -/
theorem toldBy_chars (h : n.IsJson) : ToldBy chars IsJson n := by
  induction h with
  | null => exact toldBy_null
  | bool b => exact toldBy_bool b
  | int hi => exact toldBy_int hi
  | str s => exact toldBy_str s
  | seq hitems ih => exact toldBy_seq fun n hn => ⟨hitems n hn, ih n hn⟩
  | record hfields ih => exact toldBy_record fun f hf => ⟨hfields f hf, ih f hf⟩

end NativeValue.IsJson

namespace NativeValue

/-- Native values have the same JSON text exactly when they are the same but for what JSON writes as
strings: integers that are no 64-bit numbers, decimals, and bytes. -/
theorem json_eq_json_iff (n m : NativeValue) : n.json = m.json ↔ n.viaJson = m.viaJson := by
  rw [json, json, String.ofList_inj, ← Json.chars_viaJson n, ← Json.chars_viaJson m]
  refine ⟨fun h => ?_, congrArg Json.chars⟩
  have hend : Text.EndsNumeral [] := fun c hc => by cases hc
  exact ((isJson_viaJson n).toldBy_chars m.viaJson (isJson_viaJson m) [] [] hend hend
    (congrArg (· ++ []) h)).1

/-- An integer beyond the numbers has the text of the string of its numeral, as decimals and bytes
have that of their strings; a number is no string. -/
example : json (.seq [.int 18446744073709551616, .decimal ⟨50, 2⟩, .bytes [0xab]]) =
      json (.seq [.str "18446744073709551616", .str "0.50", .str "ab"]) ∧
    json (.int 18446744073709551615) ≠ json (.str "18446744073709551615") := by
  decide +kernel

end NativeValue

end CallData
