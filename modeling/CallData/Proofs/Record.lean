import CallData.Native
import Mathlib.Data.Finset.Card

/-!
# Records as maps

A record that fields are inserted into one after the other is a map that remembers their order
(`Record.insertion_ordered`): each name is in it once, in the place of its first insertion, with the
value of its last. One insertion leaves the names as they are or adds its own behind them
(`Record.names_insert`), and gives its own name its value and no other (`Record.get?_insert`); what
a record holds after any number of them follows.
-/

namespace CallData

namespace Record

variable {α : Type} {fs calls : List (Field α)} {r : Record α} {name : String} {value : α}

/-- The names of a record, in its order. -/
def names (r : Record α) : List String :=
  r.fields.map Field.name

/-! ### One insertion -/

/-- A name that is not there yet comes to the end. -/
theorem put_of_not_mem (h : name ∉ fs.map Field.name) (value : α) :
    put name value fs = fs ++ [⟨name, value⟩] := by
  induction fs with
  | nil => rfl
  | cons f fs ih =>
    rw [List.map_cons, List.mem_cons, not_or] at h
    rw [put, if_neg (Ne.symm h.1), ih h.2, List.cons_append]

/-- A name that is there already keeps its place. -/
theorem map_name_put_of_mem (h : name ∈ fs.map Field.name) (value : α) :
    (put name value fs).map Field.name = fs.map Field.name := by
  induction fs with
  | nil => exact absurd h List.not_mem_nil
  | cons f fs ih =>
    rw [put]
    by_cases hf : f.name = name
    · rw [if_pos hf, List.map_cons, List.map_cons, hf]
    · have hmem : name ∈ fs.map Field.name := (List.mem_cons.mp h).resolve_left (Ne.symm hf)
      rw [if_neg hf, List.map_cons, List.map_cons, ih hmem]

/-- One insertion leaves the names alone, or adds its own behind them. -/
theorem names_insert (r : Record α) (name : String) (value : α) :
    (r.insert name value).names = if name ∈ r.names then r.names else r.names ++ [name] := by
  by_cases h : name ∈ r.names
  · rw [if_pos h]
    exact map_name_put_of_mem h value
  · rw [if_neg h, names, insert, put_of_not_mem h, List.map_append, List.map_singleton]
    rfl

theorem mem_names_insert {name' : String} :
    name' ∈ (r.insert name value).names ↔ name' ∈ r.names ∨ name' = name := by
  rw [names_insert]
  by_cases h : name ∈ r.names
  · rw [if_pos h]
    exact ⟨.inl, fun h' => h'.elim id fun heq => heq ▸ h⟩
  · rw [if_neg h, List.mem_append, List.mem_singleton]

/-- Inserting sets the value of its own name and of no other. -/
theorem get?_insert (r : Record α) (name : String) (value : α) (name' : String) :
    (r.insert name value).get? name' = if name' = name then some value else r.get? name' := by
  obtain ⟨fs⟩ := r
  rw [insert, get?, get?]
  induction fs with
  | nil =>
    by_cases h : name' = name
    · simp [put, h]
    · simp [put, h, Ne.symm h]
  | cons f fs ih =>
    rw [put]
    by_cases hf : f.name = name
    · by_cases h : name' = name
      · simp [hf, h]
      · simp [hf, h, Ne.symm h]
    · rw [if_neg hf]
      by_cases h : f.name = name'
      · have hne : name' ≠ name := h ▸ hf
        simp [h, hne]
      · simpa [h] using ih

/-! ### Looking up -/

/-- Under a name nothing is found exactly if the record does not have it. -/
theorem get?_eq_none_iff : r.get? name = none ↔ name ∉ r.names := by
  rw [get?, Option.map_eq_none_iff, List.find?_eq_none, names, List.mem_map]
  simp

theorem find?_name_of_mem (h : (fs.map Field.name).Nodup) {f : Field α} (hf : f ∈ fs) :
    (fs.find? fun g => g.name == f.name) = some f := by
  induction fs with
  | nil => exact absurd hf List.not_mem_nil
  | cons g fs ih =>
    rw [List.map_cons, List.nodup_cons] at h
    obtain rfl | hf := List.mem_cons.mp hf
    · exact List.find?_cons_of_pos (beq_self_eq_true f.name)
    · have hne : g.name ≠ f.name := fun heq => h.1 (heq ▸ List.mem_map_of_mem hf)
      exact (List.find?_cons_of_neg (by simpa using hne)).trans (ih h.2 hf)

/-- Where names are different, the fields are what is found by their names. -/
theorem mem_fields_iff (h : r.names.Nodup) {f : Field α} :
    f ∈ r.fields ↔ r.get? f.name = some f.value := by
  obtain ⟨name, value⟩ := f
  rw [get?, Option.map_eq_some_iff]
  constructor
  · intro hf
    exact ⟨⟨name, value⟩, find?_name_of_mem h hf, rfl⟩
  · rintro ⟨g, hg, rfl⟩
    obtain rfl : g.name = name := by simpa using List.find?_some hg
    exact List.mem_of_find?_eq_some hg

/-! ### Any number of insertions -/

/-- Records as they come about: from the empty one, by inserting fields one after the other. -/
inductive Inserted : List (Field α) → Record α → Prop where
  | empty : Inserted [] empty
  | insert {calls : List (Field α)} {r : Record α} (h : Inserted calls r) (f : Field α) :
    Inserted (calls ++ [f]) (r.insert f.name f.value)

/-- A field is the last of its name to be inserted. -/
def IsLast (calls : List (Field α)) (f : Field α) : Prop :=
  ∃ before after, calls = before ++ f :: after ∧ f.name ∉ after.map Field.name

/-- One more insertion is the last of its own name and changes nothing for the others. -/
theorem isLast_concat_iff {f g : Field α} :
    IsLast (calls ++ [g]) f ↔ f = g ∨ f.name ≠ g.name ∧ IsLast calls f := by
  constructor
  · rintro ⟨before, after, hcalls, hafter⟩
    rcases List.eq_nil_or_concat' after with rfl | ⟨after, g', rfl⟩
    · exact .inl (List.singleton_inj.mp (List.append_inj' hcalls rfl).2).symm
    · rw [← List.cons_append, ← List.append_assoc] at hcalls
      obtain ⟨hfront, hg⟩ := List.append_inj' hcalls rfl
      obtain rfl : g = g' := List.singleton_inj.mp hg
      rw [List.map_append, List.mem_append, not_or] at hafter
      exact .inr ⟨by simpa using hafter.2, before, after, hfront, hafter.1⟩
  · rintro (rfl | ⟨hne, before, after, rfl, hafter⟩)
    · exact ⟨calls, [], rfl, List.not_mem_nil⟩
    · refine ⟨before, after ++ [g], by simp, ?_⟩
      rw [List.map_append, List.mem_append, not_or]
      exact ⟨hafter, by simpa using hne⟩

/-- A record is made of fields by inserting them from the front. -/
theorem ofList_concat (calls : List (Field α)) (f : Field α) :
    ofList (calls ++ [f]) = (ofList calls).insert f.name f.value := by
  rw [ofList, List.foldl_append, ← ofList]
  rfl

/-- Fields that go by different names are the fields of the record made of them. -/
theorem ofList_of_nodup (h : (fs.map Field.name).Nodup) : ofList fs = ⟨fs⟩ := by
  induction fs using List.reverseRecOn with
  | nil => rfl
  | append_singleton fs f ih =>
    rw [List.map_append, List.map_singleton, List.nodup_append] at h
    have hnot : f.name ∉ fs.map Field.name := fun hmem =>
      h.2.2 _ hmem _ (List.mem_singleton_self _) rfl
    rw [ofList_concat, ih h.1]
    exact congrArg Record.mk (put_of_not_mem hnot f.value)

/-- The record that is made of fields comes about by inserting them. -/
theorem inserted_ofList (calls : List (Field α)) : Inserted calls (ofList calls) := by
  induction calls using List.reverseRecOn with
  | nil => exact .empty
  | append_singleton calls f ih =>
    rw [ofList_concat]
    exact ih.insert f

namespace Inserted

/-- Insertions make no other record than the one that is made of the same fields. -/
theorem eq_ofList (h : Inserted calls r) : r = ofList calls := by
  induction h with
  | empty => rfl
  | insert _ f ih => rw [ofList_concat, ih]

theorem mem_names_iff (h : Inserted calls r) : name ∈ r.names ↔ name ∈ calls.map Field.name := by
  induction h with
  | empty => rfl
  | insert _ f ih => rw [mem_names_insert, ih, List.map_append, List.mem_append,
      List.map_singleton, List.mem_singleton]

/-- Names are in the order of their first insertion. -/
theorem pairwise_names (h : Inserted calls r) : r.names.Pairwise fun a b =>
    (calls.map Field.name).idxOf a < (calls.map Field.name).idxOf b := by
  induction h with
  | empty => exact .nil
  | @insert calls r h f ih =>
    -- The names inserted before have the places they had.
    have hold : r.names.Pairwise fun a b => ((calls ++ [f]).map Field.name).idxOf a <
        ((calls ++ [f]).map Field.name).idxOf b := by
      refine ih.imp_of_mem fun ha hb hlt => ?_
      rwa [List.map_append, List.idxOf_append_of_mem (h.mem_names_iff.mp ha),
        List.idxOf_append_of_mem (h.mem_names_iff.mp hb)]
    rw [names_insert]
    by_cases hmem : f.name ∈ r.names
    · rwa [if_pos hmem]
    · rw [if_neg hmem, List.pairwise_append]
      refine ⟨hold, List.pairwise_singleton _ _, fun a ha b hb => ?_⟩
      obtain rfl := List.mem_singleton.mp hb
      rw [List.map_append, List.idxOf_append_of_mem (h.mem_names_iff.mp ha),
        List.idxOf_append_of_notMem (mt h.mem_names_iff.mpr hmem)]
      exact Nat.lt_add_right _ (List.idxOf_lt_length_of_mem (h.mem_names_iff.mp ha))

/-- No name is in a record twice. -/
theorem nodup_names (h : Inserted calls r) : r.names.Nodup :=
  h.pairwise_names.imp fun hlt heq => hlt.ne (by rw [heq])

/-- A name has the value that it was inserted with last. -/
theorem get?_eq_some_iff (h : Inserted calls r) :
    r.get? name = some value ↔ IsLast calls ⟨name, value⟩ := by
  induction h with
  | empty => simp [get?, Record.empty, IsLast]
  | insert _ f ih =>
    rw [get?_insert, isLast_concat_iff, ← ih]
    by_cases hname : name = f.name
    · subst hname
      cases f
      simp [eq_comm]
    · have hne : (⟨name, value⟩ : Field α) ≠ f := fun heq => hname (congrArg Field.name heq)
      simp [hname, hne]

/-- A record has as many fields as different names were inserted. -/
theorem size_eq (h : Inserted calls r) : r.size = (calls.map Field.name).toFinset.card := by
  have hnames : r.names.toFinset = (calls.map Field.name).toFinset := by
    ext name
    rw [List.mem_toFinset, List.mem_toFinset, h.mem_names_iff]
  rw [← hnames, List.toFinset_card_of_nodup h.nodup_names, names, List.length_map, size]

end Inserted

/-- A record is a map that remembers the order of insertion. Inserting fields into the empty record
one after the other makes the same record as making it of all of them, and no other. Its names are
pairwise different and in the order of their first insertion, and it has as many as there are
different ones among the insertions; its fields are the last insertions of their names, and these
are what is found by a name, unless the name was never inserted. -/
theorem insertion_ordered (calls : List (Field α)) :
    (∀ r, Inserted calls r ↔ r = ofList calls) ∧
    (ofList calls).names.Nodup ∧
    ((ofList calls).names.Pairwise fun a b =>
      (calls.map Field.name).idxOf a < (calls.map Field.name).idxOf b) ∧
    (ofList calls).size = (calls.map Field.name).toFinset.card ∧
    (∀ f, f ∈ (ofList calls).fields ↔ IsLast calls f) ∧
    (∀ name value, (ofList calls).get? name = some value ↔ IsLast calls ⟨name, value⟩) ∧
    ∀ name, (ofList calls).get? name = none ↔ name ∉ calls.map Field.name := by
  have h := inserted_ofList calls
  refine ⟨fun r => ⟨Inserted.eq_ofList, fun heq => heq ▸ h⟩, h.nodup_names, h.pairwise_names,
    h.size_eq, fun f => ?_, fun name value => h.get?_eq_some_iff, fun name => ?_⟩
  · rw [mem_fields_iff h.nodup_names, h.get?_eq_some_iff]
  · rw [get?_eq_none_iff, h.mem_names_iff]

/-- A name that is inserted again keeps its place and has the value it was inserted with last. -/
theorem insertion_ordered_overwritten :
    Inserted [⟨"urgent", .bool false⟩, ⟨"job", .int 7⟩, ⟨"urgent", .bool true⟩]
      (⟨[⟨"urgent", .bool true⟩, ⟨"job", .int 7⟩]⟩ : Record NativeValue) ∧
    IsLast [⟨"urgent", .bool false⟩, ⟨"job", .int 7⟩, ⟨"urgent", .bool true⟩]
      (⟨"urgent", .bool true⟩ : Field NativeValue) ∧
    (⟨[⟨"urgent", .bool true⟩, ⟨"job", .int 7⟩]⟩ : Record NativeValue).get? "priority" = none := by
  obtain ⟨hinserted, -, -, -, hfields, -, habsent⟩ := insertion_ordered
    ([⟨"urgent", .bool false⟩, ⟨"job", .int 7⟩, ⟨"urgent", .bool true⟩] : List (Field NativeValue))
  refine ⟨(hinserted _).mpr rfl, (hfields _).mp ?_, (habsent "priority").mpr (by decide)⟩
  exact List.mem_cons_self

end Record

end CallData
