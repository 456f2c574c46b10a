import CallData.Proofs.Composition
import CallData.Proofs.Value.Nested

/-!
# What the readers of values are made of

The reader of every type is a chain of steps that take bytes, and has each property that such steps
have and that passes through chains (`ValueType.readNested_of_compositional`).
-/

namespace CallData

open ByteReader

/-! ### Checks in front of readers -/

/-- A byte string is no address for its length only. -/
theorem Address.eq_of_ofBytes_eq_error {bs : Bytes} {e : CodecError}
    (h : ofBytes bs = .error e) : e = .of (.addressLength 32 bs.length) := by
  rw [ofBytes] at h
  by_cases hlen : bs.length = 32
  · rw [dif_pos hlen] at h
    cases h
  · rw [dif_neg hlen] at h
    cases h
    rfl

/-- A table refuses a discriminant only because it has no such variant. -/
theorem EnumTable.eq_of_variant_eq_error {α : Type} {table : EnumTable α} {discriminant : UInt8}
    {e : CodecError} (h : table.variant discriminant = .error e) :
    e = .of (unknown table.name discriminant) := by
  rw [variant] at h
  rcases hfind : table.variants.find? fun v => v.discriminant == discriminant with _ | v
  · rw [hfind] at h
    cases h
    rfl
  · rw [hfind] at h
    cases h

/-- A name is refused only because it is not among those of the variants. -/
theorem Value.eq_of_ofName_eq_error {names : List String} {name : String} {e : CodecError}
    (h : ofName (some names) name = .error e) : e = .of (.unknownVariant s!"`{name}`") := by
  simp only [ofName] at h
  by_cases hname : name ∈ names
  · rw [if_pos hname] at h
    cases h
  · rw [if_neg hname] at h
    cases h
    rfl

section Values

variable {P : {α : Type} → ByteReader α → Prop} (hP : Compositional P)
include hP

/-! ### Values without parts -/

theorem Address.read_of_compositional : P Address.read :=
  hP.bind (hP.take 32) fun bs => hP.lift fun e he => by
    rw [eq_of_ofBytes_eq_error he]
    nofun

/-- The reader of decimals reads a frame, and behind it the scale where the type has none. -/
theorem Amount.readNested_of_compositional (scale : Option UInt32) :
    P (Amount.readNested scale) := by
  refine hP.bind hP.framed fun digits => ?_
  match scale with
  | some s => exact hP.pure _
  | none => exact hP.map hP.count _

/-! ### Values with parts -/

/-- Items of given types have what the reader of each has, wherever the numbering of them starts. -/
theorem readItems_of_compositional {types : List ValueType} (h : ∀ T ∈ types, P T.readNested)
    (i : Nat) : P (readItems i (itemReaders types)) := by
  induction types generalizing i with
  | nil => exact hP.pure []
  | cons T types ih =>
    rw [List.forall_mem_cons] at h
    exact hP.bind (hP.insideM h.1 (.index i)) fun v => hP.map (ih h.2 (i + 1)) (v :: ·)

theorem readFields_of_compositional {fields : List (Field ValueType)}
    (h : ∀ f ∈ fields, P f.value.readNested) : P (readFields (fieldReaders fields)) := by
  induction fields with
  | nil => exact hP.pure []
  | cons f fields ih =>
    obtain ⟨name, T⟩ := f
    rw [List.forall_mem_cons] at h
    exact hP.bind (hP.insideM h.1 (.field name)) fun v => hP.map (ih h.2) (⟨name, v⟩ :: ·)

/-- An enum reads its discriminant, and then the fields that its table declares for it. -/
theorem readEnum_of_compositional {table : EnumType}
    (h : ∀ v ∈ table.variants, ∀ f ∈ v.fields, P f.value.readNested) :
    P (readEnum (some table) (some (tableReaders table)) 0 []) := by
  refine hP.bind hP.octet fun discriminant => hP.lift_bind (fun e he => ?_) fun readers hs => ?_
  · rw [EnumTable.select_nil, except_map_eq_error] at he
    rw [EnumTable.eq_of_variant_eq_error he]
    nofun
  · obtain ⟨variant, hvariant, rfl⟩ := select_tableReaders_eq_ok_iff.mp hs
    exact hP.map (readFields_of_compositional hP (h variant (mem_of_variant_eq_ok hvariant))) _

/-- An option has what the reader of its item has: it is that reader behind one octet. -/
theorem readOption_of_compositional {item : ByteReader Value} (h : P item)
    (itemType : Option ValueType) : P (readOption itemType item) := by
  refine hP.bind hP.octet fun marker => ?_
  split
  · exact hP.pure _
  · exact hP.map h _
  · exact hP.throw nofun

/-! ### All types -/

/-- The readers of all types have what steps have that take bytes, and what passes through
chains. -/
theorem ValueType.readNested_of_compositional (T : ValueType) : P T.readNested := by
  induction T with
  | int width signed => exact hP.map (hP.map (hP.take width.bytes) _) Value.int
  | big signed => exact hP.map (hP.map hP.framed _) Value.big
  | bool => exact hP.map hP.bool Value.bool
  | bytes => exact hP.map hP.framed Value.bytes
  | str => exact hP.map hP.text Value.str
  | address => exact hP.map (Address.read_of_compositional hP) Value.address
  | decimal scale => exact hP.map (Amount.readNested_of_compositional hP scale) Value.decimal
  | metadata => exact hP.map (hP.map (hP.take 2) _) Value.metadata
  | list item ih => exact hP.bind hP.count fun n => hP.map (hP.replicateFrom ih n 0) _
  | array item length ih => exact hP.map (hP.replicateFrom ih length 0) _
  | struct name fields ih => exact hP.map (readFields_of_compositional hP ih) _
  | tuple types ih => exact hP.map (readItems_of_compositional hP ih 0) _
  | enum table ih => exact readEnum_of_compositional hP ih
  | explicit name names =>
    refine hP.bind hP.text fun s => hP.lift fun e he => ?_
    rw [Value.eq_of_ofName_eq_error he]
    nofun
  | option item ih => exact readOption_of_compositional hP ih (some item)

end Values

end CallData
