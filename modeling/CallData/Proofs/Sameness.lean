import CallData.Proofs.Encoding

/-!
# Values that hold the same

Two values are the same when they are made in the same way of parts that are the same, whatever
they carry for decoding. `Value.same_induct` reasons along this; by it, values that are the same
are written alike (`Value.nested_eq_of_same`, `Value.top_eq_of_same`).
-/

namespace CallData

/-- A relation between two fields: they go by one name, and what they stand for is related. -/
inductive Field.Rel {α β : Type} (R : α → β → Prop) : Field α → Field β → Prop where
  | mk {name : String} {a : α} {b : β} (h : R a b) : Field.Rel R ⟨name, a⟩ ⟨name, b⟩

theorem Field.Rel.value {α β : Type} {R : α → β → Prop} {f : Field α} {g : Field β} :
    Field.Rel R f g → R f.value g.value
  | .mk h => h

section Rows

variable {α β γ : Type} {R S : α → β → Prop} {as : List α} {bs : List β}

/-- What holds of the members of one row carries over to a row that is related to it. -/
theorem forall_mem_of_forall₂ {P : α → Prop} {Q : β → Prop} (h : List.Forall₂ R as bs)
    (hPQ : ∀ a b, R a b → P a → Q b) (hP : ∀ a ∈ as, P a) : ∀ b ∈ bs, Q b := by
  induction h with
  | nil => simp
  | cons hab _ ih =>
    rw [List.forall_mem_cons] at hP ⊢
    exact ⟨hPQ _ _ hab hP.1, ih hP.2⟩

/-- Two rows whose members have their properties together have them together. -/
theorem forall_mem_iff_of_forall₂ {P : α → Prop} {Q : β → Prop}
    (h : List.Forall₂ (fun a b => P a ↔ Q b) as bs) : (∀ a ∈ as, P a) ↔ ∀ b ∈ bs, Q b := by
  induction h with
  | nil => simp
  | cons hab _ ih => rw [List.forall_mem_cons, List.forall_mem_cons, hab, ih]

theorem eq_nil_iff_of_forall₂ (h : List.Forall₂ R as bs) : as = [] ↔ bs = [] := by
  rw [← List.length_eq_zero_iff, h.length_eq, List.length_eq_zero_iff]

theorem flatMap_eq_of_forall₂ {f : α → List γ} {g : β → List γ} (h : List.Forall₂ R as bs)
    (hfg : ∀ a b, R a b → f a = g b) : as.flatMap f = bs.flatMap g := by
  induction h with
  | nil => rfl
  | cons hab _ ih => rw [List.flatMap_cons, List.flatMap_cons, hfg _ _ hab, ih]

/-- What comes out the same for related members comes out the same for related rows. -/
theorem map_eq_of_forall₂ {f : α → γ} {g : β → γ} (h : List.Forall₂ R as bs)
    (hfg : ∀ a b, R a b → f a = g b) : as.map f = bs.map g := by
  induction h with
  | nil => rfl
  | cons hab _ ih => rw [List.map_cons, List.map_cons, hfg _ _ hab, ih]

/-- Of two rows in a relation, each member of the one is in it with one of the other. -/
theorem forall₂_imp_of_mem (h : List.Forall₂ R as bs)
    (hRS : ∀ a ∈ as, ∀ b ∈ bs, R a b → S a b) : List.Forall₂ S as bs := by
  induction h with
  | nil => exact .nil
  | @cons a b as bs hab _ ih =>
    refine .cons (hRS a List.mem_cons_self b List.mem_cons_self hab) (ih fun a ha b hb => ?_)
    exact hRS a (List.mem_cons_of_mem _ ha) b (List.mem_cons_of_mem _ hb)

/-- What the relation says of the second row alone can be told apart from the rest. -/
theorem forall₂_and_right {Q : β → Prop} (h : List.Forall₂ (fun a b => R a b ∧ Q b) as bs) :
    List.Forall₂ R as bs ∧ ∀ b ∈ bs, Q b := by
  induction h with
  | nil => simp
  | cons hab _ ih => exact ⟨.cons hab.1 ih.1, List.forall_mem_cons.mpr ⟨hab.2, ih.2⟩⟩

/-- Where something goes with both members of each pair of two rows, these make up a third row. -/
theorem exists_forall₂_of_forall₂ {Q : α → γ → Prop} {Q' : β → γ → Prop}
    (h : List.Forall₂ (fun a b => ∃ c, Q a c ∧ Q' b c) as bs) :
    ∃ cs, List.Forall₂ Q as cs ∧ List.Forall₂ Q' bs cs := by
  induction h with
  | nil => exact ⟨[], .nil, .nil⟩
  | cons hab _ ih =>
    obtain ⟨c, ha, hb⟩ := hab
    obtain ⟨cs, has, hbs⟩ := ih
    exact ⟨c :: cs, .cons ha has, .cons hb hbs⟩

/-- Where something goes with each member of a row, this makes up another row. -/
theorem exists_forall₂_of_forall (h : ∀ a ∈ as, ∃ b, R a b) : ∃ bs, List.Forall₂ R as bs := by
  induction as with
  | nil => exact ⟨[], .nil⟩
  | cons a as ih =>
    rw [List.forall_mem_cons] at h
    obtain ⟨b, hab⟩ := h.1
    obtain ⟨bs, hrow⟩ := ih h.2
    exact ⟨b :: bs, .cons hab hrow⟩

/-- Fields that are related go by the same names. -/
theorem map_name_eq_of_forall₂ {fs : List (Field α)} {gs : List (Field β)}
    (h : List.Forall₂ (Field.Rel R) fs gs) : fs.map Field.name = gs.map Field.name :=
  map_eq_of_forall₂ h fun _ _ ⟨_⟩ => rfl

/-- Where something is known of the right one of each pair of fields, it holds of all of them. -/
theorem forall₂_field_and_right {Q : β → Prop} {fs : List (Field α)} {gs : List (Field β)}
    (h : List.Forall₂ (Field.Rel fun a b => R a b ∧ Q b) fs gs) :
    List.Forall₂ (Field.Rel R) fs gs ∧ ∀ g ∈ gs, Q g.value :=
  forall₂_and_right (h.imp fun _ _ ⟨hab⟩ => ⟨.mk hab.1, hab.2⟩)

theorem forall₂_field_imp_of_mem {fs : List (Field α)} {gs : List (Field β)}
    (h : List.Forall₂ (Field.Rel R) fs gs)
    (hRS : ∀ f ∈ fs, ∀ g ∈ gs, R f.value g.value → S f.value g.value) :
    List.Forall₂ (Field.Rel S) fs gs := by
  refine forall₂_imp_of_mem h fun f hf g hg hfg => ?_
  obtain ⟨hab⟩ := hfg
  exact .mk (hRS _ hf _ hg hab)

end Rows

namespace Value

/-- Items are the same if there are as many and they are the same one by one. -/
theorem sameItems_iff {as bs : List Value} :
    sameItems as bs = true ↔ List.Forall₂ (fun a b => same a b = true) as bs := by
  induction as generalizing bs with
  | nil => cases bs <;> simp [sameItems]
  | cons a as ih => cases bs <;> simp [sameItems, ih]

/-- Fields are the same if their names agree in order, and their values are the same. -/
theorem sameFields_iff {as bs : List (Field Value)} :
    sameFields as bs = true ↔ List.Forall₂ (Field.Rel fun a b => same a b = true) as bs := by
  induction as generalizing bs with
  | nil => cases bs <;> simp [sameFields]
  | cons a as ih =>
    cases bs with
    | nil => simp [sameFields]
    | cons b bs =>
      rw [sameFields, Bool.and_eq_true, Bool.and_eq_true, ih, List.forall₂_cons, beq_iff_eq]
      refine and_congr_left fun _ => ⟨?_, ?_⟩
      · obtain ⟨m, a⟩ := a
        obtain ⟨n, b⟩ := b
        rintro ⟨rfl, h⟩
        exact .mk h
      · rintro ⟨h⟩
        exact ⟨rfl, h⟩

/-- A relation holds between all values that are the same when it passes from their parts, in
pairs, to the whole. -/
theorem same_induct {Q : Value → Value → Prop}
    (int : ∀ x, Q (.int x) (.int x))
    (big : ∀ x, Q (.big x) (.big x))
    (bool : ∀ b, Q (.bool b) (.bool b))
    (bytes : ∀ bs, Q (.bytes bs) (.bytes bs))
    (str : ∀ s, Q (.str s) (.str s))
    (address : ∀ a, Q (.address a) (.address a))
    (decimal : ∀ a, Q (.decimal a) (.decimal a))
    (metadata : ∀ m, Q (.metadata m) (.metadata m))
    (list : ∀ s t as bs, List.Forall₂ Q as bs → Q (.list s as) (.list t bs))
    (array : ∀ s t n as bs, List.Forall₂ Q as bs → Q (.array s n as) (.array t n bs))
    (struct : ∀ name as bs, List.Forall₂ (Field.Rel Q) as bs →
      Q (.struct name as) (.struct name bs))
    (tuple : ∀ as bs, List.Forall₂ Q as bs → Q (.tuple as) (.tuple bs))
    (enum : ∀ s t d as bs, List.Forall₂ (Field.Rel Q) as bs → Q (.enum s d as) (.enum t d bs))
    (explicit : ∀ s t name, Q (.explicit s name) (.explicit t name))
    (absent : ∀ s t, Q (.option s none) (.option t none))
    (present : ∀ s t a b, Q a b → Q (.option s (some a)) (.option t (some b)))
    {a b : Value} (h : same a b = true) : Q a b := by
  -- The first value decides, as the second is made in the same way: no other pair is the same.
  induction a generalizing b with
  | int x =>
    match b, h with
    | .int y, h => exact eq_of_beq h ▸ int x
  | big x =>
    match b, h with
    | .big y, h => exact eq_of_beq h ▸ big x
  | bool x =>
    match b, h with
    | .bool y, h => exact eq_of_beq h ▸ bool x
  | bytes x =>
    match b, h with
    | .bytes y, h => exact eq_of_beq h ▸ bytes x
  | str x =>
    match b, h with
    | .str y, h => exact eq_of_beq h ▸ str x
  | address x =>
    match b, h with
    | .address y, h => exact eq_of_beq h ▸ address x
  | decimal x =>
    match b, h with
    | .decimal y, h => exact eq_of_beq h ▸ decimal x
  | metadata x =>
    match b, h with
    | .metadata y, h => exact eq_of_beq h ▸ metadata x
  | list s as ih =>
    match b, h with
    | .list t bs, h =>
      exact list s t as bs (forall₂_imp_of_mem (sameItems_iff.mp h) fun a ha _ _ hab => ih a ha hab)
  | array s m as ih =>
    match b, h with
    | .array t n bs, h =>
      obtain ⟨hlen, hitems⟩ := Bool.and_eq_true_iff.mp h
      obtain rfl := eq_of_beq hlen
      exact array s t m as bs
        (forall₂_imp_of_mem (sameItems_iff.mp hitems) fun a ha _ _ hab => ih a ha hab)
  | struct name as ih =>
    match b, h with
    | .struct name' bs, h =>
      obtain ⟨hname, hfields⟩ := Bool.and_eq_true_iff.mp h
      obtain rfl := eq_of_beq hname
      exact struct name as bs
        (forall₂_field_imp_of_mem (sameFields_iff.mp hfields) fun a ha _ _ hab => ih a ha hab)
  | tuple as ih =>
    match b, h with
    | .tuple bs, h =>
      exact tuple as bs (forall₂_imp_of_mem (sameItems_iff.mp h) fun a ha _ _ hab => ih a ha hab)
  | enum s d as ih =>
    match b, h with
    | .enum t d' bs, h =>
      obtain ⟨hd, hfields⟩ := Bool.and_eq_true_iff.mp h
      obtain rfl := eq_of_beq hd
      exact enum s t d as bs
        (forall₂_field_imp_of_mem (sameFields_iff.mp hfields) fun a ha _ _ hab => ih a ha hab)
  | explicit s name =>
    match b, h with
    | .explicit t name', h => exact eq_of_beq h ▸ explicit s t name
  | absent s =>
    match b, h with
    | .option t none, _ => exact absent s t
  | present s a ih =>
    match b, h with
    | .option t (some b), h => exact present s t a b (ih h)

/-- A value is the same as itself. -/
theorem same_refl (v : Value) : same v v = true := by
  induction v with
  | int x | big x | bool b | bytes bs | str s | address a | decimal a | metadata m =>
    exact beq_self_eq_true _
  | explicit variants name => exact beq_self_eq_true name
  | absent item => rfl
  | present item v ih => exact ih
  | list item items ih => exact sameItems_iff.mpr (List.forall₂_same.mpr ih)
  | tuple items ih => exact sameItems_iff.mpr (List.forall₂_same.mpr ih)
  | array item length items ih =>
    exact Bool.and_eq_true_iff.mpr
      ⟨beq_self_eq_true length, sameItems_iff.mpr (List.forall₂_same.mpr ih)⟩
  | struct name fields ih =>
    exact Bool.and_eq_true_iff.mpr ⟨beq_self_eq_true name,
      sameFields_iff.mpr (List.forall₂_same.mpr fun f hf => .mk (ih f hf))⟩
  | enum table discriminant fields ih =>
    exact Bool.and_eq_true_iff.mpr ⟨beq_self_eq_true discriminant,
      sameFields_iff.mpr (List.forall₂_same.mpr fun f hf => .mk (ih f hf))⟩

/-- Values that are the same have the same nested encoding. -/
theorem nested_eq_of_same {a b : Value} (h : same a b = true) : a.nested = b.nested := by
  have items : ∀ as bs : List Value, List.Forall₂ (fun a b => a.nested = b.nested) as bs →
      as.flatMap nested = bs.flatMap nested := fun as bs h =>
    flatMap_eq_of_forall₂ h fun _ _ h => h
  have fields : ∀ as bs : List (Field Value),
      List.Forall₂ (Field.Rel fun a b => a.nested = b.nested) as bs →
      (as.flatMap fun f => f.value.nested) = bs.flatMap fun f => f.value.nested := fun as bs h =>
    flatMap_eq_of_forall₂ h fun _ _ ⟨h⟩ => h
  apply same_induct (Q := fun a b => a.nested = b.nested) (h := h)
  case list =>
    intro s t as bs ih
    rw [nested_list, nested_list, items as bs ih, ih.length_eq]
  case array =>
    intro s t n as bs ih
    rw [nested_array, nested_array, items as bs ih]
  case struct =>
    intro name as bs ih
    rw [nested_struct, nested_struct, fields as bs ih]
  case tuple =>
    intro as bs ih
    rw [nested_tuple, nested_tuple, items as bs ih]
  case enum =>
    intro s t d as bs ih
    rw [nested_enum, nested_enum, fields as bs ih]
  case present =>
    intro s t a b ih
    rw [nested_present, nested_present, ih]
  all_goals
    intros
    rfl

theorem flatMap_nested_eq_of_same {as bs : List Value} (h : sameItems as bs = true) :
    as.flatMap nested = bs.flatMap nested :=
  flatMap_eq_of_forall₂ (sameItems_iff.mp h) fun _ _ => nested_eq_of_same

/-- Values that are the same have the same top-level encoding. -/
theorem top_eq_of_same {a b : Value} (h : same a b = true) : a.top = b.top := by
  -- Their parts are written nested, so what is kept of the two is that they are the same.
  suffices htop : same a b = true → a.top = b.top from htop h
  apply same_induct (Q := fun a b => same a b = true → a.top = b.top) (h := h)
  case list =>
    intro s t as bs _ h
    rw [top_list, top_list, flatMap_nested_eq_of_same h]
  case enum =>
    intro s t d as bs hfields h
    simp only [top_enum, nested_eq_of_same h, eq_nil_iff_of_forall₂ hfields]
  case array =>
    intro s t n as bs _
    exact nested_eq_of_same
  case struct =>
    intro name as bs _
    exact nested_eq_of_same
  case tuple =>
    intro as bs _
    exact nested_eq_of_same
  case present =>
    intro s t a b _
    exact nested_eq_of_same
  all_goals
    intros
    rfl

end Value

end CallData
