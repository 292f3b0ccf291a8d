import Statics.Proofs.Containment

/-!
# The layout of types while declarations are checked

Named types whose declarations are being checked have no base yet. `Arena.Layout a path n` says what is known then,
where `path` has the entities of these types, each with the number of pointers and slices around its declaration, and
`n` is the number of those around here. The main part is allocation order: a type that holds an open name by value was
followed by a pointer or slice, or that name is behind one from here.

When a declaration is complete, its name gets the newest type as a base. So whatever holds the name was either behind
a pointer or slice that is older than the base, or could not have been built.
-/

namespace Statics.Arena

variable {e : EntityId} {base t u : TypeId}

variable {a b : Arena} {path path' : List (EntityId × Nat)} {n n' : Nat}

/-- What a type name stands for: a name that is open belongs to the entity itself. -/
structure Names (a : Arena) (e : EntityId) (t : TypeId) : Prop where
  isSome : (a.type? t).isSome
  parts : a.parts t = []
  own : ∀ {name e'}, a.type t = .named name none e' → e' = e

/-- A type that is there and no name. -/
structure IsProper (a : Arena) (t : TypeId) : Prop where
  isSome : (a.type? t).isSome
  not_isName : ¬ a.IsName t

/-- A type that is there, over a proper one if it is a name with a base. -/
structure Rooted (a : Arena) (t : TypeId) : Prop where
  isSome : (a.type? t).isSome
  bases : ∀ {base}, a.HasBase t base → a.IsProper base

/-- What is known of one type while declarations are being checked. -/
structure Sound (a : Arena) (path : List (EntityId × Nat)) (n : Nat) (t : TypeId) : Prop where
  fields : ∀ {form fields}, a.type t = .record form fields → ∀ f ∈ fields, (a.entity f).type.isSome
  parts : ∀ p ∈ a.parts t, (a.type? p).isSome ∧ p.before t
  members : ∀ {base members}, a.type t = .enum base members →
    ∀ m ∈ members, ∃ x, a.entity? m = some x ∧ x.kind ≠ .typeName
  bases : ∀ {base}, a.HasBase t base → a.IsProper base
  opens : ∀ {name e}, a.type t = .named name none e → (a.entity e).type = some t ∧ ∃ d, (e, d) ∈ path
  closed : ∀ {u base}, ¬ a.IsName t → a.Holds t u → a.HasBase u base → a.parts base ≠ [] →
    base.before t ∨ (u.before t ∧ ∃ p, a.IsIndirect p ∧ t.before p ∧ p.before base)
  pending : ∀ {u name e}, ¬ a.IsName t → a.Holds t u → a.type u = .named name none e →
    (∃ p, a.IsIndirect p ∧ t.before p) ∨ ∃ d < n, (e, d) ∈ path

/-- What is known of all types while declarations are being checked. -/
structure Layout (a : Arena) (path : List (EntityId × Nat)) (n : Nat) : Prop where
  invalid : a.type? .invalid = some (.basic .invalid)
  names : ∀ {e t}, (a.entity e).kind = .typeName → (a.entity e).type = some t → a.Names e t
  within : ∀ p ∈ path, p.2 ≤ n ∧ (a.entity p.1).type.isSome
  types : ∀ t, (a.type? t).isSome → a.Sound path n t

/-- A type that may be used by value here: the names in it that are still open are behind a pointer or slice from
here. -/
structure Usable (a : Arena) (path : List (EntityId × Nat)) (n : Nat) (t : TypeId) : Prop where
  isSome : (a.type? t).isSome
  pending : ∀ {u name e}, a.Holds t u → a.type u = .named name none e → ∃ d < n, (e, d) ∈ path

/-! ## Reading types -/

theorem isSome_type?_of_type_ne (h : a.type t ≠ .blank) : (a.type? t).isSome := by
  cases ht : a.type? t with
  | some τ => rfl
  | none => simp [type, ht] at h

theorem IsName.isSome (h : a.IsName t) : (a.type? t).isSome := by
  obtain ⟨name, base, e, h⟩ := h
  exact isSome_type?_of_type_ne (by simp [h, Ty.blank])

theorem HasBase.isName (h : a.HasBase t base) : a.IsName t := by
  obtain ⟨name, e, h⟩ := h
  exact ⟨name, base, e, h⟩

theorem IsIndirect.isSome (h : a.IsIndirect t) : (a.type? t).isSome := by
  obtain ⟨elem, h | h⟩ := h <;> exact isSome_type?_of_type_ne (by simp [h, Ty.blank])

theorem IsIndirect.parts (h : a.IsIndirect t) : a.parts t = [] := by
  obtain ⟨elem, h | h⟩ := h <;> simp [Arena.parts, h]

theorem IsName.parts (h : a.IsName t) : a.parts t = [] := by
  obtain ⟨name, base, e, h⟩ := h
  simp [Arena.parts, h]

theorem Holds.isName (h : a.Holds t u) : a.IsName u := by
  induction h with
  | self h => exact ⟨_, _, _, h⟩
  | part _ _ ih => exact ih

theorem Holds.isSome {u : TypeId} (h : a.Holds t u) : (a.type? t).isSome := by
  cases h with
  | self h => exact IsName.isSome ⟨_, _, _, h⟩
  | part hp _ => exact isSome_type?_of_parts hp

/-- A type without parts holds at most itself. -/
theorem Holds.eq_of_parts (h : a.Holds t u) (ht : a.parts t = []) : u = t := by
  cases h with
  | self => rfl
  | part hp _ => simp [ht] at hp

theorem Extends.isName_iff (h : a.Extends b) (ht : (a.type? t).isSome) : b.IsName t ↔ a.IsName t := by
  simp only [IsName, h.type_eq ht]

theorem Extends.hasBase_iff (h : a.Extends b) (ht : (a.type? t).isSome) : b.HasBase t base ↔ a.HasBase t base := by
  simp only [HasBase, h.type_eq ht]

theorem Extends.isIndirect (h : a.Extends b) (ht : a.IsIndirect t) : b.IsIndirect t := by
  obtain ⟨elem, he⟩ := ht
  exact ⟨elem, by rwa [h.type_eq (IsIndirect.isSome ⟨elem, he⟩)]⟩

theorem baseWithin_of_hasBase (fuel : Nat) (h : a.HasBase t base) :
    a.baseWithin (fuel + 1) t = a.baseWithin fuel base := by
  obtain ⟨name, e, h⟩ := h
  rw [baseWithin]
  simp only [h]

theorem baseWithin_of_not_hasBase (fuel : Nat) (h : ∀ base, ¬ a.HasBase t base) : a.baseWithin (fuel + 1) t = t := by
  rw [baseWithin]
  split
  · rename_i ht
    exact absurd ⟨_, _, ht⟩ (h _)
  · rfl

namespace Layout

theorem toClosed (h : a.Layout path n) : a.Closed where
  fields hr := (h.types _ (isSome_type?_of_type_ne (by simp [hr, Ty.blank]))).fields hr
  parts hp := ((h.types _ (isSome_type?_of_parts hp)).parts _ hp).1

/-- What a type holds is not younger. -/
theorem before_of_holds (h : a.Layout path n) (hu : a.Holds t u) : u = t ∨ u.before t := by
  induction hu with
  | self => exact .inl rfl
  | part hp _ ih =>
    have hbefore := ((h.types _ (isSome_type?_of_parts hp)).parts _ hp).2
    simp only [Handle.before] at ih hbefore ⊢
    grind

/-- A name that is not open here at the same depth may be used. -/
theorem usable_of_names (h : a.Layout path n) (ht : a.Names e t) (he : (e, n) ∉ path) : a.Usable path n t where
  isSome := ht.isSome
  pending hu hopen := by
    obtain rfl := hu.eq_of_parts ht.parts
    obtain rfl := ht.own hopen
    obtain ⟨-, d, hd⟩ := (h.types _ ht.isSome).opens hopen
    have hle := (h.within _ hd).1
    refine ⟨d, Nat.lt_of_le_of_ne hle fun hdn => he (hdn ▸ hd), hd⟩

/-- The members of an enum are there, and are no type names. -/
theorem members_spec (h : a.Layout path n) {members : List EntityId} (hms : a.members? t = some members)
    {m : EntityId} (hm : m ∈ members) : ∃ x, a.entity? m = some x ∧ x.kind ≠ .typeName := by
  unfold members? base at hms
  split at hms
  · rename_i henum
    cases hms
    have hsome : (a.type? (a.baseType t)).isSome := isSome_type?_of_type_ne (by simp [henum, Ty.blank])
    exact (h.types _ hsome).members henum m hm
  · cases hms

end Layout

/-! ## Bases -/

theorem baseType_of_not_hasBase (hb : ∀ base, ¬ a.HasBase t base) : a.baseType t = t :=
  baseWithin_of_not_hasBase 1023 hb

theorem baseType_of_hasBase (hb : a.HasBase t base) (hbase : a.IsProper base) : a.baseType t = base :=
  calc a.baseType t = a.baseWithin 1023 base := baseWithin_of_hasBase 1023 hb
    _ = base := baseWithin_of_not_hasBase 1022 fun _ hb' => hbase.not_isName hb'.isName

theorem isProper_invalid (h : a.type? .invalid = some (.basic .invalid)) : a.IsProper .invalid where
  isSome := by simp [h]
  not_isName := by
    rintro ⟨name, base, e, hn⟩
    simp [type, h] at hn

/-- The base for a declaration is a proper type. -/
theorem Rooted.isProper_namedBase (ht : a.Rooted t) (h : a.type? .invalid = some (.basic .invalid)) :
    a.IsProper (Check.namedBase a t) := by
  unfold Check.namedBase
  split
  · exact isProper_invalid h
  · rename_i hbase
    have hnot : ¬ a.IsName (a.baseType t) := by
      rintro ⟨name, base, e, hn⟩
      exact hbase name base e hn
    by_cases hb : ∃ base, a.HasBase t base
    · obtain ⟨base, hb⟩ := hb
      have hproper := ht.bases hb
      rwa [baseType_of_hasBase hb hproper]
    · have heq := baseType_of_not_hasBase fun base hbase => hb ⟨base, hbase⟩
      rw [heq] at hnot ⊢
      exact ⟨ht.isSome, hnot⟩

namespace Layout

theorem rooted (h : a.Layout path n) (ht : (a.type? t).isSome) : a.Rooted t := ⟨ht, (h.types t ht).bases⟩

theorem namedBase_spec (h : a.Layout path n) (ht : (a.type? t).isSome) : a.IsProper (Check.namedBase a t) ∧
      (a.parts (Check.namedBase a t) ≠ [] → Check.namedBase a t = a.baseType t) := by
  refine ⟨(h.rooted ht).isProper_namedBase h.invalid, ?_⟩
  unfold Check.namedBase
  split
  · exact fun hp => absurd (by simp [Arena.parts, type, h.invalid]) hp
  · exact fun _ => rfl

end Layout

/-! ## Growing arenas -/

/-- What is known of a type stays known in a larger arena, where names are open at least as long. -/
theorem Sound.extend (hl : a.Layout path n) (hx : a.Extends b) (ht : (a.type? t).isSome) (hpath : path ⊆ path')
    (hpending : ∀ e d, d < n → (e, d) ∈ path → (∃ p, b.IsIndirect p ∧ t.before p) ∨ d < n') : b.Sound path' n' t := by
  have h := hl.types t ht
  have hholds {u : TypeId} : b.Holds t u ↔ a.Holds t u := hl.toClosed.holds_iff hx ht
  refine ⟨?_, ?_, ?_, ?_, ?_, ?_, ?_⟩
  · intro form fields hr f hf
    rw [hx.type_eq ht] at hr
    obtain ⟨u, hu⟩ := Option.isSome_iff_exists.mp (h.fields hr f hf)
    simp [hx.entity_type hu]
  · intro p hp
    rw [hl.toClosed.parts_eq hx ht] at hp
    exact ⟨hx.isSome_type (h.parts p hp).1, (h.parts p hp).2⟩
  · intro base members he m hm
    rw [hx.type_eq ht] at he
    obtain ⟨x, hxm, hkind⟩ := h.members he m hm
    obtain ⟨y, hym, hxy⟩ := hx.entities m x hxm
    exact ⟨y, hym, fun hy => hkind (hxy.typeName hy)⟩
  · intro base hb
    rw [hx.hasBase_iff ht] at hb
    have hbase := h.bases hb
    exact ⟨hx.isSome_type hbase.1, fun hn => hbase.2 ((hx.isName_iff hbase.1).mp hn)⟩
  · intro name e ho
    rw [hx.type_eq ht] at ho
    obtain ⟨hte, d, hd⟩ := h.opens ho
    exact ⟨hx.entity_type hte, d, hpath hd⟩
  · intro u base hn hu hb hp
    have hu := hholds.mp hu
    rw [hx.hasBase_iff hu.isName.isSome] at hb
    have hbase := (hl.types u hu.isName.isSome).bases hb
    rw [hl.toClosed.parts_eq hx hbase.1] at hp
    rw [hx.isName_iff ht] at hn
    exact (h.closed hn hu hb hp).imp_right fun ⟨hut, p, hpi, hpt⟩ => ⟨hut, p, hx.isIndirect hpi, hpt⟩
  · intro u name e hn hu ho
    have hu := hholds.mp hu
    rw [hx.type_eq hu.isName.isSome] at ho
    rw [hx.isName_iff ht] at hn
    rcases h.pending hn hu ho with ⟨p, hpi, hpt⟩ | ⟨d, hd, hmem⟩
    · exact .inl ⟨p, hx.isIndirect hpi, hpt⟩
    · exact (hpending e d hd hmem).imp_right fun hd' => ⟨d, hd', hpath hmem⟩

theorem Usable.extend (hl : a.Layout path n) (hx : a.Extends b) (h : a.Usable path n t) : b.Usable path n t where
  isSome := hx.isSome_type h.isSome
  pending hu ho := by
    have hu := (hl.toClosed.holds_iff hx h.isSome).mp hu
    rw [hx.type_eq hu.isName.isSome] at ho
    exact h.pending hu ho

theorem Names.extend (hl : a.Layout path n) (hx : a.Extends b) (h : a.Names e t) : b.Names e t where
  isSome := hx.isSome_type h.isSome
  parts := (hl.toClosed.parts_eq hx h.isSome).trans h.parts
  own ho := h.own (by rwa [hx.type_eq h.isSome] at ho)

/-- In a larger arena only what is new needs a look. -/
theorem Layout.extend (hl : a.Layout path n) (hx : a.Extends b)
    (hnames : ∀ {e t}, (b.entity e).kind = .typeName → (b.entity e).type = some t →
      ((a.entity e).kind = .typeName ∧ (a.entity e).type = some t) ∨ b.Names e t)
    (hnew : ∀ t, a.type? t = none → (b.type? t).isSome → b.Sound path' n' t)
    (hwithin : ∀ p ∈ path', p.2 ≤ n' ∧ (b.entity p.1).type.isSome) (hpath : path ⊆ path')
    (hpending : ∀ t, (a.type? t).isSome → ∀ e d, d < n → (e, d) ∈ path →
      (∃ p, b.IsIndirect p ∧ t.before p) ∨ d < n') : b.Layout path' n' where
  invalid := hx.types _ _ hl.invalid
  names hk ht := by
    rcases hnames hk ht with ⟨hk, ht⟩ | hn
    · exact (hl.names hk ht).extend hl hx
    · exact hn
  within := hwithin
  types t ht := by
    cases hold : a.type? t with
    | none => exact hnew t hold ht
    | some τ =>
      have hsome : (a.type? t).isSome := by simp [hold]
      exact .extend hl hx hsome hpath (hpending t hsome)

end Statics.Arena
