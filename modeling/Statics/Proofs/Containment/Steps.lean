import Statics.Proofs.Containment.Layout

/-!
# What keeps the layout of types

One lemma for each change that checking makes to the types of an arena: adding a type without parts, ending the part
of a declaration behind a pointer or slice, adding an array or record, filling in the members of an enum, and opening
and closing a name.
-/

namespace Statics

variable {e : EntityId} {name : String} {base u : TypeId}

/-- Types without names and parts. The members of an enum come later. -/
def Ty.isLight : Ty → Bool
  | .basic _ | .pointer _ | .slice _ | .tuple _ | .proc .. | .enum _ [] => true
  | _ => false

namespace Arena

variable {a b : Arena} {path : List (EntityId × Nat)} {n : Nat} {t : TypeId} {τ : Ty}

/-! ## Adding types -/

theorem Sound.of_light (h : (a.type t).isLight) : a.Sound path n t := by
  have hparts : a.parts t = [] := by
    unfold Arena.parts
    cases ht : a.type t <;> simp_all [Ty.isLight]
  have hname : ¬ a.IsName t := by
    rintro ⟨name, base, e, ht⟩
    simp [ht, Ty.isLight] at h
  have hholds {u : TypeId} : ¬ a.Holds t u := fun hu => hname (hu.eq_of_parts hparts ▸ hu.isName)
  refine ⟨?_, by simp [hparts], ?_, fun hb => absurd hb.isName hname, fun ho => absurd ⟨_, _, _, ho⟩ hname,
    fun _ hu => absurd hu hholds, fun _ hu => absurd hu hholds⟩
  · intro form fields hr
    simp [hr, Ty.isLight] at h
  · intro base members he m hm
    cases members with
    | nil => cases hm
    | cons => simp [he, Ty.isLight] at h

/-- Type names with a type. -/
def TypedName (kind : EntityKind) (type : Option TypeId) : Prop := kind = .typeName ∧ type.isSome

/-- All types that were added are without names and parts. -/
def AddsLightly (a b : Arena) : Prop := ∀ {t}, a.type? t = none → (b.type? t).isSome → (b.type t).isLight

/-- Only types without names and parts were added, and no type name got a type. -/
structure GrowsLightly (a b : Arena) : Prop where
  toExtends : a.Extends b
  types : a.AddsLightly b
  spares : a.Spares TypedName b

theorem GrowsLightly.of_eq (ht : ∀ u, b.type? u = a.type? u) (he : ∀ e, b.entity? e = a.entity? e) :
    a.GrowsLightly b where
  toExtends := ⟨fun u τ h => by rw [ht, h], fun e x h => ⟨x, by rw [he, h], .refl x⟩⟩
  types {u} hold hnew := by simp [ht, hold] at hnew
  spares := .of_eq he

theorem GrowsLightly.names (h : a.GrowsLightly b) (hk : (b.entity e).kind = .typeName)
    (ht : (b.entity e).type = some t) : (a.entity e).kind = .typeName ∧ (a.entity e).type = some t := by
  have hread := h.spares.entity_eq ht ⟨hk, rfl⟩
  rwa [hk] at hread

theorem Layout.light (hl : a.Layout path n) (h : a.GrowsLightly b) : b.Layout path n := by
  refine hl.extend h.toExtends (fun hk ht => .inl (h.names hk ht)) ?_ ?_ (List.Subset.refl _) fun _ _ _ _ hd _ =>
    .inr hd
  · exact fun t hnew hsome => .of_light (h.types hnew hsome)
  · intro p hp
    obtain ⟨hle, htyped⟩ := hl.within p hp
    obtain ⟨u, hu⟩ := Option.isSome_iff_exists.mp htyped
    exact ⟨hle, by simp [h.toExtends.entity_type hu]⟩

/-- One type was added, after all others. -/
structure Adds (a : Arena) (t : TypeId) (τ : Ty) (b : Arena) : Prop where
  new : b.type? t = some τ
  rest : ∀ {u}, u ≠ t → b.type? u = a.type? u
  last : ∀ {u}, (a.type? u).isSome → u.before t
  entities : ∀ e, b.entity? e = a.entity? e

theorem not_before_self (t : TypeId) : ¬ t.before t := by
  simp [Handle.before]

namespace Adds

variable (h : a.Adds t τ b)

include h

theorem type_new : b.type t = τ := by simp [type, h.new]

theorem type?_old : a.type? t = none := by
  cases ht : a.type? t with
  | none => rfl
  | some σ => exact absurd (h.last (by simp [ht])) (not_before_self t)

theorem ne_of_isSome (hu : (a.type? u).isSome) : u ≠ t := by
  rintro rfl
  simp [h.type?_old] at hu

theorem toExtends : a.Extends b where
  types u σ hu := by rw [h.rest (h.ne_of_isSome (by simp [hu])), hu]
  entities e x hx := ⟨x, by rw [h.entities, hx], .refl x⟩

theorem entity_eq (e : EntityId) : b.entity e = a.entity e := by simp [entity, h.entities]

theorem eq_of_new (hold : a.type? u = none) (hnew : (b.type? u).isSome) : u = t := by
  by_cases hu : u = t
  · exact hu
  · simp [h.rest hu, hold] at hnew

/-- The types of an arena after one was added. -/
theorem eq_or_before (hu : (b.type? u).isSome) : u = t ∨ u.before t := by
  by_cases hut : u = t
  · exact .inl hut
  · exact .inr (h.last (by rwa [h.rest hut] at hu))

theorem within (hl : a.Layout path n) : ∀ p ∈ path, p.2 ≤ n ∧ (b.entity p.1).type.isSome := by
  intro p hp
  rw [h.entity_eq]
  exact hl.within p hp

theorem names (hk : (b.entity e).kind = .typeName) (hu : (b.entity e).type = some u) :
    ((a.entity e).kind = .typeName ∧ (a.entity e).type = some u) ∨ b.Names e u := by
  rw [h.entity_eq] at hk hu
  exact .inl ⟨hk, hu⟩

theorem addsLightly (hτ : τ.isLight) : a.AddsLightly b := by
  intro u hold hnew
  obtain rfl := h.eq_of_new hold hnew
  rwa [h.type_new]

end Adds

/-- Behind one more pointer or slice, more names may be used. -/
theorem Layout.enter (hl : a.Layout path n) : a.Layout path (n + 1) := by
  refine hl.extend ⟨fun _ _ h => h, fun _ x h => ⟨x, h, .refl x⟩⟩ (fun hk ht => .inl ⟨hk, ht⟩) ?_ ?_
    (List.Subset.refl _) fun _ _ _ _ hd _ => .inr (by omega)
  · intro t hnone hsome
    simp [hnone] at hsome
  · exact fun p hp => ⟨Nat.le_succ_of_le (hl.within p hp).1, (hl.within p hp).2⟩

/-- The pointer or slice that ends such a part is younger than all that was built in it. -/
theorem Layout.leave (hl : a.Layout path (n + 1)) (hpath : ∀ p ∈ path, p.2 ≤ n) (h : a.Adds t τ b)
    (hτ : ∃ elem, τ = .pointer elem ∨ τ = .slice elem) : b.Layout path n := by
  have hindirect : b.IsIndirect t := by
    obtain ⟨elem, hτ⟩ := hτ
    exact ⟨elem, by rwa [h.type_new]⟩
  refine hl.extend h.toExtends h.names ?_ (fun p hp => ⟨hpath p hp, (h.within hl p hp).2⟩) (List.Subset.refl _)
    fun u hu _ _ _ _ => .inl ⟨t, hindirect, h.last hu⟩
  intro u hold hnew
  obtain rfl := h.eq_of_new hold hnew
  refine .of_light ?_
  obtain ⟨elem, rfl | rfl⟩ := hτ <;> simp [h.type_new, Ty.isLight]

/-- Arrays and records of types that may be used. -/
theorem Layout.compose (hl : a.Layout path n) (h : a.Adds t τ b) (hname : ∀ name base e, τ ≠ .named name base e)
    (henum : ∀ base members, τ ≠ .enum base members)
    (hfields : ∀ form fields, τ = .record form fields → ∀ f ∈ fields, (a.entity f).type.isSome)
    (hparts : ∀ p ∈ b.parts t, a.Usable path n p) : b.Layout path n := by
  refine hl.extend h.toExtends h.names ?_ (h.within hl) (List.Subset.refl _) fun _ _ _ _ hd _ => .inr hd
  intro u hold hnew
  obtain rfl := h.eq_of_new hold hnew
  have hnot : ¬ b.IsName u := by
    rintro ⟨name, base, e, hu⟩
    exact hname name base e (h.type_new.symm.trans hu)
  -- What the new type holds was there before.
  have hholds {v : TypeId} (hv : b.Holds u v) : ∃ p, a.Usable path n p ∧ a.Holds p v := by
    cases hv with
    | self hself => exact absurd ⟨_, _, _, hself⟩ hnot
    | part hp hv =>
      have hu := hparts _ hp
      exact ⟨_, hu, (hl.toClosed.holds_iff h.toExtends hu.isSome).mp hv⟩
  refine ⟨?_, ?_, ?_, fun hb => absurd hb.isName hnot, fun ho => absurd ⟨_, _, _, ho⟩ hnot, ?_, ?_⟩
  · intro form fields hr f hf
    rw [h.entity_eq]
    exact hfields form fields (h.type_new.symm.trans hr) f hf
  · intro p hp
    have hsome := (hparts p hp).isSome
    exact ⟨h.toExtends.isSome_type hsome, h.last hsome⟩
  · intro base members he
    exact absurd (h.type_new.symm.trans he) (henum base members)
  · intro v base _ hv hb _
    obtain ⟨p, -, hpv⟩ := hholds hv
    rw [h.toExtends.hasBase_iff hpv.isName.isSome] at hb
    exact .inl (h.last ((hl.types v hpv.isName.isSome).bases hb).1)
  · intro v name e _ hv ho
    obtain ⟨p, hp, hpv⟩ := hholds hv
    rw [h.toExtends.type_eq hpv.isName.isSome] at ho
    exact .inr (hp.pending hpv ho)

/-! ## Opening a name -/

/-- A name without a base was added, as the type of its entity. -/
structure Opens (a : Arena) (t : TypeId) (name : String) (e : EntityId) (b : Arena) : Prop where
  new : b.type? t = some (.named name none e)
  rest : ∀ {u}, u ≠ t → b.type? u = a.type? u
  last : ∀ {u}, (a.type? u).isSome → u.before t
  entity : (b.entity e).type = some t
  others : ∀ {e'}, e' ≠ e → b.entity? e' = a.entity? e'
  toExtends : a.Extends b

theorem Layout.openName (hl : a.Layout path n) (h : a.Opens t name e b) : b.Layout ((e, n) :: path) n := by
  have hname : b.IsName t := ⟨name, none, e, by simp [type, h.new]⟩
  have hothers {e' : EntityId} (he : e' ≠ e) : b.entity e' = a.entity e' := by simp [Arena.entity, h.others he]
  refine hl.extend h.toExtends ?_ ?_ ?_ (List.subset_cons_self _ _) fun _ _ _ _ hd _ => .inr hd
  · intro e' u hk hu
    by_cases he : e' = e
    · subst he
      obtain rfl : t = u := by simpa [h.entity] using hu
      refine .inr ⟨hname.isSome, hname.parts, fun {name' e''} ho => ?_⟩
      have hsame : name = name' ∧ e' = e'' := by simpa [type, h.new] using ho
      exact hsame.2.symm
    · rw [hothers he] at hk hu
      exact .inl ⟨hk, hu⟩
  · intro u hold hnew
    obtain rfl : u = t := by
      by_cases hu : u = t
      · exact hu
      · simp [h.rest hu, hold] at hnew
    refine ⟨?_, by simp [hname.parts], ?_, ?_, ?_, fun hn => absurd hname hn, fun hn => absurd hname hn⟩
    · intro form fields hr
      simp [type, h.new] at hr
    · intro base members he
      simp [type, h.new] at he
    · rintro base ⟨name', e', hb⟩
      simp [type, h.new] at hb
    · intro name' e' ho
      obtain ⟨-, rfl⟩ : name = name' ∧ e = e' := by simpa [type, h.new] using ho
      exact ⟨h.entity, n, by simp⟩
  · intro p hp
    rcases List.mem_cons.mp hp with rfl | hp
    · exact ⟨Nat.le_refl n, by simp [h.entity]⟩
    · obtain ⟨hle, htyped⟩ := hl.within p hp
      obtain ⟨u, hu⟩ := Option.isSome_iff_exists.mp htyped
      exact ⟨hle, by simp [h.toExtends.entity_type hu]⟩

/-! ## Filling types in -/

/-- One type that was not basic was replaced, by one that has no parts either. -/
structure Refills (a : Arena) (t : TypeId) (τ : Ty) (b : Arena) : Prop where
  old : ∀ k, a.type t ≠ .basic k
  new : b.type? t = some τ
  rest : ∀ {u}, u ≠ t → b.type? u = a.type? u
  entities : ∀ e, b.entity? e = a.entity? e
  parts : a.parts t = [] ∧ b.parts t = []
  names : b.IsName t ↔ a.IsName t
  indirect : ¬ a.IsIndirect t

namespace Refills

variable (h : a.Refills t τ b)

include h

theorem entity_eq (e : EntityId) : b.entity e = a.entity e := by simp [entity, h.entities]

theorem type_eq (hu : u ≠ t) : b.type u = a.type u := by simp [type, h.rest hu]

theorem parts_eq (u : TypeId) : b.parts u = a.parts u := by
  by_cases hu : u = t
  · rw [hu, h.parts.1, h.parts.2]
  · simp only [Arena.parts, h.type_eq hu, h.entity_eq]

theorem isName_iff (u : TypeId) : b.IsName u ↔ a.IsName u := by
  by_cases hu : u = t
  · rw [hu, h.names]
  · simp only [IsName, h.type_eq hu]

theorem isIndirect (hu : a.IsIndirect u) : b.IsIndirect u := by
  have hne : u ≠ t := by
    rintro rfl
    exact h.indirect hu
  simpa only [IsIndirect, h.type_eq hne] using hu

theorem isSome_type?_old : (a.type? t).isSome := isSome_type?_of_type_ne fun ht => h.old _ ht

theorem isSome_type_iff : (b.type? u).isSome ↔ (a.type? u).isSome := by
  by_cases hut : u = t
  · simp [hut, h.new, h.isSome_type?_old]
  · rw [h.rest hut]

theorem isProper_iff : b.IsProper u ↔ a.IsProper u := by
  constructor
  · exact fun hu => ⟨h.isSome_type_iff.mp hu.isSome, fun hn => hu.not_isName ((h.isName_iff u).mpr hn)⟩
  · exact fun hu => ⟨h.isSome_type_iff.mpr hu.isSome, fun hn => hu.not_isName ((h.isName_iff u).mp hn)⟩

theorem holds_iff {v : TypeId} : b.Holds u v ↔ a.Holds u v := by
  constructor
  · intro hv
    induction hv with
    | self hself =>
      obtain ⟨_, _, _, hself⟩ := (h.isName_iff _).mp ⟨_, _, _, hself⟩
      exact .self hself
    | part hp _ ih => exact .part (h.parts_eq _ ▸ hp) ih
  · intro hv
    induction hv with
    | self hself =>
      obtain ⟨_, _, _, hself⟩ := (h.isName_iff _).mpr ⟨_, _, _, hself⟩
      exact .self hself
    | part hp _ ih => exact .part ((h.parts_eq _).symm ▸ hp) ih

end Refills

/-- Where one type was replaced, only what holds it and what it is needs a look. -/
theorem Layout.refill {path' : List (EntityId × Nat)} (hl : a.Layout path n) (h : a.Refills t τ b)
    (hpath : path' ⊆ path)
    (hopen : ∀ {u name e d}, u ≠ t → a.type u = .named name none e → (e, d) ∈ path → (e, d) ∈ path')
    (hnot : ∀ name e, τ ≠ .named name none e) (hrecord : ∀ form fields, τ ≠ .record form fields)
    (hmembers : ∀ base members, τ = .enum base members →
      ∀ m ∈ members, ∃ x, a.entity? m = some x ∧ x.kind ≠ .typeName)
    (hbase : ∀ {base}, b.HasBase t base → a.IsProper base)
    (hclosed : ∀ {u base}, ¬ a.IsName u → a.Holds u t → b.HasBase t base → a.parts base ≠ [] →
      base.before u ∨ (t.before u ∧ ∃ p, a.IsIndirect p ∧ u.before p ∧ p.before base)) : b.Layout path' n := by
  have hnew : b.type t = τ := by simp [type, h.new]
  have hne {u : TypeId} {name : String} {e : EntityId} (ho : b.type u = .named name none e) : u ≠ t := by
    rintro rfl
    exact hnot name e (hnew.symm.trans ho)
  have hinvalid : TypeId.invalid ≠ t := by
    rintro rfl
    exact h.old .invalid (by simp [type, hl.invalid])
  refine ⟨(h.rest hinvalid).trans hl.invalid, ?_, ?_, ?_⟩
  · intro e u hk hu
    rw [h.entity_eq] at hk hu
    have hnames := hl.names hk hu
    refine ⟨h.isSome_type_iff.mpr hnames.isSome, (h.parts_eq u).trans hnames.parts, fun ho => ?_⟩
    rw [h.type_eq (hne ho)] at ho
    exact hnames.own ho
  · intro p hp
    rw [h.entity_eq]
    exact hl.within p (hpath hp)
  · intro u hu
    have hs := hl.types u (h.isSome_type_iff.mp hu)
    refine ⟨?_, ?_, ?_, ?_, ?_, ?_, ?_⟩
    · intro form fields hr f hf
      have hut : u ≠ t := by
        rintro rfl
        exact hrecord form fields (hnew.symm.trans hr)
      rw [h.type_eq hut] at hr
      rw [h.entity_eq]
      exact hs.fields hr f hf
    · intro p hp
      rw [h.parts_eq] at hp
      exact ⟨h.isSome_type_iff.mpr (hs.parts p hp).1, (hs.parts p hp).2⟩
    · intro base members he m hm
      rw [h.entities]
      by_cases hut : u = t
      · subst hut
        exact hmembers base members (hnew.symm.trans he) m hm
      · rw [h.type_eq hut] at he
        exact hs.members he m hm
    · intro base hb
      rw [h.isProper_iff]
      by_cases hut : u = t
      · subst hut
        exact hbase hb
      · rw [HasBase, h.type_eq hut] at hb
        exact hs.bases hb
    · intro name e ho
      have hut := hne ho
      rw [h.type_eq hut] at ho
      obtain ⟨hte, d, hd⟩ := hs.opens ho
      exact ⟨by rwa [h.entity_eq], d, hopen hut ho hd⟩
    · intro v base hn hv hb hp
      rw [h.isName_iff] at hn
      rw [h.parts_eq] at hp
      have hv := h.holds_iff.mp hv
      have hbefore : base.before u ∨ (v.before u ∧ ∃ p, a.IsIndirect p ∧ u.before p ∧ p.before base) := by
        by_cases hvt : v = t
        · subst hvt
          exact hclosed hn hv hb hp
        · rw [HasBase, h.type_eq hvt] at hb
          exact hs.closed hn hv hb hp
      exact hbefore.imp_right (.imp_right (Exists.imp fun _ => .imp_left h.isIndirect))
    · intro v name e hn hv ho
      have hvt := hne ho
      rw [h.isName_iff] at hn
      rw [h.type_eq hvt] at ho
      rcases hs.pending hn (h.holds_iff.mp hv) ho with ⟨p, hpi, hpu⟩ | ⟨d, hd, hmem⟩
      · exact .inl ⟨p, h.isIndirect hpi, hpu⟩
      · exact .inr ⟨d, hd, hopen hvt ho hmem⟩

/-- The members of an enum are constants. -/
theorem Layout.fillEnum {members : List EntityId} (hl : a.Layout path n) (h : a.Refills t (.enum base members) b)
    (hmembers : ∀ m ∈ members, ∃ x, a.entity? m = some x ∧ x.kind ≠ .typeName) : b.Layout path n := by
  have hnot {base' : TypeId} : ¬ b.HasBase t base' := by
    rintro ⟨name, e, hb⟩
    simp [type, h.new] at hb
  refine hl.refill h (List.Subset.refl _) (fun _ _ hd => hd) (by simp) (by simp) ?_ (fun hb => absurd hb hnot)
    fun _ _ hb => absurd hb hnot
  rintro base' members' he
  cases he
  exact hmembers

/-- A name gets a base that is younger than the pointers and slices in its declaration. -/
theorem Layout.closeName (hl : a.Layout ((e, n) :: path) n)
    (ht : a.type t = .named name none e) (h : a.Refills t (.named name (some base) e) b) (he : ∀ d, (e, d) ∉ path)
    (hbase : a.IsProper base)
    (hyoung : a.parts base ≠ [] → ∀ p, a.IsIndirect p → t.before p → p.before base) : b.Layout path n := by
  have hown := ((hl.types t h.isSome_type?_old).opens ht).1
  have hunique {base' : TypeId} (hb : b.HasBase t base') : base' = base := by
    obtain ⟨name', e', hb⟩ := hb
    simp only [type, h.new, Option.getD_some, Ty.named.injEq, Option.some.injEq] at hb
    exact hb.2.1.symm
  refine hl.refill h (List.subset_cons_self _ _) ?_ (by simp) (by simp) (by simp) ?_ ?_
  · intro u name' e' d hut ho hd
    rcases List.mem_cons.mp hd with hd | hd
    · -- An entity has one type, so two open names do not share it.
      have hown' := ((hl.types u (IsName.isSome ⟨_, _, _, ho⟩)).opens ho).1
      simp only [Prod.mk.injEq] at hd
      rw [hd.1, hown] at hown'
      exact absurd (Option.some.inj hown').symm hut
    · exact hd
  · intro base' hb
    rw [hunique hb]
    exact hbase
  · intro u base' hn hu hb hp
    obtain rfl := hunique hb
    have hut : t.before u := (hl.before_of_holds hu).resolve_left fun heq => hn (heq ▸ hu.isName)
    rcases (hl.types u hu.isSome).pending hn hu ht with ⟨p, hpi, hup⟩ | ⟨d, hd, hmem⟩
    · have htp : t.before p := by
        simp only [Handle.before] at hut hup ⊢
        omega
      exact .inr ⟨hut, p, hpi, hup, hyoung hp p hpi htp⟩
    · rcases List.mem_cons.mp hmem with hmem | hmem
      · simp only [Prod.mk.injEq] at hmem
        omega
      · exact absurd hmem (he d)

/-! ## The newest type -/

/-- Since `a`, only names were added, or the base of `t` is the newest type if it has parts. -/
def Tops (a b : Arena) (t : TypeId) : Prop :=
  (∀ u, a.type? u = none → (b.type? u).isSome → b.IsName u) ∨
    (b.parts (b.baseType t) ≠ [] → ∀ u, (b.type? u).isSome → u = b.baseType t ∨ u.before (b.baseType t))

theorem Adds.tops (h : a.Adds t τ b) (hτ : ∀ name base e, τ ≠ .named name base e) (c : Arena) : Tops c b t := by
  have hbase : b.baseType t = t := by
    refine baseType_of_not_hasBase ?_
    rintro base ⟨name, e, hb⟩
    exact hτ _ _ _ (h.type_new.symm.trans hb)
  right
  rw [hbase]
  exact fun _ u hu => h.eq_or_before hu

end Arena

end Statics
