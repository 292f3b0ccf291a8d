import Statics.Proofs.Validity

/-!
# Elementary changes of valid states

Each elementary change keeps a state valid if what it adds is valid. So the routines need to be looked at only for what
they add.
-/

namespace Statics

variable {name : String} {base : TypeId}

/-! ## Reading valid states -/

theorem Constant.not_fits_invalid (c : Constant) : ¬ c.Fits .invalid := by
  cases c <;> simp [Fits, Kind.isBoolean, Kind.isInteger, Kind.isFloat, Kind.isString]

namespace Arena

variable {a b : Arena} {t : TypeId} {τ : Ty} {c : Constant}

/-- The base of a name that has one which is no name. -/
theorem base_of_named {u : TypeId} (h : a.type? t = some (.named name (some u) e))
    (hu : a.type? u = some τ) (hτ : τ.isName = false) : a.baseType t = u ∧ a.base t = τ := by
  have hproper : a.IsProper u := by
    refine ⟨Option.isSome_iff_exists.mpr ⟨τ, hu⟩, ?_⟩
    rintro ⟨name', base', e', hn⟩
    rw [type_eq hu] at hn
    subst hn
    cases hτ
  have heq := baseType_of_hasBase ⟨name, e, type_eq h⟩ hproper
  exact ⟨heq, by rw [base, heq, type_eq hu]⟩

theorem Settled.has (h : a.Settled t) : a.Has t := by
  obtain ⟨τ, hτ, -⟩ := h
  exact Option.isSome_iff_exists.mpr ⟨τ, hτ⟩

theorem Settled.extend (h : a.Settled t) (hext : a.Extends b) : b.Settled t := by
  obtain ⟨τ, hτ, hsettled⟩ := h
  exact ⟨τ, hext.types t τ hτ, hsettled⟩

/-- Values are of types that are there. -/
theorem Suits.has (h : a.Suits t c) : a.Has t := by
  refine Option.isSome_iff_ne_none.mpr fun hnone => ?_
  have htype : a.type t = .basic .invalid := by rw [type, hnone, Option.getD_none, Ty.blank]
  have hbase : a.baseType t = t := by
    refine baseType_of_not_hasBase fun base hb => ?_
    obtain ⟨name, e, hb⟩ := hb
    rw [htype] at hb
    cases hb
  rw [Suits, base, hbase, htype] at h
  exact c.not_fits_invalid h

end Arena

namespace View

variable {v w : View} {t : TypeId} {e : EntityId} {x : Entity}

theorem Settled.has (h : v.Settled t) : v.Has t := Arena.Settled.has h

namespace Intact

variable (hv : v.Intact)

include hv

theorem has_basic (k : Kind) : v.Has (TypeId.basic k) := Option.isSome_iff_exists.mpr ⟨_, hv.basics k⟩

theorem settled_basic {k : Kind} (hk : k.isUntyped = false) : v.Settled (.basic k) :=
  ⟨.basic k, hv.basics k, by simp [Ty.isSettled, hk]⟩

theorem settled_invalid : v.Settled .invalid := hv.settled_basic rfl

/-- What the base of a type is: the type itself, or under its name another one that is settled and no name. -/
theorem base_cases (h : v.arena.type? t = some τ) :
    (∀ name b e, τ ≠ .named name (some b) e) ∧ v.arena.baseType t = t ∧ v.arena.base t = τ ∨
      ∃ name b e σ, τ = .named name (some b) e ∧ v.arena.type? b = some σ ∧ σ.isSettled ∧ σ.isName = false ∧
        v.arena.baseType t = b ∧ v.arena.base t = σ := by
  by_cases hnamed : ∃ name b e, τ = .named name (some b) e
  · obtain ⟨name, b, e, rfl⟩ := hnamed
    obtain ⟨σ, hσ, hsettled, hname⟩ := (hv.types t _ h).2 b rfl
    exact .inr ⟨name, b, e, σ, rfl, hσ, hsettled, hname, Arena.base_of_named h hσ hname⟩
  · have hτ : ∀ name b e, τ ≠ .named name (some b) e := fun name b e heq => hnamed ⟨name, b, e, heq⟩
    exact .inl ⟨hτ, Arena.baseType_of_type? h hτ, Arena.base_of_type? h hτ⟩

/-- The base of what is there does not change when slabs grow. -/
theorem base_extend (hext : v.arena.Extends b) (ht : v.Has t) : b.base t = v.arena.base t := by
  obtain ⟨τ, hτ⟩ := Option.isSome_iff_exists.mp ht
  have hτ' := hext.types t τ hτ
  rcases hv.base_cases hτ with ⟨hnot, -, hbase⟩ | ⟨name, c, e, σ, rfl, hσ, -, hname, -, hbase⟩
  · rw [hbase, Arena.base_of_type? hτ' hnot]
  · rw [hbase, (Arena.base_of_named hτ' (hext.types c σ hσ) hname).2]

/-- A value suits its type wherever there is more. -/
theorem suits_extend (hext : v.arena.Extends b) {c : Constant} (hc : v.arena.Suits t c) : b.Suits t c := by
  rw [Arena.Suits, hv.base_extend hext hc.has]
  exact hc

/-- Where slabs grow and declarations are added, what was right stays right. -/
theorem refines (hid : w.store.current.id = v.store.current.id) (hext : v.arena.Extends w.arena)
    (hscopes : ∀ h : ScopeId, v.Has h → w.Has h) (hdecls : v.decls ⊆ w.decls) : v.Refines w where
  scopes := hscopes
  entities e he := by
    obtain ⟨x, hx⟩ := Option.isSome_iff_exists.mp he
    obtain ⟨y, hy, -⟩ := hext.entities e x hx
    exact Option.isSome_iff_exists.mpr ⟨y, hy⟩
  typed e he := by
    obtain ⟨u, hu⟩ := Option.isSome_iff_exists.mp he
    exact Option.isSome_iff_exists.mpr ⟨u, hext.entity_type hu⟩
  types u τ hτ := ⟨τ, hext.types u τ hτ, rfl, rfl⟩
  suits u c hc := by
    have hu : v.Has u := hc.fits.has
    refine ⟨hv.suits_extend hext hc.fits, fun hslab name e hnamed => ?_⟩
    obtain ⟨τ, hτ⟩ := Option.isSome_iff_exists.mp hu
    have heq := hext.types u τ hτ
    rw [hnamed] at heq
    cases heq
    obtain ⟨scope, z, hmem, hz⟩ := hc.opened (hslab.trans hid) name e hτ
    exact ⟨scope, z, hdecls hmem, hz⟩

/-- A change keeps slabs intact if what it adds is valid. -/
theorem next (hr : v.Refines w) (hbasics : w.arena.HasBasics)
    (hliterals : ∀ e x, v.arena.entity? e = some x → e ∈ Universe.literals →
      ∃ y, w.arena.entity? e = some y ∧ y.kind = x.kind ∧ ∀ t, x.type = some t → y.type = some t)
    (hscopes : ∀ h c, w.arena.scope? h = some c → v.arena.scope? h = some c ∨ c.Valid w)
    (hentities : ∀ e x, w.arena.entity? e = some x → v.arena.entity? e = some x ∨ x.Valid w e)
    (htypes : ∀ u τ, w.arena.type? u = some τ → v.arena.type? u = some τ ∨ τ.Valid w)
    (hadopted : ∀ p ∈ w.store.current.adopted, p ∈ v.store.current.adopted ∨ w.Has p.1 ∧ w.Has p.2)
    (htouched : ∀ e ∈ w.store.current.touched, e ∈ v.store.current.touched ∨ w.Has e) : w.Intact where
  basics := hbasics
  global := hr.has hv.global
  literals e he := by
    obtain ⟨x, hx, hliteral⟩ := hv.literals e he
    obtain ⟨y, hy, hkind, htype⟩ := hliterals e x hx he
    refine ⟨y, hy, ?_⟩
    rcases hliteral with ⟨hnil, hx⟩ | ⟨b, hbool, hx⟩
    · exact .inl ⟨hkind.trans hnil, htype _ hx⟩
    · exact .inr ⟨b, hkind.trans hbool, htype _ hx⟩
  scopes h c hc := (hscopes h c hc).elim (fun hc => hr.scope (hv.scopes h c hc)) id
  entities e x hx := (hentities e x hx).elim (fun hx => hr.entity (hv.entities e x hx)) id
  types u τ hτ := (htypes u τ hτ).elim (fun hτ => hr.ty (hv.types u τ hτ)) id
  adopted p hp := (hadopted p hp).elim (fun hp => ⟨hr.has (hv.adopted p hp).1, hr.has (hv.adopted p hp).2⟩) id
  touched e he := (htouched e he).elim (fun he => hr.has (hv.touched e he)) id

end Intact

end View

/-! ## Changes of the slab -/

namespace Pass.Valid

variable {s : Pass} {store : Store}

/-- A change of the slab keeps the rest valid. -/
theorem onStore (hs : s.Valid) (hr : s.view.Refines ⟨store, s.decls⟩) (hv : View.Intact ⟨store, s.decls⟩) :
    Pass.Valid { s with store := store } where
  intact := hv
  noted p hp := hr.note (hs.noted p hp)
  defined p hp := hr.has (hs.defined p hp)
  referred p hp := hr.has (hs.referred p hp)
  opened p hp := hr.has (hs.opened p hp)
  decls p hp := ⟨hr.has (hs.decls p hp).1, hr.declaration (hs.decls p hp).2⟩
  unique := hs.unique
  queue b hb := hr.body (hs.queue b hb)
  foreigns p hp := hr.has (hs.foreigns p hp)
  files p hp := hr.has (hs.files p hp)
  imports e he := hr.has (hs.imports e he)

/-- A change of the slab that only adds to it. -/
theorem leads_onStore (hs : s.Valid) (hstep : s.store.Step store) (hg : s.store.Grows store)
    (hscopes : ∀ h : ScopeId, s.view.Has h → (⟨store, s.decls⟩ : View).Has h)
    (hv : s.view.Refines ⟨store, s.decls⟩ → store.arena.HasBasics → View.Intact ⟨store, s.decls⟩) :
    s.Leads { s with store := store } := by
  have hr : s.view.Refines ⟨store, s.decls⟩ :=
    hs.intact.refines hg.id hg.toExtends hscopes (List.Subset.refl _)
  exact ⟨.step (.here hs) (.store hstep) (hs.onStore hr (hv hr (hs.intact.basics.extend hg.toExtends))), .of_store hg,
    hr⟩

end Pass.Valid

attribute [local grind =] Pass.view View.arena View.Has Arena.Has

namespace Check

variable {s : Pass}

/-! ### New types and entities -/

theorem leads_newType (hs : s.Valid) (hτ : τ.Valid s) : s.Leads { s with store := (s.store.newType τ).2 } := by
  refine hs.leads_onStore (.newType hτ) (.newType ..) (by grind) fun hr hbasics => ?_
  have hnew := hr.ty hτ
  apply hs.intact.next hr hbasics <;> grind [Store.newType]

theorem yields_newType (hτ : s.Valid → τ.Valid s) :
    Yields s (newType τ) fun u t => u = (s.store.newType τ).1 ∧ t.store.arena.type? u = some τ :=
  yields_of_ok rfl (fun hs => leads_newType hs (hτ hs)) fun _ => ⟨rfl, (Store.type?_newType ..).trans (if_pos rfl)⟩

theorem not_has_newEntity (s : Pass) (x : Entity) : ¬ s.view.Has (s.store.newEntity x).1 := by grind

theorem newEntity_not_mem_literals (hs : s.Valid) (x : Entity) : (s.store.newEntity x).1 ∉ Universe.literals := by
  intro hmem
  obtain ⟨y, hy, -⟩ := hs.intact.literals _ hmem
  exact not_has_newEntity s x (Option.isSome_iff_exists.mpr ⟨y, hy⟩)

theorem leads_newEntity (hs : s.Valid) (hx : x.Valid s (s.store.newEntity x).1) :
    s.Leads { s with store := (s.store.newEntity x).2 } := by
  refine hs.leads_onStore (.newEntity x) (.newEntity ..) (by grind) fun hr hbasics => ?_
  have hnew := hr.entity hx
  have hliteral := newEntity_not_mem_literals hs x
  apply hs.intact.next hr hbasics <;> grind [Store.newEntity]

/-- A new entity is there, and no declaration is about it. -/
structure IsNew (s : Pass) (e : EntityId) (x : Entity) (t : Pass) : Prop where
  read : t.store.arena.entity? e = some x
  not_literal : e ∉ Universe.literals
  free : ∀ d, (e, d) ∉ t.decls

theorem IsNew.has {t : Pass} (h : IsNew s e x t) : t.view.Has e :=
  Option.isSome_iff_exists.mpr ⟨x, h.read⟩

/-- A new entity with a type may be a field. -/
theorem IsNew.isField {t : Pass} (h : IsNew s e x t) (hx : x.type.isSome) : t.view.IsField e :=
  ⟨h.has, h.not_literal, by rwa [Arena.entity_eq (show t.view.arena.entity? e = some x from h.read)]⟩

theorem yields_newEntity (hx : s.Valid → ∀ e, x.Valid s e) : Yields s (newEntity x) fun e t => IsNew s e x t :=
  .of_valid fun hs => yields_of_ok rfl (fun hs => leads_newEntity hs (hx hs _)) fun _ =>
    ⟨(Store.entity?_newEntity ..).trans (if_pos rfl), newEntity_not_mem_literals hs x,
      fun _ hd => not_has_newEntity s x (hs.decls _ hd).1⟩

/-! ### Scopes -/

theorem leads_openScope (hs : s.Valid) {parent : ScopeId} {kind : ScopeKind} (hparent : s.view.Has parent)
    (hkind : kind ≠ .global) :
    s.Leads { s with store := (s.store.openScope parent kind).2 } ∧
      (⟨(s.store.openScope parent kind).2, s.decls⟩ : View).Has (s.store.openScope parent kind).1 := by
  refine ⟨hs.leads_onStore (.openScope hparent hkind) (.openScope ..) (by grind) fun hr hbasics => ?_, by grind⟩
  have hchildren {h : ScopeId} {c : Scope}
    (hc : ∀ p ∈ c.children, View.Has ⟨(s.store.openScope parent kind).2, s.decls⟩ p) :
      ∀ p ∈ s.store.offspring parent kind h c, View.Has ⟨(s.store.openScope parent kind).2, s.decls⟩ p := by
    grind [Store.offspring]
  have hscope (h : ScopeId) (c : Scope) (hc : (s.store.openScope parent kind).2.arena.scope? h = some c) :
      c.Valid ⟨(s.store.openScope parent kind).2, s.decls⟩ := by
    rw [Store.scope?_openScope] at hc
    split at hc
    · cases hc
      exact ⟨fun p hp => Option.some.inj hp ▸ hr.has hparent, hchildren (by simp), fun p hp => by cases hp⟩
    · obtain ⟨c', hc', rfl⟩ := Option.map_eq_some_iff.mp hc
      have hold := hr.scope (hs.intact.scopes h c' hc')
      exact ⟨hold.parent, hchildren hold.children, hold.bound⟩
  have hkept := hr.scopes parent hparent
  apply hs.intact.next hr hbasics <;> grind [Store.adopted_openScope]

theorem leads_bind (hs : s.Valid) {h : ScopeId} (hh : s.view.Has h) (he : s.view.Has e) :
    s.Leads { s with store := (s.store.bind h e).2 } := by
  refine hs.leads_onStore (.bind hh he) (.bind ..) (by grind) fun hr hbasics => ?_
  have hscope {g : ScopeId} {c : Scope} (hc : s.store.arena.scope? g = some c) (name : String) :
      Scope.Valid ⟨(s.store.bind h e).2, s.decls⟩ { c with bindings := c.bindings.insert name e } := by
    have hold := hr.scope (hs.intact.scopes g c hc)
    refine ⟨hold.parent, hold.children, fun b hb => ?_⟩
    rw [Bindings.entities_insert] at hb
    rcases List.mem_append.mp hb with hb | hb
    · exact hold.bound b hb
    · exact List.mem_singleton.mp hb ▸ hr.has he
  have hentity {e' : EntityId} {x : Entity} (hx : s.store.arena.entity? e' = some x) :
      Entity.Valid ⟨(s.store.bind h e).2, s.decls⟩ e' { x with home := x.home.or (some h) } := by
    have hold := hr.entity (hs.intact.entities e' x hx)
    have hhome := hr.has hh
    exact ⟨fun g hg => by grind [Option.or_eq_some_iff, hold.home], hold.through, hold.scope, hold.type, hold.value,
      hold.innate⟩
  apply hs.intact.next hr hbasics <;> grind [Option.map_eq_some_iff]

/-! ### Changes of entities -/

/-- An entity may be changed to another that is valid at its place. -/
theorem leads_modifyEntity (hs : s.Valid) (he : s.view.Has e) {f : Entity → Entity} (hkeeps : ∀ x, Entity.Keeps x (f x))
    (hf : ∀ x, e.slab = s.store.current.id → s.store.arena.entity? e = some x → x.Valid s e → (f x).Valid s e)
    (hkind : ∀ x, s.store.arena.entity? e = some x → e ∈ Universe.literals → (f x).kind = x.kind) :
    s.Leads { s with store := s.store.modifyEntity e f } := by
  refine hs.leads_onStore (.modifyEntity he hkeeps) (.modifyEntity _ e hkeeps) (by grind) fun hr hbasics => ?_
  have hnew (x : Entity) (hl : e.slab = s.store.current.id) (hx : s.store.arena.entity? e = some x) :=
    hr.entity (hf x hl hx (hs.intact.entities e x hx))
  have htype (x : Entity) := (hkeeps x).type
  apply hs.intact.next hr hbasics <;> grind [Option.map_eq_some_iff]

theorem leads_markUsed (hs : s.Valid) (he : s.view.Has e) : s.Leads { s with store := s.store.markUsed e } := by
  by_cases hlocal : s.store.isLocal e
  · rw [Store.markUsed, if_pos hlocal]
    exact leads_modifyEntity hs he (fun _ => ⟨rfl, rfl, rfl, rfl, fun _ h => h, fun v h => ⟨v, h⟩⟩)
      (fun _ _ _ hx => { hx with }) fun _ _ _ => rfl
  · refine hs.leads_onStore (.markUsed he) (.markUsed ..) (by grind) fun hr hbasics => ?_
    have hsame := hr.entities
    apply hs.intact.next hr hbasics <;> grind [Store.markUsed, Store.isLocal]

/-! ## Other changes -/

/-- A change of what validity does not depend on. -/
theorem leads_of_view {t : Pass} (hs : s.Valid) (hstep : s.Step t) (hg : s.Grows t) (hview : t.view = s.view)
    (ht : t.Valid) : s.Leads t :=
  ⟨.step (.here hs) hstep ht, hg, hview ▸ .refl _⟩

/-- A declaration may be kept for a thing. If it is that of a named type, no other may be known for it. -/
theorem leads_await (hs : s.Valid) {p : EntityId × Declaration} (he : s.view.Has p.1) (hp : p.2.Valid s)
    (hnew : ∀ scope x, p.2 = .type scope x → ∀ d, (p.1, d) ∉ s.decls) : s.Leads { s with decls := p :: s.decls } := by
  have hr : s.view.Refines ⟨s.store, p :: s.decls⟩ :=
    hs.intact.refines rfl (Store.Grows.refl s.store).toExtends (fun _ h => h) (List.subset_cons_self ..)
  have hintact : View.Intact ⟨s.store, p :: s.decls⟩ :=
    hs.intact.next hr hs.intact.basics (fun _ x hx _ => ⟨x, hx, rfl, fun _ ht => ht⟩) (fun _ _ hc => .inl hc)
      (fun _ _ hx => .inl hx) (fun _ _ hτ => .inl hτ) (fun _ hp => .inl hp) fun _ he => .inl he
  refine ⟨.step (.here hs) (.await p) ?_, ⟨.refl _, List.suffix_cons .., List.suffix_refl _⟩, hr⟩
  refine
    { intact := hintact
      noted := fun q hq => hr.note (hs.noted q hq)
      defined := fun q hq => hr.has (hs.defined q hq)
      referred := fun q hq => hr.has (hs.referred q hq)
      opened := fun q hq => hr.has (hs.opened q hq)
      decls := fun q hq => ?_
      unique := fun e scope x scope' x' hx hx' => ?_
      queue := fun b hb => hr.body (hs.queue b hb)
      foreigns := fun q hq => hr.has (hs.foreigns q hq)
      files := fun q hq => hr.has (hs.files q hq)
      imports := fun e he => hr.has (hs.imports e he) }
  · rcases List.mem_cons.mp hq with rfl | hq
    · exact ⟨hr.has he, hr.declaration hp⟩
    · exact ⟨hr.has (hs.decls q hq).1, hr.declaration (hs.decls q hq).2⟩
  · rcases List.mem_cons.mp hx with heq | hold <;> rcases List.mem_cons.mp hx' with heq' | hold'
    · cases heq.trans heq'.symm
      rfl
    · subst heq
      exact absurd hold' (hnew scope x rfl _)
    · subst heq'
      exact absurd hold (hnew scope' x' rfl _)
    · exact hs.unique e scope x scope' x' hold hold'

/-! ## Types that are filled in -/

end Check

namespace Ty.Completes

variable {σ τ : Ty}

theorem isSettled_eq (h : σ.Completes τ) : τ.isSettled = σ.isSettled := by cases h <;> rfl

theorem isName_eq (h : σ.Completes τ) : τ.isName = σ.isName := by cases h <;> rfl

end Ty.Completes

namespace Check

variable {s : Pass}

/-- A type that was allocated without all of its parts gets them: an enum its members, a name its base. -/
structure Fills (s : Pass) (u : TypeId) (f : Ty → Ty) : Prop where
  completes : ∀ τ, s.store.arena.type? u = some τ → τ.Completes (f τ)
  refines : s.view.Refines ⟨s.store.modifyType u f, s.decls⟩
  intact : View.Intact ⟨s.store.modifyType u f, s.decls⟩

variable {u : TypeId} {f : Ty → Ty} {τ : Ty}

theorem read_fill (hu : u.slab = s.store.current.id) (hτ : s.store.arena.type? u = some τ) (t : TypeId) :
    (s.store.modifyType u f).arena.type? t = if t = u then some (f τ) else s.store.arena.type? t := by
  grind

/-- A type may be filled in, if what it refers to then is valid and the values of all types stay theirs. -/
theorem fills_of_read (hs : s.Valid) (hu : u.slab = s.store.current.id)
    (hτ : s.store.arena.type? u = some τ) (hcompletes : τ.Completes (f τ))
    (hsuits : ∀ t c, s.view.Suits t c → (⟨s.store.modifyType u f, s.decls⟩ : View).Suits t c)
    (hvalid : s.view.Refines ⟨s.store.modifyType u f, s.decls⟩ → (f τ).Valid ⟨s.store.modifyType u f, s.decls⟩) :
    Fills s u f := by
  have hsettled := hcompletes.isSettled_eq
  have hname := hcompletes.isName_eq
  have hr : s.view.Refines ⟨s.store.modifyType u f, s.decls⟩ :=
    ⟨by grind, by grind, by grind [Arena.entity], by grind, hsuits⟩
  have hbasics : (s.store.modifyType u f).arena.HasBasics := fun k => by
    have hk := hs.intact.basics k
    have hne : TypeId.basic k ≠ u := by
      rintro rfl
      cases hk.symm.trans hτ
      cases hcompletes
    grind
  have hnew := hvalid hr
  refine ⟨by grind, hr, ?_⟩
  apply hs.intact.next hr hbasics <;> grind

/-- An enum may get its members. -/
theorem fills_enum (hs : s.Valid) {old members : List EntityId} (hu : u.slab = s.store.current.id)
    (hτ : s.store.arena.type? u = some (.enum base old)) (hmembers : ∀ m ∈ members, s.view.IsField m) :
    Fills s u fun _ => .enum base members := by
  have hread := read_fill (f := fun _ => .enum base members) hu hτ
  refine fills_of_read hs hu hτ (.enum base old members) (fun t c hc => ?_) fun hr =>
    ⟨hr.settled (hs.intact.types u _ hτ).1, fun m hm => hr.isField (hmembers m hm)⟩
  obtain ⟨σ, hσ⟩ := Option.isSome_iff_exists.mp (show (s.store.arena.type? t).isSome from hc.fits.has)
  refine ⟨?_, fun hslab name e hnamed => ?_⟩
  · have hfits := hc.fits
    rw [Arena.Suits] at hfits
    rw [Arena.Suits, View.arena]
    rcases hs.intact.base_cases hσ with ⟨hnot, -, hbase⟩ | ⟨name, b, e, ρ, rfl, hρ, -, hname, -, hbase⟩
    · rw [hbase] at hfits
      by_cases ht : t = u
      · subst ht
        cases hσ.symm.trans hτ
        rw [Arena.base_of_type? ((hread t).trans (if_pos rfl)) fun _ _ _ h => by cases h]
        exact hfits
      · rw [Arena.base_of_type? ((hread t).trans ((if_neg ht).trans hσ)) hnot]
        exact hfits
    · have ht : t ≠ u := by
        rintro rfl
        cases hσ.symm.trans hτ
      have ht' := (hread t).trans ((if_neg ht).trans hσ)
      rw [hbase] at hfits
      by_cases hb : b = u
      · subst hb
        cases hρ.symm.trans hτ
        rw [(Arena.base_of_named ht' ((hread b).trans (if_pos rfl)) rfl).2]
        exact hfits
      · rw [(Arena.base_of_named ht' ((hread b).trans ((if_neg hb).trans hρ)) hname).2]
        exact hfits
  · rw [View.arena, hread] at hnamed
    split at hnamed
    · cases hnamed
    · exact hc.opened (hslab.trans (s.store.id_modifyType u _)) name e hnamed

/-- A name may get its base, if that is an enum where the name was declared as one. -/
theorem fills_named (hs : s.Valid) (hu : u.slab = s.store.current.id)
    (hτ : s.store.arena.type? u = some (.named name none e)) (hbase : s.store.arena.Unnamed base)
    (henum : s.view.NamesEnum e → ∃ b members, s.store.arena.type? base = some (.enum b members)) :
    Fills s u (Ty.withBase base) := by
  have hread := read_fill (f := Ty.withBase base) hu hτ
  refine fills_of_read hs hu hτ (.named name base e) (fun t c hc => ?_) fun hr => ?_
  · obtain ⟨σ, hσ⟩ := Option.isSome_iff_exists.mp (show (s.store.arena.type? t).isSome from hc.fits.has)
    refine ⟨?_, fun hslab name' e' hnamed => ?_⟩
    · have hfits := hc.fits
      rw [Arena.Suits] at hfits
      rw [Arena.Suits, View.arena]
      rcases hs.intact.base_cases hσ with ⟨hnot, -, heq⟩ | ⟨name', b, e', ρ, rfl, hρ, -, hname, -, heq⟩
      · rw [heq] at hfits
        by_cases ht : t = u
        · -- a value of the name is there only because an enum is being declared
          subst ht
          cases hσ.symm.trans hτ
          obtain ⟨b, members, hb⟩ := henum (hc.opened hu name e hτ)
          have hne : base ≠ t := by
            rintro rfl
            cases hb.symm.trans hτ
          rw [(Arena.base_of_named ((hread t).trans (if_pos rfl)) ((hread base).trans ((if_neg hne).trans hb)) rfl).2]
          exact hfits
        · rw [Arena.base_of_type? ((hread t).trans ((if_neg ht).trans hσ)) hnot]
          exact hfits
      · have ht : t ≠ u := by
          rintro rfl
          cases hσ.symm.trans hτ
        have hb : b ≠ u := by
          rintro rfl
          cases hρ.symm.trans hτ
          cases hname
        rw [heq] at hfits
        rw [(Arena.base_of_named ((hread t).trans ((if_neg ht).trans hσ)) ((hread b).trans ((if_neg hb).trans hρ))
          hname).2]
        exact hfits
    · rw [View.arena, hread] at hnamed
      split at hnamed
      · cases hnamed
      · exact hc.opened (hslab.trans (s.store.id_modifyType u _)) name' e' hnamed
  · refine ⟨hr.has (hs.intact.types u _ hτ).1, fun b hb => ?_⟩
    cases hb
    exact hr.unnamed hbase

end Check

end Statics
