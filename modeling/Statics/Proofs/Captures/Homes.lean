import Statics.Proofs.Growth

/-!
# Homes of variables

The home of a variable is the scope that it was bound in first, and its storage belongs to the procedure of that
scope. A parameter is bound again in the scope of the body, and `using` binds the variables of another file wherever
it exposes the import. `Arena.Housed` says that nothing else happens. So where a name is found tells where its storage
is: in the same procedure, or at file level.
-/

namespace Statics

variable {x : Entity} {f : ScopeId}

/-! ## What stays of entities and scopes -/

/-- What no step changes in an entity: its sort, what it stands for, and its home once it has one. -/
structure Entity.Stays (x y : Entity) : Prop where
  sort : y.kind.name = x.kind.name
  field : y.isField = x.isField
  through : y.through = x.through
  home : ∀ h, x.home = some h → y.home = some h

@[grind .]
theorem Entity.Stays.refl (x : Entity) : x.Stays x := ⟨rfl, rfl, rfl, fun _ h => h⟩

theorem Entity.Stays.trans {y z : Entity} (h : x.Stays y) (h' : y.Stays z) : x.Stays z where
  sort := h'.sort.trans h.sort
  field := h'.field.trans h.field
  through := h'.through.trans h.through
  home f hf := h'.home f (h.home f hf)

theorem Entity.Stays.of_settles {y : Entity} (h : x.Settles y) : x.Stays y :=
  ⟨h.kind, h.field, h.through, fun _ hf => h.home.trans hf⟩

namespace Arena

/-- Entities and scopes stay: no scope changes its kind or place. -/
structure Stays (a b : Arena) : Prop where
  entities : ∀ e x, a.entity? e = some x → ∃ y, b.entity? e = some y ∧ x.Stays y
  scopes : ∀ f c, a.scope? f = some c → ∃ d, b.scope? f = some d ∧ d.parent = c.parent ∧ d.kind = c.kind

/-- Going out from a scope to another one in the same procedure, through blocks alone. -/
inductive Within (a : Arena) : ScopeId → ScopeId → Prop where
  | here (f : ScopeId) : Within a f f
  | out {f p h : ScopeId} : (a.scope f).kind = .block → (a.scope f).parent = some p → Within a p h → Within a f h

/-- A scope is that of a file, or the global one. -/
def IsFileLevel (a : Arena) (f : ScopeId) : Prop := ∃ c, a.scope? f = some c ∧ c.kind.isFileLevel

theorem scope?_of_parent {a : Arena} {p : ScopeId} (h : (a.scope f).parent = some p) :
    a.scope? f = some (a.scope f) := by
  cases hc : a.scope? f with
  | none => simp [scope, hc, Scope.blank] at h
  | some c => simp [scope, hc]

namespace Stays

variable {a b c : Arena}

theorem refl (a : Arena) : a.Stays a := ⟨fun _ x h => ⟨x, h, .refl x⟩, fun _ c h => ⟨c, h, rfl, rfl⟩⟩

theorem trans (h : a.Stays b) (h' : b.Stays c) : a.Stays c where
  entities e x hx := by
    obtain ⟨y, hy, hxy⟩ := h.entities e x hx
    obtain ⟨z, hz, hyz⟩ := h'.entities e y hy
    exact ⟨z, hz, hxy.trans hyz⟩
  scopes f x hx := by
    obtain ⟨y, hy, hparent, hkind⟩ := h.scopes f x hx
    obtain ⟨z, hz, hparent', hkind'⟩ := h'.scopes f y hy
    exact ⟨z, hz, hparent'.trans hparent, hkind'.trans hkind⟩

theorem within (h : a.Stays b) {g : ScopeId} (hw : a.Within f g) : b.Within f g := by
  induction hw with
  | here f => exact .here f
  | @out f p g hkind hparent _ ih =>
    obtain ⟨d, hd, hdparent, hdkind⟩ := h.scopes f _ (scope?_of_parent hparent)
    have hscope : b.scope f = d := by simp [scope, hd]
    exact .out (by rw [hscope, hdkind, hkind]) (by rw [hscope, hdparent, hparent]) ih

theorem isFileLevel (h : a.Stays b) : a.IsFileLevel f → b.IsFileLevel f := by
  rintro ⟨c, hc, hkind⟩
  obtain ⟨d, hd, -, hdkind⟩ := h.scopes f c hc
  exact ⟨d, hd, by rwa [hdkind]⟩

theorem isConstant (h : a.Stays b) {e : EntityId} : a.IsConstant e → b.IsConstant e := by
  rintro ⟨x, v, hx, hkind⟩
  obtain ⟨y, hy, hxy⟩ := h.entities e x hx
  have hsort := hxy.sort
  rw [hkind] at hsort
  cases hykind : y.kind with
  | constant w => exact ⟨y, w, hy, hykind⟩
  | _ => simp [hykind, EntityKind.name] at hsort

end Stays

/-! ## Housed variables -/

/-- The home of a variable that is bound in a scope: it lies in the same procedure, or at file level. -/
def Houses (a : Arena) (f : ScopeId) (x : Entity) : Prop := ∃ h, x.home = some h ∧ (a.Within f h ∨ a.IsFileLevel h)

/-- An entity may be bound in a scope: if it is a variable, then its home is where it can be, and it is a field exactly
if it was exposed. -/
def Lodges (a : Arena) (f : ScopeId) (e : EntityId) : Prop :=
  ∃ x, a.entity? e = some x ∧ (x.kind.name = "variable" → x.isField = x.through.isSome ∧ a.Houses f x)

/-- What is bound has its home where it can be, imports stand for files, and members of enums are constants. -/
structure Housed (a : Arena) : Prop where
  bound : ∀ f, ∀ e ∈ (a.scope f).bindings.entities, a.Lodges f e
  imports : ∀ e x info, a.entity? e = some x → x.kind = .importName info → a.IsFileLevel info.scope
  enums : ∀ t τ, a.type? t = some τ → ∀ m ∈ τ.enumerated, a.IsConstant m

variable {a b : Arena}

theorem Stays.lodges (h : a.Stays b) {e : EntityId} : a.Lodges f e → b.Lodges f e := by
  rintro ⟨x, hx, hvar⟩
  obtain ⟨y, hy, hxy⟩ := h.entities e x hx
  refine ⟨y, hy, fun hsort => ?_⟩
  obtain ⟨hfield, g, hhome, hplace⟩ := hvar (hxy.sort.symm.trans hsort)
  refine ⟨by rw [hxy.field, hxy.through, hfield], g, hxy.home g hhome, ?_⟩
  exact hplace.imp h.within h.isFileLevel

/-- A step keeps variables housed if this can be said of what it adds. -/
theorem Housed.stays (ha : a.Housed) (h : a.Stays b)
    (hbound : ∀ f, ∀ e ∈ (b.scope f).bindings.entities, e ∈ (a.scope f).bindings.entities ∨ b.Lodges f e)
    (himports : ∀ e y info, b.entity? e = some y → y.kind = .importName info →
      (∃ x, a.entity? e = some x ∧ x.kind = .importName info) ∨ b.IsFileLevel info.scope)
    (henums : ∀ t τ, b.type? t = some τ → a.type? t = some τ ∨ ∀ m ∈ τ.enumerated, b.IsConstant m) : b.Housed where
  bound f e he := (hbound f e he).elim (fun he => h.lodges (ha.bound f e he)) id
  imports e y info hy hkind :=
    (himports e y info hy hkind).elim (fun ⟨x, hx, hx'⟩ => h.isFileLevel (ha.imports e x info hx hx')) id
  enums t τ hτ m hm := (henums t τ hτ).elim (fun hτ => h.isConstant (ha.enums t τ hτ m hm)) fun hnew => hnew m hm

/-! ## Steps that bind only what is new -/

/-- Variables stay housed, and no entity that was there gets a home. -/
structure Shelters (a b : Arena) : Prop where
  stays : a.Stays b
  homeless : ∀ e x, a.entity? e = some x → x.home = none → ∃ y, b.entity? e = some y ∧ y.home = none
  housed : a.Housed → b.Housed

namespace Shelters

variable {c : Arena}

theorem refl (a : Arena) : a.Shelters a := ⟨.refl a, fun _ x hx hnone => ⟨x, hx, hnone⟩, id⟩

theorem trans (h : a.Shelters b) (h' : b.Shelters c) : a.Shelters c where
  stays := h.stays.trans h'.stays
  homeless e x hx hnone := by
    obtain ⟨y, hy, hynone⟩ := h.homeless e x hx hnone
    exact h'.homeless e y hy hynone
  housed ha := h'.housed (h.housed ha)

end Shelters

end Arena

namespace Store

open Arena

theorem shelters_modifyEntity (s : Store) (e : EntityId) {g : Entity → Entity}
    (hg : ∀ x, x.Stays (g x) ∧ (g x).home = x.home ∧ ∀ info, (g x).kind = .importName info →
    x.kind = .importName info) : s.arena.Shelters (s.modifyEntity e g).arena := by
  have hstays : s.arena.Stays (s.modifyEntity e g).arena := by constructor <;> grind
  refine ⟨hstays, by grind, fun ha => ha.stays hstays ?_ ?_ ?_⟩
  · grind [scope]
  · grind [Option.map_eq_some_iff]
  · grind

/-- Types may be added, and filled in, if the members of enums are constants. -/
theorem shelters_of_types {a b : Arena} (he : ∀ e, b.entity? e = a.entity? e) (hs : ∀ f, b.scope? f = a.scope? f)
    (ht : a.Housed → ∀ u τ, b.type? u = some τ → a.type? u = some τ ∨ ∀ m ∈ τ.enumerated, a.IsConstant m) :
    a.Shelters b := by
  have hstays : a.Stays b := by constructor <;> grind
  refine ⟨hstays, by grind, fun ha => ha.stays hstays ?_ ?_ ?_⟩
  · grind [scope]
  · grind
  · exact fun u τ hτ => (ht ha u τ hτ).imp_right fun hm m hmem => hstays.isConstant (hm m hmem)

theorem shelters_markUsed (s : Store) (e : EntityId) : s.arena.Shelters (s.markUsed e).arena := by
  by_cases hl : s.isLocal e
  · rw [markUsed, if_pos hl]
    exact s.shelters_modifyEntity e fun x => ⟨⟨rfl, rfl, rfl, fun _ h => h⟩, rfl, fun _ h => h⟩
  · exact shelters_of_types (by grind [isLocal]) (s.scope?_markUsed e) (by grind)

theorem stays_newEntity (s : Store) (x : Entity) : s.arena.Stays (s.newEntity x).2.arena := by
  constructor <;> grind

/-- An entity may be added, and an import if it stands for a file. -/
theorem shelters_newEntity (s : Store)
    (hx : s.arena.Housed → ∀ info, x.kind = .importName info → s.arena.IsFileLevel info.scope) :
    s.arena.Shelters (s.newEntity x).2.arena := by
  have hstays := s.stays_newEntity x
  refine ⟨hstays, by grind, fun ha => ha.stays hstays ?_ (fun e y info hy hkind => ?_) ?_⟩
  · grind [scope]
  · have := hx ha info
    grind [hstays.isFileLevel]
  · grind

theorem shelters_newType (s : Store) {τ : Ty} (hτ : τ.enumerated = []) : s.arena.Shelters (s.newType τ).2.arena :=
  shelters_of_types (s.entity?_newType τ) (s.scope?_newType τ) (by grind)

theorem shelters_modifyType (s : Store) (u : TypeId) {g : Ty → Ty}
    (hg : s.arena.Housed → ∀ τ, s.arena.type? u = some τ → ∀ m ∈ (g τ).enumerated, s.arena.IsConstant m) :
    s.arena.Shelters (s.modifyType u g).arena :=
  shelters_of_types (s.entity?_modifyType u g) (s.scope?_modifyType u g) (by grind [Option.map_eq_some_iff])

theorem shelters_openScope (s : Store) (parent : ScopeId) (kind : ScopeKind) :
    s.arena.Shelters (s.openScope parent kind).2.arena := by
  have hstays : s.arena.Stays (s.openScope parent kind).2.arena := by constructor <;> grind
  refine ⟨hstays, by grind, fun ha => ha.stays hstays ?_ ?_ ?_⟩
  · intro f e he
    cases hc : s.arena.scope? f <;> grind [scope, Scope.blank, Bindings.entities, Bindings.empty]
  · grind
  · grind

/-! ## Binding -/

/-- An entity may be bound in a scope, if that can be its home. -/
def MayBind (s : Store) (f : ScopeId) (e : EntityId) : Prop :=
  ∃ x, s.arena.entity? e = some x ∧ (x.kind.name = "variable" →
    x.isField = x.through.isSome ∧ (x.home = none ∧ e.slab = s.current.id ∨ s.arena.Houses f x))

section

variable {s : Store} {f : ScopeId} {e : EntityId}

theorem stays_bind (s : Store) (f : ScopeId) (e : EntityId) : s.arena.Stays (s.bind f e).2.arena := by
  have hx (x : Entity) : x.Stays { x with home := x.home.or (some f) } := ⟨rfl, rfl, rfl, fun h hh => by simp [hh]⟩
  constructor <;> grind

/-- Whatever may be bound in a scope may still be, when something is bound there. -/
theorem MayBind.bind {e' : EntityId} (h : s.MayBind f e') (e : EntityId) : (s.bind f e).2.MayBind f e' := by
  have hstays := s.stays_bind f e
  obtain ⟨x, hx, hvar⟩ := h
  rw [MayBind, entity?_bind, hx]
  split
  case isTrue =>
    refine ⟨_, rfl, fun hsort => ⟨(hvar hsort).1, .inr ?_⟩⟩
    obtain ⟨hnone, -⟩ | ⟨g, hhome, hplace⟩ := (hvar hsort).2
    · exact ⟨f, by simp [hnone], .inl (.here f)⟩
    · exact ⟨g, by simp [hhome], hplace.imp hstays.within hstays.isFileLevel⟩
  case isFalse =>
    refine ⟨x, rfl, fun hsort => ⟨(hvar hsort).1, ?_⟩⟩
    obtain ⟨hnone, hlocal⟩ | ⟨g, hhome, hplace⟩ := (hvar hsort).2
    · exact .inl ⟨hnone, by rw [hlocal, id_bind]⟩
    · exact .inr ⟨g, hhome, hplace.imp hstays.within hstays.isFileLevel⟩

/-- Binding keeps variables housed where it may be done. -/
theorem housed_bind (ha : s.arena.Housed) (hmay : s.MayBind f e) : (s.bind f e).2.arena.Housed := by
  obtain ⟨x, hx, hvar⟩ := hmay.bind e
  refine ha.stays (s.stays_bind f e) (fun f' e' he => ?_) (by grind [Option.map_eq_some_iff]) (by grind)
  by_cases heq : s.Takes f e ∧ f' = f ∧ e' = e
  · obtain ⟨htakes, rfl, rfl⟩ := heq
    refine .inr ⟨x, hx, fun hsort => ⟨(hvar hsort).1, (hvar hsort).2.elim (fun ⟨hnone, hlocal⟩ => ?_) id⟩⟩
    grind [Option.map_eq_some_iff, MayBind]
  · cases hc : s.arena.scope? f' <;> grind [scope, Scope.blank, Bindings.entities_insert]

/-- A new entity may be bound. -/
theorem mayBind_newEntity (s : Store) (f : ScopeId) (hx : x.IsNew) : (s.newEntity x).2.MayBind f (s.newEntity x).1 :=
  ⟨x, by rw [entity?_newEntity, if_pos rfl], fun _ => ⟨hx.field, .inl ⟨hx.home, rfl⟩⟩⟩

/-- A new entity may be bound at once. -/
theorem shelters_newBound (s : Store) (f : ScopeId) (hord : x.isOrdinary) (hx : x.IsNew) :
    s.arena.Shelters ((s.newEntity x).2.bind f (s.newEntity x).1).2.arena := by
  have hnew := s.shelters_newEntity (x := x) fun _ info hkind => by simp [Entity.isOrdinary, hkind] at hord
  refine ⟨hnew.stays.trans (stays_bind ..), by grind, fun ha => ?_⟩
  exact housed_bind (hnew.housed ha) (s.mayBind_newEntity f hx)

end

end Store

end Statics
