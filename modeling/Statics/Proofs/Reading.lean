import Mathlib.Data.List.Basic
import Statics.Arena.Store

/-!
# Reading a store after writing it

What stands at a handle after each operation of a store. An operation writes one pool at one handle, or two if it
binds an entity or opens a scope, and leaves the rest of the store as it was.
-/

namespace Statics

namespace Arena

variable {a : Arena}

theorem entity_eq {e : EntityId} {x : Entity} (h : a.entity? e = some x) : a.entity e = x := by simp [entity, h]

theorem type_eq {u : TypeId} {τ : Ty} (h : a.type? u = some τ) : a.type u = τ := by simp [type, h]

theorem scope_eq {f : ScopeId} {c : Scope} (h : a.scope? f = some c) : a.scope f = c := by simp [scope, h]

end Arena

namespace Store

/-- The frozen slabs, for reading. -/
def below (s : Store) : Arena := ⟨s.frozen⟩

/-- Binding an entity in a scope has an effect. -/
def Takes (s : Store) (h : ScopeId) (e : EntityId) : Prop :=
  (s.arena.entity e).name ≠ discard ∧ s.arena.lookupLocal h (s.arena.entity e).name = none ∧ h.slab = s.current.id

instance (s : Store) (h : ScopeId) (e : EntityId) : Decidable (s.Takes h e) := inferInstanceAs (Decidable (_ ∧ _))

/-- The children of a scope once another scope was opened. -/
def offspring (s : Store) (parent : ScopeId) (kind : ScopeKind) (h : ScopeId) (c : Scope) : List ScopeId :=
  if h = parent ∧ s.isLocal parent ∧ ((s.newScope (some parent) kind).2.arena.scope parent).kind ≠ .global then
    c.children ++ [(s.openScope parent kind).1]
  else c.children

/-! ## The slab that is written and those under it -/

section

variable {s t : Store}

theorem slab?_arena (s : Store) (id : Nat) :
    s.arena.slab? id = if s.current.id = id then some s.current else s.below.slab? id := by
  grind [Arena.slab?, arena, below]

/-- A handle of the current slab is read there, another in the frozen slabs. -/
theorem type?_arena (s : Store) (u : TypeId) :
    s.arena.type? u = if s.current.id = u.slab then s.current.types[u.index]? else s.below.type? u := by
  grind [Arena.type?, slab?_arena]

theorem entity?_arena (s : Store) (e : EntityId) :
    s.arena.entity? e = if s.current.id = e.slab then s.current.entities[e.index]? else s.below.entity? e := by
  grind [Arena.entity?, slab?_arena]

theorem scope?_arena (s : Store) (h : ScopeId) :
    s.arena.scope? h = if s.current.id = h.slab then s.current.scopes[h.index]? else s.below.scope? h := by
  grind [Arena.scope?, slab?_arena]

attribute [local grind =] type?_arena entity?_arena scope?_arena below isLocal

/-- Types are read alike where the slabs hold the same ones. -/
theorem type?_congr (hid : t.current.id = s.current.id) (hf : t.frozen = s.frozen)
    (ht : t.current.types = s.current.types) (u : TypeId) : t.arena.type? u = s.arena.type? u := by grind

theorem entity?_congr (hid : t.current.id = s.current.id) (hf : t.frozen = s.frozen)
    (he : t.current.entities = s.current.entities) (e : EntityId) : t.arena.entity? e = s.arena.entity? e := by grind

end

attribute [local grind =] type?_arena entity?_arena scope?_arena below isLocal

variable (s : Store) (x : Entity) (τ : Ty) (h : ScopeId) (k : Scope → Scope) (e : EntityId) (f : Entity → Entity)
  (u : TypeId) (g : Ty → Ty) (parent : ScopeId) (kind : ScopeKind) (e' : EntityId) (u' : TypeId) (h' : ScopeId)

/-! ## Allocation -/

@[grind =]
theorem type?_newType : (s.newType τ).2.arena.type? u' = if u' = (s.newType τ).1 then some τ else s.arena.type? u' := by
  cases u'
  grind [newType]

@[simp, grind =]
theorem entity?_newType : (s.newType τ).2.arena.entity? e' = s.arena.entity? e' := by grind [newType]

@[simp, grind =]
theorem scope?_newType : (s.newType τ).2.arena.scope? h' = s.arena.scope? h' := by grind [newType]

@[grind =]
theorem entity?_newEntity :
    (s.newEntity x).2.arena.entity? e' = if e' = (s.newEntity x).1 then some x else s.arena.entity? e' := by
  cases e'
  grind [newEntity]

@[simp, grind =]
theorem type?_newEntity : (s.newEntity x).2.arena.type? u' = s.arena.type? u' := by grind [newEntity]

@[simp, grind =]
theorem scope?_newEntity : (s.newEntity x).2.arena.scope? h' = s.arena.scope? h' := by grind [newEntity]

/-- A new handle was not allocated before. -/
@[simp, grind =]
theorem entity?_fresh : s.arena.entity? (s.newEntity x).1 = none := by grind [newEntity]

/-! ## Changes -/

/-- Only entities of the current slab are changed. -/
@[grind =]
theorem entity?_modifyEntity : (s.modifyEntity e f).arena.entity? e' =
    if e.slab = s.current.id ∧ e' = e then (s.arena.entity? e').map f else s.arena.entity? e' := by
  cases e
  cases e'
  grind [modifyEntity]

@[simp, grind =]
theorem type?_modifyEntity : (s.modifyEntity e f).arena.type? u' = s.arena.type? u' := by grind [modifyEntity]

@[simp, grind =]
theorem scope?_modifyEntity : (s.modifyEntity e f).arena.scope? h' = s.arena.scope? h' := by grind [modifyEntity]

@[grind =]
theorem type?_modifyType : (s.modifyType u g).arena.type? u' =
    if u.slab = s.current.id ∧ u' = u then (s.arena.type? u').map g else s.arena.type? u' := by
  cases u
  cases u'
  grind [modifyType]

@[simp, grind =]
theorem entity?_modifyType : (s.modifyType u g).arena.entity? e' = s.arena.entity? e' := by grind [modifyType]

@[simp, grind =]
theorem scope?_modifyType : (s.modifyType u g).arena.scope? h' = s.arena.scope? h' := by grind [modifyType]

@[grind =]
theorem scope?_modifyScope : (s.modifyScope h k).arena.scope? h' =
    if h.slab = s.current.id ∧ h' = h then (s.arena.scope? h').map k else s.arena.scope? h' := by
  cases h
  cases h'
  grind [modifyScope]

@[simp, grind =]
theorem type?_modifyScope : (s.modifyScope h k).arena.type? u' = s.arena.type? u' := by grind [modifyScope]

@[simp, grind =]
theorem entity?_modifyScope : (s.modifyScope h k).arena.entity? e' = s.arena.entity? e' := by grind [modifyScope]

@[grind =]
theorem entity?_markUsed : (s.markUsed e).arena.entity? e' =
    if e.slab = s.current.id ∧ e' = e then (s.arena.entity? e').map fun x => { x with used := true }
    else s.arena.entity? e' := by
  grind [markUsed]

@[simp, grind =]
theorem type?_markUsed : (s.markUsed e).arena.type? u' = s.arena.type? u' := by grind [markUsed]

@[simp, grind =]
theorem scope?_markUsed : (s.markUsed e).arena.scope? h' = s.arena.scope? h' := by grind [markUsed]

/-! ## Scopes -/

theorem openScope_fst : (s.openScope parent kind).1 = ⟨s.current.id, s.current.scopes.size⟩ := by
  grind [openScope, newScope]

@[simp, grind =]
theorem scope?_fresh : s.arena.scope? (s.openScope parent kind).1 = none := by grind [openScope_fst]

@[simp, grind =]
theorem type?_openScope : (s.openScope parent kind).2.arena.type? u' = s.arena.type? u' := by
  grind [openScope, newScope, addChild]

@[simp, grind =]
theorem entity?_openScope : (s.openScope parent kind).2.arena.entity? e' = s.arena.entity? e' := by
  grind [openScope, newScope, addChild]

theorem scope?_newScope (parent : Option ScopeId) : (s.newScope parent kind).2.arena.scope? h' =
    if h' = (s.newScope parent kind).1 then some ⟨parent, [], .empty, kind⟩ else s.arena.scope? h' := by
  cases h'
  grind [newScope]

theorem scope?_addChild : (s.addChild parent h).arena.scope? h' = if parent.slab = s.current.id ∧ h' = parent then
    (s.arena.scope? h').map fun c => { c with children := c.children ++ [h] } else s.arena.scope? h' := by
  grind [addChild]

/-- A scope that is opened is the only new one; of the others, at most the children change. -/
@[grind =]
theorem scope?_openScope : (s.openScope parent kind).2.arena.scope? h' =
    if h' = (s.openScope parent kind).1 then
      some ⟨some parent, s.offspring parent kind h' ⟨some parent, [], .empty, kind⟩, .empty, kind⟩
    else (s.arena.scope? h').map fun c => { c with children := s.offspring parent kind h' c } := by
  have hid : (s.newScope (some parent) kind).2.current.id = s.current.id := rfl
  -- only a local parent other than the global scope lists the new one
  by_cases hp : h' = parent ∧ s.isLocal parent ∧
    ((s.newScope (some parent) kind).2.arena.scope parent).kind ≠ .global
  · grind [openScope, scope?_addChild, scope?_newScope, offspring]
  · have hc : ∀ c, s.offspring parent kind h' c = c.children := by grind [offspring]
    simp only [hc, Option.map_id']
    grind [openScope, scope?_addChild, scope?_newScope]

/-! ## Binding -/

/-- Binding changes the store only where the scope takes the name. -/
theorem bind_eq : s.bind h e = if s.Takes h e then
      (none, (s.modifyScope h fun c =>
        { c with bindings := c.bindings.insert (s.arena.entity e).name e }).modifyEntity e
        fun x => { x with home := x.home.or (some h) })
    else (if (s.arena.entity e).name = discard then none else s.arena.lookupLocal h (s.arena.entity e).name, s) := by
  grind [bind, Takes]

@[simp, grind =]
theorem type?_bind : (s.bind h e).2.arena.type? u' = s.arena.type? u' := by grind [bind_eq]

@[grind =]
theorem scope?_bind : (s.bind h e).2.arena.scope? h' = if s.Takes h e ∧ h' = h then
    (s.arena.scope? h').map fun c => { c with bindings := c.bindings.insert (s.arena.entity e).name e }
    else s.arena.scope? h' := by
  grind [bind_eq, Takes]

/-- An entity of the current slab keeps its first home. -/
@[grind =]
theorem entity?_bind : (s.bind h e).2.arena.entity? e' = if s.Takes h e ∧ e.slab = s.current.id ∧ e' = e then
    (s.arena.entity? e').map fun x => { x with home := x.home.or (some h) } else s.arena.entity? e' := by
  have : ∀ k, (s.modifyScope h k).current.id = s.current.id := by grind [modifyScope]
  grind [bind_eq]

/-! ## What operations leave alone -/

@[grind =]
theorem current_modifyEntity :
    (s.modifyEntity e f).current = { s.current with entities := (s.modifyEntity e f).current.entities } := by
  unfold modifyEntity
  repeat' split
  all_goals rfl

@[grind =]
theorem current_modifyType :
    (s.modifyType u g).current = { s.current with types := (s.modifyType u g).current.types } := by
  unfold modifyType
  repeat' split
  all_goals rfl

@[grind =]
theorem current_modifyScope :
    (s.modifyScope h k).current = { s.current with scopes := (s.modifyScope h k).current.scopes } := by
  unfold modifyScope
  repeat' split
  all_goals rfl

@[grind =]
theorem current_markUsed : (s.markUsed e).current =
    { s.current with entities := (s.markUsed e).current.entities, touched := (s.markUsed e).current.touched } := by
  grind [markUsed]

@[grind =]
theorem current_openScope : (s.openScope parent kind).2.current = { s.current with
    scopes := (s.openScope parent kind).2.current.scopes, adopted := (s.openScope parent kind).2.current.adopted } := by
  grind [openScope, newScope, addChild]

@[grind =]
theorem current_bind : (s.bind h e).2.current = { s.current with
    scopes := (s.bind h e).2.current.scopes, entities := (s.bind h e).2.current.entities } := by
  rw [bind_eq]
  split
  · grind
  · rfl

/-- A scope is adopted only by a parent in another slab. -/
theorem adopted_openScope {p : ScopeId × ScopeId} (hp : p ∈ (s.openScope parent kind).2.current.adopted) :
    p ∈ s.current.adopted ∨ p = (parent, (s.openScope parent kind).1) ∧ parent.slab ≠ s.current.id := by
  grind [openScope, newScope, addChild]

@[simp, grind =]
theorem id_newEntity : (s.newEntity x).2.current.id = s.current.id := rfl

@[simp]
theorem id_modifyEntity : (s.modifyEntity e f).current.id = s.current.id := by rw [current_modifyEntity]

@[simp]
theorem id_modifyType : (s.modifyType u g).current.id = s.current.id := by rw [current_modifyType]

@[simp]
theorem id_markUsed : (s.markUsed e).current.id = s.current.id := by rw [current_markUsed]

@[simp]
theorem id_openScope : (s.openScope parent kind).2.current.id = s.current.id := by rw [current_openScope]

@[simp]
theorem id_bind : (s.bind h e).2.current.id = s.current.id := by rw [current_bind]

@[simp, grind =]
theorem frozen_modifyEntity : (s.modifyEntity e f).frozen = s.frozen := by grind [modifyEntity]

@[simp, grind =]
theorem frozen_modifyType : (s.modifyType u g).frozen = s.frozen := by grind [modifyType]

@[simp, grind =]
theorem frozen_modifyScope : (s.modifyScope h k).frozen = s.frozen := by grind [modifyScope]

@[simp, grind =]
theorem frozen_markUsed : (s.markUsed e).frozen = s.frozen := by grind [markUsed]

@[simp, grind =]
theorem frozen_openScope : (s.openScope parent kind).2.frozen = s.frozen := by grind [openScope, newScope, addChild]

@[simp, grind =]
theorem frozen_bind : (s.bind h e).2.frozen = s.frozen := by grind [bind_eq]

end Store

end Statics
