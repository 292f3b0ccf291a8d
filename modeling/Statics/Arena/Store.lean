import Statics.Arena.Basic

/-!
# Writing one slab

A store is one slab that may be written, over frozen slabs that may only be read. Operations on a handle of a frozen
slab change nothing, except that opening a scope and using an entity are recorded until the slab is absorbed.
-/

namespace Statics

/-- One slab to write and the frozen slabs under it. -/
structure Store where
  current : Slab
  frozen : List Slab
deriving DecidableEq, Repr

namespace Store

/-- All slabs, for reading. -/
def arena (s : Store) : Arena := ⟨s.current :: s.frozen⟩

/-- Whether a handle points into the slab that may be written. -/
def isLocal {pool : Pool} (s : Store) (h : Handle pool) : Bool := h.slab == s.current.id

/-- Allocates a type. -/
def newType (s : Store) (t : Ty) : TypeId × Store :=
  (⟨s.current.id, s.current.types.size⟩, { s with current := { s.current with types := s.current.types.push t } })

/-- Allocates an entity. -/
def newEntity (s : Store) (e : Entity) : EntityId × Store :=
  (⟨s.current.id, s.current.entities.size⟩,
    { s with current := { s.current with entities := s.current.entities.push e } })

/-- Replaces a scope. -/
def modifyScope (s : Store) (h : ScopeId) (f : Scope → Scope) : Store :=
  if s.isLocal h then
    match s.current.scopes[h.index]? with
    | some scope =>
      { s with current := { s.current with scopes := s.current.scopes.setIfInBounds h.index (f scope) } }
    | none => s
  else s

/-- Replaces an entity. -/
def modifyEntity (s : Store) (h : EntityId) (f : Entity → Entity) : Store :=
  if s.isLocal h then
    match s.current.entities[h.index]? with
    | some e => { s with current := { s.current with entities := s.current.entities.setIfInBounds h.index (f e) } }
    | none => s
  else s

/-- Replaces a type. -/
def modifyType (s : Store) (h : TypeId) (f : Ty → Ty) : Store :=
  if s.isLocal h then
    match s.current.types[h.index]? with
    | some t => { s with current := { s.current with types := s.current.types.setIfInBounds h.index (f t) } }
    | none => s
  else s

/-- Allocates a scope without telling its parent. -/
def newScope (s : Store) (parent : Option ScopeId) (kind : ScopeKind) : ScopeId × Store :=
  (⟨s.current.id, s.current.scopes.size⟩,
    { s with current := { s.current with scopes := s.current.scopes.push ⟨parent, [], .empty, kind⟩ } })

/-- Lists a scope among the children of its parent, or records that for later when the parent is frozen. -/
def addChild (s : Store) (parent child : ScopeId) : Store :=
  if s.isLocal parent then
    s.modifyScope parent fun p => { p with children := p.children ++ [child] }
  else
    { s with current := { s.current with adopted := s.current.adopted ++ [(parent, child)] } }

/-- Opens a scope under another. The global scope does not list its children. -/
def openScope (s : Store) (parent : ScopeId) (kind : ScopeKind) : ScopeId × Store :=
  let (child, s) := s.newScope (some parent) kind
  if (s.arena.scope parent).kind == .global then (child, s) else (child, s.addChild parent child)

/-- Binds an entity under its own name, and makes the scope its home if it has none. An older binding of the name stays
and is returned; the discard name and frozen scopes take no bindings. -/
def bind (s : Store) (h : ScopeId) (e : EntityId) : Option EntityId × Store :=
  let name := (s.arena.entity e).name
  if name == discard then (none, s)
  else
    match s.arena.lookupLocal h name with
    | some previous => (some previous, s)
    | none =>
      if s.isLocal h then
        let s := s.modifyScope h fun scope => { scope with bindings := scope.bindings.insert name e }
        (none, s.modifyEntity e fun entity => { entity with home := entity.home.or (some h) })
      else (none, s)

/-- Gives an entity a type unless it has one. -/
def setType (s : Store) (e : EntityId) (t : TypeId) : Store :=
  s.modifyEntity e fun entity => { entity with type := entity.type.or (some t) }

/-- Marks an entity as used, or records that for later when it is frozen. -/
def markUsed (s : Store) (e : EntityId) : Store :=
  if s.isLocal e then
    s.modifyEntity e fun entity => { entity with used := true }
  else
    { s with current := { s.current with touched := e :: s.current.touched } }

end Store

end Statics
