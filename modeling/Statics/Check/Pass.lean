import Statics.Arena.Store
import Statics.Check.Annotations
import Statics.Check.Context
import Statics.Report.Collector
import Statics.Report.Problem
import Statics.Types.Printer

/-!
# Passes

A pass is one unit of checking: all of the file level, or one procedure body with the procedures inside it. Its state
is the slab it writes, what it found out so far, and the two tables that all passes share: the collected diagnostics
and the link names. A journal tells which declarations were checked, and so which ones are being checked.

`Check` is a step of a pass. A step either completes or stops because the cap on errors was passed. Both outcomes keep
the state, so what was found before a stop stays visible.
-/

namespace Statics

/-- A declaration that waits for its first use. Every name knows the scope it was declared in. -/
inductive Declaration where
  | constant (scope : ScopeId) (type value : Option Expr)
  | vars (scope : ScopeId) (entities : List EntityId) (type : Option Expr) (values : List Expr)
  | type (scope : ScopeId) (type : Expr)
  | proc (scope : ScopeId) (decl : ProcDecl)

/-- The scope of a declaration. -/
def Declaration.scope : Declaration → ScopeId
  | constant s _ _ | vars s _ _ _ | type s _ | proc s _ => s

/-- Declarations that wait, each with its entity. -/
abbrev Pending := List (EntityId × Declaration)

/-- A procedure body that waits to be checked, with the scope and the type of its signature. -/
structure Body where
  entity : EntityId
  scope : ScopeId
  type : TypeId
  block : Block

/-- What a pass writes down about the declarations that it checks. -/
inductive Milestone where
  /-- The check of a declaration begins. -/
  | enter (e : EntityId)
  /-- The check of a declaration is over. -/
  | leave (e : EntityId)
  /-- The type and the values in a declaration of variables are about to be read. -/
  | read (group : List EntityId)
deriving DecidableEq

/-- The entities whose declarations were entered and not left yet, innermost first. The newest milestone comes first. -/
def Milestone.active : List Milestone → List EntityId
  | [] => []
  | .enter e :: earlier => e :: active earlier
  | .leave e :: earlier => (active earlier).filter (· != e)
  | .read _ :: earlier => active earlier

/-- The state of a pass. -/
structure Pass where
  store : Store
  notes : Annotations
  decls : List (EntityId × Declaration)
  journal : List Milestone
  hoisted : List NodeId
  queue : List Body
  foreigns : List (String × EntityId)
  files : List (String × ScopeId)
  imports : List EntityId
  links : List (String × Pos)
  collector : Collector

/-- A step of a pass. -/
abbrev Check := EStateM TooManyErrors Pass

namespace Pass

/-- A pass that did nothing yet. -/
def start (store : Store) (links : List (String × Pos)) (collector : Collector) : Pass :=
  ⟨store, .empty, [], [], [], [], [], [], [], links, collector⟩

/-- The entities whose declarations are being checked, innermost first. -/
def active (s : Pass) : List EntityId := Milestone.active s.journal

end Pass

namespace Check

/-- All slabs, for reading. -/
def arena : Check Arena := return (← get).store.arena

/-- The entity at a handle. -/
def entity (e : EntityId) : Check Entity := return (← arena).entity e

/-- Text of a type. -/
def typeText (t : TypeId) : Check String := return (← arena).typeText t

/-- Changes the store. -/
def onStore (f : Store → Store) : Check Unit := modify fun s => { s with store := f s.store }

/-- Changes the store and takes a result. -/
def fromStore {α : Type} (f : Store → α × Store) : Check α :=
  modifyGet fun s =>
    match f s.store with
    | (x, store) => (x, { s with store := store })

/-- Takes an error, and stops when that passes the cap. -/
def emit (d : Diagnostic) : Check Unit := fun s =>
  match s.collector.report d with
  | (collector, .ok ()) => .ok () { s with collector := collector }
  | (collector, .error stop) => .error stop { s with collector := collector }

/-- Reports an error about a token. -/
def report (token : Token) (p : Problem) : Check Unit := emit (p.error token)

/-- Reports a warning about a token. -/
def warn (token : Token) (p : Problem) : Check Unit :=
  modify fun s => { s with collector := s.collector.warn (p.warning token) }

/-- Allocates a type. -/
def newType (t : Ty) : Check TypeId := fromStore fun s => s.newType t

/-- Allocates an entity. -/
def newEntity (e : Entity) : Check EntityId := fromStore fun s => s.newEntity e

/-- Gives an entity a type unless it has one. -/
def setType (e : EntityId) (t : TypeId) : Check Unit := onStore fun s => s.setType e t

/-- Marks an entity as used. -/
def markUsed (e : EntityId) : Check Unit := onStore fun s => s.markUsed e

/-- Remembers what an expression evaluates to. -/
def annotate (id : NodeId) (x : Operand) : Check Unit :=
  modify fun s => { s with notes := { s.notes with types := s.notes.types.insert id x.note } }

/-- Remembers which entity an identifier declares. -/
def define (id : NodeId) (e : EntityId) : Check Unit :=
  modify fun s => { s with notes := { s.notes with definitions := s.notes.definitions.insert id e } }

/-- Remembers which entity an identifier refers to. -/
def refer (id : NodeId) (e : EntityId) : Check Unit :=
  modify fun s => { s with notes := { s.notes with uses := s.notes.uses.insert id e } }

/-- Writes down a milestone. -/
def record (m : Milestone) : Check Unit := modify fun s => { s with journal := m :: s.journal }

/-- Opens a scope for a node. -/
def openScope (parent : ScopeId) (kind : ScopeKind) (id : NodeId) : Check ScopeId := do
  let scope ← fromStore fun s => s.openScope parent kind
  modify fun s => { s with notes := { s.notes with scopes := s.notes.scopes.insert id scope } }
  return scope

/-- Why a name cannot be bound again. -/
def redeclaration (a : Arena) (name : String) (previous : EntityId) : Problem :=
  match (a.entity previous).through with
  | some owner => .redeclaredThrough name (a.entity owner).name (a.entity owner).token.pos
  | none => .redeclared name (a.entity previous).token.pos

/-- Binds an entity in a scope, and tells whether it went in. The identifier defines the entity then. -/
def bind (scope : ScopeId) (ident : Option Ident) (e : EntityId) : Check Bool := do
  match ← fromStore fun s => s.bind scope e with
  | some previous =>
    let a ← arena
    let token := (a.entity e).token
    report token (redeclaration a token.text previous)
    return false
  | none =>
    match ident with
    | some ident => define ident.id e
    | none => pure ()
    return true

end Check

end Statics
