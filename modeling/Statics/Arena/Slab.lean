import Statics.Arena.Bindings
import Statics.Builtin
import Statics.Constant.Basic
import Statics.Source.Stmt

/-!
# Scopes, entities, types and the slabs that hold them

A slab is one region of allocation with a pool of each sort. Slab 0 holds the universe and everything at file level;
each procedure body fills a slab of its own.
-/

namespace Statics

/-- What opened a scope. A `signature` scope holds the parameters of a procedure, and a look-up that leaves it may not
see variables of the procedure around it. -/
inductive ScopeKind where
  | global
  | file
  | signature
  | block
deriving DecidableEq, Repr

/-- Whether declarations in such a scope are at file level. -/
def ScopeKind.isFileLevel : ScopeKind → Bool
  | .global | .file => true
  | .signature | .block => false

/-- A lexical environment. -/
structure Scope where
  parent : Option ScopeId
  children : List ScopeId
  bindings : Bindings
  kind : ScopeKind
deriving DecidableEq, Repr

/-- A type. Components are handles; the base of a named type is missing while its declaration is being checked. -/
inductive Ty where
  | basic (kind : Kind)
  | named (name : String) (base : Option TypeId) (entity : EntityId)
  | pointer (elem : TypeId)
  | array (count : Nat) (elem : TypeId)
  | slice (elem : TypeId)
  | record (form : RecordForm) (fields : List EntityId)
  | enum (base : TypeId) (members : List EntityId)
  | tuple (items : List TypeId)
  | proc (params results : List TypeId)
deriving DecidableEq, Repr

/-- What is known about a variable besides its type. `visited` is set once its declaration is being checked; an
`anonymous` variable exposes its members, or was itself exposed through `using`. -/
structure VariableInfo where
  visited : Bool
  anonymous : Bool
  isField : Bool
  isParam : Bool
  fieldIndex : Nat
deriving DecidableEq, Repr

/-- A variable as declared in a statement or a file. -/
def VariableInfo.plain : VariableInfo := ⟨false, false, false, false, 0⟩

/-- What is known about a procedure besides its type. The scope of its signature is missing until that was checked. -/
structure ProcedureInfo where
  scope : Option ScopeId
  tags : ProcTags
  foreignName : Option String
  linkName : Option String
deriving DecidableEq, Repr

/-- What an import name stands for. -/
structure ImportInfo where
  path : String
  name : String
  scope : ScopeId
deriving DecidableEq, Repr

/-- The sorts of entity. A constant has no value until its declaration was checked. -/
inductive EntityKind where
  | constant (value : Option Constant)
  | var (info : VariableInfo)
  | typeName
  | procedure (info : ProcedureInfo)
  | builtin (id : Builtin)
  | importName (info : ImportInfo)
  | implicitValue
  | nil
deriving DecidableEq, Repr

/-- Name of a sort of entity. -/
def EntityKind.name : EntityKind → String
  | .constant _ => "constant"
  | .var _ => "variable"
  | .typeName => "type name"
  | .procedure _ => "procedure"
  | .builtin _ => "builtin"
  | .importName _ => "import name"
  | .implicitValue => "implicit value"
  | .nil => "nil"

/-- A declared thing. `home` is the scope that it was first bound in, `ident` the identifier that declares it, and
`through` the variable that exposed it. -/
structure Entity where
  kind : EntityKind
  token : Token
  home : Option ScopeId
  type : Option TypeId
  ident : Option NodeId
  through : Option EntityId
  used : Bool
deriving DecidableEq, Repr

namespace Entity

/-- A fresh entity, without a type. -/
def fresh (kind : EntityKind) (token : Token) (ident : Option NodeId) : Entity :=
  ⟨kind, token, none, none, ident, none, false⟩

/-- A fresh entity of a known type. -/
def typed (kind : EntityKind) (token : Token) (ident : Option NodeId) (type : TypeId) : Entity :=
  ⟨kind, token, none, some type, ident, none, false⟩

/-- Name of an entity. -/
def name (e : Entity) : String := e.token.text

/-- What is known about a variable. -/
def var? (e : Entity) : Option VariableInfo :=
  match e.kind with
  | .var v => some v
  | _ => none

/-- Whether an entity is a variable that exposes its members or was exposed. -/
def isAnonymous (e : Entity) : Bool :=
  match e.kind with
  | .var v => v.anonymous
  | _ => false

/-- Whether an entity is a variable whose declaration is being checked or was checked. -/
def isVisited (e : Entity) : Bool :=
  match e.kind with
  | .var v => v.visited
  | _ => false

/-- Whether an entity is a procedure. -/
def isProcedure (e : Entity) : Bool :=
  match e.kind with
  | .procedure _ => true
  | _ => false

end Entity

/-- A region of allocation. `adopted` and `touched` record what this slab does to slabs that it may not write: scopes
opened under their scopes, and uses of their entities. -/
structure Slab where
  id : Nat
  scopes : Array Scope
  entities : Array Entity
  types : Array Ty
  adopted : List (ScopeId × ScopeId)
  touched : List EntityId
deriving DecidableEq, Repr

/-- A slab with nothing in it. -/
def Slab.empty (id : Nat) : Slab := ⟨id, #[], #[], #[], [], []⟩

/-- What a handle without a scope reads as: no bindings and no parent. -/
def Scope.blank : Scope := ⟨none, [], .empty, .block⟩

/-- What a handle without an entity reads as. -/
def Entity.blank : Entity := ⟨.nil, default, none, none, none, none, false⟩

/-- What a handle without a type reads as. -/
def Ty.blank : Ty := .basic .invalid

end Statics
