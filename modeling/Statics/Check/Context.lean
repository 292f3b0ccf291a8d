import Statics.Arena.Handle
import Statics.Config
import Statics.Source.Stmt

/-!
# Where checking stands
-/

namespace Statics

/-- Which jumps without a label are legal at a statement. -/
structure Permissions where
  breaks : Bool
  continues : Bool
  falls : Bool
deriving DecidableEq, Repr

namespace Permissions

/-- No jump is legal. -/
def none : Permissions := ⟨false, false, false⟩

/-- The same without fallthrough. -/
def withoutFall (p : Permissions) : Permissions := { p with falls := false }

/-- Inside the body of a loop. -/
def inLoop (p : Permissions) : Permissions := { p with breaks := true, continues := true }

/-- Inside a clause of a switch; only a clause before the last may fall through. -/
def inClause (p : Permissions) (mayFall : Bool) : Permissions := { p with breaks := true, falls := p.falls || mayFall }

end Permissions

/-- A label of a construct around a statement. -/
structure Label where
  name : String
  isLoop : Bool
deriving DecidableEq, Repr

/-- The surroundings of a node. `typePath` has the named types whose declarations are being checked, each with the
number of pointers and slices around it; `assigning` says that the name being resolved is a target, which is no use of
it; `entryPoint` is the procedure that a program starts with. -/
structure Context where
  entryPoint : String
  scope : ScopeId
  signature : Option TypeId
  inDefer : Bool
  labels : List Label
  typePath : List (EntityId × Nat)
  indirection : Nat
  assigning : Bool
deriving DecidableEq, Repr

namespace Context

/-- The context of a scope, outside every procedure. -/
def outer (config : Config) (scope : ScopeId) : Context := ⟨config.entryPoint, scope, none, false, [], [], 0, false⟩

/-- The same in another scope. -/
def within (ctx : Context) (scope : ScopeId) : Context := { ctx with scope := scope }

/-- Behind one more pointer or slice. -/
def indirect (ctx : Context) : Context := { ctx with indirection := ctx.indirection + 1 }

/-- In the declaration of a named type. -/
def declaring (ctx : Context) (e : EntityId) : Context := { ctx with typePath := (e, ctx.indirection) :: ctx.typePath }

/-- Whether a named type would contain itself here. -/
def isInside (ctx : Context) (e : EntityId) : Bool := ctx.typePath.contains (e, ctx.indirection)

/-- Resolving an assignment target. -/
def targeting (ctx : Context) : Context := { ctx with assigning := true }

/-- Resolving anything else. -/
def plainly (ctx : Context) : Context := { ctx with assigning := false }

/-- Inside a labelled construct. -/
def labelled (ctx : Context) (label : Option Ident) (isLoop : Bool) : Context :=
  match label with
  | some l => { ctx with labels := ⟨l.name, isLoop⟩ :: ctx.labels }
  | none => ctx

/-- The innermost construct with a label. -/
def label? (ctx : Context) (name : String) : Option Label := ctx.labels.find? fun l => l.name == name

/-- Inside a deferred statement. -/
def deferred (ctx : Context) : Context := { ctx with inDefer := true }

end Context

end Statics
