import Statics.Check.Demand

/-!
# Using

`using` makes the members of an import, of an enum type or of a record variable visible in the current scope. Either all
members become visible or, when one of their names is taken, none does.
-/

namespace Statics.Check

/-- The first of some members whose name is bound in a scope, with the entity it collides with. -/
def collision? (a : Arena) (scope : ScopeId) (members : List EntityId) : Option (String × EntityId) :=
  members.findSome? fun m =>
    let name := (a.entity m).name
    if name == discard then none else (a.lookupLocal scope name).map fun previous => (name, previous)

/-- Binds entities under their own names. -/
def bindAll (scope : ScopeId) : List EntityId → Check Unit
  | [] => return ()
  | e :: rest => do
    let _ ← fromStore fun s => s.bind scope e
    bindAll scope rest

/-- Binds the members of an import or enum themselves, unless one collides. -/
def exposeMembers (scope : ScopeId) (source : String) (token : Token) (members : List EntityId) : Check Unit := do
  let a ← arena
  match collision? a scope members with
  | some (name, previous) => report token (.usingCollision source name (a.entity previous).token.pos)
  | none => bindAll scope members

/-- A variable that stands for a field of another variable. -/
def exposedField (owner : EntityId) (field : Entity) : Entity :=
  let index := (field.var?.map VariableInfo.fieldIndex).getD 0
  { Entity.typed (.var ⟨false, true, true, false, index⟩) field.token none (field.type.getD .invalid) with
    through := some owner }

/-- Binds a new variable for each field of a record variable. -/
def bindFields (scope : ScopeId) (owner : EntityId) : List EntityId → Check Unit
  | [] => return ()
  | f :: rest => do
    let id ← newEntity (exposedField owner (← entity f))
    let _ ← fromStore fun s => s.bind scope id
    bindFields scope owner rest

/-- Makes the fields of a record variable visible, unless one collides. The variable may also point to a record. -/
def exposeVariable (scope : ScopeId) (owner : EntityId) (token : Token) : Check Unit := do
  let a ← arena
  let name := (a.entity owner).name
  let t := (a.entity owner).type.getD .invalid
  let target := a.pointee t
  if a.isInvalid target then return ()
  match a.fields? target with
  | none => report token (.usingNotRecord name (a.typeText t))
  | some fields =>
    match collision? a scope fields with
    | some (field, previous) => report token (.usingCollision name field (a.entity previous).token.pos)
    | none => bindFields scope owner fields

/-- Makes the members of an enum type visible. -/
def exposeType (scope : ScopeId) (e : EntityId) (token : Token) : Check Unit := do
  let a ← arena
  let t := (a.entity e).type.getD .invalid
  if a.isInvalid t then return ()
  match a.members? t with
  | some members => exposeMembers scope (a.entity e).name token members
  | none => report token (.usingNotEnum (a.typeText t))

/-- Makes the members of an entity visible. -/
def exposeEntity (scope : ScopeId) (e : EntityId) (token : Token) : Check Unit := do
  let a ← arena
  match (a.entity e).kind with
  | .importName info => exposeMembers scope info.name token (a.scope info.scope).bindings.entities
  | .typeName => exposeType scope e token
  | .var _ | .implicitValue => exposeVariable scope e token
  | kind => report token (.usingKind kind.name (a.entity e).name)

/-- The entity that `using` is applied to: that of a name, or of the field of a selection. -/
def usingTarget (resolve : Resolver) (ctx : Context) (target : Expr) : Check (Option EntityId) := do
  match target with
  | .name n =>
    match (← arena).lookup ctx.scope n.name with
    | none =>
      report n.token (.undeclared n.name)
      return none
    | some (e, _) =>
      refer n.id e
      markUsed e
      return some e
  | .select _ _ field =>
    let x ← expr resolve ctx .value target
    if x.isInvalid then return none
    match (← get).notes.uses.get? field.id with
    | some e => return some e
    | none =>
      report target.token (.usingTarget target)
      return none
  | _ =>
    report target.token .usingForm
    return none

/-- Checks one target of a `using` statement. -/
def use (resolve : Resolver) (ctx : Context) (e : Expr) : Check Unit := do
  let target := e.unparen
  match ← usingTarget resolve ctx target with
  | some id =>
    resolve ctx id
    exposeEntity ctx.scope id target.token
  | none => return ()

end Statics.Check
