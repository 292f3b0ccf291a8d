import Statics.Check.Pass

/-!
# Entering declarations

Entering a declaration makes an entity for each name, binds it, and keeps what its first use will check. Nothing is
checked yet, so declarations of one scope may refer to one another in any order.
-/

namespace Statics.Check

/-- Keeps a declaration for its first use. -/
def await (e : EntityId) (d : Declaration) : Check Unit :=
  modify fun s => { s with decls := (e, d) :: s.decls }

/-- Remembers that a declaration was entered before its statement is reached. -/
def hoist (id : NodeId) : Check Unit :=
  modify fun s => { s with hoisted := id :: s.hoisted }

/-- Makes an entity for each variable. -/
def newVariables : List Ident → Check (List EntityId)
  | [] => return []
  | name :: rest => do
    let e ← newEntity (Entity.fresh (.var .plain) name.token (some name.id))
    return e :: (← newVariables rest)

/-- Binds variables of a file, all waiting for the same declaration. -/
def bindGlobals (scope : ScopeId) (d : Declaration) : List (Ident × EntityId) → Check Unit
  | [] => return ()
  | (name, e) :: rest => do
    let _ ← bind scope (some name) e
    await e d
    bindGlobals scope d rest

/-- Enters the variables of a file, which cannot expose their members. -/
def declareGlobals (d : VarDecl) (scope : ScopeId) : Check (List EntityId) := do
  if d.exposes then report d.token .exposingFileVariable
  let entities ← newVariables d.names
  bindGlobals scope (.vars scope entities d.type d.values) (d.names.zip entities)
  return entities

/-- Enters constants, each with the value at its place. -/
def enterConstants (scope : ScopeId) (type : Option Expr) : List Ident → List Expr → Check (List EntityId)
  | [], [] => return []
  | [], extra :: _ => do
    report extra.token .valueWithoutConstant
    return []
  | name :: names, values => do
    let e ← newEntity (Entity.fresh (.constant none) name.token (some name.id))
    if values.isEmpty then report name.token (.constantWithoutValue name.name)
    await e (.constant scope type values.head?)
    let _ ← bind scope (some name) e
    return e :: (← enterConstants scope type names values.tail)

/-- Enters the constants of a declaration. -/
def declareConstants (d : ConstDecl) (scope : ScopeId) : Check (List EntityId) := do
  match d.names with
  | first :: _ => hoist first.id
  | [] => pure ()
  enterConstants scope d.type d.names d.values

/-- Enters a named type. -/
def declareType (d : TypeDecl) (scope : ScopeId) : Check EntityId := do
  hoist d.name.id
  let e ← newEntity (Entity.fresh .typeName d.name.token (some d.name.id))
  await e (.type scope d.type)
  let _ ← bind scope (some d.name) e
  return e

/-- Enters a procedure. -/
def declareProc (d : ProcDecl) (scope : ScopeId) : Check EntityId := do
  let info : ProcedureInfo := ⟨none, d.tags, d.foreignName.map Token.text, d.linkName.map Token.text⟩
  let e ← newEntity (Entity.fresh (.procedure info) d.name.token (some d.name.id))
  await e (.proc scope d)
  let _ ← bind scope (some d.name) e
  return e

end Statics.Check
