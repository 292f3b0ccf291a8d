import Statics.Check.Stmt
import Statics.Flow

/-!
# Procedure bodies

A body is checked in a scope under that of its signature. Procedures declared inside are queued and checked after it,
level by level, so that a body is never checked inside another one.
-/

namespace Statics.Check

/-- Makes the fields of exposing parameters visible. -/
def exposeParams (scope : ScopeId) : List EntityId → Check Unit
  | [] => return ()
  | p :: rest => do
    let x ← entity p
    if x.isAnonymous then exposeVariable scope p x.token
    exposeParams scope rest

/-- Whether an expression was resolved to the built-in procedure that never returns. -/
def neverReturns (s : Pass) (callee : Expr) : Bool :=
  match s.notes.uses.get? callee.id with
  | some e => (s.store.arena.entity e).kind == .builtin .panic
  | none => false

/-- The context of a body: its own scope, and nothing around it. -/
def bodyContext (config : Config) (scope : ScopeId) (b : Body) : Context :=
  { Context.outer config scope with signature := some b.type }

/-- Reports a body that can run past its end although its procedure has results. -/
def missingReturn (b : Body) : Check Unit := do
  let s ← get
  if !(resultsOf s.store.arena b.type).isEmpty && !b.block.terminates (neverReturns s) then
    report b.block.closing .returnMissing

/-- Checks a body. The parameters are visible in its own scope. -/
def body (config : Config) (b : Body) : Check Unit := do
  let scope ← openScope b.scope .block b.block.id
  let params := ((← arena).scope b.scope).bindings.entities
  bindAll scope params
  exposeParams scope params
  let ctx := bodyContext config scope b
  hoistAll ctx b.block.stmts
  stmtsInOrder ctx .none b.block.stmts
  missingReturn b

/-- Checks bodies in order. -/
def bodies (config : Config) : List Body → Check Unit
  | [] => return ()
  | b :: rest => do
    body config b
    bodies config rest

/-- Takes all queued bodies. -/
def takeQueue : Check (List Body) := modifyGet fun s => (s.queue, { s with queue := [] })

/-- Checks the queued bodies, then those that they queue, for a number of rounds. -/
def drain (config : Config) : Nat → Check Unit
  | 0 => return ()
  | rounds + 1 => do
    bodies config (← takeQueue)
    drain config rounds

/-- Checks a body and all procedures inside it. Each round goes one level deeper. -/
def bodyAndNested (config : Config) (b : Body) : Check Unit := do
  body config b
  drain config b.block.nesting

end Statics.Check
