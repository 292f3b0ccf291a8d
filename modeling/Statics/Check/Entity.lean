import Statics.Check.Operator
import Statics.Types.Fields

/-!
# Names and selections

What a name or a selection stands for once the entity is known. Reaching an entity forces its declaration, which is the
business of a `Resolver`.
-/

namespace Statics

/-- Sees to it that the declaration of an entity was checked, seen from a context. -/
abbrev Resolver := Context → EntityId → Check Unit

namespace Check

/-- Marks what reaching an entity uses: the entity itself, unless it is an assignment target, and the variable that
exposed it. -/
def markReached (ctx : Context) (e : EntityId) : Check Unit := do
  if !ctx.assigning then markUsed e
  match (← entity e).through with
  | some owner => markUsed owner
  | none => pure ()

/-- The operand of a variable found in a scope, which must not belong to a procedure around the current one. Fields have
no storage of their own. -/
def variableOperand (ctx : Context) (v : VariableInfo) (t : TypeId) (e : Expr) (name : String)
    (foundIn : Option ScopeId) : Check Operand := do
  let a ← arena
  if a.isInvalid t then return .invalid e.id
  match foundIn with
  | some scope =>
    if !v.isField && a.leavesProcedure ctx.scope scope then fail e.token (.captured name) e.id
    else return .var t e.id
  | none => return .var t e.id

/-- The operand of an entity whose declaration was checked. -/
def operandOf (ctx : Context) (x : Entity) (id : EntityId) (e : Expr) (foundIn : Option ScopeId) : Check Operand := do
  let a ← arena
  let t := x.type.getD .invalid
  match x.kind with
  | .constant (some v) => return if a.isInvalid t then .invalid e.id else .constant t v e.id
  | .constant none => return .invalid e.id
  | .var v => variableOperand ctx v t e x.name foundIn
  | .typeName => if ctx.isInside id then fail e.token (.cyclicType x.name) e.id else return .ofType t e.id
  | .procedure _ => return if a.isInvalid t then .invalid e.id else .value t e.id
  | .builtin b => return .builtin b e.id
  | .importName _ => fail e.token (.importWithoutSelector x.name) e.id
  | .implicitValue => return .var t e.id
  | .nil => return .value t e.id

/-- The operand of an expression that names an entity. -/
def entityOperand (resolve : Resolver) (ctx : Context) (id : EntityId) (e : Expr) (foundIn : Option ScopeId) :
    Check Operand := do
  markReached ctx id
  resolve ctx.plainly id
  operandOf ctx (← entity id) id e foundIn

/-- The operand of a name. -/
def nameOperand (resolve : Resolver) (ctx : Context) (e : Expr) (n : Ident) : Check Operand := do
  if n.isDiscard then fail e.token .discardUsed e.id
  else
    match (← arena).lookup ctx.scope n.name with
    | none => fail e.token (.undeclared n.name) e.id
    | some (id, scope) =>
      refer n.id id
      entityOperand resolve ctx id e (some scope)

/-- The import that a bare name stands for. -/
def importNamed? (a : Arena) (scope : ScopeId) (base : Expr) : Option (EntityId × ImportInfo) := do
  let name ← base.asName?
  let (id, _) ← a.lookup scope name
  match (a.entity id).kind with
  | .importName info => some (id, info)
  | _ => none

/-- The operand of a selection from an import. -/
def importSelection (resolve : Resolver) (ctx : Context) (e base : Expr) (field : Ident) (id : EntityId)
    (info : ImportInfo) : Check Operand := do
  markUsed id
  refer base.id id
  match (← arena).lookupLocal info.scope field.name with
  | none => fail field.token (.notInImport field.name info.name) e.id
  | some member =>
    refer field.id member
    entityOperand resolve ctx member e none

/-- The operand of a selection from a type: a member of an enum. -/
def memberSelection (resolve : Resolver) (ctx : Context) (e : Expr) (field : Ident) (t : TypeId) : Check Operand := do
  let a ← arena
  match a.fieldNamed? field.name ((a.members? t).getD []) with
  | some member =>
    refer field.id member
    entityOperand resolve ctx member e none
  | none => fail field.token (.memberMissing (a.typeText t) field.name) e.id

/-- The operand of a selection from a value: a field, which is a place if the value is one or points to one. -/
def fieldSelection (e base : Expr) (field : Ident) (x : Operand) : Check Operand := do
  let a ← arena
  match a.lookupField x.type field.name with
  | some f =>
    refer field.id f
    let t := (a.entity f).type.getD .invalid
    return if x.mode == .var || a.isPointer x.type then .var t e.id else .value t e.id
  | none => fail field.token (.fieldMissing base (a.typeText x.type) field.name) e.id

/-- The operand of a selection from an evaluated operand. -/
def selection (resolve : Resolver) (ctx : Context) (e base : Expr) (field : Ident) (x : Operand) : Check Operand :=
  match x.mode with
  | .invalid => return .invalid e.id
  | .type => memberSelection resolve ctx e field x.type
  | _ => fieldSelection e base field x

end Check

end Statics
