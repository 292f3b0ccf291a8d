import Statics.Check.Declare
import Statics.Check.Using

/-!
# Statements

A list of statements first enters its constants and named types, so that these may be used before they are declared.
Then its statements are checked in order. `Permissions` says which jumps without a label are legal at a statement;
labels are in the context.
-/

namespace Statics.Check

/-! ## Simple statements -/

/-- Checks an expression that stands as a statement, which must do something. -/
def exprStmt (ctx : Context) (e : Expr) : Check Unit := do
  let x ← expr demand ctx .value e
  match x.mode with
  | .invalid | .noValue => return ()
  | .type => report e.token (.typeAsStatement e)
  | _ => if e.unparen.isCall then return () else report e.token (.valueUnused e)

/-- Stores an operand in the place that an expression stands for. A discarded value only settles on a type. -/
def assignTo (ctx : Context) (target : Expr) (x : Operand) (e : Expr) : Check Unit := do
  if x.isInvalid then return ()
  if target.unparen.asName? == some discard then
    let _ ← assign x e none .assignment
  else
    let ctx := if target.unparen.asName?.isSome then ctx.targeting else ctx
    let place ← expr demand ctx .value target
    match place.mode with
    | .invalid => return ()
    | .var =>
      let _ ← assign x e (some place.type) .assignment
    | _ => report target.token (.notVariable target)

/-- Stores operands in places, as far as both go. -/
def assignEach (ctx : Context) : List Expr → List (Operand × Expr) → Check Unit
  | target :: targets, (x, e) :: rest => do
    assignTo ctx target x e
    assignEach ctx targets rest
  | _, _ => return ()

/-- Checks a plain assignment. -/
def plainAssign (ctx : Context) (token : Token) (targets values : List Expr) : Check Unit := do
  if targets.isEmpty then report token .targetMissing
  else
    let xs ← operands demand ctx values
    assignEach ctx targets xs
    if targets.length != xs.length then report token (.countMismatch targets.length xs.length)

/-- Checks an assignment that combines the old value with an operator. -/
def combinedAssign (ctx : Context) (token : Token) (op : BinaryOp) (targets values : List Expr) : Check Unit := do
  match targets, values with
  | [target], [value] =>
    let x ← expr demand ctx .value target
    let y ← expr demand ctx .value value
    let result ← binary token op x y value.id
    if result.isInvalid then return () else assignTo ctx target result value
  | _, _ => report token (.combinedMany op)

/-- Checks a step up or down. -/
def stepStmt (ctx : Context) (token : Token) (dir : Step) (target : Expr) : Check Unit := do
  let x ← expr demand ctx .value target
  if x.isInvalid then return ()
  let a ← arena
  if !a.isNumeric x.type then report token (.stepNotNumeric (a.typeText x.type) dir)
  else if x.mode != .var then report target.token (.notVariable target)
  else
    let one := Operand.constant (.basic .untypedInt) (.int .one) target.id
    let result ← binary token dir.op x one target.id
    if result.isInvalid then return ()
    else
      let _ ← assign result target (some x.type) .increment

/-- Checks a condition. -/
def condition (ctx : Context) (e : Expr) (keyword : String) : Check Unit := do
  let x ← expr demand ctx .value e
  if !x.isInvalid && !(x.mode.isValue && (← arena).isBoolean x.type) then
    report e.token (.conditionNotBoolean keyword)

/-- Stores returned values in the results of the procedure. -/
def assignResults : List (Operand × Expr) → List TypeId → Check Unit
  | (x, e) :: rest, t :: results => do
    let _ ← assign x e (some t) .returned
    assignResults rest results
  | _, _ => return ()

/-- Result types of a procedure type. -/
def resultsOf (a : Arena) (t : TypeId) : List TypeId :=
  match a.type t with
  | .proc _ results => results
  | _ => []

/-- Checks a return. -/
def returnStmt (ctx : Context) (token : Token) (values : List Expr) : Check Unit := do
  if ctx.inDefer then report token .returnInDefer
  else
    match ctx.signature with
    | none => report token .returnOutside
    | some t =>
      let results := resultsOf (← arena) t
      let xs ← operands demand ctx values
      if xs.length != results.length then report token (.returnCount results.length xs.length)
      else assignResults xs results

/-- What is wrong with a jump whose label, if it has one, was found. -/
def jumpProblem? (allowed : Permissions) (kind : BranchKind) (label : Option Label) : Option Problem :=
  match kind, label with
  | .breaks, none => if allowed.breaks then none else some .breakMisplaced
  | .breaks, some _ => none
  | .continues, none => if allowed.continues then none else some .continueMisplaced
  | .continues, some l => if l.isLoop then none else some (.continueNotLoop l.name)
  | .fallsThrough, _ => if allowed.falls then none else some .fallthroughMisplaced

/-- Checks a jump. -/
def jump (ctx : Context) (allowed : Permissions) (token : Token) (kind : BranchKind) (label : Option Ident) :
    Check Unit :=
  match label with
  | some ident =>
    match ctx.label? ident.name with
    | none => report ident.token (.labelUnknown ident.name)
    | some l =>
      match jumpProblem? allowed kind (some l) with
      | some p => report token p
      | none => return ()
  | none =>
    match jumpProblem? allowed kind none with
    | some p => report token p
    | none => return ()

/-- Checks the targets of a `using` statement. -/
def uses (ctx : Context) : List Expr → Check Unit
  | [] => return ()
  | e :: rest => do
    use demand ctx e
    uses ctx rest

/-! ## Declarations -/

/-- Checks the declarations of some entities in order. -/
def demandAll (ctx : Context) : List EntityId → Check Unit
  | [] => return ()
  | e :: rest => do
    demand ctx e
    demandAll ctx rest

/-- Binds local variables. -/
def bindVariables (scope : ScopeId) : List (Ident × EntityId) → Check Unit
  | [] => return ()
  | (name, e) :: rest => do
    let _ ← bind scope (some name) e
    bindVariables scope rest

/-- Makes the fields of local variables visible. -/
def exposeVariables (scope : ScopeId) : List EntityId → Check Unit
  | [] => return ()
  | e :: rest => do
    exposeVariable scope e (← entity e).token
    exposeVariables scope rest

/-- Checks local variables; their names become visible after their values. -/
def localVariables (ctx : Context) (d : VarDecl) : Check Unit := do
  let entities ← newVariables d.names
  varDecl demand ctx entities d.type d.values
  bindVariables ctx.scope (d.names.zip entities)
  if d.exposes then exposeVariables ctx.scope entities

/-- Checks a declaration that stands as a statement. Constants and named types of a list were entered before; elsewhere
they are entered here. -/
def declStmt (ctx : Context) : Decl → Check Unit
  | .vars d => localVariables ctx d
  | .consts d => do
    match d.names with
    | [] => return ()
    | first :: _ =>
      if (← get).hoisted.contains first.id then return ()
      else demandAll ctx (← declareConstants d ctx.scope)
  | .type d => do
    if (← get).hoisted.contains d.name.id then return ()
    else demand ctx (← declareType d ctx.scope)
  | .proc d => do demand ctx (← declareProc d ctx.scope)
  | .imported d => report d.token .importInside

/-- Enters the named types and the constants of a list, and returns them in this order. -/
def enterHoisted (scope : ScopeId) : List Stmt → Check (List EntityId × List EntityId)
  | [] => return ([], [])
  | .decl (.type d) :: rest => do
    let e ← declareType d scope
    let (types, constants) ← enterHoisted scope rest
    return (e :: types, constants)
  | .decl (.consts d) :: rest => do
    let es ← declareConstants d scope
    let (types, constants) ← enterHoisted scope rest
    return (types, es ++ constants)
  | _ :: rest => enterHoisted scope rest

/-- Enters and checks the named types, then the constants, of a list. -/
def hoistAll (ctx : Context) (stmts : List Stmt) : Check Unit := do
  let (types, constants) ← enterHoisted ctx.scope stmts
  demandAll ctx (types ++ constants)

/-! ## Switches -/

/-- Reports every default clause after the first, whose place is given once it was met. -/
def defaults (keyword : String) : Option Pos → List Clause → Check Unit
  | _, [] => return ()
  | first, c :: rest =>
    if c.isDefault then
      match first with
      | some previous => do
        report c.node.token (.defaultRepeated keyword previous)
        defaults keyword first rest
      | none => defaults keyword (some c.node.token.pos) rest
    else defaults keyword first rest

/-- A constant case of a switch, with the type it had before it was compared with the tag. -/
structure SeenCase where
  key : ConstantKey
  value : Constant
  type : TypeId
  pos : Pos

/-- The earlier case with the same value and type. Cases with different keys have different values. -/
def previousCase? (a : Arena) (seen : List SeenCase) (v : Constant) (t : TypeId) : Option SeenCase :=
  seen.find? fun p => p.key == v.key && p.value.same v && a.identical p.type t

/-- Checks a case of a switch against its tag, and reports a repeated constant. -/
def switchCase (ctx : Context) (tag : Operand) (seen : List SeenCase) (e : Expr) : Check (List SeenCase) := do
  let y ← expr demand ctx .value e
  if y.isInvalid || tag.isInvalid then return seen
  let matched ← binary e.token .eq tag y e.id
  if matched.isInvalid then return seen
  match y.constant? with
  | none => return seen
  | some v =>
    match previousCase? (← arena) seen v y.type with
    | some previous =>
      report e.token (.caseRepeated e previous.pos)
      return seen
    | none => return seen ++ [⟨v.key, v, y.type, e.token.pos⟩]

/-- Checks the cases of a clause. -/
def switchCases (ctx : Context) (tag : Operand) : List SeenCase → List Expr → Check (List SeenCase)
  | seen, [] => return seen
  | seen, e :: rest => do switchCases ctx tag (← switchCase ctx tag seen e) rest

/-- The tag of a switch; without one the cases are conditions. -/
def switchTag (ctx : Context) (node : Node) : Option Expr → Check Operand
  | none => return .constant (.basic .untypedBool) (.bool true) node.id
  | some e => do assign (← expr demand ctx .value e) e none .switchTag

/-- The union that a type switch is about. -/
def switchedUnion (ctx : Context) (subject : Expr) : Check (Option TypeId) := do
  let x ← expr demand ctx .value subject
  if x.isInvalid then return none
  let a ← arena
  if a.isUnion x.type then return some x.type
  report subject.token (.switchNotUnion (a.typeText x.type))
  return none

/-- Types of the fields of a union. -/
def variantsOf (a : Arena) (union : Option TypeId) : List TypeId :=
  ((union.bind a.fields?).getD []).filterMap fun f => (a.entity f).type

/-- Cases of a type switch so far, and the type that the current clause binds. -/
structure VariantScan where
  seen : List (TypeId × Pos)
  bound : TypeId

/-- Checks a case of a type switch. A clause with a single case binds the type of that case. -/
def variantCase (ctx : Context) (union : Option TypeId) (alone : Bool) (scan : VariantScan) (e : Expr) :
    Check VariantScan := do
  let t ← type demand ctx e
  let a ← arena
  if a.isInvalid t then return scan
  match union.filter fun u => !(variantsOf a (some u)).any fun v => a.identical v t with
  | some u =>
    report e.token (.variantUnknown (a.typeText t) (a.typeText u))
    return scan
  | none =>
    match scan.seen.find? fun p => a.identical p.1 t with
    | some previous =>
      report e.token (.variantRepeated (a.typeText t) previous.2)
      return scan
    | none =>
      return ⟨scan.seen ++ [(t, e.token.pos)], if alone then t else scan.bound⟩

/-- Checks the cases of a clause of a type switch. -/
def variantCases (ctx : Context) (union : Option TypeId) (alone : Bool) : VariantScan → List Expr → Check VariantScan
  | scan, [] => return scan
  | scan, e :: rest => do variantCases ctx union alone (← variantCase ctx union alone scan e) rest

/-- Binds the variable of a type switch in a clause. -/
def bindVariant (scope : ScopeId) (binder : Ident) (t : TypeId) : Check Unit := do
  let e ← newEntity (Entity.typed (.var .plain) binder.token (some binder.id) t)
  let _ ← bind scope (some binder) e
  markUsed e

/-! ## Statements -/

/-- Whether a statement is a declaration. -/
def isDecl : Stmt → Bool
  | .decl _ => true
  | _ => false

/-- Whether a statement may follow `else`. -/
def isElse : Stmt → Bool
  | .branchOn .. | .block _ => true
  | _ => false

/-- Checks a condition where there is one. -/
def condition? (ctx : Context) (e : Option Expr) (keyword : String) : Check Unit :=
  match e with
  | some e => condition ctx e keyword
  | none => return ()

mutual

/-- Checks a statement. -/
def stmt (ctx : Context) (allowed : Permissions) : Stmt → Check Unit
  | .empty _ => return ()
  | .bad _ => return ()
  | .expr e => exprStmt ctx e
  | .step token dir target => stepStmt ctx token dir target
  | .assign token none targets values => plainAssign ctx token targets values
  | .assign token (some op) targets values => combinedAssign ctx token op targets values
  | .block body => block ctx allowed body
  | .branchOn node init test body otherwise => do
    let scope ← openScope ctx.scope .block node.id
    let ctx := ctx.within scope
    initial ctx init
    condition ctx test "if"
    block ctx allowed.withoutFall body
    elseBranch ctx allowed.withoutFall otherwise
  | .loop node label init test post body => do
    let scope ← openScope ctx.scope .block node.id
    let ctx := (ctx.within scope).labelled label true
    initial ctx init
    condition? ctx test "for"
    postStmt ctx post
    block ctx allowed.withoutFall.inLoop body
  | .switch node label init tag clauses => do
    let scope ← openScope ctx.scope .block node.id
    let ctx := (ctx.within scope).labelled label false
    initial ctx init
    let tag ← switchTag ctx node tag
    defaults "switch" none clauses
    switchClauses ctx allowed.withoutFall tag [] clauses
  | .typeSwitch node label binder subject clauses => do
    let scope ← openScope ctx.scope .block node.id
    let ctx := (ctx.within scope).labelled label false
    let union ← switchedUnion ctx subject
    defaults "type switch" none clauses
    variantClauses ctx allowed.withoutFall union binder [] clauses
  | .returns token values => returnStmt ctx token values
  | .defer token deferred =>
    if isDecl deferred then report token .deferredDeclaration
    else stmt ctx.deferred .none deferred
  | .jump token kind label => jump ctx allowed token kind label
  | .use _ targets => uses ctx targets
  | .decl d => declStmt ctx d

/-- Checks statements in order. Only the last one that is not empty may fall through. -/
def stmtsInOrder (ctx : Context) (allowed : Permissions) : List Stmt → Check Unit
  | [] => return ()
  | s :: rest => do
    stmt ctx (if rest.all Stmt.isEmpty then allowed else allowed.withoutFall) s
    stmtsInOrder ctx allowed rest

/-- Checks a block in a scope of its own. -/
def block (ctx : Context) (allowed : Permissions) : Block → Check Unit
  | ⟨id, _, _, stmts⟩ => do
    let scope ← openScope ctx.scope .block id
    hoistAll (ctx.within scope) stmts
    stmtsInOrder (ctx.within scope) allowed stmts

/-- Checks the statement in front of a condition or tag. -/
def initial (ctx : Context) : Option Stmt → Check Unit
  | none => return ()
  | some s => stmt ctx .none s

/-- Checks the statement after each turn of a loop. -/
def postStmt (ctx : Context) : Option Stmt → Check Unit
  | none => return ()
  | some s => if isDecl s then report s.token .postDeclaration else stmt ctx .none s

/-- Checks the branch taken when a condition fails. -/
def elseBranch (ctx : Context) (allowed : Permissions) : Option Stmt → Check Unit
  | none => return ()
  | some s => if isElse s then stmt ctx allowed s else report s.token .elseForm

/-- Checks the clauses of a switch. All but the last may fall through. -/
def switchClauses (ctx : Context) (allowed : Permissions) (tag : Operand) : List SeenCase → List Clause → Check Unit
  | _, [] => return ()
  | seen, ⟨node, cases, stmts⟩ :: rest => do
    let seen ← switchCases ctx tag seen cases
    let scope ← openScope ctx.scope .block node.id
    hoistAll (ctx.within scope) stmts
    stmtsInOrder (ctx.within scope) (allowed.inClause !rest.isEmpty) stmts
    switchClauses ctx allowed tag seen rest

/-- Checks the clauses of a type switch. Each binds the variable anew. -/
def variantClauses (ctx : Context) (allowed : Permissions) (union : Option TypeId) (binder : Ident) :
    List (TypeId × Pos) → List Clause → Check Unit
  | _, [] => return ()
  | seen, ⟨node, cases, stmts⟩ :: rest => do
    let scan ← variantCases ctx union (cases.length == 1) ⟨seen, union.getD .invalid⟩ cases
    let scope ← openScope ctx.scope .block node.id
    bindVariant scope binder scan.bound
    hoistAll (ctx.within scope) stmts
    stmtsInOrder (ctx.within scope) (allowed.inClause false) stmts
    variantClauses ctx allowed union binder scan.seen rest

end

end Statics.Check
