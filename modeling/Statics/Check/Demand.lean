import Statics.Check.Expr

/-!
# Checking declarations on demand

A declaration is checked when its entity is first needed. If it is needed again while that goes on, and before its
entity has a type, it depends on itself.

`Check.demandFrom` takes the declarations that are still pending. Each level of demand takes one of them away, so
demands nest no deeper than there are declarations.
-/

namespace Statics.Check

section

variable (resolve : Resolver)

/-! ## Variables -/

/-- The operands of an evaluated expression: one for each result of a call with several. -/
def spliced (a : Arena) (x : Operand) (e : Expr) : List (Operand × Expr) :=
  match x.mode, a.type x.type with
  | .value, .tuple items => items.map fun t => (.value t e.id, e)
  | _, _ => [(x, e)]

/-- The operands of a list of expressions. -/
def operands (ctx : Context) : List Expr → Check (List (Operand × Expr))
  | [] => return []
  | e :: rest => do
    let x ← expr resolve ctx .value e
    let here := spliced (← arena) x e
    return here ++ (← operands ctx rest)

/-- Gives a variable without a type the one its initial value settles on. -/
def inferType (e : EntityId) (x : Operand) (init : Expr) : Check Unit := do
  let a ← arena
  if a.isUntypedNil x.type then
    report (a.entity e).token (.nilWithoutType .variableDeclaration)
    setType e .invalid
  else
    let t := a.settledType x.type
    setType e t
    let _ ← assign x init (some t) .variableDeclaration

/-- Initializes a variable. -/
def initVariable (e : EntityId) (x : Operand) (init : Expr) : Check Unit := do
  let a ← arena
  let declared := (a.entity e).type
  if (declared.map a.isInvalid).getD false then return ()
  match x.mode, declared with
  | .invalid, _ => setType e .invalid
  | .noValue, _ | .type, _ | .builtin _, _ => do
    let _ ← assign x init none .variableDeclaration
    setType e .invalid
  | _, some t => do
    let _ ← assign x init (some t) .variableDeclaration
  | _, none => inferType e x init

/-- Initializes variables in order; those without an operand stay invalid. -/
def initEach : List EntityId → List (Operand × Expr) → Check Unit
  | [], _ => return ()
  | e :: entities, [] => do
    setType e .invalid
    initEach entities []
  | e :: entities, (x, init) :: rest => do
    initVariable e x init
    initEach entities rest

/-- Initializes variables, whose number must be that of the operands that are not wrong already. -/
def initVariables (ctx : Context) (entities : List EntityId) (token : Token) (inits : List Expr) : Check Unit := do
  let xs ← operands resolve ctx inits
  let count := (xs.filter fun x => !x.1.isInvalid).length
  initEach entities xs
  if 0 < count && entities.length != count then
    report token (.countMismatch entities.length count)

/-- Gives every entity a type unless it has one. -/
def setTypes (t : TypeId) : List EntityId → Check Unit
  | [] => return ()
  | e :: rest => do
    setType e t
    setTypes t rest

/-- Marks variables whose declaration is being checked. -/
def visit : List EntityId → Check Unit
  | [] => return ()
  | e :: rest => do
    onStore fun s => s.modifyEntity e fun x =>
      match x.kind with
      | .var v => { x with kind := .var { v with visited := true } }
      | _ => x
    visit rest

/-- Reports an entity whose declaration depends on itself. -/
def reportCycle (e : EntityId) : Check Unit := do
  let token := (← entity e).token
  report token (.cyclicInitialization token.text)

/-- Reads the type of variables, then their values. The token is that of the first variable. -/
def readVariables (ctx : Context) (entities : List EntityId) (token : Token) (type : Option Expr) (values : List Expr) :
    Check Unit := do
  match type with
  | some e => setTypes (← expr resolve ctx (.type none) e).type entities
  | none => pure ()
  match type, values with
  | none, [] =>
    report token .variableWithoutType
    setTypes .invalid entities
  | some _, [] => pure ()
  | _, _ :: _ => initVariables resolve ctx entities token values

/-- Checks a declaration of variables: first their type, then their values. Coming here again for one of them means that
a value depends on itself. -/
def varDecl (ctx : Context) (entities : List EntityId) (type : Option Expr) (values : List Expr) : Check Unit := do
  let a ← arena
  match entities with
  | [] =>
    match type with
    | some e => do let _ ← expr resolve ctx (.type none) e
    | none => pure ()
  | first :: _ =>
    if entities.any fun e => (a.entity e).isVisited then
      reportCycle first
      setTypes .invalid entities
    else
      visit entities
      record (.read entities)
      readVariables resolve ctx entities (a.entity first).token type values

/-! ## Constants and named types -/

/-- Gives a constant the value of its evaluated expression, which must be constant. -/
def initConstant (e : EntityId) (x : Operand) (init : Expr) : Check Unit := do
  let a ← arena
  let declared := (a.entity e).type
  if x.isInvalid || a.isInvalid x.type || (declared.map a.isInvalid).getD false then setType e .invalid
  else
    match x.mode with
    | .constant => do
      let t := declared.getD (a.settledType x.type)
      setType e t
      let x ← assign x init (some t) .constantDeclaration
      match x.isInvalid, x.constant? with
      | false, some v => onStore fun s => s.modifyEntity e fun entity =>
          match entity.kind with
          | .constant _ => { entity with kind := .constant (some v) }
          | _ => entity
      | _, _ => pure ()
    | _ => do
      report init.token (.notConstant init)
      setType e .invalid

/-- Checks a declaration of a constant. -/
def constant (ctx : Context) (e : EntityId) (type value : Option Expr) : Check Unit := do
  match type with
  | some t => setType e (← expr resolve ctx (.type none) t).type
  | none => pure ()
  match value with
  | none => setType e .invalid
  | some init => initConstant e (← expr resolve ctx .value init) init

/-- The base of a named type: what its type expression stands for under all names, and invalid while that has no base
itself. -/
def namedBase (a : Arena) (t : TypeId) : TypeId :=
  match a.base t with
  | .named .. => .invalid
  | _ => a.baseType t

/-- Checks a declaration of a named type. The entity has its type before the type expression is read, so that the
expression may refer to it behind a pointer. -/
def namedType (ctx : Context) (e : EntityId) (type : Expr) : Check Unit := do
  let name := (← entity e).name
  let named ← newType (.named name none e)
  setType e named
  let t ← expr resolve (ctx.declaring e) (.type (some named)) type
  let base := namedBase (← arena) t.type
  onStore fun s => s.modifyType named fun
    | .named name _ e => .named name (some base) e
    | t => t

/-! ## Procedures -/

/-- Reads the signature of a procedure in a scope of its own. -/
def procSignature (ctx : Context) (e : EntityId) (d : ProcDecl) : Check (ScopeId × TypeId) := do
  let scope ← openScope ctx.scope .signature d.signature.node.id
  let t ← signature resolve (ctx.within scope) (some scope) d.signature
  setType e t
  onStore fun s => s.modifyEntity e fun x =>
    match x.kind with
    | .procedure info => { x with kind := .procedure { info with scope := some scope } }
    | _ => x
  return (scope, t)

/-- Checks that the procedure a program starts with takes and returns nothing. -/
def entryPointSignature (d : ProcDecl) (t : TypeId) : Check Unit := do
  let a ← arena
  match a.type t with
  | .proc params results =>
    if !params.isEmpty || !results.isEmpty then
      report d.name.token (.entryPointSignature d.name.name (a.typeText t))
  | _ => pure ()

/-- Checks the tags of a procedure against one another. -/
def procTags (d : ProcDecl) : Check Unit := do
  if d.tags.inlined && d.tags.notInlined then report d.signature.node.token .inlineContradiction
  if d.tags.foreign && d.linkName.isSome then report d.signature.node.token .foreignWithLinkName

/-- Binds a foreign procedure to its symbol. Another one bound to the symbol before must have a similar signature. -/
def bindForeign (d : ProcDecl) (e : EntityId) (t : TypeId) : Check Unit := do
  let symbol := ((d.foreignName.map Token.text).getD d.name.name)
  match (← get).foreigns.lookup symbol with
  | some previous =>
    let a ← arena
    let previous := a.entity previous
    if !a.similarSignatures t (previous.type.getD .invalid) then
      report d.token (.foreignMismatch symbol previous.token.pos)
  | none => modify fun s => { s with foreigns := (symbol, e) :: s.foreigns }

/-- Checks a foreign procedure, which stands at file level and has no body. -/
def foreignProc (d : ProcDecl) (fileLevel : Bool) (e : EntityId) (t : TypeId) : Check Unit := do
  if !fileLevel then report d.token .foreignInside
  match d.body with
  | some body => report body.opening .foreignWithBody
  | none => pure ()
  if fileLevel then bindForeign d e t

/-- Claims a link name for the procedure at `pos`. It is an error if it was claimed before. -/
def reserveLink (link : Token) (pos : Pos) : Check Unit := do
  let holder := (← get).links.lookup link.text
  modify fun s => { s with links := s.links ++ [(link.text, pos)] }
  match holder with
  | some first => emit (linkClash link first)
  | none => pure ()

/-- Checks a declaration of a procedure. Its body is queued, not checked. -/
def procedure (ctx : Context) (e : EntityId) (d : ProcDecl) : Check Unit := do
  let (scope, t) ← procSignature resolve ctx e d
  let fileLevel := ((← arena).scope ctx.scope).kind.isFileLevel
  if fileLevel && d.name.name == ctx.entryPoint then entryPointSignature d t
  procTags d
  if d.tags.foreign then foreignProc d fileLevel e t
  else
    match d.linkName with
    | some link => reserveLink link d.name.token.pos
    | none => pure ()
    match d.body with
    | some block => modify fun s => { s with queue := s.queue ++ [⟨e, scope, t, block⟩] }
    | none => report d.token (.bodyMissing d.name.name)

/-- Checks a declaration. -/
def declaration (ctx : Context) (e : EntityId) : Declaration → Check Unit
  | .constant _ type value => constant resolve ctx e type value
  | .vars _ entities type values => varDecl resolve ctx entities type values
  | .type _ type => namedType resolve ctx e type
  | .proc _ d => procedure resolve ctx e d

end

/-! ## Demand -/

/-- Takes the declaration of an entity away from those that are pending. -/
def take? (e : EntityId) : List (EntityId × Declaration) → Option (Declaration × List (EntityId × Declaration))
  | [] => none
  | p :: rest =>
    if p.1 = e then some (p.2, rest)
    else (take? e rest).map fun q => (q.1, p :: q.2)

/-- Taking a declaration away leaves one less. -/
theorem length_of_take? {e : EntityId} {pending rest : List (EntityId × Declaration)} {d : Declaration}
    (h : take? e pending = some (d, rest)) : pending.length = rest.length + 1 := by
  induction pending generalizing rest with
  | nil => simp [take?] at h
  | cons p tail ih =>
    unfold take? at h
    split at h
    · simp only [Option.some.injEq, Prod.mk.injEq] at h
      simp [h.2]
    · simp only [Option.map_eq_some_iff] at h
      obtain ⟨⟨d', rest'⟩, hq, h⟩ := h
      simp only [Prod.mk.injEq] at h
      simp [← h.2, ih (h.1 ▸ hq)]

/-- Sees to it that an entity has a type: checks its declaration if one is kept for it, and reports a cycle if the
check is already going on. -/
def demandFrom (pending : List (EntityId × Declaration)) (ctx : Context) (e : EntityId) : Check Unit := do
  if (← entity e).type.isSome then return ()
  if (← get).active.contains e then
    reportCycle e
    setType e .invalid
  else
    match _taken : take? e pending with
    | some (d, rest) =>
      record (.enter e)
      declaration (demandFrom rest) (ctx.within d.scope) e d
      record (.leave e)
    | none => pure ()
termination_by pending.length
decreasing_by
  rw [length_of_take? _taken]
  omega

/-- Sees to it that an entity has a type, where no check of a declaration is going on. -/
def demand (ctx : Context) (e : EntityId) : Check Unit := do
  demandFrom (← get).decls ctx e

end Statics.Check
