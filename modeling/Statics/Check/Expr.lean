import Statics.Check.TypeForm

/-!
# Expressions and type expressions

`Check.expr` evaluates an expression in one of two readings. Read as a value, a type expression yields a type operand,
so that it can stand as the callee of a conversion. Read as a type, anything that is no type is reported. In both
readings the result is remembered for the node.

The recursion is on the tree. Declarations that a name forces are left to the `Resolver`.
-/

namespace Statics

/-- What an expression is read as. In a type declaration, `declared` is the type being declared: members of an enum
take it as their type. -/
inductive Reading where
  | value
  | type (declared : Option TypeId)

/-- The type of the members of an enum: the declared type, or else the enum itself. -/
def Reading.memberType (reading : Reading) (enum : TypeId) : TypeId :=
  match reading with
  | .type (some t) => t
  | _ => enum

namespace Check

/-- The operand of a literal. -/
def literalOperand (v : Literal) (id : NodeId) : Operand :=
  match v with
  | .int v => .constant (.basic .untypedInt) (.int v) id
  | .float v => .constant (.basic .untypedFloat) (.float v) id
  | .str s => .constant (.basic .untypedString) (.str s) id

/-- The type operand of an expression. -/
def typeOperand (e : Expr) (t : TypeId) : Check Operand := do
  let x := Operand.ofType t e.id
  annotate e.id x
  return x

/-- Reports an expression that was read as a type and is none. -/
def rejectType (e : Expr) : Check Operand := do
  report e.token (.notAType e)
  typeOperand e .invalid

/-- Finishes a name or selection, which may stand for a type. -/
def finishName (reading : Reading) (e : Expr) (x : Operand) : Check Operand := do
  annotate e.id x
  match reading, x.mode with
  | .value, _ => return x
  | .type _, .type => return x
  | .type _, .invalid => typeOperand e .invalid
  | .type _, _ => rejectType e

/-- Finishes an expression that never stands for a type. -/
def finishValue (reading : Reading) (e : Expr) (x : Operand) : Check Operand := do
  annotate e.id x
  match reading with
  | .value => return x
  | .type _ => rejectType e

section

variable (resolve : Resolver)

mutual

/-- Evaluates an expression. -/
def expr (ctx : Context) (reading : Reading) : Expr → Check Operand
  | .name n => do finishName reading (.name n) (← nameOperand resolve ctx (.name n) n)
  | .literal n v => finishValue reading (.literal n v) (literalOperand v n.id)
  | .paren n inner => do
    let x ← expr ctx reading inner
    let x := { x with expr := n.id }
    annotate n.id x
    return x
  | .unary n op operand => do
    let x ← expr ctx .value operand
    let e := Expr.unary n op operand
    finishValue reading e (← unary e op operand x)
  | .binary n op left right => do
    let x ← expr ctx .value left
    let y ← expr ctx .value right
    finishValue reading (.binary n op left right) (← binary n.token op x y n.id)
  | .call n callee args => do
    let f ← expr ctx .value callee
    let e := Expr.call n callee args
    let x ← match f.mode with
      | .invalid => do
        exprs ctx args
        pure (Operand.invalid n.id)
      | .type => conversion ctx e f.type args
      | .builtin .print => do
        printed ctx args
        pure (Operand.noValue n.id)
      | .builtin b => builtin ctx e b args
      | _ => do
        match (← arena).base f.type with
        | .proc params results =>
          if args.length != params.length then
            report n.token (.argumentCount callee params.length args.length)
          arguments ctx params args
          resultOf e results
        | _ =>
          exprs ctx args
          fail callee.token (.notCallable callee (← typeText f.type)) n.id
    finishValue reading e x
  | .select n base field => do
    let e := Expr.select n base field
    match importNamed? (← arena) ctx.scope base with
    | some (id, info) => finishName reading e (← importSelection resolve ctx e base field id info)
    | none => do
      let x ← expr ctx .value base
      finishName reading e (← selection resolve ctx e base field x)
  | .pointer n elem => do
    let t ← expr ctx.indirect (.type none) elem
    typeOperand (.pointer n elem) (← newType (.pointer t.type))
  | .array n count elem => do
    let x ← expr ctx .value count
    let length ← arrayCount count x
    let t ← expr ctx (.type none) elem
    typeOperand (.array n count elem) (← newType (.array length t.type))
  | .slice n elem => do
    let t ← expr ctx.indirect (.type none) elem
    typeOperand (.slice n elem) (← newType (.slice t.type))
  | .record n form fields => do
    let scan ← recordFields ctx form fields ⟨[], []⟩
    typeOperand (.record n form fields) (← newType (.record form scan.fields))
  | .enum n base members => do
    let t ← baseOf ctx base
    let kind := ((← arena).kind? t).getD .int
    let id ← newType (.enum t [])
    let scan ← enumMembers ctx kind (reading.memberType id) members ⟨[], .zero⟩
    onStore fun s => s.modifyType id fun _ => .enum t scan.members
    typeOperand (.enum n base members) id
  | .proc n sig => do
    let t ← signature ctx none sig
    typeOperand (.proc n sig) t

/-- Converts the one argument of a conversion. -/
def conversion (ctx : Context) (e : Expr) (t : TypeId) : List Expr → Check Operand
  | [] => do fail e.token (.conversionCount (← typeText t) 0) e.id
  | [arg] => do convert e t arg (← expr ctx .value arg)
  | first :: second :: rest => do
    let _ ← expr ctx .value first
    let _ ← expr ctx .value second
    exprs ctx rest
    fail e.token (.conversionCount (← typeText t) (rest.length + 2)) e.id

/-- Calls a built-in procedure with one argument. -/
def builtin (ctx : Context) (e : Expr) (b : Builtin) : List Expr → Check Operand
  | [arg] =>
    match b with
    | .len => do lengthOf e arg (← expr ctx .value arg)
    | .sizeOf => do measureOf e (← expr ctx (.type none) arg).type
    | .alignOf => do measureOf e (← expr ctx (.type none) arg).type
    | .new => do allocated e (← expr ctx (.type none) arg).type
    | .assert => do asserted e arg (← expr ctx .value arg)
    | .panic => do
      let _ ← assign (← expr ctx .value arg) arg (some (.basic .string)) .argument
      return .noValue e.id
    | .print => do
      let _ ← assign (← expr ctx .value arg) arg none .argument
      return .noValue e.id
  | args => fail e.token (.builtinCount b args.length) e.id

/-- Evaluates expressions whose values are not needed. -/
def exprs (ctx : Context) : List Expr → Check Unit
  | [] => return ()
  | e :: rest => do
    let _ ← expr ctx .value e
    exprs ctx rest

/-- Passes arguments to parameters; arguments without a parameter are only evaluated. -/
def arguments (ctx : Context) : List TypeId → List Expr → Check Unit
  | _, [] => return ()
  | [], e :: rest => do
    let _ ← expr ctx .value e
    arguments ctx [] rest
  | t :: params, e :: rest => do
    let x ← expr ctx .value e
    let _ ← assign x e (some t) .argument
    arguments ctx params rest

/-- Passes arguments to be printed, each of whatever type it has. -/
def printed (ctx : Context) : List Expr → Check Unit
  | [] => return ()
  | e :: rest => do
    let x ← expr ctx .value e
    let _ ← assign x e none .argument
    printed ctx rest

/-- Reads expressions as types. -/
def types (ctx : Context) : List Expr → Check (List TypeId)
  | [] => return []
  | e :: rest => do
    let t ← expr ctx (.type none) e
    return t.type :: (← types ctx rest)

/-- Enters the fields of a record. -/
def recordFields (ctx : Context) (form : RecordForm) : List Field → FieldScan → Check FieldScan
  | [], scan => return scan
  | ⟨names, type, exposes⟩ :: rest, scan => do
    let t ← expr ctx (.type none) type
    recordFields ctx form rest (← addFields form exposes t.type names scan)

/-- The base type of an enum; `int` where none is written. -/
def baseOf (ctx : Context) : Option Expr → Check TypeId
  | none => return .basic .int
  | some e => do enumBase e (← expr ctx (.type none) e).type

/-- The value of an enum member, which has a standard one where none is written. -/
def valueOf (ctx : Context) (name : Ident) (standard : Int128) : Option Expr → Check Int128
  | none => return standard
  | some e => do memberValue name standard e (← expr ctx .value e)

/-- Enters the members of an enum. -/
def enumMembers (ctx : Context) (kind : Kind) (t : TypeId) : List Member → MemberScan → Check MemberScan
  | [], scan => return scan
  | ⟨name, value⟩ :: rest, scan => do
    let v ← valueOf ctx name scan.next value
    enumMembers ctx kind t rest (← addMember kind t name v scan)

/-- Reads parameters, one type for each name, and declares them if there is a scope for them. -/
def parameters (ctx : Context) (scope : Option ScopeId) : List Field → Check (List TypeId)
  | [] => return []
  | ⟨names, type, exposes⟩ :: rest => do
    let t ← expr ctx (.type none) type
    match scope with
    | some scope => addParams scope exposes t.type names
    | none => pure ()
    return List.replicate names.length t.type ++ (← parameters ctx scope rest)

/-- Reads the type of a procedure. -/
def signature (ctx : Context) (scope : Option ScopeId) : Signature → Check TypeId
  | ⟨node, params, results⟩ => do
    let ps ← parameters ctx scope params
    let rs ← types ctx results
    let t ← newType (.proc ps rs)
    annotate node.id (.ofType t node.id)
    return t

end

/-- Reads an expression as a type. -/
def type (ctx : Context) (e : Expr) : Check TypeId :=
  return (← expr resolve ctx (.type none) e).type

end

end Check

end Statics
