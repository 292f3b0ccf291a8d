import Statics.Check.Entity

/-!
# Parts of type expressions

Fields of records, members of enums and parameters of procedures, once their types and values are known.
-/

namespace Statics.Check

/-! ## Records -/

/-- Fields entered so far, and the names that the record makes visible, newest first. -/
structure FieldScan where
  fields : List EntityId
  seen : List (String × EntityId)

/-- The first of some fields whose name is already visible, with what it collides with. -/
def FieldScan.collision? (scan : FieldScan) (a : Arena) (fields : List EntityId) : Option (String × EntityId) :=
  fields.findSome? fun f =>
    let name := (a.entity f).name
    if name == discard then none else (scan.seen.lookup name).map fun previous => (name, previous)

/-- Makes fields visible under their names. -/
def FieldScan.expose (scan : FieldScan) (a : Arena) (fields : List EntityId) : FieldScan :=
  { scan with seen := fields.foldl (fun seen f =>
      let name := (a.entity f).name
      if name == discard then seen else (name, f) :: seen) scan.seen }

/-- Makes the fields of an exposing field visible, all of them or none. -/
def embedField (field : EntityId) (t : TypeId) (scan : FieldScan) : Check FieldScan := do
  let a ← arena
  let token := (a.entity field).token
  let target := a.pointee t
  if a.isInvalid target then return scan
  match a.fields? target with
  | none =>
    report token (.embedNotRecord (a.typeText t))
    return scan
  | some inner =>
    match scan.collision? a inner with
    | some (name, previous) =>
      report token (.embedCollision token.text name (a.entity previous).token.pos)
      return scan
    | none => return scan.expose a inner

/-- Enters one field of a record. -/
def addField (form : RecordForm) (exposes : Bool) (t : TypeId) (name : Ident) (scan : FieldScan) :
    Check FieldScan := do
  let info : VariableInfo := ⟨false, exposes, true, false, scan.fields.length⟩
  let id ← newEntity (Entity.typed (.var info) name.token (some name.id) t)
  define name.id id
  let scan := { scan with fields := scan.fields ++ [id] }
  match if name.isDiscard then none else scan.seen.lookup name.name with
  | some previous =>
    report name.token (.fieldRepeated name.name form (← entity previous).token.pos)
    return scan
  | none =>
    let scan := if name.isDiscard then scan else { scan with seen := (name.name, id) :: scan.seen }
    if exposes then embedField id t scan else return scan

/-- Enters the fields of a record that share a type. -/
def addFields (form : RecordForm) (exposes : Bool) (t : TypeId) : List Ident → FieldScan → Check FieldScan
  | [], scan => return scan
  | name :: rest, scan => do addFields form exposes t rest (← addField form exposes t name scan)

/-! ## Enums -/

/-- Members entered so far, and the value that the next one has by default. -/
structure MemberScan where
  members : List EntityId
  next : Int128

/-- The value after another; the greatest is its own successor. -/
def successor (v : Int128) : Int128 := (Int128.ofInt? (v.toInt + 1)).getD v

/-- The value that a member's evaluated expression gives it. -/
def memberValue (name : Ident) (standard : Int128) (e : Expr) (x : Operand) : Check Int128 :=
  match x.mode, x.constant? with
  | .constant, some (.int v) => return v
  | .invalid, _ => return standard
  | _, _ => do
    report e.token (.memberNotInteger name.name)
    return standard

/-- Enters a member of an enum with its value. -/
def addMember (kind : Kind) (t : TypeId) (name : Ident) (value : Int128) (scan : MemberScan) : Check MemberScan := do
  if ((Constant.int value).represent? kind).isNone then
    report name.token (.memberOutOfRange name.name value.toInt kind)
  let scan := { scan with next := successor value }
  let a ← arena
  match a.fieldNamed? name.name scan.members with
  | some previous =>
    report name.token (.memberRepeated name.name (a.entity previous).token.pos)
    return scan
  | none =>
    let id ← newEntity (Entity.typed (.constant (some (.int value))) name.token (some name.id) t)
    define name.id id
    return { scan with members := scan.members ++ [id] }

/-- The base type of an enum, which must be an integer. -/
def enumBase (e : Expr) (t : TypeId) : Check TypeId := do
  let a ← arena
  if a.isInteger t || t == .invalid then return t
  report e.token (.enumBase (a.typeText t))
  return .basic .int

/-! ## Arrays and procedures -/

/-- The length of an array from its evaluated count. -/
def arrayCount (e : Expr) (x : Operand) : Check Nat := do
  match x.mode, x.constant? with
  | .invalid, _ => return 0
  | .constant, some (.int v) =>
    if 0 ≤ v.toInt && v.toInt < 9223372036854775808 then return v.toInt.toNat
    report e.token (.arrayCount e)
    return 0
  | _, _ =>
    report e.token (.arrayCount e)
    return 0

/-- Declares parameters that share a type. -/
def addParams (scope : ScopeId) (exposes : Bool) (t : TypeId) : List Ident → Check Unit
  | [] => return ()
  | name :: rest => do
    let info : VariableInfo := ⟨false, exposes, false, true, 0⟩
    let id ← newEntity (Entity.typed (.var info) name.token (some name.id) t)
    let _ ← bind scope (some name) id
    addParams scope exposes t rest

end Statics.Check
