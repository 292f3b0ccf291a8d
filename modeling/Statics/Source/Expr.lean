import Statics.Constant.Int128
import Statics.Source.Operator
import Statics.Source.Token

/-!
# Expressions

One type covers value and type expressions, because only checking tells them apart: `f(x)` is a call or a conversion,
and a name may stand for either.
-/

namespace Statics

/-- Literals as written in the source. -/
inductive Literal where
  | int (value : Int128)
  | float (value : Float)
  | str (value : String)
deriving DecidableEq, Repr

/-- The two kinds of record. A union holds one of its fields at a time. -/
inductive RecordForm where
  | struct
  | union
deriving DecidableEq, Repr

/-- Keyword of a kind of record. -/
def RecordForm.keyword : RecordForm → String
  | .struct => "struct"
  | .union => "union"

mutual

/-- An expression. Every form carries its node. -/
inductive Expr where
  | name (node : Ident)
  | literal (node : Node) (value : Literal)
  | paren (node : Node) (inner : Expr)
  | unary (node : Node) (op : UnaryOp) (operand : Expr)
  | binary (node : Node) (op : BinaryOp) (left right : Expr)
  | call (node : Node) (callee : Expr) (args : List Expr)
  | select (node : Node) (base : Expr) (field : Ident)
  | pointer (node : Node) (elem : Expr)
  | array (node : Node) (count elem : Expr)
  | slice (node : Node) (elem : Expr)
  | record (node : Node) (form : RecordForm) (fields : List Field)
  | enum (node : Node) (base : Option Expr) (members : List Member)
  | proc (node : Node) (signature : Signature)

/-- Fields of a record, or parameters of a procedure, that share a type. The members of an exposing field are visible
without naming the field. -/
structure Field where
  names : List Ident
  type : Expr
  exposes : Bool

/-- A member of an enum, with its value if one is written. -/
structure Member where
  name : Ident
  value : Option Expr

/-- Parameters and result types of a procedure. -/
structure Signature where
  node : Node
  params : List Field
  results : List Expr

end

namespace Expr

/-- The node of an expression. -/
def node : Expr → Node
  | name n | literal n _ | paren n _ | unary n _ _ | binary n _ _ _ | call n _ _ | select n _ _ | pointer n _
  | array n _ _ | slice n _ | record n _ _ | enum n _ _ | proc n _ => n

/-- Identity of an expression. -/
def id (e : Expr) : NodeId := e.node.id

/-- The token that diagnostics about an expression point at. -/
def token (e : Expr) : Token := e.node.token

/-- The expression inside any number of parentheses. -/
def unparen : Expr → Expr
  | paren _ inner => inner.unparen
  | e => e

/-- The name, if the expression is nothing else. -/
def asName? : Expr → Option String
  | name n => some n.name
  | _ => none

/-- Whether the expression is a call. -/
def isCall : Expr → Bool
  | call .. => true
  | _ => false

end Expr

instance : Inhabited Expr := ⟨.name default⟩

end Statics
