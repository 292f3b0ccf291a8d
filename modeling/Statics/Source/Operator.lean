/-!
# Operators

The unary and binary operators of expressions, with their spelling.
-/

namespace Statics

/-- Operators in front of one operand. -/
inductive UnaryOp where
  | negate
  | complement
  | address
deriving DecidableEq, Repr

/-- Spelling of a unary operator. -/
def UnaryOp.symbol : UnaryOp → String
  | .negate => "-"
  | .complement => "!"
  | .address => "&"

/-- Operators between two operands. -/
inductive BinaryOp where
  | add
  | sub
  | mul
  | div
  | rem
  | eq
  | ne
  | lt
  | le
  | gt
  | ge
  | and
  | or
deriving DecidableEq, Repr

namespace BinaryOp

/-- All binary operators, arithmetic first. -/
def all : List BinaryOp := [add, sub, mul, div, rem, eq, ne, lt, le, gt, ge, and, or]

/-- Spelling of a binary operator. -/
def symbol : BinaryOp → String
  | add => "+"
  | sub => "-"
  | mul => "*"
  | div => "/"
  | rem => "%"
  | eq => "=="
  | ne => "!="
  | lt => "<"
  | le => "<="
  | gt => ">"
  | ge => ">="
  | and => "&&"
  | or => "||"

/-- Operators that compare two operands of one type and yield a boolean. -/
def isComparison : BinaryOp → Bool
  | eq | ne | lt | le | gt | ge => true
  | _ => false

/-- Operators on booleans. -/
def isLogical : BinaryOp → Bool
  | and | or => true
  | _ => false

/-- The operator with a given spelling. -/
def ofSymbol? (s : String) : Option BinaryOp :=
  all.find? fun op => op.symbol == s

end BinaryOp

/-- The two one-step assignments. -/
inductive Step where
  | up
  | down
deriving DecidableEq, Repr

namespace Step

/-- Spelling of a step. -/
def symbol : Step → String
  | up => "++"
  | down => "--"

/-- The operator that a step applies with the operand one. -/
def op : Step → BinaryOp
  | up => .add
  | down => .sub

end Step

end Statics
