import Statics.Arena.Handle
import Statics.Builtin
import Statics.Constant.Basic
import Statics.Source.Token

/-!
# Operands

The result of evaluating an expression while checking: what it can be used as, its type, and its value if that is known.
Nothing here ties the mode to the value; that exactly the constants have one is a fact about the routines that make
operands.
-/

namespace Statics

/-- What an expression can be used as. -/
inductive Mode where
  | invalid
  | noValue
  | value
  | var
  | constant
  | type
  | builtin (id : Builtin)
deriving DecidableEq, Repr

namespace Mode

/-- Name of a mode. -/
def name : Mode → String
  | invalid => "invalid"
  | noValue => "no_value"
  | value => "value"
  | var => "variable"
  | constant => "constant"
  | type => "type"
  | builtin _ => "builtin"

/-- Modes that operators take. -/
def isValue : Mode → Bool
  | value | var | constant => true
  | _ => false

end Mode

/-- The result of evaluating the expression `expr`, with its value if that is known. -/
structure Operand where
  mode : Mode
  type : TypeId
  constant? : Option Constant
  expr : NodeId
deriving DecidableEq, Repr

namespace Operand

/-- The operand of an expression that was reported as wrong. -/
def invalid (expr : NodeId) : Operand := ⟨.invalid, .invalid, none, expr⟩

/-- The operand of a call without results. -/
def noValue (expr : NodeId) : Operand := ⟨.noValue, .invalid, none, expr⟩

/-- A computed value. -/
def value (type : TypeId) (expr : NodeId) : Operand := ⟨.value, type, none, expr⟩

/-- A place that can be assigned to. -/
def var (type : TypeId) (expr : NodeId) : Operand := ⟨.var, type, none, expr⟩

/-- A constant. -/
def constant (type : TypeId) (v : Constant) (expr : NodeId) : Operand := ⟨.constant, type, some v, expr⟩

/-- A type. -/
def ofType (type : TypeId) (expr : NodeId) : Operand := ⟨.type, type, none, expr⟩

/-- A built-in procedure. -/
def builtin (id : Builtin) (expr : NodeId) : Operand := ⟨.builtin id, .invalid, none, expr⟩

/-- Whether the expression was reported as wrong. -/
def isInvalid (x : Operand) : Bool := x.mode == .invalid

/-- The operand after its expression was reported as wrong. -/
def invalidated (x : Operand) : Operand := invalid x.expr

end Operand

/-- What is remembered about an expression. -/
structure Note where
  mode : Mode
  type : TypeId
  constant? : Option Constant
deriving DecidableEq, Repr

/-- What is remembered about an operand. -/
def Operand.note (x : Operand) : Note := ⟨x.mode, x.type, x.constant?⟩

end Statics
