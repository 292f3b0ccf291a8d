import Statics.Decimal.Layout
import Statics.Source.Expr
import Statics.Text.Quoted

/-!
# Text of expressions

Diagnostics quote expressions. The text is written from the tree, so it does not depend on the spacing of the source.
-/

namespace Statics

/-- Text of a literal: floats keep a point or an exponent, strings are quoted. -/
def Literal.text : Literal → String
  | .int v => toString v.toInt
  | .float v => Decimal.Layout.rounded.text v
  | .str s => Text.quoted s

/-- Result types behind a parameter list: none, one, or a list in parentheses. -/
def arrowText : List String → String
  | [] => ""
  | [one] => " -> " ++ one
  | many => " -> (" ++ ", ".intercalate many ++ ")"

/-- Mark in front of an exposing field. -/
def exposingText (exposes : Bool) : String :=
  if exposes then "using " else ""

mutual

/-- Text of an expression. -/
def Expr.text : Expr → String
  | .name n => n.name
  | .literal _ v => v.text
  | .paren _ inner => "(" ++ inner.text ++ ")"
  | .unary _ op operand => op.symbol ++ operand.text
  | .binary _ op left right => left.text ++ " " ++ op.symbol ++ " " ++ right.text
  | .call _ callee args => callee.text ++ "(" ++ ", ".intercalate (Expr.texts args) ++ ")"
  | .select _ base field => base.text ++ "." ++ field.name
  | .pointer _ elem => "^" ++ elem.text
  | .array _ count elem => "[" ++ count.text ++ "]" ++ elem.text
  | .slice _ elem => "[]" ++ elem.text
  | .record _ form fields => form.keyword ++ " \x7b" ++ ", ".intercalate (Field.texts fields) ++ "\x7d"
  | .enum _ base members => "enum" ++ Expr.baseText base ++ " \x7b" ++ ", ".intercalate (Member.texts members) ++ "\x7d"
  | .proc _ signature => signature.text

/-- Texts of a list of expressions. -/
def Expr.texts : List Expr → List String
  | [] => []
  | e :: rest => e.text :: Expr.texts rest

/-- Base type of an enum behind its keyword. -/
def Expr.baseText : Option Expr → String
  | none => ""
  | some e => " " ++ e.text

/-- Texts of fields or parameters, one for each shared type. -/
def Field.texts : List Field → List String
  | [] => []
  | ⟨names, type, exposes⟩ :: rest =>
    (exposingText exposes ++ ", ".intercalate (names.map Node.name) ++ ": " ++ type.text) :: Field.texts rest

/-- Value of an enum member behind its name. -/
def Expr.valueText : Option Expr → String
  | none => ""
  | some e => " = " ++ e.text

/-- Texts of enum members. -/
def Member.texts : List Member → List String
  | [] => []
  | ⟨name, value⟩ :: rest => (name.name ++ Expr.valueText value) :: Member.texts rest

/-- Text of a procedure type. -/
def Signature.text : Signature → String
  | ⟨_, params, results⟩ => "proc(" ++ ", ".intercalate (Field.texts params) ++ ")" ++ arrowText (Expr.texts results)

end

end Statics
