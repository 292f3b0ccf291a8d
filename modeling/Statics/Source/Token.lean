/-!
# Tokens and nodes

A token is a piece of source text with its place. A node has an identity besides: annotations of a program are keyed by
it.
-/

namespace Statics

/-- Identity of a node of a syntax tree. -/
abbrev NodeId := Nat

/-- A place in a file, both numbers counted from one. -/
structure Pos where
  file : String
  line : Nat
  column : Nat
deriving DecidableEq, Repr, Inhabited

/-- The place as diagnostics cite it. -/
def Pos.text (p : Pos) : String :=
  p.file ++ "(" ++ toString p.line ++ ":" ++ toString p.column ++ ")"

/-- A stretch of bytes in a file. -/
structure Span where
  offset : Nat
  length : Nat
deriving DecidableEq, Repr, Inhabited

/-- A piece of source text and its place. -/
structure Token where
  text : String
  pos : Pos
  span : Span
deriving DecidableEq, Repr, Inhabited

/-- An identity and a token: what marks a node of the tree. -/
structure Node where
  id : NodeId
  token : Token
deriving DecidableEq, Repr, Inhabited

/-- An identifier is a node whose token is the name. -/
abbrev Ident := Node

/-- The name that stands for no name. -/
def discard : String := "_"

/-- The text of an identifier. -/
def Node.name (n : Node) : String := n.token.text

/-- Whether an identifier binds nothing. -/
def Node.isDiscard (n : Node) : Bool := n.name == discard

end Statics
