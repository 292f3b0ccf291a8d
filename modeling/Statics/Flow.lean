import Statics.Source.Stmt

/-!
# Statements that never complete

`Stmt.terminates` says that control cannot run past a statement: every path ends in a return, in a call that never
returns, or in a fallthrough, which hands over to a clause that must terminate itself. The analysis looks at syntax
only; which callees never return is a parameter.

`Stmt.breaks` says that a break inside a statement leaves the construct around it. An unlabelled break counts while
`implicit` is set; loops and switches inside clear it, because such a break leaves them instead.
-/

namespace Statics

/-- Whether a break with an optional label leaves the construct with the optional label `label`. -/
def breakLeaves (label : Option String) (implicit : Bool) : Option Ident → Bool
  | none => implicit
  | some target => label == some target.name

mutual

/-- Whether a break in a statement leaves the construct around it. -/
def Stmt.breaks (label : Option String) (implicit : Bool) : Stmt → Bool
  | .jump _ .breaks target => breakLeaves label implicit target
  | .block body => Block.breaks label implicit body
  | .branchOn _ _ _ body otherwise => Block.breaks label implicit body || Stmt.breaksOption label implicit otherwise
  | .loop _ _ _ _ _ body => label.isSome && Block.breaks label false body
  | .switch _ _ _ _ clauses => label.isSome && Clause.breaksList label false clauses
  | .typeSwitch _ _ _ _ clauses => label.isSome && Clause.breaksList label false clauses
  | _ => false

/-- Whether a break in an optional statement leaves the construct around it. -/
def Stmt.breaksOption (label : Option String) (implicit : Bool) : Option Stmt → Bool
  | none => false
  | some s => Stmt.breaks label implicit s

/-- Whether a break in a list of statements leaves the construct around it. -/
def Stmt.breaksList (label : Option String) (implicit : Bool) : List Stmt → Bool
  | [] => false
  | s :: rest => Stmt.breaks label implicit s || Stmt.breaksList label implicit rest

/-- Whether a break in a block leaves the construct around it. -/
def Block.breaks (label : Option String) (implicit : Bool) : Block → Bool
  | ⟨_, _, _, stmts⟩ => Stmt.breaksList label implicit stmts

/-- Whether a break in some clause leaves the construct around it. -/
def Clause.breaksList (label : Option String) (implicit : Bool) : List Clause → Bool
  | [] => false
  | ⟨_, _, stmts⟩ :: rest => Stmt.breaksList label implicit stmts || Clause.breaksList label implicit rest

end

/-- Whether an expression statement is a call that never returns. -/
def Expr.diverges (never : Expr → Bool) (e : Expr) : Bool :=
  match e.unparen with
  | .call _ callee _ => never callee.unparen
  | _ => false

mutual

/-- Whether control never runs past a statement. -/
def Stmt.terminates (never : Expr → Bool) : Stmt → Bool
  | .returns .. => true
  | .jump _ kind _ => kind == .fallsThrough
  | .block body => Block.terminates never body
  | .expr e => e.diverges never
  | .branchOn _ _ _ body otherwise => Stmt.terminatesElse never otherwise && Block.terminates never body
  | .loop _ label _ test _ body => test.isNone && !Block.breaks (label.map Node.name) true body
  | .switch _ label _ _ clauses =>
    Clause.terminateAll never (label.map Node.name) clauses && clauses.any Clause.isDefault
  | .typeSwitch _ label _ _ clauses =>
    Clause.terminateAll never (label.map Node.name) clauses && clauses.any Clause.isDefault
  | _ => false

/-- Whether there is an else branch, and control never runs past it. -/
def Stmt.terminatesElse (never : Expr → Bool) : Option Stmt → Bool
  | none => false
  | some s => Stmt.terminates never s

/-- Whether control never runs past a list: its last non-empty statement decides. -/
def Stmt.terminatesList (never : Expr → Bool) : List Stmt → Bool
  | [] => false
  | s :: rest => if rest.all Stmt.isEmpty then Stmt.terminates never s else Stmt.terminatesList never rest

/-- Whether control never runs past a block. -/
def Block.terminates (never : Expr → Bool) : Block → Bool
  | ⟨_, _, _, stmts⟩ => Stmt.terminatesList never stmts

/-- Whether control never runs past any clause, nor leaves the switch from one by a break. -/
def Clause.terminateAll (never : Expr → Bool) (label : Option String) : List Clause → Bool
  | [] => true
  | ⟨_, _, stmts⟩ :: rest =>
    Stmt.terminatesList never stmts && !Stmt.breaksList label true stmts && Clause.terminateAll never label rest

end

end Statics
