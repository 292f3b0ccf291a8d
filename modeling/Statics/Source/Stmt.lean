import Statics.Source.Expr

/-!
# Statements, declarations and files
-/

namespace Statics

/-- Declares variables: `names : type = values`, where the type or the values may be missing. -/
structure VarDecl where
  token : Token
  names : List Ident
  type : Option Expr
  values : List Expr
  exposes : Bool

/-- Declares constants, each name with the value at its place. -/
structure ConstDecl where
  token : Token
  names : List Ident
  type : Option Expr
  values : List Expr

/-- Declares a named type. -/
structure TypeDecl where
  token : Token
  name : Ident
  type : Expr

/-- Imports another file, under a name of its own if one is written. -/
structure ImportDecl where
  token : Token
  path : Token
  name : Option Ident

/-- Tags of a procedure. -/
structure ProcTags where
  foreign : Bool
  inlined : Bool
  notInlined : Bool
deriving DecidableEq, Repr, Inhabited

/-- Statements that leave their place. -/
inductive BranchKind where
  | breaks
  | continues
  | fallsThrough
deriving DecidableEq, Repr

mutual

/-- A statement. -/
inductive Stmt where
  | empty (token : Token)
  | bad (token : Token)
  | expr (value : Expr)
  | step (token : Token) (dir : Step) (target : Expr)
  | assign (token : Token) (op : Option BinaryOp) (targets values : List Expr)
  | block (body : Block)
  | branchOn (node : Node) (init : Option Stmt) (test : Expr) (body : Block) (otherwise : Option Stmt)
  | loop (node : Node) (label : Option Ident) (init : Option Stmt) (test : Option Expr) (post : Option Stmt)
      (body : Block)
  | switch (node : Node) (label : Option Ident) (init : Option Stmt) (tag : Option Expr) (clauses : List Clause)
  | typeSwitch (node : Node) (label : Option Ident) (binder : Ident) (subject : Expr) (clauses : List Clause)
  | returns (token : Token) (values : List Expr)
  | defer (token : Token) (deferred : Stmt)
  | jump (token : Token) (kind : BranchKind) (label : Option Ident)
  | use (token : Token) (targets : List Expr)
  | decl (declared : Decl)

/-- Statements between braces. -/
structure Block where
  id : NodeId
  opening : Token
  closing : Token
  stmts : List Stmt

/-- A clause of a switch; without cases it is the default. -/
structure Clause where
  node : Node
  cases : List Expr
  stmts : List Stmt

/-- A declaration. -/
inductive Decl where
  | vars (decl : VarDecl)
  | consts (decl : ConstDecl)
  | type (decl : TypeDecl)
  | proc (decl : ProcDecl)
  | imported (decl : ImportDecl)

/-- Declares a procedure. -/
structure ProcDecl where
  token : Token
  name : Ident
  signature : Signature
  body : Option Block
  tags : ProcTags
  foreignName : Option Token
  linkName : Option Token

end

/-- Whether a clause is the default. -/
def Clause.isDefault (c : Clause) : Bool := c.cases.isEmpty

/-- The token that diagnostics about a declaration point at. -/
def Decl.token : Decl → Token
  | vars d => d.token
  | consts d => d.token
  | type d => d.token
  | proc d => d.token
  | imported d => d.token

namespace Stmt

/-- The token that diagnostics about a statement point at. -/
def token : Stmt → Token
  | empty t | bad t | step t _ _ | assign t _ _ _ | returns t _ | defer t _ | jump t _ _ | use t _ => t
  | expr e => e.token
  | block b => b.opening
  | branchOn n _ _ _ _ | loop n _ _ _ _ _ | switch n _ _ _ _ | typeSwitch n _ _ _ _ => n.token
  | decl d => d.token

/-- Whether a statement is the empty one. -/
def isEmpty : Stmt → Bool
  | empty _ => true
  | _ => false

end Stmt

/-- A source file with its declarations. -/
structure File where
  path : String
  decls : List Stmt

mutual

/-- How many procedure declarations stand inside one another in a statement. -/
def Stmt.nesting : Stmt → Nat
  | .block b => b.nesting
  | .branchOn _ init _ body otherwise => max (Stmt.nestingOption init) (max body.nesting (Stmt.nestingOption otherwise))
  | .loop _ _ init _ post body => max (Stmt.nestingOption init) (max (Stmt.nestingOption post) body.nesting)
  | .switch _ _ init _ clauses => max (Stmt.nestingOption init) (Clause.nestingList clauses)
  | .typeSwitch _ _ _ _ clauses => Clause.nestingList clauses
  | .defer _ s => s.nesting
  | .decl d => d.nesting
  | _ => 0

@[inherit_doc Stmt.nesting]
def Stmt.nestingOption : Option Stmt → Nat
  | none => 0
  | some s => s.nesting

@[inherit_doc Stmt.nesting]
def Stmt.nestingList : List Stmt → Nat
  | [] => 0
  | s :: rest => max s.nesting (Stmt.nestingList rest)

/-- Nesting of procedure declarations in a block. -/
def Block.nesting : Block → Nat
  | ⟨_, _, _, stmts⟩ => Stmt.nestingList stmts

/-- Nesting of procedure declarations in the clauses of a switch. -/
def Clause.nestingList : List Clause → Nat
  | [] => 0
  | ⟨_, _, stmts⟩ :: rest => max (Stmt.nestingList stmts) (Clause.nestingList rest)

/-- Nesting of procedure declarations in a declaration, itself included. -/
def Decl.nesting : Decl → Nat
  | .proc ⟨_, _, _, body, _, _, _⟩ => Block.nestingOption body + 1
  | _ => 0

@[inherit_doc Block.nesting]
def Block.nestingOption : Option Block → Nat
  | none => 0
  | some b => b.nesting

end

end Statics
