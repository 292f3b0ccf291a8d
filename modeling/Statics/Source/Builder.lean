import Statics.Decimal.Layout
import Statics.Source.Stmt

/-!
# Building syntax trees

A `Builder` numbers the nodes of one file and lays out its tokens, each on a line of its own. The functions follow the
forms of the tree. Each takes its parts ready made and draws the identities and tokens that the form itself needs, so
these stand below those of the parts. Within a form the order varies: the closing brace of a block and the names that a
procedure is linked by come after the token that the form starts with.

The counters are machine words and wrap around, unless the program checks its additions and stops there.
-/

namespace Statics

/-- Where the next node and the next token of a file go. -/
structure Builder where
  file : String
  nextId : UInt32
  nextLine : UInt32
  offset : UInt64
deriving DecidableEq, Repr

/-- A step of building one file. -/
abbrev Build := StateM Builder

namespace Builder

/-- The builder of an empty file. -/
def start (file : String) : Builder := ⟨file, 0, 1, 0⟩

/-- Draws a fresh identity. -/
def freshId : Build NodeId :=
  modifyGet fun b => (b.nextId.toNat, { b with nextId := b.nextId + 1 })

/-- Puts a token on the next line. One byte separates it from the next. -/
def token (text : String) : Build Token :=
  modifyGet fun b =>
    (⟨text, ⟨b.file, b.nextLine.toNat, 1⟩, ⟨b.offset.toNat, text.utf8ByteSize⟩⟩,
      { b with nextLine := b.nextLine + 1, offset := b.offset + .ofNat text.utf8ByteSize + 1 })

/-- Draws an identity, then puts a token. -/
def node (text : String) : Build Node := do
  let id ← freshId
  return ⟨id, ← token text⟩

/-- An identifier. -/
def ident (name : String) : Build Ident := node name

/-- Identifiers in order. -/
def idents (names : List String) : Build (List Ident) := names.mapM ident

/-- An identifier where there is a name. -/
def ident? (name : Option String) : Build (Option Ident) := name.mapM ident

/-- A token where there is a text. -/
def token? (text : Option String) : Build (Option Token) := text.mapM token

/-! ## Expressions -/

/-- A name. -/
def name (text : String) : Build Expr := return .name (← node text)

/-- An integer literal. -/
def int (value : Int128) : Build Expr := return .literal (← node (toString value.toInt)) (.int value)

/-- A float literal; its token has no exponent. -/
def float (value : Float) : Build Expr :=
  return .literal (← node (Decimal.Layout.plain.text value)) (.float value)

/-- A string literal; its token is the text without quotes. -/
def str (value : String) : Build Expr := return .literal (← node value) (.str value)

/-- An expression in parentheses. -/
def paren (inner : Expr) : Build Expr := return .paren (← node "(") inner

/-- A unary operation. -/
def unary (op : UnaryOp) (operand : Expr) : Build Expr := return .unary (← node op.symbol) op operand

/-- A binary operation. -/
def binary (op : BinaryOp) (left right : Expr) : Build Expr := return .binary (← node op.symbol) op left right

/-- A call or conversion. -/
def call (callee : Expr) (args : List Expr) : Build Expr := return .call (← node "(") callee args

/-- A selection by name. -/
def select (base : Expr) (field : String) : Build Expr := do
  let field ← ident field
  return .select (← node ".") base field

/-- A pointer type. -/
def pointer (elem : Expr) : Build Expr := return .pointer (← node "^") elem

/-- An array type. -/
def array (count elem : Expr) : Build Expr := return .array (← node "[") count elem

/-- A slice type. -/
def slice (elem : Expr) : Build Expr := return .slice (← node "[") elem

/-- Fields or parameters that share a type. -/
def field (names : List String) (type : Expr) (exposes : Bool) : Build Field :=
  return ⟨← idents names, type, exposes⟩

/-- A record type. -/
def record (form : RecordForm) (fields : List Field) : Build Expr := return .record (← node form.keyword) form fields

/-- The members of an enum, with their names in order. -/
def members (ms : List (String × Option Expr)) : Build (List Member) :=
  ms.mapM fun m => return ⟨← ident m.1, m.2⟩

/-- An enum type; the names of the members come after all their values. -/
def enum (base : Option Expr) (ms : List (String × Option Expr)) : Build Expr := do
  let ms ← members ms
  return .enum (← node "enum") base ms

/-- The parameters and results of a procedure. -/
def signature (params : List Field) (results : List Expr) : Build Signature :=
  return ⟨← node "proc", params, results⟩

/-- A procedure type. Its token is that of the signature. -/
def proc (params : List Field) (results : List Expr) : Build Expr := do
  let sig ← signature params results
  return .proc ⟨← freshId, sig.node.token⟩ sig

/-! ## Declarations -/

/-- Variables. -/
def vars (names : List String) (type : Option Expr) (values : List Expr) (exposes : Bool) : Build Stmt := do
  let names ← idents names
  return .decl (.vars ⟨← token ":=", names, type, values, exposes⟩)

/-- One exposing variable without a value. -/
def exposedVar (name : String) (type : Option Expr) : Build Stmt := do
  let name ← ident name
  return .decl (.vars ⟨← token "using", [name], type, [], true⟩)

/-- Constants. -/
def consts (names : List String) (type : Option Expr) (values : List Expr) : Build Stmt := do
  let names ← idents names
  return .decl (.consts ⟨← token "::", names, type, values⟩)

/-- A named type. -/
def typeDecl (name : String) (type : Expr) : Build Stmt := do
  let name ← ident name
  return .decl (.type ⟨← token "type", name, type⟩)

/-- A procedure. -/
def procDecl (name : String) (sig : Signature) (body : Option Block) (tags : ProcTags)
    (foreignName linkName : Option String) : Build Stmt := do
  let name ← ident name
  let keyword ← token "proc"
  let foreignName ← token? foreignName
  let linkName ← token? linkName
  return .decl (.proc ⟨keyword, name, sig, body, tags, foreignName, linkName⟩)

/-- An import. -/
def imported (path : String) (name : Option String) : Build Stmt := do
  let path ← token path
  let name ← ident? name
  return .decl (.imported ⟨← token "import", path, name⟩)

/-! ## Statements -/

/-- The empty statement. -/
def empty : Build Stmt := return .empty (← token ";")

/-- A statement that could not be read. -/
def bad : Build Stmt := return .bad (← token "bad")

/-- An assignment, with an operator if it combines. -/
def assign (op : Option BinaryOp) (targets values : List Expr) : Build Stmt :=
  return .assign (← token ((op.map BinaryOp.symbol).getD "" ++ "=")) op targets values

/-- A step up or down. -/
def step (dir : Step) (target : Expr) : Build Stmt := return .step (← token dir.symbol) dir target

/-- Statements between braces. -/
def block (stmts : List Stmt) : Build Block := do
  let opening ← token "\x7b"
  let id ← freshId
  return ⟨id, opening, ← token "\x7d", stmts⟩

/-- A conditional. -/
def branchOn (init : Option Stmt) (test : Expr) (body : List Stmt) (otherwise : Option Stmt) : Build Stmt := do
  let body ← block body
  return .branchOn (← node "if") init test body otherwise

/-- A loop. -/
def loop (label : Option String) (init : Option Stmt) (test : Option Expr) (post : Option Stmt) (body : List Stmt) :
    Build Stmt := do
  let label ← ident? label
  let body ← block body
  return .loop (← node "for") label init test post body

/-- A clause of a switch. -/
def clause (cases : List Expr) (stmts : List Stmt) : Build Clause := return ⟨← node "case", cases, stmts⟩

/-- A switch on values. -/
def switch (label : Option String) (init : Option Stmt) (tag : Option Expr) (clauses : List Clause) : Build Stmt := do
  let label ← ident? label
  return .switch (← node "switch") label init tag clauses

/-- A switch on the types of a union. -/
def typeSwitch (label : Option String) (binder : String) (subject : Expr) (clauses : List Clause) : Build Stmt := do
  let binder ← ident binder
  let mark ← node "switch"
  return .typeSwitch mark (← ident? label) binder subject clauses

/-- A return. -/
def returns (values : List Expr) : Build Stmt := return .returns (← token "return") values

/-- A deferred statement. -/
def defer (deferred : Stmt) : Build Stmt := return .defer (← token "defer") deferred

/-- A break or continue; its label comes before the keyword. -/
def jump (kind : BranchKind) (keyword : String) (label : Option String) : Build Stmt := do
  let label ← ident? label
  return .jump (← token keyword) kind label

/-- A fallthrough; a label comes after the keyword. -/
def fallThrough (label : Option String) : Build Stmt := do
  let keyword ← token "fallthrough"
  return .jump keyword .fallsThrough (← ident? label)

/-- Exposes the members of some targets. -/
def use (targets : List Expr) : Build Stmt := return .use (← token "using") targets

/-! ## Whole files -/

/-- A procedure without parameters and results. -/
def plainProc (name : String) (body : List Stmt) (linkName : Option String) : Build Stmt := do
  procDecl name (← signature [] []) (some (← block body)) ⟨false, false, false⟩ none linkName

/-- One file, with what was built in it. -/
def single (decls : Build (List Stmt)) : List File := [⟨"m", (decls (.start "m")).1⟩]

end Builder

end Statics
