import Statics.Proofs.Run.Statements
import Statics.Source.Builder

/-!
# Identities in a built file

A file is built part by part: each call of the builder takes parts that were built before, any number of times, and
draws fresh identities and tokens for the nodes that it adds. `Builder.Session` lists the calls. So two nodes of a
built file with the same identity are the same node. Where a call uses up the parts that it takes, as in
`Builder.Thrifty`, no identity and no token stands in the file twice.

All this is so until a counter of the builder has wrapped around. What counts is how much was drawn, also for parts
that are in no file: `builder_marks_apart` gives the bound, and `builder_line_repeated` goes beyond it.
-/

namespace Statics

variable {b : Builder} {clauses : List Clause} {stmts : List Stmt} {v w : Option Literal} {s u : Stmt}

/-! ## Nodes of a tree -/

/-- The value of a literal. -/
def Expr.literal? : Expr → Option Literal
  | .literal _ v => some v
  | _ => none

/-- An expression has a node with this identity, that is a literal or none. These are the node of the expression itself,
those of the expressions that it is made of, and that of the signature of a procedure type. -/
inductive Expr.Marks : Expr → NodeId → Option Literal → Prop
  | own (e : Expr) : Marks e e.id e.literal?
  | signature (n : Node) (sig : Signature) : Marks (.proc n sig) sig.node.id none
  | child {e c : Expr} {id : NodeId} {v : Option Literal} : c ∈ e.children → Marks c id v → Marks e id v

mutual

/-- The statements inside a statement at any depth, also in procedure bodies. -/
def Stmt.inside : Stmt → List Stmt
  | .block body => Block.inside body
  | .branchOn _ init _ body otherwise => Stmt.insideOption init ++ Block.inside body ++ Stmt.insideOption otherwise
  | .loop _ _ init _ post body => Stmt.insideOption init ++ Stmt.insideOption post ++ Block.inside body
  | .switch _ _ init _ clauses => Stmt.insideOption init ++ Clause.insideList clauses
  | .typeSwitch _ _ _ _ clauses => Clause.insideList clauses
  | .defer _ s => s :: Stmt.inside s
  | .decl d => Decl.inside d
  | _ => []

@[inherit_doc Stmt.inside]
def Stmt.insideOption : Option Stmt → List Stmt
  | none => []
  | some s => s :: Stmt.inside s

/-- The statements of a list and those inside them. -/
def Stmt.insideList : List Stmt → List Stmt
  | [] => []
  | s :: rest => s :: (Stmt.inside s ++ Stmt.insideList rest)

/-- The statements in a block at any depth. -/
def Block.inside : Block → List Stmt
  | ⟨_, _, _, stmts⟩ => Stmt.insideList stmts

/-- The statements in clauses at any depth. -/
def Clause.insideList : List Clause → List Stmt
  | [] => []
  | ⟨_, _, stmts⟩ :: rest => Stmt.insideList stmts ++ Clause.insideList rest

/-- The statements in the body of a declared procedure. -/
def Decl.inside : Decl → List Stmt
  | .proc ⟨_, _, _, body, _, _, _⟩ => Block.insideOption body
  | _ => []

@[inherit_doc Block.inside]
def Block.insideOption : Option Block → List Stmt
  | none => []
  | some b => Block.inside b

end

theorem Block.inside_eq (b : Block) : b.inside = Stmt.insideList b.stmts := by
  cases b
  simp [Block.inside]

theorem Decl.inside_proc (d : ProcDecl) : Decl.inside (.proc d) = Block.insideOption d.body := by
  cases d
  simp [Decl.inside]

/-- What a list of statements has inside is what some statement of it is, or has inside. -/
theorem Stmt.mem_insideList : u ∈ Stmt.insideList stmts ↔ ∃ s ∈ stmts, u ∈ s :: s.inside := by
  induction stmts with
  | nil => simp [Stmt.insideList]
  | cons s rest ih => simp [Stmt.insideList, ih, or_assoc]

theorem Clause.mem_insideList : u ∈ Clause.insideList clauses ↔ ∃ c ∈ clauses, u ∈ Stmt.insideList c.stmts := by
  induction clauses with
  | nil => simp [Clause.insideList]
  | cons c rest ih =>
    cases c
    simp [Clause.insideList, ih]

/-- What is inside a part of a statement is inside the statement. -/
theorem Stmt.mem_inside_of_part {w : Stmt} (hu : u ∈ s.parts) (hw : w ∈ u :: u.inside) : w ∈ s.inside := by
  have hlist {stmts : List Stmt} (hu : u ∈ stmts) : w ∈ Stmt.insideList stmts := Stmt.mem_insideList.mpr ⟨u, hu, hw⟩
  have hoption {init : Option Stmt} (hu : u ∈ init.toList) : w ∈ Stmt.insideOption init := by
    obtain rfl := Option.mem_toList.mp hu
    simpa [Stmt.insideOption] using hw
  have hclauses {clauses : List Clause} (hu : u ∈ clauses.flatMap Clause.stmts) : w ∈ Clause.insideList clauses := by
    obtain ⟨c, hc, hu⟩ := List.mem_flatMap.mp hu
    exact Clause.mem_insideList.mpr ⟨c, hc, hlist hu⟩
  cases s <;> simp only [Stmt.parts, Stmt.inside, Block.inside_eq, List.mem_append] at hu ⊢ <;> grind

/-- The expressions that stand in some statements. -/
def Stmt.exprsOf (stmts : List Stmt) : List Expr := stmts.flatMap Stmt.exprs

theorem Stmt.exprsOf_append (stmts rest : List Stmt) :
    Stmt.exprsOf (stmts ++ rest) = Stmt.exprsOf stmts ++ Stmt.exprsOf rest := by
  simp [Stmt.exprsOf]

@[simp]
theorem Stmt.exprsOf_nil : Stmt.exprsOf [] = [] := rfl

theorem Stmt.mem_exprsOf : e ∈ Stmt.exprsOf stmts ↔ ∃ u ∈ stmts, e ∈ u.exprs := by
  simp [Stmt.exprsOf]

/-- A file has a node with this identity, that is a literal or none. -/
def File.Marks (file : File) (id : NodeId) (v : Option Literal) : Prop :=
  ∃ u ∈ Stmt.insideList file.decls, ∃ e ∈ u.exprs, e.Marks id v

/-! ## Building -/

/-- What a call of the builder gives. -/
inductive Part where
  | expr (e : Expr)
  | field (f : Field)
  | signature (sig : Signature)
  | block (b : Block)
  | clause (c : Clause)
  | stmt (s : Stmt)

/-- The expressions that stand in a part at any depth. -/
def Part.exprs : Part → List Expr
  | .expr e => [e]
  | .field f => [f.type]
  | .signature sig => [.proc sig.node sig]
  | .block b => Stmt.exprsOf b.inside
  | .clause c => c.cases ++ Stmt.exprsOf (Stmt.insideList c.stmts)
  | .stmt s => Stmt.exprsOf (s :: s.inside)

theorem Stmt.mem_exprsOf_insideList {e : Expr} :
    e ∈ Stmt.exprsOf (Stmt.insideList stmts) ↔ ∃ s ∈ stmts, e ∈ (Part.stmt s).exprs := by
  simp only [Stmt.mem_exprsOf, Stmt.mem_insideList, Part.exprs]
  grind

theorem Stmt.mem_exprsOf_insideOption {e : Expr} {s : Option Stmt} :
    e ∈ Stmt.exprsOf (Stmt.insideOption s) ↔ ∃ u ∈ s, e ∈ (Part.stmt u).exprs := by
  cases s <;> simp [Stmt.insideOption, Part.exprs]

theorem Block.mem_exprsOf_insideOption {e : Expr} {b : Option Block} :
    e ∈ Stmt.exprsOf (Block.insideOption b) ↔ ∃ c ∈ b, e ∈ (Part.block c).exprs := by
  cases b <;> simp [Block.insideOption, Part.exprs]

theorem Clause.mem_exprsOf_insideList {e : Expr} :
    e ∈ Stmt.exprsOf (Clause.insideList clauses) ↔ ∃ c ∈ clauses, e ∈ Stmt.exprsOf (Stmt.insideList c.stmts) := by
  simp only [Stmt.mem_exprsOf, Clause.mem_insideList]
  grind

/-! ## Marks -/

/-- What the builder draws: an identity or a token. -/
inductive Mark where
  | id (n : NodeId)
  | token (t : Token)

def Node.marks (n : Node) : List Mark := [.id n.id, .token n.token]

def Block.marks (b : Block) : List Mark := [.token b.opening, .id b.id, .token b.closing]

/-- The marks at the root of an expression, in the order in which they are drawn. The token that a procedure type shares
with its signature is one mark. -/
def Expr.marks : Expr → List Mark
  | .select n _ field => field.marks ++ n.marks
  | .enum n _ members => members.flatMap (·.name.marks) ++ n.marks
  | .proc n sig => sig.node.marks ++ .id n.id :: if n.token = sig.node.token then [] else [.token n.token]
  | e => e.node.marks

def Decl.marks : Decl → List Mark
  | .vars d => d.names.flatMap Node.marks ++ [.token d.token]
  | .consts d => d.names.flatMap Node.marks ++ [.token d.token]
  | .type d => d.name.marks ++ [.token d.token]
  | .proc d =>
    d.name.marks ++ .token d.token ::
      (d.foreignName.toList.flatMap ([.token ·]) ++ d.linkName.toList.flatMap ([.token ·]))
  | .imported d => .token d.path :: (d.name.toList.flatMap Node.marks ++ [.token d.token])

def Stmt.marks : Stmt → List Mark
  | .empty t | .bad t | .step t _ _ | .assign t _ _ _ | .returns t _ | .defer t _ | .use t _ => [.token t]
  | .expr _ | .block _ => []
  | .branchOn n _ _ body _ => body.marks ++ n.marks
  | .loop n label _ _ _ body => label.toList.flatMap Node.marks ++ (body.marks ++ n.marks)
  | .switch n label _ _ _ => label.toList.flatMap Node.marks ++ n.marks
  | .typeSwitch n label binder _ _ => binder.marks ++ (n.marks ++ label.toList.flatMap Node.marks)
  | .jump t _ label => label.toList.flatMap Node.marks ++ [.token t]
  | .decl d => d.marks

namespace Part

/-- The marks at the root of a part. -/
def own : Part → List Mark
  | expr e => e.marks
  | field f => f.names.flatMap Node.marks
  | signature sig => sig.node.marks
  | block b => b.marks
  | clause c => c.node.marks
  | stmt s => s.marks

def ofExpr : Expr → List Part
  | .name _ | .literal _ _ => []
  | .paren _ e | .unary _ _ e | .select _ e _ | .pointer _ e | .slice _ e => [expr e]
  | .binary _ _ e f | .array _ e f => [expr e, expr f]
  | .call _ callee args => expr callee :: args.map expr
  | .record _ _ fields => fields.map field
  | .enum _ base members => base.toList.map expr ++ (members.filterMap Member.value).map expr
  | .proc _ sig => sig.params.map field ++ sig.results.map expr

def ofDecl : Decl → List Part
  | .vars d => d.type.toList.map expr ++ d.values.map expr
  | .consts d => d.type.toList.map expr ++ d.values.map expr
  | .type d => [expr d.type]
  | .proc d => signature d.signature :: d.body.toList.map block
  | .imported _ => []

def ofStmt : Stmt → List Part
  | .empty _ | .bad _ | .jump .. => []
  | .expr e | .step _ _ e => [expr e]
  | .assign _ _ targets values => targets.map expr ++ values.map expr
  | .block b => [block b]
  | .branchOn _ init test body otherwise =>
    expr test :: (init.toList.map stmt ++ body.stmts.map stmt ++ otherwise.toList.map stmt)
  | .loop _ _ init test post body =>
    init.toList.map stmt ++ test.toList.map expr ++ post.toList.map stmt ++ body.stmts.map stmt
  | .switch _ _ init tag clauses => init.toList.map stmt ++ tag.toList.map expr ++ clauses.map clause
  | .typeSwitch _ _ _ subject clauses => expr subject :: clauses.map clause
  | .returns _ values | .use _ values => values.map expr
  | .defer _ s => [stmt s]
  | .decl d => ofDecl d

/-- The parts that the call which built a part was given. -/
def direct : Part → List Part
  | expr e => ofExpr e
  | field f => [expr f.type]
  | signature sig => sig.params.map field ++ sig.results.map expr
  | block b => b.stmts.map stmt
  | clause c => c.cases.map expr ++ c.stmts.map stmt
  | stmt s => ofStmt s

theorem sizeOf_direct (p : Part) : ∀ q ∈ p.direct, sizeOf q < sizeOf p := by
  have hlist {α : Type} [SizeOf α] {xs : List α} {n : Nat} (h : sizeOf xs ≤ n) : ∀ x ∈ xs, sizeOf x < n :=
    fun x hx => Nat.lt_of_lt_of_le (List.sizeOf_lt_of_mem hx) h
  have hoption {α : Type} [SizeOf α] {o : Option α} {n : Nat} (h : sizeOf o ≤ n) : ∀ x, o = some x → sizeOf x < n := by
    rintro x rfl
    rw [Option.some.sizeOf_spec] at h
    omega
  have hvalue {ms : List Member} {n : Nat} (h : sizeOf ms ≤ n) :
      ∀ (q : Part) (x : Expr), ∀ m ∈ ms, m.value = some x → expr x = q → sizeOf q < 1 + n := by
    rintro _ x ⟨name, value⟩ hm rfl rfl
    have := List.sizeOf_lt_of_mem hm
    simp only [Member.mk.sizeOf_spec, Option.some.sizeOf_spec, Part.expr.sizeOf_spec] at this ⊢
    omega
  rcases p with e | ⟨_, _, _⟩ | ⟨_, _, _⟩ | ⟨_, _, _, _⟩ | ⟨_, _, _⟩ | s
  case expr =>
    rcases e with _ | _ | _ | _ | _ | _ | _ | _ | _ | _ | _ | _ | ⟨_, _, _, _⟩ <;>
      simp [direct, ofExpr, List.forall_mem_append, -List.mem_append] <;> and_intros <;>
        first | omega | exact hlist (by omega) | exact hoption (by omega) | exact hvalue (by omega)
  case stmt =>
    rcases s with _ | _ | _ | _ | _ | _ | ⟨_, _, _, ⟨_, _, _, _⟩, _⟩ | ⟨_, _, _, _, _, _, _, _⟩ | _ | _ | _ | _ | _ |
        _ | (⟨_, _, _, _⟩ | ⟨_, _, _, _⟩ | ⟨_, _, _⟩ | ⟨_, _, _, _, _⟩ | _) <;>
      simp [direct, ofStmt, ofDecl, List.forall_mem_append, -List.mem_append] <;> and_intros <;>
        first | omega | exact hlist (by omega) | exact hoption (by omega)
  all_goals
    simp [direct, List.forall_mem_append, -List.mem_append] <;> and_intros <;> first | omega | exact hlist (by omega)

/-- The marks in a part at any depth. -/
def all (p : Part) : List Mark := p.own ++ p.direct.attach.flatMap fun q => all q.1
termination_by sizeOf p
decreasing_by exact sizeOf_direct p q.1 q.2

theorem all_eq (p : Part) : p.all = p.own ++ p.direct.flatMap all := by
  rw [all]
  simp

end Part

/-- Different identities, or tokens on different lines that have no byte in common. -/
def Mark.Apart : Mark → Mark → Prop
  | .id m, .id n => m ≠ n
  | .token t, .token u => t.pos.line ≠ u.pos.line ∧
    (t.span.offset + t.span.length ≤ u.span.offset ∨ u.span.offset + u.span.length ≤ t.span.offset)
  | _, _ => True

/-- What a mark takes up: of the identities, of the lines, and of the bytes. -/
def Mark.ids : Mark → Nat
  | .id _ => 1
  | .token _ => 0

@[inherit_doc Mark.ids]
def Mark.lines : Mark → Nat
  | .id _ => 0
  | .token _ => 1

@[inherit_doc Mark.ids]
def Mark.bytes : Mark → Nat
  | .id _ => 0
  | .token t => t.span.length + 1

/-- What some marks take up together. -/
def Mark.sum (f : Mark → Nat) : List Mark → Nat
  | [] => 0
  | m :: ms => f m + sum f ms

theorem Mark.sum_append (f : Mark → Nat) (ms ns : List Mark) :
    Mark.sum f (ms ++ ns) = Mark.sum f ms + Mark.sum f ns := by
  induction ms <;> grind [Mark.sum]

theorem Mark.sum_perm {ms ns : List Mark} (h : ms.Perm ns) (f : Mark → Nat) : Mark.sum f ns = Mark.sum f ms := by
  induction h <;> grind [Mark.sum]

theorem Mark.Apart.symm {m n : Mark} (h : m.Apart n) : n.Apart m := by
  cases m <;> cases n <;> simp only [Apart] at h ⊢ <;> grind

namespace Builder

/-- A call of the builder, given the parts that were built before. -/
inductive Call (pool : List Part) : Build Part → Prop
  | name (text : String) : Call pool (.expr <$> name text)
  | int (value : Int128) : Call pool (.expr <$> int value)
  | float (value : Float) : Call pool (.expr <$> float value)
  | str (value : String) : Call pool (.expr <$> str value)
  | paren {inner : Expr} : .expr inner ∈ pool → Call pool (.expr <$> paren inner)
  | unary (op : UnaryOp) {operand : Expr} : .expr operand ∈ pool → Call pool (.expr <$> unary op operand)
  | binary (op : BinaryOp) {left right : Expr} : .expr left ∈ pool → .expr right ∈ pool →
    Call pool (.expr <$> binary op left right)
  | call {callee : Expr} {args : List Expr} : .expr callee ∈ pool → (∀ e ∈ args, .expr e ∈ pool) →
    Call pool (.expr <$> call callee args)
  | select {base : Expr} (field : String) : .expr base ∈ pool → Call pool (.expr <$> select base field)
  | pointer {elem : Expr} : .expr elem ∈ pool → Call pool (.expr <$> pointer elem)
  | array {count elem : Expr} : .expr count ∈ pool → .expr elem ∈ pool → Call pool (.expr <$> array count elem)
  | slice {elem : Expr} : .expr elem ∈ pool → Call pool (.expr <$> slice elem)
  | field (names : List String) {type : Expr} (exposes : Bool) : .expr type ∈ pool →
    Call pool (.field <$> field names type exposes)
  | record (form : RecordForm) {fields : List Field} : (∀ f ∈ fields, .field f ∈ pool) →
    Call pool (.expr <$> record form fields)
  | enum {base : Option Expr} {members : List (String × Option Expr)} : (∀ e ∈ base, .expr e ∈ pool) →
    (∀ m ∈ members, ∀ e ∈ m.2, .expr e ∈ pool) → Call pool (.expr <$> enum base members)
  | signature {params : List Field} {results : List Expr} : (∀ f ∈ params, .field f ∈ pool) →
    (∀ e ∈ results, .expr e ∈ pool) → Call pool (.signature <$> signature params results)
  | proc {params : List Field} {results : List Expr} : (∀ f ∈ params, .field f ∈ pool) →
    (∀ e ∈ results, .expr e ∈ pool) → Call pool (.expr <$> proc params results)
  | vars (names : List String) {type : Option Expr} {values : List Expr} (exposes : Bool) :
    (∀ e ∈ type, .expr e ∈ pool) → (∀ e ∈ values, .expr e ∈ pool) →
    Call pool (.stmt <$> vars names type values exposes)
  | exposedVar (name : String) {type : Option Expr} : (∀ e ∈ type, .expr e ∈ pool) →
    Call pool (.stmt <$> exposedVar name type)
  | consts (names : List String) {type : Option Expr} {values : List Expr} :
    (∀ e ∈ type, .expr e ∈ pool) → (∀ e ∈ values, .expr e ∈ pool) → Call pool (.stmt <$> consts names type values)
  | typeDecl (name : String) {type : Expr} : .expr type ∈ pool → Call pool (.stmt <$> typeDecl name type)
  | procDecl (name : String) {sig : Signature} {body : Option Block} (tags : ProcTags)
    (foreignName linkName : Option String) : .signature sig ∈ pool → (∀ b ∈ body, .block b ∈ pool) →
    Call pool (.stmt <$> procDecl name sig body tags foreignName linkName)
  | imported (path : String) (name : Option String) : Call pool (.stmt <$> imported path name)
  | empty : Call pool (.stmt <$> empty)
  | bad : Call pool (.stmt <$> bad)
  | exprStmt {e : Expr} : .expr e ∈ pool → Call pool (pure (.stmt (.expr e)))
  | assign (op : Option BinaryOp) {targets values : List Expr} : (∀ e ∈ targets, .expr e ∈ pool) →
    (∀ e ∈ values, .expr e ∈ pool) → Call pool (.stmt <$> assign op targets values)
  | step (dir : Step) {target : Expr} : .expr target ∈ pool → Call pool (.stmt <$> step dir target)
  | block {stmts : List Stmt} : (∀ s ∈ stmts, .stmt s ∈ pool) → Call pool (.block <$> block stmts)
  | blockStmt {b : Block} : .block b ∈ pool → Call pool (pure (.stmt (.block b)))
  | branchOn {init : Option Stmt} {test : Expr} {body : List Stmt} {otherwise : Option Stmt} :
    (∀ s ∈ init, .stmt s ∈ pool) → .expr test ∈ pool → (∀ s ∈ body, .stmt s ∈ pool) →
    (∀ s ∈ otherwise, .stmt s ∈ pool) → Call pool (.stmt <$> branchOn init test body otherwise)
  | loop (label : Option String) {init : Option Stmt} {test : Option Expr} {post : Option Stmt} {body : List Stmt} :
    (∀ s ∈ init, .stmt s ∈ pool) → (∀ e ∈ test, .expr e ∈ pool) → (∀ s ∈ post, .stmt s ∈ pool) →
    (∀ s ∈ body, .stmt s ∈ pool) → Call pool (.stmt <$> loop label init test post body)
  | clause {cases : List Expr} {stmts : List Stmt} : (∀ e ∈ cases, .expr e ∈ pool) → (∀ s ∈ stmts, .stmt s ∈ pool) →
    Call pool (.clause <$> clause cases stmts)
  | switch (label : Option String) {init : Option Stmt} {tag : Option Expr} {clauses : List Clause} :
    (∀ s ∈ init, .stmt s ∈ pool) → (∀ e ∈ tag, .expr e ∈ pool) → (∀ c ∈ clauses, .clause c ∈ pool) →
    Call pool (.stmt <$> switch label init tag clauses)
  | typeSwitch (label : Option String) (binder : String) {subject : Expr} {clauses : List Clause} :
    .expr subject ∈ pool → (∀ c ∈ clauses, .clause c ∈ pool) →
    Call pool (.stmt <$> typeSwitch label binder subject clauses)
  | returns {values : List Expr} : (∀ e ∈ values, .expr e ∈ pool) → Call pool (.stmt <$> returns values)
  | defer {s : Stmt} : .stmt s ∈ pool → Call pool (.stmt <$> defer s)
  | jump (kind : BranchKind) (keyword : String) (label : Option String) : Call pool (.stmt <$> jump kind keyword label)
  | fallThrough (label : Option String) : Call pool (.stmt <$> fallThrough label)
  | use {targets : List Expr} : (∀ e ∈ targets, .expr e ∈ pool) → Call pool (.stmt <$> use targets)

/-- The builder of a file, after some calls, and the parts that it gave. -/
inductive Session (file : String) : Builder → List Part → Prop
  | start : Session file (.start file) []
  | call {b : Builder} {pool : List Part} {m : Build Part} : Session file b pool → Call pool m →
    Session file (m b).2 ((m b).1 :: pool)

variable {pool : List Part} {m : Build Part}

/-! ## What a call draws -/

/-- No counter of a builder wraps around while some marks are drawn. -/
structure Fits (b : Builder) (ms : List Mark) : Prop where
  ids : b.nextId.toNat + Mark.sum Mark.ids ms < UInt32.size
  lines : b.nextLine.toNat + Mark.sum Mark.lines ms < UInt32.size
  bytes : b.offset.toNat + Mark.sum Mark.bytes ms < UInt64.size

/-- A mark that is drawn between two states of a builder. -/
def Draws (b c : Builder) : Mark → Prop
  | .id n => b.nextId.toNat ≤ n ∧ n < c.nextId.toNat
  | .token t => b.nextLine.toNat ≤ t.pos.line ∧ t.pos.line < c.nextLine.toNat ∧ b.offset.toNat ≤ t.span.offset ∧
    t.span.offset + t.span.length ≤ c.offset.toNat

/-- Marks that are drawn between two states of a builder, each once, and make up the difference between the states. -/
structure Spans (b c : Builder) (ms : List Mark) : Prop where
  ids : c.nextId.toNat = b.nextId.toNat + Mark.sum Mark.ids ms
  lines : c.nextLine.toNat = b.nextLine.toNat + Mark.sum Mark.lines ms
  bytes : c.offset.toNat = b.offset.toNat + Mark.sum Mark.bytes ms
  drawn : ∀ m ∈ ms, Draws b c m
  apart : ms.Pairwise Mark.Apart

/-- Between two states of a builder some marks are drawn, and no others. -/
structure Fresh (b c : Builder) (ms : List Mark) : Prop where
  spans : Fits b ms → Spans b c ms

variable {c d : Builder} {ms ns : List Mark}

theorem Fresh.append (h : Fresh b c ms) (h' : Fresh c d ns) : Fresh b d (ms ++ ns) := by
  refine ⟨fun ⟨hids, hlines, hbytes⟩ => ?_⟩
  rw [Mark.sum_append] at hids hlines hbytes
  obtain ⟨hid, hline, hbyte, hdrawn, hapart⟩ := h.spans ⟨by omega, by omega, by omega⟩
  obtain ⟨hid', hline', hbyte', hdrawn', hapart'⟩ := h'.spans ⟨by omega, by omega, by omega⟩
  refine ⟨?_, ?_, ?_, fun m hm => ?_, List.pairwise_append.mpr ⟨hapart, hapart', fun m hm n hn => ?_⟩⟩
  · rw [Mark.sum_append]
    omega
  · rw [Mark.sum_append]
    omega
  · rw [Mark.sum_append]
    omega
  · have hdraws := (List.mem_append.mp hm).imp (hdrawn m) (hdrawn' m)
    cases m <;> grind [Draws]
  · have hold := hdrawn m hm
    have hnew := hdrawn' n hn
    cases m <;> cases n <;> grind [Draws, Mark.Apart]

theorem Fresh.perm (h : Fresh b c ms) (hperm : ms.Perm ns) : Fresh b c ns := by
  have hsum := Mark.sum_perm hperm
  refine ⟨fun ⟨hids, hlines, hbytes⟩ => ?_⟩
  rw [hsum] at hids hlines hbytes
  obtain ⟨hid, hline, hbyte, hdrawn, hapart⟩ := h.spans ⟨hids, hlines, hbytes⟩
  exact ⟨by rw [hsum, hid], by rw [hsum, hline], by rw [hsum, hbyte], fun m hm => hdrawn m (hperm.mem_iff.mpr hm),
    (hperm.pairwise_iff Mark.Apart.symm).mp hapart⟩

theorem fresh_nil : Fresh b b [] := ⟨fun _ => ⟨rfl, rfl, rfl, by simp, .nil⟩⟩

theorem fresh_id : Fresh b (freshId b).2 [.id (freshId b).1] := by
  refine ⟨fun ⟨hids, _, _⟩ => ?_⟩
  have hnext : (freshId b).2.nextId.toNat = b.nextId.toNat + 1 := (UInt32.toNat_add _ _).trans (Nat.mod_eq_of_lt hids)
  refine ⟨hnext, rfl, rfl, List.forall_mem_singleton.mpr ⟨Nat.le_refl _, ?_⟩, List.pairwise_singleton _ _⟩
  rw [hnext]
  exact Nat.lt_succ_self _

theorem fresh_token (text : String) (b : Builder) : Fresh b (token text b).2 [.token (token text b).1] := by
  refine ⟨fun ⟨_, hlines, hbytes⟩ => ?_⟩
  have hline : (token text b).2.nextLine.toNat = b.nextLine.toNat + 1 :=
    (UInt32.toNat_add _ _).trans (Nat.mod_eq_of_lt hlines)
  have hoffset : (token text b).2.offset.toNat = b.offset.toNat + (text.utf8ByteSize + 1) := by
    replace hbytes : b.offset.toNat + (text.utf8ByteSize + 1) < 2 ^ 64 := hbytes
    show (b.offset + .ofNat text.utf8ByteSize + 1 : UInt64).toNat = _
    simp only [UInt64.toNat_add, UInt64.toNat_ofNat', UInt64.toNat_one]
    omega
  refine ⟨rfl, hline, hoffset, List.forall_mem_singleton.mpr ⟨Nat.le_refl _, ?_, Nat.le_refl _, ?_⟩,
    List.pairwise_singleton _ _⟩
  · rw [hline]
    exact Nat.lt_succ_self _
  · rw [hoffset]
    exact Nat.add_le_add_left (Nat.le_succ _) _

theorem fresh_node (text : String) (b : Builder) : Fresh b (node text b).2 (node text b).1.marks :=
  fresh_id.append (fresh_token text _)

theorem fresh_mapM {α β : Type} {f : α → Build β} {g : β → List Mark} (hf : ∀ a b, Fresh b (f a b).2 (g (f a b).1))
    (as : List α) (b : Builder) : Fresh b (as.mapM f b).2 ((as.mapM f b).1.flatMap g) := by
  induction as generalizing b with
  | nil => exact fresh_nil
  | cons a rest ih =>
    rw [List.mapM_cons]
    exact (hf a b).append (ih _)

theorem fresh_optionMapM {α β : Type} {f : α → Build β} {g : β → List Mark}
    (hf : ∀ a b, Fresh b (f a b).2 (g (f a b).1)) (o : Option α)
    (b : Builder) : Fresh b (o.mapM f b).2 ((o.mapM f b).1.toList.flatMap g) := by
  cases o with
  | none => exact fresh_nil
  | some a => exact (hf a b).append fresh_nil

theorem fresh_members {ms : List (String × Option Expr)} :
    Fresh b (members ms b).2 ((members ms b).1.flatMap fun m => m.name.marks) :=
  fresh_mapM (fun m => fresh_node m.1) ms b

theorem fresh_of_call (h : Call pool m) : Fresh b (m b).2 (m b).1.own := by
  have hident := fresh_optionMapM (g := Node.marks) fresh_node
  have htoken := fresh_optionMapM (g := ([.token ·])) fresh_token
  have hblock (stmts : List Stmt) (b : Builder) : Fresh b (block stmts b).2 (block stmts b).1.marks :=
    (fresh_token _ b).append (fresh_id.append (fresh_token _ _))
  cases h with
  | name | int | float | str | paren | unary | binary | call | pointer | array | slice | record | signature | clause =>
    exact fresh_node _ b
  | empty | bad | assign | step | returns | defer | use => exact fresh_token _ b
  | exprStmt | blockStmt => exact fresh_nil
  | select => exact (fresh_node _ b).append (fresh_node _ _)
  | typeDecl | exposedVar => exact (fresh_node _ b).append (fresh_token _ _)
  | field names => exact fresh_mapM fresh_node names b
  | enum => exact fresh_members.append (fresh_node _ _)
  | proc =>
    show Fresh b _ (_ ++ .id _ :: if _ then [] else _)
    rw [if_pos rfl]
    exact (fresh_node _ b).append fresh_id
  | vars names | consts names => exact (fresh_mapM fresh_node names b).append (fresh_token _ _)
  | procDecl _ _ foreignName linkName =>
    exact (fresh_node _ b).append ((fresh_token _ _).append ((htoken foreignName _).append (htoken linkName _)))
  | imported path name => exact (fresh_token _ b).append ((hident name _).append (fresh_token _ _))
  | block stmts => exact hblock _ b
  | branchOn => exact (hblock _ b).append (fresh_node _ _)
  | loop label => exact (hident label b).append ((hblock _ _).append (fresh_node _ _))
  | switch label => exact (hident label b).append (fresh_node _ _)
  | typeSwitch label => exact (fresh_node _ b).append ((fresh_node _ _).append (hident label _))
  | jump _ _ label => exact (hident label b).append (fresh_token _ _)
  | fallThrough label => exact ((fresh_token _ b).append (hident label _)).perm List.perm_append_comm

/-! ## What a call adds -/

/-- Some part has an expression. -/
def Offers (pool : List Part) (e : Expr) : Prop := ∃ p ∈ pool, e ∈ p.exprs

/-- An expression that is new: it is a certain literal or none, its own nodes are among some marks, and it is made of
expressions that were there. -/
structure IsNew (pool : List Part) (ms : List Mark) (v : Option Literal) (e : Expr) : Prop where
  literal : e.literal? = v
  own : .id e.id ∈ ms
  signature : ∀ n sig, e = .proc n sig → .id sig.node.id ∈ ms
  children : ∀ c ∈ e.children, Offers pool c

section

variable {e : Expr}

@[grind ←]
theorem offers_expr (h : .expr e ∈ pool) : Offers pool e := ⟨_, h, by simp [Part.exprs]⟩

theorem offers_fields {fields : List Field} (h : ∀ f ∈ fields, .field f ∈ pool) (he : e ∈ fields.map Field.type) :
    Offers pool e := by
  obtain ⟨f, hf, rfl⟩ := List.mem_map.mp he
  exact ⟨_, h f hf, by simp [Part.exprs]⟩

theorem offers_parts {params : List Field} {results : List Expr} (hp : ∀ f ∈ params, .field f ∈ pool)
    (hr : ∀ e ∈ results, .expr e ∈ pool) : ∀ e ∈ params.map Field.type ++ results, Offers pool e := by
  intro e he
  rcases List.mem_append.mp he with he | he
  · exact offers_fields hp he
  · exact offers_expr (hr e he)

@[grind ←]
theorem offers_signature {sig : Signature} (h : .signature sig ∈ pool) : Offers pool (.proc sig.node sig) :=
  ⟨_, h, by simp [Part.exprs]⟩

@[grind →]
theorem offers_of_mem {p : Part} (hp : p ∈ pool) (he : e ∈ p.exprs) : Offers pool e := ⟨p, hp, he⟩

@[grind →]
theorem offers_case {c : Clause} (hc : .clause c ∈ pool) (he : e ∈ c.cases) : Offers pool e :=
  offers_of_mem hc (List.mem_append_left _ he)

@[grind →]
theorem offers_clause {c : Clause} (hc : .clause c ∈ pool) (hs : s ∈ c.stmts) (he : e ∈ (Part.stmt s).exprs) :
    Offers pool e :=
  offers_of_mem hc (List.mem_append_right _ (Stmt.mem_exprsOf_insideList.mpr ⟨s, hs, he⟩))

theorem exists_new (h : IsNew pool ms v e) :
    ∃ v, ∀ f ∈ (Part.expr e).exprs, Offers pool f ∨ IsNew pool ms v f := by
  refine ⟨v, fun f hf => .inr ?_⟩
  rw [Part.exprs, List.mem_singleton] at hf
  exact hf ▸ h

theorem exists_none {p : Part} (h : ∀ e ∈ p.exprs, Offers pool e) :
    ∃ v, ∀ f ∈ p.exprs, Offers pool f ∨ IsNew pool ms v f := ⟨none, fun f hf => .inl (h f hf)⟩

theorem value_of_mem_members {ms : List (String × Option Expr)} {m : Member} (h : m ∈ (members ms b).1) :
    ∃ p ∈ ms, p.2 = m.value := by
  induction ms generalizing b with
  | nil => cases h
  | cons p rest ih =>
    rw [members, List.mapM_cons] at h
    rcases List.mem_cons.mp h with rfl | h
    · exact ⟨p, List.mem_cons_self, rfl⟩
    · obtain ⟨q, hq, heq⟩ := ih h
      exact ⟨q, List.mem_cons_of_mem _ hq, heq⟩

theorem exists_stmt (hown : ∀ e ∈ s.exprs, Offers pool e) (hinside : ∀ e ∈ Stmt.exprsOf s.inside, Offers pool e) :
    ∃ v, ∀ f ∈ (Part.stmt s).exprs, Offers pool f ∨ IsNew pool ms v f :=
  exists_none fun e he => by
    rcases List.mem_append.mp he with he | he
    · exact hown e he
    · exact hinside e he

theorem exprs_of_call (h : Call pool m) :
    ∃ v, ∀ e ∈ (m b).1.exprs, Offers pool e ∨ IsNew pool (m b).1.own v e := by
  have hnode {n : Node} {ms : List Mark} : .id n.id ∈ ms ++ n.marks := List.mem_append_right _ List.mem_cons_self
  cases h with
  | name | int | float | str => exact exists_new ⟨rfl, List.mem_cons_self, by simp, by simp⟩
  | paren hx | unary _ hx | pointer hx | slice hx =>
    exact exists_new ⟨rfl, List.mem_cons_self, by simp, by simpa using offers_expr hx⟩
  | binary _ hx hy | array hx hy =>
    exact exists_new
      ⟨rfl, List.mem_cons_self, by simp, by simpa using ⟨offers_expr hx, offers_expr hy⟩⟩
  | call hf ha =>
    have hargs := fun e he => offers_expr (ha e he)
    exact exists_new ⟨rfl, List.mem_cons_self, by simp, by simpa using ⟨offers_expr hf, hargs⟩⟩
  | select field hb => exact exists_new ⟨rfl, hnode, by simp, by simpa using offers_expr hb⟩
  | field names exposes ht => exact exists_none fun e he => List.mem_singleton.mp he ▸ offers_expr ht
  | record form hf => exact exists_new ⟨rfl, List.mem_cons_self, by simp, fun c hc => offers_fields hf hc⟩
  | enum hb hm =>
    refine exists_new ⟨rfl, hnode, by simp, fun c hc => ?_⟩
    rcases List.mem_append.mp hc with hc | hc
    · exact offers_expr (hb c (Option.mem_toList.mp hc))
    · obtain ⟨m, hmem, hvalue⟩ := List.mem_filterMap.mp hc
      obtain ⟨p, hp, heq⟩ := value_of_mem_members hmem
      exact offers_expr (hm p hp c (heq.trans hvalue))
  | signature hp hr =>
    refine exists_new ⟨rfl, List.mem_cons_self, ?_, offers_parts hp hr⟩
    rintro n sig ⟨⟩
    exact List.mem_cons_self
  | proc hp hr =>
    refine exists_new ⟨rfl, List.mem_append_right _ List.mem_cons_self, ?_, offers_parts hp hr⟩
    rintro n sig ⟨⟩
    exact List.mem_cons_self
  | block hs =>
    refine exists_none (p := .block _) fun e he => ?_
    rw [Part.exprs, Block.inside_eq, Stmt.mem_exprsOf_insideList] at he
    grind
  | clause hc hs =>
    refine exists_none fun e he => (List.mem_append.mp he).elim (fun he => offers_expr (hc e he)) fun he => ?_
    rw [Stmt.mem_exprsOf_insideList] at he
    grind
  | blockStmt h | defer h =>
    exact exists_stmt (by simp [Stmt.exprs]) fun e he => offers_of_mem h (by simpa [Stmt.inside, Part.exprs] using he)
  | _ =>
    -- a statement has the expressions of its own and those in its parts, and both were there
    refine exists_stmt (fun e he => ?_) fun e he => ?_ <;>
    simp only [Stmt.exprs, Decl.exprs, Stmt.inside, Decl.inside, Block.inside, Stmt.exprsOf_append,
      Stmt.exprsOf_nil, List.mem_append, List.mem_cons, List.not_mem_nil, List.mem_flatMap, Option.mem_toList,
      Stmt.mem_exprsOf_insideList, Stmt.mem_exprsOf_insideOption, Block.mem_exprsOf_insideOption,
      Clause.mem_exprsOf_insideList] at he <;>
    grind

end

/-! ## Sessions -/

theorem marks_of_isNew {id : NodeId} (h : IsNew pool ms v e) (hm : e.Marks id w) :
    (∃ c, Offers pool c ∧ c.Marks id w) ∨ .id id ∈ ms ∧ w = v := by
  cases hm with
  | own => exact .inr ⟨h.own, h.literal⟩
  | signature n sig => exact .inr ⟨h.signature n sig rfl, h.literal⟩
  | child hc hm => exact .inl ⟨_, h.children _ hc, hm⟩

/-- The identities that were given, and what they were given to: while they are told apart, no two literals share one,
nor a literal and another node. -/
structure Numbered (pool : List Part) : Prop where
  given : ∀ {e id v}, Offers pool e → e.Marks id v → .id id ∈ pool.flatMap Part.own
  same : (pool.flatMap Part.own).Pairwise Mark.Apart → ∀ {e f id v w}, Offers pool e → Offers pool f →
    e.Marks id v → f.Marks id w → v = w

theorem Numbered.call (h : Numbered pool) (hm : Call pool m) : Numbered ((m b).1 :: pool) := by
  obtain ⟨v, hexprs⟩ := exprs_of_call (b := b) hm
  have hmarks {e : Expr} {id : NodeId} {w : Option Literal} (he : Offers ((m b).1 :: pool) e) (hw : e.Marks id w) :
      (∃ c, Offers pool c ∧ c.Marks id w) ∨ .id id ∈ (m b).1.own ∧ w = v := by
    obtain ⟨p, hp, he⟩ := he
    rcases List.mem_cons.mp hp with rfl | hp
    · rcases hexprs e he with he | he
      · exact .inl ⟨e, he, hw⟩
      · exact marks_of_isNew he hw
    · exact .inl ⟨e, ⟨p, hp, he⟩, hw⟩
  refine ⟨fun he hw => ?_, fun hapart e f id w w' he hf hw hw' => ?_⟩ <;> rw [List.flatMap_cons] at *
  · rcases hmarks he hw with ⟨c, hc, hw⟩ | ⟨hnew, -⟩
    · exact List.mem_append_right _ (h.given hc hw)
    · exact List.mem_append_left _ hnew
  · obtain ⟨-, hold, hcross⟩ := List.pairwise_append.mp hapart
    -- An old node and a new one do not have the same identity.
    rcases hmarks he hw with ⟨c, hc, hw⟩ | ⟨hnew, rfl⟩ <;> rcases hmarks hf hw' with ⟨d, hd, hw'⟩ | ⟨hnew', rfl⟩
    · exact h.same hold hc hd hw hw'
    · exact absurd rfl (hcross _ hnew' _ (h.given hc hw))
    · exact absurd rfl (hcross _ hnew _ (h.given hd hw'))
    · rfl

theorem Session.numbered {file : String} (h : Session file b pool) : Numbered pool := by
  induction h with
  | start =>
    exact ⟨fun ⟨_, hp, _⟩ => (List.not_mem_nil hp).elim, fun _ _ _ _ _ _ ⟨_, hp, _⟩ => (List.not_mem_nil hp).elim⟩
  | call _ hm ih => exact ih.call hm

theorem Session.fresh {file : String} (h : Session file b pool) : Fresh (.start file) b (pool.flatMap Part.own) := by
  induction h with
  | start => exact fresh_nil
  | call _ hm ih => exact (ih.append (fresh_of_call hm)).perm List.perm_append_comm

/-- The builder of a file, after some calls, and the parts that were not used yet: a call uses up what it takes. -/
inductive Thrifty (file : String) : Builder → List Part → Prop
  | start : Thrifty file (.start file) []
  | call {b : Builder} {pool rest : List Part} {m : Build Part} : Thrifty file b pool → Call pool m →
    pool.Perm ((m b).1.direct ++ rest) → Thrifty file (m b).2 ((m b).1 :: rest)

theorem Thrifty.fresh {file : String} (h : Thrifty file b pool) : Fresh (.start file) b (pool.flatMap Part.all) := by
  induction h with
  | start => exact fresh_nil
  | @call b pool rest m _ hm hperm ih =>
    have hfresh := (ih.perm (hperm.flatMap_right _)).append (fresh_of_call hm)
    refine hfresh.perm ?_
    rw [List.flatMap_append, List.flatMap_cons, Part.all_eq, List.append_assoc (m b).1.own]
    exact List.perm_append_comm

end Builder

/-- A file whose declarations one builder gave, no counter of which wrapped around. -/
def File.Built (file : File) : Prop :=
  ∃ b pool, Builder.Session file.path b pool ∧ Builder.Fits (.start file.path) (pool.flatMap Part.own) ∧
    ∀ s ∈ file.decls, .stmt s ∈ pool

/-- In a built file an identity stands for one literal, or for none. -/
theorem File.Built.marks_unique {file : File} (h : file.Built) {id : NodeId} (hv : file.Marks id v)
    (hw : file.Marks id w) : v = w := by
  obtain ⟨b, pool, hsession, hfits, hdecls⟩ := h
  obtain ⟨u, hu, e, he, hv⟩ := hv
  obtain ⟨u', hu', e', he', hw⟩ := hw
  have hoffers {u : Stmt} {e : Expr} (hu : u ∈ Stmt.insideList file.decls) (he : e ∈ u.exprs) :
      Builder.Offers pool e := by
    obtain ⟨s, hs, he⟩ := Stmt.mem_exprsOf_insideList.mp (Stmt.mem_exprsOf.mpr ⟨u, hu, he⟩)
    exact Builder.offers_of_mem (hdecls s hs) he
  exact hsession.numbered.same (hsession.fresh.spans hfits).apart (hoffers hu he) (hoffers hu' he') hv hw

/-- The marks in a file. -/
def File.marks (file : File) : List Mark := file.decls.flatMap fun s => (Part.stmt s).all

/-- Empty statements may be built and dropped at any time. -/
theorem Builder.Thrifty.drop {file : String} {pool : List Part} (h : Thrifty file b pool) (n : Nat) :
    ∃ c dropped, Thrifty file c (dropped ++ pool) ∧ c.nextLine = b.nextLine + .ofNat n := by
  induction n with
  | zero => exact ⟨b, [], h, by simp⟩
  | succ n ih =>
    obtain ⟨c, dropped, hc, hline⟩ := ih
    refine ⟨_, _ :: dropped, .call hc .empty (.refl _), ?_⟩
    show c.nextLine + 1 = _
    rw [hline, UInt32.ofNat_add, UInt32.add_assoc]
    rfl

end Statics
