import Statics.Proofs.Run.Entering

/-!
# Moves of statements, bodies and files

Statements add scopes, bindings and a few variables to what their expressions and declarations do. So the moves of a
statement follow from those of expressions, demands and declarations, also along a relation that a declaration keeps
only as a whole.

Statements stand outside every type declaration: `Context.AtTop` says so of their contexts.
-/

namespace Statics

variable {b : Body} {d : Decl} {e target : Expr} {xs : List (Operand × Expr)} {bs : List Body}
  {cases targets values : List Expr} {files : List File} {stmts : List Stmt} {s : Stmt} {config : Config}
  {owner : EntityId} {entities members : List EntityId} {rounds : Nat} {node : Node} {tag : Operand}
  {label : Option Ident} {dir : Step} {keyword : String} {token : Token} {turn : Turn}

/-- No declaration of a named type is being checked around here. -/
def Context.AtTop (ctx : Context) : Prop := ctx.typePath = [] ∧ ctx.indirection = 0

namespace Context

variable {ctx : Context}

@[grind ←]
theorem AtTop.within (h : ctx.AtTop) (scope : ScopeId) : (ctx.within scope).AtTop := h

@[grind ←]
theorem AtTop.targeting (h : ctx.AtTop) : ctx.targeting.AtTop := h

@[grind ←]
theorem AtTop.deferred (h : ctx.AtTop) : ctx.deferred.AtTop := h

@[grind ←]
theorem AtTop.labelled (h : ctx.AtTop) (label : Option Ident) (isLoop : Bool) : (ctx.labelled label isLoop).AtTop := by
  cases label <;> exact h

theorem AtTop.outer (config : Config) (scope : ScopeId) : (Context.outer config scope).AtTop := ⟨rfl, rfl⟩

end Context

/-! ## Declarations inside statements -/

mutual

/-- The declarations in a statement at any depth, without those in procedure bodies. -/
def Stmt.decls : Stmt → List Decl
  | .decl d => [d]
  | .block body => Block.decls body
  | .branchOn _ init _ body otherwise => Stmt.declsOption init ++ Block.decls body ++ Stmt.declsOption otherwise
  | .loop _ _ init _ post body => Stmt.declsOption init ++ Stmt.declsOption post ++ Block.decls body
  | .switch _ _ init _ clauses => Stmt.declsOption init ++ Clause.declsList clauses
  | .typeSwitch _ _ _ _ clauses => Clause.declsList clauses
  | .defer _ s => Stmt.decls s
  | _ => []

@[inherit_doc Stmt.decls]
def Stmt.declsOption : Option Stmt → List Decl
  | none => []
  | some s => Stmt.decls s

@[inherit_doc Stmt.decls]
def Stmt.declsList : List Stmt → List Decl
  | [] => []
  | s :: rest => Stmt.decls s ++ Stmt.declsList rest

/-- The declarations in a block at any depth. -/
def Block.decls : Block → List Decl
  | ⟨_, _, _, stmts⟩ => Stmt.declsList stmts

/-- The declarations in clauses at any depth. -/
def Clause.declsList : List Clause → List Decl
  | [] => []
  | ⟨_, _, stmts⟩ :: rest => Stmt.declsList stmts ++ Clause.declsList rest

end

theorem Block.decls_eq (b : Block) : b.decls = Stmt.declsList b.stmts := by
  cases b
  simp [Block.decls]

theorem Stmt.mem_declsList : d ∈ Stmt.declsList stmts ↔ ∃ s ∈ stmts, d ∈ s.decls := by
  induction stmts with
  | nil => simp [Stmt.declsList]
  | cons s rest ih => simp [Stmt.declsList, ih]

theorem Clause.mem_declsList {clauses : List Clause} :
    d ∈ Clause.declsList clauses ↔ ∃ c ∈ clauses, d ∈ Stmt.declsList c.stmts := by
  induction clauses with
  | nil => simp [Clause.declsList]
  | cons c rest ih =>
    cases c
    simp [Clause.declsList, ih]

/-- The statements directly inside a statement, without those in procedure bodies. -/
def Stmt.parts : Stmt → List Stmt
  | .block body => body.stmts
  | .branchOn _ init _ body otherwise => init.toList ++ body.stmts ++ otherwise.toList
  | .loop _ _ init _ post body => init.toList ++ post.toList ++ body.stmts
  | .switch _ _ init _ clauses => init.toList ++ clauses.flatMap Clause.stmts
  | .typeSwitch _ _ _ _ clauses => clauses.flatMap Clause.stmts
  | .defer _ s => [s]
  | _ => []

/-- What a part of a statement declares, the statement declares. -/
theorem Stmt.mem_decls_of_part {u : Stmt} (hu : u ∈ s.parts) (hd : d ∈ u.decls) : d ∈ s.decls := by
  have hlist {stmts : List Stmt} (hu : u ∈ stmts) : d ∈ Stmt.declsList stmts := Stmt.mem_declsList.mpr ⟨u, hu, hd⟩
  have hoption {init : Option Stmt} (hu : u ∈ init.toList) : d ∈ Stmt.declsOption init := by
    obtain rfl := Option.mem_toList.mp hu
    simpa [Stmt.declsOption] using hd
  have hclauses {clauses : List Clause} (hu : u ∈ clauses.flatMap Clause.stmts) : d ∈ Clause.declsList clauses := by
    obtain ⟨c, hc, hu⟩ := List.mem_flatMap.mp hu
    exact Clause.mem_declsList.mpr ⟨c, hc, hlist hu⟩
  cases s <;> simp only [Stmt.parts, Stmt.decls, Block.decls_eq, List.mem_append] at hu ⊢ <;> grind

/-- The expressions that stand in a declaration. A procedure has its type, as far as it is written. -/
def Decl.exprs : Decl → List Expr
  | .vars d => d.type.toList ++ d.values
  | .consts d => d.type.toList ++ d.values
  | .type d => [d.type]
  | .proc d => [.proc d.signature.node d.signature]
  | .imported _ => []

/-- The expressions that stand in a statement, without those of the statements inside it. -/
def Stmt.exprs : Stmt → List Expr
  | .expr e => [e]
  | .step _ _ target => [target]
  | .assign _ _ targets values => targets ++ values
  | .branchOn _ _ test _ _ => [test]
  | .loop _ _ _ test _ _ => test.toList
  | .switch _ _ _ tag clauses => tag.toList ++ clauses.flatMap Clause.cases
  | .typeSwitch _ _ _ subject clauses => subject :: clauses.flatMap Clause.cases
  | .returns _ values => values
  | .use _ targets => targets
  | .decl d => d.exprs
  | _ => []

/-! ## What statements keep -/

/-- Opens the scope of a body under that of its signature, with the parameters that are visible in it. -/
def Check.openBody (signature : ScopeId) (id : NodeId) : Check (ScopeId × List EntityId) := do
  let scope ← openScope signature .block id
  let params := ((← arena).scope signature).bindings.entities
  bindAll scope params
  return (scope, params)

/-- A body, with the opening of its scope as one step. -/
theorem Check.body_eq (config : Config) (b : Body) : body config b = (do
    let (scope, params) ← openBody b.scope b.block.id
    exposeParams scope params
    hoistAll (bodyContext config scope b) b.block.stmts
    stmtsInOrder (bodyContext config scope b) .none b.block.stmts
    missingReturn b) := by
  simp only [body, openBody, bind_assoc, pure_bind]

/-- Relations that `using` keeps, and opening the scope of a body: what binds entities that are bound elsewhere. -/
class Exposes (R : Pass → Pass → Prop) : Prop extends Supplies R where
  expose : ∀ scope e token, Check.Moves R (Check.exposeEntity scope e token)
  openBody : ∀ signature id, Check.Moves R (Check.openBody signature id)
  params : ∀ scope params, Check.Moves R (Check.exposeParams scope params)

/-- Relations that expressions and demands outside type declarations keep. -/
class Evaluates (R : Pass → Pass → Prop) : Prop extends Observes R, Allocates R, Exposes R where
  expr : ∀ (ctx : Context) reading e, ctx.AtTop → Check.Moves R (Check.expr Check.demand ctx reading e)
  demand : ∀ (ctx : Context) e, ctx.AtTop → Check.Moves R (Check.demand ctx e)

/-- Relations that statements keep, given the declarations that may stand in them. -/
class Proceeds (R : Pass → Pass → Prop) (D : Decl → Prop) : Prop extends Evaluates R where
  complain : ∀ s d, d.isError → R s { s with collector := (s.collector.report d).1 }
  decl : ∀ (ctx : Context) d, ctx.AtTop → D d → Check.Moves R (Check.declStmt ctx d)
  hoist : ∀ (ctx : Context) stmts, ctx.AtTop → (∀ d, .decl d ∈ stmts → D d) → Check.Moves R (Check.hoistAll ctx stmts)

/-- What a relation allows for the expressions of which `L` is known, outside type declarations. -/
class Judges (R : Pass → Pass → Prop) (L : outParam (Expr → Prop)) (V : outParam (Operand → Expr → Prop)) : Prop extends
    Exposes R, Follows R L V where
  expr : ∀ {ctx : Context}, ctx.AtTop → ∀ {e}, L e → ∀ reading, Check.Moves R (Check.expr Check.demand ctx reading e)
  demand : ∀ {ctx : Context}, ctx.AtTop → ∀ e, Check.Moves R (Check.demand ctx e)

instance {R : Pass → Pass → Prop} [Evaluates R] : Judges R (fun _ => True) fun _ _ => True where
  expr hc e _ reading := Evaluates.expr _ reading e hc
  demand hc e := Evaluates.demand _ e hc

/-- What a relation allows for the statements of which `G` is known, besides what their expressions do. -/
class Walks (R : Pass → Pass → Prop) (L : outParam (Expr → Prop)) (V : outParam (Operand → Expr → Prop))
    (G : Stmt → Prop) : Prop extends Judges R L V where
  complain : ∀ s d, d.isError → R s { s with collector := (s.collector.report d).1 }
  parts : ∀ {s}, G s → ∀ u ∈ s.parts, G u
  exprs : ∀ {s}, G s → ∀ e ∈ s.exprs, L e
  step : ∀ {token dir target x}, G (.step token dir target) → V x target → x.mode = .var → ∀ y t,
    Check.Moves R (Check.assign y target t .increment)
  combined : ∀ {token op target value}, G (.assign token (some op) [target] [value]) → ∀ y t,
    Check.Moves R (Check.assign y value t .assignment)
  binder : ∀ {node label binder subject clauses}, G (.typeSwitch node label binder subject clauses) →
    ∀ scope t, Check.Moves R (Check.bindVariant scope binder t)
  use : ∀ {ctx : Context} {token targets}, ctx.AtTop → G (.use token targets) →
    ∀ e ∈ targets, Check.Moves R (Check.usingTarget Check.demand ctx e.unparen)
  decl : ∀ {ctx : Context} {d}, ctx.AtTop → G (.decl d) → Check.Moves R (Check.declStmt ctx d)
  hoist : ∀ {ctx : Context} {stmts}, ctx.AtTop → (∀ s ∈ stmts, G s) → Check.Moves R (Check.hoistAll ctx stmts)

/-- Relations that opening files and binding imports keep. -/
class ReadsFiles (R : Pass → Pass → Prop) : Prop extends Binds R where
  openFile : ∀ s files, R s { s with files := files }
  newImport : ∀ s info token ident,
    R s { s with store := (s.store.newEntity (Entity.typed (.importName info) token ident .invalid)).2 }
  addImport : ∀ s e, R s { s with imports := s.imports ++ [e] }
  warn : ∀ s d, !d.isError → R s { s with collector := s.collector.warn d }

/-- Relations that a pass keeps around its declarations: with its queue. -/
class Frames (R : Pass → Pass → Prop) : Prop extends Evaluates R where
  dequeue : ∀ s, R s { s with queue := [] }

/-- Relations that entering a declaration of which `D` is known keeps as a whole. -/
class Receives (R : Pass → Pass → Prop) (D : outParam (Decl → Prop)) : Prop extends Reports R where
  receive : ∀ {α : Type} {d : Decl} {scope} {ids : α → List EntityId} {x : Check α}, D d → d.Enters scope ids x →
    Check.Moves R x

/-- Relations that entering any declaration keeps as a whole. -/
class Registers (R : Pass → Pass → Prop) : Prop extends Allocates R where
  register : ∀ {α : Type} {d : Decl} {scope} {ids : α → List EntityId} {x : Check α}, d.Enters scope ids x →
    Check.Moves R x

instance {R : Pass → Pass → Prop} [Registers R] : Receives R fun _ => True where
  receive _ := Registers.register

instance {R : Pass → Pass → Prop} [Enters R] : Registers R where
  register h := h.moves_along fun _ => Enters.await _ _

/-- Relations that the declarations in a body keep as a whole. -/
class DeclaresLocals (R : Pass → Pass → Prop) : Prop extends Evaluates R, Registers R where
  locals : ∀ (ctx : Context) d, ctx.AtTop → Check.Moves R (Check.localVariables ctx d)

/-- Relations that allow any report. -/
class Complains (R : Pass → Pass → Prop) : Prop where
  complain : ∀ s d, d.isError → R s { s with collector := (s.collector.report d).1 }

/-- Relations that every declaration keeps as a whole. -/
class Declares (R : Pass → Pass → Prop) : Prop extends Frames R, DeclaresLocals R, Complains R

namespace Check

variable {R : Pass → Pass → Prop} {scope : ScopeId}

/-! ## Using -/

section

variable [Allocates R]

@[grind ←]
theorem moves_bindFields {fields : List EntityId} : Moves R (bindFields scope owner fields) := by
  induction fields with
  | nil => exact moves_pure _
  | cons f rest ih =>
    refine moves_bind (moves_entity f) fun x => ?_
    exact moves_newBoundName rfl ⟨rfl, rfl⟩ scope fun _ _ => ih

@[grind ←]
theorem moves_exposeVariable : Moves R (exposeVariable scope owner token) := by
  unfold exposeVariable
  grind

@[grind ←]
theorem moves_exposeVariables : Moves R (exposeVariables scope entities) := by
  induction entities with
  | nil => exact moves_pure _
  | cons e rest ih =>
    unfold exposeVariables
    grind

@[grind ←]
theorem moves_bindVariant (scope : ScopeId) (binder : Ident) (t : TypeId) : Moves R (bindVariant scope binder t) :=
  moves_newBound rfl ⟨rfl, rfl⟩ fun e => moves_markUsed e

@[grind ←]
theorem moves_exposeParams (scope : ScopeId) (params : List EntityId) : Moves R (exposeParams scope params) := by
  induction params with
  | nil => exact moves_pure _
  | cons p rest ih =>
    unfold exposeParams
    grind

end

section

variable [Reports R]

@[grind ←]
theorem moves_defaults {first : Option Pos} {clauses : List Clause} : Moves R (defaults keyword first clauses) := by
  induction clauses generalizing first with
  | nil => exact moves_pure _
  | cons c rest ih =>
    unfold defaults
    grind

/-- A jump does nothing but report. -/
theorem moves_jump (hreport : ∀ token p, Moves R (report token p)) {allowed : Permissions} {kind : BranchKind} :
    Moves R (jump ctx allowed token kind label) := by
  unfold jump
  grind

@[grind ←]
theorem moves_missingReturn (b : Body) : Moves R (missingReturn b) :=
  moves_read (fun _ _ => rfl) fun s => by grind

end

section

variable [Binds R]

@[grind ←]
theorem moves_bindAll : Moves R (bindAll scope members) := by
  induction members with
  | nil => exact moves_pure _
  | cons e rest ih => exact moves_bind (moves_bindName scope e) fun _ => ih

@[grind ←]
theorem moves_exposeMembers {source : String} : Moves R (exposeMembers scope source token members) := by
  unfold exposeMembers
  grind

@[grind ←]
theorem moves_exposeType {e : EntityId} : Moves R (exposeType scope e token) := by
  unfold exposeType
  grind

@[grind ←]
theorem moves_exposeEntity (scope : ScopeId) (e : EntityId) (token : Token) :
    Moves R (exposeEntity scope e token) := by
  unfold exposeEntity
  grind

@[grind ←]
theorem moves_bindVariables (scope : ScopeId) (entries : List (Ident × EntityId)) :
    Moves R (bindVariables scope entries) := by
  induction entries with
  | nil => exact moves_pure _
  | cons p rest ih => exact moves_bind moves_bindIdent fun _ => ih

@[grind ←]
theorem moves_openBody (signature : ScopeId) (id : NodeId) : Moves R (openBody signature id) := by
  unfold openBody
  grind

instance : Exposes R where
  expose := moves_exposeEntity
  openBody := moves_openBody
  params := moves_exposeParams

end

/-! ## Simple statements -/

section

variable [Reports R] {ctx : Context}

/-! Simple statements keep what evaluating their expressions keeps. -/

@[grind ←]
theorem moves_exprStmt (he : Moves R (expr demand ctx .value e)) : Moves R (exprStmt ctx e) := by
  unfold exprStmt
  grind

@[grind ←]
theorem moves_assignTo {x : Operand} (ht : Moves R (expr demand ctx .value target))
    (ht' : Moves R (expr demand ctx.targeting .value target)) (ha : ∀ t, Moves R (assign x e t .assignment)) :
    Moves R (assignTo ctx target x e) := by
  unfold assignTo
  grind

@[grind ←]
theorem moves_assignEach (ht : ∀ e ∈ targets, Moves R (expr demand ctx .value e))
    (ht' : ∀ e ∈ targets, Moves R (expr demand ctx.targeting .value e))
    (ha : ∀ p ∈ xs, ∀ t, Moves R (assign p.1 p.2 t .assignment)) : Moves R (assignEach ctx targets xs) := by
  fun_induction assignEach ctx targets xs with
  | case1 target targets x e rest ih =>
    rw [List.forall_mem_cons] at ht ht' ha
    exact moves_bind (moves_assignTo ht.1 ht'.1 ha.1) fun _ => ih ht.2 ht'.2 ha.2
  | case2 => exact moves_pure _

@[grind ←]
theorem moves_condition (he : Moves R (expr demand ctx .value e)) : Moves R (condition ctx e keyword) := by
  unfold condition
  grind

@[grind ←]
theorem moves_conditionOption {e : Option Expr} (he : ∀ x ∈ e, Moves R (expr demand ctx .value x)) :
    Moves R (condition? ctx e keyword) := by
  unfold condition?
  grind

/-- Results are returned along whatever allows to assign the operands to them. -/
@[grind ←]
theorem moves_assignResults (results : List TypeId)
    (ha : ∀ p ∈ xs, ∀ target, Moves R (assign p.1 p.2 target .returned)) : Moves R (assignResults xs results) := by
  fun_induction assignResults xs results with
  | case1 x e rest t results ih =>
    rw [List.forall_mem_cons] at ha
    exact moves_bind (ha.1 _) fun _ => ih ha.2
  | case2 => exact moves_pure _

omit [Reports R] in
@[grind ←]
theorem moves_usingTarget [Remarks R] (he : Moves R (expr demand ctx .value target)) :
    Moves R (usingTarget demand ctx target) := by
  unfold usingTarget
  split
  case h_2 _ _ field =>
    refine moves_bind (by grind) fun x => ?_
    split
    · exact moves_pure _
    · exact moves_read (fun _ _ => rfl) fun s => by grind
  all_goals grind

theorem moves_demandAllOf (hr : ∀ e, Moves R (demand ctx e)) : Moves R (demandAll ctx entities) := by
  induction entities with
  | nil => exact moves_pure _
  | cons e rest ih => exact moves_bind (hr e) fun _ => ih

theorem moves_demandTurnOf (hr : ∀ e, Moves R (demand ctx e)) : Moves R (demandTurn ctx turn entities) := by
  induction entities with
  | nil => exact moves_pure _
  | cons e rest ih =>
    unfold demandTurn
    grind

@[grind ←]
theorem moves_switchCases (he : ∀ e ∈ cases, Moves R (expr demand ctx .value e)) {seen : List SeenCase} :
    Moves R (switchCases ctx tag seen cases) := by
  induction cases generalizing seen with
  | nil => exact moves_pure _
  | cons e rest ih =>
    rw [List.forall_mem_cons] at he
    refine moves_bind (moves_bind he.1 fun y => ?_) fun _ => ih he.2
    split
    · exact moves_pure _
    · exact moves_bind moves_binary fun matched => by grind

@[grind ←]
theorem moves_switchedUnion {subject : Expr} (he : Moves R (expr demand ctx .value subject)) :
    Moves R (switchedUnion ctx subject) := by
  unfold switchedUnion
  grind

@[grind ←]
theorem moves_variantCases (he : ∀ e ∈ cases, ∀ reading, Moves R (expr demand ctx reading e))
    (union : Option TypeId) (alone : Bool) (scan : VariantScan) :
    Moves R (variantCases ctx union alone scan cases) := by
  induction cases generalizing scan with
  | nil => exact moves_pure _
  | cons e rest ih =>
    rw [List.forall_mem_cons] at he
    have hcase : Moves R (variantCase ctx union alone scan e) := by
      unfold variantCase type
      grind
    exact moves_bind hcase (ih he.2)

end

@[grind ←]
theorem moves_uses [Exposes R] (hr : ∀ e, Moves R (demand ctx e))
    (he : ∀ e ∈ targets, Moves R (usingTarget demand ctx e.unparen)) : Moves R (uses ctx targets) := by
  induction targets with
  | nil => exact moves_pure _
  | cons e rest ih =>
    rw [List.forall_mem_cons] at he
    have huse : Moves R (use demand ctx e) := by
      unfold use
      grind [Exposes.expose]
    exact moves_bind huse fun _ => ih he.2

instance [AllowsAll R] : Evaluates R where
  expr ctx reading e _ := moves_expr moves_demand ctx reading e
  demand ctx e _ := moves_demand ctx e

@[grind ←]
theorem moves_evaluate [Evaluates R] (hc : ctx.AtTop) (reading : Reading) (e : Expr) :
    Moves R (expr demand ctx reading e) := Evaluates.expr ctx reading e hc

@[grind ←]
theorem moves_resolve [Evaluates R] (hc : ctx.AtTop) (e : EntityId) : Moves R (demand ctx e) :=
  Evaluates.demand ctx e hc

section

variable {L : Expr → Prop} {V : Operand → Expr → Prop} [Judges R L V] {ctx : Context} (hc : ctx.AtTop)

include L V hc

theorem follows_operands {es : List Expr} (hes : ∀ e ∈ es, L e) : Moves R (operands demand ctx es) :=
  moves_operandsOf fun e he => Judges.expr hc (hes e he) .value

/-- Each operand is assigned beside the expression that gave it. -/
theorem follows_plainAssign (h : ∀ e ∈ targets ++ values, L e) : Moves R (plainAssign ctx token targets values) := by
  rw [List.forall_mem_append] at h
  unfold plainAssign
  split
  · exact moves_report rfl
  · refine moves_bindResult (follows_operands hc h.2) (fun hrun => fits_operands (R := R) h.2 hrun) (fun xs => ?_)
      fun xs hxs => ?_
    · exact (show Moves LogGrows _ by grind).traced
    · have hplaces : Moves R (assignEach ctx targets xs) :=
        moves_assignEach (fun e he => Judges.expr hc (h.1 e he) _) (fun e he => Judges.expr hc.targeting (h.1 e he) _)
          fun p hp target => Follows.assign (hxs p hp) target _
      grind

theorem follows_combinedAssign {token : Token} {op : BinaryOp} (h : ∀ e ∈ targets ++ values, L e)
    (ha : ∀ target value, targets = [target] → values = [value] → ∀ y t, Moves R (assign y value t .assignment)) :
    Moves R (combinedAssign ctx token op targets values) := by
  unfold combinedAssign
  split
  case h_1 target value =>
    have ht : L target := h _ (by simp)
    have hv : L value := h _ (by simp)
    have hassign (y : Operand) : Moves R (assignTo ctx target y value) :=
      moves_assignTo (Judges.expr hc ht _) (Judges.expr hc.targeting ht _) (ha _ _ rfl rfl y)
    refine moves_bind (Judges.expr hc ht _) fun x => moves_bind (Judges.expr hc hv _) fun y => ?_
    grind
  case h_2 => exact moves_report rfl

theorem follows_stepStmt (ht : L target) (ha : ∀ x, V x target → x.mode = .var → ∀ y t,
    Moves R (assign y target t .increment)) : Moves R (stepStmt ctx token dir target) := by
  refine moves_bindResult (Judges.expr hc ht .value) (fun hrun => Follows.fits R ht hrun) (fun x => ?_) fun x hx => ?_
  · exact (show Moves LogGrows _ by grind).traced
  · have hassign := ha x hx
    grind

theorem follows_returnStmt (hreport : ∀ token p, Moves R (report token p)) (hv : ∀ e ∈ values, L e) :
    Moves R (returnStmt ctx token values) := by
  unfold returnStmt
  split
  · exact hreport _ _
  · split
    · exact hreport _ _
    · refine moves_bind moves_arena fun a => ?_
      refine moves_bindResult (follows_operands hc hv) (fun hrun => fits_operands (R := R) hv hrun) (fun xs => ?_)
        fun xs hxs => ?_
      · exact (show Moves LogGrows _ by grind).traced
      · have hresults (results : List TypeId) : Moves R (assignResults xs results) :=
          moves_assignResults results fun p hp target => Follows.assign (hxs p hp) target _
        grind

theorem follows_switchTag {tag : Option Expr} (ht : ∀ e ∈ tag, L e) : Moves R (switchTag ctx node tag) := by
  cases tag with
  | none => exact moves_pure _
  | some e => exact (serves_of_follows (ht e rfl) (Judges.expr hc (ht e rfl))).assigned none .switchTag

end

section

variable [Evaluates R] {ctx : Context} (hc : ctx.AtTop)

include hc

@[grind ←]
theorem moves_evaluateAll (es : List Expr) : Moves R (operands demand ctx es) :=
  moves_operands (fun e => moves_evaluate hc .value e)

@[grind ←]
theorem moves_plainAssign : Moves R (plainAssign ctx token targets values) := follows_plainAssign hc (by simp)

@[grind ←]
theorem moves_combinedAssign {op : BinaryOp} : Moves R (combinedAssign ctx token op targets values) :=
  follows_combinedAssign hc (by simp) fun _ value _ _ y t => moves_assign y value t _

@[grind ←]
theorem moves_stepStmt {target : Expr} : Moves R (stepStmt ctx token dir target) :=
  follows_stepStmt hc (by trivial) (fun _ _ _ y t => moves_assign y target t _)

@[grind ←]
theorem moves_switchTag {tag : Option Expr} : Moves R (switchTag ctx node tag) :=
  follows_switchTag hc (by simp)

@[grind ←]
theorem moves_demandAll : Moves R (demandAll ctx entities) :=
  moves_demandAllOf (moves_resolve hc)

@[grind ←]
theorem moves_demandTurn : Moves R (demandTurn ctx turn entities) :=
  moves_demandTurnOf (moves_resolve hc)

end

/-! ## Statements -/

section

variable {L : Expr → Prop} {V : Operand → Expr → Prop} {G : Stmt → Prop} [Walks R L V G]

include L V

mutual

/-- A statement keeps what its own work and that of the statements inside it keeps. -/
theorem moves_stmtOf {ctx : Context} (hc : ctx.AtTop) (allowed : Permissions) :
    ∀ {s : Stmt}, G s → Moves R (stmt ctx allowed s)
  | .empty _, _ | .bad _, _ => by
    unfold stmt
    exact moves_pure _
  | .expr e, hs => by
    unfold stmt
    exact moves_exprStmt (Judges.expr hc (Walks.exprs (R := R) hs e (List.mem_singleton_self e)) .value)
  | .step _ _ target, hs => by
    unfold stmt
    exact follows_stepStmt hc (Walks.exprs (R := R) hs target (List.mem_singleton_self _)) (fun _ => Walks.step hs)
  | .assign _ none _ _, hs => by
    unfold stmt
    exact follows_plainAssign hc (Walks.exprs (R := R) hs)
  | .assign _ (some _) _ _, hs => by
    unfold stmt
    -- what is assigned is the result of the operator, not the operand of the value
    refine follows_combinedAssign hc (Walks.exprs (R := R) hs) fun target value ht hv => ?_
    subst ht hv
    exact Walks.combined hs
  | .block body, hs => by
    unfold stmt
    exact moves_blockOf hc allowed (Walks.parts (R := R) hs)
  | .branchOn node init test body otherwise, hs => by
    have hparts := Walks.parts (R := R) hs
    simp only [Stmt.parts, List.mem_append, Option.mem_toList, or_imp, forall_and] at hparts
    obtain ⟨⟨hinit, hbody⟩, helse⟩ := hparts
    unfold stmt
    refine moves_bind moves_openScope fun scope => moves_bind (moves_initialOf (hc.within scope) hinit) fun _ => ?_
    have htest :=
      Judges.expr (R := R) (hc.within scope) (Walks.exprs (R := R) hs test (List.mem_singleton_self _)) .value
    refine moves_bind (moves_condition htest) fun _ => ?_
    refine moves_bind (moves_blockOf (hc.within scope) _ hbody) fun _ => ?_
    exact moves_elseBranchOf (hc.within scope) _ helse
  | .loop node label init test post body, hs => by
    have hparts := Walks.parts (R := R) hs
    simp only [Stmt.parts, List.mem_append, Option.mem_toList, or_imp, forall_and] at hparts
    obtain ⟨⟨hinit, hpost⟩, hbody⟩ := hparts
    have hc := fun scope => (hc.within scope).labelled label true
    unfold stmt
    refine moves_bind moves_openScope fun scope => moves_bind (moves_initialOf (hc scope) hinit) fun _ => ?_
    have htest (e : Expr) (he : e ∈ test) :=
      Judges.expr (R := R) (hc scope) (Walks.exprs (R := R) hs e (Option.mem_toList.mpr he)) .value
    refine moves_bind (moves_conditionOption htest) fun _ => ?_
    exact moves_bind (moves_postStmtOf (hc scope) hpost) fun _ => moves_blockOf (hc scope) _ hbody
  | .switch node label init tag clauses, hs => by
    have hparts := Walks.parts (R := R) hs
    simp only [Stmt.parts, List.mem_append, Option.mem_toList, or_imp, forall_and] at hparts
    have hc := fun scope => (hc.within scope).labelled label false
    unfold stmt
    refine moves_bind moves_openScope fun scope => moves_bind (moves_initialOf (hc scope) hparts.1) fun _ => ?_
    have hexprs := List.forall_mem_append.mp (Walks.exprs (R := R) hs)
    refine moves_bind (follows_switchTag (hc scope) (by simpa using hexprs.1)) fun x => ?_
    refine moves_bind moves_defaults fun _ => moves_switchClausesOf (hc scope) _ x [] (fun c hm seen => ?_) ?_
    · exact moves_switchCases (fun e he => Judges.expr (hc scope) (hexprs.2 e (List.mem_flatMap.mpr ⟨c, hm, he⟩)) _)
    exact fun c hm u hu => hparts.2 u (List.mem_flatMap.mpr ⟨c, hm, hu⟩)
  | .typeSwitch node label binder subject clauses, hs => by
    have hparts := Walks.parts (R := R) hs
    have hc := fun scope => (hc.within scope).labelled label false
    unfold stmt
    have hexprs := List.forall_mem_cons.mp (Walks.exprs (R := R) hs)
    refine moves_bind moves_openScope fun scope => ?_
    refine moves_bind (moves_switchedUnion (Judges.expr (hc scope) hexprs.1 _)) fun union => ?_
    refine moves_bind moves_defaults fun _ => ?_
    refine moves_variantClausesOf (hc scope) _ union (Walks.binder hs) [] (fun c hm => ?_) ?_
    · exact moves_variantCases (fun e he => Judges.expr (hc scope)
        (hexprs.2 e (List.mem_flatMap.mpr ⟨c, hm, he⟩))) union
    exact fun c hm u hu => hparts u (List.mem_flatMap.mpr ⟨c, hm, hu⟩)
  | .returns .., hs => by
    unfold stmt
    exact follows_returnStmt hc (moves_anyReport (Walks.complain G)) (Walks.exprs (R := R) hs)
  | .defer token deferred, hs => by
    have h := moves_stmtOf hc.deferred .none (Walks.parts (R := R) hs deferred (List.mem_singleton_self _))
    unfold stmt
    grind
  | .jump .., _ => by
    unfold stmt
    exact moves_jump (moves_anyReport (Walks.complain G))
  | .use .., hs => by
    unfold stmt
    exact moves_uses (Judges.demand hc) (Walks.use hc hs)
  | .decl d, hs => by
    unfold stmt
    exact Walks.decl hc hs

theorem moves_stmtsInOrderOf {ctx : Context} (hc : ctx.AtTop) (allowed : Permissions) :
    ∀ {stmts : List Stmt}, (∀ s ∈ stmts, G s) → Moves R (stmtsInOrder ctx allowed stmts)
  | [], _ => by
    unfold stmtsInOrder
    exact moves_pure _
  | s :: rest, hs => by
    rw [List.forall_mem_cons] at hs
    unfold stmtsInOrder
    exact moves_bind (moves_stmtOf hc _ hs.1) fun _ => moves_stmtsInOrderOf hc allowed hs.2

theorem moves_blockOf {ctx : Context} (hc : ctx.AtTop) (allowed : Permissions) :
    ∀ {body : Block}, (∀ s ∈ body.stmts, G s) → Moves R (block ctx allowed body)
  | ⟨id, _, _, stmts⟩, hs => by
    unfold block
    refine moves_bind moves_openScope fun scope => moves_bind (Walks.hoist (hc.within scope) hs) fun _ => ?_
    exact moves_stmtsInOrderOf (hc.within scope) allowed hs

theorem moves_initialOf {ctx : Context} (hc : ctx.AtTop) :
    ∀ {init : Option Stmt}, (∀ s, init = some s → G s) → Moves R (initial ctx init)
  | none, _ => by
    unfold initial
    exact moves_pure _
  | some s, hs => by
    unfold initial
    exact moves_stmtOf hc .none (hs s rfl)

theorem moves_postStmtOf {ctx : Context} (hc : ctx.AtTop) :
    ∀ {post : Option Stmt}, (∀ s, post = some s → G s) → Moves R (postStmt ctx post)
  | none, _ => by
    unfold postStmt
    exact moves_pure _
  | some s, hs => by
    have h := moves_stmtOf hc .none (hs s rfl)
    unfold postStmt
    grind

theorem moves_elseBranchOf {ctx : Context} (hc : ctx.AtTop) (allowed : Permissions) :
    ∀ {otherwise : Option Stmt}, (∀ s, otherwise = some s → G s) → Moves R (elseBranch ctx allowed otherwise)
  | none, _ => by
    unfold elseBranch
    exact moves_pure _
  | some s, hs => by
    have h := moves_stmtOf hc allowed (hs s rfl)
    have hreport := moves_anyReport (Walks.complain (R := R) G)
    unfold elseBranch
    grind

theorem moves_switchClausesOf {ctx : Context} (hc : ctx.AtTop) (allowed : Permissions) (tag : Operand) :
    ∀ (seen : List SeenCase) {clauses : List Clause},
    (∀ c ∈ clauses, ∀ seen, Moves R (switchCases ctx tag seen c.cases)) →
      (∀ c ∈ clauses, ∀ s ∈ c.stmts, G s) → Moves R (switchClauses ctx allowed tag seen clauses)
  | _, [], _, _ => by
    unfold switchClauses
    exact moves_pure _
  | seen, ⟨node, cases, stmts⟩ :: rest, hcases, hs => by
    rw [List.forall_mem_cons] at hcases hs
    unfold switchClauses
    refine moves_bind (hcases.1 seen) fun seen => moves_bind moves_openScope fun scope => ?_
    refine moves_bind (Walks.hoist (hc.within scope) hs.1) fun _ => ?_
    refine moves_bind (moves_stmtsInOrderOf (hc.within scope) _ hs.1) fun _ => ?_
    exact moves_switchClausesOf hc allowed tag seen hcases.2 hs.2

theorem moves_variantClausesOf {ctx : Context} (hc : ctx.AtTop) (allowed : Permissions) (union : Option TypeId)
    {binder : Ident} (hbind : ∀ scope t, Moves R (bindVariant scope binder t)) :
    ∀ (seen : List (TypeId × Pos)) {clauses : List Clause},
      (∀ c ∈ clauses, ∀ alone scan, Moves R (variantCases ctx union alone scan c.cases)) →
      (∀ c ∈ clauses, ∀ s ∈ c.stmts, G s) → Moves R (variantClauses ctx allowed union binder seen clauses)
  | _, [], _, _ => by
    unfold variantClauses
    exact moves_pure _
  | seen, ⟨node, cases, stmts⟩ :: rest, hcases, hs => by
    rw [List.forall_mem_cons] at hcases hs
    unfold variantClauses
    refine moves_bind (hcases.1 _ _) fun scan => moves_bind moves_openScope fun scope => ?_
    refine moves_bind (hbind _ _) fun _ => moves_bind (Walks.hoist (hc.within scope) hs.1) fun _ => ?_
    refine moves_bind (moves_stmtsInOrderOf (hc.within scope) _ hs.1) fun _ => ?_
    exact moves_variantClausesOf hc allowed union hbind scan.seen hcases.2 hs.2

end

/-- A body keeps what its statements keep. -/
theorem moves_bodyOf (hs : ∀ s ∈ b.block.stmts, G s) : Moves R (body config b) := by
  have hc (scope : ScopeId) : (bodyContext config scope b).AtTop := ⟨rfl, rfl⟩
  rw [body_eq]
  refine moves_bind (Exposes.openBody _ _) fun (scope, params) => moves_bind (Exposes.params ..) fun _ => ?_
  refine moves_bind (Walks.hoist (hc scope) hs) fun _ => ?_
  exact moves_bind (moves_stmtsInOrderOf (hc scope) .none hs) fun _ => moves_missingReturn b

theorem moves_bodiesOf (hs : ∀ b ∈ bs, ∀ s ∈ b.block.stmts, G s) : Moves R (bodies config bs) := by
  induction bs with
  | nil => exact moves_pure _
  | cons b rest ih =>
    rw [List.forall_mem_cons] at hs
    exact moves_bind (moves_bodyOf hs.1) fun _ => ih hs.2

/-- Queued bodies are checked along whatever allows to take them from the queue, given what is known of them. -/
theorem follows_drain {config : Config} (htake : ∀ rounds, (∀ bs, (∀ b ∈ bs, ∀ s ∈ b.block.stmts, G s) → Moves R (do
      bodies config bs
      drain config rounds)) → Moves R (drain config (rounds + 1))) : Moves R (drain config rounds) := by
  induction rounds with
  | zero => exact moves_pure _
  | succ rounds ih => exact htake rounds fun bs hbs => moves_bind (moves_bodiesOf hbs) fun _ => ih

end

section

variable {D : Decl → Prop} [Proceeds R D]

/-- Where expressions are kept whatever they are, only declarations matter. -/
instance : Walks R (fun _ => True) (fun _ _ => True) fun s => ∀ d ∈ s.decls, D d where
  complain := Proceeds.complain D
  parts h u hu d hd := h d (Stmt.mem_decls_of_part hu hd)
  exprs _ _ _ := trivial
  step _ _ _ y t := moves_assign y _ t _
  combined _ y t := moves_assign y _ t _
  binder _ scope t := moves_bindVariant scope _ t
  use hc _ e _ := moves_usingTarget (moves_evaluate hc _ e.unparen)
  decl hc h := Proceeds.decl _ _ hc (h _ (by simp [Stmt.decls]))
  hoist hc h := Proceeds.hoist _ _ hc fun d hd => h _ hd d (by simp [Stmt.decls])

theorem moves_body (hd : ∀ d ∈ b.block.decls, D d) : Moves R (body config b) := by
  rw [Block.decls_eq] at hd
  exact moves_bodyOf (G := fun s => ∀ d ∈ s.decls, D d) fun s hs d h => hd d (Stmt.mem_declsList.mpr ⟨s, hs, h⟩)

theorem moves_bodies (hd : ∀ b ∈ bs, ∀ d ∈ b.block.decls, D d) : Moves R (bodies config bs) := by
  refine moves_bodiesOf (G := fun s => ∀ d ∈ s.decls, D d) fun b hb s hs d h => hd b hb d ?_
  rw [Block.decls_eq]
  exact Stmt.mem_declsList.mpr ⟨s, hs, h⟩

end

/-! ## Declarations as statements -/

/-- Local variables move along whatever allows to open, to read and to bind them. -/
theorem moves_localVariables [Observes R] [GivesTypes R fun _ => True] [Binds R] [OpensVariables R] [ReadsVariables R]
    (hx : ∀ reading e, Moves R (expr demand ctx reading e)) (d : VarDecl) : Moves R (localVariables ctx d) := by
  have h := fun es => moves_varDecl hx (fun _ (_ : _ ∈ es) => trivial) d.type d.values
  unfold localVariables
  grind

instance [AllowsAll R] : ReadsFiles R where
  openFile := AllowsAll.openFile
  newImport := AllowsAll.newImport
  addImport := AllowsAll.addImport
  warn := AllowsAll.warn

instance [AllowsAll R] : Declares R where
  complain := AllowsAll.complain
  dequeue := AllowsAll.dequeue
  locals ctx d _ := moves_localVariables (moves_expr moves_demand ctx) d

attribute [grind ←] DeclaresLocals.locals

section

variable [Registers R] (scope : ScopeId)

@[grind ←]
theorem moves_procName (d : ProcDecl) : Moves R (declareProc d scope) := Registers.register (.proc d)

end

section

variable {D : Decl → Prop} [Receives R D]

/-- Of the statements, only declarations of types and constants are entered ahead. -/
theorem follows_enterHoisted (hd : ∀ d, .decl d ∈ stmts → D d) : Moves R (enterHoisted scope stmts) := by
  fun_induction enterHoisted scope stmts with
  | case1 => exact moves_pure _
  | case2 d rest ih =>
    have hrest := ih fun d hm => hd d (List.mem_cons_of_mem _ hm)
    exact moves_bind (Receives.receive (hd _ List.mem_cons_self) (.type d)) fun _ => moves_bind hrest fun _ =>
      moves_pure _
  | case3 d rest ih =>
    have hrest := ih fun d hm => hd d (List.mem_cons_of_mem _ hm)
    exact moves_bind (Receives.receive (hd _ List.mem_cons_self) (.consts d)) fun _ => moves_bind hrest fun _ =>
      moves_pure _
  | case4 s rest _ _ ih => exact ih fun d hm => hd d (List.mem_cons_of_mem _ hm)

variable {ctx : Context} (hr : ∀ e, Moves R (demand ctx e))

include hr

theorem follows_hoistAll (hd : ∀ d, .decl d ∈ stmts → D d) : Moves R (hoistAll ctx stmts) :=
  moves_bind (follows_enterHoisted hd) fun _ => moves_demandAllOf hr

theorem follows_declStmt (hl : ∀ d, D (.vars d) → Moves R (localVariables ctx d)) (hd : D d) :
    Moves R (declStmt ctx d) := by
  unfold declStmt
  cases d with
  | vars d => exact hl d hd
  | consts d =>
    dsimp only
    split
    · exact moves_pure _
    · refine moves_read (fun _ _ => rfl) fun s => ?_
      split
      · exact moves_pure _
      · exact moves_bind (Receives.receive hd (.consts d)) fun _ => moves_demandAllOf hr
  | type d =>
    refine moves_read (fun _ _ => rfl) fun s => ?_
    split
    · exact moves_pure _
    · exact moves_bind (Receives.receive hd (.type d)) fun _ => hr _
  | proc d => exact moves_bind (Receives.receive hd (.proc d)) fun _ => hr _
  | imported d => exact moves_report rfl

end

@[grind ←]
theorem moves_enterHoisted [Registers R] : Moves R (enterHoisted scope stmts) :=
  follows_enterHoisted fun _ _ => trivial

section

variable [DeclaresLocals R]

@[grind ←]
theorem moves_declStmt (hc : ctx.AtTop) (d : Decl) : Moves R (declStmt ctx d) :=
  follows_declStmt (moves_resolve hc) (fun d _ => DeclaresLocals.locals ctx d hc) (by trivial)

@[grind ←]
theorem moves_hoistAll (hc : ctx.AtTop) (stmts : List Stmt) : Moves R (hoistAll ctx stmts) :=
  follows_hoistAll (moves_resolve hc) fun _ _ => trivial

instance [Complains R] : Proceeds R fun _ => True where
  complain := Complains.complain
  decl _ d hc _ := moves_declStmt hc d
  hoist _ stmts hc _ := moves_hoistAll hc stmts

end

/-! ## Bodies -/

section

variable [Proceeds R fun _ => True]

section

variable {ctx : Context} (hc : ctx.AtTop) (allowed : Permissions)

include hc

@[grind ←]
theorem moves_stmt : Moves R (stmt ctx allowed s) :=
  moves_stmtOf (G := fun s => ∀ d ∈ s.decls, True) hc allowed fun _ _ => trivial

@[grind ←]
theorem moves_stmtsInOrder : Moves R (stmtsInOrder ctx allowed stmts) :=
  moves_stmtsInOrderOf (G := fun s => ∀ d ∈ s.decls, True) hc allowed fun _ _ _ _ => trivial

@[grind ←]
theorem moves_block (body : Block) : Moves R (block ctx allowed body) :=
  moves_blockOf (G := fun s => ∀ d ∈ s.decls, True) hc allowed fun _ _ _ _ => trivial

end

variable [Frames R]

theorem moves_drain (config : Config) (rounds : Nat) : Moves R (drain config rounds) := by
  refine follows_drain (G := fun s => ∀ d ∈ s.decls, True) (fun rounds hrest => ?_)
  exact moves_bind (.of_ok (fun _ _ => rfl) fun s => ⟨_, _, rfl, Frames.dequeue s⟩) fun bs => hrest bs (by simp)

/-- A body and those that it queues. -/
theorem moves_bodyAndNested (config : Config) (b : Body) : Moves R (bodyAndNested config b) :=
  moves_bind (moves_body fun _ _ => trivial) fun _ => moves_drain config b.block.nesting

end

/-! ## Files -/

@[grind ←]
theorem moves_fileScope [Reports R] (path : String) : Moves R (fileScope? path) :=
  moves_read (fun _ _ => rfl) fun _ => moves_pure _

section

variable [ReadsFiles R]

theorem moves_openFiles (files : List File) : Moves R (openFiles files) := by
  induction files with
  | nil => exact moves_pure _
  | cons file rest ih =>
    refine moves_bind (.of_ok (fun _ _ => rfl) fun s => ⟨_, _, rfl, Supplies.openScope s .global .file⟩) fun scope => ?_
    exact moves_bind (.of_ok (fun _ _ => rfl) fun s => ⟨_, _, rfl, ReadsFiles.openFile s _⟩) fun _ => ih

@[grind ←]
theorem moves_warnRepeated : Moves R (warn token .importRepeated) where
  along s := ReadsFiles.warn s (Problem.importRepeated.warning token) rfl
  traced := warn_eq_tell token ▸ traced_tell _

/-- Binds an import, once a repetition was warned of. -/
def enterImport (d : ImportDecl) (scope target : ScopeId) : Check Unit := do
  let e ← newEntity (.typed (.importName ⟨d.path.text, (importToken d).text, target⟩) (importToken d)
    (d.name.map Node.id) .invalid)
  if ← Check.bind scope d.name e then
    modify fun s => { s with imports := s.imports ++ [e] }

/-- Binding an import, with its entry as one step. -/
theorem bindImport_eq (d : ImportDecl) (scope target : ScopeId) : bindImport d scope target = (do
    if importsScope (← arena) scope target then warn d.token .importRepeated
    enterImport d scope target) := rfl

@[grind ←]
theorem moves_enterImport (d : ImportDecl) (scope target : ScopeId) : Moves R (enterImport d scope target) := by
  refine moves_bind (.of_ok (fun _ _ => rfl) fun s => ⟨_, _, rfl, ReadsFiles.newImport s _ _ _⟩) fun e => ?_
  refine moves_bind moves_bindIdent fun bound => ?_
  split
  · exact .of_ok (fun _ _ => rfl) fun s => ⟨_, _, rfl, ReadsFiles.addImport s e⟩
  · exact moves_pure _

@[grind ←]
theorem moves_bindImport (d : ImportDecl) (scope target : ScopeId) : Moves R (bindImport d scope target) := by
  rw [bindImport_eq]
  grind

@[grind ←]
theorem moves_resolveImport (d : ImportDecl) (scope : ScopeId) : Moves R (resolveImport d scope) := by
  unfold resolveImport
  grind

@[grind ←]
theorem moves_resolveImports : Moves R (resolveImports scope stmts) := by
  fun_induction resolveImports scope stmts <;> grind

@[grind ←]
theorem moves_resolveFiles : Moves R (resolveFiles files) := by
  induction files with
  | nil => exact moves_pure _
  | cons file rest ih =>
    unfold resolveFiles
    grind

end

@[grind ←]
theorem moves_entryPoint [Reports R] : Moves R (entryPoint config files) := by
  refine moves_bind moves_arena fun a => moves_read (fun _ _ => rfl) fun s => ?_
  cases files <;> grind

section

variable {D : Decl → Prop} [Receives R D]

theorem follows_collectDecl (hd : ∀ d, s = .decl d → D d) (scope : ScopeId) : Moves R (collectDecl scope s) := by
  unfold collectDecl
  split
  · exact Receives.receive (hd _ rfl) (.vars _)
  · exact Receives.receive (hd _ rfl) (.consts _)
  · exact moves_bind (Receives.receive (hd _ rfl) (.type _)) fun _ => moves_pure _
  · exact moves_bind (Receives.receive (hd _ rfl) (.proc _)) fun _ => moves_pure _
  · exact moves_pure _
  · exact moves_bind (moves_report rfl) fun _ => moves_pure _

theorem follows_collectDecls (hd : ∀ d, .decl d ∈ stmts → D d) (scope : ScopeId) :
    Moves R (collectDecls scope stmts) := by
  induction stmts with
  | nil => exact moves_pure _
  | cons s rest ih =>
    refine moves_bind (follows_collectDecl (fun d heq => hd d (heq ▸ List.mem_cons_self)) scope) fun _ => ?_
    exact moves_bind (ih fun d hm => hd d (List.mem_cons_of_mem _ hm)) fun _ => moves_pure _

theorem follows_collectFiles (hd : ∀ file ∈ files, ∀ d, .decl d ∈ file.decls → D d) :
    Moves R (collectFiles files) := by
  induction files with
  | nil => exact moves_pure _
  | cons file rest ih =>
    rw [List.forall_mem_cons] at hd
    have hfile := follows_collectDecls (R := R) hd.1
    have hrest := ih hd.2
    unfold collectFiles
    grind

/-- The file level keeps what its declarations and its demands keep. -/
theorem follows_fileLevel {L : Expr → Prop} {V : Operand → Expr → Prop} [Judges R L V]
    (hopen : Moves R (openFiles files)) (hresolve : Moves R (resolveFiles files))
    (hd : ∀ file ∈ files, ∀ d, .decl d ∈ file.decls → D d) : Moves R (fileLevel config files) := by
  have hturn (turn : Turn) (es : List EntityId) : Moves R (demandTurn (.outer config .global) turn es) :=
    moves_demandTurnOf (Judges.demand (.outer config .global))
  refine moves_bind hopen fun _ => moves_bind (follows_collectFiles hd) fun es => ?_
  refine moves_bind hresolve fun _ => moves_bind (hturn .types es) fun _ => ?_
  refine moves_bind (hturn .constants es) fun _ => moves_bind (hturn .procedures es) fun _ => ?_
  exact moves_bind (hturn .vars es) fun _ => moves_entryPoint

end

@[grind ←]
theorem moves_collectDecls [Registers R] : Moves R (collectDecls scope stmts) :=
  follows_collectDecls (fun _ _ => trivial) scope

@[grind ←]
theorem moves_collectFiles [Registers R] : Moves R (collectFiles files) :=
  follows_collectFiles fun _ _ _ _ => trivial

theorem moves_fileLevel [Evaluates R] [Registers R] [ReadsFiles R] (config : Config) (files : List File) :
    Moves R (fileLevel config files) :=
  follows_fileLevel (moves_openFiles files) moves_resolveFiles fun _ _ _ _ => trivial

end Check

end Statics
