import Statics.Proofs.Reports

/-!
# Jumps and the constructs around them

Where a statement stands is a list of frames, innermost first: each frame is a part of the construct around the frames
before it. Which jumps are legal is a question about this list alone. The reports of illegal control flow that a body
gets are those of the jumps that are illegal in this sense, of the returns in deferred statements, and of what follows
`else` without being a block or another test, in the order of checking.

Checking carries permissions and a stack of labels down the tree. The invariant of the induction, `Suits`, says that
both are what can be read off the frames.
-/

namespace Statics

variable {kind : BranchKind} {label : Option Ident} {token : Token}

/-! ## Places -/

/-- The part of a construct that a statement stands directly in. -/
inductive Frame where
  /-- A list of statements; whether only empty ones follow. -/
  | listed (last : Bool)
  /-- The braces of a block that stands as a statement. -/
  | braces
  /-- A branch of a test. -/
  | branch
  /-- In front of the condition or the tag of a construct, or after each turn of a loop. -/
  | head (label : Option Ident) (isLoop : Bool)
  /-- The body of a loop. -/
  | loop (label : Option Ident)
  /-- A clause of a switch; whether control may fall through to a clause after it. -/
  | clause (label : Option Ident) (mayFall : Bool)
  /-- A deferred statement. -/
  | deferred
  /-- What follows `else` in place of a block or another test. -/
  | stray
deriving DecidableEq

namespace Frame

/-- A label that a construct carries, with the construct's sort. -/
def label? : Frame → Option Label
  | head label isLoop => label.map fun l => ⟨l.name, isLoop⟩
  | loop label => label.map fun l => ⟨l.name, true⟩
  | clause label _ => label.map fun l => ⟨l.name, false⟩
  | _ => none

/-- What a break without a label leaves. -/
def takesBreak : Frame → Bool
  | loop _ | clause .. => true
  | _ => false

/-- What a continue without a label goes on with. -/
def takesContinue : Frame → Bool
  | loop _ => true
  | _ => false

/-- What no jump without a label leaves. -/
def isSealed : Frame → Bool
  | deferred | head .. => true
  | _ => false

/-- Whether a frame is a deferred statement. -/
def isDeferred : Frame → Bool
  | deferred => true
  | _ => false

/-- Whether a frame is never looked into. -/
def isStray : Frame → Bool
  | stray => true
  | _ => false

end Frame

/-- The frames around a statement, up to the body of its procedure. The innermost comes first. -/
abbrev Place := List Frame

namespace Place

/-- Whether, going outward, a frame that takes a jump without a label comes before any that no such jump leaves. -/
def allows (takes : Frame → Bool) (place : Place) : Bool :=
  (place.find? fun f => takes f || f.isSealed).any takes

/-- The labels around a place. -/
def labels (place : Place) : List Label := place.filterMap Frame.label?

/-- The innermost construct that carries a label. -/
def carrier? (place : Place) (name : String) : Option Label := place.labels.find? fun l => l.name == name

/-- Whether a statement is the last one of a clause that may fall through, or of a block that is. Empty statements after
it do not count. -/
def mayFall : Place → Bool
  | .listed true :: .clause _ mayFall :: _ => mayFall
  | .listed true :: .braces :: outer => mayFall outer
  | _ => false

/-- Whether a place is inside a deferred statement. -/
def isDeferred (place : Place) : Bool := place.any Frame.isDeferred

/-- Whether a place is never looked at. -/
def isStray (place : Place) : Bool := place.any Frame.isStray

end Place

/-! ## Jumps -/

/-- A jump, and where it stands. -/
structure Jump where
  place : Place
  token : Token
  kind : BranchKind
  label : Option Ident
deriving DecidableEq

namespace Jump

/-- Whether a jump may stand where it does. -/
def isLegal (j : Jump) : Bool :=
  match j.kind, j.label with
  | .breaks, none => j.place.allows Frame.takesBreak
  | .continues, none => j.place.allows Frame.takesContinue
  | .breaks, some l => (j.place.carrier? l.name).isSome
  | .continues, some l => (j.place.carrier? l.name).any Label.isLoop
  | .fallsThrough, label => j.place.mayFall && label.all fun l => (j.place.carrier? l.name).isSome

/-- What is reported about an illegal jump: a label that nothing carries, or else its place. -/
def complaint (j : Jump) : Diagnostic :=
  match j.label, j.kind with
  | some l, kind =>
    if (j.place.carrier? l.name).isNone then (Problem.labelUnknown l.name).error l.token
    else if kind = .continues then (Problem.continueNotLoop l.name).error j.token
    else Problem.fallthroughMisplaced.error j.token
  | none, .breaks => Problem.breakMisplaced.error j.token
  | none, .continues => Problem.continueMisplaced.error j.token
  | none, .fallsThrough => Problem.fallthroughMisplaced.error j.token

end Jump

/-- What may be wrong with the control flow of a body: a jump, a return, or what follows `else`. -/
inductive Control where
  | jump (j : Jump)
  | returns (place : Place) (token : Token)
  | wrongElse (place : Place) (token : Token)
deriving DecidableEq

namespace Control

/-- Where a piece of control flow stands. -/
def place : Control → Place
  | jump j => j.place
  | returns place _ | wrongElse place _ => place

/-- Whether checking gets to a piece of control flow: it does not look into what is no branch of a test. -/
def isReached (c : Control) : Bool := !c.place.isStray

/-- What is reported about a piece of control flow. A jump is reported unless it is legal, a return inside a deferred
statement, and whatever else follows `else` always. -/
def report? : Control → Option Diagnostic
  | jump j => if j.isLegal then none else some j.complaint
  | returns place token => if place.isDeferred then some (Problem.returnInDefer.error token) else none
  | wrongElse _ token => some (Problem.elseForm.error token)

/-- The reports about the pieces of control flow that checking gets to. -/
def reports (controls : List Control) : List Diagnostic := (controls.filter isReached).filterMap report?

@[simp]
theorem reports_nil : reports [] = [] := rfl

theorem reports_singleton {c : Control} (h : c.isReached) : reports [c] = c.report?.toList := by
  cases hc : c.report? <;> simp [reports, h, hc]

@[simp]
theorem reports_append (cs ds : List Control) : reports (cs ++ ds) = reports cs ++ reports ds := by simp [reports]

end Control

mutual

/-- The control flow in a statement at some place, in the order of checking. Procedures inside have their own. -/
def Stmt.controls (place : Place) : Stmt → List Control
  | .block body => Block.controls (.braces :: place) body
  | .branchOn _ init _ body otherwise =>
    Stmt.controlsOption (.head none false :: place) init ++ Block.controls (.branch :: place) body ++
      Stmt.controlsElse place otherwise
  | .loop _ label init _ post body =>
    Stmt.controlsOption (.head label true :: place) init ++ Stmt.controlsOption (.head label true :: place) post ++
      Block.controls (.loop label :: place) body
  | .switch _ label init _ clauses =>
    Stmt.controlsOption (.head label false :: place) init ++ Clause.controls label true place clauses
  | .typeSwitch _ label _ _ clauses => Clause.controls label false place clauses
  | .returns token _ => [.returns place token]
  | .defer _ s => Stmt.controls (.deferred :: place) s
  | .jump token kind label => [.jump ⟨place, token, kind, label⟩]
  | _ => []

@[inherit_doc Stmt.controls]
def Stmt.controlsOption (place : Place) : Option Stmt → List Control
  | none => []
  | some s => Stmt.controls place s

/-- The control flow in what follows `else`. -/
def Stmt.controlsElse (place : Place) : Option Stmt → List Control
  | none => []
  | some s =>
    if Check.isElse s then Stmt.controls (.branch :: place) s
    else .wrongElse place s.token :: Stmt.controls (.stray :: place) s

/-- The control flow in a list of statements. -/
def Stmt.controlsList (place : Place) : List Stmt → List Control
  | [] => []
  | s :: rest => Stmt.controls (.listed (rest.all Stmt.isEmpty) :: place) s ++ Stmt.controlsList place rest

/-- The control flow in a block. -/
def Block.controls (place : Place) : Block → List Control
  | ⟨_, _, _, stmts⟩ => Stmt.controlsList place stmts

/-- The control flow in the clauses of a switch. All but the last may fall through, if any may. -/
def Clause.controls (label : Option Ident) (falls : Bool) (place : Place) : List Clause → List Control
  | [] => []
  | ⟨_, _, stmts⟩ :: rest =>
    Stmt.controlsList (.clause label (falls && !rest.isEmpty) :: place) stmts ++ Clause.controls label falls place rest

end

/-- The control flow in the body of a procedure. -/
def Body.controls (b : Body) : List Control := b.block.controls []

theorem Body.controls_eq (b : Body) : b.controls = Stmt.controlsList [] b.block.stmts := by
  obtain ⟨_, _, _, block⟩ := b
  cases block
  simp [Body.controls, Block.controls]

/-! ## Places of what is inside -/

/-- What is inside a statement stands inside the place of the statement. -/
theorem Control.suffix_of_mem :
    (∀ place (s : Stmt), ∀ c ∈ s.controls place, place <:+ c.place) ∧
    (∀ label falls place clauses, ∀ c ∈ Clause.controls label falls place clauses, place <:+ c.place) ∧
    (∀ place stmts, ∀ c ∈ Stmt.controlsList place stmts, place <:+ c.place) ∧
    (∀ place s, ∀ c ∈ Stmt.controlsElse place s, place <:+ c.place) ∧
    (∀ place s, ∀ c ∈ Stmt.controlsOption place s, place <:+ c.place) ∧
    (∀ place (b : Block), ∀ c ∈ b.controls place, place <:+ c.place) := by
  have hcons {f : Frame} {place p : Place} (h : f :: place <:+ p) : place <:+ p := (List.suffix_cons f place).trans h
  apply Stmt.controls.mutual_induct <;>
    grind [Stmt.controls, Stmt.controlsOption, Stmt.controlsElse, Stmt.controlsList, Block.controls, Clause.controls,
      Control.place]

section

variable {c : Control} {place : Place}

theorem Stmt.suffix_of_mem_controls {s : Stmt} (h : c ∈ s.controls place) : place <:+ c.place :=
  Control.suffix_of_mem.1 _ _ _ h

theorem Stmt.suffix_of_mem_controlsOption {s : Option Stmt} (h : c ∈ Stmt.controlsOption place s) : place <:+ c.place :=
  Control.suffix_of_mem.2.2.2.2.1 _ _ _ h

theorem Stmt.suffix_of_mem_controlsList {stmts : List Stmt} (h : c ∈ Stmt.controlsList place stmts) :
    place <:+ c.place := Control.suffix_of_mem.2.2.1 _ _ _ h

theorem Block.suffix_of_mem_controls {b : Block} (h : c ∈ b.controls place) : place <:+ c.place :=
  Control.suffix_of_mem.2.2.2.2.2 _ _ _ h

end

/-- Nothing is reported about what checking does not look into. -/
theorem Stmt.reports_stray (place : Place) (s : Stmt) : Control.reports (s.controls (.stray :: place)) = [] := by
  rw [Control.reports, List.filter_eq_nil_iff.mpr, List.filterMap_nil]
  intro c hc
  have hmem : Frame.stray ∈ c.place := (Stmt.suffix_of_mem_controls hc).mem List.mem_cons_self
  simpa [Control.isReached, Place.isStray] using ⟨Frame.stray, hmem, rfl⟩

/-! ## What is carried down the tree -/

namespace Place

@[simp]
theorem allows_cons (takes : Frame → Bool) (f : Frame) (place : Place) :
    allows takes (f :: place) = if takes f || f.isSealed then takes f else allows takes place := by
  by_cases h : takes f || f.isSealed <;> simp [allows, h]

@[simp]
theorem labels_cons (f : Frame) (place : Place) : labels (f :: place) = f.label?.toList ++ labels place := by
  cases h : f.label? <;> simp [labels, h]

@[simp]
theorem isStray_cons (f : Frame) (place : Place) : isStray (f :: place) = (f.isStray || isStray place) := rfl

end Place

/-- What checking carries to a place is what can be read off the frames around it. -/
structure Suits (place : Place) (allowed : Permissions) (ctx : Context) : Prop where
  breaks : allowed.breaks = place.allows Frame.takesBreak
  continues : allowed.continues = place.allows Frame.takesContinue
  falls : allowed.falls = place.mayFall
  labels : ctx.labels = place.labels
  inDefer : ctx.inDefer = place.isDeferred
  inBody : ctx.signature.isSome
  reached : place.isStray = false
  top : ctx.AtTop

namespace Suits

variable {place : Place} {allowed : Permissions} {ctx : Context}

theorem within (h : Suits place allowed ctx) (scope : ScopeId) : Suits place allowed (ctx.within scope) := { h with }

/-- Only the last statement of a list may fall through. -/
theorem listed (h : Suits (.listed true :: place) allowed ctx) (last : Bool) :
    Suits (.listed last :: place) (if last then allowed else allowed.withoutFall) ctx := by
  cases last with
  | true => exact h
  | false => exact { h with falls := by simp [Permissions.withoutFall, Place.mayFall] }

section

variable (h : Suits place allowed ctx)

include h

theorem braces : Suits (.listed true :: .braces :: place) allowed ctx := { h with }

theorem branch : Suits (.branch :: place) allowed.withoutFall ctx := { h with falls := rfl }

/-- The block of a branch may not fall through either. -/
theorem branchBlock : Suits (.listed true :: .branch :: place) allowed.withoutFall ctx :=
  { h with falls := rfl }

theorem deferred : Suits (.deferred :: place) .none ctx.deferred :=
  { h with breaks := rfl, continues := rfl, falls := rfl, inDefer := rfl }

theorem head (label : Option Ident) (isLoop : Bool) :
    Suits (.head label isLoop :: place) .none (ctx.labelled label isLoop) := by
  cases label with
  | none => exact { h with breaks := rfl, continues := rfl, falls := rfl }
  | some l => exact { h with breaks := rfl, continues := rfl, falls := rfl, labels := congrArg (List.cons _) h.labels }

theorem loop (label : Option Ident) :
    Suits (.listed true :: .loop label :: place) allowed.withoutFall.inLoop (ctx.labelled label true) := by
  cases label with
  | none => exact { h with breaks := rfl, continues := rfl, falls := rfl }
  | some l => exact { h with breaks := rfl, continues := rfl, falls := rfl, labels := congrArg (List.cons _) h.labels }

theorem clause (label : Option Ident) (mayFall : Bool) :
    Suits (.listed true :: .clause label mayFall :: place) (allowed.withoutFall.inClause mayFall)
    (ctx.labelled label false) := by
  cases label with
  | none => exact { h with breaks := rfl, falls := rfl }
  | some l => exact { h with breaks := rfl, falls := rfl, labels := congrArg (List.cons _) h.labels }

end

/-- A body starts outside of everything. -/
theorem start (config : Config) (scope : ScopeId) (b : Body) :
    Suits [.listed true] .none (Check.bodyContext config scope b) where
  breaks := rfl
  continues := rfl
  falls := rfl
  labels := rfl
  inDefer := rfl
  inBody := rfl
  top := ⟨rfl, rfl⟩
  reached := rfl

end Suits

namespace Check

/-! ## Jumps and returns -/

/-- A report about control flow is one of the flagged ones. -/
theorem flow_report {token : Token} {p : Problem} (h : p.category = .illegalControlFlow) :
    Flags .illegalControlFlow (report token p) [p.error token] := by
  simpa [Problem.error, Diagnostic.about, h] using flags_report (c := .illegalControlFlow) token p

variable {place : Place} {allowed : Permissions} {ctx : Context}

/-- A jump is reported unless it is legal. -/
theorem flow_jump (h : Suits place allowed ctx) : Flags .illegalControlFlow (jump ctx allowed token kind label)
    (Control.reports [.jump ⟨place, token, kind, label⟩]) := by
  rw [Control.reports_singleton (by simp [Control.isReached, Control.place, h.reached])]
  have hlabel (name : String) : ctx.label? name = place.carrier? name := by
    rw [Context.label?, h.labels, Place.carrier?]
  cases label with
  | none =>
    cases kind <;>
      simp only [jump, jumpProblem?, Control.report?, Jump.isLegal, Jump.complaint, h.breaks, h.continues, h.falls] <;>
      split <;> grind [flow_report, flags_pure]
  | some l =>
    cases hcarrier : place.carrier? l.name with
    | none =>
      have hreport : Flags .illegalControlFlow (report l.token (.labelUnknown l.name))
          [(Problem.labelUnknown l.name).error l.token] := flow_report rfl
      cases kind <;> simpa [jump, hlabel, hcarrier, Control.report?, Jump.isLegal, Jump.complaint] using hreport
    | some found =>
      have hname : found.name = l.name := by
        rw [Place.carrier?] at hcarrier
        simpa using List.find?_some hcarrier
      cases kind with
      | breaks => simp [jump, jumpProblem?, hlabel, hcarrier, Control.report?, Jump.isLegal, flags_pure]
      | continues =>
        simp only [jump, jumpProblem?, hlabel, hcarrier, hname, Control.report?, Jump.isLegal, Jump.complaint,
          Option.any_some]
        cases found.isLoop with
        | true => exact flags_pure ()
        | false => exact flow_report rfl
      | fallsThrough =>
        simp only [jump, jumpProblem?, hlabel, hcarrier, h.falls, Control.report?, Jump.isLegal, Jump.complaint]
        cases place.mayFall with
        | true => simpa [hcarrier] using flags_pure ()
        | false => exact flow_report rfl

theorem flow_returnStmt (h : Suits place allowed ctx) {values : List Expr} :
    Flags .illegalControlFlow (returnStmt ctx token values) (Control.reports [.returns place token]) := by
  rw [Control.reports_singleton (by simp [Control.isReached, Control.place, h.reached]), Control.report?, returnStmt,
    ← h.inDefer]
  split
  · exact flow_report rfl
  · obtain ⟨t, ht⟩ := Option.isSome_iff_exists.mp h.inBody
    have hc := h.top
    rw [ht, Option.toList_none]
    exact Moves.flags (by grind)

/-! ## Statements -/

/-- A step that reports no jump comes first. -/
theorem flags_after {α β : Type} {x : Check α} {f : α → Check β} {ds : List Diagnostic} (hx : Moves Unflagged x)
    (hf : ∀ a, Flags .illegalControlFlow (f a) ds) : Flags .illegalControlFlow (x >>= f) ds := hx.flags.bind hf

/-- The reports about control flow in a statement are those that its place asks for. -/
theorem flow_stmts :
    (∀ ctx allowed s, ∀ place, Suits place allowed ctx →
      Flags .illegalControlFlow (stmt ctx allowed s) (Control.reports (s.controls place))) ∧
    (∀ ctx allowed union binder seen clauses, ∀ label place,
      Suits (.listed true :: .clause label false :: place) (allowed.inClause false) ctx →
      Flags .illegalControlFlow (variantClauses ctx allowed union binder seen clauses)
        (Control.reports (Clause.controls label false place clauses))) ∧
    (∀ ctx allowed stmts, ∀ place, Suits (.listed true :: place) allowed ctx →
      Flags .illegalControlFlow (stmtsInOrder ctx allowed stmts) (Control.reports (Stmt.controlsList place stmts))) ∧
    (∀ ctx allowed tag seen clauses, ∀ label place,
      (∀ mayFall, Suits (.listed true :: .clause label mayFall :: place) (allowed.inClause mayFall) ctx) →
      Flags .illegalControlFlow (switchClauses ctx allowed tag seen clauses)
        (Control.reports (Clause.controls label true place clauses))) ∧
    (∀ ctx post, ∀ place, Suits place .none ctx →
      Flags .illegalControlFlow (postStmt ctx post) (Control.reports (Stmt.controlsOption place post))) ∧
    (∀ ctx allowed otherwise, ∀ place, Suits (.branch :: place) allowed ctx →
      Flags .illegalControlFlow (elseBranch ctx allowed otherwise)
        (Control.reports (Stmt.controlsElse place otherwise))) ∧
    (∀ ctx init, ∀ place, Suits place .none ctx →
      Flags .illegalControlFlow (initial ctx init) (Control.reports (Stmt.controlsOption place init))) ∧
    (∀ ctx allowed body, ∀ place, Suits (.listed true :: place) allowed ctx →
      Flags .illegalControlFlow (block ctx allowed body) (Control.reports (body.controls place))) := by
  -- A declaration has no control flow of its own.
  have hdecl (place : Place) (s : Stmt) (h : isDecl s) : Control.reports (s.controls place) = [] := by
    cases s <;> simp_all [isDecl, Stmt.controls]
  have hhead (place allowed ctx) (h : Suits place allowed ctx) : Suits (.head none false :: place) .none ctx :=
    h.head none false
  have hlisted (place allowed ctx last) (h : Suits (.listed true :: place) allowed ctx) :
      Suits (.listed last :: place) (if last then allowed else allowed.withoutFall) ctx := h.listed last
  apply stmt.mutual_induct
  -- A clause of a switch may fall through or not, by what follows it.
  case case10 =>
    intro ctx allowed node label init tag clauses hinit hclauses place h
    simp only [stmt, Stmt.controls, Control.reports_append]
    exact flags_after moves_openScope fun scope => (hinit scope _ ((h.within scope).head label false)).bind fun _ =>
      flags_after (moves_switchTag ((h.within scope).head label false).top) fun tag =>
      flags_after moves_defaults fun _ => hclauses scope tag label place fun falls =>
        (h.within scope).clause label falls
  case case12 =>
    intro ctx allowed token values place h
    simp only [stmt, Stmt.controls]
    exact flow_returnStmt h
  case case15 =>
    intro ctx allowed token kind label place h
    simp only [stmt, Stmt.controls]
    exact flow_jump h
  -- What follows `else` in place of a block or another test is reported, and not looked into.
  case case24 =>
    intro ctx allowed s helse place h
    have hreached : Control.isReached (.wrongElse place s.token) := by
      simpa [Control.isReached, Control.place, Frame.isStray] using h.reached
    rw [elseBranch, Stmt.controlsElse, if_neg helse, if_neg helse, ← List.singleton_append, Control.reports_append,
      Stmt.reports_stray, Control.reports_singleton hreached]
    exact flow_report rfl
  all_goals
    intros
    simp only [stmt, variantClauses, stmtsInOrder, switchClauses, postStmt, elseBranch, initial, block, Stmt.controls,
      Clause.controls, Stmt.controlsList, Stmt.controlsElse, Stmt.controlsOption, Block.controls,
      Control.reports_append, Control.reports_nil, List.append_assoc]
    grind [Flags.bind, flags_after, Moves.flags, flags_pure, Suits.within, Suits.head, Suits.loop, Suits.braces,
      Suits.clause, Suits.branch, Suits.branchBlock, Suits.deferred, → Suits.top]

/-- The reports about control flow in a body are those that its syntax asks for. -/
theorem flow_body (config : Config) (b : Body) :
    Flags .illegalControlFlow (body config b) (Control.reports b.controls) := by
  have hstmts (scope : ScopeId) (params : List EntityId) := (moves_exposeParams scope params).flags.bind fun _ =>
    (moves_hoistAll (Suits.start config scope b).top b.block.stmts).flags.bind fun _ =>
    (flow_stmts.2.2.1 _ _ b.block.stmts [] (Suits.start config scope b)).bind fun _ => (moves_missingReturn b).flags
  simp only [List.nil_append, List.append_nil] at hstmts
  rw [body_eq, Body.controls_eq]
  exact (moves_openBody b.scope b.block.id).flags.bind fun (scope, params) => hstmts scope params

/-- A jump is reported for its control flow, or not at all. -/
theorem flags_jump {c : Category} (hc : c ≠ .illegalControlFlow) : Flags c (jump ctx allowed token kind label) [] := by
  have hproblem (l : Option Label) (p : Problem) (hp : jumpProblem? allowed kind l = some p) : p.category ≠ c := by
    unfold jumpProblem? at hp
    grind
  have hunknown (l : Ident) : (Problem.labelUnknown l.name).category ≠ c := fun heq => hc heq.symm
  unfold jump
  grind [flags_report_of_ne, flags_pure]

end Check

/-- Branch permissions equal lexical nesting. The reports of illegal control flow that the check of a body makes are,
in the order of checking, one for each jump it gets to that is not legal where it stands, one for each return inside a
deferred statement and one for each wrong `else`; a check that stops at the cap on errors makes the first of them. A
jump is reported for nothing else. -/
theorem illegal_jumps_are_reported (config : Config) (b : Body) (s : Pass) :
    (match Check.body config b s with
      | .ok _ t => s.flagged .illegalControlFlow t = (b.controls.filter Control.isReached).filterMap Control.report?
      | .error _ t =>
        s.flagged .illegalControlFlow t <+: (b.controls.filter Control.isReached).filterMap Control.report?) ∧
    ∀ c ctx allowed token kind label,
      c = .illegalControlFlow ∨ Check.Flags c (Check.stmt ctx allowed (.jump token kind label)) [] := by
  have hflow := Check.flow_body config b
  refine ⟨?_, fun c ctx allowed token kind label => ?_⟩
  · cases hrun : Check.body config b s with
    | ok a t => exact hflow.completes s a t hrun
    | error e t =>
      have hstarts := hflow.starts s
      rwa [Check.after_of_error hrun] at hstarts
  · by_cases hc : c = .illegalControlFlow
    · exact .inl hc
    · refine .inr ?_
      rw [Check.stmt]
      exact Check.flags_jump hc

end Statics
