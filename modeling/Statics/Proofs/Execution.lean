import Statics.Flow

/-!
# Runs of statements

What control can do in a statement: a condition may turn out either way, a switch may pick any clause, a loop with a
condition may stop at any turn. Conditions, initial statements, the statement after each turn of a loop and deferred
statements complete; a call of something that never returns does not. A run ends in an `Outcome`. An exit is an
outcome that travels outwards until a construct takes it.

`Stmt.fallsPlaced` says where a `fallthrough` may stand: at the end of a clause of a switch, if another clause
follows. `Runs.not_normal` is the main statement: what `Stmt.terminates` accepts has no run that completes.
-/

namespace Statics

/-- How a run ends. An exit knows the label it is aimed at, if it has one. -/
inductive Outcome where
  | normal
  | returned
  | diverged
  | broken (target : Option String)
  | continued (target : Option String)
  | fell
deriving DecidableEq, Repr

/-- Whether a construct with an optional label takes an exit that is aimed at `target`. -/
def takesExit (label : Option Ident) : Option String → Bool
  | none => true
  | some target => label.map Node.name == some target

namespace Outcome

/-- Whether an outcome of its body ends a construct with an optional label. -/
def leaves (label : Option Ident) : Outcome → Bool
  | broken target => takesExit label target
  | _ => false

/-- Whether an outcome of its body starts the next turn of a loop with an optional label. -/
def repeats (label : Option Ident) : Outcome → Bool
  | normal => true
  | continued target => takesExit label target
  | _ => false

/-- The outcome of a construct from that of its body. -/
def after (label : Option Ident) (o : Outcome) : Outcome := if o.leaves label then normal else o

end Outcome

/-- A call of something that never returns, possibly in parentheses. -/
inductive Expr.NeverReturns (never : Expr → Bool) : Expr → Prop where
  | call {node : Node} {callee : Expr} {args : List Expr} (h : never callee.unparen) :
      NeverReturns never (.call node callee args)
  | paren {node : Node} {inner : Expr} (h : NeverReturns never inner) : NeverReturns never (.paren node inner)

/-- Statements that do nothing to control. -/
def Stmt.isPlain : Stmt → Bool
  | .empty _ | .bad _ | .step .. | .assign .. | .defer .. | .use .. | .decl _ => true
  | _ => false

/-- What control runs through: a statement, statements in order, or the clauses from the chosen one on. -/
inductive Code where
  | one (s : Stmt)
  | all (stmts : List Stmt)
  | clauses (rest : List Clause)

/-- The runs of a piece of code. -/
inductive Runs (never : Expr → Bool) : Code → Outcome → Prop where
  | plain {s : Stmt} (h : s.isPlain) : Runs never (.one s) .normal
  | value {e : Expr} (h : ¬ e.NeverReturns never) : Runs never (.one (.expr e)) .normal
  | halt {e : Expr} (h : e.NeverReturns never) : Runs never (.one (.expr e)) .diverged
  | returns {token : Token} {values : List Expr} : Runs never (.one (.returns token values)) .returned
  | breaks {token : Token} {label : Option Ident} :
      Runs never (.one (.jump token .breaks label)) (.broken (label.map Node.name))
  | continues {token : Token} {label : Option Ident} :
      Runs never (.one (.jump token .continues label)) (.continued (label.map Node.name))
  | fallsThrough {token : Token} {label : Option Ident} :
      Runs never (.one (.jump token .fallsThrough label)) .fell
  | block {body : Block} {o : Outcome} (h : Runs never (.all body.stmts) o) : Runs never (.one (.block body)) o
  -- a branch is taken, or there is none
  | consequent {node : Node} {init : Option Stmt} {test : Expr} {body : Block} {otherwise : Option Stmt} {o : Outcome}
      (h : Runs never (.all body.stmts) o) : Runs never (.one (.branchOn node init test body otherwise)) o
  | alternative {node : Node} {init : Option Stmt} {test : Expr} {body : Block} {s : Stmt} {o : Outcome}
      (h : Runs never (.one s) o) : Runs never (.one (.branchOn node init test body (some s))) o
  | neither {node : Node} {init : Option Stmt} {test : Expr} {body : Block} :
      Runs never (.one (.branchOn node init test body none)) .normal
  -- a loop stops at its condition, is left, takes another turn, takes turns for ever, or passes an exit on
  | stop {node : Node} {label : Option Ident} {init post : Option Stmt} {test : Expr} {body : Block} :
      Runs never (.one (.loop node label init (some test) post body)) .normal
  | leave {node : Node} {label : Option Ident} {init post : Option Stmt} {test : Option Expr} {body : Block}
      {o : Outcome} (h : Runs never (.all body.stmts) o) (hl : o.leaves label) :
      Runs never (.one (.loop node label init test post body)) .normal
  | again {node : Node} {label : Option Ident} {init post : Option Stmt} {test : Option Expr} {body : Block}
      {o o' : Outcome} (h : Runs never (.all body.stmts) o) (hr : o.repeats label)
      (h' : Runs never (.one (.loop node label init test post body)) o') :
      Runs never (.one (.loop node label init test post body)) o'
  | forever {node : Node} {label : Option Ident} {init post : Option Stmt} {test : Option Expr} {body : Block}
      {o : Outcome} (h : Runs never (.all body.stmts) o) (hr : o.repeats label) :
      Runs never (.one (.loop node label init test post body)) .diverged
  | pass {node : Node} {label : Option Ident} {init post : Option Stmt} {test : Option Expr} {body : Block}
      {o : Outcome} (h : Runs never (.all body.stmts) o) (hl : ¬ o.leaves label) (hr : ¬ o.repeats label) :
      Runs never (.one (.loop node label init test post body)) o
  -- a switch starts at some clause, or at none if it has no default
  | pick {node : Node} {label : Option Ident} {init : Option Stmt} {tag : Option Expr} (skipped : List Clause)
      {rest : List Clause} {c : Clause} {o : Outcome} (h : Runs never (.clauses (c :: rest)) o) :
      Runs never (.one (.switch node label init tag (skipped ++ c :: rest))) (o.after label)
  | pickNone {node : Node} {label : Option Ident} {init : Option Stmt} {tag : Option Expr} {clauses : List Clause}
      (h : ∀ c ∈ clauses, ¬ c.isDefault) : Runs never (.one (.switch node label init tag clauses)) .normal
  | pickVariant {node : Node} {label : Option Ident} {binder : Ident} {subject : Expr} (skipped : List Clause)
      {rest : List Clause} {c : Clause} {o : Outcome} (h : Runs never (.clauses (c :: rest)) o) :
      Runs never (.one (.typeSwitch node label binder subject (skipped ++ c :: rest))) (o.after label)
  | pickNoVariant {node : Node} {label : Option Ident} {binder : Ident} {subject : Expr} {clauses : List Clause}
      (h : ∀ c ∈ clauses, ¬ c.isDefault) : Runs never (.one (.typeSwitch node label binder subject clauses)) .normal
  -- statements in order
  | done : Runs never (.all []) .normal
  | next {s : Stmt} {rest : List Stmt} {o : Outcome} (h : Runs never (.one s) .normal)
      (h' : Runs never (.all rest) o) : Runs never (.all (s :: rest)) o
  | exit {s : Stmt} {rest : List Stmt} {o : Outcome} (h : Runs never (.one s) o) (ho : o ≠ .normal) :
      Runs never (.all (s :: rest)) o
  -- a clause that falls through goes on with the next one, and the last one with what follows the switch
  | clause {c : Clause} {rest : List Clause} {o : Outcome} (h : Runs never (.all c.stmts) o) (ho : o ≠ .fell) :
      Runs never (.clauses (c :: rest)) o
  | fallInto {c : Clause} {rest : List Clause} {o : Outcome} (h : Runs never (.all c.stmts) .fell)
      (h' : Runs never (.clauses rest) o) : Runs never (.clauses (c :: rest)) o
  | fallOff : Runs never (.clauses []) .normal

variable {never : Expr → Bool} {code : Code} {o : Outcome} {label : Option String} {target : Option String}

/-! ## Every piece of code has a run -/

/-- A loop has a run if its body has one: what the body does ends the loop, repeats it for ever, or passes through. -/
theorem Runs.exists_loop {body : Block} (h : Runs never (.all body.stmts) o)
    (node : Node) (label : Option Ident) (init : Option Stmt) (test : Option Expr) (post : Option Stmt) :
    ∃ o', Runs never (.one (.loop node label init test post body)) o' := by
  by_cases hl : o.leaves label
  · exact ⟨_, .leave h hl⟩
  · by_cases hr : o.repeats label
    · exact ⟨_, .forever h hr⟩
    · exact ⟨_, .pass h hl hr⟩

mutual

theorem Stmt.exists_run (never : Expr → Bool) : ∀ s : Stmt, ∃ o, Runs never (.one s) o
  | .empty _ | .bad _ | .step .. | .assign .. | .defer .. | .use .. | .decl _ => ⟨_, .plain rfl⟩
  | .expr e => by
    by_cases h : e.NeverReturns never
    · exact ⟨_, .halt h⟩
    · exact ⟨_, .value h⟩
  | .returns .. => ⟨_, .returns⟩
  | .jump _ .breaks _ => ⟨_, .breaks⟩
  | .jump _ .continues _ => ⟨_, .continues⟩
  | .jump _ .fallsThrough _ => ⟨_, .fallsThrough⟩
  | .block body =>
    let ⟨_, h⟩ := Block.exists_run never body
    ⟨_, .block h⟩
  | .branchOn _ _ _ body _ =>
    let ⟨_, h⟩ := Block.exists_run never body
    ⟨_, .consequent h⟩
  | .loop node label init test post body =>
    let ⟨_, h⟩ := Block.exists_run never body
    h.exists_loop node label init test post
  | .switch _ _ _ _ [] => ⟨_, .pickNone (by simp)⟩
  | .switch _ _ _ _ (c :: rest) =>
    let ⟨_, h⟩ := Clause.exists_run never (c :: rest)
    ⟨_, .pick [] h⟩
  | .typeSwitch _ _ _ _ [] => ⟨_, .pickNoVariant (by simp)⟩
  | .typeSwitch _ _ _ _ (c :: rest) =>
    let ⟨_, h⟩ := Clause.exists_run never (c :: rest)
    ⟨_, .pickVariant [] h⟩

theorem Stmt.exists_run_list (never : Expr → Bool) : ∀ stmts : List Stmt, ∃ o, Runs never (.all stmts) o
  | [] => ⟨_, .done⟩
  | s :: rest => by
    obtain ⟨o, h⟩ := Stmt.exists_run never s
    obtain ⟨o', h'⟩ := Stmt.exists_run_list never rest
    by_cases ho : o = .normal
    · exact ⟨_, .next (ho ▸ h) h'⟩
    · exact ⟨_, .exit h ho⟩

theorem Block.exists_run (never : Expr → Bool) : ∀ b : Block, ∃ o, Runs never (.all b.stmts) o
  | ⟨_, _, _, stmts⟩ => Stmt.exists_run_list never stmts

theorem Clause.exists_run (never : Expr → Bool) : ∀ clauses : List Clause, ∃ o, Runs never (.clauses clauses) o
  | [] => ⟨_, .fallOff⟩
  | ⟨node, cases, stmts⟩ :: rest => by
    obtain ⟨o, h⟩ := Stmt.exists_run_list never stmts
    obtain ⟨o', h'⟩ := Clause.exists_run never rest
    by_cases ho : o = .fell
    · exact ⟨_, .fallInto (c := ⟨node, cases, stmts⟩) (ho ▸ h) h'⟩
    · exact ⟨_, .clause (c := ⟨node, cases, stmts⟩) h ho⟩

end

/-! ## Where a fallthrough may stand -/

mutual

/-- Whether every `fallthrough` in a statement is well placed, where `may` says that one may stand right here. -/
def Stmt.fallsPlaced (may : Bool) : Stmt → Bool
  | .jump _ .fallsThrough _ => may
  | .block body => Block.fallsPlaced may body
  | .branchOn _ init _ body otherwise =>
    Stmt.fallsPlacedOption init && Block.fallsPlaced false body && Stmt.fallsPlacedOption otherwise
  | .loop _ _ init _ post body =>
    Stmt.fallsPlacedOption init && Stmt.fallsPlacedOption post && Block.fallsPlaced false body
  | .switch _ _ init _ clauses => Stmt.fallsPlacedOption init && Clause.fallsPlacedList true clauses
  | .typeSwitch _ _ _ _ clauses => Clause.fallsPlacedList false clauses
  | .defer _ s => Stmt.fallsPlaced false s
  | _ => true

/-- Placement in a statement around which nothing falls through. -/
def Stmt.fallsPlacedOption : Option Stmt → Bool
  | none => true
  | some s => Stmt.fallsPlaced false s

/-- Placement in statements in order: only the last one that is not empty may fall through. -/
def Stmt.fallsPlacedList (may : Bool) : List Stmt → Bool
  | [] => true
  | s :: rest => Stmt.fallsPlaced (may && rest.all Stmt.isEmpty) s && Stmt.fallsPlacedList may rest

/-- Placement in a block. -/
def Block.fallsPlaced (may : Bool) : Block → Bool
  | ⟨_, _, _, stmts⟩ => Stmt.fallsPlacedList may stmts

/-- Placement in clauses, where `may` says that one may fall into the next. -/
def Clause.fallsPlacedList (may : Bool) : List Clause → Bool
  | [] => true
  | ⟨_, _, stmts⟩ :: rest => Stmt.fallsPlacedList (may && !rest.isEmpty) stmts && Clause.fallsPlacedList may rest

end

namespace Code

/-- Placement of every `fallthrough` in a piece of code. -/
def fallsPlaced (may : Bool) : Code → Bool
  | one s => s.fallsPlaced may
  | all stmts => Stmt.fallsPlacedList may stmts
  | clauses rest => Clause.fallsPlacedList may rest

/-- Whether a break in a piece of code leaves the construct around it. -/
def breaks (label : Option String) (implicit : Bool) : Code → Bool
  | one s => s.breaks label implicit
  | all stmts => Stmt.breaksList label implicit stmts
  | clauses rest => Clause.breaksList label implicit rest

/-- Whether control never runs past a piece of code, and leaves clauses by no break that ends their switch. -/
def terminates (never : Expr → Bool) (label : Option String) : Code → Bool
  | one s => s.terminates never
  | all stmts => Stmt.terminatesList never stmts
  | clauses rest => !rest.isEmpty && Clause.terminateAll never label rest

end Code

/-! ## Breaks

A run that ends in a break passes a break statement which the analysis of breaks counts.
-/

@[simp]
theorem Block.breaks_eq (label : Option String) (implicit : Bool) (b : Block) :
    b.breaks label implicit = Stmt.breaksList label implicit b.stmts := by
  cases b
  simp [Block.breaks]

@[simp]
theorem Clause.breaksList_cons (label : Option String) (implicit : Bool) (c : Clause) (rest : List Clause) :
    Clause.breaksList label implicit (c :: rest) =
      (Stmt.breaksList label implicit c.stmts || Clause.breaksList label implicit rest) := by
  cases c
  simp [Clause.breaksList]

/-- Whether a break aimed at `target` counts as leaving the construct with the optional label `label`. -/
def breakCounts (label : Option String) (implicit : Bool) : Option String → Bool
  | none => implicit
  | some target => label == some target

theorem breakLeaves_eq (label : Option String) (implicit : Bool) (target : Option Ident) :
    breakLeaves label implicit target = breakCounts label implicit (target.map Node.name) := by
  cases target <;> rfl

/-- What a construct takes counts as leaving it. -/
theorem breakCounts_of_takesExit {label : Option Ident} (h : takesExit label target) :
    breakCounts (label.map Node.name) true target := by
  cases target with
  | none => rfl
  | some t => exact h

/-- A break that passes a loop or switch has a label, so it counts in the same way inside. -/
theorem breakCounts_inside {label : Option Ident} {outer : Option String} {implicit : Bool}
    (h : breakCounts outer implicit target) (ht : ¬ takesExit label target) :
    outer.isSome ∧ breakCounts outer false target := by
  cases target with
  | none => simp [takesExit] at ht
  | some t =>
    have houter : outer = some t := by simpa [breakCounts] using h
    simp [houter, breakCounts]

theorem Clause.breaksList_append (label : Option String) (implicit : Bool) (skipped rest : List Clause) :
    Clause.breaksList label implicit (skipped ++ rest) =
      (Clause.breaksList label implicit skipped || Clause.breaksList label implicit rest) := by
  induction skipped with
  | nil => simp [Clause.breaksList]
  | cons c skipped ih => simp [ih, Bool.or_assoc]

theorem Outcome.after_eq_broken {label : Option Ident}
    (h : o.after label = .broken target) : o = .broken target ∧ ¬ takesExit label target := by
  unfold Outcome.after at h
  split at h
  · cases h
  case isFalse hl =>
    subst h
    exact ⟨rfl, hl⟩

/-- A run that ends in a break goes through one that counts. -/
theorem Runs.breaks_of_broken (h : Runs never code o)
    (ho : o = .broken target) {implicit : Bool}
    (hc : breakCounts label implicit target) : code.breaks label implicit := by
  induction h generalizing label implicit with
  | plain | value | halt | returns | continues | fallsThrough | neither | stop | leave | forever | pickNone
  | pickNoVariant | done | fallOff => cases ho
  | breaks =>
    cases ho
    simpa [Code.breaks, Stmt.breaks, breakLeaves_eq] using hc
  | block _ ih | consequent _ ih | alternative _ ih | exit _ _ ih | clause _ _ ih | next _ _ _ ih | fallInto _ _ _ ih =>
    have hpart := ih ho hc
    simp only [Code.breaks] at hpart
    simp [Code.breaks, Stmt.breaks, Stmt.breaksList, Stmt.breaksOption, hpart]
  | again h hr h' _ ih' => exact ih' ho hc
  | pass h hl hr ih =>
    subst ho
    obtain ⟨hsome, hin⟩ := breakCounts_inside hc hl
    simpa [Code.breaks, Stmt.breaks, hsome] using ih rfl hin
  | pick _ h ih | pickVariant _ h ih =>
    obtain ⟨rfl, ht⟩ := Outcome.after_eq_broken ho
    obtain ⟨hsome, hin⟩ := breakCounts_inside hc ht
    have hrest : Clause.breaksList label false (_ :: _) := ih rfl hin
    simp only [Code.breaks, Stmt.breaks, hsome, Clause.breaksList_append, hrest, Bool.or_true, Bool.and_self]

/-! ## Falling through

A run that falls through passes a `fallthrough` statement, so where they are well placed it starts at a place where
one may stand.
-/

@[simp]
theorem Block.fallsPlaced_eq (may : Bool) (b : Block) : b.fallsPlaced may = Stmt.fallsPlacedList may b.stmts := by
  cases b
  simp [Block.fallsPlaced]

@[simp]
theorem Clause.fallsPlacedList_cons (may : Bool) (c : Clause) (rest : List Clause) :
    Clause.fallsPlacedList may (c :: rest) =
      (Stmt.fallsPlacedList (may && !rest.isEmpty) c.stmts && Clause.fallsPlacedList may rest) := by
  cases c
  simp [Clause.fallsPlacedList]

theorem Clause.fallsPlacedList_of_append {may : Bool} {skipped rest : List Clause}
    (h : Clause.fallsPlacedList may (skipped ++ rest)) : Clause.fallsPlacedList may rest := by
  induction skipped with
  | nil => exact h
  | cons c skipped ih =>
    simp only [List.cons_append, Clause.fallsPlacedList_cons, Bool.and_eq_true] at h
    exact ih h.2

/-- Clauses take every `fallthrough` themselves. -/
theorem Runs.clauses_ne_fell (h : Runs never code o)
    {clauses : List Clause} (hc : code = .clauses clauses) : o ≠ .fell := by
  induction h generalizing clauses with
  | clause _ ho _ => exact ho
  | fallInto _ _ _ ih' => exact ih' rfl
  | fallOff => simp
  | _ => cases hc

theorem Outcome.after_ne_fell {label : Option Ident} (h : o ≠ .fell) : o.after label ≠ .fell := by
  unfold Outcome.after
  split
  · simp
  · exact h

/-- Where every `fallthrough` is well placed, only code that may fall through does. -/
theorem Runs.may_of_fell (h : Runs never code o) (ho : o = .fell)
    {may : Bool} (hp : code.fallsPlaced may) : may := by
  induction h generalizing may with
  | plain | value | halt | returns | breaks | continues | neither | stop | leave | forever | pickNone
  | pickNoVariant | done | fallOff => cases ho
  | fallsThrough => simpa [Code.fallsPlaced, Stmt.fallsPlaced] using hp
  | block h ih =>
    simp only [Code.fallsPlaced, Stmt.fallsPlaced, Block.fallsPlaced_eq] at hp
    exact ih ho hp
  | consequent _ ih | alternative _ ih | pass _ _ _ ih =>
    -- nothing falls out of a branch or a loop
    simp only [Code.fallsPlaced, Stmt.fallsPlaced, Stmt.fallsPlacedOption, Block.fallsPlaced_eq, Bool.and_eq_true] at hp
    exact absurd (ih ho (by simp [Code.fallsPlaced, hp])) Bool.false_ne_true
  | again h hr h' _ ih' => exact ih' ho hp
  | pick _ h ih | pickVariant _ h ih => exact absurd ho (Outcome.after_ne_fell (h.clauses_ne_fell rfl))
  | next h h' _ ih' =>
    simp only [Code.fallsPlaced, Stmt.fallsPlacedList, Bool.and_eq_true] at hp
    exact ih' ho hp.2
  | exit h _ ih =>
    simp only [Code.fallsPlaced, Stmt.fallsPlacedList, Bool.and_eq_true] at hp
    exact (Bool.and_eq_true_iff.mp (ih ho hp.1)).1
  | clause _ ho' _ => exact absurd ho ho'
  | fallInto _ h' _ _ => exact absurd ho (h'.clauses_ne_fell rfl)

/-! ## Termination -/

/-- The analysis of expression statements finds exactly the calls of what never returns. -/
theorem Expr.diverges_iff (e : Expr) : e.diverges never ↔ e.NeverReturns never := by
  constructor
  · intro h
    fun_induction Expr.unparen e with
    | case1 node inner ih => exact .paren (ih (by simpa [Expr.diverges, Expr.unparen] using h))
    | case2 e hparen =>
      cases e <;> simp [Expr.diverges, Expr.unparen] at h
      · exact absurd rfl (hparen _ _)
      · exact .call h
  · intro h
    induction h with
    | call h => simpa [Expr.diverges, Expr.unparen] using h
    | paren _ ih => simpa [Expr.diverges, Expr.unparen] using ih

@[simp]
theorem Block.terminates_eq (never : Expr → Bool) (b : Block) :
    b.terminates never = Stmt.terminatesList never b.stmts := by
  cases b
  simp [Block.terminates]

@[simp]
theorem Clause.terminateAll_cons (never : Expr → Bool) (label : Option String) (c : Clause) (rest : List Clause) :
    Clause.terminateAll never label (c :: rest) =
      (Stmt.terminatesList never c.stmts && !Stmt.breaksList label true c.stmts &&
        Clause.terminateAll never label rest) := by
  cases c
  simp [Clause.terminateAll]

theorem Clause.terminateAll_of_append {skipped rest : List Clause}
    (h : Clause.terminateAll never label (skipped ++ rest)) : Clause.terminateAll never label rest := by
  induction skipped with
  | nil => exact h
  | cons c skipped ih =>
    simp only [List.cons_append, Clause.terminateAll_cons, Bool.and_eq_true] at h
    exact ih h.2

/-- Clauses that terminate have no break that ends their switch. -/
theorem Clause.not_breaksList_of_terminateAll {clauses : List Clause}
    (h : Clause.terminateAll never label clauses) : ¬ Clause.breaksList label true clauses := by
  induction clauses with
  | nil => simp [Clause.breaksList]
  | cons c rest ih =>
    simp only [Clause.terminateAll_cons, Bool.and_eq_true, Bool.not_eq_true'] at h
    simp [h.1.2, ih h.2]

/-- A switch whose clauses terminate does not complete by running one of them. -/
theorem Runs.after_ne_normal {label : Option Ident} {clauses : List Clause}
    (h : Runs never (.clauses clauses) o) (ht : Clause.terminateAll never (label.map Node.name) clauses)
    (ho : o ≠ .normal) : o.after label ≠ .normal := by
  have hleaves : ¬ o.leaves label := by
    intro hl
    cases o with
    | broken target =>
      have hb := h.breaks_of_broken rfl (breakCounts_of_takesExit hl)
      exact Clause.not_breaksList_of_terminateAll ht hb
    | _ => simp [Outcome.leaves] at hl
  simpa [Outcome.after, hleaves] using ho

/-- Code that the analysis accepts has no run that completes, if every `fallthrough` in it is well placed. -/
theorem Runs.not_normal (h : Runs never code o)
    (label : Option String) (may : Bool) (hp : code.fallsPlaced may) (ht : code.terminates never label) :
    o ≠ .normal := by
  induction h generalizing label may with
  | plain h => cases ‹Stmt› <;> simp_all [Stmt.isPlain, Code.terminates, Stmt.terminates]
  | value h => exact absurd ((Expr.diverges_iff _).mp (by simpa [Code.terminates, Stmt.terminates] using ht)) h
  | halt | returns | breaks | continues | fallsThrough | forever => simp
  | block _ ih =>
    simp only [Code.fallsPlaced, Stmt.fallsPlaced, Block.fallsPlaced_eq] at hp
    simp only [Code.terminates, Stmt.terminates, Block.terminates_eq] at ht
    exact ih none _ hp ht
  | consequent _ ih | alternative _ ih =>
    simp only [Code.fallsPlaced, Stmt.fallsPlaced, Stmt.fallsPlacedOption, Block.fallsPlaced_eq, Bool.and_eq_true] at hp
    simp only [Code.terminates, Stmt.terminates, Stmt.terminatesElse, Block.terminates_eq, Bool.and_eq_true] at ht
    exact ih none false (by simp [Code.fallsPlaced, hp]) (by simp [Code.terminates, ht])
  | neither => simp [Code.terminates, Stmt.terminates, Stmt.terminatesElse] at ht
  | stop => simp [Code.terminates, Stmt.terminates] at ht
  | leave h hl _ =>
    -- the loop counts the break that its body ends in
    simp only [Code.terminates, Stmt.terminates, Block.breaks_eq, Bool.and_eq_true, Bool.not_eq_true'] at ht
    cases ‹Outcome› with
    | broken target =>
      have hb := h.breaks_of_broken rfl (breakCounts_of_takesExit hl)
      exact absurd hb (by simpa [Code.breaks] using ht.2)
    | _ => simp [Outcome.leaves] at hl
  | again _ _ _ _ ih' => exact ih' label may hp ht
  | pass _ _ hr _ =>
    rintro rfl
    exact hr rfl
  | pick _ h ih =>
    simp only [Code.fallsPlaced, Stmt.fallsPlaced, Bool.and_eq_true] at hp
    simp only [Code.terminates, Stmt.terminates, Bool.and_eq_true] at ht
    have hrest := Clause.terminateAll_of_append ht.1
    exact h.after_ne_normal hrest
      (ih _ true (Clause.fallsPlacedList_of_append hp.2) (by simpa [Code.terminates] using hrest))
  | pickVariant _ h ih =>
    simp only [Code.fallsPlaced, Stmt.fallsPlaced] at hp
    simp only [Code.terminates, Stmt.terminates, Bool.and_eq_true] at ht
    have hrest := Clause.terminateAll_of_append ht.1
    exact h.after_ne_normal hrest
      (ih _ false (Clause.fallsPlacedList_of_append hp) (by simpa [Code.terminates] using hrest))
  | pickNone h | pickNoVariant h =>
    simp only [Code.terminates, Stmt.terminates, Bool.and_eq_true, List.any_eq_true] at ht
    obtain ⟨c, hc, hd⟩ := ht.2
    exact absurd hd (h c hc)
  | done => simp [Code.terminates, Stmt.terminatesList] at ht
  | next h h' ih ih' =>
    simp only [Code.fallsPlaced, Stmt.fallsPlacedList, Bool.and_eq_true] at hp
    simp only [Code.terminates, Stmt.terminatesList] at ht
    split at ht
    · exact absurd rfl (ih none _ hp.1 ht)
    · exact ih' none _ hp.2 ht
  | exit _ ho _ => exact ho
  | clause h _ ih =>
    simp only [Code.fallsPlaced, Clause.fallsPlacedList_cons, Bool.and_eq_true] at hp
    simp only [Code.terminates, Clause.terminateAll_cons, Bool.and_eq_true] at ht
    exact ih none _ hp.1 ht.2.1.1
  | fallInto h h' _ ih' =>
    simp only [Code.fallsPlaced, Clause.fallsPlacedList_cons, Bool.and_eq_true] at hp
    simp only [Code.terminates, Clause.terminateAll_cons, Bool.and_eq_true] at ht
    -- a clause that falls through is not the last one
    have hnext := Bool.and_eq_true_iff.mp (h.may_of_fell rfl hp.1)
    exact ih' label may hp.2 (by simpa [Code.terminates, ht.2.2] using hnext.2)
  | fallOff => simp [Code.terminates] at ht

end Statics
